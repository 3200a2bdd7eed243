import ScriptVars.Proofs.Refusals

/-!
# Texts that grow

A damaged byte becomes a character of three bytes.  So a text of a save may be short enough to be
written and too long once it is read, and it is refused then as no other part of a save is.

* `Utf8.utf8ByteSize_repair_replicate`   how much a text may grow;
* `Reader.Refuses`                       readers that refuse what some bytes start with;
* `Session.keyedBy`                      a save with a text for a key;
* `Session.load_keyedBy`                 what becomes of it when the text grows too long;
* `Session.refusal_of_load`              what a load refuses.
-/

namespace ScriptVars

open ScriptVars.Action

/-! ## Damaged texts -/

namespace Utf8

theorem decodeFrom_replicate (n : Nat) (done : List (Option Char)) :
    decodeFrom done none (List.replicate n 0xFF) = done.reverse ++ List.replicate n none := by
  induction n generalizing done with
  | zero => exact (List.append_nil _).symm
  | succ n ih =>
    have hstep : decodeFrom done none (0xFF :: List.replicate n 0xFF) =
        decodeFrom (none :: done) none (List.replicate n 0xFF) := rfl
    rw [List.replicate_succ, hstep, ih, List.reverse_cons, List.append_assoc, List.replicate_succ]
    rfl

/-- each byte that starts no character becomes three bytes -/
theorem utf8ByteSize_repair_replicate (n : Nat) :
    (repair (List.replicate n 0xFF)).utf8ByteSize = n * 3 := by
  have hrepair : repair (List.replicate n 0xFF) = String.ofList (List.replicate n replacement) := by
    rw [repair, decode, decodeFrom_replicate, List.reverse_nil, List.nil_append, List.map_replicate]
    rfl
  have hthree : (String.utf8EncodeChar replacement).length = 3 := by decide
  rw [hrepair, utf8ByteSize_replicate, hthree]

end Utf8

/-! ## Readers that refuse -/

namespace Reader

variable {α β : Type} {b c : List UInt8} {f : Failure}

/-- refuses what starts with some bytes -/
def Refuses (r : Reader α) (bytes : List UInt8) (f : Failure) : Prop :=
  ∀ rest, ∃ left, r (bytes ++ rest) = .error f left

theorem Refuses.bind {r : Reader α} (hr : r.Refuses b f) (g : α → Reader β) :
    (r >>= g).Refuses b f := fun rest =>
  (hr rest).imp fun _ h => bind_eq_error.2 (.inl h)

/-- a value is read before the bytes are refused -/
theorem Takes.refuses {r : Reader α} {g : α → Reader β} {a : α} (hr : r.Takes b a)
    (hg : (g a).Refuses c f) : (r >>= g).Refuses (b ++ c) f := fun rest => by
  obtain ⟨left, h⟩ := hg rest
  refine ⟨left, ?_⟩
  rw [List.append_assoc, bind_of_ok (hr (c ++ rest)), h]

theorem refuses_demand {d : Except Failure α} (h : d = .error f) :
    Refuses (Action.demand d) [] f := by
  rw [h]
  exact fun rest => ⟨rest, rfl⟩

/-- the first of several values is refused -/
theorem refuses_repeated {r : Nat → Reader α} (hr : (r 0).Refuses b f) (count : Nat) :
    (repeated r (count + 1)).Refuses b f := hr.bind fun a => repeatedFrom r count 1 [a]

theorem takes_rawText {raw : List UInt8} (h : raw.length ≤ maxTextBytes) :
    Takes text (Bytes.ofNat 2 raw.length ++ raw) (Utf8.repair raw) := by
  have htake : Takes (take raw.length) raw raw := takes_take rfl
  exact (takes_nat (Nat.lt_succ_of_le h)).bind (htake.map Utf8.repair)

/-! ## Saves that are refused -/

/-- the record of an array behind its owner and id: an element without a value, whose key is a
text -/
def keyedBody (raw : List UInt8) : List UInt8 :=
  [KeyType.text.code, 0] ++
    (Bytes.ofNat 4 0 ++ (Bytes.ofNat 4 1 ++ (Bytes.ofNat 2 raw.length ++ raw ++ [0])))

variable {raw : List UInt8}

theorem refuses_entry (hsize : raw.length ≤ maxTextBytes)
    (hlong : maxTextBytes < (Utf8.repair raw).utf8ByteSize) (id : UInt32) (i : Nat) :
    (entry id .stringMap i).Refuses (Bytes.ofNat 2 raw.length ++ raw ++ [0])
      (.typeMismatch (.textTooLong (Utf8.repair raw).utf8ByteSize maxTextBytes)) := by
  have hkey : Takes (key .text) (Bytes.ofNat 2 raw.length ++ raw) (.text (Utf8.repair raw)) :=
    (takes_rawText hsize).map Key.text
  have helement : Takes element ([0] ++ []) .invalid :=
    (takes_byte 0).bind ((takes_require _ rfl).skip (takes_pure _))
  have hcheck : (Key.text (Utf8.repair raw)).checkText =
      .error (.typeMismatch (.textTooLong (Utf8.repair raw).utf8ByteSize maxTextBytes)) :=
    if_pos hlong
  exact hkey.refuses (helement.refuses ((refuses_demand hcheck).bind _))

theorem refuses_savedArray (hsize : raw.length ≤ maxTextBytes)
    (hlong : maxTextBytes < (Utf8.repair raw).utf8ByteSize) (id : UInt32) :
    (savedArray id SaveFormat.currentVersion).Refuses (keyedBody raw)
      (.typeMismatch (.textTooLong (Utf8.repair raw).utf8ByteSize maxTextBytes)) := by
  have hkind : Takes (kind id) [KeyType.text.code, 0] .stringMap := takes_kind id .stringMap
  have hcount : Takes (nat 4) (Bytes.ofNat 4 0) 0 := takes_nat (by decide)
  have hrefs : Takes (refs SaveFormat.currentVersion) (Bytes.ofNat 4 0 ++ []) [] :=
    hcount.bind (takes_pure [])
  have hsome : Takes (nat 4) (Bytes.ofNat 4 1) 1 := takes_nat (by decide)
  exact hkind.refuses (hrefs.refuses (hsome.refuses
    ((refuses_repeated (refuses_entry hsize hlong id 0) 0).bind _)))

end Reader

theorem Stream.Stands.read_error {α : Type} {r : Reader α} {body rest : List UInt8} {s : Stream}
    {f : Failure} (h : s.Stands body rest) (hr : r.Refuses body f) :
    ∃ s', Stream.read r s = .error f s' := by
  have hover : ¬ s.recordEnd < s.position := by
    rw [h.recordEnd]
    omega
  obtain ⟨left, hr⟩ := hr []
  rw [List.append_nil] at hr
  refine ⟨{ s with position := s.recordEnd - left.length }, ?_⟩
  rw [Stream.read, if_neg hover, h.unread, hr]

/-- a save of one array of some module, with a text for its key -/
def Session.keyedBy (owner : UInt8) (raw : List UInt8) : List UInt8 :=
  let start : Record := ⟨SaveFormat.arrayStart, SaveFormat.currentVersion, []⟩
  let array : Record := ⟨SaveFormat.arrayRecord, SaveFormat.currentVersion,
    [owner] ++ (Bytes.ofNat 4 1 ++ Reader.keyedBody raw)⟩
  let stop : Record := ⟨SaveFormat.arrayEnd, SaveFormat.currentVersion, []⟩
  start.encode ++ (array.encode ++ stop.encode)

section
variable {m : ModuleMap} {owner owner' : UInt8} {raw : List UInt8}

theorem ArrayStore.loadRecord_keyedBody (howner : m.resolve owner = some owner')
    (hsize : raw.length ≤ maxTextBytes) (hlong : maxTextBytes < (Utf8.repair raw).utf8ByteSize)
    (report : LoadReport) (t : ArrayStore) {rest : List UInt8} {s : Stream}
    (hs : s.Stands ([owner] ++ (Bytes.ofNat 4 1 ++ Reader.keyedBody raw)) rest) :
    ∃ p, loadRecord m SaveFormat.currentVersion report (t, s) =
      .error (.typeMismatch (.textTooLong (Utf8.repair raw).utf8ByteSize maxTextBytes)) p := by
  obtain ⟨s₁, hr₁, hs₁⟩ := hs.read (Reader.takes_byte owner)
  obtain ⟨s₂, hr₂, hs₂⟩ := hs₁.read (Reader.takes_word 1)
  obtain ⟨s₃, hr₃⟩ := hs₂.read_error (Reader.refuses_savedArray hsize hlong (handleOf 1))
  refine ⟨(t, s₃), ?_⟩
  rw [loadRecord, bind_of_ok (onStream_of_ok hr₁), bind_of_ok (onStream_of_ok hr₂)]
  dsimp only
  rw [if_neg (by decide), howner]
  refine bind_eq_error.2 (.inl ?_)
  rw [onStream, hr₃]

theorem ArrayStore.load_keyedBy (howner : m.resolve owner = some owner')
    (hsize : raw.length ≤ maxTextBytes) (hlong : maxTextBytes < (Utf8.repair raw).utf8ByteSize)
    (t : ArrayStore) :
    ∃ p, load m (t, Stream.ofBytes (Session.keyedBy owner raw)) =
      .error (.typeMismatch (.textTooLong (Utf8.repair raw).utf8ByteSize maxTextBytes)) p := by
  have hlength : ([owner] ++ (Bytes.ofNat 4 1 ++ Reader.keyedBody raw)).length <
      Bytes.capacity 4 := by
    rw [maxTextBytes] at hsize
    show _ < 4294967296
    simp only [Reader.keyedBody, List.length_append, List.length_cons, List.length_nil,
      Bytes.length_ofNat]
    omega
  have htag : SaveFormat.arrayRecord ≠ SaveFormat.arrayEnd := by decide
  obtain ⟨s₁, hn₁, hs₁⟩ := (Stream.stands_ofBytes (Session.keyedBy owner raw)).next rfl
    (Nat.pow_pos (by decide))
  obtain ⟨s₂, hn₂, hs₂⟩ := hs₁.next rfl hlength
  obtain ⟨p, hp⟩ := loadRecord_keyedBody howner hsize hlong (.start SaveFormat.currentVersion) t hs₂
  refine ⟨p, ?_⟩
  rw [load, bind_of_ok (onStream_of_ok hn₁)]
  refine (bind_of_ok (x := Action.require _ _) rfl).trans ?_
  rw [if_neg (not_not.2 rfl)]
  refine (bind_of_ok (x := Action.demand _) rfl).trans ((bind_of_ok (x := get) rfl).trans ?_)
  refine bind_eq_error.2 (.inl ?_)
  rw [loadRecords, bind_of_ok (nextInSection_of_ok .array hn₂)]
  refine (congrFun ((if_neg htag).trans (if_pos rfl)) _).trans ?_
  refine (bind_of_ok (x := Action.demand _) rfl).trans ?_
  exact bind_eq_error.2 (.inl hp)

/-- a save whose text grows too long is refused by every session -/
theorem Session.load_keyedBy (m : ModuleMap) (s : Session) {raw : List UInt8}
    (hsize : raw.length ≤ maxTextBytes) (hlong : maxTextBytes < (Utf8.repair raw).utf8ByteSize) :
    ∃ p, load m (s, Stream.ofBytes (keyedBy s.config.dynamicModule raw)) =
      .error (.typeMismatch (.textTooLong (Utf8.repair raw).utf8ByteSize maxTextBytes)) p := by
  have howner : (m.keep s.config.dynamicModule).resolve s.config.dynamicModule =
      some s.config.dynamicModule := if_pos rfl
  obtain ⟨p, hp⟩ := ArrayStore.load_keyedBy howner hsize hlong s.beginLoad.arrays
  have hrun : loadSections (m.keep s.config.dynamicModule)
      (s.beginLoad, Stream.ofBytes (keyedBy s.config.dynamicModule raw)) =
      .error (.typeMismatch (.textTooLong (Utf8.repair raw).utf8ByteSize maxTextBytes))
        ({ s.beginLoad with arrays := p.1 }, p.2) := by
    refine bind_eq_error.2 (.inl ?_)
    rw [onArrays, hp]
  refine ⟨(endLoad { s.beginLoad with arrays := p.1 } false, p.2), ?_⟩
  refine (bind_of_ok (x := get) rfl).trans ?_
  show replacing _ (s, Stream.ofBytes (keyedBy s.config.dynamicModule raw)) = _
  rw [replacing, hrun]

end

namespace Session

/-- damage all through a text that could just be written -/
theorem load_damaged :
    ∃ p, load .identity (start .standard, Stream.ofBytes
        (keyedBy dynamicModule (List.replicate maxTextBytes 0xFF))) =
      .error (.typeMismatch (.textTooLong 196605 maxTextBytes)) p := by
  have hgrown : (Utf8.repair (List.replicate maxTextBytes 0xFF)).utf8ByteSize = 196605 :=
    Utf8.utf8ByteSize_repair_replicate maxTextBytes
  have hsize : (List.replicate maxTextBytes (0xFF : UInt8)).length = maxTextBytes :=
    List.length_replicate
  have h := load_keyedBy .identity (start .standard) (Nat.le_of_eq hsize)
    (hgrown.symm ▸ (by decide : maxTextBytes < 196605))
  rwa [hgrown] at h

/-- a load ends, and what it refuses is malformed, or has a text that gets too long -/
theorem refusal_of_load (m : ModuleMap) (s : Session) (stream : Stream) :
    (∀ {f p}, load m (s, stream) = .error f p → LoadRefusal stream.bytes.toList f) ∧
    (∀ {fuel fuel'} report {p : ArrayStore × Stream}, p.2.ahead.length < fuel →
      p.2.ahead.length < fuel' →
      ArrayStore.loadRecords m fuel report p = ArrayStore.loadRecords m fuel' report p) ∧
    ∀ {fuel fuel'} report {p : StringStore × Stream}, p.2.ahead.length < fuel →
      p.2.ahead.length < fuel' →
      StringStore.loadRecords m fuel report p = StringStore.loadRecords m fuel' report p :=
  ⟨fun h => ((guarded_load m).error h).2, ArrayStore.loadRecords_fuel m,
    StringStore.loadRecords_fuel m⟩

theorem refusal_of_load_damaged :
    LoadRefusal (keyedBy dynamicModule (List.replicate maxTextBytes 0xFF))
        (.typeMismatch (.textTooLong 196605 maxTextBytes)) ∧
      ArrayStore.loadRecords .identity 1 (.start 2) (.empty, .empty) =
        ArrayStore.loadRecords .identity 2 (.start 2) (.empty, .empty) ∧
      StringStore.loadRecords .identity 1 (.start 2) (.empty, .empty) =
        StringStore.loadRecords .identity 2 (.start 2) (.empty, .empty) := by
  obtain ⟨p, hp⟩ := load_damaged
  refine ⟨?_, ?_, ?_⟩
  · exact (refusal_of_load .identity (start .standard) (Stream.ofBytes
      (keyedBy dynamicModule (List.replicate maxTextBytes 0xFF)))).1 hp
  · exact (refusal_of_load .identity (start .standard) .empty).2.1 (.start 2) (by decide) (by decide)
  · exact (refusal_of_load .identity (start .standard) .empty).2.2 (.start 2) (by decide) (by decide)

/-- so a save can be refused as something that a script may carry on after -/
theorem load_not_only_malformed :
    ¬ ∀ (m : ModuleMap) (s : Session) (bytes : List UInt8),
      (∃ report p, load m (s, Stream.ofBytes bytes) = .ok report p) ∨
      ∃ f p, load m (s, Stream.ofBytes bytes) = .error f p ∧ (∃ cause, f = .format cause) ∧
        f.isRecoverable = false := by
  intro h
  obtain ⟨p, hp⟩ := load_damaged
  rcases h .identity (start .standard) (keyedBy dynamicModule (List.replicate maxTextBytes 0xFF))
    with ⟨report, q, hq⟩ | ⟨f, q, hq, ⟨cause, rfl⟩, -⟩
  · rw [hp] at hq
    cases hq
  · rw [hp] at hq
    cases hq

end Session

end ScriptVars
