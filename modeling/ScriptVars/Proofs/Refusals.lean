import ScriptVars.Proofs.LoadedState

/-!
# Loads that are refused

A load is refused because the bytes are malformed, with one exception: a text of an array may get
too long when its damaged parts are replaced, and is then refused like a text that a script writes.

* `LoadRefusal`              why some bytes are refused;
* `Reader.Careful`           readers that are refused for nothing else;
* `Guarded`                  the same for what reads a stream;
* `ArrayStore.loadRecords_fuel`, `StringStore.loadRecords_fuel`   a section always comes to an end;
* `Session.guarded_load`     all of a load.
-/

namespace ScriptVars

open ScriptVars.Action

/-! ## Readers -/

/-- why some bytes are refused -/
inductive LoadRefusal (bytes : List UInt8) : Failure → Prop where
  | malformed (cause : Malformation) : LoadRefusal bytes (.format cause)
  | grown {raw : List UInt8} (hin : raw <:+: bytes) (hsize : raw.length ≤ maxTextBytes)
    (hlong : maxTextBytes < (Utf8.repair raw).utf8ByteSize) :
    LoadRefusal bytes (.typeMismatch (.textTooLong (Utf8.repair raw).utf8ByteSize maxTextBytes))

theorem LoadRefusal.mono {part bytes : List UInt8} {f : Failure} (h : LoadRefusal part f)
    (hp : part <:+: bytes) : LoadRefusal bytes f := by
  cases h with
  | malformed cause => exact .malformed cause
  | grown hin hsize hlong => exact .grown (hin.trans hp) hsize hlong

namespace Reader

variable {α β : Type}

/-- what it does to the end `rest` of some bytes: it leaves an end of them, or is refused for their
sake -/
structure CarefulOn (bytes : List UInt8) (r : Reader α) (rest : List UInt8) : Prop where
  ok : ∀ {a left}, r rest = .ok a left → left <:+ bytes
  error : ∀ {f left}, r rest = .error f left → LoadRefusal bytes f

def Careful (r : Reader α) : Prop := ∀ bytes, CarefulOn bytes r bytes

theorem Careful.on {r : Reader α} (hr : r.Careful) {bytes rest : List UInt8} (h : rest <:+ bytes) :
    CarefulOn bytes r rest where
  ok hok := ((hr rest).ok hok).trans h
  error herr := ((hr rest).error herr).mono h.isInfix

/-- what was read before may say why the rest is refused -/
theorem CarefulOn.bind {r : Reader α} {g : α → Reader β} {bytes rest : List UInt8}
    (hr : CarefulOn bytes r rest)
    (hg : ∀ {a rest'}, r rest = .ok a rest' → rest' <:+ bytes → CarefulOn bytes (g a) rest') :
    CarefulOn bytes (r >>= g) rest where
  ok h := by
    obtain ⟨a, rest', ha, h⟩ := bind_eq_ok.1 h
    exact (hg ha (hr.ok ha)).ok h
  error h := by
    rcases bind_eq_error.1 h with h | ⟨a, rest', ha, h⟩
    · exact hr.error h
    · exact (hg ha (hr.ok ha)).error h

theorem Careful.bind {r : Reader α} {g : α → Reader β} (hr : r.Careful)
    (hg : ∀ a, (g a).Careful) : (r >>= g).Careful := fun bytes =>
  (hr bytes).bind fun _ hrest => (hg _).on hrest

theorem careful_pure (a : α) : Careful (pure a : Reader α) := fun _ =>
  { ok := fun h => (pure_eq_ok.1 h).2 ▸ List.suffix_rfl
    error := nofun }

theorem careful_throw (cause : Malformation) : Careful (throw (.format cause) : Reader α) :=
  fun _ =>
    { ok := fun h => absurd h throw_eq_ok
      error := fun h => by
        cases h
        exact .malformed cause }

/-- a check that may be refused for the sake of what was read before -/
theorem carefulOn_demand {c : Except Failure α} {bytes rest : List UInt8} (hrest : rest <:+ bytes)
    (h : ∀ {f}, c = .error f → LoadRefusal bytes f) :
    CarefulOn bytes (demand c : Reader α) rest where
  ok hok := (demand_eq_ok.1 hok).2 ▸ hrest
  error herr := by
    cases c <;> cases herr
    exact h rfl

theorem careful_require (cause : Malformation) (o : Option α) :
    Careful (require (.format cause) o : Reader α) := by
  cases o with
  | none => exact careful_throw cause
  | some a => exact careful_pure a

theorem take_eq_ok {n : Nat} {bytes taken left : List UInt8} (h : take n bytes = .ok taken left) :
    bytes = taken ++ left ∧ taken.length = n := by
  rw [take_eq] at h
  cases hs : Bytes.splitAt? n bytes <;> rw [hs] at h <;> cases h
  exact Bytes.append_of_splitAt? hs

theorem careful_take (n : Nat) : Careful (take n) := by
  intro bytes
  refine ⟨fun h => ⟨_, (take_eq_ok h).1.symm⟩, fun h => ?_⟩
  rw [take_eq] at h
  cases hs : Bytes.splitAt? n bytes <;> rw [hs] at h <;> cases h
  exact .malformed _

theorem careful_nat (count : Nat) : Careful (nat count) :=
  (careful_take count).bind fun _ => careful_pure _

theorem careful_byte : Careful byte := (careful_nat 1).bind fun _ => careful_pure _

theorem careful_word : Careful word := (careful_nat 4).bind fun _ => careful_pure _

theorem careful_number : Careful number := (careful_nat 8).bind fun _ => careful_pure _

theorem careful_text : Careful text :=
  (careful_nat 2).bind fun _ => (careful_take _).bind fun _ => careful_pure _

theorem careful_repeated {r : Nat → Reader α} (hr : ∀ i, Careful (r i)) (count : Nat) :
    Careful (repeated r count) := by
  have h : ∀ count i done, Careful (repeatedFrom r count i done) := by
    intro count
    induction count with
    | zero => exact fun _ _ => careful_pure _
    | succ count ih => exact fun i done => (hr i).bind fun a => ih (i + 1) (a :: done)
  exact h count 0 []

/-- where a text comes from -/
theorem of_text {bytes left : List UInt8} {s : String} (h : text bytes = .ok s left) :
    ∃ raw, raw <:+: bytes ∧ raw.length ≤ maxTextBytes ∧ s = Utf8.repair raw := by
  obtain ⟨length, rest, hn, h₁⟩ := bind_eq_ok.1 h
  obtain ⟨raw, rest', hraw, h₂⟩ := bind_eq_ok.1 h₁
  obtain ⟨rfl, -⟩ := pure_eq_ok.1 h₂
  obtain ⟨taken, rest'', htaken, h₃⟩ := bind_eq_ok.1 hn
  obtain ⟨rfl, rfl⟩ := pure_eq_ok.1 h₃
  obtain ⟨rfl, htwo⟩ := take_eq_ok htaken
  obtain ⟨rfl, hlength⟩ := take_eq_ok hraw
  have hlt := Bytes.toNat_lt taken
  rw [htwo] at hlt
  refine ⟨raw, ⟨taken, rest', List.append_assoc ..⟩, ?_, rfl⟩
  rw [hlength]
  exact Nat.le_of_lt_succ hlt

/-- a text is too long only if it has grown -/
theorem refusal_of_text {bytes left : List UInt8} {s : String} {f : Failure}
    (h : text bytes = .ok s left) (hc : checkText s = .error f) : LoadRefusal bytes f := by
  obtain ⟨raw, hin, hsize, rfl⟩ := of_text h
  rw [checkText] at hc
  split at hc <;> cases hc
  next hlong => exact .grown hin hsize hlong

theorem refusal_of_key {type : KeyType} {k : Key} {bytes left : List UInt8} {f : Failure}
    (h : key type bytes = .ok k left) (hc : k.checkText = .error f) : LoadRefusal bytes f := by
  cases k with
  | number x => cases hc
  | text s =>
    have htext : ∃ rest, text bytes = .ok s rest := by
      cases type with
      | number =>
        obtain ⟨x, rest, -, h⟩ := bind_eq_ok.1 h
        cases (pure_eq_ok.1 h).1
      | text | invalid =>
        obtain ⟨s', rest, ht, h⟩ := bind_eq_ok.1 h
        cases (pure_eq_ok.1 h).1
        exact ⟨rest, ht⟩
    obtain ⟨rest, ht⟩ := htext
    exact refusal_of_text ht hc

theorem refusal_of_element {e : Element} {bytes left : List UInt8} {f : Failure}
    (h : element bytes = .ok e left) (hc : e.checkText = .error f) : LoadRefusal bytes f := by
  obtain ⟨code, rest, hb, h₁⟩ := bind_eq_ok.1 h
  obtain ⟨type, rest', hr, h₂⟩ := bind_eq_ok.1 h₁
  obtain ⟨-, rfl⟩ := require_eq_ok.1 hr
  cases e with
  | string s =>
    have htext : ∃ left, text rest' = .ok s left := by
      cases type with
      | invalid => cases (pure_eq_ok.1 h₂).1
      | string =>
        obtain ⟨s', left, ht, h₃⟩ := bind_eq_ok.1 h₂
        cases (pure_eq_ok.1 h₃).1
        exact ⟨left, ht⟩
      | number | form | array =>
        obtain ⟨_, _, -, h₃⟩ := bind_eq_ok.1 h₂
        cases (pure_eq_ok.1 h₃).1
    obtain ⟨left, ht⟩ := htext
    exact (refusal_of_text ht hc).mono ((careful_byte bytes).ok hb).isInfix
  | _ => cases hc

theorem careful_payload (type : ElementType) : Careful (payload type) := by
  cases type with
  | invalid => exact careful_pure _
  | number => exact careful_number.bind fun _ => careful_pure _
  | form => exact careful_word.bind fun _ => careful_pure _
  | string => exact careful_text.bind fun _ => careful_pure _
  | array => exact careful_word.bind fun _ => careful_pure _

theorem careful_element : Careful element :=
  careful_byte.bind fun _ => (careful_require _ _).bind fun _ => careful_payload _

theorem careful_key (type : KeyType) : Careful (key type) := by
  cases type with
  | number => exact careful_number.bind fun _ => careful_pure _
  | text | invalid => exact careful_text.bind fun _ => careful_pure _

/-- the texts of an entry are looked at after all of it is read -/
theorem careful_entry (id : UInt32) (kind : ArrayKind) (i : Nat) : Careful (entry id kind i) := by
  intro bytes
  refine (careful_key kind.keyType bytes).bind fun {k rest} hk hrest => ?_
  have hchecked : CarefulOn bytes (do
      let e ← element
      demand k.checkText
      demand e.checkText
      return (k, e) : Reader (Key × Element)) rest := by
    refine (careful_element.on hrest).bind fun {e rest'} he hrest' => ?_
    refine (carefulOn_demand hrest' (refusal_of_key hk)).bind fun {_ _} _ hrest'' => ?_
    refine (carefulOn_demand hrest'' fun hc => ?_).bind fun {_ _} _ hrest => ?_
    · exact (refusal_of_element he hc).mono hrest.isInfix
    · exact (careful_pure _).on hrest
  dsimp only
  split
  · exact ((careful_throw _).on hrest).bind fun h => absurd h throw_eq_ok
  · exact hchecked

theorem careful_kind (id : UInt32) : Careful (kind id) :=
  careful_byte.bind fun _ => (careful_require _ _).bind fun _ => careful_byte.bind fun _ =>
    careful_require _ _

theorem careful_refs (version : UInt32) : Careful (refs version) := by
  rw [refs]
  split
  · exact (careful_nat 4).bind fun _ => careful_repeated (fun _ => careful_byte) _
  · exact careful_pure _

theorem careful_savedArray (id version : UInt32) : Careful (savedArray id version) :=
  (careful_kind id).bind fun kind => (careful_refs version).bind fun _ =>
    (careful_nat 4).bind fun _ => (careful_repeated (careful_entry id kind) _).bind fun _ =>
      careful_pure _

theorem careful_savedString : Careful savedString := by
  refine careful_byte.bind fun owner => careful_word.bind fun id => careful_text.bind fun data => ?_
  dsimp only
  split
  · exact (careful_throw _).bind fun _ => careful_pure _
  · exact careful_pure _

theorem handleOf_ne_of_savedString {saved : SavedString} {bytes left : List UInt8}
    (h : savedString bytes = .ok saved left) : handleOf saved.id ≠ 0 := by
  obtain ⟨owner, _, -, h₁⟩ := bind_eq_ok.1 h
  obtain ⟨raw, _, -, h₂⟩ := bind_eq_ok.1 h₁
  obtain ⟨data, _, -, h₃⟩ := bind_eq_ok.1 h₂
  dsimp only at h₃
  split at h₃
  · obtain ⟨_, _, h₄, -⟩ := bind_eq_ok.1 h₃
    exact absurd h₄ throw_eq_ok
  · next hz =>
    obtain ⟨rfl, -⟩ := pure_eq_ok.1 h₃
    rwa [handleOf_handleOf]

end Reader

/-! ## Streams -/

section
variable {τ σ α β : Type} {stream : τ → Stream}

/-- keeps the bytes of the stream, and is refused only for their sake -/
structure Guarded (stream : τ → Stream) (x : Action τ α) : Prop where
  ok : ∀ {p a q}, x p = .ok a q → (stream q).bytes = (stream p).bytes
  error : ∀ {p f q}, x p = .error f q →
    (stream q).bytes = (stream p).bytes ∧ LoadRefusal (stream p).bytes.toList f

theorem Guarded.bytes_after {x : Action τ α} (hx : Guarded stream x) (p : τ) :
    (stream (x.after p)).bytes = (stream p).bytes := by
  rw [after]
  cases h : x p with
  | ok a q => exact hx.ok h
  | error f q => exact (hx.error h).1

theorem Guarded.bind_of_ok {x : Action τ α} {g : α → Action τ β} (hx : Guarded stream x)
    (hg : ∀ {p a q}, x p = .ok a q → Guarded stream (g a)) : Guarded stream (x >>= g) where
  ok h := by
    obtain ⟨a, t, ha, h⟩ := bind_eq_ok.1 h
    exact ((hg ha).ok h).trans (hx.ok ha)
  error h := by
    rcases bind_eq_error.1 h with h | ⟨a, t, ha, h⟩
    · exact hx.error h
    · obtain ⟨hb, hf⟩ := (hg ha).error h
      exact ⟨hb.trans (hx.ok ha), hx.ok ha ▸ hf⟩

theorem Guarded.bind {x : Action τ α} {g : α → Action τ β} (hx : Guarded stream x)
    (hg : ∀ a, Guarded stream (g a)) : Guarded stream (x >>= g) := hx.bind_of_ok fun _ => hg _

theorem guarded_pure (a : α) : Guarded stream (pure a : Action τ α) where
  ok h := congrArg (fun q => (stream q).bytes) (pure_eq_ok.1 h).2
  error := nofun

theorem guarded_get : Guarded stream (get : Action τ τ) where
  ok h := congrArg (fun q => (stream q).bytes) (get_eq_ok.1 h).2
  error := nofun

theorem guarded_throw (cause : Malformation) :
    Guarded stream (throw (.format cause) : Action τ α) where
  ok h := absurd h throw_eq_ok
  error h := by
    cases h
    exact ⟨rfl, .malformed cause⟩

theorem guarded_throw_bind (cause : Malformation) (g : α → Action τ β) :
    Guarded stream (throw (.format cause) >>= g) :=
  (guarded_throw cause).bind_of_ok fun h => absurd h throw_eq_ok

theorem guarded_require (cause : Malformation) (o : Option α) :
    Guarded stream (require (.format cause) o : Action τ α) := by
  cases o with
  | none => exact guarded_throw cause
  | some a => exact guarded_pure a

theorem guarded_checkVersion (version : UInt32) :
    Guarded stream (demand (SaveFormat.checkVersion version) : Action τ Unit) := by
  rw [SaveFormat.checkVersion]
  split
  · exact guarded_pure ()
  · exact guarded_throw _

theorem Stream.guarded_next : Guarded id Stream.next where
  ok {s o s'} h := by
    rw [next_eq] at h
    dsimp only at h
    repeat' split at h
    all_goals cases h
    all_goals rfl
  error {s f s'} h := by
    rw [next_eq] at h
    dsimp only at h
    repeat' split at h
    all_goals cases h
    all_goals exact ⟨rfl, .malformed _⟩

theorem Stream.isInfix_unread (s : Stream) : s.unread <:+: s.bytes.toList := by
  rw [unread, slice_eq]
  exact (List.take_prefix _ _).isInfix.trans (List.drop_suffix _ _).isInfix

theorem Stream.guarded_read {r : Reader α} (hr : r.Careful) : Guarded id (Stream.read r) where
  ok {s a s'} h := by
    rw [read] at h
    split at h
    · cases h
    · split at h <;> cases h
      rfl
  error {s f s'} h := by
    rw [read] at h
    split at h
    · cases h
      exact ⟨rfl, .malformed _⟩
    · split at h
      · cases h
      · next left herr =>
        cases h
        exact ⟨rfl, ((hr _).error herr).mono s.isInfix_unread⟩

theorem Stream.guarded_seek (position : Nat) : Guarded id (Stream.seek position) := by
  constructor
  · intro s a s' h
    rw [Stream.seek_eq] at h
    split at h <;> cases h
    rfl
  · intro s f s' h
    rw [Stream.seek_eq] at h
    split at h <;> cases h
    exact ⟨rfl, .malformed _⟩

theorem Guarded.onStream {x : Action Stream α} (hx : Guarded id x) :
    Guarded Prod.snd (onStream x : Action (σ × Stream) α) where
  ok h := hx.ok (onStream_eq_ok h).1
  error {p f q} h := by
    rw [Action.onStream] at h
    cases hp : x p.2 <;> rw [hp] at h <;> cases h
    exact hx.error hp

theorem guarded_nextInSection (sort : VariableSort) :
    Guarded Prod.snd (nextInSection sort : Action (σ × Stream) Header) :=
  Stream.guarded_next.onStream.bind fun _ => guarded_require _ _

/-- a variable goes in behind a handle, so that only its id can be refused -/
theorem guarded_insertNew {id : UInt32} (hid : handleOf id ≠ 0) (value : α) (cause : Malformation)
    (b : β) :
    Guarded Prod.snd (do
      let (s, stream) ← get
      if s.contains id then throw (.format cause)
      let s ← demand (s.bind id value)
      set (s, stream)
      return b : Action (HandleTable α × Stream) β) where
  ok h := congrArg Stream.bytes (insertNew_eq_ok h).2.1
  error {p f q} h := by
    rcases bind_eq_error.1 h with h₁ | ⟨_, _, hg, h₁⟩
    · cases h₁
    obtain ⟨rfl, rfl⟩ := get_eq_ok.1 hg
    dsimp only at h₁
    split at h₁
    · rcases bind_eq_error.1 h₁ with h₂ | ⟨_, _, h₂, -⟩
      · cases h₂
        exact ⟨rfl, .malformed _⟩
      · exact absurd h₂ throw_eq_ok
    · rw [HandleTable.bind, dif_neg hid] at h₁
      cases h₁

end

/-! ## Sections -/

namespace ArrayStore

theorem guarded_loadRecord (m : ModuleMap) (version : UInt32) (report : LoadReport) :
    Guarded Prod.snd (loadRecord m version report) := by
  refine (Stream.guarded_read Reader.careful_byte).onStream.bind fun owner => ?_
  refine (Stream.guarded_read Reader.careful_word).onStream.bind fun raw => ?_
  dsimp only
  split
  · exact guarded_throw_bind _ _
  next hid =>
  have hself : handleOf (handleOf raw) ≠ 0 := by rwa [handleOf_handleOf]
  cases m.resolve owner with
  | none => exact guarded_pure _
  | some owner =>
    refine (Stream.guarded_read (Reader.careful_savedArray _ _)).onStream.bind fun saved => ?_
    exact guarded_insertNew hself _ _ _

theorem guarded_loadRecords (m : ModuleMap) (fuel : Nat) (report : LoadReport) :
    Guarded Prod.snd (loadRecords m fuel report) := by
  induction fuel generalizing report with
  | zero => exact guarded_throw _
  | succ fuel ih =>
    refine (guarded_nextInSection .array).bind fun header => ?_
    split
    · exact guarded_pure _
    split
    · exact (guarded_checkVersion _).bind fun _ => (guarded_loadRecord m _ _).bind ih
    · exact guarded_throw _

theorem guarded_load (m : ModuleMap) : Guarded Prod.snd (load m) := by
  refine Stream.guarded_next.onStream.bind fun o => (guarded_require _ o).bind fun header => ?_
  dsimp only
  split
  · exact guarded_throw_bind _ _
  refine (guarded_checkVersion _).bind fun _ => guarded_get.bind fun p => ?_
  refine (guarded_loadRecords m _ _).bind fun report => ⟨?_, ?_⟩
  · rintro _ _ _ ⟨⟩
    rfl
  · rintro _ _ _ ⟨⟩

end ArrayStore

namespace StringStore

theorem guarded_loadRecord (m : ModuleMap) (report : LoadReport) :
    Guarded Prod.snd (loadRecord m report) := by
  refine (Stream.guarded_read Reader.careful_savedString).onStream.bind_of_ok fun {p saved q} h => ?_
  obtain ⟨left, hsaved⟩ := ArrayStore.exists_of_read h
  have hid := Reader.handleOf_ne_of_savedString hsaved
  dsimp only
  cases m.resolve saved.owner with
  | none => exact guarded_pure _
  | some owner => exact guarded_insertNew hid _ _ _

theorem guarded_loadRecords (m : ModuleMap) (fuel : Nat) (report : LoadReport) :
    Guarded Prod.snd (loadRecords m fuel report) := by
  induction fuel generalizing report with
  | zero => exact guarded_throw _
  | succ fuel ih =>
    refine (guarded_nextInSection .string).bind fun header => ?_
    split
    · exact guarded_pure _
    split
    · exact (guarded_loadRecord m _).bind ih
    · exact guarded_throw _

theorem guarded_load (m : ModuleMap) (report : LoadReport) : Guarded Prod.snd (load m report) := by
  refine guarded_get.bind fun p => Stream.guarded_next.onStream.bind fun o => ?_
  cases o with
  | none => exact guarded_pure _
  | some header =>
    dsimp only
    split
    · exact guarded_loadRecords m _ _
    · exact (Stream.guarded_seek _).onStream.bind fun _ => guarded_pure _

end StringStore

/-! ## Fuel -/

theorem Action.bind_congr_of_ok {σ α β : Type} {x : Action σ α} {g g' : α → Action σ β} {s : σ}
    (h : ∀ {a t}, x s = .ok a t → g a t = g' a t) : (x >>= g) s = (x >>= g') s := by
  show EStateM.bind x g s = EStateM.bind x g' s
  rw [EStateM.bind, EStateM.bind]
  cases hx : x s with
  | ok a t => exact h hx
  | error f t => rfl

/-- every record takes some bytes of the stream -/
theorem length_ahead_nextInSection {σ : Type} {sort : VariableSort} {header : Header}
    {p q : σ × Stream} (h : nextInSection sort p = .ok header q) :
    q.2.ahead.length < p.2.ahead.length := by
  obtain ⟨-, r, hr, -⟩ := nextInSection_eq_ok h
  have hsize : 4 ≤ r.encode.length := by
    rw [Record.encode, List.length_append, List.length_append, Bytes.length_ofNat]
    omega
  rw [hr, List.length_append]
  omega

/-- the loop over the records of arrays ends before its fuel does -/
theorem ArrayStore.loadRecords_fuel (m : ModuleMap) {fuel fuel' : Nat} (report : LoadReport)
    {p : ArrayStore × Stream} (h : p.2.ahead.length < fuel) (h' : p.2.ahead.length < fuel') :
    loadRecords m fuel report p = loadRecords m fuel' report p := by
  induction fuel generalizing fuel' report p with
  | zero => omega
  | succ fuel ih =>
    cases fuel' with
    | zero => omega
    | succ fuel' =>
      refine bind_congr_of_ok fun {header q} hn => ?_
      have hlt := length_ahead_nextInSection hn
      split
      · rfl
      split
      · refine bind_congr_of_ok fun hd => ?_
        obtain ⟨-, rfl⟩ := demand_eq_ok.1 hd
        refine bind_congr_of_ok fun {report' r} hr => ?_
        have hahead := (adds_loadRecord hr).2
        rw [← hahead] at hlt
        exact ih report' (by omega) (by omega)
      · rfl

/-- the loop over the records of strings ends before its fuel does -/
theorem StringStore.loadRecords_fuel (m : ModuleMap) {fuel fuel' : Nat} (report : LoadReport)
    {p : StringStore × Stream} (h : p.2.ahead.length < fuel) (h' : p.2.ahead.length < fuel') :
    loadRecords m fuel report p = loadRecords m fuel' report p := by
  induction fuel generalizing fuel' report p with
  | zero => omega
  | succ fuel ih =>
    cases fuel' with
    | zero => omega
    | succ fuel' =>
      refine bind_congr_of_ok fun {header q} hn => ?_
      have hlt := length_ahead_nextInSection hn
      split
      · rfl
      split
      · refine bind_congr_of_ok fun {report' r} hr => ?_
        have hahead := (adds_loadRecord hr).2
        rw [← hahead] at hlt
        exact ih report' (by omega) (by omega)
      · rfl

/-! ## Sessions -/

namespace Session

section
variable {β : Type}

theorem guarded_onArrays {x : Action (ArrayStore × Stream) β} (hx : Guarded Prod.snd x) :
    Guarded Prod.snd (onArrays x) where
  ok h := hx.ok (onArrays_eq_ok h).1
  error {p f q} h := by
    rw [onArrays] at h
    cases hp : x (p.1.arrays, p.2) <;> rw [hp] at h <;> cases h
    exact hx.error hp

theorem guarded_onStrings {x : Action (StringStore × Stream) β} (hx : Guarded Prod.snd x) :
    Guarded Prod.snd (onStrings x) where
  ok h := hx.ok (onStrings_eq_ok h).1
  error {p f q} h := by
    rw [onStrings] at h
    cases hp : x (p.1.strings, p.2) <;> rw [hp] at h <;> cases h
    exact hx.error hp

theorem guarded_replacing {x : Action (Session × Stream) β} (hx : Guarded Prod.snd x) :
    Guarded Prod.snd (replacing x) where
  ok {p a q} h := by
    obtain ⟨u, hu, -⟩ := replacing_eq_ok h
    exact hx.ok (p := (p.1.beginLoad, p.2)) (q := (u, q.2)) hu
  error {p f q} h := by
    rw [replacing] at h
    cases hp : x (p.1.beginLoad, p.2) with
    | ok a q =>
      rw [hp] at h
      cases h
    | error f' r =>
      rw [hp] at h
      cases h
      exact hx.error (p := (p.1.beginLoad, p.2)) (q := r) hp

end

theorem guarded_load (m : ModuleMap) : Guarded Prod.snd (load m) := by
  refine guarded_get.bind fun p => guarded_replacing ?_
  refine (guarded_onArrays (ArrayStore.guarded_load _)).bind fun report => ?_
  exact guarded_onStrings (StringStore.guarded_load _ report)

end Session

end ScriptVars
