import ScriptVars.Proofs.Composition
import ScriptVars.Proofs.Observation
import ScriptVars.Proofs.StreamInvariants

/-!
# Saves one after the other

A stream may hold any number of saves, with or without strings.  As many loads read them back, and
each stops where its save ends, for a section of strings is not begun by what follows.

* `Session.Part`              what is written of a session;
* `Session.Part.Writable`     a part that nothing stands in the way of;
* `StartsOver`                bytes that do not go on with strings;
* `Session.Part.load_ahead`   one load, whatever save comes after it;
* `Session.loads_in_turn`     all of them.
-/

namespace ScriptVars

open ScriptVars.Action

/-! ## What does not go on with strings -/

/-- the end, or another save -/
inductive StartsOver : List UInt8 → Prop where
  | nil : StartsOver []
  | arrays (version : UInt32) (rest : List UInt8) :
    StartsOver ((⟨SaveFormat.arrayStart, version, []⟩ : Record).encode ++ rest)

theorem startsOver_bytesOf (version : UInt32) (l : List (UInt32 × ArrayVar)) (rest : List UInt8) :
    StartsOver (ArrayStore.bytesOf version l ++ rest) := by
  rw [ArrayStore.bytesOf, sectionOf, List.flatMap_cons, List.append_assoc]
  exact .arrays version _

/-- the stream stays where it is -/
theorem StringStore.load_of_startsOver (m : ModuleMap) (report : LoadReport) (t : StringStore)
    {taken rest : List UInt8} {s : Stream} (hs : s.Stands taken rest) (hrest : StartsOver rest) :
    ∃ s', load m report (t, s) = .ok report (t, s') ∧ s'.Stands [] rest := by
  rw [load]
  cases hrest with
  | nil =>
    have hend : s.slice s.recordEnd (s.recordEnd + Header.size) = [] := by
      rw [Stream.slice_eq, hs.drop_recordEnd, List.take_nil]
    have hn : Stream.next s = .ok none { s with position := s.recordEnd } := by
      rw [Stream.next_eq]
      exact if_pos hend
    refine ⟨{ s with position := s.recordEnd }, (bind_of_ok (x := get) rfl).trans ?_,
      hs.drop_recordEnd, rfl⟩
    exact (bind_of_ok (onStream_of_ok hn)).trans rfl
  | arrays version rest =>
    obtain ⟨s₁, hn, hs₁⟩ := hs.next rfl (Nat.pow_pos (by decide))
    have hbytes : s₁.bytes = s.bytes := Stream.guarded_next.ok hn
    have hin : s.recordEnd ≤ s.bytes.size := by
      have hlen := congrArg List.length hs.drop_recordEnd
      rw [List.length_drop, Array.length_toList, List.length_append, Record.encode,
        List.length_append, List.length_append, Bytes.length_ofNat] at hlen
      omega
    have hseek := Stream.seek_eq s.recordEnd s₁
    rw [if_neg (by rw [hbytes]; omega)] at hseek
    refine ⟨{ s₁ with position := s.recordEnd, recordEnd := s.recordEnd },
      (bind_of_ok (x := get) rfl).trans ((bind_of_ok (onStream_of_ok hn)).trans ?_), ?_, rfl⟩
    · show (if SaveFormat.arrayStart = SaveFormat.stringStart then _ else _ :
        Action (StringStore × Stream) LoadReport) _ = _
      rw [if_neg (by decide)]
      exact (bind_of_ok (onStream_of_ok hseek)).trans rfl
    · show s₁.bytes.toList.drop s.recordEnd = _
      rw [hbytes]
      exact hs.drop_recordEnd

/-! ## Parts -/

namespace Session

/-- what is written of a session: all of it, or its arrays alone -/
structure Part where
  session : Session
  whole : Bool

namespace Part

def write (p : Part) : Action Stream SaveReport :=
  if p.whole then p.session.save
  else p.session.arrays.save p.session.config.saveVersion p.session.config.skipPendingOnSave

def writeAll : List Part → Action Stream Unit
  | [] => pure ()
  | p :: parts => do
    let _ ← p.write
    writeAll parts

/-- the session, as far as it is written -/
def kept (p : Part) : Session := if p.whole then p.session else { p.session with strings := .empty }

/-- what is written if nothing is refused -/
def bytes (p : Part) : List UInt8 :=
  ArrayStore.bytesOf p.session.config.saveVersion p.session.arrays.toList ++
    if p.whole then StringStore.bytesOf p.session.strings.toList else []

structure Writable (p : Part) : Prop where
  version : SaveFormat.checkVersion p.session.config.saveVersion = .ok ()
  arrays : Written (ArrayStore.body p.session.config.saveVersion) p.session.arrays.toList
  strings : p.whole → Written StringStore.body p.session.strings.toList

variable {p : Part} {m : ModuleMap}

theorem write_eq_ok (hskip : p.session.config.skipPendingOnSave = false) {report : SaveReport}
    {s s' : Stream} (h : p.write s = .ok report s') :
    p.Writable ∧ s'.bytes.toList = s.bytes.toList ++ p.bytes := by
  obtain ⟨u, whole⟩ := p
  have harrays : ∀ {report s₁}, u.arrays.save u.config.saveVersion u.config.skipPendingOnSave s =
        .ok report s₁ → SaveFormat.checkVersion u.config.saveVersion = .ok () ∧
      Written (ArrayStore.body u.config.saveVersion) u.arrays.toList ∧
      s₁.bytes.toList = s.bytes.toList ++ ArrayStore.bytesOf u.config.saveVersion u.arrays.toList := by
    intro report s₁ h
    obtain ⟨_, _, hdemand, h₁⟩ := bind_eq_ok.1 h
    obtain ⟨hv, rfl⟩ := demand_eq_ok.1 hdemand
    obtain ⟨_, _, hwrite, h₂⟩ := bind_eq_ok.1 h₁
    obtain ⟨-, rfl⟩ := pure_eq_ok.1 h₂
    obtain ⟨ha, rfl⟩ := Stream.writeRecords_eq_ok hwrite
    rw [show u.config.skipPendingOnSave = false from hskip] at ha ⊢
    obtain ⟨hw, hb⟩ := ArrayStore.written_of_records ha
    exact ⟨hv, hw, by rw [Stream.toList_bytes_append, hb]⟩
  cases whole with
  | false =>
    obtain ⟨hv, hw, hb⟩ := harrays h
    exact ⟨⟨hv, hw, nofun⟩, hb.trans (congrArg _ (List.append_nil _).symm)⟩
  | true =>
    obtain ⟨_, s₁, ha, h₁⟩ := bind_eq_ok.1 h
    obtain ⟨hv, hw, hb⟩ := harrays ha
    obtain ⟨_, s₂, hstrings, h₂⟩ := bind_eq_ok.1 h₁
    obtain ⟨-, rfl⟩ := pure_eq_ok.1 h₂
    obtain ⟨_, _, hwrite, h₃⟩ := bind_eq_ok.1 hstrings
    obtain ⟨-, rfl⟩ := pure_eq_ok.1 h₃
    obtain ⟨hs, rfl⟩ := Stream.writeRecords_eq_ok hwrite
    obtain ⟨hw', hb'⟩ := StringStore.written_of_records hs
    refine ⟨⟨hv, hw, fun _ => hw'⟩, ?_⟩
    rw [Stream.toList_bytes_append, hb', hb, List.append_assoc]
    rfl

/-- what can be written onto one stream can be written onto any other -/
theorem exists_write {report : SaveReport} {s s' : Stream} (h : p.write s = .ok report s')
    (stream : Stream) : ∃ report stream', p.write stream = .ok report stream' := by
  obtain ⟨u, whole⟩ := p
  cases whole with
  | false => exact ArrayStore.exists_save.2 (ArrayStore.exists_save.1 ⟨_, _, h⟩)
  | true =>
    obtain ⟨harrays, hstrings⟩ := exists_save.1 ⟨_, _, h⟩
    exact exists_save.2 ⟨ArrayStore.exists_save.2 (ArrayStore.exists_save.1 harrays), hstrings⟩

/-- a load takes what was written of one part, whatever save comes after it -/
theorem load_ahead (hp : p.Writable) (hs : p.session.Reachable) {modules : ModuleMap} {u : Session}
    (hm : modules.keep u.config.dynamicModule = m) {taken rest : List UInt8} {stream : Stream}
    (hstream : stream.Stands taken (p.bytes ++ rest)) (hrest : StartsOver rest) :
    ∃ t stream' taken', load modules (u, stream) = .ok (p.kept.repairs m) (t, stream') ∧
      stream'.Stands taken' rest ∧ Restored m p.kept t := by
  obtain ⟨s, whole⟩ := p
  cases whole with
  | false =>
    have hbytes : (Part.bytes ⟨s, false⟩ ++ rest) =
        ArrayStore.bytesOf s.config.saveVersion s.arrays.toList ++ rest :=
      congrArg (· ++ rest) (List.append_nil _)
    rw [hbytes] at hstream
    obtain ⟨read, s₁, body₁, hload, hs₁, hread⟩ := ArrayStore.load_written (m := m) hp.arrays
      hs.fits hp.version (fun p _ => u.arrays.find?_beginLoad p.1) hstream
    obtain ⟨s₂, hload', hs₂⟩ := StringStore.load_of_startsOver m _ u.beginLoad.strings hs₁ hrest
    obtain ⟨t, hl, hr⟩ := load_sections (s := Part.kept ⟨s, false⟩) hm rfl hload hread hload'
      (loads_nil _ _)
    exact ⟨t, s₂, [], hl, hs₂, hr⟩
  | true =>
    have hbytes : (Part.bytes ⟨s, true⟩ ++ rest) =
        ArrayStore.bytesOf s.config.saveVersion s.arrays.toList ++
          (StringStore.bytesOf s.strings.toList ++ rest) := List.append_assoc ..
    rw [hbytes] at hstream
    obtain ⟨read, s₁, body₁, hload, hs₁, hread⟩ := ArrayStore.load_written (m := m) hp.arrays
      hs.fits hp.version (fun p _ => u.arrays.find?_beginLoad p.1) hstream
    obtain ⟨strings, s₂, body₂, hload', hs₂, hread'⟩ := StringStore.load_written (m := m)
      (hp.strings rfl) (fun p _ => u.strings.find?_beginLoad p.1) _ hs₁
    obtain ⟨t, hl, hr⟩ := load_sections (s := s) hm rfl hload hread hload' hread'
    exact ⟨t, s₂, body₂, hl, hs₂, hr⟩

theorem startsOver_flatMap (parts : List Part) : StartsOver (parts.flatMap bytes) := by
  cases parts with
  | nil => exact .nil
  | cons p parts =>
    rw [List.flatMap_cons, bytes, List.append_assoc]
    exact startsOver_bytesOf ..

theorem writeAll_eq_ok {parts : List Part}
    (hskip : ∀ p ∈ parts, p.session.config.skipPendingOnSave = false) {s s' : Stream}
    (h : writeAll parts s = .ok () s') :
    (∀ p ∈ parts, ∃ saved written, p.write .empty = .ok saved written) ∧
      s'.bytes.toList = s.bytes.toList ++ parts.flatMap bytes := by
  induction parts generalizing s with
  | nil =>
    obtain ⟨-, rfl⟩ := pure_eq_ok.1 h
    exact ⟨List.forall_mem_nil _, (List.append_nil _).symm⟩
  | cons p parts ih =>
    obtain ⟨hp, hparts⟩ := List.forall_mem_cons.1 hskip
    obtain ⟨_, s₁, hwrite, h⟩ := bind_eq_ok.1 h
    obtain ⟨-, hb⟩ := write_eq_ok hp hwrite
    obtain ⟨hall, hb'⟩ := ih hparts h
    refine ⟨List.forall_mem_cons.2 ⟨exists_write hwrite .empty, hall⟩, ?_⟩
    rw [hb', hb, List.append_assoc, List.flatMap_cons]

/-- a load that comes to what the part alone holds, and moves on by the bytes of the part -/
structure Takes (m : ModuleMap) (p : Part) (u : Session) (stream : Stream) (t : Session)
    (stream' : Stream) : Prop where
  loads : ∃ report saved written t', load m (u, stream) = .ok report (t, stream') ∧
    p.write .empty = .ok saved written ∧
    ofBytes u.config m written.bytes.toList = .ok (report, t') ∧ t.Indistinct t' ∧
    stream'.recordEnd = stream.recordEnd + written.bytes.size
  bytes : stream'.bytes = stream.bytes
  noStrings : p.whole = false → t.strings.toList = []

/-- one load for each part, up to the end of the stream -/
inductive LoadsInTurn (m : ModuleMap) : List Part → Session → Stream → Prop where
  | nil {u : Session} {stream : Stream} (h : stream.recordEnd = stream.bytes.size) :
    LoadsInTurn m [] u stream
  | cons {p : Part} {parts : List Part} {u t : Session} {stream stream' : Stream}
    (hp : p.Takes m u stream t stream') (hparts : LoadsInTurn m parts t stream') :
    LoadsInTurn m (p :: parts) u stream

theorem exists_takes (hs : p.session.Reachable)
    (hskip : p.session.config.skipPendingOnSave = false) {saved : SaveReport} {written : Stream}
    (hwrite : p.write .empty = .ok saved written) (m : ModuleMap) {u : Session} (hu : u.Reachable)
    {taken rest : List UInt8} {stream : Stream} (hstream : stream.Stands taken (p.bytes ++ rest))
    (hrest : StartsOver rest) (hin : stream.InBounds) :
    ∃ t stream' taken', p.Takes m u stream t stream' ∧ t.Reachable ∧ stream'.InBounds ∧
      stream'.Stands taken' rest := by
  obtain ⟨hp, hbytes⟩ := write_eq_ok hskip hwrite
  replace hbytes : written.bytes.toList = p.bytes := hbytes
  have halone : (Stream.ofBytes p.bytes).Stands [] (p.bytes ++ []) := by
    rw [List.append_nil]
    exact Stream.stands_ofBytes p.bytes
  obtain ⟨t, stream', taken', hload, hstream', hr⟩ := load_ahead hp hs rfl hstream hrest
  obtain ⟨t', _, _, hload', -, hr'⟩ := load_ahead hp hs (u := .start u.config) rfl halone .nil
  have hkept : stream'.bytes = stream.bytes := (guarded_load m).ok hload
  have hin' : stream'.InBounds := by
    have h := keepsStream_load (Stream.invariant_holds 0) m (s := (u, stream)) ⟨hin, Nat.zero_le _⟩
    rw [after, hload] at h
    exact h.1
  have hend : stream'.recordEnd = stream.recordEnd + written.bytes.size := by
    have hlen := congrArg List.length hstream.drop_recordEnd
    have hlen' := congrArg List.length hstream'.drop_recordEnd
    rw [List.length_drop, Array.length_toList] at hlen hlen'
    rw [List.length_append, ← hbytes, Array.length_toList] at hlen
    rw [hkept] at hlen'
    have hle := hin.recordEnd
    have hle' := hin'.recordEnd
    rw [hkept] at hle'
    omega
  have hsame : t.Indistinct t' := hr.indistinct hr' (ended_of_load hu hload)
    (ended_of_load (.start u.config) hload')
    ((config_of_load hload).trans (config_of_load hload').symm)
  refine ⟨t, stream', taken', ⟨⟨_, saved, written, t', hload, hwrite, ?_, hsame, hend⟩, hkept,
    fun hwhole => ?_⟩, hu.of_load hload, hin', hstream'⟩
  · rw [hbytes, ofBytes, hload']
    rfl
  · refine List.eq_nil_iff_forall_not_mem.2 fun q hq => ?_
    obtain ⟨v, hv, -⟩ := hr.mem_strings hq
    rw [kept, if_neg (by rw [hwhole]; decide)] at hv
    cases hv

theorem loadsInTurn_of_stands {parts : List Part} (hs : ∀ p ∈ parts, p.session.Reachable)
    (hskip : ∀ p ∈ parts, p.session.config.skipPendingOnSave = false)
    (hwrite : ∀ p ∈ parts, ∃ saved written, p.write .empty = .ok saved written) (m : ModuleMap)
    {u : Session} (hu : u.Reachable) {taken : List UInt8} {stream : Stream}
    (hstream : stream.Stands taken (parts.flatMap bytes)) (hin : stream.InBounds) :
    LoadsInTurn m parts u stream := by
  induction parts generalizing u taken stream with
  | nil =>
    refine .nil (Nat.le_antisymm hin.recordEnd ?_)
    have hlen := congrArg List.length hstream.drop_recordEnd
    rw [List.length_drop, Array.length_toList] at hlen
    exact Nat.le_of_sub_eq_zero hlen
  | cons p parts ih =>
    obtain ⟨hs, hs'⟩ := List.forall_mem_cons.1 hs
    obtain ⟨hskip, hskip'⟩ := List.forall_mem_cons.1 hskip
    obtain ⟨⟨saved, written, hwrite⟩, hwrite'⟩ := List.forall_mem_cons.1 hwrite
    obtain ⟨t, stream', taken', hp, ht, hin', hstream'⟩ :=
      exists_takes hs hskip hwrite m hu hstream (startsOver_flatMap parts) hin
    exact .cons hp (ih hs' hskip' hwrite' ht hstream' hin')

end Part

/-- What is written one part after the other is read one part after the other.  Every load takes
the bytes of its part and comes to what they hold when they are loaded alone, and the last one ends
where the stream ends. -/
theorem loads_in_turn {parts : List Part} (hs : ∀ p ∈ parts, p.session.Reachable)
    (hskip : ∀ p ∈ parts, p.session.config.skipPendingOnSave = false) {written : Stream}
    (h : Part.writeAll parts .empty = .ok () written) (m : ModuleMap) {u : Session}
    (hu : u.Reachable) : Part.LoadsInTurn m parts u (Stream.ofBytes written.bytes.toList) := by
  obtain ⟨hwrite, hbytes⟩ := Part.writeAll_eq_ok hskip h
  rw [show written.bytes.toList = parts.flatMap Part.bytes from hbytes]
  exact Part.loadsInTurn_of_stands hs hskip hwrite m hu (Stream.stands_ofBytes _)
    (Stream.inBounds_ofBytes _)

/-- arrays alone, nothing at all, and strings in between -/
theorem loads_in_turn_mixed :
    ∃ written, Part.writeAll [⟨mixed, false⟩, ⟨mixed, true⟩, ⟨start .standard, false⟩] .empty =
        .ok () written ∧
      Part.LoadsInTurn .identity [⟨mixed, false⟩, ⟨mixed, true⟩, ⟨start .standard, false⟩]
        (start .standard) (Stream.ofBytes written.bytes.toList) := by
  have hwritten : (match Part.writeAll [⟨mixed, false⟩, ⟨mixed, true⟩, ⟨start .standard, false⟩]
        .empty with
      | .ok _ _ => true
      | .error _ _ => false) = true := by decide +kernel
  cases h : Part.writeAll [⟨mixed, false⟩, ⟨mixed, true⟩, ⟨start .standard, false⟩] .empty with
  | error f s =>
    rw [h] at hwritten
    cases hwritten
  | ok u written =>
    refine ⟨written, rfl, loads_in_turn (fun p hp => ?_) (by decide +kernel) h .identity
      (.start .standard)⟩
    simp only [List.mem_cons, List.not_mem_nil, or_false] at hp
    rcases hp with rfl | rfl | rfl
    · exact reachable_mixed
    · exact reachable_mixed
    · exact .start .standard

end Session

end ScriptVars
