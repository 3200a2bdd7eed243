import ScriptVars.Proofs.Contents
import ScriptVars.Proofs.Restore
import ScriptVars.Proofs.Sections

/-!
# What was loaded

Whatever a save holds, a session that was loaded from it is in order: only modules that are there
occur in it, its arrays name arrays of its own, and the report tells how many there are.

* `ModuleMap.Reaches`      the new index of some module;
* `Session.Loaded`         what a load leaves in a session;
* `SectionIn`              a section at the front of some bytes;
* `Session.Counts`         what the report on a load counts.
-/

namespace ScriptVars

open ScriptVars.Action

/-! ## Single values -/

/-- some module has the index `new` now -/
def ModuleMap.Reaches (m : ModuleMap) (new : UInt8) : Prop := ∃ old, m.resolve old = some new

/-- forms of modules that are there, and null forms -/
def ModuleMap.ReachesForm (m : ModuleMap) (e : Element) : Prop :=
  ∀ form, e = .form form → form = 0 ∨ m.Reaches (form >>> 24).toUInt8

/-- the top byte is the new index -/
theorem ModuleMap.reachesForm_resolveElement (m : ModuleMap) (e : Element) :
    m.ReachesForm (m.resolveElement e) := by
  intro form hf
  cases e with
  | form old =>
    obtain rfl : (m.resolveForm old).getD 0 = form := Element.form.inj hf
    rw [resolveForm]
    split
    · exact .inl rfl
    · cases hr : m.resolve (moduleOfForm old) with
      | none => exact .inl rfl
      | some new =>
        refine .inr ⟨moduleOfForm old, ?_⟩
        show m.resolve (moduleOfForm old) = some ((UInt32.ofNat _ >>> 24).toUInt8)
        rw [hr, ← moduleOfForm_eq, moduleOfForm_ofNat]
  | _ => cases hf

/-- the key that no array that is read has -/
def Key.negativeZero : Key := .number ⟨0x8000000000000000⟩

theorem Key.ofNumber_ne_negativeZero (x : Number) : ofNumber x ≠ negativeZero := by
  intro h
  have hx : x.foldZero = ⟨0x8000000000000000⟩ := Key.number.inj h
  rw [Number.foldZero] at hx
  split at hx
  · exact absurd hx (by decide)
  · next hz =>
    subst hx
    exact hz (by decide)

theorem Reader.ne_negativeZero_of_key {type : KeyType} {k : Key} {bytes left : List UInt8}
    (h : key type bytes = .ok k left) : k ≠ Key.negativeZero := by
  cases type with
  | number =>
    obtain ⟨x, _, -, h⟩ := bind_eq_ok.1 h
    obtain ⟨rfl, -⟩ := pure_eq_ok.1 h
    exact Key.ofNumber_ne_negativeZero x
  | text =>
    obtain ⟨x, _, -, h⟩ := bind_eq_ok.1 h
    obtain ⟨rfl, -⟩ := pure_eq_ok.1 h
    nofun
  | invalid =>
    obtain ⟨x, _, -, h⟩ := bind_eq_ok.1 h
    obtain ⟨rfl, -⟩ := pure_eq_ok.1 h
    nofun

/-! ## Sections -/

/-- a section at the front of some bytes, with the records of its variables -/
inductive SectionIn (first each last : Tag) : (bytes : List UInt8) → List Record →
    (rest : List UInt8) → Prop where
  | mk {start stop : Record} {records : List Record} {rest : List UInt8} (hstart : start.Is first)
    (hrecords : ∀ r ∈ records, r.Is each) (hstop : stop.Is last) :
    SectionIn first each last ((start :: (records ++ [stop])).flatMap Record.encode ++ rest)
      records rest

theorem ReadToEnd.sectionIn {α : Type} {P : α → Prop} {sort : VariableSort} {first each last : Tag}
    {report report' : LoadReport} {p q : HandleTable α × Stream} {records : List Record}
    (h : ReadToEnd P sort each last report report' p q records) {bytes : List UInt8} {start : Record}
    (hb : bytes = start.encode ++ p.2.ahead) (hs : start.Is first) :
    SectionIn first each last bytes records q.2.ahead := by
  obtain ⟨stop, hstop, hahead⟩ := h.ahead
  have hbytes : bytes = (start :: (records ++ [stop])).flatMap Record.encode ++ q.2.ahead := by
    rw [hb, hahead, List.flatMap_cons, List.flatMap_append, List.flatMap_singleton, List.append_assoc,
      List.append_assoc]
  rw [hbytes]
  exact .mk hs h.tags hstop

/-- another record at the front of some bytes, or none -/
inductive NoSection (first : Tag) : List UInt8 → Prop where
  | ended : NoSection first []
  | other {r : Record} {tag : Tag} {rest : List UInt8} (his : r.Is tag)
    (hsize : tag.bytes.length = 4) (hne : tag ≠ first) : NoSection first (r.encode ++ rest)

/-! ## Arrays -/

/-- the modules that occur in an array are there -/
structure ArrayVar.Resolved (m : ModuleMap) (E : Element → Prop) (a : ArrayVar) : Prop where
  owner : m.Reaches a.owner
  refs : ∀ r ∈ a.refs, m.Reaches r
  contents : a.storage.Holds (· ≠ Key.negativeZero) E

theorem SavedArray.resolved_resolve {m : ModuleMap} {saved : SavedArray}
    (hkeys : ∀ p ∈ saved.entries, p.1 ≠ Key.negativeZero) {old owner : UInt8}
    (ho : m.resolve old = some owner) : (saved.resolve m owner).Resolved m m.ReachesForm where
  owner := ⟨old, ho⟩
  refs r hr := by
    obtain ⟨x, -, hx⟩ := List.mem_filterMap.1 hr
    exact ⟨x, hx⟩
  contents := by
    refine Storage.holds_storageFrom fun q hq => ?_
    obtain ⟨p, hp, rfl⟩ := List.mem_map.1 hq
    exact ⟨hkeys p hp, m.reachesForm_resolveElement p.2⟩

namespace ArrayStore

variable {m : ModuleMap} {version : UInt32} {report report' : LoadReport} {p q : ArrayStore × Stream}

theorem adds_loadRecord (h : loadRecord m version report p = .ok report' q) :
    Adds (ArrayVar.Resolved m m.ReachesForm) .array 1 report report' p.1 q.1 ∧
      q.2.ahead = p.2.ahead := by
  obtain ⟨owner, p₁, hr, h⟩ := bind_eq_ok.1 h
  obtain ⟨ht₁, ha₁⟩ := onStream_read hr
  obtain ⟨raw, p₂, hr, h⟩ := bind_eq_ok.1 h
  obtain ⟨ht₂, ha₂⟩ := onStream_read hr
  dsimp only at h
  split at h
  · obtain ⟨_, _, h, -⟩ := bind_eq_ok.1 h
    exact absurd h throw_eq_ok
  cases ho : m.resolve owner with
  | none =>
    rw [ho] at h
    obtain ⟨rfl, rfl⟩ := pure_eq_ok.1 h
    rw [ha₂, ha₁, ht₂, ht₁]
    refine ⟨⟨id, (Nat.add_assoc ..).symm, fun other hne => ?_⟩, rfl⟩
    cases other with
    | array => exact absurd rfl hne
    | string => exact ⟨rfl, rfl⟩
  | some new =>
    rw [ho] at h
    obtain ⟨saved, p₃, hr, h⟩ := bind_eq_ok.1 h
    obtain ⟨left, hsaved⟩ := exists_of_read hr
    obtain ⟨ht₃, ha₃⟩ := onStream_read hr
    obtain ⟨rfl, hq, hc, hb⟩ := insertNew_eq_ok h
    have hkeys : ∀ p ∈ saved.entries, p.1 ≠ Key.negativeZero := fun p hp => by
      obtain ⟨_, _, _, he⟩ := Reader.entry_of_savedArray hsaved p hp
      obtain ⟨⟨_, hk⟩, -⟩ := Reader.of_entry he
      exact Reader.ne_negativeZero_of_key hk
    rw [ht₃, ht₂, ht₁] at hb hc
    refine ⟨⟨fun hf => ?_, ?_, fun other hne => ?_⟩, by rw [hq, ha₃, ha₂, ha₁]⟩
    · exact hf.bind (SavedArray.resolved_resolve hkeys ho) hb hc
    · show report.arrays + 1 + report.droppedArrays = report.arrays + report.droppedArrays + 1
      omega
    · cases other with
      | array => exact absurd rfl hne
      | string => exact ⟨rfl, rfl⟩

theorem loadRecords_of_ok {fuel : Nat} (h : loadRecords m fuel report p = .ok report' q) :
    ∃ records, ReadToEnd (ArrayVar.Resolved m m.ReachesForm) .array SaveFormat.arrayRecord
      SaveFormat.arrayEnd report report' p q records := by
  refine records_of_ok (fun fuel report => loadRecords m fuel report) nofun
    (fun {fuel report report' p q} h => ?_) h
  obtain ⟨header, p₁, hn, h⟩ := bind_eq_ok.1 h
  refine ⟨header, p₁, hn, ?_⟩
  split at h
  · next htag =>
    obtain ⟨rfl, rfl⟩ := pure_eq_ok.1 h
    exact .inl ⟨htag, rfl, rfl⟩
  split at h
  · next htag =>
    obtain ⟨_, p₂, hd, h₂⟩ := bind_eq_ok.1 h
    obtain ⟨-, rfl⟩ := demand_eq_ok.1 hd
    obtain ⟨report₁, p₃, hr, h₃⟩ := bind_eq_ok.1 h₂
    obtain ⟨hadds, hahead⟩ := adds_loadRecord hr
    exact .inr ⟨htag, report₁, p₃, hadds, hahead, h₃⟩
  · exact absurd h throw_eq_ok

/-- elements name arrays that are there, or nothing -/
def NamesArray (s : ArrayStore) (e : Element) : Prop :=
  ∀ id, e = .array id → id = 0 ∨ (handleOf id = id ∧ (s.find? id).isSome)

theorem namesArray_mend (s : ArrayStore) (e : Element) :
    s.NamesArray (if s.isDangling e then .array 0 else e) := by
  intro id hid
  by_cases hd : s.isDangling e = true
  · rw [if_pos hd] at hid
    exact .inl (Element.array.inj hid).symm
  · rw [if_neg hd] at hid
    subst hid
    rw [isDangling, HandleTable.hasHandle_eq, HandleTable.contains_eq] at hd
    by_cases hz : id = 0
    · exact .inl hz
    · rw [decide_eq_true hz, Bool.true_and, Bool.not_eq_true', Bool.not_eq_false, Bool.and_eq_true,
        beq_iff_eq] at hd
      exact .inr hd

theorem filled_nullDangling {s : ArrayStore} {n : Nat}
    (h : HandleTable.Filled (ArrayVar.Resolved m m.ReachesForm) n s) :
    HandleTable.Filled (ArrayVar.Resolved m fun e => m.ReachesForm e ∧ s.nullDangling.2.NamesArray e) n
      s.nullDangling.2 := by
  have hfind : ∀ i, s.nullDangling.2.find? i = (s.find? i).map fun a =>
      { a with storage := a.storage.mapValues fun e => if s.isDangling e then .array 0 else e } :=
    fun i => HandleTable.find?_modifyAll s _ i
  constructor
  · intro i b hb
    rw [hfind] at hb
    obtain ⟨a, ha, rfl⟩ := Option.map_eq_some_iff.1 hb
    obtain ⟨howner, hrefs, hcontents⟩ := h.every ha
    refine ⟨howner, hrefs, hcontents.mapValues fun e he => ⟨?_, fun id hid => ?_⟩⟩
    · intro form hform
      split at hform
      · cases hform
      · exact he form hform
    · refine (namesArray_mend s e id hid).imp_right fun ⟨hself, hin⟩ => ⟨hself, ?_⟩
      rwa [hfind, Option.isSome_map]
  · exact (HandleTable.temporaries_modifyAll s _).trans h.temporaries
  · exact (HandleTable.size_modifyAll s _).trans h.size

/-- a section of arrays, and what is there after dangling ids have become null -/
theorem load_of_ok (h : load m p = .ok report q)
    (hf : p.1.Filled (ArrayVar.Resolved m m.ReachesForm) 0) :
    ∃ records, SectionIn SaveFormat.arrayStart SaveFormat.arrayRecord SaveFormat.arrayEnd p.2.ahead
      records q.2.ahead ∧ records.length = report.arrays + report.droppedArrays ∧
      report.strings = 0 ∧ report.droppedStrings = 0 ∧
      q.1.Filled (ArrayVar.Resolved m fun e => m.ReachesForm e ∧ q.1.NamesArray e) report.arrays := by
  obtain ⟨o, p₁, hn, h₁⟩ := bind_eq_ok.1 h
  obtain ⟨header, p₂, hr, h₂⟩ := bind_eq_ok.1 h₁
  obtain ⟨rfl, rfl⟩ := require_eq_ok.1 hr
  obtain ⟨hn, ht⟩ := onStream_eq_ok hn
  obtain ⟨start, hstart, his, -⟩ := Stream.ahead_next hn
  dsimp only at h₂
  split at h₂
  · obtain ⟨_, _, h₃, -⟩ := bind_eq_ok.1 h₂
    exact absurd h₃ throw_eq_ok
  next htag =>
  obtain ⟨_, p₃, hd, h₃⟩ := bind_eq_ok.1 h₂
  obtain ⟨-, rfl⟩ := demand_eq_ok.1 hd
  obtain ⟨_, _, hg, h₄⟩ := bind_eq_ok.1 h₃
  obtain ⟨rfl, rfl⟩ := get_eq_ok.1 hg
  obtain ⟨read, p₄, hl, h₅⟩ := bind_eq_ok.1 h₄
  obtain ⟨_, _, hg, h₆⟩ := bind_eq_ok.1 h₅
  obtain ⟨rfl, rfl⟩ := get_eq_ok.1 hg
  obtain ⟨_, p₅, hs, h₇⟩ := bind_eq_ok.1 h₆
  obtain rfl := set_eq_ok.1 hs
  obtain ⟨rfl, rfl⟩ := pure_eq_ok.1 h₇
  obtain ⟨records, hall⟩ := loadRecords_of_ok hl
  have hcount := hall.adds.counted
  obtain ⟨hstrings, hdropped⟩ := hall.adds.others .string nofun
  refine ⟨records, ?_, ?_, hstrings, hdropped, ?_⟩
  · exact hall.sectionIn hstart (Decidable.of_not_not htag ▸ his)
  · show records.length = read.arrays + read.droppedArrays
    change read.arrays + read.droppedArrays = 0 + 0 + records.length at hcount
    omega
  · exact filled_nullDangling (hall.adds.filled (ht.symm ▸ hf))

end ArrayStore

/-! ## Strings -/

namespace StringStore

variable {m : ModuleMap} {report report' : LoadReport} {p q : StringStore × Stream}

def OwnerReached (m : ModuleMap) (v : StringVar) : Prop := m.Reaches v.owner

theorem adds_loadRecord (h : loadRecord m report p = .ok report' q) :
    Adds (OwnerReached m) .string 1 report report' p.1 q.1 ∧ q.2.ahead = p.2.ahead := by
  obtain ⟨saved, p₁, hr, h⟩ := bind_eq_ok.1 h
  obtain ⟨ht, ha⟩ := onStream_read hr
  dsimp only at h
  cases ho : m.resolve saved.owner with
  | none =>
    rw [ho] at h
    obtain ⟨rfl, rfl⟩ := pure_eq_ok.1 h
    rw [ha, ht]
    refine ⟨⟨id, (Nat.add_assoc ..).symm, fun other hne => ?_⟩, rfl⟩
    cases other with
    | array => exact ⟨rfl, rfl⟩
    | string => exact absurd rfl hne
  | some owner =>
    rw [ho] at h
    obtain ⟨rfl, hq, hc, hb⟩ := insertNew_eq_ok h
    rw [ht] at hb hc
    refine ⟨⟨fun hf => ?_, ?_, fun other hne => ?_⟩, by rw [hq, ha]⟩
    · exact hf.bind ⟨saved.owner, ho⟩ hb hc
    · show report.strings + 1 + report.droppedStrings = report.strings + report.droppedStrings + 1
      omega
    · cases other with
      | array => exact ⟨rfl, rfl⟩
      | string => exact absurd rfl hne

theorem loadRecords_of_ok {fuel : Nat} (h : loadRecords m fuel report p = .ok report' q) :
    ∃ records, ReadToEnd (OwnerReached m) .string SaveFormat.stringRecord SaveFormat.stringEnd
      report report' p q records := by
  refine records_of_ok (fun fuel report => loadRecords m fuel report) nofun
    (fun {fuel report report' p q} h => ?_) h
  obtain ⟨header, p₁, hn, h⟩ := bind_eq_ok.1 h
  refine ⟨header, p₁, hn, ?_⟩
  split at h
  · next htag =>
    obtain ⟨rfl, rfl⟩ := pure_eq_ok.1 h
    exact .inl ⟨htag, rfl, rfl⟩
  split at h
  · next htag =>
    obtain ⟨report₁, p₂, hr, h₂⟩ := bind_eq_ok.1 h
    obtain ⟨hadds, hahead⟩ := adds_loadRecord hr
    exact .inr ⟨htag, report₁, p₂, hadds, hahead, h₂⟩
  · exact absurd h throw_eq_ok

/-- a section of strings, or another record, which the stream stays before -/
theorem load_of_ok (h : load m report p = .ok report' q) (hf : p.1.Filled (OwnerReached m) 0)
    (hs : report.strings = 0) (hd : report.droppedStrings = 0) :
    ∃ records, records.length = report'.strings + report'.droppedStrings ∧
      ((∃ rest, SectionIn SaveFormat.stringStart SaveFormat.stringRecord SaveFormat.stringEnd
          p.2.ahead records rest) ∨ records = [] ∧ NoSection SaveFormat.stringStart p.2.ahead) ∧
      report'.arrays = report.arrays ∧ report'.droppedArrays = report.droppedArrays ∧
      q.1.Filled (OwnerReached m) report'.strings := by
  obtain ⟨_, _, hg, h₁⟩ := bind_eq_ok.1 h
  obtain ⟨rfl, rfl⟩ := get_eq_ok.1 hg
  obtain ⟨o, p₁, hn, h₂⟩ := bind_eq_ok.1 h₁
  obtain ⟨hn, ht⟩ := onStream_eq_ok hn
  have hnothing : ([] : List Record).length = report.strings + report.droppedStrings := by
    rw [hs, hd]
    rfl
  cases o with
  | none =>
    obtain ⟨rfl, rfl⟩ := pure_eq_ok.1 h₂
    refine ⟨[], hnothing, .inr ⟨rfl, ?_⟩, rfl, rfl, ?_⟩
    · rw [Stream.ahead_next_none hn]
      exact .ended
    · rw [hs, ht]
      exact hf
  | some header =>
    obtain ⟨start, hstart, his, hsize⟩ := Stream.ahead_next hn
    dsimp only at h₂
    split at h₂
    · next htag =>
      obtain ⟨records, hall⟩ := loadRecords_of_ok h₂
      have hcount := hall.adds.counted
      obtain ⟨harrays, hdropped⟩ := hall.adds.others .array nofun
      refine ⟨records, ?_, .inl ⟨_, hall.sectionIn hstart (htag ▸ his)⟩, harrays, hdropped, ?_⟩
      · change report'.strings + report'.droppedStrings =
          report.strings + report.droppedStrings + records.length at hcount
        omega
      · refine hall.adds.filled ?_
        rw [ht]
        show HandleTable.Filled _ report.strings _
        rw [hs]
        exact hf
    · next htag =>
      obtain ⟨_, p₂, hk, h₃⟩ := bind_eq_ok.1 h₂
      obtain ⟨rfl, rfl⟩ := pure_eq_ok.1 h₃
      refine ⟨[], hnothing, .inr ⟨rfl, ?_⟩, rfl, rfl, ?_⟩
      · rw [hstart]
        exact .other his hsize htag
      · rw [(onStream_eq_ok hk).2, hs, ht]
        exact hf

end StringStore

/-! ## Sessions -/

namespace HandleTable

variable {α : Type} {t : HandleTable α}

theorem bounds_of_mem_toList {p : UInt32 × α} (h : p ∈ t.toList) :
    1 ≤ p.1.toNat ∧ p.1.toNat ≤ 0x0FFFFFFF := by
  obtain ⟨hself, hf⟩ := mem_toList.1 h
  have hne : handleOf p.1 ≠ 0 := fun hz => by
    rw [t.find?_eq_none_of_zero hz] at hf
    cases hf
  have hh := isHandle_handleOf hne
  rw [hself] at hh
  exact ⟨hh.toNat_pos, Nat.le_of_lt_succ hh.2⟩

theorem Filled.endLoad {P : α → Prop} {n : Nat} (h : t.Filled P n) : (t.endLoad true).Filled P n where
  every hi := h.every (t.find?_endLoad_true _ ▸ hi)
  temporaries := t.slots_endLoad_true.symm ▸ h.temporaries
  size := (congrArg (fun slots : Slots α => slots.index.size) t.slots_endLoad_true).trans h.size

theorem Filled.mem_toList {P : α → Prop} {n : Nat} (h : t.Filled P n) : ∀ p ∈ t.toList, P p.2 :=
  fun _ hp => h.every (HandleTable.mem_toList.1 hp).2

theorem Filled.temporaries_eq {P : α → Prop} {n : Nat} (h : t.Filled P n) : t.temporaries = [] := by
  rw [HandleTable.temporaries, h.temporaries]
  exact Std.ExtTreeSet.toList_eq_nil_iff.2 rfl

end HandleTable

namespace Session

/-- what a load under a module map leaves in a session -/
structure Loaded (m : ModuleMap) (t : Session) : Prop where
  arrayIds : ∀ p ∈ t.arrays.toList, 1 ≤ p.1.toNat ∧ p.1.toNat ≤ 0x0FFFFFFF
  stringIds : ∀ p ∈ t.strings.toList, 1 ≤ p.1.toNat ∧ p.1.toNat ≤ 0x0FFFFFFF
  elements : ∀ p ∈ t.arrays.toList, ∀ id, .array id ∈ p.2.values →
    id = 0 ∨ ∃ a, (id, a) ∈ t.arrays.toList
  arrayOwners : ∀ p ∈ t.arrays.toList, m.Reaches p.2.owner
  stringOwners : ∀ p ∈ t.strings.toList, m.Reaches p.2.owner
  refs : ∀ p ∈ t.arrays.toList, ∀ r ∈ p.2.refs, m.Reaches r
  forms : ∀ p ∈ t.arrays.toList, ∀ form, .form form ∈ p.2.values →
    form = 0 ∨ m.Reaches (form >>> 24).toUInt8
  keys : ∀ p ∈ t.arrays.toList, ∀ entry ∈ p.2.entries, entry.1 ≠ Key.negativeZero
  temporaries : t.arrays.temporaries = [] ∧ t.strings.temporaries = []

/-- what the report on a load of some bytes counts: variables in the session, and records -/
structure Counts (report : LoadReport) (bytes : List UInt8) (t : Session) : Prop where
  arrays : report.arrays = t.arrays.size
  strings : report.strings = t.strings.size
  records : ∃ arrays rest, SectionIn SaveFormat.arrayStart SaveFormat.arrayRecord
      SaveFormat.arrayEnd bytes arrays rest ∧
    report.arrays + report.droppedArrays = arrays.length ∧
    ∃ strings, report.strings + report.droppedStrings = strings.length ∧
      ((∃ rest', SectionIn SaveFormat.stringStart SaveFormat.stringRecord SaveFormat.stringEnd
        rest strings rest') ∨ strings = [] ∧ NoSection SaveFormat.stringStart rest)

section
variable {τ β : Type} {p q : Session × τ} {a : β}

theorem onArrays_eq_ok {x : Action (ArrayStore × τ) β} (h : onArrays x p = .ok a q) :
    x (p.1.arrays, p.2) = .ok a (q.1.arrays, q.2) ∧ q.1.strings = p.1.strings := by
  rw [onArrays] at h
  cases hx : x (p.1.arrays, p.2) <;> rw [hx] at h <;> cases h
  exact ⟨rfl, rfl⟩

theorem onStrings_eq_ok {x : Action (StringStore × τ) β} (h : onStrings x p = .ok a q) :
    x (p.1.strings, p.2) = .ok a (q.1.strings, q.2) ∧ q.1.arrays = p.1.arrays := by
  rw [onStrings] at h
  cases hx : x (p.1.strings, p.2) <;> rw [hx] at h <;> cases h
  exact ⟨rfl, rfl⟩

theorem replacing_eq_ok {x : Action (Session × τ) β} (h : replacing x p = .ok a q) :
    ∃ u, x (p.1.beginLoad, p.2) = .ok a (u, q.2) ∧ q.1 = u.endLoad true := by
  rw [replacing] at h
  cases hx : x (p.1.beginLoad, p.2) <;> rw [hx] at h <;> cases h
  exact ⟨_, rfl, rfl⟩

end

theorem ofBytes_eq_ok {config : Config} {m : ModuleMap} {bytes : List UInt8}
    {report : LoadReport} {s : Session} : ofBytes config m bytes = .ok (report, s) ↔
      ∃ stream, load m (start config, Stream.ofBytes bytes) = .ok report (s, stream) := by
  rw [ofBytes]
  cases load m (start config, Stream.ofBytes bytes) with
  | ok report' p =>
    obtain ⟨s', stream⟩ := p
    constructor
    · intro h
      cases h
      exact ⟨stream, rfl⟩
    · rintro ⟨_, h⟩
      cases h
      rfl
  | error f p =>
    refine iff_of_false (fun h => by cases h) ?_
    rintro ⟨_, h⟩
    cases h

theorem exists_load_of_ofBytes {config : Config} {m : ModuleMap} {bytes : List UInt8}
    {report : LoadReport} {t : Session} (h : (ofBytes config m bytes).toOption = some (report, t)) :
    ∃ stream, load m (start config, Stream.ofBytes bytes) = .ok report (t, stream) :=
  ofBytes_eq_ok.1 (Failure.toOption_eq_some.1 h)

/-- what a load leaves in the tables of a session, and the sections it has read -/
theorem tables_of_load {s t : Session} {modules : ModuleMap} {stream stream' : Stream}
    {report : LoadReport} (h : load modules (s, stream) = .ok report (t, stream')) :
    let m := modules.keep s.config.dynamicModule
    t.arrays.Filled (ArrayVar.Resolved m fun e => m.ReachesForm e ∧ t.arrays.NamesArray e)
        report.arrays ∧
      t.strings.Filled (StringStore.OwnerReached m) report.strings ∧
      Counts report stream.ahead t := by
  obtain ⟨_, _, hg, h₁⟩ := bind_eq_ok.1 h
  obtain ⟨rfl, rfl⟩ := get_eq_ok.1 hg
  obtain ⟨u, h₂, rfl⟩ := replacing_eq_ok h₁
  dsimp only at h₂ ⊢
  generalize modules.keep s.config.dynamicModule = m at h₂
  obtain ⟨read, ⟨v, stream₁⟩, ha, hs⟩ := bind_eq_ok.1 h₂
  obtain ⟨ha, hkept⟩ := onArrays_eq_ok ha
  obtain ⟨hs, hkept'⟩ := onStrings_eq_ok hs
  obtain ⟨arrays, hsection, hlength, hzero, hzero', harrays⟩ :=
    ArrayStore.load_of_ok ha s.arrays.filled_beginLoad
  rw [hkept] at hs
  obtain ⟨strings, hlength', hsection', hsame, hsame', hstrings⟩ :=
    StringStore.load_of_ok hs s.strings.filled_beginLoad hzero hzero'
  rw [← hkept', ← hsame] at harrays
  have ha := harrays.endLoad
  have hs := hstrings.endLoad
  have hnames : ArrayStore.NamesArray (HandleTable.endLoad u.arrays true) =
      ArrayStore.NamesArray u.arrays := by
    funext e
    simp only [ArrayStore.NamesArray, HandleTable.find?_endLoad_true]
  refine ⟨?_, hs, ha.size.symm, hs.size.symm, arrays, stream₁.ahead, hsection, ?_, strings,
    hlength'.symm, hsection'⟩
  · show HandleTable.Filled (ArrayVar.Resolved m fun e => m.ReachesForm e ∧
      ArrayStore.NamesArray (HandleTable.endLoad u.arrays true) e) _ _
    rw [hnames]
    exact ha
  · rw [hsame, hsame', hlength]

/-- a load that is not refused leaves a session in order, whatever the bytes are, and its report
counts every variable and every record -/
theorem loaded_of_load {s t : Session} {modules : ModuleMap} {stream stream' : Stream}
    {report : LoadReport} (h : load modules (s, stream) = .ok report (t, stream')) :
    Loaded (modules.keep s.config.dynamicModule) t ∧ Counts report stream.ahead t := by
  obtain ⟨ha, hs, hcounts⟩ := tables_of_load h
  refine ⟨?_, hcounts⟩
  exact {
    arrayIds := fun p hp => HandleTable.bounds_of_mem_toList hp
    stringIds := fun p hp => HandleTable.bounds_of_mem_toList hp
    elements := fun p hp id hid => by
      have hin := ((ha.mem_toList p hp).contents.mem_values _ hid).2 id rfl
      refine hin.imp_right fun ⟨hself, hf⟩ => ?_
      obtain ⟨a, hf⟩ := Option.isSome_iff_exists.1 hf
      exact ⟨a, HandleTable.mem_toList.2 ⟨hself, hf⟩⟩
    arrayOwners := fun p hp => (ha.mem_toList p hp).owner
    stringOwners := hs.mem_toList
    refs := fun p hp => (ha.mem_toList p hp).refs
    forms := fun p hp form hform =>
      ((ha.mem_toList p hp).contents.mem_values _ hform).1 form rfl
    keys := fun p hp entry hentry => ((ha.mem_toList p hp).contents.mem_entries
      (fun i => Key.ofNumber_ne_negativeZero _) entry hentry).1
    temporaries := ⟨ha.temporaries_eq, hs.temporaries_eq⟩ }

/-- a map with a negative zero for a key, an id with reserved bits, and forms and arrays that are
not there, and beside it an array of a module that is gone -/
def foreign : List UInt8 :=
  ([⟨SaveFormat.arrayStart, 2, []⟩,
    ⟨SaveFormat.arrayRecord, 2, [1, 1, 0, 0, 0x10, 1, 0, 2, 0, 0, 0, 1, 9, 2, 0, 0, 0,
      0, 0, 0, 0, 0, 0, 0, 0x80, 2, 7, 0, 0, 2, 0, 0, 0, 0, 0, 0, 0xF0, 0x3F, 4, 3, 0, 0, 0]⟩,
    ⟨SaveFormat.arrayRecord, 2, [2, 3, 0, 0, 0]⟩, ⟨SaveFormat.arrayEnd, 2, []⟩,
    ⟨SaveFormat.stringStart, 1, []⟩, ⟨SaveFormat.stringRecord, 1, [1, 7, 0, 0, 0xF0, 1, 0, 0x68]⟩,
    ⟨SaveFormat.stringEnd, 1, []⟩] : List Record).flatMap Record.encode

theorem loaded_of_load_foreign :
    ∃ t stream, load (.ofPairs [(1, 4)]) (start .standard, Stream.ofBytes foreign) =
        .ok ⟨2, 1, 1, 1, 0, 1, 1⟩ (t, stream) ∧
      t.arrays.find? 1 = some ⟨.map, 4, [4], .sorted [(.number ⟨0⟩, .form 0),
        (Key.ofIndex 1, .array 0)]⟩ ∧
      Loaded ((ModuleMap.ofPairs [(1, 4)]).keep 0xFF) t ∧
      Counts ⟨2, 1, 1, 1, 0, 1, 1⟩ foreign t := by
  have hok : ((ofBytes .standard (.ofPairs [(1, 4)]) foreign).toOption.map fun p =>
      (p.1, p.2.arrays.find? 1)) = some (⟨2, 1, 1, 1, 0, 1, 1⟩, some ⟨.map, 4, [4],
        .sorted [(.number ⟨0⟩, .form 0), (Key.ofIndex 1, .array 0)]⟩) := by decide +kernel
  obtain ⟨⟨report, t⟩, hsaved, hp⟩ := Option.map_eq_some_iff.1 hok
  obtain ⟨rfl, hfind⟩ := Prod.mk.inj hp
  obtain ⟨stream, h⟩ := exists_load_of_ofBytes hsaved
  obtain ⟨hloaded, hcounts⟩ := loaded_of_load h
  exact ⟨t, stream, h, hfind, hloaded, hcounts⟩

end Session

end ScriptVars
