import ScriptVars.Proofs.SaveLoad

/-!
# Sessions that are saved and loaded

Whatever is written can be loaded.  What belongs to modules that are there comes back; forms of the
other modules become null, and so do ids of arrays that do not come back.

* `Element.repair`, `ArrayVar.repair`   what a save and a load make of variables;
* `Session.Restored`                    what they make of a session;
* `Session.repairs`                     the report on it;
* `Session.load_records`                records that are read back.
-/

namespace ScriptVars

open ScriptVars.Action

/-! ## Repairs -/

/-- the id of a form with its top byte mapped; the null form if its module is gone -/
def ModuleMap.repairForm (m : ModuleMap) (form : UInt32) : UInt32 :=
  if form = 0 then 0
  else
    match m.resolve (form >>> 24).toUInt8 with
    | some new => new.toUInt32 <<< 24 ||| form &&& 0xFFFFFF
    | none => 0

/-- the same bits, but for the sign of a zero -/
def Key.repair : Key → Key
  | number x => number (if x.bits = 0x8000000000000000 then ⟨0⟩ else x)
  | text s => text s

namespace Element

/-- `restored` tells which arrays come back -/
def repair (m : ModuleMap) (restored : UInt32 → Bool) : Element → Element
  | form id => form (m.repairForm id)
  | array id => array (if restored id then handleOf id else 0)
  | e => e

def losesForm (m : ModuleMap) : Element → Bool
  | form id => id ≠ 0 && (m.resolve (id >>> 24).toUInt8).isNone
  | _ => false

/-- whether an element names an array that does not come back -/
def losesArray (restored : UInt32 → Bool) : Element → Bool
  | array id => handleOf id ≠ 0 && !restored id
  | _ => false

end Element

/-- an array goes with its module; older saves have no references -/
def ArrayVar.repair (m : ModuleMap) (version : UInt32) (restored : UInt32 → Bool) (a : ArrayVar) :
    Option ArrayVar :=
  (m.resolve a.owner).map fun owner =>
    { kind := a.kind
      owner
      refs := if version = SaveFormat.currentVersion then a.refs.filterMap m.resolve else []
      storage := a.storage.repaired (Element.repair m restored) }

def StringVar.repair (m : ModuleMap) (v : StringVar) : Option StringVar :=
  (m.resolve v.owner).map fun owner => ⟨v.data, owner⟩

namespace Session

def restores (s : Session) (m : ModuleMap) (id : UInt32) : Bool :=
  (s.arrays.find? id).any fun a => (m.resolve a.owner).isSome

/-- what a save of `s` comes to when it is loaded -/
structure Restored (m : ModuleMap) (s t : Session) : Prop where
  arrays : ∀ id, t.arrays.find? id =
    (s.arrays.find? id).bind (ArrayVar.repair m s.config.saveVersion (s.restores m))
  entries : ∀ {id a b}, s.arrays.find? id = some a → t.arrays.find? id = some b →
    b.entries = a.entries.map fun p => (p.1.repair, p.2.repair m (s.restores m))
  strings : ∀ id, t.strings.find? id = (s.strings.find? id).bind (StringVar.repair m)
  temporaries : t.arrays.temporaries = [] ∧ t.strings.temporaries = []

def repairs (s : Session) (m : ModuleMap) : LoadReport :=
  let arrays := s.arrays.toList.map Prod.snd
  let strings := s.strings.toList.map Prod.snd
  let kept := arrays.filter fun a => (m.resolve a.owner).isSome
  let elements := kept.flatMap ArrayVar.values
  { version := s.config.saveVersion
    arrays := kept.length
    strings := strings.countP fun v => (m.resolve v.owner).isSome
    droppedArrays := arrays.countP fun a => (m.resolve a.owner).isNone
    droppedStrings := strings.countP fun v => (m.resolve v.owner).isNone
    nulledForms := elements.countP (Element.losesForm m)
    nulledArrays := elements.countP (Element.losesArray (s.restores m)) }

end Session

/-! ## Single values -/

theorem ModuleMap.moduleOfForm_eq (form : UInt32) :
    moduleOfForm form = (form >>> 24).toUInt8 := by
  have hshift : (form >>> 24).toNat = form.toNat / formsPerModule := by
    rw [UInt32.toNat_shiftRight]
    exact Nat.shiftRight_eq_div_pow _ 24
  refine UInt8.toNat_inj.1 ?_
  rw [moduleOfForm, UInt8.toNat_ofNat', UInt32.toNat_toUInt8, hshift]

theorem ModuleMap.toNat_ofNat_form (new : UInt8) (form : UInt32) :
    (UInt32.ofNat (new.toNat * formsPerModule + form.toNat % formsPerModule)).toNat =
      new.toNat * formsPerModule + form.toNat % formsPerModule := by
  have hnew := new.toNat_lt
  have hlow : form.toNat % formsPerModule < formsPerModule := Nat.mod_lt _ (by decide)
  refine UInt32.toNat_ofNat_of_lt' ?_
  show _ < 2 ^ 32
  rw [formsPerModule] at hlow ⊢
  omega

/-- a moved form belongs to the new module -/
theorem ModuleMap.moduleOfForm_ofNat (new : UInt8) (form : UInt32) :
    moduleOfForm (UInt32.ofNat (new.toNat * formsPerModule + form.toNat % formsPerModule)) =
      new := by
  have hlow : form.toNat % formsPerModule < formsPerModule := Nat.mod_lt _ (by decide)
  rw [moduleOfForm, toNat_ofNat_form, Nat.mul_comm, Nat.mul_add_div (by decide),
    Nat.div_eq_of_lt hlow, Nat.add_zero, UInt8.ofNat_toNat]

/-- the three lower bytes -/
theorem ModuleMap.toNat_and_form (form : UInt32) :
    (form &&& 0xFFFFFF).toNat = form.toNat % formsPerModule := by
  rw [UInt32.toNat_and]
  exact Nat.and_two_pow_sub_one_eq_mod _ 24

/-- a top byte and the three bytes below it -/
theorem ModuleMap.ofNat_form (new : UInt8) (form : UInt32) :
    UInt32.ofNat (new.toNat * formsPerModule + form.toNat % formsPerModule) =
      new.toUInt32 <<< 24 ||| form &&& 0xFFFFFF := by
  have hnew := new.toNat_lt
  have hlow : form.toNat % formsPerModule < 2 ^ 24 := Nat.mod_lt _ (by decide)
  have hshift : (new.toUInt32 <<< 24).toNat = new.toNat <<< 24 := by
    rw [UInt32.toNat_shiftLeft, UInt8.toNat_toUInt32]
    refine Nat.mod_eq_of_lt ?_
    rw [Nat.shiftLeft_eq]
    show new.toNat * 2 ^ 24 < 2 ^ 32
    omega
  refine UInt32.toNat_inj.1 ?_
  rw [UInt32.toNat_or, hshift, toNat_and_form, toNat_ofNat_form,
    ← Nat.shiftLeft_add_eq_or_of_lt hlow, Nat.shiftLeft_eq]
  rfl

theorem ModuleMap.getD_resolveForm (m : ModuleMap) (form : UInt32) :
    (m.resolveForm form).getD 0 = m.repairForm form := by
  rw [resolveForm, repairForm, ← moduleOfForm_eq]
  by_cases hz : form = 0
  · rw [if_pos hz, if_pos hz]
    rfl
  · rw [if_neg hz, if_neg hz]
    cases m.resolve (moduleOfForm form) with
    | none => rfl
    | some new => exact ofNat_form new form

theorem ModuleMap.isLost_eq (m : ModuleMap) (e : Element) : m.isLost e = e.losesForm m := by
  cases e with
  | form id =>
    show (m.resolveForm id).isNone = (decide (id ≠ 0) && (m.resolve (id >>> 24).toUInt8).isNone)
    rw [resolveForm, ← moduleOfForm_eq]
    by_cases hz : id = 0
    · rw [if_pos hz, hz]
      rfl
    · rw [if_neg hz, Option.isNone_map, decide_eq_true hz, Bool.true_and]
  | _ => rfl

theorem Key.fold_eq_repair (k : Key) : k.fold = k.repair := by
  cases k with
  | text s => rfl
  | number x =>
    have hx := x.bits.toNat_lt
    show number x.foldZero = number (if x.bits = 0x8000000000000000 then ⟨0⟩ else x)
    rw [Number.foldZero, Number.isZero, Number.magnitude, Number.signBit]
    by_cases hs : x.bits = 0x8000000000000000
    · rw [if_pos hs, hs]
      rfl
    · rw [if_neg hs]
      split
      · next hm =>
        have h0 : x.bits = 0 := by
          rw [decide_eq_true_eq] at hm
          rw [← UInt64.toNat_inj] at hs ⊢
          have h9 : (0x8000000000000000 : UInt64).toNat = 2 ^ 63 := rfl
          have h0 : (0 : UInt64).toNat = 0 := rfl
          omega
        obtain ⟨bits⟩ := x
        exact congrArg (fun b => number ⟨b⟩) h0.symm
      · rfl

/-! ## Arrays -/

namespace Loads

variable {α : Type} {loaded : α → Option α} {s t u : HandleTable α}

/-- all variables of a table, read into an empty one -/
theorem find?_bind (h : Loads loaded s.toList t u) (ht : ∀ i, t.find? i = none) (i : UInt32) :
    u.find? i = (s.find? i).bind loaded := by
  rw [h.find?, ht]
  cases hs : s.find? i with
  | none =>
    have hnone : (s.toList.find? fun p => p.1 == handleOf i) = none := by
      refine List.find?_eq_none.2 fun p hp hpi => ?_
      obtain ⟨hself, hf⟩ := HandleTable.mem_toList.1 hp
      rw [s.find?_congr (hself.trans (beq_iff_eq.1 hpi)), hs] at hf
      cases hf
    rw [hnone]
    rfl
  | some a =>
    have hsome : ∃ p, (s.toList.find? fun p => p.1 == handleOf i) = some p := by
      refine Option.isSome_iff_exists.1 (List.find?_isSome.2 ⟨(handleOf i, a), ?_, beq_self_eq_true _⟩)
      exact HandleTable.handleOf_mem_toList.2 hs
    obtain ⟨p, hp⟩ := hsome
    have hpi : (p.1 == handleOf i) = true :=
      List.find?_some (p := fun p : UInt32 × α => p.1 == handleOf i) hp
    have hf := (HandleTable.mem_toList.1
      (show (p.1, p.2) ∈ s.toList from List.mem_of_find?_eq_some hp)).2
    rw [beq_iff_eq.1 hpi, s.find?_congr (handleOf_handleOf i), hs] at hf
    rw [hp, Option.some.inj hf]
    rfl

end Loads

theorem Storage.values_repaired (f : Element → Element) (s : Storage) :
    (s.repaired f).values = s.values.map f := by
  rw [← map_snd_entries, entries_repaired, List.map_map, ← map_snd_entries, List.map_map]
  rfl

theorem ArrayVar.entries_repair {m : ModuleMap} {version : UInt32} {restored : UInt32 → Bool}
    {a b : ArrayVar} (h : a.repair m version restored = some b) :
    b.entries = a.entries.map fun p => (p.1.repair, p.2.repair m restored) := by
  obtain ⟨owner, -, rfl⟩ := Option.map_eq_some_iff.1 h
  refine (Storage.entries_repaired _ a.storage).trans (List.map_congr_left fun p _ => ?_)
  rw [Key.fold_eq_repair]

namespace ArrayStore

variable {s t u : ArrayStore} {m : ModuleMap} {version : UInt32} {restored : UInt32 → Bool}

/-- which arrays come back, and `u` is what was read before dangling ids are looked for -/
structure Read (m : ModuleMap) (version : UInt32) (restored : UInt32 → Bool) (s u : ArrayStore) :
    Prop where
  find? : ∀ i, HandleTable.find? u i = (HandleTable.find? s i).bind (m.loadArray version)
  restored : ∀ i, restored i = (HandleTable.find? u i).isSome

theorem Read.isDangling_eq (h : Read m version restored s u) (e : Element) :
    isDangling u (m.resolveElement e.reduced) = e.losesArray restored := by
  cases e with
  | array id =>
    show (decide (handleOf id ≠ 0) && !u.hasHandle (handleOf id)) =
      (decide (handleOf id ≠ 0) && !restored id)
    rw [u.hasHandle_eq, handleOf_handleOf, beq_self_eq_true, Bool.true_and, u.contains_eq,
      u.find?_congr (handleOf_handleOf id), h.restored]
  | _ => rfl

/-- reading and mending together -/
theorem Read.mend (h : Read m version restored s u) (e : Element) :
    (if isDangling u (m.resolveElement e.reduced) then .array 0 else m.resolveElement e.reduced) =
      e.repair m restored := by
  rw [h.isDangling_eq]
  cases e with
  | array id =>
    show (if (decide (handleOf id ≠ 0) && !restored id) = true then Element.array 0
      else .array (handleOf id)) = .array (if restored id then handleOf id else 0)
    cases hr : restored id with
    | true =>
      rw [Bool.not_true, Bool.and_false]
      rfl
    | false =>
      by_cases hz : handleOf id = 0
      · rw [hz]
        rfl
      · rw [decide_eq_true hz]
        rfl
  | form id => exact congrArg Element.form (m.getD_resolveForm id)
  | _ => rfl

theorem Read.find?_nullDangling (h : Read m version restored s u) (i : UInt32) :
    (nullDangling u).2.find? i = (s.find? i).bind (ArrayVar.repair m version restored) := by
  show (HandleTable.modifyAll u _).find? i = _
  rw [u.find?_modifyAll, h.find?]
  cases s.find? i with
  | none => rfl
  | some a =>
    show Option.map _ (m.loadArray version a) = ArrayVar.repair m version restored a
    rw [ModuleMap.loadArray, ArrayVar.repair]
    cases m.resolve a.owner with
    | none => rfl
    | some owner =>
      have hrefs : (Reader.savedRefs version a.refs).filterMap m.resolve =
          if version = SaveFormat.currentVersion then a.refs.filterMap m.resolve else [] := by
        rw [Reader.savedRefs]
        split <;> rfl
      rw [hrefs]
      refine congrArg (fun storage => some (ArrayVar.mk a.kind owner _ storage)) ?_
      show (a.storage.repaired _).mapValues _ = _
      rw [Storage.mapValues_repaired]
      exact congrArg a.storage.repaired (funext h.mend)

/-- the arrays of modules that are there -/
def kept (m : ModuleMap) (l : List (UInt32 × ArrayVar)) : List ArrayVar :=
  (l.map Prod.snd).filter fun a => (m.resolve a.owner).isSome

theorem foldl_countArray (l : List (UInt32 × ArrayVar)) (report : LoadReport) :
    l.foldl (fun report p => m.countArray p.2 report) report =
      { report with
        arrays := report.arrays + (kept m l).length
        droppedArrays :=
          report.droppedArrays + (l.map Prod.snd).countP fun a => (m.resolve a.owner).isNone
        nulledForms :=
          report.nulledForms + ((kept m l).flatMap ArrayVar.values).countP (Element.losesForm m) } := by
  have hlost : m.isLost = Element.losesForm m := funext m.isLost_eq
  induction l generalizing report with
  | nil => rfl
  | cons p l ih =>
    rw [List.foldl_cons, ih, ModuleMap.countArray, kept, kept, List.map_cons, List.countP_cons,
      List.filter_cons]
    cases m.resolve p.2.owner with
    | none =>
      simp only [Option.isSome_none, Option.isNone_none, if_true, Bool.false_eq_true, if_false,
        Nat.add_assoc, Nat.add_comm 1]
    | some owner =>
      simp only [Option.isSome_some, Option.isNone_some, if_true, Bool.false_eq_true, if_false,
        List.length_cons, List.flatMap_cons, List.countP_append, hlost, Nat.add_assoc,
        Nat.add_comm 1, Nat.add_zero]

/-- an element stays where it is, whatever becomes of it -/
theorem countP_values (q : Element → Bool) (l : List (UInt32 × ArrayVar)) :
    (((l.filterMap fun p => (m.loadArray version p.2).map (Prod.mk p.1)).flatMap
        fun p => p.2.values).countP q) =
      ((kept m l).flatMap ArrayVar.values).countP fun e => q (m.resolveElement e.reduced) := by
  induction l with
  | nil => rfl
  | cons p l ih =>
    rw [List.filterMap_cons, kept, List.map_cons, List.filter_cons, ModuleMap.loadArray]
    cases m.resolve p.2.owner with
    | none => exact ih
    | some owner =>
      have hvalues : (p.2.storage.repaired fun e => m.resolveElement e.reduced).values.countP q =
          p.2.values.countP fun e => q (m.resolveElement e.reduced) := by
        rw [Storage.values_repaired, List.countP_map]
        rfl
      show (List.flatMap _ (_ :: _)).countP q = (List.flatMap _ (_ :: _)).countP _
      rw [List.flatMap_cons, List.flatMap_cons, List.countP_append, List.countP_append]
      exact congrArg₂ (· + ·) hvalues ih

theorem Read.nulledArrays (h : Read m version restored s u) :
    (nullDangling u).1 =
      ((kept m s.toList).flatMap ArrayVar.values).countP (Element.losesArray restored) := by
  show ((HandleTable.toList u).flatMap fun p => p.2.values).countP (ArrayStore.isDangling u) = _
  rw [HandleTable.toList_filterMap h.find?, countP_values]
  exact List.countP_congr fun e _ => by rw [h.isDangling_eq]

end ArrayStore

theorem StringStore.foldl_countString (m : ModuleMap) (l : List (UInt32 × StringVar))
    (report : LoadReport) :
    l.foldl (fun report p => m.countString p.2 report) report =
      { report with
        strings := report.strings + (l.map Prod.snd).countP fun v => (m.resolve v.owner).isSome
        droppedStrings :=
          report.droppedStrings + (l.map Prod.snd).countP fun v => (m.resolve v.owner).isNone } := by
  induction l generalizing report with
  | nil => rfl
  | cons p l ih =>
    rw [List.foldl_cons, ih, ModuleMap.countString, List.map_cons, List.countP_cons,
      List.countP_cons]
    cases m.resolve p.2.owner <;>
      simp only [Option.isSome_none, Option.isNone_none, Option.isSome_some, Option.isNone_some,
        if_true, Bool.false_eq_true, if_false, Nat.add_zero, Nat.add_assoc, Nat.add_comm 1]

/-! ## Sessions -/

namespace HandleTable

variable {α : Type} (t : HandleTable α)

theorem find?_beginLoad (i : UInt32) : t.beginLoad.find? i = none := by
  rw [find?_eq]
  exact SlotData.find?_empty _

theorem slots_endLoad_true : (t.endLoad true).slots = t.slots := by
  rw [endLoad]
  split <;> rfl

theorem find?_endLoad_true (i : UInt32) : (t.endLoad true).find? i = t.find? i := by
  rw [find?_eq, find?_eq, slots_endLoad_true]

/-- two tables without anything temporary -/
theorem slots_temporaries_eq {u v : HandleTable α} (hu : u.temporaries = [])
    (hv : v.temporaries = []) : u.slots.temporaries = v.slots.temporaries :=
  (Std.ExtTreeSet.toList_eq_nil_iff.1 hu).trans (Std.ExtTreeSet.toList_eq_nil_iff.1 hv).symm

theorem temporaries_endLoad {u : HandleTable α}
    (h : u.slots.temporaries = t.beginLoad.slots.temporaries) :
    (u.endLoad true).temporaries = [] := by
  rw [temporaries, slots_endLoad_true, h]
  exact Std.ExtTreeSet.toList_eq_nil_iff.2 rfl

end HandleTable

namespace Session

/-- what is in a save that was written -/
theorem toBytes_eq_ok {s : Session} {report : SaveReport} {bytes : List UInt8}
    (h : s.toBytes = .ok (report, bytes)) :
    ∃ a b, SaveFormat.checkVersion s.config.saveVersion = .ok () ∧
      ArrayStore.records (s.arrays.written s.config.skipPendingOnSave) s.config.saveVersion = .of a ∧
      StringStore.records s.strings = .of b ∧
      bytes = a.flatMap Record.encode ++ b.flatMap Record.encode := by
  rw [toBytes] at h
  split at h
  · next report' stream hsave =>
    obtain ⟨rfl, rfl⟩ := Prod.mk.inj (Except.ok.inj h)
    obtain ⟨_, s₁, harrays, h₁⟩ := bind_eq_ok.1 hsave
    obtain ⟨_, s₂, hstrings, h₂⟩ := bind_eq_ok.1 h₁
    obtain ⟨-, rfl⟩ := pure_eq_ok.1 h₂
    obtain ⟨_, _, hdemand, h₃⟩ := bind_eq_ok.1 harrays
    obtain ⟨hv, rfl⟩ := demand_eq_ok.1 hdemand
    obtain ⟨_, _, hwrite, h₄⟩ := bind_eq_ok.1 h₃
    obtain ⟨-, rfl⟩ := pure_eq_ok.1 h₄
    obtain ⟨ha, rfl⟩ := Stream.writeRecords_eq_ok hwrite
    obtain ⟨_, _, hwrite, h₅⟩ := bind_eq_ok.1 hstrings
    obtain ⟨-, rfl⟩ := pure_eq_ok.1 h₅
    obtain ⟨hb, rfl⟩ := Stream.writeRecords_eq_ok hwrite
    refine ⟨_, _, hv, ha, hb, ?_⟩
    rw [Stream.toList_bytes_append, Stream.toList_bytes_append]
    rfl
  · cases h

section
variable {τ β : Type} {s t : Session} {o o' : τ} {a : β}

theorem onArrays_of_ok {x : Action (ArrayStore × τ) β} {arrays : ArrayStore}
    (h : x (s.arrays, o) = .ok a (arrays, o')) :
    onArrays x (s, o) = .ok a ({ s with arrays }, o') := by
  rw [onArrays, h]

theorem onStrings_of_ok {x : Action (StringStore × τ) β} {strings : StringStore}
    (h : x (s.strings, o) = .ok a (strings, o')) :
    onStrings x (s, o) = .ok a ({ s with strings }, o') := by
  rw [onStrings, h]

end

section
variable {m : ModuleMap} {s t : Session} {report report' : LoadReport} {stream s₁ s₂ : Stream}

theorem loadSections_of_ok {arrays : ArrayStore} {strings : StringStore}
    (ha : ArrayStore.load m (s.arrays, stream) = .ok report (arrays, s₁))
    (hs : StringStore.load m report (s.strings, s₁) = .ok report' (strings, s₂)) :
    loadSections m (s, stream) = .ok report' (⟨s.config, arrays, strings⟩, s₂) := by
  rw [loadSections, bind_of_ok (onArrays_of_ok ha)]
  exact onStrings_of_ok hs

theorem load_of_ok {modules : ModuleMap} (hm : modules.keep s.config.dynamicModule = m)
    (h : loadSections m (s.beginLoad, stream) = .ok report (t, s₁)) :
    load modules (s, stream) = .ok report (t.endLoad true, s₁) := by
  rw [load]
  refine (bind_of_ok (x := get) rfl).trans ?_
  show replacing (loadSections (modules.keep s.config.dynamicModule)) (s, stream) = _
  rw [hm, replacing, h]

end

theorem restores_eq (s : Session) (m : ModuleMap) (version : UInt32) (id : UInt32) :
    s.restores m id = ((s.arrays.find? id).bind (m.loadArray version)).isSome := by
  rw [restores]
  cases s.arrays.find? id with
  | none => rfl
  | some a => exact Option.isSome_map.symm

theorem repairs_eq {s : Session} {m : ModuleMap} {u : ArrayStore}
    (hu : ArrayStore.Read m s.config.saveVersion (s.restores m) s.arrays u) :
    s.strings.toList.foldl (fun report p => m.countString p.2 report)
      { s.arrays.toList.foldl (fun report p => m.countArray p.2 report)
          (.start s.config.saveVersion) with nulledArrays := (ArrayStore.nullDangling u).1 } =
      s.repairs m := by
  rw [StringStore.foldl_countString, ArrayStore.foldl_countArray, hu.nulledArrays]
  simp only [LoadReport.start, Nat.zero_add]
  rfl

/-- what comes of a session when the sections of another one are read into it -/
theorem load_sections {s u : Session} {m modules : ModuleMap}
    (hm : modules.keep u.config.dynamicModule = m) {read : ArrayStore} {strings : StringStore}
    {stream s₁ s₂ : Stream}
    {report : LoadReport} (hreport : report =
      { s.arrays.toList.foldl (fun report p => m.countArray p.2 report)
        (.start s.config.saveVersion) with nulledArrays := (ArrayStore.nullDangling read).1 })
    (hload : ArrayStore.load m (u.beginLoad.arrays, stream) =
      .ok report ((ArrayStore.nullDangling read).2, s₁))
    (hread : Loads (m.loadArray s.config.saveVersion) s.arrays.toList u.beginLoad.arrays read)
    (hload' : StringStore.load m report (u.beginLoad.strings, s₁) =
      .ok (s.strings.toList.foldl (fun report p => m.countString p.2 report) report) (strings, s₂))
    (hread' : Loads m.loadString s.strings.toList u.beginLoad.strings strings) :
    ∃ t, load modules (u, stream) = .ok (s.repairs m) (t, s₂) ∧ Restored m s t := by
  have hempty : ∀ i, u.beginLoad.arrays.find? i = none := u.arrays.find?_beginLoad
  have hempty' : ∀ i, u.beginLoad.strings.find? i = none := u.strings.find?_beginLoad
  have hr : ArrayStore.Read m s.config.saveVersion (s.restores m) s.arrays read := {
    find? := hread.find?_bind hempty
    restored := fun i => by rw [s.restores_eq m s.config.saveVersion, ← hread.find?_bind hempty] }
  rw [hreport, repairs_eq hr, ← hreport] at hload'
  refine ⟨(⟨u.config, (ArrayStore.nullDangling read).2, strings⟩ : Session).endLoad true,
    load_of_ok hm (loadSections_of_ok hload hload'), ?_⟩
  have hfind : ∀ id, ((ArrayStore.nullDangling read).2.endLoad true).find? id =
      (s.arrays.find? id).bind (ArrayVar.repair m s.config.saveVersion (s.restores m)) :=
    fun id => (HandleTable.find?_endLoad_true _ id).trans (hr.find?_nullDangling id)
  exact {
    arrays := hfind
    entries := fun {id a b} ha hb => by
      have hr := (hfind id).symm.trans hb
      rw [ha] at hr
      exact ArrayVar.entries_repair hr
    strings := fun id => (strings.find?_endLoad_true id).trans (hread'.find?_bind hempty' id)
    temporaries := ⟨
      u.arrays.temporaries_endLoad ((HandleTable.temporaries_modifyAll read _).trans
        hread.temporaries),
      u.strings.temporaries_endLoad hread'.temporaries⟩ }

/-- the records of a session can be loaded, and bring back what belongs to modules that are there -/
theorem load_records {s : Session} (hfits : ∀ p ∈ s.arrays.toList, p.2.Fits)
    (hv : SaveFormat.checkVersion s.config.saveVersion = .ok ()) {a b : List Record}
    (ha : ArrayStore.records (s.arrays.written false) s.config.saveVersion = .of a)
    (hb : StringStore.records s.strings = .of b) (modules : ModuleMap) (u : Session) :
    let m := modules.keep u.config.dynamicModule
    let bytes := a.flatMap Record.encode ++ b.flatMap Record.encode
    ∃ t stream, load modules (u, Stream.ofBytes bytes) = .ok (s.repairs m) (t, stream) ∧
      Restored m s t := by
  intro m bytes
  obtain ⟨harrays, ha⟩ := ArrayStore.written_of_records ha
  obtain ⟨hstrings, hb⟩ := StringStore.written_of_records hb
  have hbytes : bytes = ArrayStore.bytesOf s.config.saveVersion s.arrays.toList ++
      StringStore.bytesOf s.strings.toList := congrArg₂ (· ++ ·) ha hb
  rw [hbytes]
  obtain ⟨read, s₁, body₁, hload, hs₁, hread⟩ := ArrayStore.load_written (m := m) harrays hfits hv
    (fun p _ => u.arrays.find?_beginLoad p.1)
    (Stream.stands_ofBytes (ArrayStore.bytesOf _ _ ++ StringStore.bytesOf _))
  rw [← List.append_nil (StringStore.bytesOf _)] at hs₁
  obtain ⟨strings, s₂, body₂, hload', -, hread'⟩ := StringStore.load_written (m := m) hstrings
    (fun p _ => u.strings.find?_beginLoad p.1) _ hs₁
  obtain ⟨t, hl, hr⟩ := load_sections rfl rfl hload hread hload' hread'
  exact ⟨t, s₂, hl, hr⟩

/-- arrays keep their layouts -/
theorem Reachable.fits {s : Session} (hs : s.Reachable) : ∀ p ∈ s.arrays.toList, p.2.Fits :=
  fun _ hp => hs.allFit.here (HandleTable.mem_toList.1 hp).2

/-- every save that is written can be loaded, and brings back what belongs to modules that are
there -/
theorem load_toBytes {s : Session} (hs : s.Reachable) (hskip : s.config.skipPendingOnSave = false)
    {report : SaveReport} {bytes : List UInt8} (h : s.toBytes = .ok (report, bytes))
    (modules : ModuleMap) {u : Session} (hu : u.config = s.config) :
    let m := modules.keep s.config.dynamicModule
    ∃ t stream, load modules (u, Stream.ofBytes bytes) = .ok (s.repairs m) (t, stream) ∧
      Restored m s t := by
  obtain ⟨a, b, hv, ha, hb, rfl⟩ := toBytes_eq_ok h
  rw [hskip] at ha
  have hl := load_records hs.fits hv ha hb modules u
  rwa [hu] at hl

/-- a map of module 1 with a list and forms of modules 1 and 2; the list belongs to module 2 -/
def mixed : Session :=
  [.arrays (.createList [.number ⟨0⟩] 2),
    .arrays (.createMap [(.number ⟨0x8000000000000000⟩, .array 0x10000001),
      (Key.ofIndex 1, .form 0x02000007), (Key.ofIndex 2, .form 0x01000007)] 1),
    .strings (.create "kept" 1)].foldl step (start .standard)

theorem reachable_mixed : mixed.Reachable :=
  .step (.strings (.create "kept" 1)) (.step (.arrays (.createMap _ 1))
    (.step (.arrays (.createList _ 2)) (.start .standard)))

/-- module 1 has moved, and module 2 is gone -/
theorem load_toBytes_mixed :
    ∃ report bytes t stream, mixed.toBytes = .ok (report, bytes) ∧
      load (.ofPairs [(1, 4)]) (mixed, Stream.ofBytes bytes) =
        .ok ⟨2, 1, 1, 1, 0, 1, 1⟩ (t, stream) ∧
      t.arrays.find? 1 = none ∧
      t.arrays.find? 2 = some ⟨.map, 4, [], .sorted [(.number ⟨0⟩, .array 0),
        (Key.ofIndex 1, .form 0), (Key.ofIndex 2, .form 0x04000007)]⟩ := by
  have hwritten : (match mixed.toBytes with
      | .ok _ => true
      | .error _ => false) = true := by decide +kernel
  cases h : mixed.toBytes with
  | error f =>
    rw [h] at hwritten
    cases hwritten
  | ok p =>
    obtain ⟨t, stream, hl, hr⟩ := load_toBytes reachable_mixed rfl h (.ofPairs [(1, 4)])
      (u := mixed) rfl
    have hreport : mixed.repairs ((ModuleMap.ofPairs [(1, 4)]).keep mixed.config.dynamicModule) =
        ⟨2, 1, 1, 1, 0, 1, 1⟩ := by decide +kernel
    refine ⟨p.1, p.2, t, stream, rfl, hreport ▸ hl, (hr.arrays 1).trans ?_, (hr.arrays 2).trans ?_⟩
    · decide +kernel
    · decide +kernel

end Session

end ScriptVars
