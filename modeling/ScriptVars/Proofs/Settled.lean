import ScriptVars.Proofs.Composition
import ScriptVars.Proofs.Recapture

/-!
# Sessions that have settled

A load under a map that moves no module leaves nothing to repair.  What it has loaded can be saved
and loaded again under that map, and neither the variables nor the save change any more.

* `ModuleMap.InPlace`             a map that moves no module;
* `Storage.repaired_eq_self`      a storage without anything to repair;
* `ArrayVar.Resolved.repair_eq`   an array of modules that are there;
* `ArrayStore.written_eq`         what is saved without temporary arrays;
* `Session.Settled`               a session without anything to repair;
* `Session.Settled.load`          saved and loaded again.
-/

namespace ScriptVars

open ScriptVars.Action

/-! ## Maps that move no module -/

namespace ModuleMap

/-- modules stay where they are, or are gone -/
def InPlace (m : ModuleMap) : Prop := ∀ ⦃old new⦄, m.resolve old = some new → new = old

variable {m : ModuleMap}

theorem inPlace_identity : identity.InPlace := fun _ _ h => (Option.some.inj h).symm

theorem InPlace.keep (hm : m.InPlace) (index : UInt8) : (m.keep index).InPlace := by
  intro old new h
  rw [ModuleMap.keep, resolve_insert] at h
  split at h
  · next e => exact (Option.some.inj h).symm.trans e.symm
  · exact hm h

theorem InPlace.resolve_eq (hm : m.InPlace) {index : UInt8} (h : m.Reaches index) :
    m.resolve index = some index := by
  obtain ⟨old, ho⟩ := h
  obtain rfl := hm ho
  exact ho

theorem InPlace.filterMap_resolve (hm : m.InPlace) {refs : List UInt8}
    (h : ∀ r ∈ refs, m.Reaches r) : refs.filterMap m.resolve = refs := by
  rw [List.filterMap_congr fun r hr => hm.resolve_eq (h r hr)]
  exact List.filterMap_some

theorem InPlace.repairForm_eq (hm : m.InPlace) {form : UInt32}
    (h : form = 0 ∨ m.Reaches (form >>> 24).toUInt8) : m.repairForm form = form := by
  by_cases hz : form = 0
  · rw [hz]
    rfl
  · have hform := form.toNat_lt
    have htop : (form >>> 24).toUInt8.toNat = form.toNat / formsPerModule := by
      rw [← moduleOfForm_eq, moduleOfForm]
      refine UInt8.toNat_ofNat_of_lt' ?_
      show form.toNat / 0x1000000 < 256
      omega
    rw [m.repairForm_of_ne hz, hm.resolve_eq (h.resolve_left hz)]
    show (form >>> 24).toUInt8.toUInt32 <<< 24 ||| formNumber form = form
    rw [moved_eq, htop, Nat.div_add_mod', UInt32.ofNat_toNat]

end ModuleMap

/-! ## Arrays -/

theorem Key.repair_eq_self {k : Key} (h : k ≠ negativeZero) : k.repair = k := by
  cases k with
  | text s => rfl
  | number x =>
    refine congrArg number (if_neg fun hx => h ?_)
    exact congrArg (fun bits => number ⟨bits⟩) hx

theorem Storage.repaired_eq_self {f : Element → Element} {E : Element → Prop} {s : Storage}
    (h : s.Holds (· ≠ Key.negativeZero) E) (hf : ∀ e, E e → f e = e) : s.repaired f = s := by
  cases s with
  | packed values =>
    refine congrArg packed ?_
    rw [List.map_congr_left fun e he => hf e (h e he)]
    exact List.map_id values
  | sorted entries =>
    refine congrArg sorted ?_
    have hentry : ∀ p ∈ entries, (p.1.fold, f p.2) = p := fun p hp => by
      rw [Key.fold_eq_repair, Key.repair_eq_self (h p hp).1, hf p.2 (h p hp).2]
    rw [List.map_congr_left hentry]
    exact List.map_id entries

namespace ArrayVar

/-- an array as records of some version hold it -/
def recorded (version : UInt32) (a : ArrayVar) : ArrayVar :=
  { a with refs := Reader.savedRefs version a.refs }

theorem Resolved.repair_eq {m : ModuleMap} (hm : m.InPlace) {E : Element → Prop} {a : ArrayVar}
    (ha : a.Resolved m E) {restored : UInt32 → Bool}
    (hE : ∀ e, E e → e.repair m restored = e) (version : UInt32) :
    a.repair m version restored = some (a.recorded version) := by
  rw [repair, hm.resolve_eq ha.owner, hm.filterMap_resolve ha.refs,
    Storage.repaired_eq_self ha.contents hE]
  rfl

/-- a record says the same of an array as of what it says of the array -/
theorem draft_recorded (a : ArrayVar) (id : UInt32) (version : UInt32) :
    (a.recorded version).draft id (a.recorded version).refs version =
      a.draft id a.refs version := by
  by_cases hv : version = SaveFormat.currentVersion
  · have hrefs : Reader.savedRefs version a.refs = a.refs := if_pos hv
    rw [recorded, hrefs]
  · rw [draft, draft, if_neg hv, if_neg hv]
    rfl

end ArrayVar

theorem HandleTable.toList_map {α β : Type} {t : HandleTable α} {u : HandleTable β} {f : α → β}
    (h : ∀ i, u.find? i = (t.find? i).map f) : u.toList = t.toList.map fun p => (p.1, f p.2) := by
  have hbind : ∀ i, u.find? i = (t.find? i).bind fun a => some (f a) := fun i => by
    rw [h, Option.map_eq_bind]
    rfl
  exact (toList_filterMap hbind).trans (congrFun List.filterMap_eq_map' _)

namespace ArrayStore

variable {s t : ArrayStore}

/-- without temporary arrays nothing is left out of a save -/
theorem written_eq (h : s.temporaries = []) (skip : Bool) : s.written skip = s.written false := by
  cases skip with
  | false => rfl
  | true =>
    have hstart : s.unclaimed = [] := by rw [unclaimed, h, List.filter_nil]
    have hpending : s.pendingCollection = (∅, s.refTable) := by
      rw [pendingCollection, hstart, Pending.collect]
      rfl
    show ((s.toList.filter fun p => !s.pendingCollection.1.contains p.1).map fun p =>
      (p.1, p.2, s.pendingCollection.2[p.1]?.getD p.2.refs)) = s.toList.map _
    rw [hpending]
    have hall : (s.toList.filter fun p => !(∅ : HandleSet).contains p.1) = s.toList :=
      List.filter_eq_self.2 fun _ _ => rfl
    show (s.toList.filter fun p => !(∅ : HandleSet).contains p.1).map _ = _
    rw [hall]
    refine List.map_congr_left fun p hp => ?_
    show (p.1, p.2, s.refTable[p.1]?.getD p.2.refs) = _
    rw [getElem?_refTable hp]
    rfl

/-- arrays as records hold them are saved like the arrays themselves -/
theorem save_recorded {version : UInt32} (hs : s.temporaries = []) (ht : t.temporaries = [])
    (h : ∀ i, t.find? i = (s.find? i).map (ArrayVar.recorded version)) (skip : Bool) :
    t.save version skip = s.save version skip := by
  have hlist : t.toList = s.toList.map fun p => (p.1, p.2.recorded version) :=
    HandleTable.toList_map h
  have hsize : t.size = s.size := by
    rw [HandleTable.size_eq, HandleTable.size_eq, hlist, List.length_map]
  have hwritten : t.written skip = s.toList.map fun p =>
      (p.1, p.2.recorded version, (p.2.recorded version).refs) := by
    rw [written_eq ht]
    show t.toList.map _ = _
    rw [hlist, List.map_map]
    rfl
  have hrecords : records (t.written skip) version = records (s.written skip) version := by
    rw [hwritten, written_eq hs, records, records]
    show _ ++ (Draft.concat (List.map _ (List.map _ _)) ++ _) =
      _ ++ (Draft.concat (List.map _ (List.map _ s.toList)) ++ _)
    rw [List.map_map, List.map_map]
    have hrecord : ∀ p ∈ s.toList,
        Draft.record SaveFormat.arrayRecord version
          ((p.2.recorded version).draft p.1 (p.2.recorded version).refs version) =
        Draft.record SaveFormat.arrayRecord version (p.2.draft p.1 p.2.refs version) :=
      fun p _ => by rw [p.2.draft_recorded]
    exact congrArg (fun d => _ ++ (Draft.concat d ++ _)) (List.map_congr_left hrecord)
  have hlength : (t.written skip).length = (s.written skip).length := by
    rw [hwritten, written_eq hs, List.length_map]
    exact (List.length_map ..).symm
  simp only [save, hrecords, hlength, hsize]

end ArrayStore

/-! ## Sessions -/

namespace Session

/-- only modules that are there, arrays that name arrays of the session, and nothing temporary -/
structure Settled (m : ModuleMap) (t : Session) : Prop where
  arrays : ∀ p ∈ t.arrays.toList,
    p.2.Resolved m fun e => m.ReachesForm e ∧ t.arrays.NamesArray e
  strings : ∀ p ∈ t.strings.toList, StringStore.OwnerReached m p.2
  fits : ∀ p ∈ t.arrays.toList, p.2.Fits
  temporaries : t.arrays.temporaries = [] ∧ t.strings.temporaries = []

section
variable {m : ModuleMap} {s t u : Session}

/-- a load leaves nothing to repair -/
theorem settled_of_load (hs : s.Reachable) {modules : ModuleMap} {stream stream' : Stream}
    {report : LoadReport} (h : load modules (s, stream) = .ok report (t, stream')) :
    Settled (modules.keep s.config.dynamicModule) t := by
  obtain ⟨ha, hb, -⟩ := tables_of_load h
  exact ⟨ha.mem_toList, hb.mem_toList, (hs.of_load h).fits, ha.temporaries_eq, hb.temporaries_eq⟩

namespace Settled

theorem restores_eq (ht : Settled m t) (hm : m.InPlace) (id : UInt32) :
    t.restores m id = (t.arrays.find? id).isSome := by
  rw [restores]
  cases hf : t.arrays.find? id with
  | none => rfl
  | some a =>
    have hin : (handleOf id, a) ∈ t.arrays.toList := HandleTable.handleOf_mem_toList.2 hf
    show (m.resolve a.owner).isSome = true
    rw [hm.resolve_eq (ht.arrays _ hin).owner]
    rfl

theorem repair_element (ht : Settled m t) (hm : m.InPlace) {e : Element}
    (he : m.ReachesForm e ∧ t.arrays.NamesArray e) : e.repair m (t.restores m) = e := by
  cases e with
  | form id => exact congrArg Element.form (hm.repairForm_eq (he.1 id rfl))
  | array id =>
    show Element.array (if t.restores m id then handleOf id else 0) = .array id
    rw [ht.restores_eq hm]
    rcases he.2 id rfl with rfl | ⟨hself, hin⟩
    · exact congrArg Element.array (ite_self 0)
    · rw [if_pos hin, hself]
  | _ => rfl

theorem repair_array (ht : Settled m t) (hm : m.InPlace) {p : UInt32 × ArrayVar}
    (hp : p ∈ t.arrays.toList) (version : UInt32) :
    p.2.repair m version (t.restores m) = some (p.2.recorded version) :=
  (ht.arrays p hp).repair_eq hm (fun _ => ht.repair_element hm) version

theorem repair_string (ht : Settled m t) (hm : m.InPlace) {p : UInt32 × StringVar}
    (hp : p ∈ t.strings.toList) : p.2.repair m = some p.2 := by
  rw [StringVar.repair, hm.resolve_eq (ht.strings p hp)]
  rfl

/-- it comes back as it is -/
theorem find?_restored (ht : Settled m t) (hm : m.InPlace) (h : Restored m t u) :
    (∀ i, u.arrays.find? i = (t.arrays.find? i).map (ArrayVar.recorded t.config.saveVersion)) ∧
      ∀ i, u.strings.find? i = t.strings.find? i := by
  refine ⟨fun i => ?_, fun i => ?_⟩
  · rw [h.arrays]
    cases hf : t.arrays.find? i with
    | none => rfl
    | some a => exact ht.repair_array hm (HandleTable.handleOf_mem_toList.2 hf) _
  · rw [h.strings]
    cases hf : t.strings.find? i with
    | none => rfl
    | some v => exact ht.repair_string hm (HandleTable.handleOf_mem_toList.2 hf)

theorem losesForm_eq (hm : m.InPlace) {e : Element} (he : m.ReachesForm e) :
    e.losesForm m = false := by
  cases e with
  | form id =>
    show (decide (id ≠ 0) && (m.resolve (id >>> 24).toUInt8).isNone) = false
    rcases he id rfl with rfl | hr
    · rfl
    · rw [hm.resolve_eq hr, Option.isNone_some, Bool.and_false]
  | _ => rfl

theorem losesArray_eq (ht : Settled m t) (hm : m.InPlace) {e : Element}
    (he : t.arrays.NamesArray e) : e.losesArray (t.restores m) = false := by
  cases e with
  | array id =>
    show (decide (handleOf id ≠ 0) && !t.restores m id) = false
    rcases he id rfl with rfl | ⟨hself, hin⟩
    · rfl
    · rw [ht.restores_eq hm, hin, Bool.not_true, Bool.and_false]
  | _ => rfl

/-- the report on loading it again -/
theorem repairs_eq (ht : Settled m t) (hm : m.InPlace) : t.repairs m =
    ⟨t.config.saveVersion, t.arrays.size, t.strings.size, 0, 0, 0, 0⟩ := by
  have howner : ∀ a ∈ t.arrays.toList.map Prod.snd, (m.resolve a.owner).isSome = true := by
    intro a ha
    obtain ⟨p, hp, rfl⟩ := List.mem_map.1 ha
    rw [hm.resolve_eq (ht.arrays p hp).owner]
    rfl
  have howner' : ∀ v ∈ t.strings.toList.map Prod.snd, (m.resolve v.owner).isSome = true := by
    intro v hv
    obtain ⟨p, hp, rfl⟩ := List.mem_map.1 hv
    rw [hm.resolve_eq (ht.strings p hp)]
    rfl
  have helement : ∀ e ∈ (t.arrays.toList.map Prod.snd).flatMap ArrayVar.values,
      m.ReachesForm e ∧ t.arrays.NamesArray e := by
    intro e he
    obtain ⟨a, ha, he⟩ := List.mem_flatMap.1 he
    obtain ⟨p, hp, rfl⟩ := List.mem_map.1 ha
    exact (ht.arrays p hp).contents.mem_values e he
  have hkept := List.filter_eq_self.2 howner
  have hdropped : (t.arrays.toList.map Prod.snd).countP (fun a => (m.resolve a.owner).isNone) = 0 :=
    List.countP_eq_zero.2 fun a ha hn =>
      Option.isSome_iff_ne_none.1 (howner a ha) (Option.isNone_iff_eq_none.1 hn)
  have hstrings := List.countP_eq_length.2 howner'
  have hdropped' : (t.strings.toList.map Prod.snd).countP (fun v => (m.resolve v.owner).isNone) = 0 :=
    List.countP_eq_zero.2 fun v hv hn =>
      Option.isSome_iff_ne_none.1 (howner' v hv) (Option.isNone_iff_eq_none.1 hn)
  have hforms := List.countP_eq_zero.2 fun e he =>
    Bool.eq_false_iff.1 (losesForm_eq hm (helement e he).1)
  have hnulled := List.countP_eq_zero.2 fun e he =>
    Bool.eq_false_iff.1 (ht.losesArray_eq hm (helement e he).2)
  rw [repairs, hkept, hdropped, hstrings, hdropped', hforms, hnulled, List.length_map, List.length_map,
    ← HandleTable.size_eq, ← HandleTable.size_eq]

end Settled

/-- the report on a save -/
theorem report_of_toBytes {report : SaveReport} {bytes : List UInt8}
    (h : t.toBytes = .ok (report, bytes)) :
    report = ⟨(t.arrays.written t.config.skipPendingOnSave).length, t.strings.size,
      t.arrays.size - (t.arrays.written t.config.skipPendingOnSave).length⟩ := by
  rw [toBytes] at h
  split at h
  · next saved stream hsave =>
    obtain ⟨rfl, -⟩ := Prod.mk.inj (Except.ok.inj h)
    obtain ⟨_, s₁, harrays, h₁⟩ := bind_eq_ok.1 hsave
    obtain ⟨_, s₂, hstrings, h₂⟩ := bind_eq_ok.1 h₁
    obtain ⟨rfl, -⟩ := pure_eq_ok.1 h₂
    obtain ⟨_, _, -, h₃⟩ := bind_eq_ok.1 harrays
    obtain ⟨_, _, -, h₄⟩ := bind_eq_ok.1 h₃
    obtain ⟨rfl, -⟩ := pure_eq_ok.1 h₄
    obtain ⟨_, _, -, h₅⟩ := bind_eq_ok.1 hstrings
    obtain ⟨rfl, -⟩ := pure_eq_ok.1 h₅
    rfl
  · cases h

/-- the report on saving everything -/
theorem report_of_temporaries_nil (ht : t.arrays.temporaries = []) {report : SaveReport}
    {bytes : List UInt8} (h : t.toBytes = .ok (report, bytes)) :
    report = ⟨t.arrays.size, t.strings.size, 0⟩ := by
  have hlength : (t.arrays.written t.config.skipPendingOnSave).length = t.arrays.size := by
    rw [ArrayStore.written_eq ht, HandleTable.size_eq]
    exact List.length_map ..
  rw [report_of_toBytes h, hlength, Nat.sub_self]

theorem toBytes_recorded (hu : u.config = t.config) (ht : t.arrays.temporaries = [])
    (ht' : u.arrays.temporaries = [])
    (ha : ∀ i, u.arrays.find? i = (t.arrays.find? i).map (ArrayVar.recorded t.config.saveVersion))
    (hs : ∀ i, u.strings.find? i = t.strings.find? i) : u.toBytes = t.toBytes := by
  have hsave : u.save = t.save := by
    rw [save, save, hu, ArrayStore.save_recorded ht ht' ha, StringStore.save_congr hs]
  rw [toBytes, toBytes, hsave]

/-- saved and loaded again, it comes back as it is, and so does its save -/
theorem Settled.reload (ht : Settled m t) (hm : m.InPlace) {report : SaveReport}
    {bytes : List UInt8} (h : t.toBytes = .ok (report, bytes)) {modules : ModuleMap}
    (hmodules : modules.keep t.config.dynamicModule = m) {v : Session} (hv : v.config = t.config) :
    report = ⟨t.arrays.size, t.strings.size, 0⟩ ∧ ∃ u stream,
      load modules (v, Stream.ofBytes bytes) =
        .ok ⟨t.config.saveVersion, t.arrays.size, t.strings.size, 0, 0, 0, 0⟩ (u, stream) ∧
      Restored m t u ∧ u.toBytes = .ok (report, bytes) := by
  obtain ⟨a, b, hversion, ha, hb, rfl⟩ := toBytes_eq_ok h
  rw [ArrayStore.written_eq ht.temporaries.1] at ha
  obtain ⟨u, stream, hload, hr⟩ := load_records ht.fits hversion ha hb modules v
  rw [hv, hmodules] at hload hr
  rw [ht.repairs_eq hm] at hload
  obtain ⟨harrays, hstrings⟩ := ht.find?_restored hm hr
  have hconfig : u.config = t.config := (config_of_load hload).trans hv
  refine ⟨report_of_temporaries_nil ht.temporaries.1 h, u, stream, hload, hr, ?_⟩
  rw [toBytes_recorded hconfig ht.temporaries.1 hr.temporaries.1 harrays hstrings, h]

end

end Session

end ScriptVars
