import ScriptVars.Proofs.CoveredSaves
import ScriptVars.Proofs.Observation
import ScriptVars.Proofs.ReservedBits
import ScriptVars.Proofs.Settled

/-!
# Saves and dumps of ids with reserved bits

A save keeps the reserved bits of ids, and a load drops them.  So what is loaded does not depend on
them, unless the save has left out what only they kept from being found.

* `Draft.Level`                 as long as another draft, with the same fault;
* `ArrayStore.saved`            the arrays of a save with the references it gives them;
* `Session.SameUnder`           the same session as far as a map tells elements apart;
* `Session.SavedAlike`          saves that come to the same;
* `Session.alike_of_reduced`    what differs only in reserved bits is swept, saved and dumped alike.
-/

namespace ScriptVars

/-! ## Records -/

namespace Draft

variable {α γ : Type} {d e d' e' : Draft α}

/-- the same fault, and as much before it -/
structure Level (d e : Draft α) : Prop where
  fault : d.fault = e.fault
  length : d.parts.length = e.parts.length

theorem Level.refl (d : Draft α) : d.Level d := ⟨rfl, rfl⟩

theorem Level.append (h : d.Level e) (h' : d'.Level e') : (d ++ d').Level (e ++ e') := by
  obtain ⟨parts, fault⟩ := d
  obtain ⟨parts', fault'⟩ := e
  obtain ⟨hf, hl⟩ := h
  obtain rfl : fault = fault' := hf
  cases fault with
  | none =>
    refine ⟨h'.fault, ?_⟩
    rw [length_append rfl, length_append rfl, h'.length]
    exact congrArg (· + _) hl
  | some f => exact ⟨rfl, hl⟩

theorem level_concat {f g : γ → Draft α} {l : List γ} (h : ∀ c ∈ l, (f c).Level (g c)) :
    (concat (l.map f)).Level (concat (l.map g)) := by
  induction l with
  | nil => exact .refl _
  | cons c l ih =>
    obtain ⟨hc, hl⟩ := List.forall_mem_cons.1 h
    exact hc.append (ih hl)

end Draft

namespace Element

variable {m : ModuleMap} {restored : UInt32 → Bool}

theorem level_reduced (e : Element) : e.reduced.draft.Level e.draft := by
  cases e with
  | array id =>
    refine (Draft.Level.refl _).append ⟨rfl, ?_⟩
    exact (Bytes.length_ofNat ..).trans (Bytes.length_ofNat ..).symm
  | _ => exact .refl _

theorem repair_reduced (hr : ∀ id, restored (handleOf id) = restored id) (e : Element) :
    e.reduced.repair m restored = e.repair m restored := by
  cases e with
  | array id =>
    show array (if restored (handleOf id) then handleOf (handleOf id) else 0) = _
    rw [hr, handleOf_handleOf]
    rfl
  | _ => rfl

/-- an id without reserved bits is told apart from all others -/
theorem eq_of_tagged {id other : UInt32} (hself : handleOf other = other)
    (h : (array other).tagged = (array id).tagged) : id = other := by
  have he : other = if handleOf id = id then id else handleOf id + 0x10000000 := by
    rw [← Element.array.inj h, if_pos hself]
  split at he
  · exact he.symm
  · rw [he] at hself
    exact absurd hself (handleOf_add_ne id)

theorem losesForm_reduced (e : Element) : e.reduced.losesForm m = e.losesForm m := by
  cases e <;> rfl

theorem losesArray_reduced (hr : ∀ id, restored (handleOf id) = restored id) (e : Element) :
    e.reduced.losesArray restored = e.losesArray restored := by
  cases e with
  | array id =>
    show (decide (handleOf (handleOf id) ≠ 0) && !restored (handleOf id)) = _
    rw [hr, handleOf_handleOf]
    rfl
  | _ => rfl

end Element

namespace ArrayVar

variable {f : Element → Element}

theorem size_mapElements (f : Element → Element) (a : ArrayVar) :
    (a.mapElements f).size = a.size := by
  rw [← length_entries, entries_mapElements, List.length_map, length_entries]

/-- as much is written of the array, and the same stands in the way -/
theorem draft_reduced (a : ArrayVar) (id : UInt32) (refs : List UInt8) (version : UInt32) :
    ((a.mapElements Element.reduced).draft id refs version).Level (a.draft id refs version) := by
  rw [draft, draft, size_mapElements, entries_mapElements, List.map_map]
  refine (Draft.Level.refl _).append (.append (.refl _) (.append (.refl _)
    (.append (.refl _) (.append (.refl _) (Draft.level_concat fun p _ => ?_)))))
  exact (Draft.Level.refl p.1.draft).append p.2.level_reduced

theorem repair_mapElements {m : ModuleMap} {version : UInt32} {restored : UInt32 → Bool}
    (hf : ∀ e, (f e).repair m restored = e.repair m restored) (a : ArrayVar) :
    (a.mapElements f).repair m version restored = a.repair m version restored := by
  have hstorage : (a.storage.mapValues f).repaired (Element.repair m restored) =
      a.storage.repaired (Element.repair m restored) := by
    cases a.storage with
    | packed values =>
      refine congrArg Storage.packed ((List.map_map ..).trans (List.map_congr_left fun e _ => ?_))
      exact hf e
    | sorted entries =>
      refine congrArg Storage.sorted ((List.map_map ..).trans (List.map_congr_left fun p _ => ?_))
      exact Prod.ext rfl (hf p.2)
  show (m.resolve a.owner).map _ = (m.resolve a.owner).map _
  rw [show (a.mapElements f).storage.repaired (Element.repair m restored) = _ from hstorage]
  rfl

section
variable {l l' : List ArrayVar}
  (h : l.map (mapElements Element.reduced) = l'.map (mapElements Element.reduced))
include h

theorem countP_of_reduced {P : ArrayVar → Bool}
    (hP : ∀ a, P (a.mapElements Element.reduced) = P a) :
    l.countP P = l'.countP P := by
  have hcount : ∀ k : List ArrayVar, k.countP P = (k.map (mapElements Element.reduced)).countP P :=
    fun k => by
      rw [List.countP_map]
      exact List.countP_congr fun a _ => by rw [Function.comp, hP]
  rw [hcount, hcount l', h]

theorem filter_of_reduced {P : ArrayVar → Bool}
    (hP : ∀ a, P (a.mapElements Element.reduced) = P a) :
    (l.filter P).map (mapElements Element.reduced) =
      (l'.filter P).map (mapElements Element.reduced) := by
  have hfilter : ∀ k : List ArrayVar, (k.filter P).map (mapElements Element.reduced) =
      (k.map (mapElements Element.reduced)).filter P := fun k => by
    rw [List.filter_map]
    exact congrArg _ (List.filter_congr fun a _ => (hP a).symm)
  rw [hfilter, hfilter, h]

theorem countP_values_of_reduced {q : Element → Bool} (hq : ∀ e, q e.reduced = q e) :
    (l.flatMap values).countP q = (l'.flatMap values).countP q := by
  have hcount : ∀ k : List ArrayVar, (k.flatMap values).countP q =
      ((k.map (mapElements Element.reduced)).flatMap values).countP q := fun k => by
    rw [List.flatMap_map, List.countP_flatMap, List.countP_flatMap]
    refine congrArg List.sum (List.map_congr_left fun a _ => ?_)
    show a.values.countP q = (a.mapElements Element.reduced).values.countP q
    rw [values_mapElements, List.countP_map]
    exact List.countP_congr fun e _ => by rw [Function.comp, hq]
  rw [hcount, hcount l', h]

end

end ArrayVar

/-! ## Stores -/

namespace HandleTable

variable {α : Type} {t u : HandleTable α}

theorem find?_of_toList_eq (h : t.toList = u.toList) (i : UInt32) : t.find? i = u.find? i := by
  refine Option.ext fun a => ?_
  rw [← handleOf_mem_toList, ← handleOf_mem_toList, h]

theorem isTemporary_of_temporaries_eq (h : t.temporaries = u.temporaries) (i : UInt32) :
    t.isTemporary i = u.isTemporary i := by
  have hm : ∀ v : HandleTable α, v.isTemporary i = true ↔ handleOf i ∈ v.temporaries := fun v => by
    rw [mem_temporaries, and_iff_right (handleOf_handleOf i), isTemporary, isTemporary,
      handleOf_handleOf]
  rw [Bool.eq_iff_iff, hm, hm, h]

theorem size_congr (h : ∀ i, t.find? i = u.find? i) : t.size = u.size := by
  rw [size_eq, size_eq, toList_congr h]

/-- the same variables are erased -/
theorem foldl_erase_congr (hfind : ∀ i, t.find? i = u.find? i)
    (htemporary : ∀ i, t.isTemporary i = u.isTemporary i) (l : List UInt32) :
    (∀ i, (l.foldl erase t).find? i = (l.foldl erase u).find? i) ∧
      ∀ i, (l.foldl erase t).isTemporary i = (l.foldl erase u).isTemporary i := by
  induction l generalizing t u with
  | nil => exact ⟨hfind, htemporary⟩
  | cons id l ih =>
    refine ih (fun i => ?_) fun i => ?_
    · rw [find?_erase, find?_erase, hfind]
    · rw [isTemporary_erase, isTemporary_erase, htemporary]

end HandleTable

namespace ArrayStore

variable {f : Element → Element} {s t k l : ArrayStore} {skip : Bool}

def mapEntry (f : Element → Element) (p : UInt32 × ArrayVar) : UInt32 × ArrayVar :=
  (p.1, p.2.mapElements f)

theorem find?_of_mapEntry (h : k.toList.map (mapEntry f) = l.toList.map (mapEntry f)) (i : UInt32) :
    (k.find? i).map (ArrayVar.mapElements f) = (l.find? i).map (ArrayVar.mapElements f) := by
  rw [← find?_mapElements, ← find?_mapElements]
  refine HandleTable.find?_of_toList_eq ?_ i
  rw [toList_mapElements, toList_mapElements]
  exact h

theorem sameUnder_iff : SameUnder f s t ↔
    s.toList.map (mapEntry f) = t.toList.map (mapEntry f) ∧ s.temporaries = t.temporaries :=
  ⟨fun h => ⟨h.toList_eq, HandleTable.temporaries_congr h.isTemporary⟩,
    fun h => ⟨find?_of_mapEntry h.1, HandleTable.isTemporary_of_temporaries_eq h.2⟩⟩

instance (f : Element → Element) (s t : ArrayStore) : Decidable (SameUnder f s t) :=
  decidable_of_iff _ sameUnder_iff.symm

/-- the arrays that a save writes, with the references it writes for them -/
def saved (s : ArrayStore) (skip : Bool) : List (UInt32 × ArrayVar) :=
  (s.written skip).map fun q => (q.1, { q.2.1 with refs := q.2.2 })

theorem mem_saved {p : UInt32 × ArrayVar} (h : p ∈ s.saved skip) :
    ∃ a, (p.1, a) ∈ s.toList ∧ ({ a with refs := p.2.refs } : ArrayVar) = p.2 := by
  obtain ⟨q, hq, rfl⟩ := List.mem_map.1 h
  exact ⟨q.2.1, (mem_written hq).1, rfl⟩

theorem exists_toList_eq_saved (s : ArrayStore) (skip : Bool) :
    ∃ k : ArrayStore, k.toList = s.saved skip := by
  refine HandleTable.exists_toList_eq (List.pairwise_map.2 ?_) fun p hp => ?_
  · have hascending := HandleTable.ascending_toList s
    cases skip with
    | false => exact List.pairwise_map.2 hascending
    | true => exact List.pairwise_map.2 (hascending.filter _)
  · obtain ⟨a, ha, -⟩ := mem_saved hp
    exact HandleTable.handle_of_mem_toList (t := s) (p := (p.1, a)) ha

/-- saves of both leave out the same arrays if the same ones are found pending -/
theorem SameUnder.saved_eq (h : SameUnder f s t)
    (hskip : skip = false ∨ s.pendingCollection = t.pendingCollection) :
    (s.saved skip).map (mapEntry f) = (t.saved skip).map (mapEntry f) := by
  have hlist : s.toList.map (mapEntry f) = t.toList.map (mapEntry f) := h.toList_eq
  cases skip with
  | false =>
    have hall : ∀ u : ArrayStore, u.saved false = u.toList := fun u =>
      (List.map_map ..).trans (List.map_id _)
    rw [hall, hall, hlist]
  | true =>
    have hpending : s.pendingCollection = t.pendingCollection :=
      hskip.resolve_left (Bool.false_ne_true ∘ Eq.symm)
    -- what is left out and what is left of references depends on ids alone
    have hall : ∀ u : ArrayStore, (u.saved true).map (mapEntry f) =
        ((u.toList.map (mapEntry f)).filter fun p => !u.pendingCollection.1.contains p.1).map
          fun p => (p.1, { p.2 with refs := u.pendingCollection.2[p.1]?.getD p.2.refs }) := by
      intro u
      rw [List.filter_map, List.map_map, saved, List.map_map]
      show List.map _ (List.map _ (u.toList.filter fun p =>
        !u.pendingCollection.1.contains p.1)) = _
      rw [List.map_map]
      rfl
    rw [hall, hall, hlist, hpending]

theorem exists_save_saved {version : UInt32} {stream : Stream} :
    (∃ report stream', s.save version skip stream = .ok report stream') ↔
      SaveFormat.checkVersion version = .ok () ∧
        ∀ p ∈ (s.saved skip).map (mapEntry Element.reduced),
        (p.2.draft p.1 p.2.refs version).parts.length < Bytes.capacity 4 ∧
          (p.2.draft p.1 p.2.refs version).fault = none := by
  rw [exists_save, List.forall_mem_map, saved, List.forall_mem_map]
  refine and_congr_right fun _ => forall₂_congr fun q _ => ?_
  have hlevel := ArrayVar.draft_reduced { q.2.1 with refs := q.2.2 } q.1 q.2.2 version
  exact and_congr (iff_of_eq (congrArg (· < _) hlevel.length.symm))
    (iff_of_eq (congrArg (· = none) hlevel.fault.symm))

end ArrayStore

/-! ## Sessions -/

namespace Session

structure SameUnder (f : Element → Element) (s t : Session) : Prop where
  config : s.config = t.config
  arrays : s.arrays.SameUnder f t.arrays
  strings : ∀ i, s.strings.find? i = t.strings.find? i
  temporaryStrings : ∀ i, s.strings.isTemporary i = t.strings.isTemporary i

/-- saves that are written for one if and only if they are for the other, with one report, and that
come to sessions that nothing tells apart, with one report, whatever modules have moved to -/
structure SavedAlike (s t : Session) : Prop where
  written : (∃ report bytes, s.toBytes = .ok (report, bytes)) ↔
    ∃ report bytes, t.toBytes = .ok (report, bytes)
  loaded : ∀ {report report' bytes bytes'}, s.toBytes = .ok (report, bytes) →
    t.toBytes = .ok (report', bytes') → report = report' ∧
      ∀ (modules : ModuleMap) {u v : Session}, u.Reachable → v.Reachable → u.config = v.config →
        ∃ read x y stream stream',
          load modules (u, Stream.ofBytes bytes) = .ok read (x, stream) ∧
          load modules (v, Stream.ofBytes bytes') = .ok read (y, stream') ∧ x.Indistinct y

def DumpTaken (s : Session) : Prop :=
  ∃ u, (StoreDump.capture s).apply (.start s.config) = .ok () u

section
variable {f : Element → Element} {m : ModuleMap} {s t u : Session}

theorem sameUnder_iff : SameUnder f s t ↔ s.config = t.config ∧ s.arrays.SameUnder f t.arrays ∧
    s.strings.toList = t.strings.toList ∧ s.strings.temporaries = t.strings.temporaries :=
  ⟨fun h => ⟨h.config, h.arrays, HandleTable.toList_congr h.strings,
    HandleTable.temporaries_congr h.temporaryStrings⟩,
    fun ⟨hc, ha, hs, ht⟩ => ⟨hc, ha, HandleTable.find?_of_toList_eq hs,
      HandleTable.isTemporary_of_temporaries_eq ht⟩⟩

instance (f : Element → Element) (s t : Session) : Decidable (SameUnder f s t) :=
  decidable_of_iff _ sameUnder_iff.symm

theorem SameUnder.symm (h : SameUnder f s t) : SameUnder f t s :=
  ⟨h.config.symm, h.arrays.symm, fun i => (h.strings i).symm,
    fun i => (h.temporaryStrings i).symm⟩

theorem SameUnder.comp (h : SameUnder f s t) {g r : Element → Element} (hr : ∀ e, g (f e) = r e) :
    SameUnder r s t :=
  { h with arrays := h.arrays.comp hr }

/-- sweeps erase the same variables, and leave what differs as little -/
theorem SameUnder.sweep (h : SameUnder Element.reduced s t) :
    s.arrays.unclaimed = t.arrays.unclaimed ∧ s.strings.temporaries = t.strings.temporaries ∧
      s.sweep.1 = t.sweep.1 ∧ SameUnder Element.reduced s.sweep.2 t.sweep.2 := by
  obtain ⟨hunclaimed, hcount, hswept⟩ := h.arrays.sweep
  have hstrings : s.strings.temporaries = t.strings.temporaries :=
    HandleTable.temporaries_congr h.temporaryStrings
  have herased := HandleTable.foldl_erase_congr h.strings h.temporaryStrings s.strings.temporaries
  refine ⟨hunclaimed, hstrings, Prod.ext hcount (congrArg List.length hstrings), ?_⟩
  rw [hstrings] at herased
  show SameUnder _ { s with arrays := _, strings := s.strings.temporaries.foldl _ _ } _
  rw [hstrings]
  exact ⟨h.config, hswept, herased.1, herased.2⟩

/-! ### Loads -/

/-- what comes back depends on the owners of the arrays -/
theorem restores_of_reduced (h : ∀ i,
    (s.arrays.find? i).map (ArrayVar.mapElements Element.reduced) =
      (t.arrays.find? i).map (ArrayVar.mapElements Element.reduced)) :
    s.restores m = t.restores m := by
  have howner : ∀ w : Session, ∀ id, w.restores m id =
      ((w.arrays.find? id).map (ArrayVar.mapElements Element.reduced)).any
        fun a => (m.resolve a.owner).isSome := fun w id => by
    rw [restores, Option.any_map]
    rfl
  funext id
  rw [howner, howner, h]

/-- what a save of the one comes to, a save of the other comes to as well -/
theorem Restored.of_reduced (hr : Restored m s u)
    (hversion : s.config.saveVersion = t.config.saveVersion)
    (harrays : ∀ i, (s.arrays.find? i).map (ArrayVar.mapElements Element.reduced) =
      (t.arrays.find? i).map (ArrayVar.mapElements Element.reduced))
    (hstrings : ∀ i, s.strings.find? i = t.strings.find? i) : Restored m t u := by
  have hrepair : ∀ w : Session, ∀ i, (w.arrays.find? i).bind
      (ArrayVar.repair m s.config.saveVersion (s.restores m)) =
        ((w.arrays.find? i).map (ArrayVar.mapElements Element.reduced)).bind
          (ArrayVar.repair m s.config.saveVersion (s.restores m)) := by
    intro w i
    rw [Option.bind_map]
    refine congrArg _ (funext fun a => ?_)
    exact (a.repair_mapElements (Element.repair_reduced (s.restores_handleOf m))).symm
  have hfind : ∀ i, u.arrays.find? i = (t.arrays.find? i).bind
      (ArrayVar.repair m t.config.saveVersion (t.restores m)) := fun i => by
    rw [hr.arrays, hrepair, harrays, ← hrepair, hversion, restores_of_reduced harrays]
  exact {
    arrays := hfind
    entries := fun {id a b} ha hb => by
      have he := (hfind id).symm.trans hb
      rw [ha] at he
      exact ArrayVar.entries_repair he
    strings := fun id => by rw [hr.strings, hstrings]
    temporaries := hr.temporaries }

theorem repairs_of_reduced (hversion : s.config.saveVersion = t.config.saveVersion)
    (harrays : s.arrays.toList.map (ArrayStore.mapEntry Element.reduced) =
      t.arrays.toList.map (ArrayStore.mapEntry Element.reduced))
    (hstrings : s.strings.toList = t.strings.toList) : s.repairs m = t.repairs m := by
  have hrestores : s.restores m = t.restores m :=
    restores_of_reduced (ArrayStore.find?_of_mapEntry harrays)
  have hlist : (s.arrays.toList.map Prod.snd).map (ArrayVar.mapElements Element.reduced) =
      (t.arrays.toList.map Prod.snd).map (ArrayVar.mapElements Element.reduced) := by
    have hsnd := congrArg (List.map Prod.snd) harrays
    rw [List.map_map, List.map_map] at hsnd ⊢
    exact hsnd
  have hkept := ArrayVar.filter_of_reduced hlist (P := fun a => (m.resolve a.owner).isSome)
    fun _ => rfl
  have hlength := congrArg List.length hkept
  rw [List.length_map, List.length_map] at hlength
  have hdropped := ArrayVar.countP_of_reduced hlist (P := fun a => (m.resolve a.owner).isNone)
    fun _ => rfl
  have hforms := ArrayVar.countP_values_of_reduced hkept (Element.losesForm_reduced (m := m))
  have hnulled := ArrayVar.countP_values_of_reduced hkept
    (Element.losesArray_reduced (t.restores_handleOf m))
  simp only [repairs]
  rw [hrestores, hversion, hstrings, hlength, hdropped, hforms, hnulled]

/-! ### Saves -/

/-- a load of a save brings back what it has of the arrays -/
theorem load_saved (hs : s.Reachable) {report : SaveReport} {bytes : List UInt8}
    (h : s.toBytes = .ok (report, bytes)) {k : ArrayStore}
    (hk : k.toList = s.arrays.saved s.config.skipPendingOnSave) (modules : ModuleMap)
    (u : Session) :
    ∃ t stream, load modules (u, Stream.ofBytes bytes) =
        .ok (({ s with arrays := k } : Session).repairs (modules.keep u.config.dynamicModule))
          (t, stream) ∧
      Restored (modules.keep u.config.dynamicModule) { s with arrays := k } t := by
  obtain ⟨a, b, hversion, ha, hb, rfl⟩ := toBytes_eq_ok h
  rw [← ArrayStore.records_of_toList hk] at ha
  refine load_records (s := { s with arrays := k }) (fun p hp => ?_) hversion ha hb modules u
  obtain ⟨c, hc, he⟩ := ArrayStore.mem_saved (hk ▸ hp)
  have hfits : ArrayVar.Fits { c with refs := p.2.refs } := hs.fits _ hc
  exact he ▸ hfits

theorem SameUnder.savedAlike (h : SameUnder Element.reduced s t) (hs : s.Reachable)
    (ht : t.Reachable) (hskip : s.config.skipPendingOnSave = false ∨
      s.arrays.pendingCollection = t.arrays.pendingCollection) : SavedAlike s t := by
  have hsaved := h.arrays.saved_eq hskip
  have hstrings : s.strings.toList = t.strings.toList := HandleTable.toList_congr h.strings
  have hconfig := h.config
  constructor
  · rw [exists_toBytes, exists_save, ArrayStore.exists_save_saved, hsaved, exists_toBytes,
      exists_save, ArrayStore.exists_save_saved, hconfig, hstrings]
  · intro report report' bytes bytes' hwritten hwritten'
    constructor
    · have hlength := congrArg List.length hsaved
      have hsize := congrArg List.length h.arrays.toList_eq
      simp only [List.length_map, ArrayStore.saved, ← HandleTable.size_eq] at hlength hsize
      rw [report_of_toBytes hwritten, report_of_toBytes hwritten', ← hconfig, hlength, hsize,
        HandleTable.size_congr h.strings]
    · intro modules u v hu hv huv
      obtain ⟨k, hk⟩ := s.arrays.exists_toList_eq_saved s.config.skipPendingOnSave
      obtain ⟨l, hl⟩ := t.arrays.exists_toList_eq_saved t.config.skipPendingOnSave
      obtain ⟨x, stream, hx, hrx⟩ := load_saved hs hwritten hk modules u
      obtain ⟨y, stream', hy, hry⟩ := load_saved ht hwritten' hl modules v
      have hlist : k.toList.map (ArrayStore.mapEntry Element.reduced) =
          l.toList.map (ArrayStore.mapEntry Element.reduced) := by
        rw [hk, hl, hsaved, hconfig]
      have hversion := congrArg Config.saveVersion hconfig
      rw [← repairs_of_reduced (s := { s with arrays := k }) (t := { t with arrays := l }) hversion
        hlist hstrings] at hy
      rw [← huv] at hy hry
      have hrx' := hrx.of_reduced (t := { t with arrays := l }) hversion
        (ArrayStore.find?_of_mapEntry hlist) h.strings
      have hloaded : x.config = y.config :=
        (config_of_load hx).trans (huv.trans (config_of_load hy).symm)
      exact ⟨_, x, y, stream, stream', hx, hy,
        hrx'.indistinct hry (ended_of_load hu hx) (ended_of_load hv hy) hloaded⟩

/-! ### Dumps -/

-- The lists of the table are gone through: to quantify over ids would try every id there is.
instance : DecidablePred Dumpable := fun s =>
  decidable_of_iff ((s.arrays.toList.all fun p => (ArrayStore.targetsOf p.2.values).all fun id =>
      id = 0 || s.arrays.handles.contains id) = true ∧
    (s.arrays.toList.all fun p => !p.2.isPacked || p.2.size ≤ Key.greatestIndex + 1) = true) <| by
    simp only [List.all_eq_true, ArrayStore.mem_targetsOf, Bool.or_eq_true, decide_eq_true_eq,
      List.contains_iff_mem, Bool.not_eq_true', ← Bool.not_eq_true, ← imp_iff_not_or]
    exact ⟨fun h => ⟨h.1, h.2⟩, fun h => ⟨h.targets, h.sizes⟩⟩

theorem dumpTaken_iff (hs : s.Reachable) : DumpTaken s ↔ s.Dumpable :=
  StoreDump.exists_apply.trans (StoreDump.consistent_capture hs)

theorem SameUnder.dumpable (h : SameUnder Element.tagged s t) (hs : s.Dumpable) : t.Dumpable := by
  have hhandles : s.arrays.handles = t.arrays.handles := by
    have hfst := congrArg (List.map Prod.fst) h.arrays.toList_eq
    rw [List.map_map, List.map_map] at hfst
    rw [HandleTable.handles_eq, HandleTable.handles_eq]
    exact hfst
  have hback : ∀ p ∈ t.arrays.toList, ∃ a, (p.1, a) ∈ s.arrays.toList ∧
      a.mapElements Element.tagged = p.2.mapElements Element.tagged := by
    intro p hp
    obtain ⟨hself, hf⟩ := HandleTable.mem_toList.1 hp
    obtain ⟨a, ha, e⟩ := h.arrays.symm.exists_find? hf
    exact ⟨a, HandleTable.mem_toList.2 ⟨hself, ha⟩, e⟩
  constructor
  · intro p hp id hid
    obtain ⟨a, ha, e⟩ := hback p hp
    have hvalues : a.values.map Element.tagged = p.2.values.map Element.tagged := by
      rw [← ArrayVar.values_mapElements, e, ArrayVar.values_mapElements]
    obtain ⟨x, hx, he⟩ := List.mem_map.1 (hvalues ▸ List.mem_map_of_mem hid)
    cases x with
    | array other =>
      have htarget := hs.targets _ ha other hx
      have hself : handleOf other = other := by
        rcases htarget with rfl | hm
        · rfl
        · obtain ⟨q, hq, rfl⟩ := List.mem_map.1 (HandleTable.handles_eq s.arrays ▸ hm)
          exact (HandleTable.mem_toList.1 hq).1
      rwa [Element.eq_of_tagged hself he, ← hhandles]
    | _ => cases he
  · intro p hp hpacked
    obtain ⟨a, ha, e⟩ := hback p hp
    have hsize : a.size = p.2.size := by
      rw [← ArrayVar.size_mapElements Element.tagged, e, ArrayVar.size_mapElements]
    have hkind : (a.mapElements Element.tagged).isPacked =
        (p.2.mapElements Element.tagged).isPacked := congrArg ArrayVar.isPacked e
    exact hsize ▸ hs.sizes _ ha (hkind.trans hpacked)

/-- Sweeps do not see reserved bits, and neither do saves of everything.  Saves that skip pending
arrays and dumps see only which ids have any. -/
theorem alike_of_reduced (hs : s.Reachable) (ht : t.Reachable)
    (h : SameUnder Element.reduced s t) :
    (s.arrays.unclaimed = t.arrays.unclaimed ∧ s.strings.temporaries = t.strings.temporaries ∧
      s.sweep.1 = t.sweep.1 ∧ SameUnder Element.reduced s.sweep.2 t.sweep.2) ∧
    (s.config.skipPendingOnSave = false ∨ SameUnder Element.tagged s t → SavedAlike s t) ∧
    (SameUnder Element.tagged s t → (DumpTaken s ↔ DumpTaken t)) := by
  refine ⟨h.sweep, fun hskip => h.savedAlike hs ht ?_, fun htagged => ?_⟩
  · exact hskip.imp_right fun htagged => htagged.arrays.pendingCollection
  · rw [dumpTaken_iff hs, dumpTaken_iff ht]
    exact ⟨htagged.dumpable, htagged.symm.dumpable⟩

end

/-- a temporary list that nothing holds, and a temporary list that it names by an id -/
def naming (id : UInt32) : Session :=
  run { Config.standard with skipPendingOnSave := true }
    [.arrays (.createList [] 1), .arrays (.createList [.array id] 1),
      .arrays (.markTemporary 1 true), .arrays (.markTemporary 2 true)]

/-- one reserved bit or another -/
theorem alike_of_reduced_naming :
    (naming 0x10000001).sweep.1 = (naming 0x20000001).sweep.1 ∧
      SavedAlike (naming 0x10000001) (naming 0x20000001) ∧
      (DumpTaken (naming 0x10000001) ↔ DumpTaken (naming 0x20000001)) :=
  have htagged : SameUnder Element.tagged (naming 0x10000001) (naming 0x20000001) := by
    decide +kernel
  have halike := alike_of_reduced (reachable_run _ _) (reachable_run _ _)
    (htagged.comp Element.reduced_tagged)
  ⟨halike.1.2.2.1, halike.2.1 (.inr htagged), halike.2.2 htagged⟩

/-- the list that a reserved bit is lost with is saved and not skipped, and no dump can name it -/
theorem not_alike_of_reduced :
    (¬ ∀ s t : Session, s.Reachable → t.Reachable → SameUnder Element.reduced s t →
      SavedAlike s t) ∧
    ¬ ∀ s t : Session, s.Reachable → t.Reachable → SameUnder Element.reduced s t →
      (DumpTaken s ↔ DumpTaken t) := by
  have hreduced : SameUnder Element.reduced (naming 1) (naming 0x10000001) := by decide +kernel
  have hreachable : ∀ id, (naming id).Reachable := fun _ => reachable_run _ _
  constructor
  · intro hall
    have halike := hall _ _ (hreachable 1) (hreachable 0x10000001) hreduced
    have hplain : (naming 1).toBytes.isOk = true := by decide +kernel
    have hreserved : (naming 0x10000001).toBytes.isOk = true := by decide +kernel
    cases h : (naming 1).toBytes with
    | error f =>
      rw [h] at hplain
      cases hplain
    | ok p =>
      cases h' : (naming 0x10000001).toBytes with
      | error f =>
        rw [h'] at hreserved
        cases hreserved
      | ok p' =>
        have hreport := (halike.loaded h h').1
        rw [report_of_toBytes h, report_of_toBytes h'] at hreport
        exact absurd (congrArg SaveReport.arrays hreport) (by decide +kernel)
  · intro hall
    have hdumped := hall _ _ (hreachable 1) (hreachable 0x10000001) hreduced
    rw [dumpTaken_iff (hreachable 1), dumpTaken_iff (hreachable 0x10000001)] at hdumped
    exact absurd (hdumped.1 (by decide +kernel)) (by decide +kernel)

end Session

end ScriptVars
