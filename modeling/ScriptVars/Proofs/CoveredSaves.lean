import ScriptVars.Proofs.Coverage
import ScriptVars.Proofs.Restore
import ScriptVars.Proofs.Saving

/-!
# Saves of covered sessions

What is loaded from a save of a covered session is covered again, whatever the save leaves out and
wherever modules have gone.  The owners and the references of an array are mapped alike, so modules
that become one have the references of both.

* `ArrayStore.Covered.repair`   what comes back of a covered store is covered;
* `Session.repair_kept`         what is left out makes no difference to the other arrays;
* `Session.Intact`              what stays of references when a save is loaded;
* `Session.intact_load`         all of it does.
-/

namespace ScriptVars

/-! ## Arrays -/

namespace ArrayStore

theorem WrittenAs.fits {s k : ArrayStore} {skip : Bool} {p : Pending} (w : s.WrittenAs skip p k)
    (hs : ∀ q ∈ s.toList, q.2.Fits) : ∀ q ∈ k.toList, q.2.Fits := by
  rw [w.kept]
  intro q hq
  obtain ⟨r, hr, rfl⟩ := List.mem_map.1 hq
  exact hs r (mem_notFound.1 hr).1

variable {k t : ArrayStore} {m : ModuleMap} {r : UInt32 → Bool}

/-- what comes back is named as often as before -/
theorem count_named_repair {h : UInt32} (hz : h ≠ 0) (hr : ∀ id, handleOf id = h → r id = true)
    (l : List Element) : (named (l.map (Element.repair m r))).count h = (named l).count h := by
  induction l with
  | nil => rfl
  | cons e l ih =>
    rw [List.map_cons, ← List.singleton_append, named_append, List.count_append, ih,
      ← List.singleton_append (l := l), named_append, List.count_append]
    refine congrArg (· + (named l).count h) ?_
    cases e with
    | array id =>
      show List.count h [handleOf (if r id then handleOf id else 0)] = List.count h [handleOf id]
      cases hid : r id with
      | true => rw [if_pos rfl, handleOf_handleOf]
      | false =>
        have hne : handleOf id ≠ h := fun e => Bool.false_ne_true (hid.symm.trans (hr id e))
        have hzero : handleOf 0 ≠ h := fun e => hz (e.symm.trans (by decide))
        rw [if_neg Bool.false_ne_true, List.count_singleton, List.count_singleton,
          beq_eq_false_iff_ne.2 hne, beq_eq_false_iff_ne.2 hzero]
    | _ => rfl

theorem holders_repair {h : UInt32} {version : UInt32} (hz : h ≠ 0)
    (hr : ∀ id, handleOf id = h → r id = true) (l : List (UInt32 × ArrayVar)) :
    holders (l.filterMap fun p => (p.2.repair m version r).map (Prod.mk p.1)) h =
      (holders l h).filterMap m.resolve := by
  induction l with
  | nil => rfl
  | cons p l ih =>
    rw [holders_cons, List.filterMap_append, List.filterMap_replicate, ← ih, List.filterMap_cons,
      ArrayVar.repair]
    cases m.resolve p.2.owner with
    | none => rfl
    | some owner =>
      have hcount : (named (p.2.storage.repaired (Element.repair m r)).values).count h =
          (named p.2.values).count h := by
        rw [Storage.values_repaired]
        exact count_named_repair hz hr p.2.values
      exact congrArg (fun n => List.replicate n owner ++ _) hcount

theorem Covered.repair (hc : k.Covered)
    (ht : ∀ i, t.find? i = (k.find? i).bind (ArrayVar.repair m SaveFormat.currentVersion r))
    (hr : ∀ i, (t.find? i).isSome → r i = true) : t.Covered := by
  intro id b hb new
  have hz : handleOf id ≠ 0 := fun hz => by
    rw [t.find?_eq_none_of_zero hz] at hb
    cases hb
  have hback : ∀ i, handleOf i = handleOf id → r i = true := fun i e => hr i (by
    rw [t.find?_congr e, hb]
    rfl)
  rw [← count_holders, HandleTable.toList_filterMap ht, holders_repair hz hback,
    List.count_filterMap]
  rw [ht, Option.bind_eq_some_iff] at hb
  obtain ⟨a, ha, hb⟩ := hb
  obtain ⟨owner, -, rfl⟩ := Option.map_eq_some_iff.1 hb
  show _ ≤ List.count new (a.refs.filterMap m.resolve)
  rw [List.count_filterMap]
  exact (hc.subperm ha).countP_le _

end ArrayStore

/-! ## Sessions -/

namespace Session

/-- what stays of references when a save of `s` is loaded -/
structure Intact (m : ModuleMap) (s t : Session) : Prop where
  covered : t.arrays.Covered
  /-- what a written array names is written, if it is there -/
  written : ∀ p ∈ s.arrays.written s.config.skipPendingOnSave, ∀ id,
    .array id ∈ p.2.1.values → (s.arrays.find? id).isSome →
      ∃ q ∈ s.arrays.written s.config.skipPendingOnSave, q.1 = handleOf id
  /-- what is written comes back, if its module is there -/
  loaded : ∀ id, (t.arrays.find? id).isSome = true ↔ s.restores m id = true ∧
    ∃ q ∈ s.arrays.written s.config.skipPendingOnSave, q.1 = handleOf id
  /-- an id becomes null only if its array was not there, or belongs to a module that is gone -/
  entries : ∀ {id a b}, s.arrays.find? id = some a → t.arrays.find? id = some b →
    b.entries = a.entries.map fun p => (p.1.repair, p.2.repair m (s.restores m))

theorem isSome_of_restores {s : Session} {m : ModuleMap} {id : UInt32}
    (h : s.restores m id = true) : (s.arrays.find? id).isSome = true := by
  obtain ⟨hsome, -⟩ := (Option.any_eq_true_iff_get _ _).1 h
  exact hsome

theorem Restored.isSome_eq {m : ModuleMap} {s t : Session} (hr : Restored m s t) (id : UInt32) :
    (t.arrays.find? id).isSome = s.restores m id := by
  rw [hr.arrays, restores]
  cases s.arrays.find? id with
  | none => rfl
  | some a => exact Option.isSome_map

section
variable {s t : Session} {p : Pending} {k : ArrayStore} {m : ModuleMap}
  (w : s.arrays.WrittenAs s.config.skipPendingOnSave p k)
include w

/-- an array that is written comes back as it does from a save of everything -/
theorem restores_kept (m : ModuleMap) (id : UInt32) :
    ({ s with arrays := k } : Session).restores m id =
      (decide (handleOf id ∉ p.found) && s.restores m id) := by
  show (k.find? id).any _ = _
  rw [w.find?_eq]
  split
  · next hf =>
    rw [decide_eq_false (not_not.2 hf)]
    rfl
  · next hf =>
    rw [decide_eq_true hf, Bool.true_and, restores]
    cases s.arrays.find? id <;> rfl

/-- elements of what is kept name nothing that is found, so they come back as from a save of
everything -/
theorem repair_kept {q : UInt32 × ArrayVar} (hq : q ∈ s.arrays.notFound p.found) {e : Element}
    (he : e ∈ q.2.values) :
    e.repair m (({ s with arrays := k } : Session).restores m) = e.repair m (s.restores m) := by
  cases e with
  | array id =>
    have hid : ({ s with arrays := k } : Session).restores m id = s.restores m id := by
      rw [restores_kept w]
      cases hl : (s.arrays.find? id).isSome with
      | true => rw [decide_eq_true (w.enough.not_mem_found hq he hl), Bool.true_and]
      | false =>
        rw [restores, Option.not_isSome_iff_eq_none.1 (Bool.eq_false_iff.1 hl)]
        exact Bool.and_false _
    rw [Element.repair, Element.repair, hid]
  | _ => rfl

theorem entries_kept {id : UInt32} {a b : ArrayVar} (hr : Restored m { s with arrays := k } t)
    (ha : s.arrays.find? id = some a) (hb : t.arrays.find? id = some b) :
    b.entries = a.entries.map fun q => (q.1.repair, q.2.repair m (s.restores m)) := by
  have hback : ({ s with arrays := k } : Session).restores m id = true := by
    rw [← hr.isSome_eq, hb]
    rfl
  have hf : handleOf id ∉ p.found := (w.isSome_iff.1 (isSome_of_restores hback)).1
  have hk := w.find?_eq id
  rw [if_neg hf, ha] at hk
  rw [hr.entries hk hb]
  refine List.map_congr_left fun q hq => ?_
  have hm : (handleOf id, a) ∈ s.arrays.notFound p.found :=
    ArrayStore.mem_notFound.2 ⟨HandleTable.handleOf_mem_toList.2 ha, hf⟩
  have hvalue : q.2 ∈ a.values := by
    show q.2 ∈ a.storage.values
    rw [← Storage.map_snd_entries]
    exact List.mem_map_of_mem hq
  rw [repair_kept w hm hvalue]

theorem intact_of_restored (hv : s.config.saveVersion = SaveFormat.currentVersion)
    (hr : Restored m { s with arrays := k } t) : Intact m s t where
  covered := w.covered.repair (fun i => hv ▸ hr.arrays i) fun i hi => (hr.isSome_eq i).symm.trans hi
  written _ hq _ hid hl := w.exists_written hq hid hl
  loaded id := by
    rw [hr.isSome_eq, restores_kept w, w.exists_written_iff, w.isSome_iff, Bool.and_eq_true,
      decide_eq_true_eq]
    exact ⟨fun ⟨hf, hr⟩ => ⟨hr, hf, isSome_of_restores hr⟩, fun ⟨hr, hf, _⟩ => ⟨hf, hr⟩⟩
  entries ha hb := entries_kept w hr ha hb

end

/-- what a save keeps of a covered session is loaded with references enough -/
theorem intact_load {s : Session} (hs : s.Reachable) (hc : s.arrays.Covered)
    (hv : s.config.saveVersion = SaveFormat.currentVersion) {report : SaveReport}
    {bytes : List UInt8} (h : s.toBytes = .ok (report, bytes)) (modules : ModuleMap) (u : Session) :
    ∃ report' t stream, load modules (u, Stream.ofBytes bytes) = .ok report' (t, stream) ∧
      Intact (modules.keep u.config.dynamicModule) s t := by
  obtain ⟨a, b, hversion, ha, hb, rfl⟩ := toBytes_eq_ok h
  obtain ⟨p, k, w⟩ := hc.exists_writtenAs s.config.skipPendingOnSave
  rw [← w.records_eq] at ha
  obtain ⟨t, stream, hl, hr⟩ := load_records (s := { s with arrays := k }) (w.fits hs.fits) hversion
    ha hb modules u
  exact ⟨_, t, stream, hl, intact_of_restored w hv hr⟩

/-- list 1 is held by list 2, which goes with the next sweep, by list 3, and twice by list 4; list 5
belongs to another module and is held by list 4, too -/
def shared : Session :=
  run { Config.standard with skipPendingOnSave := true }
    [.arrays (.createList [] 1), .arrays (.createList [.array 1, .array 1] 2),
      .arrays (.markTemporary 2 true), .arrays (.createList [.array 1] 2),
      .arrays (.createList [.array 1, .array 1] 3), .arrays (.createList [] 4),
      .arrays (.append 4 (.array 5))]

/-- the modules of lists 3 and 4 become one, and that of list 5 is gone -/
theorem intact_load_shared :
    ∃ report bytes report' t stream, shared.toBytes = .ok (report, bytes) ∧
      load (.ofPairs [(1, 1), (2, 6), (3, 6)]) (.start .standard, Stream.ofBytes bytes) =
        .ok report' (t, stream) ∧
      t.arrays.Covered ∧ t.arrays.find? 2 = none ∧
      ∃ b, t.arrays.find? 4 = some b ∧ b.entries.map Prod.snd = [.array 1, .array 1, .array 0] := by
  have hwritten : (match shared.toBytes with
      | .ok _ => true
      | .error _ => false) = true := by decide +kernel
  cases h : shared.toBytes with
  | error f =>
    rw [h] at hwritten
    cases hwritten
  | ok p =>
    obtain ⟨report', t, stream, hl, hi⟩ := intact_load (reachable_run _ _)
      (show shared.arrays.Covered by decide +kernel) rfl h (.ofPairs [(1, 1), (2, 6), (3, 6)])
      (.start .standard)
    have hskipped : ¬ ∃ q ∈ shared.arrays.written true, q.1 = handleOf 2 := by decide +kernel
    have hback := (hi.loaded 4).2 ⟨by decide +kernel, by decide +kernel⟩
    obtain ⟨b, hb⟩ := Option.isSome_iff_exists.1 hback
    have hfound : shared.arrays.find? 4 =
        some ⟨.array, 3, [], .packed [.array 1, .array 1, .array 5]⟩ := by decide +kernel
    refine ⟨p.1, p.2, report', t, stream, rfl, hl, hi.covered, ?_, b, hb, ?_⟩
    · exact Option.not_isSome_iff_eq_none.1 fun hs => hskipped ((hi.loaded 2).1 hs).2
    · rw [hi.entries hfound hb]
      decide +kernel

end Session

end ScriptVars
