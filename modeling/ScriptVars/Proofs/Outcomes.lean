import ScriptVars.ArrayStore.Create
import ScriptVars.ArrayStore.Lifetime
import ScriptVars.Proofs.Ledger

/-!
# What operations on arrays come to

For every operation that may be refused: what its result tells about the store before, and which
store it leaves behind.  Refused, it leaves the store as it was.  A deep copy is the exception: when
it is refused half way, what has been copied stays.

* `create_eq_ok`, …        the operations that make an array;
* `setElement_eq_ok`, …    those that change one, each an `exchange`;
* `atomic_create`, …       what is left after a refusal.
-/

namespace ScriptVars.ArrayStore

variable {s s' : ArrayStore}

/-! ## Making arrays -/

section
variable {h : UInt32}

theorem create_eq_ok {keyType : KeyType} {packed : Bool} {owner : UInt8}
    (hc : create keyType packed owner s = .ok h s') :
    ∃ kind, HandleTable.place (ArrayVar.empty kind owner []) s = .ok h s' := by
  simp only [create, Action.bind_eq_ok, Action.demand_eq_ok] at hc
  obtain ⟨a, _, ⟨hm, rfl⟩, hp⟩ := hc
  obtain ⟨kind, rfl⟩ := ArrayVar.make_eq_ok hm
  exact ⟨kind, hp⟩

theorem createList_eq_ok {values : List Element} {owner : UInt8}
    (hc : createList values owner s = .ok h s') :
    install ⟨.array, owner, [], .packed values⟩ s = .ok h s' := by
  simp only [createList, Action.bind_eq_ok, Action.demand_eq_ok] at hc
  obtain ⟨a, _, ⟨hm, rfl⟩, hp⟩ := hc
  exact ArrayVar.ofValues_eq_ok hm ▸ hp

theorem createMap_eq_ok {pairs : List (Key × Element)} {owner : UInt8}
    (hc : createMap pairs owner s = .ok h s') :
    ∃ a, ArrayVar.ofPairs pairs owner = .ok a ∧ install a s = .ok h s' := by
  simp only [createMap, Action.bind_eq_ok, Action.demand_eq_ok] at hc
  obtain ⟨a, _, ⟨hm, rfl⟩, hp⟩ := hc
  exact ⟨a, hm, hp⟩

theorem slice_eq_ok {source : UInt32} {lo hi : Key} (hc : slice source lo hi s = .ok h s') :
    ∃ a entries, s.find? source = some a ∧ entriesBetween a lo hi = .ok entries ∧
      install ⟨a.kind, a.owner, [], a.kind.storageOf entries⟩ s = .ok h s' := by
  simp only [slice, Action.bind_eq_ok, lookup_eq_ok, Action.demand_eq_ok] at hc
  obtain ⟨a, _, ⟨hf, rfl⟩, entries, _, ⟨he, rfl⟩, hp⟩ := hc
  exact ⟨a, entries, hf, he, hp⟩

theorem sortBy_eq_ok {id : UInt32} {order : SortOrder} {cmp : Element → Element → Ordering}
    (hc : sortBy id order cmp s = .ok h s') :
    ∃ a, s.find? id = some a ∧
      createList ((sortEntries order cmp a.entries).map Prod.snd) a.owner s = .ok h s' := by
  simp only [sortBy, Action.bind_eq_ok, lookup_eq_ok] at hc
  obtain ⟨a, _, ⟨hf, rfl⟩, hp⟩ := hc
  exact ⟨a, hf, hp⟩

theorem sort_eq_ok {id : UInt32} {order : SortOrder} {mode : SortMode}
    (hc : sort id order mode s = .ok h s') : sortBy id order mode.compare s = .ok h s' := by
  simp only [sort, Action.bind_eq_ok, lookup_eq_ok] at hc
  obtain ⟨a, _, ⟨hf, rfl⟩, hp⟩ := hc
  rw [SortMode.sort_eq] at hp
  simp only [sortBy, Action.bind_eq_ok, lookup_eq_ok]
  exact ⟨a, _, ⟨hf, rfl⟩, hp⟩

theorem keys_eq_ok {id : UInt32} (hc : keys id s = .ok h s') :
    ∃ a, s.find? id = some a ∧
      createList (a.entries.map fun p => Element.ofKey p.1) a.owner s = .ok h s' := by
  simp only [keys, Action.bind_eq_ok, lookup_eq_ok] at hc
  obtain ⟨a, _, ⟨hf, rfl⟩, hp⟩ := hc
  exact ⟨a, hf, hp⟩

theorem values_eq_ok {id : UInt32} (hc : values id s = .ok h s') :
    ∃ a, s.find? id = some a ∧ createList a.values a.owner s = .ok h s' := by
  simp only [values, Action.bind_eq_ok, lookup_eq_ok] at hc
  obtain ⟨a, _, ⟨hf, rfl⟩, hp⟩ := hc
  exact ⟨a, hf, hp⟩

end

theorem atomic_create (keyType : KeyType) (packed : Bool) (owner : UInt8) :
    Action.Atomic (create keyType packed owner) :=
  (Action.reads_demand _).bind_atomic HandleTable.atomic_place

theorem atomic_createList (values : List Element) (owner : UInt8) :
    Action.Atomic (createList values owner) :=
  (Action.reads_demand _).bind_atomic atomic_install

theorem atomic_createMap (pairs : List (Key × Element)) (owner : UInt8) :
    Action.Atomic (createMap pairs owner) :=
  (Action.reads_demand _).bind_atomic atomic_install

theorem atomic_slice (source : UInt32) (lo hi : Key) : Action.Atomic (slice source lo hi) :=
  (reads_lookup source).bind_atomic fun _ =>
    (Action.reads_demand _).bind_atomic fun _ => atomic_install _

theorem atomic_sortBy (id : UInt32) (order : SortOrder) (cmp : Element → Element → Ordering) :
    Action.Atomic (sortBy id order cmp) :=
  (reads_lookup id).bind_atomic fun _ => atomic_createList _ _

theorem atomic_sort (id : UInt32) (order : SortOrder) (mode : SortMode) :
    Action.Atomic (sort id order mode) :=
  (reads_lookup id).bind_atomic fun _ => atomic_createList _ _

theorem atomic_keys (id : UInt32) : Action.Atomic (keys id) :=
  (reads_lookup id).bind_atomic fun _ => atomic_createList _ _

theorem atomic_values (id : UInt32) : Action.Atomic (values id) :=
  (reads_lookup id).bind_atomic fun _ => atomic_createList _ _

/-! ## Changing arrays -/

theorem setElement_eq_ok {id : UInt32} {k : Key} {e : Element} {u : Unit}
    (hc : setElement id k e s = .ok u s') :
    s.accepts e ∧ ∃ a storage old, s.find? id = some a ∧ k.keyType = a.keyType ∧
      a.storage.write k e = .ok (storage, old) ∧ s' = s.exchange id a storage [e] old.toList := by
  simp only [setElement, Action.bind_eq_ok, requireTarget_eq_ok, lookup_eq_ok,
    Action.demand_eq_ok, Action.modify_eq_ok] at hc
  obtain ⟨_, _, ⟨he, rfl⟩, a, _, ⟨hf, rfl⟩, ⟨b, old⟩, _, ⟨hs, rfl⟩, rfl⟩ := hc
  obtain ⟨hk, storage, hw, rfl⟩ := ArrayVar.set_eq_ok hs
  exact ⟨he, a, storage, old, hf, hk, hw, rfl⟩

theorem retainAll_nil (s : ArrayStore) (module : UInt8) : s.retainAll [] module = s := by
  rw [retainAll, HandleTable.modifyEach, Std.ExtTreeMap.foldl_eq_foldl_toList]
  rfl

theorem releaseAll_nil (s : ArrayStore) (module : UInt8) : s.releaseAll [] module = s := by
  rw [releaseAll, HandleTable.modifyEach, Std.ExtTreeMap.foldl_eq_foldl_toList]
  rfl

theorem splice_eq_ok {id : UInt32} {a : ArrayVar} {i : Nat} {new : List Element} {u : Unit}
    (hc : splice id a i new s = .ok u s') :
    ∃ storage, a.storage.insert i new = .ok storage ∧ s' = s.exchange id a storage new [] := by
  simp only [splice, Action.bind_eq_ok, Action.demand_eq_ok, Action.modify_eq_ok] at hc
  obtain ⟨storage, _, ⟨hs, rfl⟩, rfl⟩ := hc
  exact ⟨storage, hs, (releaseAll_nil _ _).symm⟩

theorem append_eq_ok {id : UInt32} {e : Element} {u : Unit} (hc : append id e s = .ok u s') :
    s.accepts e ∧ ∃ a storage, s.find? id = some a ∧ a.storage.insert a.size [e] = .ok storage ∧
      s' = s.exchange id a storage [e] [] := by
  simp only [append, Action.bind_eq_ok, requireTarget_eq_ok, lookup_eq_ok] at hc
  obtain ⟨_, _, ⟨he, rfl⟩, a, _, ⟨hf, rfl⟩, hc⟩ := hc
  split at hc
  · obtain ⟨_, _, ht, _⟩ := Action.bind_eq_ok.1 hc
    cases ht
  · obtain ⟨storage, hs, rfl⟩ := splice_eq_ok hc
    exact ⟨he, a, storage, hf, hs, rfl⟩

theorem insert_eq_ok {id : UInt32} {i : Nat} {e : Element} {u : Unit}
    (hc : insert id i e s = .ok u s') :
    s.accepts e ∧ ∃ a storage, s.find? id = some a ∧ a.storage.insert i [e] = .ok storage ∧
      s' = s.exchange id a storage [e] [] := by
  simp only [insert, Action.bind_eq_ok, requireTarget_eq_ok, lookup_eq_ok] at hc
  obtain ⟨_, _, ⟨he, rfl⟩, a, _, ⟨hf, rfl⟩, hc⟩ := hc
  obtain ⟨storage, hs, rfl⟩ := splice_eq_ok hc
  exact ⟨he, a, storage, hf, hs, rfl⟩

theorem insertRange_eq_ok {id : UInt32} {i : Nat} {source : UInt32} {u : Unit}
    (hc : insertRange id i source s = .ok u s') :
    ∃ b a storage, s.find? source = some b ∧ s.find? id = some a ∧
      a.storage.insert i b.values = .ok storage ∧ s' = s.exchange id a storage b.values [] := by
  simp only [insertRange, Action.bind_eq_ok, lookup_eq_ok] at hc
  obtain ⟨b, _, ⟨hb, rfl⟩, a, _, ⟨hf, rfl⟩, hc⟩ := hc
  obtain ⟨storage, hs, rfl⟩ := splice_eq_ok hc
  exact ⟨b, a, storage, hb, hf, hs, rfl⟩

theorem resize_eq_ok {id : UInt32} {n : Nat} {pad : Element} {u : Unit}
    (hc : resize id n pad s = .ok u s') :
    s.accepts pad ∧ ∃ a storage removed, s.find? id = some a ∧
      a.storage.resize n pad = .ok (storage, removed) ∧
      s' = s.exchange id a storage (List.replicate (n - a.size) pad) removed := by
  simp only [resize, Action.bind_eq_ok, requireTarget_eq_ok, lookup_eq_ok, Action.demand_eq_ok,
    Action.modify_eq_ok] at hc
  obtain ⟨_, _, ⟨he, rfl⟩, a, _, ⟨hf, rfl⟩, ⟨storage, removed⟩, _, ⟨hs, rfl⟩, rfl⟩ := hc
  refine ⟨he, a, storage, removed, hf, hs, ?_⟩
  -- only one of the two has anything to do
  rcases (Storage.exchanges_resize hs).2 with hlt | rfl
  · have hz : n - a.size = 0 := by
      have : n < a.size := hlt
      omega
    rw [hz]
    exact (retainAll_nil _ _).trans (congrArg (releaseAll · _ _) (retainAll_nil _ _).symm)
  · exact (congrArg (retainAll · _ _) (releaseAll_nil _ _)).trans (releaseAll_nil _ _).symm

theorem eraseElement_eq_ok {id : UInt32} {k : Key} {found : Bool}
    (hc : eraseElement id k s = .ok found s') :
    ∃ a storage old, s.find? id = some a ∧ a.storage.Exchanges storage [] old.toList ∧
      a.erase k = .ok ({ a with storage }, old) ∧ found = old.isSome ∧
      s' = s.exchange id a storage [] old.toList := by
  simp only [eraseElement, Action.bind_eq_ok, lookup_eq_ok, Action.demand_eq_ok,
    Action.modify_eq_ok, Action.pure_eq_ok] at hc
  obtain ⟨a, _, ⟨hf, rfl⟩, ⟨b, old⟩, _, ⟨hs, rfl⟩, _, _, rfl, rfl, rfl⟩ := hc
  obtain ⟨storage, hx, rfl⟩ := ArrayVar.erase_eq_ok hs
  exact ⟨a, storage, old, hf, hx, hs, rfl, congrArg (releaseAll · _ _) (retainAll_nil _ _).symm⟩

theorem eraseElements_eq_ok {id : UInt32} {lo hi : Key} {n : Nat}
    (hc : eraseElements id lo hi s = .ok n s') :
    ∃ a storage removed, s.find? id = some a ∧
      a.storage.eraseWithin lo hi = .ok (storage, removed) ∧ n = removed.length ∧
      s' = s.exchange id a storage [] removed := by
  simp only [eraseElements, Action.bind_eq_ok, lookup_eq_ok, Action.demand_eq_ok,
    Action.modify_eq_ok, Action.pure_eq_ok] at hc
  obtain ⟨a, _, ⟨hf, rfl⟩, _, _, ⟨_, rfl⟩, _, _, ⟨_, rfl⟩, ⟨storage, removed⟩, _, ⟨hs, rfl⟩, _, _,
    rfl, rfl, rfl⟩ := hc
  exact ⟨a, storage, removed, hf, hs, rfl, congrArg (releaseAll · _ _) (retainAll_nil _ _).symm⟩

theorem eraseAll_eq_ok {id : UInt32} {n : Nat} (hc : eraseAll id s = .ok n s') :
    ∃ a, s.find? id = some a ∧ n = a.size ∧
      s' = s.exchange id a a.storage.clear [] a.values := by
  simp only [eraseAll, Action.bind_eq_ok, lookup_eq_ok, Action.modify_eq_ok,
    Action.pure_eq_ok] at hc
  obtain ⟨a, _, ⟨hf, rfl⟩, _, _, rfl, rfl, rfl⟩ := hc
  exact ⟨a, hf, rfl, congrArg (releaseAll · _ _) (retainAll_nil _ _).symm⟩

theorem atomic_modify (g : ArrayStore → ArrayStore) :
    Action.Atomic (modify g : Action ArrayStore Unit) :=
  (Action.succeeds_modify g).atomic

theorem atomic_setElement (id : UInt32) (k : Key) (e : Element) :
    Action.Atomic (setElement id k e) :=
  (reads_requireTarget e).bind_atomic fun _ => (reads_lookup id).bind_atomic fun _ =>
    (Action.reads_demand _).bind_atomic fun _ => atomic_modify _

theorem atomic_splice (id : UInt32) (a : ArrayVar) (i : Nat) (new : List Element) :
    Action.Atomic (splice id a i new) :=
  (Action.reads_demand _).bind_atomic fun _ => atomic_modify _

theorem atomic_append (id : UInt32) (e : Element) : Action.Atomic (append id e) := by
  refine (reads_requireTarget e).bind_atomic fun _ => (reads_lookup id).bind_atomic fun a => ?_
  dsimp only
  split
  · exact (Action.reads_throw _).bind_atomic fun _ => atomic_splice _ _ _ _
  · exact atomic_splice _ _ _ _

theorem atomic_insert (id : UInt32) (i : Nat) (e : Element) : Action.Atomic (insert id i e) :=
  (reads_requireTarget e).bind_atomic fun _ => (reads_lookup id).bind_atomic fun _ =>
    atomic_splice _ _ _ _

theorem atomic_insertRange (id : UInt32) (i : Nat) (source : UInt32) :
    Action.Atomic (insertRange id i source) :=
  (reads_lookup source).bind_atomic fun _ => (reads_lookup id).bind_atomic fun _ =>
    atomic_splice _ _ _ _

theorem atomic_resize (id : UInt32) (n : Nat) (pad : Element) : Action.Atomic (resize id n pad) :=
  (reads_requireTarget pad).bind_atomic fun _ => (reads_lookup id).bind_atomic fun _ =>
    (Action.reads_demand _).bind_atomic fun _ => atomic_modify _

theorem atomic_eraseElement (id : UInt32) (k : Key) : Action.Atomic (eraseElement id k) :=
  (reads_lookup id).bind_atomic fun _ => (Action.reads_demand _).bind_atomic fun _ =>
    (atomic_modify _).bind fun _ => Action.succeeds_pure _

theorem atomic_eraseElements (id : UInt32) (lo hi : Key) :
    Action.Atomic (eraseElements id lo hi) :=
  (reads_lookup id).bind_atomic fun _ => (Action.reads_demand _).bind_atomic fun _ =>
    (Action.reads_demand _).bind_atomic fun _ => (Action.reads_demand _).bind_atomic fun _ =>
      (atomic_modify _).bind fun _ => Action.succeeds_pure _

theorem atomic_eraseAll (id : UInt32) : Action.Atomic (eraseAll id) :=
  (reads_lookup id).bind_atomic fun _ =>
    (atomic_modify _).bind fun _ => Action.succeeds_pure _

/-! ## References from outside -/

theorem addReference_eq_ok {target : UInt32} {module : UInt8} {u : Unit}
    (hc : addReference target module s = .ok u s') :
    (s.find? target).isSome ∧ s' = s.retain target module := by
  simp only [addReference, Action.bind_eq_ok, lookup_eq_ok, Action.modify_eq_ok] at hc
  obtain ⟨a, _, ⟨hf, rfl⟩, rfl⟩ := hc
  exact ⟨Option.isSome_of_eq_some hf, rfl⟩

theorem removeReference_eq_ok {target : UInt32} {module : UInt8} {found : Bool}
    (hc : removeReference target module s = .ok found s') :
    (∃ a, s.find? target = some a ∧ found = a.refs.contains module) ∧
      s' = s.release target module := by
  simp only [removeReference, Action.bind_eq_ok, lookup_eq_ok, Action.modify_eq_ok,
    Action.pure_eq_ok] at hc
  obtain ⟨a, _, ⟨hf, rfl⟩, _, _, rfl, rfl, rfl⟩ := hc
  exact ⟨⟨a, hf, rfl⟩, rfl⟩

/-- the store once a variable that held one id holds another one -/
def reassign (s : ArrayStore) (slot target : UInt32) (module : UInt8) : ArrayStore :=
  if slot = target then s
  else
    let dropped := if slot = 0 then s else s.release slot module
    if target = 0 then dropped else dropped.retain target module

theorem assignReference_of_accepts {slot target : UInt32} {module : UInt8}
    (h : s.accepts (.array target)) :
    assignReference target module (s, slot) = .ok () (s.reassign slot target module, target) := by
  have hrequire : Action.onFirst (requireTarget (.array target)) (s, slot) = .ok () (s, slot) := by
    rw [Action.onFirst, requireTarget_of_accepts h]
  refine (Action.bind_of_ok hrequire).trans ((Action.bind_of_ok (x := get) rfl).trans ?_)
  dsimp only
  rw [reassign]
  by_cases e : slot = target
  · rw [if_pos e, if_pos e, e]
    rfl
  · rw [if_neg e, if_neg e]
    by_cases hs : slot = 0 <;> by_cases ht : target = 0 <;>
      simp only [ne_eq, hs, ht, not_true_eq_false, not_false_eq_true, if_true, if_false] <;> rfl

theorem assignReference_of_not_accepts {slot target : UInt32} {module : UInt8}
    (h : ¬ s.accepts (.array target)) :
    ∃ f, assignReference target module (s, slot) = .error f (s, slot) := by
  obtain ⟨f, hf⟩ := requireTarget_of_not_accepts h
  have hrequire : Action.onFirst (requireTarget (.array target)) (s, slot) =
      .error f (s, slot) := by
    rw [Action.onFirst, hf]
  exact ⟨f, Action.bind_eq_error.2 (.inl hrequire)⟩

theorem assignReference_eq_ok {slot held target : UInt32} {module : UInt8} {u : Unit}
    (hc : assignReference target module (s, slot) = .ok u (s', held)) :
    s.accepts (.array target) ∧ held = target ∧ s' = s.reassign slot target module := by
  by_cases ha : s.accepts (.array target)
  · rw [assignReference_of_accepts ha] at hc
    cases hc
    exact ⟨ha, rfl, rfl⟩
  · obtain ⟨f, hf⟩ := assignReference_of_not_accepts ha
    cases hf.symm.trans hc

theorem atomic_addReference (target : UInt32) (module : UInt8) :
    Action.Atomic (addReference target module) :=
  (reads_lookup target).bind_atomic fun _ => atomic_modify _

theorem atomic_removeReference (target : UInt32) (module : UInt8) :
    Action.Atomic (removeReference target module) :=
  (reads_lookup target).bind_atomic fun _ =>
    (atomic_modify _).bind fun _ => Action.succeeds_pure _

/-- a variable that is not moved holds what it held -/
theorem atomic_assignReference (target : UInt32) (module : UInt8) :
    Action.Atomic (assignReference target module) := by
  rintro ⟨s, slot⟩ f p' hc
  by_cases ha : s.accepts (.array target)
  · cases (assignReference_of_accepts ha).symm.trans hc
  · obtain ⟨g, hg⟩ := assignReference_of_not_accepts ha
    cases hg.symm.trans hc
    rfl

end ScriptVars.ArrayStore
