import ScriptVars.Proofs.CopiedTrees
import ScriptVars.Proofs.Positions

/-!
# Walking the keys of an array

From any key a step forward leads to the least key above it, and a step back to the greatest key
below it, be the key there or not.  So a walk from the first key visits every key once and in order,
and then ends; a walk from the last key visits them the other way round.

* `Key.Precedes`, `Key.IsNearest`     the neighbour of a key on one side;
* `Key.Walk`, `walk_of_isNearest`     steps to neighbours visit everything once;
* `Ascending.isNearest_next?`, …      neighbours in maps;
* `Storage.isNearest_nextKey?`, …     neighbours in arrays of either layout;
* `Session.walks_visit_all`           walks in a session.
-/

namespace ScriptVars

/-! ## Neighbours -/

namespace Key

/-- comes before another key, in the order of keys -/
def Precedes (k l : Key) : Prop := k.compare l = .lt

/-- the neighbour of `k` among some keys, to the side where `r` leads; none where none is -/
def IsNearest (r : Key → Key → Prop) (keys : List Key) (k : Key) : Option Key → Prop
  | some l => l ∈ keys ∧ r k l ∧ ∀ m ∈ keys, r k m → m = l ∨ r l m
  | none => ∀ m ∈ keys, ¬ r k m

/-- steps from a key on, as long as there is a next one, visit these keys and no others -/
inductive Walk (next : Key → Option Key) : Option Key → List Key → Prop where
  | done : Walk next none []
  | step {k : Key} {keys : List Key} : Walk next (next k) keys → Walk next (some k) (k :: keys)

theorem Precedes.asymm {k l : Key} (h : k.Precedes l) : ¬ l.Precedes k := by
  intro h'
  have hgt : l.compare k = .gt := Std.OrientedCmp.gt_of_lt h
  rw [Precedes, hgt] at h'
  cases h'

section
variable {r : Key → Key → Prop} {keys : List Key} {k l : Key} {o o' : Option Key}

theorem isNearest_reverse : IsNearest r keys.reverse k o ↔ IsNearest r keys k o := by
  cases o <;> simp only [IsNearest, List.mem_reverse]

theorem IsNearest.cons (h : IsNearest r keys k o) (hl : ¬ r k l) : IsNearest r (l :: keys) k o := by
  cases o with
  | none => exact List.forall_mem_cons.2 ⟨hl, h⟩
  | some m =>
    obtain ⟨hm, hr, hmin⟩ := h
    exact ⟨List.mem_cons_of_mem _ hm, hr,
      List.forall_mem_cons.2 ⟨fun hkl => absurd hkl hl, hmin⟩⟩

/-- in a list that is in order, the first one that lies behind `k` -/
theorem isNearest_find? {p : Key → Bool} (hp : ∀ m, p m = true ↔ r k m) (h : keys.Pairwise r) :
    IsNearest r keys k (keys.find? p) := by
  induction keys with
  | nil => exact nofun
  | cons l keys ih =>
    obtain ⟨hl, hrest⟩ := List.pairwise_cons.1 h
    by_cases hkl : p l = true
    · rw [List.find?_cons_of_pos hkl]
      exact ⟨List.mem_cons_self, (hp l).1 hkl,
        List.forall_mem_cons.2 ⟨fun _ => .inl rfl, fun m hm _ => .inr (hl m hm)⟩⟩
    · rw [List.find?_cons_of_neg hkl]
      exact (ih hrest).cons fun hr => hkl ((hp l).2 hr)

section
variable (hr : ∀ ⦃k l⦄, r k l → ¬ r l k)
include hr

theorem IsNearest.unique (h : IsNearest r keys k o) (h' : IsNearest r keys k o') : o = o' := by
  cases o with
  | none =>
    cases o' with
    | none => rfl
    | some l => exact absurd h'.2.1 (h l h'.1)
  | some l =>
    cases o' with
    | none => exact absurd h.2.1 (h' l h.1)
    | some m =>
      rcases h.2.2 m h'.1 h'.2.1 with rfl | hlm
      · rfl
      · rcases h'.2.2 l h.1 h.2.1 with rfl | hml
        · rfl
        · exact absurd hml (hr hlm)

/-- in a list that is in order, the neighbour of a member stands next to it -/
theorem isNearest_head? {before after : List Key} (h : (before ++ k :: after).Pairwise r) :
    IsNearest r (before ++ k :: after) k after.head? := by
  obtain ⟨-, hfrom, hcross⟩ := List.pairwise_append.1 h
  obtain ⟨hk, hafter⟩ := List.pairwise_cons.1 hfrom
  have hmem : ∀ m ∈ before ++ k :: after, r k m → m ∈ after := by
    intro m hm hkm
    rcases List.mem_append.1 hm with hm | hm
    · exact absurd hkm (hr (hcross m hm k List.mem_cons_self))
    · rcases List.mem_cons.1 hm with rfl | hm
      · exact absurd hkm (hr hkm)
      · exact hm
  cases after with
  | nil => exact fun m hm hkm => nomatch hmem m hm hkm
  | cons l after =>
    refine ⟨List.mem_append_right _ (List.mem_cons_of_mem _ List.mem_cons_self),
      hk l List.mem_cons_self, fun m hm hkm => ?_⟩
    rcases List.mem_cons.1 (hmem m hm hkm) with rfl | hm
    · exact .inl rfl
    · exact .inr ((List.pairwise_cons.1 hafter).1 m hm)

/-- steps to neighbours, from the first of some keys that are in order -/
theorem walk_of_isNearest {next : Key → Option Key} (h : keys.Pairwise r)
    (hnext : ∀ k ∈ keys, IsNearest r keys k (next k)) : Walk next keys.head? keys := by
  -- what is left to visit is an end of the list
  suffices hwalk : ∀ after before, keys = before ++ after → Walk next after.head? after from
    hwalk keys [] rfl
  intro after
  induction after with
  | nil => exact fun _ _ => .done
  | cons k after ih =>
    rintro before rfl
    have hk : next k = after.head? :=
      (hnext k (List.mem_append_right _ List.mem_cons_self)).unique hr (isNearest_head? hr h)
    refine .step ?_
    rw [hk]
    exact ih (before ++ [k]) (by rw [List.append_assoc, List.singleton_append])

end

end

end Key

open Key (Precedes IsNearest Walk)

/-! ## Maps -/

namespace Ascending

variable {entries : List (Key × Element)}

theorem pairwise_precedes (h : IsAscending Key.compare entries) :
    (entries.map Prod.fst).Pairwise Precedes := List.pairwise_map.2 h

theorem isNearest_next? (h : IsAscending Key.compare entries) (k : Key) :
    IsNearest Precedes (entries.map Prod.fst) k (next? Key.compare k entries) := by
  have hnext : next? Key.compare k entries =
      (entries.map Prod.fst).find? fun l => k.compare l == .lt := by
    rw [List.find?_map]
    rfl
  rw [hnext]
  exact Key.isNearest_find? (fun _ => beq_iff_eq) (pairwise_precedes h)

theorem isNearest_prev? (h : IsAscending Key.compare entries) (k : Key) :
    IsNearest (fun k l => Precedes l k) (entries.map Prod.fst) k
      (prev? Key.compare k entries) := by
  have hprev : prev? Key.compare k entries =
      (entries.map Prod.fst).reverse.find? fun l => l.compare k == .lt := by
    rw [← List.map_reverse, List.find?_map, prev?, List.findRev?_eq_find?_reverse]
    rfl
  rw [hprev, ← Key.isNearest_reverse]
  exact Key.isNearest_find? (fun _ => beq_iff_eq) (List.pairwise_reverse.2 (pairwise_precedes h))

end Ascending

/-! ## Lists -/

namespace Storage

/-- the keys of a list name its positions -/
theorem mem_keys_packed {values : List Element} {k : Key} :
    k ∈ (packed values).entries.map Prod.fst ↔ ∃ j < values.length, k = Key.ofIndex j := by
  show k ∈ (indexed 0 values).map Prod.fst ↔ _
  rw [ArrayStore.map_fst_indexed, List.mem_map]
  refine exists_congr fun j => ?_
  rw [List.mem_range'_1, Nat.zero_add, and_iff_right (Nat.zero_le j), @eq_comm _ k]

section
variable {values : List Element} (hsize : values.length ≤ Key.greatestIndex + 1)
include hsize

/-- where a key that names a position stands beside the keys of a list -/
theorem compare_ofIndex {k : Key} {i j : Nat} (hk : k.index? = some i) (hj : j < values.length) :
    (k.Precedes (Key.ofIndex j) ↔ i < j) ∧ ((Key.ofIndex j).Precedes k ↔ j < i) := by
  have hindex : (Key.ofIndex j).index? = some j := Key.index?_ofIndex (by omega)
  rw [Precedes, Precedes, Key.compare_of_index? hk hindex, Key.compare_of_index? hindex hk]
  exact ⟨Nat.compare_eq_lt, Nat.compare_eq_lt⟩

theorem pairwise_keys_packed : ((packed values).entries.map Prod.fst).Pairwise Precedes := by
  show ((indexed 0 values).map Prod.fst).Pairwise Precedes
  rw [ArrayStore.map_fst_indexed, List.pairwise_map]
  refine List.Pairwise.imp_of_mem ?_ List.pairwise_lt_range'
  intro i j hi hj hij
  rw [List.mem_range'_1] at hi hj
  exact (compare_ofIndex hsize (Key.index?_ofIndex (by omega)) (by omega)).1.2 hij

theorem isNearest_nextKey?_packed {k : Key} {i : Nat} (hk : k.index? = some i) :
    IsNearest Precedes ((packed values).entries.map Prod.fst) k ((packed values).nextKey? k) := by
  have hnext : (packed values).nextKey? k =
      if i + 1 < values.length then some (Key.ofIndex (i + 1)) else none := by
    rw [nextKey?, hk]
    rfl
  rw [hnext]
  split
  · next hi =>
    refine ⟨mem_keys_packed.2 ⟨i + 1, hi, rfl⟩,
      (compare_ofIndex hsize hk hi).1.2 (Nat.lt_succ_self i), fun m hm hkm => ?_⟩
    obtain ⟨j, hj, rfl⟩ := mem_keys_packed.1 hm
    have hij : i < j := (compare_ofIndex hsize hk hj).1.1 hkm
    rcases Nat.eq_or_lt_of_le hij with rfl | hlt
    · exact .inl rfl
    · have hindex : (Key.ofIndex (i + 1)).index? = some (i + 1) := Key.index?_ofIndex (by omega)
      exact .inr ((compare_ofIndex hsize hindex hj).1.2 hlt)
  · next hi =>
    intro m hm hkm
    obtain ⟨j, hj, rfl⟩ := mem_keys_packed.1 hm
    have hij : i < j := (compare_ofIndex hsize hk hj).1.1 hkm
    omega

theorem isNearest_prevKey?_packed {k : Key} {i : Nat} (hk : k.index? = some i) :
    IsNearest (fun k l => Precedes l k) ((packed values).entries.map Prod.fst) k
      ((packed values).prevKey? k) := by
  have hprev : (packed values).prevKey? k =
      if i = 0 || values.isEmpty then none
      else some (Key.ofIndex (min i values.length - 1)) := by
    rw [prevKey?, hk]
    rfl
  rw [hprev]
  split
  · next h =>
    intro m hm hmk
    obtain ⟨j, hj, rfl⟩ := mem_keys_packed.1 hm
    have hji : j < i := (compare_ofIndex hsize hk hj).2.1 hmk
    rw [Bool.or_eq_true, decide_eq_true_eq, List.isEmpty_iff_length_eq_zero] at h
    omega
  · next h =>
    rw [Bool.or_eq_true, decide_eq_true_eq, List.isEmpty_iff_length_eq_zero, not_or] at h
    have hlast : min i values.length - 1 < values.length := by omega
    refine ⟨mem_keys_packed.2 ⟨_, hlast, rfl⟩, (compare_ofIndex hsize hk hlast).2.2 (by omega),
      fun m hm hmk => ?_⟩
    obtain ⟨j, hj, rfl⟩ := mem_keys_packed.1 hm
    have hji : j < i := (compare_ofIndex hsize hk hj).2.1 hmk
    have hle : j ≤ min i values.length - 1 := by omega
    rcases Nat.eq_or_lt_of_le hle with rfl | hlt
    · exact .inl rfl
    · have hindex : (Key.ofIndex (min i values.length - 1)).index? =
          some (min i values.length - 1) := Key.index?_ofIndex (by omega)
      exact .inr ((compare_ofIndex hsize hindex hj).2.2 hlt)

end

/-! ## Arrays -/

theorem firstKey?_eq (s : Storage) : s.firstKey? = (s.entries.map Prod.fst).head? := by
  cases s with
  | sorted entries => exact List.head?_map.symm
  | packed values =>
    show _ = ((indexed 0 values).map Prod.fst).head?
    rw [ArrayStore.map_fst_indexed]
    cases values <;> rfl

theorem lastKey?_eq (s : Storage) : s.lastKey? = (s.entries.map Prod.fst).reverse.head? := by
  rw [List.head?_reverse]
  cases s with
  | sorted entries => exact List.getLast?_map.symm
  | packed values =>
    show _ = ((indexed 0 values).map Prod.fst).getLast?
    rw [ArrayStore.map_fst_indexed, lastKey?]
    cases values with
    | nil => rfl
    | cons e values =>
      rw [List.length_cons, List.range'_1_concat, List.map_append, List.map_singleton,
        List.getLast?_concat, Nat.zero_add]
      rfl

/-- has a place among the keys of an array: any key has one in a map, and in a list a key that
names a position -/
def Places (s : Storage) (k : Key) : Prop := s.isPacked = true → k.index?.isSome

/-- a key without a place has no neighbours -/
theorem steps_of_not_places {s : Storage} {k : Key} (hk : ¬ s.Places k) :
    s.nextKey? k = none ∧ s.prevKey? k = none := by
  obtain ⟨hp, hindex⟩ : s.isPacked = true ∧ k.index? = none := by
    rwa [Places, Classical.not_imp, Option.not_isSome_iff_eq_none] at hk
  cases s with
  | sorted entries => cases hp
  | packed values =>
    rw [nextKey?, prevKey?, hindex]
    exact ⟨rfl, rfl⟩

section
variable {kind : ArrayKind} {s : Storage} (h : s.Fits kind)
  (hsize : s.isPacked = true → s.size ≤ Key.greatestIndex + 1)
include h hsize

theorem pairwise_keys : (s.entries.map Prod.fst).Pairwise Precedes := by
  cases s with
  | sorted entries => exact Ascending.pairwise_precedes h.2.1
  | packed values => exact pairwise_keys_packed (hsize rfl)

theorem isNearest_nextKey? {k : Key} (hk : s.Places k) :
    IsNearest Precedes (s.entries.map Prod.fst) k (s.nextKey? k) := by
  cases s with
  | sorted entries => exact Ascending.isNearest_next? h.2.1 k
  | packed values =>
    obtain ⟨i, hi⟩ := Option.isSome_iff_exists.1 (hk rfl)
    exact isNearest_nextKey?_packed (hsize rfl) hi

theorem isNearest_prevKey? {k : Key} (hk : s.Places k) :
    IsNearest (fun k l => Precedes l k) (s.entries.map Prod.fst) k (s.prevKey? k) := by
  cases s with
  | sorted entries => exact Ascending.isNearest_prev? h.2.1 k
  | packed values =>
    obtain ⟨i, hi⟩ := Option.isSome_iff_exists.1 (hk rfl)
    exact isNearest_prevKey?_packed (hsize rfl) hi

/-- the keys of an array have their type and their place -/
theorem of_mem_keys {k : Key} (hk : k ∈ s.entries.map Prod.fst) :
    k.keyType = kind.keyType ∧ s.Places k := by
  cases s with
  | sorted entries =>
    obtain ⟨p, hp, rfl⟩ := List.mem_map.1 hk
    exact ⟨h.2.2 p hp, nofun⟩
  | packed values =>
    obtain ⟨j, hj, rfl⟩ := mem_keys_packed.1 hk
    have hlength : values.length ≤ Key.greatestIndex + 1 := hsize rfl
    have hindex : (Key.ofIndex j).index? = some j := Key.index?_ofIndex (by omega)
    refine ⟨?_, fun _ => Option.isSome_of_eq_some hindex⟩
    rw [ArrayKind.keyType_of_isPacked h, Key.keyType_of_index? hindex]

end

end Storage

namespace ArrayStore

section
variable {s : ArrayStore} {id : UInt32} {a : ArrayVar} (hf : s.find? id = some a)
include hf

theorem firstKey?_of_find? : s.firstKey? id = (a.entries.map Prod.fst).head? := by
  rw [firstKey?, hf]
  exact a.storage.firstKey?_eq

theorem lastKey?_of_find? : s.lastKey? id = (a.entries.map Prod.fst).reverse.head? := by
  rw [lastKey?, hf]
  exact a.storage.lastKey?_eq

theorem nextKey?_of_find? (k : Key) : s.nextKey? id k =
    if k.keyType = a.keyType then a.storage.nextKey? k else none := by
  rw [nextKey?, hf]
  rfl

theorem prevKey?_of_find? (k : Key) : s.prevKey? id k =
    if k.keyType = a.keyType then a.storage.prevKey? k else none := by
  rw [prevKey?, hf]
  rfl

end

end ArrayStore

namespace Session

open ArrayStore

/-- A walk from the first key of an array visits its keys once and in order, and a walk from the
last key visits them the other way round.  From any key of the right type, in a list from any that
names a position, a step leads to the nearest key above it or below it; from other keys no step
leads anywhere. -/
theorem walks_visit_all {x : Session} (hx : x.Reachable) {id : UInt32} {a : ArrayVar}
    (hf : x.arrays.find? id = some a)
    (hsize : a.isPacked = true → a.size ≤ Key.greatestIndex + 1) :
    Walk (x.arrays.nextKey? id) (x.arrays.firstKey? id) (a.entries.map Prod.fst) ∧
    Walk (x.arrays.prevKey? id) (x.arrays.lastKey? id) (a.entries.map Prod.fst).reverse ∧
    (a.entries.map Prod.fst).Pairwise Precedes ∧
    ∀ k, if k.keyType = a.keyType ∧ (a.isPacked = true → k.index?.isSome)
      then
        IsNearest Precedes (a.entries.map Prod.fst) k (x.arrays.nextKey? id k) ∧
        IsNearest (fun k l => Precedes l k) (a.entries.map Prod.fst) k (x.arrays.prevKey? id k)
      else x.arrays.nextKey? id k = none ∧ x.arrays.prevKey? id k = none := by
  have hfits : a.storage.Fits a.kind := hx.fits _ (HandleTable.handleOf_mem_toList.2 hf)
  have hpacked : a.isPacked = a.storage.isPacked := hfits.isPacked_eq
  rw [hpacked] at hsize ⊢
  have hordered : (a.entries.map Prod.fst).Pairwise Precedes := Storage.pairwise_keys hfits hsize
  have hnearest : ∀ k, k.keyType = a.keyType ∧ a.storage.Places k →
      IsNearest Precedes (a.entries.map Prod.fst) k (x.arrays.nextKey? id k) ∧
      IsNearest (fun k l => Precedes l k) (a.entries.map Prod.fst) k (x.arrays.prevKey? id k) := by
    rintro k ⟨htype, hplace⟩
    rw [nextKey?_of_find? hf, prevKey?_of_find? hf, if_pos htype, if_pos htype]
    exact ⟨Storage.isNearest_nextKey? hfits hsize hplace,
      Storage.isNearest_prevKey? hfits hsize hplace⟩
  refine ⟨?_, ?_, hordered, fun k => ?_⟩
  · rw [firstKey?_of_find? hf]
    exact Key.walk_of_isNearest (fun _ _ => Precedes.asymm) hordered fun k hk =>
      (hnearest k (Storage.of_mem_keys hfits hsize hk)).1
  · rw [lastKey?_of_find? hf]
    refine Key.walk_of_isNearest (fun _ _ => Precedes.asymm) (List.pairwise_reverse.2 hordered)
      fun k hk => Key.isNearest_reverse.2 ?_
    exact (hnearest k (Storage.of_mem_keys hfits hsize (List.mem_reverse.1 hk))).2
  · split
    · next h => exact hnearest k h
    · next h =>
      rw [nextKey?_of_find? hf, prevKey?_of_find? hf]
      by_cases htype : k.keyType = a.keyType
      · rw [if_pos htype, if_pos htype]
        exact Storage.steps_of_not_places fun hplace => h ⟨htype, hplace⟩
      · rw [if_neg htype, if_neg htype]
        exact ⟨rfl, rfl⟩

def listed : List Event :=
  [.arrays (.createList [.number (.ofNat 4), .string "x", .number (.ofNat 4)] 1)]

theorem walks_visit_all_listed : ∃ a, (run .standard listed).arrays.find? 1 = some a ∧
    (a.isPacked = true → a.size ≤ Key.greatestIndex + 1) ∧
    Walk ((run .standard listed).arrays.nextKey? 1) ((run .standard listed).arrays.firstKey? 1)
      (a.entries.map Prod.fst) ∧
    Walk ((run .standard listed).arrays.prevKey? 1) ((run .standard listed).arrays.lastKey? 1)
      (a.entries.map Prod.fst).reverse := by
  have hsome : ((run .standard listed).arrays.find? 1).isSome := by decide +kernel
  obtain ⟨a, ha⟩ := Option.isSome_iff_exists.1 hsome
  have hsizes : ∀ p ∈ (run .standard listed).arrays.toList, p.2.size ≤ Key.greatestIndex + 1 := by
    decide +kernel
  have hsize : a.isPacked = true → a.size ≤ Key.greatestIndex + 1 := fun _ =>
    hsizes _ (HandleTable.handleOf_mem_toList.2 ha)
  obtain ⟨hnext, hprev, -⟩ := walks_visit_all (reachable_run .standard listed) ha hsize
  exact ⟨a, ha, hsize, hnext, hprev⟩

end Session

end ScriptVars
