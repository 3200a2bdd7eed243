import ScriptVars.Proofs.CopiedTrees
import ScriptVars.Proofs.Dumping

/-!
# Sorting

Both comparisons put all elements in an order in which different elements may stand level.  Sorted
entries are in this order, or in the reversed one, and those that are level keep the order that they
had.  There is only one such list.

* `Number.Precedes`              the total order of bit patterns;
* `Element.compare_eq`           the natural order, key after key;
* `SortOrder.allows_trans`, …    what either direction makes of an order;
* `IsStableSort`                 in order, with what is level as before;
* `isStableSort_sortEntries`, `IsStableSort.unique`   sorting gives this list, and no other one is;
* `ArrayStore.NewList`, `createList_cases`   lists that are made of values;
* `Session.sort_stable`          what sorting an array gives.
-/

namespace ScriptVars

open ScriptVars.Action

/-! ## The order of numbers -/

/-- the IEEE total order of bit patterns: those with a sign bit come first, and fall; the others
come after them, and rise -/
def Number.Precedes (x y : Number) : Prop :=
  if signBit ≤ x.bits.toNat then signBit ≤ y.bits.toNat → y.bits.toNat < x.bits.toNat
  else x.bits.toNat < y.bits.toNat ∧ y.bits.toNat < signBit

theorem Number.rank_eq (x : Number) : x.rank =
    if signBit ≤ x.bits.toNat then (signBit : Int) - x.bits.toNat - 1 else x.bits.toNat := by
  have hlt : x.bits.toNat < 2 * signBit := UInt64.toNat_lt x.bits
  rw [rank, magnitude, isNegative]
  by_cases hs : signBit ≤ x.bits.toNat
  · have hmod : x.bits.toNat % signBit = x.bits.toNat - signBit := by
      rw [Nat.mod_eq_sub_mod hs, Nat.mod_eq_of_lt (by omega)]
    rw [decide_eq_true hs, if_pos rfl, if_pos hs, hmod]
    omega
  · rw [decide_eq_false hs, if_neg Bool.false_ne_true, if_neg hs, Nat.mod_eq_of_lt (by omega)]

theorem Number.totalCompare_eq_lt {x y : Number} : x.totalCompare y = .lt ↔ x.Precedes y := by
  have hx : x.bits.toNat < 2 * signBit := UInt64.toNat_lt x.bits
  rw [totalCompare, Int.compare_eq_lt, rank_eq, rank_eq, Precedes]
  by_cases hs : signBit ≤ x.bits.toNat <;> by_cases ht : signBit ≤ y.bits.toNat <;>
    simp only [hs, ht, if_true, if_false, true_imp_iff, false_imp_iff, iff_true] <;> omega

theorem Number.totalCompare_eq_eq {x y : Number} : x.totalCompare y = .eq ↔ x = y := by
  have hbits : x = y ↔ x.bits.toNat = y.bits.toNat := by
    rw [UInt64.toNat_inj]
    exact ⟨congrArg bits, fun h => congrArg mk h⟩
  rw [totalCompare, Int.compare_eq_eq, rank_eq, rank_eq, hbits]
  split <;> split <;> omega

/-! ## The order of elements -/

namespace Element

def numberRank (e : Element) : Int := (e.number?.map Number.rank).getD 0

/-- the number of what a form or an array names -/
def idRank (e : Element) : Nat := ((e.form? <|> e.array?).map UInt32.toNat).getD 0

/-- elements are ordered by their kinds, and then by what elements of their kind hold -/
theorem compare_eq : Element.compare =
    compareLex (compareOn fun e => e.elementType.code.toNat) (compareLex (compareOn numberRank)
      (compareLex (compareOn idRank) (compareOn fun e => e.string?.getD ""))) := by
  funext a b
  -- different kinds are told apart by the first key, and of one kind only one key is left
  cases a <;> cases b <;> first
    | rfl
    | simp [Element.compare, compareLex, compareOn, numberRank, idRank, Number.totalCompare,
        number?, form?, array?, string?, elementType]

instance : Std.TransCmp Element.compare := by
  rw [compare_eq]
  infer_instance

instance : Std.TransCmp Element.compareAlpha :=
  inferInstanceAs (Std.TransCmp (compareOn folded))

end Element

/-! ## Directions -/

namespace SortOrder

variable {order : SortOrder} {cmp : Element → Element → Ordering} [Std.TransCmp cmp]
  {a b c : Element}

theorem allows_ascending (o : Ordering) : ascending.allows o = o.isLE := by cases o <;> rfl

theorem allows_descending (o : Ordering) : descending.allows o = o.isGE := by cases o <;> rfl

theorem allows_trans (h : order.allows (cmp a b) = true) (h' : order.allows (cmp b c) = true) :
    order.allows (cmp a c) = true := by
  cases order with
  | ascending =>
    rw [allows_ascending] at h h' ⊢
    exact Std.TransCmp.isLE_trans h h'
  | descending =>
    rw [allows_descending] at h h' ⊢
    exact Std.TransCmp.isGE_trans h h'

theorem allows_total (a b : Element) :
    (order.allows (cmp a b) || order.allows (cmp b a)) = true := by
  have hswap : cmp b a = (cmp a b).swap := Std.OrientedCmp.eq_swap
  rw [hswap]
  cases order <;> cases cmp a b <;> rfl

/-- what may stand before and behind one another is level -/
theorem eq_of_allows (h : order.allows (cmp a b) = true) (h' : order.allows (cmp b a) = true) :
    cmp a b = .eq := by
  have hswap : cmp b a = (cmp a b).swap := Std.OrientedCmp.eq_swap
  rw [hswap] at h'
  generalize cmp a b = o at h h' ⊢
  cases order <;> cases o <;> first | rfl | exact absurd h (by decide) | exact absurd h' (by decide)

theorem allows_eq (order : SortOrder) : order.allows .eq = true := by cases order <;> rfl

end SortOrder

/-! ## Stable sorts -/

/-- the entries that are level with an element -/
def levelWith (cmp : Element → Element → Ordering) (e : Element) (l : List (Key × Element)) :
    List (Key × Element) := l.filter fun p => cmp p.2 e == .eq

theorem levelWith_cons (cmp : Element → Element → Ordering) (e : Element) (p : Key × Element)
    (l : List (Key × Element)) : levelWith cmp e (p :: l) =
      if cmp p.2 e = .eq then p :: levelWith cmp e l else levelWith cmp e l := by
  simp only [levelWith, List.filter_cons, beq_iff_eq]

/-- the same entries, in order, with those that are level as they were -/
structure IsStableSort (order : SortOrder) (cmp : Element → Element → Ordering)
    (l l' : List (Key × Element)) : Prop where
  perm : l'.Perm l
  ordered : l'.IsChain fun p q => order.allows (cmp p.2 q.2) = true
  stable : ∀ e, levelWith cmp e l' = levelWith cmp e l

section
variable {order : SortOrder} {cmp : Element → Element → Ordering} [Std.TransCmp cmp]
  {l l' : List (Key × Element)}

theorem isStableSort_sortEntries (order : SortOrder) (cmp : Element → Element → Ordering)
    [Std.TransCmp cmp] (l : List (Key × Element)) :
    IsStableSort order cmp l (sortEntries order cmp l) where
  perm := List.mergeSort_perm l _
  ordered := (List.pairwise_mergeSort (fun _ _ _ => SortOrder.allows_trans)
    (fun p q => SortOrder.allows_total p.2 q.2) l).isChain
  stable e := by
    have hperm : (sortEntries order cmp l).Perm l := List.mergeSort_perm l _
    have hlevel : (levelWith cmp e l).Pairwise fun p q => order.allows (cmp p.2 q.2) = true := by
      refine List.pairwise_iff_forall_sublist.2 fun {p q} hpq => ?_
      have hp := beq_iff_eq.1 (List.mem_filter.1 (hpq.subset List.mem_cons_self)).2
      have hq := beq_iff_eq.1
        (List.mem_filter.1 (hpq.subset (List.mem_cons_of_mem _ List.mem_cons_self))).2
      rw [Std.TransCmp.congr_left hp, Std.OrientedCmp.eq_comm.1 hq]
      exact order.allows_eq
    have hsub : (levelWith cmp e l).Sublist (sortEntries order cmp l) :=
      List.sublist_mergeSort (fun _ _ _ => SortOrder.allows_trans)
        (fun p q => SortOrder.allows_total p.2 q.2) hlevel List.filter_sublist
    have hfilter := hsub.filter fun p => cmp p.2 e == .eq
    rw [levelWith, List.filter_filter] at hfilter
    simp only [Bool.and_self] at hfilter
    exact (hfilter.eq_of_length (hperm.filter _).length_eq.symm).symm

theorem mem_of_levelWith {p : Key × Element} (h : ∀ e, levelWith cmp e l' = levelWith cmp e l)
    (hp : p ∈ l') : p ∈ l := by
  have hlevel : p ∈ levelWith cmp p.2 l' :=
    List.mem_filter.2 ⟨hp, beq_iff_eq.2 Std.ReflCmp.compare_self⟩
  rw [h] at hlevel
  exact (List.mem_filter.1 hlevel).1

/-- the first entry of a list in order may stand before all of its entries -/
theorem allows_of_mem_cons {p q : Key × Element}
    (hp : ∀ r ∈ l, order.allows (cmp p.2 r.2) = true) (hq : q ∈ p :: l) :
    order.allows (cmp p.2 q.2) = true := by
  rcases List.mem_cons.1 hq with rfl | hq
  · have hself : cmp q.2 q.2 = .eq := Std.ReflCmp.compare_self
    rw [hself]
    exact order.allows_eq
  · exact hp q hq

/-- Lists in order that have the same entries at each level are the same: the first entries of both
are level, so they are the first ones of the same level. -/
theorem eq_of_ordered (hl : l.Pairwise fun p q => order.allows (cmp p.2 q.2) = true)
    (hl' : l'.Pairwise fun p q => order.allows (cmp p.2 q.2) = true)
    (hlevel : ∀ e, levelWith cmp e l' = levelWith cmp e l) : l' = l := by
  induction l generalizing l' with
  | nil =>
    exact List.eq_nil_iff_forall_not_mem.2 fun p hp =>
      List.not_mem_nil (mem_of_levelWith hlevel hp)
  | cons p l ih =>
    cases l' with
    | nil =>
      exact absurd (mem_of_levelWith (fun e => (hlevel e).symm) List.mem_cons_self)
        List.not_mem_nil
    | cons q l' =>
      obtain ⟨hp, hrest⟩ := List.pairwise_cons.1 hl
      obtain ⟨hq, hrest'⟩ := List.pairwise_cons.1 hl'
      have hpq : order.allows (cmp p.2 q.2) = true :=
        allows_of_mem_cons hp (mem_of_levelWith hlevel List.mem_cons_self)
      have hqp : order.allows (cmp q.2 p.2) = true :=
        allows_of_mem_cons hq (mem_of_levelWith (fun e => (hlevel e).symm) List.mem_cons_self)
      have hfirst := hlevel p.2
      rw [levelWith_cons, levelWith_cons, if_pos (SortOrder.eq_of_allows hqp hpq),
        if_pos Std.ReflCmp.compare_self] at hfirst
      obtain ⟨rfl, -⟩ := List.cons.inj hfirst
      refine congrArg (q :: ·) (ih hrest hrest' fun e => ?_)
      have he := hlevel e
      rw [levelWith_cons, levelWith_cons] at he
      split at he
      · exact (List.cons.inj he).2
      · exact he

/-- there is only one stable sort -/
theorem IsStableSort.unique {l'' : List (Key × Element)} (h : IsStableSort order cmp l l')
    (h' : IsStableSort order cmp l l'') : l' = l'' := by
  have htrans : IsTrans (Key × Element) fun p q => order.allows (cmp p.2 q.2) = true :=
    ⟨fun _ _ _ => SortOrder.allows_trans⟩
  exact eq_of_ordered (List.isChain_iff_pairwise.1 h'.ordered)
    (List.isChain_iff_pairwise.1 h.ordered) fun e => (h.stable e).trans (h'.stable e).symm

end

/-! ## New lists -/

namespace ArrayStore

variable {s t : ArrayStore} {values : List Element} {owner : UInt8} {c : UInt32}

/-- There is a new list of some values, for an owner.  Every array that they name has gained a
reference for each time, also the list itself, and nothing else has changed. -/
structure NewList (s t : ArrayStore) (values : List Element) (owner : UInt8) (c : UInt32) :
    Prop where
  fresh : handleOf c = c ∧ s.find? c = none
  made : t.find? c =
    some ⟨.array, owner, List.replicate ((named values).count c) owner, .packed values⟩
  find? : ∀ i b, s.find? i = some b →
    t.find? i = some (b.addRefs ((named values).count (handleOf i)) owner)
  only : Only [c] s t
  temporaries : t.temporaries = s.temporaries
  notTemporary : t.isTemporary c = false

theorem newList_of_install (hi : install ⟨.array, owner, [], .packed values⟩ s = .ok c t) :
    NewList s t values owner c := by
  have honly : Only [c] s t := (Only.nil s).install hi
  obtain ⟨u, hp, rfl⟩ := install_eq_ok.1 hi
  have hpl := HandleTable.places_of_place hp
  have hself : handleOf c = c := handleOf_eq_self hpl.free.1.2
  have hfree : s.find? c = none := HandleTable.find?_eq_none_of_isFree hpl.free
  have hslots : (retainAll u (ArrayVar.children ⟨.array, owner, [], .packed values⟩)
      owner).slots.temporaries = s.slots.temporaries :=
    (HandleTable.temporaries_modifyEach _ _ _).trans hpl.temporaries_eq
  refine ⟨⟨hself, hfree⟩, ?_, fun i b hb => ?_, honly,
    congrArg Std.ExtTreeSet.toList hslots, ?_⟩
  · rw [find?_installed hpl, hself, if_pos rfl, count_children _ hpl.free.1.1]
    rfl
  · have hne : c ≠ handleOf i := fun e => by
      rw [e, s.find?_congr (handleOf_handleOf i), hb] at hfree
      cases hfree
    have hi0 : handleOf i ≠ 0 := HandleTable.handleOf_ne_zero (Option.isSome_of_eq_some hb)
    rw [find?_installed hpl, if_neg hne, hb, count_children _ hi0]
    rfl
  · rw [HandleTable.isTemporary_congr hslots, Bool.eq_false_iff]
    intro ht
    have hsome := HandleTable.find?_isSome_of_isTemporary ht
    rw [hfree] at hsome
    cases hsome

theorem checkTexts_of_forall (h : ∀ e ∈ values, e.Short) : checkTexts values = .ok () := by
  induction values with
  | nil => rfl
  | cons e values ih =>
    obtain ⟨he, hrest⟩ := List.forall_mem_cons.1 h
    rw [checkTexts, Element.checkText_eq_ok.2 he]
    exact ih hrest

/-- a list of short texts is refused only when no handle is free, or for want of positions -/
theorem createList_cases (h : ∀ e ∈ values, e.Short) (owner : UInt8) (s : ArrayStore) :
    (∃ c t, createList values owner s = .ok c t ∧ NewList s t values owner c) ∨
      (createList values owner s = .error .exhausted s ∧ ∀ i, ¬ s.IsFree i) ∨
      (createList values owner s =
          .error (.typeMismatch (.notAnIndex (Key.ofIndex (Key.greatestIndex + 1)))) s ∧
        Key.greatestIndex + 1 < values.length) := by
  have htexts : checkTexts (Storage.packed values).fillable.values = .ok () :=
    checkTexts_of_forall fun e he => h e (List.mem_of_mem_take he)
  by_cases hlength : values.length ≤ Key.greatestIndex + 1
  · have hmake : createList values owner s = install ⟨.array, owner, [], .packed values⟩ s := by
      rw [createList, ArrayVar.ofValues, htexts, Storage.checkPositions_packed_eq_ok.2 hlength]
      rfl
    rw [hmake]
    rcases HandleTable.place_cases s ⟨.array, owner, [], .packed values⟩ with
      ⟨c, u, hp⟩ | ⟨hp, hnone⟩
    · have hi := install_eq_ok.2 ⟨u, hp, rfl⟩
      exact .inl ⟨c, _, hi, newList_of_install hi⟩
    · exact .inr (.inl ⟨bind_eq_error.2 (.inl hp), hnone⟩)
  · refine .inr (.inr ⟨?_, by omega⟩)
    rw [createList, ArrayVar.ofValues, htexts, Storage.checkPositions, if_neg hlength]
    rfl

theorem sortedEntries_of_find? {id : UInt32} {a : ArrayVar} (hf : s.find? id = some a)
    (order : SortOrder) (mode : SortMode) : sortedEntries id order mode s =
      .ok (sortEntries order mode.compare a.entries) s := by
  rw [sortedEntries, bind_of_ok (lookup_eq_ok.2 ⟨hf, rfl⟩), SortMode.sort_eq]
  rfl

theorem sort_of_find? {id : UInt32} {a : ArrayVar} (hf : s.find? id = some a)
    (order : SortOrder) (mode : SortMode) : sort id order mode s =
      createList ((sortEntries order mode.compare a.entries).map Prod.snd) a.owner s := by
  rw [sort, bind_of_ok (lookup_eq_ok.2 ⟨hf, rfl⟩), SortMode.sort_eq]

end ArrayStore

instance (mode : SortMode) : Std.TransCmp mode.compare := by
  cases mode
  · exact inferInstanceAs (Std.TransCmp Element.compare)
  · exact inferInstanceAs (Std.TransCmp Element.compareAlpha)

namespace Session

open ArrayStore

/-- Both comparisons are total preorders, with numbers in the order of their bits.  The sorted
entries of an array are its only stable sort, and sorting it makes a new list of their elements, for
its owner; nothing but references is different afterwards.  It is refused only when all handles are
in use, or where there are more elements than positions. -/
theorem sort_stable {x : Session} (hx : x.Reachable) {id : UInt32} {a : ArrayVar}
    (hf : x.arrays.find? id = some a) (order : SortOrder) (mode : SortMode) :
    (Std.TransCmp Element.compare ∧ Std.TransCmp Element.compareAlpha ∧ ∀ m n : Number,
      (Element.compare (.number m) (.number n) = .lt ↔ m.Precedes n) ∧
      (Element.compare (.number m) (.number n) = .eq ↔ m = n)) ∧
    ∃ l, sortedEntries id order mode x.arrays = .ok l x.arrays ∧
      IsStableSort order mode.compare a.entries l ∧
      (∀ l', IsStableSort order mode.compare a.entries l' → l' = l) ∧
      ((∃ c t, sort id order mode x.arrays = .ok c t ∧
          NewList x.arrays t (l.map Prod.snd) a.owner c ∧
          ∀ h, (named (l.map Prod.snd)).count h = (named a.values).count h) ∨
        (sort id order mode x.arrays = .error .exhausted x.arrays ∧
          ∀ h, IsHandle h → h ∈ x.arrays.handles) ∨
        (sort id order mode x.arrays =
            .error (.typeMismatch (.notAnIndex (Key.ofIndex (Key.greatestIndex + 1)))) x.arrays ∧
          Key.greatestIndex + 1 < a.size)) := by
  have hstable := isStableSort_sortEntries order mode.compare a.entries
  have hvalues : ((sortEntries order mode.compare a.entries).map Prod.snd).Perm a.values := by
    rw [ArrayVar.values, ← Storage.map_snd_entries]
    exact hstable.perm.map _
  have hshort : ∀ e ∈ (sortEntries order mode.compare a.entries).map Prod.snd, e.Short := by
    intro e he
    obtain ⟨p, hp, rfl⟩ := List.mem_map.1 he
    exact (hx.short (HandleTable.handleOf_mem_toList.2 hf) p (hstable.perm.mem_iff.1 hp)).2
  refine ⟨⟨inferInstance, inferInstance, fun m n =>
    ⟨Number.totalCompare_eq_lt, Number.totalCompare_eq_eq⟩⟩,
    _, sortedEntries_of_find? hf order mode, hstable, fun l' hl' => hl'.unique hstable, ?_⟩
  rw [sort_of_find? hf]
  rcases createList_cases hshort a.owner x.arrays with
    ⟨c, t, hc, hnew⟩ | ⟨hfull, hnone⟩ | ⟨hpositions, hlong⟩
  · exact .inl ⟨c, t, hc, hnew, fun h => ((hvalues.filterMap _).map _).count_eq h⟩
  · refine .inr (.inl ⟨hfull, fun h hh => ?_⟩)
    by_contra hm
    exact hnone h (hx.noneReserved.isFree hh hm)
  · have hsize : a.entries.length = a.size := a.storage.length_entries
    rw [List.length_map, hstable.perm.length_eq, hsize] at hlong
    exact .inr (.inr ⟨hpositions, hlong⟩)

/-- a map that has the same number twice, and a list -/
def level : List Event :=
  [.arrays (.createList [] 2),
    .arrays (.createMap [(.text "a", .number (.ofNat 5)), (.text "b", .number (.ofNat 5)),
      (.text "c", .array 1), (.text "d", .number (.ofNat 1))] 3)]

theorem sort_stable_level : ∃ a l c t, (run .standard level).arrays.find? 2 = some a ∧
    sortedEntries 2 .descending .natural (run .standard level).arrays =
      .ok l (run .standard level).arrays ∧
    IsStableSort .descending Element.compare a.entries l ∧
    sort 2 .descending .natural (run .standard level).arrays = .ok c t ∧
    NewList (run .standard level).arrays t (l.map Prod.snd) a.owner c := by
  have hsome : ((run .standard level).arrays.find? 2).isSome := by decide +kernel
  obtain ⟨a, ha⟩ := Option.isSome_iff_exists.1 hsome
  obtain ⟨-, l, hl, hstable, -, hsort⟩ :=
    sort_stable (reachable_run .standard level) ha .descending .natural
  have hsizes : ∀ p ∈ (run .standard level).arrays.toList, p.2.size ≤ Key.greatestIndex + 1 := by
    decide +kernel
  rcases hsort with ⟨c, t, hc, hnew, -⟩ | ⟨-, hfull⟩ | ⟨-, hlong⟩
  · exact ⟨a, l, c, t, ha, hl, hstable, hc, hnew⟩
  · exact absurd (hfull 3 ⟨by decide, by decide⟩) (by decide +kernel)
  · exact absurd (hsizes _ (HandleTable.handleOf_mem_toList.2 ha)) (Nat.not_le_of_lt hlong)

end Session

end ScriptVars
