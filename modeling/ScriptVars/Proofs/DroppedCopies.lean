import ScriptVars.Proofs.CopiedTrees
import ScriptVars.Proofs.Recapture
import ScriptVars.Proofs.Sweeps

/-!
# Copies that are dropped

The arrays below a deep copy are temporary, and each of them has one reference, by the array above
it.  So when the copy is erased they go from the top down, each in its turn, and nothing that they
hold is an array that was there before.  What else is due goes as if there had never been a copy.

* `Duplicated.removal`             the arrays of copied elements go from the top down;
* `FreshTree.destroy`              what is left of a copy when its root is erased;
* `ArrayStore.sweepAll_of_added`   sweeps take it away, and nothing more than they would have taken;
* `ArrayStore.Same`                stores with the same arrays and the same next id;
* `Session.drop_copy`              a copy that is dropped leaves nothing behind.
-/

namespace ScriptVars

open ScriptVars.Action

namespace HandleTable

variable {α : Type} {t u : HandleTable α}

/-- the handle of a new variable is the least free one, whatever else is different -/
theorem run'_place_congr (h : ∀ i, t.IsFree i ↔ u.IsFree i) (a b : α) :
    (place a).run' t = (place b).run' u := by
  rcases place_cases t a with ⟨i, t', ht⟩ | ⟨ht, hnone⟩
  · have hi := places_of_place ht
    rcases place_cases u b with ⟨j, u', hu⟩ | ⟨-, hnone⟩
    · have hj := places_of_place hu
      have hij : i = j := UInt32.toNat_inj.1 <| Nat.le_antisymm
        (hi.least j ((h j).2 hj.free)) (hj.least i ((h i).1 hi.free))
      delta EStateM.run' EStateM.run
      rw [ht, hu, hij]
    · exact absurd ((h i).1 hi.free) (hnone i)
  · rcases place_cases u b with ⟨j, u', hu⟩ | ⟨hu, -⟩
    · exact absurd ((h j).2 (places_of_place hu).free) (hnone j)
    · delta EStateM.run' EStateM.run
      rw [ht, hu]

theorem NoneReserved.isFree_iff (h : t.NoneReserved) {i : UInt32} :
    t.IsFree i ↔ IsHandle i ∧ t.find? i = none :=
  ⟨fun hi => ⟨hi.1, find?_eq_none_of_isFree hi⟩, fun hi => h.here hi.1 hi.2⟩

end HandleTable

namespace ArrayStore

variable {s t u : ArrayStore} {owner : UInt8} {l l' : List Element} {source c h n : UInt32}
  {tops all new below gone : List UInt32}

/-! ## What copies hold -/

theorem givenUp_eq {a : ArrayVar} (hf : s.find? n = some a) (hh : h ≠ 0) :
    s.givenUp h n = List.replicate ((a.children.map handleOf).count h) a.owner := by
  rw [givenUp, hf, count_children a hh]
  rfl

/-- copies of elements name no arrays but new ones -/
theorem Duplicated.children_subset (hd : Duplicated s t owner l l' new) :
    ∀ n ∈ new, ∃ b, t.find? n = some b ∧ b.owner = owner ∧ b.children ⊆ new := by
  induction hd with
  | nil => exact List.forall_mem_nil _
  | kept _ _ ih => exact ih
  | @nested x n a b l l' below new _ hb copied inner _ ih ih' =>
    have hbelow : below ⊆ n :: below ++ new := fun m hm =>
      List.mem_append_left new (List.mem_cons_of_mem n hm)
    intro m hm
    rcases List.mem_append.1 hm with hm | hm
    · rcases List.mem_cons.1 hm with rfl | hm
      · exact ⟨b, hb, copied.owner, fun _ hy => hbelow (inner.children_sublist.subset hy)⟩
      · obtain ⟨d, hd, howner, hsub⟩ := ih m hm
        exact ⟨d, hd, howner, fun _ hy => hbelow (hsub hy)⟩
    · obtain ⟨d, hd, howner, hsub⟩ := ih' m hm
      exact ⟨d, hd, howner, fun _ hy => List.mem_append_right _ (hsub hy)⟩

theorem map_handleOf_of_fresh (hfresh : ∀ n ∈ new, handleOf n = n ∧ s.find? n = none)
    {ids : List UInt32} (hsub : ids ⊆ new) : ids.map handleOf = ids :=
  (List.map_congr_left fun m hm => (hfresh m (hsub hm)).1).trans (List.map_id _)

/-- arrays that were there before are none of the new ones -/
theorem not_mem_of_fresh (hfresh : ∀ n ∈ new, handleOf n = n ∧ s.find? n = none) {i : UInt32}
    (hi : (s.find? i).isSome) : handleOf i ∉ new := by
  intro hm
  have hnone := (hfresh _ hm).2
  rw [s.find?_congr (handleOf_handleOf i)] at hnone
  rw [hnone] at hi
  cases hi

/-- what clears an array goes on clearing it when more goes -/
theorem without_refs_nil {a : ArrayVar} {gone' : List UInt32}
    (hrefs : (s.without gone h a).refs = []) (hs : gone.Sublist gone') :
    (s.without gone' h a).refs = [] :=
  diff_eq_nil_of_subperm hrefs (hs.flatMap _).subperm

/-! ## From the top down -/

/-- the arrays just below one that goes are clear: the only reference that each of them may have is
the one that goes with it -/
theorem Added.refs_without_nil (hadd : Added owner tops all s u) {b d : ArrayVar} {m : UInt32}
    (hb : u.find? n = some b) (howner : b.owner = owner) (hsub : b.children ⊆ all)
    (hm : m ∈ b.children) (hd : u.find? m = some d) : (u.without (n :: gone) m d).refs = [] := by
  obtain ⟨-, d', hd', hrefs⟩ := hadd.nested m (hsub hm)
  obtain rfl := Option.some.inj (hd.symm.trans hd')
  have hm0 : m ≠ 0 := bne_iff_ne.1 (List.mem_filter.1 hm).2
  have hgiven : owner ∈ (n :: gone).flatMap (u.givenUp m) := by
    refine List.mem_flatMap.2 ⟨n, List.mem_cons_self, ?_⟩
    rw [givenUp_eq hb hm0, map_handleOf_of_fresh hadd.fresh hsub, List.mem_replicate]
    exact ⟨Nat.ne_of_gt (List.count_pos_iff.2 hm), howner.symm⟩
  have hdiff : d.refs.diff [owner] = [] := by
    rw [hrefs]
    split <;> simp
  exact diff_eq_nil_of_subperm hdiff (List.singleton_subperm_iff.2 hgiven)

/-- When the arrays on top are clear, all new ones may go: an array first, and then those below it,
whose only references it held. -/
theorem Duplicated.removal (hd : Duplicated s u owner l l' new) (hadd : Added owner tops all s u)
    (hsub : new ⊆ all) (hnodup : new.Nodup) (hgone : ∀ n ∈ new, n ∉ gone) (hr : u.Removal gone)
    (htops : ∀ n ∈ childrenOf l', ∀ b, u.find? n = some b → (u.without gone n b).refs = []) :
    u.Removal (new.reverse ++ gone) := by
  induction hd generalizing gone with
  | nil => exact hr
  | @kept e l l' new he _ ih =>
    rw [childrenOf_cons_of_null he] at htops
    exact ih hsub hnodup hgone hr htops
  | @nested x n a b l l' below new _ hb copied inner _ ih ih' =>
    have hn : n ∈ all := hsub (List.mem_append_left new List.mem_cons_self)
    obtain ⟨hself, -⟩ := hadd.fresh n hn
    obtain ⟨htemp, -⟩ := hadd.nested n hn
    have hn0 : n ≠ 0 := hself ▸ HandleTable.handleOf_ne_zero (Option.isSome_of_eq_some hb)
    rw [childrenOf_cons_of_ne hn0] at htops
    obtain ⟨hroot, hnew, hdisjoint⟩ := List.nodup_append.1 hnodup
    obtain ⟨hnot, hbelow⟩ := List.nodup_cons.1 hroot
    have hsubBelow : below ⊆ all := fun m hm =>
      hsub (List.mem_append_left new (List.mem_cons_of_mem n hm))
    have hdue : u.IsDue gone n :=
      ⟨hself, hgone n (List.mem_append_left new List.mem_cons_self), htemp,
        htops n List.mem_cons_self⟩
    have hinner : u.Removal (below.reverse ++ n :: gone) := by
      refine ih hsubBelow hbelow (fun m hm hm' => ?_) (hr.cons hdue) fun m hm d hd => ?_
      · rcases List.mem_cons.1 hm' with rfl | hm'
        · exact hnot hm
        · exact hgone m (List.mem_append_left new (List.mem_cons_of_mem n hm)) hm'
      · exact hadd.refs_without_nil hb copied.owner
          (fun y hy => hsubBelow (inner.children_sublist.subset hy)) hm hd
    have hrest := ih' (fun m hm => hsub (List.mem_append_right _ hm)) hnew (fun m hm hm' => ?_)
      hinner fun m hm d hd => ?_
    · simpa using hrest
    · rcases List.mem_append.1 hm' with hm' | hm'
      · exact hdisjoint m (List.mem_cons_of_mem n (List.mem_reverse.1 hm')) m hm rfl
      · rcases List.mem_cons.1 hm' with rfl | hm'
        · exact hdisjoint m List.mem_cons_self m hm rfl
        · exact hgone m (List.mem_append_right _ hm) hm'
    · refine without_refs_nil (htops m (List.mem_cons_of_mem n hm) d hd) ?_
      exact (List.sublist_cons_self n gone).trans (List.sublist_append_right below.reverse _)

/-! ## Beside what else is due -/

theorem Spares.without_eq (hs : s.Spares u) (hgone : ∀ d ∈ gone, ∃ a, s.find? d = some a)
    (h : UInt32) (a : ArrayVar) : u.without gone h a = s.without gone h a := by
  refine congrArg (fun refs => ({ a with refs } : ArrayVar)) (congrArg a.refs.diff ?_)
  refine List.flatMap_congr fun d hd => ?_
  obtain ⟨b, hb⟩ := hgone d hd
  rw [givenUp, givenUp, hs.find? hb, hb]

/-- what is due stays due, whatever comes beside it -/
theorem Spares.removal (hs : s.Spares u) (hr : s.Removal gone) : u.Removal gone := by
  induction hr with
  | nil => exact .nil
  | @cons gone h hr hd ih =>
    obtain ⟨b, hb⟩ := hd.found
    refine ih.cons ⟨hd.isHandle, hd.remains, (hs.isTemporary hb).trans hd.temporary, fun a ha => ?_⟩
    obtain rfl := Option.some.inj ((hs.find? hb).symm.trans ha)
    rw [hs.without_eq fun d hd => (hr.found d hd).2]
    exact hd.unreferenced b hb

/-- new arrays hold nothing of what was there before -/
theorem Added.without_eq (hadd : Added owner tops new s u) (hd : Duplicated s u owner l l' new)
    (hgone : ∀ d ∈ gone, ∃ a, s.find? d = some a) {i : UInt32} (hi : (s.find? i).isSome)
    (a : ArrayVar) :
    u.without (new.reverse ++ gone) (handleOf i) a = s.without gone (handleOf i) a := by
  have hzero : handleOf i ≠ 0 := HandleTable.handleOf_ne_zero hi
  have hnone : ∀ n ∈ new.reverse, u.givenUp (handleOf i) n = [] := by
    intro n hn
    obtain ⟨b, hb, -, hsub⟩ := hd.children_subset n (List.mem_reverse.1 hn)
    have hnot : handleOf i ∉ b.children.map handleOf := by
      rw [map_handleOf_of_fresh hadd.fresh hsub]
      exact fun hm => not_mem_of_fresh hadd.fresh hi (hsub hm)
    rw [givenUp_eq hb hzero, List.count_eq_zero.2 hnot, List.replicate_zero]
  rw [← hadd.spares.without_eq hgone, without, without, List.flatMap_append,
    List.flatMap_eq_nil_iff.2 hnone, List.nil_append]

/-- when all new arrays have gone, only those are due that would be due without them -/
theorem Added.not_isDue (hadd : Added owner tops new s u) (hd : Duplicated s u owner l l' new)
    (honly : Only new s u) (hgone : ∀ d ∈ gone, ∃ a, s.find? d = some a)
    (hend : ∀ h, ¬ s.IsDue gone h) (h : UInt32) : ¬ u.IsDue (new.reverse ++ gone) h := by
  intro hdue
  obtain ⟨a, ha⟩ := hdue.found
  have hnot : h ∉ new := fun hm =>
    hdue.remains (List.mem_append_left gone (List.mem_reverse.2 hm))
  have hs : (s.find? h).isSome :=
    (honly (Option.isSome_of_eq_some ha)).resolve_right (hdue.isHandle.symm ▸ hnot)
  obtain ⟨b, hb⟩ := Option.isSome_iff_exists.1 hs
  refine hend h ⟨hdue.isHandle, fun hm => hdue.remains (List.mem_append_right _ hm),
    (hadd.spares.isTemporary hb).symm.trans hdue.temporary, fun d hd' => ?_⟩
  have hrefs := hdue.unreferenced d (hadd.spares.find? hd')
  rwa [← hdue.isHandle, hadd.without_eq hd hgone hs, hdue.isHandle] at hrefs

theorem Only.absent (honly : Only new s u) {i : UInt32} (hs : s.find? i = none)
    (hm : handleOf i ∉ new) : u.find? i = none ∧ u.isTemporary i = false := by
  have hu : ¬ (u.find? i).isSome := fun hi => (honly hi).elim (fun hi => by simp [hs] at hi) hm
  exact ⟨Option.not_isSome_iff_eq_none.1 hu,
    Bool.eq_false_iff.2 fun ht => hu (HandleTable.find?_isSome_of_isTemporary ht)⟩

/-- what is left when all new arrays have gone is what would be left without them -/
theorem Left.eq_of_added {s' u' : ArrayStore} (hl : Left s gone s')
    (hl' : Left u (new.reverse ++ gone) u') (hadd : Added owner tops new s u)
    (hd : Duplicated s u owner l l' new) (honly : Only new s u)
    (hgone : ∀ d ∈ gone, ∃ a, s.find? d = some a) (i : UInt32) :
    u'.find? i = s'.find? i ∧ u'.isTemporary i = s'.isTemporary i := by
  rw [hl'.find?, hl'.isTemporary, hl.find?, hl.isTemporary]
  by_cases hs : (s.find? i).isSome
  · obtain ⟨a, ha⟩ := Option.isSome_iff_exists.1 hs
    have hmem : handleOf i ∈ new.reverse ++ gone ↔ handleOf i ∈ gone := by
      rw [List.mem_append, List.mem_reverse]
      exact or_iff_right (not_mem_of_fresh hadd.fresh hs)
    simp only [hmem, hadd.spares.find? ha, ha, hadd.spares.isTemporary ha, Option.map_some,
      hadd.without_eq hd hgone hs, and_self]
  · -- what was not there before is new, or is not there at all
    have hnone : s.find? i = none := Option.not_isSome_iff_eq_none.1 hs
    have htemp : s.isTemporary i = false :=
      Bool.eq_false_iff.2 fun ht => hs (HandleTable.find?_isSome_of_isTemporary ht)
    rw [hnone, htemp, Option.map_none, ite_self, Bool.and_false]
    by_cases hm : handleOf i ∈ new
    · have hm' : handleOf i ∈ new.reverse ++ gone :=
        List.mem_append_left gone (List.mem_reverse.2 hm)
      simp [hm']
    · obtain ⟨hu, hut⟩ := honly.absent hnone hm
      rw [hu, hut, Option.map_none, ite_self, Bool.and_false]
      exact ⟨rfl, rfl⟩

/-- Sweeps take all new arrays when nothing refers to those on top, and otherwise what they would
have taken without them. -/
theorem sweepAll_of_added (hadd : Added owner (childrenOf l') new s u)
    (hd : Duplicated s u owner l l' new) (honly : Only new s u) :
    u.sweepAll.1 = s.sweepAll.1 + new.length ∧
      ∀ i, u.sweepAll.2.find? i = s.sweepAll.2.find? i ∧
        u.sweepAll.2.isTemporary i = s.sweepAll.2.isTemporary i := by
  obtain ⟨gone, hr, hleft, hend, hlen⟩ := Removal.nil.sweepAll s.left_nil
  obtain ⟨gone', hr', hleft', hend', hlen'⟩ := Removal.nil.sweepAll u.left_nil
  have hfound : ∀ d ∈ gone, ∃ a, s.find? d = some a := fun d hd => (hr.found d hd).2
  have hapart : ∀ n ∈ new, n ∉ gone := fun n hn hg => by
    obtain ⟨a, ha⟩ := hfound n hg
    exact Option.some_ne_none a (ha.symm.trans (hadd.fresh n hn).2)
  have hall : u.Removal (new.reverse ++ gone) := by
    refine hd.removal hadd (List.Subset.refl _) hadd.nodup hapart (hadd.spares.removal hr) ?_
    intro n hn b hb
    obtain ⟨-, b', hb', hrefs⟩ := hadd.nested n (hadd.tops_subset hn)
    obtain rfl := Option.some.inj (hb.symm.trans hb')
    rw [without, hrefs, if_pos hn, List.nil_diff]
  have hperm : gone'.Perm (new.reverse ++ gone) :=
    hr'.perm hall hend' (hadd.not_isDue hd honly hfound hend)
  have hlength := hperm.length_eq
  rw [List.length_append, List.length_reverse] at hlength
  rw [List.length_nil, Nat.add_zero] at hlen hlen'
  exact ⟨by omega, hleft.eq_of_added (hleft'.perm hperm) hadd hd honly hfound⟩

/-! ## Copies without their roots -/

/-- an array that stays when the root is erased loses the references that the root held -/
theorem FreshTree.find?_destroy (ht : FreshTree s s t owner source c below) {b d : ArrayVar}
    (hb : t.find? c = some b) (howner : b.owner = owner) (hsub : b.children ⊆ below) {i : UInt32}
    (hne : handleOf c ≠ handleOf i) (hd : t.find? i = some d) : (t.destroy c).find? i =
      some (d.removeRefs (b.children.count (handleOf i)) owner) := by
  have hi0 : handleOf i ≠ 0 := HandleTable.handleOf_ne_zero (Option.isSome_of_eq_some hd)
  have hids := map_handleOf_of_fresh ht.fresh fun m hm => List.mem_cons_of_mem c (hsub hm)
  rw [ArrayStore.find?_destroy hb, if_neg hne, hd, Option.map_some, ← count_children b hi0, hids,
    howner]

theorem FreshTree.root_ne (ht : FreshTree s s t owner source c below) (hn : n ∈ below) :
    handleOf c ≠ handleOf n := by
  obtain ⟨hc, -⟩ := ht.fresh c List.mem_cons_self
  obtain ⟨hself, -⟩ := ht.fresh n (List.mem_cons_of_mem c hn)
  rw [hc, hself]
  rintro rfl
  exact (List.nodup_cons.1 ht.nodup).1 hn

theorem FreshTree.spares_destroy (ht : FreshTree s s t owner source c below) {b : ArrayVar}
    (hb : t.find? c = some b) (howner : b.owner = owner) (hsub : b.children ⊆ below) :
    s.Spares (t.destroy c) := by
  obtain ⟨hself, -⟩ := ht.fresh c List.mem_cons_self
  have hold : ∀ {i d}, s.find? i = some d → handleOf i ∉ c :: below := fun hi =>
    not_mem_of_fresh ht.fresh (Option.isSome_of_eq_some hi)
  have hne : ∀ {i d}, s.find? i = some d → handleOf c ≠ handleOf i := fun hi e =>
    hold hi (List.mem_cons.2 (.inl (e.symm.trans hself)))
  refine ⟨fun {i d} hi => ?_, fun {i d} hi => ?_⟩
  · have hzero : b.children.count (handleOf i) = 0 :=
      List.count_eq_zero.2 fun hm => hold hi (List.mem_cons_of_mem c (hsub hm))
    rw [ht.find?_destroy hb howner hsub (hne hi) (ht.spares.find? hi), hzero,
      ArrayVar.removeRefs_zero]
  · rw [isTemporary_destroy hb, if_neg (hne hi), ht.spares.isTemporary hi]

theorem Only.destroy {b : ArrayVar} (honly : Only (c :: below) s t) (hself : handleOf c = c)
    (hb : t.find? c = some b) : Only below s (t.destroy c) := by
  intro i hi
  rw [ArrayStore.find?_destroy hb, Option.isSome_map] at hi
  split at hi
  · cases hi
  · next hne =>
    exact (honly hi).imp_right fun hm => (List.mem_cons.1 hm).resolve_left fun e =>
      hne (hself.trans e.symm)

/-- the root takes its references with it, and they are those of the arrays on top -/
theorem FreshTree.destroy (ht : FreshTree s s t owner source c below)
    (honly : Only (c :: below) s t) : ∃ l l', Added owner (childrenOf l') below s (t.destroy c) ∧
      Duplicated s (t.destroy c) owner l l' below ∧ Only below s (t.destroy c) := by
  obtain ⟨a, b, -, hb, hcopied, -, hd⟩ := ht.root
  obtain ⟨hself, -⟩ := ht.fresh c List.mem_cons_self
  obtain ⟨-, hnodup⟩ := List.nodup_cons.1 ht.nodup
  have hfresh : ∀ n ∈ below, handleOf n = n ∧ s.find? n = none := fun n hn =>
    ht.fresh n (List.mem_cons_of_mem c hn)
  have hchildren : b.children ⊆ below := hd.children_sublist.subset
  have hbelow : ∀ n ∈ below, ∀ d, t.find? n = some d →
      (t.destroy c).find? n = some (d.removeRefs (b.children.count n) owner) := by
    intro n hn d hf
    have hfound := ht.find?_destroy hb hcopied.owner hchildren (ht.root_ne hn) hf
    rwa [(hfresh n hn).1] at hfound
  refine ⟨a.values, b.values, ⟨ht.spares_destroy hb hcopied.owner hchildren, hnodup, hfresh,
    hchildren, fun n hn => ?_⟩, hd.mono fun {n d} hn hf => ⟨_, hbelow n hn d hf⟩,
    honly.destroy hself hb⟩
  obtain ⟨htemp, d, hf, hrefs⟩ := ht.nested n hn
  refine ⟨by rw [isTemporary_destroy hb, if_neg (ht.root_ne hn), htemp], _, hbelow n hn d hf, ?_⟩
  show withoutRefs owner (b.children.count n) [] d.refs = if n ∈ b.children then [] else [owner]
  rw [withoutRefs_eq_diff, hrefs]
  by_cases hm : n ∈ b.children
  · have hone : b.children.count n = 1 :=
      List.count_eq_one_of_mem (hd.children_sublist.nodup hnodup) hm
    rw [if_pos hm, hone]
    simp
  · rw [if_neg hm, List.count_eq_zero.2 hm]
    rfl

/-! ## Stores that are the same -/

/-- the same arrays under the same ids, with the same flags, and the same id for the next array -/
structure Same (s t : ArrayStore) : Prop where
  toList_eq : t.toList = s.toList
  temporaries_eq : t.temporaries = s.temporaries
  create_eq : ∀ keyType packed owner,
    (create keyType packed owner).run' t = (create keyType packed owner).run' s

/-- with the same handles in use the next array has the same id -/
theorem run'_create_congr (hs : s.NoneReserved) (ht : t.NoneReserved)
    (h : ∀ i, t.find? i = none ↔ s.find? i = none) (keyType : KeyType) (packed : Bool)
    (owner : UInt8) :
    (create keyType packed owner).run' t = (create keyType packed owner).run' s := by
  have hfree : ∀ i, t.IsFree i ↔ s.IsFree i := fun i => by
    rw [ht.isFree_iff, hs.isFree_iff, h i]
  rw [create]
  cases ArrayVar.make keyType packed owner with
  | ok a => exact HandleTable.run'_place_congr hfree a a
  | error f => rfl

theorem same_of_find? (hs : s.NoneReserved) (ht : t.NoneReserved)
    (h : ∀ i, t.find? i = s.find? i ∧ t.isTemporary i = s.isTemporary i) : Same s t where
  toList_eq := HandleTable.toList_congr fun i => (h i).1
  temporaries_eq := HandleTable.temporaries_congr fun i => (h i).2
  create_eq := run'_create_congr hs ht fun i => by rw [(h i).1]

theorem noneReserved_apply (h : s.NoneReserved) (call : Call) : (call.apply s).NoneReserved :=
  (HandleTable.invariant_noneReserved (P := ArrayVar.Meets fun _ _ => True) fun _ => trivial).apply
    (by constructor <;> intros <;> trivial) h call

theorem noneReserved_sweepAll (h : s.NoneReserved) : s.sweepAll.2.NoneReserved := by
  fun_induction ArrayStore.sweepAll s with
  | case1 s _ => exact noneReserved_apply h .sweep
  | case2 s _ ih => exact ih (noneReserved_apply h .sweep)

/-- a store has as many arrays more as there are new ones -/
theorem size_of_only (hs : s.Spares t) (hnodup : new.Nodup)
    (hnew : ∀ n ∈ new, handleOf n = n ∧ s.find? n = none ∧ (t.find? n).isSome)
    (honly : Only new s t) : t.size = s.size + new.length := by
  have hnodup' : ∀ u : ArrayStore, u.handles.Nodup := fun u => by
    rw [HandleTable.handles_eq, List.Nodup, List.pairwise_map]
    exact u.ascending_toList.imp fun hlt e => Nat.ne_of_lt hlt (congrArg UInt32.toNat e)
  have hp : t.handles.Perm (s.handles ++ new) := by
    refine (List.perm_ext_iff_of_nodup (hnodup' t)
      (List.nodup_append.2 ⟨hnodup' s, hnodup, ?_⟩)).2 fun i => ?_
    · rintro n hn _ hn' rfl
      rw [HandleTable.mem_handles, (hnew n hn').2.1] at hn
      exact nomatch hn.2
    · rw [List.mem_append, HandleTable.mem_handles, HandleTable.mem_handles]
      constructor
      · rintro ⟨hself, hi⟩
        exact (honly hi).imp (fun hi => ⟨hself, hi⟩) fun hm => hself ▸ hm
      · rintro (⟨hself, hi⟩ | hm)
        · obtain ⟨a, ha⟩ := Option.isSome_iff_exists.1 hi
          exact ⟨hself, Option.isSome_of_eq_some (hs.find? ha)⟩
        · exact ⟨(hnew i hm).1, (hnew i hm).2.2⟩
  have hlength := hp.length_eq
  rw [List.length_append, HandleTable.handles_eq, HandleTable.handles_eq, List.length_map,
    List.length_map] at hlength
  rw [HandleTable.size_eq, HandleTable.size_eq, hlength]

end ArrayStore

namespace Session

open ArrayStore

/-- A deep copy that is erased again leaves nothing behind: sweeps take the arrays that were below
it, one for each nested copy that was made, and beside them what they would have taken anyway. -/
theorem drop_copy {x : Session} (hx : x.Reachable) (hclosed : x.arrays.Closed)
    {source c : UInt32} {owner : UInt8} {t : ArrayStore}
    (h : copy source owner true x.arrays = .ok c t) :
    ∃ below, FreshTree x.arrays x.arrays t owner source c below ∧
      t.size = x.arrays.size + 1 + below.length ∧ (eraseArray t c).1 = true ∧
      (eraseArray t c).2.sweepAll.1 = x.arrays.sweepAll.1 + below.length ∧
      ArrayStore.Same x.arrays.sweepAll.2 (eraseArray t c).2.sweepAll.2 := by
  have hcomplete : x.arrays.Complete source := by
    obtain ⟨a, _, hl, -⟩ := bind_eq_ok.1 h
    exact hclosed.complete (Option.isSome_of_eq_some (lookup_eq_ok.1 hl).1)
  obtain ⟨below, htree, honly⟩ := freshTree_only_copyTree hcomplete (.refl _) h
  obtain ⟨a, b, -, hb, -⟩ := htree.root
  have hsize : t.size = x.arrays.size + 1 + below.length := by
    have hall := size_of_only htree.spares htree.nodup (fun n hn => ?_) honly
    · rw [hall, List.length_cons]
      omega
    · refine ⟨(htree.fresh n hn).1, (htree.fresh n hn).2, ?_⟩
      rcases List.mem_cons.1 hn with rfl | hn
      · exact Option.isSome_of_eq_some hb
      · obtain ⟨-, d, hd, -⟩ := htree.nested n hn
        exact Option.isSome_of_eq_some hd
  obtain ⟨l, l', hadd, hdup, honly'⟩ := htree.destroy honly
  obtain ⟨hswept, hleft⟩ := sweepAll_of_added hadd hdup honly'
  have hnone := hx.noneReserved
  have hcopied : t.NoneReserved := by
    have hafter := noneReserved_apply hnone (.copy source owner true)
    rwa [Call.apply, after, h] at hafter
  refine ⟨below, htree, hsize, ?_, hswept, same_of_find? (noneReserved_sweepAll hnone)
    (noneReserved_sweepAll (noneReserved_apply hcopied (.eraseArray c))) hleft⟩
  show HandleTable.contains t c = true
  rw [HandleTable.contains_eq, hb]
  rfl

/-- the arrays of `tangled`, and lists inside one another that nothing else refers to -/
def littered : List Event :=
  [.arrays (.createList [.number ⟨0⟩] 2),
    .arrays (.createMap [(.text "left", .array 1), (.text "right", .array 0x10000001)] 3),
    .arrays (.createList [.array 2, .array 0, .array 1, .string "end"] 4),
    .arrays (.createList [.array 1] 5), .arrays (.createList [.array 4] 6),
    .arrays (.markTemporary 4 true), .arrays (.markTemporary 5 true)]

/-- list 1 is copied three times, and map 2 once -/
theorem drop_copy_littered : ∃ t, ∃ below : List UInt32,
    copy 3 9 true (run .standard littered).arrays = .ok 10 t ∧
    t.size = (run .standard littered).arrays.size + 1 + below.length ∧
    (eraseArray t 10).2.sweepAll.1 =
      (run .standard littered).arrays.sweepAll.1 + below.length ∧
    ArrayStore.Same (run .standard littered).arrays.sweepAll.2 (eraseArray t 10).2.sweepAll.2 := by
  have hcopied : ∃ t, copy 3 9 true (run .standard littered).arrays = .ok 10 t :=
    exists_of_run' (by decide +kernel)
  obtain ⟨t, ht⟩ := hcopied
  obtain ⟨below, -, hsize, -, hswept, hsame⟩ :=
    drop_copy (reachable_run .standard littered) (by decide +kernel) ht
  exact ⟨t, below, ht, hsize, hswept, hsame⟩

end Session

end ScriptVars
