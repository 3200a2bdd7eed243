import Mathlib.Data.List.Count
import Mathlib.Data.List.Flatten
import ScriptVars.Proofs.Calls

/-!
# Arrays that go

A temporary array without references is due.  When it goes it gives up the references that its
elements hold, and by that others may become due.

* `ArrayStore.givenUp`     the references that an array gives up;
* `ArrayStore.IsDue`       may go after some others;
* `ArrayStore.Removal`     arrays that go one after the other, each when it is due;
* `ArrayStore.Left`        what is left of a store;
* `ArrayStore.sweepAll`    sweeps until one of them removes nothing.

Nothing that is due stops being due before it goes.  So arrays that go until none is due are the
same ones in whatever order they go (`Removal.perm`), and since references are taken out of lists
one by one, they leave the same references as well (`without_perm`).
-/

namespace ScriptVars

namespace HandleTable

theorem temporaries_modifyEach {α β : Type} (t : HandleTable α) (changes : HandleMap β)
    (f : β → α → α) : (t.modifyEach changes f).slots.temporaries = t.slots.temporaries := by
  rw [modifyEach, Std.ExtTreeMap.foldl_eq_foldl_toList]
  generalize changes.toList = l
  induction l generalizing t with
  | nil => rfl
  | cons p l ih => exact (ih (t.modify p.1 (f p.2))).trans (t.temporaries_modify p.1 _)

end HandleTable

theorem withoutRefs_eq_diff (module : UInt8) (n : Nat) (refs : List UInt8) :
    withoutRefs module n [] refs = refs.diff (List.replicate n module) := by
  induction n generalizing refs with
  | zero => rw [withoutRefs_zero, List.replicate_zero, List.diff_nil]; rfl
  | succ n ih => rw [withoutRefs_succ, ih, List.replicate_succ, List.diff_cons]

/-- what takes all references takes all of them when it takes more -/
theorem diff_eq_nil_of_subperm {refs l m : List UInt8} (h : refs.diff l = []) (hs : l.Subperm m) :
    refs.diff m = [] := by
  rw [List.eq_nil_iff_forall_not_mem]
  intro x hx
  have hl : (refs.diff l).count x = 0 := by rw [h, List.count_nil]
  have hm : 0 < (refs.diff m).count x := List.count_pos_iff.2 hx
  have hle := hs.count_le x
  rw [List.count_diff] at hl hm
  omega

namespace ArrayStore

variable {s t u : ArrayStore} {gone gone' : List UInt32} {h : UInt32}

/-! ## Arrays that are due -/

/-- the references to `h` that the array `d` gives up -/
def givenUp (s : ArrayStore) (h d : UInt32) : List UInt8 :=
  (s.find? d).elim [] fun a => List.replicate ((named a.values).count h) a.owner

/-- the array `h` without the references that some arrays give up -/
def without (s : ArrayStore) (gone : List UInt32) (h : UInt32) (a : ArrayVar) : ArrayVar :=
  { a with refs := a.refs.diff (gone.flatMap (s.givenUp h)) }

/-- may go when some others have gone -/
structure IsDue (s : ArrayStore) (gone : List UInt32) (h : UInt32) : Prop where
  isHandle : handleOf h = h
  remains : h ∉ gone
  temporary : s.isTemporary h = true
  unreferenced : ∀ a, s.find? h = some a → (s.without gone h a).refs = []

theorem IsDue.found (hd : s.IsDue gone h) : ∃ a, s.find? h = some a :=
  Option.isSome_iff_exists.1 (HandleTable.find?_isSome_of_isTemporary hd.temporary)

/-- what is due stays due until it goes -/
theorem IsDue.mono (hd : s.IsDue gone h) (hn : gone.Nodup) (hs : gone ⊆ gone') (hr : h ∉ gone') :
    s.IsDue gone' h where
  isHandle := hd.isHandle
  remains := hr
  temporary := hd.temporary
  unreferenced a ha := by
    refine diff_eq_nil_of_subperm (hd.unreferenced a ha) ?_
    obtain ⟨l, hp, hl⟩ := List.subperm_of_subset hn hs
    exact ⟨_, hp.flatMap fun _ _ => .refl _, hl.flatMap _⟩

/-- arrays that go one after the other, the last one first -/
inductive Removal (s : ArrayStore) : List UInt32 → Prop where
  | nil : Removal s []
  | cons {gone : List UInt32} {h : UInt32} (hr : Removal s gone) (hd : s.IsDue gone h) :
    Removal s (h :: gone)

theorem Removal.nodup (hr : s.Removal gone) : gone.Nodup := by
  induction hr with
  | nil => exact List.nodup_nil
  | cons _ hd ih => exact List.nodup_cons.2 ⟨hd.remains, ih⟩

theorem Removal.found (hr : s.Removal gone) : ∀ d ∈ gone, handleOf d = d ∧ ∃ a, s.find? d = some a := by
  induction hr with
  | nil => exact List.forall_mem_nil _
  | cons _ hd ih => exact List.forall_mem_cons.2 ⟨⟨hd.isHandle, hd.found⟩, ih⟩

/-- arrays go sooner or later -/
theorem Removal.subset (hr : s.Removal gone) (hend : ∀ h, ¬ s.IsDue gone' h) : gone ⊆ gone' := by
  induction hr with
  | nil => exact List.nil_subset _
  | @cons gone h hr hd ih =>
    refine List.cons_subset.2 ⟨?_, ih⟩
    by_contra hno
    exact hend h (hd.mono hr.nodup ih hno)

theorem Removal.perm (hr : s.Removal gone) (hr' : s.Removal gone') (hend : ∀ h, ¬ s.IsDue gone h)
    (hend' : ∀ h, ¬ s.IsDue gone' h) : gone.Perm gone' :=
  (List.perm_ext_iff_of_nodup hr.nodup hr'.nodup).2 fun _ =>
    ⟨fun hm => hr.subset hend' hm, fun hm => hr'.subset hend hm⟩

/-! ## What is left -/

/-- `t` is what is left of `s` -/
structure Left (s : ArrayStore) (gone : List UInt32) (t : ArrayStore) : Prop where
  find? : ∀ i, t.find? i =
    if handleOf i ∈ gone then none else (s.find? i).map (s.without gone (handleOf i))
  isTemporary : ∀ i, t.isTemporary i = (decide (handleOf i ∉ gone) && s.isTemporary i)

theorem without_cons {d : UInt32} {b : ArrayVar} (hd : s.find? d = some b) (gone : List UInt32)
    (h : UInt32) (a : ArrayVar) : s.without (d :: gone) h a =
      (s.without gone h a).removeRefs ((named b.values).count h) b.owner := by
  refine congrArg (fun refs => ({ a with refs } : ArrayVar)) ?_
  have hb : s.givenUp h d = List.replicate ((named b.values).count h) b.owner := by
    rw [givenUp, hd]
    rfl
  show a.refs.diff (s.givenUp h d ++ gone.flatMap (s.givenUp h)) =
    withoutRefs b.owner ((named b.values).count h) [] (a.refs.diff (gone.flatMap (s.givenUp h)))
  rw [withoutRefs_eq_diff, ← List.diff_append, hb]
  exact List.perm_append_comm.diff_left a.refs

theorem without_perm (hp : gone.Perm gone') (h : UInt32) (a : ArrayVar) :
    s.without gone h a = s.without gone' h a :=
  congrArg (fun refs => ({ a with refs } : ArrayVar))
    ((hp.flatMap fun _ _ => .refl _).diff_left a.refs)

theorem left_nil (s : ArrayStore) : Left s [] s where
  find? i := by
    rw [if_neg List.not_mem_nil]
    cases s.find? i <;> rfl
  isTemporary i := by rw [decide_eq_true List.not_mem_nil, Bool.true_and]

theorem isTemporary_destroy {a : ArrayVar} (hf : s.find? h = some a) (i : UInt32) :
    (s.destroy h).isTemporary i = if handleOf h = handleOf i then false else s.isTemporary i := by
  rw [destroy, hf, ← HandleTable.isTemporary_erase]
  exact HandleTable.isTemporary_congr (HandleTable.temporaries_modifyEach _ _ _) i

theorem Left.destroy (hl : Left s gone t) {a : ArrayVar} (hself : handleOf h = h) (hr : h ∉ gone)
    (hf : s.find? h = some a) : Left s (h :: gone) (t.destroy h) := by
  have ht : t.find? h = some (s.without gone h a) := by
    rw [hl.find?, hself, if_neg hr, hf]
    rfl
  constructor
  · intro i
    rw [find?_destroy ht, hl.find?, hself]
    by_cases hi : h = handleOf i
    · rw [if_pos hi, if_pos (List.mem_cons.2 (.inl hi.symm))]
      rfl
    · rw [if_neg hi]
      by_cases hg : handleOf i ∈ gone
      · rw [if_pos hg, if_pos (List.mem_cons_of_mem _ hg)]
        rfl
      · rw [if_neg hg, if_neg fun hm => (List.mem_cons.1 hm).elim (fun e => hi e.symm) hg,
          Option.map_map]
        exact congrArg (fun f => (s.find? i).map f) (funext fun c => (without_cons hf gone _ c).symm)
  · intro i
    rw [isTemporary_destroy ht, hl.isTemporary, hself]
    by_cases hi : h = handleOf i
    · simp [hi]
    · simp [hi, Ne.symm hi]

/-- the arrays that are left, in their order -/
theorem Left.toList_eq (hl : Left s gone t) :
    t.toList = (s.toList.filter fun p => p.1 ∉ gone).map fun p => (p.1, s.without gone p.1 p.2) := by
  have hlist : ((s.toList.filter fun p => p.1 ∉ gone).map fun p =>
      (p.1, s.without gone p.1 p.2)).Pairwise fun p q => p.1.toNat < q.1.toNat :=
    List.pairwise_map.2 (List.Pairwise.filter _ (HandleTable.ascending_toList s))
  refine HandleTable.eq_of_ascending (HandleTable.ascending_toList t) hlist fun ⟨i, b⟩ => ?_
  rw [HandleTable.mem_toList, hl.find?]
  constructor
  · rintro ⟨hself, hb⟩
    rw [hself] at hb
    split at hb
    · cases hb
    · next hg =>
      obtain ⟨a, ha, rfl⟩ := Option.map_eq_some_iff.1 hb
      refine List.mem_map.2 ⟨(i, a), List.mem_filter.2 ⟨?_, decide_eq_true hg⟩, rfl⟩
      exact HandleTable.mem_toList.2 ⟨hself, ha⟩
  · intro hm
    obtain ⟨⟨j, a⟩, hj, e⟩ := List.mem_map.1 hm
    cases e
    obtain ⟨hj, hg⟩ := List.mem_filter.1 hj
    obtain ⟨hself, ha⟩ := HandleTable.mem_toList.1 hj
    refine ⟨hself, ?_⟩
    rw [hself, if_neg (of_decide_eq_true hg), ha]
    rfl

/-- every array has gone or is left -/
theorem Left.size_add_length (hl : Left s gone t) (hr : s.Removal gone) :
    t.size + gone.length = s.size := by
  have hnodup : ((s.toList.filter fun p => p.1 ∈ gone).map Prod.fst).Nodup := by
    rw [List.Nodup, List.pairwise_map]
    refine List.Pairwise.filter _ ((HandleTable.ascending_toList s).imp fun hlt e => ?_)
    exact Nat.ne_of_lt hlt (congrArg UInt32.toNat e)
  have hperm : ((s.toList.filter fun p => p.1 ∈ gone).map Prod.fst).Perm gone := by
    refine (List.perm_ext_iff_of_nodup hnodup hr.nodup).2 fun d => ?_
    constructor
    · intro hm
      obtain ⟨p, hp, rfl⟩ := List.mem_map.1 hm
      exact of_decide_eq_true (List.mem_filter.1 hp).2
    · intro hm
      obtain ⟨hself, a, ha⟩ := hr.found d hm
      refine List.mem_map.2 ⟨(d, a), List.mem_filter.2 ⟨?_, decide_eq_true hm⟩, rfl⟩
      exact HandleTable.mem_toList.2 ⟨hself, ha⟩
  have hsplit := List.length_eq_length_filter_add (l := s.toList) fun p => decide (p.1 ∈ gone)
  have hgone := hperm.length_eq
  rw [List.length_map] at hgone
  have hnot : (s.toList.filter fun p => !decide (p.1 ∈ gone)) =
      s.toList.filter fun p => decide (p.1 ∉ gone) :=
    List.filter_congr fun p _ => (decide_not (p := p.1 ∈ gone)).symm
  rw [HandleTable.size_eq, HandleTable.size_eq, hl.toList_eq, List.length_map]
  rw [hnot] at hsplit
  omega

/-! ## Sweeps -/

/-- what a sweep removes is what is due -/
theorem Left.mem_unclaimed (hl : Left s gone t) : h ∈ t.unclaimed ↔ s.IsDue gone h := by
  rw [unclaimed, List.mem_filter, HandleTable.mem_temporaries, isUnclaimed, Bool.and_eq_true]
  constructor
  · rintro ⟨⟨hself, htemp⟩, -, hrefs⟩
    rw [hl.isTemporary, Bool.and_eq_true, hself] at htemp
    have hr : h ∉ gone := of_decide_eq_true htemp.1
    refine ⟨hself, hr, htemp.2, fun a ha => ?_⟩
    rw [hl.find?, hself, if_neg hr, ha] at hrefs
    exact List.isEmpty_iff.1 hrefs
  · intro hd
    obtain ⟨a, ha⟩ := hd.found
    have htemp : t.isTemporary h = true := by
      rw [hl.isTemporary, hd.isHandle, decide_eq_true hd.remains, hd.temporary]
      rfl
    refine ⟨⟨hd.isHandle, htemp⟩, htemp, ?_⟩
    rw [hl.find?, hd.isHandle, if_neg hd.remains, ha]
    exact List.isEmpty_iff.2 (hd.unreferenced a ha)

theorem Removal.foldl_destroy (hr : s.Removal gone) (hl : Left s gone t) {l : List UInt32}
    (hn : l.Nodup) (hd : ∀ h ∈ l, s.IsDue gone h) :
    s.Removal (l.reverse ++ gone) ∧ Left s (l.reverse ++ gone) (l.foldl ArrayStore.destroy t) := by
  induction l generalizing gone t with
  | nil => exact ⟨hr, hl⟩
  | cons h l ih =>
    obtain ⟨hh, hn⟩ := List.nodup_cons.1 hn
    have hdue := hd h List.mem_cons_self
    obtain ⟨a, ha⟩ := hdue.found
    rw [List.reverse_cons, List.append_assoc, List.singleton_append, List.foldl_cons]
    refine ih (hr.cons hdue) (hl.destroy hdue.isHandle hdue.remains ha) hn fun i hi => ?_
    have hi' := hd i (List.mem_cons_of_mem _ hi)
    refine hi'.mono hr.nodup (List.subset_cons_self _ _) fun hm => ?_
    rcases List.mem_cons.1 hm with rfl | hm
    · exact hh hi
    · exact hi'.remains hm

theorem nodup_unclaimed (s : ArrayStore) : s.unclaimed.Nodup := by
  refine List.Nodup.filter _ ((HandleTable.ascending_temporaries s).imp fun hlt e => ?_)
  exact Nat.ne_of_lt hlt (congrArg UInt32.toNat e)

theorem Removal.sweep (hr : s.Removal gone) (hl : Left s gone t) :
    s.Removal (t.unclaimed.reverse ++ gone) ∧ Left s (t.unclaimed.reverse ++ gone) t.sweep.2 :=
  hr.foldl_destroy hl t.nodup_unclaimed fun _ hi => hl.mem_unclaimed.1 hi

/-- a sweep removes as many arrays as it tells -/
theorem size_sweep (s : ArrayStore) : s.sweep.2.size + s.sweep.1 = s.size := by
  obtain ⟨hr, hl⟩ := Removal.nil.sweep s.left_nil
  have h := hl.size_add_length hr
  rw [List.append_nil, List.length_reverse] at h
  exact h

/-- sweeps until one of them removes nothing, and tells how many arrays they removed -/
def sweepAll (s : ArrayStore) : Nat × ArrayStore :=
  if s.sweep.1 = 0 then s.sweep
  else (sweepAll s.sweep.2).map (s.sweep.1 + ·) id
termination_by s.size
decreasing_by
  have hsize := s.size_sweep
  omega

/-- sweeps go on until nothing is due -/
theorem Removal.sweepAll (hr : s.Removal gone) (hl : Left s gone t) :
    ∃ gone', s.Removal gone' ∧ Left s gone' t.sweepAll.2 ∧ (∀ h, ¬ s.IsDue gone' h) ∧
      t.sweepAll.1 + gone.length = gone'.length := by
  fun_induction ArrayStore.sweepAll t generalizing gone with
  | case1 t hz =>
    have hnone : t.unclaimed = [] := List.eq_nil_of_length_eq_zero hz
    have hsweep := (hr.sweep hl).2
    rw [hnone] at hsweep
    refine ⟨gone, hr, hsweep, fun h hd => ?_, by rw [hz, Nat.zero_add]⟩
    have hm := hl.mem_unclaimed.2 hd
    rw [hnone] at hm
    exact List.not_mem_nil hm
  | case2 t hz ih =>
    obtain ⟨hr', hl'⟩ := hr.sweep hl
    obtain ⟨gone', hr', hl', hend, hlen⟩ := ih hr' hl'
    refine ⟨gone', hr', hl', hend, ?_⟩
    rw [List.length_append, List.length_reverse] at hlen
    show t.unclaimed.length + t.sweep.2.sweepAll.1 + gone.length = gone'.length
    omega

end ArrayStore

end ScriptVars
