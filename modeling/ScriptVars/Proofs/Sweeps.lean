import ScriptVars.Proofs.Removal

/-!
# What a sweep takes

A sweep removes the temporary arrays that have no references when it starts, and no others.  The
arrays that stay lose the references that the elements of those arrays stood for: of each module
the first ones in the list, as many as there are such elements.  In which order the arrays go
makes no difference.

* `withoutFirst`              a reference list without the first few of each module;
* `ArrayStore.heldIn`         how many elements name an array, in some arrays of a module;
* `ArrayStore.Swept`          a store without some arrays and without the references they held;
* `ArrayStore.sweep_exact`    what a sweep does, and when sweeps come to an end.
-/

namespace ScriptVars

/-! ## Reference lists -/

/-- a reference list without the first `n m` references of each module `m`: one stays if there are
enough of the same module before it -/
def withoutFirst (n : UInt8 → Nat) (refs : List UInt8) : List UInt8 :=
  (refs.zipIdx.filter fun p => n p.1 ≤ (refs.take p.2).count p.1).map Prod.fst

theorem withoutFirst_cons (n : UInt8 → Nat) (m : UInt8) (refs : List UInt8) :
    withoutFirst n (m :: refs) = (if n m = 0 then [m] else []) ++
      withoutFirst (fun x => n x - if m = x then 1 else 0) refs := by
  have hrest : ((refs.zipIdx 1).filter fun p => n p.1 ≤ ((m :: refs).take p.2).count p.1).map
      Prod.fst = withoutFirst (fun x => n x - if m = x then 1 else 0) refs := by
    rw [List.zipIdx_succ, List.filter_map, List.map_map, withoutFirst]
    refine congrArg₂ _ rfl (List.filter_congr fun p _ => ?_)
    show decide (n p.1 ≤ ((m :: refs).take (p.2 + 1)).count p.1) = decide (_ ≤ _)
    rw [List.take_succ_cons, List.count_cons, decide_eq_decide]
    by_cases he : m = p.1 <;> simp [he]
  rw [← hrest, withoutFirst, List.zipIdx_cons, List.filter_cons]
  by_cases h : n m = 0 <;> simp [h]

/-- taking references out one by one takes the first ones out -/
theorem diff_eq_withoutFirst (refs l : List UInt8) :
    refs.diff l = withoutFirst (fun m => l.count m) refs := by
  induction refs generalizing l with
  | nil => exact List.nil_diff l
  | cons m refs ih =>
    have hcount : (fun x => (l.erase m).count x) = fun x => l.count x - if m = x then 1 else 0 := by
      funext x
      rw [List.count_erase]
      simp
    rw [withoutFirst_cons, ← hcount, ← ih, List.cons_diff]
    by_cases hm : m ∈ l
    · rw [if_pos hm, if_neg (Nat.ne_of_gt (List.count_pos_iff.2 hm)), List.nil_append]
    · rw [if_neg hm, if_pos (List.count_eq_zero.2 hm), List.erase_of_not_mem hm,
        List.singleton_append]

example : withoutFirst (fun m => [1, 3, 1].count m) [1, 2, 1, 1, 2] = [2, 1, 2] := by decide

/-- no more of a module are taken than there are -/
theorem withoutFirst_min (n : UInt8 → Nat) (refs : List UInt8) :
    withoutFirst (fun m => min (refs.count m) (n m)) refs = withoutFirst n refs := by
  refine congrArg _ (List.filter_congr fun p hp => decide_eq_decide.2 ?_)
  have hat : refs[p.2]? = some p.1 := List.mem_zipIdx_iff_getElem?.1 hp
  have hlt : (refs.take p.2).count p.1 < refs.count p.1 := by
    have hle := (List.take_sublist (p.2 + 1) refs).count_le p.1
    rw [List.take_add_one, hat, List.count_append] at hle
    rw [Option.toList_some, List.count_singleton_self] at hle
    exact hle
  show min (refs.count p.1) (n p.1) ≤ _ ↔ _
  omega

namespace ArrayStore

variable {s t : ArrayStore} {gone gone' : List UInt32}

/-! ## What is left of a store -/

/-- how many elements name the array `h`, in those of some arrays that belong to a module -/
def heldIn (s : ArrayStore) (gone : List UInt32) (module : UInt8) (h : UInt32) : Nat :=
  gone.foldr (fun d n => s.share (holds module h) d + n) 0

theorem count_givenUp (s : ArrayStore) (h d : UInt32) (module : UInt8) :
    (s.givenUp h d).count module = s.share (holds module h) d := by
  rw [givenUp, HandleTable.share]
  cases s.find? d with
  | none => rfl
  | some a =>
    show (List.replicate ((named a.values).count h) a.owner).count module = holds module h a
    rw [List.count_replicate, holds]
    simp

theorem count_flatMap_givenUp (s : ArrayStore) (gone : List UInt32) (h : UInt32) (module : UInt8) :
    (gone.flatMap (s.givenUp h)).count module = s.heldIn gone module h := by
  rw [heldIn]
  induction gone with
  | nil => rfl
  | cons d gone ih => rw [List.flatMap_cons, List.count_append, count_givenUp, ih, List.foldr_cons]

/-- the array `h` without its first references by each module, one for each element that names it
in those of some arrays that belong to the module -/
def cleared (s : ArrayStore) (gone : List UInt32) (h : UInt32) (a : ArrayVar) : ArrayVar :=
  { a with refs := withoutFirst (fun m => min (a.refs.count m) (s.heldIn gone m h)) a.refs }

theorem without_eq_cleared (s : ArrayStore) (gone : List UInt32) (h : UInt32) (a : ArrayVar) :
    s.without gone h a = s.cleared gone h a := by
  refine congrArg (fun refs => ({ a with refs } : ArrayVar)) ?_
  rw [withoutFirst_min, diff_eq_withoutFirst]
  exact congrArg (withoutFirst · a.refs) (funext fun m => s.count_flatMap_givenUp gone h m)

/-- `t` is `s` without some arrays: they are gone with their flags, and of another array nothing
but its reference list is different -/
structure Swept (s : ArrayStore) (gone : List UInt32) (t : ArrayStore) : Prop where
  find? : ∀ i, t.find? i =
    if handleOf i ∈ gone then none else (s.find? i).map (s.cleared gone (handleOf i))
  isTemporary : ∀ i, t.isTemporary i = (decide (handleOf i ∉ gone) && s.isTemporary i)

theorem Left.swept (hl : Left s gone t) : s.Swept gone t where
  find? i := by rw [hl.find?, funext (s.without_eq_cleared gone (handleOf i))]
  isTemporary := hl.isTemporary

theorem Left.perm (hl : Left s gone t) (hp : gone.Perm gone') : Left s gone' t where
  find? i := by
    rw [hl.find?, funext fun a => without_perm (s := s) hp (handleOf i) a]
    simp only [hp.mem_iff]
  isTemporary i := by
    rw [hl.isTemporary]
    simp only [hp.mem_iff]

/-! ## Sweeps -/

theorem isDue_nil {h : UInt32} : s.IsDue [] h ↔
    handleOf h = h ∧ s.isTemporary h = true ∧ ∃ a, s.find? h = some a ∧ a.refs = [] := by
  constructor
  · intro hd
    obtain ⟨a, ha⟩ := hd.found
    exact ⟨hd.isHandle, hd.temporary, a, ha, hd.unreferenced a ha⟩
  · rintro ⟨hself, ht, a, ha, hrefs⟩
    refine ⟨hself, List.not_mem_nil, ht, fun b hb => ?_⟩
    obtain rfl := Option.some.inj (ha.symm.trans hb)
    exact hrefs

theorem mem_unclaimed_iff {h : UInt32} : h ∈ s.unclaimed ↔
    handleOf h = h ∧ s.isTemporary h = true ∧ ∃ a, s.find? h = some a ∧ a.refs = [] :=
  s.left_nil.mem_unclaimed.trans isDue_nil

/-- the arrays that a sweep takes may go in any order -/
theorem swept_foldl_destroy {order : List UInt32} (hp : order.Perm s.unclaimed) :
    s.Swept s.unclaimed (order.foldl ArrayStore.destroy s) := by
  have hdue : ∀ h ∈ order, s.IsDue [] h := fun h hh =>
    s.left_nil.mem_unclaimed.1 (hp.mem_iff.1 hh)
  obtain ⟨-, hl⟩ := Removal.nil.foldl_destroy s.left_nil (hp.nodup_iff.2 s.nodup_unclaimed) hdue
  rw [List.append_nil] at hl
  exact (hl.perm ((List.reverse_perm order).trans hp)).swept

theorem Removal.temporary (hr : s.Removal gone) : ∀ d ∈ gone, d ∈ s.temporaries := by
  induction hr with
  | nil => exact List.forall_mem_nil _
  | cons _ hd ih =>
    exact List.forall_mem_cons.2 ⟨HandleTable.mem_temporaries.2 ⟨hd.isHandle, hd.temporary⟩, ih⟩

/-- every temporary array has gone or is left -/
theorem Left.length_temporaries (hl : Left s gone t) (hr : s.Removal gone) :
    t.temporaries.length + gone.length = s.temporaries.length := by
  have hnodup : ∀ u : ArrayStore, u.temporaries.Nodup := fun u =>
    (HandleTable.ascending_temporaries u).imp fun hlt e =>
      Nat.ne_of_lt hlt (congrArg UInt32.toNat e)
  have hmem : ∀ h, h ∈ t.temporaries ↔ h ∈ s.temporaries ∧ h ∉ gone := by
    intro h
    rw [HandleTable.mem_temporaries, HandleTable.mem_temporaries, hl.isTemporary, Bool.and_eq_true,
      decide_eq_true_eq]
    constructor
    · rintro ⟨hself, hg, ht⟩
      exact ⟨⟨hself, ht⟩, hself ▸ hg⟩
    · rintro ⟨⟨hself, ht⟩, hg⟩
      exact ⟨hself, hself.symm ▸ hg, ht⟩
  have hp : (t.temporaries ++ gone).Perm s.temporaries := by
    refine (List.perm_ext_iff_of_nodup (List.nodup_append.2 ⟨hnodup t, hr.nodup, ?_⟩)
      (hnodup s)).2 fun h => ?_
    · rintro h hh _ hg rfl
      exact ((hmem h).1 hh).2 hg
    · rw [List.mem_append, hmem]
      constructor
      · exact fun hh => hh.elim And.left (hr.temporary h)
      · exact fun hh => (Decidable.em (h ∈ gone)).elim .inr fun hg => .inl ⟨hh, hg⟩
  rw [← List.length_append]
  exact hp.length_eq

theorem length_temporaries_sweep (s : ArrayStore) :
    s.sweep.2.temporaries.length + s.sweep.1 = s.temporaries.length := by
  obtain ⟨hr, hl⟩ := Removal.nil.sweep s.left_nil
  have h := hl.length_temporaries hr
  rwa [List.append_nil, List.length_reverse] at h

/-- each sweep but the last one takes a temporary array -/
theorem sweeps_end (s : ArrayStore) :
    ∃ n ≤ s.temporaries.length, ((fun t => (sweep t).2)^[n] s).sweep.1 = 0 := by
  fun_induction ArrayStore.sweepAll s with
  | case1 s hz => exact ⟨0, Nat.zero_le _, hz⟩
  | case2 s hz ih =>
    obtain ⟨n, hn, hlast⟩ := ih
    have hlength := s.length_temporaries_sweep
    exact ⟨n + 1, by omega, hlast⟩

/-- A sweep removes exactly the temporary arrays without references, and tells how many they are.
What it leaves does not depend on the order in which they go.  After no more sweeps than there are
temporary arrays the next one removes nothing. -/
theorem sweep_exact (s : ArrayStore) : ∃ gone : List UInt32, gone.Nodup ∧
    (∀ h, h ∈ gone ↔
      handleOf h = h ∧ s.isTemporary h = true ∧ ∃ a, s.find? h = some a ∧ a.refs = []) ∧
    s.sweep.1 = gone.length ∧ s.Swept gone s.sweep.2 ∧
    (∀ order : List UInt32, order.Perm gone → s.Swept gone (order.foldl ArrayStore.destroy s)) ∧
    ∃ n ≤ s.temporaries.length, ((fun t => (sweep t).2)^[n] s).sweep.1 = 0 :=
  ⟨s.unclaimed, s.nodup_unclaimed, fun _ => mem_unclaimed_iff, rfl,
    swept_foldl_destroy (.refl _), fun _ => swept_foldl_destroy, s.sweeps_end⟩

end ArrayStore

end ScriptVars
