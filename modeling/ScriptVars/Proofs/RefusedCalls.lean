import ScriptVars.Proofs.CopiedTrees
import ScriptVars.Proofs.Host

/-!
# Calls that are refused

Every check of a call comes before its first change, so a call that is refused has changed nothing.
Only a deep copy makes one array after the other; it is refused halfway when the handles run out, or
where an array has more elements than there are positions.

* `Action.failure?`                            why an operation is refused;
* `ArrayStore.Call.failure?`, `StringStore.Call.failure?`   why a call is;
* `ArrayStore.atomic_copy_shallow`, `copyTree_exhausted`   where copies fail;
* `ArrayStore.Call.apply_of_failure?`          what is refused leaves the store as it was;
* `Session.step_refused`                       and the session with it.
-/

namespace ScriptVars

open ScriptVars.Action

/-! ## Failures of calls -/

namespace Action

variable {σ α : Type} {s : σ} {f : Failure}

/-- why an operation is refused, if it is -/
def failure? (x : Action σ α) (s : σ) : Option Failure :=
  match x s with
  | .ok _ _ => none
  | .error f _ => some f

theorem failure?_eq_some {x : Action σ α} :
    x.failure? s = some f ↔ x s = .error f (x.after s) := by
  rw [failure?, after]
  cases x s with
  | ok a t => simp
  | error g t =>
    rw [Option.some.injEq, EStateM.Result.error.injEq]
    exact (and_iff_left rfl).symm

theorem Atomic.after_of_failure? {x : Action σ α} (hx : Atomic x) (h : x.failure? s = some f) :
    x.after s = s := hx (failure?_eq_some.1 h)

theorem Reads.after_eq {x : Action σ α} (hx : Reads x) (s : σ) : x.after s = s :=
  hx.keeps (I := (· = s)) rfl

end Action

def ArrayStore.Call.failure? (s : ArrayStore) : ArrayStore.Call → Option Failure
  | create keyType packed owner => (ArrayStore.create keyType packed owner).failure? s
  | createList elements owner => (ArrayStore.createList elements owner).failure? s
  | createMap pairs owner => (ArrayStore.createMap pairs owner).failure? s
  | copy source owner deep => (ArrayStore.copy source owner deep).failure? s
  | slice source lo hi => (ArrayStore.slice source lo hi).failure? s
  | sort id order mode => (ArrayStore.sort id order mode).failure? s
  | sortBy id order cmp => (ArrayStore.sortBy id order cmp).failure? s
  | keys id => (ArrayStore.keys id).failure? s
  | values id => (ArrayStore.values id).failure? s
  | setElement id k e => (ArrayStore.setElement id k e).failure? s
  | setNumber id k x => (ArrayStore.setNumber id k x).failure? s
  | setString id k text => (ArrayStore.setString id k text).failure? s
  | setForm id k form => (ArrayStore.setForm id k form).failure? s
  | setArray id k target => (ArrayStore.setArray id k target).failure? s
  | append id e => (ArrayStore.append id e).failure? s
  | insert id i e => (ArrayStore.insert id i e).failure? s
  | insertRange id i source => (ArrayStore.insertRange id i source).failure? s
  | resize id n pad => (ArrayStore.resize id n pad).failure? s
  | eraseElement id k => (ArrayStore.eraseElement id k).failure? s
  | eraseElements id lo hi => (ArrayStore.eraseElements id lo hi).failure? s
  | eraseAll id => (ArrayStore.eraseAll id).failure? s
  | addReference target module => (ArrayStore.addReference target module).failure? s
  | removeReference target module => (ArrayStore.removeReference target module).failure? s
  | assignReference slot target module =>
    (ArrayStore.assignReference target module).failure? (s, slot)
  | eraseArray _ | markTemporary _ _ | sweep => none

def StringStore.Call.failure? (s : StringStore) : StringStore.Call → Option Failure
  | create data owner => (StringStore.create data owner).failure? s
  | createTemporary data owner => (StringStore.createTemporary data owner).failure? s
  | assign id data => (StringStore.assign id data).failure? s
  | erase _ | markTemporary _ _ | sweep => none

/-! ## Strings -/

namespace StringStore

theorem atomic_create (data : String) (owner : UInt8) : Atomic (create data owner) :=
  (reads_demand _).bind_atomic fun _ => HandleTable.atomic_place _

theorem atomic_createTemporary (data : String) (owner : UInt8) :
    Atomic (createTemporary data owner) :=
  (atomic_create data owner).bind fun handle =>
    (succeeds_modify _).bind fun _ => succeeds_pure handle

theorem atomic_assign (id : UInt32) (data : String) : Atomic (assign id data) := by
  refine (reads_demand _).bind_atomic fun _ => reads_get.bind_atomic fun s => ?_
  dsimp only
  split
  · exact (reads_throw _).bind_atomic fun _ => (succeeds_modify _).atomic
  · exact (succeeds_modify _).atomic

theorem Call.apply_of_failure? {s : StringStore} {c : StringStore.Call} {f : Failure}
    (h : c.failure? s = some f) : c.apply s = s := by
  cases c with
  | create data owner => exact (atomic_create data owner).after_of_failure? h
  | createTemporary data owner => exact (atomic_createTemporary data owner).after_of_failure? h
  | assign id data => exact (atomic_assign id data).after_of_failure? h
  | erase | markTemporary | sweep => cases h

end StringStore

/-! ## Copies -/

namespace ArrayStore

variable {s t : ArrayStore} {f : Failure}

theorem copyElement_shallow (copyChild : UInt32 → Action ArrayStore UInt32) :
    copyElement copyChild false = pure := by
  funext e
  cases e <;> rfl

theorem traverse_pure (st : Storage) : st.traverse (m := Action ArrayStore) pure = pure st := by
  have hpure : ∀ {α : Type} (l : List α), l.mapM (m := Action ArrayStore) pure = pure l :=
    fun l => (List.mapM_pure (f := id)).trans (congrArg pure l.map_id)
  cases st with
  | packed values => rw [Storage.traverse, hpure, pure_bind]
  | sorted entries => simp only [Storage.traverse, pure_bind, hpure]

/-- a shallow copy is one array with the same elements -/
theorem copy_shallow (source : UInt32) (owner : UInt8) :
    copy source owner false = (do
      let a ← lookup source
      Action.demand a.storage.checkPositions
      install ⟨a.kind, owner, [], a.storage.fillable⟩) := by
  have hfuel : handleLimit = 0x0FFFFFFF + 1 := rfl
  rw [copy, hfuel, copyTree, copyElement_shallow]
  simp only [traverse_pure, pure_bind]

theorem atomic_copy_shallow (source : UInt32) (owner : UInt8) :
    Atomic (copy source owner false) := by
  rw [copy_shallow]
  exact (reads_lookup source).bind_atomic fun a =>
    (reads_demand _).bind_atomic fun _ => atomic_install _

theorem positioned_of_sizes
    (h : ∀ id a, s.find? id = some a → a.size ≤ Key.greatestIndex + 1) : s.Positioned := by
  intro id a ha
  have hsize := h id a ha
  rw [ArrayVar.size] at hsize
  cases hst : a.storage with
  | packed values =>
    rw [hst] at hsize
    exact Storage.checkPositions_packed_eq_ok.2 hsize
  | sorted => rfl

theorem Positioned.markTemporary (h : s.Positioned) (id : UInt32) :
    Positioned (s.markTemporary id true) := by
  intro i a ha
  rw [HandleTable.find?_markTemporary] at ha
  exact h ha

/-- the copy of a storage is no longer than the storage -/
theorem checkPositions_mapped {R : Element → Element → Prop} {st st' : Storage}
    (h : st.Mapped R st') (hst : st.checkPositions = .ok ()) : st'.checkPositions = .ok () := by
  cases h with
  | packed h =>
    rw [Storage.checkPositions_packed_eq_ok] at hst ⊢
    rwa [← h.length_eq]
  | sorted => rfl

theorem Positioned.install {a : ArrayVar} {c : UInt32} (h : s.Positioned)
    (ha : a.storage.checkPositions = .ok ()) (hi : install a s = .ok c t) : t.Positioned := by
  obtain ⟨u, hp, rfl⟩ := install_eq_ok.1 hi
  intro i b hb
  rw [find?_installed (HandleTable.places_of_place hp)] at hb
  obtain ⟨c, hc, rfl⟩ := Option.map_eq_some_iff.1 hb
  show c.storage.checkPositions = .ok ()
  split at hc
  · cases hc
    exact ha
  · exact h hc

theorem maintains_positioned (owner : UInt8) (fuel : Nat) (source : UInt32) :
    Maintains Positioned (fun s c => (s.find? c).isSome) (copyTree owner true fuel source) :=
  maintains_copyTree (fun id hs => hs.markTemporary id)
    (fun hs₀ hf _ hs hm hi => hs.install (checkPositions_mapped hm (hs₀ hf)) hi) owner true fuel
    source

/-- the arrays below one that is copied are there when they are come to, so nothing but handles can
be missing -/
theorem copyTree_exhausted {owner : UInt8} {fuel : Nat} {source : UInt32} (hs : s.Positioned)
    (hlive : (s.find? source).isSome) (h : copyTree owner true fuel source s = .error f t) :
    f = .exhausted := by
  induction fuel generalizing source s f t with
  | zero =>
    cases h
    rfl
  | succ fuel ih =>
    obtain ⟨a, ha⟩ := Option.isSome_iff_exists.1 hlive
    rcases copyTree_eq_error h with hl | ⟨b, hb, hrest⟩
    · exact nomatch (lookup_eq_ok.2 ⟨ha, rfl⟩).symm.trans hl
    obtain rfl := Option.some.inj (ha.symm.trans hb)
    rw [Storage.fillable_eq (hs ha)] at hrest
    rcases hrest with ht | ⟨_, _, -, ⟨hp, -⟩ | ⟨-, hi⟩⟩
    · obtain ⟨_, e, _, _, u, -, hbefore, he⟩ := traverse_eq_error ht
      obtain ⟨x, -, hx, hcopy⟩ := copyElement_eq_error he
      have hu : u.Positioned := ((maintains_mapM (fun hg hc => hc.mono hg)
        (maintains_copyElement (maintains_positioned owner fuel) (fun id hs => hs.markTemporary id)
          true) _).ok hs hbefore).1
      exact ih hu hx hcopy
    · exact nomatch hp.symm.trans (hs ha)
    · exact (install_eq_error hi).1

theorem copy_missing {source : UInt32} (hn : s.find? source = none) (owner : UInt8) (deep : Bool) :
    copy source owner deep s = .error (.notFound source) s := by
  have hlookup : lookup source s = .error (.notFound source) s := by
    show Action.require (.notFound source) (s.find? source) s = _
    rw [hn]
    rfl
  have hfuel : handleLimit = 0x0FFFFFFF + 1 := rfl
  rw [copy, hfuel, copyTree]
  exact bind_eq_error.2 (.inl hlookup)

/-- a deep copy that is refused has found no array, or no handle -/
theorem copy_unchanged {source : UInt32} {owner : UInt8} (hs : s.Positioned)
    (h : copy source owner true s = .error f t) : f = .exhausted ∨ t = s := by
  by_cases hlive : (s.find? source).isSome
  · exact .inl (copyTree_exhausted hs hlive h)
  · rw [copy_missing (Option.not_isSome_iff_eq_none.1 hlive)] at h
    cases h
    exact .inr rfl

/-- whether a call may have changed something when it is refused: a deep copy for which there were
not enough handles, or while an array has more elements than there are positions -/
def Call.MayStop (s : ArrayStore) (f : Failure) : Call → Prop
  | copy _ _ deep => deep = true ∧
      (f = .exhausted ∨ ∃ id a, s.find? id = some a ∧ Key.greatestIndex + 1 < a.size)
  | _ => False

theorem Call.deepCopy_of_failure? {source : UInt32} {owner : UInt8}
    (h : (copy source owner true).failure? s = some f)
    (hc : ¬ (copy source owner true).MayStop s f) : (copy source owner true).apply s = s := by
  have hpositions : s.Positioned := positioned_of_sizes fun id a ha =>
    Nat.le_of_not_lt fun hlt => hc ⟨rfl, .inr ⟨id, a, ha, hlt⟩⟩
  exact (copy_unchanged hpositions (failure?_eq_some.1 h)).resolve_left fun e => hc ⟨rfl, .inl e⟩

theorem Call.apply_of_failure? {c : Call} (h : c.failure? s = some f) (hc : ¬ c.MayStop s f) :
    c.apply s = s := by
  cases c with
  | create keyType packed owner =>
    exact (atomic_create keyType packed owner).after_of_failure? h
  | createList elements owner => exact (atomic_createList elements owner).after_of_failure? h
  | createMap pairs owner => exact (atomic_createMap pairs owner).after_of_failure? h
  | copy source owner deep =>
    cases deep with
    | false => exact (atomic_copy_shallow source owner).after_of_failure? h
    | true => exact deepCopy_of_failure? h hc
  | slice source lo hi => exact (atomic_slice source lo hi).after_of_failure? h
  | sort id order mode => exact (atomic_sort id order mode).after_of_failure? h
  | sortBy id order cmp => exact (atomic_sortBy id order cmp).after_of_failure? h
  | keys id => exact (atomic_keys id).after_of_failure? h
  | values id => exact (atomic_values id).after_of_failure? h
  | setElement id k e => exact (atomic_setElement id k e).after_of_failure? h
  | setNumber id k x => exact (atomic_setElement id k (.number x)).after_of_failure? h
  | setString id k text => exact (atomic_setElement id k (.string text)).after_of_failure? h
  | setForm id k form => exact (atomic_setElement id k (.form form)).after_of_failure? h
  | setArray id k target => exact (atomic_setElement id k (.array target)).after_of_failure? h
  | append id e => exact (atomic_append id e).after_of_failure? h
  | insert id i e => exact (atomic_insert id i e).after_of_failure? h
  | insertRange id i source => exact (atomic_insertRange id i source).after_of_failure? h
  | resize id n pad => exact (atomic_resize id n pad).after_of_failure? h
  | eraseElement id k => exact (atomic_eraseElement id k).after_of_failure? h
  | eraseElements id lo hi => exact (atomic_eraseElements id lo hi).after_of_failure? h
  | eraseAll id => exact (atomic_eraseAll id).after_of_failure? h
  | addReference target module => exact (atomic_addReference target module).after_of_failure? h
  | removeReference target module =>
    exact (atomic_removeReference target module).after_of_failure? h
  | assignReference slot target module =>
    exact congrArg Prod.fst ((atomic_assignReference target module).after_of_failure? h)
  | eraseArray | markTemporary | sweep => cases h

theorem reads_find (id : UInt32) (target : Element) (range : Option (Key × Key)) :
    Reads (find id target range) := by
  refine (reads_lookup id).bind fun a => ?_
  cases range with
  | none => exact reads_pure _
  | some p => exact (reads_demand _).bind fun _ => reads_pure _

end ArrayStore

/-! ## Sessions -/

namespace Session

open ArrayStore

/-- Whatever is refused changes nothing: no array, no string, no handle that may be handed out, and
no variable that was to be moved to another array.  A deep copy without a cycle, of arrays that are
not too long, stops halfway only when there is no handle left. -/
theorem step_refused (s : Session) :
    (∀ (c : ArrayStore.Call) f, c.failure? s.arrays = some f → ¬ c.MayStop s.arrays f →
      s.step (.arrays c) = s) ∧
    (∀ (c : StringStore.Call) f, c.failure? s.strings = some f → s.step (.strings c) = s) ∧
    (∀ id target range, (ArrayStore.find id target range).after s.arrays = s.arrays) ∧
    (∀ target module held f p, assignReference target module (s.arrays, held) = .error f p →
      p = (s.arrays, held) ∧ ∀ slots added i, slots[i]? = some (module, held) →
        Host.step ⟨s.arrays, slots, added⟩ (.assign i target) = ⟨s.arrays, slots, added⟩) ∧
    ∀ source owner f t, (∀ id a, s.arrays.find? id = some a → a.size ≤ Key.greatestIndex + 1) →
      s.arrays.Complete source → s.arrays.Acyclic source →
      copy source owner true s.arrays = .error f t →
      t = s.arrays ∨ f = .exhausted ∧ ∀ i, ¬ t.IsFree i := by
  refine ⟨fun c f h hc => ?_, fun c f h => ?_, fun id target range =>
    (reads_find id target range).after_eq _, ?_, ?_⟩
  · rw [step, ArrayStore.Call.apply_of_failure? h hc]
  · rw [step, StringStore.Call.apply_of_failure? h]
  · intro target module held f p h
    obtain rfl := atomic_assignReference target module h
    refine ⟨rfl, fun slots added i hslot => Host.step_assign_of_refused hslot ?_⟩
    rw [after, h]
  · intro source owner f t hsizes hcomplete hacyclic h
    by_cases hlive : (s.arrays.find? source).isSome
    · exact .inr (copy_refused (positioned_of_sizes hsizes) hcomplete hacyclic hlive h)
    · rw [copy_missing (Option.not_isSome_iff_eq_none.1 hlive)] at h
      cases h
      exact .inl rfl

/-- a map has no end to put anything behind, and 7 is no id of anything -/
theorem step_refused_labelled :
    let s := run .standard labelled
    s.step (.arrays (.append 1 (.number ⟨0⟩))) = s ∧ s.step (.arrays (.copy 7 1 true)) = s ∧
    s.step (.strings (.assign 7 "word")) = s := by
  obtain ⟨harrays, hstrings, -⟩ := step_refused (run .standard labelled)
  have hsizes : ∀ p ∈ (run .standard labelled).arrays.toList, p.2.size ≤ Key.greatestIndex + 1 := by
    decide +kernel
  refine ⟨harrays _ (.typeMismatch (.needsPacked "append")) (by decide +kernel) id,
    harrays (.copy 7 1 true) (.notFound 7) (by decide +kernel) ?_,
    hstrings _ (.notFound 7) (by decide +kernel)⟩
  rintro ⟨-, hf | ⟨id, a, ha, hlong⟩⟩
  · cases hf
  · exact Nat.not_lt_of_le (hsizes _ (HandleTable.handleOf_mem_toList.2 ha)) hlong

end Session

end ScriptVars
