import Mathlib.Data.List.DropRight
import ScriptVars.Proofs.Lockstep
import ScriptVars.Proofs.Observation

/-!
# Snapshots

Slots that are set aside stay there until the load ends, however often a load is begun before
that.  A failed load brings back the slots of the first snapshot, a successful one leaves what was
built since the last.

* `HandleTable.run`               several operations, one after the other;
* `HandleTable.Made`              what a run can put behind a handle;
* `HandleTable.find?_step`        where the variables behind an id come from;
* `HandleTable.twins_run`         a run since a snapshot, beside a run from nothing;
* `HandleTable.commit_run`        what is left when the load ends.
-/

namespace ScriptVars
namespace HandleTable

variable {α : Type} {t u : HandleTable α} {ops : List (TableOp α)} {op : TableOp α}

def run (t : HandleTable α) (ops : List (TableOp α)) : HandleTable α :=
  ops.foldl (fun t op => (t.step op).2) t

theorem run_append (t : HandleTable α) (ops more : List (TableOp α)) :
    t.run (ops ++ more) = (t.run ops).run more := List.foldl_append

theorem isLoading_eq_false : t.isLoading = false ↔ t.aside = none := by
  rw [isLoading, Option.isSome_eq_false_iff, Option.isNone_iff_eq_none]

/-! ### what a run makes -/

/-- the variables that a run can put behind a handle: those that it inserts there, and what it
makes of them -/
inductive Made (ops : List (TableOp α)) : UInt32 → α → Prop where
  | inserted {id : UInt32} {value : α} (h : .insert id value ∈ ops) : Made ops (handleOf id) value
  | changed {id : UInt32} {f : α → α} {value : α} (h : .getMut id f ∈ ops)
      (hm : Made ops (handleOf id) value) : Made ops (handleOf id) (f value)

theorem Made.mono {more : List (TableOp α)} (hsub : ops ⊆ more) {i : UInt32} {a : α}
    (h : Made ops i a) : Made more i a := by
  induction h with
  | inserted h => exact .inserted (hsub h)
  | changed h _ ih => exact .changed (hsub h) ih

/-- a variable was there before, or it was put there, or it was changed -/
theorem find?_step (t : HandleTable α) (he : op.endsLoad = false) {i : UInt32} {a : α}
    (h : (t.step op).2.find? i = some a) :
    t.find? i = some a ∨ (∃ id, op = .insert id a ∧ handleOf id = handleOf i) ∨
      ∃ id f b, op = .getMut id f ∧ handleOf id = handleOf i ∧ t.find? i = some b ∧ a = f b := by
  cases op with
  | allocate =>
    rw [step] at h
    cases ha : t.allocate with
    | error f =>
      rw [ha] at h
      exact .inl h
    | ok p =>
      rw [ha] at h
      exact .inl ((reserves_of_allocate ha).find? i ▸ h)
  | insert id value =>
    rw [step] at h
    cases hb : t.bind id value with
    | error f =>
      rw [hb] at h
      exact .inl h
    | ok u =>
      rw [hb] at h
      dsimp only at h
      rw [find?_bind hb] at h
      split at h
      · next e =>
        cases h
        exact .inr (.inl ⟨id, rfl, e⟩)
      · exact .inl h
  | getMut id f =>
    change (t.modify id f).find? i = some a at h
    rw [find?_modify] at h
    split at h
    · next e =>
      obtain ⟨b, hb, rfl⟩ := Option.map_eq_some_iff.1 h
      exact .inr (.inr ⟨id, f, b, rfl, e, hb, rfl⟩)
    · exact .inl h
  | get id => exact .inl (t.find?_remember id i ▸ h)
  | contains id => exact .inl (t.find?_remember id i ▸ h)
  | erase id =>
    change (t.erase id).find? i = some a at h
    rw [find?_erase] at h
    split at h
    · cases h
    · exact .inl h
  | markTemporary id temporary => exact .inl (t.find?_markTemporary id i temporary ▸ h)
  | reset => cases he
  | commitLoad success => cases he
  | snapshotForLoad =>
    change t.beginLoad.find? i = some a at h
    rw [find?_eq] at h
    cases (SlotData.find?_empty _).symm.trans h
  | _ => exact .inl h

/-- from nothing, a run finds only what it made -/
theorem made_of_find?_run (he : ∀ op ∈ ops, op.endsLoad = false) {i : UInt32} {a : α}
    (h : (empty.run ops).find? i = some a) : Made ops (handleOf i) a := by
  induction ops using List.reverseRecOn generalizing a with
  | nil => cases (find?_empty i).symm.trans h
  | append_singleton ops op ih =>
    have hsub : ops ⊆ ops ++ [op] := List.subset_append_left _ _
    have hlast : op ∈ ops ++ [op] := List.mem_append_right _ (List.mem_singleton_self op)
    have ih : ∀ {b}, (empty.run ops).find? i = some b → Made (ops ++ [op]) (handleOf i) b :=
      fun hb => (ih (fun o ho => he o (hsub ho)) hb).mono hsub
    rw [run_append] at h
    rcases find?_step _ (he op hlast) h with hb | ⟨id, rfl, e⟩ | ⟨id, f, b, rfl, e, hb, rfl⟩
    · exact ih hb
    · exact e ▸ Made.inserted hlast
    · exact e ▸ Made.changed hlast (e.symm ▸ ih hb)

/-! ### from the first snapshot to the end of the load -/

/-- the operations after the last snapshot -/
def sinceSnapshot (ops : List (TableOp α)) : List (TableOp α) :=
  ops.rtakeWhile fun op => !op.isSnapshot

/-- the slots that were set aside first stay aside; the others are built from nothing since the
last snapshot -/
theorem twins_run (ht : t.isLoading = false) (he : ∀ op ∈ ops, op.endsLoad = false) :
    Twins (some t.slots) none (t.beginLoad.run ops) (empty.run (sinceSnapshot ops)) := by
  have hnone : t.aside = none := isLoading_eq_false.1 ht
  induction ops using List.reverseRecOn with
  | nil =>
    refine ⟨rfl, ?_, rfl⟩
    show some (t.aside.getD t.slots) = some t.slots
    rw [hnone]
    rfl
  | append_singleton ops op ih =>
    have ih := ih fun o ho => he o (List.mem_append_left _ ho)
    rw [run_append, sinceSnapshot]
    cases hs : op.isSnapshot with
    | true =>
      -- a further snapshot forgets what was built, but not what is aside
      rw [List.rtakeWhile_concat_neg _ _ _ (by simp [hs])]
      cases op <;> cases hs
      refine ⟨rfl, ?_, rfl⟩
      show some ((t.beginLoad.run ops).aside.getD _) = some t.slots
      rw [ih.aside.1]
      rfl
    | false =>
      rw [List.rtakeWhile_concat_pos _ _ _ (by simp [hs]), run_append]
      exact (ih.step (he op (List.mem_append_right _ (List.mem_singleton_self op))) hs).2

/-- the first snapshot wins: a load that fails brings back the table of the first snapshot, one
that succeeds leaves what was built since the last one, and nothing of the other side is found -/
theorem commit_run (t : HandleTable α) (ht : t.isLoading = false)
    (he : ∀ op ∈ ops, op.endsLoad = false) :
    let ended (success : Bool) := t.run (.snapshotForLoad :: ops ++ [.commitLoad success])
    Same (ended false) t ∧ Same (ended true) (empty.run (sinceSnapshot ops)) ∧
      (∀ success, (ended success).isLoading = false) ∧
      (∀ i, (ended false).find? i = t.find? i) ∧
      ∀ i a, (ended true).find? i = some a → Made (sinceSnapshot ops) (handleOf i) a := by
  have h := twins_run ht he
  have hended : ∀ success, t.run (.snapshotForLoad :: ops ++ [.commitLoad success]) =
      (t.beginLoad.run ops).endLoad success := fun success =>
    run_append t (.snapshotForLoad :: ops) [.commitLoad success]
  have hnone : t.aside = none := isLoading_eq_false.1 ht
  have hback : Same ((t.beginLoad.run ops).endLoad false) t :=
    same_endLoad_false hnone (by rw [h.aside.1, hnone]; rfl)
  have hbuilt : Same ((t.beginLoad.run ops).endLoad true) (empty.run (sinceSnapshot ops)) :=
    same_of_eq ((slots_endLoad_true _).trans h.slots) ((aside_endLoad_true _).trans h.aside.2.symm)
  have hsince : ∀ op ∈ sinceSnapshot ops, op.endsLoad = false := fun op ho =>
    he op ((List.rtakeWhile_suffix _ _).subset ho)
  dsimp only
  simp only [hended]
  refine ⟨hback, hbuilt, fun success => ?_, fun i => ?_, fun i a ha => ?_⟩
  · rw [isLoading_eq_false]
    cases success with
    | false => exact hback.aside.trans hnone
    | true => exact aside_endLoad_true _
  · rw [find?_eq, find?_eq, hback.slots]
  · rw [find?_eq, hbuilt.slots, ← find?_eq] at ha
    exact made_of_find?_run hsince ha

/-- a table with a temporary variable; a load begins, and begins again -/
theorem commit_run_nested :
    let t : HandleTable Nat := empty.run [.allocate, .insert 1 10, .markTemporary 1 true, .get 1]
    let ops : List (TableOp Nat) := [.allocate, .insert 1 20, .get 1, .snapshotForLoad, .insert 2 30,
      .getMut 2 (· + 1), .get 1]
    let ended (success : Bool) := t.run (.snapshotForLoad :: ops ++ [.commitLoad success])
    Same (ended false) t ∧ ((ended false).find? 1 = some 10 ∧ (ended false).find? 2 = none) ∧
      (ended true).find? 1 = none ∧ (ended true).find? 2 = some 31 := by
  refine ⟨(commit_run _ (by decide +kernel) ?_).1, by decide +kernel⟩
  intro op hop
  simp only [List.mem_cons, List.not_mem_nil, or_false] at hop
  rcases hop with rfl | rfl | rfl | rfl | rfl | rfl | rfl <;> rfl

end HandleTable
end ScriptVars
