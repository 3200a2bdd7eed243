import ScriptVars.Action
import ScriptVars.ArrayVar
import ScriptVars.HandleTable

/-!
# The array store

All arrays of a session by their handles.  An array that stands as an element of another one is
referred to by the owner of the array that holds it: storing the id records that module on the
target, and taking the element out drops it again.

* `ArrayStore.lookup`                    the array behind an id, or the failure that there is none;
* `ArrayStore.retain`, `release`         recording and dropping one reference;
* `ArrayStore.retainAll`, `releaseAll`   the same for the elements of an array;
* `ArrayStore.requireTarget`             refuses elements that name no array;
* `ArrayStore.install`                   a new array with the references it holds;
* `ArrayStore.destroy`                   removes an array and drops the references it held.
-/

namespace ScriptVars

/-- the arrays of a session -/
abbrev ArrayStore := HandleTable ArrayVar

namespace ArrayStore

def lookup (id : UInt32) : Action ArrayStore ArrayVar := do
  Action.require (.notFound id) ((← get).find? id)

def replace (s : ArrayStore) (id : UInt32) (a : ArrayVar) : ArrayStore := s.modify id fun _ => a

/-- records a reference of a module to an array, if there is such an array -/
def retain (s : ArrayStore) (target : UInt32) (module : UInt8) : ArrayStore :=
  s.modify target (·.addRef module)

def release (s : ArrayStore) (target : UInt32) (module : UInt8) : ArrayStore :=
  s.modify target (·.removeRef module)

/-- records a reference for each id; references to one array are recorded together -/
def retainAll (s : ArrayStore) (targets : List UInt32) (module : UInt8) : ArrayStore :=
  s.modifyEach (tally (targets.map handleOf)) fun n a => a.addRefs n module

/-- drops a reference for each id; references to one array are dropped together -/
def releaseAll (s : ArrayStore) (targets : List UInt32) (module : UInt8) : ArrayStore :=
  s.modifyEach (tally (targets.map handleOf)) fun n a => a.removeRefs n module

/-- the ids that are counted are handles -/
theorem handleOf_of_mem_tally {targets : List UInt32} {h : UInt32}
    (hm : h ∈ tally (targets.map handleOf)) : handleOf h = h := by
  obtain ⟨id, _, rfl⟩ := List.mem_map.1 (mem_tally.1 hm)
  exact handleOf_handleOf id

theorem find?_retainAll (s : ArrayStore) (targets : List UInt32) (module : UInt8) (id : UInt32) :
    (s.retainAll targets module).find? id =
      (s.find? id).map (·.addRefs ((targets.map handleOf).count (handleOf id)) module) := by
  rw [retainAll, s.find?_modifyEach (fun _ => handleOf_of_mem_tally), getElem?_tally]
  by_cases h : handleOf id ∈ targets.map handleOf
  · rw [if_pos h]
  · rw [if_neg h, List.count_eq_zero.2 h]
    cases s.find? id <;> simp [ArrayVar.addRefs_zero]

theorem find?_releaseAll (s : ArrayStore) (targets : List UInt32) (module : UInt8) (id : UInt32) :
    (s.releaseAll targets module).find? id =
      (s.find? id).map (·.removeRefs ((targets.map handleOf).count (handleOf id)) module) := by
  rw [releaseAll, s.find?_modifyEach (fun _ => handleOf_of_mem_tally), getElem?_tally]
  by_cases h : handleOf id ∈ targets.map handleOf
  · rw [if_pos h]
  · rw [if_neg h, List.count_eq_zero.2 h]
    cases s.find? id <;> simp [ArrayVar.removeRefs_zero]

/-- the ids of arrays among elements -/
def targetsOf (elements : List Element) : List UInt32 := elements.filterMap (·.array?)

/-- whether an element that is to be stored names an array that is there, or none at all -/
def accepts (s : ArrayStore) : Element → Bool
  | .array target => target = 0 || s.contains target
  | _ => true

/-- refuses an element that names an array that is not there -/
def requireTarget (e : Element) : Action ArrayStore Unit := do
  match e with
  | .array target => if target ≠ 0 && !(← get).contains target then throw (.notFound target)
  | _ => pure ()

/-- gives a new array the least free handle and records the references it holds -/
def install (a : ArrayVar) : Action ArrayStore UInt32 := do
  let handle ← HandleTable.place a
  modify fun s => s.retainAll a.children a.owner
  return handle

/-- removes an array and drops the references that its elements held -/
def destroy (s : ArrayStore) (id : UInt32) : ArrayStore :=
  match s.find? id with
  | none => s
  | some a => releaseAll (s.erase id) (targetsOf a.values) a.owner

/-! ### outcomes -/

section
variable {s s' : ArrayStore}

theorem lookup_eq_ok {id : UInt32} {a : ArrayVar} :
    lookup id s = .ok a s' ↔ s.find? id = some a ∧ s' = s := by
  simp only [lookup, Action.bind_eq_ok, Action.get_eq_ok, Action.require_eq_ok]
  constructor
  · rintro ⟨_, _, ⟨rfl, rfl⟩, h⟩
    exact h
  · exact fun h => ⟨s, s, ⟨rfl, rfl⟩, h⟩

theorem reads_lookup (id : UInt32) : Action.Reads (lookup id) :=
  Action.reads_get.bind fun _ => Action.reads_require _ _

theorem requireTarget_of_accepts {e : Element} (h : s.accepts e = true) :
    requireTarget e s = .ok () s := by
  cases e with
  | array target =>
    rw [accepts, Bool.or_eq_true, decide_eq_true_eq] at h
    have hc : ¬ (decide (target ≠ 0) && !s.contains target) = true := by
      rcases h with h | h <;> simp [h]
    show (if (decide (target ≠ 0) && !s.contains target) = true then throw (.notFound target)
      else pure () : Action ArrayStore Unit) s = _
    rw [if_neg hc]
    rfl
  | _ => rfl

theorem requireTarget_of_not_accepts {e : Element} (h : ¬ s.accepts e = true) :
    ∃ f, requireTarget e s = .error f s := by
  cases e with
  | array target =>
    rw [accepts, Bool.or_eq_true, decide_eq_true_eq, not_or] at h
    have hc : (decide (target ≠ 0) && !s.contains target) = true := by simp [h.1, h.2]
    refine ⟨.notFound target, ?_⟩
    show (if (decide (target ≠ 0) && !s.contains target) = true then throw (.notFound target)
      else pure () : Action ArrayStore Unit) s = _
    rw [if_pos hc]
    rfl
  | _ => exact absurd rfl h

theorem requireTarget_eq_ok {e : Element} {u : Unit} :
    requireTarget e s = .ok u s' ↔ s.accepts e = true ∧ s' = s := by
  by_cases h : s.accepts e = true
  · rw [requireTarget_of_accepts h, EStateM.Result.ok.injEq]
    exact ⟨fun hs => ⟨h, hs.2.symm⟩, fun hs => ⟨rfl, hs.2.symm⟩⟩
  · obtain ⟨f, hf⟩ := requireTarget_of_not_accepts h
    rw [hf]
    exact ⟨nofun, fun hs => absurd hs.1 h⟩

theorem reads_requireTarget (e : Element) : Action.Reads (requireTarget e) where
  ok h := (requireTarget_eq_ok.1 h).2
  error {s f s'} h := by
    by_cases ha : s.accepts e = true
    · rw [requireTarget_of_accepts ha] at h
      cases h
    · obtain ⟨f, hf⟩ := requireTarget_of_not_accepts ha
      rw [hf] at h
      cases h
      rfl

theorem install_eq_ok {a : ArrayVar} {h : UInt32} :
    install a s = .ok h s' ↔
      ∃ t, HandleTable.place a s = .ok h t ∧ s' = retainAll t a.children a.owner := by
  simp only [install, Action.bind_eq_ok, Action.modify_eq_ok, Action.pure_eq_ok]
  constructor
  · rintro ⟨_, t, hp, _, _, rfl, rfl, rfl⟩
    exact ⟨t, hp, rfl⟩
  · rintro ⟨t, hp, rfl⟩
    exact ⟨h, t, hp, ⟨⟩, _, rfl, rfl, rfl⟩

theorem atomic_install (a : ArrayVar) : Action.Atomic (install a) :=
  (HandleTable.atomic_place a).bind fun h =>
    (Action.succeeds_modify _).bind fun _ => Action.succeeds_pure h

end

end ArrayStore
end ScriptVars
