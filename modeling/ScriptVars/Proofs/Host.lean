import ScriptVars.Proofs.Calls

/-!
# Runs of a program

A program holds arrays in variables of its own, and by references that it adds and takes back.  As
long as it takes back only what it has added, the reference lists say exactly who refers to what,
and nothing that anything still refers to is swept.

* `Host`                       a store, with what refers to its arrays from outside;
* `Host.step`, `Host.Allows`   one step of a program, and the steps that it may make;
* `Host.Reachable`             what programs can get to from nothing;
* `balanced_of_reachable`      the ledger is right all the time.
-/

namespace ScriptVars

/-- a store of arrays and a program that uses it -/
structure Host where
  store : ArrayStore
  /-- the variables of the program: the module of each, and the id that it holds -/
  slots : List (UInt8 × UInt32)
  /-- references that were added and not taken back: the module and the handle -/
  added : List (UInt8 × UInt32)

namespace Host

def initial : Host := ⟨.empty, [], []⟩

inductive Step where
  /-- a call of the store that is not about references from outside -/
  | call (c : ArrayStore.Call)
  /-- a new variable of a module, which holds nothing -/
  | declare (module : UInt8)
  /-- points a variable at an array, or at none -/
  | assign (i : Nat) (target : UInt32)
  | addReference (target : UInt32) (module : UInt8)
  | removeReference (target : UInt32) (module : UInt8)

/-- one step of a program; variables hold what a step leaves in them, refused or not -/
def step (h : Host) : Step → Host
  | .call c => { h with store := c.apply h.store }
  | .declare module => { h with slots := h.slots ++ [(module, 0)] }
  | .assign i target =>
    match h.slots[i]? with
    | none => h
    | some (module, held) =>
      let (store, now) := (ArrayStore.assignReference target module).after (h.store, held)
      { h with store, slots := h.slots.set i (module, now) }
  | .addReference target module =>
    match ArrayStore.addReference target module h.store with
    | .ok _ store => { h with store, added := (module, handleOf target) :: h.added }
    | .error _ store => { h with store }
  | .removeReference target module =>
    match ArrayStore.removeReference target module h.store with
    | .ok _ store => { h with store, added := h.added.erase (module, handleOf target) }
    | .error _ store => { h with store }

/-- a program takes back only references that it has added, and makes arrays only of ids that are
there -/
def Allows (h : Host) : Step → Prop
  | .call c => c.Respects h.store
  | .removeReference target module => (module, handleOf target) ∈ h.added
  | _ => True

inductive Reachable : Host → Prop where
  | initial : Reachable initial
  | step {h : Host} (s : Step) : Reachable h → h.Allows s → Reachable (h.step s)

/-- whether a variable of a module holds an array -/
def refers (module : UInt8) (target : UInt32) (slot : UInt8 × UInt32) : Bool :=
  slot.1 = module ∧ slot.2 ≠ 0 ∧ handleOf slot.2 = target

/-- how many variables of a module hold an array -/
def heldInSlots (h : Host) (module : UInt8) (target : UInt32) : Nat :=
  h.slots.countP (refers module target)

/-- how many references of a module to an array were added and not taken back -/
def addedTo (h : Host) (module : UInt8) (target : UInt32) : Nat := h.added.count (module, target)

/-- what refers to an array from outside the store -/
def outside (h : Host) (module : UInt8) (target : UInt32) : Nat :=
  h.heldInSlots module target + h.addedTo module target

/-! ## Single steps -/

theorem refers_eq_true {module m : UInt8} {id : UInt32} (h : id ≠ 0) (x : UInt32) :
    refers m x (module, id) = true ↔ m = module ∧ handleOf id = x := by
  rw [refers, decide_eq_true_eq]
  exact ⟨fun ⟨h₁, _, h₂⟩ => ⟨h₁.symm, h₂⟩, fun ⟨h₁, h₂⟩ => ⟨h₁.symm, h, h₂⟩⟩

theorem refers_zero (module m : UInt8) (x : UInt32) : refers m x (module, 0) = false := by
  rw [refers, decide_eq_false_iff_not]
  exact fun h => h.2.1 rfl

section
variable {h : Host} (b : h.store.Balanced h.outside)
include b

theorem balanced_declare (module : UInt8) :
    (h.step (.declare module)).store.Balanced (h.step (.declare module)).outside := by
  refine b.congr fun m id => ?_
  show (h.slots ++ [(module, 0)]).countP (refers m (handleOf id)) + _ = _
  rw [List.countP_append, List.countP_cons_of_neg (by rw [refers_zero]; exact nofun)]
  rfl

theorem balanced_addReference (target : UInt32) (module : UInt8) :
    (h.step (.addReference target module)).store.Balanced
      (h.step (.addReference target module)).outside := by
  unfold step
  dsimp only
  cases hr : ArrayStore.addReference target module h.store with
  | error f t =>
    obtain rfl := ArrayStore.atomic_addReference target module hr
    exact b
  | ok u t =>
    obtain ⟨hl, rfl⟩ := ArrayStore.addReference_eq_ok hr
    refine b.retain hl fun m id => ?_
    show _ + ((module, handleOf target) :: h.added).count (m, handleOf id) = _
    rw [List.count_cons, ← Nat.add_assoc]
    refine congrArg (h.outside m (handleOf id) + ·) (if_congr ?_ rfl rfl)
    rw [beq_iff_eq, Prod.mk.injEq, eq_comm (a := module)]

theorem balanced_removeReference {target : UInt32} {module : UInt8}
    (ha : (module, handleOf target) ∈ h.added) :
    (h.step (.removeReference target module)).store.Balanced
      (h.step (.removeReference target module)).outside := by
  unfold step
  dsimp only
  cases hr : ArrayStore.removeReference target module h.store with
  | error f t =>
    obtain rfl := ArrayStore.atomic_removeReference target module hr
    exact b
  | ok u t =>
    obtain ⟨-, rfl⟩ := ArrayStore.removeReference_eq_ok hr
    refine b.release fun m id => ?_
    show h.heldInSlots m (handleOf id) + h.added.count (m, handleOf id) =
      h.heldInSlots m (handleOf id) +
        (h.added.erase (module, handleOf target)).count (m, handleOf id) + _
    rw [List.count_erase]
    by_cases e : m = module ∧ handleOf target = handleOf id
    · have hpos : 0 < h.added.count (m, handleOf id) :=
        List.count_pos_iff.2 (by rw [e.1, ← e.2]; exact ha)
      rw [if_pos e, if_pos (by rw [e.1, e.2]; exact beq_self_eq_true _)]
      omega
    · rw [if_neg e, if_neg fun hb => e ?_]
      · omega
      · have := beq_iff_eq.1 hb
        exact ⟨(congrArg Prod.fst this).symm, congrArg Prod.snd this⟩

omit b in
theorem refers_le_heldInSlots {i : Nat} {slot : UInt8 × UInt32} (hi : h.slots[i]? = some slot)
    (m : UInt8) (x : UInt32) : (if refers m x slot then 1 else 0) ≤ h.heldInSlots m x := by
  split
  · next hr => exact List.countP_pos_iff.2 ⟨_, List.mem_of_getElem? hi, hr⟩
  · exact Nat.zero_le _

omit b in
/-- a variable that holds one id holds another one instead -/
theorem outside_set {i : Nat} {module : UInt8} {held : UInt32}
    (hi : h.slots[i]? = some (module, held)) (now : UInt32) (t : ArrayStore) (m : UInt8) (x : UInt32) :
    ({ h with store := t, slots := h.slots.set i (module, now) } : Host).outside m x =
      (h.outside m x - if refers m x (module, held) then 1 else 0) +
        if refers m x (module, now) then 1 else 0 := by
  obtain ⟨hlt, he⟩ := List.getElem?_eq_some_iff.1 hi
  have hset : ({ h with store := t, slots := h.slots.set i (module, now) } : Host).heldInSlots m x =
      h.heldInSlots m x - (if refers m x (module, held) then 1 else 0) +
        if refers m x (module, now) then 1 else 0 := by
    show (h.slots.set i (module, now)).countP (refers m x) = _
    rw [List.countP_set hlt, he]
    rfl
  have hle := refers_le_heldInSlots hi m x
  rw [outside, hset, outside]
  show _ + h.addedTo m x = _
  omega

/-- a variable that is about to change holds nothing for a moment -/
theorem balanced_dropped {i : Nat} {module : UInt8} {held : UInt32}
    (hi : h.slots[i]? = some (module, held)) :
    (if held = 0 then h.store else h.store.release held module).Balanced
      fun m x => h.outside m x - if refers m x (module, held) then 1 else 0 := by
  by_cases hz : held = 0
  · rw [if_pos hz]
    refine b.congr fun m id => ?_
    rw [hz, refers_zero]
    rfl
  · rw [if_neg hz]
    refine b.release fun m id => ?_
    have hle := refers_le_heldInSlots hi m (handleOf id)
    rw [← if_congr (refers_eq_true hz (handleOf id)) rfl rfl, outside]
    omega

omit b in
theorem find?_dropped_isSome (held : UInt32) (module : UInt8) (j : UInt32) :
    ((if held = 0 then h.store else h.store.release held module).find? j).isSome =
      (h.store.find? j).isSome := by
  split
  · rfl
  · rw [ArrayStore.release, HandleTable.find?_modify]
    split
    · exact Option.isSome_map
    · rfl

theorem balanced_reassign {i : Nat} {module : UInt8} {held target : UInt32}
    (hi : h.slots[i]? = some (module, held)) (ht : h.store.accepts (.array target)) :
    (h.store.reassign held target module).Balanced
      ({ h with store := h.store.reassign held target module,
                slots := h.slots.set i (module, target) } : Host).outside := by
  have hout := fun m x => outside_set hi target (h.store.reassign held target module) m x
  generalize ({ h with store := h.store.reassign held target module,
                       slots := h.slots.set i (module, target) } : Host).outside = out at hout ⊢
  rw [ArrayStore.reassign]
  by_cases e : held = target
  · rw [if_pos e]
    refine b.congr fun m id => ?_
    have hle := refers_le_heldInSlots hi m (handleOf id)
    rw [hout, ← e, outside]
    omega
  · rw [if_neg e]
    dsimp only
    by_cases hz : target = 0
    · rw [if_pos hz]
      refine (balanced_dropped b hi).congr fun m id => ?_
      rw [hout, hz, refers_zero]
      rfl
    · rw [if_neg hz]
      refine (balanced_dropped b hi).retain ?_ fun m id => ?_
      · rw [find?_dropped_isSome]
        exact (ArrayStore.accepts_array.1 ht).resolve_left hz
      · rw [hout, if_congr (refers_eq_true hz (handleOf id)) rfl rfl]

omit b in
theorem step_assign {i : Nat} {module : UInt8} {held : UInt32}
    (hi : h.slots[i]? = some (module, held)) {target : UInt32} {t : ArrayStore} {now : UInt32}
    (hafter : (ArrayStore.assignReference target module).after (h.store, held) = (t, now)) :
    h.step (.assign i target) = { h with store := t, slots := h.slots.set i (module, now) } := by
  unfold step
  dsimp only
  rw [hi]
  dsimp only
  rw [hafter]

omit b in
/-- a refused step leaves the variable what it held -/
theorem step_assign_of_refused {i : Nat} {module : UInt8} {held : UInt32}
    (hi : h.slots[i]? = some (module, held)) {target : UInt32}
    (hafter : (ArrayStore.assignReference target module).after (h.store, held) = (h.store, held)) :
    h.step (.assign i target) = h := by
  obtain ⟨hlt, he⟩ := List.getElem?_eq_some_iff.1 hi
  rw [step_assign hi hafter, ← he, List.set_getElem_self]

theorem balanced_assign (i : Nat) (target : UInt32) :
    (h.step (.assign i target)).store.Balanced (h.step (.assign i target)).outside := by
  cases hi : h.slots[i]? with
  | none =>
    have hstep : h.step (.assign i target) = h := by
      unfold step
      dsimp only
      rw [hi]
    rw [hstep]
    exact b
  | some slot =>
    obtain ⟨module, held⟩ := slot
    by_cases ht : h.store.accepts (.array target)
    · rw [step_assign hi (by rw [Action.after, ArrayStore.assignReference_of_accepts ht])]
      exact balanced_reassign b hi ht
    · obtain ⟨f, hf⟩ := ArrayStore.assignReference_of_not_accepts ht
      rw [step_assign_of_refused hi (by rw [Action.after, hf])]
      exact b

/-- a step of a program keeps the ledger right -/
theorem balanced_step {s : Step} (ha : h.Allows s) :
    (h.step s).store.Balanced (h.step s).outside := by
  cases s with
  | call c => exact b.apply ha
  | declare module => exact balanced_declare b module
  | assign i target => exact balanced_assign b i target
  | addReference target module => exact balanced_addReference b target module
  | removeReference target module => exact balanced_removeReference b ha

end

/-! ## Runs -/

theorem balanced_of_reachable {h : Host} (hr : h.Reachable) :
    h.store.Balanced h.outside := by
  induction hr with
  | initial => exact ArrayStore.balanced_empty
  | step s _ ha ih => exact balanced_step ih ha

/-- At any time, each array has as many references of a module as there are elements in arrays of
that module that name it, variables of the module that hold it, and references of the module that
were added and not taken back.  Elements and variables name arrays that are there, or none; so do
the references; and a sweep removes nothing that any of them names. -/
theorem reference_ledger {h : Host} (hr : h.Reachable) :
    (∀ id a, h.store.find? id = some a → ∀ m, a.refs.count m =
      h.store.heldBy m (handleOf id) + h.heldInSlots m (handleOf id) +
        h.addedTo m (handleOf id)) ∧
    (∀ id a, h.store.find? id = some a → ∀ target, .array target ∈ a.values →
      target = 0 ∨ (h.store.find? target).isSome) ∧
    (∀ slot ∈ h.slots, slot.2 = 0 ∨ (h.store.find? slot.2).isSome) ∧
    (∀ m id, 0 < h.addedTo m (handleOf id) → (h.store.find? id).isSome) ∧
    (∀ id, (h.store.find? id).isSome → h.store.sweep.2.find? id = none → ∀ m,
      h.store.heldBy m (handleOf id) = 0 ∧ h.heldInSlots m (handleOf id) = 0 ∧
        h.addedTo m (handleOf id) = 0) := by
  have b := balanced_of_reachable hr
  refine ⟨fun id a hf m => ?_, fun id a hf target ht => ?_, fun slot hs => ?_,
    fun m id hp => ?_, fun id hl hn m => ?_⟩
  · rw [b.refs hf m, outside, Nat.add_assoc]
  · exact ArrayStore.accepts_array.1 (b.elements hf _ ht)
  · by_cases hz : slot.2 = 0
    · exact .inl hz
    · have hpos : 0 < h.heldInSlots slot.1 (handleOf slot.2) :=
        List.countP_pos_iff.2 ⟨slot, hs, (refers_eq_true hz _).2 ⟨rfl, rfl⟩⟩
      refine .inr (b.outside (m := slot.1) ?_)
      rw [outside]
      omega
  · refine b.outside (m := m) ?_
    rw [outside]
    omega
  · obtain ⟨a, hf⟩ := Option.isSome_iff_exists.1 hl
    have hz := b.refs hf m
    rw [ArrayStore.refs_of_swept hf hn, List.count_nil, outside] at hz
    omega

/-- a list that holds an array twice, a variable that holds it, and a reference to it beside -/
def sharing : Host :=
  [.call (.create .number true 7), .call (.createList [.array 1, .array 1] 9), .declare 5,
    .assign 0 1, .addReference 1 3].foldl step initial

theorem reachable_sharing : sharing.Reachable := by
  have h₁ : (initial.step (.call (.create .number true 7))).Reachable := .step _ .initial trivial
  have hids : ∀ e ∈ [Element.array 1, .array 1],
      (initial.step (.call (.create .number true 7))).store.accepts e := by decide +kernel
  have h₂ := Reachable.step (.call (.createList [.array 1, .array 1] 9)) h₁ hids
  have h₃ := Reachable.step (.declare 5) h₂ trivial
  have h₄ := Reachable.step (.assign 0 1) h₃ trivial
  exact .step (.addReference 1 3) h₄ trivial

theorem reference_ledger_sharing :
    sharing.store.references? 1 = some [9, 9, 5, 3] ∧ ∀ a, sharing.store.find? 1 = some a →
      ∀ m, a.refs.count m =
        sharing.store.heldBy m 1 + sharing.heldInSlots m 1 + sharing.addedTo m 1 :=
  ⟨by decide +kernel, fun a ha => (reference_ledger reachable_sharing).1 1 a ha⟩

end Host
end ScriptVars
