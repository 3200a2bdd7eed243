import ScriptVars.Action
import ScriptVars.Slots

/-!
# Handle tables

The variables of one sort, behind their handles.  Before a save is loaded the slots are set aside,
and they come back if the load fails.  The handle found last is remembered with its cell, so that
looking it up again does not search the index.

* `HandleTable.allocate`                   reserves the least handle that is not in use;
* `HandleTable.bind`                       binds a variable to a handle;
* `HandleTable.place`                      the two together, for a new variable;
* `HandleTable.find?`, `modify`, `erase`   the variable behind an id;
* `HandleTable.look`                       finds it and remembers where;
* `HandleTable.modifyEach`, `modifyAll`    several variables, every variable;
* `HandleTable.beginLoad`, `endLoad`       setting the slots aside and taking them back.

Ids are reduced to their handles by every operation but `hasHandle`.
-/

namespace ScriptVars

/-- members say what a list in a strict order is -/
theorem eq_of_pairwise_of_mem {α : Type} {r : α → α → Prop} (hr : ∀ a b, r a b → ¬ r b a)
    {l m : List α} (hl : l.Pairwise r) (hm : m.Pairwise r) (h : ∀ a, a ∈ l ↔ a ∈ m) : l = m := by
  have hnodup : ∀ {l : List α}, l.Pairwise r → l.Nodup := fun hl => hl.imp fun {a b} hab e => by
    subst e
    exact hr a a hab hab
  have hperm : l.Perm m := (List.perm_ext_iff_of_nodup (hnodup hl) (hnodup hm)).2 h
  exact hperm.eq_of_pairwise (fun a b _ _ hab hba => absurd hba (hr a b hab)) hl hm

/-- slots by handle, and those set aside while a save is loaded -/
structure HandleTable (α : Type) where
  slots : Slots α
  aside : Option (Slots α)
  /-- the handle found last, with its cell -/
  recent : Option (UInt32 × Nat)
  index_of_recent : ∀ h key, recent = some (h, key) → slots.index[h]? = some key
  deriving DecidableEq, Repr

namespace HandleTable

variable {α : Type}

def empty : HandleTable α := ⟨.empty, none, none, nofun⟩

/-! ### looking up -/

def cell? (t : HandleTable α) (id : UInt32) : Option Nat :=
  let handle := handleOf id
  if handle = 0 then none
  else
    match t.recent with
    | some (h, key) => if h = handle then some key else t.slots.index[handle]?
    | none => t.slots.index[handle]?

/-- no handle is zero -/
theorem index_zero (s : Slots α) : s.index[(0 : UInt32)]? = none :=
  Std.ExtTreeMap.getElem?_eq_none fun h => (s.valid.isHandle h).1 rfl

/-- what is remembered is what the index says -/
theorem cell?_eq (t : HandleTable α) (id : UInt32) : t.cell? id = t.slots.index[handleOf id]? := by
  rw [cell?]
  split
  · next h => rw [h, index_zero]
  · split
    · next h key hr =>
      split
      · next e => exact e ▸ (t.index_of_recent h key hr).symm
      · rfl
    · rfl

def find? (t : HandleTable α) (id : UInt32) : Option α := (t.cell? id).bind t.slots.slab.get?

def contains (t : HandleTable α) (id : UInt32) : Bool := (t.cell? id).isSome

/-- whether a variable has just this number, reserved bits included -/
def hasHandle (t : HandleTable α) (h : UInt32) : Bool := t.slots.index.contains h

/-- remembers where the variable behind an id is -/
def remember (t : HandleTable α) (id : UInt32) : HandleTable α :=
  match h : t.cell? id with
  | none => t
  | some key =>
    { t with
      recent := some (handleOf id, key)
      index_of_recent := fun _ _ e => by cases e; rw [← cell?_eq, h] }

/-- the variable behind an id, which is remembered -/
def look (t : HandleTable α) (id : UInt32) : Option α × HandleTable α := (t.find? id, t.remember id)

theorem find?_eq (t : HandleTable α) (id : UInt32) : t.find? id = t.slots.find? (handleOf id) := by
  rw [find?, cell?_eq]
  rfl

theorem find?_congr (t : HandleTable α) {i j : UInt32} (h : handleOf i = handleOf j) :
    t.find? i = t.find? j := by rw [find?_eq, find?_eq, h]

theorem find?_eq_none_of_zero (t : HandleTable α) {id : UInt32} (h : handleOf id = 0) :
    t.find? id = none := by
  rw [find?, cell?_eq, h, index_zero]
  rfl

theorem handleOf_ne_zero {t : HandleTable α} {id : UInt32} (h : (t.find? id).isSome) :
    handleOf id ≠ 0 := by
  intro hz
  rw [t.find?_eq_none_of_zero hz] at h
  cases h

theorem contains_eq (t : HandleTable α) (id : UInt32) : t.contains id = (t.find? id).isSome := by
  rw [contains, cell?_eq, find?_eq, SlotData.find?]
  cases h : t.slots.index[handleOf id]? with
  | none => rfl
  | some key => exact (t.slots.valid.occupied _ key h).symm

theorem hasHandle_eq (t : HandleTable α) (h : UInt32) :
    t.hasHandle h = (handleOf h == h && t.contains h) := by
  rw [hasHandle, contains, cell?_eq]
  by_cases e : handleOf h = h
  · rw [e, beq_self_eq_true, Bool.true_and, Std.ExtTreeMap.isSome_getElem?_eq_contains]
  · rw [beq_false_of_ne e, Bool.false_and, Bool.eq_false_iff, Ne, Std.ExtTreeMap.contains_iff_mem]
    exact fun hm => e (handleOf_eq_self (t.slots.valid.isHandle hm).2)

theorem slots_remember (t : HandleTable α) (id : UInt32) : (t.remember id).slots = t.slots := by
  rw [remember]
  split <;> rfl

theorem aside_remember (t : HandleTable α) (id : UInt32) : (t.remember id).aside = t.aside := by
  rw [remember]
  split <;> rfl

/-! ### changing -/

/-- reserves the least handle that is not in use -/
def allocate (t : HandleTable α) : Except Failure (UInt32 × HandleTable α) :=
  match h : t.slots.allocate with
  | some (handle, slots) =>
    .ok (handle, { t with
      slots
      index_of_recent := fun x key e => by
        rw [Slots.index_allocate h]
        exact t.index_of_recent x key e })
  | none => .error .exhausted

/-- binds a variable to the handle of an id; a variable that was there is replaced and leaves its
temporary flag behind -/
def bind (t : HandleTable α) (id : UInt32) (value : α) : Except Failure (HandleTable α) :=
  if h : handleOf id = 0 then .error (.invalidHandle id)
  else
    .ok { t with
      slots := t.slots.bind (handleOf id) (isHandle_handleOf h) value
      recent := some (handleOf id, t.slots.cellFor (handleOf id))
      index_of_recent := fun _ _ e => by
        cases e
        exact (SlotData.index_bind _ _ _ _).trans (if_pos rfl) }

/-- gives a new variable the least free handle -/
def place (value : α) : Action (HandleTable α) UInt32 := do
  let (handle, reserved) ← Action.demand (← get).allocate
  set reserved
  set (← Action.demand (reserved.bind handle value))
  return handle

/-- changes the variable behind an id, if there is one, and remembers it -/
def modify (t : HandleTable α) (id : UInt32) (f : α → α) : HandleTable α :=
  match h : t.cell? id with
  | none => t
  | some key =>
    { t with
      slots := t.slots.modify key f
      recent := some (handleOf id, key)
      index_of_recent := fun _ _ e => by
        cases e
        exact (t.cell?_eq id).symm.trans h }

/-- changes several variables, each by a value of its own -/
def modifyEach {β : Type} (t : HandleTable α) (changes : HandleMap β) (f : β → α → α) :
    HandleTable α :=
  changes.foldl (fun t handle b => t.modify handle (f b)) t

/-- the handles of variables, ascending -/
def handles (t : HandleTable α) : List UInt32 := t.slots.index.keys

def modifyAll (t : HandleTable α) (f : α → α) : HandleTable α :=
  t.handles.foldl (fun t handle => t.modify handle f) t

/-- removes the variable behind an id and frees its handle; a reserved handle stays reserved -/
def erase (t : HandleTable α) (id : UInt32) : HandleTable α where
  slots := t.slots.remove (handleOf id)
  aside := t.aside
  recent := t.recent.filter fun p => p.1 != handleOf id
  index_of_recent h key e := by
    obtain ⟨e, hne⟩ := Option.filter_eq_some_iff.1 e
    exact (SlotData.index_remove _ _ _).trans
      ((if_neg (Ne.symm (bne_iff_ne.1 hne))).trans (t.index_of_recent h key e))

def markTemporary (t : HandleTable α) (id : UInt32) (temporary : Bool) : HandleTable α :=
  { t with
    slots := t.slots.mark (handleOf id) temporary
    index_of_recent := fun h key e => by
      rw [Slots.index_mark]
      exact t.index_of_recent h key e }

def isTemporary (t : HandleTable α) (id : UInt32) : Bool :=
  t.slots.temporaries.contains (handleOf id)

def temporaries (t : HandleTable α) : List UInt32 := t.slots.temporaries.toList

/-- handles and variables, ascending -/
def toList (t : HandleTable α) : List (UInt32 × α) := t.slots.toList

/-- what a function makes of the variables, by their handles -/
def toMap {β : Type} (t : HandleTable α) (f : α → β) : HandleMap β :=
  t.slots.index.filterMap fun _ key => (t.slots.slab.get? key).map f

def size (t : HandleTable α) : Nat := t.slots.index.size

/-- sets the slots aside and leaves none; slots that are aside already stay there -/
def beginLoad (t : HandleTable α) : HandleTable α :=
  ⟨.empty, some (t.aside.getD t.slots), none, nofun⟩

/-- ends a load: keeps what was loaded, or takes back what was set aside -/
def endLoad (t : HandleTable α) (success : Bool) : HandleTable α :=
  match t.aside with
  | none => t
  | some saved => if success then { t with aside := none } else ⟨saved, none, none, nofun⟩

def isLoading (t : HandleTable α) : Bool := t.aside.isSome

/-! ### variables after a change -/

theorem find?_empty (i : UInt32) : (empty : HandleTable α).find? i = none := by
  rw [find?_eq]
  exact SlotData.find?_empty _

theorem find?_modify (t : HandleTable α) (id i : UInt32) (f : α → α) :
    (t.modify id f).find? i =
      if handleOf id = handleOf i then (t.find? i).map f else t.find? i := by
  rw [find?_eq, find?_eq, modify]
  split
  · next h =>
    rw [cell?_eq] at h
    split
    · next e =>
      rw [SlotData.find?, ← e, h]
      rfl
    · rfl
  · next key h =>
    rw [cell?_eq] at h
    exact t.slots.valid.find?_modify h (handleOf i) f

theorem find?_foldl_modify_of_ne {β : Type} {f : β → α → α} {i : UInt32}
    {changes : List (UInt32 × β)} (hne : ∀ p ∈ changes, handleOf p.1 ≠ handleOf i)
    (t : HandleTable α) :
    (changes.foldl (fun t p => t.modify p.1 (f p.2)) t).find? i = t.find? i := by
  induction changes generalizing t with
  | nil => rfl
  | cons p changes ih =>
    rw [List.foldl_cons, ih fun q hq => hne q (List.mem_cons_of_mem _ hq), find?_modify,
      if_neg (hne p List.mem_cons_self)]

theorem find?_foldl_modify_of_mem {β : Type} {f : β → α → α} {i h : UInt32} {b : β}
    {changes : List (UInt32 × β)}
    (hd : changes.Pairwise fun p q => handleOf p.1 ≠ handleOf q.1)
    (hm : (h, b) ∈ changes) (hi : handleOf h = handleOf i) (t : HandleTable α) :
    (changes.foldl (fun t p => t.modify p.1 (f p.2)) t).find? i = (t.find? i).map (f b) := by
  induction changes generalizing t with
  | nil => cases hm
  | cons p changes ih =>
    obtain ⟨hp, hd⟩ := List.pairwise_cons.1 hd
    rw [List.foldl_cons]
    rcases List.mem_cons.1 hm with rfl | hm
    · rw [find?_foldl_modify_of_ne fun q hq e => hp q hq (hi.trans e.symm), find?_modify, if_pos hi]
    · rw [ih hd hm, find?_modify, if_neg fun e => hp _ hm (e.trans hi.symm)]

/-- changes are made behind handles, so no two of them are made to one variable -/
theorem find?_modifyEach {β : Type} (t : HandleTable α) {changes : HandleMap β}
    (hc : ∀ h ∈ changes, handleOf h = h) (f : β → α → α) (i : UInt32) :
    (t.modifyEach changes f).find? i =
      match changes[handleOf i]? with
      | some b => (t.find? i).map (f b)
      | none => t.find? i := by
  have hself : ∀ p ∈ changes.toList, handleOf p.1 = p.1 := fun p hp => by
    refine hc p.1 (Std.ExtTreeMap.mem_iff_isSome_getElem?.2 ?_)
    rw [Std.ExtTreeMap.mem_toList_iff_getElem?_eq_some.1 (show (p.1, p.2) ∈ _ from hp)]
    rfl
  rw [modifyEach, Std.ExtTreeMap.foldl_eq_foldl_toList]
  split
  · next b hb =>
    have hm := Std.ExtTreeMap.mem_toList_iff_getElem?_eq_some.2 hb
    refine find?_foldl_modify_of_mem ?_ hm (hself _ hm) t
    refine changes.distinct_keys_toList.imp_of_mem fun hp hq hne he => hne ?_
    rw [hself _ hp, hself _ hq] at he
    exact compareHandles_eq_iff.2 he
  · next hn =>
    refine find?_foldl_modify_of_ne (fun p hp he => ?_) t
    have hp' : (p.1, p.2) ∈ changes.toList := hp
    rw [Std.ExtTreeMap.mem_toList_iff_getElem?_eq_some, ← hself p hp, he, hn] at hp'
    cases hp'

theorem find?_bind {t t' : HandleTable α} {id : UInt32} {value : α}
    (hb : t.bind id value = .ok t') (i : UInt32) :
    t'.find? i = if handleOf id = handleOf i then some value else t.find? i := by
  rw [bind] at hb
  split at hb
  · cases hb
  · cases hb
    rw [find?_eq, find?_eq]
    exact t.slots.valid.find?_bind (handleOf id) (handleOf i) value

theorem find?_erase (t : HandleTable α) (id i : UInt32) :
    (t.erase id).find? i = if handleOf id = handleOf i then none else t.find? i := by
  rw [find?_eq, find?_eq]
  exact t.slots.valid.find?_remove (handleOf id) (handleOf i)

theorem find?_markTemporary (t : HandleTable α) (id i : UInt32) (temporary : Bool) :
    (t.markTemporary id temporary).find? i = t.find? i := by
  rw [find?_eq, find?_eq]
  show (t.slots.toSlotData.mark (handleOf id) temporary).find? _ = _
  rw [SlotData.mark]
  split <;> rfl

theorem find?_remember (t : HandleTable α) (id i : UInt32) :
    (t.remember id).find? i = t.find? i := by
  rw [find?_eq, find?_eq, slots_remember]

/-! ### handles in use -/

/-- whether a handle may be handed out -/
def IsFree (t : HandleTable α) (h : UInt32) : Prop := IsHandle h ∧ t.slots.IsFree h.toNat

theorem mem_index_iff (t : HandleTable α) {h : UInt32} :
    h ∈ t.slots.index ↔ handleOf h = h ∧ (t.find? h).isSome := by
  constructor
  · intro hm
    have hs := handleOf_eq_self (t.slots.valid.isHandle hm).2
    rw [find?_eq, hs]
    exact ⟨rfl, t.slots.valid.find?_isSome.2 hm⟩
  · rintro ⟨hs, hf⟩
    rw [find?_eq, hs] at hf
    exact t.slots.valid.find?_isSome.1 hf

/-- bound handles are in use -/
theorem find?_eq_none_of_isFree {t : HandleTable α} {h : UInt32} (hf : t.IsFree h) :
    t.find? h = none := by
  rw [← Option.not_isSome_iff_eq_none]
  intro hs
  exact t.slots.valid.not_isFree (t.mem_index_iff.2 ⟨handleOf_eq_self hf.1.2, hs⟩) hf.2

theorem isFree_empty (h : UInt32) : (empty : HandleTable α).IsFree h ↔ IsHandle h :=
  ⟨And.left, fun hh => ⟨hh, (SlotData.isFree_empty _).2 hh.toNat_pos⟩⟩

theorem isFree_bind {t t' : HandleTable α} {id : UInt32} {value : α}
    (hb : t.bind id value = .ok t') (h : UInt32) : t'.IsFree h ↔ t.IsFree h ∧ h ≠ handleOf id := by
  rw [bind] at hb
  split at hb
  · cases hb
  · cases hb
    rw [IsFree, IsFree, Ne, ← UInt32.toNat_inj, and_assoc]
    exact and_congr_right fun _ => t.slots.valid.isFree_bind (handleOf id) value h.toNat

theorem isFree_modify (t : HandleTable α) (id : UInt32) (f : α → α) (h : UInt32) :
    (t.modify id f).IsFree h ↔ t.IsFree h := by
  rw [modify]
  split <;> exact Iff.rfl

/-- erasing a variable makes its handle free -/
theorem isFree_erase (t : HandleTable α) (id h : UInt32) :
    (t.erase id).IsFree h ↔ t.IsFree h ∨ (h = handleOf id ∧ (t.find? id).isSome) := by
  have hm : (t.find? id).isSome ↔ handleOf id ∈ t.slots.index := by
    rw [find?_eq]
    exact t.slots.valid.find?_isSome
  show IsHandle h ∧ (t.slots.toSlotData.remove (handleOf id)).IsFree h.toNat ↔ _
  rw [SlotData.isFree_remove, IsFree, hm, UInt32.toNat_inj]
  constructor
  · rintro ⟨hh, hf | ⟨hi, e⟩⟩
    · exact .inl ⟨hh, hf⟩
    · exact .inr ⟨e, hi⟩
  · rintro (⟨hh, hf⟩ | ⟨rfl, hi⟩)
    · exact ⟨hh, .inl hf⟩
    · exact ⟨t.slots.valid.isHandle hi, .inr ⟨hi, rfl⟩⟩

theorem isFree_markTemporary (t : HandleTable α) (id : UInt32) (temporary : Bool) (h : UInt32) :
    (t.markTemporary id temporary).IsFree h ↔ t.IsFree h := by
  show IsHandle h ∧ (t.slots.toSlotData.mark (handleOf id) temporary).IsFree h.toNat ↔ _
  rw [SlotData.mark]
  split <;> exact Iff.rfl

/-! ### handing out -/

/-- what handing out a handle does: it takes the least free one and changes nothing else -/
structure Reserves (t : HandleTable α) (h : UInt32) (t' : HandleTable α) : Prop where
  free : t.IsFree h
  least : ∀ i, t.IsFree i → h.toNat ≤ i.toNat
  isFree_iff : ∀ i, t'.IsFree i ↔ t.IsFree i ∧ i ≠ h
  slab_eq : t'.slots.slab = t.slots.slab
  index_eq : t'.slots.index = t.slots.index
  temporaries_eq : t'.slots.temporaries = t.slots.temporaries
  aside_eq : t'.aside = t.aside

theorem reserves_of_allocate {t t' : HandleTable α} {h : UInt32}
    (ha : t.allocate = .ok (h, t')) : t.Reserves h t' := by
  rw [allocate] at ha
  split at ha
  · next handle slots hs =>
    cases ha
    obtain ⟨n, hn, rfl⟩ := Slots.allocate_eq_some hs
    obtain ⟨-, ⟨hf, hpos, hlt⟩, hle, hfree, hslab, hindex, htemp⟩ := t.slots.valid.allocate_some hn
    have hto := toNat_ofNat_handle hlt
    refine
      { free := ⟨isHandle_ofNat hpos hlt, hto.symm ▸ hf⟩
        least := fun i hi => by rw [hto]; exact hle _ hi.1.toNat_pos hi.2
        isFree_iff := fun i => ?_
        slab_eq := hslab, index_eq := hindex, temporaries_eq := htemp, aside_eq := rfl }
    have hne : i ≠ UInt32.ofNat n ↔ i.toNat ≠ n := by rw [Ne, ← UInt32.toNat_inj, hto]
    rw [IsFree, IsFree, and_assoc, hne]
    exact and_congr_right fun hi => hfree _ hi.toNat_pos
  · cases ha

/-- nothing is handed out only when no handle is free -/
theorem allocate_eq_error {t : HandleTable α} {f : Failure} (ha : t.allocate = .error f) :
    f = .exhausted ∧ ∀ h, ¬ t.IsFree h := by
  rw [allocate] at ha
  split at ha
  · cases ha
  · next hn =>
    cases ha
    exact ⟨rfl, fun h hf => SlotData.not_isFree_of_allocate (Slots.allocate_eq_none hn) hf.1.2 hf.2⟩

theorem Reserves.find? {t t' : HandleTable α} {h : UInt32} (hr : t.Reserves h t') (i : UInt32) :
    t'.find? i = t.find? i := by
  rw [find?_eq, find?_eq, SlotData.find?, SlotData.find?, hr.slab_eq, hr.index_eq]

/-- a handle that was handed out can be bound -/
theorem Reserves.handleOf_eq {t t' : HandleTable α} {h : UInt32} (hr : t.Reserves h t') :
    handleOf h = h := handleOf_eq_self hr.free.1.2

/-! ### temporary flags -/

/-- only variables are temporary -/
theorem find?_isSome_of_isTemporary {t : HandleTable α} {i : UInt32} (h : t.isTemporary i = true) :
    (t.find? i).isSome := by
  rw [find?_eq]
  exact t.slots.valid.find?_isSome.2
    (t.slots.valid.temporary_bound _ (Std.ExtTreeSet.contains_iff_mem.1 h))

theorem isTemporary_congr {t t' : HandleTable α} (h : t'.slots.temporaries = t.slots.temporaries)
    (i : UInt32) : t'.isTemporary i = t.isTemporary i := by
  rw [isTemporary, isTemporary, h]

theorem temporaries_bind {t t' : HandleTable α} {id : UInt32} {value : α}
    (hb : t.bind id value = .ok t') : t'.slots.temporaries = t.slots.temporaries := by
  rw [bind] at hb
  split at hb
  · cases hb
  · cases hb
    rfl

theorem temporaries_modify (t : HandleTable α) (id : UInt32) (f : α → α) :
    (t.modify id f).slots.temporaries = t.slots.temporaries := by
  rw [modify]
  split <;> rfl

theorem isTemporary_erase (t : HandleTable α) (id i : UInt32) :
    (t.erase id).isTemporary i = if handleOf id = handleOf i then false else t.isTemporary i := by
  have hm := t.slots.valid.mem_temporaries_remove (handleOf id) (handleOf i)
  rw [Bool.eq_iff_iff, isTemporary, Std.ExtTreeSet.contains_iff_mem, isTemporary]
  refine hm.trans ?_
  by_cases e : handleOf id = handleOf i
  · simp only [e, ne_eq, not_true_eq_false, false_and, if_true, Bool.false_eq_true]
  · simp only [e, ne_eq, not_false_eq_true, true_and, if_false, Std.ExtTreeSet.contains_iff_mem]

theorem isTemporary_markTemporary (t : HandleTable α) (id i : UInt32) (temporary : Bool) :
    (t.markTemporary id temporary).isTemporary i =
      if handleOf id = handleOf i ∧ (t.find? i).isSome then temporary else t.isTemporary i := by
  have hb : (t.find? i).isSome ↔ handleOf i ∈ t.slots.index := by
    rw [find?_eq]
    exact t.slots.valid.find?_isSome
  have hm := t.slots.mem_temporaries_mark (handleOf id) (handleOf i) temporary
  rw [Bool.eq_iff_iff, isTemporary, Std.ExtTreeSet.contains_iff_mem, isTemporary]
  refine hm.trans ?_
  by_cases e : handleOf id = handleOf i ∧ (t.find? i).isSome
  · have hi := hb.1 e.2
    simp only [e, hi, and_self, if_true, true_and, not_true_eq_false, false_and, or_false]
  · have hi : ¬ (handleOf id = handleOf i ∧ handleOf id ∈ t.slots.index) := fun ⟨e₁, e₂⟩ =>
      e ⟨e₁, hb.2 (e₁ ▸ e₂)⟩
    simp only [e, if_false, hi, not_false_eq_true, true_and, ← and_assoc, false_and, false_or,
      Std.ExtTreeSet.contains_iff_mem]

theorem aside_bind {t t' : HandleTable α} {id : UInt32} {value : α}
    (hb : t.bind id value = .ok t') : t'.aside = t.aside := by
  rw [bind] at hb
  split at hb
  · cases hb
  · cases hb
    rfl

theorem aside_modify (t : HandleTable α) (id : UInt32) (f : α → α) :
    (t.modify id f).aside = t.aside := by
  rw [modify]
  split <;> rfl

/-! ### new variables -/

theorem exists_bind (t : HandleTable α) (id : UInt32) (value : α) (hz : handleOf id ≠ 0) :
    ∃ u, t.bind id value = .ok u := ⟨_, dif_neg hz⟩

theorem Reserves.exists_bind {t t' : HandleTable α} {h : UInt32} (hr : t.Reserves h t')
    (value : α) : ∃ u, t'.bind h value = .ok u :=
  t'.exists_bind h value (hr.handleOf_eq.symm ▸ hr.free.1.1)

theorem place_eq_ok {t t' : HandleTable α} {value : α} {h : UInt32} :
    place value t = .ok h t' ↔
      ∃ reserved, t.allocate = .ok (h, reserved) ∧ reserved.bind h value = .ok t' := by
  simp only [place, Action.bind_eq_ok, Action.get_eq_ok, Action.demand_eq_ok, Action.set_eq_ok,
    Action.pure_eq_ok]
  constructor
  · rintro ⟨_, _, ⟨rfl, rfl⟩, ⟨x, reserved⟩, _, ⟨ha, rfl⟩, _, _, rfl, _, _, ⟨hb, rfl⟩, _, _, rfl, rfl,
      rfl⟩
    exact ⟨_, ha, hb⟩
  · rintro ⟨reserved, ha, hb⟩
    exact ⟨_, _, ⟨rfl, rfl⟩, _, _, ⟨ha, rfl⟩, ⟨⟩, _, rfl, _, _, ⟨hb, rfl⟩, ⟨⟩, _, rfl, rfl, rfl⟩

theorem atomic_place (value : α) : Action.Atomic (place value) := by
  refine Action.reads_get.bind_atomic fun t₀ => ?_
  intro t f t' h
  rcases Action.bind_eq_error.1 h with h | ⟨⟨x, reserved⟩, t₁, ha, h⟩
  · exact (Action.reads_demand _).error h
  · -- nothing after this is refused
    obtain ⟨u, hu⟩ := (reserves_of_allocate (Action.demand_eq_ok.1 ha).1).exists_bind value
    simp only [hu] at h
    have hlast : ∀ v, Action.Succeeds (set v >>= fun _ => pure x : Action (HandleTable α) UInt32) :=
      fun v => (Action.succeeds_set v).bind fun _ => Action.succeeds_pure x
    have hall := (Action.succeeds_set reserved).bind fun _ => (Action.succeeds_pure u).bind hlast
    exact (hall h).elim

/-- what putting in a new variable does: it goes behind the least free handle -/
structure Places (t : HandleTable α) (value : α) (h : UInt32) (t' : HandleTable α) : Prop where
  free : t.IsFree h
  least : ∀ i, t.IsFree i → h.toNat ≤ i.toNat
  find? : ∀ i, t'.find? i = if h = handleOf i then some value else t.find? i
  isFree_iff : ∀ i, t'.IsFree i ↔ t.IsFree i ∧ i ≠ h
  temporaries_eq : t'.slots.temporaries = t.slots.temporaries
  aside_eq : t'.aside = t.aside

theorem places_of_place {t t' : HandleTable α} {value : α} {h : UInt32}
    (hp : place value t = .ok h t') : t.Places value h t' := by
  obtain ⟨reserved, ha, hb⟩ := place_eq_ok.1 hp
  have hr := reserves_of_allocate ha
  refine
    { free := hr.free, least := hr.least
      find? := fun i => ?_
      isFree_iff := fun i => ?_
      temporaries_eq := (temporaries_bind hb).trans hr.temporaries_eq
      aside_eq := (aside_bind hb).trans hr.aside_eq }
  · rw [find?_bind hb, hr.handleOf_eq, hr.find?]
  · rw [isFree_bind hb, hr.handleOf_eq, hr.isFree_iff]
    exact ⟨And.left, fun h => ⟨h, h.2⟩⟩

/-! ### lists -/

theorem mem_toList {t : HandleTable α} {h : UInt32} {value : α} :
    (h, value) ∈ t.toList ↔ handleOf h = h ∧ t.find? h = some value := by
  rw [toList, Slots.mem_toList]
  constructor
  · intro hf
    have hm := t.slots.valid.find?_isSome.1 (Option.isSome_of_eq_some hf)
    have hs := handleOf_eq_self (t.slots.valid.isHandle hm).2
    rw [find?_eq, hs]
    exact ⟨rfl, hf⟩
  · rintro ⟨hs, hf⟩
    rwa [find?_eq, hs] at hf

theorem handleOf_mem_toList {t : HandleTable α} {id : UInt32} {value : α} :
    (handleOf id, value) ∈ t.toList ↔ t.find? id = some value := by
  rw [mem_toList, t.find?_congr (handleOf_handleOf id)]
  exact and_iff_right (handleOf_handleOf id)

theorem handle_of_mem_toList {t : HandleTable α} {p : UInt32 × α} (hp : p ∈ t.toList) :
    handleOf p.1 = p.1 ∧ p.1 ≠ 0 := by
  obtain ⟨hself, hf⟩ := mem_toList.1 hp
  refine ⟨hself, fun hz => ?_⟩
  rw [t.find?_eq_none_of_zero (hself.trans hz)] at hf
  cases hf

theorem ascending_toList (t : HandleTable α) :
    t.toList.Pairwise fun p q => p.1.toNat < q.1.toNat := t.slots.ascending_toList

theorem eq_of_ascending {β : Type} {l m : List (UInt32 × β)}
    (hl : l.Pairwise fun p q => p.1.toNat < q.1.toNat)
    (hm : m.Pairwise fun p q => p.1.toNat < q.1.toNat) (h : ∀ p, p ∈ l ↔ p ∈ m) : l = m :=
  eq_of_pairwise_of_mem (fun _ _ => Nat.lt_asymm) hl hm h

/-- there is a table of any variables with handles of their own -/
theorem exists_toList_eq {l : List (UInt32 × α)}
    (hl : l.Pairwise fun p q => p.1.toNat < q.1.toNat)
    (hh : ∀ p ∈ l, handleOf p.1 = p.1 ∧ p.1 ≠ 0) : ∃ t : HandleTable α, t.toList = l := by
  suffices h : ∃ t : HandleTable α, ∀ p, p ∈ t.toList ↔ p ∈ l from
    h.imp fun t ht => eq_of_ascending t.ascending_toList hl ht
  induction l with
  | nil => exact ⟨.empty, fun _ => iff_of_false nofun nofun⟩
  | cons p l ih =>
    obtain ⟨hlt, hl⟩ := List.pairwise_cons.1 hl
    obtain ⟨t, ht⟩ := ih hl fun q hq => hh q (List.mem_cons_of_mem _ hq)
    obtain ⟨hself, hz⟩ := hh p List.mem_cons_self
    obtain ⟨u, hu⟩ := t.exists_bind p.1 p.2 (hself.symm ▸ hz)
    refine ⟨u, fun ⟨i, a⟩ => ?_⟩
    rw [mem_toList, find?_bind hu, hself, List.mem_cons]
    by_cases e : p.1 = i
    · subst e
      have hno : (p.1, a) ∉ l := fun hm => Nat.lt_irrefl p.1.toNat (hlt (p.1, a) hm)
      rw [hself, if_pos rfl, or_iff_left hno]
      exact ⟨fun h => Prod.ext rfl (Option.some.inj h.2).symm, fun h => ⟨rfl, h ▸ rfl⟩⟩
    · have hne : (i, a) ≠ p := fun h => e (h ▸ rfl)
      rw [or_iff_right hne, ← ht, mem_toList]
      refine and_congr_right fun hi => ?_
      rw [hi, if_neg e]

/-- a variable beside those that are chosen without it -/
theorem cons_filter_perm {t : HandleTable α} {id : UInt32} {a : α} (hm : (id, a) ∈ t.toList)
    {P Q : UInt32 → Prop} [DecidablePred P] [DecidablePred Q] (hP : P id)
    (hQ : ∀ i, Q i ↔ i ≠ id ∧ P i) :
    ((id, a) :: t.toList.filter fun p => Q p.1).Perm (t.toList.filter fun p => P p.1) := by
  have hnodup : t.toList.Nodup := by
    refine t.ascending_toList.imp fun {p q} hlt e => ?_
    exact Nat.ne_of_lt hlt (congrArg (fun p => p.1.toNat) e)
  refine (List.perm_ext_iff_of_nodup ?_ (hnodup.filter _)).2 fun ⟨h, b⟩ => ?_
  · refine List.nodup_cons.2 ⟨fun hin => ?_, hnodup.filter _⟩
    exact ((hQ id).1 (of_decide_eq_true (List.mem_filter.1 hin).2)).1 rfl
  · rw [List.mem_cons, List.mem_filter, List.mem_filter, decide_eq_true_eq, decide_eq_true_eq, hQ]
    constructor
    · rintro (e | ⟨hin, -, hg⟩)
      · cases e
        exact ⟨hm, hP⟩
      · exact ⟨hin, hg⟩
    · rintro ⟨hin, hg⟩
      by_cases e : h = id
      · subst e
        obtain rfl : b = a :=
          Option.some.inj ((mem_toList.1 hin).2.symm.trans (mem_toList.1 hm).2)
        exact .inl rfl
      · exact .inr ⟨hin, e, hg⟩

/-- the variables say what the list is -/
theorem toList_congr {t t' : HandleTable α} (h : ∀ i, t.find? i = t'.find? i) :
    t.toList = t'.toList := by
  refine eq_of_ascending t.ascending_toList t'.ascending_toList fun ⟨i, a⟩ => ?_
  rw [mem_toList, mem_toList, h]

/-- variables that others are made of are listed in their order -/
theorem toList_filterMap {β : Type} {t : HandleTable α} {u : HandleTable β} {f : α → Option β}
    (h : ∀ i, u.find? i = (t.find? i).bind f) :
    u.toList = t.toList.filterMap fun p => (f p.2).map (Prod.mk p.1) := by
  have hlist : (t.toList.filterMap fun p => (f p.2).map (Prod.mk p.1)).Pairwise
      fun p q => p.1.toNat < q.1.toNat := by
    refine List.pairwise_filterMap.2 (t.ascending_toList.imp fun {p q} hlt => ?_)
    intro p' hp q' hq
    obtain ⟨_, -, rfl⟩ := Option.map_eq_some_iff.1 hp
    obtain ⟨_, -, rfl⟩ := Option.map_eq_some_iff.1 hq
    exact hlt
  refine eq_of_ascending u.ascending_toList hlist fun ⟨i, b⟩ => ?_
  rw [mem_toList, h, List.mem_filterMap, Option.bind_eq_some_iff]
  constructor
  · rintro ⟨hi, a, ha, hb⟩
    exact ⟨(i, a), mem_toList.2 ⟨hi, ha⟩, congrArg (Option.map _) hb⟩
  · rintro ⟨⟨j, a⟩, hm, hb⟩
    obtain ⟨_, hb, e⟩ := Option.map_eq_some_iff.1 hb
    cases e
    obtain ⟨hi, ha⟩ := mem_toList.1 hm
    exact ⟨hi, a, ha, hb⟩

theorem getElem?_toMap {β : Type} (t : HandleTable α) (f : α → β) (i : UInt32) :
    (t.toMap f)[handleOf i]? = (t.find? i).map f := by
  rw [toMap, Std.ExtTreeMap.getElem?_filterMap, find?_eq, SlotData.find?]
  cases t.slots.index[handleOf i]? <;> rfl

theorem getElem?_toMap_eq {β : Type} (t : HandleTable α) (f : α → β) (i : UInt32) :
    (t.toMap f)[i]? = if handleOf i = i then (t.find? i).map f else none := by
  split
  · next hi =>
    have hm := t.getElem?_toMap f i
    rwa [hi] at hm
  · next hi =>
    have hn : t.slots.index[i]? = none := Std.ExtTreeMap.getElem?_eq_none fun hm =>
      hi (t.mem_index_iff.1 hm).1
    rw [toMap, Std.ExtTreeMap.getElem?_filterMap, hn]
    rfl

theorem handles_eq (t : HandleTable α) : t.handles = t.toList.map Prod.fst :=
  t.slots.map_fst_toList.symm

theorem find?_modifyAll (t : HandleTable α) (f : α → α) (i : UInt32) :
    (t.modifyAll f).find? i = (t.find? i).map f := by
  have hfold : t.modifyAll f =
      (t.toList.map fun p => (p.1, ())).foldl (fun t p => t.modify p.1 f) t := by
    rw [modifyAll, handles_eq, List.foldl_map, List.foldl_map]
  have hself : ∀ p ∈ t.toList, handleOf p.1 = p.1 := fun p hp => (mem_toList.1 hp).1
  rw [hfold]
  cases h : t.find? i with
  | none =>
    rw [find?_foldl_modify_of_ne (f := fun _ => f) (fun q hq e => ?_) t, h]
    · rfl
    · obtain ⟨p, hp, rfl⟩ := List.mem_map.1 hq
      have hp' := (mem_toList.1 hp).2
      rw [t.find?_congr e, h] at hp'
      cases hp'
  | some a =>
    rw [find?_foldl_modify_of_mem (f := fun _ => f) (b := ()) ?_ ?_ (handleOf_handleOf i) t, h]
    · refine List.pairwise_map.2 (t.ascending_toList.imp_of_mem fun {p q} hp hq hlt e => ?_)
      have e' : p.1 = q.1 := (hself p hp).symm.trans (e.trans (hself q hq))
      exact Nat.lt_irrefl _ (e' ▸ hlt)
    · exact List.mem_map.2 ⟨(handleOf i, a), handleOf_mem_toList.2 h, rfl⟩

theorem temporaries_modifyAll (t : HandleTable α) (f : α → α) :
    (t.modifyAll f).slots.temporaries = t.slots.temporaries := by
  rw [modifyAll]
  generalize t.handles = l
  induction l generalizing t with
  | nil => rfl
  | cons h l ih => exact (ih (t.modify h f)).trans (t.temporaries_modify h f)

theorem size_eq (t : HandleTable α) : t.size = t.toList.length := by
  have hk : t.handles.length = t.toList.length := by rw [handles_eq, List.length_map]
  rw [← hk]
  exact Std.ExtTreeMap.length_keys.symm

theorem mem_temporaries {t : HandleTable α} {h : UInt32} :
    h ∈ t.temporaries ↔ handleOf h = h ∧ t.isTemporary h = true := by
  rw [temporaries, Std.ExtTreeSet.mem_toList, isTemporary, Std.ExtTreeSet.contains_iff_mem]
  constructor
  · intro hm
    have hs := handleOf_eq_self (t.slots.valid.isHandle (t.slots.valid.temporary_bound h hm)).2
    rw [hs]
    exact ⟨rfl, hm⟩
  · rintro ⟨hs, hm⟩
    rwa [hs] at hm

theorem ascending_temporaries (t : HandleTable α) :
    t.temporaries.Pairwise fun a b => a.toNat < b.toNat := by
  have ho : t.temporaries.Pairwise fun a b => compareHandles a b = .lt :=
    t.slots.temporaries.ordered_toList
  exact ho.imp fun h => Nat.compare_eq_lt.1 h

end HandleTable
end ScriptVars
