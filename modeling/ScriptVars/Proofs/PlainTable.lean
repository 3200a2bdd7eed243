import ScriptVars.HandleTable

/-!
# Handle tables as plain maps

Whatever is asked of a handle table, its answers are those of a finite map with two sets of
handles beside it.  Cells, spans and the handle found last never show.

* `PlainSlots`, `PlainTable`     the map, the temporary handles, those that are only reserved;
* `TableOp`, `TableAnswer`       what can be asked of either, and what comes back;
* `HandleTable.step`, `PlainTable.step`   one operation;
* `Slots.Refines`                slots and the plain slots that they stand for;
* `HandleTable.Refines`          the same for tables; `Refines.step` keeps them together.
-/

namespace ScriptVars

variable {α : Type}

/-! ## The plain map -/

structure PlainSlots (α : Type) where
  bound : HandleMap α
  temporary : HandleSet
  /-- handles that were handed out and are not bound yet -/
  reserved : HandleSet

namespace PlainSlots

def empty : PlainSlots α := ⟨∅, ∅, ∅⟩

def isOpen (p : PlainSlots α) (h : UInt32) : Bool := !p.bound.contains h && !p.reserved.contains h

def least? (p : PlainSlots α) : Option UInt32 :=
  ((List.range' 1 (handleLimit - 1)).find? fun n => p.isOpen (UInt32.ofNat n)).map UInt32.ofNat

theorem isOpen_iff {p : PlainSlots α} {h : UInt32} :
    p.isOpen h ↔ h ∉ p.bound ∧ h ∉ p.reserved := by
  rw [isOpen, Bool.and_eq_true, Bool.not_eq_true', Bool.not_eq_true', Bool.eq_false_iff,
    Bool.eq_false_iff, Ne, Ne, Std.ExtTreeMap.contains_iff_mem, Std.ExtTreeSet.contains_iff_mem]

theorem least?_eq_some {p : PlainSlots α} {h : UInt32} (hh : IsHandle h) (ho : p.isOpen h)
    (hle : ∀ i, IsHandle i → p.isOpen i → h.toNat ≤ i.toNat) : p.least? = some h := by
  rw [least?, Option.map_eq_some_iff]
  have hpos := hh.toNat_pos
  have hlt := hh.2
  refine ⟨h.toNat, List.find?_range'_eq_some.2 ⟨?_, ?_, fun m h₁ h₂ => ?_⟩, UInt32.ofNat_toNat⟩
  · rw [UInt32.ofNat_toNat]
    exact ho
  · rw [List.mem_range'_1]
    omega
  · rw [Bool.not_eq_true', Bool.eq_false_iff]
    intro hm
    have hlt' : m < handleLimit := Nat.lt_trans h₂ hlt
    have := hle _ (isHandle_ofNat h₁ hlt') hm
    rw [toNat_ofNat_handle hlt'] at this
    omega

theorem least?_eq_none {p : PlainSlots α} (hno : ∀ h, IsHandle h → ¬ p.isOpen h) :
    p.least? = none := by
  rw [least?, Option.map_eq_none_iff, List.find?_range'_eq_none]
  intro m h₁ h₂
  rw [Bool.not_eq_true', Bool.eq_false_iff]
  exact hno _ (isHandle_ofNat h₁ (by omega))

def bind (p : PlainSlots α) (h : UInt32) (value : α) : PlainSlots α :=
  { p with bound := p.bound.insert h value, reserved := p.reserved.erase h }

def modify (p : PlainSlots α) (h : UInt32) (f : α → α) : PlainSlots α :=
  { p with bound := p.bound.modify h f }

def remove (p : PlainSlots α) (h : UInt32) : PlainSlots α :=
  { p with bound := p.bound.erase h, temporary := p.temporary.erase h }

def mark (p : PlainSlots α) (h : UInt32) (temporary : Bool) : PlainSlots α :=
  if h ∈ p.bound then
    { p with temporary := if temporary then p.temporary.insert h else p.temporary.erase h }
  else p

end PlainSlots

/-- plain slots, and those set aside while a save is loaded -/
structure PlainTable (α : Type) where
  slots : PlainSlots α
  aside : Option (PlainSlots α)

def PlainTable.empty : PlainTable α := ⟨.empty, none⟩

/-! ## Operations -/

inductive TableOp (α : Type) where
  | allocate
  | insert (id : UInt32) (value : α)
  | get (id : UInt32)
  /-- the variable behind an id is handed out and changed -/
  | getMut (id : UInt32) (f : α → α)
  | contains (id : UInt32)
  | erase (id : UInt32)
  | markTemporary (id : UInt32) (temporary : Bool)
  | isTemporary (id : UInt32)
  | temporaries
  | len
  | isEmpty
  | handles
  | iter
  | reset
  | snapshotForLoad
  | commitLoad (success : Bool)
  | isLoading

/-- whether an operation gives up what is set aside -/
def TableOp.endsLoad : TableOp α → Bool
  | .reset | .commitLoad _ => true
  | _ => false

def TableOp.isSnapshot : TableOp α → Bool
  | .snapshotForLoad => true
  | _ => false

inductive TableAnswer (α : Type) where
  | done
  | handle (h : UInt32)
  | refused (f : Failure)
  | value (a : Option α)
  | flag (b : Bool)
  | size (n : Nat)
  | handles (l : List UInt32)
  | entries (l : List (UInt32 × α))

/-- one operation on a table; what looks up a variable remembers where it is -/
def HandleTable.step (t : HandleTable α) : TableOp α → TableAnswer α × HandleTable α
  | .allocate =>
    match t.allocate with
    | .ok (h, t') => (.handle h, t')
    | .error f => (.refused f, t)
  | .insert id value =>
    match t.bind id value with
    | .ok t' => (.done, t')
    | .error f => (.refused f, t)
  | .get id => (.value (t.look id).1, (t.look id).2)
  | .getMut id f => (.value (t.find? id), t.modify id f)
  | .contains id => (.flag (t.contains id), t.remember id)
  | .erase id => (.value (t.slots.find? (handleOf id)), t.erase id)
  | .markTemporary id temporary => (.done, t.markTemporary id temporary)
  | .isTemporary id => (.flag (t.isTemporary id), t)
  | .temporaries => (.handles t.temporaries, t)
  | .len => (.size t.size, t)
  | .isEmpty => (.flag t.slots.index.isEmpty, t)
  | .handles => (.handles t.handles, t)
  | .iter => (.entries t.toList, t)
  | .reset => (.done, .empty)
  | .snapshotForLoad => (.done, t.beginLoad)
  | .commitLoad success => (.done, t.endLoad success)
  | .isLoading => (.flag t.isLoading, t)

def PlainTable.step (p : PlainTable α) : TableOp α → TableAnswer α × PlainTable α
  | .allocate =>
    match p.slots.least? with
    | some h =>
      (.handle h, { p with slots := { p.slots with reserved := p.slots.reserved.insert h } })
    | none => (.refused .exhausted, p)
  | .insert id value =>
    if handleOf id = 0 then (.refused (.invalidHandle id), p)
    else (.done, { p with slots := p.slots.bind (handleOf id) value })
  | .get id => (.value p.slots.bound[handleOf id]?, p)
  | .getMut id f =>
    (.value p.slots.bound[handleOf id]?, { p with slots := p.slots.modify (handleOf id) f })
  | .contains id => (.flag (p.slots.bound.contains (handleOf id)), p)
  | .erase id =>
    (.value p.slots.bound[handleOf id]?, { p with slots := p.slots.remove (handleOf id) })
  | .markTemporary id temporary => (.done, { p with slots := p.slots.mark (handleOf id) temporary })
  | .isTemporary id => (.flag (p.slots.temporary.contains (handleOf id)), p)
  | .temporaries => (.handles p.slots.temporary.toList, p)
  | .len => (.size p.slots.bound.size, p)
  | .isEmpty => (.flag p.slots.bound.isEmpty, p)
  | .handles => (.handles p.slots.bound.keys, p)
  | .iter => (.entries p.slots.bound.toList, p)
  | .reset => (.done, .empty)
  | .snapshotForLoad => (.done, ⟨.empty, some (p.aside.getD p.slots)⟩)
  | .commitLoad success =>
    (.done, match p.aside with
      | none => p
      | some saved => if success then { p with aside := none } else ⟨saved, none⟩)
  | .isLoading => (.flag p.aside.isSome, p)

/-- the answers to some operations, one after the other -/
def HandleTable.answers (t : HandleTable α) : List (TableOp α) → List (TableAnswer α)
  | [] => []
  | op :: ops => (t.step op).1 :: (t.step op).2.answers ops

def PlainTable.answers (p : PlainTable α) : List (TableOp α) → List (TableAnswer α)
  | [] => []
  | op :: ops => (p.step op).1 :: (p.step op).2.answers ops

/-! ## Slots that stand for plain slots -/

namespace Slots

structure Refines (s : Slots α) (p : PlainSlots α) : Prop where
  find? : ∀ h, s.find? h = p.bound[h]?
  temporaries : s.temporaries = p.temporary
  isFree : ∀ h, IsHandle h → (s.IsFree h.toNat ↔ p.isOpen h)
  not_reserved : ∀ h ∈ p.bound, h ∉ p.reserved

section
variable {s : Slots α} {p : PlainSlots α} (r : s.Refines p)
include r

theorem Refines.mem_index {h : UInt32} : h ∈ s.index ↔ h ∈ p.bound := by
  rw [← s.valid.find?_isSome, r.find?, Std.ExtTreeMap.mem_iff_isSome_getElem?]

theorem Refines.toList_eq : s.toList = p.bound.toList := by
  have hb : p.bound.toList.Pairwise fun a b => a.1.toNat < b.1.toNat :=
    p.bound.ordered_keys_toList.imp fun hlt => Nat.compare_eq_lt.1 hlt
  have hnd : ∀ {l : List (UInt32 × α)}, (l.Pairwise fun a b => a.1.toNat < b.1.toNat) →
      l.Nodup := by
    intro l hl
    refine hl.imp fun {a b} hlt => ?_
    rintro rfl
    exact Nat.lt_irrefl _ hlt
  have hp : s.toList.Perm p.bound.toList := by
    refine (List.perm_ext_iff_of_nodup (hnd s.ascending_toList) (hnd hb)).2 fun ⟨h, a⟩ => ?_
    rw [Slots.mem_toList, Std.ExtTreeMap.mem_toList_iff_getElem?_eq_some, r.find?]
  refine hp.eq_of_pairwise (fun a b _ _ h₁ h₂ => ?_) s.ascending_toList hb
  exact absurd h₁ (Nat.lt_asymm h₂)

theorem Refines.keys_eq : s.index.keys = p.bound.keys := by
  rw [← s.map_fst_toList, r.toList_eq, Std.ExtTreeMap.map_fst_toList_eq_keys]

theorem Refines.size_eq : s.index.size = p.bound.size := by
  rw [← Std.ExtTreeMap.length_keys, r.keys_eq, Std.ExtTreeMap.length_keys]

theorem Refines.isEmpty_eq : s.index.isEmpty = p.bound.isEmpty := by
  rw [Std.ExtTreeMap.isEmpty_eq_size_beq_zero, r.size_eq, Std.ExtTreeMap.isEmpty_eq_size_beq_zero]

end

theorem refines_empty : (empty : Slots α).Refines .empty where
  find? h := by
    show SlotData.find? .empty h = (∅ : HandleMap α)[h]?
    rw [SlotData.find?_empty, Std.ExtTreeMap.getElem?_empty]
  temporaries := rfl
  isFree h hh := by
    have ho : (PlainSlots.empty : PlainSlots α).isOpen h = true := by
      show (!(∅ : HandleMap α).contains h && !(∅ : HandleSet).contains h) = true
      rw [Std.ExtTreeMap.contains_empty, Std.ExtTreeSet.contains_empty]
      rfl
    exact iff_of_true ((SlotData.isFree_empty _).2 hh.toNat_pos) ho
  not_reserved h hm := absurd hm Std.ExtTreeMap.not_mem_empty

/-! ### changes -/

section
variable {s : Slots α} {p : PlainSlots α} (r : s.Refines p)
include r

theorem Refines.bind (h : UInt32) (hh : IsHandle h) (value : α) :
    (s.bind h hh value).Refines (p.bind h value) where
  find? h' := by
    show (s.toSlotData.bind h value).find? h' = (p.bound.insert h value)[h']?
    rw [s.valid.find?_bind, Std.ExtTreeMap.getElem?_insert, r.find?]
    simp only [compareHandles_eq_iff]
  temporaries := r.temporaries
  isFree h' hh' := by
    have hopen : (p.bind h value).isOpen h' ↔ p.isOpen h' ∧ h' ≠ h := by
      rw [PlainSlots.isOpen_iff, PlainSlots.isOpen_iff]
      show h' ∉ p.bound.insert h value ∧ h' ∉ p.reserved.erase h ↔ _
      rw [Std.ExtTreeMap.mem_insert, Std.ExtTreeSet.mem_erase, compareHandles_eq_iff, Ne,
        compareHandles_eq_iff]
      by_cases e : h = h'
      · simp only [e, true_or, not_true_eq_false, false_and, ne_eq, and_false]
      · simp only [e, Ne.symm e, false_or, not_false_eq_true, true_and, ne_eq, and_true]
    rw [hopen, ← r.isFree h' hh', Ne, ← UInt32.toNat_inj]
    exact s.valid.isFree_bind h value h'.toNat
  not_reserved h' hm hr := by
    obtain ⟨hne, hr⟩ := Std.ExtTreeSet.mem_erase.1 hr
    rcases Std.ExtTreeMap.mem_insert.1 hm with e | hm
    · exact hne e
    · exact r.not_reserved h' hm hr

theorem Refines.modify {h : UInt32} {key : Nat} (hk : s.index[h]? = some key) (f : α → α) :
    (s.modify key f).Refines (p.modify h f) where
  find? h' := by
    show (s.toSlotData.modify key f).find? h' = (p.bound.modify h f)[h']?
    rw [s.valid.find?_modify hk, Std.ExtTreeMap.getElem?_modify, r.find?]
    simp only [compareHandles_eq_iff]
    by_cases e : h = h'
    · rw [if_pos e, if_pos e, e]
    · rw [if_neg e, if_neg e]
  temporaries := r.temporaries
  isFree h' hh' := by
    have hopen : (p.modify h f).isOpen h' ↔ p.isOpen h' := by
      rw [PlainSlots.isOpen_iff, PlainSlots.isOpen_iff]
      show h' ∉ p.bound.modify h f ∧ _ ↔ _
      rw [Std.ExtTreeMap.mem_modify]
      rfl
    rw [hopen]
    exact r.isFree h' hh'
  not_reserved h' hm := r.not_reserved h' (Std.ExtTreeMap.mem_modify.1 hm)

/-- a handle that stands for nothing is left as it is -/
theorem Refines.modify_none {h : UInt32} (hk : s.index[h]? = none) (f : α → α) :
    s.Refines (p.modify h f) := by
  have hb : p.bound.modify h f = p.bound := by
    refine Std.ExtTreeMap.ext_getElem? fun h' => ?_
    rw [Std.ExtTreeMap.getElem?_modify]
    split
    · next e =>
      obtain rfl := compareHandles_eq_iff.1 e
      rw [← r.find?, SlotData.find?, hk]
      rfl
    · rfl
  rw [PlainSlots.modify, hb]
  exact r

theorem Refines.remove (h : UInt32) : (s.remove h).Refines (p.remove h) where
  find? h' := by
    show (s.toSlotData.remove h).find? h' = (p.bound.erase h)[h']?
    rw [s.valid.find?_remove, Std.ExtTreeMap.getElem?_erase, r.find?]
    simp only [compareHandles_eq_iff]
  temporaries := by
    refine Std.ExtTreeSet.ext_mem fun h' => ?_
    show h' ∈ (s.toSlotData.remove h).temporaries ↔ h' ∈ p.temporary.erase h
    rw [s.valid.mem_temporaries_remove, Std.ExtTreeSet.mem_erase, r.temporaries, Ne, Ne,
      compareHandles_eq_iff]
  isFree h' hh' := by
    have hopen : (p.remove h).isOpen h' ↔ p.isOpen h' ∨ (h ∈ p.bound ∧ h' = h) := by
      rw [PlainSlots.isOpen_iff, PlainSlots.isOpen_iff]
      show h' ∉ p.bound.erase h ∧ h' ∉ p.reserved ↔ _
      rw [Std.ExtTreeMap.mem_erase, Ne, compareHandles_eq_iff]
      constructor
      · rintro ⟨hb, hr⟩
        by_cases hm : h' ∈ p.bound
        · have e : h = h' := Decidable.byContradiction fun e => hb ⟨e, hm⟩
          exact .inr ⟨e ▸ hm, e.symm⟩
        · exact .inl ⟨hm, hr⟩
      · rintro (⟨hb, hr⟩ | ⟨hm, rfl⟩)
        · exact ⟨fun hm => hb hm.2, hr⟩
        · exact ⟨fun hn => hn.1 rfl, r.not_reserved h' hm⟩
    rw [hopen, ← r.isFree h' hh', ← r.mem_index, ← UInt32.toNat_inj]
    exact s.isFree_remove h h'.toNat
  not_reserved h' hm := r.not_reserved h' (Std.ExtTreeMap.mem_of_mem_erase hm)

theorem Refines.mark (h : UInt32) (temporary : Bool) :
    (s.mark h temporary).Refines (p.mark h temporary) := by
  have hs : (s.mark h temporary).toSlotData = s.toSlotData.mark h temporary := rfl
  rw [SlotData.mark] at hs
  rw [PlainSlots.mark]
  by_cases hm : h ∈ p.bound
  · rw [if_pos hm]
    rw [if_pos (r.mem_index.2 hm)] at hs
    refine ⟨fun h' => ?_, ?_, fun h' hh' => ?_, r.not_reserved⟩
    · rw [hs]
      exact r.find? h'
    · rw [hs]
      show (if temporary then s.temporaries.insert h else s.temporaries.erase h) = _
      rw [r.temporaries]
    · rw [hs]
      exact r.isFree h' hh'
  · rw [if_neg hm]
    rw [if_neg fun hi => hm (r.mem_index.1 hi)] at hs
    refine ⟨fun h' => ?_, ?_, fun h' hh' => ?_, r.not_reserved⟩
    · rw [hs]
      exact r.find? h'
    · rw [hs]
      exact r.temporaries
    · rw [hs]
      exact r.isFree h' hh'

/-! ### handing out -/

theorem Refines.allocate_some {t : Slots α} {h : UInt32} (ha : s.allocate = some (h, t)) :
    p.least? = some h ∧ t.Refines { p with reserved := p.reserved.insert h } := by
  obtain ⟨n, hn, rfl⟩ := Slots.allocate_eq_some ha
  obtain ⟨-, ⟨hf, hpos, hlt⟩, hle, hfree, hslab, hindex, htemp⟩ := s.valid.allocate_some hn
  have hto := toNat_ofNat_handle hlt
  have hh := isHandle_ofNat hpos hlt
  have ho : p.isOpen (UInt32.ofNat n) := (r.isFree _ hh).1 (hto.symm ▸ hf)
  constructor
  · refine PlainSlots.least?_eq_some hh ho fun i hi hio => ?_
    rw [hto]
    exact hle _ hi.toNat_pos ((r.isFree i hi).2 hio)
  · refine ⟨fun h' => ?_, htemp.trans r.temporaries, fun h' hh' => ?_, fun h' hm hr => ?_⟩
    · rw [← r.find?, SlotData.find?, SlotData.find?, hslab, hindex]
    · rw [hfree _ hh'.toNat_pos, r.isFree h' hh', PlainSlots.isOpen_iff, PlainSlots.isOpen_iff,
        and_assoc]
      refine and_congr_right fun _ => ?_
      rw [Std.ExtTreeSet.mem_insert, compareHandles_eq_iff, ← UInt32.toNat_inj, hto]
      constructor
      · rintro ⟨hr, hne⟩ (e | hr')
        · exact hne e.symm
        · exact hr hr'
      · intro hr
        exact ⟨fun hr' => hr (.inr hr'), fun e => hr (.inl e.symm)⟩
    · rcases Std.ExtTreeSet.mem_insert.1 hr with e | hr
      · obtain rfl := compareHandles_eq_iff.1 e
        exact (PlainSlots.isOpen_iff.1 ho).1 hm
      · exact r.not_reserved h' hm hr

theorem Refines.allocate_none (ha : s.allocate = none) : p.least? = none := by
  refine PlainSlots.least?_eq_none fun h hh ho => ?_
  exact SlotData.not_isFree_of_allocate (Slots.allocate_eq_none ha) hh.2 ((r.isFree h hh).2 ho)

end

end Slots

/-! ## Tables that stand for plain tables -/

namespace HandleTable

structure Refines (t : HandleTable α) (p : PlainTable α) : Prop where
  slots : t.slots.Refines p.slots
  aside : Option.Rel Slots.Refines t.aside p.aside

theorem refines_empty : (empty : HandleTable α).Refines .empty := ⟨Slots.refines_empty, .none⟩

section
variable {t : HandleTable α} {p : PlainTable α} (r : t.Refines p)
include r

theorem Refines.find? (id : UInt32) : t.find? id = p.slots.bound[handleOf id]? := by
  rw [find?_eq, r.slots.find?]

theorem Refines.contains (id : UInt32) : t.contains id = p.slots.bound.contains (handleOf id) := by
  rw [contains_eq, r.find?, Std.ExtTreeMap.contains_eq_isSome_getElem?]

theorem Refines.remember (id : UInt32) : (t.remember id).Refines p :=
  ⟨(slots_remember t id).symm ▸ r.slots, (aside_remember t id).symm ▸ r.aside⟩

theorem Refines.modify (id : UInt32) (f : α → α) :
    (t.modify id f).Refines { p with slots := p.slots.modify (handleOf id) f } := by
  rw [HandleTable.modify]
  split
  · next h =>
    rw [cell?_eq] at h
    exact ⟨r.slots.modify_none h f, r.aside⟩
  · next key h =>
    rw [cell?_eq] at h
    exact ⟨r.slots.modify h f, r.aside⟩

theorem Refines.beginLoad : t.beginLoad.Refines ⟨.empty, some (p.aside.getD p.slots)⟩ := by
  refine ⟨Slots.refines_empty, .some ?_⟩
  have ha := r.aside
  generalize t.aside = a at ha ⊢
  generalize p.aside = b at ha ⊢
  cases ha with
  | none => exact r.slots
  | some hs => exact hs

theorem Refines.commitLoad (success : Bool) :
    (t.endLoad success).Refines (p.step (.commitLoad success)).2 := by
  show (t.endLoad success).Refines (match p.aside with
    | none => p
    | some saved => if success then { p with aside := none } else ⟨saved, none⟩)
  have ha := r.aside
  rw [HandleTable.endLoad]
  cases ht : t.aside with
  | none =>
    cases hp : p.aside with
    | none => exact r
    | some q =>
      rw [ht, hp] at ha
      cases ha
  | some s =>
    cases hp : p.aside with
    | none =>
      rw [ht, hp] at ha
      cases ha
    | some q =>
      rw [ht, hp] at ha
      cases ha with
      | some hs =>
        cases success with
        | true => exact ⟨r.slots, .none⟩
        | false => exact ⟨hs, .none⟩

theorem Refines.isLoading : t.isLoading = p.aside.isSome := by
  have ha := r.aside
  rw [HandleTable.isLoading]
  generalize t.aside = a at ha ⊢
  generalize p.aside = b at ha ⊢
  cases ha <;> rfl

end

theorem Refines.allocate {t : HandleTable α} {p : PlainTable α} (r : t.Refines p) :
    (t.step .allocate).1 = (p.step .allocate).1 ∧
      (t.step .allocate).2.Refines (p.step .allocate).2 := by
  unfold HandleTable.step PlainTable.step
  dsimp only
  cases ha : t.allocate with
  | ok q =>
    obtain ⟨h, t'⟩ := q
    rw [HandleTable.allocate] at ha
    split at ha
    · next hs =>
      cases ha
      obtain ⟨hl, hr⟩ := r.slots.allocate_some hs
      rw [hl]
      exact ⟨rfl, hr, r.aside⟩
    · cases ha
  | error f =>
    rw [HandleTable.allocate] at ha
    split at ha
    · cases ha
    · next hs =>
      cases ha
      rw [r.slots.allocate_none hs]
      exact ⟨rfl, r⟩

theorem Refines.insert {t : HandleTable α} {p : PlainTable α} (r : t.Refines p) (id : UInt32)
    (value : α) : (t.step (.insert id value)).1 = (p.step (.insert id value)).1 ∧
      (t.step (.insert id value)).2.Refines (p.step (.insert id value)).2 := by
  unfold HandleTable.step PlainTable.step
  dsimp only
  by_cases h : handleOf id = 0
  · rw [HandleTable.bind, dif_pos h, if_pos h]
    exact ⟨rfl, r⟩
  · rw [HandleTable.bind, dif_neg h, if_neg h]
    exact ⟨rfl, r.slots.bind _ (isHandle_handleOf h) value, r.aside⟩

/-- one operation: the answers agree, and the tables still belong together -/
theorem Refines.step {t : HandleTable α} {p : PlainTable α} (r : t.Refines p) (op : TableOp α) :
    (t.step op).1 = (p.step op).1 ∧ (t.step op).2.Refines (p.step op).2 := by
  cases op with
  | allocate => exact r.allocate
  | insert id value => exact r.insert id value
  | get id =>
    refine ⟨?_, r.remember id⟩
    show TableAnswer.value (t.find? id) = _
    rw [r.find?]
    rfl
  | getMut id f =>
    refine ⟨?_, r.modify id f⟩
    show TableAnswer.value (t.find? id) = _
    rw [r.find?]
    rfl
  | contains id =>
    refine ⟨?_, r.remember id⟩
    show TableAnswer.flag (t.contains id) = _
    rw [r.contains]
    rfl
  | erase id =>
    refine ⟨?_, r.slots.remove (handleOf id), r.aside⟩
    show TableAnswer.value (t.slots.find? (handleOf id)) = _
    rw [r.slots.find?]
    rfl
  | markTemporary id temporary => exact ⟨rfl, r.slots.mark (handleOf id) temporary, r.aside⟩
  | isTemporary id =>
    refine ⟨?_, r⟩
    show TableAnswer.flag (t.slots.temporaries.contains (handleOf id)) = _
    rw [r.slots.temporaries]
    rfl
  | temporaries =>
    refine ⟨?_, r⟩
    show TableAnswer.handles t.slots.temporaries.toList = _
    rw [r.slots.temporaries]
    rfl
  | len => exact ⟨congrArg TableAnswer.size r.slots.size_eq, r⟩
  | isEmpty => exact ⟨congrArg TableAnswer.flag r.slots.isEmpty_eq, r⟩
  | handles => exact ⟨congrArg TableAnswer.handles r.slots.keys_eq, r⟩
  | iter => exact ⟨congrArg TableAnswer.entries r.slots.toList_eq, r⟩
  | reset => exact ⟨rfl, refines_empty⟩
  | snapshotForLoad => exact ⟨rfl, r.beginLoad⟩
  | commitLoad success => exact ⟨rfl, r.commitLoad success⟩
  | isLoading => exact ⟨congrArg TableAnswer.flag r.isLoading, r⟩

theorem Refines.answers_eq {t : HandleTable α} {p : PlainTable α} (r : t.Refines p)
    (ops : List (TableOp α)) : t.answers ops = p.answers ops := by
  induction ops generalizing t p with
  | nil => rfl
  | cons op ops ih =>
    obtain ⟨ha, hr⟩ := r.step op
    rw [HandleTable.answers, PlainTable.answers, ha, ih hr]

/-- from the beginning, every run of operations gives the answers of the plain map -/
theorem answers_empty (ops : List (TableOp α)) :
    (empty : HandleTable α).answers ops = PlainTable.empty.answers ops :=
  refines_empty.answers_eq ops

end HandleTable
end ScriptVars
