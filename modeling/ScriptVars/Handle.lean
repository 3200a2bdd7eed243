import Std.Data.ExtTreeMap
import Std.Data.ExtTreeSet

/-!
# Handles

Scripts know variables by ids.  An id carries a handle in its low 28 bits; handles are the numbers
from one to `2 ^ 28 - 1`.

* `handleOf`, `IsHandle`         the handle in an id, and which numbers are handles;
* `compareHandles`               their order;
* `HandleMap`, `HandleSet`       finite maps and sets of them, ascending;
* `tally`                        how often each number comes in a list.
-/

namespace ScriptVars

/-- one more than the greatest handle: ids carry a handle in their low 28 bits -/
def handleLimit : Nat := 0x10000000

/-- the handle in an id; its top four bits are reserved and do not count -/
def handleOf (id : UInt32) : UInt32 := id % 0x10000000

/-- whether a variable can have this number -/
def IsHandle (h : UInt32) : Prop := h ≠ 0 ∧ h.toNat < handleLimit

theorem IsHandle.toNat_pos {h : UInt32} (hh : IsHandle h) : 0 < h.toNat :=
  Nat.pos_of_ne_zero fun e => hh.1 (UInt32.toNat_inj.1 e)

theorem toNat_ofNat_handle {n : Nat} (h : n < handleLimit) : (UInt32.ofNat n).toNat = n :=
  UInt32.toNat_ofNat_of_lt' (Nat.lt_trans h (by decide))

theorem isHandle_ofNat {n : Nat} (hpos : 0 < n) (hlt : n < handleLimit) :
    IsHandle (UInt32.ofNat n) := by
  have hto := toNat_ofNat_handle hlt
  refine ⟨fun e => ?_, hto.symm ▸ hlt⟩
  rw [e] at hto
  exact Nat.ne_of_lt hpos hto

theorem toNat_handleOf (id : UInt32) : (handleOf id).toNat = id.toNat % handleLimit :=
  UInt32.toNat_mod id 0x10000000

theorem handleOf_lt (id : UInt32) : (handleOf id).toNat < handleLimit := by
  rw [toNat_handleOf]
  exact Nat.mod_lt _ (by decide)

theorem isHandle_handleOf {id : UInt32} (h : handleOf id ≠ 0) : IsHandle (handleOf id) :=
  ⟨h, handleOf_lt id⟩

theorem handleOf_eq_self {id : UInt32} (h : id.toNat < handleLimit) : handleOf id = id :=
  UInt32.toNat_inj.1 (by rw [toNat_handleOf, Nat.mod_eq_of_lt h])

theorem handleOf_handleOf (id : UInt32) : handleOf (handleOf id) = handleOf id :=
  handleOf_eq_self (handleOf_lt id)

def compareHandles (a b : UInt32) : Ordering := compare a.toNat b.toNat

instance : Std.TransCmp compareHandles where
  eq_swap := Std.OrientedOrd.eq_swap
  isLE_trans := Std.TransOrd.isLE_trans

instance : Std.LawfulEqCmp compareHandles where
  compare_self := Std.ReflOrd.compare_self
  eq_of_compare h := UInt32.toNat_inj.1 (Std.LawfulEqOrd.eq_of_compare h)

theorem compareHandles_eq_iff {a b : UInt32} : compareHandles a b = .eq ↔ a = b :=
  Std.LawfulEqCmp.compare_eq_iff_eq

abbrev HandleMap (α : Type) := Std.ExtTreeMap UInt32 α compareHandles

abbrev HandleSet := Std.ExtTreeSet UInt32 compareHandles

/-! ### counting -/

/-- how often each number comes in a list, for those that come at all -/
def tally (ids : List UInt32) : HandleMap Nat :=
  ids.foldr (fun id counts => counts.alter id fun n => some (n.getD 0 + 1)) ∅

theorem tally_cons (id : UInt32) (ids : List UInt32) :
    tally (id :: ids) = (tally ids).alter id fun n => some (n.getD 0 + 1) := rfl

theorem getElem?_tally (ids : List UInt32) (id : UInt32) :
    (tally ids)[id]? = if id ∈ ids then some (ids.count id) else none := by
  induction ids with
  | nil => simp [tally]
  | cons i ids ih =>
    rw [tally_cons, Std.ExtTreeMap.getElem?_alter]
    by_cases h : i = id
    · subst h
      simp only [compareHandles_eq_iff, if_true, ih, List.mem_cons, true_or, List.count_cons_self]
      split
      · rfl
      · next hm => simp [List.count_eq_zero.2 hm]
    · simp [h, ih, Ne.symm h]

theorem mem_tally {ids : List UInt32} {id : UInt32} : id ∈ tally ids ↔ id ∈ ids := by
  rw [Std.ExtTreeMap.mem_iff_isSome_getElem?, getElem?_tally]
  by_cases h : id ∈ ids
  · rw [if_pos h]
    exact iff_of_true rfl h
  · rw [if_neg h]
    exact iff_of_false Bool.false_ne_true h

end ScriptVars
