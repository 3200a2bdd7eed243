import Mathlib.Algebra.BigOperators.Group.Finset.Basic
import Mathlib.Algebra.Order.BigOperators.Group.Finset
import ScriptVars.HandleTable

/-!
# Sums over a table

A number for each variable, summed over all variables of a table.

* `HandleTable.total`          the sum;
* `HandleTable.total_eq_sum`   the same as a sum over all handles;
* `total_congr`                tables whose variables count alike have the same sum;
* `total_exchange`             what one handle makes of the sum.
-/

namespace ScriptVars.HandleTable

variable {α : Type}

def total (t : HandleTable α) (f : α → Nat) : Nat := t.toList.foldr (fun p n => f p.2 + n) 0

/-- what the variable behind an id counts -/
def share (t : HandleTable α) (f : α → Nat) (id : UInt32) : Nat := (t.find? id).elim 0 f

theorem share_congr (t : HandleTable α) (f : α → Nat) {i j : UInt32}
    (h : handleOf i = handleOf j) : t.share f i = t.share f j := by
  rw [share, share, t.find?_congr h]

theorem total_eq_sum (t : HandleTable α) (f : α → Nat) :
    t.total f = ∑ n ∈ Finset.range handleLimit, t.share f (UInt32.ofNat n) := by
  have hmem : ∀ p ∈ t.toList, handleOf p.1 = p.1 ∧ t.find? p.1 = some p.2 := fun p hp =>
    mem_toList.1 hp
  have hnd : (t.toList.map fun p => p.1.toNat).Nodup := by
    rw [List.Nodup, List.pairwise_map]
    exact t.ascending_toList.imp fun hlt => Nat.ne_of_lt hlt
  have hmap : (t.toList.map fun p => f p.2) =
      (t.toList.map fun p => p.1.toNat).map fun n => t.share f (UInt32.ofNat n) := by
    rw [List.map_map]
    refine List.map_congr_left fun p hp => ?_
    show f p.2 = t.share f (UInt32.ofNat p.1.toNat)
    rw [UInt32.ofNat_toNat, share, (hmem p hp).2]
    rfl
  have hsum : t.total f = (t.toList.map fun p => f p.2).sum := by
    rw [total, List.sum_eq_foldr, List.foldr_map]
  rw [hsum, hmap, ← List.sum_toFinset _ hnd]
  refine Finset.sum_subset ?_ ?_
  · intro n hn
    obtain ⟨p, hp, rfl⟩ := List.mem_map.1 (List.mem_toFinset.1 hn)
    rw [Finset.mem_range, ← (hmem p hp).1]
    exact handleOf_lt p.1
  · intro n hn hno
    have hto := toNat_ofNat_handle (Finset.mem_range.1 hn)
    rw [share]
    cases hf : t.find? (UInt32.ofNat n) with
    | none => rfl
    | some a =>
      refine absurd ?_ hno
      have hs : handleOf (UInt32.ofNat n) = UInt32.ofNat n :=
        handleOf_eq_self (hto.symm ▸ Finset.mem_range.1 hn)
      exact List.mem_toFinset.2 (List.mem_map.2 ⟨_, mem_toList.2 ⟨hs, hf⟩, hto⟩)

theorem total_congr {t t' : HandleTable α} {f : α → Nat} (h : ∀ i, t'.share f i = t.share f i) :
    t'.total f = t.total f := by
  rw [total_eq_sum, total_eq_sum]
  exact Finset.sum_congr rfl fun n _ => h _

theorem total_eq_zero {t : HandleTable α} {f : α → Nat} (h : ∀ i, t.share f i = 0) :
    t.total f = 0 := by
  rw [total_eq_sum]
  exact Finset.sum_eq_zero fun n _ => h _

/-- what stands behind an id is part of the sum -/
theorem share_le_total (t : HandleTable α) (f : α → Nat) (id : UInt32) :
    t.share f id ≤ t.total f := by
  rw [total_eq_sum, t.share_congr f (handleOf_handleOf id).symm, ← UInt32.ofNat_toNat (x := handleOf id)]
  exact Finset.single_le_sum (f := fun n => t.share f (UInt32.ofNat n)) (fun _ _ => Nat.zero_le _)
    (Finset.mem_range.2 (handleOf_lt id))

/-- a table that differs behind one handle only -/
theorem total_exchange {t t' : HandleTable α} {f : α → Nat} (id : UInt32)
    (h : ∀ i, handleOf id ≠ handleOf i → t'.share f i = t.share f i) :
    t'.total f + t.share f id = t.total f + t'.share f id := by
  have hmem : (handleOf id).toNat ∈ Finset.range handleLimit := Finset.mem_range.2 (handleOf_lt id)
  have hself : ∀ u : HandleTable α,
      u.share f (UInt32.ofNat (handleOf id).toNat) = u.share f id := fun u => by
    rw [UInt32.ofNat_toNat]
    exact u.share_congr f (handleOf_handleOf id)
  have hrest : ∑ n ∈ (Finset.range handleLimit).erase (handleOf id).toNat,
        t'.share f (UInt32.ofNat n) =
      ∑ n ∈ (Finset.range handleLimit).erase (handleOf id).toNat, t.share f (UInt32.ofNat n) := by
    refine Finset.sum_congr rfl fun n hn => h _ fun e => ?_
    obtain ⟨hne, hlt⟩ := Finset.mem_erase.1 hn
    have hto := toNat_ofNat_handle (Finset.mem_range.1 hlt)
    have hs : handleOf (UInt32.ofNat n) = UInt32.ofNat n :=
      handleOf_eq_self (hto.symm ▸ Finset.mem_range.1 hlt)
    exact hne (by rw [e, hs, hto])
  have ht := Finset.add_sum_erase _ (fun n => t.share f (UInt32.ofNat n)) hmem
  have ht' := Finset.add_sum_erase _ (fun n => t'.share f (UInt32.ofNat n)) hmem
  rw [total_eq_sum, total_eq_sum, ← ht, ← ht', hself, hself, hrest]
  omega

end ScriptVars.HandleTable
