/-!
# Little-endian bytes

Naturals as a fixed number of bytes, least significant first.

* `Bytes.ofNat`, `Bytes.toNat`     the two directions;
* `Bytes.capacity`                 how many naturals fit some bytes;
* `Bytes.splitAt?`                 the first bytes of a list, if there are enough.
-/

namespace ScriptVars.Bytes

/-- the lowest `count` bytes of a natural -/
def ofNat : (count : Nat) → Nat → List UInt8
  | 0, _ => []
  | count + 1, n => UInt8.ofNat (n % 256) :: ofNat count (n / 256)

def toNat : List UInt8 → Nat
  | [] => 0
  | b :: rest => b.toNat + 256 * toNat rest

/-- how many naturals fit `count` bytes -/
def capacity (count : Nat) : Nat := Nat.pow 256 count

/-- the first `n` members of a list and the rest, if there are that many -/
def splitAt? {α : Type} (n : Nat) (l : List α) : Option (List α × List α) :=
  let taken := l.take n
  if taken.length = n then some (taken, l.drop n) else none

@[simp] theorem length_ofNat (count n : Nat) : (ofNat count n).length = count := by
  induction count generalizing n with
  | zero => rfl
  | succ count ih => simp [ofNat, ih]

theorem capacity_zero : capacity 0 = 1 := rfl

theorem capacity_succ (count : Nat) : capacity (count + 1) = 256 * capacity count :=
  Nat.mul_comm _ _

theorem toNat_ofNat (count n : Nat) : toNat (ofNat count n) = n % capacity count := by
  induction count generalizing n with
  | zero => simp [ofNat, toNat, capacity_zero, Nat.mod_one]
  | succ count ih =>
    have h : (UInt8.ofNat (n % 256)).toNat = n % 256 :=
      UInt8.toNat_ofNat_of_lt' (Nat.mod_lt n (by decide))
    rw [ofNat, toNat, ih, h, capacity_succ, Nat.mod_mul]

theorem ofNat_toNat (l : List UInt8) : ofNat l.length (toNat l) = l := by
  induction l with
  | nil => rfl
  | cons b l ih =>
    have hb := b.toNat_lt
    have hmod : (b.toNat + 256 * toNat l) % 256 = b.toNat := by omega
    have hdiv : (b.toNat + 256 * toNat l) / 256 = toNat l := by omega
    rw [List.length_cons, toNat, ofNat, hmod, hdiv, ih, UInt8.ofNat_toNat]

theorem toNat_lt (l : List UInt8) : toNat l < capacity l.length := by
  induction l with
  | nil => exact Nat.one_pos
  | cons b l ih =>
    have hb := b.toNat_lt
    rw [List.length_cons, toNat, capacity_succ]
    omega

theorem splitAt?_append {α : Type} (l rest : List α) :
    splitAt? l.length (l ++ rest) = some (l, rest) := by
  simp [splitAt?]

theorem append_of_splitAt? {α : Type} {n : Nat} {l taken left : List α}
    (h : splitAt? n l = some (taken, left)) : l = taken ++ left ∧ taken.length = n := by
  simp only [splitAt?, Option.ite_none_right_eq_some, Option.some.injEq, Prod.mk.injEq] at h
  obtain ⟨hn, rfl, rfl⟩ := h
  exact ⟨(List.take_append_drop n l).symm, hn⟩

theorem splitAt?_eq_none_iff {α : Type} {n : Nat} {l : List α} :
    splitAt? n l = none ↔ l.length < n := by
  simp only [splitAt?, List.length_take]
  split
  · exact ⟨nofun, fun _ => by omega⟩
  · exact ⟨fun _ => by omega, fun _ => rfl⟩

end ScriptVars.Bytes
