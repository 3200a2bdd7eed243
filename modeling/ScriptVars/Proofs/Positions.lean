import Mathlib.Order.Monotone.Basic
import ScriptVars.ArrayVar
import ScriptVars.Proofs.WholeNumbers

/-!
# Positions and their keys

The value of a finite double rises with its bits, so a position has one key only, up to the sign of
zero, and keys that name positions are ordered as their positions are.

* `Number.valueOf`                what a magnitude is worth, in units;
* `Number.valueOf_strictMono`     more bits, more value;
* `Key.compare_of_index?`         the order of keys that name positions;
* `Storage.index?_of_mem_indexed`   the keys of a packed array.
-/

namespace ScriptVars

namespace Number

/-- what a finite magnitude is worth, in units of `2 ^ -1074` -/
def valueOf (m : Nat) : Nat :=
  if m < leadingBit then m else (leadingBit + m % leadingBit) * powerOfTwo (m / leadingBit - 1)

theorem leadingBit_pos : 0 < leadingBit := powerOfTwo_pos 52

theorem units_eq (x : Number) : x.units = valueOf x.magnitude := by
  unfold units significand spacing exponentField valueOf
  by_cases hm : x.magnitude < leadingBit
  · rw [if_pos hm, if_pos hm, Nat.div_eq_of_lt hm]
    exact Nat.mul_one _
  · have hq : 1 ≤ x.magnitude / leadingBit :=
      (Nat.one_le_div_iff leadingBit_pos).2 (Nat.le_of_not_lt hm)
    rw [if_neg hm, if_neg hm, Nat.max_eq_right hq]

/-- with a leading one, and `q` steps above the least exponent -/
theorem valueOf_add (q : Nat) {r : Nat} (hr : r < leadingBit) :
    valueOf (leadingBit * (q + 1) + r) = (leadingBit + r) * powerOfTwo q := by
  have hle : leadingBit ≤ leadingBit * (q + 1) := Nat.le_mul_of_pos_right _ (Nat.succ_pos q)
  have hmod : (leadingBit * (q + 1) + r) % leadingBit = r := by
    rw [Nat.mul_add_mod, Nat.mod_eq_of_lt hr]
  have hdiv : (leadingBit * (q + 1) + r) / leadingBit = q + 1 := by
    rw [Nat.mul_add_div leadingBit_pos, Nat.div_eq_of_lt hr, Nat.add_zero]
  rw [valueOf, if_neg (by omega), hmod, hdiv, Nat.add_sub_cancel]

theorem valueOf_lt_succ (m : Nat) : valueOf m < valueOf (m + 1) := by
  have hpos := leadingBit_pos
  rcases Nat.lt_trichotomy (m + 1) leadingBit with hlt | heq | hgt
  · rw [valueOf, valueOf, if_pos hlt, if_pos (by omega)]
    exact Nat.lt_succ_self m
  · -- the least normal number
    have hone : m + 1 = leadingBit * (0 + 1) + 0 := by omega
    rw [hone, valueOf_add 0 hpos, valueOf, if_pos (by omega)]
    show m < (leadingBit + 0) * 1
    omega
  · obtain ⟨q, hq⟩ : ∃ q, m / leadingBit = q + 1 :=
      Nat.exists_eq_succ_of_ne_zero (Nat.div_pos (by omega) hpos).ne'
    have hr : m % leadingBit < leadingBit := Nat.mod_lt m hpos
    have hm : m = leadingBit * (q + 1) + m % leadingBit := by
      rw [← hq, Nat.div_add_mod]
    have hstep : 0 < powerOfTwo q := powerOfTwo_pos q
    generalize m % leadingBit = r at hr hm
    subst hm
    rw [valueOf_add q hr]
    by_cases hcarry : r + 1 < leadingBit
    · rw [Nat.add_assoc, valueOf_add q hcarry]
      exact Nat.mul_lt_mul_of_pos_right (by omega) hstep
    · -- the significand is full, and the exponent rises
      have hnext : leadingBit * (q + 1) + r + 1 = leadingBit * (q + 1 + 1) + 0 := by
        rw [Nat.mul_succ leadingBit (q + 1)]
        omega
      rw [hnext, valueOf_add (q + 1) hpos, powerOfTwo_succ]
      calc (leadingBit + r) * powerOfTwo q < (2 * leadingBit) * powerOfTwo q :=
            Nat.mul_lt_mul_of_pos_right (by omega) hstep
        _ = (leadingBit + 0) * (powerOfTwo q * 2) := by
            rw [Nat.add_zero, Nat.mul_comm 2 leadingBit, Nat.mul_assoc,
              Nat.mul_comm 2 (powerOfTwo q)]

theorem valueOf_strictMono : StrictMono valueOf := strictMono_nat_of_lt_succ valueOf_lt_succ

/-- a number that denotes a natural has its value, and no sign that counts -/
theorem of_toNat? {x : Number} {n : Nat} (h : x.toNat? = some n) :
    valueOf x.magnitude = n * unitsPerOne ∧ x.foldZero.rank = x.magnitude := by
  unfold toNat? at h
  split at h
  · next hc =>
    simp only [Bool.and_eq_true, Bool.or_eq_true, decide_eq_true_eq, Bool.not_eq_true'] at hc
    obtain ⟨⟨-, hsign⟩, hwhole⟩ := hc
    obtain rfl := Option.some.inj h
    refine ⟨?_, ?_⟩
    · rw [← units_eq, Nat.div_mul_cancel (Nat.dvd_of_mod_eq_zero hwhole)]
    · rw [foldZero]
      by_cases hz : x.isZero = true
      · rw [if_pos hz, (of_decide_eq_true hz : x.magnitude = 0)]
        rfl
      · rw [if_neg hz, rank, hsign.resolve_right hz]
        rfl
  · cases h

/-- numbers that denote naturals are ordered as these are -/
theorem totalCompare_of_toNat? {x y : Number} {m n : Nat} (hx : x.toNat? = some m)
    (hy : y.toNat? = some n) : x.foldZero.totalCompare y.foldZero = compare m n := by
  obtain ⟨hvx, hrx⟩ := of_toNat? hx
  obtain ⟨hvy, hry⟩ := of_toNat? hy
  have hunit : 0 < unitsPerOne := powerOfTwo_pos _
  have hlt : ∀ {a b c d : Nat}, valueOf a = c * unitsPerOne → valueOf b = d * unitsPerOne →
      c < d → a < b := by
    intro a b c d ha hb hcd
    rw [← valueOf_strictMono.lt_iff_lt, ha, hb]
    exact Nat.mul_lt_mul_of_pos_right hcd hunit
  rw [totalCompare, hrx, hry]
  rcases Nat.lt_trichotomy m n with h | h | h
  · rw [Nat.compare_eq_lt.2 h, Int.compare_eq_lt]
    exact Int.ofNat_lt.2 (hlt hvx hvy h)
  · have hsame : x.magnitude = y.magnitude :=
      valueOf_strictMono.injective (by rw [hvx, hvy, h])
    rw [Nat.compare_eq_eq.2 h, Int.compare_eq_eq, hsame]
  · rw [Nat.compare_eq_gt.2 h, Int.compare_eq_gt]
    exact Int.ofNat_lt.2 (hlt hvy hvx h)

end Number

namespace Key

theorem exists_of_index? {k : Key} {i : Nat} (h : k.index? = some i) :
    ∃ x, k = number x ∧ x.toNat? = some i := by
  cases k with
  | text s => cases h
  | number x =>
    refine ⟨x, rfl, ?_⟩
    simp only [index?] at h
    split at h
    · next n hn =>
      split at h
      · rwa [← h]
      · cases h
    · cases h

theorem position_of_index? {k : Key} {i : Nat} (h : k.index? = some i) : k.position = .ok i := by
  rw [position, h]

theorem keyType_of_index? {k : Key} {i : Nat} (h : k.index? = some i) : k.keyType = .number := by
  obtain ⟨x, rfl, -⟩ := exists_of_index? h
  rfl

/-- keys that name positions are ordered as these are -/
theorem compare_of_index? {k l : Key} {i j : Nat} (hk : k.index? = some i)
    (hl : l.index? = some j) : k.compare l = Ord.compare i j := by
  obtain ⟨x, rfl, hx⟩ := exists_of_index? hk
  obtain ⟨y, rfl, hy⟩ := exists_of_index? hl
  exact Number.totalCompare_of_toNat? hx hy

end Key

/-! ## Packed arrays -/

namespace Storage

theorem indexed_append (i : Nat) (l m : List Element) :
    indexed i (l ++ m) = indexed i l ++ indexed (i + l.length) m := by
  rw [indexed, List.zipIdx_append, List.map_append]
  rfl

/-- the key of an entry names its position, and that is within bounds -/
theorem index?_of_mem_indexed {i : Nat} {values : List Element} {p : Key × Element}
    (hsize : i + values.length ≤ Key.greatestIndex + 1) (hp : p ∈ indexed i values) :
    ∃ j, p.1.index? = some j ∧ i ≤ j ∧ j < i + values.length := by
  obtain ⟨⟨e, j⟩, hj, rfl⟩ := List.mem_map.1 hp
  obtain ⟨hle, hlt, -⟩ := List.mem_zipIdx hj
  exact ⟨j, Key.index?_ofIndex (by omega), hle, by omega⟩

end Storage

/-- the keys of a packed array are numbers -/
theorem ArrayKind.keyType_of_isPacked {kind : ArrayKind} (h : kind.isPacked = true) :
    kind.keyType = .number := by
  cases kind with
  | array => rfl
  | map | stringMap => cases h

end ScriptVars
