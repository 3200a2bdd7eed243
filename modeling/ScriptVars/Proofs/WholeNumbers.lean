import ScriptVars.Key

/-!
# Whole numbers as doubles

Naturals below `2 ^ 53` are doubles exactly, so positions of packed arrays are found again under
their keys.

* `Number.units_normal`         the value of a normal number;
* `Number.toNat?_ofNat`         a natural is what its double denotes;
* `Key.index?_ofIndex`          a position is what its key names.
-/

namespace ScriptVars

namespace Number

/-- nothing is rounded when the quotient is whole -/
theorem roundHalfEven_mul (m : Nat) {d : Nat} (hd : 0 < d) : roundHalfEven (m * d) d = m := by
  rw [roundHalfEven, Nat.mul_mod_left, Nat.mul_div_cancel m hd]
  exact if_pos hd

/-! ### normal numbers -/

section
variable {shift m : Nat}

/-- the number with a spacing and a significand that has its leading one -/
def normal (shift m : Nat) : Number := ofMagnitude false (shift * leadingBit + m)

theorem toNat_bits_normal (hs : shift ≤ 2044) (hm : m < 2 * leadingBit) :
    (normal shift m).bits.toNat = shift * leadingBit + m := by
  have hlt : shift * leadingBit + m < 2 ^ 64 := by
    rw [leadingBit] at hm ⊢
    omega
  exact UInt64.toNat_ofNat_of_lt' hlt

theorem magnitude_normal (hs : shift ≤ 2044) (hm : m < 2 * leadingBit) :
    (normal shift m).magnitude = shift * leadingBit + m := by
  rw [magnitude, toNat_bits_normal hs hm]
  refine Nat.mod_eq_of_lt ?_
  rw [leadingBit] at hm ⊢
  rw [signBit]
  omega

theorem isNegative_normal (hs : shift ≤ 2044) (hm : m < 2 * leadingBit) :
    (normal shift m).isNegative = false := by
  rw [isNegative, toNat_bits_normal hs hm, decide_eq_false_iff_not, signBit]
  rw [leadingBit] at hm ⊢
  omega

theorem isFinite_normal (hs : shift ≤ 2044) (hm : m < 2 * leadingBit) :
    (normal shift m).isFinite = true := by
  rw [isFinite, magnitude_normal hs hm, decide_eq_true_eq, infinityMagnitude]
  rw [leadingBit] at hm ⊢
  omega

theorem units_normal (hs : shift ≤ 2044) (hl : leadingBit ≤ m) (hm : m < 2 * leadingBit) :
    (normal shift m).units = m * powerOfTwo shift := by
  have hexp : (normal shift m).exponentField - 1 = shift := by
    rw [exponentField, magnitude_normal hs hm]
    rw [leadingBit] at hl hm ⊢
    omega
  have hsig : (normal shift m).significand = m := by
    rw [significand, magnitude_normal hs hm, if_neg (by omega)]
    rw [leadingBit] at hl hm ⊢
    omega
  rw [units, spacing, hexp, hsig]

end

/-! ### naturals -/

/-- the significand of a natural -/
def scaledNat (n : Nat) : Nat := n * powerOfTwo (52 - n.log2)

theorem leadingBit_eq : leadingBit = powerOfTwo 52 := rfl

section
variable {n : Nat}

theorem log2_le (hn : n < 2 * leadingBit) : n.log2 ≤ 52 := by
  by_cases hz : n = 0
  · rw [hz, Nat.log2_zero]
    omega
  · have h : n.log2 < 53 := (Nat.log2_lt hz).2 hn
    omega

theorem leadingBit_le_scaledNat (hz : n ≠ 0) (hn : n < 2 * leadingBit) :
    leadingBit ≤ scaledNat n := by
  have hlog := log2_le hn
  have hle : powerOfTwo n.log2 ≤ n := Nat.log2_self_le hz
  calc leadingBit = powerOfTwo n.log2 * powerOfTwo (52 - n.log2) := by
        rw [← powerOfTwo_add, Nat.add_sub_cancel' hlog, leadingBit_eq]
    _ ≤ scaledNat n := Nat.mul_le_mul_right _ hle

theorem scaledNat_lt (hz : n ≠ 0) (hn : n < 2 * leadingBit) : scaledNat n < 2 * leadingBit := by
  have hlog := log2_le hn
  have hlt : n < powerOfTwo (n.log2 + 1) := (Nat.log2_lt hz).1 (Nat.lt_succ_self _)
  calc scaledNat n < powerOfTwo (n.log2 + 1) * powerOfTwo (52 - n.log2) :=
        Nat.mul_lt_mul_of_pos_right hlt (powerOfTwo_pos _)
    _ = 2 * leadingBit := by
        rw [powerOfTwo_succ, Nat.mul_right_comm, ← powerOfTwo_add, Nat.add_sub_cancel' hlog,
          leadingBit_eq, Nat.mul_comm]

theorem scaledNat_mul (hn : n < 2 * leadingBit) :
    scaledNat n * powerOfTwo (n.log2 + 1022) = n * unitsPerOne := by
  have hlog := log2_le hn
  rw [scaledNat, Nat.mul_assoc, ← powerOfTwo_add, unitsPerOne]
  exact congrArg (fun e => n * powerOfTwo e) (by omega)

theorem log2_units (hz : n ≠ 0) : (n * unitsPerOne).log2 = n.log2 + 1074 := by
  have hpos : 0 < powerOfTwo 1074 := powerOfTwo_pos _
  rw [unitsPerOne, Nat.log2_eq_iff (Nat.mul_ne_zero hz (Nat.ne_of_gt hpos))]
  constructor
  · show powerOfTwo (n.log2 + 1074) ≤ n * powerOfTwo 1074
    rw [powerOfTwo_add]
    exact Nat.mul_le_mul_right _ (Nat.log2_self_le hz)
  · show n * powerOfTwo 1074 < powerOfTwo (n.log2 + 1074 + 1)
    rw [Nat.add_right_comm, powerOfTwo_add]
    exact Nat.mul_lt_mul_of_pos_right ((Nat.log2_lt hz).1 (Nat.lt_succ_self _)) hpos

/-- small naturals are not rounded -/
theorem ofNat_eq_normal (hz : n ≠ 0) (hn : n < 2 * leadingBit) :
    ofNat n = normal (n.log2 + 1022) (scaledNat n) := by
  have hlog := log2_le hn
  have hlt := scaledNat_lt hz hn
  have hshift : (n * unitsPerOne / 1).log2 - 52 = n.log2 + 1022 := by
    rw [Nat.div_one, log2_units hz]
    omega
  have hround : roundHalfEven (n * unitsPerOne) (1 * powerOfTwo (n.log2 + 1022)) = scaledNat n := by
    rw [Nat.one_mul, ← scaledNat_mul hn]
    exact roundHalfEven_mul _ (powerOfTwo_pos _)
  rw [ofNat, ofRatio, hshift, hround, normal]
  refine congrArg (ofMagnitude false) (Nat.min_eq_left ?_)
  rw [leadingBit] at hlt ⊢
  rw [infinityMagnitude]
  omega

/-- a natural is what its double denotes -/
theorem toNat?_ofNat (hn : n < 2 * leadingBit) : (ofNat n).toNat? = some n := by
  by_cases hz : n = 0
  · subst hz
    decide +kernel
  · have hlog := log2_le hn
    have hlt := scaledNat_lt hz hn
    have hs : n.log2 + 1022 ≤ 2044 := by omega
    have hunits : (normal (n.log2 + 1022) (scaledNat n)).units = n * unitsPerOne := by
      rw [units_normal hs (leadingBit_le_scaledNat hz hn) hlt, scaledNat_mul hn]
    have hpos : 0 < unitsPerOne := powerOfTwo_pos _
    rw [toNat?, ofNat_eq_normal hz hn, isFinite_normal hs hlt, isNegative_normal hs hlt, hunits,
      Nat.mul_mod_left, Nat.mul_div_cancel n hpos]
    rfl

end

theorem toNat?_of_isZero {x : Number} (h : x.isZero = true) : x.toNat? = some 0 := by
  have hm : x.magnitude = 0 := of_decide_eq_true h
  have hfinite : x.isFinite = true := by
    rw [isFinite, hm]
    rfl
  have hunits : x.units = 0 := by
    rw [units, significand, hm]
    exact Nat.zero_mul _
  rw [toNat?, hfinite, h, Bool.or_true, hunits, Nat.zero_mod, Nat.zero_div]
  rfl

/-- only the sign of a zero is lost -/
theorem toNat?_foldZero (x : Number) : x.foldZero.toNat? = x.toNat? := by
  by_cases h : x.isZero = true
  · rw [foldZero, if_pos h, toNat?_of_isZero h, toNat?_of_isZero rfl]
  · rw [foldZero, if_neg h]

end Number

/-- a position is what its key names -/
theorem Key.index?_ofIndex {i : Nat} (h : i ≤ Key.greatestIndex) : (Key.ofIndex i).index? = some i := by
  have hlt : i < 2 * Number.leadingBit := by
    rw [Key.greatestIndex] at h
    rw [Number.leadingBit]
    omega
  rw [Key.ofIndex, Key.ofNumber, Key.index?, Number.toNat?_foldZero, Number.toNat?_ofNat hlt]
  exact if_pos h

end ScriptVars
