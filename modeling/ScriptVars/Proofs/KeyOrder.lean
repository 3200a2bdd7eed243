import Mathlib.Algebra.Order.Ring.Rat
import Mathlib.Data.Int.ConditionallyCompleteOrder
import Mathlib.Data.Rat.Cast.Order
import Mathlib.Order.Compare
import Mathlib.Order.WithBot
import Mathlib.Tactic.Ring
import ScriptVars.Proofs.FiniteMaps
import ScriptVars.Proofs.Ranges
import ScriptVars.Proofs.Texts

/-!
# The order of keys

Keys are in one order, whatever bits their numbers have.  Away from NaN it is the order of the
values, texts are ordered by their bytes, and the keys that name positions are those of positions.

* `Number.value?`                what a number is worth, if it is one;
* `Number.totalCompare_foldZero`, `strictMonoOn_valueAt`   bits are ordered as values are;
* `Utf8.compare_encode`          texts are ordered as their bytes are;
* `Key.same_iff_bits`, `Key.index?_eq_some_iff`   which keys are the same, which name a position;
* `Key.order_and_positions`      all of it.
-/

namespace ScriptVars

/-! ## Values of numbers -/

theorem cast_powerOfTwo (n : Nat) : ((powerOfTwo n : Nat) : ℚ) = 2 ^ n := by
  show ((2 ^ n : Nat) : ℚ) = 2 ^ n
  rw [Nat.cast_pow, Nat.cast_ofNat]

/-- units of the least exponent that make one -/
theorem two_pow_div {e : Nat} (he : 1 ≤ e) :
    (2 : ℚ) ^ (e - 1) / 2 ^ 1074 = 2 ^ ((e : Int) - 1075) := by
  rw [← zpow_natCast, ← zpow_natCast, ← zpow_sub₀ two_ne_zero]
  congr 1
  omega

namespace Number

def rational (x : Number) : ℚ :=
  (if x.isNegative then -1 else 1) * x.significand * 2 ^ ((x.exponentField : Int) - 1075)

/-- the value of a number, finite or infinite; a NaN has none -/
def value? (x : Number) : Option (WithBot (WithTop ℚ)) :=
  if x.isNaN then none
  else if x.isFinite then some (x.rational : WithTop ℚ)
  else some (if x.isNegative then ⊥ else ⊤)

example : value? ⟨0xBFF8000000000000⟩ = some ((-3 / 2 : ℚ) : WithTop ℚ) := by decide +kernel

def signed (x : Number) : Int := if x.isNegative then -(x.magnitude : Int) else x.magnitude

/-- what a signed magnitude is worth, in units of `2 ^ -1074` -/
def signedUnits (s : Int) : Int :=
  if s < 0 then -(valueOf s.natAbs : Int) else valueOf s.natAbs

def valueAt (s : Int) : WithBot (WithTop ℚ) :=
  if s.natAbs < infinityMagnitude then ((signedUnits s / unitsPerOne : ℚ) : WithTop ℚ)
  else if s < 0 then ⊥ else ⊤

variable {x y : Number}

/-! ### bits and values -/

/-- the two zeros are one, and below them the total order leaves a gap -/
theorem rank_foldZero (x : Number) :
    x.foldZero.rank = if x.signed < 0 then x.signed - 1 else x.signed := by
  have hpos : 0 ≤ (x.magnitude : Int) := Int.natCast_nonneg _
  rw [foldZero, signed]
  by_cases hz : x.isZero = true
  · have hm : x.magnitude = 0 := of_decide_eq_true hz
    rw [if_pos hz, hm]
    cases x.isNegative <;> rfl
  · have hm : x.magnitude ≠ 0 := fun h => hz (decide_eq_true h)
    rw [if_neg hz, rank]
    cases x.isNegative with
    | true => rw [if_pos rfl, if_pos rfl, if_pos (by omega)]
    | false => rw [if_neg Bool.false_ne_true, if_neg Bool.false_ne_true, if_neg (by omega)]

theorem totalCompare_foldZero (x y : Number) :
    x.foldZero.totalCompare y.foldZero = cmp x.signed y.signed := by
  have hmono : StrictMono fun s : Int => if s < 0 then s - 1 else s := by
    intro s t h
    dsimp only
    split <;> split <;> omega
  rw [totalCompare, rank_foldZero, rank_foldZero, ← cmp_eq_compare]
  exact hmono.cmp_map_eq _ _

theorem valueOf_zero : valueOf 0 = 0 := if_pos leadingBit_pos

theorem signedUnits_strictMono : StrictMono signedUnits := by
  intro s t h
  rw [signedUnits, signedUnits]
  by_cases hs : s < 0
  · have hneg : valueOf 0 < valueOf s.natAbs := valueOf_strictMono (by omega)
    rw [if_pos hs]
    split
    · have hlt : valueOf t.natAbs < valueOf s.natAbs := valueOf_strictMono (by omega)
      omega
    · omega
  · have hlt : valueOf s.natAbs < valueOf t.natAbs := valueOf_strictMono (by omega)
    rw [if_neg hs, if_neg (by omega)]
    omega

/-- more bits, more value, from one infinity to the other -/
theorem strictMonoOn_valueAt :
    StrictMonoOn valueAt (Set.Icc (-(infinityMagnitude : Int)) infinityMagnitude) := by
  intro s hs t ht h
  obtain ⟨hs₁, hs₂⟩ := Set.mem_Icc.1 hs
  obtain ⟨ht₁, ht₂⟩ := Set.mem_Icc.1 ht
  have hunit : (0 : ℚ) < unitsPerOne := Nat.cast_pos.2 (powerOfTwo_pos 1074)
  unfold valueAt
  by_cases hfs : s.natAbs < infinityMagnitude
  · rw [if_pos hfs]
    by_cases hft : t.natAbs < infinityMagnitude
    · rw [if_pos hft, WithBot.coe_lt_coe, WithTop.coe_lt_coe]
      exact div_lt_div_of_pos_right (Int.cast_lt.2 (signedUnits_strictMono h)) hunit
    · rw [if_neg hft, if_neg (by omega)]
      exact WithBot.coe_lt_coe.2 (WithTop.coe_lt_top _)
  · -- only the negative infinity has something above it
    have hneg : s < 0 := by omega
    rw [if_neg hfs, if_pos hneg]
    by_cases hft : t.natAbs < infinityMagnitude
    · rw [if_pos hft]
      exact WithBot.bot_lt_coe _
    · rw [if_neg hft, if_neg (by omega)]
      exact bot_lt_top

/-- units make up the value -/
theorem units_div (x : Number) :
    (x.units : ℚ) / unitsPerOne = x.significand * 2 ^ ((x.exponentField : Int) - 1075) := by
  have hexp : 1 ≤ x.exponentField := Nat.le_max_left _ _
  rw [units, spacing, unitsPerOne, Nat.cast_mul, cast_powerOfTwo, cast_powerOfTwo, mul_div_assoc,
    two_pow_div hexp]

theorem rational_eq (x : Number) : x.rational = signedUnits x.signed / unitsPerOne := by
  have hunits := units_div x
  rw [units_eq] at hunits
  rw [rational, mul_assoc, ← hunits, signedUnits, signed]
  cases x.isNegative with
  | false =>
    rw [if_neg Bool.false_ne_true, if_neg Bool.false_ne_true, if_neg (by omega), one_mul,
      Int.natAbs_natCast, Int.cast_natCast]
  | true =>
    rw [if_pos rfl, if_pos rfl, Int.natAbs_neg, Int.natAbs_natCast]
    by_cases hm : x.magnitude = 0
    · rw [hm, valueOf_zero, Nat.cast_zero, zero_div, mul_zero, if_neg (by decide), Nat.cast_zero,
        Int.cast_zero, zero_div]
    · rw [if_pos (by omega), Int.cast_neg, Int.cast_natCast]
      ring

theorem magnitude_le_of_not_isNaN (hx : ¬ x.isNaN = true) : x.magnitude ≤ infinityMagnitude :=
  Nat.le_of_not_lt fun h => hx (decide_eq_true h)

theorem signed_mem_Icc (hx : ¬ x.isNaN = true) :
    x.signed ∈ Set.Icc (-(infinityMagnitude : Int)) infinityMagnitude := by
  have hle := magnitude_le_of_not_isNaN hx
  rw [Set.mem_Icc, signed]
  split <;> omega

theorem natAbs_signed (x : Number) : x.signed.natAbs = x.magnitude := by
  rw [signed]
  split
  · rw [Int.natAbs_neg, Int.natAbs_natCast]
  · exact Int.natAbs_natCast _

theorem value?_eq (hx : ¬ x.isNaN = true) : x.value? = some (valueAt x.signed) := by
  rw [value?, if_neg hx, valueAt, natAbs_signed]
  by_cases hfinite : x.isFinite = true
  · rw [if_pos hfinite, if_pos (of_decide_eq_true hfinite), rational_eq]
  · have hinf : ¬ x.magnitude < infinityMagnitude := fun h => hfinite (decide_eq_true h)
    have hpos : 0 < infinityMagnitude := by decide
    rw [if_neg hfinite, if_neg hinf, signed]
    cases x.isNegative with
    | true => rw [if_pos rfl, if_pos rfl, if_pos (by omega)]
    | false => rw [if_neg Bool.false_ne_true, if_neg Bool.false_ne_true, if_neg (by omega)]

/-- numbers with a value are ordered as their values are -/
theorem totalCompare_of_value? {u v : WithBot (WithTop ℚ)} (hx : x.value? = some u)
    (hy : y.value? = some v) : x.foldZero.totalCompare y.foldZero = cmp u v := by
  have hnan : ∀ {z : Number} {w}, z.value? = some w → ¬ z.isNaN = true := by
    intro z w hz hn
    rw [value?, if_pos hn] at hz
    cases hz
  have hxn := hnan hx
  have hyn := hnan hy
  rw [value?_eq hxn] at hx
  rw [value?_eq hyn] at hy
  obtain rfl := Option.some.inj hx
  obtain rfl := Option.some.inj hy
  rw [totalCompare_foldZero]
  exact (strictMonoOn_valueAt.cmp_map_eq (signed_mem_Icc hxn) (signed_mem_Icc hyn)).symm

end Number

/-! ## Bytes of texts -/

namespace Utf8

variable {l m : List UInt8}

theorem compare_append_left (l m n : List UInt8) :
    Ord.compare (l ++ m) (l ++ n) = Ord.compare m n := by
  induction l with
  | nil => rfl
  | cons b l ih =>
    have hself : Ord.compare b b = .eq := Std.ReflCmp.compare_self
    rw [List.cons_append, List.cons_append, List.compare_cons_cons, hself, ih]
    rfl

/-- the first byte that differs decides -/
theorem compare_cons_eq_lt {a b : Nat} (hb : b < 256)
    (h : a < b ∨ a = b ∧ Ord.compare l m = .lt) :
    Ord.compare (UInt8.ofNat a :: l) (UInt8.ofNat b :: m) = .lt := by
  rw [List.compare_cons_cons, Ordering.then_eq_lt]
  refine h.imp (fun hlt => ?_) fun ⟨heq, htail⟩ => ?_
  · rw [Std.compare_eq_lt, UInt8.lt_iff_toNat_lt, toNat_ofNat_byte (hlt.trans hb),
      toNat_ofNat_byte hb]
    exact hlt
  · rw [heq]
    exact ⟨Std.ReflCmp.compare_self, htail⟩

section
variable {v w : Nat} (hlt : v < w)
include hlt

/-! ### the last bytes of characters that begin with the same ones -/

theorem compare_lastByte (h : v / 64 = w / 64) :
    Ord.compare (UInt8.ofNat (v % 64 + 128) :: l) (UInt8.ofNat (w % 64 + 128) :: m) = .lt :=
  compare_cons_eq_lt (by omega) (.inl (by omega))

theorem compare_lastTwo (h : v / 4096 = w / 4096) :
    Ord.compare (UInt8.ofNat (v / 64 % 64 + 128) :: UInt8.ofNat (v % 64 + 128) :: l)
      (UInt8.ofNat (w / 64 % 64 + 128) :: UInt8.ofNat (w % 64 + 128) :: m) = .lt := by
  refine compare_cons_eq_lt (by omega) ?_
  by_cases hless : v / 64 < w / 64
  · exact .inl (by omega)
  · exact .inr ⟨by omega, compare_lastByte hlt (by omega)⟩

theorem compare_lastThree (h : v / 262144 = w / 262144) :
    Ord.compare (UInt8.ofNat (v / 4096 % 64 + 128) :: UInt8.ofNat (v / 64 % 64 + 128) ::
        UInt8.ofNat (v % 64 + 128) :: l)
      (UInt8.ofNat (w / 4096 % 64 + 128) :: UInt8.ofNat (w / 64 % 64 + 128) ::
        UInt8.ofNat (w % 64 + 128) :: m) = .lt := by
  refine compare_cons_eq_lt (by omega) ?_
  by_cases hless : v / 4096 < w / 4096
  · exact .inl (by omega)
  · exact .inr ⟨by omega, compare_lastTwo hlt (by omega)⟩

end

/-- the bytes of two characters decide, whatever follows them -/
theorem compare_char {c d : Char} (h : c < d) (l m : List UInt8) :
    Ord.compare (String.utf8EncodeChar c ++ l) (String.utf8EncodeChar d ++ m) = .lt := by
  have hlt : c.val.toNat < d.val.toNat := h
  have hvalid : d.val.toNat < 0xD800 ∨ 0xDFFF < d.val.toNat ∧ d.val.toNat < 0x110000 := d.valid
  rw [String.utf8EncodeChar, String.utf8EncodeChar]
  generalize c.val.toNat = v at hlt
  generalize d.val.toNat = w at hlt hvalid
  -- a longer form has a greater first byte
  by_cases h₁ : v ≤ 0x7F
  · rw [if_pos h₁]
    split_ifs <;> exact compare_cons_eq_lt (by omega) (.inl (by omega))
  rw [if_neg h₁, if_neg (show ¬ w ≤ 0x7F by omega)]
  by_cases h₂ : v ≤ 0x7FF
  · rw [if_pos h₂]
    split_ifs
    · refine compare_cons_eq_lt (by omega) ?_
      by_cases hless : v / 64 < w / 64
      · exact .inl (by omega)
      · exact .inr ⟨by omega, compare_lastByte hlt (by omega)⟩
    all_goals exact compare_cons_eq_lt (by omega) (.inl (by omega))
  rw [if_neg h₂, if_neg (show ¬ w ≤ 0x7FF by omega)]
  by_cases h₃ : v ≤ 0xFFFF
  · rw [if_pos h₃]
    split_ifs
    · refine compare_cons_eq_lt (by omega) ?_
      by_cases hless : v / 4096 < w / 4096
      · exact .inl (by omega)
      · exact .inr ⟨by omega, compare_lastTwo hlt (by omega)⟩
    · exact compare_cons_eq_lt (by omega) (.inl (by omega))
  · rw [if_neg h₃, if_neg (show ¬ w ≤ 0xFFFF by omega)]
    refine compare_cons_eq_lt (by omega) ?_
    by_cases hless : v / 262144 < w / 262144
    · exact .inl (by omega)
    · exact .inr ⟨by omega, compare_lastThree hlt (by omega)⟩

theorem compare_flatMap {cs ds : List Char} (h : List.Lex (· < ·) cs ds) :
    Ord.compare (cs.flatMap String.utf8EncodeChar) (ds.flatMap String.utf8EncodeChar) = .lt := by
  induction h with
  | @nil d ds =>
    have hlen : 0 < (String.utf8EncodeChar d).length := by
      rw [String.length_utf8EncodeChar]
      exact Char.utf8Size_pos d
    obtain ⟨b, l, hb⟩ := List.exists_cons_of_length_pos hlen
    rw [List.flatMap_nil, List.flatMap_cons, hb]
    rfl
  | rel hlt =>
    rw [List.flatMap_cons, List.flatMap_cons]
    exact compare_char hlt _ _
  | cons _ ih =>
    rw [List.flatMap_cons, List.flatMap_cons, compare_append_left]
    exact ih

/-- texts are ordered as their bytes are -/
theorem compare_encode (s t : String) : Ord.compare (encode s) (encode t) = Ord.compare s t := by
  have hlt : ∀ {s t : String}, Ord.compare s t = .lt → Ord.compare (encode s) (encode t) = .lt := by
    intro s t h
    rw [encode_eq_flatMap, encode_eq_flatMap]
    exact compare_flatMap (compareOfLessAndEq_eq_lt.1 h)
  cases h : Ord.compare s t with
  | lt => exact hlt h
  | eq =>
    rw [Std.LawfulEqOrd.compare_eq_iff_eq.1 h]
    exact Std.ReflCmp.compare_self
  | gt => exact Std.OrientedCmp.gt_of_lt (hlt (Std.OrientedCmp.lt_of_gt h))

end Utf8

/-! ## Keys -/

namespace Key

variable {k l : Key} {i j : Nat}

/-- equal texts are the same key, and so are the two zeros and numbers with the same bits -/
theorem same_iff_bits : k.same l = true ↔ (∃ s, k = text s ∧ l = text s) ∨
    ∃ x y, k = number x ∧ l = number y ∧
      (x.bits = y.bits ∨ x.isZero = true ∧ y.isZero = true) := by
  have hbits : ∀ {x y : Number}, x = y ↔ x.bits = y.bits := fun {_ _} =>
    ⟨congrArg Number.bits, fun h => congrArg Number.mk h⟩
  constructor
  · intro h
    cases k with
    | number x =>
      cases l with
      | number y => exact .inr ⟨x, y, rfl, rfl, (same_number.1 h).imp_left hbits.1⟩
      | text t => cases h
    | text s =>
      cases l with
      | number y => cases h
      | text t => exact .inl ⟨s, rfl, congrArg text (same_text.1 h).symm⟩
  · rintro (⟨s, rfl, rfl⟩ | ⟨x, y, rfl, rfl, h⟩)
    · exact same_text.2 rfl
    · exact same_number.2 (h.imp_left hbits.2)

/-- the same keys name the same position, if they name any -/
theorem index?_congr (h : k.same l = true) : k.index? = l.index? := by
  cases k with
  | number x =>
    cases l with
    | number y =>
      rcases same_number.1 h with rfl | ⟨hx, hy⟩
      · rfl
      · rw [index?, index?, Number.toNat?_of_isZero hx, Number.toNat?_of_isZero hy]
    | text t => cases h
  | text s =>
    cases l with
    | number y => cases h
    | text t => rfl

/-- a key that names a position is the key of that position -/
theorem index?_eq_some_iff :
    k.index? = some i ↔ i ≤ greatestIndex ∧ k.same (ofIndex i) = true := by
  constructor
  · intro h
    have hle := index?_le h
    refine ⟨hle, ?_⟩
    rw [same_iff, compare_of_index? h (index?_ofIndex hle)]
    exact Nat.compare_eq_eq.2 rfl
  · rintro ⟨hle, hsame⟩
    rw [index?_congr hsame]
    exact index?_ofIndex hle

theorem compare_ofIndex_eq_lt (hij : i < j) (hj : j ≤ greatestIndex) :
    (ofIndex i).compare (ofIndex j) = .lt := by
  rw [compare_of_index? (index?_ofIndex (hij.le.trans hj)) (index?_ofIndex hj)]
  exact Nat.compare_eq_lt.2 hij

/-- Keys are in a total order up to being the same.  Numbers come before texts; those that are no
NaN are ordered by their values, and texts by their bytes.  The keys of positions rise with these,
and no other keys name positions. -/
theorem order_and_positions :
    ((∀ k : Key, k.compare k = .eq) ∧
      (∀ k l : Key, l.compare k = (k.compare l).swap) ∧
      (∀ k l : Key, k.isAtMost l = true → l.isAtMost k = true → k.same l = true) ∧
      (∀ k l m : Key, k.isAtMost l = true → l.isAtMost m = true → k.isAtMost m = true) ∧
      (∀ k l : Key, k.isAtMost l = true ∨ l.isAtMost k = true)) ∧
    (∀ k l : Key, k.same l = true ↔ (∃ s, k = text s ∧ l = text s) ∨
      ∃ x y, k = number x ∧ l = number y ∧
        (x.bits = y.bits ∨ x.isZero = true ∧ y.isZero = true)) ∧
    ((∀ x s, (number x).compare (text s) = .lt) ∧
      (∀ x y u v, x.value? = some u → y.value? = some v →
        (number x).compare (number y) = cmp u v) ∧
      (∀ s t, (text s).compare (text t) = Ord.compare (Utf8.encode s) (Utf8.encode t))) ∧
    (∀ i ≤ greatestIndex, (ofIndex i).index? = some i) ∧
    (∀ i j, i < j → j ≤ greatestIndex → (ofIndex i).compare (ofIndex j) = .lt) ∧
    (∀ k i, index? k = some i ↔ i ≤ greatestIndex ∧ k.same (ofIndex i) = true) := by
  refine ⟨⟨fun k => Std.ReflCmp.compare_self, fun k l => Std.OrientedCmp.eq_swap, ?_, ?_, ?_⟩,
    fun k l => same_iff_bits, ⟨fun x s => rfl, ?_, ?_⟩, fun i hi => index?_ofIndex hi,
    fun i j hij hj => compare_ofIndex_eq_lt hij hj, fun k i => index?_eq_some_iff⟩
  · intro k l hkl hlk
    rw [isAtMost_iff] at hkl hlk
    exact same_iff.2 (Std.OrientedCmp.isLE_antisymm hkl hlk)
  · intro k l m hkl hlm
    rw [isAtMost_iff] at hkl hlm ⊢
    exact Std.TransCmp.isLE_trans hkl hlm
  · intro k l
    cases h : k.isAtMost l with
    | true => exact .inl rfl
    | false =>
      have hless : (!k.isAtMost l) = l.isLess k := not_isAtMost
      rw [h] at hless
      exact .inr (isAtMost_of_isLess hless.symm)
  · intro x y u v hx hy
    exact Number.totalCompare_of_value? hx hy
  · intro s t
    exact (Utf8.compare_encode s t).symm

/-- the two zeros, an infinity below `3 / 2`, a NaN below a text, and the last two positions -/
theorem order_and_positions_special :
    let zero := number ⟨0⟩
    let negativeZero := number ⟨0x8000000000000000⟩
    let nan := number ⟨0x7FF8000000000001⟩
    zero.same negativeZero = true ∧ nan.same (number ⟨0x7FF8000000000000⟩) = false ∧
      zero.isAtMost (text "") = true ∧
      (number ⟨0xFFF0000000000000⟩).compare (number ⟨0x3FF8000000000000⟩) =
        cmp ⊥ (((3 / 2 : ℚ) : WithTop ℚ) : WithBot (WithTop ℚ)) ∧
      (ofIndex 4294967294).compare (ofIndex greatestIndex) = .lt ∧
      (ofIndex greatestIndex).index? = some greatestIndex ∧ negativeZero.index? = some 0 := by
  intro zero negativeZero nan
  obtain ⟨⟨-, -, hanti, htrans, -⟩, hsame, ⟨-, hvalues, -⟩, hindex, hrises, hnames⟩ :=
    order_and_positions
  have hzero : zero.same negativeZero = true := hanti _ _ (by decide) (by decide)
  refine ⟨hzero, ?_, htrans _ nan _ (by decide) (by decide), ?_, hrises _ _ (by decide) (by decide),
    hindex _ (Nat.le_refl _), (hnames _ _).2 ⟨by decide, by decide +kernel⟩⟩
  · rw [Bool.eq_false_iff]
    intro h
    rcases (hsame _ _).1 h with ⟨_, hk, -⟩ | ⟨x, y, hx, hy, hbits⟩
    · nomatch hk
    · obtain rfl := number.inj hx
      obtain rfl := number.inj hy
      exact absurd hbits (by decide)
  · exact hvalues _ _ _ _ (by decide +kernel) (by decide +kernel)

end Key

end ScriptVars
