import ScriptVars.Power

/-!
# Script numbers

A number of a script is an IEEE double, kept as its 64 bits: a save must give back the sign of
zero and the payload of every NaN.  No hardware arithmetic is used; whatever depends on the
numeric value goes through exact naturals.

* `Number.magnitude`, `Number.isNegative`   the bits without the sign, and the sign;
* `Number.units`                            `|x|` as a natural number of units of `2 ^ -1074`;
* `Number.totalCompare`                     the IEEE total order of the bit patterns;
* `Number.equal`                            numeric equality: zeros agree, a NaN equals nothing;
* `Number.ofRatio`                          the double nearest to a ratio of naturals;
* `Number.toNat?`                           the natural that a number denotes exactly.
-/

namespace ScriptVars

/-- an IEEE double, as its 64 bits -/
structure Number where
  bits : UInt64
  deriving DecidableEq, Inhabited, Repr

namespace Number

def signBit : Nat := 0x8000000000000000

/-- the leading one of the significand of a normal number; the bits of its fraction are below it -/
def leadingBit : Nat := 0x10000000000000

/-- the bits of infinity without the sign; all greater magnitudes are NaN -/
def infinityMagnitude : Nat := 0x7FF0000000000000

def isNegative (x : Number) : Bool := signBit ≤ x.bits.toNat

/-- the bits without the sign -/
def magnitude (x : Number) : Nat := x.bits.toNat % signBit

/-- the number with the given sign and magnitude (below the sign bit) -/
def ofMagnitude (negative : Bool) (magnitude : Nat) : Number :=
  ⟨UInt64.ofNat (if negative then signBit + magnitude else magnitude)⟩

def isNaN (x : Number) : Bool := infinityMagnitude < x.magnitude

def isFinite (x : Number) : Bool := x.magnitude < infinityMagnitude

def isZero (x : Number) : Bool := x.magnitude = 0

def zero : Number := ⟨0⟩

def negate (x : Number) : Number := ofMagnitude (!x.isNegative) x.magnitude

/-- the same number, with a negative zero replaced by the positive one -/
def foldZero (x : Number) : Number := if x.isZero then zero else x

/-! ### order and equality -/

/-- position of a bit pattern in the IEEE total order, counted from positive zero; negative
numbers count down from `-1`, so `-0` stands just below `+0` -/
def rank (x : Number) : Int :=
  if x.isNegative then -(x.magnitude : Int) - 1 else x.magnitude

/-- the IEEE total order: negative NaN, `-inf`, …, `-0`, `+0`, …, `+inf`, positive NaN -/
def totalCompare (x y : Number) : Ordering := compare x.rank y.rank

/-- numeric equality: the two zeros are equal and a NaN equals nothing, not even itself -/
def equal (x y : Number) : Bool := !x.isNaN && (x == y || (x.isZero && y.isZero))

/-! ### exact values -/

/-- biased exponent, at least one: denormal numbers share the spacing of the smallest normal
ones -/
def exponentField (x : Number) : Nat := max 1 (x.magnitude / leadingBit)

/-- integral significand of a finite number, with the leading one of normal numbers -/
def significand (x : Number) : Nat :=
  if x.magnitude < leadingBit then x.magnitude else leadingBit + x.magnitude % leadingBit

/-- distance to the next number of the same exponent, in units of `2 ^ -1074` -/
def spacing (x : Number) : Nat := powerOfTwo (x.exponentField - 1)

/-- the absolute value of a finite number in units of `2 ^ -1074` -/
def units (x : Number) : Nat := x.significand * x.spacing

/-- how many units of `2 ^ -1074` make one -/
def unitsPerOne : Nat := powerOfTwo 1074

/-- the spacing as a ratio: how often one goes into it, if it is one or more -/
def spacingNumerator (x : Number) : Nat := powerOfTwo (x.exponentField - 1 - 1074)

/-- the spacing as a ratio: how often it goes into one, if it is one or less -/
def spacingDenominator (x : Number) : Nat := powerOfTwo (1074 - (x.exponentField - 1))

/-- the spacing is the same in units and as a ratio -/
theorem spacing_mul_denominator (x : Number) :
    x.spacing * x.spacingDenominator = x.spacingNumerator * unitsPerOne := by
  rw [spacing, spacingDenominator, spacingNumerator, unitsPerOne, ← powerOfTwo_add,
    ← powerOfTwo_add]
  exact congrArg powerOfTwo (by omega)

/-- quotient rounded to the nearest natural, a half going to the even neighbour -/
def roundHalfEven (numerator denominator : Nat) : Nat :=
  let quotient := numerator / denominator
  let twice := 2 * (numerator % denominator)
  if twice < denominator then quotient
  else if denominator < twice then quotient + 1
  else if quotient % 2 = 0 then quotient
  else quotient + 1

/-- the number nearest to `numerator / denominator`, a half going to the even significand; what
lies beyond the greatest finite number becomes infinity.  The magnitude of a number with
significand `m` and spacing `2 ^ s` is `s * 2 ^ 52 + m`, also when rounding carries `m` to
`2 ^ 53`. -/
def ofRatio (negative : Bool) (numerator denominator : Nat) : Number :=
  let scaled := numerator * unitsPerOne
  let shift := (scaled / denominator).log2 - 52
  let m := roundHalfEven scaled (denominator * powerOfTwo shift)
  ofMagnitude negative (min (shift * leadingBit + m) infinityMagnitude)

/-- the number nearest to a natural; exact below `2 ^ 53` -/
def ofNat (n : Nat) : Number := ofRatio false n 1

/-- the natural that a finite, non-negative, whole number denotes; `-0` denotes zero -/
def toNat? (x : Number) : Option Nat :=
  if x.isFinite && (!x.isNegative || x.isZero) && x.units % unitsPerOne = 0 then
    some (x.units / unitsPerOne)
  else none

def mulMagnitude (x y : Number) : Number :=
  ofRatio false (x.units * y.units) (unitsPerOne * unitsPerOne)

def divMagnitude (x y : Number) : Number := ofRatio false x.units y.units

end Number
end ScriptVars
