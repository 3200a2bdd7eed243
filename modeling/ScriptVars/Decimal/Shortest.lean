import ScriptVars.Decimal.Numeral
import ScriptVars.Number

/-!
# Shortest decimals

The fewest decimal digits that identify a double: of the decimals that round to the number, one
with the fewest digits, and of those the nearest.  All arithmetic is on naturals: a number is its
significand times its spacing, the spacing is a ratio, and everything is counted in quarters, so
that the middle between two neighbouring doubles is a whole count.

* `Decimal`                `digits * 10 ^ exponent`;
* `Tie`                    which way a number goes that lies halfway between two decimals;
* `Decimal.onGrid?`        the best decimal with a given number of digits, if one rounds back;
* `Decimal.shortest`       the first hit for 1, 2, … 17 digits;
* `NumberStyle`            how digits are laid out: positional range, tail of whole numbers;
* `Number.numeral?`        the written form of a finite number in a style.
-/

namespace ScriptVars

/-- which of two equally near decimals is taken -/
inductive Tie where
  | up
  | even
  deriving DecidableEq, Repr

/-- the decimal `digits * 10 ^ exponent` -/
structure Decimal where
  digits : Nat
  exponent : Int
  deriving DecidableEq, Repr

namespace Decimal

def digitCount (n : Nat) : Nat := (Numeral.digitsOf n).length

/-- the place `p` with `10 ^ (p - 1) ≤ a / b < 10 ^ p`, for positive `a` and `b` -/
def leadingPlace (a b : Nat) : Int :=
  if b ≤ a then digitCount (a / b)
  else
    let count := digitCount (b / a)
    if b ≤ a * powerOfTen (count - 1) then 2 - (count : Int) else 1 - (count : Int)

/-- whether the neighbour below is only half as far away as the one above -/
def isBinadeStart (x : Number) : Bool := x.magnitude % Number.leadingBit = 0 && 1 < x.exponentField

/-- the nearest decimal to `x` with its last digit at `10 ^ exponent`, among the two around `x`,
provided that it rounds to `x`.  The numbers that round to `x` reach half the spacing to each
side; the two ends belong to them when the significand is even. -/
def onGrid? (tie : Tie) (x : Number) (exponent : Int) : Option Decimal :=
  let quarter := x.spacingNumerator * powerOfTen (-exponent).toNat
  let value := 4 * x.significand * quarter
  let step := 4 * x.spacingDenominator * powerOfTen exponent.toNat
  let above := 2 * quarter
  let below := (if isBinadeStart x then 1 else 2) * quarter
  let closed := x.significand % 2 = 0
  let low := value / step
  let rest := value % step
  let gap := step - rest
  let lowHit : Bool := rest < below || (closed && rest = below)
  let highHit : Bool := gap < above || (closed && gap = above)
  let preferHigh : Bool :=
    rest > gap || (rest = gap && (match tie with
      | .up => true
      | .even => low % 2 = 1))
  if lowHit && !(highHit && preferHigh) then some ⟨low, exponent⟩
  else if highHit then some ⟨low + 1, exponent⟩
  else none

/-- the first decimal that rounds to `x` when one digit after the other is allowed; `more` bounds
the digits still to try -/
def search (tie : Tie) (x : Number) (place : Int) : (more count : Nat) → Decimal
  | 0, count =>
    ⟨x.significand * x.spacingNumerator * powerOfTen (count - place).toNat
        / (x.spacingDenominator * powerOfTen (place - count).toNat),
      place - count⟩
  | more + 1, count =>
    match onGrid? tie x (place - (count + 1 : Nat)) with
    | some d => d
    | none => search tie x place more (count + 1)

/-- the same value without zeros at the end of the digits -/
def stripZeros : (fuel : Nat) → Decimal → Decimal
  | 0, d => d
  | fuel + 1, d =>
    if d.digits ≠ 0 && d.digits % 10 = 0 then stripZeros fuel ⟨d.digits / 10, d.exponent + 1⟩
    else d

/-- the shortest decimal of a finite number other than zero; seventeen digits always suffice -/
def shortest (tie : Tie) (x : Number) : Decimal :=
  let place := leadingPlace (x.significand * x.spacingNumerator) x.spacingDenominator
  stripZeros 20 (search tie x place 17 0)

end Decimal

/-- how the digits of a number are laid out -/
structure NumberStyle where
  /-- which of two equally near shortest decimals is written -/
  tie : Tie
  /-- the least and the greatest place of the leading digit (the place of `1` is one) that is
  written without an exponent; always without one if absent -/
  positional : Option (Int × Int)
  /-- digits after the point of a whole number -/
  wholeTail : List Char

namespace NumberStyle

def isPositional (style : NumberStyle) (place : Int) : Bool :=
  match style.positional with
  | none => true
  | some (least, greatest) => least ≤ place && place ≤ greatest

/-- the numeral of a decimal other than zero -/
def layOut (style : NumberStyle) (negative : Bool) (d : Decimal) : Numeral :=
  let digits := Numeral.digitsOf d.digits
  let place := digits.length + d.exponent
  if style.isPositional place then
    if 0 ≤ d.exponent then
      ⟨negative, digits ++ List.replicate d.exponent.toNat '0', style.wholeTail, none⟩
    else if 0 < place then
      ⟨negative, digits.take place.toNat, digits.drop place.toNat, none⟩
    else ⟨negative, ['0'], List.replicate (-place).toNat '0' ++ digits, none⟩
  else ⟨negative, digits.take 1, digits.drop 1, some (place - 1)⟩

end NumberStyle

namespace Number

/-- the written form of a finite number; zero keeps its sign -/
def numeral? (style : NumberStyle) (x : Number) : Option Numeral :=
  if !x.isFinite then none
  else if x.isZero then some ⟨x.isNegative, ['0'], style.wholeTail, none⟩
  else some (style.layOut x.isNegative (Decimal.shortest style.tie x))

/-- scripts show numbers without exponents and without a point where none is needed; a tie goes
up -/
def plainStyle : NumberStyle := ⟨.up, none, []⟩

/-- the text of a number as scripts show it -/
def display (x : Number) : String :=
  match x.numeral? plainStyle with
  | some n => n.text
  | none => if x.isNaN then "NaN" else if x.isNegative then "-inf" else "inf"

end Number
end ScriptVars
