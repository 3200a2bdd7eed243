import ScriptVars.Decimal.Numeral
import ScriptVars.Number

/-!
# Reading decimal numerals

What a numeral denotes.  Whole numbers of 64 bits stay exact.  Everything else is read in two
rounding steps: the leading digits that fit 64 bits become the nearest double, which is then
multiplied or divided by the double nearest to a power of ten.  The result is the nearest double
whenever the digits stay below `2 ^ 53` and the power below `10 ^ 23`.

* `Quantity`             an exact whole number, or a double;
* `Numeral.quantity?`    the value of a numeral, absent when it lies beyond the greatest double.
-/

namespace ScriptVars

/-- the value of a numeral: exact where it is a whole number of 64 bits -/
inductive Quantity where
  /-- a natural below `2 ^ 64` -/
  | natural (n : Nat)
  /-- the negation of a natural from one to `2 ^ 63` -/
  | negative (n : Nat)
  | real (x : Number)
  deriving DecidableEq, Repr

namespace Quantity

/-- the quantity as a double, rounded to nearest -/
def toNumber : Quantity → Number
  | natural n => Number.ofRatio false n 1
  | negative n => Number.ofRatio true n 1
  | real x => x

/-- the natural a quantity is, if it is one below `limit` -/
def toNatBelow? (limit : Nat) : Quantity → Option Nat
  | natural n => if n < limit then some n else none
  | _ => none

end Quantity

namespace Numeral

/-- one more than the greatest natural that stays exact -/
def exactLimit : Nat := 0x10000000000000000

/-- appends digits to a natural as long as the result stays exact; the digits from the
first that does not fit are handed back -/
def accumulate (n : Nat) : List Char → Nat × List Char
  | [] => (n, [])
  | c :: rest =>
    let next := n * 10 + digitValue c
    if next < exactLimit then accumulate next rest else (n, c :: rest)

/-- the greatest power of ten that has a finite double -/
def greatestPower : Nat := 308

/-- a non-negative number times `10 ^ exponent`, rounded once for each step; absent when the
result passes the greatest double.  Two divisions by the greatest power bring any 64-bit natural
to zero, so `fuel` is never used up. -/
def scaleByTen : (fuel : Nat) → Number → Int → Option Number
  | fuel, x, exponent =>
    if exponent.natAbs ≤ greatestPower then
      let power := Number.ofRatio false (powerOfTen exponent.natAbs) 1
      if 0 ≤ exponent then
        let product := x.mulMagnitude power
        if product.isFinite then some product else none
      else some (x.divMagnitude power)
    else if x.isZero then some x
    else if 0 ≤ exponent then none
    else
      match fuel with
      | 0 => some Number.zero
      | fuel + 1 =>
        scaleByTen fuel (x.divMagnitude (Number.ofRatio false (powerOfTen greatestPower) 1))
          (exponent + greatestPower)

/-- the digits and the power of ten of a numeral, cut to the digits that fit 64 bits.  Digits
dropped before the point count in the power; digits dropped after it do not. -/
def cut (n : Numeral) : Nat × Int :=
  let (whole, dropped) := accumulate 0 n.whole
  let (digits, unread) := accumulate whole n.fraction
  (digits, dropped.length - (n.fraction.length - unread.length : Nat) + n.exponent.getD 0)

/-- the value of a numeral; absent when it lies beyond the greatest double -/
def quantity? (n : Numeral) : Option Quantity :=
  let (whole, dropped) := accumulate 0 n.whole
  if dropped.isEmpty && n.fraction.isEmpty && n.exponent.isNone
      && !(n.negative && (whole = 0 || exactLimit < 2 * whole)) then
    some (if n.negative then .negative whole else .natural whole)
  else
    let (digits, exponent) := n.cut
    (scaleByTen 3 (Number.ofRatio false digits 1) exponent).map fun x =>
      .real (if n.negative then x.negate else x)

end Numeral
end ScriptVars
