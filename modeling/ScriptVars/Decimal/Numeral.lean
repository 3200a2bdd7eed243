/-!
# Decimal numerals

The written form of a number, taken apart: sign, digits before the point, digits after it, and an
exponent if there is one.  Reading and writing of numbers both go through this form.

* `Numeral`          the parts of a written number;
* `Numeral.text`     the parts put together again.
-/

namespace ScriptVars

/-- a decimal numeral; `whole` and `fraction` hold decimal digits only -/
structure Numeral where
  negative : Bool
  whole : List Char
  fraction : List Char
  exponent : Option Int
  deriving DecidableEq, Repr

namespace Numeral

def digitsOf (n : Nat) : List Char := Nat.toDigits 10 n

def digitValue (c : Char) : Nat := c.toNat - '0'.toNat

/-- exponents from this one on are all taken as this one: no text is long enough for its digits to
make up for them -/
def greatestExponent : Nat := 0x7FFFFFFF

def exponentOf (digits : List Char) : Nat :=
  digits.foldl (fun n c => min (n * 10 + digitValue c) greatestExponent) 0

def ofNat (n : Nat) : Numeral := ⟨false, digitsOf n, [], none⟩

/-- exponent part: a sign in both directions -/
def exponentText (e : Int) : List Char :=
  'e' :: (if e < 0 then '-' else '+') :: digitsOf e.natAbs

def chars (n : Numeral) : List Char :=
  (if n.negative then ['-'] else [])
    ++ n.whole
    ++ (if n.fraction.isEmpty then [] else '.' :: n.fraction)
    ++ (match n.exponent with
      | none => []
      | some e => exponentText e)

def text (n : Numeral) : String := String.ofList n.chars

end Numeral
end ScriptVars
