/-!
# Padded numerals

Numbers in the fixed widths that reports use.

* `Padded.hex`      hexadecimal in capitals, zeros in front up to a width;
* `Padded.left`     decimal, blanks behind up to a width.
-/

namespace ScriptVars.Padded

/-- hexadecimal digits of a natural, in small letters -/
def hexDigits (n : Nat) : List Char := Nat.toDigits 16 n

/-- hexadecimal in capitals with zeros in front, at least `width` digits -/
def hex (width n : Nat) : String :=
  let digits := (hexDigits n).map Char.toUpper
  String.ofList (List.replicate (width - digits.length) '0' ++ digits)

/-- decimal with blanks behind, at least `width` characters -/
def left (width n : Nat) : String :=
  let digits := Nat.toDigits 10 n
  String.ofList (digits ++ List.replicate (width - digits.length) ' ')

end ScriptVars.Padded
