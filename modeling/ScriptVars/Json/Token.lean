import ScriptVars.Json.Basic

/-!
# JSON tokens

* `Json.Token`               brackets, separators, and values without parts;
* `Json.LiteralPart`         what string literals are made of: characters and UTF-16 units;
* `Json.joinUnits?`          the text they make;
* `Json.scanNumeral?`        the numeral at the front of some characters;
* `Json.tokens?`             the tokens of a text.
-/

namespace ScriptVars.Json

inductive Token where
  | openBracket
  | closeBracket
  | openBrace
  | closeBrace
  | colon
  | comma
  | null
  | bool (b : Bool)
  | number (n : Numeral)
  | string (text : Option String)
  deriving DecidableEq, Repr

/-! ### string literals -/

/-- a part of a string literal: a character, or a UTF-16 unit behind an escape -/
inductive LiteralPart where
  | char (c : Char)
  | unit (n : Nat)
  deriving DecidableEq, Repr

def hexValue? (c : Char) : Option Nat :=
  if '0' ≤ c ∧ c ≤ '9' then some (c.toNat - '0'.toNat)
  else if 'a' ≤ c ∧ c ≤ 'f' then some (c.toNat - 'a'.toNat + 10)
  else if 'A' ≤ c ∧ c ≤ 'F' then some (c.toNat - 'A'.toNat + 10)
  else none

def unit? (a b c d : Char) : Option Nat := do
  return (((← hexValue? a) * 16 + (← hexValue? b)) * 16 + (← hexValue? c)) * 16 + (← hexValue? d)

/-- the character behind a backslash, for the escapes of one character -/
def shortEscape? (c : Char) : Option Char :=
  if c = '"' ∨ c = '\\' ∨ c = '/' then some c
  else if c = 'b' then some '\x08'
  else if c = 'f' then some '\x0c'
  else if c = 'n' then some '\n'
  else if c = 'r' then some '\r'
  else if c = 't' then some '\t'
  else none

/-- the parts of a literal up to the closing quote, and what follows it; `done` holds the parts
before, last first -/
def scanLiteral? : (done : List LiteralPart) → List Char →
    Option (List LiteralPart × List Char)
  | done, '"' :: rest => some (done.reverse, rest)
  | done, '\\' :: 'u' :: a :: b :: c :: d :: rest =>
    match unit? a b c d with
    | some n => scanLiteral? (.unit n :: done) rest
    | none => none
  | done, '\\' :: c :: rest =>
    match shortEscape? c with
    | some c => scanLiteral? (.char c :: done) rest
    | none => none
  | done, c :: rest =>
    if c.toNat < 0x20 || c = '\\' then none else scanLiteral? (.char c :: done) rest
  | _, [] => none

/-- the characters of a literal: two units of a surrogate pair make one character, a unit of a
pair by itself makes none; `done` holds the characters before, last first -/
def joinUnits? : (done : List Char) → List LiteralPart → Option (List Char)
  | done, [] => some done.reverse
  | done, .char c :: rest => joinUnits? (c :: done) rest
  | done, .unit high :: .unit low :: rest =>
    if 0xD800 ≤ high && high < 0xDC00 then
      if 0xDC00 ≤ low && low < 0xE000 then
        joinUnits? (Char.ofNat (0x10000 + (high - 0xD800) * 0x400 + (low - 0xDC00)) :: done) rest
      else none
    else if 0xDC00 ≤ high && high < 0xE000 then none
    else joinUnits? (Char.ofNat high :: done) (.unit low :: rest)
  | done, .unit n :: rest =>
    if 0xD800 ≤ n && n < 0xE000 then none else joinUnits? (Char.ofNat n :: done) rest

/-! ### numerals -/

/-- digits after the point, if there is a point; at least one must follow it -/
def scanFraction? : List Char → Option (List Char × List Char)
  | '.' :: rest =>
    let digits := rest.takeWhile Char.isDigit
    if digits.isEmpty then none else some (digits, rest.dropWhile Char.isDigit)
  | rest => some ([], rest)

def scanPower? (negative : Bool) (cs : List Char) : Option (Option Int × List Char) :=
  let digits := cs.takeWhile Char.isDigit
  if digits.isEmpty then none
  else
    let n : Int := Numeral.exponentOf digits
    some (some (if negative then -n else n), cs.dropWhile Char.isDigit)

def scanExponent? : List Char → Option (Option Int × List Char)
  | c :: rest =>
    if c = 'e' ∨ c = 'E' then
      match rest with
      | '+' :: rest => scanPower? false rest
      | '-' :: rest => scanPower? true rest
      | rest => scanPower? false rest
    else some (none, c :: rest)
  | [] => some (none, [])

/-- the digits before the point: a zero by itself, or digits that start with another one -/
def scanWhole? (cs : List Char) : Option (List Char × List Char) :=
  let digits := cs.takeWhile Char.isDigit
  match digits with
  | [] => none
  | '0' :: _ :: _ => none
  | _ => some (digits, cs.dropWhile Char.isDigit)

def scanUnsigned? (negative : Bool) (cs : List Char) : Option (Numeral × List Char) := do
  let (whole, rest) ← scanWhole? cs
  let (fraction, rest) ← scanFraction? rest
  let (exponent, rest) ← scanExponent? rest
  return (⟨negative, whole, fraction, exponent⟩, rest)

def scanNumeral? : List Char → Option (Numeral × List Char)
  | '-' :: rest => scanUnsigned? true rest
  | cs => scanUnsigned? false cs

/-! ### tokens -/

def isSpace (c : Char) : Bool := c = ' ' || c = '\n' || c = '\t' || c = '\r'

def scanToken? : List Char → Option (Token × List Char)
  | '[' :: rest => some (.openBracket, rest)
  | ']' :: rest => some (.closeBracket, rest)
  | '\x7b' :: rest => some (.openBrace, rest)
  | '\x7d' :: rest => some (.closeBrace, rest)
  | ':' :: rest => some (.colon, rest)
  | ',' :: rest => some (.comma, rest)
  | 'n' :: 'u' :: 'l' :: 'l' :: rest => some (.null, rest)
  | 't' :: 'r' :: 'u' :: 'e' :: rest => some (.bool true, rest)
  | 'f' :: 'a' :: 'l' :: 's' :: 'e' :: rest => some (.bool false, rest)
  | '"' :: rest =>
    match scanLiteral? [] rest with
    | some (parts, rest) => some (.string ((joinUnits? [] parts).map String.ofList), rest)
    | none => none
  | cs =>
    match scanNumeral? cs with
    | some (n, rest) => some (.number n, rest)
    | none => none

/-- the tokens of some characters; every token takes at least one character, so `fuel` may be
their number; `done` holds the tokens before, last first -/
def tokensFrom? : (fuel : Nat) → (done : List Token) → List Char → Option (List Token)
  | 0, done, cs => if (cs.dropWhile isSpace).isEmpty then some done.reverse else none
  | fuel + 1, done, cs =>
    match cs.dropWhile isSpace with
    | [] => some done.reverse
    | cs =>
      match scanToken? cs with
      | some (token, rest) => tokensFrom? fuel (token :: done) rest
      | none => none

def tokens? (s : String) : Option (List Token) :=
  let cs := s.toList
  tokensFrom? cs.length [] cs

end ScriptVars.Json
