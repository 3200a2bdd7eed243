import ScriptVars.Decimal.Shortest

/-!
# Keys

An element of an array is addressed by a number or by a text.  Numbers are ordered before texts;
numbers by the IEEE total order with both zeros taken as one, texts by their bytes (which is the
order of their code points).

* `KeyType`            what kind of key an array uses;
* `Key.compare`        the order of keys;
* `Key.index?`         the position in a packed array that a key names.
-/

namespace ScriptVars

/-- the type of the keys of an array; no array uses `invalid` -/
inductive KeyType where
  | invalid
  | number
  | text
  deriving DecidableEq, Repr

namespace KeyType

def code : KeyType → UInt8
  | invalid => 0
  | number => 1
  | text => 3

def ofCode? (code : UInt8) : Option KeyType :=
  if code = 0 then some invalid
  else if code = 1 then some number
  else if code = 3 then some text
  else none

def name : KeyType → String
  | invalid => "invalid"
  | number => "number"
  | text => "string"

theorem ofCode?_code (t : KeyType) : ofCode? t.code = some t := by cases t <;> rfl

end KeyType

/-- a key; a number key keeps the bits it was made with, also those of a negative zero -/
inductive Key where
  | number (x : Number)
  | text (s : String)
  deriving DecidableEq, Repr

namespace Key

/-- the key of a number; a negative zero becomes the positive one -/
def ofNumber (x : Number) : Key := number x.foldZero

def ofIndex (i : Nat) : Key := ofNumber (Number.ofNat i)

def number? : Key → Option Number
  | number x => some x
  | text _ => none

def text? : Key → Option String
  | number _ => none
  | text s => some s

def keyType : Key → KeyType
  | number _ => .number
  | text _ => .text

/-- the order of keys; keys that compare as equal are the same key to every array -/
def compare : Key → Key → Ordering
  | number x, number y => x.foldZero.totalCompare y.foldZero
  | text s, text t => Ord.compare s t
  | number _, text _ => .lt
  | text _, number _ => .gt

def same (k l : Key) : Bool := k.compare l == .eq

def isLess (k l : Key) : Bool := k.compare l == .lt

def isAtMost (k l : Key) : Bool := k.compare l != .gt

/-- the greatest position a key can name -/
def greatestIndex : Nat := 0xFFFFFFFF

/-- the position that a key names: a whole number from zero to `greatestIndex` -/
def index? : Key → Option Nat
  | number x =>
    match x.toNat? with
    | some n => if n ≤ greatestIndex then some n else none
    | none => none
  | text _ => none

/-- a key as messages and listings show it -/
def display : Key → String
  | number x => x.display
  | text s => "\"" ++ s ++ "\""

end Key
end ScriptVars
