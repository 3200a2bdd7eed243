import ScriptVars.Decimal.Shortest
import ScriptVars.Text.Padded

/-!
# Elements

What an array holds under a key: nothing, a number, a reference to game content (a form), a
string, or the id of another array.

* `ElementType`            the five kinds, with their codes in saves;
* `Element.compare`        the natural order: within a kind by value, between kinds by kind;
* `Element.compareAlpha`   the order of the displayed texts without regard to ASCII case;
* `Element.equal`          equality as scripts see it;
* `maxTextBytes`           the limit on texts.
-/

namespace ScriptVars

/-- the most bytes that a key, an element or a string variable may have -/
def maxTextBytes : Nat := 65535

inductive ElementType where
  | invalid
  | number
  | form
  | string
  | array
  deriving DecidableEq, Repr

namespace ElementType

/-- the code of a kind in saves; kinds are ordered by it -/
def code : ElementType → UInt8
  | invalid => 0
  | number => 1
  | form => 2
  | string => 3
  | array => 4

def ofCode? (code : UInt8) : Option ElementType :=
  if code = 0 then some invalid
  else if code = 1 then some number
  else if code = 2 then some form
  else if code = 3 then some string
  else if code = 4 then some array
  else none

def name : ElementType → String
  | invalid => "invalid"
  | number => "number"
  | form => "form"
  | string => "string"
  | array => "array"

def ofName? (name : String) : Option ElementType :=
  [invalid, number, form, string, array].find? (·.name == name)

theorem ofCode?_code (t : ElementType) : ofCode? t.code = some t := by cases t <;> rfl

theorem ofName?_name (t : ElementType) : ofName? t.name = some t := by cases t <;> rfl

end ElementType

/-- an element; ids are kept with their reserved bits -/
inductive Element where
  | invalid
  | number (x : Number)
  | form (id : UInt32)
  | string (s : String)
  | array (id : UInt32)
  deriving DecidableEq, Inhabited, Repr

namespace Element

def elementType : Element → ElementType
  | invalid => .invalid
  | number _ => .number
  | form _ => .form
  | string _ => .string
  | array _ => .array

def number? : Element → Option Number
  | number x => some x
  | _ => none

def form? : Element → Option UInt32
  | form id => some id
  | _ => none

def string? : Element → Option String
  | string s => some s
  | _ => none

def array? : Element → Option UInt32
  | array id => some id
  | _ => none

/-- what a script's condition makes of an element; a NaN counts as true -/
def isTruthy : Element → Bool
  | invalid => false
  | number x => !x.isZero
  | form id => id != 0
  | string s => s != ""
  | array id => id != 0

/-- equality as scripts see it: numbers by value, so that zeros agree and a NaN equals nothing -/
def equal : Element → Element → Bool
  | number x, number y => x.equal y
  | a, b => decide (a = b)

def display : Element → String
  | invalid => "<invalid>"
  | number x => x.display
  | form id => "[" ++ Padded.hex 8 id.toNat ++ "]"
  | string s => s
  | array id => "Array ID " ++ toString id.toNat

/-- the natural order: within a kind by value, between kinds by the code of the kind -/
def compare : Element → Element → Ordering
  | number x, number y => x.totalCompare y
  | form a, form b => Ord.compare a.toNat b.toNat
  | string s, string t => Ord.compare s t
  | array a, array b => Ord.compare a.toNat b.toNat
  | a, b => Ord.compare a.elementType.code.toNat b.elementType.code.toNat

/-- the displayed text with capital ASCII letters made small -/
def folded (e : Element) : String := e.display.map Char.toLower

/-- the order of the displayed texts without regard to ASCII case -/
def compareAlpha (a b : Element) : Ordering := Ord.compare a.folded b.folded

end Element
end ScriptVars
