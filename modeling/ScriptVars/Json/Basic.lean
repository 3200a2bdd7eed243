import ScriptVars.Decimal.Reading
import ScriptVars.Decimal.Shortest

/-!
# JSON values

A JSON text as a tree.  Numbers stay in their written form, and a string literal that contains
half of a surrogate pair denotes no text: whether either is acceptable depends on where it stands.

* `Json`                                       the tree;
* `Json.text?`, `number?`, `natural?`, …       what a value is, if it is of some type;
* `Json.fields?`                               the parts of a record, by name or by position;
* `Json.tag?`                                  the name of a case without contents;
* `Json.ofNumber`, `ofNat`, `ofRecord`         values to be written.
-/

namespace ScriptVars

/-- a JSON value; `none` in place of a text is a literal that denotes none -/
inductive Json where
  | null
  | bool (b : Bool)
  | number (n : Numeral)
  | string (text : Option String)
  | array (items : List Json)
  | object (members : List (Option String × Json))
  deriving Repr

namespace Json

/-! ### reading -/

def text? : Json → Option String
  | string text => text
  | _ => none

def bool? : Json → Option Bool
  | bool b => some b
  | _ => none

def number? : Json → Option Number
  | number n => n.quantity?.map Quantity.toNumber
  | _ => none

/-- a natural below a limit, written without point and exponent -/
def natural? (limit : Nat) : Json → Option Nat
  | number n => n.quantity?.bind (Quantity.toNatBelow? limit)
  | _ => none

def byte? (j : Json) : Option UInt8 := (j.natural? 0x100).map UInt8.ofNat

def word? (j : Json) : Option UInt32 := (j.natural? 0x100000000).map UInt32.ofNat

def list? {α : Type} (read : Json → Option α) : Json → Option (List α)
  | array items => items.mapM read
  | _ => none

/-- the name of a case without contents: a string, or an object that holds null under the name -/
def tag? : Json → Option String
  | string text => text
  | object [(name, null)] => name
  | _ => none

/-- the value of the only member with a name; `none` if there is none, refused if there are
several -/
def member? (members : List (Option String × Json)) (name : String) : Option (Option Json) :=
  match members.filter fun (k, _) => k == some name with
  | [] => some none
  | [(_, v)] => some (some v)
  | _ => none

/-- the parts of a record with the given names.  An array has them by position, and parts at the
end may be absent; an object has them by name, each at most once, and other members are passed
over if `isOpen` is set and refused otherwise. -/
def fields? (names : List String) (isOpen : Bool) : Json → Option (List (Option Json))
  | array items =>
    if items.length ≤ names.length then
      some (items.map some ++ List.replicate (names.length - items.length) none)
    else none
  | object members =>
    if members.all fun (k, _) =>
        match k with
        | none => false
        | some k => isOpen || names.contains k
    then names.mapM (member? members)
    else none
  | _ => none

def required? {α : Type} (read : Json → Option α) : Option Json → Option α
  | some j => read j
  | none => none

def optional? {α : Type} (absent : α) (read : Json → Option α) : Option Json → Option α
  | some j => read j
  | none => some absent

/-! ### writing -/

/-- whole numbers have a zero after the point, leading digits from the fifth place after the
point to the sixteenth before it are written without an exponent, and a tie goes to the even
digit -/
def numberStyle : NumberStyle := ⟨.even, some (-4, 16), ['0']⟩

/-- a double; JSON has no form for infinities and NaN, which become null -/
def ofNumber (x : Number) : Json :=
  match x.numeral? numberStyle with
  | some n => number n
  | none => null

def ofNat (n : Nat) : Json := number (Numeral.ofNat n)

def ofText (s : String) : Json := string (some s)

def ofMembers (members : List (String × Json)) : Json :=
  object (members.map fun (k, v) => (some k, v))

/-- an object with its members in the order of their names -/
def ofRecord (members : List (String × Json)) : Json :=
  ofMembers (members.mergeSort fun p q => p.1 ≤ q.1)

end Json
end ScriptVars
