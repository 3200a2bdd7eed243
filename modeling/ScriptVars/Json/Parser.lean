import ScriptVars.Json.Token

/-!
# Parsing JSON

* `Json.value?`     the value at the front of some tokens;
* `Json.parse?`     the value that a text writes, with nothing but blanks around it.

A step into a value or on to the next member uses one unit of fuel.  Between two steps into
values at least one token is taken, so twice the number of tokens is enough.
-/

namespace ScriptVars.Json

mutual

def value? : (fuel : Nat) → List Token → Option (Json × List Token)
  | 0, _ => none
  | fuel + 1, tokens =>
    match tokens with
    | .null :: rest => some (null, rest)
    | .bool b :: rest => some (bool b, rest)
    | .number n :: rest => some (number n, rest)
    | .string text :: rest => some (string text, rest)
    | .openBracket :: .closeBracket :: rest => some (array [], rest)
    | .openBracket :: rest => items? fuel [] rest
    | .openBrace :: .closeBrace :: rest => some (object [], rest)
    | .openBrace :: rest => members? fuel [] rest
    | _ => none

/-- the array whose next item is at the front; `done` holds the items before, last first -/
def items? : (fuel : Nat) → (done : List Json) → List Token → Option (Json × List Token)
  | 0, _, _ => none
  | fuel + 1, done, tokens =>
    match value? fuel tokens with
    | some (v, .comma :: rest) => items? fuel (v :: done) rest
    | some (v, .closeBracket :: rest) => some (array (v :: done).reverse, rest)
    | _ => none

/-- the object whose next member is at the front; `done` holds the members before, last first -/
def members? : (fuel : Nat) → (done : List (Option String × Json)) → List Token →
    Option (Json × List Token)
  | 0, _, _ => none
  | fuel + 1, done, tokens =>
    match tokens with
    | .string name :: .colon :: rest =>
      match value? fuel rest with
      | some (v, .comma :: rest) => members? fuel ((name, v) :: done) rest
      | some (v, .closeBrace :: rest) => some (object ((name, v) :: done).reverse, rest)
      | _ => none
    | _ => none

end

def parse? (s : String) : Option Json := do
  let tokens ← tokens? s
  match ← value? (2 * tokens.length + 1) tokens with
  | (v, []) => some v
  | _ => none

end ScriptVars.Json
