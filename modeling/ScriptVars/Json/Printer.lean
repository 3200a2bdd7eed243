import ScriptVars.Json.Basic
import ScriptVars.Text.Padded

/-!
# Printing JSON

* `Json.quoteTo`      a text as a string literal;
* `Json.compact`      a value without blanks;
* `Json.pretty`       a value with every item and member on a line of its own.

Values are printed behind a text, so that no character is put in place more than once, however
deep it stands; `compactTo_eq` and `prettyTo_eq` tell that what stands before does not matter.

A literal that denotes no text is printed as an empty one; no value made by this library has any.
-/

namespace ScriptVars.Json

/-! ### string literals -/

/-- the written form of a character in a string literal: quotes, backslashes and control
characters are escaped, all else stands for itself -/
def quoteChar (c : Char) : List Char :=
  if c = '"' then ['\\', '"']
  else if c = '\\' then ['\\', '\\']
  else if c = '\x08' then ['\\', 'b']
  else if c = '\x0c' then ['\\', 'f']
  else if c = '\n' then ['\\', 'n']
  else if c = '\r' then ['\\', 'r']
  else if c = '\t' then ['\\', 't']
  else if c.toNat < 0x20 then
    let digits := Padded.hexDigits c.toNat
    ['\\', 'u'] ++ List.replicate (4 - digits.length) '0' ++ digits
  else [c]

def pushAll (out : String) (cs : List Char) : String := cs.foldl String.push out

def quoteTo (out s : String) : String :=
  (s.toList.foldl (fun out c => pushAll out (quoteChar c)) (out.push '"')).push '"'

theorem pushAll_eq (out : String) (cs : List Char) : pushAll out cs = out ++ String.ofList cs := by
  induction cs generalizing out with
  | nil => simp [pushAll]
  | cons c cs ih =>
    rw [pushAll, List.foldl_cons, ← pushAll, ih, String.push_eq_append, String.append_assoc,
      ← String.ofList_cons]

theorem foldl_pushAll_eq (out : String) (cs : List Char) :
    cs.foldl (fun out c => pushAll out (quoteChar c)) out
      = out ++ String.ofList (cs.flatMap quoteChar) := by
  induction cs generalizing out with
  | nil => simp
  | cons c cs ih =>
    rw [List.foldl_cons, ih, pushAll_eq, String.append_assoc, List.flatMap_cons,
      String.ofList_append]

theorem quoteTo_eq_ofList (out s : String) :
    quoteTo out s = out ++ String.ofList ('"' :: s.toList.flatMap quoteChar ++ ['"']) := by
  rw [quoteTo, foldl_pushAll_eq, String.push_eq_append, String.push_eq_append]
  simp only [String.append_assoc, String.ofList_append, String.ofList_cons, List.cons_append,
    String.ofList_nil, String.append_empty]

theorem quoteTo_eq (out s : String) : quoteTo out s = out ++ quoteTo "" s := by
  rw [quoteTo_eq_ofList, quoteTo_eq_ofList, String.empty_append]

/-! ### without blanks -/

/-- a comma behind a text, if items or members stand there already -/
def commaTo (out : String) (later : Bool) : String := if later then out.push ',' else out

mutual

/-- a value without blanks, behind a text -/
def compactTo (out : String) : Json → String
  | null => out ++ "null"
  | bool b => out ++ (if b then "true" else "false")
  | number n => out ++ n.text
  | string text => quoteTo out (text.getD "")
  | array items => (compactItems (out.push '[') false items).push ']'
  | object members => (compactMembers (out.push '\x7b') false members).push '\x7d'

/-- the items of an array; `later` tells that others stand before them -/
def compactItems (out : String) (later : Bool) : List Json → String
  | [] => out
  | v :: rest => compactItems (compactTo (commaTo out later) v) true rest

def compactMembers (out : String) (later : Bool) : List (Option String × Json) → String
  | [] => out
  | (name, v) :: rest =>
    compactMembers (compactTo ((quoteTo (commaTo out later) (name.getD "")).push ':') v) true rest

end

theorem commaTo_eq (out : String) (later : Bool) : commaTo out later = out ++ commaTo "" later := by
  cases later
  · exact String.append_empty.symm
  · exact String.push_eq_append _

mutual

theorem compactTo_eq (out : String) : (j : Json) → compactTo out j = out ++ compactTo "" j
  | null => by simp only [compactTo, String.empty_append]
  | bool b => by simp only [compactTo, String.empty_append]
  | number n => by simp only [compactTo, String.empty_append]
  | string text => by rw [compactTo, compactTo, quoteTo_eq]
  | array items => by
    rw [compactTo, compactTo, compactItems_eq _ false items,
      compactItems_eq ("".push '[') false items]
    simp only [String.push_eq_append, String.append_assoc, String.empty_append]
  | object members => by
    rw [compactTo, compactTo, compactMembers_eq _ false members,
      compactMembers_eq ("".push '\x7b') false members]
    simp only [String.push_eq_append, String.append_assoc, String.empty_append]

theorem compactItems_eq (out : String) (later : Bool) :
    (items : List Json) → compactItems out later items = out ++ compactItems "" later items
  | [] => String.append_empty.symm
  | v :: rest => by
    rw [compactItems, compactItems, compactItems_eq _ true rest, compactTo_eq _ v, commaTo_eq,
      compactItems_eq (compactTo (commaTo "" later) v) true rest, compactTo_eq (commaTo "" later) v]
    simp only [String.append_assoc]

theorem compactMembers_eq (out : String) (later : Bool) :
    (members : List (Option String × Json)) →
      compactMembers out later members = out ++ compactMembers "" later members
  | [] => String.append_empty.symm
  | (name, v) :: rest => by
    rw [compactMembers, compactMembers, compactMembers_eq _ true rest, compactTo_eq _ v, quoteTo_eq,
      commaTo_eq,
      compactMembers_eq (compactTo ((quoteTo (commaTo "" later) _).push ':') v) true rest,
      compactTo_eq ((quoteTo (commaTo "" later) _).push ':') v, quoteTo_eq (commaTo "" later)]
    simp only [String.push_eq_append, String.append_assoc]

end

/-- a value without blanks -/
def compact (j : Json) : String := compactTo "" j

/-! ### with lines -/

def indentTo (out : String) : (level : Nat) → String
  | 0 => out
  | level + 1 => indentTo ((out.push ' ').push ' ') level

/-- a new line at some level of indentation; a comma ends the line before if items or members
stand there already -/
def newLineTo (out : String) (later : Bool) (level : Nat) : String :=
  indentTo ((commaTo out later).push '\n') level

mutual

def prettyTo (out : String) (level : Nat) : Json → String
  | null => out ++ "null"
  | bool b => out ++ (if b then "true" else "false")
  | number n => out ++ n.text
  | string text => quoteTo out (text.getD "")
  | array [] => out ++ "[]"
  | array (v :: rest) =>
    (newLineTo (prettyItems (out.push '[') (level + 1) false (v :: rest)) false level).push ']'
  | object [] => (out.push '\x7b').push '\x7d'
  | object (m :: rest) =>
    (newLineTo (prettyMembers (out.push '\x7b') (level + 1) false (m :: rest)) false level).push
      '\x7d'

/-- the items of an array, each on a line of its own; `later` tells that others stand before
them -/
def prettyItems (out : String) (level : Nat) (later : Bool) : List Json → String
  | [] => out
  | v :: rest => prettyItems (prettyTo (newLineTo out later level) level v) level true rest

def prettyMembers (out : String) (level : Nat) (later : Bool) :
    List (Option String × Json) → String
  | [] => out
  | (name, v) :: rest =>
    let named := quoteTo (newLineTo out later level) (name.getD "") ++ ": "
    prettyMembers (prettyTo named level v) level true rest

end

theorem indentTo_eq (out : String) (level : Nat) :
    indentTo out level = out ++ indentTo "" level := by
  induction level generalizing out with
  | zero => exact String.append_empty.symm
  | succ level ih =>
    rw [indentTo, indentTo, ih, ih (("".push ' ').push ' ')]
    simp only [String.push_eq_append, String.append_assoc, String.empty_append]

theorem newLineTo_eq (out : String) (later : Bool) (level : Nat) :
    newLineTo out later level = out ++ newLineTo "" later level := by
  rw [newLineTo, newLineTo, indentTo_eq, indentTo_eq ((commaTo "" later).push '\n'), commaTo_eq]
  simp only [String.push_eq_append, String.append_assoc]

mutual

theorem prettyTo_eq (out : String) (level : Nat) :
    (j : Json) → prettyTo out level j = out ++ prettyTo "" level j
  | null => by simp only [prettyTo, String.empty_append]
  | bool b => by simp only [prettyTo, String.empty_append]
  | number n => by simp only [prettyTo, String.empty_append]
  | string text => by rw [prettyTo, prettyTo, quoteTo_eq]
  | array [] => by simp only [prettyTo, String.empty_append]
  | array (v :: rest) => by
    rw [prettyTo, prettyTo, newLineTo_eq, prettyItems_eq _ (level + 1) false (v :: rest),
      newLineTo_eq (prettyItems ("".push '[') (level + 1) false (v :: rest)),
      prettyItems_eq ("".push '[') (level + 1) false (v :: rest)]
    simp only [String.push_eq_append, String.append_assoc, String.empty_append]
  | object [] => by simp only [prettyTo, String.push_eq_append, String.append_assoc,
      String.empty_append]
  | object (m :: rest) => by
    rw [prettyTo, prettyTo, newLineTo_eq, prettyMembers_eq _ (level + 1) false (m :: rest),
      newLineTo_eq (prettyMembers ("".push '\x7b') (level + 1) false (m :: rest)),
      prettyMembers_eq ("".push '\x7b') (level + 1) false (m :: rest)]
    simp only [String.push_eq_append, String.append_assoc, String.empty_append]

theorem prettyItems_eq (out : String) (level : Nat) (later : Bool) :
    (items : List Json) →
      prettyItems out level later items = out ++ prettyItems "" level later items
  | [] => String.append_empty.symm
  | v :: rest => by
    rw [prettyItems, prettyItems, prettyItems_eq _ level true rest, prettyTo_eq _ level v,
      newLineTo_eq, prettyItems_eq (prettyTo (newLineTo "" later level) level v) level true rest,
      prettyTo_eq (newLineTo "" later level) level v]
    simp only [String.append_assoc]

theorem prettyMembers_eq (out : String) (level : Nat) (later : Bool) :
    (members : List (Option String × Json)) →
      prettyMembers out level later members = out ++ prettyMembers "" level later members
  | [] => String.append_empty.symm
  | (name, v) :: rest => by
    rw [prettyMembers, prettyMembers, prettyMembers_eq _ level true rest, prettyTo_eq _ level v,
      quoteTo_eq, newLineTo_eq,
      prettyMembers_eq (prettyTo (quoteTo (newLineTo "" later level) _ ++ ": ") level v) level true
        rest,
      prettyTo_eq (quoteTo (newLineTo "" later level) _ ++ ": ") level v,
      quoteTo_eq (newLineTo "" later level)]
    simp only [String.append_assoc]

end

/-- a value with every item and member on a line of its own -/
def pretty (j : Json) : String := prettyTo "" 0 j

end ScriptVars.Json
