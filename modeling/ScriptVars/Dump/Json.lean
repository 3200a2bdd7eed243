import ScriptVars.Dump.Basic
import ScriptVars.Json.Parser
import ScriptVars.Json.Printer

/-!
# Dumps as JSON

A dump is an object with a list of arrays and a list of strings.  A key is a number or a string
by itself; an element names its kind beside its value.

* `Key.toJson`, `Element.toJson`, …            the written form;
* `Key.ofJson?`, `Element.ofJson?`, …          reading it, member by member, in any order;
* `StoreDump.parse?`                           the dump that a text writes.

Records may also be written as arrays of their parts, in the order of the fields here; members
that a record does not have are passed over.
-/

namespace ScriptVars

/-! ### keys and elements -/

namespace Key

def toJson : Key → Json
  | number x => .ofNumber x
  | text s => .ofText s

/-- a number key keeps the sign of a zero that is written with one -/
def ofJson? : Json → Option Key
  | .number n => (Json.number n).number?.map number
  | .string s => s.map text
  | _ => none

end Key

namespace Element

/-- the value of an element, without its kind; an invalid one has none -/
def valueToJson : Element → Option Json
  | invalid => none
  | number x => some (.ofNumber x)
  | form id => some (.ofNat id.toNat)
  | string s => some (.ofText s)
  | array id => some (.ofNat id.toNat)

def members (e : Element) : List (String × Json) :=
  ("type", .ofText e.elementType.name) :: e.valueToJson.toList.map fun v => ("value", v)

def toJson (e : Element) : Json := .ofMembers e.members

/-- the element of a kind with a value; only the invalid one may do without, or have null -/
def ofValue? : ElementType → Option Json → Option Element
  | .invalid, none => some invalid
  | .invalid, some .null => some invalid
  | .number, some j => j.number?.map number
  | .form, some j => j.word?.map form
  | .string, some j => j.text?.map string
  | .array, some j => j.word?.map array
  | _, _ => none

/-- an element by the names of its parts, or as the two of them in an array, where the kind is
always a string -/
def ofJson? (j : Json) : Option Element := do
  match j with
  | .array [kind, value] => ofValue? (← ElementType.ofName? (← kind.text?)) (some value)
  | .object _ =>
    match ← j.fields? ["type", "value"] true with
    | [some kind, value] => ofValue? (← ElementType.ofName? (← kind.tag?)) value
    | _ => none
  | _ => none

end Element

/-! ### records -/

def entryToJson (entry : Key × Element) : Json :=
  .ofRecord [("key", entry.1.toJson), ("value", entry.2.toJson)]

def entryOfJson? (j : Json) : Option (Key × Element) := do
  match ← j.fields? ["key", "value"] true with
  | [key, value] =>
    return (← Json.required? Key.ofJson? key, ← Json.required? Element.ofJson? value)
  | _ => none

namespace ArrayDump

/-- the flag of a temporary array is written only where it is set -/
def toJson (d : ArrayDump) : Json :=
  .ofRecord ([("id", .ofNat d.id.toNat), ("kind", .ofText d.kind.tag),
    ("owner", .ofNat d.owner.toNat), ("refs", .array (d.refs.map fun m => .ofNat m.toNat))]
    ++ (if d.temporary then [("temporary", .bool true)] else [])
    ++ [("elements", .array (d.elements.map entryToJson))])

def ofJson? (j : Json) : Option ArrayDump := do
  match ← j.fields? ["id", "kind", "owner", "refs", "temporary", "elements"] true with
  | [id, kind, owner, refs, temporary, elements] =>
    return {
      id := ← Json.required? Json.word? id
      kind := ← Json.required? (fun k => k.tag?.bind ArrayKind.ofTag?) kind
      owner := ← Json.required? Json.byte? owner
      refs := ← Json.optional? [] (Json.list? Json.byte?) refs
      temporary := ← Json.optional? false Json.bool? temporary
      elements := ← Json.optional? [] (Json.list? entryOfJson?) elements }
  | _ => none

end ArrayDump

namespace StringDump

def toJson (d : StringDump) : Json :=
  .ofRecord [("id", .ofNat d.id.toNat), ("owner", .ofNat d.owner.toNat), ("data", .ofText d.data)]

def ofJson? (j : Json) : Option StringDump := do
  match ← j.fields? ["id", "owner", "data"] true with
  | [id, owner, data] =>
    return {
      id := ← Json.required? Json.word? id
      owner := ← Json.required? Json.byte? owner
      data := ← Json.required? Json.text? data }
  | _ => none

end StringDump

namespace StoreDump

def members (d : StoreDump) : List (String × Json) :=
  [("arrays", .array (d.arrays.map ArrayDump.toJson)),
    ("strings", .array (d.strings.map StringDump.toJson))]

def toJson (d : StoreDump) : Json := .ofRecord d.members

def ofJson? (j : Json) : Option StoreDump := do
  match ← j.fields? ["arrays", "strings"] true with
  | [arrays, strings] =>
    return {
      arrays := ← Json.optional? [] (Json.list? ArrayDump.ofJson?) arrays
      strings := ← Json.optional? [] (Json.list? StringDump.ofJson?) strings }
  | _ => none

def parse? (text : String) : Option StoreDump := (Json.parse? text).bind ofJson?

end StoreDump
end ScriptVars
