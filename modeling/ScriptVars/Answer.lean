import ScriptVars.ArrayStore.Query
import ScriptVars.Dump.Json

/-!
# Answers of commands

What a command has to say, and the two forms in which it says it.

* `Outcome`                       a dump, or reports on what was loaded and saved;
* `Answer`                        an outcome with a remark;
* `Answer.listing`                for people;
* `Answer.json`                   for programs;
* `Answer.render`                 either of them.
-/

namespace ScriptVars

/-- the result of a command -/
inductive Outcome where
  /-- everything a save holds -/
  | contents (dump : StoreDump)
  /-- a save was loaded -/
  | checked (load : LoadReport)
  /-- a save was written -/
  | packed (save : SaveReport)
  /-- a save was loaded and written again -/
  | pruned (load : LoadReport) (save : SaveReport)
  deriving DecidableEq, Repr

inductive AnswerStyle where
  | listing
  | json
  deriving DecidableEq, Repr

/-- what a command says -/
structure Answer where
  outcome : Outcome
  remark : Option String
  deriving DecidableEq, Repr

/-! ### listings -/

/-- lines without an end of line behind the last one -/
def textOfLines (lines : List String) : String := "\n".intercalate lines

namespace ArrayDump

/-- a headline, then a line for each entry -/
def listing (d : ArrayDump) : String :=
  ArrayStore.headline d.id d.kind d.owner d.refs ++ (if d.temporary then " temporary" else "")
    ++ "\n" ++ String.join (d.elements.map fun (k, e) => ArrayStore.entryLine k e)

end ArrayDump

def StringDump.listing (d : StringDump) : String :=
  "  #" ++ Padded.left 6 d.id.toNat ++ " owner " ++ Padded.hex 2 d.owner.toNat ++ " : \""
    ++ d.data ++ "\"\n"

/-- the arrays, then the strings under a heading if there are any -/
def StoreDump.listing (d : StoreDump) : String :=
  if d.arrays.isEmpty && d.strings.isEmpty then "No variables"
  else
    String.join (d.arrays.map ArrayDump.listing)
      ++ (if d.strings.isEmpty then ""
        else "Strings\n-------\n" ++ String.join (d.strings.map StringDump.listing))

def LoadReport.listing (r : LoadReport) : String :=
  textOfLines [
    "Load Summary",
    "------------",
    "Version:        " ++ toString r.version.toNat,
    "Arrays:         " ++ toString r.arrays ++ " (" ++ toString r.droppedArrays ++ " dropped)",
    "Strings:        " ++ toString r.strings ++ " (" ++ toString r.droppedStrings ++ " dropped)",
    "Nulled forms:   " ++ toString r.nulledForms,
    "Nulled arrays:  " ++ toString r.nulledArrays]

def SaveReport.listing (r : SaveReport) : String :=
  textOfLines [
    "Save Summary",
    "------------",
    "Arrays:         " ++ toString r.arrays ++ " (" ++ toString r.skipped ++ " pending skipped)",
    "Strings:        " ++ toString r.strings]

def Outcome.listing : Outcome → String
  | contents dump => dump.listing
  | checked load => load.listing
  | packed save => save.listing
  | pruned load save => load.listing ++ "\n" ++ save.listing

/-! ### JSON -/

def LoadReport.toJson (r : LoadReport) : Json :=
  .ofRecord [("version", .ofNat r.version.toNat), ("arrays", .ofNat r.arrays),
    ("strings", .ofNat r.strings), ("dropped_arrays", .ofNat r.droppedArrays),
    ("dropped_strings", .ofNat r.droppedStrings), ("nulled_forms", .ofNat r.nulledForms),
    ("nulled_arrays", .ofNat r.nulledArrays)]

def SaveReport.toJson (r : SaveReport) : Json :=
  .ofRecord [("arrays", .ofNat r.arrays), ("strings", .ofNat r.strings),
    ("skipped", .ofNat r.skipped)]

def Outcome.members : Outcome → List (String × Json)
  | contents dump => dump.members
  | checked load => [("check", load.toJson)]
  | packed save => [("saved", save.toJson)]
  | pruned load save => [("loaded", load.toJson), ("saved", save.toJson)]

namespace Answer

/-- the outcome, and the remark on a line of its own -/
def listing (a : Answer) : String :=
  let text := a.outcome.listing
  match a.remark with
  | none => text
  | some remark => (if text.isEmpty || text.endsWith "\n" then text else text ++ "\n") ++ remark

def toJson (a : Answer) : Json :=
  .ofRecord (a.outcome.members ++ a.remark.toList.map fun remark => ("message", .ofText remark))

def json (a : Answer) : String := a.toJson.pretty

def render (a : Answer) : AnswerStyle → String
  | .listing => a.listing
  | .json => a.json

end Answer
end ScriptVars
