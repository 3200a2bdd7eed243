import ScriptVars.Record.Stream

/-!
# The format of saves

A save holds a section of arrays and, after it, a section of strings.  A section is a start
record, a record for each variable, and an end record.

* `SaveFormat.arrayStart`, …          the tags of the records;
* `SaveFormat.currentVersion`, …      versions of array records: older ones have no references;
* `SaveReport`, `LoadReport`          what was written, what was read and repaired.
-/

namespace ScriptVars

namespace SaveFormat

def arrayStart : Tag := Tag.ofName "ARVS"
def arrayRecord : Tag := Tag.ofName "ARVR"
def arrayEnd : Tag := Tag.ofName "ARVE"
def stringStart : Tag := Tag.ofName "STVS"
def stringRecord : Tag := Tag.ofName "STVR"
def stringEnd : Tag := Tag.ofName "STVE"

/-- the version of array records with lists of references -/
def currentVersion : UInt32 := 2

/-- the version of array records without lists of references -/
def legacyVersion : UInt32 := 1

/-- the version of string records -/
def stringVersion : UInt32 := 1

def checkVersion (version : UInt32) : Except Failure Unit :=
  if version = legacyVersion ∨ version = currentVersion then .ok ()
  else .error (.format (.unsupportedVersion version.toNat))

end SaveFormat

/-- what a save wrote -/
structure SaveReport where
  arrays : Nat
  strings : Nat
  /-- arrays left out because the next sweeps would remove them -/
  skipped : Nat
  deriving DecidableEq, Repr

/-- what a load read and what it had to repair -/
structure LoadReport where
  version : UInt32
  arrays : Nat
  strings : Nat
  /-- arrays of modules that are gone -/
  droppedArrays : Nat
  /-- strings of modules that are gone -/
  droppedStrings : Nat
  /-- forms of modules that are gone -/
  nulledForms : Nat
  /-- elements that name an array which was not loaded -/
  nulledArrays : Nat
  deriving DecidableEq, Repr

def LoadReport.start (version : UInt32) : LoadReport := ⟨version, 0, 0, 0, 0, 0, 0⟩

end ScriptVars
