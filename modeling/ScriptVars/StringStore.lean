import ScriptVars.HandleTable
import ScriptVars.Storage

/-!
# String variables

Strings of scripts, behind handles of their own.  They carry no references: a temporary string
lives until the next sweep, unless a script claims it before.

* `StringStore.create`, `createTemporary`   new strings;
* `StringStore.assign`                      another text for a string;
* `StringStore.sweep`                       removes the temporary ones.
-/

namespace ScriptVars

/-- a string of a script -/
structure StringVar where
  data : String
  /-- the module that made it -/
  owner : UInt8
  deriving DecidableEq, Repr

/-- the strings of a session -/
abbrev StringStore := HandleTable StringVar

namespace StringStore

def create (data : String) (owner : UInt8) : Action StringStore UInt32 := do
  Action.demand (checkText data)
  HandleTable.place ⟨data, owner⟩

/-- a new string that goes with the next sweep, unless it is claimed -/
def createTemporary (data : String) (owner : UInt8) : Action StringStore UInt32 := do
  let handle ← create data owner
  modify fun s => s.markTemporary handle true
  return handle

def text? (s : StringStore) (id : UInt32) : Option String := (s.find? id).map (·.data)

def owner? (s : StringStore) (id : UInt32) : Option UInt8 := (s.find? id).map (·.owner)

def assign (id : UInt32) (data : String) : Action StringStore Unit := do
  Action.demand (checkText data)
  if !(← get).contains id then throw (.notFound id)
  modify fun s => s.modify id fun v => { v with data }

def eraseString (s : StringStore) (id : UInt32) : Bool × StringStore := (s.contains id, s.erase id)

def sweep (s : StringStore) : Nat × StringStore :=
  (s.temporaries.length, s.temporaries.foldl HandleTable.erase s)

end StringStore
end ScriptVars
