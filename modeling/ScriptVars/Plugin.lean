import ScriptVars.ArrayStore.Create
import ScriptVars.ArrayStore.Edit
import ScriptVars.ArrayStore.Lifetime

/-!
# The interface for plugins

A plugin is built against some version of the interface and may only make the calls that this
version had.  Arrays made by a plugin are temporary: they go with the next sweep, unless the
plugin hands them to a script or puts them into another array.

* `Capability`                    the calls, with the version that brought each of them;
* `Plugin.ofVersion`              the interface of a plugin built against a version;
* `Plugin.createArray`, …         the calls.
-/

namespace ScriptVars

/-- a call that a plugin may make -/
inductive Capability where
  | createArray
  | createMap
  | createStringMap
  | assignResult
  | lookup
  | size
  | getElement
  | setElement
  | appendElement
  | getElements
  | hasKey
  | containerKind
  deriving DecidableEq, Repr

namespace Capability

def all : List Capability :=
  [createArray, createMap, createStringMap, assignResult, lookup, size, getElement, setElement,
    appendElement, getElements, hasKey, containerKind]

def name : Capability → String
  | createArray => "CreateArray"
  | createMap => "CreateMap"
  | createStringMap => "CreateStringMap"
  | assignResult => "AssignResult"
  | lookup => "Lookup"
  | size => "Size"
  | getElement => "GetElement"
  | setElement => "SetElement"
  | appendElement => "AppendElement"
  | getElements => "GetElements"
  | hasKey => "HasKey"
  | containerKind => "ContainerKind"

/-- the version that brought a call -/
def since : Capability → Nat
  | hasKey | containerKind => 2
  | _ => 1

theorem mem_all (c : Capability) : c ∈ all := by cases c <;> decide

end Capability

/-- the interface as one plugin sees it -/
structure Plugin where
  /-- the version that the plugin was built against -/
  version : Nat
  deriving DecidableEq, Repr

namespace Plugin

/-- the version with all calls -/
def latestVersion : Nat := 2

def latest : Plugin := ⟨latestVersion⟩

/-- the interface of a plugin built against a version -/
def ofVersion (version : Nat) : Except Failure Plugin :=
  if version = 0 ∨ latestVersion < version then
    .error (.unsupported (.interfaceVersion version latestVersion))
  else .ok ⟨version⟩

def has (p : Plugin) (c : Capability) : Bool := c.since ≤ p.version

/-- refuses calls that came after the version of the plugin -/
def require {σ : Type} (p : Plugin) (c : Capability) : Action σ Unit :=
  if p.has c then pure () else throw (.unsupported (.capability c.name c.since p.version))

/-! ### calls -/

def setAll (id : UInt32) : List (Key × Element) → Action ArrayStore Unit
  | [] => pure ()
  | (k, e) :: rest => do
    ArrayStore.setElement id k e
    setAll id rest

/-- a temporary map that pairs are put into one by one; if one is refused, the map stays with the
pairs before it until the next sweep -/
def createTemporary (keyType : KeyType) (pairs : List (Key × Element)) (owner : UInt8) :
    Action ArrayStore UInt32 := do
  let handle ← ArrayStore.create keyType false owner
  modify fun s => s.markTemporary handle true
  setAll handle pairs
  return handle

def createArray (p : Plugin) (values : List Element) (owner : UInt8) :
    Action ArrayStore UInt32 := do
  p.require .createArray
  let handle ← ArrayStore.createList values owner
  modify fun s => s.markTemporary handle true
  return handle

def createMap (p : Plugin) (pairs : List (Number × Element)) (owner : UInt8) :
    Action ArrayStore UInt32 := do
  p.require .createMap
  createTemporary .number (pairs.map fun (x, e) => (Key.ofNumber x, e)) owner

def createStringMap (p : Plugin) (pairs : List (String × Element)) (owner : UInt8) :
    Action ArrayStore UInt32 := do
  p.require .createStringMap
  createTemporary .text (pairs.map fun (s, e) => (Key.text s, e)) owner

def assignResult (p : Plugin) (id : UInt32) (module : UInt8) :
    Action (ArrayStore × UInt32) Unit := do
  p.require .assignResult
  ArrayStore.assignReference id module

/-- the id itself, if there is an array behind it -/
def lookup? (s : ArrayStore) (id : UInt32) : Option UInt32 :=
  if s.contains id then some id else none

def containerKind (p : Plugin) (id : UInt32) : Action ArrayStore (Option ArrayKind) := do
  p.require .containerKind
  return (← get).kind? id

def setElement (p : Plugin) (id : UInt32) (k : Key) (e : Element) : Action ArrayStore Unit := do
  p.require .setElement
  ArrayStore.setElement id k e

def appendElement (p : Plugin) (id : UInt32) (e : Element) : Action ArrayStore Unit := do
  p.require .appendElement
  ArrayStore.append id e

def elements? (s : ArrayStore) (id : UInt32) : Option (List Key × List Element) :=
  (s.entries? id).map List.unzip

def hasKey (p : Plugin) (id : UInt32) (k : Key) : Action ArrayStore Bool := do
  p.require .hasKey
  return (← get).hasKey id k

end Plugin
end ScriptVars
