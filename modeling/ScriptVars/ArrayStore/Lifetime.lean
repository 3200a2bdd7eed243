import ScriptVars.ArrayStore.Basic

/-!
# The lifetime of arrays

Arrays live as long as something refers to them, or as long as they are not temporary.  Scripts
and plugins refer to arrays through variables of their own, which they move from one array to
another.

* `ArrayStore.addReference`, `removeReference`   references from outside the store;
* `ArrayStore.assignReference`                   moving a script variable;
* `ArrayState`, `ArrayStore.state?`              live, or due for collection;
* `ArrayStore.sweep`                             removes every temporary array without references.
-/

namespace ScriptVars

/-- whether an array goes with the next sweep -/
inductive ArrayState where
  | live
  | pendingCollection
  deriving DecidableEq, Repr

namespace ArrayStore

def addReference (target : UInt32) (module : UInt8) : Action ArrayStore Unit := do
  let _ ← lookup target
  modify fun s => s.retain target module

/-- drops a reference of a module to an array, and tells whether there was one -/
def removeReference (target : UInt32) (module : UInt8) : Action ArrayStore Bool := do
  let a ← lookup target
  modify fun s => s.release target module
  return a.refs.contains module

/-- points a script variable of a module at another array.  The variable is part of the state and
holds an id; zero stands for no array. -/
def assignReference (target : UInt32) (module : UInt8) : Action (ArrayStore × UInt32) Unit := do
  Action.onFirst (requireTarget (.array target))
  let (_, slot) ← get
  if slot = target then return ()
  if slot ≠ 0 then modify fun (s, slot) => (s.release slot module, slot)
  modify fun (s, _) => (s, target)
  if target ≠ 0 then modify fun (s, slot) => (s.retain target module, slot)

/-- whether an array is temporary and nothing refers to it -/
def isUnclaimed (s : ArrayStore) (id : UInt32) : Bool :=
  s.isTemporary id && (s.find? id).any (·.refs.isEmpty)

def state? (s : ArrayStore) (id : UInt32) : Option ArrayState :=
  (s.find? id).map fun _ => if s.isUnclaimed id then .pendingCollection else .live

/-- the temporary arrays without references, ascending -/
def unclaimed (s : ArrayStore) : List UInt32 := s.temporaries.filter s.isUnclaimed

/-- removes the temporary arrays that nothing refers to, and tells how many there were; arrays
that lose their last reference by this go with the next sweep -/
def sweep (s : ArrayStore) : Nat × ArrayStore := (s.unclaimed.length, s.unclaimed.foldl destroy s)

end ArrayStore
end ScriptVars
