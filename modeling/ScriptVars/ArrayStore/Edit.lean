import ScriptVars.ArrayStore.Basic

/-!
# Changing arrays

Every change keeps the books: an id that comes to stand in an array gains a reference by the
owner of the array, and an id that goes loses one.

* `ArrayStore.setElement`                             one key; typed setters beside it;
* `ArrayStore.append`, `insert`, `insertRange`, `resize`   packed arrays only;
* `ArrayStore.eraseElement`, `eraseElements`, `eraseAll`   taking elements out;
* `ArrayStore.eraseArray`                             the whole array, whatever refers to it.
-/

namespace ScriptVars

/-- takes the keys from `lo` up to, and with, `hi` out, and returns their elements; reversed
bounds take nothing out of a map -/
def Storage.eraseWithin (s : Storage) (lo hi : Key) :
    Except Failure (Storage × List Element) :=
  match s with
  | .packed _ => s.eraseRange lo hi
  | .sorted entries =>
    let inside (p : Key × Element) : Bool := lo.isAtMost p.1 && p.1.isAtMost hi
    .ok (.sorted (entries.filter fun p => !inside p), (entries.filter inside).map Prod.snd)

namespace ArrayStore

def setElement (id : UInt32) (k : Key) (e : Element) : Action ArrayStore Unit := do
  requireTarget e
  let a ← lookup id
  let (changed, replaced) ← Action.demand (a.set k e)
  modify fun s =>
    ((s.replace id changed).retainAll (targetsOf [e]) a.owner).releaseAll
      (targetsOf replaced.toList) a.owner

def setNumber (id : UInt32) (k : Key) (x : Number) : Action ArrayStore Unit :=
  setElement id k (.number x)

def setString (id : UInt32) (k : Key) (s : String) : Action ArrayStore Unit :=
  setElement id k (.string s)

def setForm (id : UInt32) (k : Key) (form : UInt32) : Action ArrayStore Unit :=
  setElement id k (.form form)

def setArray (id : UInt32) (k : Key) (target : UInt32) : Action ArrayStore Unit :=
  setElement id k (.array target)

/-- puts elements before a position of a packed array and records their references -/
def splice (id : UInt32) (a : ArrayVar) (i : Nat) (new : List Element) :
    Action ArrayStore Unit := do
  let storage ← Action.demand (a.storage.insert i new)
  modify fun s => (s.replace id { a with storage }).retainAll (targetsOf new) a.owner

def append (id : UInt32) (e : Element) : Action ArrayStore Unit := do
  requireTarget e
  let a ← lookup id
  if !a.isPacked then throw (.typeMismatch (.needsPacked "append"))
  splice id a a.size [e]

/-- puts an element before a position of a packed array -/
def insert (id : UInt32) (i : Nat) (e : Element) : Action ArrayStore Unit := do
  requireTarget e
  let a ← lookup id
  splice id a i [e]

/-- puts all elements of another array before a position of a packed one -/
def insertRange (id : UInt32) (i : Nat) (source : UInt32) : Action ArrayStore Unit := do
  let new := (← lookup source).values
  let a ← lookup id
  splice id a i new

/-- cuts a packed array to `n` elements, or fills it up to `n` -/
def resize (id : UInt32) (n : Nat) (pad : Element) : Action ArrayStore Unit := do
  requireTarget pad
  let a ← lookup id
  let (storage, removed) ← Action.demand (a.storage.resize n pad)
  modify fun s =>
    ((s.replace id { a with storage }).releaseAll (targetsOf removed) a.owner).retainAll
      (targetsOf (List.replicate (n - a.size) pad)) a.owner

def eraseElement (id : UInt32) (k : Key) : Action ArrayStore Bool := do
  let a ← lookup id
  let (changed, removed) ← Action.demand (a.erase k)
  modify fun s => (s.replace id changed).releaseAll (targetsOf removed.toList) a.owner
  return removed.isSome

/-- takes the keys from `lo` up to, and with, `hi` out, and tells how many there were -/
def eraseElements (id : UInt32) (lo hi : Key) : Action ArrayStore Nat := do
  let a ← lookup id
  Action.demand (a.checkKey lo)
  Action.demand (a.checkKey hi)
  let (storage, removed) ← Action.demand (a.storage.eraseWithin lo hi)
  modify fun s => (s.replace id { a with storage }).releaseAll (targetsOf removed) a.owner
  return removed.length

def eraseAll (id : UInt32) : Action ArrayStore Nat := do
  let a ← lookup id
  modify fun s =>
    (s.replace id { a with storage := a.storage.clear }).releaseAll (targetsOf a.values) a.owner
  return a.size

/-- removes an array whatever refers to it, and tells whether it was there -/
def eraseArray (s : ArrayStore) (id : UInt32) : Bool × ArrayStore := (s.contains id, s.destroy id)

end ArrayStore
end ScriptVars
