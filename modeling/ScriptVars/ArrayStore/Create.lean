import ScriptVars.ArrayStore.Query

/-!
# Making arrays

Arrays come into being empty, from elements, or from another array.  Whatever holds ids of other
arrays records its references to them when it is made.

* `ArrayStore.create`, `createList`, `createMap`   from nothing, from values, from pairs;
* `ArrayStore.copy`                                shallow, or with all arrays below it;
* `ArrayStore.slice`                               the entries of a range of keys;
* `ArrayStore.sort`, `keys`, `values`              a packed array made from another array.
-/

namespace ScriptVars

/-- what can be put in one after the other: a packed array is filled position by position, up to the
first one that no key names, where it is refused -/
def Storage.fillable : Storage → Storage
  | .packed values => .packed (values.take (Key.greatestIndex + 2))
  | .sorted entries => .sorted entries

/-- refuses values beyond the greatest position that a key names -/
def Storage.checkPositions : Storage → Except Failure Unit
  | .packed values =>
    if values.length ≤ Key.greatestIndex + 1 then .ok ()
    else .error (.typeMismatch (.notAnIndex (Key.ofIndex (Key.greatestIndex + 1))))
  | .sorted _ => .ok ()

/-- the packed array of some values; refused if one has an overlong text, or no position -/
def ArrayVar.ofValues (values : List Element) (owner : UInt8) : Except Failure ArrayVar := do
  checkTexts (Storage.packed values).fillable.values
  (Storage.packed values).checkPositions
  return ⟨.array, owner, [], .packed values⟩

def ArrayVar.setAll (a : ArrayVar) : List (Key × Element) → Except Failure ArrayVar
  | [] => .ok a
  | (k, e) :: rest => do
    let (a, _) ← a.set k e
    a.setAll rest

/-- the map of some pairs, with keys of the type of the first one, or number keys if there are
none -/
def ArrayVar.ofPairs (pairs : List (Key × Element)) (owner : UInt8) : Except Failure ArrayVar := do
  let keyType := (pairs.head?.map fun (k, _) => k.keyType).getD .number
  (← ArrayVar.make keyType false owner).setAll pairs

/-- the layout of a kind with entries that are in order already; positions of a packed array are
counted anew -/
def ArrayKind.storageOf (kind : ArrayKind) (entries : List (Key × Element)) : Storage :=
  if kind.isPacked then .packed (entries.map Prod.snd) else .sorted entries

/-- an element as the name of a key -/
def Element.ofKey : Key → Element
  | .number x => .number x
  | .text s => .string s

/-- changes every element in order, by a computation -/
def Storage.traverse {m : Type → Type} [Monad m] (f : Element → m Element) : Storage → m Storage
  | .packed values => do return .packed (← values.mapM f)
  | .sorted entries => do return .sorted (← entries.mapM fun (k, e) => do return (k, ← f e))

namespace ArrayStore

def create (keyType : KeyType) (packed : Bool) (owner : UInt8) : Action ArrayStore UInt32 := do
  HandleTable.place (← Action.demand (ArrayVar.make keyType packed owner))

/-- a packed array of some values -/
def createList (values : List Element) (owner : UInt8) : Action ArrayStore UInt32 := do
  install (← Action.demand (ArrayVar.ofValues values owner))

/-- a map of some pairs; a key that comes twice has the value of the last pair -/
def createMap (pairs : List (Key × Element)) (owner : UInt8) : Action ArrayStore UInt32 := do
  install (← Action.demand (ArrayVar.ofPairs pairs owner))

/-- a copy of an element.  If it is to be deep, an array that the element names is copied first,
and the copy is temporary, so that it goes with the array that holds it. -/
def copyElement (copyChild : UInt32 → Action ArrayStore UInt32) (deep : Bool) :
    Element → Action ArrayStore Element
  | .array child => do
    if deep && (← get).contains child then
      let nested ← copyChild child
      modify fun s => s.markTemporary nested true
      return .array nested
    else return .array child
  | e => return e

/-- a copy of an array for a new owner, with copies of its elements.  `fuel` bounds the depth:
arrays below one another without a cycle are all different, so there are never more than there are
handles. -/
def copyTree (owner : UInt8) (deep : Bool) : (fuel : Nat) → UInt32 → Action ArrayStore UInt32
  | 0, _ => throw .exhausted
  | fuel + 1, source => do
    let a ← lookup source
    let storage ← a.storage.fillable.traverse (copyElement (copyTree owner deep fuel) deep)
    Action.demand a.storage.checkPositions
    install ⟨a.kind, owner, [], storage⟩

/-- a copy of an array for a new owner; a shallow one shares the arrays among the elements -/
def copy (source : UInt32) (owner : UInt8) (deep : Bool) : Action ArrayStore UInt32 :=
  copyTree owner deep handleLimit source

/-- an array of the entries with keys from `lo` up to, and without, `hi` -/
def slice (source : UInt32) (lo hi : Key) : Action ArrayStore UInt32 := do
  let a ← lookup source
  let entries ← Action.demand (entriesBetween a lo hi)
  install ⟨a.kind, a.owner, [], a.kind.storageOf entries⟩

/-- a packed array of the elements of another one, ordered by a comparison -/
def sortBy (id : UInt32) (order : SortOrder) (cmp : Element → Element → Ordering) :
    Action ArrayStore UInt32 := do
  let a ← lookup id
  createList ((sortEntries order cmp a.entries).map Prod.snd) a.owner

def sort (id : UInt32) (order : SortOrder) (mode : SortMode) : Action ArrayStore UInt32 := do
  let a ← lookup id
  createList ((mode.sort order a.entries).map Prod.snd) a.owner

def keys (id : UInt32) : Action ArrayStore UInt32 := do
  let a ← lookup id
  createList (a.entries.map fun (k, _) => Element.ofKey k) a.owner

def values (id : UInt32) : Action ArrayStore UInt32 := do
  let a ← lookup id
  createList a.values a.owner

end ArrayStore
end ScriptVars
