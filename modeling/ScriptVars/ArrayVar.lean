import ScriptVars.Storage

/-!
# Array variables

One array or map of a script: its elements, the module that made it, and the references to it.
Every reference is a module index; a module that refers to the array twice stands twice.

* `ArrayKind`                          array, map or string map;
* `ArrayVar.make`                      an empty array, unless it has no type of keys;
* `ArrayVar.get?`, `set`, `erase`      elements by key, with the type of the key enforced;
* `ArrayVar.addRef`, `removeRef`       one reference; `addRefs`, `removeRefs` several at once;
* `ArrayVar.children`                  the ids of other arrays among the elements.
-/

namespace ScriptVars

/-- what scripts call an array -/
inductive ArrayKind where
  /-- packed, addressed by position -/
  | array
  /-- sorted, with number keys -/
  | map
  /-- sorted, with text keys -/
  | stringMap
  deriving DecidableEq, Repr

namespace ArrayKind

def keyType : ArrayKind → KeyType
  | array | map => .number
  | stringMap => .text

def isPacked : ArrayKind → Bool
  | array => true
  | map | stringMap => false

/-- the kind for a type of keys; text keys are never packed -/
def of? (keyType : KeyType) (packed : Bool) : Option ArrayKind :=
  match keyType with
  | .invalid => none
  | .number => some (if packed then array else map)
  | .text => some stringMap

def name : ArrayKind → String
  | array => "Array"
  | map => "Map"
  | stringMap => "StringMap"

def tag : ArrayKind → String
  | array => "array"
  | map => "map"
  | stringMap => "stringmap"

def ofTag? (tag : String) : Option ArrayKind := [array, map, stringMap].find? (·.tag == tag)

theorem ofTag?_tag (k : ArrayKind) : ofTag? k.tag = some k := by cases k <;> rfl

theorem of?_keyType_isPacked (k : ArrayKind) : of? k.keyType k.isPacked = some k := by
  cases k <;> rfl

def emptyStorage (k : ArrayKind) : Storage := if k.isPacked then .packed [] else .sorted []

end ArrayKind

/-- an array or map of a script -/
structure ArrayVar where
  kind : ArrayKind
  /-- the module that made it -/
  owner : UInt8
  /-- one entry for each reference, with the module that holds it, oldest first -/
  refs : List UInt8
  storage : Storage
  deriving DecidableEq, Repr

/-- a list of references without the `n` oldest ones of a module; `kept` are the ones before the
list that stay, last first -/
def withoutRefs (module : UInt8) : (n : Nat) → (kept refs : List UInt8) → List UInt8
  | 0, kept, refs => kept.reverse ++ refs
  | _ + 1, kept, [] => kept.reverse
  | n + 1, kept, r :: refs =>
    if r = module then withoutRefs module n kept refs
    else withoutRefs module (n + 1) (r :: kept) refs

theorem withoutRefs_zero (module : UInt8) (kept refs : List UInt8) :
    withoutRefs module 0 kept refs = kept.reverse ++ refs := by
  cases refs <;> rw [withoutRefs]

theorem withoutRefs_eq (module : UInt8) (n : Nat) (kept refs : List UInt8) :
    withoutRefs module n kept refs = kept.reverse ++ withoutRefs module n [] refs := by
  induction refs generalizing n kept with
  | nil => cases n <;> simp [withoutRefs]
  | cons r refs ih =>
    cases n with
    | zero => simp [withoutRefs_zero]
    | succ n =>
      simp only [withoutRefs]
      split
      · exact ih n kept
      · rw [ih (n + 1) (r :: kept), ih (n + 1) [r]]
        simp only [List.reverse_cons, List.append_assoc, List.reverse_nil, List.nil_append]

/-- the oldest references go one after the other -/
theorem withoutRefs_succ (module : UInt8) (n : Nat) (refs : List UInt8) :
    withoutRefs module (n + 1) [] refs = withoutRefs module n [] (refs.erase module) := by
  induction refs with
  | nil => cases n <;> simp [withoutRefs]
  | cons r refs ih =>
    rw [withoutRefs, List.erase_cons]
    by_cases h : r = module
    · simp only [h, if_true, beq_self_eq_true]
    · rw [if_neg h, withoutRefs_eq, ih]
      cases n with
      | zero => simp [h, withoutRefs_zero]
      | succ n => simp [h, withoutRefs, withoutRefs_eq module (n + 1) [r]]

namespace ArrayVar

def empty (kind : ArrayKind) (owner : UInt8) (refs : List UInt8) : ArrayVar :=
  ⟨kind, owner, refs, kind.emptyStorage⟩

def make (keyType : KeyType) (packed : Bool) (owner : UInt8) : Except Failure ArrayVar :=
  match ArrayKind.of? keyType packed with
  | some kind => .ok (empty kind owner [])
  | none => .error (.typeMismatch .noKeyType)

def keyType (a : ArrayVar) : KeyType := a.kind.keyType

def isPacked (a : ArrayVar) : Bool := a.kind.isPacked

def size (a : ArrayVar) : Nat := a.storage.size

def isEmpty (a : ArrayVar) : Bool := a.size = 0

def entries (a : ArrayVar) : List (Key × Element) := a.storage.entries

def values (a : ArrayVar) : List Element := a.storage.values

/-- refuses keys of another type than the array uses -/
def checkKey (a : ArrayVar) (k : Key) : Except Failure Unit :=
  if k.keyType = a.keyType then .ok ()
  else .error (.keyMismatch a.keyType k.keyType)

/-- the element under a key; nothing is ever under a key of another type -/
def get? (a : ArrayVar) (k : Key) : Option Element :=
  if k.keyType = a.keyType then a.storage.read? k else none

def set (a : ArrayVar) (k : Key) (e : Element) : Except Failure (ArrayVar × Option Element) := do
  a.checkKey k
  let (storage, replaced) ← a.storage.write k e
  return ({ a with storage }, replaced)

/-- takes a key out, and returns its element; an empty array has no key of any type -/
def erase (a : ArrayVar) (k : Key) : Except Failure (ArrayVar × Option Element) := do
  if a.isEmpty && k.keyType != a.keyType then return (a, none)
  a.checkKey k
  let (storage, removed) ← a.storage.erase k
  return ({ a with storage }, removed)

/-- the ids of arrays among the elements; zero refers to nothing -/
def children (a : ArrayVar) : List UInt32 := a.values.filterMap (·.array?) |>.filter (· != 0)

/-! ### references -/

def addRef (a : ArrayVar) (module : UInt8) : ArrayVar := { a with refs := a.refs ++ [module] }

/-- drops the oldest reference of a module, if it has one -/
def removeRef (a : ArrayVar) (module : UInt8) : ArrayVar := { a with refs := a.refs.erase module }

def addRefs (a : ArrayVar) (n : Nat) (module : UInt8) : ArrayVar :=
  { a with refs := a.refs ++ List.replicate n module }

/-- drops the `n` oldest references of a module, or all of them -/
def removeRefs (a : ArrayVar) (n : Nat) (module : UInt8) : ArrayVar :=
  { a with refs := withoutRefs module n [] a.refs }

theorem addRefs_zero (a : ArrayVar) (module : UInt8) : a.addRefs 0 module = a := by
  simp only [addRefs, List.replicate_zero, List.append_nil]

theorem addRefs_succ (a : ArrayVar) (n : Nat) (module : UInt8) :
    a.addRefs (n + 1) module = (a.addRef module).addRefs n module := by
  simp only [addRefs, addRef, List.replicate_succ, List.append_assoc, List.singleton_append]

theorem removeRefs_zero (a : ArrayVar) (module : UInt8) : a.removeRefs 0 module = a := by
  simp only [removeRefs, withoutRefs_zero, List.reverse_nil, List.nil_append]

theorem removeRefs_succ (a : ArrayVar) (n : Nat) (module : UInt8) :
    a.removeRefs (n + 1) module = (a.removeRef module).removeRefs n module := by
  simp only [removeRefs, removeRef, withoutRefs_succ]

end ArrayVar
end ScriptVars
