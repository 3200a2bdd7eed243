import ScriptVars.ArrayStore.Basic

/-!
# Questions about arrays

What can be asked of the store without changing it.

* `ArrayStore.getElement?`, `hasKey`, `entries?`, …   elements and keys of one array;
* `ArrayStore.find`                                   the first key whose element equals a target;
* `SortOrder`, `SortMode`                             directions and built-in comparisons;
* `sortEntries`, `SortMode.sort`                      entries in the order of their elements;
* `ArrayStore.sortedEntries`                          the same for an array;
* `ArrayStore.listing?`                               an array as text, for debugging.
-/

namespace ScriptVars

inductive SortOrder where
  | ascending
  | descending
  deriving DecidableEq, Repr

/-- the built-in comparisons -/
inductive SortMode where
  /-- by value -/
  | natural
  /-- by displayed text, without regard to ASCII case -/
  | alpha
  deriving DecidableEq, Repr

def SortMode.compare : SortMode → Element → Element → Ordering
  | natural => Element.compare
  | alpha => Element.compareAlpha

/-- whether what compares like this to something may stand before it; what compares as equal may
stand either way, in both directions -/
def SortOrder.allows : SortOrder → Ordering → Bool
  | .ascending, c => c != .gt
  | .descending, c => c != .lt

/-- entries ordered by their elements; ties keep the order of the keys -/
def sortEntries (order : SortOrder) (cmp : Element → Element → Ordering)
    (entries : List (Key × Element)) : List (Key × Element) :=
  entries.mergeSort fun p q => order.allows (cmp p.2 q.2)

/-- entries ordered by the displayed texts of their elements, which are made once for each -/
def sortByText (order : SortOrder) (entries : List (Key × Element)) : List (Key × Element) :=
  let labelled := entries.map fun p => (p.2.folded, p)
  (labelled.mergeSort fun p q => order.allows (compare p.1 q.1)).map Prod.snd

theorem sortByText_eq (order : SortOrder) (entries : List (Key × Element)) :
    sortByText order entries = sortEntries order Element.compareAlpha entries := by
  have h : (entries.map fun p => (p.2.folded, p)).map Prod.snd = entries := by
    rw [List.map_map]
    exact List.map_id entries
  rw [sortByText, sortEntries, List.map_mergeSort, h]
  intro p hp q hq
  obtain ⟨a, _, rfl⟩ := List.mem_map.1 hp
  obtain ⟨b, _, rfl⟩ := List.mem_map.1 hq
  rfl

def SortMode.sort (mode : SortMode) (order : SortOrder) (entries : List (Key × Element)) :
    List (Key × Element) :=
  match mode with
  | natural => sortEntries order Element.compare entries
  | alpha => sortByText order entries

theorem SortMode.sort_eq (mode : SortMode) (order : SortOrder) (entries : List (Key × Element)) :
    mode.sort order entries = sortEntries order mode.compare entries := by
  cases mode
  · rfl
  · exact sortByText_eq order entries

namespace ArrayStore

def exists? (s : ArrayStore) (id : UInt32) : Bool := s.contains id

def size? (s : ArrayStore) (id : UInt32) : Option Nat := (s.find? id).map (·.size)

/-- the sizes of all arrays by their handles, for comparisons that ask for many of them -/
def sizes (s : ArrayStore) : HandleMap Nat :=
  HandleTable.toMap s (·.size)

def kind? (s : ArrayStore) (id : UInt32) : Option ArrayKind := (s.find? id).map (·.kind)

def keyType? (s : ArrayStore) (id : UInt32) : Option KeyType := (s.find? id).map (·.keyType)

def isPacked? (s : ArrayStore) (id : UInt32) : Option Bool := (s.find? id).map (·.isPacked)

def owner? (s : ArrayStore) (id : UInt32) : Option UInt8 := (s.find? id).map (·.owner)

def references? (s : ArrayStore) (id : UInt32) : Option (List UInt8) := (s.find? id).map (·.refs)

def entries? (s : ArrayStore) (id : UInt32) : Option (List (Key × Element)) :=
  (s.find? id).map (·.entries)

def getElement? (s : ArrayStore) (id : UInt32) (k : Key) : Option Element :=
  (s.find? id).bind (·.get? k)

def getNumber? (s : ArrayStore) (id : UInt32) (k : Key) : Option Number :=
  (s.getElement? id k).bind (·.number?)

def getString? (s : ArrayStore) (id : UInt32) (k : Key) : Option String :=
  (s.getElement? id k).bind (·.string?)

def getForm? (s : ArrayStore) (id : UInt32) (k : Key) : Option UInt32 :=
  (s.getElement? id k).bind (·.form?)

def getArray? (s : ArrayStore) (id : UInt32) (k : Key) : Option UInt32 :=
  (s.getElement? id k).bind (·.array?)

def getBool? (s : ArrayStore) (id : UInt32) (k : Key) : Option Bool :=
  (s.getElement? id k).map (·.isTruthy)

def hasKey (s : ArrayStore) (id : UInt32) (k : Key) : Bool := (s.getElement? id k).isSome

def firstKey? (s : ArrayStore) (id : UInt32) : Option Key :=
  (s.find? id).bind (·.storage.firstKey?)

def lastKey? (s : ArrayStore) (id : UInt32) : Option Key :=
  (s.find? id).bind (·.storage.lastKey?)

/-- the first key after `k`; none for a key of another type than the array uses -/
def nextKey? (s : ArrayStore) (id : UInt32) (k : Key) : Option Key :=
  (s.find? id).bind fun a => if k.keyType = a.keyType then a.storage.nextKey? k else none

def prevKey? (s : ArrayStore) (id : UInt32) (k : Key) : Option Key :=
  (s.find? id).bind fun a => if k.keyType = a.keyType then a.storage.prevKey? k else none

def entriesBetween (a : ArrayVar) (lo hi : Key) : Except Failure (List (Key × Element)) := do
  a.checkKey lo
  a.checkKey hi
  a.storage.range lo hi

/-- the first key whose element equals a target, among all keys or those of a half-open range -/
def find (id : UInt32) (target : Element) (range : Option (Key × Key)) :
    Action ArrayStore (Option Key) := do
  let a ← lookup id
  let entries ← match range with
    | some (lo, hi) => Action.demand (entriesBetween a lo hi)
    | none => pure a.entries
  return (entries.find? fun (_, e) => e.equal target).map Prod.fst

/-- the entries of an array ordered by a comparison of elements -/
def sortedEntriesBy (id : UInt32) (order : SortOrder) (cmp : Element → Element → Ordering) :
    Action ArrayStore (List (Key × Element)) := do
  return sortEntries order cmp (← lookup id).entries

/-- the entries of an array ordered by a built-in comparison -/
def sortedEntries (id : UInt32) (order : SortOrder) (mode : SortMode) :
    Action ArrayStore (List (Key × Element)) := do
  return mode.sort order (← lookup id).entries

def refsText (refs : List UInt8) : String :=
  ", ".intercalate (refs.map fun m => Padded.hex 2 m.toNat)

def headline (id : UInt32) (kind : ArrayKind) (owner : UInt8) (refs : List UInt8) : String :=
  "Array #" ++ toString id.toNat ++ " (" ++ kind.name ++ ", owner " ++ Padded.hex 2 owner.toNat
    ++ ", refs [" ++ refsText refs ++ "])"

def entryLine (k : Key) (e : Element) : String :=
  "  [" ++ k.display ++ "] : " ++ e.display ++ "\n"

/-- an array as text: a headline under the id that was asked for, then a line for each key -/
def listing? (s : ArrayStore) (id : UInt32) : Option String :=
  (s.find? id).map fun a =>
    headline id a.kind a.owner a.refs ++ "\n"
      ++ String.join (a.entries.map fun (k, e) => entryLine k e)

end ArrayStore
end ScriptVars
