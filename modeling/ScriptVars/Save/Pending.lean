import ScriptVars.ArrayStore.Lifetime

/-!
# Arrays due for collection

Which arrays repeated sweeps would remove, found without removing any: starting from the
temporary arrays without references, each of them gives up the references that its elements hold,
and a temporary array that has lost its last one follows.

* `RefTable`                          reference lists by handle;
* `Pending.giveUp`                    what one array gives up;
* `Pending.collect`                   the worklist; an array may be put on it more than once;
* `ArrayStore.pendingCollection`      the arrays, and the reference lists without theirs.
-/

namespace ScriptVars

/-- the reference lists of arrays by their handles -/
abbrev RefTable := HandleMap (List UInt8)

def ArrayStore.refTable (s : ArrayStore) : RefTable :=
  HandleTable.toMap s (·.refs)

/-- arrays found so far, reference lists without the references they held, arrays to look at -/
structure Pending where
  found : HandleSet
  refs : RefTable
  worklist : List UInt32

namespace Pending

/-- gives up `n` references of `owner` to `child`; a temporary array without any left is to be
looked at.  Children are looked up by their whole id. -/
def giveUp (s : ArrayStore) (owner : UInt8) (p : Pending) (child : UInt32) (n : Nat) : Pending :=
  match p.refs[child]? with
  | none => p
  | some held =>
    let left := withoutRefs owner n [] held
    let refs := p.refs.insert child left
    if left.isEmpty && s.isTemporary child && !p.found.contains child then
      { p with refs, worklist := child :: p.worklist }
    else { p with refs }

/-- looks at the array on top of the worklist -/
def step (s : ArrayStore) (p : Pending) (id : UInt32) : Pending :=
  if p.found.contains id then p
  else
    let p := { p with found := p.found.insert id }
    match s.find? id with
    | none => p
    | some a => (tally a.children).foldl (giveUp s a.owner) p

/-- works the worklist off; each array is put on it at most once for every element that names it,
and once at the start -/
def collect (s : ArrayStore) : (fuel : Nat) → Pending → Pending
  | 0, p => p
  | fuel + 1, p =>
    match p.worklist with
    | [] => p
    | id :: rest => collect s fuel (step s { p with worklist := rest } id)

end Pending

namespace ArrayStore

/-- how many elements name arrays, in all arrays together -/
def childCount (s : ArrayStore) : Nat := (s.toList.flatMap fun (_, a) => a.children).length

/-- the arrays that repeated sweeps would remove, and the reference lists of all arrays without
the references held by those -/
def pendingCollection (s : ArrayStore) : HandleSet × RefTable :=
  let start := s.unclaimed
  let p := Pending.collect s (start.length + s.childCount + 1) ⟨∅, s.refTable, start.reverse⟩
  (p.found, p.refs)

end ArrayStore
end ScriptVars
