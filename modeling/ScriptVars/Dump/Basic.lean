import ScriptVars.Session

/-!
# Dumps

A dump is everything that a session holds, as plain data: ids, owners, references, temporary
flags, entries.  It can be taken from any session, and put in the place of what a session holds
if it is consistent.

* `ArrayDump`, `StringDump`, `StoreDump`    the data;
* `StoreDump.capture`                       the dump of a session;
* `StoreDump.apply`                         puts a dump into a session, or changes nothing;
* `StoreDump.toSession`                     a session from a dump;
* `StoreDump.same`                          equality of dumps, with numbers taken by value.
-/

namespace ScriptVars

/-- an array in a dump -/
structure ArrayDump where
  id : UInt32
  kind : ArrayKind
  owner : UInt8
  refs : List UInt8
  temporary : Bool
  elements : List (Key × Element)
  deriving DecidableEq, Repr

structure StringDump where
  id : UInt32
  owner : UInt8
  data : String
  deriving DecidableEq, Repr

/-- everything that a session holds -/
structure StoreDump where
  arrays : List ArrayDump
  strings : List StringDump
  deriving DecidableEq, Repr

namespace ArrayDump

def ofArray (handle : UInt32) (a : ArrayVar) (temporary : Bool) : ArrayDump :=
  ⟨handle, a.kind, a.owner, a.refs, temporary, a.entries⟩

/-- checks the entries from position `i` on, and puts them into an array; ids of arrays must be
zero or in `known` -/
def fill (handle : UInt32) (known : HandleSet) : (i : Nat) → ArrayVar → List (Key × Element) →
    Except Failure ArrayVar
  | _, a, [] => .ok a
  | i, a, (k, e) :: rest => do
    if a.isPacked && k.index? ≠ some i then
      throw (.format (.dumpedIndexOutOfSequence handle.toNat k))
    match e with
    | .array target =>
      if target ≠ 0 && !known.contains target then
        throw (.format (.missingTarget handle.toNat target.toNat))
    | _ => pure ()
    let (a, _) ← a.set k e
    fill handle known (i + 1) a rest

def install (known : HandleSet) (d : ArrayDump) : Action ArrayStore Unit := do
  let handle := handleOf d.id
  if handle = 0 then throw (.format (.invalidId .array d.id.toNat))
  if (← get).contains handle then throw (.format (.duplicateId .array handle.toNat))
  let a ← Action.demand (fill handle known 0 (.empty d.kind d.owner d.refs) d.elements)
  set (← Action.demand ((← get).bind handle a))
  if d.temporary then modify fun s => s.markTemporary handle true

/-- equality of entries: keys by their order, elements as scripts see them -/
def sameEntry (p q : Key × Element) : Bool := p.1.same q.1 && p.2.equal q.2

def sameList {α : Type} (same : α → α → Bool) (l m : List α) : Bool :=
  l.length == m.length && (l.zip m).all fun (a, b) => same a b

def same (d e : ArrayDump) : Bool :=
  d.id == e.id && d.kind == e.kind && d.owner == e.owner && d.refs == e.refs
    && d.temporary == e.temporary && sameList sameEntry d.elements e.elements

end ArrayDump

namespace StringDump

def install (d : StringDump) : Action StringStore Unit := do
  let handle := handleOf d.id
  if handle = 0 then throw (.format (.invalidId .string d.id.toNat))
  if (← get).contains handle then throw (.format (.duplicateId .string handle.toNat))
  set (← Action.demand ((← get).bind handle ⟨d.data, d.owner⟩))

end StringDump

namespace StoreDump

/-- the dump of a session, in ascending order of handles -/
def capture (s : Session) : StoreDump :=
  ⟨s.arrays.toList.map fun (h, a) => .ofArray h a (s.arrays.isTemporary h),
    s.strings.toList.map fun (h, v) => ⟨h, v.owner, v.data⟩⟩

def each {σ α : Type} (x : α → Action σ Unit) : List α → Action σ Unit
  | [] => return ()
  | a :: rest => do
    x a
    each x rest

/-- puts a dump into an empty session -/
def install (d : StoreDump) : Action (Session × Unit) Unit := do
  let known := .ofList (d.arrays.map fun a => handleOf a.id) compareHandles
  Session.onArrays (Action.onFirst (each (ArrayDump.install known) d.arrays))
  Session.onStrings (Action.onFirst (each StringDump.install d.strings))

/-- replaces all variables of a session by those of a dump; if the dump is not consistent,
nothing changes -/
def apply (d : StoreDump) : Action Session Unit := fun s =>
  match Session.replacing d.install (s, ()) with
  | .ok a (s, _) => .ok a s
  | .error f (s, _) => .error f s

theorem after_apply (d : StoreDump) (s : Session) :
    d.apply.after s = ((Session.replacing d.install).after (s, ())).1 := by
  rw [Action.after, Action.after, apply]
  cases Session.replacing d.install (s, ()) <;> rfl

/-- the session of a dump -/
def toSession (d : StoreDump) (config : Config) : Except Failure Session :=
  match d.apply (Session.start config) with
  | .ok _ s => .ok s
  | .error f _ => .error f

/-- equality of dumps, with numbers taken by value -/
def same (d e : StoreDump) : Bool :=
  ArrayDump.sameList ArrayDump.same d.arrays e.arrays && d.strings == e.strings

end StoreDump
end ScriptVars
