import ScriptVars.Ascending
import ScriptVars.Element
import ScriptVars.Failure

/-!
# Storage of elements

An array commits to one of two layouts when it is made.  A packed array is a list addressed by
position: writing past the end appends one element, erasing moves the later ones down.  A sorted
one is a finite map in the order of keys, where nothing ever moves.

* `Storage`                                          the two layouts;
* `Storage.entries`                                  keys and elements in order, the view of both;
* `Storage.read?`, `write`, `erase`, `eraseRange`    one key, or a span of positions;
* `Storage.range`                                    the entries of a half-open range of keys;
* `Storage.firstKey?`, `nextKey?`, …                 walking the keys;
* `Storage.insert`, `resize`                         what only packed arrays can do.

An operation that is refused returns a failure and no storage, so its caller keeps the old one.
-/

namespace ScriptVars

/-- refuses a text with more than `maxTextBytes` bytes -/
def checkText (s : String) : Except Failure Unit :=
  if maxTextBytes < s.utf8ByteSize then
    .error (.typeMismatch (.textTooLong s.utf8ByteSize maxTextBytes))
  else .ok ()

def Key.checkText : Key → Except Failure Unit
  | text s => ScriptVars.checkText s
  | number _ => .ok ()

def Element.checkText : Element → Except Failure Unit
  | string s => ScriptVars.checkText s
  | _ => .ok ()

/-- refuses the first element with an overlong text -/
def checkTexts : List Element → Except Failure Unit
  | [] => .ok ()
  | e :: rest => do
    e.checkText
    checkTexts rest

/-- the position a key names, refusing keys that name none -/
def Key.position (k : Key) : Except Failure Nat :=
  match k.index? with
  | some i => .ok i
  | none => .error (.typeMismatch (.notAnIndex k))

/-- the elements of an array in one of the two layouts -/
inductive Storage where
  | packed (values : List Element)
  | sorted (entries : List (Key × Element))
  deriving DecidableEq, Repr

namespace Storage

def isPacked : Storage → Bool
  | packed _ => true
  | sorted _ => false

def size : Storage → Nat
  | packed values => values.length
  | sorted entries => entries.length

/-- the values of a packed array under their positions, counted from `i` -/
def indexed (i : Nat) (values : List Element) : List (Key × Element) :=
  (values.zipIdx i).map fun (e, j) => (Key.ofIndex j, e)

def entries : Storage → List (Key × Element)
  | packed values => indexed 0 values
  | sorted entries => entries

def values : Storage → List Element
  | packed values => values
  | sorted entries => entries.map Prod.snd

def read? (s : Storage) (k : Key) : Option Element :=
  match s with
  | packed values =>
    match k.index? with
    | some i => values[i]?
    | none => none
  | sorted entries => Ascending.find? Key.compare k entries

/-- puts an element under a key, and returns the one that was there; past the end of a packed
array the element is appended, wherever the key points -/
def write (s : Storage) (k : Key) (e : Element) : Except Failure (Storage × Option Element) := do
  k.checkText
  e.checkText
  match s with
  | packed values =>
    let i ← k.position
    if i < values.length then return (packed (values.set i e), values[i]?)
    else return (packed (values ++ [e]), none)
  | sorted entries =>
    return (sorted (Ascending.insert Key.compare k e entries),
      Ascending.find? Key.compare k entries)

/-- takes a key out, and returns its element; past the end of a packed array is a failure, a key
that a map does not have is not -/
def erase (s : Storage) (k : Key) : Except Failure (Storage × Option Element) :=
  match s with
  | packed values => do
    let i ← k.position
    if values.length ≤ i then throw (.range i values.length)
    return (packed (values.eraseIdx i), values[i]?)
  | sorted entries =>
    .ok (sorted (Ascending.erase Key.compare k entries), Ascending.find? Key.compare k entries)

/-- takes the positions from `lo` up to, and with, `hi` out of a packed array; the end is cut to
the last position -/
def eraseRange (s : Storage) (lo hi : Key) : Except Failure (Storage × List Element) :=
  match s with
  | packed values => do
    let first ← lo.position
    let last ← hi.position
    if values.length ≤ first then throw (.range first values.length)
    if last < first then throw (.range last values.length)
    return (packed (values.take first ++ values.drop (last + 1)),
      (values.take (last + 1)).drop first)
  | sorted _ => .error (.typeMismatch (.needsPacked "range erase"))

def clear : Storage → Storage
  | packed _ => packed []
  | sorted _ => sorted []

def mapValues (f : Element → Element) : Storage → Storage
  | packed values => packed (values.map f)
  | sorted entries => sorted (entries.map fun (k, e) => (k, f e))

/-- the entries with keys from `lo` up to, and without, `hi`; a packed array refuses bounds that
are reversed or past its end -/
def range (s : Storage) (lo hi : Key) : Except Failure (List (Key × Element)) :=
  match s with
  | packed values => do
    let first ← lo.position
    let stop ← hi.position
    if stop < first || values.length < stop then throw (.range (max first stop) values.length)
    return indexed first ((values.take stop).drop first)
  | sorted entries => .ok (Ascending.between Key.compare lo hi entries)

def firstKey? : Storage → Option Key
  | packed values => if values.isEmpty then none else some (Key.ofIndex 0)
  | sorted entries => entries.head?.map Prod.fst

def lastKey? : Storage → Option Key
  | packed values => if values.isEmpty then none else some (Key.ofIndex (values.length - 1))
  | sorted entries => entries.getLast?.map Prod.fst

def nextKey? (s : Storage) (k : Key) : Option Key :=
  match s with
  | packed values => do
    let i ← k.index?
    if i + 1 < values.length then some (Key.ofIndex (i + 1)) else none
  | sorted entries => Ascending.next? Key.compare k entries

/-- the last key before `k`; past the end of a packed array that is its last key -/
def prevKey? (s : Storage) (k : Key) : Option Key :=
  match s with
  | packed values => do
    let i ← k.index?
    if i = 0 || values.isEmpty then none else some (Key.ofIndex (min i values.length - 1))
  | sorted entries => Ascending.prev? Key.compare k entries

def insert (s : Storage) (i : Nat) (new : List Element) : Except Failure Storage :=
  match s with
  | packed values => do
    if values.length < i then throw (.range i values.length)
    checkTexts new
    return packed (values.take i ++ new ++ values.drop i)
  | sorted _ => .error (.typeMismatch (.needsPacked "insert"))

/-- cuts a packed array to `n` elements, or fills it up to `n` with `pad`; returns what was cut
off -/
def resize (s : Storage) (n : Nat) (pad : Element) : Except Failure (Storage × List Element) :=
  match s with
  | packed values => do
    if n < values.length then return (packed (values.take n), values.drop n)
    pad.checkText
    return (packed (values ++ List.replicate (n - values.length) pad), [])
  | sorted _ => .error (.typeMismatch (.needsPacked "resize"))

/-! ### the view of a packed array -/

theorem length_indexed (i : Nat) (values : List Element) :
    (indexed i values).length = values.length := by
  simp [indexed]

theorem map_snd_indexed (i : Nat) (values : List Element) :
    (indexed i values).map Prod.snd = values := by
  simp [indexed, Function.comp_def]

@[simp] theorem length_entries (s : Storage) : s.entries.length = s.size := by
  cases s with
  | packed values => exact length_indexed 0 values
  | sorted entries => rfl

@[simp] theorem map_snd_entries (s : Storage) : s.entries.map Prod.snd = s.values := by
  cases s with
  | packed values => exact map_snd_indexed 0 values
  | sorted entries => rfl

end Storage
end ScriptVars
