import ScriptVars.Record.Draft
import ScriptVars.Record.Reader

/-!
# Record streams

Saves are sequences of records.  A record has a tag of four bytes, a version, the length of its
body, and the body.  A stream is a row of bytes with a place where the next record is read, a
place inside the record that is being read, and the record that is being written.

* `Tag`, `Header`, `Record`                   a record and its parts;
* `Value`                                     what is written and read in one piece;
* `Stream.openRecord`, `writeValue`           starting a record, adding to it;
* `Stream.append`                             whole records at once;
* `Stream.next`                               on to the next record, whatever was read of this one;
* `Stream.read`                               reads from the record;
* `Stream.seek`                               back to where some record starts.
-/

namespace ScriptVars

/-- the four bytes that name the sort of a record -/
structure Tag where
  bytes : List UInt8
  deriving DecidableEq, Repr

def Tag.name (t : Tag) : String := Utf8.repair t.bytes

def Tag.ofName (name : String) : Tag := ⟨Utf8.encode name⟩

structure Header where
  tag : Tag
  version : UInt32
  length : UInt32
  deriving DecidableEq, Repr

def Header.size : Nat := 12

/-- a whole record -/
structure Record where
  tag : Tag
  version : UInt32
  body : List UInt8
  deriving DecidableEq, Repr

def Record.encode (r : Record) : List UInt8 :=
  r.tag.bytes ++ Bytes.ofNat 4 r.version.toNat ++ Bytes.ofNat 4 r.body.length ++ r.body

/-- a row of bytes that records are written to and read from -/
structure Stream where
  bytes : Array UInt8
  /-- where the next value is read -/
  position : Nat
  /-- where the next record is read -/
  recordEnd : Nat
  /-- where the length of the record stands that is being written -/
  lengthAt : Option Nat
  deriving DecidableEq, Repr

/-- what one call writes or reads -/
inductive Value where
  | byte (b : UInt8)
  | half (h : UInt16)
  | word (w : UInt32)
  | number (x : Number)
  | text (s : String)
  | bytes (l : List UInt8)

namespace Value

/-- the bytes of a value; a text stands behind its length -/
def encode : Value → List UInt8
  | byte b => [b]
  | half h => Bytes.ofNat 2 h.toNat
  | word w => Bytes.ofNat 4 w.toNat
  | number x => Bytes.ofNat 8 x.bits.toNat
  | text s => Bytes.ofNat 2 (Utf8.encode s).length ++ Utf8.encode s
  | bytes l => l

end Value

namespace Stream

def ofBytes (bytes : List UInt8) : Stream := ⟨bytes.toArray, 0, 0, none⟩

def empty : Stream := ofBytes []

/-! ### writing -/

/-- starts a record; what is written from now on belongs to it -/
def openRecord (s : Stream) (tag : Tag) (version : UInt32) : Stream :=
  let header := tag.bytes ++ Bytes.ofNat 4 version.toNat
  { s with
    bytes := s.bytes ++ (header ++ Bytes.ofNat 4 0)
    lengthAt := some (s.bytes.size + header.length) }

/-- adds bytes to the record that is being written and brings its length up to date -/
def write (new : List UInt8) : Action Stream Unit := do
  let s ← get
  match s.lengthAt with
  | none => throw (.format .writeOutsideRecord)
  | some i =>
    let bytes := s.bytes ++ new
    let length := bytes.size - i - 4
    if length < Bytes.capacity 4 then
      set { s with bytes :=
        bytes.extract 0 i ++ Bytes.ofNat 4 length ++ bytes.extract (i + 4) bytes.size }
    else
      set { s with bytes }
      throw (.format .recordTooLong)

def writeText (text : String) : Action Stream Unit := do
  let bytes := Utf8.encode text
  if bytes.length < Bytes.capacity 2 then
    write (Bytes.ofNat 2 bytes.length)
    write bytes
  else throw (.format (.textTooLong bytes.length))

/-- writes a value; a text takes two calls, its length and its bytes -/
def writeValue : Value → Action Stream Unit
  | .text s => writeText s
  | v => write v.encode

def append (s : Stream) (records : List Record) : Stream :=
  let bytes := s.bytes ++ records.flatMap Record.encode
  { s with
    bytes
    lengthAt := match records.getLast? with
      | none => s.lengthAt
      | some last => some (bytes.size - last.body.length - 4) }

/-! ### reading -/

/-- the bytes from one place up to, and without, another one -/
def slice (s : Stream) (start stop : Nat) : List UInt8 := (s.bytes.extract start stop).toList

/-- goes on to the next record and returns its header; none at the end of the stream -/
def next : Action Stream (Option Header) := do
  let s ← get
  let start := s.recordEnd
  set { s with position := start }
  let body := start + Header.size
  let header := s.slice start body
  if header.isEmpty then return none
  if header.length < Header.size then throw (.format (.truncatedHeader start))
  let tag : Tag := ⟨header.take 4⟩
  let version := UInt32.ofNat (Bytes.toNat ((header.drop 4).take 4))
  let length := Bytes.toNat (header.drop 8)
  set { s with position := body }
  if s.bytes.size < body + length then throw (.format (.recordOverrun tag.name))
  set { s with position := body, recordEnd := body + length }
  return some ⟨tag, version, UInt32.ofNat length⟩

/-- the bytes of the record that have not been read -/
def unread (s : Stream) : List UInt8 := s.slice s.position s.recordEnd

/-- reads from the record; also a refused read moves past what it took before.  After a header
that could not be followed the place to read lies outside of every record, and nothing can be
read. -/
def read {α : Type} (r : Reader α) : Action Stream α := fun s =>
  if s.recordEnd < s.position then .error (.format .readPastEnd) s
  else
    match r s.unread with
    | .ok a left => .ok a { s with position := s.recordEnd - left.length }
    | .error f left => .error f { s with position := s.recordEnd - left.length }

def seek (position : Nat) : Action Stream Unit := do
  let s ← get
  if s.bytes.size < position then throw (.format (.seekOutOfRange position))
  set { s with position, recordEnd := position }

/-! ### streams as lists of bytes -/

theorem toList_bytes_append (s : Stream) (records : List Record) :
    (s.append records).bytes.toList = s.bytes.toList ++ records.flatMap Record.encode := by
  simp only [append, Array.toList_appendList]

/-- what goes on to the next record comes to -/
theorem next_eq (s : Stream) :
    next s =
      let header := s.slice s.recordEnd (s.recordEnd + Header.size)
      let length := Bytes.toNat (header.drop 8)
      let tag : Tag := ⟨header.take 4⟩
      let body := s.recordEnd + Header.size
      if header = [] then .ok none { s with position := s.recordEnd }
      else if header.length < Header.size then
        .error (.format (.truncatedHeader s.recordEnd)) { s with position := s.recordEnd }
      else if s.bytes.size < body + length then
        .error (.format (.recordOverrun tag.name)) { s with position := body }
      else
        .ok (some ⟨tag, UInt32.ofNat (Bytes.toNat ((header.drop 4).take 4)), UInt32.ofNat length⟩)
          { s with position := body, recordEnd := body + length } := by
  rw [next]
  refine (Action.bind_of_ok (x := get) rfl).trans ((Action.bind_of_ok (x := set _) rfl).trans ?_)
  dsimp only
  by_cases h : s.slice s.recordEnd (s.recordEnd + Header.size) = []
  · rw [if_pos h, if_pos (List.isEmpty_iff.2 h)]
    rfl
  · rw [if_neg h, if_neg (mt List.isEmpty_iff.1 h)]
    by_cases hs : (s.slice s.recordEnd (s.recordEnd + Header.size)).length < Header.size
    · rw [if_pos hs, if_pos hs]
      rfl
    · rw [if_neg hs, if_neg hs]
      refine (Action.bind_of_ok (x := set _) rfl).trans ?_
      split <;> rfl

/-- what going to a place comes to -/
theorem seek_eq (position : Nat) (s : Stream) :
    seek position s = if s.bytes.size < position then .error (.format (.seekOutOfRange position)) s
      else .ok () { s with position, recordEnd := position } := by
  refine (Action.bind_of_ok (x := get) rfl).trans ?_
  dsimp only
  split <;> rfl

theorem slice_eq (s : Stream) (start stop : Nat) :
    s.slice start stop = (s.bytes.toList.drop start).take (stop - start) := by
  simp only [slice, Array.toList_extract, List.extract_eq_take_drop]

end Stream
end ScriptVars
