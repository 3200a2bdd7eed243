import ScriptVars.Key

/-!
# Failures

Why an operation is refused.  Each failure is a cause; the wording of all of them is in
`Failure.message`.

* `Mismatch`, `Malformation`, `Lack`, `Misconfiguration`   the causes of the four broad kinds;
* `Failure`                  a refused operation;
* `Failure.message`          the text of a failure;
* `Failure.isRecoverable`    whether a script may carry on after it.
-/

namespace ScriptVars

/-- the two sorts of variables, as far as saves and dumps tell them apart -/
inductive VariableSort where
  | array
  | string
  deriving DecidableEq, Repr

def VariableSort.name : VariableSort → String
  | .array => "array"
  | .string => "string"

/-- a value that does not fit where it was to go -/
inductive Mismatch where
  /-- a key, an element or a string variable with more than `maxTextBytes` bytes -/
  | textTooLong (bytes limit : Nat)
  /-- a key of a packed array that names no position -/
  | notAnIndex (key : Key)
  /-- an operation that only packed arrays have -/
  | needsPacked (operation : String)
  /-- an array was to be made without a type of keys -/
  | noKeyType
  | other (text : String)
  deriving DecidableEq, Repr

def Mismatch.message : Mismatch → String
  | textTooLong bytes limit =>
    "string of " ++ toString bytes ++ " bytes exceeds the " ++ toString limit ++ " byte limit"
  | notAnIndex key => key.display ++ " is not a valid array index"
  | needsPacked operation => operation ++ " requires a packed array"
  | noKeyType => "arrays need number or string keys"
  | other text => text

/-- what is wrong with a save, a dump, or the use of a record stream -/
inductive Malformation where
  | writeOutsideRecord
  | recordTooLong
  /-- a text that does not fit the two bytes of its length -/
  | textTooLong (bytes : Nat)
  | tooMany (what : String)
  | truncatedHeader (offset : Nat)
  | recordOverrun (tag : String)
  | readPastEnd
  | seekOutOfRange (position : Nat)
  | unsupportedVersion (version : Nat)
  | unknownElementType (code : Nat)
  | zeroId (sort : VariableSort)
  | invalidKeyType (id code : Nat)
  /-- a key of a saved packed array that is not the next position -/
  | savedIndexOutOfSequence (id : Nat) (key : Key)
  /-- a key of a dumped packed array that is not the next position -/
  | dumpedIndexOutOfSequence (id : Nat) (key : Key)
  | missingArraySection
  | unexpectedSection (expected found : String)
  | unendedSection (sort : VariableSort)
  | unexpectedRecord (sort : VariableSort) (tag : String)
  | duplicateId (sort : VariableSort) (id : Nat)
  | invalidId (sort : VariableSort) (id : Nat)
  | missingTarget (id target : Nat)
  | other (text : String)
  deriving DecidableEq, Repr

def Malformation.message : Malformation → String
  | writeOutsideRecord => "write outside of a record"
  | recordTooLong => "record exceeds 4 GiB"
  | textTooLong bytes => "string of " ++ toString bytes ++ " bytes is too long to save"
  | tooMany what => "too many " ++ what ++ " to save"
  | truncatedHeader offset => "truncated record header at offset " ++ toString offset
  | recordOverrun tag => "record " ++ tag ++ " overruns the stream"
  | readPastEnd => "read past the end of a record"
  | seekOutOfRange position => "seek to " ++ toString position ++ " is out of range"
  | unsupportedVersion version => "unsupported array record version " ++ toString version
  | unknownElementType code => "unknown element type " ++ toString code
  | zeroId sort => sort.name ++ " record with id 0"
  | invalidKeyType id code =>
    "array " ++ toString id ++ " has invalid key type " ++ toString code
  | savedIndexOutOfSequence id key =>
    "packed array " ++ toString id ++ " has out-of-sequence index " ++ key.display
  | dumpedIndexOutOfSequence id key =>
    "array " ++ toString id ++ " has out-of-sequence index " ++ key.display
  | missingArraySection => "missing array section"
  | unexpectedSection expected found => "expected " ++ expected ++ ", found " ++ found
  | unendedSection sort => sort.name ++ " section has no end marker"
  | unexpectedRecord sort tag => "unexpected " ++ tag ++ " record in " ++ sort.name ++ " section"
  | duplicateId sort id => "duplicate " ++ sort.name ++ " id " ++ toString id
  | invalidId sort id => sort.name ++ " id " ++ toString id ++ " is not a valid handle"
  | missingTarget id target =>
    "array " ++ toString id ++ " refers to missing array " ++ toString target
  | other text => text

/-- something that a plugin asks for and its interface does not have -/
inductive Lack where
  | interfaceVersion (version latest : Nat)
  | capability (name : String) (since version : Nat)
  | other (text : String)
  deriving DecidableEq, Repr

def Lack.message : Lack → String
  | interfaceVersion version latest =>
    "array interface version " ++ toString version ++ " (latest is " ++ toString latest ++ ")"
  | capability name since version =>
    name ++ " needs interface version " ++ toString since ++ ", plugin uses " ++ toString version
  | other text => text

/-- a setting that is not acceptable -/
inductive Misconfiguration where
  | saveVersion (version : Nat)
  | moduleIndex (text : String)
  | other (text : String)
  deriving DecidableEq, Repr

def Misconfiguration.message : Misconfiguration → String
  | saveVersion version => "save_version must be 1 or 2, got " ++ toString version
  | moduleIndex text => "invalid module index \x27" ++ text ++ "\x27"
  | other text => text

/-- why a file could not be read or written -/
inductive FileProblem where
  | notFound
  | isDirectory
  | notDirectory
  /-- bytes that are no text -/
  | invalidData
  /-- a path with a null character -/
  | invalidPath
  | nameTooLong
  | other (text : String)
  deriving DecidableEq, Repr

def FileProblem.message : FileProblem → String
  | notFound => "no such file or directory"
  | isDirectory => "is a directory"
  | notDirectory => "not a directory"
  | invalidData => "the file is not valid text"
  | invalidPath => "the path is not valid"
  | nameTooLong => "the name of the file is too long"
  | other text => text

/-- a refused operation -/
inductive Failure where
  | notFound (id : UInt32)
  /-- an id whose handle is zero -/
  | invalidHandle (id : UInt32)
  | exhausted
  | keyNotFound (key : String)
  | typeMismatch (cause : Mismatch)
  | keyMismatch (expected found : KeyType)
  | range (index length : Nat)
  | unsupported (cause : Lack)
  | format (cause : Malformation)
  | config (cause : Misconfiguration)
  | file (problem : FileProblem)
  /-- a text that is not the JSON of what it should hold -/
  | json
  deriving DecidableEq, Repr

namespace Failure

def message : Failure → String
  | notFound id => "No array with id " ++ toString id.toNat
  | invalidHandle id =>
    "Handle 0x" ++ String.ofList (Nat.toDigits 16 id.toNat) ++ " is reserved"
  | exhausted => "Handle space exhausted"
  | keyNotFound key => "Key not found: " ++ key
  | typeMismatch cause => "Type mismatch: " ++ cause.message
  | keyMismatch expected found =>
    "Key type mismatch: array uses " ++ expected.name ++ " keys, got " ++ found.name
  | range index length =>
    "Index " ++ toString index ++ " out of range for array of size " ++ toString length
  | unsupported cause => "Unsupported: " ++ cause.message
  | format cause => "Malformed save data: " ++ cause.message
  | config cause => "Invalid configuration: " ++ cause.message
  | file problem => "IO error: " ++ problem.message
  | json => "JSON error: not of the expected form"

/-- whether a script may carry on after a failure: it asked for something that is not there, or
offered something that does not fit -/
def isRecoverable : Failure → Bool
  | notFound _ | keyNotFound _ | typeMismatch _ | keyMismatch _ _ => true
  | _ => false

/-- what led to the result of a check -/
theorem bind_eq_ok {α β : Type} {x : Except Failure α} {g : α → Except Failure β} {b : β} :
    (x >>= g) = .ok b ↔ ∃ a, x = .ok a ∧ g a = .ok b := by
  cases x with
  | ok a => exact ⟨fun h => ⟨a, rfl, h⟩, fun ⟨_, e, h⟩ => by cases e; exact h⟩
  | error f => exact ⟨nofun, fun ⟨_, e, _⟩ => by cases e⟩

theorem bind_eq_error {α β : Type} {x : Except Failure α} {g : α → Except Failure β}
    {f : Failure} :
    (x >>= g) = .error f ↔ x = .error f ∨ ∃ a, x = .ok a ∧ g a = .error f := by
  cases x with
  | ok a => exact ⟨fun h => .inr ⟨a, rfl, h⟩, fun h => by
      obtain h | ⟨_, h, hg⟩ := h
      · cases h
      · cases h; exact hg⟩
  | error e => exact ⟨fun h => by cases h; exact .inl rfl, fun h => by
      obtain h | ⟨_, h, _⟩ := h
      · cases h; rfl
      · cases h⟩

/-- a result that is there was not refused -/
theorem toOption_eq_some {α : Type} {x : Except Failure α} {a : α} :
    x.toOption = some a ↔ x = .ok a := by
  cases x with
  | ok b => exact ⟨fun h => congrArg Except.ok (Option.some.inj h), fun h => by cases h; rfl⟩
  | error f => exact iff_of_false nofun nofun

end Failure
end ScriptVars
