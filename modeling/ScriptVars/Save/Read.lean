import ScriptVars.ArrayStore.Create
import ScriptVars.ModuleMap
import ScriptVars.Save.Format
import ScriptVars.StringStore

/-!
# Reading saves

Modules may have moved or gone since a save was written.  Variables of modules that are gone are
dropped; forms of such modules, and ids of arrays that were not loaded, become null.

* `SavedArray`, `Reader.savedArray`      the record of an array, before modules are resolved;
* `SavedArray.resolve`                   the array under the modules that are there now;
* `SavedString`, `Reader.savedString`    the record of a string;
* `ArrayStore.nullDangling`              ids of arrays that are not there become zero;
* `ArrayStore.load`, `StringStore.load`  a section into a store;
* `ArrayStore.LoadInvariant`, `StringStore.LoadInvariant`  what stays is told by single steps.
-/

namespace ScriptVars

/-! ### record bodies -/

/-- the record of an array; forms and references name modules by their old indices -/
structure SavedArray where
  kind : ArrayKind
  refs : List UInt8
  entries : List (Key × Element)
  deriving DecidableEq, Repr

structure SavedString where
  id : UInt32
  owner : UInt8
  data : String
  deriving DecidableEq, Repr

namespace Reader

/-- the payload of an element of some kind; of ids of arrays only the handle is taken -/
def payload : ElementType → Reader Element
  | .invalid => return .invalid
  | .number => return .number (← number)
  | .form => return .form (← word)
  | .string => return .string (← text)
  | .array => return .array (handleOf (← word))

def element : Reader Element := do
  let code ← byte
  payload (← Action.require (.format (.unknownElementType code.toNat)) (ElementType.ofCode? code))

/-- a key of some type; a negative zero becomes the positive one -/
def key : KeyType → Reader Key
  | .number => return .ofNumber (← number)
  | _ => return .text (← text)

/-- the entry in place `i` of the array with handle `id`; keys of packed arrays must be their
places, and texts may have grown too long when damaged parts were replaced -/
def entry (id : UInt32) (kind : ArrayKind) (i : Nat) : Reader (Key × Element) := do
  let k ← key kind.keyType
  if kind.isPacked && k.index? ≠ some i then
    throw (.format (.savedIndexOutOfSequence id.toNat k))
  let e ← element
  Action.demand k.checkText
  Action.demand e.checkText
  return (k, e)

def kind (id : UInt32) : Reader ArrayKind := do
  let code ← byte
  let keyType ← Action.require (.format (.invalidKeyType id.toNat code.toNat))
    ((KeyType.ofCode? code).filter (· ≠ .invalid))
  let packed ← byte
  Action.require (.format (.invalidKeyType id.toNat code.toNat))
    (ArrayKind.of? keyType (packed ≠ 0))

/-- the references of an array; older records have none -/
def refs (version : UInt32) : Reader (List UInt8) := do
  if version = SaveFormat.currentVersion then repeated (fun _ => byte) (← nat 4)
  else return []

/-- the record of an array after owner and id -/
def savedArray (id : UInt32) (version : UInt32) : Reader SavedArray := do
  let kind ← kind id
  let refs ← refs version
  let entries ← repeated (entry id kind) (← nat 4)
  return ⟨kind, refs, entries⟩

/-- the record of a string -/
def savedString : Reader SavedString := do
  let owner ← byte
  let id ← word
  let data ← text
  let id := handleOf id
  if id = 0 then throw (.format (.zeroId .string))
  return ⟨id, owner, data⟩

end Reader

/-! ### module resolution -/

/-- an element under the modules that are there now: forms of the others become null -/
def ModuleMap.resolveElement (m : ModuleMap) : Element → Element
  | .form form => .form ((m.resolveForm form).getD 0)
  | e => e

def ModuleMap.isLost (m : ModuleMap) : Element → Bool
  | .form form => (m.resolveForm form).isNone
  | _ => false

/-- the layout of a kind with entries as they come; of two entries for one key the first gives
the key and the last the element -/
def ArrayKind.storageFrom (kind : ArrayKind) (entries : List (Key × Element)) : Storage :=
  if kind.isPacked then .packed (entries.map Prod.snd)
  else .sorted (entries.foldl (fun l (k, e) => Ascending.insert Key.compare k e l) [])

/-- the array of a record for the new index of its owner -/
def SavedArray.resolve (a : SavedArray) (m : ModuleMap) (owner : UInt8) : ArrayVar :=
  ⟨a.kind, owner, a.refs.filterMap m.resolve,
    a.kind.storageFrom (a.entries.map fun (k, e) => (k, m.resolveElement e))⟩

def SavedArray.lostForms (a : SavedArray) (m : ModuleMap) : Nat :=
  a.entries.countP fun (_, e) => m.isLost e

/-! ### sections -/

def Action.onStream {σ α : Type} (x : Action Stream α) : Action (σ × Stream) α :=
  fun (s, stream) =>
    match x stream with
    | .ok a stream => .ok a (s, stream)
    | .error f stream => .error f (s, stream)

theorem Action.after_onStream {σ α : Type} (x : Action Stream α) (p : σ × Stream) :
    (onStream x).after p = (p.1, x.after p.2) := by
  rw [after, after, onStream]
  cases x p.2 <;> rfl

/-- goes on to the next record of a section, which must not be the end of the stream -/
def nextInSection {σ : Type} (sort : VariableSort) : Action (σ × Stream) Header := do
  Action.require (.format (.unendedSection sort)) (← Action.onStream Stream.next)

namespace ArrayStore

/-- whether an element names an array that is not there -/
def isDangling (s : ArrayStore) : Element → Bool
  | .array target => target ≠ 0 && !s.hasHandle target
  | _ => false

/-- ids of arrays that are not there become zero; returns how many did -/
def nullDangling (s : ArrayStore) : Nat × ArrayStore :=
  let mend (e : Element) : Element := if s.isDangling e then .array 0 else e
  ((s.toList.flatMap fun (_, a) => a.values).countP s.isDangling,
    s.modifyAll fun a => { a with storage := a.storage.mapValues mend })

/-- reads the record of an array into the store; one of a module that is gone is dropped, and
nothing after its owner and id is looked at -/
def loadRecord (m : ModuleMap) (version : UInt32) (report : LoadReport) :
    Action (ArrayStore × Stream) LoadReport := do
  let owner ← Action.onStream (Stream.read Reader.byte)
  let id := handleOf (← Action.onStream (Stream.read Reader.word))
  if id = 0 then throw (.format (.zeroId .array))
  match m.resolve owner with
  | none => return { report with droppedArrays := report.droppedArrays + 1 }
  | some owner =>
    let saved ← Action.onStream (Stream.read (Reader.savedArray id version))
    let (s, stream) ← get
    if s.contains id then throw (.format (.duplicateId .array id.toNat))
    let s ← Action.demand (s.bind id (saved.resolve m owner))
    set (s, stream)
    return { report with
      arrays := report.arrays + 1
      nulledForms := report.nulledForms + saved.lostForms m }

/-- reads records of arrays up to the end of the section; every record takes some bytes of the
stream, so there are fewer of them than `fuel` -/
def loadRecords (m : ModuleMap) : (fuel : Nat) → LoadReport →
    Action (ArrayStore × Stream) LoadReport
  | 0, _ => throw (.format (.unendedSection .array))
  | fuel + 1, report => do
    let header ← nextInSection .array
    if header.tag = SaveFormat.arrayEnd then return report
    else if header.tag = SaveFormat.arrayRecord then
      Action.demand (SaveFormat.checkVersion header.version)
      loadRecords m fuel (← loadRecord m header.version report)
    else throw (.format (.unexpectedRecord .array header.tag.name))

def load (m : ModuleMap) : Action (ArrayStore × Stream) LoadReport := do
  let header ← Action.require (.format .missingArraySection) (← Action.onStream Stream.next)
  if header.tag ≠ SaveFormat.arrayStart then
    throw (.format (.unexpectedSection SaveFormat.arrayStart.name header.tag.name))
  Action.demand (SaveFormat.checkVersion header.version)
  let (_, stream) ← get
  let report ← loadRecords m (stream.bytes.size + 1) (.start header.version)
  let (s, stream) ← get
  let (nulledArrays, s) := s.nullDangling
  set (s, stream)
  return { report with nulledArrays }

end ArrayStore

namespace StringStore

def loadRecord (m : ModuleMap) (report : LoadReport) :
    Action (StringStore × Stream) LoadReport := do
  let saved ← Action.onStream (Stream.read Reader.savedString)
  match m.resolve saved.owner with
  | none => return { report with droppedStrings := report.droppedStrings + 1 }
  | some owner =>
    let (s, stream) ← get
    if s.contains saved.id then throw (.format (.duplicateId .string saved.id.toNat))
    let s ← Action.demand (s.bind saved.id ⟨saved.data, owner⟩)
    set (s, stream)
    return { report with strings := report.strings + 1 }

def loadRecords (m : ModuleMap) : (fuel : Nat) → LoadReport →
    Action (StringStore × Stream) LoadReport
  | 0, _ => throw (.format (.unendedSection .string))
  | fuel + 1, report => do
    let header ← nextInSection .string
    if header.tag = SaveFormat.stringEnd then return report
    else if header.tag = SaveFormat.stringRecord then
      loadRecords m fuel (← loadRecord m report)
    else throw (.format (.unexpectedRecord .string header.tag.name))

/-- reads the string section into the store and adds to a report.  If another record comes first,
there are no strings, and the stream stays before that record. -/
def load (m : ModuleMap) (report : LoadReport) : Action (StringStore × Stream) LoadReport := do
  let (_, before) ← get
  match ← Action.onStream Stream.next with
  | none => return report
  | some header =>
    if header.tag = SaveFormat.stringStart then
      loadRecords m (before.bytes.size + 1) report
    else
      Action.onStream (Stream.seek before.recordEnd)
      return report

end StringStore

/-! ### what loads keep -/

open ScriptVars.Action

theorem keeps_nextInSection {σ : Type} {I : σ × Stream → Prop}
    (h : Keeps I (onStream Stream.next)) (sort : VariableSort) : Keeps I (nextInSection sort) :=
  h.bind fun _ hp => (reads_require _ _).keeps hp

namespace ArrayStore

variable {m : ModuleMap} {I : ArrayStore × Stream → Prop}

/-- kept by each step of reading the array section -/
structure LoadInvariant (m : ModuleMap) (I : ArrayStore × Stream → Prop) : Prop where
  next : Keeps I (onStream Stream.next)
  read : ∀ {α : Type} (r : Reader α), Keeps I (onStream (Stream.read r))
  bind : ∀ {id version : UInt32} {saved : SavedArray} {owner : UInt8} {p q : ArrayStore × Stream}
    {t : ArrayStore}, onStream (Stream.read (Reader.savedArray id version)) p = .ok saved q →
    I q → q.1.bind id (saved.resolve m owner) = .ok t → I (t, q.2)
  mend : ∀ {p : ArrayStore × Stream}, I p → I (p.1.nullDangling.2, p.2)

namespace LoadInvariant

theorem loadRecord (h : LoadInvariant m I) (version : UInt32) (report : LoadReport) :
    Keeps I (loadRecord m version report) := by
  refine (h.read _).bind fun {owner _ p} _ hp => ?_
  refine ((h.read _).bind fun {id _ p} _ hp => ?_) hp
  refine (keeps_throw_bind _ _).ite ?_ hp
  cases m.resolve owner with
  | none => exact (reads_pure _).keeps
  | some owner =>
    refine (h.read _).bind fun {saved _ q} hread hq => ?_
    rw [after_get_bind]
    refine (keeps_throw_bind _ _).ite ?_ hq
    exact (reads_demand _).keeps.bind fun hd _ => h.bind hread hq (demand_eq_ok.1 hd).1

/-- one record after another, whatever ends them -/
theorem loadRecords (h : LoadInvariant m I) (fuel : Nat) (report : LoadReport) :
    Keeps I (loadRecords m fuel report) := by
  induction fuel generalizing report with
  | zero => exact (reads_throw _).keeps
  | succ fuel ih =>
    refine (keeps_nextInSection h.next .array).bind fun {header _ p} _ hp => ?_
    refine ((reads_pure _).keeps.ite (.ite ?_ (reads_throw _).keeps)) hp
    refine (reads_demand _).keeps.bind fun _ hp => ?_
    exact ((h.loadRecord _ _).bind fun _ hp => ih _ hp) hp

theorem load (h : LoadInvariant m I) : Keeps I (load m) := by
  refine h.next.bind fun _ hp => ?_
  refine ((reads_require _ _).keeps.bind fun {header _ p} _ hp => ?_) hp
  refine (keeps_throw_bind _ _).ite ?_ hp
  refine (reads_demand _).keeps.bind fun _ hp => ?_
  refine (reads_get.keeps.bind fun _ hp => ?_) hp
  refine ((h.loadRecords _ _).bind fun _ hp => ?_) hp
  refine (reads_get.keeps.bind fun {q _ p} hg hp => ?_) hp
  obtain ⟨rfl, rfl⟩ := get_eq_ok.1 hg
  exact h.mend hp

end LoadInvariant
end ArrayStore

namespace StringStore

variable {m : ModuleMap} {I : StringStore × Stream → Prop}

structure LoadInvariant (m : ModuleMap) (I : StringStore × Stream → Prop) : Prop where
  next : Keeps I (onStream Stream.next)
  read : Keeps I (onStream (Stream.read Reader.savedString))
  seek : ∀ position, Keeps I (onStream (Stream.seek position))
  bind : ∀ {saved : SavedString} {owner : UInt8} {p q : StringStore × Stream} {t : StringStore},
    onStream (Stream.read Reader.savedString) p = .ok saved q → I q →
    q.1.bind saved.id ⟨saved.data, owner⟩ = .ok t → I (t, q.2)

namespace LoadInvariant

theorem loadRecord (h : LoadInvariant m I) (report : LoadReport) :
    Keeps I (loadRecord m report) := by
  refine h.read.bind fun {saved _ q} hread hq => ?_
  dsimp only
  cases m.resolve saved.owner with
  | none => exact (reads_pure _).keeps hq
  | some owner =>
    rw [after_get_bind]
    refine (keeps_throw_bind _ _).ite ?_ hq
    exact (reads_demand _).keeps.bind fun hd _ => h.bind hread hq (demand_eq_ok.1 hd).1

theorem loadRecords (h : LoadInvariant m I) (fuel : Nat) (report : LoadReport) :
    Keeps I (loadRecords m fuel report) := by
  induction fuel generalizing report with
  | zero => exact (reads_throw _).keeps
  | succ fuel ih =>
    refine (keeps_nextInSection h.next .string).bind fun {header _ p} _ hp => ?_
    refine ((reads_pure _).keeps.ite (.ite ?_ (reads_throw _).keeps)) hp
    exact (h.loadRecord _).bind fun _ hp => ih _ hp

theorem load (h : LoadInvariant m I) (report : LoadReport) : Keeps I (load m report) := by
  refine reads_get.keeps.bind fun {before _ p} _ hp => ?_
  refine (h.next.bind fun {o _ p} _ hp => ?_) hp
  cases o with
  | none => exact (reads_pure _).keeps hp
  | some header =>
    refine ((h.loadRecords _ _).ite ?_) hp
    exact (h.seek _).bind fun _ hp => (reads_pure _).keeps hp

end LoadInvariant
end StringStore
end ScriptVars
