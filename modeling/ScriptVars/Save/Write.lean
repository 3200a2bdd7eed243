import ScriptVars.Save.Format
import ScriptVars.Save.Pending
import ScriptVars.StringStore

/-!
# Writing saves

* `Element.draft`, `Key.draft`, `ArrayVar.draft`, `StringVar.draft`   the bodies of records;
* `Draft.record`                                 a record from the draft of its body;
* `ArrayStore.records`, `StringStore.records`    the records of the two sections;
* `Stream.writeRecords`                          a section onto a stream;
* `ArrayStore.save`, `StringStore.save`          the same, with a report.
-/

namespace ScriptVars

/-- the payload of an element, without the code of its kind -/
def Element.payload : Element → Draft UInt8
  | invalid => .of []
  | number x => .number x
  | form id => .word id
  | string s => .text s
  | array id => .word id

def Element.draft (e : Element) : Draft UInt8 := .byte e.elementType.code ++ e.payload

/-- a key in a record; the type of keys stands in the record already -/
def Key.draft : Key → Draft UInt8
  | number x => .number x
  | text s => .text s

def entryDraft (entry : Key × Element) : Draft UInt8 := entry.1.draft ++ entry.2.draft

def refsDraft (refs : List UInt8) : Draft UInt8 := .count refs.length "references" ++ .of refs

def ArrayVar.draft (a : ArrayVar) (id : UInt32) (refs : List UInt8) (version : UInt32) :
    Draft UInt8 :=
  .of [a.owner] ++ (.word id ++ (.of [a.keyType.code, if a.isPacked then 1 else 0]
    ++ ((if version = SaveFormat.currentVersion then refsDraft refs else .of [])
      ++ (.count a.size "elements" ++ .concat (a.entries.map entryDraft)))))

def StringVar.draft (v : StringVar) (id : UInt32) : Draft UInt8 :=
  .of [v.owner] ++ (.word id ++ .text v.data)

/-- a record from the draft of its body; a body of 4 GiB is one too many -/
def Draft.record (tag : Tag) (version : UInt32) (body : Draft UInt8) : Draft Record :=
  ⟨[⟨tag, version, body.parts⟩],
    if body.parts.length < Bytes.capacity 4 then body.fault else some .recordTooLong⟩

def Draft.marker (tag : Tag) (version : UInt32) : Draft Record := .of [⟨tag, version, []⟩]

/-- writes a draft of records, or reports its fault; the records before the fault are written -/
def Stream.writeRecords (d : Draft Record) : Action Stream Unit := do
  modify fun s => s.append d.parts
  match d.fault with
  | none => return ()
  | some fault => throw (.format fault)

namespace ArrayStore

/-- the arrays that a save writes, with the references it writes for them -/
def written (s : ArrayStore) (skipPending : Bool) : List (UInt32 × ArrayVar × List UInt8) :=
  if skipPending then
    let (pending, refs) := s.pendingCollection
    (s.toList.filter fun (h, _) => !pending.contains h).map fun (h, a) =>
      (h, a, refs[h]?.getD a.refs)
  else s.toList.map fun (h, a) => (h, a, a.refs)

def records (arrays : List (UInt32 × ArrayVar × List UInt8)) (version : UInt32) : Draft Record :=
  .marker SaveFormat.arrayStart version
    ++ (.concat (arrays.map fun (h, a, refs) =>
        .record SaveFormat.arrayRecord version (a.draft h refs version))
      ++ .marker SaveFormat.arrayEnd version)

/-- writes the array section.  If pending arrays are to be skipped, those that repeated sweeps
would remove are left out, and so are the references they hold. -/
def save (s : ArrayStore) (version : UInt32) (skipPending : Bool) :
    Action Stream SaveReport := do
  Action.demand (SaveFormat.checkVersion version)
  let arrays := s.written skipPending
  Stream.writeRecords (records arrays version)
  return ⟨arrays.length, 0, s.size - arrays.length⟩

end ArrayStore

namespace StringStore

def records (s : StringStore) : Draft Record :=
  .marker SaveFormat.stringStart SaveFormat.stringVersion
    ++ (.concat (s.toList.map fun (h, v) =>
        .record SaveFormat.stringRecord SaveFormat.stringVersion (v.draft h))
      ++ .marker SaveFormat.stringEnd SaveFormat.stringVersion)

def save (s : StringStore) : Action Stream Nat := do
  Stream.writeRecords s.records
  return s.size

end StringStore
end ScriptVars
