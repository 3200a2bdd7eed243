import ScriptVars.Proofs.Reach
import ScriptVars.Proofs.Records
import ScriptVars.Session

/-!
# Saves that are loaded

What is written of one variable is read back as one, unless its module is gone.

* `ModuleMap.loadArray`, `loadString`     what a record makes of a variable;
* `ModuleMap.countArray`, `countString`   what it adds to the report;
* `loadRecord_written`                    one record;
* `load_written`                          a section.
-/

namespace ScriptVars

open ScriptVars.Action

section
variable {σ α : Type} {p : σ} {s s' : Stream} {a : α}

theorem onStream_of_ok {x : Action Stream α} (h : x s = .ok a s') :
    onStream x (p, s) = .ok a (p, s') := by
  rw [onStream, h]

end

theorem nextInSection_of_ok {σ : Type} {p : σ} {s s' : Stream} {header : Header}
    (sort : VariableSort) (h : Stream.next s = .ok (some header) s') :
    nextInSection sort (p, s) = .ok header (p, s') := bind_of_ok (onStream_of_ok h)

/-! ## Arrays -/

namespace ModuleMap

def loadArray (m : ModuleMap) (version : UInt32) (a : ArrayVar) : Option ArrayVar :=
  (m.resolve a.owner).map fun owner =>
    ⟨a.kind, owner, (Reader.savedRefs version a.refs).filterMap m.resolve,
      a.storage.repaired fun e => m.resolveElement e.reduced⟩

/-- what the record of an array adds to a report -/
def countArray (m : ModuleMap) (a : ArrayVar) (report : LoadReport) : LoadReport :=
  match m.resolve a.owner with
  | none => { report with droppedArrays := report.droppedArrays + 1 }
  | some _ =>
    { report with
      arrays := report.arrays + 1
      nulledForms := report.nulledForms + a.values.countP m.isLost }

theorem isLost_reduced (m : ModuleMap) (e : Element) : m.isLost e.reduced = m.isLost e := by
  cases e <;> rfl

end ModuleMap

section
variable {α : Type} {loaded : α → Option α} {t u : HandleTable α} {id : UInt32} {a b : α}

/-- a record that is dropped -/
theorem loads_dropped (hself : handleOf id = id) (ht : t.find? id = none) (h : loaded a = none) :
    Loads loaded [(id, a)] t t := by
  refine ⟨fun i => ?_, rfl⟩
  rw [List.find?_singleton]
  by_cases e : id = handleOf i
  · rw [beq_iff_eq.2 e]
    show t.find? i = loaded a
    rw [h, ← ht]
    exact t.find?_congr (e.symm.trans hself.symm)
  · rw [beq_eq_false_iff_ne.2 e]
    rfl

/-- a record that is kept -/
theorem loads_bound (hself : handleOf id = id) (h : loaded a = some b) (hu : t.bind id b = .ok u) :
    Loads loaded [(id, a)] t u := by
  refine ⟨fun i => ?_, HandleTable.temporaries_bind hu⟩
  rw [HandleTable.find?_bind hu, List.find?_singleton, hself]
  by_cases e : id = handleOf i
  · rw [beq_iff_eq.2 e, if_pos e]
    exact h.symm
  · rw [beq_eq_false_iff_ne.2 e, if_neg e]
    rfl

end

/-- a variable goes in where there is none -/
theorem HandleTable.exists_insert {α β : Type} {t : HandleTable α} {id : UInt32}
    (hself : handleOf id = id) (hz : id ≠ 0) (ht : t.find? id = none) (value : α) (f : Failure)
    (b : β) (stream : Stream) :
    let insert : Action (HandleTable α × Stream) β := do
      let (s, stream) ← get
      if s.contains id then throw f
      let s ← demand (s.bind id value)
      set (s, stream)
      return b
    ∃ u, t.bind id value = .ok u ∧ insert (t, stream) = .ok b (u, stream) := by
  have hcontains : ¬ t.contains id = true := by
    rw [t.contains_eq, ht]
    nofun
  obtain ⟨u, hu⟩ := t.exists_bind id value (hself.symm ▸ hz)
  refine ⟨u, hu, (bind_of_ok (x := get) rfl).trans ?_⟩
  dsimp only
  rw [if_neg hcontains, hu]
  rfl

namespace ArrayStore

variable {m : ModuleMap} {version : UInt32} {a : ArrayVar} {held : List UInt8}

theorem resolve_read (ha : a.Fits) (held : List UInt8) (owner : UInt8) :
    (SavedArray.mk a.kind held (a.entries.map entryRead)).resolve m owner =
      ⟨a.kind, owner, held.filterMap m.resolve,
        a.storage.repaired fun e => m.resolveElement e.reduced⟩ := by
  rw [SavedArray.resolve, List.map_map]
  exact congrArg (ArrayVar.mk a.kind owner _)
    (Storage.storageFrom_entries ha fun e => m.resolveElement e.reduced)

theorem lostForms_read :
    (SavedArray.mk a.kind held (a.entries.map entryRead)).lostForms m = a.values.countP m.isLost := by
  have hvalues : a.values = a.entries.map Prod.snd := (Storage.map_snd_entries _).symm
  rw [SavedArray.lostForms, List.countP_map, hvalues, List.countP_map]
  exact List.countP_congr fun p _ => by
    show m.isLost p.2.reduced = true ↔ m.isLost p.2 = true
    rw [m.isLost_reduced]

/-- the record of an array, read into a table without it -/
theorem loadRecord_written (ha : a.Fits) {id : UInt32} (hself : handleOf id = id) (hz : id ≠ 0)
    {l rest : List UInt8} (hd : a.draft id a.refs version = .of l) (report : LoadReport)
    {t : ArrayStore} {s : Stream} (hs : s.Stands l rest) (ht : t.find? id = none) :
    ∃ u s' body', loadRecord m version report (t, s) = .ok (m.countArray a report) (u, s') ∧
      s'.Stands body' rest ∧ Loads (m.loadArray version) [(id, a)] t u := by
  obtain ⟨b, _, hb, h₁, rfl⟩ := Draft.append_eq_of hd
  obtain ⟨c, d, hc, h₂, rfl⟩ := Draft.append_eq_of h₁
  cases Draft.of_inj hb
  cases Draft.of_inj hc
  obtain ⟨s₁, hr₁, hs₁⟩ := hs.read (Reader.takes_byte a.owner)
  obtain ⟨s₂, hr₂, hs₂⟩ := hs₁.read (Reader.takes_word id)
  rw [loadRecord, bind_of_ok (onStream_of_ok hr₁), bind_of_ok (onStream_of_ok hr₂), hself]
  dsimp only
  rw [if_neg hz, ModuleMap.countArray]
  cases howner : m.resolve a.owner with
  | none =>
    exact ⟨t, s₂, d, rfl, hs₂, loads_dropped hself ht (by rw [ModuleMap.loadArray, howner]; rfl)⟩
  | some owner =>
    rw [← List.append_nil d] at hs₂
    obtain ⟨s₃, hr₃, hs₃⟩ := hs₂.read (Reader.takes_savedArray ha id h₂)
    let saved : SavedArray :=
      ⟨a.kind, Reader.savedRefs version a.refs, a.entries.map entryRead⟩
    obtain ⟨u, hu, hinsert⟩ := HandleTable.exists_insert hself hz ht (saved.resolve m owner)
      (.format (.duplicateId .array id.toNat)) (β := LoadReport)
      { report with
        arrays := report.arrays + 1
        nulledForms := report.nulledForms + saved.lostForms m } s₃
    have hloaded : m.loadArray version a = some (saved.resolve m owner) := by
      rw [ModuleMap.loadArray, howner, resolve_read ha]
      rfl
    refine ⟨u, s₃, [], (bind_of_ok (onStream_of_ok hr₃)).trans (hinsert.trans ?_), hs₃,
      loads_bound hself hloaded hu⟩
    rw [lostForms_read]

def body (version : UInt32) (p : UInt32 × ArrayVar) : Draft UInt8 := p.2.draft p.1 p.2.refs version

def bytesOf (version : UInt32) (l : List (UInt32 × ArrayVar)) : List UInt8 :=
  (sectionOf ⟨SaveFormat.arrayStart, version, []⟩ ⟨SaveFormat.arrayEnd, version, []⟩
    (recordOf SaveFormat.arrayRecord version (body version)) l).flatMap Record.encode

theorem loadRecords_record {fuel : Nat} {report report' : LoadReport} {t u : ArrayStore}
    {s s₁ s' : Stream} {header : Header} (hn : Stream.next s = .ok (some header) s₁)
    (htag : header.tag = SaveFormat.arrayRecord)
    (hv : SaveFormat.checkVersion header.version = .ok ())
    (hr : loadRecord m header.version report (t, s₁) = .ok report' (u, s')) :
    loadRecords m (fuel + 1) report (t, s) = loadRecords m fuel report' (u, s') := by
  rw [loadRecords, bind_of_ok (nextInSection_of_ok .array hn)]
  rw [htag, if_neg (by decide), if_pos rfl, hv]
  exact bind_of_ok hr

theorem loadRecords_end {fuel : Nat} {report : LoadReport} {t : ArrayStore} {s s₁ : Stream}
    {header : Header} (hn : Stream.next s = .ok (some header) s₁)
    (htag : header.tag = SaveFormat.arrayEnd) :
    loadRecords m (fuel + 1) report (t, s) = .ok report (t, s₁) := by
  rw [loadRecords, bind_of_ok (nextInSection_of_ok .array hn)]
  exact congrFun (if_pos htag) _

/-- what a save writes of arrays that have their layouts -/
theorem written_of_records {s : ArrayStore} {l : List Record}
    (h : records (s.written false) version = .of l) :
    Written (body version) s.toList ∧ l.flatMap Record.encode = bytesOf version s.toList := by
  have hmap : records (s.written false) version =
      .of [⟨SaveFormat.arrayStart, version, []⟩] ++
        (.concat (s.toList.map fun p => .record SaveFormat.arrayRecord version (body version p)) ++
          .of [⟨SaveFormat.arrayEnd, version, []⟩]) := by
    rw [records, written, if_neg Bool.false_ne_true, List.map_map]
    rfl
  obtain ⟨hl, rfl⟩ := written_of_section (body version) (hmap.symm.trans h)
  exact ⟨hl, rfl⟩

theorem load_written {l : List (UInt32 × ArrayVar)} (hl : Written (body version) l)
    (hfits : ∀ p ∈ l, p.2.Fits) (hv : SaveFormat.checkVersion version = .ok ()) {t : ArrayStore}
    (ht : ∀ p ∈ l, t.find? p.1 = none) {taken rest : List UInt8} {s : Stream}
    (hs : s.Stands taken (bytesOf version l ++ rest)) :
    ∃ u s' taken', load m (t, s) =
        .ok { l.foldl (fun report p => m.countArray p.2 report) (.start version) with
          nulledArrays := (nullDangling u).1 } ((nullDangling u).2, s') ∧
      s'.Stands taken' rest ∧ Loads (m.loadArray version) l t u := by
  obtain ⟨s₁, hn, hs₁, -, hle⟩ := Stream.enter_section hs rfl rfl
  obtain ⟨u, s', taken', hr, hs', hu⟩ := run_section (loadRecords m) m.countArray
    (m.loadArray version)
    (fun p hp {fuel report taken rest t s} hs ht => by
      obtain ⟨s₁, hn, hs₁⟩ := hs.next rfl (hl.length p hp)
      obtain ⟨u, s', taken', hr, hs', hu⟩ := loadRecord_written (m := m) (hfits p hp)
        (hl.handle p hp).1 (hl.handle p hp).2 (hl.whole p hp) report hs₁ ht
      exact ⟨u, s', taken', loadRecords_record hn rfl hv hr, hs', hu⟩)
    (fun {fuel report taken t s} hs => by
      obtain ⟨s₁, hn, hs₁⟩ := hs.next rfl (Nat.pow_pos (by decide))
      exact ⟨s₁, [], loadRecords_end hn rfl, hs₁⟩)
    hl.apart (fun p hp => (hl.handle p hp).1) (Nat.lt_succ_of_le hle) (.start version) ht hs₁
  refine ⟨u, s', taken', ?_, hs', hu⟩
  rw [load, bind_of_ok (onStream_of_ok hn)]
  refine (bind_of_ok (x := Action.require _ _) rfl).trans ?_
  rw [if_neg (not_not.2 rfl), hv]
  refine (bind_of_ok (x := Action.demand _) rfl).trans ((bind_of_ok (x := get) rfl).trans ?_)
  exact bind_of_ok hr

end ArrayStore

/-! ## Strings -/

namespace ModuleMap

def loadString (m : ModuleMap) (v : StringVar) : Option StringVar :=
  (m.resolve v.owner).map fun owner => ⟨v.data, owner⟩

def countString (m : ModuleMap) (v : StringVar) (report : LoadReport) : LoadReport :=
  match m.resolve v.owner with
  | none => { report with droppedStrings := report.droppedStrings + 1 }
  | some _ => { report with strings := report.strings + 1 }

end ModuleMap

namespace StringStore

variable {m : ModuleMap}

/-- the record of a string, read into a table without it -/
theorem loadRecord_written {v : StringVar} {id : UInt32} (hself : handleOf id = id) (hz : id ≠ 0)
    {l rest : List UInt8} (hd : v.draft id = .of l) (report : LoadReport) {t : StringStore}
    {s : Stream} (hs : s.Stands l rest) (ht : t.find? id = none) :
    ∃ u s' body', loadRecord m report (t, s) = .ok (m.countString v report) (u, s') ∧
      s'.Stands body' rest ∧ Loads m.loadString [(id, v)] t u := by
  rw [← List.append_nil l] at hs
  obtain ⟨s₁, hr, hs₁⟩ := hs.read (Reader.takes_savedString hself hz hd)
  rw [loadRecord, bind_of_ok (onStream_of_ok hr), ModuleMap.countString]
  dsimp only
  cases howner : m.resolve v.owner with
  | none =>
    exact ⟨t, s₁, [], rfl, hs₁, loads_dropped hself ht (by rw [ModuleMap.loadString, howner]; rfl)⟩
  | some owner =>
    obtain ⟨u, hu, hinsert⟩ := HandleTable.exists_insert hself hz ht (⟨v.data, owner⟩ : StringVar)
      (.format (.duplicateId .string id.toNat)) (β := LoadReport)
      { report with strings := report.strings + 1 } s₁
    have hloaded : m.loadString v = some ⟨v.data, owner⟩ := by
      rw [ModuleMap.loadString, howner]
      rfl
    exact ⟨u, s₁, [], hinsert, hs₁, loads_bound hself hloaded hu⟩

def body (p : UInt32 × StringVar) : Draft UInt8 := p.2.draft p.1

def bytesOf (l : List (UInt32 × StringVar)) : List UInt8 :=
  (sectionOf ⟨SaveFormat.stringStart, SaveFormat.stringVersion, []⟩
    ⟨SaveFormat.stringEnd, SaveFormat.stringVersion, []⟩
    (recordOf SaveFormat.stringRecord SaveFormat.stringVersion body) l).flatMap Record.encode

theorem loadRecords_record {fuel : Nat} {report report' : LoadReport} {t u : StringStore}
    {s s₁ s' : Stream} {header : Header} (hn : Stream.next s = .ok (some header) s₁)
    (htag : header.tag = SaveFormat.stringRecord)
    (hr : loadRecord m report (t, s₁) = .ok report' (u, s')) :
    loadRecords m (fuel + 1) report (t, s) = loadRecords m fuel report' (u, s') := by
  rw [loadRecords, bind_of_ok (nextInSection_of_ok .string hn)]
  rw [htag, if_neg (by decide), if_pos rfl]
  exact bind_of_ok hr

theorem loadRecords_end {fuel : Nat} {report : LoadReport} {t : StringStore} {s s₁ : Stream}
    {header : Header} (hn : Stream.next s = .ok (some header) s₁)
    (htag : header.tag = SaveFormat.stringEnd) :
    loadRecords m (fuel + 1) report (t, s) = .ok report (t, s₁) := by
  rw [loadRecords, bind_of_ok (nextInSection_of_ok .string hn)]
  exact congrFun (if_pos htag) _

theorem written_of_records {s : StringStore} {l : List Record} (h : records s = .of l) :
    Written body s.toList ∧ l.flatMap Record.encode = bytesOf s.toList := by
  obtain ⟨hl, rfl⟩ := written_of_section body h
  exact ⟨hl, rfl⟩

theorem load_written {l : List (UInt32 × StringVar)} (hl : Written body l) {t : StringStore}
    (ht : ∀ p ∈ l, t.find? p.1 = none) (report : LoadReport) {taken rest : List UInt8} {s : Stream}
    (hs : s.Stands taken (bytesOf l ++ rest)) :
    ∃ u s' taken', load m report (t, s) =
        .ok (l.foldl (fun report p => m.countString p.2 report) report) (u, s') ∧
      s'.Stands taken' rest ∧ Loads m.loadString l t u := by
  obtain ⟨s₁, hn, hs₁, hle, -⟩ := Stream.enter_section hs rfl rfl
  obtain ⟨u, s', taken', hr, hs', hu⟩ := run_section (loadRecords m) m.countString
    m.loadString
    (fun p hp {fuel report taken rest t s} hs ht => by
      obtain ⟨s₁, hn, hs₁⟩ := hs.next rfl (hl.length p hp)
      obtain ⟨u, s', taken', hr, hs', hu⟩ := loadRecord_written (m := m) (hl.handle p hp).1
        (hl.handle p hp).2 (hl.whole p hp) report hs₁ ht
      exact ⟨u, s', taken', loadRecords_record hn rfl hr, hs', hu⟩)
    (fun {fuel report taken t s} hs => by
      obtain ⟨s₁, hn, hs₁⟩ := hs.next rfl (Nat.pow_pos (by decide))
      exact ⟨s₁, [], loadRecords_end hn rfl, hs₁⟩)
    hl.apart (fun p hp => (hl.handle p hp).1) (Nat.lt_succ_of_le hle) report ht hs₁
  refine ⟨u, s', taken', ?_, hs', hu⟩
  rw [load]
  refine (bind_of_ok (x := get) rfl).trans ((bind_of_ok (onStream_of_ok hn)).trans ?_)
  exact (congrFun (if_pos rfl) _).trans hr

end StringStore

end ScriptVars
