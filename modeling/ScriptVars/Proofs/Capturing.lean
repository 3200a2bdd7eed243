import ScriptVars.Proofs.Dumping
import ScriptVars.Proofs.Representation

/-!
# What a captured dump holds

* `ArrayDump.toArray_ofArray`        an array is what its dump says;
* `StoreDump.alike_of_installed`     so is a session that a captured dump is put into;
* `Session.Dumpable`                 a session whose dump is consistent;
* `StoreDump.consistent_capture`     that there are no others.
-/

namespace ScriptVars

/-! ## Arrays -/

theorem ArrayVar.length_entries (a : ArrayVar) : a.entries.length = a.size :=
  a.storage.length_entries

theorem ArrayVar.map_snd_entries (a : ArrayVar) : a.entries.map Prod.snd = a.values :=
  a.storage.map_snd_entries

theorem Storage.storageFrom_entries_of_fits {kind : ArrayKind} {s : Storage} (h : s.Fits kind) :
    kind.storageFrom s.entries = s := by
  rw [ArrayKind.storageFrom]
  cases s with
  | packed values =>
    have hp : kind.isPacked = true := h
    rw [if_pos hp, Storage.map_snd_entries]
    rfl
  | sorted entries =>
    obtain ⟨hp, ha, -⟩ := h
    rw [if_neg (Bool.eq_false_iff.1 hp)]
    exact congrArg Storage.sorted (Ascending.foldl_insert [] ha)

theorem ArrayDump.toArray_ofArray {a : ArrayVar} (ha : a.Fits) (id : UInt32) (temporary : Bool) :
    (ofArray id a temporary).toArray = a := by
  obtain ⟨kind, owner, refs, storage⟩ := a
  exact congrArg (ArrayVar.mk kind owner refs) (Storage.storageFrom_entries_of_fits ha)

theorem Key.index?_le {k : Key} {i : Nat} (h : k.index? = some i) : i ≤ greatestIndex := by
  cases k with
  | text s => cases h
  | number x =>
    simp only [index?] at h
    split at h
    · split at h
      · next hle =>
        cases h
        exact hle
      · cases h
    · cases h

/-- the key of the last entry names its position -/
theorem length_le_of_index? {l : List (Key × Element)}
    (h : ∀ (i : Nat) p, l[i]? = some p → p.1.index? = some i) :
    l.length ≤ Key.greatestIndex + 1 := by
  by_contra hlarge
  have hlt : l.length - 1 < l.length := by omega
  have hle := Key.index?_le (h _ _ (List.getElem?_eq_getElem hlt))
  omega

/-- the entries of a list stand under their positions -/
theorem Storage.getElem?_entries_packed {values : List Element} {i : Nat} {p : Key × Element}
    (h : (packed values).entries[i]? = some p) : p.1 = Key.ofIndex i ∧ values[i]? = some p.2 := by
  rw [entries, indexed, List.getElem?_map, List.getElem?_zipIdx, Option.map_map,
    Option.map_eq_some_iff] at h
  obtain ⟨e, he, rfl⟩ := h
  exact ⟨congrArg Key.ofIndex (Nat.zero_add i), he⟩

/-! ## Sessions -/

namespace StoreDump

variable {s t : Session}

theorem mem_arrays_capture {d : ArrayDump} : d ∈ (capture s).arrays ↔
    ∃ p ∈ s.arrays.toList, d = .ofArray p.1 p.2 (s.arrays.isTemporary p.1) := by
  rw [capture, List.mem_map]
  exact exists_congr fun p => and_congr_right fun _ => eq_comm

theorem handles_capture :
    ((capture s).arrays.map fun a => handleOf a.id) = s.arrays.handles := by
  rw [capture, HandleTable.handles_eq, List.map_map]
  exact List.map_congr_left fun p hp => (HandleTable.mem_toList.1 hp).1

theorem stringIds_capture :
    ((capture s).strings.map fun v => handleOf v.id) = s.strings.handles := by
  rw [capture, HandleTable.handles_eq, List.map_map]
  exact List.map_congr_left fun p hp => (HandleTable.mem_toList.1 hp).1

end StoreDump

theorem HandleTable.nodup_handles {α : Type} (t : HandleTable α) : t.handles.Nodup := by
  rw [handles_eq]
  refine List.pairwise_map.2 (t.ascending_toList.imp fun {p q} hlt e => ?_)
  rw [e] at hlt
  exact Nat.lt_irrefl _ hlt

/-- every position in a list has a key -/
def ArrayStore.Nameable (s : ArrayStore) : Prop :=
  ∀ p ∈ s.toList, p.2.isPacked = true → p.2.size ≤ Key.greatestIndex + 1

instance (s : ArrayStore) : Decidable s.Nameable :=
  inferInstanceAs (Decidable (∀ p ∈ s.toList, p.2.isPacked = true → _))

/-- every id that an element has is zero, or as it stands the handle of an array; and every position
in a list has a key -/
structure Session.Dumpable (s : Session) : Prop where
  targets : ∀ p ∈ s.arrays.toList, ∀ id, Element.array id ∈ p.2.values →
    id = 0 ∨ id ∈ s.arrays.handles
  sizes : s.arrays.Nameable

namespace StoreDump

variable {s t : Session}

/-- the entries of an array that is captured -/
theorem entryFits_capture (hs : s.Reachable) (hd : s.Dumpable) {p : UInt32 × ArrayVar}
    (hp : p ∈ s.arrays.toList) {q : (Key × Element) × Nat} (hq : q ∈ p.2.entries.zipIdx) :
    EntryFits (· ∈ s.arrays.handles) p.2.kind q.2 q.1 := by
  have hget : p.2.entries[q.2]? = some q.1 := List.mk_mem_zipIdx_iff_getElem?.1 hq
  have hmem : q.1 ∈ p.2.entries := List.mem_of_getElem? hget
  have hfits : p.2.storage.Fits p.2.kind := hs.fits p hp
  obtain ⟨hkey, htext⟩ := hs.short hp q.1 hmem
  refine
    { index := fun hpacked => ?_
      keyType := fun hpacked => ?_
      keyText := hkey
      text := htext
      target := fun id hid => hd.targets p hp id ?_ }
  · have hlt : q.2 < p.2.size := by
      rw [← p.2.length_entries]
      exact (List.getElem?_eq_some_iff.1 hget).1
    have hsize := hd.sizes p hp hpacked
    obtain ⟨i, kind, owner, refs, storage⟩ := p
    cases storage with
    | packed values =>
      rw [(Storage.getElem?_entries_packed hget).1]
      exact Key.index?_ofIndex (by omega)
    | sorted entries => exact absurd hpacked (Bool.eq_false_iff.1 hfits.1)
  · obtain ⟨i, kind, owner, refs, storage⟩ := p
    cases storage with
    | packed values => exact absurd hfits (Bool.eq_false_iff.1 hpacked)
    | sorted entries => exact hfits.2.2 _ hmem
  · rw [← p.2.map_snd_entries, ← hid]
    exact List.mem_map_of_mem hmem

theorem consistent_capture (hs : s.Reachable) : (capture s).Consistent ↔ s.Dumpable := by
  constructor
  · intro hc
    have hentry : ∀ p ∈ s.arrays.toList, ∀ i q, p.2.entries[i]? = some q →
        EntryFits (· ∈ s.arrays.handles) p.2.kind i q := fun p hp i q hq => by
      have hfit := hc.entries _ (mem_arrays_capture.2 ⟨p, hp, rfl⟩) (q, i)
        (List.mk_mem_zipIdx_iff_getElem?.2 hq)
      rwa [handles_capture] at hfit
    constructor
    · intro p hp id hid
      rw [← p.2.map_snd_entries, List.mem_map] at hid
      obtain ⟨q, hq, he⟩ := hid
      obtain ⟨i, hi⟩ := List.mem_iff_getElem?.1 hq
      exact (hentry p hp i q hi).target id he
    · intro p hp hpacked
      rw [← p.2.length_entries]
      exact length_le_of_index? fun i q hq => (hentry p hp i q hq).index hpacked
  · intro hd
    refine
      { arrayIds := fun a ha => ?_
        arrayIds_nodup := by rw [handles_capture]; exact s.arrays.nodup_handles
        stringIds := fun v hv => ?_
        stringIds_nodup := by rw [stringIds_capture]; exact s.strings.nodup_handles
        entries := fun a ha q hq => ?_ }
    · obtain ⟨p, hp, rfl⟩ := mem_arrays_capture.1 ha
      obtain ⟨hself, hz⟩ := HandleTable.handle_of_mem_toList hp
      exact fun e => hz (hself.symm.trans e)
    · obtain ⟨p, hp, rfl⟩ := List.mem_map.1 hv
      obtain ⟨hself, hz⟩ := HandleTable.handle_of_mem_toList hp
      exact fun e => hz (hself.symm.trans e)
    · obtain ⟨p, hp, rfl⟩ := mem_arrays_capture.1 ha
      rw [handles_capture]
      exact entryFits_capture hs hd hp hq

/-- the same variables with the same flags, whatever else is different -/
structure Alike (s t : Session) : Prop where
  arrays : ∀ i, t.arrays.find? i = s.arrays.find? i
  temporary : ∀ i, t.arrays.isTemporary i = s.arrays.isTemporary i
  strings : ∀ i, t.strings.find? i = s.strings.find? i

theorem Alike.capture_eq (h : Alike s t) : capture t = capture s := by
  rw [capture, capture, HandleTable.toList_congr h.arrays, HandleTable.toList_congr h.strings]
  simp only [h.temporary]

/-- a captured dump puts back what it was captured from -/
theorem alike_of_installed (hs : s.Reachable) (h : (capture s).Installed t) : Alike s t := by
  have harray : ∀ p ∈ s.arrays.toList,
      (ArrayDump.ofArray p.1 p.2 (s.arrays.isTemporary p.1)).id = p.1 ∧
        (ArrayDump.ofArray p.1 p.2 (s.arrays.isTemporary p.1)).toArray = p.2 := fun p hp =>
    ⟨rfl, ArrayDump.toArray_ofArray (hs.fits p hp) _ _⟩
  exact
    { arrays := h.arrays.find?_eq harray
      temporary := h.arrays.isTemporary_eq harray fun _ _ => rfl
      strings := h.strings.find?_eq fun _ _ => ⟨rfl, rfl⟩ }

end StoreDump

end ScriptVars
