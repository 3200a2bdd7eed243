import ScriptVars.Proofs.Records

/-!
# Drafts with and without a fault

A save is refused only for the sake of a text that is too long, of a count that does not fit four
bytes, or of a record that is too long.

* `Draft.fault_append`, …                   what drafts without a fault are made of;
* `Key.Short`, `Element.Short`              no text that is too long;
* `ArrayVar.fault_draft`, `StringVar.fault_draft`   the bodies of records;
* `ArrayStore.exists_save`, `StringStore.exists_save`   sections.
-/

namespace ScriptVars

open ScriptVars.Action

namespace Draft

variable {α γ : Type}

theorem fault_append {d e : Draft α} : (d ++ e).fault = none ↔ d.fault = none ∧ e.fault = none := by
  obtain ⟨parts, fault⟩ := d
  cases fault with
  | none => exact ⟨fun h => ⟨rfl, h⟩, fun h => h.2⟩
  | some f => exact iff_of_false (Option.some_ne_none _) fun h => Option.some_ne_none _ h.1

theorem fault_of_append {l : List α} {e : Draft α} : (of l ++ e).fault = none ↔ e.fault = none :=
  fault_append.trans (and_iff_right rfl)

theorem fault_append_of {d : Draft α} {l : List α} : (d ++ of l).fault = none ↔ d.fault = none :=
  fault_append.trans (and_iff_left rfl)

theorem fault_concat {d : γ → Draft α} {l : List γ} :
    (concat (l.map d)).fault = none ↔ ∀ c ∈ l, (d c).fault = none := by
  induction l with
  | nil => exact ⟨fun _ => List.forall_mem_nil _, fun _ => rfl⟩
  | cons c l ih => rw [List.map_cons, concat, fault_append, ih, List.forall_mem_cons]

theorem fault_count {n : Nat} {what : String} :
    (count n what).fault = none ↔ n < Bytes.capacity 4 := by
  rw [count]
  split
  · next h => exact iff_of_true rfl h
  · next h => exact iff_of_false (Option.some_ne_none _) h

theorem fault_text {s : String} : (text s).fault = none ↔ s.utf8ByteSize ≤ maxTextBytes := by
  have hcapacity : (Utf8.encode s).length < Bytes.capacity 2 ↔ s.utf8ByteSize ≤ maxTextBytes :=
    Nat.lt_succ_iff
  rw [text, ← hcapacity]
  split
  · next h => exact iff_of_true rfl h
  · next h => exact iff_of_false (Option.some_ne_none _) h

theorem fault_record {tag : Tag} {version : UInt32} {body : Draft UInt8} :
    (record tag version body).fault = none ↔
      body.parts.length < Bytes.capacity 4 ∧ body.fault = none := by
  rw [record]
  split
  · next h => exact (and_iff_right h).symm
  · next h => exact iff_of_false (Option.some_ne_none _) fun hb => h hb.1

/-- the records of some variables between a start and an end -/
theorem fault_section {first last : List Record} {tag : Tag} {version : UInt32}
    {body : γ → Draft UInt8} {l : List γ} :
    (of first ++ (concat (l.map fun c => record tag version (body c)) ++ of last)).fault = none ↔
      ∀ c ∈ l, (body c).parts.length < Bytes.capacity 4 ∧ (body c).fault = none := by
  rw [fault_of_append, fault_append_of, fault_concat]
  exact forall₂_congr fun _ _ => fault_record

end Draft

/-! ## Bodies -/

def Key.Short (k : Key) : Prop := ∀ s, k = .text s → s.utf8ByteSize ≤ maxTextBytes

def Element.Short (e : Element) : Prop := ∀ s, e = .string s → s.utf8ByteSize ≤ maxTextBytes

theorem Key.short_of_checkText {k : Key} (h : k.checkText = .ok ()) : k.Short := by
  rintro s rfl
  exact checkText_eq_ok.1 h

theorem Element.short_of_checkText {e : Element} (h : e.checkText = .ok ()) : e.Short := by
  rintro s rfl
  exact checkText_eq_ok.1 h

theorem Key.fault_draft {k : Key} : k.draft.fault = none ↔ k.Short := by
  cases k with
  | number x => exact iff_of_true rfl nofun
  | text s =>
    refine Draft.fault_text.trans ⟨?_, fun h => h s rfl⟩
    rintro h _ ⟨⟩
    exact h

theorem Element.fault_draft {e : Element} : e.draft.fault = none ↔ e.Short := by
  refine Draft.fault_of_append.trans ?_
  cases e with
  | string s =>
    refine Draft.fault_text.trans ⟨?_, fun h => h s rfl⟩
    rintro h _ ⟨⟩
    exact h
  | _ => exact iff_of_true rfl nofun

theorem fault_entryDraft {p : Key × Element} :
    (entryDraft p).fault = none ↔ p.1.Short ∧ p.2.Short := by
  rw [entryDraft, Draft.fault_append, Key.fault_draft, Element.fault_draft]

/-- what may stand in the way of the body of an array -/
theorem ArrayVar.fault_draft {a : ArrayVar} {id : UInt32} {refs : List UInt8} {version : UInt32} :
    (a.draft id refs version).fault = none ↔
      (version = SaveFormat.currentVersion → refs.length < Bytes.capacity 4) ∧
        a.size < Bytes.capacity 4 ∧ ∀ p ∈ a.entries, p.1.Short ∧ p.2.Short := by
  have hrefs : (if version = SaveFormat.currentVersion then refsDraft refs else .of []).fault =
      none ↔ (version = SaveFormat.currentVersion → refs.length < Bytes.capacity 4) := by
    split
    · next hv =>
      rw [refsDraft, Draft.fault_append_of, Draft.fault_count, forall_prop_of_true hv]
    · next hv => exact iff_of_true rfl fun hv' => absurd hv' hv
  refine Draft.fault_of_append.trans (Draft.fault_of_append.trans (Draft.fault_of_append.trans ?_))
  rw [Draft.fault_append, hrefs, Draft.fault_append, Draft.fault_count, Draft.fault_concat]
  exact and_congr_right fun _ => and_congr_right fun _ => forall₂_congr fun _ _ => fault_entryDraft

theorem StringVar.fault_draft {v : StringVar} {id : UInt32} :
    (v.draft id).fault = none ↔ v.data.utf8ByteSize ≤ maxTextBytes :=
  Draft.fault_of_append.trans (Draft.fault_of_append.trans Draft.fault_text)

/-! ## Sections -/

theorem Stream.exists_writeRecords {d : Draft Record} {s : Stream} :
    (∃ u s', writeRecords d s = .ok u s') ↔ d.fault = none := by
  constructor
  · rintro ⟨u, s', h⟩
    rw [(writeRecords_eq_ok h).1]
    rfl
  · obtain ⟨parts, fault⟩ := d
    rintro rfl
    exact ⟨(), s.append parts, bind_of_ok (x := modify _) rfl⟩

theorem ArrayStore.exists_save {s : ArrayStore} {version : UInt32} {skip : Bool} {stream : Stream} :
    (∃ report stream', s.save version skip stream = .ok report stream') ↔
      SaveFormat.checkVersion version = .ok () ∧ ∀ p ∈ s.written skip,
        (p.2.1.draft p.1 p.2.2 version).parts.length < Bytes.capacity 4 ∧
          (p.2.1.draft p.1 p.2.2 version).fault = none := by
  have hsection : (∃ u stream', Stream.writeRecords (records (s.written skip) version) stream =
      .ok u stream') ↔ _ := Stream.exists_writeRecords.trans Draft.fault_section
  rw [← hsection]
  constructor
  · rintro ⟨report, stream', h⟩
    obtain ⟨_, _, hdemand, h₁⟩ := bind_eq_ok.1 h
    obtain ⟨hv, rfl⟩ := demand_eq_ok.1 hdemand
    obtain ⟨_, _, hwrite, -⟩ := bind_eq_ok.1 h₁
    exact ⟨hv, _, _, hwrite⟩
  · rintro ⟨hv, u, stream', hwrite⟩
    have hdemand : demand (SaveFormat.checkVersion version) stream = .ok () stream := by rw [hv]; rfl
    exact ⟨_, stream', (bind_of_ok hdemand).trans ((bind_of_ok hwrite).trans rfl)⟩

theorem StringStore.exists_save {s : StringStore} {stream : Stream} :
    (∃ n stream', save s stream = .ok n stream') ↔ ∀ p ∈ s.toList,
      (p.2.draft p.1).parts.length < Bytes.capacity 4 ∧ (p.2.draft p.1).fault = none := by
  have hsection : (∃ u stream', Stream.writeRecords s.records stream = .ok u stream') ↔ _ :=
    Stream.exists_writeRecords.trans Draft.fault_section
  rw [← hsection]
  constructor
  · rintro ⟨n, stream', h⟩
    obtain ⟨_, _, hwrite, -⟩ := bind_eq_ok.1 h
    exact ⟨_, _, hwrite⟩
  · rintro ⟨u, stream', hwrite⟩
    exact ⟨_, stream', (bind_of_ok hwrite).trans rfl⟩

end ScriptVars
