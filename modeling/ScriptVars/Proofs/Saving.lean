import ScriptVars.Proofs.Contents
import ScriptVars.Proofs.Faults
import ScriptVars.Proofs.Origins
import ScriptVars.Proofs.PendingArrays

/-!
# What can be saved

Texts in arrays are checked wherever they come from, so they never stand in the way of a save.  The
text of a string may do so, for a dump may hold one of any length, and one of a save may grow when
it is read.

* `ArrayStore.mem_written`         what a save writes of arrays;
* `Session.Countable`              a session whose numbers fit a save;
* `Session.save_run`               when sessions can be saved;
* `Session.not_save_overlong`      a string that stands in the way.
-/

namespace ScriptVars

open ScriptVars.Action

/-! ## References that are written -/

namespace Pending

variable {s : ArrayStore}

/-- reference lists may have lost some members -/
def Within (s : ArrayStore) (refs : RefTable) : Prop :=
  ∀ (h : UInt32) (l : List UInt8), refs[h]? = some l →
    ∃ held, s.refTable[h]? = some held ∧ l.Sublist held

theorem within_step {p : Pending} (w : Within s p.refs) (id : UInt32) :
    Within s (step s p id).refs := by
  rw [step]
  split
  · exact w
  · dsimp only
    split
    · exact w
    · next a _ =>
      intro h l hl
      rw [(gives_tally s a.owner a.children { p with found := p.found.insert id }).refs] at hl
      obtain ⟨held, hp, rfl⟩ := Option.map_eq_some_iff.1 hl
      obtain ⟨whole, hw, hsub⟩ := w h held hp
      refine ⟨whole, hw, ?_⟩
      rw [withoutRefs_eq_diff]
      exact (List.diff_sublist _ _).trans hsub

theorem within_collect {p : Pending} (w : Within s p.refs) (fuel : Nat) :
    Within s (collect s fuel p).refs := by
  induction fuel generalizing p with
  | zero => exact w
  | succ fuel ih =>
    rw [collect]
    split
    · exact w
    · next id rest _ => exact ih (within_step (p := { p with worklist := rest }) w id)

end Pending

namespace ArrayStore

/-- what is written of an array is there, and has no more references than the array -/
theorem mem_written {s : ArrayStore} {skip : Bool} {p : UInt32 × ArrayVar × List UInt8}
    (h : p ∈ s.written skip) : (p.1, p.2.1) ∈ s.toList ∧ p.2.2.Sublist p.2.1.refs := by
  rw [written] at h
  split at h
  · obtain ⟨⟨i, a⟩, hq, rfl⟩ := List.mem_map.1 h
    have hq := List.mem_of_mem_filter hq
    refine ⟨hq, ?_⟩
    have hw : Pending.Within s s.pendingCollection.2 :=
      Pending.within_collect (p := Pending.start s) (fun _ l hl => ⟨l, hl, .refl l⟩) _
    show (s.pendingCollection.2[i]?.getD a.refs).Sublist a.refs
    cases hl : s.pendingCollection.2[i]? with
    | none => exact .refl _
    | some l =>
      obtain ⟨held, hheld, hsub⟩ := hw i l hl
      rw [getElem?_refTable hq] at hheld
      obtain rfl := Option.some.inj hheld
      exact hsub
  · obtain ⟨q, hq, rfl⟩ := List.mem_map.1 h
    exact ⟨hq, .refl _⟩

end ArrayStore

namespace Session

/-- numbers of elements and of references, and lengths of records, that fit four bytes -/
structure Countable (s : Session) : Prop where
  elements : ∀ p ∈ s.arrays.toList, p.2.size < Bytes.capacity 4
  references : ∀ p ∈ s.arrays.toList, p.2.refs.length < Bytes.capacity 4
  arrayRecords : ∀ p ∈ s.arrays.written s.config.skipPendingOnSave,
    (p.2.1.draft p.1 p.2.2 s.config.saveVersion).parts.length < Bytes.capacity 4
  stringRecords : ∀ p ∈ s.strings.toList, (p.2.draft p.1).parts.length < Bytes.capacity 4

instance : DecidablePred Countable := fun _ =>
  decidable_of_iff (_ ∧ _ ∧ _ ∧ _) ⟨fun ⟨he, hr, ha, hs⟩ => ⟨he, hr, ha, hs⟩,
    fun ⟨he, hr, ha, hs⟩ => ⟨he, hr, ha, hs⟩⟩

theorem exists_save {s : Session} {stream : Stream} :
    (∃ report stream', s.save stream = .ok report stream') ↔
      (∃ report stream', s.arrays.save s.config.saveVersion s.config.skipPendingOnSave stream =
        .ok report stream') ∧ ∀ p ∈ s.strings.toList,
          (p.2.draft p.1).parts.length < Bytes.capacity 4 ∧ (p.2.draft p.1).fault = none := by
  constructor
  · rintro ⟨report, stream', h⟩
    obtain ⟨_, s₁, harrays, h₁⟩ := bind_eq_ok.1 h
    obtain ⟨_, s₂, hstrings, -⟩ := bind_eq_ok.1 h₁
    exact ⟨⟨_, _, harrays⟩, StringStore.exists_save.1 ⟨_, _, hstrings⟩⟩
  · rintro ⟨⟨report, s₁, harrays⟩, hall⟩
    obtain ⟨n, s₂, hstrings⟩ := StringStore.exists_save.2 hall
    exact ⟨_, s₂, (bind_of_ok harrays).trans ((bind_of_ok hstrings).trans rfl)⟩

theorem checkVersion_of_validate {config : Config} (h : config.validate = .ok ()) :
    SaveFormat.checkVersion config.saveVersion = .ok () := by
  rw [Config.validate] at h
  split at h
  · next hv => exact if_pos hv
  · cases h

theorem config_run (config : Config) (events : List Event) :
    (run config events).config = config :=
  List.foldlRecOn events step (motive := fun s => s.config = config) rfl fun s hs e _ =>
    (config_step s e).trans hs

theorem reachable_run (config : Config) (events : List Event) : (run config events).Reachable :=
  List.foldlRecOn events step (.start config) fun _ hs e _ => .step e hs

/-- no array ever has a text that is too long -/
theorem Reachable.short {s : Session} (h : s.Reachable) {p : UInt32 × ArrayVar}
    (hp : p ∈ s.arrays.toList) : ∀ q ∈ p.2.entries, q.1.Short ∧ q.2.Short := by
  have hQ := Storage.invariant_holds (fun _ => Key.short_of_checkText)
    fun _ => Element.short_of_checkText
  have hf := (HandleTable.mem_toList.1 hp).2
  have hholds : p.2.storage.Holds Key.Short Element.Short := (h.all hQ).here hf
  exact hholds.mem_entries fun _ => nofun

/-- Texts in arrays never stand in the way of a save.  A session whose numbers fit can be saved if
and only if no string has a text that is too long, and such a text has come from outside. -/
theorem save_run {config : Config} (hc : config.validate = .ok ()) (events : List Event)
    (hs : (run config events).Countable) (stream : Stream) :
    (∀ p ∈ (run config events).arrays.toList, ∀ q ∈ p.2.entries, q.1.Short ∧ q.2.Short) ∧
    ((∃ report stream', (run config events).save stream = .ok report stream') ↔
      ∀ p ∈ (run config events).strings.toList, p.2.data.utf8ByteSize ≤ maxTextBytes) ∧
    ∀ p ∈ (run config events).strings.toList, maxTextBytes < p.2.data.utf8ByteSize →
      ∃ e ∈ events, e.Brings p.2.data := by
  have hbrought := meets_run config events
  have hshort : ∀ p ∈ (run config events).arrays.toList, ∀ q ∈ p.2.entries,
      q.1.Short ∧ q.2.Short := fun p hp => (reachable_run config events).short hp
  have hversion : SaveFormat.checkVersion (run config events).config.saveVersion = .ok () :=
    checkVersion_of_validate (by rw [config_run, hc])
  generalize run config events = s at hs hbrought hshort hversion
  have harrays : ∃ report stream', s.arrays.save s.config.saveVersion s.config.skipPendingOnSave
      stream = .ok report stream' := by
    refine ArrayStore.exists_save.2 ⟨hversion, fun p hp => ⟨hs.arrayRecords p hp, ?_⟩⟩
    obtain ⟨hm, hsub⟩ := ArrayStore.mem_written hp
    refine ArrayVar.fault_draft.2 ⟨fun _ => ?_, hs.elements _ hm, hshort _ hm⟩
    exact Nat.lt_of_le_of_lt hsub.length_le (hs.references _ hm)
  refine ⟨hshort, ?_, fun p hp hlong => ?_⟩
  · rw [exists_save, and_iff_right harrays]
    refine forall₂_congr fun p hp => ?_
    rw [and_iff_right (hs.stringRecords p hp), StringVar.fault_draft]
  · have hf := (HandleTable.mem_toList.1 hp).2
    refine (hbrought.here hf).resolve_left fun hchecked => ?_
    exact absurd (checkText_eq_ok.1 hchecked) (Nat.not_le.2 hlong)

/-- a map of texts, and a string beside it -/
def labelled : List Event :=
  [.arrays (.createMap [(.text "name", .string "value")] 3), .strings (.create "word" 3)]

theorem save_run_labelled :
    ∃ report stream', (run .standard labelled).save .empty = .ok report stream' := by
  have hs : (run .standard labelled).Countable :=
    ⟨by decide +kernel, by decide +kernel, by decide +kernel, by decide +kernel⟩
  exact (save_run rfl labelled hs .empty).2.1.2 (by decide +kernel)

/-- a dump of one string -/
def dumped (text : String) : List Event := [.apply ⟨[], [⟨1, 0, text⟩]⟩]

theorem strings_dumped (text : String) :
    (run .standard (dumped text)).strings.toList = [(1, ⟨text, 0⟩)] := rfl

theorem countable_dumped {text : String} (h : maxTextBytes < text.utf8ByteSize) :
    (run .standard (dumped text)).Countable where
  elements := List.forall_mem_nil _
  references := List.forall_mem_nil _
  arrayRecords := List.forall_mem_nil _
  stringRecords := by
    rw [strings_dumped, List.forall_mem_singleton]
    have hfailed : Draft.text text = .failed (.textTooLong (Utf8.encode text).length) :=
      if_neg (Nat.not_lt.2 h)
    rw [StringVar.draft, hfailed]
    show 5 < Bytes.capacity 4
    decide

/-- a string of a dump may stand in the way -/
theorem not_save_overlong :
    ¬ ∀ (config : Config) (events : List Event) (stream : Stream), config.validate = .ok () →
      (run config events).Countable →
      ∃ report stream', (run config events).save stream = .ok report stream' := by
  intro hsave
  let text := String.ofList (List.replicate 65536 'y')
  have hsize : text.utf8ByteSize = 65536 := Utf8.utf8ByteSize_replicate 65536 'y'
  have hlong : maxTextBytes < text.utf8ByteSize := by
    rw [hsize]
    decide
  obtain ⟨-, hstrings⟩ := exists_save.1
    (hsave .standard (dumped text) .empty rfl (countable_dumped hlong))
  rw [strings_dumped, List.forall_mem_singleton] at hstrings
  exact absurd (StringVar.fault_draft.1 hstrings.2) (Nat.not_le.2 hlong)

end Session

end ScriptVars
