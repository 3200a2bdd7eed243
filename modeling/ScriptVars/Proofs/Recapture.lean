import ScriptVars.Proofs.Capturing
import ScriptVars.Proofs.Targets

/-!
# Dumps that are put back

Nothing that is captured or saved depends on more than the variables and their flags.  So a dump
that can be put into a new session makes one that is saved like the session it was captured from.

* `Pending.collect_congr`            what sweeps would remove;
* `ArrayStore.written_congr`         what is written of arrays;
* `StoreDump.Alike.save_eq`          sessions with the same variables are saved alike;
* `Session.dumpable_iff`             what can be put back, where no id has reserved bits;
* `StoreDump.restores_capture`       a captured dump is put back, if every id in it can be found.
-/

namespace ScriptVars

/-! ## Tables -/

namespace HandleTable

variable {α : Type} {t u : HandleTable α}

theorem toMap_congr {β : Type} (h : ∀ i, t.find? i = u.find? i) (f : α → β) :
    t.toMap f = u.toMap f := by
  refine Std.ExtTreeMap.ext_getElem? fun i => ?_
  rw [getElem?_toMap_eq, getElem?_toMap_eq, h]

theorem temporaries_congr (h : ∀ i, t.isTemporary i = u.isTemporary i) :
    t.temporaries = u.temporaries := by
  refine eq_of_pairwise_of_mem (fun _ _ => Nat.lt_asymm) t.ascending_temporaries
    u.ascending_temporaries fun i => ?_
  rw [mem_temporaries, mem_temporaries, h]

end HandleTable

/-! ## Pending arrays -/

section
variable {s t : ArrayStore}

namespace Pending

theorem giveUp_congr (htemporary : ∀ i, t.isTemporary i = s.isTemporary i) (owner : UInt8) :
    giveUp t owner = giveUp s owner := by
  funext p child n
  simp only [giveUp, htemporary]

theorem step_congr (hfind : ∀ i, t.find? i = s.find? i)
    (htemporary : ∀ i, t.isTemporary i = s.isTemporary i) : step t = step s := by
  funext p id
  simp only [step, hfind, giveUp_congr htemporary]

theorem collect_congr (hfind : ∀ i, t.find? i = s.find? i)
    (htemporary : ∀ i, t.isTemporary i = s.isTemporary i) (fuel : Nat) (p : Pending) :
    collect t fuel p = collect s fuel p := by
  induction fuel generalizing p with
  | zero => rfl
  | succ fuel ih => simp only [collect, step_congr hfind htemporary, ih]

end Pending

namespace ArrayStore

theorem unclaimed_congr (hfind : ∀ i, t.find? i = s.find? i)
    (htemporary : ∀ i, t.isTemporary i = s.isTemporary i) : t.unclaimed = s.unclaimed := by
  have hclaim : t.isUnclaimed = s.isUnclaimed := by
    funext i
    simp only [isUnclaimed, hfind, htemporary]
  rw [unclaimed, unclaimed, HandleTable.temporaries_congr htemporary, hclaim]

theorem pendingCollection_congr (hfind : ∀ i, t.find? i = s.find? i)
    (htemporary : ∀ i, t.isTemporary i = s.isTemporary i) :
    t.pendingCollection = s.pendingCollection := by
  have hrefs : t.refTable = s.refTable := HandleTable.toMap_congr hfind _
  have hcount : t.childCount = s.childCount := by
    rw [childCount, childCount, HandleTable.toList_congr hfind]
  simp only [pendingCollection, unclaimed_congr hfind htemporary, hcount, hrefs,
    Pending.collect_congr hfind htemporary]

theorem written_congr (hfind : ∀ i, t.find? i = s.find? i)
    (htemporary : ∀ i, t.isTemporary i = s.isTemporary i) : t.written = s.written := by
  funext skip
  rw [written, written, HandleTable.toList_congr hfind, pendingCollection_congr hfind htemporary]

theorem save_congr (hfind : ∀ i, t.find? i = s.find? i)
    (htemporary : ∀ i, t.isTemporary i = s.isTemporary i) : t.save = s.save := by
  have hsize : t.size = s.size := by
    rw [HandleTable.size_eq, HandleTable.size_eq, HandleTable.toList_congr hfind]
  funext version skip
  simp only [save, written_congr hfind htemporary, hsize]

end ArrayStore

end

theorem StringStore.save_congr {s t : StringStore} (hfind : ∀ i, t.find? i = s.find? i) :
    t.save = s.save := by
  have hsize : t.size = s.size := by
    rw [HandleTable.size_eq, HandleTable.size_eq, HandleTable.toList_congr hfind]
  rw [save, save, records, records, HandleTable.toList_congr hfind, hsize]

/-! ## Sessions -/

/-- a plain id is found among the handles in use if it leads to an array -/
theorem Session.dumpable_iff {s : Session} (hu : s.arrays.Unreserved) :
    s.Dumpable ↔ s.arrays.Closed ∧ s.arrays.Nameable := by
  have hfound : ∀ p ∈ s.arrays.toList, ∀ id, Element.array id ∈ p.2.values →
      (id ∈ s.arrays.handles ↔ (s.arrays.find? id).isSome) := fun p hp id hid => by
    rw [HandleTable.mem_handles, and_iff_right (handleOf_eq_self (hu p hp id hid))]
  rw [ArrayStore.closed_iff_toList]
  constructor
  · intro hd
    refine ⟨fun p hp e he => ?_, hd.sizes⟩
    cases e with
    | array id =>
      exact ArrayStore.accepts_array.2 ((hd.targets p hp id he).imp_right (hfound p hp id he).1)
    | _ => rfl
  · rintro ⟨hclosed, hsizes⟩
    refine ⟨fun p hp id hid => ?_, hsizes⟩
    exact (ArrayStore.accepts_array.1 (hclosed p hp _ hid)).imp_right (hfound p hp id hid).2

namespace StoreDump

variable {s t : Session}

theorem Alike.save_eq (h : Alike s t) (config : Config) :
    ({ t with config } : Session).save = ({ s with config } : Session).save := by
  simp only [Session.save, ArrayStore.save_congr h.arrays h.temporary,
    StringStore.save_congr h.strings]

/-- a new session that a captured dump is put into is captured and saved like the old one -/
def Restores (s : Session) : Prop :=
  ∃ t, (capture s).apply (.start s.config) = .ok () t ∧ capture t = capture s ∧
    ∀ config stream,
      ({ t with config } : Session).save stream = ({ s with config } : Session).save stream

theorem capture_refused (hs : s.Reachable) (hd : ¬ s.Dumpable) :
    ∃ f t, (capture s).apply (.start s.config) = .error f t := by
  cases happly : (capture s).apply (.start s.config) with
  | error f t => exact ⟨f, t, rfl⟩
  | ok u t => exact absurd ((consistent_capture hs).1 (of_apply_eq_ok happly).1) hd

/-- Where no id has reserved bits, a captured dump is put back if every element leads to an array
or nowhere and every position in a list can be named.  Otherwise it is refused. -/
theorem restores_capture (hs : s.Reachable) (hu : s.arrays.Unreserved) :
    (s.arrays.Closed ∧ s.arrays.Nameable → Restores s) ∧
    (¬ (s.arrays.Closed ∧ s.arrays.Nameable) →
      ∃ f t, (capture s).apply (.start s.config) = .error f t) := by
  rw [← Session.dumpable_iff hu]
  refine ⟨fun hd => ?_, capture_refused hs⟩
  obtain ⟨t, ht⟩ := ((consistent_capture hs).2 hd).exists_apply (.start s.config)
  obtain ⟨-, hinstalled, -⟩ := of_apply_eq_ok ht
  have halike := alike_of_installed hs hinstalled
  exact ⟨t, ht, halike.capture_eq, fun config stream => by rw [halike.save_eq]⟩

/-- two lists, one within the other, and a temporary map beside them -/
def nested : List Session.Event :=
  [.arrays (.createList [] 1), .arrays (.createList [.array 1, .array 0] 2),
    .arrays (.createMap [(.text "name", .array 2)] 2), .arrays (.markTemporary 3 true)]

/-- the inner list is erased -/
def orphaned : List Session.Event := nested ++ [.arrays (.eraseArray 1)]

/-- a list of so many invalid elements -/
def blank (n : Nat) : List Session.Event :=
  [.arrays (.create .number true 1), .arrays (.resize 1 n .invalid)]

theorem restores_capture_nested : Restores (Session.run .standard nested) ∧
    ∃ f t, (capture (Session.run .standard orphaned)).apply (.start .standard) = .error f t := by
  have hs := Session.reachable_run .standard
  have hopen : ¬ (Session.run .standard orphaned).arrays.Closed := by decide +kernel
  exact ⟨(restores_capture (hs nested) (by decide +kernel)).1 (by decide +kernel),
    (restores_capture (hs orphaned) (by decide +kernel)).2 fun h => hopen h.1⟩

theorem exists_blank (config : Config) (n : Nat) :
    ∃ p ∈ (Session.run config (blank n)).arrays.toList, p.2.isPacked = true ∧ p.2.size = n := by
  let t : ArrayStore := (ArrayStore.Call.create .number true 1).apply .empty
  let a : ArrayVar := ⟨.array, 1, [], .packed (List.replicate n .invalid)⟩
  have hf : t.find? 1 = some ⟨.array, 1, [], .packed []⟩ := by decide +kernel
  have htargets : ArrayStore.targetsOf (List.replicate n .invalid) = [] :=
    List.filterMap_replicate
  have hresize : ArrayStore.resize 1 n .invalid t = .ok () (t.replace 1 a) := by
    rw [ArrayStore.resize, Action.bind_of_ok (ArrayStore.requireTarget_of_accepts rfl),
      Action.bind_of_ok (ArrayStore.lookup_eq_ok.2 ⟨hf, rfl⟩)]
    show EStateM.Result.ok () ((ArrayStore.releaseAll (t.replace 1 a) [] 1).retainAll
      (ArrayStore.targetsOf (List.replicate n .invalid)) 1) = _
    rw [htargets, ArrayStore.releaseAll_nil, ArrayStore.retainAll_nil]
  have hrun : (Session.run config (blank n)).arrays = t.replace 1 a := by
    show (ArrayStore.resize 1 n .invalid).after t = _
    rw [Action.after, hresize]
  refine ⟨(1, a), ?_, rfl, List.length_replicate⟩
  rw [hrun, HandleTable.mem_toList, ArrayStore.find?_replace, if_pos rfl, hf]
  exact ⟨by decide, rfl⟩

/-- a dump is not put back with an id that leads nowhere, or with a list that goes beyond the
greatest key -/
theorem not_restored :
    (∃ f t, (capture (Session.run .standard orphaned)).apply (.start .standard) = .error f t) ∧
    ∃ f t, (capture (Session.run .standard (blank (Key.greatestIndex + 2)))).apply
      (.start .standard) = .error f t := by
  have hs := Session.reachable_run .standard
  refine ⟨capture_refused (hs orphaned) fun hd => ?_, capture_refused (hs (blank _)) fun hd => ?_⟩
  · have hplain : (Session.run .standard orphaned).arrays.Unreserved := by decide +kernel
    exact absurd ((Session.dumpable_iff hplain).1 hd).1 (by decide +kernel)
  · obtain ⟨p, hp, hpacked, hsize⟩ := exists_blank .standard (Key.greatestIndex + 2)
    have hle := hd.sizes p hp hpacked
    omega

end StoreDump

end ScriptVars
