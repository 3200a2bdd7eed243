import ScriptVars.Proofs.Restore
import ScriptVars.Proofs.Saving

/-!
# Loads one after the other

A session that is loaded, saved and loaded under another map comes out as it would under both maps
at once.  For that, a form must not become the null form when its module moves.

* `ModuleMap.andThen`                 one map after another;
* `ModuleMap.repairForm_repairForm`   forms under both;
* `Session.Restored.trans`            sessions under both;
* `Draft.Below`                       a draft that can be written wherever another one can;
* `Session.Restored.exists_toBytes`   what was loaded from a save can be saved;
* `Session.load_andThen`              two loads and one.
-/

namespace ScriptVars

open ScriptVars.Action

/-! ## Maps -/

namespace ModuleMap

/-- one map after another; a module is gone if either of them has lost it -/
def andThen (m n : ModuleMap) : ModuleMap := ⟨fun old => (m.resolve old).bind n.resolve⟩

/-- a module that both maps keep is kept -/
theorem keep_andThen (m n : ModuleMap) (index : UInt8) :
    ((m.keep index).andThen (n.keep index)).keep index =
      (m.keep index).andThen (n.keep index) := by
  refine congrArg mk (funext fun old => ?_)
  by_cases h : old = index
  · subst h
    have hm : (m.keep old).resolve old = some old := if_pos rfl
    have hn : (n.keep old).resolve old = some old := if_pos rfl
    refine (if_pos rfl).trans ?_
    show some old = ((m.keep old).resolve old).bind (n.keep old).resolve
    rw [hm]
    exact hn.symm
  · exact if_neg h

/-- the number of a form within its module -/
def formNumber (form : UInt32) : UInt32 := form &&& 0xFFFFFF

section
variable (new : UInt8) (form : UInt32)

theorem moved_eq : new.toUInt32 <<< 24 ||| formNumber form =
    UInt32.ofNat (new.toNat * formsPerModule + form.toNat % formsPerModule) :=
  (ofNat_form new form).symm

/-- a moved form has the number it had -/
theorem formNumber_moved :
    formNumber (new.toUInt32 <<< 24 ||| formNumber form) = formNumber form := by
  refine UInt32.toNat_inj.1 ?_
  rw [moved_eq, formNumber, formNumber, toNat_and_form, toNat_and_form, toNat_ofNat_form,
    Nat.mul_add_mod_self_right, Nat.mod_mod]

/-- a moved form belongs to the new module -/
theorem moduleOfForm_moved :
    ((new.toUInt32 <<< 24 ||| formNumber form) >>> 24).toUInt8 = new := by
  rw [← moduleOfForm_eq, moved_eq, moduleOfForm_ofNat]

end

theorem repairForm_of_ne (m : ModuleMap) {form : UInt32} (h : form ≠ 0) :
    m.repairForm form = match m.resolve (form >>> 24).toUInt8 with
      | some new => new.toUInt32 <<< 24 ||| formNumber form
      | none => 0 := if_neg h

/-- a form that is moved twice; with number zero it could become null on the way -/
theorem repairForm_repairForm (m n : ModuleMap) {form : UInt32}
    (h : form ≠ 0 → formNumber form ≠ 0) :
    n.repairForm (m.repairForm form) = (m.andThen n).repairForm form := by
  by_cases hz : form = 0
  · rw [repairForm, repairForm, repairForm, if_pos hz, if_pos rfl, if_pos hz]
  · rw [m.repairForm_of_ne hz, (m.andThen n).repairForm_of_ne hz]
    show _ = match (m.resolve (form >>> 24).toUInt8).bind n.resolve with
      | some new => new.toUInt32 <<< 24 ||| formNumber form
      | none => 0
    cases m.resolve (form >>> 24).toUInt8 with
    | none => rfl
    | some new =>
      have hmoved : new.toUInt32 <<< 24 ||| formNumber form ≠ 0 := by
        intro hnull
        have hnumber := formNumber_moved new form
        rw [hnull] at hnumber
        exact h hz hnumber.symm
      show n.repairForm (new.toUInt32 <<< 24 ||| formNumber form) = _
      rw [n.repairForm_of_ne hmoved, moduleOfForm_moved, formNumber_moved]
      rfl

end ModuleMap

/-! ## Variables -/

/-- a form has a number unless it is null -/
def Element.Numbered : Element → Prop
  | form id => id ≠ 0 → ModuleMap.formNumber id ≠ 0
  | _ => True

instance : DecidablePred Element.Numbered
  | .form id => inferInstanceAs (Decidable (id ≠ 0 → ModuleMap.formNumber id ≠ 0))
  | .invalid | .number _ | .string _ | .array _ => .isTrue trivial

/-- an id that comes back the second time has come back the first time -/
theorem Element.repair_repair {m n : ModuleMap} {restored restored' restored'' : UInt32 → Bool}
    (hhandle : ∀ id, restored' (handleOf id) = restored' id)
    (hboth : ∀ id, restored'' id = restored' id) (hfirst : ∀ id, restored' id → restored id)
    {e : Element} (he : e.Numbered) :
    (e.repair m restored).repair n restored' = e.repair (m.andThen n) restored'' := by
  cases e with
  | form id => exact congrArg Element.form (m.repairForm_repairForm n he)
  | array id =>
    show array (if restored' (if restored id then handleOf id else 0) then
      handleOf (if restored id then handleOf id else 0) else 0) = array (if restored'' id then _ else 0)
    rw [hboth]
    cases hr' : restored' id with
    | true => rw [hfirst id hr', if_pos rfl, hhandle, hr', if_pos rfl, handleOf_handleOf]
    | false =>
      cases restored id with
      | true =>
        rw [if_pos rfl, hhandle, hr']
        rfl
      | false => exact congrArg array (ite_self 0)
  | _ => rfl

theorem Key.fold_fold (k : Key) : k.fold.fold = k.fold := by
  cases k with
  | number x => exact congrArg Key.number x.foldZero_foldZero
  | text s => rfl

namespace Storage

variable {s : Storage}

theorem repaired_repaired (f g : Element → Element) (s : Storage) :
    (s.repaired f).repaired g = s.repaired (g ∘ f) := by
  cases s with
  | packed values => exact congrArg packed (List.map_map ..)
  | sorted entries =>
    show sorted ((entries.map _).map _) = sorted (entries.map _)
    rw [List.map_map]
    exact congrArg sorted (List.map_congr_left fun p _ =>
      congrArg (Prod.mk · ((g ∘ f) p.2)) p.1.fold_fold)

theorem repaired_congr {f g : Element → Element} (h : ∀ e ∈ s.values, f e = g e) :
    s.repaired f = s.repaired g := by
  cases s with
  | packed values => exact congrArg packed (List.map_congr_left h)
  | sorted entries =>
    refine congrArg sorted (List.map_congr_left fun p hp => congrArg (Prod.mk p.1.fold) ?_)
    exact h p.2 (List.mem_map_of_mem hp)

theorem Fits.repaired {kind : ArrayKind} (h : s.Fits kind) (f : Element → Element) :
    (s.repaired f).Fits kind := by
  cases s with
  | packed values => exact h
  | sorted entries =>
    obtain ⟨hp, ha, ht⟩ := h
    refine ⟨hp, isAscending_fold f ha, fun q hq => ?_⟩
    obtain ⟨p, hp, rfl⟩ := List.mem_map.1 hq
    rw [← ht p hp]
    cases p.1 <;> rfl

theorem size_repaired (f : Element → Element) (s : Storage) : (s.repaired f).size = s.size := by
  rw [← length_entries, entries_repaired, List.length_map, length_entries]

end Storage

theorem ArrayVar.fits_repair {m : ModuleMap} {version : UInt32} {restored : UInt32 → Bool}
    {a b : ArrayVar} (ha : a.Fits) (h : a.repair m version restored = some b) : b.Fits := by
  obtain ⟨owner, -, rfl⟩ := Option.map_eq_some_iff.1 h
  exact Storage.Fits.repaired ha _

/-- arrays, as far as both maps keep them -/
theorem ArrayVar.repair_repair {m n : ModuleMap} {version : UInt32}
    {restored restored' restored'' : UInt32 → Bool} {a : ArrayVar}
    (helements : ∀ e ∈ a.values,
      (e.repair m restored).repair n restored' = e.repair (m.andThen n) restored'') :
    (a.repair m version restored).bind (ArrayVar.repair n version restored') =
      a.repair (m.andThen n) version restored'' := by
  rw [repair, repair]
  show _ = ((m.resolve a.owner).bind n.resolve).map _
  cases m.resolve a.owner with
  | none => rfl
  | some owner =>
    show ArrayVar.repair n version restored' _ = Option.map _ (n.resolve owner)
    rw [repair]
    refine congrArg (Option.map · (n.resolve owner)) (funext fun owner' => ?_)
    have hrefs : (if version = SaveFormat.currentVersion then
        (if version = SaveFormat.currentVersion then a.refs.filterMap m.resolve else []).filterMap
          n.resolve else []) =
        if version = SaveFormat.currentVersion then a.refs.filterMap (m.andThen n).resolve
          else [] := by
      split
      · exact List.filterMap_filterMap ..
      · rfl
    have hstorage : (a.storage.repaired (Element.repair m restored)).repaired
        (Element.repair n restored') = a.storage.repaired (Element.repair (m.andThen n) restored'') :=
      (Storage.repaired_repaired ..).trans (Storage.repaired_congr helements)
    exact congrArg₂ (ArrayVar.mk a.kind owner') hrefs hstorage

theorem StringVar.repair_repair (m n : ModuleMap) (v : StringVar) :
    (v.repair m).bind (StringVar.repair n) = v.repair (m.andThen n) := by
  rw [repair, repair]
  show _ = ((m.resolve v.owner).bind n.resolve).map _
  cases m.resolve v.owner <;> rfl

/-! ## Drafts -/

namespace Draft

variable {α γ δ : Type} {d e : Draft α}

/-- written wherever the other draft is, and no longer -/
def Below (d e : Draft α) : Prop :=
  e.fault = none → d.fault = none ∧ d.parts.length ≤ e.parts.length

theorem below_of {l l' : List α} (h : l.length ≤ l'.length) : (of l).Below (of l') :=
  fun _ => ⟨rfl, h⟩

theorem length_append (h : d.fault = none) :
    (d ++ e).parts.length = d.parts.length + e.parts.length := by
  obtain ⟨parts, fault⟩ := d
  obtain rfl : fault = none := h
  exact List.length_append

theorem Below.append {d' e' : Draft α} (h : d.Below e) (h' : d'.Below e') :
    (d ++ d').Below (e ++ e') := by
  intro hfault
  obtain ⟨he, he'⟩ := fault_append.1 hfault
  obtain ⟨hd, hle⟩ := h he
  obtain ⟨hd', hle'⟩ := h' he'
  rw [length_append hd, length_append he]
  exact ⟨fault_append.2 ⟨hd, hd'⟩, Nat.add_le_add hle hle'⟩

theorem below_concat {f g : γ → Draft α} {l : List γ} (h : ∀ c ∈ l, (f c).Below (g c)) :
    (concat (l.map f)).Below (concat (l.map g)) := by
  induction l with
  | nil => exact below_of (Nat.le_refl _)
  | cons c l ih =>
    obtain ⟨hc, hl⟩ := List.forall_mem_cons.1 h
    exact hc.append (ih hl)

theorem below_count {n k : Nat} (h : n ≤ k) (what : String) : (count n what).Below (count k what) := by
  intro hfault
  have hk := fault_count.1 hfault
  have hn := Nat.lt_of_le_of_lt h hk
  refine ⟨fault_count.2 hn, Nat.le_of_eq ?_⟩
  rw [count, count, if_pos hn, if_pos hk]
  exact (Bytes.length_ofNat ..).trans (Bytes.length_ofNat ..).symm

end Draft

theorem entryDraft_repair (m : ModuleMap) (restored : UInt32 → Bool) (p : Key × Element) :
    (entryDraft (p.1.repair, p.2.repair m restored)).Below (entryDraft p) := by
  refine Draft.Below.append ?_ (Draft.Below.append ?_ ?_)
  · cases p.1 with
    | number x => exact Draft.below_of (by rw [Bytes.length_ofNat, Bytes.length_ofNat])
    | text s => exact fun h => ⟨h, Nat.le_refl _⟩
  · cases p.2 <;> exact Draft.below_of (Nat.le_refl _)
  · cases p.2 with
    | form id => exact Draft.below_of (by rw [Bytes.length_ofNat, Bytes.length_ofNat])
    | array id => exact Draft.below_of (by rw [Bytes.length_ofNat, Bytes.length_ofNat])
    | _ => exact fun h => ⟨h, Nat.le_refl _⟩

theorem ArrayVar.draft_repair {m : ModuleMap} {version : UInt32} {restored : UInt32 → Bool}
    {a b : ArrayVar} (h : a.repair m version restored = some b) (id : UInt32) :
    (b.draft id b.refs version).Below (a.draft id a.refs version) := by
  have hentries := ArrayVar.entries_repair h
  obtain ⟨owner, -, rfl⟩ := Option.map_eq_some_iff.1 h
  refine (Draft.below_of (Nat.le_refl _)).append (.append (Draft.below_of (Nat.le_refl _))
    (.append (Draft.below_of (Nat.le_refl _)) (.append ?_ (.append ?_ ?_))))
  · split
    · have hle := List.length_filterMap_le m.resolve a.refs
      exact (Draft.below_count hle "references").append (Draft.below_of hle)
    · exact Draft.below_of (Nat.le_refl _)
  · exact Draft.below_count (Nat.le_of_eq (Storage.size_repaired ..)) "elements"
  · rw [hentries, List.map_map]
    exact Draft.below_concat fun p _ => entryDraft_repair m restored p

theorem StringVar.draft_repair {m : ModuleMap} {v w : StringVar} (h : v.repair m = some w)
    (id : UInt32) : (w.draft id).Below (v.draft id) := by
  obtain ⟨owner, -, rfl⟩ := Option.map_eq_some_iff.1 h
  exact (Draft.below_of (Nat.le_refl _)).append fun h => ⟨h, Nat.le_refl _⟩

/-! ## Sessions -/

namespace Session

/-- every form but the null form has a number within its module -/
def FormsNumbered (s : Session) : Prop := ∀ p ∈ s.arrays.toList, ∀ e ∈ p.2.values, e.Numbered

instance (s : Session) : Decidable s.FormsNumbered :=
  inferInstanceAs (Decidable (∀ p ∈ s.arrays.toList, ∀ e ∈ p.2.values, e.Numbered))

section
variable {m n : ModuleMap} {s t u : Session}

theorem restores_handleOf (s : Session) (m : ModuleMap) (id : UInt32) :
    s.restores m (handleOf id) = s.restores m id := by
  rw [restores, restores, s.arrays.find?_congr (handleOf_handleOf id)]

/-- what comes back under a map -/
theorem Restored.restores_eq (h : Restored m s t) (n : ModuleMap) (id : UInt32) :
    t.restores n id = s.restores (m.andThen n) id := by
  rw [restores, restores, h.arrays]
  cases s.arrays.find? id with
  | none => rfl
  | some a =>
    show ((a.repair m _ _).any _) = ((m.resolve a.owner).bind n.resolve).isSome
    rw [ArrayVar.repair]
    cases m.resolve a.owner <;> rfl

theorem restores_of_andThen (s : Session) {id : UInt32} (h : s.restores (m.andThen n) id) :
    s.restores m id := by
  rw [restores] at h ⊢
  cases hf : s.arrays.find? id with
  | none => rw [hf] at h; cases h
  | some a =>
    rw [hf] at h
    change ((m.resolve a.owner).bind n.resolve).isSome = true at h
    show (m.resolve a.owner).isSome = true
    cases ho : m.resolve a.owner with
    | none => rw [ho] at h; cases h
    | some owner => rfl

/-- what comes back twice is what comes back under both maps at once -/
theorem Restored.trans (h : Restored m s t) (h' : Restored n t u)
    (hversion : t.config.saveVersion = s.config.saveVersion) (hforms : s.FormsNumbered) :
    Restored (m.andThen n) s u := by
  have harrays : ∀ id, u.arrays.find? id = (s.arrays.find? id).bind
      (ArrayVar.repair (m.andThen n) s.config.saveVersion (s.restores (m.andThen n))) := by
    intro id
    rw [h'.arrays, h.arrays, hversion, Option.bind_assoc]
    cases hf : s.arrays.find? id with
    | none => rfl
    | some a =>
      have hin : (handleOf id, a) ∈ s.arrays.toList := HandleTable.handleOf_mem_toList.2 hf
      refine ArrayVar.repair_repair fun e he => ?_
      exact Element.repair_repair (t.restores_handleOf n) (fun id => (h.restores_eq n id).symm)
        (fun id hr => s.restores_of_andThen (h.restores_eq n id ▸ hr)) (hforms _ hin e he)
  exact {
    arrays := harrays
    entries := fun {id a b} ha hb => by
      have hr := (harrays id).symm.trans hb
      rw [ha] at hr
      exact ArrayVar.entries_repair hr
    strings := fun id => by
      rw [h'.strings, h.strings, Option.bind_assoc]
      exact congrArg _ (funext fun v => v.repair_repair m n)
    temporaries := h'.temporaries }

/-- the variables of what comes back are repaired ones -/
theorem Restored.mem_arrays (h : Restored m s t) {p : UInt32 × ArrayVar}
    (hp : p ∈ t.arrays.toList) : ∃ a, (p.1, a) ∈ s.arrays.toList ∧
      a.repair m s.config.saveVersion (s.restores m) = some p.2 := by
  obtain ⟨hself, hf⟩ := HandleTable.mem_toList.1 hp
  rw [h.arrays] at hf
  obtain ⟨a, ha, hr⟩ := Option.bind_eq_some_iff.1 hf
  exact ⟨a, HandleTable.mem_toList.2 ⟨hself, ha⟩, hr⟩

theorem Restored.mem_strings (h : Restored m s t) {p : UInt32 × StringVar}
    (hp : p ∈ t.strings.toList) : ∃ v, (p.1, v) ∈ s.strings.toList ∧ v.repair m = some p.2 := by
  obtain ⟨hself, hf⟩ := HandleTable.mem_toList.1 hp
  rw [h.strings] at hf
  obtain ⟨v, hv, hr⟩ := Option.bind_eq_some_iff.1 hf
  exact ⟨v, HandleTable.mem_toList.2 ⟨hself, hv⟩, hr⟩

theorem Restored.fits (h : Restored m s t) (hs : s.Reachable) : ∀ p ∈ t.arrays.toList, p.2.Fits := by
  intro p hp
  obtain ⟨a, ha, hr⟩ := h.mem_arrays hp
  exact ArrayVar.fits_repair (hs.fits _ ha) hr

theorem exists_toBytes : (∃ report bytes, s.toBytes = .ok (report, bytes)) ↔
    ∃ report stream, s.save .empty = .ok report stream := by
  rw [toBytes]
  cases s.save .empty with
  | ok report stream => exact iff_of_true ⟨_, _, rfl⟩ ⟨_, _, rfl⟩
  | error f stream =>
    constructor
    all_goals
      rintro ⟨_, _, h⟩
      cases h

/-- what comes back from a save can be saved -/
theorem Restored.exists_toBytes (h : Restored m s t) (hconfig : t.config = s.config)
    (hskip : s.config.skipPendingOnSave = false)
    (hs : ∃ report bytes, s.toBytes = .ok (report, bytes)) :
    ∃ report bytes, t.toBytes = .ok (report, bytes) := by
  obtain ⟨harrays, hstrings⟩ := exists_save.1 (Session.exists_toBytes.1 hs)
  obtain ⟨hv, hwritten⟩ := ArrayStore.exists_save.1 harrays
  refine Session.exists_toBytes.2 (exists_save.2 ⟨ArrayStore.exists_save.2 ⟨?_, ?_⟩, fun p hp => ?_⟩)
  · rwa [hconfig]
  · rw [hconfig, hskip]
    intro q hq
    obtain ⟨p, hp, rfl⟩ := List.mem_map.1 hq
    obtain ⟨a, ha, hr⟩ := h.mem_arrays hp
    rw [hskip] at hwritten
    obtain ⟨hlength, hfault⟩ := hwritten _ (List.mem_map_of_mem ha)
    obtain ⟨hfault', hle⟩ := ArrayVar.draft_repair hr p.1 hfault
    exact ⟨Nat.lt_of_le_of_lt hle hlength, hfault'⟩
  · obtain ⟨v, hv, hr⟩ := h.mem_strings hp
    obtain ⟨hlength, hfault⟩ := hstrings _ hv
    obtain ⟨hfault', hle⟩ := StringVar.draft_repair hr p.1 hfault
    exact ⟨Nat.lt_of_le_of_lt hle hlength, hfault'⟩

/-- loads of what was written of a session whose arrays have their layouts -/
theorem load_written_bytes (hfits : ∀ p ∈ s.arrays.toList, p.2.Fits)
    (hskip : s.config.skipPendingOnSave = false) {report : SaveReport} {bytes : List UInt8}
    (h : s.toBytes = .ok (report, bytes)) (modules : ModuleMap) (u : Session) :
    ∃ t stream, load modules (u, Stream.ofBytes bytes) =
        .ok (s.repairs (modules.keep u.config.dynamicModule)) (t, stream) ∧
      Restored (modules.keep u.config.dynamicModule) s t := by
  obtain ⟨a, b, hv, ha, hb, rfl⟩ := toBytes_eq_ok h
  rw [hskip] at ha
  exact load_records hfits hv ha hb modules u

/-- loading a save under one map, saving and loading again under another comes to the same arrays
and strings as one load under both maps -/
theorem load_andThen (hs : s.Reachable) (hforms : s.FormsNumbered)
    (hskip : s.config.skipPendingOnSave = false) {report : SaveReport} {bytes : List UInt8}
    (h : s.toBytes = .ok (report, bytes)) (m n : ModuleMap) {x y z : Session}
    (hx : x.config = s.config) (hy : y.config = s.config) (hz : z.config = s.config) :
    let d := s.config.dynamicModule
    ∃ report₁ t stream₁, load m (x, Stream.ofBytes bytes) = .ok report₁ (t, stream₁) ∧
      ∃ report₂ bytes₂, t.toBytes = .ok (report₂, bytes₂) ∧
      ∃ report₃ u stream₃, load n (y, Stream.ofBytes bytes₂) = .ok report₃ (u, stream₃) ∧
      ∃ report₄ v stream₄, load ((m.keep d).andThen (n.keep d)) (z, Stream.ofBytes bytes) =
          .ok report₄ (v, stream₄) ∧
        u.arrays.toList = v.arrays.toList ∧ u.strings.toList = v.strings.toList := by
  intro d
  obtain ⟨t, stream₁, hload₁, hr₁⟩ := load_written_bytes hs.fits hskip h m x
  obtain ⟨v, stream₄, hload₄, hr₄⟩ :=
    load_written_bytes hs.fits hskip h ((m.keep d).andThen (n.keep d)) z
  have hconfig : t.config = s.config := (config_of_load hload₁).trans hx
  obtain ⟨report₂, bytes₂, hsave⟩ := hr₁.exists_toBytes hconfig hskip ⟨_, _, h⟩
  obtain ⟨u, stream₃, hload₃, hr₃⟩ := load_written_bytes (hr₁.fits hs)
    (by rw [hconfig, hskip]) hsave n y
  rw [hx] at hr₁
  rw [hy] at hr₃
  rw [hz, ModuleMap.keep_andThen] at hr₄
  have hboth := hr₁.trans hr₃ (by rw [hconfig]) hforms
  refine ⟨_, t, stream₁, hload₁, _, bytes₂, hsave, _, u, stream₃, hload₃, _, v, stream₄, hload₄,
    HandleTable.toList_congr fun i => ?_, HandleTable.toList_congr fun i => ?_⟩
  · rw [hboth.arrays, hr₄.arrays]
  · rw [hboth.strings, hr₄.strings]

end

/-- module 1 moves to 4, and from there to 2; module 2 itself is gone -/
theorem load_andThen_mixed :
    ∃ report bytes, mixed.toBytes = .ok (report, bytes) ∧ ∃ report₁ t stream₁,
      load (.ofPairs [(1, 4)]) (start .standard, Stream.ofBytes bytes) = .ok report₁ (t, stream₁) ∧
      ∃ report₂ bytes₂, t.toBytes = .ok (report₂, bytes₂) ∧ ∃ report₃ u stream₃,
        load (.ofPairs [(4, 2)]) (start .standard, Stream.ofBytes bytes₂) =
          .ok report₃ (u, stream₃) ∧
        u.arrays.toList = [(2, ⟨.map, 2, [], .sorted [(.number ⟨0⟩, .array 0),
          (Key.ofIndex 1, .form 0), (Key.ofIndex 2, .form 0x02000007)]⟩)] ∧
        u.strings.toList = [(1, ⟨"kept", 2⟩)] := by
  let both := ((ModuleMap.ofPairs [(1, 4)]).keep 0xFF).andThen ((ModuleMap.ofPairs [(4, 2)]).keep 0xFF)
  have hboth : (mixed.toBytes.toOption.bind fun p => (ofBytes .standard both p.2).toOption.map
      fun q => (q.2.arrays.toList, q.2.strings.toList)) =
        some ([(2, ⟨.map, 2, [], .sorted [(.number ⟨0⟩, .array 0), (Key.ofIndex 1, .form 0),
          (Key.ofIndex 2, .form 0x02000007)]⟩)], [(1, ⟨"kept", 2⟩)]) := by decide +kernel
  obtain ⟨⟨report, bytes⟩, hsaved, hboth⟩ := Option.bind_eq_some_iff.1 hboth
  obtain ⟨⟨_, w⟩, hw, hlists⟩ := Option.map_eq_some_iff.1 hboth
  obtain ⟨stream, hw⟩ := exists_load_of_ofBytes hw
  obtain ⟨report₁, t, stream₁, hload₁, report₂, bytes₂, hsave, report₃, u, stream₃, hload₃,
    report₄, v, stream₄, hload₄, harrays, hstrings⟩ := load_andThen reachable_mixed
      (by decide +kernel) rfl (Failure.toOption_eq_some.1 hsaved) (.ofPairs [(1, 4)])
      (.ofPairs [(4, 2)]) (x := start .standard) (y := start .standard) (z := start .standard)
      rfl rfl rfl
  obtain ⟨rfl, -⟩ : v = w ∧ stream₄ = stream := by
    cases hw.symm.trans hload₄
    exact ⟨rfl, rfl⟩
  obtain ⟨hlist, hlist'⟩ := Prod.mk.inj hlists
  exact ⟨report, bytes, Failure.toOption_eq_some.1 hsaved, report₁, t, stream₁, hload₁, report₂,
    bytes₂, hsave, report₃, u, stream₃, hload₃, harrays.trans hlist, hstrings.trans hlist'⟩

end Session

end ScriptVars
