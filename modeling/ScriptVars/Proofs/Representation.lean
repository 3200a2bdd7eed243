import ScriptVars.Proofs.Saving

/-!
# How arrays are kept

Whatever has happened to a session, its arrays lie behind handles, in the layouts of their kinds,
and no handle is lost: one without an array will be handed out.

* `HandleTable.NoneReserved`               handles without a variable may be handed out;
* `HandleTable.invariant_noneReserved`     no operation on tables breaks this;
* `ArrayStore.create_of_noneReserved`      so a new array has the least id there is;
* `ArrayStore.Sound`                       what holds of the arrays of every session;
* `Session.Reachable.sound`                that it does.
-/

namespace ScriptVars

/-! ## Handles without a variable -/

namespace HandleTable

variable {α : Type} {t t' : HandleTable α}

/-- a handle without a variable may be handed out, also once what is set aside is back -/
structure NoneReserved (t : HandleTable α) : Prop where
  here : ∀ {h}, IsHandle h → t.find? h = none → t.IsFree h
  aside : ∀ {s}, t.aside = some s → ∀ {h}, IsHandle h → s.find? h = none → s.IsFree h.toNat

theorem noneReserved_empty : (empty : HandleTable α).NoneReserved where
  here {h} hh _ := (isFree_empty h).2 hh
  aside hs := nomatch hs

/-- only a handle that loses its variable has to be looked at -/
theorem NoneReserved.of_isFree (h : t.NoneReserved) (ha : t'.aside = t.aside)
    (hf : ∀ {x}, IsHandle x → t'.find? x = none → (t.find? x = none → t.IsFree x) → t'.IsFree x) :
    t'.NoneReserved where
  here hx hn := hf hx hn (h.here hx)
  aside hs := h.aside (ha.symm.trans hs)

theorem NoneReserved.bind (h : t.NoneReserved) {id : UInt32} {value : α}
    (hb : t.bind id value = .ok t') : t'.NoneReserved := by
  refine h.of_isFree (aside_bind hb) fun {x} hx hn hfree => ?_
  rw [find?_bind hb, handleOf_eq_self hx.2] at hn
  split at hn
  · cases hn
  · next hne => exact (isFree_bind hb x).2 ⟨hfree hn, fun e => hne e.symm⟩

/-- the handle that is taken has a variable afterwards -/
theorem NoneReserved.place (h : t.NoneReserved) {value : α} {i : UInt32}
    (hp : HandleTable.place value t = .ok i t') : t'.NoneReserved := by
  have hpl := places_of_place hp
  refine h.of_isFree hpl.aside_eq fun {x} hx hn hfree => ?_
  rw [hpl.find?, handleOf_eq_self hx.2] at hn
  split at hn
  · cases hn
  · next hne => exact (hpl.isFree_iff x).2 ⟨hfree hn, fun e => hne e.symm⟩

theorem NoneReserved.modify (h : t.NoneReserved) (id : UInt32) (f : α → α) :
    (t.modify id f).NoneReserved := by
  refine h.of_isFree (aside_modify t id f) fun {x} _ hn hfree => ?_
  rw [isFree_modify]
  rw [find?_modify] at hn
  split at hn
  · exact hfree (Option.map_eq_none_iff.1 hn)
  · exact hfree hn

/-- the handle of a variable that is erased is free from then on -/
theorem NoneReserved.erase (h : t.NoneReserved) (id : UInt32) : (t.erase id).NoneReserved := by
  refine h.of_isFree rfl fun {x} hx hn hfree => ?_
  rw [isFree_erase]
  by_cases hs : t.find? x = none
  · exact .inl (hfree hs)
  · rw [find?_erase, handleOf_eq_self hx.2] at hn
    split at hn
    · next e =>
      subst e
      rw [t.find?_congr (handleOf_handleOf id)] at hs
      exact .inr ⟨rfl, Option.isSome_iff_ne_none.2 hs⟩
    · exact absurd hn hs

theorem NoneReserved.markTemporary (h : t.NoneReserved) (id : UInt32) (temporary : Bool) :
    (t.markTemporary id temporary).NoneReserved := by
  refine h.of_isFree rfl fun {x} _ hn hfree => ?_
  rw [isFree_markTemporary]
  exact hfree (by rwa [find?_markTemporary] at hn)

theorem NoneReserved.beginLoad (h : t.NoneReserved) : t.beginLoad.NoneReserved where
  here {x} hx _ := (isFree_empty x).2 hx
  aside {s} hs {x} hx hn := by
    cases hs
    cases ha : t.aside with
    | some s =>
      rw [ha] at hn
      exact h.aside ha hx hn
    | none =>
      rw [ha] at hn
      refine (h.here hx ?_).2
      rw [find?_eq, handleOf_eq_self hx.2]
      exact hn

theorem NoneReserved.endLoad (h : t.NoneReserved) (success : Bool) :
    (t.endLoad success).NoneReserved := by
  rw [HandleTable.endLoad]
  split
  · exact h
  · next saved ha =>
    split
    · exact ⟨h.here, fun hs => by cases hs⟩
    · refine ⟨fun {x} hx hn => ⟨hx, h.aside ha hx ?_⟩, fun hs => by cases hs⟩
      rwa [find?_eq, handleOf_eq_self hx.2] at hn

/-- no operation on tables reserves a handle without binding it -/
theorem invariant_noneReserved {P : α → Prop} (hP : ∀ a, P a) : Invariant P NoneReserved where
  here _ _ a _ := hP a
  empty := noneReserved_empty
  bind h _ _ _ := h.bind
  place h _ _ _ := h.place
  modify h id f _ := h.modify id f
  erase h := h.erase
  markTemporary h := h.markTemporary
  beginLoad h := h.beginLoad
  endLoad h := h.endLoad

theorem mem_handles {h : UInt32} : h ∈ t.handles ↔ handleOf h = h ∧ (t.find? h).isSome := by
  rw [handles, Std.ExtTreeMap.mem_keys]
  exact t.mem_index_iff

theorem IsFree.not_mem_handles {h : UInt32} (hf : t.IsFree h) : h ∉ t.handles := by
  rw [mem_handles, find?_eq_none_of_isFree hf]
  exact fun hm => nomatch hm.2

theorem NoneReserved.isFree (h : t.NoneReserved) {i : UInt32} (hi : IsHandle i)
    (hn : i ∉ t.handles) : t.IsFree i := by
  refine h.here hi (Option.not_isSome_iff_eq_none.1 fun hs => hn ?_)
  exact mem_handles.2 ⟨handleOf_eq_self hi.2, hs⟩

/-- a new variable gets a handle, unless none is free -/
theorem place_cases (t : HandleTable α) (value : α) :
    (∃ i t', HandleTable.place value t = .ok i t') ∨
      (HandleTable.place value t = .error .exhausted t ∧ ∀ h, ¬ t.IsFree h) := by
  cases ha : t.allocate with
  | ok p =>
    obtain ⟨i, reserved⟩ := p
    obtain ⟨t', hb⟩ := (reserves_of_allocate ha).exists_bind value
    exact .inl ⟨i, t', place_eq_ok.2 ⟨reserved, ha, hb⟩⟩
  | error f =>
    obtain ⟨rfl, hnone⟩ := allocate_eq_error ha
    refine .inr ⟨?_, hnone⟩
    rw [HandleTable.place, Action.bind_of_ok (Action.get_eq_ok.2 ⟨rfl, rfl⟩), ha]
    rfl

end HandleTable

/-! ## Arrays -/

namespace ArrayStore

variable {s : ArrayStore}

/-- a new array has the least id that no array has; only if all handles are taken there is none -/
theorem create_of_noneReserved (h : HandleTable.NoneReserved s) {keyType : KeyType}
    (hk : keyType ≠ .invalid) (packed : Bool) (owner : UInt8) :
    (∃ i t, create keyType packed owner s = .ok i t ∧ i ≠ 0 ∧ i ∉ s.handles ∧
      ∀ j, j ≠ 0 → j ∉ s.handles → i.toNat ≤ j.toNat) ∨
    (create keyType packed owner s = .error .exhausted s ∧ ∀ j, IsHandle j → j ∈ s.handles) := by
  obtain ⟨a, hmake⟩ : ∃ a, ArrayVar.make keyType packed owner = .ok a := by
    cases keyType with
    | invalid => exact absurd rfl hk
    | number => exact ⟨_, rfl⟩
    | text => exact ⟨_, rfl⟩
  have hcreate : create keyType packed owner s = HandleTable.place a s := by
    rw [create, hmake]
    rfl
  rw [hcreate]
  rcases HandleTable.place_cases s a with ⟨i, t, hplace⟩ | ⟨hfull, hnone⟩
  · have hp := HandleTable.places_of_place hplace
    refine .inl ⟨i, t, hplace, hp.free.1.1, hp.free.not_mem_handles, fun j hj hm => ?_⟩
    by_cases hlt : j.toNat < handleLimit
    · exact hp.least j (h.isFree ⟨hj, hlt⟩ hm)
    · have := hp.free.1.2
      omega
  · refine .inr ⟨hfull, fun j hj => ?_⟩
    by_contra hm
    exact hnone j (h.isFree hj hm)

/-- what holds of the arrays of every session -/
structure Sound (s : ArrayStore) : Prop where
  /-- ids are handles -/
  bounds : ∀ p ∈ s.toList, 1 ≤ p.1.toNat ∧ p.1.toNat ≤ 0x0FFFFFFF
  /-- an array is packed if and only if its storage is a list -/
  isPacked_eq : ∀ p ∈ s.toList, p.2.isPacked = p.2.storage.isPacked
  /-- packed arrays have number keys -/
  packed : ∀ p ∈ s.toList, p.2.isPacked = true → p.2.keyType = .number
  /-- other arrays have keys of their type in ascending order -/
  sorted : ∀ p ∈ s.toList, ∀ entries, p.2.storage = .sorted entries →
    Ascending.IsAscending Key.compare entries ∧ ∀ q ∈ entries, q.1.keyType = p.2.keyType
  /-- no text is too long -/
  short : ∀ p ∈ s.toList, ∀ q ∈ p.2.entries, q.1.Short ∧ q.2.Short
  /-- only arrays are temporary -/
  temporaries : ∀ h ∈ s.temporaries, h ∈ s.handles
  /-- the next array has the least id that no array has -/
  create : ∀ keyType packed owner, keyType ≠ .invalid →
    (∃ i t, ArrayStore.create keyType packed owner s = .ok i t ∧ i ≠ 0 ∧ i ∉ s.handles ∧
      ∀ j, j ≠ 0 → j ∉ s.handles → i.toNat ≤ j.toNat) ∨
    (ArrayStore.create keyType packed owner s = .error .exhausted s ∧
      ∀ j, IsHandle j → j ∈ s.handles)

end ArrayStore

theorem Storage.Fits.isPacked_eq {kind : ArrayKind} {s : Storage} (h : s.Fits kind) :
    kind.isPacked = s.isPacked := by
  cases s with
  | packed values => exact h
  | sorted entries => exact h.1

namespace Session

theorem Reachable.noneReserved {s : Session} (h : s.Reachable) : s.arrays.NoneReserved :=
  h.invariant (Q := fun _ _ => True) (HandleTable.invariant_noneReserved fun _ => trivial) (by
    constructor <;> intros <;> trivial)

/-- whatever has happened to a session, refused or not -/
theorem Reachable.sound {s : Session} (h : s.Reachable) : s.arrays.Sound := by
  have hfits : ∀ p ∈ s.arrays.toList, p.2.storage.Fits p.2.kind := h.fits
  refine
    { bounds := fun p hp => ?_
      isPacked_eq := fun p hp => (hfits p hp).isPacked_eq
      packed := fun p _ hpacked => ?_
      sorted := fun p hp entries hstorage => ?_
      short := fun p hp => h.short hp
      temporaries := fun i hi => ?_
      create := fun keyType packed owner hk =>
        ArrayStore.create_of_noneReserved h.noneReserved hk packed owner }
  · exact HandleTable.bounds_of_mem_toList hp
  · obtain ⟨_, kind, _, _, _⟩ := p
    cases kind with
    | array => rfl
    | map => rfl
    | stringMap => cases hpacked
  · have hf := hfits p hp
    rw [hstorage] at hf
    exact hf.2
  · obtain ⟨hself, htemporary⟩ := HandleTable.mem_temporaries.1 hi
    exact HandleTable.mem_handles.2 ⟨hself, HandleTable.find?_isSome_of_isTemporary htemporary⟩

theorem sound_labelled : (run .standard labelled).arrays.Sound :=
  (reachable_run .standard labelled).sound

end Session

end ScriptVars
