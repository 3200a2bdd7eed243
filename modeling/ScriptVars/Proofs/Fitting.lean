import ScriptVars.Proofs.Calls
import ScriptVars.Proofs.Invariants

/-!
# Tables of arrays that keep an invariant

* `HandleTable.Every`            what holds of every variable of a table, also of those set aside;
* `HandleTable.Invariant`        what no operation on tables breaks; `Every` is one;
* `HandleTable.Invariant.apply`  no call breaks it, if its property of variables is an invariant of
                                 storages;
* `ArrayStore.All`               the storage of every array has some property;
* `ArrayStore.AllFit`            every array has the layout of its kind.
-/

namespace ScriptVars

/-! ## What holds of every variable -/

namespace HandleTable

variable {α : Type} {P : α → Prop} {t t' : HandleTable α}

structure Every (P : α → Prop) (t : HandleTable α) : Prop where
  here : ∀ {i a}, t.find? i = some a → P a
  aside : ∀ {s}, t.aside = some s → ∀ {h a}, s.find? h = some a → P a

theorem every_empty : (empty : HandleTable α).Every P where
  here h := by
    rw [find?_empty] at h
    cases h
  aside h := nomatch h

/-- only what is new has to be looked at -/
theorem Every.of_find? (h : t.Every P) (ha : t'.aside = t.aside)
    (hf : ∀ {i a}, t'.find? i = some a → t.find? i = some a ∨ P a) : t'.Every P where
  here hi := (hf hi).elim h.here id
  aside hs := h.aside (ha.symm.trans hs)

theorem Every.bind (h : t.Every P) {id : UInt32} {value : α} (hv : P value)
    (hb : t.bind id value = .ok t') : t'.Every P := by
  refine h.of_find? (aside_bind hb) fun {i a} hi => ?_
  rw [find?_bind hb] at hi
  split at hi
  · cases hi
    exact .inr hv
  · exact .inl hi

theorem Every.modify (h : t.Every P) (id : UInt32) {f : α → α} (hf : ∀ a, P a → P (f a)) :
    (t.modify id f).Every P := by
  refine h.of_find? (aside_modify t id f) fun {i a} hi => ?_
  rw [find?_modify] at hi
  split at hi
  · obtain ⟨b, hb, rfl⟩ := Option.map_eq_some_iff.1 hi
    exact .inr (hf b (h.here hb))
  · exact .inl hi

theorem Every.foldl {β : Type} (h : t.Every P) {g : HandleTable α → β → HandleTable α}
    (hg : ∀ {t} b, t.Every P → (g t b).Every P) (l : List β) : (l.foldl g t).Every P :=
  List.foldlRecOn l g h fun _ ht b _ => hg b ht

theorem Every.erase (h : t.Every P) (id : UInt32) : (t.erase id).Every P := by
  refine h.of_find? rfl fun {i a} hi => ?_
  rw [find?_erase] at hi
  split at hi
  · cases hi
  · exact .inl hi

theorem Every.markTemporary (h : t.Every P) (id : UInt32) (temporary : Bool) :
    (t.markTemporary id temporary).Every P := by
  refine h.of_find? rfl fun {i a} hi => .inl ?_
  rwa [find?_markTemporary] at hi

theorem Every.place (h : t.Every P) {value : α} {x : UInt32} (hv : P value)
    (hp : HandleTable.place value t = .ok x t') : t'.Every P := by
  have hpl := places_of_place hp
  refine h.of_find? hpl.aside_eq fun {i a} hi => ?_
  rw [hpl.find?] at hi
  split at hi
  · cases hi
    exact .inr hv
  · exact .inl hi

theorem Every.beginLoad (h : t.Every P) : t.beginLoad.Every P where
  here hi := every_empty.here hi
  aside {s} hs {x a} hx := by
    cases hs
    cases ha : t.aside with
    | some s => exact h.aside ha (by rwa [ha] at hx)
    | none =>
      rw [ha] at hx
      have hm := t.slots.valid.find?_isSome.1 (Option.isSome_of_eq_some hx)
      have hself := handleOf_eq_self (t.slots.valid.isHandle hm).2
      refine h.here (i := x) ?_
      rw [find?_eq, hself]
      exact hx

theorem Every.endLoad (h : t.Every P) (success : Bool) : (t.endLoad success).Every P := by
  rw [HandleTable.endLoad]
  split
  · exact h
  · next saved ha =>
    split
    · exact ⟨h.here, fun hs => by cases hs⟩
    · refine ⟨fun {i a} hi => ?_, fun hs => by cases hs⟩
      rw [find?_eq] at hi
      exact h.aside ha hi

/-- What no operation on tables breaks, as long as the variables that are put in have some property;
and it says that all of them have it. -/
structure Invariant (P : α → Prop) (J : HandleTable α → Prop) : Prop where
  here {t : HandleTable α} (h : J t) {i : UInt32} {a : α} (hf : t.find? i = some a) : P a
  empty : J .empty
  bind {t t' : HandleTable α} (h : J t) {id : UInt32} {value : α} (hv : P value)
    (hb : t.bind id value = .ok t') : J t'
  place {t t' : HandleTable α} (h : J t) {value : α} {x : UInt32} (hv : P value)
    (hp : HandleTable.place value t = .ok x t') : J t'
  modify {t : HandleTable α} (h : J t) (id : UInt32) {f : α → α} (hf : ∀ a, P a → P (f a)) :
    J (t.modify id f)
  erase {t : HandleTable α} (h : J t) (id : UInt32) : J (t.erase id)
  markTemporary {t : HandleTable α} (h : J t) (id : UInt32) (temporary : Bool) :
    J (t.markTemporary id temporary)
  beginLoad {t : HandleTable α} (h : J t) : J t.beginLoad
  endLoad {t : HandleTable α} (h : J t) (success : Bool) : J (t.endLoad success)

theorem invariant_every (P : α → Prop) : Invariant P (Every P) where
  here h := h.here
  empty := every_empty
  bind h := h.bind
  place h := h.place
  modify h := h.modify
  erase h := h.erase
  markTemporary h := h.markTemporary
  beginLoad h := h.beginLoad
  endLoad h := h.endLoad

namespace Invariant

variable {J : HandleTable α → Prop} (c : Invariant P J)
include c

theorem modifyEach {β : Type} (h : J t) (changes : HandleMap β) {f : β → α → α}
    (hf : ∀ b a, P a → P (f b a)) : J (t.modifyEach changes f) := by
  rw [HandleTable.modifyEach, Std.ExtTreeMap.foldl_eq_foldl_toList]
  exact List.foldlRecOn _ _ h fun _ ht p _ => c.modify ht p.1 (hf p.2)

theorem modifyAll (h : J t) {f : α → α} (hf : ∀ a, P a → P (f a)) : J (t.modifyAll f) :=
  List.foldlRecOn _ _ h fun _ ht i _ => c.modify ht i hf

end Invariant

end HandleTable

/-! ## Arrays -/

namespace ArrayStore

/-- the storage of every array has a property of the storages of its kind -/
def All (Q : ArrayKind → Storage → Prop) (s : ArrayStore) : Prop :=
  HandleTable.Every (ArrayVar.Meets Q) s

def AllFit (s : ArrayStore) : Prop := HandleTable.Every ArrayVar.Fits s

theorem checkTexts_of_createList {s t : ArrayStore} {elements : List Element} {owner : UInt8}
    {x : UInt32} (hc : createList elements owner s = .ok x t) : checkTexts elements = .ok () := by
  simp only [createList, Action.bind_eq_ok, Action.demand_eq_ok] at hc
  obtain ⟨_, _, ⟨hm, -⟩, -⟩ := hc
  obtain ⟨_, ht, hm⟩ := Failure.bind_eq_ok.1 hm
  obtain ⟨_, hpositions, -⟩ := Failure.bind_eq_ok.1 hm
  rwa [Storage.fillable_eq hpositions] at ht

end ArrayStore

namespace HandleTable.Invariant

open ArrayStore

variable {Q : ArrayKind → Storage → Prop} {J : ArrayStore → Prop} {s t : ArrayStore}
  (c : HandleTable.Invariant (ArrayVar.Meets Q) J)
include c

theorem retainAll (h : J s) (targets : List UInt32) (module : UInt8) :
    J (s.retainAll targets module) :=
  c.modifyEach h _ fun _ _ ha => ha

theorem releaseAll (h : J s) (targets : List UInt32) (module : UInt8) :
    J (s.releaseAll targets module) :=
  c.modifyEach h _ fun _ _ ha => ha

theorem install (h : J s) {a : ArrayVar} {x : UInt32} (ha : a.Meets Q)
    (hi : ArrayStore.install a s = .ok x t) : J t := by
  obtain ⟨u, hp, rfl⟩ := install_eq_ok.1 hi
  exact c.retainAll (c.place h ha hp) _ _

theorem exchange (h : J s) {id : UInt32} {a : ArrayVar} {storage : Storage}
    {new gone : List Element} (hs : Q a.kind storage) : J (s.exchange id a storage new gone) := by
  have hr : J (s.replace id { a with storage }) := c.modify h id fun _ _ => hs
  exact c.releaseAll (c.retainAll hr _ _) _ _

theorem destroy (h : J s) (id : UInt32) : J (s.destroy id) := by
  rw [ArrayStore.destroy]
  split
  · exact h
  · exact c.releaseAll (c.erase h id) _ _

theorem retain (h : J s) (target : UInt32) (module : UInt8) : J (s.retain target module) :=
  c.modify h target fun _ ha => ha

theorem release (h : J s) (target : UInt32) (module : UInt8) : J (s.release target module) :=
  c.modify h target fun _ ha => ha

theorem reassign (h : J s) (slot target : UInt32) (module : UInt8) :
    J (s.reassign slot target module) := by
  have hd : J (if slot = 0 then s else s.release slot module) := by
    split
    · exact h
    · exact c.release h slot module
  rw [ArrayStore.reassign]
  split
  · exact h
  · dsimp only
    split
    · exact hd
    · exact c.retain hd target module

section
variable (hQ : Storage.Invariant Q)
include hQ

theorem createList (h : J s) {elements : List Element} {owner : UInt8} {x : UInt32}
    (hc : ArrayStore.createList elements owner s = .ok x t) : J t :=
  c.install h (a := ⟨.array, owner, [], .packed elements⟩) (hQ.list (checkTexts_of_createList hc))
    (createList_eq_ok hc)

theorem copy (h : J s) (source : UInt32) (owner : UInt8) (deep : Bool) :
    J ((ArrayStore.copy source owner deep).after s) := by
  have hm : Maintains J (fun t h => (t.find? h).isSome) (ArrayStore.copy source owner deep) := by
    refine maintains_copyTree (fun {t} id ht => c.markTemporary ht id true) ?_ owner deep
      handleLimit source
    intro s₀ t u source a owner storage x h₀ hf _ ht hmap hi
    have hs : Q a.kind storage := hQ.redirected (c.here h₀ hf) (hmap.mono Copied.redirected)
    exact c.install (a := ⟨a.kind, owner, [], storage⟩) ht hs hi
  rw [Action.after]
  cases hr : ArrayStore.copy source owner deep s with
  | ok x t => exact (hm.ok h hr).1
  | error f t => exact (hm.error h hr).1

theorem setElement (h : J s) (id : UInt32) (k : Key) (e : Element) :
    J ((ArrayStore.setElement id k e).after s) := by
  refine (atomic_setElement id k e).after_of_ok h fun hc => ?_
  obtain ⟨-, a, storage, old, hf, hk, hw, rfl⟩ := setElement_eq_ok hc
  exact c.exchange h (hQ.write (c.here h hf) hk hw)

/-- no call breaks an invariant of tables -/
theorem apply (h : J s) (call : Call) : J (call.apply s) := by
  cases call with
  | create keyType packed owner =>
    refine (atomic_create _ _ _).after_of_ok h fun hc => ?_
    obtain ⟨kind, hp⟩ := create_eq_ok hc
    exact c.place h (hQ.made kind owner []) hp
  | createList elements owner => exact (atomic_createList _ _).after_of_ok h (c.createList hQ h)
  | createMap pairs owner =>
    refine (atomic_createMap _ _).after_of_ok h fun hc => ?_
    obtain ⟨a, hp, hi⟩ := createMap_eq_ok hc
    exact c.install h (hQ.ofPairs hp) hi
  | copy source owner deep => exact c.copy hQ h source owner deep
  | slice source lo hi =>
    refine (atomic_slice _ _ _).after_of_ok h fun hc => ?_
    obtain ⟨a, entries, hf, hr, hi⟩ := slice_eq_ok hc
    obtain ⟨_, _, hr⟩ := Failure.bind_eq_ok.1 hr
    obtain ⟨_, _, hr⟩ := Failure.bind_eq_ok.1 hr
    exact c.install h (a := ⟨a.kind, a.owner, [], _⟩) (hQ.range (c.here h hf) hr) hi
  | sort id order mode =>
    refine (atomic_sort _ _ _).after_of_ok h fun hc => ?_
    obtain ⟨a, -, hl⟩ := sortBy_eq_ok (sort_eq_ok hc)
    exact c.createList hQ h hl
  | sortBy id order cmp =>
    refine (atomic_sortBy _ _ _).after_of_ok h fun hc => ?_
    obtain ⟨a, -, hl⟩ := sortBy_eq_ok hc
    exact c.createList hQ h hl
  | keys id =>
    refine (atomic_keys id).after_of_ok h fun hc => ?_
    obtain ⟨a, -, hl⟩ := keys_eq_ok hc
    exact c.createList hQ h hl
  | values id =>
    refine (atomic_values id).after_of_ok h fun hc => ?_
    obtain ⟨a, -, hl⟩ := values_eq_ok hc
    exact c.createList hQ h hl
  | setElement id k e => exact c.setElement hQ h id k e
  | setNumber id k x => exact c.setElement hQ h id k (.number x)
  | setString id k text => exact c.setElement hQ h id k (.string text)
  | setForm id k form => exact c.setElement hQ h id k (.form form)
  | setArray id k target => exact c.setElement hQ h id k (.array target)
  | append id e =>
    refine (atomic_append id e).after_of_ok h fun hc => ?_
    obtain ⟨-, a, storage, hf, hi, rfl⟩ := append_eq_ok hc
    exact c.exchange h (hQ.insert (c.here h hf) hi)
  | insert id i e =>
    refine (atomic_insert id i e).after_of_ok h fun hc => ?_
    obtain ⟨-, a, storage, hf, hi, rfl⟩ := insert_eq_ok hc
    exact c.exchange h (hQ.insert (c.here h hf) hi)
  | insertRange id i source =>
    refine (atomic_insertRange id i source).after_of_ok h fun hc => ?_
    obtain ⟨b, a, storage, -, hf, hi, rfl⟩ := insertRange_eq_ok hc
    exact c.exchange h (hQ.insert (c.here h hf) hi)
  | resize id n pad =>
    refine (atomic_resize id n pad).after_of_ok h fun hc => ?_
    obtain ⟨-, a, storage, removed, hf, hr, rfl⟩ := resize_eq_ok hc
    exact c.exchange h (hQ.resize (c.here h hf) hr)
  | eraseElement id k =>
    refine (atomic_eraseElement id k).after_of_ok h fun hc => ?_
    obtain ⟨a, storage, old, hf, -, he, -, rfl⟩ := eraseElement_eq_ok hc
    exact c.exchange h (hQ.eraseKey (c.here h hf) he)
  | eraseElements id lo hi =>
    refine (atomic_eraseElements id lo hi).after_of_ok h fun hc => ?_
    obtain ⟨a, storage, removed, hf, he, -, rfl⟩ := eraseElements_eq_ok hc
    exact c.exchange h (hQ.eraseWithin (c.here h hf) he)
  | eraseAll id =>
    refine (atomic_eraseAll id).after_of_ok h fun hc => ?_
    obtain ⟨a, hf, -, rfl⟩ := eraseAll_eq_ok hc
    exact c.exchange h (hQ.clear (c.here h hf))
  | eraseArray id => exact c.destroy h id
  | markTemporary id temporary => exact c.markTemporary h id temporary
  | sweep => exact List.foldlRecOn _ _ h fun _ ht i _ => c.destroy ht i
  | addReference target module =>
    refine (atomic_addReference _ _).after_of_ok h fun hc => ?_
    obtain ⟨-, rfl⟩ := addReference_eq_ok hc
    exact c.retain h target module
  | removeReference target module =>
    refine (atomic_removeReference _ _).after_of_ok h fun hc => ?_
    obtain ⟨-, rfl⟩ := removeReference_eq_ok hc
    exact c.release h target module
  | assignReference slot target module =>
    refine (atomic_assignReference target module).after_of_ok (J := fun p => J p.1)
      (s := (s, slot)) h fun hc => ?_
    obtain ⟨-, -, hp⟩ := assignReference_eq_ok hc
    exact hp ▸ c.reassign h slot target module

end

end HandleTable.Invariant

end ScriptVars
