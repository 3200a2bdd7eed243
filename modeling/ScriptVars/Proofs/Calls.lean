import ScriptVars.Proofs.DeepCopy

/-!
# Calls

What a program can do to the arrays of a session, and what no call breaks.

* `ArrayStore.Call`           a call that may change the store;
* `ArrayStore.Call.apply`     the store that it leaves behind, refused or not;
* `ArrayStore.Kept`           what exchanging elements and installing arrays keep;
* `Kept.apply`                calls that remove no array keep it as well;
* `Balanced.apply`            calls that take no reference from outside keep the ledger right.
-/

namespace ScriptVars

/-- only a result can break an invariant -/
theorem Action.Atomic.after_of_ok {σ α : Type} {J : σ → Prop} {s : σ} {x : Action σ α}
    (hx : Atomic x) (h : J s) (hok : ∀ {a t}, x s = .ok a t → J t) : J (x.after s) := by
  rcases hx.after_cases s with he | ⟨a, ha⟩
  · rwa [he]
  · exact hok ha

namespace ArrayStore

/-- everything that may change a store of arrays -/
inductive Call where
  | create (keyType : KeyType) (packed : Bool) (owner : UInt8)
  | createList (elements : List Element) (owner : UInt8)
  | createMap (pairs : List (Key × Element)) (owner : UInt8)
  | copy (source : UInt32) (owner : UInt8) (deep : Bool)
  | slice (source : UInt32) (lo hi : Key)
  | sort (id : UInt32) (order : SortOrder) (mode : SortMode)
  | sortBy (id : UInt32) (order : SortOrder) (cmp : Element → Element → Ordering)
  | keys (id : UInt32)
  | values (id : UInt32)
  | setElement (id : UInt32) (k : Key) (e : Element)
  | setNumber (id : UInt32) (k : Key) (x : Number)
  | setString (id : UInt32) (k : Key) (text : String)
  | setForm (id : UInt32) (k : Key) (form : UInt32)
  | setArray (id : UInt32) (k : Key) (target : UInt32)
  | append (id : UInt32) (e : Element)
  | insert (id : UInt32) (i : Nat) (e : Element)
  | insertRange (id : UInt32) (i : Nat) (source : UInt32)
  | resize (id : UInt32) (n : Nat) (pad : Element)
  | eraseElement (id : UInt32) (k : Key)
  | eraseElements (id : UInt32) (lo hi : Key)
  | eraseAll (id : UInt32)
  | eraseArray (id : UInt32)
  | markTemporary (id : UInt32) (temporary : Bool)
  | sweep
  | addReference (target : UInt32) (module : UInt8)
  | removeReference (target : UInt32) (module : UInt8)
  | assignReference (slot target : UInt32) (module : UInt8)

def Call.apply (s : ArrayStore) : Call → ArrayStore
  | create keyType packed owner => (ArrayStore.create keyType packed owner).after s
  | createList elements owner => (ArrayStore.createList elements owner).after s
  | createMap pairs owner => (ArrayStore.createMap pairs owner).after s
  | copy source owner deep => (ArrayStore.copy source owner deep).after s
  | slice source lo hi => (ArrayStore.slice source lo hi).after s
  | sort id order mode => (ArrayStore.sort id order mode).after s
  | sortBy id order cmp => (ArrayStore.sortBy id order cmp).after s
  | keys id => (ArrayStore.keys id).after s
  | values id => (ArrayStore.values id).after s
  | setElement id k e => (ArrayStore.setElement id k e).after s
  | setNumber id k x => (ArrayStore.setNumber id k x).after s
  | setString id k text => (ArrayStore.setString id k text).after s
  | setForm id k form => (ArrayStore.setForm id k form).after s
  | setArray id k target => (ArrayStore.setArray id k target).after s
  | append id e => (ArrayStore.append id e).after s
  | insert id i e => (ArrayStore.insert id i e).after s
  | insertRange id i source => (ArrayStore.insertRange id i source).after s
  | resize id n pad => (ArrayStore.resize id n pad).after s
  | eraseElement id k => (ArrayStore.eraseElement id k).after s
  | eraseElements id lo hi => (ArrayStore.eraseElements id lo hi).after s
  | eraseAll id => (ArrayStore.eraseAll id).after s
  | eraseArray id => (ArrayStore.eraseArray s id).2
  | markTemporary id temporary => HandleTable.markTemporary s id temporary
  | sweep => (ArrayStore.sweep s).2
  | addReference target module => (ArrayStore.addReference target module).after s
  | removeReference target module => (ArrayStore.removeReference target module).after s
  | assignReference slot target module =>
    ((ArrayStore.assignReference target module).after (s, slot)).1

/-- what a call has to respect: lists and maps are made of ids of arrays that are there, and only
an array that nothing refers to is erased.  References from outside are not the store's own. -/
def Call.Respects (s : ArrayStore) : Call → Prop
  | createList elements _ => ∀ e ∈ elements, s.accepts e
  | createMap pairs _ => ∀ p ∈ pairs, s.accepts p.2
  | eraseArray id => ∀ a, s.find? id = some a → a.refs = []
  | addReference .. | removeReference .. | assignReference .. => False
  | _ => True

/-- whether a call may take arrays away -/
def Call.removes : Call → Bool
  | eraseArray _ | sweep => true
  | _ => false

/-- whether a call is one of those that store elements without a look at what they name -/
def Call.isBulk : Call → Bool
  | createList .. | createMap .. => true
  | _ => false

/-! ## Sweeping -/

section
variable {s : ArrayStore} {outside : UInt8 → UInt32 → Nat}

theorem find?_of_mem_unclaimed {id : UInt32} (h : id ∈ s.unclaimed) :
    ∃ a, s.find? id = some a ∧ a.refs = [] := by
  obtain ⟨-, hu⟩ := List.mem_filter.1 h
  rw [isUnclaimed, Bool.and_eq_true] at hu
  cases hf : s.find? id with
  | none =>
    rw [hf] at hu
    exact absurd hu.2 nofun
  | some a =>
    rw [hf] at hu
    exact ⟨a, rfl, List.isEmpty_iff.1 hu.2⟩

theorem withoutRefs_nil (module : UInt8) (n : Nat) : withoutRefs module n [] [] = [] := by
  cases n <;> rfl

/-- an array without references gets none when another one goes -/
theorem refs_destroy {id i : UInt32} (h : ∀ a, s.find? i = some a → a.refs = []) (c : ArrayVar)
    (hc : (s.destroy id).find? i = some c) : c.refs = [] := by
  cases hf : s.find? id with
  | none =>
    rw [destroy_of_none hf] at hc
    exact h c hc
  | some a =>
    rw [find?_destroy hf] at hc
    obtain ⟨old, ho, rfl⟩ := Option.map_eq_some_iff.1 hc
    split at ho
    · cases ho
    · show withoutRefs _ _ [] old.refs = []
      rw [h old ho, withoutRefs_nil]

theorem Balanced.foldl_destroy (b : Balanced s outside) {l : List UInt32}
    (hl : ∀ i ∈ l, ∀ a, s.find? i = some a → a.refs = []) :
    Balanced (l.foldl ArrayStore.destroy s) outside := by
  induction l generalizing s with
  | nil => exact b
  | cons id l ih =>
    rw [List.foldl_cons]
    have hrest : ∀ i ∈ l, ∀ a, (s.destroy id).find? i = some a → a.refs = [] := fun i hi a ha =>
      refs_destroy (hl i (List.mem_cons_of_mem _ hi)) a ha
    cases hf : s.find? id with
    | none =>
      rw [destroy_of_none hf] at hrest ⊢
      exact ih b hrest
    | some a => exact ih (b.destroy hf (hl id List.mem_cons_self a hf)) hrest

theorem Balanced.sweep (b : Balanced s outside) : Balanced (ArrayStore.sweep s).2 outside := by
  refine b.foldl_destroy fun i hi a ha => ?_
  obtain ⟨a', ha', hr⟩ := find?_of_mem_unclaimed hi
  cases ha'.symm.trans ha
  exact hr

/-- what a sweep removes had no references -/
theorem refs_of_foldl_destroy {l : List UInt32} {id : UInt32} {a : ArrayVar}
    (hf : s.find? id = some a) (hn : (l.foldl destroy s).find? id = none) :
    ∃ i ∈ l, handleOf i = handleOf id := by
  induction l generalizing s a with
  | nil =>
    rw [List.foldl_nil, hf] at hn
    cases hn
  | cons j l ih =>
    by_cases e : handleOf j = handleOf id
    · exact ⟨j, List.mem_cons_self, e⟩
    · have hk : ∃ c, (s.destroy j).find? id = some c := by
        cases hj : s.find? j with
        | none => exact ⟨a, (destroy_of_none hj).symm ▸ hf⟩
        | some d => exact ⟨_, by rw [find?_destroy hj, if_neg e, hf]; rfl⟩
      obtain ⟨c, hc⟩ := hk
      obtain ⟨i, hi, he⟩ := ih hc hn
      exact ⟨i, List.mem_cons_of_mem _ hi, he⟩

theorem refs_of_swept {id : UInt32} {a : ArrayVar} (hf : s.find? id = some a)
    (hn : (ArrayStore.sweep s).2.find? id = none) : a.refs = [] := by
  obtain ⟨i, hi, he⟩ := refs_of_foldl_destroy hf hn
  obtain ⟨a', ha', hr⟩ := find?_of_mem_unclaimed hi
  rw [s.find?_congr he, hf] at ha'
  cases ha'
  exact hr

end

/-! ## What calls keep -/

/-- a property of stores that no single change breaks, as long as what is stored is accepted -/
structure Kept (J : ArrayStore → Prop) : Prop where
  elements {s : ArrayStore} {id : UInt32} {a : ArrayVar} (h : J s) (hf : s.find? id = some a) :
    ∀ e ∈ a.values, s.accepts e
  exchange {s : ArrayStore} {id : UInt32} {a : ArrayVar} {storage : Storage}
    {new gone : List Element} (h : J s) (hf : s.find? id = some a)
    (hx : a.storage.Exchanges storage new gone) (hnew : ∀ e ∈ new, s.accepts e) :
    J (s.exchange id a storage new gone)
  place {s t : ArrayStore} {a : ArrayVar} {x : UInt32} (h : J s) (hp : s.Places a x t)
    (hr : a.refs = []) (ha : ∀ e ∈ a.values, s.accepts e) : J (retainAll t a.children a.owner)
  mark {s : ArrayStore} (h : J s) (id : UInt32) (temporary : Bool) :
    J (s.markTemporary id temporary)

namespace Kept

variable {J : ArrayStore → Prop} {s t : ArrayStore} {x : UInt32} (k : Kept J) (h : J s)
include k h

theorem install {a : ArrayVar} (hr : a.refs = []) (ha : ∀ e ∈ a.values, s.accepts e)
    (hi : ArrayStore.install a s = .ok x t) : J t := by
  obtain ⟨u, hp, rfl⟩ := install_eq_ok.1 hi
  exact k.place h (HandleTable.places_of_place hp) hr ha

theorem create {keyType : KeyType} {packed : Bool} {owner : UInt8}
    (hc : ArrayStore.create keyType packed owner s = .ok x t) : J t := by
  obtain ⟨kind, hp⟩ := create_eq_ok hc
  have hv := ArrayVar.values_empty kind owner []
  have hi : J (retainAll t (ArrayVar.empty kind owner []).children owner) :=
    k.place h (HandleTable.places_of_place hp) rfl fun e he => by rw [hv] at he; cases he
  rwa [ArrayVar.children, hv, List.filterMap_nil, List.filter_nil, retainAll_nil] at hi

theorem createList {elements : List Element} {owner : UInt8} (hv : ∀ e ∈ elements, s.accepts e)
    (hc : ArrayStore.createList elements owner s = .ok x t) : J t :=
  k.install h (a := ⟨.array, owner, [], .packed elements⟩) rfl hv (createList_eq_ok hc)

theorem createMap {pairs : List (Key × Element)} {owner : UInt8}
    (hv : ∀ p ∈ pairs, s.accepts p.2)
    (hc : ArrayStore.createMap pairs owner s = .ok x t) : J t := by
  obtain ⟨a, hp, hi⟩ := createMap_eq_ok hc
  obtain ⟨-, hr, hmem⟩ := ArrayVar.ofPairs_eq_ok hp
  refine k.install h hr (fun e he => ?_) hi
  obtain ⟨p, hp, rfl⟩ := List.mem_map.1 (hmem e he)
  exact hv p hp

theorem slice {source : UInt32} {lo hi : Key}
    (hc : ArrayStore.slice source lo hi s = .ok x t) : J t := by
  obtain ⟨a, entries, hf, hr, hi⟩ := slice_eq_ok hc
  obtain ⟨_, _, hr⟩ := Failure.bind_eq_ok.1 hr
  obtain ⟨_, _, hr⟩ := Failure.bind_eq_ok.1 hr
  refine k.install h rfl (fun e he => k.elements h hf e ?_) hi
  have he' : e ∈ (a.kind.storageOf entries).values := he
  rw [ArrayKind.values_storageOf] at he'
  exact Storage.mem_of_range hr e he'

theorem sortBy {id : UInt32} {order : SortOrder} {cmp : Element → Element → Ordering}
    (hc : ArrayStore.sortBy id order cmp s = .ok x t) : J t := by
  obtain ⟨a, hf, hl⟩ := sortBy_eq_ok hc
  refine k.createList h (fun e he => k.elements h hf e ?_) hl
  have hp : (sortEntries order cmp a.entries).Perm a.entries := List.mergeSort_perm _ _
  have hm := (hp.map Prod.snd).mem_iff.1 he
  rwa [ArrayVar.entries, Storage.map_snd_entries] at hm

theorem keys {id : UInt32} (hc : ArrayStore.keys id s = .ok x t) : J t := by
  obtain ⟨a, -, hl⟩ := keys_eq_ok hc
  refine k.createList h (fun e he => ?_) hl
  obtain ⟨⟨key, _⟩, -, rfl⟩ := List.mem_map.1 he
  cases key <;> rfl

/-- a deep copy breaks nothing even when it is refused half way -/
theorem copy (source : UInt32) (owner : UInt8) (deep : Bool) :
    J ((ArrayStore.copy source owner deep).after s) := by
  have hm : Maintains J (fun t i => (t.find? i).isSome) (ArrayStore.copy source owner deep) := by
    refine maintains_copyTree (fun id ht => k.mark ht id true) ?_ owner deep handleLimit source
    intro s₀ t u source a owner storage x h₀ hf hg ht hmap hi
    have hv : ∀ e ∈ storage.values, t.accepts e :=
      hmap.of_mem fun e he e' hc => hc.accepts (accepts_mono hg (k.elements h₀ hf e he))
    exact k.install (a := ⟨a.kind, owner, [], storage⟩) ht rfl hv hi
  rw [Action.after]
  cases hr : ArrayStore.copy source owner deep s with
  | ok x t => exact (hm.ok h hr).1
  | error f t => exact (hm.error h hr).1

theorem setElement (id : UInt32) (key : Key) (e : Element) :
    J ((ArrayStore.setElement id key e).after s) := by
  refine (atomic_setElement id key e).after_of_ok h fun hc => ?_
  obtain ⟨he, a, storage, old, hf, -, hw, rfl⟩ := setElement_eq_ok hc
  refine k.exchange h hf (Storage.exchanges_write hw) fun e' he' => ?_
  rwa [List.mem_singleton.1 he']

/-- a call that removes no array and takes no reference from outside -/
theorem apply {c : Call} (hc : c.Respects s) (hr : c.removes = false) : J (c.apply s) := by
  cases c with
  | create keyType packed owner => exact (atomic_create _ _ _).after_of_ok h (k.create h)
  | createList elements owner => exact (atomic_createList _ _).after_of_ok h (k.createList h hc)
  | createMap pairs owner => exact (atomic_createMap _ _).after_of_ok h (k.createMap h hc)
  | copy source owner deep => exact k.copy h source owner deep
  | slice source lo hi => exact (atomic_slice _ _ _).after_of_ok h (k.slice h)
  | sort id order mode =>
    exact (atomic_sort _ _ _).after_of_ok h fun hs => k.sortBy h (sort_eq_ok hs)
  | sortBy id order cmp => exact (atomic_sortBy _ _ _).after_of_ok h (k.sortBy h)
  | keys id => exact (atomic_keys id).after_of_ok h (k.keys h)
  | values id =>
    refine (atomic_values id).after_of_ok h fun hs => ?_
    obtain ⟨a, hf, hl⟩ := values_eq_ok hs
    exact k.createList h (k.elements h hf) hl
  | setElement id key e => exact k.setElement h id key e
  | setNumber id key x => exact k.setElement h id key (.number x)
  | setString id key text => exact k.setElement h id key (.string text)
  | setForm id key form => exact k.setElement h id key (.form form)
  | setArray id key target => exact k.setElement h id key (.array target)
  | append id e =>
    refine (atomic_append id e).after_of_ok h fun hs => ?_
    obtain ⟨he, a, storage, hf, hi, rfl⟩ := append_eq_ok hs
    refine k.exchange h hf (Storage.exchanges_insert hi) fun e' he' => ?_
    rwa [List.mem_singleton.1 he']
  | insert id i e =>
    refine (atomic_insert id i e).after_of_ok h fun hs => ?_
    obtain ⟨he, a, storage, hf, hi, rfl⟩ := insert_eq_ok hs
    refine k.exchange h hf (Storage.exchanges_insert hi) fun e' he' => ?_
    rwa [List.mem_singleton.1 he']
  | insertRange id i source =>
    refine (atomic_insertRange id i source).after_of_ok h fun hs => ?_
    obtain ⟨other, a, storage, ho, hf, hi, rfl⟩ := insertRange_eq_ok hs
    exact k.exchange h hf (Storage.exchanges_insert hi) (k.elements h ho)
  | resize id n pad =>
    refine (atomic_resize id n pad).after_of_ok h fun hs => ?_
    obtain ⟨he, a, storage, removed, hf, hr, rfl⟩ := resize_eq_ok hs
    refine k.exchange h hf (Storage.exchanges_resize hr).1 fun e' he' => ?_
    rwa [List.eq_of_mem_replicate he']
  | eraseElement id key =>
    refine (atomic_eraseElement id key).after_of_ok h fun hs => ?_
    obtain ⟨a, storage, old, hf, hx, -, -, rfl⟩ := eraseElement_eq_ok hs
    exact k.exchange h hf hx nofun
  | eraseElements id lo hi =>
    refine (atomic_eraseElements id lo hi).after_of_ok h fun hs => ?_
    obtain ⟨a, storage, removed, hf, hw, -, rfl⟩ := eraseElements_eq_ok hs
    exact k.exchange h hf (Storage.exchanges_eraseWithin hw) nofun
  | eraseAll id =>
    refine (atomic_eraseAll id).after_of_ok h fun hs => ?_
    obtain ⟨a, hf, -, rfl⟩ := eraseAll_eq_ok hs
    exact k.exchange h hf a.storage.exchanges_clear nofun
  | markTemporary id temporary => exact k.mark h id temporary
  | eraseArray id => cases hr
  | sweep => cases hr
  | addReference _ _ => exact hc.elim
  | removeReference _ _ => exact hc.elim
  | assignReference _ _ _ => exact hc.elim

end Kept

/-! ## The ledger after a call -/

section
variable {s : ArrayStore} {outside : UInt8 → UInt32 → Nat}

theorem kept_balanced (outside : UInt8 → UInt32 → Nat) : Kept fun s => Balanced s outside where
  elements b hf := b.elements hf
  exchange b hf hx hnew := b.exchange hf hx hnew
  place b hp hr ha := b.install hp hr ha
  mark {s} b id temporary := b.of_find?_eq fun i => s.find?_markTemporary id i temporary

/-- a call that takes no reference from outside keeps the ledger right -/
theorem Balanced.apply (b : Balanced s outside) {c : Call} (hc : c.Respects s) :
    Balanced (c.apply s) outside := by
  cases hr : c.removes with
  | false => exact (kept_balanced outside).apply b hc hr
  | true =>
    cases c with
    | eraseArray id =>
      show Balanced (s.destroy id) outside
      cases hf : s.find? id with
      | none => exact (destroy_of_none hf).symm ▸ b
      | some a => exact b.destroy hf (hc a hf)
    | sweep => exact b.sweep
    | _ => cases hr

end

end ArrayStore
end ScriptVars
