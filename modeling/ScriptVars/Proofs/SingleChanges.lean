import ScriptVars.Proofs.RefusedCalls
import ScriptVars.Proofs.Removal
import ScriptVars.Proofs.Representation

/-!
# Changes of one array

A call that edits an array, or makes one, touches no other array but for the references to it.  What
such a call comes to depends on the array only, and on whether what is to be stored names an array
that is there.

* `ArrayVar.SameBut`               the same array, but for the references by one module;
* `ArrayVar.entries_of_sorted`, …   the entries, by the layout;
* `ArrayVar.set_of_keyType`, …     keys of the right type;
* `ArrayStore.Becomes`             one array is new or has changed, and nothing else has;
* `becomes_exchange`, `becomes_install`   what edits and new arrays come to;
* `ArrayStore.missing?`            why an element cannot be stored;
* `setElement_of_find?`, …         the result of each edit, refused or not;
* `ArrayStore.Makes`               a call that makes an array, unless all handles are in use;
* `Session.Reachable.packed`, `sorted`   the layout of an array, by its kind.
-/

namespace ScriptVars

open ScriptVars.Action

/-! ## References by one module -/

namespace ArrayVar

variable {a b c : ArrayVar} {module : UInt8}

/-- the same array; only references by one module may have come or gone -/
structure SameBut (module : UInt8) (a b : ArrayVar) : Prop where
  kind : b.kind = a.kind
  owner : b.owner = a.owner
  storage : b.storage = a.storage
  /-- the references by all other modules are there in their order -/
  refs : b.refs.filter (· != module) = a.refs.filter (· != module)

theorem SameBut.refl (module : UInt8) (a : ArrayVar) : a.SameBut module a := ⟨rfl, rfl, rfl, rfl⟩

theorem SameBut.trans (h : a.SameBut module b) (h' : b.SameBut module c) : a.SameBut module c where
  kind := h'.kind.trans h.kind
  owner := h'.owner.trans h.owner
  storage := h'.storage.trans h.storage
  refs := h'.refs.trans h.refs

theorem SameBut.addRefs (h : a.SameBut module b) (n : Nat) :
    a.SameBut module (b.addRefs n module) := by
  refine h.trans ⟨rfl, rfl, rfl, ?_⟩
  show (b.refs ++ List.replicate n module).filter (· != module) = _
  rw [List.filter_append, List.filter_replicate, if_neg (by simp), List.append_nil]

theorem filter_withoutRefs (module : UInt8) (n : Nat) (refs : List UInt8) :
    (withoutRefs module n [] refs).filter (· != module) = refs.filter (· != module) := by
  induction n generalizing refs with
  | zero => rw [withoutRefs_zero, List.reverse_nil, List.nil_append]
  | succ n ih =>
    rw [withoutRefs_succ, ih]
    -- the oldest reference of the module is not among those that are kept
    induction refs with
    | nil => rfl
    | cons r refs ihr =>
      rw [List.erase_cons]
      by_cases h : r = module
      · rw [if_pos (beq_iff_eq.2 h), List.filter_cons_of_neg (by simp [h])]
      · rw [if_neg (by simp [h]), List.filter_cons, List.filter_cons, ihr]

theorem SameBut.removeRefs (h : a.SameBut module b) (n : Nat) :
    a.SameBut module (b.removeRefs n module) :=
  h.trans ⟨rfl, rfl, rfl, filter_withoutRefs module n b.refs⟩

/-! ### layouts -/

section
variable {entries : List (Key × Element)} {values : List Element}

theorem entries_of_sorted (h : a.storage = .sorted entries) : a.entries = entries :=
  congrArg Storage.entries h

theorem entries_of_packed (h : a.storage = .packed values) :
    a.entries = Storage.indexed 0 values := congrArg Storage.entries h

theorem values_of_packed (h : a.storage = .packed values) : a.values = values :=
  congrArg Storage.values h

theorem size_of_packed (h : a.storage = .packed values) : a.size = values.length :=
  congrArg Storage.size h

end

/-! ### keys of the right type -/

section
variable {k : Key} (hk : k.keyType = a.keyType)
include hk

theorem checkKey_of_keyType : a.checkKey k = .ok () := if_pos hk

theorem get?_of_keyType : a.get? k = a.storage.read? k := if_pos hk

theorem set_of_keyType (e : Element) : a.set k e =
    match a.storage.write k e with
    | .ok (storage, old) => .ok ({ a with storage }, old)
    | .error f => .error f := by
  rw [set, checkKey_of_keyType hk]
  show (a.storage.write k e >>= _) = _
  cases a.storage.write k e <;> rfl

theorem erase_of_keyType : a.erase k =
    match a.storage.erase k with
    | .ok (storage, old) => .ok ({ a with storage }, old)
    | .error f => .error f := by
  have hmatch : (a.isEmpty && k.keyType != a.keyType) = false := by
    rw [hk, bne_self_eq_false, Bool.and_false]
  rw [erase, hmatch, checkKey_of_keyType hk]
  show (a.storage.erase k >>= _) = _
  cases a.storage.erase k <;> rfl

end

/-- an array without keys has no key of another type either, and there is nothing to take out -/
theorem erase_of_ne {k : Key} (hk : k.keyType ≠ a.keyType) : a.erase k =
    if a.isEmpty then .ok (a, none) else .error (.keyMismatch a.keyType k.keyType) := by
  have hne : (k.keyType != a.keyType) = true := bne_iff_ne.2 hk
  rw [erase, hne, Bool.and_true, checkKey, if_neg hk]
  split <;> rfl

end ArrayVar

/-! ## One array -/

namespace ArrayStore

variable {s t : ArrayStore} {id c : UInt32} {a : ArrayVar}

/-- The array behind an id is `a` now.  Every other array is as before, and as temporary as before;
only its references by the owner of `a` may be others, which holds for those of `a` as well. -/
structure Becomes (s t : ArrayStore) (id : UInt32) (a : ArrayVar) : Prop where
  array : ∃ b, t.find? id = some b ∧ a.SameBut a.owner b
  others : ∀ i, handleOf i ≠ handleOf id →
    Option.Rel (ArrayVar.SameBut a.owner) (s.find? i) (t.find? i)
  temporary : ∀ i, t.isTemporary i = s.isTemporary i

theorem rel_sameBut_addRefs {o o' : Option ArrayVar} {module : UInt8} (n : Nat)
    (h : Option.Rel (ArrayVar.SameBut module) o o') :
    Option.Rel (ArrayVar.SameBut module) o (o'.map (·.addRefs n module)) := by
  cases h with
  | some h => exact .some (h.addRefs n)
  | none => exact .none

theorem rel_sameBut_removeRefs {o o' : Option ArrayVar} {module : UInt8} (n : Nat)
    (h : Option.Rel (ArrayVar.SameBut module) o o') :
    Option.Rel (ArrayVar.SameBut module) o (o'.map (·.removeRefs n module)) := by
  cases h with
  | some h => exact .some (h.removeRefs n)
  | none => exact .none

theorem rel_sameBut_refl (module : UInt8) (o : Option ArrayVar) :
    Option.Rel (ArrayVar.SameBut module) o o := by
  cases o with
  | none => exact .none
  | some a => exact .some (.refl module a)

/-- another storage for an array -/
theorem becomes_exchange (hf : s.find? id = some a) (storage : Storage) (new gone : List Element) :
    Becomes s (s.exchange id a storage new gone) id { a with storage } where
  array := by
    have hsame := ((ArrayVar.SameBut.refl a.owner { a with storage }).addRefs
      ((named new).count (handleOf id))).removeRefs ((named gone).count (handleOf id))
    refine ⟨_, ?_, hsame⟩
    rw [find?_exchange hf, if_pos rfl]
    rfl
  others i hi := by
    rw [find?_exchange hf, if_neg (Ne.symm hi)]
    exact rel_sameBut_removeRefs _ (rel_sameBut_addRefs _ (rel_sameBut_refl _ _))
  temporary i := by
    refine HandleTable.isTemporary_congr ?_ i
    refine (HandleTable.temporaries_modifyEach _ _ _).trans ?_
    exact (HandleTable.temporaries_modifyEach _ _ _).trans (HandleTable.temporaries_modify _ _ _)

/-- a new array -/
theorem becomes_install (hi : install a s = .ok c t) :
    handleOf c = c ∧ s.find? c = none ∧ Becomes s t c a := by
  obtain ⟨u, hp, rfl⟩ := install_eq_ok.1 hi
  have hpl := HandleTable.places_of_place hp
  have hself : handleOf c = c := handleOf_eq_self hpl.free.1.2
  refine ⟨hself, HandleTable.find?_eq_none_of_isFree hpl.free, ?_, fun i hi => ?_, fun i => ?_⟩
  · have hsame := (ArrayVar.SameBut.refl a.owner a).addRefs
      ((a.children.map handleOf).count (handleOf c))
    refine ⟨_, ?_, hsame⟩
    rw [find?_installed hpl, hself, if_pos rfl]
    rfl
  · rw [find?_installed hpl, if_neg fun e => hi (hself.trans e).symm]
    exact rel_sameBut_addRefs _ (rel_sameBut_refl _ _)
  · refine HandleTable.isTemporary_congr ?_ i
    exact (HandleTable.temporaries_modifyEach _ _ _).trans hpl.temporaries_eq

/-! ### questions afterwards -/

section
variable (h : Becomes s t id a)
include h

theorem Becomes.entries?_eq : t.entries? id = some a.entries := by
  obtain ⟨b, hb, hsame⟩ := h.array
  rw [entries?, hb]
  exact congrArg (fun st : Storage => some st.entries) hsame.storage

theorem Becomes.getElement?_eq (k : Key) : t.getElement? id k = a.get? k := by
  obtain ⟨b, hb, hsame⟩ := h.array
  rw [getElement?, hb]
  show b.get? k = a.get? k
  rw [ArrayVar.get?, ArrayVar.get?, ArrayVar.keyType, ArrayVar.keyType, hsame.kind, hsame.storage]

end

/-! ## New arrays -/

/-- makes an array like `a` under a handle that was free, and changes nothing else; it is refused
only when all handles are in use -/
def Makes (x : Action ArrayStore UInt32) (s : ArrayStore) (a : ArrayVar) : Prop :=
  (∃ c t, x s = .ok c t ∧ (handleOf c = c ∧ s.find? c = none) ∧ Becomes s t c a) ∨
    (x s = .error .exhausted s ∧ ∀ h, IsHandle h → h ∈ s.handles)

theorem makes_install (hs : s.NoneReserved) (a : ArrayVar) : Makes (install a) s a := by
  rcases HandleTable.place_cases s a with ⟨c, u, hp⟩ | ⟨hp, hnone⟩
  · have hi := install_eq_ok.2 ⟨u, hp, rfl⟩
    obtain ⟨hself, hfree, hb⟩ := becomes_install hi
    exact .inl ⟨c, _, hi, ⟨hself, hfree⟩, hb⟩
  · refine .inr ⟨bind_eq_error.2 (.inl hp), fun h hh => ?_⟩
    by_contra hm
    exact hnone h (hs.isFree hh hm)

/-! ## Edits -/

/-- the failure for an element that names an array that is not there -/
def missing? (s : ArrayStore) : Element → Option Failure
  | .array target => if s.accepts (.array target) then none else some (.notFound target)
  | _ => none

theorem missing?_eq_none {e : Element} : s.missing? e = none ↔ s.accepts e = true := by
  cases e with
  | array target =>
    rw [missing?]
    split
    · next h => exact iff_of_true rfl h
    · next h => exact iff_of_false nofun h
  | _ => exact iff_of_true rfl rfl

theorem bind_requireTarget {α : Type} (s : ArrayStore) (e : Element)
    (g : Unit → Action ArrayStore α) : (requireTarget e >>= g) s =
      match s.missing? e with
      | some f => .error f s
      | none => g () s := by
  cases e with
  | array target =>
    rw [missing?]
    by_cases h : s.accepts (.array target) = true
    · rw [if_pos h]
      exact bind_of_ok (requireTarget_of_accepts h)
    · rw [if_neg h]
      rw [accepts_array, not_or, Option.not_isSome_iff_eq_none] at h
      exact bind_eq_error.2 (.inl (requireTarget_missing h.1 h.2))
  | _ => rfl

theorem bind_lookup {α : Type} (hf : s.find? id = some a) (g : ArrayVar → Action ArrayStore α) :
    (lookup id >>= g) s = g a s := bind_of_ok (lookup_eq_ok.2 ⟨hf, rfl⟩)

theorem bind_demand {α β : Type} (x : Except Failure β) (g : β → Action ArrayStore α) :
    (demand x >>= g) s =
      match x with
      | .ok b => g b s
      | .error f => .error f s := by
  cases x <;> rfl

theorem exchange_nil_new (s : ArrayStore) (id : UInt32) (a : ArrayVar) (storage : Storage)
    (gone : List Element) : s.exchange id a storage [] gone =
      (s.replace id { a with storage }).releaseAll (targetsOf gone) a.owner :=
  congrArg (releaseAll · _ _) (retainAll_nil _ _)

theorem exchange_nil_gone (s : ArrayStore) (id : UInt32) (a : ArrayVar) (storage : Storage)
    (new : List Element) : s.exchange id a storage new [] =
      (s.replace id { a with storage }).retainAll (targetsOf new) a.owner :=
  releaseAll_nil _ _

theorem splice_eq (i : Nat) (new : List Element) : splice id a i new s =
    match a.storage.insert i new with
    | .ok storage => .ok () (s.exchange id a storage new [])
    | .error f => .error f s := by
  rw [splice, bind_demand]
  cases a.storage.insert i new with
  | error f => rfl
  | ok storage => exact congrArg (EStateM.Result.ok ()) (exchange_nil_gone s id a storage new).symm

section
variable (hf : s.find? id = some a)
include hf

theorem setElement_of_find? (k : Key) (e : Element) : setElement id k e s =
    match s.missing? e with
    | some f => .error f s
    | none =>
      match a.set k e with
      | .ok (b, old) => .ok () (s.exchange id a b.storage [e] old.toList)
      | .error f => .error f s := by
  rw [setElement, bind_requireTarget]
  cases s.missing? e with
  | some f => rfl
  | none =>
    show (lookup id >>= _) s = _
    rw [bind_lookup hf, bind_demand]
    cases hs : a.set k e with
    | error f => rfl
    | ok p =>
      obtain ⟨b, old⟩ := p
      obtain ⟨-, storage, -, rfl⟩ := ArrayVar.set_eq_ok hs
      rfl

theorem append_of_find? (hp : a.isPacked = true) (e : Element) : append id e s =
    match s.missing? e with
    | some f => .error f s
    | none => splice id a a.size [e] s := by
  rw [append, bind_requireTarget]
  cases s.missing? e with
  | some f => rfl
  | none =>
    show (lookup id >>= _) s = _
    rw [bind_lookup hf, hp]
    rfl

theorem insert_of_find? (i : Nat) (e : Element) : insert id i e s =
    match s.missing? e with
    | some f => .error f s
    | none => splice id a i [e] s := by
  rw [insert, bind_requireTarget]
  cases s.missing? e with
  | some f => rfl
  | none => exact bind_lookup hf _

theorem insertRange_of_find? {source : UInt32} {b : ArrayVar} (hb : s.find? source = some b)
    (i : Nat) : insertRange id i source s = splice id a i b.values s := by
  rw [insertRange, bind_lookup hb]
  exact bind_lookup hf _

theorem resize_of_find? (n : Nat) (pad : Element) : resize id n pad s =
    match s.missing? pad with
    | some f => .error f s
    | none =>
      match a.storage.resize n pad with
      | .ok (storage, removed) =>
        .ok () (s.exchange id a storage (List.replicate (n - a.size) pad) removed)
      | .error f => .error f s := by
  rw [resize, bind_requireTarget]
  cases s.missing? pad with
  | some f => rfl
  | none =>
    show (lookup id >>= _) s = _
    rw [bind_lookup hf, bind_demand]
    cases hs : a.storage.resize n pad with
    | error f => rfl
    | ok p =>
      obtain ⟨storage, removed⟩ := p
      refine congrArg (EStateM.Result.ok ()) ?_
      -- references are dropped first here, but only one of the two lists has members
      rcases (Storage.exchanges_resize hs).2 with hlt | rfl
      · have hnone : n - a.size = 0 := Nat.sub_eq_zero_of_le (Nat.le_of_lt hlt)
        rw [hnone, List.replicate_zero, exchange_nil_new]
        exact retainAll_nil _ _
      · rw [exchange_nil_gone]
        exact congrArg (retainAll · _ _) (releaseAll_nil _ _)

theorem eraseElement_of_find? (k : Key) : eraseElement id k s =
    match a.erase k with
    | .ok (b, old) => .ok old.isSome (s.exchange id a b.storage [] old.toList)
    | .error f => .error f s := by
  rw [eraseElement, bind_lookup hf, bind_demand]
  cases hs : a.erase k with
  | error f => rfl
  | ok p =>
    obtain ⟨b, old⟩ := p
    obtain ⟨storage, -, rfl⟩ := ArrayVar.erase_eq_ok hs
    show _ = EStateM.Result.ok old.isSome (s.exchange id a storage [] old.toList)
    rw [exchange_nil_new]
    rfl

theorem eraseElements_of_find? {lo hi : Key} (hlo : lo.keyType = a.keyType)
    (hhi : hi.keyType = a.keyType) : eraseElements id lo hi s =
      match a.storage.eraseWithin lo hi with
      | .ok (storage, removed) => .ok removed.length (s.exchange id a storage [] removed)
      | .error f => .error f s := by
  rw [eraseElements, bind_lookup hf, ArrayVar.checkKey_of_keyType hlo,
    ArrayVar.checkKey_of_keyType hhi]
  show (demand (a.storage.eraseWithin lo hi) >>= _) s = _
  rw [bind_demand]
  cases a.storage.eraseWithin lo hi with
  | error f => rfl
  | ok p =>
    obtain ⟨storage, removed⟩ := p
    show _ = EStateM.Result.ok removed.length (s.exchange id a storage [] removed)
    rw [exchange_nil_new]
    rfl

theorem eraseAll_of_find? : eraseAll id s =
    .ok a.size (s.exchange id a a.storage.clear [] a.values) := by
  rw [eraseAll, bind_lookup hf, exchange_nil_new]
  rfl

end

end ArrayStore

/-! ## Arrays of a session -/

namespace Session

variable {x : Session} {id : UInt32} {a : ArrayVar}

/-- an array that is packed is a list -/
theorem Reachable.packed (hx : x.Reachable) (hf : x.arrays.find? id = some a)
    (hp : a.isPacked = true) : a.storage = .packed a.values := by
  have hpacked := hx.sound.isPacked_eq _ (HandleTable.handleOf_mem_toList.2 hf)
  have hvalues : a.values = a.storage.values := rfl
  cases hs : a.storage with
  | packed values =>
    rw [hvalues, hs]
    rfl
  | sorted entries =>
    rw [hs, hp] at hpacked
    cases hpacked

/-- any other array is in order, with keys of its type -/
theorem Reachable.sorted (hx : x.Reachable) (hf : x.arrays.find? id = some a)
    (hp : a.isPacked = false) :
    ∃ entries, a.storage = .sorted entries ∧ Ascending.IsAscending Key.compare entries ∧
      ∀ p ∈ entries, p.1.keyType = a.keyType := by
  have hm := HandleTable.handleOf_mem_toList.2 hf
  cases hs : a.storage with
  | sorted entries => exact ⟨entries, rfl, hx.sound.sorted _ hm entries hs⟩
  | packed values =>
    have hpacked := hx.sound.isPacked_eq _ hm
    rw [hs, hp] at hpacked
    cases hpacked

end Session

end ScriptVars
