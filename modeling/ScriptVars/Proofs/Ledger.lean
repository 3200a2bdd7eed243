import ScriptVars.Proofs.Exchange
import ScriptVars.Proofs.Total

/-!
# The ledger of references

An array has one reference for each element that names it, by the owner of the array that the
element stands in, and one for each reference from outside the store.

* `ArrayStore.heldBy`      how many elements in arrays of a module name an array;
* `ArrayStore.Balanced`    the ledger is right, and nothing refers to an array that is gone;
* `ArrayStore.Closed`      the part of it that is about elements: they name arrays that are there;
* `ArrayStore.exchange`    a change of one array, as all editing operations do it;
* `Balanced.exchange`, `install`, `destroy`, `retain`, `release`   what keeps the ledger right.
-/

namespace ScriptVars

/-! ## Reference lists -/

theorem count_withoutRefs (module : UInt8) (n : Nat) (refs : List UInt8) (m : UInt8) :
    (withoutRefs module n [] refs).count m =
      if m = module then refs.count m - n else refs.count m := by
  induction n generalizing refs with
  | zero =>
    rw [withoutRefs_zero, List.reverse_nil, List.nil_append, Nat.sub_zero, ite_self]
  | succ n ih =>
    rw [withoutRefs_succ, ih]
    by_cases h : m = module
    · rw [if_pos h, if_pos h, h, List.count_erase_self]
      omega
    · rw [if_neg h, if_neg h, List.count_erase_of_ne h]

theorem ArrayVar.count_addRefs (a : ArrayVar) (n : Nat) (module m : UInt8) :
    (a.addRefs n module).refs.count m = a.refs.count m + if m = module then n else 0 := by
  show (a.refs ++ List.replicate n module).count m = _
  rw [List.count_append, List.count_replicate]
  by_cases h : m = module
  · rw [if_pos h, if_pos (beq_iff_eq.2 h.symm)]
  · rw [if_neg h, if_neg fun e => h (beq_iff_eq.1 e).symm]

theorem ArrayVar.count_removeRefs (a : ArrayVar) (n : Nat) (module m : UInt8) :
    (a.removeRefs n module).refs.count m =
      if m = module then a.refs.count m - n else a.refs.count m :=
  count_withoutRefs module n a.refs m

namespace ArrayStore

/-! ## What elements name -/

/-- the handles of the arrays among some elements -/
def named (l : List Element) : List UInt32 := (targetsOf l).map handleOf

theorem mem_named {l : List Element} {h : UInt32} :
    h ∈ named l ↔ ∃ id, .array id ∈ l ∧ handleOf id = h := by
  rw [named, List.mem_map]
  refine exists_congr fun id => and_congr_left fun _ => ?_
  rw [targetsOf, List.mem_filterMap]
  constructor
  · rintro ⟨e, he, ha⟩
    cases e with
    | array x =>
      obtain rfl : x = id := Option.some.inj ha
      exact he
    | _ => cases ha
  · exact fun he => ⟨_, he, rfl⟩

theorem named_append (l l' : List Element) : named (l ++ l') = named l ++ named l' := by
  rw [named, targetsOf, List.filterMap_append, List.map_append]
  rfl

theorem count_named_of_exchanges {s t : Storage} {new gone : List Element}
    (h : s.Exchanges t new gone) (x : UInt32) :
    (named new).count x + (named s.values).count x =
      (named gone).count x + (named t.values).count x := by
  rw [← List.count_append, ← List.count_append, ← named_append, ← named_append]
  exact ((h.filterMap _).map _).count_eq x

/-- what refers to nothing is not among the children -/
theorem count_children (a : ArrayVar) {x : UInt32} (hx : x ≠ 0) :
    (a.children.map handleOf).count x = (named a.values).count x := by
  rw [ArrayVar.children, named, targetsOf]
  generalize a.values.filterMap (·.array?) = l
  induction l with
  | nil => rfl
  | cons id l ih =>
    by_cases h : id = 0
    · subst h
      have hne : handleOf 0 ≠ x := fun e => hx (e.symm.trans (by decide))
      rw [List.filter_cons_of_neg (by decide), ih, List.map_cons, List.count_cons_of_ne hne]
    · have hb : (id != 0) = true := bne_iff_ne.2 h
      rw [List.filter_cons, if_pos hb, List.map_cons, List.map_cons, List.count_cons,
        List.count_cons, ih]

/-! ## The ledger -/

/-- how many elements of an array name another one, if the array belongs to a module -/
def holds (module : UInt8) (h : UInt32) (a : ArrayVar) : Nat :=
  if a.owner = module then (named a.values).count h else 0

def heldBy (s : ArrayStore) (module : UInt8) (h : UInt32) : Nat := s.total (holds module h)

/-- every reference is accounted for: by an element, or by the references that modules have from
outside the store to the arrays behind some handles -/
structure Balanced (s : ArrayStore) (outside : UInt8 → UInt32 → Nat) : Prop where
  refs : ∀ {id a}, s.find? id = some a → ∀ m,
    a.refs.count m = s.heldBy m (handleOf id) + outside m (handleOf id)
  /-- elements name arrays that are there -/
  elements : ∀ {id a}, s.find? id = some a → ∀ e ∈ a.values, s.accepts e
  outside : ∀ {m id}, outside m (handleOf id) ≠ 0 → (s.find? id).isSome

/-- every element names an array that is there, or none -/
def Closed (s : ArrayStore) : Prop :=
  ∀ ⦃id : UInt32⦄ ⦃a : ArrayVar⦄, s.find? id = some a → ∀ e ∈ a.values, s.accepts e

theorem Balanced.closed {s : ArrayStore} {outside : UInt8 → UInt32 → Nat}
    (b : Balanced s outside) : s.Closed := fun _ _ => b.elements

theorem accepts_array {s : ArrayStore} {id : UInt32} :
    s.accepts (.array id) ↔ id = 0 ∨ (s.find? id).isSome := by
  rw [accepts, Bool.or_eq_true, decide_eq_true_eq, HandleTable.contains_eq]

/-- only the handles in use decide what is accepted -/
theorem accepts_mono {s s' : ArrayStore} (h : ∀ i, (s.find? i).isSome → (s'.find? i).isSome)
    {e : Element} (he : s.accepts e) : s'.accepts e := by
  cases e with
  | array id => exact accepts_array.2 ((accepts_array.1 he).imp_right (h id))
  | _ => rfl

/-- accepted elements name nothing that is not there -/
theorem count_named_eq_zero {s : ArrayStore} {l : List Element} (hl : ∀ e ∈ l, s.accepts e)
    {h : UInt32} (hh : IsHandle h) (hn : s.find? h = none) : (named l).count h = 0 := by
  rw [List.count_eq_zero, mem_named]
  rintro ⟨id, hid, rfl⟩
  rcases accepts_array.1 (hl _ hid) with rfl | hs
  · exact hh.1 (by decide)
  · rw [← s.find?_congr (handleOf_handleOf id), hn] at hs
    cases hs

theorem balanced_empty : Balanced .empty fun _ _ => 0 where
  refs h := by
    rw [HandleTable.find?_empty] at h
    cases h
  elements h := by
    rw [HandleTable.find?_empty] at h
    cases h
  outside h := absurd rfl h

/-! ### steps that change one array -/

/-- a change of one array: its new storage, with references for what came in and without those for
what went -/
def exchange (s : ArrayStore) (id : UInt32) (a : ArrayVar) (storage : Storage)
    (new gone : List Element) : ArrayStore :=
  ((s.replace id { a with storage }).retainAll (targetsOf new) a.owner).releaseAll
    (targetsOf gone) a.owner

section
variable {s : ArrayStore} {id : UInt32} {a : ArrayVar} {storage : Storage}
  {new gone : List Element}

theorem find?_replace (s : ArrayStore) (id i : UInt32) (a : ArrayVar) :
    (s.replace id a).find? i =
      if handleOf id = handleOf i then (s.find? i).map fun _ => a else s.find? i :=
  s.find?_modify id i _

theorem find?_exchange (hf : s.find? id = some a) (i : UInt32) :
    (s.exchange id a storage new gone).find? i =
      ((if handleOf id = handleOf i then some { a with storage } else s.find? i).map
        (·.addRefs ((named new).count (handleOf i)) a.owner)).map
          (·.removeRefs ((named gone).count (handleOf i)) a.owner) := by
  rw [exchange, find?_releaseAll, find?_retainAll, find?_replace]
  by_cases h : handleOf id = handleOf i
  · rw [if_pos h, if_pos h, ← s.find?_congr h, hf]
    rfl
  · rw [if_neg h, if_neg h]
    rfl

theorem find?_exchange_isSome (hf : s.find? id = some a) (i : UInt32) :
    ((s.exchange id a storage new gone).find? i).isSome = (s.find? i).isSome := by
  rw [find?_exchange hf, Option.isSome_map, Option.isSome_map]
  split
  · next h =>
    rw [← s.find?_congr h, hf]
    rfl
  · rfl

/-- what an array was, and what it has become -/
theorem of_find?_exchange (hf : s.find? id = some a) {i : UInt32} {c : ArrayVar}
    (hc : (s.exchange id a storage new gone).find? i = some c) :
    ∃ b, s.find? i = some b ∧ c.owner = b.owner ∧
      (∀ m, c.refs.count m = if m = a.owner
        then b.refs.count m + (named new).count (handleOf i) - (named gone).count (handleOf i)
        else b.refs.count m) ∧
      c.values = if handleOf id = handleOf i then storage.values else b.values := by
  rw [find?_exchange hf] at hc
  have hcount : ∀ (b : ArrayVar) m, ((b.addRefs ((named new).count (handleOf i)) a.owner).removeRefs
      ((named gone).count (handleOf i)) a.owner).refs.count m = if m = a.owner
        then b.refs.count m + (named new).count (handleOf i) - (named gone).count (handleOf i)
        else b.refs.count m := by
    intro b m
    rw [ArrayVar.count_removeRefs, ArrayVar.count_addRefs]
    by_cases hm : m = a.owner
    · rw [if_pos hm, if_pos hm, if_pos hm]
    · rw [if_neg hm, if_neg hm, if_neg hm, Nat.add_zero]
  by_cases h : handleOf id = handleOf i
  · rw [if_pos h] at hc
    cases hc
    exact ⟨a, (s.find?_congr h).symm.trans hf, rfl, hcount _, (if_pos h).symm⟩
  · rw [if_neg h] at hc
    cases hb : s.find? i with
    | none =>
      rw [hb] at hc
      cases hc
    | some b =>
      rw [hb] at hc
      cases hc
      exact ⟨b, rfl, rfl, hcount b, (if_neg h).symm⟩

theorem Closed.exchange (c : s.Closed) (hf : s.find? id = some a)
    (hx : a.storage.Exchanges storage new gone) (hnew : ∀ e ∈ new, s.accepts e) :
    (s.exchange id a storage new gone).Closed := by
  intro i b hb e he
  obtain ⟨old, hold, -, -, hvalues⟩ := of_find?_exchange hf hb
  refine accepts_mono (fun j hj => by rwa [find?_exchange_isSome hf]) ?_
  rw [hvalues] at he
  split at he
  · have hm : e ∈ new ++ a.values := hx.mem_iff.2 (List.mem_append_right _ he)
    rcases List.mem_append.1 hm with hm | hm
    · exact hnew e hm
    · exact c hf e hm
  · exact c hold e he

/-- what an array of another storage holds instead -/
theorem heldBy_exchange (hf : s.find? id = some a) (m : UInt8) (h : UInt32) :
    (s.exchange id a storage new gone).heldBy m h + holds m h a =
      s.heldBy m h + holds m h { a with storage } := by
  have hshare : ∀ i, handleOf id ≠ handleOf i →
      (s.exchange id a storage new gone).share (holds m h) i = s.share (holds m h) i := by
    intro i hne
    rw [HandleTable.share, find?_exchange hf, if_neg hne, HandleTable.share]
    cases s.find? i <;> rfl
  have hx := HandleTable.total_exchange id hshare
  have hs : s.share (holds m h) id = holds m h a := by
    rw [HandleTable.share, hf]
    rfl
  have hs' : (s.exchange id a storage new gone).share (holds m h) id =
      holds m h { a with storage } := by
    rw [HandleTable.share, find?_exchange hf, if_pos rfl]
    rfl
  rw [hs, hs'] at hx
  exact hx

theorem Balanced.exchange {outside : UInt8 → UInt32 → Nat} (b : Balanced s outside)
    (hf : s.find? id = some a) (hx : a.storage.Exchanges storage new gone)
    (hnew : ∀ e ∈ new, s.accepts e) :
    Balanced (s.exchange id a storage new gone) outside where
  refs {i c} hc m := by
    obtain ⟨old, hold, -, hcount, -⟩ := of_find?_exchange hf hc
    rw [hcount m, b.refs hold m]
    have hh : (s.exchange id a storage new gone).heldBy m (handleOf i) + holds m (handleOf i) a =
        s.heldBy m (handleOf i) + holds m (handleOf i) { a with storage } :=
      heldBy_exchange hf m (handleOf i)
    have hn : (named new).count (handleOf i) + (named a.values).count (handleOf i) =
        (named gone).count (handleOf i) + (named storage.values).count (handleOf i) :=
      count_named_of_exchanges hx (handleOf i)
    have hle := HandleTable.share_le_total s (holds m (handleOf i)) id
    rw [HandleTable.share, hf] at hle
    change holds m (handleOf i) a ≤ s.heldBy m (handleOf i) at hle
    by_cases hm : m = a.owner
    · have h₁ : holds m (handleOf i) a = (named a.values).count (handleOf i) := if_pos hm.symm
      have h₂ : holds m (handleOf i) { a with storage } =
          (named storage.values).count (handleOf i) := if_pos hm.symm
      rw [if_pos hm]
      omega
    · have h₁ : holds m (handleOf i) a = 0 := if_neg (Ne.symm hm)
      have h₂ : holds m (handleOf i) { a with storage } = 0 := if_neg (Ne.symm hm)
      rw [if_neg hm]
      omega
  elements {_ _} hc := b.closed.exchange hf hx hnew hc
  outside h := by
    rw [find?_exchange_isSome hf]
    exact b.outside h

end

/-! ### new arrays -/

section
variable {s t : ArrayStore} {outside : UInt8 → UInt32 → Nat} {a : ArrayVar} {h : UInt32}

/-- nothing names a handle that is free -/
theorem Balanced.heldBy_eq_zero (b : Balanced s outside) (hh : IsHandle h)
    (hn : s.find? h = none) (m : UInt8) : s.heldBy m h = 0 := by
  refine HandleTable.total_eq_zero fun i => ?_
  rw [HandleTable.share]
  cases hi : s.find? i with
  | none => rfl
  | some c =>
    show holds m h c = 0
    rw [holds, count_named_eq_zero (b.elements hi) hh hn, ite_self]

theorem Balanced.outside_eq_zero (b : Balanced s outside) (hh : IsHandle h)
    (hn : s.find? h = none) (m : UInt8) : outside m h = 0 := by
  by_contra hne
  have hself := handleOf_eq_self hh.2
  have hbound : (s.find? h).isSome := b.outside (m := m) (by rwa [hself])
  rw [hn] at hbound
  cases hbound

theorem find?_installed (hp : s.Places a h t) (i : UInt32) :
    (retainAll t a.children a.owner).find? i = (if h = handleOf i then some a else s.find? i).map
      (·.addRefs ((a.children.map handleOf).count (handleOf i)) a.owner) := by
  rw [find?_retainAll, hp.find?]

/-- the array behind an id is the new one, or one that was there -/
theorem of_find?_installed (hp : s.Places a h t) {i : UInt32} {c : ArrayVar}
    (hc : (retainAll t a.children a.owner).find? i = some c) :
    ∃ old, c = old.addRefs ((a.children.map handleOf).count (handleOf i)) a.owner ∧
      (h = handleOf i ∧ old = a ∨ s.find? i = some old) := by
  rw [find?_installed hp] at hc
  obtain ⟨old, ho, rfl⟩ := Option.map_eq_some_iff.1 hc
  refine ⟨old, rfl, ?_⟩
  split at ho
  · next e => exact .inl ⟨e, (Option.some.inj ho).symm⟩
  · exact .inr ho

theorem find?_installed_isSome (hp : s.Places a h t) {i : UInt32} (hi : (s.find? i).isSome) :
    ((retainAll t a.children a.owner).find? i).isSome := by
  rw [find?_installed hp, Option.isSome_map]
  split
  · rfl
  · exact hi

/-- a new array is all that has to be looked at -/
theorem Closed.place_iff (c : s.Closed) (hp : s.Places a h t) :
    (retainAll t a.children a.owner).Closed ↔
      ∀ e ∈ a.values, (retainAll t a.children a.owner).accepts e := by
  have hself := handleOf_eq_self hp.free.1.2
  constructor
  · intro hc e he
    have hf := find?_installed hp h
    rw [if_pos hself.symm] at hf
    exact hc hf e he
  · intro ha i b hb e he
    obtain ⟨old, rfl, ⟨-, rfl⟩ | hi⟩ := of_find?_installed hp hb
    · exact ha e he
    · exact accepts_mono (fun _ => find?_installed_isSome hp) (c hi e he)

theorem Closed.place (c : s.Closed) (hp : s.Places a h t) (ha : ∀ e ∈ a.values, s.accepts e) :
    (retainAll t a.children a.owner).Closed :=
  (c.place_iff hp).2 fun e he => accepts_mono (fun _ => find?_installed_isSome hp) (ha e he)

theorem heldBy_installed (hp : s.Places a h t) (m : UInt8) (x : UInt32) :
    (retainAll t a.children a.owner).heldBy m x = s.heldBy m x + holds m x a := by
  have hself := handleOf_eq_self hp.free.1.2
  have hshare : ∀ i, handleOf h ≠ handleOf i →
      (retainAll t a.children a.owner).share (holds m x) i = s.share (holds m x) i := by
    intro i hne
    rw [HandleTable.share, find?_installed hp, if_neg (hself ▸ hne), HandleTable.share]
    cases s.find? i <;> rfl
  have hx := HandleTable.total_exchange h hshare
  have h₁ : s.share (holds m x) h = 0 := by
    rw [HandleTable.share, HandleTable.find?_eq_none_of_isFree hp.free]
    rfl
  have h₂ : (retainAll t a.children a.owner).share (holds m x) h = holds m x a := by
    rw [HandleTable.share, find?_installed hp, if_pos hself.symm]
    rfl
  rw [h₁, h₂] at hx
  exact hx

theorem Balanced.install (b : Balanced s outside) (hp : s.Places a h t) (hr : a.refs = [])
    (ha : ∀ e ∈ a.values, s.accepts e) : Balanced (retainAll t a.children a.owner) outside := by
  have hh := hp.free.1
  have hnone : s.find? h = none := HandleTable.find?_eq_none_of_isFree hp.free
  have hz := count_named_eq_zero ha hh hnone
  refine ⟨fun {i c} hc m => ?_, fun {_ _} hc => b.closed.place hp ha hc,
    fun ho => find?_installed_isSome hp (b.outside ho)⟩
  obtain ⟨old, rfl, ⟨e, rfl⟩ | hi⟩ := of_find?_installed hp hc
  · have hcount := (count_children old hh.1).trans hz
    have hzero : holds m h old = 0 := by rw [holds, hz, ite_self]
    rw [← e, ArrayVar.count_addRefs, hcount, hr, heldBy_installed hp, b.heldBy_eq_zero hh hnone,
      hzero, b.outside_eq_zero hh hnone, ite_self, List.count_nil]
  · have hne : handleOf i ≠ 0 := fun hz => by
      rw [s.find?_eq_none_of_zero hz] at hi
      cases hi
    rw [ArrayVar.count_addRefs, b.refs hi m, heldBy_installed hp, count_children a hne, holds]
    by_cases hm : m = a.owner
    · rw [if_pos hm, if_pos hm.symm]
      omega
    · rw [if_neg hm, if_neg (Ne.symm hm)]
      omega

/-! ### arrays that go -/

theorem find?_destroy {id : UInt32} (hf : s.find? id = some a) (i : UInt32) :
    (s.destroy id).find? i = (if handleOf id = handleOf i then none else s.find? i).map
      (·.removeRefs ((named a.values).count (handleOf i)) a.owner) := by
  rw [destroy, hf]
  show (releaseAll (s.erase id) (targetsOf a.values) a.owner).find? i = _
  rw [find?_releaseAll, HandleTable.find?_erase]
  rfl

theorem destroy_of_none {id : UInt32} (hf : s.find? id = none) : s.destroy id = s := by
  rw [destroy, hf]

theorem of_find?_destroy {id i : UInt32} {c : ArrayVar} (hf : s.find? id = some a)
    (hc : (s.destroy id).find? i = some c) : handleOf id ≠ handleOf i ∧
      ∃ old, s.find? i = some old ∧
        c = old.removeRefs ((named a.values).count (handleOf i)) a.owner := by
  rw [find?_destroy hf] at hc
  by_cases e : handleOf id = handleOf i
  · rw [if_pos e] at hc
    cases hc
  · rw [if_neg e] at hc
    obtain ⟨old, ho, rfl⟩ := Option.map_eq_some_iff.1 hc
    exact ⟨e, old, ho, rfl⟩

theorem find?_destroy_isSome {id i : UInt32} (hf : s.find? id = some a)
    (hne : handleOf id ≠ handleOf i) (hi : (s.find? i).isSome) :
    ((s.destroy id).find? i).isSome := by
  rw [find?_destroy hf, if_neg hne, Option.isSome_map]
  exact hi

theorem heldBy_destroy {id : UInt32} (hf : s.find? id = some a) (m : UInt8) (x : UInt32) :
    (s.destroy id).heldBy m x + holds m x a = s.heldBy m x := by
  have hshare : ∀ i, handleOf id ≠ handleOf i →
      (s.destroy id).share (holds m x) i = s.share (holds m x) i := by
    intro i hne
    rw [HandleTable.share, find?_destroy hf, if_neg hne, HandleTable.share]
    cases s.find? i <;> rfl
  have hx := HandleTable.total_exchange id hshare
  have h₁ : s.share (holds m x) id = holds m x a := by
    rw [HandleTable.share, hf]
    rfl
  have h₂ : (s.destroy id).share (holds m x) id = 0 := by
    rw [HandleTable.share, find?_destroy hf, if_pos rfl]
    rfl
  rw [h₁, h₂] at hx
  exact hx

/-- what no array refers to is no element -/
theorem not_named_of_heldBy {id i x : UInt32} {old : ArrayVar}
    (hz : s.heldBy old.owner (handleOf id) = 0) (ho : s.find? i = some old)
    (hx : .array x ∈ old.values) : handleOf x ≠ handleOf id := by
  intro e
  have hle := HandleTable.share_le_total s (holds old.owner (handleOf id)) i
  rw [HandleTable.share, ho] at hle
  change holds old.owner (handleOf id) old ≤ s.heldBy old.owner (handleOf id) at hle
  rw [hz, holds, if_pos rfl, Nat.le_zero, List.count_eq_zero] at hle
  exact hle (mem_named.2 ⟨x, hx, e⟩)

/-- an array that nothing refers to may go -/
theorem Balanced.destroy (b : Balanced s outside) {id : UInt32} (hf : s.find? id = some a)
    (hr : a.refs = []) : Balanced (s.destroy id) outside := by
  have hzero : ∀ m, s.heldBy m (handleOf id) = 0 ∧ outside m (handleOf id) = 0 := by
    intro m
    have hrefs := b.refs hf m
    rw [hr, List.count_nil] at hrefs
    omega
  refine ⟨fun {i c} hc m => ?_, fun {i c} hc e he => ?_, fun {m i} ho => ?_⟩
  · obtain ⟨hne, old, ho, rfl⟩ := of_find?_destroy hf hc
    rw [ArrayVar.count_removeRefs, b.refs ho m, ← heldBy_destroy hf m (handleOf i), holds]
    by_cases hm : m = a.owner
    · rw [if_pos hm, if_pos hm.symm]
      omega
    · rw [if_neg hm, if_neg (Ne.symm hm), Nat.add_zero]
  · obtain ⟨hne, old, ho, rfl⟩ := of_find?_destroy hf hc
    have hacc := b.elements ho e he
    cases e with
    | array x =>
      rcases accepts_array.1 hacc with hx | hx
      · exact accepts_array.2 (.inl hx)
      · have hnot := not_named_of_heldBy (hzero old.owner).1 ho he
        exact accepts_array.2 (.inr (find?_destroy_isSome hf hnot.symm hx))
    | _ => rfl
  · refine find?_destroy_isSome hf (fun e => ho ?_) (b.outside ho)
    rw [← e]
    exact (hzero m).2

/-! ### references from outside -/

/-- the ledger says nothing but what the arrays are -/
theorem Balanced.of_find?_eq (b : Balanced s outside) (h : ∀ i, t.find? i = s.find? i) :
    Balanced t outside where
  refs {id a} hf m := by
    have hheld : t.heldBy m (handleOf id) = s.heldBy m (handleOf id) :=
      HandleTable.total_congr fun i => by rw [HandleTable.share, h, HandleTable.share]
    rw [hheld]
    exact b.refs ((h id).symm.trans hf) m
  elements {id a} hf e he :=
    accepts_mono (fun i hi => by rwa [h]) (b.elements ((h id).symm.trans hf) e he)
  outside ho := by
    rw [h]
    exact b.outside ho

theorem Balanced.congr {outside' : UInt8 → UInt32 → Nat} (b : Balanced s outside)
    (h : ∀ m id, outside' m (handleOf id) = outside m (handleOf id)) : Balanced s outside' where
  refs hf m := by
    rw [h]
    exact b.refs hf m
  elements hf := b.elements hf
  outside {m id} ho := b.outside (h m id ▸ ho)

/-- a change of the references to one array, that the references from outside follow -/
theorem Balanced.modify {outside' : UInt8 → UInt32 → Nat} (b : Balanced s outside)
    {target : UInt32} {g : ArrayVar → ArrayVar} (howner : ∀ a, (g a).owner = a.owner)
    (hvalues : ∀ a, (g a).values = a.values)
    (hrefs : ∀ {id a}, s.find? id = some a → ∀ m,
      (if handleOf target = handleOf id then g a else a).refs.count m =
        s.heldBy m (handleOf id) + outside' m (handleOf id))
    (hlive : ∀ {m id}, outside' m (handleOf id) ≠ 0 → (s.find? id).isSome) :
    Balanced (HandleTable.modify s target g) outside' := by
  have hfind : ∀ i, (HandleTable.modify s target g).find? i =
      (s.find? i).map fun a => if handleOf target = handleOf i then g a else a := by
    intro i
    rw [HandleTable.find?_modify]
    split
    · rfl
    · exact Option.map_id'.symm
  have hkeep : ∀ (i : UInt32) a, (if handleOf target = handleOf i then g a else a).owner = a.owner ∧
      (if handleOf target = handleOf i then g a else a).values = a.values := by
    intro i a
    split
    · exact ⟨howner a, hvalues a⟩
    · exact ⟨rfl, rfl⟩
  have hsome : ∀ i, (s.find? i).isSome → ((HandleTable.modify s target g).find? i).isSome := by
    intro i hi
    rw [hfind, Option.isSome_map]
    exact hi
  have hheld : ∀ m x, heldBy (HandleTable.modify s target g) m x = s.heldBy m x := by
    intro m x
    refine HandleTable.total_congr fun i => ?_
    rw [HandleTable.share, HandleTable.share, hfind]
    cases s.find? i with
    | none => rfl
    | some a =>
      show holds m x (if handleOf target = handleOf i then g a else a) = holds m x a
      rw [holds, holds, (hkeep i a).1, (hkeep i a).2]
  refine ⟨fun {i c} hc m => ?_, fun {i c} hc e he => ?_, fun ho => hsome _ (hlive ho)⟩
  · rw [hfind] at hc
    obtain ⟨a, ha, rfl⟩ := Option.map_eq_some_iff.1 hc
    rw [hheld]
    exact hrefs ha m
  · rw [hfind] at hc
    obtain ⟨a, ha, rfl⟩ := Option.map_eq_some_iff.1 hc
    rw [(hkeep i a).2] at he
    exact accepts_mono hsome (b.elements ha e he)

theorem Balanced.retain {outside' : UInt8 → UInt32 → Nat} (b : Balanced s outside)
    {target : UInt32} {module : UInt8} (hl : (s.find? target).isSome)
    (h : ∀ m id, outside' m (handleOf id) = outside m (handleOf id) +
      if m = module ∧ handleOf target = handleOf id then 1 else 0) :
    Balanced (s.retain target module) outside' := by
  refine b.modify (fun _ => rfl) (fun _ => rfl) (fun {id a} hf m => ?_) (fun {m id} ho => ?_)
  · have hr := b.refs hf m
    have hcount : (a.addRef module).refs.count m = a.refs.count m + if m = module then 1 else 0 :=
      a.count_addRefs 1 module m
    rw [h m id]
    by_cases e : handleOf target = handleOf id
    · rw [if_pos e, hcount, hr]
      simp only [e, and_true]
      omega
    · rw [if_neg e, if_neg fun hm => e hm.2]
      exact hr
  · by_cases e : handleOf target = handleOf id
    · rwa [s.find?_congr e] at hl
    · rw [h m id, if_neg fun hm => e hm.2] at ho
      exact b.outside ho

theorem Balanced.release {outside' : UInt8 → UInt32 → Nat} (b : Balanced s outside)
    {target : UInt32} {module : UInt8}
    (h : ∀ m id, outside m (handleOf id) = outside' m (handleOf id) +
      if m = module ∧ handleOf target = handleOf id then 1 else 0) :
    Balanced (s.release target module) outside' := by
  refine b.modify (fun _ => rfl) (fun _ => rfl) (fun {id a} hf m => ?_) (fun {m id} ho => ?_)
  · have hr := b.refs hf m
    rw [h m id] at hr
    by_cases e : handleOf target = handleOf id
    · rw [if_pos e]
      show (a.refs.erase module).count m = _
      by_cases hm : m = module
      · rw [if_pos ⟨hm, e⟩] at hr
        rw [hm, List.count_erase_self, ← hm]
        omega
      · rw [if_neg fun hn => hm hn.1] at hr
        rw [List.count_erase_of_ne hm]
        exact hr
    · rw [if_neg e]
      rw [if_neg fun hn => e hn.2] at hr
      exact hr
  · refine b.outside (m := m) fun hz => ho ?_
    have := h m id
    omega

end

end ArrayStore
end ScriptVars
