import ScriptVars.Proofs.SkippedSave
import ScriptVars.Proofs.Settled

/-!
# Reserved bits of ids

Elements keep the ids that they are given, with their reserved bits.  Sweeps look up arrays and
references by handles, so they do not see these bits.  What looks for arrays that sweeps would
remove takes an id with reserved bits for no id at all; which of the bits there are makes no
difference to it.

* `Element.tagged`, `Element.unmarked`       ids with one reserved bit, and without such ids;
* `ArrayStore.SameUnder`                     the same arrays as far as a map tells elements apart;
* `SameUnder.sweep`                          sweeps of stores that differ in reserved bits;
* `ArrayStore.pendingCollection_unmarked`    what is found pending, without ids with reserved bits.
-/

namespace ScriptVars

/-! ## Elements -/

theorem handleOf_handleOf_add (id : UInt32) :
    handleOf (handleOf id + 0x10000000) = handleOf id := by
  have hlt : (handleOf id).toNat < 0x10000000 := handleOf_lt id
  refine UInt32.toNat_inj.1 ?_
  rw [toNat_handleOf, UInt32.toNat_add]
  show ((handleOf id).toNat + 0x10000000) % 2 ^ 32 % 0x10000000 = _
  omega

theorem handleOf_add_ne (id : UInt32) :
    handleOf (handleOf id + 0x10000000) ≠ handleOf id + 0x10000000 := by
  have hlt : (handleOf id).toNat < 0x10000000 := handleOf_lt id
  rw [handleOf_handleOf_add, Ne, ← UInt32.toNat_inj, UInt32.toNat_add]
  show ¬ (handleOf id).toNat = ((handleOf id).toNat + 0x10000000) % 2 ^ 32
  omega

namespace Element

/-- an id with reserved bits has just the lowest of them -/
def tagged : Element → Element
  | array id => array (if handleOf id = id then id else handleOf id + 0x10000000)
  | e => e

/-- an id with reserved bits is no id -/
def unmarked : Element → Element
  | array id => array (if handleOf id = id then id else 0)
  | e => e

theorem reduced_tagged (e : Element) : e.tagged.reduced = e.reduced := by
  cases e with
  | array id =>
    show array (handleOf (if handleOf id = id then id else _)) = array (handleOf id)
    split
    · rfl
    · rw [handleOf_handleOf_add]
  | _ => rfl

theorem unmarked_tagged (e : Element) : e.tagged.unmarked = e.unmarked := by
  cases e with
  | array id =>
    by_cases h : handleOf id = id
    · show unmarked (array (if handleOf id = id then id else _)) = _
      rw [if_pos h]
    · show unmarked (array (if handleOf id = id then id else _)) =
        array (if handleOf id = id then id else 0)
      rw [if_neg h, if_neg h]
      exact congrArg array (if_neg (handleOf_add_ne id))
  | _ => rfl

end Element

namespace ArrayVar

variable {f g : Element → Element}

def mapElements (f : Element → Element) (a : ArrayVar) : ArrayVar :=
  { a with storage := a.storage.mapValues f }

theorem entries_mapElements (f : Element → Element) (a : ArrayVar) :
    (a.mapElements f).entries = a.entries.map fun p => (p.1, f p.2) := by
  show (a.storage.mapValues f).entries = _
  rw [entries]
  cases a.storage with
  | packed values =>
    show Storage.indexed 0 (values.map f) = (Storage.indexed 0 values).map _
    rw [Storage.indexed, Storage.indexed, List.zipIdx_map, List.map_map, List.map_map]
    rfl
  | sorted entries => rfl

theorem values_mapElements (f : Element → Element) (a : ArrayVar) :
    (a.mapElements f).values = a.values.map f := by
  show (a.storage.mapValues f).values = a.storage.values.map f
  cases a.storage with
  | packed values => rfl
  | sorted entries =>
    show (entries.map _).map Prod.snd = (entries.map Prod.snd).map f
    rw [List.map_map, List.map_map]
    rfl

theorem mapElements_mapElements (a : ArrayVar) :
    (a.mapElements f).mapElements g = a.mapElements (g ∘ f) := by
  refine congrArg (fun storage => ({ a with storage } : ArrayVar)) ?_
  show (a.storage.mapValues f).mapValues g = a.storage.mapValues (g ∘ f)
  cases a.storage with
  | packed values => exact congrArg Storage.packed List.map_map
  | sorted entries => exact congrArg Storage.sorted List.map_map

end ArrayVar

namespace ArrayStore

variable {f g : Element → Element} {s t : ArrayStore}

/-! ## Stores that a map does not tell apart -/

/-- the same arrays, as far as a map tells elements apart -/
structure SameUnder (f : Element → Element) (s t : ArrayStore) : Prop where
  find? : ∀ i, (s.find? i).map (ArrayVar.mapElements f) = (t.find? i).map (ArrayVar.mapElements f)
  isTemporary : ∀ i, s.isTemporary i = t.isTemporary i

namespace SameUnder

theorem symm (h : SameUnder f s t) : SameUnder f t s :=
  ⟨fun i => (h.find? i).symm, fun i => (h.isTemporary i).symm⟩

/-- a map that tells less apart -/
theorem comp (h : SameUnder f s t) {r : Element → Element} (hr : ∀ e, g (f e) = r e) :
    SameUnder r s t where
  find? i := by
    have hmap : ArrayVar.mapElements r = ArrayVar.mapElements g ∘ ArrayVar.mapElements f :=
      funext fun a => by
        rw [Function.comp, ArrayVar.mapElements_mapElements]
        exact congrArg (ArrayVar.mapElements · a) (funext fun e => (hr e).symm)
    rw [hmap, ← Option.map_map, h.find?, Option.map_map]
  isTemporary := h.isTemporary

theorem exists_find? (h : SameUnder f s t) {i : UInt32} {a : ArrayVar} (ha : s.find? i = some a) :
    ∃ b, t.find? i = some b ∧ b.mapElements f = a.mapElements f := by
  have hi := h.find? i
  rw [ha, Option.map_some] at hi
  exact Option.map_eq_some_iff.1 hi.symm

theorem find?_eq_none (h : SameUnder f s t) {i : UInt32} (hn : s.find? i = none) :
    t.find? i = none := by
  have hi := h.find? i
  rw [hn] at hi
  exact Option.map_eq_none_iff.1 hi.symm

theorem unclaimed_eq (h : SameUnder f s t) : s.unclaimed = t.unclaimed := by
  have hclaim : s.isUnclaimed = t.isUnclaimed := by
    funext i
    rw [isUnclaimed, isUnclaimed, h.isTemporary]
    cases ha : s.find? i with
    | none => rw [h.find?_eq_none ha]
    | some a =>
      obtain ⟨b, hb, e⟩ := h.exists_find? ha
      rw [hb]
      show (_ && a.refs.isEmpty) = (_ && b.refs.isEmpty)
      have hrefs : (b.mapElements f).refs = (a.mapElements f).refs := congrArg ArrayVar.refs e
      rw [show b.refs = a.refs from hrefs]
  rw [unclaimed, unclaimed, HandleTable.temporaries_congr h.isTemporary, hclaim]

end SameUnder

def mapElements (s : ArrayStore) (f : Element → Element) : ArrayStore :=
  HandleTable.modifyAll s (ArrayVar.mapElements f)

theorem find?_mapElements (s : ArrayStore) (f : Element → Element) (i : UInt32) :
    (s.mapElements f).find? i = (s.find? i).map (ArrayVar.mapElements f) :=
  s.find?_modifyAll _ i

theorem isTemporary_mapElements (s : ArrayStore) (f : Element → Element) (i : UInt32) :
    (s.mapElements f).isTemporary i = s.isTemporary i :=
  HandleTable.isTemporary_congr (s.temporaries_modifyAll _) i

theorem toList_mapElements (s : ArrayStore) (f : Element → Element) :
    HandleTable.toList (s.mapElements f) =
      (HandleTable.toList s).map fun p => (p.1, p.2.mapElements f) :=
  HandleTable.toList_map (s.find?_mapElements f)

theorem SameUnder.toList_eq (h : SameUnder f s t) :
    (HandleTable.toList s).map (fun p => (p.1, p.2.mapElements f)) =
      (HandleTable.toList t).map fun p => (p.1, p.2.mapElements f) := by
  rw [← toList_mapElements, ← toList_mapElements]
  refine HandleTable.toList_congr fun i => ?_
  rw [find?_mapElements, find?_mapElements, h.find?]

/-! ## Sweeps -/

theorem named_map_reduced (l : List Element) : named (l.map Element.reduced) = named l := by
  induction l with
  | nil => rfl
  | cons e l ih =>
    rw [List.map_cons, ← List.singleton_append, named_append, ih,
      ← List.singleton_append (l := l), named_append]
    refine congrArg (· ++ named l) ?_
    cases e with
    | array id => exact congrArg (fun h => [h]) (handleOf_handleOf id)
    | _ => rfl

/-- what an array named loses the same references when it goes -/
theorem SameUnder.destroy (h : SameUnder Element.reduced s t) (id : UInt32) :
    SameUnder Element.reduced (s.destroy id) (t.destroy id) := by
  cases ha : s.find? id with
  | none =>
    rw [destroy_of_none ha, destroy_of_none (h.find?_eq_none ha)]
    exact h
  | some a =>
    obtain ⟨b, hb, e⟩ := h.exists_find? ha
    have howner : (b.mapElements Element.reduced).owner = (a.mapElements Element.reduced).owner :=
      congrArg ArrayVar.owner e
    replace howner : b.owner = a.owner := howner
    have hnamed : named b.values = named a.values := by
      rw [← named_map_reduced, ← ArrayVar.values_mapElements, e, ArrayVar.values_mapElements,
        named_map_reduced]
    have hremove : ∀ (n : Nat) (m : UInt8), ArrayVar.mapElements Element.reduced ∘
        (·.removeRefs n m) = (·.removeRefs n m) ∘ ArrayVar.mapElements Element.reduced :=
      fun _ _ => rfl
    constructor
    · intro i
      rw [find?_destroy ha, find?_destroy hb, howner, hnamed, Option.map_map, Option.map_map,
        hremove, ← Option.map_map, ← Option.map_map]
      split
      · rfl
      · rw [h.find?]
    · intro i
      rw [isTemporary_destroy ha, isTemporary_destroy hb, h.isTemporary]

theorem SameUnder.foldl_destroy (h : SameUnder Element.reduced s t) (l : List UInt32) :
    SameUnder Element.reduced (l.foldl ArrayStore.destroy s) (l.foldl ArrayStore.destroy t) := by
  induction l generalizing s t with
  | nil => exact h
  | cons id l ih => exact ih (h.destroy id)

theorem SameUnder.sweep (h : SameUnder Element.reduced s t) :
    s.unclaimed = t.unclaimed ∧ s.sweep.1 = t.sweep.1 ∧
      SameUnder Element.reduced s.sweep.2 t.sweep.2 := by
  have hlist := h.unclaimed_eq
  refine ⟨hlist, congrArg List.length hlist, ?_⟩
  show SameUnder _ (s.unclaimed.foldl _ s) (t.unclaimed.foldl _ t)
  rw [← hlist]
  exact h.foldl_destroy s.unclaimed

/-! ## Pending arrays -/

def isPlain (id : UInt32) : Bool := handleOf id = id

theorem targetsOf_unmarked (l : List Element) :
    (targetsOf (l.map Element.unmarked)).filter (· != 0) =
      ((targetsOf l).filter (· != 0)).filter isPlain := by
  induction l with
  | nil => rfl
  | cons e l ih =>
    cases e with
    | array id =>
      show List.filter (· != 0) ((if handleOf id = id then id else 0) :: targetsOf (l.map _)) =
        List.filter isPlain (List.filter (· != 0) (id :: targetsOf l))
      by_cases hz : id = 0
      · subst hz
        exact ih
      · by_cases h : handleOf id = id
        · rw [if_pos h, List.filter_cons_of_pos (by simpa using hz),
            List.filter_cons_of_pos (by simpa using hz),
            List.filter_cons_of_pos (by simpa [isPlain]),
            ih]
        · rw [if_neg h, List.filter_cons_of_neg (by simp),
            List.filter_cons_of_pos (by simpa using hz),
            List.filter_cons_of_neg (by simpa [isPlain]), ih]
    | _ => exact ih

theorem children_unmarked (a : ArrayVar) :
    (a.mapElements Element.unmarked).children = a.children.filter isPlain := by
  rw [ArrayVar.children, ArrayVar.values_mapElements]
  exact targetsOf_unmarked a.values

theorem tally_filter (P : UInt32 → Bool) (ids : List UInt32) :
    tally (ids.filter P) = (tally ids).filter fun id _ => P id := by
  refine Std.ExtTreeMap.ext_getElem? fun id => ?_
  rw [getElem?_tally, Std.ExtTreeMap.getElem?_filter', getElem?_tally]
  by_cases h : P id
  · rw [List.count_filter h]
    by_cases hm : id ∈ ids
    · rw [if_pos (List.mem_filter.2 ⟨hm, h⟩), if_pos hm, Option.filter_some, if_pos h]
    · rw [if_neg fun hf => hm (List.mem_of_mem_filter hf), if_neg hm, Option.filter_none]
  · rw [if_neg fun hf => h (List.of_mem_filter hf)]
    symm
    rw [Option.filter_eq_none_iff]
    exact fun _ _ => h

end ArrayStore

namespace Pending

open ArrayStore (isPlain)

variable {s : ArrayStore} {p q r : Pending} {id : UInt32}

/-- the reference lists are those of arrays -/
def KeepsHandles (p : Pending) : Prop := ∀ h, handleOf h ≠ h → p.refs[h]? = none

theorem KeepsHandles.giveUp (hp : p.KeepsHandles) (s : ArrayStore) (owner : UInt8) (child : UInt32)
    (n : Nat) : (giveUp s owner p child n).KeepsHandles := by
  intro h hh
  rw [getElem?_refs_giveUp, hp h hh]
  exact ite_self none

/-- what has reserved bits is given up in vain -/
theorem KeepsHandles.foldl_giveUp (hp : p.KeepsHandles) (s : ArrayStore) (owner : UInt8)
    (l : List (UInt32 × Nat)) :
    (l.filter fun c => isPlain c.1).foldl (fun p c => Pending.giveUp s owner p c.1 c.2) p =
      l.foldl (fun p c => Pending.giveUp s owner p c.1 c.2) p ∧
    (l.foldl (fun p c => Pending.giveUp s owner p c.1 c.2) p).KeepsHandles := by
  induction l generalizing p with
  | nil => exact ⟨rfl, hp⟩
  | cons c l ih =>
    by_cases hc : isPlain c.1
    · rw [List.filter_cons, if_pos hc]
      exact ih (hp.giveUp s owner c.1 c.2)
    · have hnone : Pending.giveUp s owner p c.1 c.2 = p :=
        giveUp_of_none s owner p c.1 c.2 (hp c.1 fun e => hc (decide_eq_true e))
      rw [List.filter_cons, if_neg hc, List.foldl_cons, hnone]
      exact ih hp

theorem KeepsHandles.step (hp : p.KeepsHandles) (s : ArrayStore) (id : UInt32) :
    Pending.step (s.mapElements Element.unmarked) p id = Pending.step s p id ∧
      (Pending.step s p id).KeepsHandles := by
  rw [Pending.step, Pending.step, ArrayStore.find?_mapElements]
  split
  · exact ⟨rfl, hp⟩
  · cases s.find? id with
    | none => exact ⟨rfl, hp⟩
    | some a =>
      have hp' : KeepsHandles { p with found := p.found.insert id } := hp
      have hgive : Pending.giveUp (s.mapElements Element.unmarked) = Pending.giveUp s :=
        funext fun owner => giveUp_congr (s.isTemporary_mapElements _) owner
      dsimp only [Option.map_some]
      rw [hgive, ArrayStore.children_unmarked, ArrayStore.tally_filter,
        Std.ExtTreeMap.foldl_eq_foldl_toList, Std.ExtTreeMap.foldl_eq_foldl_toList,
        Std.ExtTreeMap.toList_filter]
      exact hp'.foldl_giveUp s a.owner (tally a.children).toList

theorem KeepsHandles.collect (hp : p.KeepsHandles) (s : ArrayStore) (fuel : Nat) :
    Pending.collect (s.mapElements Element.unmarked) fuel p = Pending.collect s fuel p := by
  induction fuel generalizing p with
  | zero => rfl
  | succ fuel ih =>
    rw [Pending.collect, Pending.collect]
    cases hw : p.worklist with
    | nil => rfl
    | cons id rest =>
      have hp' : KeepsHandles { p with worklist := rest } := hp
      obtain ⟨he, hk⟩ := hp'.step s id
      dsimp only
      rw [he]
      exact ih hk

theorem keepsHandles_start (s : ArrayStore) : (start s).KeepsHandles := fun h hh =>
  (HandleTable.getElem?_toMap_eq s (·.refs) h).trans (if_neg hh)

/-- more fuel changes nothing -/
theorem Ends.unique (hq : Ends s p q) (hr : Ends s p r) : q = r := by
  induction hq with
  | done h =>
    cases hr with
    | done => rfl
    | more h' => exact absurd (h.symm.trans h') (List.cons_ne_nil _ _).symm
  | more h _ ih =>
    cases hr with
    | done h' => exact absurd (h'.symm.trans h) (List.cons_ne_nil _ _).symm
    | more h' he =>
      obtain ⟨rfl, rfl⟩ := List.cons.inj (h.symm.trans h')
      exact ih he

end Pending

namespace ArrayStore

variable {f : Element → Element} {s t : ArrayStore}

theorem unreserved_unmarked (s : ArrayStore) : (s.mapElements Element.unmarked).Unreserved := by
  intro p hp id hid
  rw [toList_mapElements] at hp
  obtain ⟨q, -, rfl⟩ := List.mem_map.1 hp
  rw [ArrayVar.values_mapElements] at hid
  obtain ⟨e, -, he⟩ := List.mem_map.1 hid
  cases e with
  | array x =>
    obtain rfl := Element.array.inj he
    split
    · next hx => exact hx ▸ handleOf_lt x
    · exact Nat.zero_lt_succ _
  | _ => cases he

theorem childCount_unmarked_le (s : ArrayStore) :
    (s.mapElements Element.unmarked).childCount ≤ s.childCount := by
  rw [childCount, childCount, toList_mapElements, List.flatMap_map, List.length_flatMap,
    List.length_flatMap]
  refine List.sum_le_sum fun p _ => ?_
  show (p.2.mapElements Element.unmarked).children.length ≤ p.2.children.length
  rw [children_unmarked]
  exact List.length_filter_le _ _

/-- ids with reserved bits might as well be no ids where pending arrays are looked for -/
theorem pendingCollection_unmarked (s : ArrayStore) :
    (s.mapElements Element.unmarked).pendingCollection = s.pendingCollection := by
  have hsame : (s.mapElements Element.unmarked).unclaimed = s.unclaimed := by
    have hclaim : (s.mapElements Element.unmarked).isUnclaimed = s.isUnclaimed := by
      funext i
      rw [isUnclaimed, isUnclaimed, isTemporary_mapElements, find?_mapElements]
      cases s.find? i <;> rfl
    rw [unclaimed, unclaimed, hclaim, HandleTable.temporaries_congr (s.isTemporary_mapElements _)]
  have hrefs : (s.mapElements Element.unmarked).refTable = s.refTable := by
    refine Std.ExtTreeMap.ext_getElem? fun i => ?_
    rw [refTable, refTable, HandleTable.getElem?_toMap_eq, HandleTable.getElem?_toMap_eq,
      find?_mapElements, Option.map_map]
    rfl
  have hstart : Pending.start (s.mapElements Element.unmarked) = Pending.start s := by
    rw [Pending.start, Pending.start, hrefs, hsame]
  have hends : ∀ fuel, Pending.remaining (s.mapElements Element.unmarked) []
      (Pending.start (s.mapElements Element.unmarked)) < fuel →
      Pending.Ends (s.mapElements Element.unmarked)
        (Pending.start (s.mapElements Element.unmarked))
        (Pending.collect s fuel (Pending.start s)) := fun fuel hlt => by
    have he := ((Pending.working_start _).collect s.unreserved_unmarked hlt).1
    rw [hstart, (Pending.keepsHandles_start s).collect] at he
    rw [hstart]
    exact he
  have hremaining : Pending.remaining (s.mapElements Element.unmarked) []
      (Pending.start (s.mapElements Element.unmarked)) =
      s.unclaimed.length + (s.mapElements Element.unmarked).childCount := by
    rw [Pending.remaining, childCountWithout_nil, hstart]
    exact congrArg (· + _) (List.length_reverse ..)
  have hle := s.childCount_unmarked_le
  have heq : Pending.collect s
      (s.unclaimed.length + (s.mapElements Element.unmarked).childCount + 1) (Pending.start s) =
        Pending.collect s (s.unclaimed.length + s.childCount + 1) (Pending.start s) :=
    (hends _ (by omega)).unique (hends _ (by omega))
  have hcollect := (Pending.keepsHandles_start s).collect s
    (s.unclaimed.length + (s.mapElements Element.unmarked).childCount + 1)
  rw [pendingCollection, pendingCollection, hsame, hrefs]
  exact congrArg (fun p => (p.found, p.refs)) (hcollect.trans heq)

/-- which reserved bits there are makes no difference -/
theorem SameUnder.pendingCollection (h : SameUnder Element.tagged s t) :
    s.pendingCollection = t.pendingCollection := by
  have hu : SameUnder Element.unmarked s t := h.comp Element.unmarked_tagged
  rw [← pendingCollection_unmarked s, ← pendingCollection_unmarked t]
  refine pendingCollection_congr (fun i => ?_) fun i => ?_
  · rw [find?_mapElements, find?_mapElements, hu.find?]
  · rw [isTemporary_mapElements, isTemporary_mapElements, hu.isTemporary]

end ArrayStore
end ScriptVars
