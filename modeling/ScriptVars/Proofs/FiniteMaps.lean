import ScriptVars.Proofs.NormalDump
import ScriptVars.Proofs.SingleChanges
import ScriptVars.Proofs.Sorting
import ScriptVars.Proofs.Walks

/-!
# Maps as finite maps

Whatever changes are made to a map, under a key stands what the last change that was about this key
has put there.  Everything that can be asked of the map agrees with that.

* `Key.same_number`, …                  which keys are the same;
* `Ascending.find?_eq_firstWith`, …     one key of a list in order, before and after a change;
* `MapCall`, `MapCall.leaves`           changes of a map, and what they leave under a key;
* `Session.callAll`, `carriedOut`       a run of changes, and those that are not refused;
* `ArrayStore.IsMap`                    a map, as everything that can be asked of it sees it;
* `Session.map_calls`                   a map after a run of changes.
-/

namespace ScriptVars

open ScriptVars.Action

/-! ## Keys -/

namespace Key

/-- both zeros are one key, and any other number is one bit for bit -/
theorem same_number {x y : Number} :
    (number x).same (number y) = true ↔ x = y ∨ x.isZero = true ∧ y.isZero = true := by
  rw [same_iff]
  show x.foldZero.totalCompare y.foldZero = .eq ↔ _
  rw [Number.totalCompare_eq_eq, Number.foldZero, Number.foldZero]
  have hzero : (⟨0⟩ : Number).isZero = true := rfl
  by_cases hx : x.isZero = true <;> by_cases hy : y.isZero = true
  · rw [if_pos hx, if_pos hy]
    exact iff_of_true rfl (.inr ⟨hx, hy⟩)
  · rw [if_pos hx, if_neg hy]
    refine iff_of_false ?_ ?_
    · rintro rfl
      exact hy hzero
    · rintro (rfl | ⟨-, h⟩)
      · exact hy hx
      · exact hy h
  · rw [if_neg hx, if_pos hy]
    refine iff_of_false ?_ ?_
    · rintro rfl
      exact hx hzero
    · rintro (rfl | ⟨h, -⟩)
      · exact hx hy
      · exact hx h
  · rw [if_neg hx, if_neg hy]
    exact (or_iff_left fun h => hx h.1).symm

theorem same_comm (k l : Key) : k.same l = l.same k := by
  rw [Bool.eq_iff_iff, same_iff, same_iff]
  exact Std.OrientedCmp.eq_comm

theorem same_text {s t : String} : (text s).same (text t) = true ↔ s = t := by
  rw [same_iff]
  exact Std.LawfulEqOrd.compare_eq_iff_eq

theorem not_same_number_text (x : Number) (s : String) :
    (number x).same (text s) = false ∧ (text s).same (number x) = false := ⟨rfl, rfl⟩

theorem isAtMost_refl (k : Key) : k.isAtMost k = true := by
  have hself : k.compare k = .eq := Std.ReflCmp.compare_self
  rw [isAtMost, hself]
  rfl

/-- the same keys have the same keys before them and after them -/
theorem isAtMost_congr {k l : Key} (h : k.same l = true) (m : Key) :
    m.isAtMost k = m.isAtMost l ∧ k.isAtMost m = l.isAtMost m := by
  rw [isAtMost, isAtMost, isAtMost, isAtMost, Std.TransCmp.congr_right (same_iff.1 h),
    Std.TransCmp.congr_left (same_iff.1 h)]
  exact ⟨rfl, rfl⟩

theorem keyType_of_same {k l : Key} (h : k.same l = true) : k.keyType = l.keyType := by
  cases k <;> cases l <;> first | rfl | cases h

end Key

/-! ## Lists in order -/

namespace Ascending

variable {entries : List (Key × Element)} {k l : Key}

theorem find?_eq_firstWith (h : IsAscending Key.compare entries) :
    find? Key.compare k entries = (firstWith k entries).map Prod.snd := by
  induction entries with
  | nil => rfl
  | cons p rest ih =>
    obtain ⟨hp, hrest⟩ := List.pairwise_cons.1 h
    rw [find?, firstWith_cons]
    cases hk : k.compare p.1 with
    | lt =>
      have hnone : firstWith k rest = none := by
        refine List.find?_eq_none.2 fun q hq => ?_
        rw [Key.same_iff, Std.TransCmp.lt_trans hk (hp q hq)]
        decide
      rw [hnone, if_neg (by rw [Key.same_iff, hk]; decide)]
      rfl
    | eq =>
      rw [if_pos (Key.same_iff.2 hk)]
      rfl
    | gt =>
      rw [if_neg (by rw [Key.same_iff, hk]; decide)]
      exact ih hrest

/-- under a key stands what an entry with the same key has -/
theorem find?_eq_some_iff (h : IsAscending Key.compare entries) {e : Element} :
    find? Key.compare k entries = some e ↔ ∃ l, k.same l = true ∧ (l, e) ∈ entries := by
  constructor
  · intro hfind
    obtain ⟨l, hl, hm⟩ := mem_of_find?_eq_some hfind
    exact ⟨l, Key.same_iff.2 hl, hm⟩
  · rintro ⟨l, hl, hm⟩
    have hcongr : firstWith k entries = firstWith l entries := by
      simp only [firstWith, Key.same_congr (Key.same_iff.1 hl)]
    rw [find?_eq_firstWith h, hcongr, firstWith_of_mem h hm]
    rfl

theorem find?_insert (h : IsAscending Key.compare entries) (e : Element) :
    find? Key.compare k (insert Key.compare l e entries) =
      if k.same l then some e else find? Key.compare k entries := by
  rw [find?_eq_firstWith (isAscending_insert h), firstWith_insert h, find?_eq_firstWith h]
  split <;> rfl

/-- entries are taken out by a property of their keys -/
theorem find?_filter (h : IsAscending Key.compare entries) {p : Key → Bool}
    (hp : ∀ l, k.same l = true → p l = p k) :
    find? Key.compare k (entries.filter fun q => p q.1) =
      if p k then find? Key.compare k entries else none := by
  have hpred : (fun q : Key × Element => decide (p q.1 = true ∧ k.same q.1 = true)) =
      fun q => p k && k.same q.1 := by
    funext q
    rw [Bool.decide_and, Bool.decide_eq_true, Bool.decide_eq_true]
    cases hs : k.same q.1 with
    | false => rw [Bool.and_false, Bool.and_false]
    | true => rw [hp q.1 hs]
  rw [find?_eq_firstWith (h.filter _), find?_eq_firstWith h, firstWith, List.find?_filter, hpred]
  cases p k with
  | true => rfl
  | false =>
    have hnone : entries.find? (fun q => false && k.same q.1) = none :=
      List.find?_eq_none.2 fun _ _ => Bool.false_ne_true
    rw [hnone]
    rfl

theorem erase_eq_filter (h : IsAscending Key.compare entries) :
    erase Key.compare k entries = entries.filter fun q => !k.same q.1 := by
  induction entries with
  | nil => rfl
  | cons p rest ih =>
    obtain ⟨hp, hrest⟩ := List.pairwise_cons.1 h
    have hrestOf : k.compare p.1 ≠ .gt → rest.filter (fun q => !k.same q.1) = rest := by
      intro hle
      refine List.filter_eq_self.2 fun q hq => ?_
      have hlt : k.compare q.1 = .lt := by
        cases hk : k.compare p.1 with
        | lt => exact Std.TransCmp.lt_trans hk (hp q hq)
        | eq => exact (Std.TransCmp.congr_left hk).trans (hp q hq)
        | gt => exact absurd hk hle
      rw [Key.same, hlt]
      rfl
    rw [erase, List.filter_cons, Key.same]
    cases hk : k.compare p.1 with
    | lt => exact congrArg (p :: ·) (hrestOf (by rw [hk]; decide)).symm
    | eq => exact (hrestOf (by rw [hk]; decide)).symm
    | gt => exact congrArg (p :: ·) (ih hrest)

/-- what is erased was there -/
theorem erase_eq_self_iff : erase Key.compare k entries = entries ↔
    find? Key.compare k entries = none := by
  induction entries with
  | nil => exact iff_of_true rfl rfl
  | cons p rest ih =>
    rw [erase, find?]
    cases k.compare p.1 with
    | lt => exact iff_of_true rfl rfl
    | eq =>
      refine iff_of_false (fun h => ?_) (Option.some_ne_none _)
      exact absurd (congrArg List.length h) (Nat.ne_of_lt (Nat.lt_succ_self rest.length))
    | gt => rw [List.cons.injEq, and_iff_right rfl, ih]

end Ascending

/-! ## Changes -/

/-- a change of one map -/
inductive MapCall where
  | set (k : Key) (e : Element)
  | erase (k : Key)
  | eraseWithin (lo hi : Key)
  | eraseAll

namespace MapCall

def on (id : UInt32) : MapCall → ArrayStore.Call
  | set k e => .setElement id k e
  | erase k => .eraseElement id k
  | eraseWithin lo hi => .eraseElements id lo hi
  | eraseAll => .eraseAll id

/-- what a change leaves under a key, an element or nothing; none if it is not about that key -/
def leaves (k : Key) : MapCall → Option (Option Element)
  | set l e => if k.same l then some (some e) else none
  | erase l => if k.same l then some none else none
  | eraseWithin lo hi => if lo.isAtMost k && k.isAtMost hi then some none else none
  | eraseAll => some none

/-- what a change needs, so that it is not refused: keys of the right type, unless there is nothing
to erase, no text that is too long, and an element that can be stored -/
def Suits (s : ArrayStore) (a : ArrayVar) : MapCall → Prop
  | set k e => s.missing? e = none ∧ k.keyType = a.keyType ∧ k.Short ∧ e.Short
  | erase k => k.keyType = a.keyType ∨ a.size = 0
  | eraseWithin lo hi => lo.keyType = a.keyType ∧ hi.keyType = a.keyType
  | eraseAll => True

end MapCall

namespace Action

theorem failure?_eq_none {σ α : Type} {s : σ} {x : Action σ α} :
    x.failure? s = none ↔ ∃ r, x s = .ok r (x.after s) := by
  rw [failure?, after]
  cases x s with
  | ok a t => exact iff_of_true rfl ⟨a, rfl⟩
  | error f t =>
    refine iff_of_false (Option.some_ne_none f) ?_
    rintro ⟨_, ⟨⟩⟩

end Action

namespace ArrayStore

variable {s t : ArrayStore} {id : UInt32} {a : ArrayVar} {entries : List (Key × Element)}

/-- what is put into a map goes in unless a text is too long -/
theorem exists_write_sorted {st : Storage} {k : Key} {e : Element} :
    (∃ old, (Storage.sorted entries).write k e = .ok (st, old)) ↔
      k.Short ∧ e.Short ∧ st = .sorted (Ascending.insert Key.compare k e entries) :=
  Storage.exists_write fun h => absurd h Bool.false_ne_true

section
variable (hf : s.find? id = some a) (he : a.storage = .sorted entries)
include hf he

theorem getElement?_of_sorted (k : Key) : s.getElement? id k =
    if k.keyType = a.keyType then Ascending.find? Key.compare k entries else none := by
  rw [getElement?, hf]
  show (if k.keyType = a.keyType then a.storage.read? k else none) = _
  rw [he]
  rfl

/-- what a change that is not refused does to the entries -/
theorem entries_of_mapCall (hasc : Ascending.IsAscending Key.compare entries) {c : MapCall}
    (hc : (c.on id).failure? s = none) :
    ∃ entries' new gone, (c.on id).apply s = s.exchange id a (.sorted entries') new gone ∧
      ∀ k, Ascending.find? Key.compare k entries' =
        (c.leaves k).getD (Ascending.find? Key.compare k entries) := by
  cases c with
  | set l e =>
    obtain ⟨_, h⟩ := failure?_eq_none.1 hc
    obtain ⟨-, b, storage, old, hb, -, hw, ht⟩ := setElement_eq_ok h
    obtain rfl : a = b := Option.some.inj (hf.symm.trans hb)
    rw [he] at hw
    obtain ⟨-, -, rfl⟩ := exists_write_sorted.1 ⟨old, hw⟩
    refine ⟨_, _, _, ht, fun k => ?_⟩
    rw [Ascending.find?_insert hasc, MapCall.leaves]
    split <;> rfl
  | erase l =>
    obtain ⟨_, h⟩ := failure?_eq_none.1 hc
    rw [eraseElement_of_find? hf] at h
    by_cases hl : l.keyType = a.keyType
    · rw [ArrayVar.erase_of_keyType hl, he] at h
      refine ⟨_, _, _, (EStateM.Result.ok.inj h).2.symm, fun k => ?_⟩
      rw [Ascending.erase_eq_filter hasc, MapCall.leaves]
      rw [Ascending.find?_filter hasc (p := fun j => !l.same j) fun j hj => by
        rw [Key.same_comm l j, Key.same_comm l k, Key.same_congr (Key.same_iff.1 hj)]]
      rw [Key.same_comm k l]
      cases l.same k <;> rfl
    · rw [ArrayVar.erase_of_ne hl] at h
      by_cases hempty : a.isEmpty = true
      · have hnil : entries = [] := by
          have hsize : a.storage.size = 0 := of_decide_eq_true hempty
          rw [he] at hsize
          exact List.eq_nil_of_length_eq_zero hsize
        rw [if_pos hempty] at h
        have ht : (eraseElement id l).after s = s.exchange id a a.storage [] [] :=
          (EStateM.Result.ok.inj h).2.symm
        rw [he] at ht
        refine ⟨_, _, _, ht, fun k => ?_⟩
        rw [hnil, MapCall.leaves]
        split <;> rfl
      · rw [if_neg hempty] at h
        cases h
  | eraseWithin lo hi =>
    obtain ⟨_, h⟩ := failure?_eq_none.1 hc
    obtain ⟨b, storage, removed, hb, hw, -, ht⟩ := eraseElements_eq_ok h
    obtain rfl : a = b := Option.some.inj (hf.symm.trans hb)
    rw [he] at hw
    cases hw
    refine ⟨_, _, _, ht, fun k => ?_⟩
    rw [MapCall.leaves]
    rw [Ascending.find?_filter hasc (p := fun j => !(lo.isAtMost j && j.isAtMost hi)) fun j hj => by
      rw [(Key.isAtMost_congr hj lo).1, (Key.isAtMost_congr hj hi).2]]
    cases (lo.isAtMost k && k.isAtMost hi) <;> rfl
  | eraseAll =>
    obtain ⟨_, h⟩ := failure?_eq_none.1 hc
    obtain ⟨b, hb, -, ht⟩ := eraseAll_eq_ok h
    obtain rfl : a = b := Option.some.inj (hf.symm.trans hb)
    rw [he] at ht
    exact ⟨[], _, _, ht, fun k => rfl⟩

/-- which changes are not refused -/
theorem failure?_mapCall (c : MapCall) : (c.on id).failure? s = none ↔ c.Suits s a := by
  cases c with
  | set k e =>
    constructor
    · intro h
      obtain ⟨_, h⟩ := failure?_eq_none.1 h
      obtain ⟨haccepts, b, storage, old, hb, hk, hw, -⟩ := setElement_eq_ok h
      obtain rfl : a = b := Option.some.inj (hf.symm.trans hb)
      rw [he] at hw
      obtain ⟨hshort, hshort', -⟩ := exists_write_sorted.1 ⟨old, hw⟩
      exact ⟨missing?_eq_none.2 haccepts, hk, hshort, hshort'⟩
    · rintro ⟨hmissing, hk, hshort, hshort'⟩
      obtain ⟨old, hw⟩ := exists_write_sorted.2 ⟨hshort, hshort', rfl⟩
      show (setElement id k e).failure? s = none
      rw [failure?, setElement_of_find? hf, hmissing, ArrayVar.set_of_keyType hk, he, hw]
  | erase k =>
    show (eraseElement id k).failure? s = none ↔ _
    rw [failure?, eraseElement_of_find? hf]
    by_cases hk : k.keyType = a.keyType
    · rw [ArrayVar.erase_of_keyType hk, he]
      exact iff_of_true rfl (.inl hk)
    · rw [ArrayVar.erase_of_ne hk]
      by_cases hempty : a.isEmpty = true
      · rw [if_pos hempty]
        exact iff_of_true rfl (.inr (of_decide_eq_true hempty))
      · rw [if_neg hempty]
        refine iff_of_false (Option.some_ne_none _) ?_
        rintro (h | h)
        · exact hk h
        · exact hempty (decide_eq_true h)
  | eraseWithin lo hi =>
    show (eraseElements id lo hi).failure? s = none ↔ _
    by_cases hlo : lo.keyType = a.keyType
    · by_cases hhi : hi.keyType = a.keyType
      · rw [failure?, eraseElements_of_find? hf hlo hhi, he]
        exact iff_of_true rfl ⟨hlo, hhi⟩
      · rw [failure?, eraseElements, bind_lookup hf, ArrayVar.checkKey_of_keyType hlo,
          ArrayVar.checkKey, if_neg hhi]
        exact iff_of_false (Option.some_ne_none _) fun h => hhi h.2
    · rw [failure?, eraseElements, bind_lookup hf, ArrayVar.checkKey, if_neg hlo]
      exact iff_of_false (Option.some_ne_none _) fun h => hlo h.1
  | eraseAll =>
    show (eraseAll id).failure? s = none ↔ _
    rw [failure?, eraseAll_of_find? hf]
    exact iff_of_true rfl trivial

end

/-- an element is left only under keys of the right type -/
theorem keyType_of_leaves {c : MapCall} (hc : c.Suits s a) {k : Key} {e : Element}
    (h : c.leaves k = some (some e)) : k.keyType = a.keyType := by
  cases c with
  | set l e' =>
    rw [MapCall.leaves] at h
    split at h
    · next hsame => exact (Key.keyType_of_same hsame).trans hc.2.1
    · cases h
  | erase l =>
    rw [MapCall.leaves] at h
    split at h <;> cases h
  | eraseWithin lo hi =>
    rw [MapCall.leaves] at h
    split at h <;> cases h
  | eraseAll => cases h

/-! ## Questions -/

/-- makes a list of some values, unless all handles are in use or there are more values than
positions -/
def MakesList (x : Action ArrayStore UInt32) (s : ArrayStore) (values : List Element)
    (owner : UInt8) : Prop :=
  (∃ c t, x s = .ok c t ∧ NewList s t values owner c) ∨
    (x s = .error .exhausted s ∧ ∀ h, IsHandle h → h ∈ s.handles) ∨
    (x s = .error (.typeMismatch (.notAnIndex (Key.ofIndex (Key.greatestIndex + 1)))) s ∧
      Key.greatestIndex + 1 < values.length)

theorem makesList_createList (hs : s.NoneReserved) {values : List Element}
    (h : ∀ e ∈ values, e.Short) (owner : UInt8) :
    MakesList (createList values owner) s values owner := by
  rcases createList_cases h owner s with hmade | ⟨hfull, hnone⟩ | hlong
  · exact .inl hmade
  · refine .inr (.inl ⟨hfull, fun i hi => ?_⟩)
    by_contra hm
    exact hnone i (hs.isFree hi hm)
  · exact .inr (.inr hlong)

/-- The map behind an id has these elements under its keys, and whatever is asked of it agrees: its
entries are in order and one for each key, and so are the lists of its keys and elements; to take a
key out takes out what is there, and tells so. -/
structure IsMap (s : ArrayStore) (id : UInt32) (a : ArrayVar) (f : Key → Option Element) :
    Prop where
  array : s.find? id = some a
  isPacked : a.isPacked = false
  get : ∀ k, s.getElement? id k = f k
  has : ∀ k, s.hasKey id k = (f k).isSome
  entries : s.entries? id = some a.entries
  ascending : Ascending.IsAscending Key.compare a.entries
  mem : ∀ k e, f k = some e ↔ ∃ l, k.same l = true ∧ (l, e) ∈ a.entries
  size : s.size? id = some a.entries.length
  first : match s.firstKey? id with
    | some k => (f k).isSome ∧ ∀ l, (f l).isSome → k.isAtMost l = true
    | none => ∀ l, f l = none
  last : match s.lastKey? id with
    | some k => (f k).isSome ∧ ∀ l, (f l).isSome → l.isAtMost k = true
    | none => ∀ l, f l = none
  keys : MakesList (ArrayStore.keys id) s (a.entries.map fun p => .ofKey p.1) a.owner
  values : MakesList (ArrayStore.values id) s (a.entries.map Prod.snd) a.owner
  erase : ∀ k, k.keyType = a.keyType → ∃ t, eraseElement id k s = .ok (f k).isSome t
  erased : ∀ k found t, eraseElement id k s = .ok found t →
    (found = true ↔ t.entries? id ≠ s.entries? id)

theorem short_ofKey {k : Key} (h : k.Short) : (Element.ofKey k).Short := by
  cases k with
  | number x => exact nofun
  | text s =>
    rintro _ ⟨⟩
    exact h s rfl

end ArrayStore

/-! ### first and last keys -/

namespace Ascending

variable {entries : List (Key × Element)} {p q : Key × Element}

theorem isAtMost_head (h : IsAscending Key.compare (p :: entries)) (hq : q ∈ p :: entries) :
    p.1.isAtMost q.1 = true := by
  rcases List.mem_cons.1 hq with rfl | hq
  · exact Key.isAtMost_refl _
  · rw [Key.isAtMost, (List.pairwise_cons.1 h).1 q hq]
    rfl

theorem isAtMost_last (h : IsAscending Key.compare (entries ++ [p])) (hq : q ∈ entries ++ [p]) :
    q.1.isAtMost p.1 = true := by
  rcases List.mem_append.1 hq with hq | hq
  · rw [Key.isAtMost, (List.pairwise_append.1 h).2.2 q hq p List.mem_cons_self]
    rfl
  · obtain rfl := List.mem_singleton.1 hq
    exact Key.isAtMost_refl _

end Ascending

/-! ### answers of a map -/

namespace ArrayStore

section
variable {s : ArrayStore} {id : UInt32} {a : ArrayVar} {entries : List (Key × Element)}
  (hf : s.find? id = some a) (he : a.storage = .sorted entries)
include hf he

/-- a key that is taken out was there exactly if the entries are others then -/
theorem eraseElement_changes {k : Key} {found : Bool} {t : ArrayStore}
    (h : eraseElement id k s = .ok found t) : found = true ↔ t.entries? id ≠ s.entries? id := by
  have hentries : a.entries = entries := ArrayVar.entries_of_sorted he
  have hbefore : s.entries? id = some entries := by
    rw [entries?, hf]
    exact congrArg some hentries
  rw [eraseElement_of_find? hf] at h
  by_cases hk : k.keyType = a.keyType
  · rw [ArrayVar.erase_of_keyType hk, he] at h
    obtain ⟨rfl, rfl⟩ := EStateM.Result.ok.inj h
    rw [(becomes_exchange hf _ _ _).entries?_eq, hbefore, ne_eq, Option.some_inj]
    show _ ↔ ¬ Ascending.erase Key.compare k entries = entries
    rw [Ascending.erase_eq_self_iff, Option.isSome_iff_ne_none]
  · rw [ArrayVar.erase_of_ne hk] at h
    by_cases hempty : a.isEmpty = true
    · rw [if_pos hempty] at h
      obtain ⟨rfl, rfl⟩ := EStateM.Result.ok.inj h
      rw [(becomes_exchange hf _ _ _).entries?_eq, hbefore]
      exact iff_of_false Bool.false_ne_true fun hne => hne (congrArg some hentries)
    · rw [if_neg hempty] at h
      cases h

variable (hasc : Ascending.IsAscending Key.compare entries)
  (htypes : ∀ p ∈ entries, p.1.keyType = a.keyType)
include hasc htypes

theorem getElement?_eq_some_iff {k : Key} {e : Element} : s.getElement? id k = some e ↔
    ∃ l, k.same l = true ∧ (l, e) ∈ entries := by
  rw [getElement?_of_sorted hf he, ← Ascending.find?_eq_some_iff hasc]
  by_cases hk : k.keyType = a.keyType
  · rw [if_pos hk]
  · rw [if_neg hk]
    refine iff_of_false (Option.some_ne_none e).symm fun h => ?_
    obtain ⟨l, hl, hm⟩ := (Ascending.find?_eq_some_iff hasc).1 h
    exact hk ((Key.keyType_of_same hl).trans (htypes _ hm))

theorem isSome_getElement? {p : Key × Element} (hm : p ∈ entries) :
    (s.getElement? id p.1).isSome :=
  Option.isSome_of_eq_some ((getElement?_eq_some_iff hf he hasc htypes).2
    ⟨p.1, Key.same_iff.2 Std.ReflCmp.compare_self, hm⟩)

theorem match_firstKey? : match s.firstKey? id with
    | some k => (s.getElement? id k).isSome ∧
        ∀ l, (s.getElement? id l).isSome → k.isAtMost l = true
    | none => ∀ l, s.getElement? id l = none := by
  rw [firstKey?_of_find? hf, ArrayVar.entries_of_sorted he]
  cases entries with
  | nil =>
    intro l
    rw [getElement?_of_sorted hf he]
    exact ite_self none
  | cons p rest =>
    refine ⟨isSome_getElement? hf he hasc htypes List.mem_cons_self, fun l h => ?_⟩
    obtain ⟨e, h⟩ := Option.isSome_iff_exists.1 h
    obtain ⟨m, hsame, hm⟩ := (getElement?_eq_some_iff hf he hasc htypes).1 h
    rw [(Key.isAtMost_congr hsame p.1).1]
    exact Ascending.isAtMost_head hasc hm

theorem match_lastKey? : match s.lastKey? id with
    | some k => (s.getElement? id k).isSome ∧
        ∀ l, (s.getElement? id l).isSome → l.isAtMost k = true
    | none => ∀ l, s.getElement? id l = none := by
  rw [lastKey?_of_find? hf, ArrayVar.entries_of_sorted he]
  rcases List.eq_nil_or_concat entries with rfl | ⟨rest, p, hl⟩
  · intro l
    rw [getElement?_of_sorted hf he]
    exact ite_self none
  · rw [List.concat_eq_append] at hl
    subst hl
    rw [List.map_append, List.reverse_append]
    refine ⟨isSome_getElement? hf he hasc htypes (List.mem_append_right _ List.mem_cons_self),
      fun l h => ?_⟩
    obtain ⟨e, h⟩ := Option.isSome_iff_exists.1 h
    obtain ⟨m, hsame, hm⟩ := (getElement?_eq_some_iff hf he hasc htypes).1 h
    rw [(Key.isAtMost_congr hsame p.1).2]
    exact Ascending.isAtMost_last hasc hm

end

end ArrayStore

namespace Session

open ArrayStore

/-- what can be asked of any map of a session -/
theorem Reachable.isMap {x : Session} (hx : x.Reachable) {id : UInt32} {a : ArrayVar}
    (hf : x.arrays.find? id = some a) (hp : a.isPacked = false) :
    IsMap x.arrays id a (x.arrays.getElement? id) := by
  have hshort := hx.short (HandleTable.handleOf_mem_toList.2 hf)
  obtain ⟨entries, he, hasc, htypes⟩ := hx.sorted hf hp
  have hentries : a.entries = entries := ArrayVar.entries_of_sorted he
  refine
    { array := hf
      isPacked := hp
      get := fun k => rfl
      has := fun k => rfl
      entries := ?_
      ascending := hentries ▸ hasc
      mem := fun k e => hentries ▸ getElement?_eq_some_iff hf he hasc htypes
      size := ?_
      first := match_firstKey? hf he hasc htypes
      last := match_lastKey? hf he hasc htypes
      keys := ?_
      values := ?_
      erase := fun k hk => ?_
      erased := fun k found t h => eraseElement_changes hf he h }
  · rw [entries?, hf]
    rfl
  · rw [size?, hf]
    exact congrArg some a.storage.length_entries.symm
  · have hkeys : ArrayStore.keys id x.arrays =
        createList (a.entries.map fun p => .ofKey p.1) a.owner x.arrays := bind_lookup hf _
    rw [MakesList, hkeys]
    refine makesList_createList hx.noneReserved (fun e h => ?_) a.owner
    obtain ⟨p, hm, rfl⟩ := List.mem_map.1 h
    exact short_ofKey (hshort p hm).1
  · have hvalues : ArrayStore.values id x.arrays = createList a.values a.owner x.arrays :=
      bind_lookup hf _
    rw [MakesList, hvalues, ArrayVar.values, ← Storage.map_snd_entries]
    refine makesList_createList hx.noneReserved (fun e h => ?_) a.owner
    obtain ⟨p, hm, rfl⟩ := List.mem_map.1 h
    exact (hshort p hm).2
  · rw [eraseElement_of_find? hf, ArrayVar.erase_of_keyType hk, he, getElement?_of_sorted hf he,
      if_pos hk]
    exact ⟨_, rfl⟩

/-! ## Runs -/

/-- the session after some changes of one map, refused or not -/
def callAll (x : Session) (id : UInt32) (calls : List MapCall) : Session :=
  (calls.map fun c => .arrays (c.on id)).foldl step x

theorem Reachable.callAll {x : Session} (hx : x.Reachable) (id : UInt32) (calls : List MapCall) :
    (x.callAll id calls).Reachable := by
  induction calls generalizing x with
  | nil => exact hx
  | cons c calls ih => exact ih (.step _ hx)

/-- those of some changes that are not refused, the last one first -/
def carriedOut (id : UInt32) : Session → List MapCall → List MapCall
  | _, [] => []
  | x, c :: calls =>
    carriedOut id (x.step (.arrays (c.on id))) calls ++
      if ((c.on id).failure? x.arrays).isNone then [c] else []

/-- one change of a map: under a key stands what it leaves there, or what was there -/
theorem step_mapCall {x : Session} (hx : x.Reachable) {id : UInt32} {a : ArrayVar}
    (hf : x.arrays.find? id = some a) (hp : a.isPacked = false) (c : MapCall) :
    ∃ b, (x.step (.arrays (c.on id))).arrays.find? id = some b ∧ b.kind = a.kind ∧
      b.owner = a.owner ∧ ∀ k, (x.step (.arrays (c.on id))).arrays.getElement? id k =
        ((if ((c.on id).failure? x.arrays).isNone then [c] else []).findSome? (·.leaves k)).getD
          (x.arrays.getElement? id k) := by
  show ∃ b, ((c.on id).apply x.arrays).find? id = some b ∧ b.kind = a.kind ∧ b.owner = a.owner ∧
    ∀ k, ((c.on id).apply x.arrays).getElement? id k = _
  cases hc : (c.on id).failure? x.arrays with
  | some f =>
    have hstop : ¬ (c.on id).MayStop x.arrays f := by
      cases c <;> exact fun h => h
    rw [Call.apply_of_failure? hc hstop]
    exact ⟨a, hf, rfl, rfl, fun k => rfl⟩
  | none =>
    obtain ⟨entries, he, hasc, htypes⟩ := hx.sorted hf hp
    obtain ⟨entries', new, gone, happly, hentries⟩ := entries_of_mapCall hf he hasc hc
    have hbecomes := becomes_exchange hf (.sorted entries') new gone
    obtain ⟨b, hb, hsame⟩ := hbecomes.array
    rw [happly]
    refine ⟨b, hb, hsame.kind, hsame.owner, fun k => ?_⟩
    rw [hbecomes.getElement?_eq, getElement?_of_sorted hf he]
    show (if k.keyType = a.keyType then Ascending.find? Key.compare k entries' else none) =
      (([c].findSome? (·.leaves k)).getD _)
    rw [List.findSome?_singleton]
    by_cases hk : k.keyType = a.keyType
    · rw [if_pos hk, if_pos hk, hentries]
    · -- nothing is put under a key of another type
      rw [if_neg hk, if_neg hk]
      cases hl : c.leaves k with
      | none => rfl
      | some o =>
        cases o with
        | none => rfl
        | some e => exact absurd (keyType_of_leaves ((failure?_mapCall hf he c).1 hc) hl) hk

/-- a map after a run of changes, by induction on the run -/
theorem isMap_callAll {x : Session} (hx : x.Reachable) {id : UInt32} {a : ArrayVar}
    (hf : x.arrays.find? id = some a) (hp : a.isPacked = false) (calls : List MapCall) :
    ∃ b, b.kind = a.kind ∧ b.owner = a.owner ∧ IsMap (callAll x id calls).arrays id b fun k =>
      ((carriedOut id x calls).findSome? (·.leaves k)).getD (x.arrays.getElement? id k) := by
  induction calls generalizing x a with
  | nil => exact ⟨a, rfl, rfl, hx.isMap hf hp⟩
  | cons c calls ih =>
    obtain ⟨b, hb, hkind, howner, hget⟩ := step_mapCall hx hf hp c
    have hpb : b.isPacked = false := by
      rw [ArrayVar.isPacked, hkind]
      exact hp
    obtain ⟨d, hkind', howner', hmap⟩ := ih (.step _ hx) hb hpb
    refine ⟨d, hkind'.trans hkind, howner'.trans howner, ?_⟩
    have hleaves : ∀ k, ((carriedOut id x (c :: calls)).findSome? (·.leaves k)).getD
        (x.arrays.getElement? id k) =
        ((carriedOut id (x.step (.arrays (c.on id))) calls).findSome? (·.leaves k)).getD
          ((x.step (.arrays (c.on id))).arrays.getElement? id k) := by
      intro k
      rw [carriedOut, List.findSome?_append, hget, Option.getD_or]
    simp only [hleaves]
    exact hmap

/-- Whatever changes of a map are tried, refused or not: under a key stands what the last change
about it has left there, or what was there before, which is nothing if the map was empty.  All that
can be asked of the map agrees with that, and the next change is carried out if it suits the map.
Keys are in an order; both zeros are one key, and other keys are one only if they are equal. -/
theorem map_calls {x : Session} (hx : x.Reachable) {id : UInt32} {a : ArrayVar}
    (hf : x.arrays.find? id = some a) (hp : a.isPacked = false) (calls : List MapCall) :
    (Std.TransCmp Key.compare ∧
      (∀ m n : Number, (Key.number m).same (.number n) = true ↔
        m = n ∨ m.isZero = true ∧ n.isZero = true) ∧
      (∀ s t : String, (Key.text s).same (.text t) = true ↔ s = t) ∧
      ∀ (m : Number) (s : String),
        (Key.number m).same (.text s) = false ∧ (Key.text s).same (.number m) = false) ∧
    (a.size = 0 → ∀ k, x.arrays.getElement? id k = none) ∧
    ∃ b, b.kind = a.kind ∧ b.owner = a.owner ∧
      (IsMap (callAll x id calls).arrays id b fun k =>
        ((carriedOut id x calls).findSome? (·.leaves k)).getD (x.arrays.getElement? id k)) ∧
      ∀ c : MapCall, (c.on id).failure? (callAll x id calls).arrays = none ↔
        c.Suits (callAll x id calls).arrays b := by
  obtain ⟨b, hkind, howner, hmap⟩ := isMap_callAll hx hf hp calls
  refine ⟨⟨inferInstance, fun m n => Key.same_number, fun s t => Key.same_text,
    Key.not_same_number_text⟩, fun hsize k => ?_, b, hkind, howner, hmap, fun c => ?_⟩
  · rw [Option.eq_none_iff_forall_ne_some]
    intro e he
    obtain ⟨l, -, hl⟩ := ((hx.isMap hf hp).mem k e).1 he
    have hnil : a.entries = [] :=
      List.eq_nil_of_length_eq_zero (a.storage.length_entries.trans hsize)
    rw [hnil] at hl
    cases hl
  · obtain ⟨entries, he, -, -⟩ := (hx.callAll id calls).sorted hmap.array hmap.isPacked
    exact failure?_mapCall hmap.array he c

def numbered : List Event := [.arrays (.create .number false 1)]

/-- both zeros, a key that the map does not have, and a key that it cannot have -/
def zeros : List MapCall :=
  [.set (.number ⟨0⟩) (.string "a"), .set (.number ⟨0x8000000000000000⟩) (.string "b"),
    .erase (.number ⟨0x7FF8000000000000⟩), .set (.text "0") .invalid]

theorem map_calls_zeros : ∃ a b, (run .standard numbered).arrays.find? 1 = some a ∧
    a.isPacked = false ∧
    (IsMap (callAll (run .standard numbered) 1 zeros).arrays 1 b fun k =>
      ((carriedOut 1 (run .standard numbered) zeros).findSome? (·.leaves k)).getD none) ∧
    ∀ c : MapCall, (c.on 1).failure? (callAll (run .standard numbered) 1 zeros).arrays = none ↔
      c.Suits (callAll (run .standard numbered) 1 zeros).arrays b := by
  have hsome : ((run .standard numbered).arrays.find? 1).isSome := by decide +kernel
  obtain ⟨a, ha⟩ := Option.isSome_iff_exists.1 hsome
  have hmaps : ∀ p ∈ (run .standard numbered).arrays.toList,
      p.2.isPacked = false ∧ p.2.size = 0 := by decide +kernel
  obtain ⟨hp, hsize⟩ := hmaps _ (HandleTable.handleOf_mem_toList.2 ha)
  obtain ⟨-, hempty, b, -, -, hb, hsuits⟩ := map_calls (reachable_run .standard numbered) ha hp zeros
  simp only [hempty hsize] at hb
  exact ⟨a, b, ha, hp, hb, hsuits⟩

end Session

end ScriptVars
