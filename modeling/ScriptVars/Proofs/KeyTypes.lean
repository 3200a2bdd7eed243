import ScriptVars.Proofs.DroppedCopies
import ScriptVars.Proofs.Positions
import ScriptVars.Proofs.SingleChanges

/-!
# Keys of another type

An array has keys of one type, and so has every key in it.  A question about a key of another type
is answered as if nothing stood there, and an edit under such a key is refused.  One edit has an
exception: from an array without elements a key of any type is taken out as one that is not there.
Taking out a range of keys has no such exception.

* `ArrayStore.Absent`                        nothing is found under a key;
* `ArrayStore.absent_of_ne`                  questions about keys of another type;
* `setElement_of_ne`, `eraseElement_of_ne`, `eraseElements_of_ne`   edits under them;
* `Session.keys_typed`                       no keys of another type are let in;
* `Session.not_eraseElements_empty`          a range of them, where there is nothing to take out.
-/

namespace ScriptVars

open ScriptVars.Action

theorem Storage.keyType_of_mem_indexed {p : Key × Element} {i : Nat} {values : List Element}
    (hp : p ∈ indexed i values) : p.1.keyType = .number := by
  obtain ⟨q, -, rfl⟩ := List.mem_map.1 hp
  rfl

namespace ArrayStore

variable {s : ArrayStore} {id : UInt32} {a : ArrayVar} {k : Key}

/-! ## Questions -/

/-- nothing that can be asked about a key of an array finds anything -/
structure Absent (s : ArrayStore) (id : UInt32) (k : Key) : Prop where
  element : s.getElement? id k = none
  number : s.getNumber? id k = none
  string : s.getString? id k = none
  form : s.getForm? id k = none
  array : s.getArray? id k = none
  bool : s.getBool? id k = none
  hasKey : s.hasKey id k = false
  next : s.nextKey? id k = none
  prev : s.prevKey? id k = none

/-- the typed questions, and the one for a key, look for the element first -/
theorem absent_of_getElement? (he : s.getElement? id k = none) (hn : s.nextKey? id k = none)
    (hp : s.prevKey? id k = none) : s.Absent id k where
  element := he
  number := by rw [getNumber?, he, Option.bind_none]
  string := by rw [getString?, he, Option.bind_none]
  form := by rw [getForm?, he, Option.bind_none]
  array := by rw [getArray?, he, Option.bind_none]
  bool := by rw [getBool?, he, Option.map_none]
  hasKey := by rw [ArrayStore.hasKey, he, Option.isSome_none]
  next := hn
  prev := hp

section
variable (hf : s.find? id = some a) (hk : k.keyType ≠ a.keyType)
include hf hk

theorem absent_of_ne : s.Absent id k := by
  apply absent_of_getElement?
  · rw [getElement?, hf]
    show a.get? k = none
    rw [ArrayVar.get?, if_neg hk]
  · rw [nextKey?, hf]
    exact if_neg hk
  · rw [prevKey?, hf]
    exact if_neg hk

/-! ## Edits -/

/-- what cannot be stored at all is refused first -/
theorem setElement_of_ne (e : Element) : setElement id k e s =
    match s.missing? e with
    | some f => .error f s
    | none => .error (.keyMismatch a.keyType k.keyType) s := by
  have hset : a.set k e = .error (.keyMismatch a.keyType k.keyType) := by
    rw [ArrayVar.set, ArrayVar.checkKey, if_neg hk]
    rfl
  cases hmissing : s.missing? e with
  | none => simp only [setElement_of_find? hf, hmissing, hset]
  | some f => simp only [setElement_of_find? hf, hmissing]

theorem eraseElement_of_ne : eraseElement id k s =
    if a.size = 0 then .ok false (s.exchange id a a.storage [] [])
    else .error (.keyMismatch a.keyType k.keyType) s := by
  rw [eraseElement_of_find? hf, ArrayVar.erase_of_ne hk, ArrayVar.isEmpty]
  by_cases hz : a.size = 0
  · rw [if_pos hz, if_pos (decide_eq_true hz)]
    rfl
  · rw [if_neg hz, if_neg (by rw [decide_eq_true_eq]; exact hz)]

/-- bounds are looked at in turn, whatever there is between them -/
theorem eraseElements_of_ne (lo hi : Key) (h : lo = k ∨ lo.keyType = a.keyType ∧ hi = k) :
    eraseElements id lo hi s = .error (.keyMismatch a.keyType k.keyType) s := by
  have hcheck : a.checkKey k = .error (.keyMismatch a.keyType k.keyType) := if_neg hk
  rw [eraseElements, bind_lookup hf, bind_demand]
  rcases h with rfl | ⟨hlo, rfl⟩
  · rw [hcheck]
  · rw [ArrayVar.checkKey_of_keyType hlo]
    show (demand (a.checkKey hi) >>= _) s = _
    rw [bind_demand, hcheck]

end

/-- an exchange of nothing for nothing changes no array -/
theorem find?_exchange_nil (hf : s.find? id = some a) (i : UInt32) :
    (s.exchange id a a.storage [] []).find? i = s.find? i := by
  have hnamed : ∀ h, (named []).count h = 0 := fun h => rfl
  rw [find?_exchange hf, hnamed]
  have hadd : ∀ o : Option ArrayVar,
      (o.map (·.addRefs 0 a.owner)).map (·.removeRefs 0 a.owner) = o := by
    intro o
    cases o with
    | none => rfl
    | some b => simp [ArrayVar.addRefs_zero, ArrayVar.removeRefs_zero]
  rw [hadd]
  split
  · next h =>
    rw [← s.find?_congr h, hf]
  · rfl

end ArrayStore

namespace Session

open ArrayStore

variable {x : Session} {id : UInt32} {a : ArrayVar}

theorem Reachable.keyType_of_mem (hx : x.Reachable) (hf : x.arrays.find? id = some a)
    {p : Key × Element} (hp : p ∈ a.entries) : p.1.keyType = a.keyType := by
  cases hpacked : a.isPacked with
  | true =>
    rw [ArrayVar.entries_of_packed (hx.packed hf hpacked)] at hp
    rw [Storage.keyType_of_mem_indexed hp]
    exact (ArrayKind.keyType_of_isPacked hpacked).symm
  | false =>
    obtain ⟨entries, he, -, htypes⟩ := hx.sorted hf hpacked
    rw [ArrayVar.entries_of_sorted he] at hp
    exact htypes p hp

/-- what is left when a key of another type is taken out of an array without elements -/
theorem same_exchange_nil (hx : x.Reachable) (hf : x.arrays.find? id = some a) {k : Key}
    {found : Bool}
    (h : eraseElement id k x.arrays = .ok found (x.arrays.exchange id a a.storage [] [])) :
    ArrayStore.Same x.arrays (x.arrays.exchange id a a.storage [] []) := by
  have hafter := noneReserved_apply hx.noneReserved (.eraseElement id k)
  rw [Call.apply, after, h] at hafter
  refine same_of_find? hx.noneReserved hafter fun i => ?_
  exact ⟨find?_exchange_nil hf i, (becomes_exchange hf a.storage [] []).temporary i⟩

/-- The keys of an array have the type that the array uses.  Under a key of another type nothing is
found, nothing is put, and nothing is taken out: that is refused where there are elements, and
answered where there are none.  A range with a bound of another type is refused in either case. -/
theorem keys_typed (hx : x.Reachable) (hf : x.arrays.find? id = some a) :
    (∀ p ∈ a.entries, p.1.keyType = a.keyType) ∧
    ∀ k : Key, k.keyType ≠ a.keyType →
      x.arrays.Absent id k ∧
      (∀ e, x.arrays.accepts e = true →
        setElement id k e x.arrays = .error (.keyMismatch a.keyType k.keyType) x.arrays) ∧
      (a.size ≠ 0 →
        eraseElement id k x.arrays = .error (.keyMismatch a.keyType k.keyType) x.arrays) ∧
      (a.size = 0 →
        ∃ t, eraseElement id k x.arrays = .ok false t ∧ ArrayStore.Same x.arrays t) ∧
      ∀ lo hi, lo = k ∨ lo.keyType = a.keyType ∧ hi = k →
        eraseElements id lo hi x.arrays = .error (.keyMismatch a.keyType k.keyType) x.arrays := by
  refine ⟨fun p hp => hx.keyType_of_mem hf hp, fun k hk => ⟨absent_of_ne hf hk, ?_, ?_, ?_,
    eraseElements_of_ne hf hk⟩⟩
  · intro e he
    rw [setElement_of_ne hf hk, missing?_eq_none.2 he]
  · intro hsize
    rw [eraseElement_of_ne hf hk, if_neg hsize]
  · intro hsize
    have herase := eraseElement_of_ne hf hk
    rw [if_pos hsize] at herase
    exact ⟨_, herase, same_exchange_nil hx hf herase⟩

/-- an empty map with text keys, and a list -/
def mixedKeys : List Event :=
  [.arrays (.create .text false 1), .arrays (.createList [.number (.ofNat 4), .string "x"] 2)]

theorem keys_typed_mixed : ∃ a b, (run .standard mixedKeys).arrays.find? 1 = some a ∧
    (run .standard mixedKeys).arrays.find? 2 = some b ∧
    (∃ t, eraseElement 1 (.number ⟨0⟩) (run .standard mixedKeys).arrays = .ok false t ∧
      ArrayStore.Same (run .standard mixedKeys).arrays t) ∧
    eraseElement 2 (.text "x") (run .standard mixedKeys).arrays =
      .error (.keyMismatch b.keyType .text) (run .standard mixedKeys).arrays ∧
    (run .standard mixedKeys).arrays.Absent 2 (.text "x") := by
  have hreach := reachable_run .standard mixedKeys
  have hsome : ((run .standard mixedKeys).arrays.find? 1).isSome ∧
      ((run .standard mixedKeys).arrays.find? 2).isSome := by decide +kernel
  obtain ⟨a, ha⟩ := Option.isSome_iff_exists.1 hsome.1
  obtain ⟨b, hb⟩ := Option.isSome_iff_exists.1 hsome.2
  have hall : ∀ p ∈ (run .standard mixedKeys).arrays.toList,
      (p.1 = 1 → p.2.size = 0 ∧ p.2.keyType = .text) ∧
        (p.1 = 2 → p.2.size ≠ 0 ∧ p.2.keyType = .number) := by decide +kernel
  obtain ⟨hsize, htype⟩ := (hall _ (HandleTable.handleOf_mem_toList.2 ha)).1 rfl
  obtain ⟨hsize', htype'⟩ := (hall _ (HandleTable.handleOf_mem_toList.2 hb)).2 rfl
  obtain ⟨-, hempty⟩ := keys_typed hreach ha
  obtain ⟨-, hlist⟩ := keys_typed hreach hb
  obtain ⟨-, -, -, hnone, -⟩ := hempty (.number ⟨0⟩) (by rw [htype]; decide)
  obtain ⟨habsent, -, hrefused, -⟩ := hlist (.text "x") (by rw [htype']; decide)
  exact ⟨a, b, ha, hb, hnone hsize, hrefused hsize', habsent⟩

/-- a range of number keys is refused by a map with text keys that has none -/
theorem not_eraseElements_empty :
    ¬ ∀ (events : List Event) (id : UInt32) (a : ArrayVar) (lo hi : Key),
      (run .standard events).arrays.find? id = some a → a.size = 0 →
      lo.keyType ≠ a.keyType → hi.keyType ≠ a.keyType →
      ∃ t, eraseElements id lo hi (run .standard events).arrays = .ok 0 t := by
  intro herase
  have hsome : ((run .standard mixedKeys).arrays.find? 1).isSome := by decide +kernel
  obtain ⟨a, ha⟩ := Option.isSome_iff_exists.1 hsome
  have hall : ∀ p ∈ (run .standard mixedKeys).arrays.toList,
      p.1 = 1 → p.2.size = 0 ∧ p.2.keyType = .text := by decide +kernel
  obtain ⟨hsize, htype⟩ := hall _ (HandleTable.handleOf_mem_toList.2 ha) rfl
  have hne : (Key.number ⟨0⟩).keyType ≠ a.keyType := by
    rw [htype]
    decide
  obtain ⟨t, ht⟩ := herase mixedKeys 1 a (.number ⟨0⟩) (.number ⟨0⟩) ha hsize hne hne
  rw [eraseElements_of_ne ha hne _ _ (.inl rfl)] at ht
  cases ht

end Session

end ScriptVars
