import Mathlib.Data.List.Perm.Basic
import ScriptVars.ArrayStore.Create
import ScriptVars.ArrayStore.Edit

/-!
# What a change of storage gives and takes

Every operation on a storage puts some elements in and takes some out.  It returns the ones that
it takes out, and it loses and doubles none.

* `Storage.Exchanges`     the elements before with the new ones are those after with the old ones;
* `exchanges_write`, …    one lemma for each operation;
* `mem_of_range`, …       what is copied out of a storage was in it.
-/

namespace ScriptVars

/-! ## Ascending lists -/

namespace Ascending

variable {κ υ : Type} {cmp : κ → κ → Ordering}

theorem perm_insert (k : κ) (v : υ) (l : List (κ × υ)) :
    (v :: l.map Prod.snd).Perm ((find? cmp k l).toList ++ (insert cmp k v l).map Prod.snd) := by
  induction l with
  | nil => exact .refl _
  | cons p rest ih =>
    obtain ⟨k₀, v₀⟩ := p
    rw [find?, insert]
    cases cmp k k₀ with
    | lt => exact .refl _
    | eq => exact .swap v₀ v _
    | gt =>
      show (v :: v₀ :: rest.map Prod.snd).Perm
        ((find? cmp k rest).toList ++ v₀ :: (insert cmp k v rest).map Prod.snd)
      refine (List.Perm.swap v₀ v _).trans ?_
      exact (ih.cons v₀).trans List.perm_middle.symm

theorem perm_erase (k : κ) (l : List (κ × υ)) :
    (l.map Prod.snd).Perm ((find? cmp k l).toList ++ (erase cmp k l).map Prod.snd) := by
  induction l with
  | nil => exact .refl _
  | cons p rest ih =>
    obtain ⟨k₀, v₀⟩ := p
    rw [find?, erase]
    cases cmp k k₀ with
    | lt => exact .refl _
    | eq => exact .refl _
    | gt =>
      show (v₀ :: rest.map Prod.snd).Perm
        ((find? cmp k rest).toList ++ v₀ :: (erase cmp k rest).map Prod.snd)
      exact (ih.cons v₀).trans List.perm_middle.symm

end Ascending

/-! ## Storages -/

namespace Storage

/-- with `new` put in and `gone` taken out, one storage has the elements of another -/
def Exchanges (before after : Storage) (new gone : List Element) : Prop :=
  (new ++ before.values).Perm (gone ++ after.values)

variable {s t : Storage}

theorem exchanges_write {k : Key} {e : Element} {old : Option Element}
    (h : s.write k e = .ok (t, old)) : s.Exchanges t [e] old.toList := by
  unfold write at h
  obtain ⟨_, _, h⟩ := Failure.bind_eq_ok.1 h
  obtain ⟨_, _, h⟩ := Failure.bind_eq_ok.1 h
  cases s with
  | packed values =>
    obtain ⟨i, _, h⟩ := Failure.bind_eq_ok.1 h
    split at h
    · next hi =>
      cases h
      show (e :: values).Perm (values[i]?.toList ++ values.set i e)
      rw [List.getElem?_eq_getElem hi]
      show (e :: values).Perm (values[i] :: values.set i e)
      have hold : (e :: values).Perm (e :: values[i] :: values.eraseIdx i) :=
        (List.getElem_cons_eraseIdx_perm hi).symm.cons e
      have hnew : (values[i] :: values.set i e).Perm (values[i] :: e :: values.eraseIdx i) :=
        (List.set_perm_cons_eraseIdx hi e).cons values[i]
      exact (hold.trans (.swap _ _ _)).trans hnew.symm
    · cases h
      show (e :: values).Perm (values ++ [e])
      exact (List.perm_append_singleton e values).symm
  | sorted entries =>
    cases h
    exact Ascending.perm_insert k e entries

theorem exchanges_erase {k : Key} {old : Option Element} (h : s.erase k = .ok (t, old)) :
    s.Exchanges t [] old.toList := by
  unfold erase at h
  cases s with
  | packed values =>
    obtain ⟨i, _, h⟩ := Failure.bind_eq_ok.1 h
    split at h
    · cases h
    · next hge =>
      cases h
      have hi : i < values.length := by omega
      show values.Perm (values[i]?.toList ++ values.eraseIdx i)
      rw [List.getElem?_eq_getElem hi]
      exact (List.getElem_cons_eraseIdx_perm hi).symm
  | sorted entries =>
    cases h
    exact Ascending.perm_erase k entries

theorem exchanges_eraseWithin {lo hi : Key} {removed : List Element}
    (h : s.eraseWithin lo hi = .ok (t, removed)) : s.Exchanges t [] removed := by
  cases s with
  | packed values =>
    unfold eraseWithin eraseRange at h
    obtain ⟨first, _, h⟩ := Failure.bind_eq_ok.1 h
    obtain ⟨last, _, h⟩ := Failure.bind_eq_ok.1 h
    dsimp only at h
    split at h
    · cases h
    · split at h
      · cases h
      · next hle =>
        cases h
        show values.Perm ((values.take (last + 1)).drop first ++
          (values.take first ++ values.drop (last + 1)))
        have hcut : values.take (last + 1) =
            values.take first ++ (values.take (last + 1)).drop first := by
          conv_lhs => rw [← List.take_append_drop first (values.take (last + 1))]
          rw [List.take_take, Nat.min_eq_left (by omega)]
        have hall : values = values.take first ++ (values.take (last + 1)).drop first ++
            values.drop (last + 1) := by
          rw [← hcut, List.take_append_drop]
        refine (List.Perm.of_eq hall).trans ?_
        rw [List.append_assoc]
        exact List.perm_append_comm_assoc _ _ _
  | sorted entries =>
    cases h
    show (entries.map Prod.snd).Perm ((entries.filter _).map Prod.snd ++
      (entries.filter _).map Prod.snd)
    rw [← List.map_append]
    exact (List.filter_append_perm _ entries).symm.map Prod.snd

theorem exchanges_insert {i : Nat} {new : List Element} (h : s.insert i new = .ok t) :
    s.Exchanges t new [] := by
  cases s with
  | packed values =>
    unfold insert at h
    dsimp only at h
    split at h
    · cases h
    · obtain ⟨_, _, h⟩ := Failure.bind_eq_ok.1 h
      cases h
      show (new ++ values).Perm (values.take i ++ new ++ values.drop i)
      rw [List.append_assoc]
      refine List.Perm.trans ?_ (List.perm_append_comm_assoc new (values.take i) (values.drop i))
      rw [List.take_append_drop]
  | sorted entries => cases h

/-- either something is put in or something is taken out, but not both -/
theorem exchanges_resize {n : Nat} {pad : Element} {removed : List Element}
    (h : s.resize n pad = .ok (t, removed)) :
    s.Exchanges t (List.replicate (n - s.size) pad) removed ∧
      (n < s.size ∨ removed = []) := by
  cases s with
  | packed values =>
    unfold resize at h
    dsimp only at h
    split at h
    · next hlt =>
      cases h
      have hz : n - values.length = 0 := by omega
      refine ⟨?_, .inl hlt⟩
      show (List.replicate (n - values.length) pad ++ values).Perm (values.drop n ++ values.take n)
      rw [hz, List.replicate_zero, List.nil_append]
      conv_lhs => rw [← List.take_append_drop n values]
      exact List.perm_append_comm
    · obtain ⟨_, _, h⟩ := Failure.bind_eq_ok.1 h
      cases h
      exact ⟨List.perm_append_comm, .inr rfl⟩
  | sorted entries => cases h

theorem exchanges_clear (s : Storage) : s.Exchanges s.clear [] s.values := by
  cases s with
  | packed values =>
    show values.Perm (values ++ [])
    rw [List.append_nil]
  | sorted entries =>
    show (entries.map Prod.snd).Perm (entries.map Prod.snd ++ [])
    rw [List.append_nil]

/-! ### copies -/

theorem mem_of_range {lo hi : Key} {l : List (Key × Element)} (h : s.range lo hi = .ok l) :
    ∀ e ∈ l.map Prod.snd, e ∈ s.values := by
  cases s with
  | packed values =>
    unfold range at h
    obtain ⟨first, _, h⟩ := Failure.bind_eq_ok.1 h
    obtain ⟨stop, _, h⟩ := Failure.bind_eq_ok.1 h
    split at h
    · cases h
    · cases h
      rw [map_snd_indexed]
      intro e he
      exact List.mem_of_mem_take (List.mem_of_mem_drop he)
  | sorted entries =>
    cases h
    intro e he
    obtain ⟨p, hp, rfl⟩ := List.mem_map.1 he
    exact List.mem_map_of_mem (List.mem_of_mem_filter hp)

/-! ### positions -/

theorem checkPositions_packed_eq_ok {values : List Element} :
    (packed values).checkPositions = .ok () ↔ values.length ≤ Key.greatestIndex + 1 := by
  rw [checkPositions]
  split
  · next h => exact iff_of_true rfl h
  · next h => exact iff_of_false nofun h

/-- where all values have positions, all can be put in -/
theorem fillable_eq {s : Storage} (h : s.checkPositions = .ok ()) : s.fillable = s := by
  cases s with
  | packed values =>
    have hlength := checkPositions_packed_eq_ok.1 h
    rw [fillable, List.take_of_length_le (by omega)]
  | sorted entries => rfl

end Storage

theorem ArrayKind.values_storageOf (kind : ArrayKind) (entries : List (Key × Element)) :
    (kind.storageOf entries).values = entries.map Prod.snd := by
  rw [storageOf]
  split <;> rfl

/-! ## Arrays -/

namespace ArrayVar

variable {a b : ArrayVar}

theorem set_eq_ok {k : Key} {e : Element} {old : Option Element}
    (h : a.set k e = .ok (b, old)) :
    k.keyType = a.keyType ∧
      ∃ storage, a.storage.write k e = .ok (storage, old) ∧ b = { a with storage } := by
  obtain ⟨_, hk, h⟩ := Failure.bind_eq_ok.1 h
  obtain ⟨⟨storage, replaced⟩, hw, h⟩ := Failure.bind_eq_ok.1 h
  cases h
  refine ⟨?_, storage, hw, rfl⟩
  by_cases hc : k.keyType = a.keyType
  · exact hc
  · rw [checkKey, if_neg hc] at hk
    cases hk

theorem erase_eq_ok {k : Key} {old : Option Element} (h : a.erase k = .ok (b, old)) :
    ∃ storage, a.storage.Exchanges storage [] old.toList ∧ b = { a with storage } := by
  unfold erase at h
  split at h
  · cases h
    exact ⟨_, .refl _, rfl⟩
  · obtain ⟨_, _, h⟩ := Failure.bind_eq_ok.1 h
    obtain ⟨⟨storage, removed⟩, he, h⟩ := Failure.bind_eq_ok.1 h
    cases h
    exact ⟨storage, Storage.exchanges_erase he, rfl⟩

/-- an array that pairs are put into has its old elements and theirs, or some of them -/
theorem setAll_eq_ok {pairs : List (Key × Element)} (h : a.setAll pairs = .ok b) :
    (∃ storage, b = { a with storage }) ∧
      ∀ e ∈ b.values, e ∈ a.values ∨ e ∈ pairs.map Prod.snd := by
  induction pairs generalizing a with
  | nil =>
    cases h
    exact ⟨⟨_, rfl⟩, fun e he => .inl he⟩
  | cons p pairs ih =>
    obtain ⟨k, x⟩ := p
    obtain ⟨⟨c, old⟩, hs, h⟩ := Failure.bind_eq_ok.1 h
    obtain ⟨-, storage, hw, rfl⟩ := set_eq_ok hs
    obtain ⟨⟨storage', rfl⟩, hmem⟩ := ih h
    refine ⟨⟨storage', rfl⟩, fun e he => ?_⟩
    rcases hmem e he with he | he
    · have hp : e ∈ [x] ++ a.storage.values :=
        (Storage.exchanges_write hw).mem_iff.2 (List.mem_append_right _ he)
      rcases List.mem_cons.1 hp with rfl | he
      · exact .inr List.mem_cons_self
      · exact .inl he
    · exact .inr (List.mem_cons_of_mem _ he)

theorem ofValues_eq_ok {values : List Element} {owner : UInt8}
    (h : ofValues values owner = .ok a) : a = ⟨.array, owner, [], .packed values⟩ := by
  obtain ⟨_, _, h⟩ := Failure.bind_eq_ok.1 h
  obtain ⟨_, _, h⟩ := Failure.bind_eq_ok.1 h
  cases h
  rfl

theorem make_eq_ok {keyType : KeyType} {packed : Bool} {owner : UInt8}
    (h : make keyType packed owner = .ok a) : ∃ kind, a = empty kind owner [] := by
  unfold make at h
  split at h
  · next kind _ =>
    cases h
    exact ⟨kind, rfl⟩
  · cases h

theorem values_empty (kind : ArrayKind) (owner : UInt8) (refs : List UInt8) :
    (empty kind owner refs).values = [] := by
  cases kind <;> rfl

theorem ofPairs_eq_ok {pairs : List (Key × Element)} {owner : UInt8}
    (h : ofPairs pairs owner = .ok a) :
    a.owner = owner ∧ a.refs = [] ∧ ∀ e ∈ a.values, e ∈ pairs.map Prod.snd := by
  obtain ⟨made, hm, h⟩ := Failure.bind_eq_ok.1 h
  obtain ⟨kind, rfl⟩ := make_eq_ok hm
  obtain ⟨⟨storage, rfl⟩, hmem⟩ := setAll_eq_ok h
  refine ⟨rfl, rfl, fun e he => (hmem e he).resolve_left fun hn => ?_⟩
  rw [values_empty] at hn
  cases hn

end ArrayVar
end ScriptVars
