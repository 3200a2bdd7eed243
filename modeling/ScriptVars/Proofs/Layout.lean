import ScriptVars.Proofs.DeepCopy
import ScriptVars.Save.Read

/-!
# Layouts

The layout of an array is the one of its kind: a list if it is packed, and otherwise keys of the
right type in ascending order.  Nothing that changes an array breaks this.

* `Key.compare` is an order;
* `Key.fold`                          a key without the sign of a zero;
* `Ascending.isAscending_insert`, …   what keeps a list in order;
* `Storage.Fits`                      the layout of a kind;
* `Storage.Fits.write`, …             operations on storages;
* `ArrayVar.Fits`                     the same for arrays.
-/

namespace ScriptVars

/-! ## The order of keys -/

instance : Std.TransCmp Key.compare where
  eq_swap {k l} := by
    cases k <;> cases l
    · exact Std.OrientedOrd.eq_swap (α := Int)
    · rfl
    · rfl
    · exact Std.OrientedOrd.eq_swap (α := String)
  isLE_trans {k l m} h₁ h₂ := by
    cases k <;> cases l <;> cases m <;> try trivial
    · exact Std.TransOrd.isLE_trans (α := Int) h₁ h₂
    · exact Std.TransOrd.isLE_trans (α := String) h₁ h₂

theorem Number.foldZero_foldZero (x : Number) : x.foldZero.foldZero = x.foldZero := by
  rw [foldZero]
  split
  · next h =>
    rw [foldZero] at h ⊢
    split
    · rfl
    · next hx =>
      rw [if_neg hx] at h
      exact absurd h hx
  · rfl

/-- a number key without the sign of a zero -/
def Key.fold : Key → Key
  | number x => ofNumber x
  | text s => text s

/-- the sign of a zero does not matter to the order -/
theorem Key.compare_fold (k l : Key) : k.fold.compare l.fold = k.compare l := by
  cases k <;> cases l
  · show Number.totalCompare _ _ = Number.totalCompare _ _
    rw [Number.foldZero_foldZero, Number.foldZero_foldZero]
  · rfl
  · rfl
  · rfl

/-! ## Lists in order -/

namespace Ascending

variable {κ υ : Type} {cmp : κ → κ → Ordering} {k : κ} {v : υ} {l : List (κ × υ)} {p : κ × υ}

/-- the keys of an insertion are the old ones and the new one -/
theorem key_of_mem_insert (h : p ∈ insert cmp k v l) : p.1 = k ∨ ∃ q ∈ l, q.1 = p.1 := by
  induction l with
  | nil =>
    rw [insert, List.mem_singleton] at h
    exact .inl (h ▸ rfl)
  | cons q rest ih =>
    rw [insert] at h
    have hold : p ∈ rest → p.1 = k ∨ ∃ r ∈ q :: rest, r.1 = p.1 := fun hp =>
      .inr ⟨p, List.mem_cons_of_mem _ hp, rfl⟩
    split at h
    · rcases List.mem_cons.1 h with rfl | h
      · exact .inl rfl
      · exact .inr ⟨p, h, rfl⟩
    · rcases List.mem_cons.1 h with rfl | h
      · exact .inr ⟨q, List.mem_cons_self, rfl⟩
      · exact hold h
    · rcases List.mem_cons.1 h with rfl | h
      · exact .inr ⟨q, List.mem_cons_self, rfl⟩
      · rcases ih h with h | ⟨r, hr, e⟩
        · exact .inl h
        · exact .inr ⟨r, List.mem_cons_of_mem _ hr, e⟩

theorem isAscending_insert [Std.TransCmp cmp] (h : IsAscending cmp l) :
    IsAscending cmp (insert cmp k v l) := by
  induction l with
  | nil => exact List.pairwise_singleton _ _
  | cons q rest ih =>
    obtain ⟨hq, hrest⟩ := List.pairwise_cons.1 h
    rw [insert]
    split
    · next hlt =>
      refine List.pairwise_cons.2 ⟨fun r hr => ?_, h⟩
      rcases List.mem_cons.1 hr with rfl | hr
      · exact hlt
      · exact Std.TransCmp.lt_trans hlt (hq r hr)
    · exact List.pairwise_cons.2 ⟨hq, hrest⟩
    · next hgt =>
      refine List.pairwise_cons.2 ⟨fun r hr => ?_, ih hrest⟩
      rcases key_of_mem_insert hr with e | ⟨r', hr', e⟩
      · show cmp q.1 r.1 = .lt
        rw [e]
        exact Std.OrientedCmp.lt_of_gt hgt
      · show cmp q.1 r.1 = .lt
        rw [← e]
        exact hq r' hr'

theorem sublist_erase (k : κ) (l : List (κ × υ)) : (erase cmp k l).Sublist l := by
  induction l with
  | nil => exact .slnil
  | cons q rest ih =>
    rw [erase]
    split
    · exact .refl _
    · exact List.sublist_cons_self _ _
    · exact ih.cons_cons _

/-- a key behind all others goes to the end -/
theorem insert_of_last [Std.OrientedCmp cmp] (h : ∀ q ∈ l, cmp q.1 k = .lt) :
    insert cmp k v l = l ++ [(k, v)] := by
  induction l with
  | nil => rfl
  | cons q rest ih =>
    have hgt : cmp k q.1 = .gt := Std.OrientedCmp.gt_of_lt (h q List.mem_cons_self)
    rw [insert, hgt, List.cons_append, ih fun r hr => h r (List.mem_cons_of_mem _ hr)]

/-- a list in order is the same when it is put together anew -/
theorem foldl_insert [Std.OrientedCmp cmp] (done : List (κ × υ)) (h : IsAscending cmp (done ++ l)) :
    l.foldl (fun m p => insert cmp p.1 p.2 m) done = done ++ l := by
  induction l generalizing done with
  | nil => rw [List.foldl_nil, List.append_nil]
  | cons p rest ih =>
    obtain ⟨-, -, hlast⟩ := List.pairwise_append.1 h
    have hinsert : insert cmp p.1 p.2 done = done ++ [p] :=
      insert_of_last fun q hq => hlast q hq p List.mem_cons_self
    rw [List.append_cons] at h ⊢
    rw [List.foldl_cons, hinsert, ih _ h]

end Ascending

/-! ## Storages -/

namespace Storage

variable {kind : ArrayKind} {s t : Storage}

def Fits (kind : ArrayKind) : Storage → Prop
  | packed _ => kind.isPacked = true
  | sorted entries => kind.isPacked = false ∧ Ascending.IsAscending Key.compare entries ∧
      ∀ p ∈ entries, p.1.keyType = kind.keyType

theorem fits_emptyStorage (kind : ArrayKind) : kind.emptyStorage.Fits kind := by
  rw [ArrayKind.emptyStorage]
  split
  · next h => exact h
  · next h => exact ⟨Bool.eq_false_iff.2 h, .nil, nofun⟩

/-- keys of the right type in order, put into the layout of the kind -/
theorem fits_storageOf {entries : List (Key × Element)}
    (ha : kind.isPacked = false → Ascending.IsAscending Key.compare entries)
    (hk : kind.isPacked = false → ∀ p ∈ entries, p.1.keyType = kind.keyType) :
    (kind.storageOf entries).Fits kind := by
  rw [ArrayKind.storageOf]
  split
  · next h => exact h
  · next h =>
    have h := Bool.eq_false_iff.2 h
    exact ⟨h, ha h, hk h⟩

theorem Fits.write (h : s.Fits kind) {k : Key} {e : Element} {old : Option Element}
    (hk : k.keyType = kind.keyType) (hw : s.write k e = .ok (t, old)) : t.Fits kind := by
  unfold Storage.write at hw
  obtain ⟨_, _, hw⟩ := Failure.bind_eq_ok.1 hw
  obtain ⟨_, _, hw⟩ := Failure.bind_eq_ok.1 hw
  cases s with
  | packed values =>
    obtain ⟨i, _, hw⟩ := Failure.bind_eq_ok.1 hw
    split at hw <;> cases hw <;> exact h
  | sorted entries =>
    cases hw
    obtain ⟨hp, ha, ht⟩ := h
    refine ⟨hp, Ascending.isAscending_insert ha, fun p hp => ?_⟩
    rcases Ascending.key_of_mem_insert hp with e | ⟨q, hq, e⟩
    · rw [e, hk]
    · rw [← e, ht q hq]

/-- the layout stays when entries are taken out -/
theorem Fits.sublist {entries entries' : List (Key × Element)} (h : (sorted entries).Fits kind)
    (hs : entries'.Sublist entries) : (sorted entries').Fits kind :=
  ⟨h.1, h.2.1.sublist hs, fun p hp => h.2.2 p (hs.subset hp)⟩

theorem Fits.erase (h : s.Fits kind) {k : Key} {old : Option Element}
    (he : s.erase k = .ok (t, old)) : t.Fits kind := by
  unfold Storage.erase at he
  cases s with
  | packed values =>
    obtain ⟨i, _, he⟩ := Failure.bind_eq_ok.1 he
    split at he <;> cases he
    exact h
  | sorted entries =>
    cases he
    exact h.sublist (Ascending.sublist_erase _ _)

theorem Fits.eraseWithin (h : s.Fits kind) {lo hi : Key} {removed : List Element}
    (he : s.eraseWithin lo hi = .ok (t, removed)) : t.Fits kind := by
  cases s with
  | packed values =>
    unfold Storage.eraseWithin eraseRange at he
    obtain ⟨first, _, he⟩ := Failure.bind_eq_ok.1 he
    obtain ⟨last, _, he⟩ := Failure.bind_eq_ok.1 he
    dsimp only at he
    split at he
    · cases he
    · split at he <;> cases he
      exact h
  | sorted entries =>
    cases he
    exact h.sublist List.filter_sublist

theorem Fits.insert (h : s.Fits kind) {i : Nat} {new : List Element}
    (hi : s.insert i new = .ok t) : t.Fits kind := by
  cases s with
  | packed values =>
    unfold Storage.insert at hi
    dsimp only at hi
    split at hi
    · cases hi
    · obtain ⟨_, _, hi⟩ := Failure.bind_eq_ok.1 hi
      cases hi
      exact h
  | sorted entries => cases hi

theorem Fits.resize (h : s.Fits kind) {n : Nat} {pad : Element} {removed : List Element}
    (hr : s.resize n pad = .ok (t, removed)) : t.Fits kind := by
  cases s with
  | packed values =>
    unfold Storage.resize at hr
    dsimp only at hr
    split at hr
    · cases hr
      exact h
    · obtain ⟨_, _, hr⟩ := Failure.bind_eq_ok.1 hr
      cases hr
      exact h
  | sorted entries => cases hr

theorem Fits.clear (h : s.Fits kind) : s.clear.Fits kind := by
  cases s with
  | packed values => exact h
  | sorted entries => exact ⟨h.1, .nil, nofun⟩

/-- the layout is a matter of the keys -/
theorem Fits.mapped {R : Element → Element → Prop} (h : s.Fits kind) (hm : s.Mapped R t) :
    t.Fits kind := by
  cases hm with
  | packed _ => exact h
  | @sorted entries entries' hm =>
    obtain ⟨hp, ha, ht⟩ := h
    have hkeys : entries'.map Prod.fst = entries.map Prod.fst := by
      clear ha ht
      induction hm with
      | nil => rfl
      | cons hr _ ih => rw [List.map_cons, List.map_cons, ih, hr.1]
    refine ⟨hp, ?_, fun q hq => ?_⟩
    · have ha' : (entries.map Prod.fst).Pairwise fun k l => k.compare l = .lt :=
        List.pairwise_map.2 ha
      rw [← hkeys] at ha'
      exact List.pairwise_map.1 ha'
    · obtain ⟨p, hp, e, -⟩ := exists_of_mem_right hm hq
      rw [← e]
      exact ht p hp

theorem mapped_mapValues (s : Storage) (f : Element → Element) :
    s.Mapped (fun e e' => e' = f e) (s.mapValues f) := by
  cases s with
  | packed values =>
    refine .packed ?_
    rw [List.forall₂_map_right_iff]
    exact List.forall₂_same.2 fun _ _ => rfl
  | sorted entries =>
    refine .sorted ?_
    rw [List.forall₂_map_right_iff]
    exact List.forall₂_same.2 fun _ _ => ⟨rfl, rfl⟩

theorem Fits.range (h : s.Fits kind) {lo hi : Key} {entries : List (Key × Element)}
    (hr : s.range lo hi = .ok entries) : (kind.storageOf entries).Fits kind := by
  cases s with
  | packed values =>
    have hp : kind.isPacked = true := h
    rw [ArrayKind.storageOf, if_pos hp]
    exact hp
  | sorted entries =>
    cases hr
    obtain ⟨-, ha, ht⟩ := h.sublist (List.filter_sublist (l := entries))
    exact fits_storageOf (fun _ => ha) fun _ => ht

/-- entries from outside, put in one after the other -/
theorem fits_storageFrom {entries : List (Key × Element)}
    (hk : ∀ p ∈ entries, p.1.keyType = kind.keyType) : (kind.storageFrom entries).Fits kind := by
  rw [ArrayKind.storageFrom]
  split
  · next h => exact h
  · next h =>
    have hfold : ∀ (l done : List (Key × Element)), (sorted done).Fits kind →
        (∀ p ∈ l, p.1.keyType = kind.keyType) →
        (sorted (l.foldl (fun m p => Ascending.insert Key.compare p.1 p.2 m) done)).Fits kind := by
      intro l
      induction l with
      | nil => exact fun done hd _ => hd
      | cons p l ih =>
        intro done hd hl
        refine ih _ ⟨hd.1, Ascending.isAscending_insert hd.2.1, fun q hq => ?_⟩ fun q hq =>
          hl q (List.mem_cons_of_mem _ hq)
        rcases Ascending.key_of_mem_insert hq with e | ⟨r, hr, e⟩
        · rw [e, hl p List.mem_cons_self]
        · rw [← e, hd.2.2 r hr]
    exact hfold entries [] ⟨Bool.eq_false_iff.2 h, .nil, nofun⟩ hk

end Storage

/-! ## Arrays -/

namespace ArrayVar

def Fits (a : ArrayVar) : Prop := a.storage.Fits a.kind

end ArrayVar

end ScriptVars
