import ScriptVars.Proofs.Invariants

/-!
# Contents

What is known of every key and every element in a storage, beside its layout.

* `Storage.Holds`                       something of every key, and something of every element;
* `Storage.Holds.mem_entries`           the same of the entries in their order;
* `Storage.holds_storageFrom`           a storage that is read;
* `Storage.Holds.mapValues`             changed elements;
* `Storage.invariant_holds`             what follows from a check holds throughout.
-/

namespace ScriptVars

namespace Storage

variable {K : Key → Prop} {E E' : Element → Prop} {s t : Storage}

/-- the places of a packed array are not its keys -/
def Holds (K : Key → Prop) (E : Element → Prop) : Storage → Prop
  | packed values => ∀ e ∈ values, E e
  | sorted entries => ∀ p ∈ entries, K p.1 ∧ E p.2

theorem Holds.mem_values (h : s.Holds K E) : ∀ e ∈ s.values, E e := by
  cases s with
  | packed values => exact h
  | sorted entries =>
    intro e he
    obtain ⟨p, hp, rfl⟩ := List.mem_map.1 he
    exact (h p hp).2

theorem Holds.mem_entries (h : s.Holds K E) (hi : ∀ i, K (Key.ofIndex i)) :
    ∀ p ∈ s.entries, K p.1 ∧ E p.2 := by
  cases s with
  | packed values =>
    intro p hp
    obtain ⟨q, hq, rfl⟩ := List.mem_map.1 hp
    exact ⟨hi q.2, h q.1 (List.fst_mem_of_mem_zipIdx hq)⟩
  | sorted entries => exact h

theorem holds_insert {entries : List (Key × Element)} {k : Key} {e : Element}
    (h : (sorted entries).Holds K E) (hk : K k) (he : E e) :
    (sorted (Ascending.insert Key.compare k e entries)).Holds K E := by
  intro p hp
  constructor
  · rcases Ascending.key_of_mem_insert hp with hpk | ⟨q, hq, hpk⟩
    · exact hpk ▸ hk
    · exact hpk ▸ (h q hq).1
  · rcases Ascending.mem_insert_value hp with hpe | hm
    · exact hpe ▸ he
    · exact (h p hm).2

theorem holds_storageFrom {kind : ArrayKind} {entries : List (Key × Element)}
    (h : ∀ p ∈ entries, K p.1 ∧ E p.2) : (kind.storageFrom entries).Holds K E := by
  rw [ArrayKind.storageFrom]
  split
  · intro e he
    obtain ⟨p, hp, rfl⟩ := List.mem_map.1 he
    exact (h p hp).2
  · refine List.foldlRecOn entries _ (motive := fun done => (sorted done).Holds K E)
      (List.forall_mem_nil _) fun done hd p hp => ?_
    exact holds_insert hd (h p hp).1 (h p hp).2

theorem holds_emptyStorage (kind : ArrayKind) : kind.emptyStorage.Holds K E := by
  rw [ArrayKind.emptyStorage]
  split
  · exact List.forall_mem_nil _
  · exact List.forall_mem_nil _

theorem Holds.erase (h : s.Holds K E) {k : Key} {old : Option Element}
    (he : s.erase k = .ok (t, old)) : t.Holds K E := by
  unfold Storage.erase at he
  cases s with
  | packed values =>
    obtain ⟨i, _, he⟩ := Failure.bind_eq_ok.1 he
    split at he <;> cases he
    exact fun e hm => h e (List.mem_of_mem_eraseIdx hm)
  | sorted entries =>
    cases he
    exact fun p hp => h p ((Ascending.sublist_erase _ _).subset hp)

theorem Holds.eraseWithin (h : s.Holds K E) {lo hi : Key} {removed : List Element}
    (he : s.eraseWithin lo hi = .ok (t, removed)) : t.Holds K E := by
  cases s with
  | packed values =>
    unfold Storage.eraseWithin eraseRange at he
    obtain ⟨first, _, he⟩ := Failure.bind_eq_ok.1 he
    obtain ⟨last, _, he⟩ := Failure.bind_eq_ok.1 he
    dsimp only at he
    split at he
    · cases he
    · split at he <;> cases he
      intro e hm
      rcases List.mem_append.1 hm with hm | hm
      · exact h e (List.mem_of_mem_take hm)
      · exact h e (List.mem_of_mem_drop hm)
  | sorted entries =>
    cases he
    exact fun p hp => h p (List.mem_of_mem_filter hp)

theorem Holds.clear (h : s.Holds K E) : s.clear.Holds K E := by
  cases s with
  | packed values => exact List.forall_mem_nil _
  | sorted entries => exact List.forall_mem_nil _

theorem Holds.mapped {R : Element → Element → Prop} (h : s.Holds K E) (hm : s.Mapped R t)
    (hR : ∀ {e e'}, R e e' → E e → E' e') : t.Holds K E' := by
  cases hm with
  | packed hm =>
    intro e' he'
    obtain ⟨e, he, hr⟩ := exists_of_mem_right hm he'
    exact hR hr (h e he)
  | sorted hm =>
    intro q hq
    obtain ⟨p, hp, hk, hr⟩ := exists_of_mem_right hm hq
    exact ⟨hk ▸ (h p hp).1, hR hr (h p hp).2⟩

theorem Holds.mapValues (h : s.Holds K E) {f : Element → Element} (hf : ∀ e, E e → E' (f e)) :
    (s.mapValues f).Holds K E' :=
  h.mapped (s.mapped_mapValues f) fun {e _} hr he => hr ▸ hf e he

theorem holds_storageOf {kind : ArrayKind} {entries : List (Key × Element)}
    (h : ∀ p ∈ entries, K p.1 ∧ E p.2) : (kind.storageOf entries).Holds K E := by
  rw [ArrayKind.storageOf]
  split
  · intro e he
    obtain ⟨p, hp, rfl⟩ := List.mem_map.1 he
    exact (h p hp).2
  · exact h

/-! ## What is checked -/

theorem of_checkTexts (hE : ∀ e : Element, e.checkText = .ok () → E e) {l : List Element}
    (h : checkTexts l = .ok ()) : ∀ e ∈ l, E e := by
  induction l with
  | nil => exact List.forall_mem_nil _
  | cons e l ih =>
    obtain ⟨_, he, hl⟩ := Failure.bind_eq_ok.1 h
    exact List.forall_mem_cons.2 ⟨hE e he, ih hl⟩

section
variable (hK : ∀ k : Key, k.checkText = .ok () → K k)
include hK

theorem Holds.range (h : s.Holds K E) {lo hi : Key} {entries : List (Key × Element)}
    (hr : s.range lo hi = .ok entries) : ∀ p ∈ entries, K p.1 ∧ E p.2 := by
  cases s with
  | packed values =>
    unfold Storage.range at hr
    obtain ⟨first, _, hr⟩ := Failure.bind_eq_ok.1 hr
    obtain ⟨stop, _, hr⟩ := Failure.bind_eq_ok.1 hr
    split at hr
    · cases hr
    · cases hr
      intro p hp
      obtain ⟨q, hq, rfl⟩ := List.mem_map.1 hp
      have hq := List.fst_mem_of_mem_zipIdx hq
      exact ⟨hK _ rfl, h q.1 (List.mem_of_mem_take (List.mem_of_mem_drop hq))⟩
  | sorted entries =>
    cases hr
    exact fun p hp => h p (List.mem_of_mem_filter hp)

variable (hE : ∀ e : Element, e.checkText = .ok () → E e)
include hE

theorem Holds.write (h : s.Holds K E) {k : Key} {e : Element} {old : Option Element}
    (hw : s.write k e = .ok (t, old)) : t.Holds K E := by
  unfold Storage.write at hw
  obtain ⟨_, hk, hw⟩ := Failure.bind_eq_ok.1 hw
  obtain ⟨_, he, hw⟩ := Failure.bind_eq_ok.1 hw
  cases s with
  | packed values =>
    obtain ⟨i, _, hw⟩ := Failure.bind_eq_ok.1 hw
    split at hw
    · cases hw
      intro x hx
      rcases List.mem_or_eq_of_mem_set hx with hx | rfl
      · exact h x hx
      · exact hE _ he
    · cases hw
      exact List.forall_mem_append.2 ⟨h, List.forall_mem_singleton.2 (hE e he)⟩
  | sorted entries =>
    cases hw
    exact holds_insert h (hK k hk) (hE e he)

omit hK in
theorem Holds.insert (h : s.Holds K E) {i : Nat} {new : List Element}
    (hi : s.insert i new = .ok t) : t.Holds K E := by
  cases s with
  | packed values =>
    unfold Storage.insert at hi
    dsimp only at hi
    split at hi
    · cases hi
    · obtain ⟨_, hn, hi⟩ := Failure.bind_eq_ok.1 hi
      cases hi
      refine List.forall_mem_append.2 ⟨List.forall_mem_append.2 ⟨?_, of_checkTexts hE hn⟩, ?_⟩
      · exact fun e he => h e (List.mem_of_mem_take he)
      · exact fun e he => h e (List.mem_of_mem_drop he)
  | sorted entries => cases hi

omit hK in
theorem Holds.resize (h : s.Holds K E) {n : Nat} {pad : Element} {removed : List Element}
    (hr : s.resize n pad = .ok (t, removed)) : t.Holds K E := by
  cases s with
  | packed values =>
    unfold Storage.resize at hr
    dsimp only at hr
    split at hr
    · cases hr
      exact fun e he => h e (List.mem_of_mem_take he)
    · obtain ⟨_, hp, hr⟩ := Failure.bind_eq_ok.1 hr
      cases hr
      refine List.forall_mem_append.2 ⟨h, fun e he => ?_⟩
      rw [List.eq_of_mem_replicate he]
      exact hE pad hp
  | sorted entries => cases hr

/-- what follows from the check of a text holds throughout -/
theorem invariant_holds : Invariant fun _ s => s.Holds K E where
  empty := holds_emptyStorage
  list h := of_checkTexts hE h
  write h _ hw := h.write hK hE hw
  erase h he := h.erase he
  eraseWithin h he := h.eraseWithin he
  insert h hi := h.insert hE hi
  resize h hr := h.resize hE hr
  clear h := h.clear
  range h hr := holds_storageOf (h.range hK hr)
  redirected h hm := h.mapped hm fun hr he => by
    rcases hr with rfl | ⟨i, j, rfl, rfl⟩
    · exact he
    · exact hE _ rfl
  read h := holds_storageFrom fun p hp => ⟨hK _ (h p hp).2.1, hE _ (h p hp).2.2⟩

end

end Storage

end ScriptVars
