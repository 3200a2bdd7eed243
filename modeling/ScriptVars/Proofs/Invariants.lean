import ScriptVars.Proofs.Layout

/-!
# What operations on storages keep

A property of storages that every operation on one storage keeps is kept by everything that is done
to arrays, and by everything that is read into them.

* `Element.Redirected`       ids of arrays may change, and nothing else;
* `Storage.Invariant`        a property of the storages of a kind that every operation keeps;
* `Storage.invariant_fits`   the layout of a kind is one;
* `ArrayVar.Meets`           an array with such a property; `Storage.Invariant.set`, … keep it.
-/

namespace ScriptVars

/-- the same element, or an id in place of an id -/
def Element.Redirected (e e' : Element) : Prop :=
  e' = e ∨ ∃ i j, e = .array i ∧ e' = .array j

theorem ArrayStore.Copied.redirected {s : ArrayStore} {e e' : Element} (h : Copied s e e') :
    e.Redirected e' := h.imp id fun ⟨i, j, he, he', _⟩ => ⟨i, j, he, he'⟩

namespace Storage

variable {s t : Storage}

theorem Mapped.mono {R R' : Element → Element → Prop} (h : s.Mapped R t)
    (hR : ∀ {e e'}, R e e' → R' e e') : s.Mapped R' t := by
  cases h with
  | packed h => exact .packed (h.imp fun _ _ => hR)
  | sorted h => exact .sorted (h.imp fun _ _ hp => ⟨hp.1, hR hp.2⟩)

/-- what no operation breaks; keys and elements are put in only after a check -/
structure Invariant (Q : ArrayKind → Storage → Prop) : Prop where
  empty (kind : ArrayKind) : Q kind kind.emptyStorage
  list {values : List Element} (h : checkTexts values = .ok ()) : Q .array (packed values)
  write {kind : ArrayKind} {s t : Storage} {k : Key} {e : Element} {old : Option Element}
    (h : Q kind s) (hk : k.keyType = kind.keyType) (hw : s.write k e = .ok (t, old)) : Q kind t
  erase {kind : ArrayKind} {s t : Storage} {k : Key} {old : Option Element}
    (h : Q kind s) (he : s.erase k = .ok (t, old)) : Q kind t
  eraseWithin {kind : ArrayKind} {s t : Storage} {lo hi : Key} {removed : List Element}
    (h : Q kind s) (he : s.eraseWithin lo hi = .ok (t, removed)) : Q kind t
  insert {kind : ArrayKind} {s t : Storage} {i : Nat} {new : List Element}
    (h : Q kind s) (hi : s.insert i new = .ok t) : Q kind t
  resize {kind : ArrayKind} {s t : Storage} {n : Nat} {pad : Element} {removed : List Element}
    (h : Q kind s) (hr : s.resize n pad = .ok (t, removed)) : Q kind t
  clear {kind : ArrayKind} {s : Storage} (h : Q kind s) : Q kind s.clear
  range {kind : ArrayKind} {s : Storage} {lo hi : Key} {entries : List (Key × Element)}
    (h : Q kind s) (hr : s.range lo hi = .ok entries) : Q kind (kind.storageOf entries)
  redirected {kind : ArrayKind} {s t : Storage} (h : Q kind s)
    (hm : s.Mapped Element.Redirected t) : Q kind t
  read {kind : ArrayKind} {entries : List (Key × Element)}
    (h : ∀ p ∈ entries, p.1.keyType = kind.keyType ∧ p.1.checkText = .ok () ∧
      p.2.checkText = .ok ()) : Q kind (kind.storageFrom entries)

theorem invariant_fits : Invariant Fits where
  empty := fits_emptyStorage
  list _ := rfl
  write h hk hw := h.write hk hw
  erase h he := h.erase he
  eraseWithin h he := h.eraseWithin he
  insert h hi := h.insert hi
  resize h hr := h.resize hr
  clear h := h.clear
  range h hr := h.range hr
  redirected h hm := h.mapped hm
  read h := fits_storageFrom fun p hp => (h p hp).1

end Storage

/-! ## Arrays -/

/-- the storage of an array has a property of the storages of its kind -/
def ArrayVar.Meets (Q : ArrayKind → Storage → Prop) (a : ArrayVar) : Prop := Q a.kind a.storage

namespace Storage.Invariant

variable {Q : ArrayKind → Storage → Prop} (c : Invariant Q) {a b : ArrayVar}
include c

theorem made (kind : ArrayKind) (owner : UInt8) (refs : List UInt8) :
    (ArrayVar.empty kind owner refs).Meets Q := c.empty kind

theorem set (h : a.Meets Q) {k : Key} {e : Element} {old : Option Element}
    (hs : a.set k e = .ok (b, old)) : b.Meets Q := by
  obtain ⟨hk, storage, hw, rfl⟩ := ArrayVar.set_eq_ok hs
  exact c.write h hk hw

theorem eraseKey (h : a.Meets Q) {k : Key} {old : Option Element}
    (he : a.erase k = .ok (b, old)) : b.Meets Q := by
  unfold ArrayVar.erase at he
  split at he
  · cases he
    exact h
  · obtain ⟨_, _, he⟩ := Failure.bind_eq_ok.1 he
    obtain ⟨⟨storage, removed⟩, hr, he⟩ := Failure.bind_eq_ok.1 he
    cases he
    exact c.erase h hr

theorem setAll (h : a.Meets Q) {pairs : List (Key × Element)} (hs : a.setAll pairs = .ok b) :
    b.Meets Q := by
  induction pairs generalizing a with
  | nil =>
    cases hs
    exact h
  | cons p pairs ih =>
    obtain ⟨⟨d, old⟩, hd, hs⟩ := Failure.bind_eq_ok.1 hs
    exact ih (c.set h hd) hs

theorem ofPairs {pairs : List (Key × Element)} {owner : UInt8}
    (h : ArrayVar.ofPairs pairs owner = .ok a) : a.Meets Q := by
  obtain ⟨made, hm, h⟩ := Failure.bind_eq_ok.1 h
  obtain ⟨kind, rfl⟩ := ArrayVar.make_eq_ok hm
  exact c.setAll (c.made kind owner []) h

end Storage.Invariant

end ScriptVars
