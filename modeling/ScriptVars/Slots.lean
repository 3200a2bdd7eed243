import ScriptVars.Handle
import ScriptVars.Slab
import ScriptVars.Spans

/-!
# Slots

What the handles in use stand for.  A handle is in use from the moment it is handed out; until a
variable is bound to it, it is reserved.

* `SlotData`                            variables in a slab, the cells of bound handles, the handles
                                        to hand out again, and the least one never handed out;
* `SlotData.allocate`                   hands out the least handle that is not in use;
* `SlotData.bind`, `modify`, `remove`   the variable of a handle;
* `SlotData.mark`                       the temporary flag of a handle;
* `SlotData.Valid`                      what ties the parts together;
* `Slots`                               slots that are valid.
-/

namespace ScriptVars

/-- the slots of the handles in use -/
structure SlotData (α : Type) where
  slab : Slab α
  /-- the cells of the bound handles -/
  index : HandleMap Nat
  /-- handles below `fresh` that may be handed out again -/
  free : List Span
  /-- the least handle that was never handed out -/
  fresh : Nat
  /-- handles that are swept when nothing refers to their variables -/
  temporaries : HandleSet
  deriving DecidableEq, Repr

namespace SlotData

variable {α : Type}

def empty : SlotData α := ⟨.empty, ∅, [], 1, ∅⟩

/-- the variable of a handle -/
def find? (s : SlotData α) (h : UInt32) : Option α := s.index[h]?.bind s.slab.get?

/-- whether a number is free to be handed out -/
def IsFree (s : SlotData α) (n : Nat) : Prop := Spans.Covers s.free n ∨ s.fresh ≤ n

/-- hands out the least handle that is not in use, unless all are; the handle is reserved -/
def allocate (s : SlotData α) : Option (Nat × SlotData α) :=
  match s.free with
  | p :: rest => some (p.start, { s with free := p.cut p.start ++ rest })
  | [] => if s.fresh < handleLimit then some (s.fresh, { s with fresh := s.fresh + 1 }) else none

/-- the cell that a variable goes to when it is bound to a handle -/
def cellFor (s : SlotData α) (h : UInt32) : Nat := s.index[h]?.getD s.slab.nextCell

/-- binds a variable to a handle; one that was there is replaced and leaves its temporary flag
behind.  Handles that are passed over may be handed out from now on. -/
def bind (s : SlotData α) (h : UInt32) (value : α) : SlotData α where
  slab := match s.index[h]? with
    | some key => s.slab.modify key fun _ => value
    | none => s.slab.insert value
  index := s.index.insert h (s.cellFor h)
  free :=
    if s.fresh < h.toNat then Spans.insert ⟨s.fresh, h.toNat⟩ (Spans.claim h.toNat s.free)
    else Spans.claim h.toNat s.free
  fresh := max s.fresh (h.toNat + 1)
  temporaries := s.temporaries

def modify (s : SlotData α) (key : Nat) (f : α → α) : SlotData α :=
  { s with slab := s.slab.modify key f }

/-- removes the variable of a handle, which may be handed out again; a handle that is not bound
stays as it is -/
def remove (s : SlotData α) (h : UInt32) : SlotData α :=
  match s.index[h]? with
  | none => s
  | some key =>
    { s with
      slab := s.slab.remove key
      index := s.index.erase h
      free := Spans.insert ⟨h.toNat, h.toNat + 1⟩ s.free
      temporaries := s.temporaries.erase h }

def mark (s : SlotData α) (h : UInt32) (temporary : Bool) : SlotData α :=
  if h ∈ s.index then
    { s with temporaries := if temporary then s.temporaries.insert h else s.temporaries.erase h }
  else s

/-- what ties the parts of slots together -/
structure Valid (s : SlotData α) : Prop where
  fresh_pos : 0 < s.fresh
  fresh_le : s.fresh ≤ handleLimit
  /-- bound handles have been handed out or passed over -/
  below_fresh : ∀ h ∈ s.index, h ≠ 0 ∧ h.toNat < s.fresh
  /-- bound handles and occupied cells belong to one another -/
  occupied : ∀ (h : UInt32) k, s.index[h]? = some k → (s.slab.get? k).isSome
  injective : ∀ (h h' : UInt32) k, s.index[h]? = some k → s.index[h']? = some k → h = h'
  owned : ∀ k, (s.slab.get? k).isSome → ∃ h : UInt32, s.index[h]? = some k
  apart : Spans.Apart s.free
  free_below : ∀ n, Spans.Covers s.free n → 0 < n ∧ n < s.fresh
  free_unbound : ∀ h ∈ s.index, ¬ Spans.Covers s.free h.toNat
  temporary_bound : ∀ h ∈ s.temporaries, h ∈ s.index

/-! ### no handle in use -/

theorem find?_empty (h : UInt32) : (empty : SlotData α).find? h = none := by
  show ((∅ : HandleMap Nat)[h]?).bind _ = none
  rw [Std.ExtTreeMap.getElem?_empty]
  rfl

theorem isFree_empty (n : Nat) : (empty : SlotData α).IsFree n ↔ 1 ≤ n :=
  ⟨fun h => h.resolve_left (Spans.not_covers_nil n), .inr⟩

theorem valid_empty : Valid (empty : SlotData α) where
  fresh_pos := Nat.one_pos
  fresh_le := show 1 ≤ handleLimit by decide
  below_fresh h hm := absurd hm Std.ExtTreeMap.not_mem_empty
  occupied h k hk := by
    rw [show (empty : SlotData α).index[h]? = none from Std.ExtTreeMap.getElem?_empty] at hk
    cases hk
  injective h h' k hk := by
    rw [show (empty : SlotData α).index[h]? = none from Std.ExtTreeMap.getElem?_empty] at hk
    cases hk
  owned k hk := absurd hk nofun
  apart := Spans.apart_nil
  free_below n hn := absurd hn (Spans.not_covers_nil n)
  free_unbound h hm := absurd hm Std.ExtTreeMap.not_mem_empty
  temporary_bound h hm := absurd hm Std.ExtTreeSet.not_mem_empty

/-- nothing is handed out only when every handle is in use -/
theorem not_isFree_of_allocate {s : SlotData α} (ha : s.allocate = none) {n : Nat} (hn : n < handleLimit) :
    ¬ s.IsFree n := by
  rw [allocate] at ha
  split at ha
  · cases ha
  · next hf =>
    split at ha
    · cases ha
    · next hge =>
      rintro (hc | hc)
      · rw [hf] at hc
        exact Spans.not_covers_nil n hc
      · omega

/-! ### cells of handles -/

theorem index_bind (s : SlotData α) (h h' : UInt32) (value : α) :
    (s.bind h value).index[h']? = if h = h' then some (s.cellFor h) else s.index[h']? := by
  show (s.index.insert h (s.cellFor h))[h']? = _
  rw [Std.ExtTreeMap.getElem?_insert]
  simp only [compareHandles_eq_iff]

theorem index_remove (s : SlotData α) (h h' : UInt32) :
    (s.remove h).index[h']? = if h = h' then none else s.index[h']? := by
  rw [remove]
  cases hk : s.index[h]? with
  | none =>
    by_cases e : h = h'
    · rw [if_pos e, ← e]
      exact hk
    · rw [if_neg e]
  | some k =>
    show (s.index.erase h)[h']? = _
    rw [Std.ExtTreeMap.getElem?_erase]
    simp only [compareHandles_eq_iff]

/-- a handle whose variable is removed becomes free; other handles are as free as before -/
theorem isFree_remove (s : SlotData α) (h : UInt32) (n : Nat) :
    (s.remove h).IsFree n ↔ s.IsFree n ∨ (h ∈ s.index ∧ n = h.toNat) := by
  rw [remove, Std.ExtTreeMap.mem_iff_isSome_getElem?]
  cases hk : s.index[h]? with
  | none => exact ⟨.inl, fun hc => hc.resolve_right fun hn => absurd hn.1 nofun⟩
  | some k =>
    show Spans.Covers (Spans.insert _ s.free) n ∨ s.fresh ≤ n ↔ _
    rw [Spans.covers_insert, Span.holds_succ, IsFree]
    constructor
    · rintro ((hn | hn) | hn)
      · exact .inr ⟨rfl, hn⟩
      · exact .inl (.inl hn)
      · exact .inl (.inr hn)
    · rintro ((hn | hn) | ⟨-, rfl⟩)
      · exact .inl (.inr hn)
      · exact .inr hn
      · exact .inl (.inl rfl)

section
variable {s : SlotData α} (v : s.Valid)
include v

theorem Valid.find?_isSome {h : UInt32} : (s.find? h).isSome ↔ h ∈ s.index := by
  rw [find?, Std.ExtTreeMap.mem_iff_isSome_getElem?]
  cases hk : s.index[h]? with
  | none => exact Iff.rfl
  | some k => exact ⟨fun _ => rfl, fun _ => v.occupied h k hk⟩

theorem Valid.isHandle {h : UInt32} (hm : h ∈ s.index) : IsHandle h :=
  ⟨(v.below_fresh h hm).1, Nat.lt_of_lt_of_le (v.below_fresh h hm).2 v.fresh_le⟩

/-- bound handles are not free -/
theorem Valid.not_isFree {h : UInt32} (hm : h ∈ s.index) : ¬ s.IsFree h.toNat := by
  rintro (hc | hf)
  · exact v.free_unbound h hm hc
  · have := (v.below_fresh h hm).2
    omega

/-! ### handing out -/

/-- the number handed out is the least free one, and is free no longer; nothing else changes -/
theorem Valid.allocate_some {n : Nat} {t : SlotData α} (ha : s.allocate = some (n, t)) :
    t.Valid ∧ (s.IsFree n ∧ 0 < n ∧ n < handleLimit) ∧ (∀ m, 0 < m → s.IsFree m → n ≤ m) ∧
      (∀ m, 0 < m → (t.IsFree m ↔ s.IsFree m ∧ m ≠ n)) ∧
      t.slab = s.slab ∧ t.index = s.index ∧ t.temporaries = s.temporaries := by
  rw [allocate] at ha
  split at ha
  · next p rest hf =>
    obtain ⟨rfl, rfl⟩ := Prod.mk.inj (Option.some.inj ha)
    have hap : Spans.Apart (p :: rest) := hf ▸ v.apart
    have hp : p.Holds p.start := ⟨Nat.le_refl _, (Spans.apart_cons.1 hap).1⟩
    have hcov : ∀ m, Spans.Covers (p.cut p.start ++ rest) m ↔
        Spans.Covers s.free m ∧ m ≠ p.start := by
      intro m
      have hcl := Spans.covers_claim (n := p.start) (m := m) hap
      rw [Spans.claim, if_neg (Nat.lt_irrefl _), if_pos hp.2] at hcl
      rw [hcl, hf]
    have hst : Spans.Covers s.free p.start := hf ▸ Spans.covers_cons.2 (.inl hp)
    have hpos := v.free_below _ hst
    refine ⟨?_, ⟨.inl hst, hpos.1, Nat.lt_of_lt_of_le hpos.2 v.fresh_le⟩, ?_, ?_, rfl, rfl, rfl⟩
    · exact { v with
        apart := Spans.apart_cut_append hap hp
        free_below := fun m hm => v.free_below m ((hcov m).1 hm).1
        free_unbound := fun h hm hc => v.free_unbound h hm ((hcov _).1 hc).1 }
    · rintro m - (hm | hm)
      · exact Spans.le_of_covers hap (hf ▸ hm)
      · exact Nat.le_trans (Nat.le_of_lt hpos.2) hm
    · intro m _
      show Spans.Covers (p.cut p.start ++ rest) m ∨ s.fresh ≤ m ↔ _
      rw [hcov, IsFree]
      constructor
      · rintro (⟨hm, hne⟩ | hm)
        · exact ⟨.inl hm, hne⟩
        · exact ⟨.inr hm, by have := hpos.2; omega⟩
      · rintro ⟨hm | hm, hne⟩
        · exact .inl ⟨hm, hne⟩
        · exact .inr hm
  · next hf =>
    split at ha
    · next hlt =>
      obtain ⟨rfl, rfl⟩ := Prod.mk.inj (Option.some.inj ha)
      have hno : ∀ m, ¬ Spans.Covers s.free m := fun m => hf ▸ Spans.not_covers_nil m
      refine ⟨?_, ⟨.inr (Nat.le_refl _), v.fresh_pos, hlt⟩, ?_, ?_, rfl, rfl, rfl⟩
      · exact { v with
          fresh_pos := Nat.succ_pos _
          fresh_le := hlt
          below_fresh := fun h hm =>
            ⟨(v.below_fresh h hm).1, Nat.lt_succ_of_lt (v.below_fresh h hm).2⟩
          free_below := fun m hm => absurd hm (hno m) }
      · exact fun m _ hm => hm.resolve_left (hno m)
      · intro m _
        show Spans.Covers s.free m ∨ s.fresh + 1 ≤ m ↔ (Spans.Covers s.free m ∨ s.fresh ≤ m) ∧ _
        simp only [hno m, false_or]
        omega
    · cases ha

/-! ### binding -/

theorem Valid.slab_bind (h : UInt32) (value : α) (j : Nat) :
    (s.bind h value).slab.get? j = if s.cellFor h = j then some value else s.slab.get? j := by
  show (match s.index[h]? with
    | some key => s.slab.modify key fun _ => value
    | none => s.slab.insert value).get? j = _
  rw [cellFor]
  cases hk : s.index[h]? with
  | none => exact Slab.get?_insert s.slab value j
  | some k =>
    show (s.slab.modify k fun _ => value).get? j = if k = j then some value else _
    rw [Slab.get?_modify]
    by_cases e : k = j
    · subst e
      obtain ⟨a, ha⟩ := Option.isSome_iff_exists.1 (v.occupied h k hk)
      rw [if_pos rfl, if_pos rfl, ha]
      rfl
    · rw [if_neg e, if_neg e]

/-- the cell of a bound handle is no other handle's cell -/
theorem Valid.cellFor_ne {h h' : UInt32} {k : Nat} (hne : h ≠ h') (hk : s.index[h']? = some k) :
    s.cellFor h ≠ k := by
  intro e
  rw [cellFor] at e
  cases hh : s.index[h]? with
  | none =>
    rw [hh, Option.getD_none] at e
    have ho := v.occupied h' k hk
    rw [← e, Slab.get?_nextCell] at ho
    cases ho
  | some k' =>
    rw [hh, Option.getD_some] at e
    exact hne (v.injective h h' k (e ▸ hh) hk)

theorem Valid.find?_bind (h h' : UInt32) (value : α) :
    (s.bind h value).find? h' = if h = h' then some value else s.find? h' := by
  rw [find?, index_bind]
  by_cases e : h = h'
  · rw [if_pos e, if_pos e, Option.bind_some, v.slab_bind, if_pos rfl]
  · rw [if_neg e, if_neg e, find?]
    cases hk : s.index[h']? with
    | none => rfl
    | some k =>
      show (s.bind h value).slab.get? k = s.slab.get? k
      rw [v.slab_bind h value, if_neg (v.cellFor_ne e hk)]

theorem Valid.covers_bind (h : UInt32) (value : α) (n : Nat) :
    Spans.Covers (s.bind h value).free n ↔
      (Spans.Covers s.free n ∨ s.fresh ≤ n ∧ n < h.toNat) ∧ n ≠ h.toNat := by
  show Spans.Covers (if s.fresh < h.toNat then _ else _) n ↔ _
  split
  · next hlt =>
    rw [Spans.covers_insert, Spans.covers_claim v.apart]
    constructor
    · rintro (⟨h₁, h₂⟩ | ⟨hc, hne⟩)
      · exact ⟨.inr ⟨h₁, h₂⟩, Nat.ne_of_lt h₂⟩
      · exact ⟨.inl hc, hne⟩
    · rintro ⟨hc | hc, hne⟩
      · exact .inr ⟨hc, hne⟩
      · exact .inl hc
  · next hge =>
    rw [Spans.covers_claim v.apart]
    constructor
    · exact fun ⟨hc, hne⟩ => ⟨.inl hc, hne⟩
    · rintro ⟨hc | hc, hne⟩
      · exact ⟨hc, hne⟩
      · omega

/-- a bound handle is in use; other handles are as free as before -/
theorem Valid.isFree_bind (h : UInt32) (value : α) (n : Nat) :
    (s.bind h value).IsFree n ↔ s.IsFree n ∧ n ≠ h.toNat := by
  have hf : (s.bind h value).fresh = max s.fresh (h.toNat + 1) := rfl
  rw [IsFree, IsFree, v.covers_bind, hf]
  constructor
  · rintro (⟨hc | hc, hne⟩ | hc)
    · exact ⟨.inl hc, hne⟩
    · exact ⟨.inr hc.1, hne⟩
    · exact ⟨.inr (by omega), by omega⟩
  · rintro ⟨hc | hc, hne⟩
    · exact .inl ⟨.inl hc, hne⟩
    · rcases Nat.lt_or_gt_of_ne hne with hlt | hgt
      · exact .inl ⟨.inr ⟨hc, hlt⟩, hne⟩
      · exact .inr (by omega)

theorem Valid.apart_bind (h : UInt32) (value : α) : Spans.Apart (s.bind h value).free := by
  show Spans.Apart (if s.fresh < h.toNat then _ else _)
  split
  · next hlt =>
    refine Spans.apart_insert (Spans.apart_claim v.apart) hlt fun q hq => .inr ?_
    have hne := (Spans.apart_claim v.apart).nonempty q hq
    have hc : Spans.Covers (Spans.claim h.toNat s.free) (q.stop - 1) :=
      ⟨q, hq, by omega, by omega⟩
    have := (v.free_below _ ((Spans.covers_claim v.apart).1 hc).1).2
    show q.stop ≤ s.fresh
    omega
  · exact Spans.apart_claim v.apart

theorem Valid.bind {h : UInt32} (hh : IsHandle h) (value : α) : (s.bind h value).Valid := by
  have hf : (s.bind h value).fresh = max s.fresh (h.toNat + 1) := rfl
  have hpos := hh.toNat_pos
  have hmem : ∀ x, x ∈ (s.bind h value).index ↔ h = x ∨ x ∈ s.index := fun x => by
    show x ∈ s.index.insert h _ ↔ _
    rw [Std.ExtTreeMap.mem_insert, compareHandles_eq_iff]
  refine
    { fresh_pos := ?_, fresh_le := ?_, below_fresh := ?_, occupied := ?_, injective := ?_,
      owned := ?_, apart := v.apart_bind h value, free_below := ?_, free_unbound := ?_,
      temporary_bound := ?_ }
  · have := v.fresh_pos
    omega
  · have := v.fresh_le
    have := hh.2
    omega
  · intro x hx
    rcases (hmem x).1 hx with rfl | hx
    · exact ⟨hh.1, by omega⟩
    · have := v.below_fresh x hx
      exact ⟨this.1, by omega⟩
  · intro x k hk
    rw [index_bind] at hk
    rw [v.slab_bind h value]
    split at hk
    · rw [if_pos (Option.some.inj hk)]
      rfl
    · split
      · rfl
      · exact v.occupied x k hk
  · intro x y k hx hy
    rw [index_bind] at hx hy
    split at hx
    · next ex =>
      split at hy
      · next ey => exact ex.symm.trans ey
      · next ey => exact absurd (Option.some.inj hx) (v.cellFor_ne ey hy)
    · next ex =>
      split at hy
      · exact absurd (Option.some.inj hy) (v.cellFor_ne ex hx)
      · exact v.injective x y k hx hy
  · intro k hk
    rw [v.slab_bind h value] at hk
    split at hk
    · next e => exact ⟨h, by rw [index_bind, if_pos rfl, e]⟩
    · next e =>
      obtain ⟨x, hx⟩ := v.owned k hk
      have hne : h ≠ x := by
        rintro rfl
        exact e (by rw [cellFor, hx, Option.getD_some])
      exact ⟨x, by rw [index_bind, if_neg hne, hx]⟩
  · intro n hn
    obtain ⟨hc | hc, _⟩ := (v.covers_bind h value n).1 hn
    · have := v.free_below n hc
      exact ⟨this.1, by omega⟩
    · have := v.fresh_pos
      exact ⟨by omega, by omega⟩
  · intro x hx hc
    obtain ⟨hc, hne⟩ := (v.covers_bind h value _).1 hc
    rcases (hmem x).1 hx with rfl | hx
    · exact hne rfl
    · rcases hc with hc | hc
      · exact v.free_unbound x hx hc
      · have := (v.below_fresh x hx).2
        omega
  · exact fun x hx => (hmem x).2 (.inr (v.temporary_bound x hx))

/-! ### changing one variable -/

theorem Valid.find?_modify {h : UInt32} {k : Nat} (hk : s.index[h]? = some k) (h' : UInt32)
    (f : α → α) :
    (s.modify k f).find? h' = if h = h' then (s.find? h').map f else s.find? h' := by
  show s.index[h']?.bind (s.slab.modify k f).get? = _
  rw [find?]
  cases hk' : s.index[h']? with
  | none =>
    show none = if h = h' then none else none
    exact (ite_self _).symm
  | some k' =>
    show (s.slab.modify k f).get? k' = if h = h' then (s.slab.get? k').map f else s.slab.get? k'
    rw [Slab.get?_modify]
    by_cases e : h = h'
    · have ek : k = k' := Option.some.inj (hk.symm.trans (e ▸ hk'))
      rw [if_pos e, if_pos ek]
    · have ek : k ≠ k' := fun ek => e (v.injective h h' k hk (ek ▸ hk'))
      rw [if_neg e, if_neg ek]

theorem Valid.modify (k : Nat) (f : α → α) : (s.modify k f).Valid := by
  have hs : ∀ j, ((s.slab.modify k f).get? j).isSome = (s.slab.get? j).isSome := fun j => by
    rw [Slab.get?_modify]
    split
    · exact Option.isSome_map
    · rfl
  exact { v with
    occupied := fun h j hj => (hs j).trans (v.occupied h j hj)
    owned := fun j hj => v.owned j ((hs j).symm.trans hj) }

theorem Valid.mark (h : UInt32) (temporary : Bool) : (s.mark h temporary).Valid := by
  rw [SlotData.mark]
  split
  · next hm =>
    refine { v with temporary_bound := fun x hx => ?_ }
    change x ∈ (if temporary then s.temporaries.insert h else s.temporaries.erase h) at hx
    split at hx
    · rcases Std.ExtTreeSet.mem_insert.1 hx with e | hx
      · exact compareHandles_eq_iff.1 e ▸ hm
      · exact v.temporary_bound x hx
    · exact v.temporary_bound x (Std.ExtTreeSet.mem_of_mem_erase hx)
  · exact v

/-! ### removing -/

theorem Valid.find?_remove (h h' : UInt32) :
    (s.remove h).find? h' = if h = h' then none else s.find? h' := by
  rw [find?, index_remove]
  by_cases e : h = h'
  · rw [if_pos e, if_pos e]
    rfl
  · rw [if_neg e, if_neg e, find?]
    cases hk' : s.index[h']? with
    | none => rfl
    | some k' =>
      show (s.remove h).slab.get? k' = s.slab.get? k'
      rw [remove]
      cases hk : s.index[h]? with
      | none => rfl
      | some k =>
        show (s.slab.remove k).get? k' = _
        have ek : k ≠ k' := fun ek => e (v.injective h h' k hk (ek ▸ hk'))
        rw [Slab.get?_remove, if_neg ek]

theorem Valid.remove (h : UInt32) : (s.remove h).Valid := by
  cases hk : s.index[h]? with
  | none =>
    rw [SlotData.remove, hk]
    exact v
  | some k =>
    have hm : h ∈ s.index := by
      rw [Std.ExtTreeMap.mem_iff_isSome_getElem?, hk]
      rfl
    have hd : s.remove h =
        { s with
          slab := s.slab.remove k
          index := s.index.erase h
          free := Spans.insert ⟨h.toNat, h.toNat + 1⟩ s.free
          temporaries := s.temporaries.erase h } := by rw [SlotData.remove, hk]
    have hcov : ∀ n, Spans.Covers (s.remove h).free n ↔ n = h.toNat ∨ Spans.Covers s.free n :=
      fun n => by
        rw [hd, Spans.covers_insert, Span.holds_succ]
    have hmem : ∀ x, x ∈ (s.remove h).index ↔ h ≠ x ∧ x ∈ s.index := fun x => by
      rw [hd, Std.ExtTreeMap.mem_erase, Ne, compareHandles_eq_iff]
    have hslab : ∀ j, (s.remove h).slab.get? j = if k = j then none else s.slab.get? j :=
      fun j => by rw [hd, Slab.get?_remove]
    have hfresh : (s.remove h).fresh = s.fresh := by rw [hd]
    refine
      { fresh_pos := hfresh ▸ v.fresh_pos, fresh_le := hfresh ▸ v.fresh_le,
        below_fresh := fun x hx => hfresh ▸ v.below_fresh x ((hmem x).1 hx).2,
        occupied := ?_, injective := ?_, owned := ?_, apart := ?_, free_below := ?_,
        free_unbound := ?_, temporary_bound := ?_ }
    · intro x j hj
      rw [index_remove] at hj
      split at hj
      · cases hj
      · next e =>
        have ek : k ≠ j := fun ek => e (v.injective h x k hk (ek ▸ hj))
        rw [hslab, if_neg ek]
        exact v.occupied x j hj
    · intro x y j hx hy
      rw [index_remove] at hx hy
      split at hx
      · cases hx
      · split at hy
        · cases hy
        · exact v.injective x y j hx hy
    · intro j hj
      rw [hslab] at hj
      split at hj
      · cases hj
      · next e =>
        obtain ⟨x, hx⟩ := v.owned j hj
        have hne : h ≠ x := by
          rintro rfl
          exact e (Option.some.inj (hk.symm.trans hx))
        exact ⟨x, by rw [index_remove, if_neg hne, hx]⟩
    · rw [hd]
      refine Spans.apart_insert v.apart (Nat.lt_succ_self _) fun q hq => ?_
      have hne := v.apart.nonempty q hq
      have hno : ¬ q.Holds h.toNat := fun hh => v.free_unbound h hm ⟨q, hq, hh⟩
      show h.toNat + 1 ≤ q.start ∨ q.stop ≤ h.toNat
      by_cases hs : q.start ≤ h.toNat
      · exact .inr (Nat.le_of_not_lt fun ht => hno ⟨hs, ht⟩)
      · exact .inl (by omega)
    · intro n hn
      rw [hfresh]
      rcases (hcov n).1 hn with rfl | hn
      · exact ⟨(v.isHandle hm).toNat_pos, (v.below_fresh h hm).2⟩
      · exact v.free_below n hn
    · intro x hx hc
      obtain ⟨hne, hx⟩ := (hmem x).1 hx
      rcases (hcov _).1 hc with e | hc
      · exact hne (UInt32.toNat_inj.1 e.symm)
      · exact v.free_unbound x hx hc
    · intro x hx
      rw [hd, Std.ExtTreeSet.mem_erase, Ne, compareHandles_eq_iff] at hx
      exact (hmem x).2 ⟨hx.1, v.temporary_bound x hx.2⟩

/-! ### temporary flags -/

theorem Valid.mem_temporaries_remove (h h' : UInt32) :
    h' ∈ (s.remove h).temporaries ↔ h ≠ h' ∧ h' ∈ s.temporaries := by
  rw [SlotData.remove]
  cases hk : s.index[h]? with
  | none =>
    -- what is not bound is not temporary either
    refine ⟨fun hm => ⟨?_, hm⟩, And.right⟩
    rintro rfl
    have hb := v.temporary_bound h hm
    rw [Std.ExtTreeMap.mem_iff_isSome_getElem?, hk] at hb
    cases hb
  | some k =>
    show h' ∈ s.temporaries.erase h ↔ _
    rw [Std.ExtTreeSet.mem_erase, Ne, compareHandles_eq_iff]

omit v in
theorem mem_temporaries_mark (h h' : UInt32) (temporary : Bool) :
    h' ∈ (s.mark h temporary).temporaries ↔
      (h = h' ∧ h ∈ s.index ∧ temporary = true) ∨
        (¬ (h = h' ∧ h ∈ s.index) ∧ h' ∈ s.temporaries) := by
  rw [mark]
  split
  · next hm =>
    cases temporary with
    | true =>
      show h' ∈ s.temporaries.insert h ↔ _
      rw [Std.ExtTreeSet.mem_insert, compareHandles_eq_iff]
      by_cases e : h = h'
      · simp [← e, hm]
      · simp [e]
    | false =>
      show h' ∈ s.temporaries.erase h ↔ _
      rw [Std.ExtTreeSet.mem_erase, Ne, compareHandles_eq_iff]
      by_cases e : h = h'
      · simp [← e, hm]
      · simp [e]
  · next hm => simp [hm]

end

end SlotData

/-- slots whose parts belong together -/
structure Slots (α : Type) extends SlotData α where
  valid : toSlotData.Valid
  deriving DecidableEq, Repr

namespace Slots

variable {α : Type}

def empty : Slots α := ⟨.empty, SlotData.valid_empty⟩

def allocate (s : Slots α) : Option (UInt32 × Slots α) :=
  match h : s.toSlotData.allocate with
  | some (n, t) => some (UInt32.ofNat n, ⟨t, (s.valid.allocate_some h).1⟩)
  | none => none

def bind (s : Slots α) (h : UInt32) (hh : IsHandle h) (value : α) : Slots α :=
  ⟨s.toSlotData.bind h value, s.valid.bind hh value⟩

def modify (s : Slots α) (key : Nat) (f : α → α) : Slots α :=
  ⟨s.toSlotData.modify key f, s.valid.modify key f⟩

def remove (s : Slots α) (h : UInt32) : Slots α := ⟨s.toSlotData.remove h, s.valid.remove h⟩

def mark (s : Slots α) (h : UInt32) (temporary : Bool) : Slots α :=
  ⟨s.toSlotData.mark h temporary, s.valid.mark h temporary⟩

/-! ### the slots as a list -/

/-- bound handles and their variables, ascending -/
def toList (s : Slots α) : List (UInt32 × α) :=
  s.index.toList.filterMap fun p => (s.slab.get? p.2).map (Prod.mk p.1)

theorem mem_toList {s : Slots α} {h : UInt32} {value : α} :
    (h, value) ∈ s.toList ↔ s.find? h = some value := by
  rw [toList, List.mem_filterMap, SlotData.find?, Option.bind_eq_some_iff]
  constructor
  · rintro ⟨⟨h', key⟩, hm, he⟩
    obtain ⟨v, hv, he⟩ := Option.map_eq_some_iff.1 he
    obtain ⟨rfl, rfl⟩ := Prod.mk.inj he
    exact ⟨key, Std.ExtTreeMap.mem_toList_iff_getElem?_eq_some.1 hm, hv⟩
  · rintro ⟨key, hk, hv⟩
    refine ⟨(h, key), Std.ExtTreeMap.mem_toList_iff_getElem?_eq_some.2 hk, ?_⟩
    show (s.slab.get? key).map _ = _
    rw [hv]
    rfl

/-- every bound handle has a variable -/
theorem map_fst_toList (s : Slots α) : s.toList.map Prod.fst = s.index.keys := by
  have hocc : ∀ p ∈ s.index.toList, (s.slab.get? p.2).isSome := fun p hp =>
    s.valid.occupied p.1 p.2 (Std.ExtTreeMap.mem_toList_iff_getElem?_eq_some.1 hp)
  rw [toList, ← Std.ExtTreeMap.map_fst_toList_eq_keys]
  generalize s.index.toList = l at hocc ⊢
  induction l with
  | nil => rfl
  | cons p l ih =>
    obtain ⟨value, hv⟩ := Option.isSome_iff_exists.1 (hocc p List.mem_cons_self)
    rw [List.filterMap_cons_some (by rw [hv]; rfl), List.map_cons, List.map_cons,
      ih fun q hq => hocc q (List.mem_cons_of_mem p hq)]

theorem ascending_toList (s : Slots α) :
    s.toList.Pairwise fun p q => p.1.toNat < q.1.toNat := by
  have hk : s.index.keys.Pairwise fun a b => compareHandles a b = .lt := s.index.ordered_keys
  rw [← map_fst_toList, List.pairwise_map] at hk
  exact hk.imp fun h => Nat.compare_eq_lt.1 h

theorem allocate_eq_some {s t : Slots α} {h : UInt32} (ha : s.allocate = some (h, t)) :
    ∃ n, s.toSlotData.allocate = some (n, t.toSlotData) ∧ h = UInt32.ofNat n := by
  rw [allocate] at ha
  split at ha
  · next n t' hn =>
    obtain ⟨rfl, rfl⟩ := Prod.mk.inj (Option.some.inj ha)
    exact ⟨n, hn, rfl⟩
  · cases ha

theorem allocate_eq_none {s : Slots α} (ha : s.allocate = none) : s.toSlotData.allocate = none := by
  rw [allocate] at ha
  split at ha
  · cases ha
  · next hn => exact hn

theorem index_allocate {s t : Slots α} {h : UInt32} (ha : s.allocate = some (h, t)) :
    t.index = s.index := by
  obtain ⟨n, hn, -⟩ := allocate_eq_some ha
  exact (s.valid.allocate_some hn).2.2.2.2.2.1

theorem index_mark (s : Slots α) (h : UInt32) (temporary : Bool) :
    (s.mark h temporary).index = s.index := by
  show (s.toSlotData.mark h temporary).index = _
  rw [SlotData.mark]
  split <;> rfl

end Slots
end ScriptVars
