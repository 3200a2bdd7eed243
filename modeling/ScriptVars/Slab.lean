/-!
# Slabs

Values in numbered cells.  A cell that was given up is used again before a new one is made, the
one given up last first.

* `Slab`                            cells, with those that are vacant;
* `Slab.insert`                     puts a value into a vacant cell or a new one;
* `Slab.get?`, `modify`, `remove`   the value in a cell.
-/

namespace ScriptVars

/-- values in numbered cells -/
structure Slab (α : Type) where
  cells : Array (Option α)
  /-- the vacant cells, the one given up last first -/
  vacant : List Nat
  cell_of_mem : ∀ k ∈ vacant, cells[k]? = some none
  nodup : vacant.Nodup
  deriving DecidableEq, Repr

namespace Slab

variable {α : Type}

def empty : Slab α := ⟨#[], [], nofun, .nil⟩

def get? (s : Slab α) (k : Nat) : Option α := s.cells[k]?.join

/-- the cell that the next value goes to -/
def nextCell (s : Slab α) : Nat := s.vacant.head?.getD s.cells.size

def insert (s : Slab α) (value : α) : Slab α :=
  match h : s.vacant with
  | [] => ⟨s.cells.push (some value), [], nofun, .nil⟩
  | k :: rest =>
    { cells := s.cells.setIfInBounds k (some value)
      vacant := rest
      cell_of_mem := fun j hj => by
        have hne : k ≠ j := fun e => (List.nodup_cons.1 (h ▸ s.nodup)).1 (e ▸ hj)
        rw [Array.getElem?_setIfInBounds_ne hne]
        exact s.cell_of_mem j (h ▸ List.mem_cons_of_mem k hj)
      nodup := (List.nodup_cons.1 (h ▸ s.nodup)).2 }

def modify (s : Slab α) (k : Nat) (f : α → α) : Slab α where
  cells := s.cells.modify k (Option.map f)
  vacant := s.vacant
  cell_of_mem j hj := by
    rw [Array.getElem?_modify, s.cell_of_mem j hj]
    split <;> rfl
  nodup := s.nodup

def remove (s : Slab α) (k : Nat) : Slab α :=
  if h : (s.get? k).isSome then
    { cells := s.cells.setIfInBounds k none
      vacant := k :: s.vacant
      cell_of_mem := fun j hj => by
        rw [Array.getElem?_setIfInBounds]
        split
        · next e =>
          subst e
          rcases Nat.lt_or_ge k s.cells.size with hk | hk
          · rw [if_pos hk]
          · rw [get?, Array.getElem?_eq_none hk] at h
            exact absurd h nofun
        · next e =>
          rcases List.mem_cons.1 hj with rfl | hj
          · exact absurd rfl e
          · exact s.cell_of_mem j hj
      nodup := List.nodup_cons.2
        ⟨fun hk => by rw [get?, s.cell_of_mem k hk] at h; exact absurd h nofun, s.nodup⟩ }
  else s

/-! ### values after a change -/

theorem get?_nextCell (s : Slab α) : s.get? s.nextCell = none := by
  rw [nextCell]
  cases h : s.vacant with
  | nil =>
    show s.cells[s.cells.size]?.join = none
    rw [Array.getElem?_eq_none (Nat.le_refl _)]
    rfl
  | cons k rest =>
    show s.cells[k]?.join = none
    rw [s.cell_of_mem k (h ▸ List.mem_cons_self)]
    rfl

theorem get?_insert (s : Slab α) (value : α) (j : Nat) :
    (s.insert value).get? j = if s.nextCell = j then some value else s.get? j := by
  unfold insert nextCell
  split
  · next h =>
    show (s.cells.push (some value))[j]?.join = _
    rw [h, Array.getElem?_push, List.head?_nil, Option.getD_none]
    by_cases e : j = s.cells.size
    · rw [if_pos e, if_pos e.symm]
      rfl
    · rw [if_neg e, if_neg (Ne.symm e)]
      rfl
  · next k rest h =>
    have hk : k < s.cells.size := by
      rcases Nat.lt_or_ge k s.cells.size with hk | hk
      · exact hk
      · have hc := s.cell_of_mem k (h ▸ List.mem_cons_self)
        rw [Array.getElem?_eq_none hk] at hc
        exact absurd hc nofun
    show (s.cells.setIfInBounds k (some value))[j]?.join = _
    rw [h, Array.getElem?_setIfInBounds, if_pos hk, List.head?_cons, Option.getD_some]
    by_cases e : k = j
    · rw [if_pos e, if_pos e]
      rfl
    · rw [if_neg e, if_neg e]
      rfl

theorem get?_modify (s : Slab α) (k j : Nat) (f : α → α) :
    (s.modify k f).get? j = if k = j then (s.get? j).map f else s.get? j := by
  show (s.cells.modify k (Option.map f))[j]?.join = _
  rw [Array.getElem?_modify, get?]
  split
  · rcases s.cells[j]? with _ | _ | _ <;> rfl
  · rfl

theorem get?_remove (s : Slab α) (k j : Nat) :
    (s.remove k).get? j = if k = j then none else s.get? j := by
  unfold remove
  split
  · show (s.cells.setIfInBounds k none)[j]?.join = _
    rw [Array.getElem?_setIfInBounds]
    split
    · split <;> rfl
    · rfl
  · next h =>
    split
    · next e =>
      subst e
      exact Option.not_isSome_iff_eq_none.1 h
    · rfl

end Slab
end ScriptVars
