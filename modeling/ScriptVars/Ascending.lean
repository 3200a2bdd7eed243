/-!
# Ascending association lists

Finite maps as lists of pairs in strictly ascending order of their keys.  The order is given by a
comparison; keys that compare as equal are one key, and the pair keeps the key it was made with.

* `Ascending.IsAscending`                the order of the list;
* `Ascending.find?`, `insert`, `erase`   one key at a time;
* `Ascending.next?`, `prev?`             the neighbours of a key, present or not;
* `Ascending.between`                    the pairs of a half-open interval.
-/

namespace ScriptVars.Ascending

variable {κ υ : Type}

/-- every key compares as less than every later one -/
def IsAscending (cmp : κ → κ → Ordering) (l : List (κ × υ)) : Prop :=
  l.Pairwise fun p q => cmp p.1 q.1 = .lt

def find? (cmp : κ → κ → Ordering) (k : κ) : List (κ × υ) → Option υ
  | [] => none
  | (l, v) :: rest =>
    match cmp k l with
    | .lt => none
    | .eq => some v
    | .gt => find? cmp k rest

/-- puts a value under a key; a key that is there already stays as it is -/
def insert (cmp : κ → κ → Ordering) (k : κ) (v : υ) : List (κ × υ) → List (κ × υ)
  | [] => [(k, v)]
  | (l, w) :: rest =>
    match cmp k l with
    | .lt => (k, v) :: (l, w) :: rest
    | .eq => (l, v) :: rest
    | .gt => (l, w) :: insert cmp k v rest

def erase (cmp : κ → κ → Ordering) (k : κ) : List (κ × υ) → List (κ × υ)
  | [] => []
  | (l, w) :: rest =>
    match cmp k l with
    | .lt => (l, w) :: rest
    | .eq => rest
    | .gt => (l, w) :: erase cmp k rest

def next? (cmp : κ → κ → Ordering) (k : κ) (l : List (κ × υ)) : Option κ :=
  (l.find? fun p => cmp k p.1 == .lt).map Prod.fst

def prev? (cmp : κ → κ → Ordering) (k : κ) (l : List (κ × υ)) : Option κ :=
  (l.findRev? fun p => cmp p.1 k == .lt).map Prod.fst

/-- the pairs with keys from `lo` up to, and without, `hi` -/
def between (cmp : κ → κ → Ordering) (lo hi : κ) (l : List (κ × υ)) : List (κ × υ) :=
  l.filter fun p => cmp lo p.1 != .gt && cmp p.1 hi == .lt

/-! ### membership -/

theorem mem_of_find?_eq_some {cmp : κ → κ → Ordering} {k : κ} {v : υ} {l : List (κ × υ)}
    (h : find? cmp k l = some v) : ∃ k', cmp k k' = .eq ∧ (k', v) ∈ l := by
  induction l with
  | nil => simp [find?] at h
  | cons p rest ih =>
    obtain ⟨k₀, v₀⟩ := p
    rw [find?] at h
    split at h
    · simp at h
    · rename_i heq
      obtain rfl : v₀ = v := by simpa using h
      exact ⟨k₀, heq, List.mem_cons_self⟩
    · obtain ⟨k', hk, hm⟩ := ih h
      exact ⟨k', hk, List.mem_cons_of_mem _ hm⟩

theorem mem_insert_value {cmp : κ → κ → Ordering} {k : κ} {v : υ} {p : κ × υ}
    {l : List (κ × υ)} (h : p ∈ insert cmp k v l) : p.2 = v ∨ p ∈ l := by
  induction l with
  | nil => simp [insert] at h; exact .inl (by rw [h])
  | cons q rest ih =>
    obtain ⟨k₀, v₀⟩ := q
    rw [insert] at h
    split at h
    · rcases List.mem_cons.1 h with rfl | h
      · exact .inl rfl
      · exact .inr h
    · rcases List.mem_cons.1 h with rfl | h
      · exact .inl rfl
      · exact .inr (List.mem_cons_of_mem _ h)
    · rcases List.mem_cons.1 h with rfl | h
      · exact .inr List.mem_cons_self
      · exact (ih h).imp_right (List.mem_cons_of_mem _)

end ScriptVars.Ascending
