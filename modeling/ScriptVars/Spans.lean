/-!
# Spans of numbers

Sets of naturals as spans, in ascending order and apart from one another.  Neighbouring spans may
touch; they are not joined.

* `Span`                     the numbers from a start up to, and without, a stop;
* `Spans.Apart`              what a list of spans has to be;
* `Spans.Covers`             the numbers that stand in one of them;
* `Spans.insert`, `claim`    one more span; one number less.
-/

namespace ScriptVars

/-- the numbers from `start` up to, and without, `stop` -/
structure Span where
  start : Nat
  stop : Nat
  deriving DecidableEq, Repr

namespace Span

def Holds (p : Span) (n : Nat) : Prop := p.start ≤ n ∧ n < p.stop

/-- a span without one of its numbers: what is left on both sides -/
def cut (p : Span) (n : Nat) : List Span :=
  [⟨p.start, n⟩, ⟨n + 1, p.stop⟩].filter fun q => q.start < q.stop

theorem holds_succ {n m : Nat} : Holds ⟨n, n + 1⟩ m ↔ m = n :=
  ⟨fun ⟨h₁, h₂⟩ => Nat.le_antisymm (Nat.le_of_lt_succ h₂) h₁,
    fun h => h ▸ ⟨Nat.le_refl _, Nat.lt_succ_self _⟩⟩

theorem mem_cut {p q : Span} {n : Nat} :
    q ∈ p.cut n ↔ (q = ⟨p.start, n⟩ ∨ q = ⟨n + 1, p.stop⟩) ∧ q.start < q.stop := by
  simp only [cut, List.mem_filter, List.mem_cons, List.not_mem_nil, or_false, decide_eq_true_eq]

end Span

namespace Spans

/-- every span has a number, and ends before the later ones start -/
structure Apart (l : List Span) : Prop where
  ascending : l.Pairwise fun p q => p.stop ≤ q.start
  nonempty : ∀ p ∈ l, p.start < p.stop

def Covers (l : List Span) (n : Nat) : Prop := ∃ p ∈ l, p.Holds n

def insert (p : Span) : List Span → List Span
  | [] => [p]
  | q :: rest => if p.start < q.start then p :: q :: rest else q :: insert p rest

/-- takes one number out, which splits the span that it stands in -/
def claim (n : Nat) : List Span → List Span
  | [] => []
  | p :: rest =>
    if n < p.start then p :: rest
    else if n < p.stop then p.cut n ++ rest
    else p :: claim n rest

theorem apart_nil : Apart [] := ⟨.nil, nofun⟩

theorem apart_cons {p : Span} {rest : List Span} :
    Apart (p :: rest) ↔
      p.start < p.stop ∧ (∀ q ∈ rest, p.stop ≤ q.start) ∧ Apart rest := by
  constructor
  · intro h
    obtain ⟨hp, hr⟩ := List.pairwise_cons.1 h.ascending
    exact ⟨h.nonempty p List.mem_cons_self, hp, hr,
      fun q hq => h.nonempty q (List.mem_cons_of_mem p hq)⟩
  · intro ⟨hp, hq, hr⟩
    refine ⟨List.pairwise_cons.2 ⟨hq, hr.ascending⟩, fun q hm => ?_⟩
    rcases List.mem_cons.1 hm with rfl | hm
    · exact hp
    · exact hr.nonempty q hm

theorem not_covers_nil (n : Nat) : ¬ Covers [] n := fun ⟨_, hp, _⟩ => by cases hp

theorem covers_cons {p : Span} {rest : List Span} {n : Nat} :
    Covers (p :: rest) n ↔ p.Holds n ∨ Covers rest n := by
  simp only [Covers, List.mem_cons, exists_eq_or_imp]

theorem covers_append {l m : List Span} {n : Nat} :
    Covers (l ++ m) n ↔ Covers l n ∨ Covers m n := by
  induction l with
  | nil => simp only [List.nil_append, not_covers_nil, false_or]
  | cons p l ih => rw [List.cons_append, covers_cons, covers_cons, ih, or_assoc]

/-- nothing before a span of an ascending list stands in the list -/
theorem le_of_covers {p : Span} {rest : List Span} {n : Nat} (h : Apart (p :: rest))
    (hc : Covers (p :: rest) n) : p.start ≤ n := by
  obtain ⟨hp, hle, _⟩ := apart_cons.1 h
  rcases covers_cons.1 hc with hn | ⟨q, hq, hn⟩
  · exact hn.1
  · have := hle q hq
    have := hn.1
    omega

theorem stop_le_of_covers {p : Span} {rest : List Span} {n : Nat} (h : Apart (p :: rest))
    (hc : Covers rest n) : p.stop ≤ n := by
  obtain ⟨q, hq, hn⟩ := hc
  exact Nat.le_trans ((apart_cons.1 h).2.1 q hq) hn.1

/-! ### one more span -/

theorem mem_insert {p q : Span} {l : List Span} : q ∈ insert p l ↔ q = p ∨ q ∈ l := by
  induction l with
  | nil => simp only [insert, List.mem_cons, List.not_mem_nil, or_false]
  | cons r rest ih =>
    rw [insert]
    split
    · rw [List.mem_cons]
    · rw [List.mem_cons, ih, List.mem_cons, or_left_comm]

theorem covers_insert {p : Span} {l : List Span} {n : Nat} :
    Covers (insert p l) n ↔ p.Holds n ∨ Covers l n := by
  simp only [Covers, mem_insert, exists_eq_or_imp]

/-- a span may be put in if it stands apart from the others -/
theorem apart_insert {p : Span} {l : List Span} (h : Apart l) (hp : p.start < p.stop)
    (hd : ∀ q ∈ l, p.stop ≤ q.start ∨ q.stop ≤ p.start) : Apart (insert p l) := by
  induction l with
  | nil => exact apart_cons.2 ⟨hp, nofun, apart_nil⟩
  | cons q rest ih =>
    obtain ⟨hq, hle, hr⟩ := apart_cons.1 h
    rw [insert]
    split
    · next hlt =>
      refine apart_cons.2 ⟨hp, fun r hm => ?_, h⟩
      have hpq : p.stop ≤ q.start := by
        rcases hd q List.mem_cons_self with hs | hs
        · exact hs
        · omega
      rcases List.mem_cons.1 hm with rfl | hm
      · exact hpq
      · have := hle r hm
        omega
    · next hge =>
      refine apart_cons.2 ⟨hq, fun r hm => ?_,
        ih hr fun r hr => hd r (List.mem_cons_of_mem q hr)⟩
      rcases mem_insert.1 hm with rfl | hm
      · rcases hd q List.mem_cons_self with hs | hs
        · omega
        · exact hs
      · exact hle r hm

/-! ### one number less -/

theorem covers_cut {p : Span} {n m : Nat} (h : p.Holds n) :
    Covers (p.cut n) m ↔ p.Holds m ∧ m ≠ n := by
  obtain ⟨h₁, h₂⟩ := h
  constructor
  · intro ⟨q, hq, hs, ht⟩
    obtain ⟨rfl | rfl, hlt⟩ := Span.mem_cut.1 hq
    · exact ⟨⟨hs, Nat.lt_trans ht h₂⟩, Nat.ne_of_lt ht⟩
    · exact ⟨⟨Nat.le_trans h₁ (Nat.le_of_succ_le hs), ht⟩, Nat.ne_of_gt hs⟩
  · intro ⟨⟨hs, ht⟩, hne⟩
    rcases Nat.lt_or_gt_of_ne hne with hlt | hgt
    · exact ⟨⟨p.start, n⟩, Span.mem_cut.2 ⟨.inl rfl, Nat.lt_of_le_of_lt hs hlt⟩, hs, hlt⟩
    · exact ⟨⟨n + 1, p.stop⟩, Span.mem_cut.2 ⟨.inr rfl, Nat.lt_of_le_of_lt hgt ht⟩, hgt, ht⟩

theorem apart_cut_append {p : Span} {rest : List Span} {n : Nat} (h : Apart (p :: rest))
    (hn : p.Holds n) : Apart (p.cut n ++ rest) := by
  obtain ⟨hp, hle, hr⟩ := apart_cons.1 h
  obtain ⟨h₁, h₂⟩ := hn
  have hright : Apart ([(⟨n + 1, p.stop⟩ : Span)].filter (fun q => q.start < q.stop) ++ rest) := by
    by_cases hs : n + 1 < p.stop
    · rw [List.filter_cons_of_pos (by simpa using hs)]
      exact apart_cons.2 ⟨hs, hle, hr⟩
    · rw [List.filter_cons_of_neg (by simpa using hs)]
      exact hr
  by_cases hs : p.start < n
  · rw [Span.cut, List.filter_cons_of_pos (by simpa using hs), List.cons_append]
    refine apart_cons.2 ⟨hs, fun q hq => ?_, hright⟩
    rcases List.mem_append.1 hq with hq | hq
    · obtain rfl := List.mem_singleton.1 (List.mem_filter.1 hq).1
      exact Nat.le_succ n
    · exact Nat.le_trans (Nat.le_of_lt h₂) (hle q hq)
  · rw [Span.cut, List.filter_cons_of_neg (by simpa using hs)]
    exact hright

theorem covers_claim {l : List Span} {n m : Nat} (h : Apart l) :
    Covers (claim n l) m ↔ Covers l m ∧ m ≠ n := by
  induction l with
  | nil => simp only [claim, not_covers_nil, false_and]
  | cons p rest ih =>
    rw [claim]
    split
    · next hlt =>
      exact ⟨fun hc => ⟨hc, by have := le_of_covers h hc; omega⟩, And.left⟩
    · next hge =>
      split
      · next hlt =>
        have hn : p.Holds n := ⟨Nat.le_of_not_lt hge, hlt⟩
        rw [covers_append, covers_cons, covers_cut hn]
        constructor
        · rintro (⟨hm, hne⟩ | hm)
          · exact ⟨.inl hm, hne⟩
          · have := stop_le_of_covers h hm
            exact ⟨.inr hm, by omega⟩
        · rintro ⟨hm | hm, hne⟩
          · exact .inl ⟨hm, hne⟩
          · exact .inr hm
      · next hstop =>
        rw [covers_cons, covers_cons, ih (apart_cons.1 h).2.2]
        constructor
        · rintro (hm | ⟨hm, hne⟩)
          · have := hm.2
            exact ⟨.inl hm, by omega⟩
          · exact ⟨.inr hm, hne⟩
        · rintro ⟨hm | hm, hne⟩
          · exact .inl hm
          · exact .inr ⟨hm, hne⟩

/-- what stands apart from all spans still does when a number is taken out -/
theorem mem_claim {l : List Span} {n : Nat} {q : Span} (h : q ∈ claim n l) :
    ∃ p ∈ l, p.start ≤ q.start ∧ q.stop ≤ p.stop := by
  induction l with
  | nil => cases h
  | cons p rest ih =>
    rw [claim] at h
    split at h
    · exact ⟨q, h, Nat.le_refl _, Nat.le_refl _⟩
    · next hge =>
      split at h
      · next hlt =>
        rcases List.mem_append.1 h with h | h
        · refine ⟨p, List.mem_cons_self, ?_⟩
          obtain ⟨rfl | rfl, hs⟩ := Span.mem_cut.1 h
          · exact ⟨Nat.le_refl _, Nat.le_of_lt hlt⟩
          · exact ⟨by show p.start ≤ n + 1; omega, Nat.le_refl _⟩
        · exact ⟨q, List.mem_cons_of_mem p h, Nat.le_refl _, Nat.le_refl _⟩
      · rcases List.mem_cons.1 h with rfl | h
        · exact ⟨q, List.mem_cons_self, Nat.le_refl _, Nat.le_refl _⟩
        · obtain ⟨r, hr, hle⟩ := ih h
          exact ⟨r, List.mem_cons_of_mem p hr, hle⟩

theorem apart_claim {l : List Span} {n : Nat} (h : Apart l) : Apart (claim n l) := by
  induction l with
  | nil => exact h
  | cons p rest ih =>
    obtain ⟨hp, hle, hr⟩ := apart_cons.1 h
    rw [claim]
    split
    · exact h
    · next hge =>
      split
      · next hlt => exact apart_cut_append h ⟨Nat.le_of_not_lt hge, hlt⟩
      · refine apart_cons.2 ⟨hp, fun q hq => ?_, ih hr⟩
        obtain ⟨r, hr, hs, _⟩ := mem_claim hq
        exact Nat.le_trans (hle r hr) hs

end Spans
end ScriptVars
