import Mathlib.Data.Nat.Digits.Lemmas
import ScriptVars.Proofs.Splitting

/-!
# Indices in writing

The grammar of module indices, without the way in which they are read: digits are characters, and
what they stand for is a sum of powers of the base.  The texts in which an index is found are those
of the grammar.

* `IsDigit`, `Writes`, `IsNumeral`, `IsIndex`     the grammar;
* `digitValue?_eq_some_iff`, `digitsValue?_eq_some_iff`   digits, up to the limit of a byte;
* `numeral?_eq_some_iff`, `index?_eq_some_iff`    numerals and indices;
* `writes_toDigits`                               the digits of a number write it.
-/

namespace ScriptVars.ModuleMap

/-! ## The grammar -/

/-- a character is a digit with a value, small or capital where it is a letter -/
def IsDigit (base : Nat) (c : Char) (value : Nat) : Prop :=
  value < base ∧ (c = value.digitChar ∨ c = value.digitChar.toUpper)

/-- one digit or more, the highest one first, with the number they stand for -/
def Writes (base : Nat) (digits : List Char) (n : Nat) : Prop :=
  digits ≠ [] ∧
    ∃ values, List.Forall₂ (IsDigit base) digits values ∧ Nat.ofDigits base values.reverse = n

/-- digits with a plus sign or without one, for a number that fits in a byte -/
inductive IsNumeral (base : Nat) : List Char → UInt8 → Prop
  | plain {digits : List Char} {i : UInt8} (h : Writes base digits i.toNat) :
      IsNumeral base digits i
  | plus {digits : List Char} {i : UInt8} (h : Writes base digits i.toNat) :
      IsNumeral base ('+' :: digits) i

/-- a decimal numeral, or a hexadecimal one behind a zero and a letter -/
inductive IsIndex : List Char → UInt8 → Prop
  | decimal {cs : List Char} {i : UInt8} (h : IsNumeral 10 cs i) : IsIndex cs i
  | hexadecimal {x : Char} {cs : List Char} {i : UInt8} (hx : x = 'x' ∨ x = 'X')
      (h : IsNumeral 16 cs i) : IsIndex ('0' :: x :: cs) i

/-! ## Digits -/

theorem digitValue?_digitChar : ∀ value < 16, ∀ base ≤ 16,
    digitValue? base value.digitChar = (if value < base then some value else none) ∧
      digitValue? base value.digitChar.toUpper = if value < base then some value else none := by
  decide

/-- the digits of one range of characters -/
theorem digitChar_of_range (first count : Nat) {c lo hi : Char} (hlo : lo ≤ c) (hhi : c ≤ hi)
    (hcount : hi.toNat < lo.toNat + count) {f : Char → Char}
    (hf : ∀ n < count, f (n + first).digitChar = Char.ofNat (lo.toNat + n)) :
    c = f (c.toNat - lo.toNat + first).digitChar := by
  have h₁ : lo.toNat ≤ c.toNat := hlo
  have h₂ : c.toNat ≤ hi.toNat := hhi
  rw [hf _ (by omega), Nat.add_sub_cancel' h₁, Char.ofNat_toNat]

theorem digitValue?_eq_some_iff {base : Nat} (hbase : base ≤ 16) {c : Char} {value : Nat} :
    digitValue? base c = some value ↔ IsDigit base c value := by
  constructor
  · intro h
    unfold digitValue? at h
    obtain ⟨hlt, h⟩ := Option.ite_none_right_eq_some.1 h
    rw [← Option.some.inj h]
    refine ⟨hlt, ?_⟩
    split at hlt
    · next hc =>
      rw [if_pos hc]
      exact .inl (digitChar_of_range 0 10 (f := id) hc.1 hc.2 (by decide) (by decide))
    · next hdecimal =>
      rw [if_neg hdecimal]
      split at hlt
      · next hc =>
        rw [if_pos hc]
        exact .inl (digitChar_of_range 10 6 (f := id) hc.1 hc.2 (by decide) (by decide))
      · next hsmall =>
        rw [if_neg hsmall]
        split at hlt
        · next hc =>
          rw [if_pos hc]
          exact .inr (digitChar_of_range 10 6 (f := Char.toUpper) hc.1 hc.2 (by decide)
            (by decide))
        · exact absurd hlt (Nat.lt_irrefl base)
  · rintro ⟨hlt, hc⟩
    obtain ⟨hsmall, hcapital⟩ := digitValue?_digitChar value (hlt.trans_le hbase) base hbase
    rw [if_pos hlt] at hsmall hcapital
    rcases hc with rfl | rfl
    · exact hsmall
    · exact hcapital

/-- one more digit in front -/
theorem ofDigits_reverse_cons (base d : Nat) (values : List Nat) (n : Nat) :
    n * base ^ (d :: values).length + Nat.ofDigits base (d :: values).reverse =
      (n * base + d) * base ^ values.length + Nat.ofDigits base values.reverse := by
  rw [List.reverse_cons, Nat.ofDigits_append, Nat.ofDigits_singleton, List.length_reverse,
    List.length_cons, Nat.pow_succ]
  ring

/-- digits are read one after the other; what has passed the limit does not come back -/
theorem digitsValue?_eq_some_iff {base : Nat} (hpos : 0 < base) (hbase : base ≤ 16)
    {digits : List Char} {n m : Nat} (hn : n < 256) :
    digitsValue? base n digits = some m ↔
      m < 256 ∧ ∃ values, List.Forall₂ (IsDigit base) digits values ∧
        n * base ^ values.length + Nat.ofDigits base values.reverse = m := by
  induction digits generalizing n with
  | nil =>
    rw [digitsValue?, Option.some_inj]
    constructor
    · rintro rfl
      exact ⟨hn, [], .nil, by rw [List.length_nil, Nat.pow_zero, Nat.mul_one]; rfl⟩
    · rintro ⟨-, values, hvalues, hm⟩
      cases hvalues
      rw [List.length_nil, Nat.pow_zero, Nat.mul_one] at hm
      exact hm
  | cons c digits ih =>
    rw [digitsValue?]
    constructor
    · intro h
      obtain ⟨d, hd, h⟩ := Option.bind_eq_some_iff.1 h
      obtain ⟨hnext, h⟩ := Option.ite_none_right_eq_some.1 h
      obtain ⟨hm, values, hvalues, hval⟩ := (ih hnext).1 h
      refine ⟨hm, d :: values, .cons ((digitValue?_eq_some_iff hbase).1 hd) hvalues, ?_⟩
      rw [ofDigits_reverse_cons, hval]
    · rintro ⟨hm, values, hvalues, hval⟩
      cases hvalues with
      | @cons _ d _ values hd hvalues =>
        rw [ofDigits_reverse_cons] at hval
        -- more digits make no number smaller, so the limit holds at each of them
        have hle : n * base + d ≤ (n * base + d) * base ^ values.length :=
          Nat.le_mul_of_pos_right _ (Nat.pow_pos hpos)
        have hnext : n * base + d < 256 := by omega
        refine Option.bind_eq_some_iff.2 ⟨d, (digitValue?_eq_some_iff hbase).2 hd, ?_⟩
        exact Option.ite_none_right_eq_some.2 ⟨hnext, (ih hnext).2 ⟨hm, values, hvalues, hval⟩⟩

theorem digitsValue?_map_eq_some_iff {base : Nat} (hpos : 0 < base) (hbase : base ≤ 16)
    {digits : List Char} {i : UInt8} (hne : digits ≠ []) :
    (digitsValue? base 0 digits).map UInt8.ofNat = some i ↔ Writes base digits i.toNat := by
  rw [Option.map_eq_some_iff]
  constructor
  · rintro ⟨m, hm, rfl⟩
    obtain ⟨hlt, values, hvalues, hval⟩ :=
      (digitsValue?_eq_some_iff hpos hbase (Nat.zero_lt_succ _)).1 hm
    rw [Nat.zero_mul, Nat.zero_add] at hval
    exact ⟨hne, values, hvalues, by rw [hval, UInt8.toNat_ofNat_of_lt' hlt]⟩
  · rintro ⟨-, values, hvalues, hval⟩
    refine ⟨i.toNat, (digitsValue?_eq_some_iff hpos hbase (Nat.zero_lt_succ _)).2
      ⟨i.toNat_lt, values, hvalues, ?_⟩, UInt8.ofNat_toNat⟩
    rw [Nat.zero_mul, Nat.zero_add, hval]

/-- the characters that an index is made of -/
def indexChars : List Char := "0123456789abcdefABCDEF+xX".toList

theorem IsDigit.mem_indexChars {base value : Nat} {c : Char} (hbase : base ≤ 16)
    (h : IsDigit base c value) : c ∈ indexChars := by
  obtain ⟨hlt, hc⟩ := h
  have hall : ∀ d < 16, d.digitChar ∈ indexChars ∧ d.digitChar.toUpper ∈ indexChars := by decide
  obtain ⟨hsmall, hcapital⟩ := hall value (hlt.trans_le hbase)
  rcases hc with rfl | rfl
  · exact hsmall
  · exact hcapital

theorem Writes.mem_indexChars {base n : Nat} {digits : List Char} (hbase : base ≤ 16)
    (h : Writes base digits n) : ∀ c ∈ digits, c ∈ indexChars := by
  obtain ⟨-, values, hvalues, -⟩ := h
  induction hvalues with
  | nil => exact nofun
  | cons hd _ ih => exact List.forall_mem_cons.2 ⟨hd.mem_indexChars hbase, ih⟩

/-! ## Indices -/

theorem IsNumeral.ne_nil {base : Nat} {cs : List Char} {i : UInt8} (h : IsNumeral base cs i) :
    cs ≠ [] := by
  cases h with
  | plain h => exact h.1
  | plus h => exact List.cons_ne_nil _ _

theorem IsNumeral.mem_indexChars {base : Nat} (hbase : base ≤ 16) {cs : List Char} {i : UInt8}
    (h : IsNumeral base cs i) : ∀ c ∈ cs, c ∈ indexChars := by
  cases h with
  | plain h => exact h.mem_indexChars hbase
  | plus h => exact List.forall_mem_cons.2 ⟨by decide, h.mem_indexChars hbase⟩

theorem IsIndex.ne_nil {cs : List Char} {i : UInt8} (h : IsIndex cs i) : cs ≠ [] := by
  cases h with
  | decimal h => exact h.ne_nil
  | hexadecimal hx h => exact List.cons_ne_nil _ _

theorem IsIndex.mem_indexChars {cs : List Char} {i : UInt8} (h : IsIndex cs i) :
    ∀ c ∈ cs, c ∈ indexChars := by
  cases h with
  | decimal h => exact h.mem_indexChars (by decide)
  | hexadecimal hx h =>
    refine List.forall_mem_cons.2 ⟨by decide, List.forall_mem_cons.2 ⟨?_, ?_⟩⟩
    · rcases hx with rfl | rfl <;> decide
    · exact h.mem_indexChars (by decide)

theorem IsIndex.tight {cs : List Char} {i : UInt8} (h : IsIndex cs i) : Text.Tight cs := by
  have hnone : indexChars.any Text.isBlank = false := by decide
  exact Text.tight_of_forall fun c hc =>
    Bool.eq_false_iff.2 (List.any_eq_false.1 hnone c (h.mem_indexChars c hc))

theorem numeral?_eq_some_iff {base : Nat} (hpos : 0 < base) (hbase : base ≤ 16) {cs : List Char}
    {i : UInt8} : numeral? base cs = some i ↔ IsNumeral base cs i := by
  -- a plus sign is no digit, so it is in front of the digits and not one of them
  have hplus : ∀ {digits : List Char} {n : Nat}, ¬ Writes base ('+' :: digits) n := by
    rintro digits n ⟨-, values, hvalues, -⟩
    cases hvalues with
    | cons hd _ =>
      have hnone : digitValue? base '+' = none := by
        unfold digitValue?
        exact if_neg (Nat.lt_irrefl base)
      rw [(digitValue?_eq_some_iff hbase).2 hd] at hnone
      cases hnone
  unfold numeral?
  constructor
  · intro h
    split at h
    · next rest =>
      obtain ⟨hne, h⟩ := Option.ite_none_left_eq_some.1 h
      rw [List.isEmpty_iff] at hne
      exact .plus ((digitsValue?_map_eq_some_iff hpos hbase hne).1 h)
    · obtain ⟨hne, h⟩ := Option.ite_none_left_eq_some.1 h
      rw [List.isEmpty_iff] at hne
      exact .plain ((digitsValue?_map_eq_some_iff hpos hbase hne).1 h)
  · intro h
    cases h with
    | plus h =>
      show (if _ then _ else _) = _
      rw [if_neg (by rw [List.isEmpty_iff]; exact h.1)]
      exact (digitsValue?_map_eq_some_iff hpos hbase h.1).2 h
    | plain h =>
      split
      · exact absurd h hplus
      · rw [if_neg (by rw [List.isEmpty_iff]; exact h.1)]
        exact (digitsValue?_map_eq_some_iff hpos hbase h.1).2 h

theorem index?_eq_some_iff {cs : List Char} {i : UInt8} : index? cs = some i ↔ IsIndex cs i := by
  -- no decimal numeral begins like a hexadecimal one
  have hnot : ∀ {x : Char} {rest : List Char}, x = 'x' ∨ x = 'X' →
      ¬ IsNumeral 10 ('0' :: x :: rest) i := by
    intro x rest hx h
    rw [← numeral?_eq_some_iff (by decide) (by decide)] at h
    rcases hx with rfl | rfl <;> cases h
  have hhex : ∀ {x : Char} {rest : List Char}, x = 'x' ∨ x = 'X' →
      (numeral? 16 rest = some i ↔ IsIndex ('0' :: x :: rest) i) := by
    intro x rest hx
    rw [numeral?_eq_some_iff (by decide) (by decide)]
    constructor
    · exact .hexadecimal hx
    · rintro (h | ⟨-, h⟩)
      · exact absurd h (hnot hx)
      · exact h
  unfold index?
  split
  · exact hhex (.inl rfl)
  · exact hhex (.inr rfl)
  · next hsmall hcapital =>
    rw [numeral?_eq_some_iff (by decide) (by decide)]
    constructor
    · exact .decimal
    · rintro (h | ⟨rfl | rfl, h⟩)
      · exact h
      · exact absurd rfl (hsmall _)
      · exact absurd rfl (hcapital _)

/-! ## Digits of a number -/

/-- the digits that a number has are those that write it -/
theorem writes_toDigits {base : Nat} (hbase : 1 < base) (n : Nat) :
    Writes base (Nat.toDigits base n) n := by
  induction n using Nat.strong_induction_on with
  | _ n ih =>
    by_cases hlt : n < base
    · rw [Nat.toDigits_of_lt_base hlt]
      exact ⟨List.cons_ne_nil _ _, [n], .cons ⟨hlt, .inl rfl⟩ .nil,
        by rw [List.reverse_singleton, Nat.ofDigits_singleton]⟩
    · have hle : base ≤ n := Nat.not_lt.1 hlt
      obtain ⟨-, values, hvalues, hval⟩ := ih (n / base) (Nat.div_lt_self (by omega) hbase)
      rw [Nat.toDigits_of_base_le hbase hle]
      refine ⟨List.append_ne_nil_of_right_ne_nil _ (List.cons_ne_nil _ _), values ++ [n % base],
        ?_, ?_⟩
      · exact List.rel_append hvalues (.cons ⟨Nat.mod_lt n (by omega), .inl rfl⟩ .nil)
      · rw [List.reverse_append, List.reverse_singleton, List.singleton_append, Nat.ofDigits_cons,
          hval]
        exact Nat.mod_add_div n base

theorem isNumeral_toDigits {base : Nat} (hbase : 1 < base) (i : UInt8) :
    IsNumeral base (String.ofList (Nat.toDigits base i.toNat)).toList i := by
  rw [String.toList_ofList]
  exact .plain (writes_toDigits hbase i.toNat)

end ScriptVars.ModuleMap
