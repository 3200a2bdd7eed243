import Mathlib.Data.List.TakeWhile
import ScriptVars.Json.Printer
import ScriptVars.Json.Token

/-!
# Literals and numerals in JSON texts

* `Json.Delimited`              what does not go on with a numeral;
* `Json.scanNumeral?_append`    a numeral ends where something else begins;
* `Json.scanNumeral?_ofNat`     naturals are read as they are written;
* `Json.scanToken?_quote`       so are texts.
-/

namespace ScriptVars.Json

/-! ## Numerals -/

/-- nothing that goes on with a numeral -/
def Delimited (rest : List Char) : Prop :=
  ∀ c ∈ rest.head?, c.isDigit = false ∧ c ≠ '.' ∧ c ≠ 'e' ∧ c ≠ 'E'

theorem delimited_cons {c : Char} {rest : List Char}
    (h : c.isDigit = false ∧ c ≠ '.' ∧ c ≠ 'e' ∧ c ≠ 'E') : Delimited (c :: rest) := by
  simpa [Delimited] using h

section
variable {p : Char → Bool} {cs rest : List Char}

theorem takeWhile_append_of_head (h : ∀ c ∈ rest.head?, p c = false) :
    (cs ++ rest).takeWhile p = cs.takeWhile p := by
  induction cs with
  | nil =>
    cases rest with
    | nil => rfl
    | cons c rest => simp [h c rfl]
  | cons c cs ih => simp [List.takeWhile_cons, ih]

theorem dropWhile_append_of_head (h : ∀ c ∈ rest.head?, p c = false) :
    (cs ++ rest).dropWhile p = cs.dropWhile p ++ rest := by
  induction cs with
  | nil =>
    cases rest with
    | nil => rfl
    | cons c rest => simp [h c rfl]
  | cons c cs ih =>
    rw [List.cons_append, List.dropWhile_cons, List.dropWhile_cons, ih]
    split <;> rfl

end

section
variable {cs rest left : List Char}

theorem Delimited.noDigit (h : Delimited rest) : ∀ c ∈ rest.head?, c.isDigit = false :=
  fun c hc => (h c hc).1

theorem scanWhole?_append (hrest : Delimited rest) {digits : List Char}
    (h : scanWhole? cs = some (digits, left)) :
    scanWhole? (cs ++ rest) = some (digits, left ++ rest) := by
  rw [scanWhole?] at h ⊢
  rw [takeWhile_append_of_head hrest.noDigit, dropWhile_append_of_head hrest.noDigit]
  split at h
  · cases h
  · cases h
  · cases h
    rfl

theorem scanFraction?_point (cs : List Char) :
    scanFraction? ('.' :: cs) = if (cs.takeWhile Char.isDigit).isEmpty then none
      else some (cs.takeWhile Char.isDigit, cs.dropWhile Char.isDigit) := rfl

theorem scanFraction?_none (h : ∀ c ∈ cs.head?, c ≠ '.') : scanFraction? cs = some ([], cs) := by
  rw [scanFraction?]
  rintro rest rfl
  exact h '.' rfl rfl

theorem scanFraction?_append (hrest : Delimited rest) {digits : List Char}
    (h : scanFraction? cs = some (digits, left)) :
    scanFraction? (cs ++ rest) = some (digits, left ++ rest) := by
  by_cases hpoint : ∃ tail, cs = '.' :: tail
  · obtain ⟨tail, rfl⟩ := hpoint
    rw [scanFraction?_point] at h
    rw [List.cons_append, scanFraction?_point, takeWhile_append_of_head hrest.noDigit,
      dropWhile_append_of_head hrest.noDigit]
    split at h
    · cases h
    · next hdigits =>
      cases h
      exact if_neg hdigits
  · have hcs : ∀ c ∈ cs.head?, c ≠ '.' := by
      intro c hc hpt
      cases cs with
      | nil => cases hc
      | cons d tail => exact hpoint ⟨tail, by rw [← hpt, Option.some.inj hc]⟩
    rw [scanFraction?_none hcs] at h
    cases h
    refine scanFraction?_none fun c hc => ?_
    cases cs with
    | nil => exact (hrest c hc).2.1
    | cons d tail => exact hcs c hc

theorem scanPower?_append (hrest : Delimited rest) {negative : Bool} {exponent : Option Int}
    (h : scanPower? negative cs = some (exponent, left)) :
    scanPower? negative (cs ++ rest) = some (exponent, left ++ rest) := by
  rw [scanPower?] at h ⊢
  rw [takeWhile_append_of_head hrest.noDigit, dropWhile_append_of_head hrest.noDigit]
  dsimp only at h ⊢
  split at h
  · cases h
  · next hdigits =>
    cases h
    exact if_neg hdigits

theorem scanExponent?_other {c : Char} (hc : ¬ (c = 'e' ∨ c = 'E')) (cs : List Char) :
    scanExponent? (c :: cs) = some (none, c :: cs) := by
  cases cs <;> simp [scanExponent?, hc]

/-- behind the letter, a sign counts if there is one -/
theorem scanExponent?_letter {c : Char} (hc : c = 'e' ∨ c = 'E') (d : Char) (cs : List Char) :
    scanExponent? (c :: d :: cs) =
      if d = '+' then scanPower? false cs
      else if d = '-' then scanPower? true cs else scanPower? false (d :: cs) := by
  by_cases hplus : d = '+'
  · subst hplus
    simp [scanExponent?, hc]
  by_cases hminus : d = '-'
  · subst hminus
    simp [scanExponent?, hc]
  simp [scanExponent?, hc, hplus, hminus]

theorem scanExponent?_append (hrest : Delimited rest) {exponent : Option Int}
    (h : scanExponent? cs = some (exponent, left)) :
    scanExponent? (cs ++ rest) = some (exponent, left ++ rest) := by
  match cs with
  | [] =>
    cases h
    cases rest with
    | nil => rfl
    | cons c rest =>
      obtain ⟨-, -, he, hE⟩ := hrest c rfl
      exact scanExponent?_other (not_or.2 ⟨he, hE⟩) rest
  | [c] =>
    by_cases hc : c = 'e' ∨ c = 'E'
    · simp [scanExponent?, hc, scanPower?] at h
    · rw [scanExponent?_other hc] at h
      cases h
      exact scanExponent?_other hc rest
  | c :: d :: cs =>
    by_cases hc : c = 'e' ∨ c = 'E'
    · rw [scanExponent?_letter hc] at h
      rw [List.cons_append, List.cons_append, scanExponent?_letter hc]
      split at h
      · next hplus =>
        rw [if_pos hplus]
        exact scanPower?_append hrest h
      next hplus =>
      rw [if_neg hplus]
      split at h
      · next hminus =>
        rw [if_pos hminus]
        exact scanPower?_append hrest h
      · next hminus =>
        rw [if_neg hminus]
        exact scanPower?_append hrest h
    · rw [scanExponent?_other hc] at h
      cases h
      exact scanExponent?_other hc _

theorem scanUnsigned?_append (hrest : Delimited rest) {negative : Bool} {n : Numeral}
    (h : scanUnsigned? negative cs = some (n, left)) :
    scanUnsigned? negative (cs ++ rest) = some (n, left ++ rest) := by
  obtain ⟨⟨whole, left₁⟩, hwhole, h₁⟩ := Option.bind_eq_some_iff.1 h
  obtain ⟨⟨fraction, left₂⟩, hfraction, h₂⟩ := Option.bind_eq_some_iff.1 h₁
  obtain ⟨⟨exponent, left₃⟩, hexponent, h₃⟩ := Option.bind_eq_some_iff.1 h₂
  cases h₃
  refine Option.bind_eq_some_iff.2 ⟨_, scanWhole?_append hrest hwhole, ?_⟩
  refine Option.bind_eq_some_iff.2 ⟨_, scanFraction?_append hrest hfraction, ?_⟩
  exact Option.bind_eq_some_iff.2 ⟨_, scanExponent?_append hrest hexponent, rfl⟩

/-- a numeral ends where something else begins -/
theorem scanNumeral?_append (hrest : Delimited rest) {n : Numeral}
    (h : scanNumeral? cs = some (n, left)) :
    scanNumeral? (cs ++ rest) = some (n, left ++ rest) := by
  rw [scanNumeral?.eq_def] at h
  split at h
  · exact scanUnsigned?_append hrest h
  · next hsign =>
    rw [scanNumeral?]
    · exact scanUnsigned?_append hrest h
    · intro tail htail
      cases cs with
      | nil => cases h
      | cons c cs =>
        obtain ⟨rfl, -⟩ := List.cons.inj htail
        exact hsign cs rfl

end

/-! ## Naturals -/

theorem isDigit_of_mem_digitsOf {n : Nat} {c : Char} (h : c ∈ Numeral.digitsOf n) :
    c.isDigit = true := Nat.isDigit_of_mem_toDigits (by decide) (by decide) h

/-- only zero starts with a zero -/
theorem head?_digitsOf {n : Nat} (hn : 0 < n) : (Numeral.digitsOf n).head? ≠ some '0' := by
  induction n using Nat.strongRecOn with
  | ind n ih =>
    rw [Numeral.digitsOf, Nat.toDigits_eq_if (by decide)]
    split
    · next hlt =>
      have hdigit : ∀ d < 10, 0 < d → [Nat.digitChar d].head? ≠ some '0' := by decide
      exact hdigit n hlt hn
    · next hle =>
      have htail := ih (n / 10) (by omega) (by omega)
      rw [Numeral.digitsOf] at htail
      cases hdigits : Nat.toDigits 10 (n / 10) with
      | nil => exact absurd hdigits Nat.toDigits_ne_nil
      | cons c tail =>
        rw [hdigits] at htail
        exact htail

theorem scanWhole?_digitsOf (n : Nat) : scanWhole? (Numeral.digitsOf n) =
    some (Numeral.digitsOf n, []) := by
  have hall : ∀ c ∈ Numeral.digitsOf n, c.isDigit = true := fun c => isDigit_of_mem_digitsOf
  rw [scanWhole?, List.takeWhile_eq_self_iff.2 hall, List.dropWhile_eq_nil_iff.2 hall]
  split
  · next hnil => exact absurd hnil Nat.toDigits_ne_nil
  · next c tail hdigits =>
    by_cases hz : n = 0
    · subst hz
      cases hdigits
    · exact absurd (congrArg List.head? hdigits) (head?_digitsOf (Nat.pos_of_ne_zero hz))
  · rfl

theorem scanNumeral?_ofNat (n : Nat) :
    scanNumeral? (Numeral.ofNat n).chars = some (.ofNat n, []) := by
  have hchars : (Numeral.ofNat n).chars = Numeral.digitsOf n := by simp [Numeral.chars, Numeral.ofNat]
  rw [hchars, scanNumeral?]
  · refine Option.bind_eq_some_iff.2 ⟨_, scanWhole?_digitsOf n, ?_⟩
    exact Option.bind_eq_some_iff.2 ⟨_, rfl, Option.bind_eq_some_iff.2 ⟨_, rfl, rfl⟩⟩
  · intro tail htail
    have hsign := isDigit_of_mem_digitsOf (n := n) (c := '-') (htail ▸ List.mem_cons_self)
    exact absurd hsign (by decide)

theorem accumulate_eq {n m : Nat} {l : List Char} (hm : Nat.ofDigitChars 10 l n = m)
    (hlt : m < Numeral.exactLimit) : Numeral.accumulate n l = (m, []) := by
  induction l generalizing n with
  | nil =>
    rw [Numeral.accumulate]
    exact congrArg (·, []) hm
  | cons c l ih =>
    rw [Nat.ofDigitChars_cons, Nat.mul_comm] at hm
    have hle : n * 10 + Numeral.digitValue c ≤ m := by
      rw [← hm, Nat.ofDigitChars_eq_ofDigitChars_zero]
      exact Nat.le_add_right_of_le (Nat.le_mul_of_pos_left _ (Nat.pow_pos (by decide)))
    rw [Numeral.accumulate]
    exact (if_pos (Nat.lt_of_le_of_lt hle hlt)).trans (ih hm)

theorem quantity?_ofNat {n : Nat} (hn : n < Numeral.exactLimit) :
    (Numeral.ofNat n).quantity? = some (.natural n) := by
  have hdigits : Numeral.accumulate 0 (Numeral.ofNat n).whole = (n, []) :=
    accumulate_eq (Nat.ofDigitChars_toDigits (by decide) (by decide)) hn
  rw [Numeral.quantity?, hdigits]
  rfl

theorem natural?_ofNat {n limit : Nat} (hn : n < limit) (hlimit : limit ≤ Numeral.exactLimit) :
    (ofNat n).natural? limit = some n := by
  rw [ofNat, natural?, quantity?_ofNat (Nat.lt_of_lt_of_le hn hlimit)]
  exact if_pos hn

theorem byte?_ofNat (b : UInt8) : (ofNat b.toNat).byte? = some b := by
  rw [byte?, natural?_ofNat b.toNat_lt (by decide), Option.map_some, UInt8.ofNat_toNat]

theorem word?_ofNat (w : UInt32) : (ofNat w.toNat).word? = some w := by
  rw [word?, natural?_ofNat w.toNat_lt (by decide), Option.map_some, UInt32.ofNat_toNat]

/-! ## Texts -/

/-- how a character is found in a literal: control characters without a short escape are units -/
def partOf (c : Char) : LiteralPart :=
  if c ∈ ['"', '\\', '\x08', '\x0c', '\n', '\r', '\t'] then .char c
  else if c.toNat < 0x20 then .unit c.toNat
  else .char c

def fourDigits? : List Char → Option Nat
  | [a, b, c, d] => unit? a b c d
  | _ => none

theorem fourDigits?_hexDigits : ∀ n < 0x20,
    fourDigits? (List.replicate (4 - (Padded.hexDigits n).length) '0' ++ Padded.hexDigits n) =
      some n := by decide +kernel

theorem scanLiteral?_unit {digits : List Char} {n : Nat} (h : fourDigits? digits = some n)
    (done : List LiteralPart) (rest : List Char) :
    scanLiteral? done ('\\' :: 'u' :: (digits ++ rest)) = scanLiteral? (.unit n :: done) rest := by
  match digits, h with
  | [a, b, c, d], h =>
    change unit? a b c d = some n at h
    show scanLiteral? done ('\\' :: 'u' :: a :: b :: c :: d :: rest) = _
    rw [scanLiteral?, h]

theorem scanLiteral?_quoteChar (done : List LiteralPart) (c : Char) (rest : List Char) :
    scanLiteral? done (quoteChar c ++ rest) = scanLiteral? (partOf c :: done) rest := by
  by_cases hshort : c ∈ ['"', '\\', '\x08', '\x0c', '\n', '\r', '\t']
  · simp only [List.mem_cons, List.not_mem_nil, or_false] at hshort
    rcases hshort with rfl | rfl | rfl | rfl | rfl | rfl | rfl <;> rfl
  rw [partOf, if_neg hshort]
  simp only [List.mem_cons, List.not_mem_nil, or_false, not_or] at hshort
  obtain ⟨hquote, hslash, hb, hf, hn, hr, ht⟩ := hshort
  rw [quoteChar, if_neg hquote, if_neg hslash, if_neg hb, if_neg hf, if_neg hn, if_neg hr, if_neg ht]
  by_cases hcontrol : c.toNat < 0x20
  · rw [if_pos hcontrol, if_pos hcontrol]
    exact scanLiteral?_unit (fourDigits?_hexDigits _ hcontrol) done rest
  · rw [if_neg hcontrol, if_neg hcontrol, List.singleton_append, scanLiteral?]
    · simp [hslash, hcontrol]
    · exact hquote
    · exact fun _ _ _ _ _ h => absurd h hslash
    · exact fun _ _ h => absurd h hslash

theorem scanLiteral?_flatMap (done : List LiteralPart) (cs rest : List Char) :
    scanLiteral? done (cs.flatMap quoteChar ++ '"' :: rest) =
      some (done.reverse ++ cs.map partOf, rest) := by
  induction cs generalizing done with
  | nil => simp [scanLiteral?]
  | cons c cs ih =>
    rw [List.flatMap_cons, List.append_assoc, scanLiteral?_quoteChar, ih]
    simp

/-- a unit that is no half of a pair -/
theorem joinUnits?_unit {n : Nat} (hn : n < 0xD800) (done : List Char) (rest : List LiteralPart) :
    joinUnits? done (.unit n :: rest) = joinUnits? (Char.ofNat n :: done) rest := by
  have hhigh : (decide (0xD800 ≤ n)) = false := decide_eq_false (Nat.not_le.2 hn)
  have hlow : (decide (0xDC00 ≤ n)) = false := decide_eq_false (by omega)
  match rest with
  | [] => simp [joinUnits?, hhigh]
  | .char c :: rest => simp [joinUnits?, hhigh]
  | .unit low :: rest => simp [joinUnits?, hhigh, hlow]

theorem joinUnits?_map (done cs : List Char) :
    joinUnits? done (cs.map partOf) = some (done.reverse ++ cs) := by
  induction cs generalizing done with
  | nil => simp [joinUnits?]
  | cons c cs ih =>
    rw [List.map_cons]
    have hstep : joinUnits? done (partOf c :: cs.map partOf) =
        joinUnits? (c :: done) (cs.map partOf) := by
      rw [partOf]
      split
      · rfl
      split
      · next hcontrol =>
        rw [joinUnits?_unit (by omega), Char.ofNat_toNat]
      · rfl
    rw [hstep, ih]
    simp

/-- a text is read as it is written -/
theorem scanToken?_quote (s : String) (rest : List Char) :
    scanToken? ('"' :: (s.toList.flatMap quoteChar ++ '"' :: rest)) =
      some (.string (some s), rest) := by
  rw [scanToken?, scanLiteral?_flatMap]
  simp [joinUnits?_map]

end ScriptVars.Json
