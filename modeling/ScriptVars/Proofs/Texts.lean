import ScriptVars.Text.Utf8

/-!
# Texts as bytes and back

* `Utf8.decodeFrom_char`   a character is decoded from its bytes;
* `Utf8.repair_encode`     nothing of a text is damaged;
* `Utf8.strict?_encode`    so it is never refused.
-/

namespace ScriptVars.Utf8

variable {done : List (Option Char)} {rest : List UInt8} {n : Nat}

theorem toNat_ofNat_byte (h : n < 256) : (UInt8.ofNat n).toNat = n := UInt8.toNat_ofNat_of_lt' h

theorem decodeFrom_begun {p : Partial} {b : UInt8} (h : start b = .begun p) :
    decodeFrom done none (b :: rest) = decodeFrom done (some p) rest := by
  rw [decodeFrom, h]

/-- the last byte of a character -/
theorem decodeFrom_last {least greatest value : Nat} (hn : n < 256) (hl : least ≤ n)
    (hg : n ≤ greatest) :
    decodeFrom done (some ⟨1, least, greatest, value⟩) (UInt8.ofNat n :: rest) =
      decodeFrom (some (Char.ofNat (value * 64 + (n - 0x80))) :: done) none rest := by
  rw [decodeFrom, toNat_ofNat_byte hn, decide_eq_true hl, decide_eq_true hg]
  rfl

/-- a byte inside of a character -/
theorem decodeFrom_more {missing least greatest value : Nat} (hn : n < 256) (hl : least ≤ n)
    (hg : n ≤ greatest) :
    decodeFrom done (some ⟨missing + 2, least, greatest, value⟩) (UInt8.ofNat n :: rest) =
      decodeFrom done (some ⟨missing + 1, 0x80, 0xBF, value * 64 + (n - 0x80)⟩) rest := by
  rw [decodeFrom, toNat_ofNat_byte hn, decide_eq_true hl, decide_eq_true hg]
  rfl

/-- the bytes of a character are decoded to it -/
theorem decodeFrom_char (done : List (Option Char)) (c : Char) (rest : List UInt8) :
    decodeFrom done none (String.utf8EncodeChar c ++ rest) =
      decodeFrom (some c :: done) none rest := by
  have hc : c.val.toNat < 0xD800 ∨ 0xDFFF < c.val.toNat ∧ c.val.toNat < 0x110000 := c.valid
  have hv : Char.ofNat c.val.toNat = c := Char.ofNat_toNat c
  rw [String.utf8EncodeChar]
  generalize c.val.toNat = v at hc hv
  by_cases h₁ : v ≤ 0x7F
  · rw [if_pos h₁]
    have hs : start (UInt8.ofNat v) = .char c := by
      rw [start, toNat_ofNat_byte (by omega), if_pos (by omega), hv]
    rw [List.singleton_append, decodeFrom, hs]
  rw [if_neg h₁]
  by_cases h₂ : v ≤ 0x7FF
  · rw [if_pos h₂]
    have hs : start (UInt8.ofNat (v / 64 % 0x20 + 0xC0)) = .begun ⟨1, 0x80, 0xBF, v / 64⟩ := by
      rw [start, toNat_ofNat_byte (by omega), if_neg (by omega), if_neg (by omega),
        if_pos (by omega), show v / 64 % 0x20 + 0xC0 - 0xC0 = v / 64 by omega]
    have hvalue : v / 64 * 64 + (v % 0x40 + 0x80 - 0x80) = v := by omega
    rw [List.cons_append, List.singleton_append, decodeFrom_begun hs,
      decodeFrom_last (by omega) (by omega) (by omega), hvalue, hv]
  rw [if_neg h₂]
  by_cases h₃ : v ≤ 0xFFFF
  · rw [if_pos h₃]
    -- the second byte is bounded where a shorter form or a surrogate begins the same
    generalize hlead : v / 4096 % 0x10 + 0xE0 = lead
    have hs : start (UInt8.ofNat lead) = .begun ⟨2, if lead = 0xE0 then 0xA0 else 0x80,
        if lead = 0xED then 0x9F else 0xBF, v / 4096⟩ := by
      rw [start, toNat_ofNat_byte (by omega), if_neg (by omega), if_neg (by omega),
        if_neg (by omega), if_pos (by omega), show lead - 0xE0 = v / 4096 by omega]
    have hvalue : (v / 4096 * 64 + (v / 64 % 0x40 + 0x80 - 0x80)) * 64 +
        (v % 0x40 + 0x80 - 0x80) = v := by omega
    rw [List.cons_append, List.cons_append, List.singleton_append, decodeFrom_begun hs,
      decodeFrom_more (by omega) (by split <;> omega) (by split <;> omega),
      decodeFrom_last (by omega) (by omega) (by omega), hvalue, hv]
  · rw [if_neg h₃]
    generalize hlead : v / 262144 % 0x08 + 0xF0 = lead
    have hs : start (UInt8.ofNat lead) = .begun ⟨3, if lead = 0xF0 then 0x90 else 0x80,
        if lead = 0xF4 then 0x8F else 0xBF, v / 262144⟩ := by
      rw [start, toNat_ofNat_byte (by omega), if_neg (by omega), if_neg (by omega),
        if_neg (by omega), if_neg (by omega), if_pos (by omega),
        show lead - 0xF0 = v / 262144 by omega]
    have hvalue : ((v / 262144 * 64 + (v / 4096 % 0x40 + 0x80 - 0x80)) * 64 +
        (v / 64 % 0x40 + 0x80 - 0x80)) * 64 + (v % 0x40 + 0x80 - 0x80) = v := by omega
    rw [List.cons_append, List.cons_append, List.cons_append, List.singleton_append,
      decodeFrom_begun hs, decodeFrom_more (by omega) (by split <;> omega) (by split <;> omega),
      decodeFrom_more (by omega) (by omega) (by omega),
      decodeFrom_last (by omega) (by omega) (by omega), hvalue, hv]

theorem decodeFrom_flatMap (chars : List Char) (done : List (Option Char)) :
    decodeFrom done none (chars.flatMap String.utf8EncodeChar) =
      done.reverse ++ chars.map some := by
  induction chars generalizing done with
  | nil => rw [List.flatMap_nil, decodeFrom, List.map_nil, List.append_nil]
  | cons c chars ih =>
    rw [List.flatMap_cons, decodeFrom_char, ih, List.reverse_cons, List.append_assoc,
      List.map_cons, List.singleton_append]

theorem decode_encode (s : String) : decode (encode s) = s.toList.map some := by
  rw [decode, encode_eq_flatMap, decodeFrom_flatMap, List.reverse_nil, List.nil_append]

/-- nothing of a text is damaged -/
theorem repair_encode (s : String) : repair (encode s) = s := by
  rw [repair, decode_encode, List.map_map,
    show (fun o : Option Char => o.getD replacement) ∘ some = id from rfl, List.map_id,
    String.ofList_toList]

theorem strict?_encode (s : String) : strict? (encode s) = some s := by
  have hwhole : (s.toList.map some).all (·.isSome) = true :=
    List.all_eq_true.2 (List.forall_mem_map.2 fun _ _ => rfl)
  have hchars : (s.toList.map some).filterMap id = s.toList := by
    rw [List.filterMap_map]
    exact List.filterMap_some
  rw [strict?, decode_encode, if_pos hwhole, hchars, String.ofList_toList]

/-- one character over and over -/
theorem utf8ByteSize_replicate (n : Nat) (c : Char) :
    (String.ofList (List.replicate n c)).utf8ByteSize = n * (String.utf8EncodeChar c).length := by
  show (encode (String.ofList (List.replicate n c))).length = _
  rw [encode_eq_flatMap, String.toList_ofList, List.length_flatMap, List.map_replicate,
    List.sum_replicate_nat]

end ScriptVars.Utf8
