import Mathlib.Order.Nat
import ScriptVars.Record.Stream

/-!
# Offsets of a stream

A stream is read and written through offsets into one row of bytes.  They stay within the bytes,
whatever these are: also a header that is refused leaves them there.

* `Stream.InBounds`                  the offsets are within the bytes;
* `Stream.next_cases`                going on finds the end, is refused, or passes a header;
* `Stream.read_take`                 bytes are read if the record still has them;
* `Stream.write_of_some`             bytes are added, and the length is brought up to date;
* `Stream.Invariant`                 what going on, reading and going back keep;
* `Stream.invariant_holds`, `keeps_openRecord`, `keeps_write`   they, and writing, keep the bounds.
-/

namespace ScriptVars

open ScriptVars.Action

namespace Stream

variable {s : Stream}

/-! ## What calls do -/

/-- the places to read at are within the bytes, and so are the four bytes of an open length -/
structure InBounds (s : Stream) : Prop where
  position : s.position ≤ s.bytes.size
  recordEnd : s.recordEnd ≤ s.bytes.size
  lengthAt : ∀ i, s.lengthAt = some i → i + 4 ≤ s.bytes.size

theorem inBounds_ofBytes (bytes : List UInt8) : (ofBytes bytes).InBounds :=
  ⟨Nat.zero_le _, Nat.zero_le _, nofun⟩

theorem length_slice (s : Stream) (start stop : Nat) :
    (s.slice start stop).length = min stop s.bytes.size - start := by
  rw [slice, Array.length_toList, Array.size_extract]

theorem take_slice (s : Stream) {start stop n : Nat} (h : start + n ≤ stop) :
    (s.slice start stop).take n = s.slice start (start + n) := by
  rw [slice_eq, slice_eq, List.take_take, Nat.min_eq_left (by omega), Nat.add_sub_cancel_left]

theorem drop_slice (s : Stream) (start stop n : Nat) :
    (s.slice start stop).drop n = s.slice (start + n) stop := by
  rw [slice_eq, slice_eq, List.drop_take, List.drop_drop, Nat.sub_sub]

/-! ### going on -/

theorem next_of_end (h : s.recordEnd = s.bytes.size) :
    next s = .ok none { s with position := s.recordEnd } := by
  have hnil : s.slice s.recordEnd (s.recordEnd + Header.size) = [] := by
    rw [slice_eq, h, ← Array.length_toList, List.drop_length, List.take_nil]
  rw [next_eq]
  exact if_pos hnil

/-- bytes are left, but no whole header -/
theorem next_of_truncated (h : s.recordEnd < s.bytes.size)
    (hlt : s.bytes.size < s.recordEnd + Header.size) :
    next s = .error (.format (.truncatedHeader s.recordEnd)) { s with position := s.recordEnd } := by
  have hlen := s.length_slice s.recordEnd (s.recordEnd + Header.size)
  rw [Nat.min_eq_right hlt.le] at hlen
  have hne : s.slice s.recordEnd (s.recordEnd + Header.size) ≠ [] :=
    List.ne_nil_of_length_pos (by omega)
  rw [next_eq]
  dsimp only
  rw [if_neg hne, if_pos (by omega)]

/-- the header at the end of the record, if there is one -/
def headerAhead (s : Stream) : Header where
  tag := ⟨s.slice s.recordEnd (s.recordEnd + 4)⟩
  version := UInt32.ofNat (Bytes.toNat (s.slice (s.recordEnd + 4) (s.recordEnd + 8)))
  length := UInt32.ofNat (Bytes.toNat (s.slice (s.recordEnd + 8) (s.recordEnd + 12)))

theorem toNat_slice_lt (s : Stream) (start : Nat) :
    Bytes.toNat (s.slice start (start + 4)) < Bytes.capacity 4 := by
  have hlen : (s.slice start (start + 4)).length ≤ 4 := by
    rw [length_slice]
    omega
  exact (Bytes.toNat_lt _).trans_le (Nat.pow_le_pow_right (by decide) hlen)

theorem next_of_header (h : s.recordEnd + Header.size ≤ s.bytes.size) :
    next s =
      let body := s.recordEnd + Header.size
      let stop := body + s.headerAhead.length.toNat
      if s.bytes.size < stop then
        .error (.format (.recordOverrun s.headerAhead.tag.name)) { s with position := body }
      else .ok (some s.headerAhead) { s with position := body, recordEnd := stop } := by
  obtain ⟨header, hheader⟩ : ∃ l, l = s.slice s.recordEnd (s.recordEnd + Header.size) := ⟨_, rfl⟩
  have hlen : header.length = Header.size := by
    rw [hheader, length_slice, Nat.min_eq_left h, Nat.add_sub_cancel_left]
  have htag : header.take 4 = s.slice s.recordEnd (s.recordEnd + 4) := by
    rw [hheader, take_slice s (by rw [Header.size]; omega)]
  have hversion : (header.drop 4).take 4 = s.slice (s.recordEnd + 4) (s.recordEnd + 8) := by
    rw [hheader, drop_slice, take_slice s (by rw [Header.size]; omega)]
  have hlength : header.drop 8 = s.slice (s.recordEnd + 8) (s.recordEnd + 12) := by
    rw [hheader, drop_slice, Header.size]
  have hfits : (UInt32.ofNat (Bytes.toNat (s.slice (s.recordEnd + 8) (s.recordEnd + 12)))).toNat =
      Bytes.toNat (s.slice (s.recordEnd + 8) (s.recordEnd + 12)) :=
    UInt32.toNat_ofNat_of_lt' (s.toNat_slice_lt (s.recordEnd + 8))
  rw [next_eq, ← hheader]
  dsimp only [headerAhead]
  rw [htag, hversion, hlength, if_neg (List.ne_nil_of_length_pos (by rw [hlen]; decide)),
    if_neg (by omega), hfits]

/-- going on finds the end, is refused, or passes a header -/
theorem next_cases (h : s.recordEnd ≤ s.bytes.size) :
    (s.recordEnd = s.bytes.size ∧ next s = .ok none { s with position := s.recordEnd }) ∨
      (s.recordEnd < s.bytes.size ∧ ∃ m position, position ≤ s.bytes.size ∧
        next s = .error (.format m) { s with position }) ∨
      ∃ header stop, s.recordEnd + Header.size ≤ stop ∧ stop ≤ s.bytes.size ∧
        next s = .ok (some header)
          { s with position := s.recordEnd + Header.size, recordEnd := stop } := by
  rcases h.eq_or_lt with hend | hlt
  · exact .inl ⟨hend, next_of_end hend⟩
  by_cases hheader : s.recordEnd + Header.size ≤ s.bytes.size
  · have hnext := next_of_header hheader
    dsimp only at hnext
    by_cases hover : s.bytes.size < s.recordEnd + Header.size + s.headerAhead.length.toNat
    · rw [if_pos hover] at hnext
      exact .inr (.inl ⟨hlt, _, _, hheader, hnext⟩)
    · rw [if_neg hover] at hnext
      exact .inr (.inr ⟨_, _, Nat.le_add_right _ _, Nat.le_of_not_lt hover, hnext⟩)
  · exact .inr (.inl ⟨hlt, _, _, h, next_of_truncated hlt (Nat.lt_of_not_le hheader)⟩)

/-- there is no next record at the end of the bytes, and only there -/
theorem next_eq_none_iff (h : s.recordEnd ≤ s.bytes.size) :
    (∃ t, next s = .ok none t) ↔ s.recordEnd = s.bytes.size := by
  refine ⟨fun ⟨t, ht⟩ => ?_, fun hend => ⟨_, next_of_end hend⟩⟩
  rcases next_cases h with ⟨hend, -⟩ | ⟨-, _, _, -, hnext⟩ | ⟨_, _, -, -, hnext⟩
  · exact hend
  · cases hnext.symm.trans ht
  · cases hnext.symm.trans ht

/-- a next record is behind its header -/
theorem le_of_next (h : s.recordEnd ≤ s.bytes.size) {header : Header} {t : Stream}
    (ht : next s = .ok (some header) t) : s.recordEnd + Header.size ≤ t.recordEnd := by
  rcases next_cases h with ⟨-, hnext⟩ | ⟨-, _, _, -, hnext⟩ | ⟨_, _, hle, -, hnext⟩
  · cases hnext.symm.trans ht
  · cases hnext.symm.trans ht
  · cases hnext.symm.trans ht
    exact hle

/-! ### reading -/

theorem length_unread (h : s.recordEnd ≤ s.bytes.size) :
    s.unread.length = s.recordEnd - s.position := by
  rw [unread, length_slice, Nat.min_eq_left h]

/-- some bytes are read if the record still has them -/
theorem read_take (h : s.recordEnd ≤ s.bytes.size) (n : Nat) :
    Stream.read (Reader.take n) s =
      if s.recordEnd < s.position + n then .error (.format .readPastEnd) s
      else .ok (s.slice s.position (s.position + n)) { s with position := s.position + n } := by
  have hlen := length_unread h
  rw [Stream.read]
  by_cases hover : s.recordEnd < s.position
  · rw [if_pos hover, if_pos (by omega)]
  rw [if_neg hover, Reader.take_eq]
  by_cases hpast : s.recordEnd < s.position + n
  · rw [if_pos hpast, Bytes.splitAt?_eq_none_iff.2 (by omega)]
    dsimp only
    rw [hlen, Nat.sub_sub_self (by omega)]
  · have hsplit : Bytes.splitAt? n s.unread = some (s.unread.take n, s.unread.drop n) := by
      rw [Bytes.splitAt?]
      exact if_pos (List.length_take_of_le (by omega))
    have htaken : s.unread.take n = s.slice s.position (s.position + n) := take_slice s (by omega)
    have hposition : s.recordEnd - (s.recordEnd - s.position - n) = s.position + n := by omega
    rw [if_neg hpast, hsplit]
    dsimp only
    rw [htaken, List.length_drop, hlen, hposition]

/-- what is read behind some bytes is read from where these end -/
theorem read_take_bind (h : s.recordEnd ≤ s.bytes.size) {α : Type} (n : Nat)
    (g : List UInt8 → Reader α) :
    Stream.read (Reader.take n >>= g) s =
      (Stream.read (Reader.take n) >>= fun l => Stream.read (g l)) s := by
  show _ = EStateM.bind _ _ s
  by_cases hover : s.recordEnd < s.position
  · rw [EStateM.bind, Stream.read, Stream.read, if_pos hover, if_pos hover]
  rw [EStateM.bind, Stream.read, Stream.read, if_neg hover, if_neg hover]
  have htake := Reader.take_eq n s.unread
  cases hsplit : Bytes.splitAt? n s.unread with
  | none =>
    rw [hsplit] at htake
    rw [bind_eq_error.2 (.inl htake), htake]
  | some p =>
    obtain ⟨taken, left⟩ := p
    rw [hsplit] at htake
    obtain ⟨happend, htaken⟩ := Bytes.append_of_splitAt? hsplit
    have hlen := length_unread h
    rw [happend, List.length_append] at hlen
    have hposition : s.recordEnd - left.length = s.position + taken.length := by omega
    have hleft : unread { s with position := s.recordEnd - left.length } = left := by
      rw [hposition]
      show s.slice (s.position + taken.length) s.recordEnd = left
      rw [← drop_slice]
      show s.unread.drop _ = left
      rw [happend, List.drop_left]
    have hnext : ¬ s.recordEnd < s.recordEnd - left.length := by omega
    rw [bind_of_ok htake, htake]
    dsimp only
    rw [Stream.read, if_neg hnext, hleft]

theorem read_pure (h : s.recordEnd ≤ s.bytes.size) (hle : s.position ≤ s.recordEnd) {α : Type}
    (a : α) : Stream.read (pure a) s = .ok a s := by
  have hposition : s.recordEnd - s.unread.length = s.position := by
    rw [length_unread h, Nat.sub_sub_self hle]
  rw [Stream.read, if_neg (Nat.not_lt.2 hle)]
  show EStateM.Result.ok a { s with position := s.recordEnd - s.unread.length } = _
  rw [hposition]

/-- what some bytes stand for -/
theorem read_take_pure (h : s.recordEnd ≤ s.bytes.size) {α : Type} (n : Nat)
    (f : List UInt8 → α) :
    Stream.read (Reader.take n >>= fun l => pure (f l)) s =
      (Stream.read (Reader.take n) >>= fun l => pure (f l)) s := by
  rw [read_take_bind h]
  show EStateM.bind _ _ s = EStateM.bind _ _ s
  rw [EStateM.bind, EStateM.bind, read_take h]
  by_cases hpast : s.recordEnd < s.position + n
  · rw [if_pos hpast]
  · rw [if_neg hpast]
    exact read_pure (s := { s with position := s.position + n }) h (Nat.le_of_not_lt hpast) _

/-! ### writing -/

theorem size_appendList (bytes : Array UInt8) (new : List UInt8) :
    (bytes ++ new).size = bytes.size + new.length := by
  rw [← Array.length_toList, Array.toList_appendList, List.length_append, Array.length_toList]

/-- the bytes with a length in place of the four from some place on -/
def patched (bytes : Array UInt8) (i length : Nat) : Array UInt8 :=
  bytes.extract 0 i ++ Bytes.ofNat 4 length ++ bytes.extract (i + 4) bytes.size

theorem size_patched {bytes : Array UInt8} {i : Nat} (h : i + 4 ≤ bytes.size) (length : Nat) :
    (patched bytes i length).size = bytes.size := by
  rw [patched, Array.size_append, size_appendList, Array.size_extract, Array.size_extract,
    Bytes.length_ofNat]
  omega

theorem toList_patched (bytes : Array UInt8) (i length : Nat) :
    (patched bytes i length).toList =
      bytes.toList.take i ++ Bytes.ofNat 4 length ++ bytes.toList.drop (i + 4) := by
  rw [patched, Array.toList_append, Array.toList_appendList, Array.toList_extract,
    Array.toList_extract, List.extract_eq_take_drop, List.extract_eq_take_drop, List.drop_zero,
    Nat.sub_zero, ← Array.length_toList, ← List.length_drop, List.take_length]

theorem write_of_none (h : s.lengthAt = none) (new : List UInt8) :
    write new s = .error (.format .writeOutsideRecord) s := by
  refine (bind_of_ok (x := get) rfl).trans ?_
  rw [h]
  rfl

/-- bytes are added, and the length is brought up to date if it has room for them -/
theorem write_of_some {i : Nat} (h : s.lengthAt = some i) (new : List UInt8) :
    write new s =
      let bytes := s.bytes ++ new
      if bytes.size - i - 4 < Bytes.capacity 4 then
        .ok () { s with bytes := patched bytes i (bytes.size - i - 4) }
      else .error (.format .recordTooLong) { s with bytes } := by
  refine (bind_of_ok (x := get) rfl).trans ?_
  rw [h]
  dsimp only
  split <;> rfl

/-! ## What calls keep -/

/-- kept by all that is done with a stream while a save is read -/
structure Invariant (I : Stream → Prop) : Prop where
  next : Keeps I Stream.next
  read : ∀ {α : Type} (r : Reader α), Keeps I (Stream.read r)
  seek : ∀ position, Keeps I (Stream.seek position)

/-- in bounds, with some number of bytes or more -/
def Holds (n : Nat) (s : Stream) : Prop := s.InBounds ∧ n ≤ s.bytes.size

theorem invariant_holds (n : Nat) : Invariant (Holds n) where
  next {s} hs := by
    obtain ⟨h, hn⟩ := hs
    have hend := h.recordEnd
    rw [after]
    rcases next_cases hend with ⟨-, hnext⟩ | ⟨-, _, _, hle, hnext⟩ | ⟨_, _, hle, hstop, hnext⟩
    · rw [hnext]
      exact ⟨⟨hend, hend, h.lengthAt⟩, hn⟩
    · rw [hnext]
      exact ⟨⟨hle, hend, h.lengthAt⟩, hn⟩
    · rw [hnext]
      exact ⟨⟨hle.trans hstop, hstop, h.lengthAt⟩, hn⟩
  read {_} r {s} hs := by
    obtain ⟨h, hn⟩ := hs
    have hend := h.recordEnd
    rw [after, Stream.read]
    by_cases hover : s.recordEnd < s.position
    · rw [if_pos hover]
      exact ⟨h, hn⟩
    · rw [if_neg hover]
      cases r s.unread with
      | ok a left => exact ⟨⟨(Nat.sub_le _ _).trans hend, hend, h.lengthAt⟩, hn⟩
      | error f left => exact ⟨⟨(Nat.sub_le _ _).trans hend, hend, h.lengthAt⟩, hn⟩
  seek position {s} hs := by
    obtain ⟨h, hn⟩ := hs
    rw [after, seek_eq]
    by_cases hover : s.bytes.size < position
    · rw [if_pos hover]
      exact ⟨h, hn⟩
    · rw [if_neg hover]
      have hle := Nat.le_of_not_lt hover
      exact ⟨⟨hle, hle, h.lengthAt⟩, hn⟩

/-- more bytes do no harm -/
theorem InBounds.of_le {t : Stream} (h : s.InBounds) (hposition : t.position = s.position)
    (hend : t.recordEnd = s.recordEnd) (hat : t.lengthAt = s.lengthAt)
    (hle : s.bytes.size ≤ t.bytes.size) : t.InBounds where
  position := by rw [hposition]; exact h.position.trans hle
  recordEnd := by rw [hend]; exact h.recordEnd.trans hle
  lengthAt i hi := (h.lengthAt i (hat ▸ hi)).trans hle

theorem keeps_openRecord (n : Nat) (tag : Tag) (version : UInt32) :
    Keeps (Holds n) (modify (·.openRecord tag version) : Action Stream PUnit) := by
  intro s hs
  obtain ⟨h, hn⟩ := hs
  have hsize : (s.openRecord tag version).bytes.size =
      s.bytes.size + (tag.bytes ++ Bytes.ofNat 4 version.toNat).length + 4 := by
    show (s.bytes ++ (tag.bytes ++ Bytes.ofNat 4 version.toNat ++ Bytes.ofNat 4 0)).size = _
    rw [size_appendList, List.length_append, Bytes.length_ofNat 4 0, Nat.add_assoc]
  have hle : s.bytes.size ≤ (s.openRecord tag version).bytes.size := by omega
  show Holds n (s.openRecord tag version)
  refine ⟨⟨h.position.trans hle, h.recordEnd.trans hle, ?_⟩, hn.trans hle⟩
  intro i hi
  obtain rfl : s.bytes.size + (tag.bytes ++ Bytes.ofNat 4 version.toNat).length = i :=
    Option.some.inj hi
  exact hsize.ge

theorem keeps_write (n : Nat) (new : List UInt8) : Keeps (Holds n) (write new) := by
  intro s hs
  obtain ⟨h, hn⟩ := hs
  have hle : s.bytes.size ≤ (s.bytes ++ new).size := by
    rw [size_appendList]
    exact Nat.le_add_right _ _
  rw [after]
  cases hat : s.lengthAt with
  | none =>
    rw [write_of_none hat]
    exact ⟨h, hn⟩
  | some i =>
    rw [write_of_some hat]
    dsimp only
    by_cases hfits : (s.bytes ++ new).size - i - 4 < Bytes.capacity 4
    · have hsize := size_patched ((h.lengthAt i hat).trans hle) ((s.bytes ++ new).size - i - 4)
      have hgrown := hle.trans hsize.ge
      rw [if_pos hfits]
      exact ⟨h.of_le rfl rfl rfl hgrown, hn.trans hgrown⟩
    · rw [if_neg hfits]
      exact ⟨h.of_le rfl rfl rfl hle, hn.trans hle⟩

end Stream

end ScriptVars
