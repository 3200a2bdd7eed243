import ScriptVars.Proofs.Framing

/-!
# Calls with checks

What is done with a stream computes offsets: sums that may run over, differences that may be below
zero, and slices that may reach past the bytes.  Each call is compared with one that checks all of
them and stops at the first that fails.  After any calls, in any order, none fails.

* `Checked`                       calls with every sum, difference and slice checked;
* `Checked.Matches`               no check fails;
* `Checked.matches_next`, `matches_read`, `matches_write`   call by call;
* `StreamCall`, `outcomes`        the calls in any order, and what they come to;
* `StreamCall.keeps_run`, `matches_run`   what one call keeps, and that it needs no checks;
* `Stream.calls_in_bounds`        all of it, after any calls.
-/

namespace ScriptVars

open ScriptVars.Action

/-- no more bytes are asked for than memory holds in one piece -/
def ReadCall.Sliced : ReadCall → Prop
  | bytes n => n < 2 ^ 63
  | _ => True

instance : DecidablePred ReadCall.Sliced
  | .bytes n => inferInstanceAs (Decidable (n < 2 ^ 63))
  | .byte | .half | .word | .number | .text => .isTrue trivial

/-! ## Checked calls -/

/-- why a checked call stops -/
inductive Stop where
  /-- a sum runs over, a difference is below zero, or a slice is not within the bytes -/
  | outOfBounds
  | refused (f : Failure)

/-- calls with every sum, difference and slice checked -/
abbrev Checked (α : Type) := EStateM Stop Stream α

namespace Checked

variable {α β : Type}

/-- an outcome in which no check failed -/
def outcome : EStateM.Result Failure Stream α → EStateM.Result Stop Stream α
  | .ok a s => .ok a s
  | .error f s => .error (.refused f) s

/-- a call that computes no offsets -/
def lift (x : Action Stream α) : Checked α := fun s => outcome (x s)

def refuse (m : Malformation) : Checked α := throw (.refused (.format m))

/-! ### what is checked -/

def add (a b : Nat) : Checked Nat :=
  if a + b < UInt64.size then return a + b else throw .outOfBounds

def sub (a b : Nat) : Checked Nat := if b ≤ a then return a - b else throw .outOfBounds

def slice (start stop : Nat) : Checked (List UInt8) := do
  let s ← get
  if start ≤ stop ∧ stop ≤ s.bytes.size then return s.slice start stop else throw .outOfBounds

def take (n : Nat) : Checked (List UInt8) := do
  let s ← get
  let stop ← add s.position n
  let taken ← slice s.position stop
  set { s with position := stop }
  return taken

/-- bytes in place of as many others -/
def overwrite (start : Nat) (new : List UInt8) : Checked Unit := do
  let s ← get
  let stop ← add start new.length
  if start ≤ stop ∧ stop ≤ s.bytes.size then
    set { s with bytes := s.bytes.extract 0 start ++ new ++ s.bytes.extract stop s.bytes.size }
  else throw .outOfBounds

/-! ### calls -/

def next : Checked (Option Header) := do
  modify fun s => { s with position := s.recordEnd }
  let s ← get
  if s.position = s.bytes.size then return none
  let left ← sub s.bytes.size s.position
  if left < Header.size then refuse (.truncatedHeader s.position)
  let tag ← take 4
  let version ← take 4
  let length ← take 4
  let s ← get
  let stop ← add s.position (Bytes.toNat length)
  if s.bytes.size < stop then refuse (.recordOverrun (Tag.name ⟨tag⟩))
  set { s with recordEnd := stop }
  return some ⟨⟨tag⟩, UInt32.ofNat (Bytes.toNat version), UInt32.ofNat (Bytes.toNat length)⟩

def readBytes (n : Nat) : Checked (List UInt8) := do
  let s ← get
  let stop ← add s.position n
  if s.recordEnd < stop then refuse .readPastEnd
  take n

def read : ReadCall → Checked Value
  | .byte => do return .byte (UInt8.ofNat (Bytes.toNat (← readBytes 1)))
  | .half => do return .half (UInt16.ofNat (Bytes.toNat (← readBytes 2)))
  | .word => do return .word (UInt32.ofNat (Bytes.toNat (← readBytes 4)))
  | .number => do return .number ⟨UInt64.ofNat (Bytes.toNat (← readBytes 8))⟩
  | .text => do
    let length ← readBytes 2
    return .text (Utf8.repair (← readBytes (Bytes.toNat length)))
  | .bytes n => do return .bytes (← readBytes n)

def writeBytes (new : List UInt8) : Checked Unit := do
  let s ← get
  match s.lengthAt with
  | none => refuse .writeOutsideRecord
  | some i =>
    let s := { s with bytes := s.bytes ++ new }
    set s
    let behind ← sub s.bytes.size i
    let length ← sub behind 4
    if length < Bytes.capacity 4 then overwrite i (Bytes.ofNat 4 length)
    else refuse .recordTooLong

def write : Value → Checked Unit
  | .text text => do
    let bytes := Utf8.encode text
    if bytes.length < Bytes.capacity 2 then
      writeBytes (Bytes.ofNat 2 bytes.length)
      writeBytes bytes
    else refuse (.textTooLong bytes.length)
  | v => writeBytes v.encode

/-! ### checks that succeed -/

variable {s t : Stream} {a b n start stop : Nat}

theorem bind_of_ok {x : Checked α} {g : α → Checked β} {c : α} (h : x s = .ok c t) :
    (x >>= g) s = g c t := by
  show EStateM.bind x g s = _
  rw [EStateM.bind, h]

theorem add_of_lt (h : a + b < UInt64.size) : add a b s = .ok (a + b) s := by
  rw [add, if_pos h]
  rfl

theorem sub_of_le (h : b ≤ a) : sub a b s = .ok (a - b) s := by
  rw [sub, if_pos h]
  rfl

theorem slice_of_le (h : start ≤ stop) (hstop : stop ≤ s.bytes.size) :
    slice start stop s = .ok (s.slice start stop) s := by
  refine (bind_of_ok (x := get) rfl).trans ?_
  rw [if_pos ⟨h, hstop⟩]
  rfl

theorem take_of_le (h : s.position + n ≤ s.bytes.size) (hsize : s.bytes.size < 2 ^ 63) :
    take n s = .ok (s.slice s.position (s.position + n)) { s with position := s.position + n } := by
  have hsum : s.position + n < UInt64.size := by
    rw [UInt64.size]
    omega
  refine (bind_of_ok (x := get) rfl).trans ((bind_of_ok (add_of_lt hsum)).trans ?_)
  exact (bind_of_ok (slice_of_le (Nat.le_add_right _ _) h)).trans rfl

theorem overwrite_of_le {length : Nat} (h : a + 4 ≤ s.bytes.size) (hsize : s.bytes.size < 2 ^ 63) :
    overwrite a (Bytes.ofNat 4 length) s =
      .ok () { s with bytes := Stream.patched s.bytes a length } := by
  have hsum : a + (Bytes.ofNat 4 length).length < UInt64.size := by
    rw [Bytes.length_ofNat, UInt64.size]
    omega
  refine (bind_of_ok (x := get) rfl).trans ((bind_of_ok (add_of_lt hsum)).trans ?_)
  rw [Bytes.length_ofNat, if_pos ⟨Nat.le_add_right _ _, h⟩]
  rfl

/-! ## Checks that never fail -/

/-- no check fails, as long as memory has room for the bytes -/
structure Matches (x : Checked α) (y : Action Stream α) : Prop where
  keeps : ∀ n, Keeps (Stream.Holds n) y
  agrees : ∀ s, s.InBounds → (y.after s).bytes.size < 2 ^ 63 → x s = outcome (y s)

section
variable {x : Checked α} {y z : Action Stream α}

theorem Matches.holds_after (h : Matches x y) (hs : s.InBounds) :
    Stream.Holds s.bytes.size (y.after s) := h.keeps _ ⟨hs, Nat.le_refl _⟩

/-- no byte goes away, so that memory has room also before -/
theorem matches_of_size (hkeeps : ∀ n, Keeps (Stream.Holds n) y)
    (h : ∀ s, s.InBounds → s.bytes.size < 2 ^ 63 → x s = outcome (y s)) : Matches x y where
  keeps := hkeeps
  agrees s hs hsize := h s hs ((hkeeps _ ⟨hs, Nat.le_refl _⟩).2.trans_lt hsize)

theorem matches_lift (h : ∀ n, Keeps (Stream.Holds n) y) : Matches (lift y) y :=
  ⟨h, fun _ _ _ => rfl⟩

theorem matches_pure (c : α) : Matches (pure c) (pure c) :=
  matches_lift fun _ => (reads_pure c).keeps

theorem matches_refuse (m : Malformation) :
    Matches (refuse m : Checked α) (throw (.format m)) :=
  matches_lift fun _ => (reads_throw (.format m)).keeps

theorem Matches.congr (h : Matches x y) (heq : ∀ s, s.InBounds → y s = z s) : Matches x z where
  keeps n s hs := by
    have hkeep := h.keeps n hs
    rw [after, heq s hs.1] at hkeep
    exact hkeep
  agrees s hs hsize := by
    rw [after, ← heq s hs] at hsize
    rw [← heq s hs]
    exact h.agrees s hs hsize

theorem Matches.bind {g : α → Checked β} {h : α → Action Stream β} (hx : Matches x y)
    (hg : ∀ {c s t}, y s = .ok c t → Matches (g c) (h c)) : Matches (x >>= g) (y >>= h) where
  keeps n := (hx.keeps n).bind fun {_ _ _} hy ht => (hg hy).keeps n ht
  agrees s hs hsize := by
    have hfirst := hx.holds_after hs
    have hagrees := hx.agrees s hs
    rw [after_bind] at hsize
    rw [after] at hfirst hagrees
    show EStateM.bind x g s = outcome (EStateM.bind y h s)
    rw [EStateM.bind, EStateM.bind]
    cases hy : y s with
    | error f t =>
      rw [hy] at hsize hagrees
      rw [hagrees hsize]
      rfl
    | ok c t =>
      rw [hy] at hsize hfirst hagrees
      have hsecond := (hg hy).holds_after hfirst.1
      rw [hagrees (hsecond.2.trans_lt hsize)]
      exact (hg hy).agrees t hfirst.1 hsize

theorem Matches.ite {c : Prop} [Decidable c] {x' : Checked α} (h : Matches x y)
    (h' : Matches x' z) : Matches (if c then x else x') (if c then y else z) := by
  split
  · exact h
  · exact h'

end

/-! ### going on -/

/-- a whole header is ahead -/
theorem next_of_header (h : s.recordEnd + Header.size ≤ s.bytes.size)
    (hsize : s.bytes.size < 2 ^ 63) : next s = outcome (Stream.next s) := by
  have hnext := Stream.next_of_header h
  rw [Header.size] at h hnext
  have hlength : Bytes.toNat (s.slice (s.recordEnd + 8) (s.recordEnd + 12)) < 4294967296 :=
    s.toNat_slice_lt (s.recordEnd + 8)
  have hstop : s.recordEnd + 12 + Bytes.toNat (s.slice (s.recordEnd + 8) (s.recordEnd + 12)) <
      UInt64.size := by
    rw [UInt64.size]
    omega
  have hfits : s.headerAhead.length.toNat =
      Bytes.toNat (s.slice (s.recordEnd + 8) (s.recordEnd + 12)) :=
    UInt32.toNat_ofNat_of_lt' hlength
  have htake : ∀ {p : Nat}, p + 4 ≤ s.bytes.size → take 4 { s with position := p } =
      .ok (s.slice p (p + 4)) { s with position := p + 4 } := fun {p} hp =>
    take_of_le (s := { s with position := p }) hp hsize
  refine (bind_of_ok (x := modify _) rfl).trans ((bind_of_ok (x := get) rfl).trans ?_)
  dsimp only
  rw [if_neg (by omega)]
  refine (bind_of_ok (sub_of_le (by omega))).trans ?_
  rw [Header.size, if_neg (by omega)]
  refine (bind_of_ok (htake (by omega))).trans ((bind_of_ok (htake (by omega))).trans ?_)
  refine (bind_of_ok (htake (by omega))).trans ((bind_of_ok (x := get) rfl).trans ?_)
  refine (bind_of_ok (add_of_lt hstop)).trans ?_
  rw [hnext]
  dsimp only
  rw [hfits]
  split <;> rfl

theorem matches_next : Matches next Stream.next := by
  refine matches_of_size (fun n => (Stream.invariant_holds n).next) fun s hs hsize => ?_
  have hend := hs.recordEnd
  by_cases hheader : s.recordEnd + Header.size ≤ s.bytes.size
  · exact next_of_header hheader hsize
  refine (bind_of_ok (x := modify _) rfl).trans ((bind_of_ok (x := get) rfl).trans ?_)
  dsimp only
  rcases hend.eq_or_lt with hnone | hsome
  · rw [if_pos hnone, Stream.next_of_end hnone]
    rfl
  · rw [if_neg hsome.ne, Stream.next_of_truncated hsome (Nat.lt_of_not_le hheader)]
    refine (bind_of_ok (sub_of_le hend)).trans ?_
    rw [if_pos (by omega)]
    rfl

/-! ### reading -/

theorem matches_readBytes (hn : n < 2 ^ 63) :
    Matches (readBytes n) (Stream.read (Reader.take n)) := by
  refine matches_of_size (fun k => (Stream.invariant_holds k).read _) fun s hs hsize => ?_
  have hend := hs.recordEnd
  have hposition := hs.position
  have hsum : s.position + n < UInt64.size := by
    rw [UInt64.size]
    omega
  rw [Stream.read_take hend]
  refine (bind_of_ok (x := get) rfl).trans ((bind_of_ok (add_of_lt hsum)).trans ?_)
  by_cases hover : s.recordEnd < s.position + n
  · rw [if_pos hover, if_pos hover]
    rfl
  · rw [if_neg hover, if_neg hover]
    exact take_of_le (by omega) hsize

theorem length_of_read_take {l : List UInt8} (h : Stream.read (Reader.take n) s = .ok l t) :
    l.length = n := by
  rw [Stream.read, Reader.take_eq] at h
  cases hsplit : Bytes.splitAt? n s.unread with
  | none =>
    rw [hsplit] at h
    split at h <;> cases h
  | some p =>
    rw [hsplit] at h
    split at h
    · cases h
    · cases h
      exact (Bytes.append_of_splitAt? hsplit).2

/-- what some bytes stand for -/
theorem matches_read_of {r : Reader α} {f : List UInt8 → α} (hn : n < 2 ^ 63)
    (hr : r = Reader.take n >>= fun l => pure (f l)) :
    Matches (readBytes n >>= fun l => pure (f l)) (Stream.read r) := by
  rw [hr]
  exact ((matches_readBytes hn).bind fun _ => matches_pure _).congr fun _ hs =>
    (Stream.read_take_pure hs.recordEnd n f).symm

theorem matches_read {c : ReadCall} (hc : c.Sliced) : Matches (read c) c.run := by
  cases c with
  | byte =>
    exact matches_read_of (by decide)
      (by simp only [ReadCall.reader, Reader.byte, Reader.nat, bind_assoc, pure_bind])
  | half =>
    exact matches_read_of (by decide)
      (by simp only [ReadCall.reader, Reader.nat, bind_assoc, pure_bind])
  | word =>
    exact matches_read_of (by decide)
      (by simp only [ReadCall.reader, Reader.word, Reader.nat, bind_assoc, pure_bind])
  | number =>
    exact matches_read_of (by decide)
      (by simp only [ReadCall.reader, Reader.number, Reader.nat, bind_assoc, pure_bind])
  | text =>
    have hreader : ReadCall.text.reader = Reader.take 2 >>= fun l =>
        Reader.take (Bytes.toNat l) >>= fun m => pure (.text (Utf8.repair m)) := by
      simp only [ReadCall.reader, Reader.text, Reader.nat, bind_assoc, pure_bind]
    rw [ReadCall.run, hreader]
    refine Matches.congr ((matches_readBytes (by decide)).bind fun {l _ _} hread => ?_)
      fun _ hs => (Stream.read_take_bind hs.recordEnd 2 _).symm
    -- two bytes never ask for more than memory holds
    have hlength := Bytes.toNat_lt l
    rw [length_of_read_take hread] at hlength
    change _ < 65536 at hlength
    exact matches_read_of (by omega) rfl
  | bytes n => exact matches_read_of hc rfl

/-! ### writing -/

theorem matches_writeBytes (new : List UInt8) : Matches (writeBytes new) (Stream.write new) where
  keeps n := Stream.keeps_write n new
  agrees s hs hsize := by
    refine (bind_of_ok (x := get) rfl).trans ?_
    rcases Option.eq_none_or_eq_some s.lengthAt with hat | ⟨i, hat⟩
    · rw [Stream.write_of_none hat, hat]
      rfl
    have hi := hs.lengthAt i hat
    have hgrown := Stream.size_appendList s.bytes new
    rw [after] at hsize
    rw [Stream.write_of_some hat] at hsize ⊢
    rw [hat]
    refine (bind_of_ok (x := set _) rfl).trans ?_
    refine (bind_of_ok (sub_of_le (a := (s.bytes ++ new).size) (by omega))).trans ?_
    refine (bind_of_ok (sub_of_le (by omega))).trans ?_
    dsimp only at hsize ⊢
    by_cases hroom : (s.bytes ++ new).size - i - 4 < Bytes.capacity 4
    · rw [if_pos hroom] at hsize
      rw [if_pos hroom, if_pos hroom]
      dsimp only at hsize
      rw [Stream.size_patched (by omega)] at hsize
      refine overwrite_of_le ?_ hsize
      show i + 4 ≤ (s.bytes ++ new).size
      omega
    · rw [if_neg hroom, if_neg hroom]
      rfl

theorem matches_write (v : Value) : Matches (write v) (Stream.writeValue v) := by
  cases v with
  | text text =>
    exact ((matches_writeBytes _).bind fun _ => matches_writeBytes _).ite (matches_refuse _)
  | byte b => exact matches_writeBytes _
  | half h => exact matches_writeBytes _
  | word w => exact matches_writeBytes _
  | number x => exact matches_writeBytes _
  | bytes l => exact matches_writeBytes _

end Checked

/-! ## Calls in any order -/

inductive StreamCall where
  | openRecord (tag : Tag) (version : UInt32)
  | write (v : Value)
  | next
  | read (c : ReadCall)
  | position
  | seek (place : Nat)

inductive Reply where
  | done
  | header (h : Option Header)
  | value (v : Value)
  | place (p : Nat)

namespace StreamCall

def run : StreamCall → Action Stream Reply
  | openRecord tag version => do
    modify (·.openRecord tag version)
    return .done
  | write v => do
    Stream.writeValue v
    return .done
  | next => do return .header (← Stream.next)
  | read c => do return .value (← c.run)
  | position => do return .place (← get).recordEnd
  | seek place => do
    Stream.seek place
    return .done

/-- the same with every offset checked; the calls that compute none are as they are -/
def checked : StreamCall → Checked Reply
  | write v => do
    Checked.write v
    return .done
  | next => do return .header (← Checked.next)
  | read c => do return .value (← Checked.read c)
  | c => Checked.lift c.run

def Sliced : StreamCall → Prop
  | read c => c.Sliced
  | _ => True

instance : DecidablePred Sliced
  | read c => inferInstanceAs (Decidable c.Sliced)
  | openRecord _ _ | write _ | next | position | seek _ => .isTrue trivial

theorem keeps_reply {α : Type} {I : Stream → Prop} {x : Action Stream α} (hx : Keeps I x)
    (reply : α → Reply) : Keeps I (do return reply (← x)) :=
  hx.bind fun _ ht => (reads_pure _).keeps ht

/-- every call keeps the offsets within the bytes, and no byte goes away -/
theorem keeps_run (c : StreamCall) (n : Nat) : Keeps (Stream.Holds n) c.run := by
  cases c with
  | openRecord tag version => exact keeps_reply (Stream.keeps_openRecord n tag version) _
  | write v => exact keeps_reply ((Checked.matches_write v).keeps n) _
  | next => exact keeps_reply (Stream.invariant_holds n).next _
  | read c => exact keeps_reply ((Stream.invariant_holds n).read c.reader) _
  | position => exact keeps_reply reads_get.keeps _
  | seek place => exact keeps_reply ((Stream.invariant_holds n).seek place) _

/-- no check of a call fails -/
theorem matches_run {c : StreamCall} (hc : c.Sliced) : Checked.Matches c.checked c.run := by
  cases c with
  | write v => exact (Checked.matches_write v).bind fun _ => Checked.matches_pure _
  | next => exact Checked.matches_next.bind fun _ => Checked.matches_pure _
  | read c => exact (Checked.matches_read hc).bind fun _ => Checked.matches_pure _
  | openRecord tag version => exact Checked.matches_lift (keeps_run _)
  | position => exact Checked.matches_lift (keeps_run _)
  | seek place => exact Checked.matches_lift (keeps_run _)

end StreamCall

def stateOf {ε σ α : Type} : EStateM.Result ε σ α → σ
  | .ok _ s => s
  | .error _ s => s

theorem stateOf_eq {σ α : Type} (x : Action σ α) (s : σ) : stateOf (x s) = x.after s := by
  rw [after]
  cases x s <;> rfl

theorem Checked.stateOf_outcome {α : Type} (r : EStateM.Result Failure Stream α) :
    stateOf (outcome r) = stateOf r := by
  cases r <;> rfl

/-- what calls come to, each on the stream that the one before leaves, refused or not -/
def outcomes {ε : Type} (run : StreamCall → EStateM ε Stream Reply) :
    List StreamCall → Stream → List (EStateM.Result ε Stream Reply)
  | [], _ => []
  | c :: calls, s => run c s :: outcomes run calls (stateOf (run c s))

namespace Stream

def afterAll (calls : List StreamCall) (s : Stream) : Stream :=
  calls.foldl (fun s c => c.run.after s) s

variable {s : Stream} {calls : List StreamCall}

theorem holds_afterAll {n : Nat} (h : Holds n s) : Holds n (s.afterAll calls) := by
  induction calls generalizing s with
  | nil => exact h
  | cons c calls ih => exact ih (c.keeps_run n h)

/-- as long as memory has room for the bytes, no check fails in any of the calls -/
theorem outcomes_checked (h : s.InBounds) (hc : ∀ c ∈ calls, c.Sliced)
    (hsize : (s.afterAll calls).bytes.size < 2 ^ 63) :
    outcomes StreamCall.checked calls s = (outcomes StreamCall.run calls s).map Checked.outcome := by
  induction calls generalizing s with
  | nil => rfl
  | cons c calls ih =>
    obtain ⟨hfirst, hrest⟩ := List.forall_mem_cons.1 hc
    obtain ⟨hin, -⟩ := c.keeps_run s.bytes.size ⟨h, Nat.le_refl _⟩
    have hle : (c.run.after s).bytes.size ≤ ((c.run.after s).afterAll calls).bytes.size :=
      (holds_afterAll ⟨hin, Nat.le_refl _⟩).2
    have hrun := (StreamCall.matches_run hfirst).agrees s h (hle.trans_lt hsize)
    rw [outcomes, outcomes, List.map_cons, hrun, Checked.stateOf_outcome, stateOf_eq]
    exact congrArg _ (ih hin hrest hsize)

/-- After any calls the offsets are within the bytes.  Going on to the next record ends at the end
of the bytes and nowhere else, or passes a header.  All along no sum runs over, no difference is
below zero, and no slice is cut short. -/
theorem calls_in_bounds (bytes : List UInt8) (calls : List StreamCall) :
    let s := (ofBytes bytes).afterAll calls
    s.InBounds ∧
      ((∃ t, next s = .ok none t) ↔ s.recordEnd = s.bytes.size) ∧
      (∀ header t, next s = .ok (some header) t → s.recordEnd + Header.size ≤ t.recordEnd) ∧
      ((∀ c ∈ calls, c.Sliced) → s.bytes.size < 2 ^ 63 →
        outcomes StreamCall.checked calls (ofBytes bytes) =
          (outcomes StreamCall.run calls (ofBytes bytes)).map Checked.outcome ∧
        ∀ t, .error .outOfBounds t ∉ outcomes StreamCall.checked calls (ofBytes bytes)) := by
  intro s
  have hbounds : s.InBounds := (holds_afterAll ⟨inBounds_ofBytes bytes, Nat.zero_le _⟩).1
  refine ⟨hbounds, next_eq_none_iff hbounds.recordEnd,
    fun header t => le_of_next hbounds.recordEnd, ?_⟩
  intro hc hsize
  have heq := outcomes_checked (inBounds_ofBytes bytes) hc hsize
  refine ⟨heq, fun t hmem => ?_⟩
  rw [heq] at hmem
  obtain ⟨r, -, hr⟩ := List.mem_map.1 hmem
  cases r <;> cases hr

/-- a header with too great a length, a record written behind it and read from there, and calls
that are refused in between -/
theorem calls_in_bounds_overrun :
    let bytes : List UInt8 := Utf8.encode "AAAA" ++ [1, 0, 0, 0, 200, 0, 0, 0, 7, 7]
    let calls : List StreamCall := [.write (.byte 1), .next, .read .byte,
      .openRecord (.ofName "NEW ") 7, .write (.text "äb"), .seek 99, .seek 14, .next, .read .text,
      .read (.bytes 1), .position]
    let s := (ofBytes bytes).afterAll calls
    s.bytes.size = 31 ∧ s.recordEnd = 31 ∧ s.lengthAt = some 22 ∧ s.InBounds ∧
      (∃ t, next s = .ok none t) ∧
      outcomes StreamCall.checked calls (ofBytes bytes) =
        (outcomes StreamCall.run calls (ofBytes bytes)).map Checked.outcome := by
  intro bytes calls s
  have hsize : s.bytes.size = 31 := by decide +kernel
  have hend : s.recordEnd = 31 := by decide +kernel
  obtain ⟨hbounds, hnone, -, hchecked⟩ := calls_in_bounds bytes calls
  refine ⟨hsize, hend, by decide +kernel, hbounds, hnone.2 (hend.trans hsize.symm), ?_⟩
  exact (hchecked (by decide) (hsize.trans_lt (by decide))).1

end Stream

end ScriptVars
