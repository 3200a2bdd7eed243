import ScriptVars.Proofs.Offsets
import ScriptVars.Proofs.Records

/-!
# Records written call by call

A stream is written by opening records and adding values to the last one, whose length is brought
up to date each time.  What was written is read back record by record, however much of each is
read, and nothing past the end of a record is.

* `WriteCall`, `Frame`, `framesOf`       calls, and the records that they come to;
* `Stream.Writing`                       a stream at the end of a record that is being written;
* `Stream.openRecord_writing`, `Writing.write`, `Frame.run`   what each call adds;
* `ReadCall`, `Stream.consume`           reads, refused or not;
* `Stream.ReadsBack`                     what reading finds;
* `Stream.frames_read_back`              all of it, for whatever was written.
-/

namespace ScriptVars

open ScriptVars.Action

/-! ## Calls -/

namespace Value

def size : Value → Nat
  | byte _ => 1
  | half _ => 2
  | word _ => 4
  | number _ => 8
  | text s => 2 + s.utf8ByteSize
  | bytes l => l.length

/-- the length of a text has room in two bytes -/
def Short : Value → Prop
  | text s => s.utf8ByteSize ≤ 65535
  | _ => True

instance : DecidablePred Short
  | text s => inferInstanceAs (Decidable (s.utf8ByteSize ≤ 65535))
  | byte _ | half _ | word _ | number _ | bytes _ => .isTrue trivial

end Value

inductive WriteCall where
  | openRecord (tag : Tag) (version : UInt32)
  | value (v : Value)

namespace WriteCall

/-- a tag has four bytes -/
def Accepted : WriteCall → Prop
  | openRecord tag _ => tag.bytes.length = 4
  | value v => v.Short

instance : DecidablePred Accepted
  | openRecord tag _ => inferInstanceAs (Decidable (tag.bytes.length = 4))
  | value v => inferInstanceAs (Decidable v.Short)

def run : WriteCall → Action Stream Unit
  | openRecord tag version => modify (·.openRecord tag version)
  | value v => Stream.writeValue v

def runAll : List WriteCall → Action Stream Unit
  | [] => return ()
  | c :: calls => do
    c.run
    runAll calls

end WriteCall

inductive ReadCall where
  | byte
  | half
  | word
  | number
  | text
  | bytes (n : Nat)

namespace ReadCall

def reader : ReadCall → Reader Value
  | byte => do return .byte (← Reader.byte)
  | half => do return .half (UInt16.ofNat (← Reader.nat 2))
  | word => do return .word (← Reader.word)
  | number => do return .number (← Reader.number)
  | text => do return .text (← Reader.text)
  | bytes n => do return .bytes (← Reader.take n)

def run (c : ReadCall) : Action Stream Value := Stream.read c.reader

def runAll : List ReadCall → Action Stream (List Value)
  | [] => return []
  | c :: calls => do
    let v ← c.run
    return v :: (← runAll calls)

end ReadCall

def Value.readCall : Value → ReadCall
  | byte _ => .byte
  | half _ => .half
  | word _ => .word
  | number _ => .number
  | text _ => .text
  | bytes l => .bytes l.length

/-! ## Records -/

/-- a record, by the values that were written to it -/
structure Frame where
  tag : Tag
  version : UInt32
  values : List Value

namespace Frame

def size (f : Frame) : Nat := f.values.foldr (fun v n => v.size + n) 0

def calls (f : Frame) : List WriteCall :=
  .openRecord f.tag f.version :: f.values.map .value

end Frame

def leadingValues : List WriteCall → List Value
  | .value v :: calls => v :: leadingValues calls
  | _ => []

/-- the records that calls open, each with what is written up to the next one -/
def framesOf : List WriteCall → List Frame
  | [] => []
  | .openRecord tag version :: calls => ⟨tag, version, leadingValues calls⟩ :: framesOf calls
  | .value _ :: calls => framesOf calls

/-- calls that nothing stands in the way of -/
structure Writable (calls : List WriteCall) : Prop where
  opened : ∀ before v after, calls = before ++ .value v :: after →
    ∃ tag version, .openRecord tag version ∈ before
  accepted : ∀ c ∈ calls, c.Accepted
  lengths : ∀ f ∈ framesOf calls, f.size ≤ 4294967295

theorem calls_eq (calls : List WriteCall) :
    calls = (leadingValues calls).map .value ++ (framesOf calls).flatMap Frame.calls := by
  induction calls with
  | nil => rfl
  | cons c calls ih =>
    cases c with
    | openRecord tag version =>
      show _ = .openRecord tag version :: (_ ++ (framesOf calls).flatMap Frame.calls)
      rw [← ih]
    | value v =>
      show _ = .value v :: (_ ++ (framesOf calls).flatMap Frame.calls)
      rw [← ih]

/-- where nothing is written before the first record, the records are all that there is -/
theorem Writable.calls_eq {calls : List WriteCall} (h : Writable calls) :
    calls = (framesOf calls).flatMap Frame.calls := by
  have hcalls := ScriptVars.calls_eq calls
  cases hlead : leadingValues calls with
  | nil => rwa [hlead] at hcalls
  | cons v values =>
    rw [hlead] at hcalls
    obtain ⟨_, _, hmem⟩ := h.opened [] v _ hcalls
    cases hmem

/-- a record with a tag and texts that can be written, and a length that has room -/
structure Frame.Fits (f : Frame) : Prop where
  tag : f.tag.bytes.length = 4
  short : ∀ v ∈ f.values, v.Short
  size : f.size < Bytes.capacity 4

theorem Writable.fits {calls : List WriteCall} (h : Writable calls) {f : Frame}
    (hf : f ∈ framesOf calls) : f.Fits := by
  have hmem : ∀ c ∈ f.calls, c ∈ calls := by
    intro c hc
    rw [h.calls_eq]
    exact List.mem_flatMap.2 ⟨f, hf, hc⟩
  exact {
    tag := h.accepted _ (hmem _ List.mem_cons_self)
    short := fun v hv =>
      h.accepted _ (hmem _ (List.mem_cons_of_mem _ (List.mem_map.2 ⟨v, hv, rfl⟩)))
    size := Nat.lt_succ_of_le (h.lengths f hf) }

/-! ## Values in bytes -/

namespace Value

theorem length_encode (v : Value) : v.encode.length = v.size := by
  cases v with
  | text s => exact (List.length_append).trans (by rw [Bytes.length_ofNat]; rfl)
  | byte b => rfl
  | half x => exact Bytes.length_ofNat 2 x.toNat
  | word w => exact Bytes.length_ofNat 4 w.toNat
  | number x => exact Bytes.length_ofNat 8 x.bits.toNat
  | bytes l => rfl

/-- a value is read by its own call -/
theorem takes_encode {v : Value} (h : v.Short) : v.readCall.reader.Takes v.encode v := by
  cases v with
  | byte b => exact (Reader.takes_byte b).map Value.byte
  | half x =>
    have hx : x.toNat < Bytes.capacity 2 := x.toNat_lt
    have htake := (Reader.takes_nat hx).map fun n => Value.half (UInt16.ofNat n)
    rwa [UInt16.ofNat_toNat] at htake
  | word w => exact (Reader.takes_word w).map Value.word
  | number x => exact (Reader.takes_number x).map Value.number
  | text s =>
    have hlen : (Utf8.encode s).length < Bytes.capacity 2 := Nat.lt_succ_of_le h
    have hdraft : Draft.text s = .of (text s).encode := if_pos hlen
    exact (Reader.takes_text hdraft).map Value.text
  | bytes l => exact (Reader.takes_take rfl).map Value.bytes

end Value

/-- the record that is written -/
def Frame.record (f : Frame) : Record := ⟨f.tag, f.version, f.values.flatMap Value.encode⟩

theorem Frame.length_record (f : Frame) : f.record.body.length = f.size := by
  show (f.values.flatMap Value.encode).length = f.values.foldr (fun v n => v.size + n) 0
  induction f.values with
  | nil => rfl
  | cons v values ih =>
    rw [List.flatMap_cons, List.length_append, Value.length_encode, ih, List.foldr_cons]

/-! ## Writing -/

namespace Stream

/-- a stream with a record at its end that is being written -/
structure Writing (done : List UInt8) (r : Record) (s : Stream) : Prop where
  bytes : s.bytes.toList = done ++ r.encode
  lengthAt : s.lengthAt = some (done.length + r.tag.bytes.length + 4)

theorem openRecord_writing (s : Stream) (tag : Tag) (version : UInt32) :
    (s.openRecord tag version).Writing s.bytes.toList ⟨tag, version, []⟩ where
  bytes := by
    show (s.bytes ++ (tag.bytes ++ Bytes.ofNat 4 version.toNat ++ Bytes.ofNat 4 0)).toList = _
    rw [Array.toList_appendList, Record.encode, List.append_nil]
    rfl
  lengthAt := by
    show some (s.bytes.size + (tag.bytes ++ Bytes.ofNat 4 version.toNat).length) = _
    rw [List.length_append, Bytes.length_ofNat, Array.length_toList, Nat.add_assoc]

/-- bytes are added to the body, and the length is that of the longer body -/
theorem Writing.write {done new : List UInt8} {r : Record} {s : Stream} (h : s.Writing done r)
    (hlen : (r.body ++ new).length < Bytes.capacity 4) :
    ∃ s', Stream.write new s = .ok () s' ∧ s'.Writing done ⟨r.tag, r.version, r.body ++ new⟩ := by
  -- the bytes before the length and the length itself, which is all that is written anew
  obtain ⟨front, hfront⟩ :
      ∃ front, front = done ++ (r.tag.bytes ++ Bytes.ofNat 4 r.version.toNat) := ⟨_, rfl⟩
  obtain ⟨old, hold⟩ : ∃ old, old = Bytes.ofNat 4 r.body.length := ⟨_, rfl⟩
  have hat : s.lengthAt = some front.length := by
    rw [h.lengthAt, hfront, List.length_append, List.length_append, Bytes.length_ofNat,
      Nat.add_assoc]
  have hfour : old.length = 4 := by rw [hold, Bytes.length_ofNat]
  have hbytes : (s.bytes ++ new).toList = front ++ (old ++ (r.body ++ new)) := by
    rw [Array.toList_appendList, h.bytes, Record.encode, hfront, hold]
    simp only [List.append_assoc]
  have hsize : (s.bytes ++ new).size - front.length - 4 = (r.body ++ new).length := by
    rw [← Array.length_toList, hbytes]
    simp only [List.length_append, hfour]
    omega
  have hbefore : (s.bytes ++ new).toList.take front.length = front := by
    rw [hbytes, List.take_left]
  have hafter : (s.bytes ++ new).toList.drop (front.length + 4) = r.body ++ new := by
    rw [hbytes, ← List.drop_drop, List.drop_left, ← hfour, List.drop_left]
  have hwrite := write_of_some hat new
  dsimp only at hwrite
  rw [hsize, if_pos hlen] at hwrite
  refine ⟨_, hwrite, ?_, h.lengthAt⟩
  show (patched (s.bytes ++ new) front.length (r.body ++ new).length).toList = _
  rw [toList_patched, hbefore, hafter, hfront, Record.encode]
  simp only [List.append_assoc]

/-- a text is added behind its length -/
theorem Writing.writeText {done : List UInt8} {r : Record} {s : Stream} (h : s.Writing done r)
    {text : String} (hshort : (Value.text text).Short)
    (hlen : r.body.length + (Value.text text).encode.length < Bytes.capacity 4) :
    ∃ s', Stream.writeText text s = .ok () s' ∧
      s'.Writing done ⟨r.tag, r.version, r.body ++ (Value.text text).encode⟩ := by
  have hfits : (Utf8.encode text).length < Bytes.capacity 2 := Nat.lt_succ_of_le hshort
  rw [Value.encode, List.length_append] at hlen
  rw [Value.encode, ← List.append_assoc]
  have hroom : (r.body ++ Bytes.ofNat 2 (Utf8.encode text).length).length < Bytes.capacity 4 := by
    rw [List.length_append]
    omega
  obtain ⟨s₁, hlength, hs₁⟩ := h.write hroom
  have hroom' : (r.body ++ Bytes.ofNat 2 (Utf8.encode text).length ++ Utf8.encode text).length <
      Bytes.capacity 4 := by
    rw [List.length_append, List.length_append]
    omega
  obtain ⟨s₂, hbytes, hs₂⟩ := hs₁.write hroom'
  refine ⟨s₂, ?_, hs₂⟩
  rw [Stream.writeText]
  show (if _ then _ else throw _ : Action Stream Unit) s = _
  rw [if_pos hfits]
  exact (bind_of_ok hlength).trans hbytes

/-- a value is added, if the record still has room for it -/
theorem Writing.run {done : List UInt8} {r : Record} {s : Stream} (h : s.Writing done r)
    {v : Value} (hv : v.Short) (hlen : r.body.length + v.encode.length < Bytes.capacity 4) :
    ∃ s', (WriteCall.value v).run s = .ok () s' ∧
      s'.Writing done ⟨r.tag, r.version, r.body ++ v.encode⟩ := by
  cases v with
  | text text => exact h.writeText hv hlen
  | _ =>
    rw [← List.length_append] at hlen
    exact h.write hlen

theorem runAll_append (calls more : List WriteCall) {s t : Stream}
    (h : WriteCall.runAll calls s = .ok () t) :
    WriteCall.runAll (calls ++ more) s = WriteCall.runAll more t := by
  induction calls generalizing s with
  | nil =>
    obtain ⟨-, rfl⟩ := pure_eq_ok.1 h
    rfl
  | cons c calls ih =>
    obtain ⟨_, u, hc, hcalls⟩ := bind_eq_ok.1 h
    exact (bind_of_ok hc).trans (ih hcalls)

/-- the values of a record one after the other, as long as all of them have room -/
theorem Writing.runAll {done : List UInt8} {r : Record} {s : Stream} (h : s.Writing done r)
    {values : List Value} (hshort : ∀ v ∈ values, v.Short)
    (hlen : r.body.length + (values.flatMap Value.encode).length < Bytes.capacity 4) :
    ∃ s', WriteCall.runAll (values.map .value) s = .ok () s' ∧
      s'.Writing done ⟨r.tag, r.version, r.body ++ values.flatMap Value.encode⟩ := by
  induction values generalizing r s with
  | nil =>
    refine ⟨s, rfl, ?_⟩
    rw [List.flatMap_nil, List.append_nil]
    exact h
  | cons v values ih =>
    obtain ⟨hv, hvalues⟩ := List.forall_mem_cons.1 hshort
    rw [List.flatMap_cons, List.length_append] at hlen
    obtain ⟨s₁, hrun, hs₁⟩ := h.run hv (by omega)
    obtain ⟨s₂, hrest, hs₂⟩ := ih hs₁ hvalues (by
      show (r.body ++ v.encode).length + _ < _
      rw [List.length_append]
      omega)
    refine ⟨s₂, (bind_of_ok hrun).trans hrest, ?_⟩
    rw [List.flatMap_cons, ← List.append_assoc]
    exact hs₂

/-- a whole record is put behind what is there -/
theorem run_frame {f : Frame} (hf : f.Fits) (s : Stream) :
    ∃ s', WriteCall.runAll f.calls s = .ok () s' ∧
      s'.bytes.toList = s.bytes.toList ++ f.record.encode := by
  have hsize := hf.size
  rw [← f.length_record] at hsize
  obtain ⟨s', hrun, hs'⟩ := (openRecord_writing s f.tag f.version).runAll hf.short (by
    rw [List.length_nil, Nat.zero_add]
    exact hsize)
  have hopen : (WriteCall.openRecord f.tag f.version).run s =
      .ok () (s.openRecord f.tag f.version) := rfl
  exact ⟨s', (bind_of_ok hopen).trans hrun, hs'.bytes⟩

/-- records one after the other -/
theorem run_frames {frames : List Frame} (hf : ∀ f ∈ frames, f.Fits) (s : Stream) :
    ∃ s', WriteCall.runAll (frames.flatMap Frame.calls) s = .ok () s' ∧
      s'.bytes.toList = s.bytes.toList ++ frames.flatMap fun f => f.record.encode := by
  induction frames generalizing s with
  | nil => exact ⟨s, rfl, (List.append_nil _).symm⟩
  | cons f frames ih =>
    obtain ⟨hfirst, hrest⟩ := List.forall_mem_cons.1 hf
    obtain ⟨s₁, hrun, hs₁⟩ := run_frame hfirst s
    obtain ⟨s₂, hrun', hs₂⟩ := ih hrest s₁
    refine ⟨s₂, ?_, ?_⟩
    · rw [List.flatMap_cons, runAll_append _ _ hrun]
      exact hrun'
    · rw [hs₂, hs₁, List.flatMap_cons, List.append_assoc]

/-! ## Reading -/

/-- where reads end that may take something or be refused -/
def consume (calls : List ReadCall) (s : Stream) : Stream :=
  calls.foldl (fun s c => c.run.after s) s

theorem shrinks_reader (c : ReadCall) : c.reader.Shrinks := by
  cases c with
  | byte => exact Reader.shrinks_byte.bind fun _ => Reader.shrinks_pure _
  | half => exact (Reader.shrinks_nat 2).bind fun _ => Reader.shrinks_pure _
  | word => exact Reader.shrinks_word.bind fun _ => Reader.shrinks_pure _
  | number => exact Reader.shrinks_number.bind fun _ => Reader.shrinks_pure _
  | text => exact Reader.shrinks_text.bind fun _ => Reader.shrinks_pure _
  | bytes n => exact (Reader.shrinks_take n).bind fun _ => Reader.shrinks_pure _

variable {body rest : List UInt8} {s : Stream}

/-- a place further on in the same record -/
theorem Stands.skip (h : s.Stands body rest) {n : Nat} (hn : n ≤ body.length) :
    Stands (body.drop (body.length - n)) rest { s with position := s.recordEnd - n } := by
  have hposition : s.recordEnd - n = s.position + (body.length - n) := by
    rw [h.recordEnd]
    omega
  constructor
  · show s.bytes.toList.drop (s.recordEnd - n) = _
    rw [hposition, ← List.drop_drop, h.ahead, List.drop_append_of_le_length (Nat.sub_le _ _)]
  · show s.recordEnd = s.recordEnd - n + (body.drop (body.length - n)).length
    rw [List.length_drop, h.recordEnd]
    omega

/-- a read stays in its record, also when it is refused -/
theorem stands_after_read (h : s.Stands body rest) {α : Type} {r : Reader α} (hr : r.Shrinks) :
    ∃ body', ((read r).after s).Stands body' rest := by
  have hover : ¬ s.recordEnd < s.position := by
    rw [h.recordEnd]
    omega
  have hleft := hr body
  rw [Action.after] at hleft ⊢
  rw [Stream.read, if_neg hover, h.unread]
  cases hbody : r body with
  | ok a left =>
    rw [hbody] at hleft
    exact ⟨_, h.skip hleft⟩
  | error f left =>
    rw [hbody] at hleft
    exact ⟨_, h.skip hleft⟩

theorem stands_consume (h : s.Stands body rest) (calls : List ReadCall) :
    ∃ body', (s.consume calls).Stands body' rest := by
  induction calls generalizing body s with
  | nil => exact ⟨body, h⟩
  | cons c calls ih =>
    obtain ⟨body', h'⟩ := stands_after_read h (shrinks_reader c)
    exact ih h'

/-- nothing is read past the end of a record, and nothing of what is before it -/
theorem Stands.read_past (h : s.Stands body rest) {n : Nat}
    (hn : s.recordEnd < s.position + n) :
    Stream.read (Reader.take n) s = .error (.format .readPastEnd) s := by
  have hlen : body.length < n := by
    rw [h.recordEnd] at hn
    omega
  have hover : ¬ s.recordEnd < s.position := by
    rw [h.recordEnd]
    omega
  have hposition : s.recordEnd - body.length = s.position := by
    rw [h.recordEnd, Nat.add_sub_cancel]
  rw [Stream.read, if_neg hover, h.unread, Reader.take_eq, Bytes.splitAt?_eq_none_iff.2 hlen]
  show EStateM.Result.error _ { s with position := s.recordEnd - body.length } = _
  rw [hposition]

theorem Stands.next_none (h : s.Stands body []) :
    ∃ s', Stream.next s = .ok none s' ∧ s'.Stands [] [] := by
  have hslice : s.slice s.recordEnd (s.recordEnd + Header.size) = [] := by
    rw [slice_eq, h.drop_recordEnd, List.take_nil]
  rw [next_eq]
  exact ⟨_, if_pos hslice, h.drop_recordEnd, rfl⟩

/-- values that were written one after the other -/
theorem Stands.runAll {values : List Value} (hshort : ∀ v ∈ values, v.Short)
    (h : s.Stands (values.flatMap Value.encode ++ body) rest) :
    ∃ s', ReadCall.runAll (values.map Value.readCall) s = .ok values s' ∧
      s'.Stands body rest := by
  induction values generalizing s with
  | nil => exact ⟨s, rfl, h⟩
  | cons v values ih =>
    obtain ⟨hv, hvalues⟩ := List.forall_mem_cons.1 hshort
    rw [List.flatMap_cons, List.append_assoc] at h
    obtain ⟨s₁, hread, hs₁⟩ := h.read (Value.takes_encode hv)
    obtain ⟨s₂, hrest, hs₂⟩ := ih hvalues hs₁
    exact ⟨s₂, (bind_of_ok hread).trans ((bind_of_ok hrest).trans rfl), hs₂⟩

/-! ## What is read back -/

/-- bytes that the record does not have any more are refused, and nothing moves, wherever reads in
the record have come to -/
def Bounded (s : Stream) : Prop :=
  ∀ (calls : List ReadCall) (n : Nat),
    (s.consume calls).recordEnd < (s.consume calls).position + n →
    read (Reader.take n) (s.consume calls) = .error (.format .readPastEnd) (s.consume calls)

/-- Ahead of a place are some records, and no others: wherever reads have come to, the next record
is found with its tag, its version and as many bytes as were written to it; its values are there,
and nothing behind them. -/
def ReadsBack : List Frame → Stream → Prop
  | [], s => s.Bounded ∧ ∀ calls, ∃ s', next (s.consume calls) = .ok none s' ∧ s'.Bounded
  | f :: frames, s => s.Bounded ∧ ∀ calls, ∃ length s',
      next (s.consume calls) = .ok (some ⟨f.tag, f.version, length⟩) s' ∧
      length.toNat = f.size ∧ s'.recordEnd = s'.position + f.size ∧
      (∃ t, ReadCall.runAll (f.values.map Value.readCall) s' = .ok f.values t) ∧
      s'.ReadsBack frames

theorem Stands.bounded (h : s.Stands body rest) : s.Bounded := by
  intro calls n hn
  obtain ⟨body', h'⟩ := stands_consume h calls
  exact h'.read_past hn

theorem Stands.readsBack {frames : List Frame} (hf : ∀ f ∈ frames, f.Fits)
    (h : s.Stands body (frames.flatMap fun f => f.record.encode)) : s.ReadsBack frames := by
  induction frames generalizing body s with
  | nil =>
    refine ⟨h.bounded, fun calls => ?_⟩
    obtain ⟨body', h'⟩ := stands_consume h calls
    obtain ⟨s', hnext, hs'⟩ := h'.next_none
    exact ⟨s', hnext, hs'.bounded⟩
  | cons f frames ih =>
    obtain ⟨hfirst, hrest⟩ := List.forall_mem_cons.1 hf
    refine ⟨h.bounded, fun calls => ?_⟩
    obtain ⟨body', h'⟩ := stands_consume h calls
    have hsize : f.record.body.length < Bytes.capacity 4 := f.length_record ▸ hfirst.size
    rw [List.flatMap_cons] at h'
    obtain ⟨s', hnext, hs'⟩ := h'.next hfirst.tag hsize
    refine ⟨_, s', hnext, ?_, ?_, ?_, ih hrest hs'⟩
    · rw [UInt32.toNat_ofNat_of_lt' hsize, f.length_record]
    · rw [hs'.recordEnd, f.length_record]
    · rw [← List.append_nil f.record.body] at hs'
      obtain ⟨t, hread, -⟩ := hs'.runAll hfirst.short
      exact ⟨t, hread⟩

/-- Whatever is written record by record is written without a refusal and read back, however much
is read of each record. -/
theorem frames_read_back {calls : List WriteCall} (h : Writable calls) :
    ∃ s, WriteCall.runAll calls empty = .ok () s ∧
      (ofBytes s.bytes.toList).ReadsBack (framesOf calls) := by
  have hf : ∀ f ∈ framesOf calls, f.Fits := fun f hf => h.fits hf
  obtain ⟨s, hrun, hbytes⟩ := run_frames hf empty
  rw [← h.calls_eq] at hrun
  refine ⟨s, hrun, ?_⟩
  rw [hbytes]
  exact (stands_ofBytes _).readsBack hf

/-- a record with a text in front of a double that is no number, one without values, and one with
bytes -/
theorem frames_read_back_mixed :
    let calls : List WriteCall := [.openRecord (.ofName "ONE ") 3, .value (.word 7),
      .value (.text "äbc"), .value (.number ⟨0x7FF8000000000001⟩), .openRecord (.ofName "TWO ") 0,
      .openRecord (.ofName "TRI ") 1, .value (.half 513), .value (.bytes [1, 2, 3])]
    Writable calls ∧ ∃ s, WriteCall.runAll calls empty = .ok () s ∧
      (ofBytes s.bytes.toList).ReadsBack [
        ⟨.ofName "ONE ", 3, [.word 7, .text "äbc", .number ⟨0x7FF8000000000001⟩]⟩,
        ⟨.ofName "TWO ", 0, []⟩, ⟨.ofName "TRI ", 1, [.half 513, .bytes [1, 2, 3]]⟩] := by
  intro calls
  have hcalls : Writable calls := {
    opened := by
      intro before v after h
      cases before with
      | nil =>
        obtain ⟨hfirst, -⟩ := List.cons.inj h
        cases hfirst
      | cons c before =>
        obtain ⟨rfl, -⟩ := List.cons.inj h
        exact ⟨_, _, List.mem_cons_self⟩
    accepted := by decide
    lengths := by decide }
  exact ⟨hcalls, frames_read_back hcalls⟩

end Stream

end ScriptVars
