import ScriptVars.Proofs.Bodies

/-!
# Records on a stream

* `Stream.Stands`             what is ahead of a place in a stream;
* `Stream.Stands.next`        on to a record that was written;
* `Stream.Stands.read`        a value off the body of a record;
* `Written`                   what was written of a table if nothing was refused;
* `Loads`                     what a section of records makes of a table;
* `run_section`               one record after another, to the end of the section.
-/

namespace ScriptVars

open ScriptVars.Action

/-! ## Places in a stream -/

namespace Stream

variable {body rest : List UInt8} {s : Stream}

/-- what is left of the record, and what comes after it -/
structure Stands (body rest : List UInt8) (s : Stream) : Prop where
  ahead : s.bytes.toList.drop s.position = body ++ rest
  recordEnd : s.recordEnd = s.position + body.length

theorem Stands.drop_recordEnd (h : s.Stands body rest) : s.bytes.toList.drop s.recordEnd = rest := by
  rw [h.recordEnd, ← List.drop_drop, h.ahead, List.drop_left]

theorem Stands.unread (h : s.Stands body rest) : s.unread = body := by
  rw [Stream.unread, slice_eq, h.ahead, h.recordEnd, Nat.add_sub_cancel_left, List.take_left]

theorem Stands.length_le (h : s.Stands body rest) : rest.length ≤ s.bytes.size := by
  rw [← h.drop_recordEnd, List.length_drop, Array.length_toList]
  exact Nat.sub_le _ _

def headerBytes (r : Record) : List UInt8 :=
  r.tag.bytes ++ Bytes.ofNat 4 r.version.toNat ++ Bytes.ofNat 4 r.body.length

theorem length_headerBytes {r : Record} (htag : r.tag.bytes.length = 4) :
    (headerBytes r).length = Header.size := by
  rw [headerBytes, List.length_append, List.length_append, Bytes.length_ofNat, Bytes.length_ofNat,
    htag, Header.size]

/-- on to a record, whatever is left of the one before -/
theorem Stands.next {r : Record} (h : s.Stands body (r.encode ++ rest))
    (htag : r.tag.bytes.length = 4) (hlen : r.body.length < Bytes.capacity 4) :
    ∃ s', next s = .ok (some ⟨r.tag, r.version, UInt32.ofNat r.body.length⟩) s' ∧
      s'.Stands r.body rest := by
  have hdrop := h.drop_recordEnd
  have hsize := length_headerBytes htag
  have hencode : r.encode ++ rest = headerBytes r ++ (r.body ++ rest) := List.append_assoc ..
  have hheader : s.slice s.recordEnd (s.recordEnd + Header.size) = headerBytes r := by
    rw [slice_eq, hdrop, Nat.add_sub_cancel_left, hencode, ← hsize, List.take_left]
  have hlength : Bytes.toNat ((headerBytes r).drop 8) = r.body.length := by
    have h8 : (r.tag.bytes ++ Bytes.ofNat 4 r.version.toNat).length = 8 := by
      rw [List.length_append, htag, Bytes.length_ofNat]
    rw [headerBytes, ← h8, List.drop_left, Bytes.toNat_ofNat, Nat.mod_eq_of_lt hlen]
  have htagBytes : (headerBytes r).take 4 = r.tag.bytes := by
    rw [headerBytes, List.append_assoc, ← htag, List.take_left]
  have hversion : ((headerBytes r).drop 4).take 4 = Bytes.ofNat 4 r.version.toNat := by
    rw [headerBytes, List.append_assoc, ← htag, List.drop_left, htag]
    exact List.take_left' (Bytes.length_ofNat 4 _)
  have hbytes : s.recordEnd + (Header.size + (r.body.length + rest.length)) ≤ s.bytes.size := by
    have hl := congrArg List.length hdrop
    rw [hencode, List.length_append, List.length_append, hsize, List.length_drop,
      Array.length_toList, Header.size] at hl
    rw [Header.size]
    omega
  have hv : r.version.toNat % Bytes.capacity 4 = r.version.toNat :=
    Nat.mod_eq_of_lt r.version.toNat_lt
  refine ⟨{ s with
    position := s.recordEnd + Header.size
    recordEnd := s.recordEnd + Header.size + r.body.length }, ?_, ?_, rfl⟩
  · rw [next_eq, hheader]
    rw [if_neg (List.ne_nil_of_length_pos (by rw [hsize, Header.size]; omega)),
      if_neg (Nat.not_lt.2 (Nat.le_of_eq hsize.symm)), hlength, if_neg (by omega), htagBytes,
      hversion, Bytes.toNat_ofNat, hv, UInt32.ofNat_toNat]
  · show s.bytes.toList.drop (s.recordEnd + Header.size) = _
    rw [← List.drop_drop, hdrop, hencode, ← hsize, List.drop_left]

/-- reads off the front of what is left -/
theorem Stands.read {α : Type} {r : Reader α} {taken : List UInt8} {a : α}
    (h : s.Stands (taken ++ body) rest) (hr : r.Takes taken a) :
    ∃ s', read r s = .ok a s' ∧ s'.Stands body rest := by
  have hover : ¬ s.recordEnd < s.position := by
    rw [h.recordEnd]
    omega
  refine ⟨{ s with position := s.recordEnd - body.length }, ?_, ?_, ?_⟩
  · rw [Stream.read, if_neg hover, h.unread, hr body]
  · have hp : s.recordEnd - body.length = s.position + taken.length := by
      rw [h.recordEnd, List.length_append]
      omega
    show s.bytes.toList.drop (s.recordEnd - body.length) = _
    rw [hp, ← List.drop_drop, h.ahead, List.append_assoc, List.drop_left]
  · show s.recordEnd = s.recordEnd - body.length + body.length
    have hle : body.length ≤ s.recordEnd := by
      rw [h.recordEnd, List.length_append]
      omega
    omega

theorem stands_ofBytes (bytes : List UInt8) : (ofBytes bytes).Stands [] bytes := ⟨rfl, rfl⟩

/-- what is written if nothing is refused -/
theorem writeRecords_eq_ok {d : Draft Record} {s' : Stream} {u : Unit}
    (h : writeRecords d s = .ok u s') : d = .of d.parts ∧ s' = s.append d.parts := by
  obtain ⟨_, t, hm, h⟩ := bind_eq_ok.1 h
  obtain rfl := modify_eq_ok.1 hm
  obtain ⟨parts, fault⟩ := d
  cases fault with
  | none => exact ⟨rfl, (pure_eq_ok.1 h).2⟩
  | some f => exact absurd h throw_eq_ok

end Stream

/-! ## Sections that were written -/

namespace Draft

theorem record_eq_of {tag : Tag} {version : UInt32} {body : Draft UInt8} {l : List Record}
    (h : record tag version body = of l) :
    body = of body.parts ∧ body.parts.length < Bytes.capacity 4 ∧
      l = [⟨tag, version, body.parts⟩] := by
  rw [record] at h
  split at h
  · next hlen =>
    refine ⟨?_, hlen, (congrArg parts h).symm⟩
    have hfault : body.fault = none := congrArg fault h
    rw [of, ← hfault]
  · cases h

end Draft

section
variable {α : Type}

/-- the record of a variable -/
def recordOf (tag : Tag) (version : UInt32) (body : UInt32 × α → Draft UInt8) (p : UInt32 × α) :
    Record := ⟨tag, version, (body p).parts⟩

/-- the records of some variables between a start and an end -/
def sectionOf (first last : Record) (record : UInt32 × α → Record) (l : List (UInt32 × α)) :
    List Record := first :: (l.map record ++ [last])

/-- variables with handles of their own, whose bodies were written -/
structure Written (body : UInt32 × α → Draft UInt8) (l : List (UInt32 × α)) : Prop where
  apart : l.Pairwise fun p q => p.1 ≠ q.1
  handle : ∀ p ∈ l, handleOf p.1 = p.1 ∧ p.1 ≠ 0
  whole : ∀ p ∈ l, body p = .of (body p).parts
  length : ∀ p ∈ l, (body p).parts.length < Bytes.capacity 4

/-- a section with the variables of a table -/
theorem written_of_section {t : HandleTable α} {first last : Record} {tag : Tag} {version : UInt32}
    (body : UInt32 × α → Draft UInt8) {l : List Record}
    (h : .of [first] ++ (.concat (t.toList.map fun p => .record tag version (body p)) ++
      .of [last]) = Draft.of l) :
    Written body t.toList ∧ l = sectionOf first last (recordOf tag version body) t.toList := by
  obtain ⟨a, _, ha, h₁, rfl⟩ := Draft.append_eq_of h
  obtain ⟨b, c, hb, hc, rfl⟩ := Draft.append_eq_of h₁
  cases Draft.of_inj ha
  cases Draft.of_inj hc
  obtain ⟨hl, rfl⟩ := Draft.concat_eq_of hb
  have hapart : t.toList.Pairwise fun p q => p.1 ≠ q.1 :=
    t.ascending_toList.imp fun hlt e => Nat.ne_of_lt hlt (congrArg UInt32.toNat e)
  refine ⟨{
    apart := hapart, handle := fun p hp => HandleTable.handle_of_mem_toList hp
    whole := fun p hp => (Draft.record_eq_of (hl p hp)).1
    length := fun p hp => (Draft.record_eq_of (hl p hp)).2.1 }, ?_⟩
  exact congrArg (fun parts => first :: (parts ++ [last])) (List.flatMap_pure_eq_map _ _)

theorem length_le_flatMap_encode (record : UInt32 × α → Record) (l : List (UInt32 × α)) :
    l.length ≤ (l.flatMap fun p => (record p).encode).length := by
  induction l with
  | nil => exact Nat.zero_le _
  | cons p l ih =>
    have hp : 0 < (record p).encode.length := by
      rw [Record.encode, List.length_append, List.length_append, List.length_append,
        Bytes.length_ofNat]
      omega
    rw [List.flatMap_cons, List.length_cons, List.length_append]
    omega

/-- into a section; there are fewer records in it than bytes -/
theorem Stream.enter_section {first last : Record} {record : UInt32 × α → Record}
    {l : List (UInt32 × α)} {body rest : List UInt8} {s : Stream}
    (h : s.Stands body ((sectionOf first last record l).flatMap Record.encode ++ rest))
    (htag : first.tag.bytes.length = 4) (hbody : first.body = []) :
    ∃ s', next s = .ok (some ⟨first.tag, first.version, 0⟩) s' ∧
      s'.Stands [] ((l.flatMap fun p => (record p).encode) ++ (last.encode ++ rest)) ∧
      l.length ≤ s.bytes.size ∧ l.length ≤ s'.bytes.size := by
  have hsplit : (sectionOf first last record l).flatMap Record.encode ++ rest =
      first.encode ++ ((l.flatMap fun p => (record p).encode) ++ (last.encode ++ rest)) := by
    rw [sectionOf, List.flatMap_cons, List.flatMap_append, List.flatMap_map, List.flatMap_singleton,
      List.append_assoc, List.append_assoc]
  rw [hsplit] at h
  have hlen : first.body.length < Bytes.capacity 4 := by
    rw [hbody]
    exact Nat.pow_pos (by decide)
  obtain ⟨s', hn, hs'⟩ := h.next htag hlen
  rw [hbody] at hn hs'
  have hle := h.length_le
  have hle' := hs'.length_le
  rw [List.length_append, List.length_append] at hle
  rw [List.length_append] at hle'
  have hrecords := length_le_flatMap_encode record l
  exact ⟨s', hn, hs', by omega, by omega⟩

end

/-! ## Sections that are read -/

section
variable {α : Type}

/-- what comes of a table when a list of variables is read into it -/
structure Loads (loaded : α → Option α) (l : List (UInt32 × α)) (t t' : HandleTable α) : Prop where
  find? : ∀ i, t'.find? i =
    ((l.find? fun p => p.1 == handleOf i).map fun p => loaded p.2).getD (t.find? i)
  temporaries : t'.slots.temporaries = t.slots.temporaries

theorem loads_nil (loaded : α → Option α) (t : HandleTable α) : Loads loaded [] t t :=
  ⟨fun _ => rfl, rfl⟩

/-- one variable after another, each with a handle of its own -/
theorem Loads.cons {loaded : α → Option α} {p : UInt32 × α} {l : List (UInt32 × α)}
    {t u t' : HandleTable α} (hp : Loads loaded [p] t u) (hl : Loads loaded l u t')
    (hne : ∀ q ∈ l, p.1 ≠ q.1) : Loads loaded (p :: l) t t' where
  find? i := by
    rw [hl.find?, hp.find?, List.find?_singleton, List.find?_cons]
    by_cases e : p.1 = handleOf i
    · have hnone : (l.find? fun q => q.1 == handleOf i) = none := by
        refine List.find?_eq_none.2 fun q hq => ?_
        rw [beq_iff_eq, ← e]
        exact fun h => hne q hq h.symm
      rw [hnone, beq_iff_eq.2 e]
      rfl
    · rw [beq_eq_false_iff_ne.2 e]
      rfl
  temporaries := hl.temporaries.trans hp.temporaries

/-- a section is read by its records; `count` is what one of them adds to the report -/
theorem run_section (load : Nat → LoadReport → Action (HandleTable α × Stream) LoadReport)
    (count : α → LoadReport → LoadReport) (loaded : α → Option α) {record : UInt32 × α → Record}
    {last : Record} {l : List (UInt32 × α)} {rest : List UInt8}
    (hstep : ∀ p ∈ l, ∀ {fuel report body rest t s},
      s.Stands body ((record p).encode ++ rest) → t.find? p.1 = none →
      ∃ u s' body', load (fuel + 1) report (t, s) = load fuel (count p.2 report) (u, s') ∧
        s'.Stands body' rest ∧ Loads loaded [p] t u)
    (hlast : ∀ {fuel report body t s}, s.Stands body (last.encode ++ rest) →
      ∃ s' body', load (fuel + 1) report (t, s) = .ok report (t, s') ∧ s'.Stands body' rest)
    (hl : l.Pairwise fun p q => p.1 ≠ q.1) (hself : ∀ p ∈ l, handleOf p.1 = p.1)
    {fuel : Nat} (hfuel : l.length < fuel) (report : LoadReport) {body : List UInt8}
    {t : HandleTable α} {s : Stream} (ht : ∀ p ∈ l, t.find? p.1 = none)
    (hs : s.Stands body ((l.flatMap fun p => (record p).encode) ++ (last.encode ++ rest))) :
    ∃ t' s' body', load fuel report (t, s) =
        .ok (l.foldl (fun report p => count p.2 report) report) (t', s') ∧
      s'.Stands body' rest ∧ Loads loaded l t t' := by
  induction l generalizing fuel report body t s with
  | nil =>
    cases fuel with
    | zero => exact absurd hfuel (Nat.lt_irrefl 0)
    | succ fuel =>
      obtain ⟨s', body', hr, hs'⟩ := hlast hs
      exact ⟨t, s', body', hr, hs', loads_nil loaded t⟩
  | cons p l ih =>
    cases fuel with
    | zero => exact absurd hfuel (Nat.not_lt_zero _)
    | succ fuel =>
      obtain ⟨hne, hl⟩ := List.pairwise_cons.1 hl
      rw [List.flatMap_cons, List.append_assoc] at hs
      obtain ⟨u, s₁, body₁, hr, hs₁, hu⟩ := hstep p List.mem_cons_self hs (ht p List.mem_cons_self)
      have hfree : ∀ q ∈ l, u.find? q.1 = none := by
        intro q hq
        have hq' := List.mem_cons_of_mem p hq
        rw [hu.find?, List.find?_singleton, hself q hq', beq_eq_false_iff_ne.2 (hne q hq)]
        exact ht q hq'
      obtain ⟨t', s', body', hr', hs', hl'⟩ := ih (fun q hq => hstep q (List.mem_cons_of_mem p hq))
        hl (fun q hq => hself q (List.mem_cons_of_mem p hq)) (Nat.lt_of_succ_lt_succ hfuel)
        (count p.2 report) hfree hs₁
      exact ⟨t', s', body', hr.trans hr', hs', hu.cons hl' hne⟩

end

end ScriptVars
