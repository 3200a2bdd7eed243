import ScriptVars.Proofs.Rollback

/-!
# Sections that were read

A section that could be read stands in the stream as a start record, records of variables, and an
end record, whoever wrote it.  Each record is counted once in the report: as a variable that was
kept, or as one that was dropped.

* `Stream.ahead_next`, `ahead_read`     what reading does to the bytes ahead;
* `HandleTable.Filled`                  a table of new variables;
* `LoadReport.kept`, `dropped`          what a report counts of a sort of variables;
* `Adds`                                what reading one record does;
* `records_of_ok`                       one record after another, to the end of the section.
-/

namespace ScriptVars

open ScriptVars.Action

/-! ## Records in a stream -/

/-- a record with a tag, whose length can be told in its header -/
structure Record.Is (tag : Tag) (r : Record) : Prop where
  tag : r.tag = tag
  length : r.body.length < Bytes.capacity 4

namespace Stream

variable {s s' : Stream}

theorem ahead_next_none (h : next s = .ok none s') : s.ahead = [] := by
  rw [next_eq] at h
  dsimp only at h
  split at h
  · next he =>
    rw [slice_eq, Nat.add_sub_cancel_left, List.take_eq_nil_iff] at he
    exact he.resolve_left (by decide)
  · split at h
    · cases h
    · split at h <;> cases h

/-- the twelve bytes of a header are made of what they stand for -/
theorem header_eq {l : List UInt8} (h : l.length = 12) :
    l.take 4 ++ Bytes.ofNat 4 (Bytes.toNat ((l.drop 4).take 4)) ++
      Bytes.ofNat 4 (Bytes.toNat (l.drop 8)) = l := by
  have hversion : ((l.drop 4).take 4).length = 4 := by
    rw [List.length_take, List.length_drop]
    omega
  have hlength : (l.drop 8).length = 4 := by
    rw [List.length_drop]
    omega
  have h₁ := Bytes.ofNat_toNat ((l.drop 4).take 4)
  have h₂ := Bytes.ofNat_toNat (l.drop 8)
  rw [hversion] at h₁
  rw [hlength] at h₂
  have hdrop : l.drop 8 = (l.drop 4).drop 4 := by rw [List.drop_drop]
  rw [h₁, h₂, List.append_assoc, hdrop, List.take_append_drop, List.take_append_drop]

/-- a record that is gone to -/
theorem ahead_next {header : Header} (h : next s = .ok (some header) s') :
    ∃ r : Record, s.ahead = r.encode ++ s'.ahead ∧ r.Is header.tag ∧ header.tag.bytes.length = 4 := by
  have hslice : s.slice s.recordEnd (s.recordEnd + Header.size) = s.ahead.take 12 := by
    rw [slice_eq, Nat.add_sub_cancel_left]
    rfl
  rw [next_eq, hslice] at h
  dsimp only at h
  split at h
  · cases h
  split at h
  · cases h
  next hsize =>
  split at h
  · cases h
  next hover =>
  cases h
  have hle := List.length_take_le 12 s.ahead
  have htake : (s.ahead.take 12).length = 12 := Nat.le_antisymm hle (Nat.not_lt.1 hsize)
  have hheader := header_eq htake
  generalize hl : s.ahead.take 12 = l at hheader htake hover
  have hversion : Bytes.toNat ((l.drop 4).take 4) < Bytes.capacity 4 := by
    have hlt := Bytes.toNat_lt ((l.drop 4).take 4)
    rwa [List.length_take, List.length_drop, htake] at hlt
  have hlength : Bytes.toNat (l.drop 8) < Bytes.capacity 4 := by
    have hlt := Bytes.toNat_lt (l.drop 8)
    rwa [List.length_drop, htake] at hlt
  generalize Bytes.toNat (l.drop 8) = length at hheader hlength hover
  have hbody : ((s.ahead.drop 12).take length).length = length := by
    rw [List.length_take, List.length_drop, ahead, List.length_drop, Array.length_toList]
    change ¬ s.bytes.size < s.recordEnd + 12 + length at hover
    omega
  refine ⟨⟨⟨l.take 4⟩, UInt32.ofNat (Bytes.toNat ((l.drop 4).take 4)),
    (s.ahead.drop 12).take length⟩, ?_, ⟨rfl, hbody.symm ▸ hlength⟩, ?_⟩
  · have hrest : s.bytes.toList.drop (s.recordEnd + Header.size + length) =
        (s.ahead.drop 12).drop length := by
      rw [ahead, List.drop_drop, List.drop_drop, Nat.add_assoc]
      rfl
    show s.ahead = (l.take 4 ++ Bytes.ofNat 4 (UInt32.ofNat _).toNat ++ Bytes.ofNat 4 _ ++ _) ++
      s.bytes.toList.drop _
    rw [UInt32.toNat_ofNat_of_lt' hversion, hbody, hheader, hrest, List.append_assoc,
      List.take_append_drop, ← hl, List.take_append_drop]
  · show (l.take 4).length = 4
    rw [List.length_take, htake]
    rfl

theorem ahead_read {α : Type} {r : Reader α} {a : α} (h : read r s = .ok a s') :
    s'.ahead = s.ahead := by
  rw [read] at h
  split at h
  · cases h
  · split at h <;> cases h
    rfl

end Stream

section
variable {σ α : Type} {p q : σ × Stream}

theorem onStream_eq_ok {x : Action Stream α} {a : α} (h : onStream x p = .ok a q) :
    x p.2 = .ok a q.2 ∧ q.1 = p.1 := by
  rw [onStream] at h
  cases hx : x p.2 <;> rw [hx] at h <;> cases h
  exact ⟨rfl, rfl⟩

theorem onStream_read {r : Reader α} {a : α} (h : onStream (Stream.read r) p = .ok a q) :
    q.1 = p.1 ∧ q.2.ahead = p.2.ahead :=
  ⟨(onStream_eq_ok h).2, Stream.ahead_read (onStream_eq_ok h).1⟩

theorem nextInSection_eq_ok {sort : VariableSort} {header : Header}
    (h : nextInSection sort p = .ok header q) : q.1 = p.1 ∧
      ∃ r : Record, p.2.ahead = r.encode ++ q.2.ahead ∧ r.Is header.tag := by
  obtain ⟨o, p₁, hn, h⟩ := bind_eq_ok.1 h
  obtain ⟨rfl, rfl⟩ := require_eq_ok.1 h
  obtain ⟨hn, hq⟩ := onStream_eq_ok hn
  obtain ⟨r, hr, his, -⟩ := Stream.ahead_next hn
  exact ⟨hq, r, hr, his⟩

end

/-! ## Tables of new variables -/

namespace HandleTable

variable {α : Type} {P : α → Prop} {t u : HandleTable α} {n : Nat}

/-- `n` variables, none of them temporary -/
structure Filled (P : α → Prop) (n : Nat) (t : HandleTable α) : Prop where
  every : ∀ {i a}, t.find? i = some a → P a
  temporaries : t.slots.temporaries = ∅
  size : t.size = n

theorem filled_beginLoad (t : HandleTable α) : t.beginLoad.Filled P 0 where
  every h := by
    rw [find?_eq] at h
    cases (SlotData.find?_empty _).symm.trans h
  temporaries := rfl
  size := rfl

theorem size_bind {id : UInt32} {value : α} (h : t.bind id value = .ok u)
    (hn : t.contains id = false) : u.size = t.size + 1 := by
  rw [bind] at h
  split at h
  · cases h
  · cases h
    rw [contains, cell?_eq, Std.ExtTreeMap.isSome_getElem?_eq_contains] at hn
    show (t.slots.index.insert _ _).size = _
    rw [Std.ExtTreeMap.size_insert, if_neg (Bool.eq_false_iff.1 hn)]
    rfl

theorem size_modify (t : HandleTable α) (id : UInt32) (f : α → α) :
    (t.modify id f).size = t.size := by
  rw [modify]
  split <;> rfl

theorem size_modifyAll (t : HandleTable α) (f : α → α) : (t.modifyAll f).size = t.size := by
  rw [modifyAll]
  generalize t.handles = l
  induction l generalizing t with
  | nil => rfl
  | cons h l ih => exact (ih (t.modify h f)).trans (t.size_modify h f)

theorem Filled.bind (h : t.Filled P n) {id : UInt32} {value : α} (hv : P value)
    (hb : t.bind id value = .ok u) (hn : t.contains id = false) : u.Filled P (n + 1) where
  every {i a} hi := by
    rw [find?_bind hb] at hi
    split at hi
    · cases hi
      exact hv
    · exact h.every hi
  temporaries := (temporaries_bind hb).trans h.temporaries
  size := (size_bind hb hn).trans (congrArg (· + 1) h.size)

end HandleTable

/-! ## What a report counts -/

namespace LoadReport

def kept (sort : VariableSort) (report : LoadReport) : Nat :=
  match sort with
  | .array => report.arrays
  | .string => report.strings

def dropped (sort : VariableSort) (report : LoadReport) : Nat :=
  match sort with
  | .array => report.droppedArrays
  | .string => report.droppedStrings

end LoadReport

section
variable {α : Type} {P : α → Prop} {sort : VariableSort} {n k : Nat}
  {report report' report'' : LoadReport} {p q r : HandleTable α × Stream}

/-- what `n` records add to a table and to the report on it -/
structure Adds (P : α → Prop) (sort : VariableSort) (n : Nat) (report report' : LoadReport)
    (t u : HandleTable α) : Prop where
  filled : t.Filled P (report.kept sort) → u.Filled P (report'.kept sort)
  counted : report'.kept sort + report'.dropped sort = report.kept sort + report.dropped sort + n
  others : ∀ other, other ≠ sort →
    report'.kept other = report.kept other ∧ report'.dropped other = report.dropped other

variable {t u v : HandleTable α}

theorem adds_nothing (report : LoadReport) (t : HandleTable α) :
    Adds P sort 0 report report t t := ⟨id, rfl, fun _ _ => ⟨rfl, rfl⟩⟩

theorem Adds.trans (h : Adds P sort n report report' t u) (h' : Adds P sort k report' report'' u v) :
    Adds P sort (n + k) report report'' t v where
  filled hf := h'.filled (h.filled hf)
  counted := by
    rw [h'.counted, h.counted, Nat.add_assoc]
  others other hne := by
    obtain ⟨hk, hd⟩ := h.others other hne
    obtain ⟨hk', hd'⟩ := h'.others other hne
    exact ⟨hk'.trans hk, hd'.trans hd⟩

structure ReadToEnd (P : α → Prop) (sort : VariableSort) (each last : Tag)
    (report report' : LoadReport) (p q : HandleTable α × Stream) (records : List Record) : Prop where
  adds : Adds P sort records.length report report' p.1 q.1
  tags : ∀ r ∈ records, r.Is each
  ahead : ∃ stop : Record, stop.Is last ∧
    p.2.ahead = records.flatMap Record.encode ++ (stop.encode ++ q.2.ahead)

/-- a loop over records counts each of them once -/
theorem records_of_ok {each last : Tag}
    (load : Nat → LoadReport → Action (HandleTable α × Stream) LoadReport)
    (hzero : ∀ {report report' p q}, load 0 report p ≠ .ok report' q)
    (hstep : ∀ {fuel report report' p q}, load (fuel + 1) report p = .ok report' q →
      ∃ header p₁, nextInSection sort p = .ok header p₁ ∧
        (header.tag = last ∧ report' = report ∧ q = p₁ ∨
          header.tag = each ∧ ∃ report₁ p₂, Adds P sort 1 report report₁ p₁.1 p₂.1 ∧
            p₂.2.ahead = p₁.2.ahead ∧ load fuel report₁ p₂ = .ok report' q))
    {fuel : Nat} (h : load fuel report p = .ok report' q) :
    ∃ records, ReadToEnd P sort each last report report' p q records := by
  induction fuel generalizing report p with
  | zero => exact absurd h hzero
  | succ fuel ih =>
    obtain ⟨header, p₁, hn, hor⟩ := hstep h
    obtain ⟨htable, r, hr, his⟩ := nextInSection_eq_ok hn
    rcases hor with ⟨htag, rfl, rfl⟩ | ⟨htag, report₁, p₂, hadds, hahead, h⟩
    · exact ⟨[], htable ▸ adds_nothing _ _, List.forall_mem_nil _, r, htag ▸ his, hr⟩
    · obtain ⟨records, hall⟩ := ih h
      obtain ⟨stop, hstop, hrest⟩ := hall.ahead
      rw [htable] at hadds
      refine ⟨r :: records, ?_, ?_, stop, hstop, ?_⟩
      · rw [List.length_cons, Nat.add_comm]
        exact hadds.trans hall.adds
      · exact List.forall_mem_cons.2 ⟨htag ▸ his, hall.tags⟩
      · rw [hr, ← hahead, hrest, List.flatMap_cons, List.append_assoc]

/-- one variable goes into the table, if there is none with its id -/
theorem insertNew_eq_ok {β : Type} {id : UInt32} {value : α} {f : Failure} {b c : β}
    (h : (do
      let (s, stream) ← get
      if s.contains id then throw f
      let s ← demand (s.bind id value)
      set (s, stream)
      return b : Action (HandleTable α × Stream) β) p = .ok c q) :
    c = b ∧ q.2 = p.2 ∧ p.1.contains id = false ∧ p.1.bind id value = .ok q.1 := by
  obtain ⟨s, p₁, hg, h₁⟩ := bind_eq_ok.1 h
  obtain ⟨rfl, rfl⟩ := get_eq_ok.1 hg
  dsimp only at h₁
  split at h₁
  · obtain ⟨_, _, h₂, -⟩ := bind_eq_ok.1 h₁
    exact absurd h₂ throw_eq_ok
  · next hc =>
    obtain ⟨t, p₂, hd, h₂⟩ := bind_eq_ok.1 h₁
    obtain ⟨hb, rfl⟩ := demand_eq_ok.1 hd
    obtain ⟨_, p₃, hs, h₃⟩ := bind_eq_ok.1 h₂
    obtain rfl := set_eq_ok.1 hs
    obtain ⟨rfl, rfl⟩ := pure_eq_ok.1 h₃
    exact ⟨rfl, rfl, Bool.eq_false_iff.2 hc, hb⟩

end

end ScriptVars
