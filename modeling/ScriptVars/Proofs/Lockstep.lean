import ScriptVars.Dump.Basic
import ScriptVars.Proofs.PlainTable

/-!
# Runs in step

Two runs of one operation, from states that differ only in what the operation does not look at.
Either both have the same result, or both are refused.

* `Action.Agree`        two outcomes that agree; `agree_bind`, … keep runs in step;
* `HandleTable.Twins`   tables that differ in what is set aside only;
* `Stream.Follows`      a stream, and another one that starts later in it.
-/

namespace ScriptVars

namespace Action

variable {σ τ α β : Type} {R : α → σ → τ → Prop} {R' : β → σ → τ → Prop} {E : σ → τ → Prop}

/-- the same result in states that are related by it, or two failures in states that are related
all the same -/
inductive Agree (R : α → σ → τ → Prop) (E : σ → τ → Prop) :
    EStateM.Result Failure σ α → EStateM.Result Failure τ α → Prop where
  | ok {a : α} {t : σ} {u : τ} (h : R a t u) : Agree R E (.ok a t) (.ok a u)
  | error {f g : Failure} {t : σ} {u : τ} (h : E t u) : Agree R E (.error f t) (.error g u)

theorem agree_bind {x : Action σ α} {y : Action τ α} {p : α → Action σ β} {q : α → Action τ β}
    {s : σ} {t : τ} (hx : Agree R E (x s) (y t))
    (hp : ∀ {a s' t'}, R a s' t' → Agree R' E (p a s') (q a t')) :
    Agree R' E ((x >>= p) s) ((y >>= q) t) := by
  show Agree R' E (EStateM.bind x p s) (EStateM.bind y q t)
  rw [EStateM.bind, EStateM.bind]
  generalize x s = r at hx ⊢
  generalize y t = r' at hx ⊢
  cases hx with
  | ok h => exact hp h
  | error h => exact .error h

/-- what is read off the states need not be the same -/
theorem agree_get {p : σ → Action σ β} {q : τ → Action τ β} {s : σ} {t : τ}
    (h : Agree R' E (p s s) (q t t)) : Agree R' E ((get >>= p) s) ((get >>= q) t) := h

theorem agree_throw {f g : Failure} {s : σ} {t : τ} (h : E s t) :
    Agree R E ((throw f : Action σ α) s) ((throw g : Action τ α) t) := .error h

theorem agree_ite {c : Prop} [Decidable c] {x x' : Action σ α} {y y' : Action τ α} {s : σ} {t : τ}
    (h : c → Agree R E (x s) (y t)) (h' : ¬ c → Agree R E (x' s) (y' t)) :
    Agree R E ((if c then x else x') s) ((if c then y else y') t) := by
  by_cases hc : c
  · rw [if_pos hc, if_pos hc]
    exact h hc
  · rw [if_neg hc, if_neg hc]
    exact h' hc

/-- a check leaves what is known of the states -/
theorem agree_demand {Q : σ → τ → Prop} {c : Except Failure α} {s : σ} {t : τ} (h : Q s t)
    (he : E s t) : Agree (fun _ => Q) E (demand c s) (demand c t) := by
  cases c with
  | ok a => exact .ok h
  | error f => exact .error he

theorem agree_require {f g : Failure} {o : Option α} {s : σ} {t : τ}
    (h : ∀ a, o = some a → R a s t) (he : E s t) : Agree R E (require f o s) (require g o t) := by
  cases o with
  | some a => exact .ok (h a rfl)
  | none => exact .error he

theorem Agree.mono {R₂ : α → σ → τ → Prop} {x : EStateM.Result Failure σ α}
    {y : EStateM.Result Failure τ α} (h : Agree R E x y) (hR : ∀ {a s t}, R a s t → R₂ a s t) :
    Agree R₂ E x y := by
  cases h with
  | ok h => exact .ok (hR h)
  | error h => exact .error h

end Action

/-! ## Tables that differ in what is set aside -/

namespace HandleTable

variable {α : Type} {A B : Option (Slots α)} {t u : HandleTable α}

/-- what two tables have set aside -/
def Aside (A B : Option (Slots α)) (t u : HandleTable α) : Prop := t.aside = A ∧ u.aside = B

/-- tables with the same slots; which handle was found last does not matter -/
structure Twins (A B : Option (Slots α)) (t u : HandleTable α) : Prop where
  slots : t.slots = u.slots
  aside : Aside A B t u

theorem Twins.cell? (h : Twins A B t u) (id : UInt32) : t.cell? id = u.cell? id := by
  rw [cell?_eq, cell?_eq, h.slots]

theorem Twins.find? (h : Twins A B t u) (id : UInt32) : t.find? id = u.find? id := by
  rw [find?_eq, find?_eq, h.slots]

theorem Twins.contains (h : Twins A B t u) (id : UInt32) : t.contains id = u.contains id := by
  rw [contains_eq, contains_eq, h.find?]

theorem Twins.hasHandle (h : Twins A B t u) (x : UInt32) : t.hasHandle x = u.hasHandle x := by
  rw [HandleTable.hasHandle, h.slots]
  rfl

theorem Twins.toList (h : Twins A B t u) : t.toList = u.toList := by
  rw [HandleTable.toList, h.slots]
  rfl

theorem Twins.handles (h : Twins A B t u) : t.handles = u.handles := by
  rw [HandleTable.handles, h.slots]
  rfl

theorem Twins.bind (h : Twins A B t u) (id : UInt32) (value : α) :
    (∃ f, t.bind id value = .error f ∧ u.bind id value = .error f) ∨
      ∃ t' u', t.bind id value = .ok t' ∧ u.bind id value = .ok u' ∧ Twins A B t' u' := by
  by_cases hz : handleOf id = 0
  · exact .inl ⟨_, dif_pos hz, dif_pos hz⟩
  · exact .inr ⟨_, _, dif_neg hz, dif_neg hz,
      congrArg (·.bind (handleOf id) (isHandle_handleOf hz) value) h.slots, h.aside⟩

theorem Twins.allocate (h : Twins A B t u) :
    (∃ f, t.allocate = .error f ∧ u.allocate = .error f) ∨
      ∃ x t' u', t.allocate = .ok (x, t') ∧ u.allocate = .ok (x, u') ∧ Twins A B t' u' := by
  rw [HandleTable.allocate, HandleTable.allocate]
  split
  · next x slots ht =>
    have hu := ht
    rw [h.slots] at hu
    split
    · next x' slots' hu' =>
      cases hu.symm.trans hu'
      exact .inr ⟨x, _, _, rfl, rfl, rfl, h.aside⟩
    · next hu' => cases hu.symm.trans hu'
  · next ht =>
    rw [h.slots] at ht
    split
    · next hu' => cases ht.symm.trans hu'
    · exact .inl ⟨_, rfl, rfl⟩

theorem Twins.modify (h : Twins A B t u) (id : UInt32) (f : α → α) :
    Twins A B (t.modify id f) (u.modify id f) := by
  rw [HandleTable.modify, HandleTable.modify]
  split
  · next ht =>
    split
    · exact h
    · next hu => cases ht.symm.trans ((h.cell? id).trans hu)
  · next key ht =>
    split
    · next hu => cases hu.symm.trans ((h.cell? id).symm.trans ht)
    · next key' hu =>
      cases ht.symm.trans ((h.cell? id).trans hu)
      exact ⟨congrArg (·.modify key f) h.slots, h.aside⟩

theorem Twins.modifyAll (h : Twins A B t u) (f : α → α) :
    Twins A B (t.modifyAll f) (u.modifyAll f) := by
  rw [HandleTable.modifyAll, HandleTable.modifyAll, h.handles]
  generalize u.handles = l
  induction l generalizing t u with
  | nil => exact h
  | cons i l ih => exact ih (h.modify i f)

theorem Twins.erase (h : Twins A B t u) (id : UInt32) : Twins A B (t.erase id) (u.erase id) :=
  ⟨congrArg (·.remove (handleOf id)) h.slots, h.aside⟩

theorem Twins.markTemporary (h : Twins A B t u) (id : UInt32) (temporary : Bool) :
    Twins A B (t.markTemporary id temporary) (u.markTemporary id temporary) :=
  ⟨congrArg (·.mark (handleOf id) temporary) h.slots, h.aside⟩

theorem Twins.remember (h : Twins A B t u) (id : UInt32) :
    Twins A B (t.remember id) (u.remember id) :=
  ⟨by rw [slots_remember, slots_remember, h.slots], by
    rw [Aside, aside_remember, aside_remember]
    exact h.aside⟩

/-- what two tables answer, and what is left of them, if what is set aside is left alone -/
theorem Twins.step (h : Twins A B t u) {op : TableOp α} (he : op.endsLoad = false)
    (hs : op.isSnapshot = false) :
    (A = B → (t.step op).1 = (u.step op).1) ∧ Twins A B (t.step op).2 (u.step op).2 := by
  have hread : ∀ answer : Slots α → TableAnswer α, answer t.slots = answer u.slots := fun answer =>
    congrArg answer h.slots
  cases op with
  | allocate =>
    rw [HandleTable.step, HandleTable.step]
    rcases h.allocate with ⟨f, ht, hu⟩ | ⟨x, t', u', ht, hu, h'⟩
    · rw [ht, hu]
      exact ⟨fun _ => rfl, h⟩
    · rw [ht, hu]
      exact ⟨fun _ => rfl, h'⟩
  | insert id value =>
    rw [HandleTable.step, HandleTable.step]
    rcases h.bind id value with ⟨f, ht, hu⟩ | ⟨t', u', ht, hu, h'⟩
    · rw [ht, hu]
      exact ⟨fun _ => rfl, h⟩
    · rw [ht, hu]
      exact ⟨fun _ => rfl, h'⟩
  | get id => exact ⟨fun _ => congrArg TableAnswer.value (h.find? id), h.remember id⟩
  | getMut id f => exact ⟨fun _ => congrArg TableAnswer.value (h.find? id), h.modify id f⟩
  | contains id => exact ⟨fun _ => congrArg TableAnswer.flag (h.contains id), h.remember id⟩
  | erase id => exact ⟨fun _ => hread fun s => .value (s.find? (handleOf id)), h.erase id⟩
  | markTemporary id temporary => exact ⟨fun _ => rfl, h.markTemporary id temporary⟩
  | isTemporary id => exact ⟨fun _ => hread fun s => .flag (s.temporaries.contains _), h⟩
  | temporaries => exact ⟨fun _ => hread fun s => .handles s.temporaries.toList, h⟩
  | len => exact ⟨fun _ => hread fun s => .size s.index.size, h⟩
  | isEmpty => exact ⟨fun _ => hread fun s => .flag s.index.isEmpty, h⟩
  | handles => exact ⟨fun _ => hread fun s => .handles s.index.keys, h⟩
  | iter => exact ⟨fun _ => hread fun s => .entries s.toList, h⟩
  | reset => cases he
  | snapshotForLoad => cases hs
  | commitLoad success => cases he
  | isLoading =>
    refine ⟨fun hAB => ?_, h⟩
    have ha : t.aside = u.aside := h.aside.1.trans (hAB.trans h.aside.2.symm)
    exact congrArg (fun a : Option (Slots α) => TableAnswer.flag a.isSome) ha

/-- the same variables, and the same handles to come -/
structure Same (t u : HandleTable α) : Prop where
  slots : t.slots = u.slots
  aside : t.aside = u.aside
  answers : ∀ ops, t.answers ops = u.answers ops

/-- one operation answers the same, and what is left is the same again -/
theorem step_congr (hs : t.slots = u.slots) (ha : t.aside = u.aside) (op : TableOp α) :
    (t.step op).1 = (u.step op).1 ∧ (t.step op).2.slots = (u.step op).2.slots ∧
      (t.step op).2.aside = (u.step op).2.aside := by
  by_cases hop : op.endsLoad = false ∧ op.isSnapshot = false
  · have h : Twins t.aside u.aside t u := ⟨hs, rfl, rfl⟩
    obtain ⟨hanswer, h'⟩ := h.step hop.1 hop.2
    exact ⟨hanswer ha, h'.slots, h'.aside.1.trans (ha.trans h'.aside.2.symm)⟩
  cases op with
  | reset => exact ⟨rfl, rfl, rfl⟩
  | snapshotForLoad =>
    refine ⟨rfl, rfl, ?_⟩
    show some _ = some _
    rw [ha, hs]
  | commitLoad success =>
    refine ⟨rfl, ?_⟩
    show (t.endLoad success).slots = (u.endLoad success).slots ∧
      (t.endLoad success).aside = (u.endLoad success).aside
    rw [endLoad, endLoad, ha]
    cases u.aside with
    | none => exact ⟨hs, ha⟩
    | some saved =>
      cases success with
      | false => exact ⟨rfl, rfl⟩
      | true => exact ⟨hs, rfl⟩
  | _ => exact absurd ⟨rfl, rfl⟩ hop

/-- which handle was found last does not show -/
theorem same_of_eq (hs : t.slots = u.slots) (ha : t.aside = u.aside) : Same t u where
  slots := hs
  aside := ha
  answers ops := by
    induction ops generalizing t u with
    | nil => rfl
    | cons op ops ih =>
      obtain ⟨h, hs', ha'⟩ := step_congr hs ha op
      rw [answers, answers, h, ih hs' ha']

theorem Twins.endLoad {a b : Slots α} (h : Twins (some a) (some b) t u) :
    Same (t.endLoad true) (u.endLoad true) := by
  rw [HandleTable.endLoad, HandleTable.endLoad, h.aside.1, h.aside.2]
  exact same_of_eq h.slots rfl

/-- what was set aside comes back -/
theorem same_endLoad_false (ht : t.aside = none) (hu : u.aside = some (t.aside.getD t.slots)) :
    Same (u.endLoad false) t := by
  rw [HandleTable.endLoad, hu]
  exact same_of_eq (by rw [ht]; rfl) ht.symm

end HandleTable

/-! ## Streams that start later -/

namespace Stream

variable {k e : Nat} {l : List UInt8} {s t : Stream}

/-- `l` is `s` without its first `k` bytes, and all of `t`; the record of `t` ends at `e` -/
structure Follows (k : Nat) (l : List UInt8) (e : Nat) (s t : Stream) : Prop where
  bytes : s.bytes.toList.drop k = l
  bytes' : t.bytes.toList = l
  size : s.bytes.size = k + l.length
  recordEnd : s.recordEnd = k + e
  recordEnd' : t.recordEnd = e
  position : s.position = k + t.position
  within : e ≤ l.length

theorem slice_of_drop (h : s.bytes.toList.drop k = t.bytes.toList) (i j : Nat) :
    s.slice (k + i) (k + j) = t.slice i j := by
  rw [slice_eq, slice_eq, ← h, List.drop_drop, Nat.add_sub_add_left]

/-- where two streams are after they have gone on to the next record; `e` was the end of the
record before, and a record takes some bytes -/
def Moved (k : Nat) (l : List UInt8) (e : Nat) (header : Option Header) (s t : Stream) : Prop :=
  header.isSome → ∃ e', e < e' ∧ Follows k l e' s t

/-- there is something to read, so the first stream is as long as what was left out and what
follows -/
theorem size_of_drop (hb : s.bytes.toList.drop k = l) (hb' : t.bytes.toList = l) {i j : Nat}
    (h : t.slice i j ≠ []) : s.bytes.size = k + l.length := by
  have hl := congrArg List.length hb
  rw [List.length_drop, Array.length_toList] at hl
  have hpos : 0 < l.length := by
    refine List.length_pos_iff.2 fun hnil => h ?_
    rw [slice_eq, hb', hnil, List.drop_nil, List.take_nil]
  omega

/-- the place to read does not matter before a record -/
theorem agree_next (hb : s.bytes.toList.drop k = l) (hb' : t.bytes.toList = l)
    (hs : s.recordEnd = k + e) (ht : t.recordEnd = e) :
    Action.Agree (Moved k l e) (fun _ _ => True) (next s) (next t) := by
  have hslice : s.slice s.recordEnd (s.recordEnd + Header.size) =
      t.slice t.recordEnd (t.recordEnd + Header.size) := by
    rw [hs, ht, Nat.add_assoc]
    exact slice_of_drop (hb.trans hb'.symm) e (e + Header.size)
  rw [next_eq, next_eq, hslice]
  dsimp only
  by_cases hnil : t.slice t.recordEnd (t.recordEnd + Header.size) = []
  · rw [if_pos hnil, if_pos hnil]
    exact .ok nofun
  · rw [if_neg hnil, if_neg hnil]
    have hsize := size_of_drop hb hb' hnil
    have hsize' : t.bytes.size = l.length := by rw [← hb', Array.length_toList]
    generalize t.slice t.recordEnd (t.recordEnd + Header.size) = header
    by_cases hlen : header.length < Header.size
    · rw [if_pos hlen, if_pos hlen]
      exact .error trivial
    · rw [if_neg hlen, if_neg hlen]
      generalize Bytes.toNat (header.drop 8) = length
      have hiff : s.bytes.size < s.recordEnd + Header.size + length ↔
          t.bytes.size < t.recordEnd + Header.size + length := by
        rw [hs, ht, hsize, hsize']
        omega
      by_cases hover : t.bytes.size < t.recordEnd + Header.size + length
      · rw [if_pos (hiff.2 hover), if_pos hover]
        exact .error trivial
      · rw [if_neg fun h => hover (hiff.1 h), if_neg hover]
        refine .ok fun _ => ⟨t.recordEnd + Header.size + length, ?_, hb, hb', hsize, ?_, rfl, ?_, ?_⟩
        · rw [← ht, Header.size]
          omega
        · show s.recordEnd + _ + _ = _
          rw [hs, ht]
          omega
        · show s.recordEnd + _ = k + (t.recordEnd + _)
          rw [hs, ht]
          omega
        · rw [← hsize']
          exact Nat.le_of_not_lt hover

theorem Follows.unread (h : Follows k l e s t) : s.unread = t.unread := by
  rw [Stream.unread, Stream.unread, h.position, h.recordEnd, h.recordEnd']
  exact slice_of_drop (h.bytes.trans h.bytes'.symm) t.position e

/-- the same is read, as long as readers leave a part of what is there -/
theorem Follows.agree_read {α : Type} {r : Reader α} (hr : r.Shrinks) (h : Follows k l e s t) :
    Action.Agree (fun _ => Follows k l e) (fun _ _ => True) (read r s) (read r t) := by
  have hover : s.recordEnd < s.position ↔ t.recordEnd < t.position := by
    rw [h.recordEnd, h.recordEnd', h.position]
    omega
  rw [read, read]
  by_cases ho : t.recordEnd < t.position
  · rw [if_pos (hover.2 ho), if_pos ho]
    exact .error trivial
  · rw [if_neg fun hn => ho (hover.1 hn), if_neg ho, h.unread]
    have hle := hr t.unread
    have hunread : t.unread.length ≤ t.recordEnd := by
      rw [Stream.unread, slice_eq, List.length_take]
      omega
    rw [Action.after] at hle
    cases hb : r t.unread with
    | ok a left =>
      rw [hb] at hle
      refine .ok ⟨h.bytes, h.bytes', h.size, h.recordEnd, h.recordEnd', ?_, h.within⟩
      show s.recordEnd - left.length = k + (t.recordEnd - left.length)
      have hs := h.recordEnd
      have ht := h.recordEnd'
      change left.length ≤ t.unread.length at hle
      omega
    | error f left => exact .error trivial

/-- both go back to where a record starts -/
theorem Follows.agree_seek (h : Follows k l e s t) (n : Nat) :
    Action.Agree (fun _ => Follows k l n) (fun _ _ => True) (seek (k + n) s) (seek n t) := by
  have hsize := h.size
  have hsize' : t.bytes.size = l.length := by rw [← h.bytes', Array.length_toList]
  rw [seek_eq, seek_eq]
  by_cases hlt : l.length < n
  · rw [if_pos (by omega), if_pos (by omega)]
    exact .error trivial
  · rw [if_neg (by omega), if_neg (by omega)]
    exact .ok ⟨h.bytes, h.bytes', hsize, rfl, rfl, rfl, Nat.le_of_not_lt hlt⟩

end Stream
end ScriptVars
