import ScriptVars.Action
import ScriptVars.Number
import ScriptVars.Record.Bytes
import ScriptVars.Text.Utf8

/-!
# Reading record bodies

A reader takes values from the front of the bytes that are left of a record.  Reading past the
end is a failure and takes nothing.

* `Reader.take`                      some bytes;
* `Reader.byte`, `word`, `number`    numbers, little-endian;
* `Reader.text`                      a text behind its length in two bytes.
-/

namespace ScriptVars

/-- reads from the bytes that are left of a record -/
abbrev Reader (α : Type) := Action (List UInt8) α

namespace Reader

def take (n : Nat) : Reader (List UInt8) := do
  match Bytes.splitAt? n (← get) with
  | some (taken, left) =>
    set left
    return taken
  | none => throw (.format .readPastEnd)

def nat (count : Nat) : Reader Nat := do return Bytes.toNat (← take count)

def byte : Reader UInt8 := do return UInt8.ofNat (← nat 1)

def word : Reader UInt32 := do return UInt32.ofNat (← nat 4)

def number : Reader Number := do return ⟨UInt64.ofNat (← nat 8)⟩

/-- a text behind its length in two bytes, with damaged parts replaced -/
def text : Reader String := do
  let length ← nat 2
  return Utf8.repair (← take length)

/-- the same reader `count` times, counting from `i`; `done` holds what came before, last first -/
def repeatedFrom {α : Type} (r : Nat → Reader α) : (count i : Nat) → List α → Reader (List α)
  | 0, _, done => return done.reverse
  | count + 1, i, done => do
    let a ← r i
    repeatedFrom r count (i + 1) (a :: done)

def repeated {α : Type} (r : Nat → Reader α) (count : Nat) : Reader (List α) :=
  repeatedFrom r count 0 []

/-! ### what readers take -/

/-- leaves a part of the bytes, also when it is refused -/
def Shrinks {α : Type} (r : Reader α) : Prop := ∀ bytes, (r.after bytes).length ≤ bytes.length

section
variable {α β : Type}

theorem shrinks_of_reads {r : Reader α} (h : Action.Reads r) : Shrinks r := by
  intro bytes
  rw [Action.after]
  cases hr : r bytes with
  | ok a left => exact Nat.le_of_eq (congrArg List.length (h.ok hr))
  | error f left => exact Nat.le_of_eq (congrArg List.length (h.error hr))

theorem Shrinks.bind {r : Reader α} {g : α → Reader β} (hr : Shrinks r)
    (hg : ∀ a, Shrinks (g a)) : Shrinks (r >>= g) := by
  intro bytes
  have h := hr bytes
  rw [Action.after] at h
  rw [Action.after_bind]
  cases hb : r bytes with
  | ok a left =>
    rw [hb] at h
    exact Nat.le_trans (hg a left) h
  | error f left =>
    rw [hb] at h
    exact h

theorem take_eq (n : Nat) (bytes : List UInt8) :
    take n bytes = match Bytes.splitAt? n bytes with
      | some (taken, left) => .ok taken left
      | none => .error (.format .readPastEnd) bytes := by
  rw [take]
  refine (Action.bind_of_ok (x := get) rfl).trans ?_
  cases Bytes.splitAt? n bytes <;> rfl

theorem shrinks_take (n : Nat) : Shrinks (take n) := by
  intro bytes
  rw [Action.after]
  rw [take_eq]
  cases h : Bytes.splitAt? n bytes with
  | none => exact Nat.le_refl _
  | some p =>
    obtain ⟨taken, left⟩ := p
    obtain ⟨rfl, -⟩ := Bytes.append_of_splitAt? h
    show left.length ≤ (taken ++ left).length
    rw [List.length_append]
    exact Nat.le_add_left _ _

theorem shrinks_pure (a : α) : Shrinks (pure a : Reader α) :=
  shrinks_of_reads (Action.reads_pure a)

theorem shrinks_nat (count : Nat) : Shrinks (nat count) :=
  (shrinks_take count).bind fun _ => shrinks_pure _

theorem shrinks_byte : Shrinks byte := (shrinks_nat 1).bind fun _ => shrinks_pure _

theorem shrinks_word : Shrinks word := (shrinks_nat 4).bind fun _ => shrinks_pure _

theorem shrinks_number : Shrinks number := (shrinks_nat 8).bind fun _ => shrinks_pure _

theorem shrinks_text : Shrinks text :=
  (shrinks_nat 2).bind fun _ => (shrinks_take _).bind fun _ => shrinks_pure _

theorem shrinks_repeated {r : Nat → Reader α} (hr : ∀ i, Shrinks (r i)) (count : Nat) :
    Shrinks (repeated r count) := by
  have h : ∀ count i done, Shrinks (repeatedFrom r count i done) := by
    intro count
    induction count with
    | zero => exact fun _ _ => shrinks_pure _
    | succ count ih => exact fun i done => (hr i).bind fun a => ih (i + 1) (a :: done)
  exact h count 0 []

end

end Reader
end ScriptVars
