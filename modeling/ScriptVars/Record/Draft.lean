import ScriptVars.Failure
import ScriptVars.Number
import ScriptVars.Record.Bytes
import ScriptVars.Text.Utf8

/-!
# Drafts

What is written before something stands in the way.  Drafts are put together like lists; the
first fault ends the whole, and what was written up to it stays.

* `Draft`                            parts, and the fault after them if there is one;
* `Draft.append`, `concat`           one draft after the other;
* `Draft.byte`, `word`, `number`, `text`   the bytes of values, the inverse of the readers.
-/

namespace ScriptVars

/-- what is written, and why nothing follows -/
structure Draft (α : Type) where
  parts : List α
  fault : Option Malformation
  deriving DecidableEq, Repr

namespace Draft

variable {α : Type}

def of (parts : List α) : Draft α := ⟨parts, none⟩

def failed (fault : Malformation) : Draft α := ⟨[], some fault⟩

/-- one draft after the other; nothing follows a fault -/
def append (d e : Draft α) : Draft α :=
  match d.fault with
  | none => ⟨d.parts ++ e.parts, e.fault⟩
  | some _ => d

instance : Append (Draft α) := ⟨append⟩

def concat : List (Draft α) → Draft α
  | [] => of []
  | d :: rest => d ++ concat rest

/-! ### bytes of values -/

def byte (b : UInt8) : Draft UInt8 := of [b]

def word (w : UInt32) : Draft UInt8 := of (Bytes.ofNat 4 w.toNat)

/-- a count in four bytes; the name of what is counted is for the fault -/
def count (n : Nat) (what : String) : Draft UInt8 :=
  if n < Bytes.capacity 4 then of (Bytes.ofNat 4 n) else failed (.tooMany what)

def number (x : Number) : Draft UInt8 := of (Bytes.ofNat 8 x.bits.toNat)

/-- a text behind its length in two bytes -/
def text (s : String) : Draft UInt8 :=
  let bytes := Utf8.encode s
  if bytes.length < Bytes.capacity 2 then of (Bytes.ofNat 2 bytes.length ++ bytes)
  else failed (.textTooLong bytes.length)

end Draft
end ScriptVars
