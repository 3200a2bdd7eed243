/-!
# UTF-8

Bytes as text, and text as bytes.  Decoding runs a small machine over the bytes: it either waits
for the start of a character or is inside one and knows the range of the next byte.  A byte
outside the range ends the damaged part and is looked at again as a start, so every damaged part
is as long as it can be while still beginning some character.

* `Utf8.encode`      the bytes of a text;
* `Utf8.decode`      the characters of a byte sequence, `none` for each damaged part;
* `Utf8.repair`      decoding with U+FFFD in place of each damaged part;
* `Utf8.strict?`     decoding that refuses damage.
-/

namespace ScriptVars.Utf8

def encode (s : String) : List UInt8 := s.toByteArray.data.toList

/-- the bytes of a text are those of its characters, one after the other -/
theorem encode_eq_flatMap (s : String) : encode s = s.toList.flatMap String.utf8EncodeChar := by
  rw [encode, ← String.utf8Encode_toList, List.utf8Encode, List.data_toByteArray]

/-- a character that has begun: continuation bytes still missing, range of the next one, and the
value of the bits read so far -/
structure Partial where
  missing : Nat
  least : Nat
  greatest : Nat
  value : Nat
  deriving DecidableEq, Repr

/-- what a byte does at the start of a character -/
inductive Start where
  | char (c : Char)
  | begun (p : Partial)
  | damaged
  deriving DecidableEq, Repr

/-- reads the first byte of a character.  The range of the second byte rules out overlong forms,
surrogates and what lies beyond the last code point. -/
def start (b : UInt8) : Start :=
  let n := b.toNat
  if n < 0x80 then .char (Char.ofNat n)
  else if n < 0xC2 then .damaged
  else if n < 0xE0 then .begun ⟨1, 0x80, 0xBF, n - 0xC0⟩
  else if n < 0xF0 then
    .begun ⟨2, if n = 0xE0 then 0xA0 else 0x80, if n = 0xED then 0x9F else 0xBF, n - 0xE0⟩
  else if n < 0xF5 then
    .begun ⟨3, if n = 0xF0 then 0x90 else 0x80, if n = 0xF4 then 0x8F else 0xBF, n - 0xF0⟩
  else .damaged

/-- decodes the bytes after an optional begun character; `done` holds what came before, last
first -/
def decodeFrom : (done : List (Option Char)) → Option Partial → List UInt8 → List (Option Char)
  | done, none, [] => done.reverse
  | done, some _, [] => (none :: done).reverse
  | done, none, b :: rest =>
    match start b with
    | .char c => decodeFrom (some c :: done) none rest
    | .begun p => decodeFrom done (some p) rest
    | .damaged => decodeFrom (none :: done) none rest
  | done, some p, b :: rest =>
    if p.least ≤ b.toNat && b.toNat ≤ p.greatest then
      let value := p.value * 64 + (b.toNat - 0x80)
      if p.missing ≤ 1 then decodeFrom (some (Char.ofNat value) :: done) none rest
      else decodeFrom done (some ⟨p.missing - 1, 0x80, 0xBF, value⟩) rest
    else
      match start b with
      | .char c => decodeFrom (some c :: none :: done) none rest
      | .begun p => decodeFrom (none :: done) (some p) rest
      | .damaged => decodeFrom (none :: none :: done) none rest

/-- the characters of a byte sequence, `none` for each damaged part -/
def decode (bytes : List UInt8) : List (Option Char) := decodeFrom [] none bytes

def replacement : Char := '\uFFFD'

/-- the text of a byte sequence, with U+FFFD for each damaged part -/
def repair (bytes : List UInt8) : String :=
  String.ofList ((decode bytes).map (·.getD replacement))

def strict? (bytes : List UInt8) : Option String :=
  let decoded := decode bytes
  if decoded.all (·.isSome) then some (String.ofList (decoded.filterMap id)) else none

end ScriptVars.Utf8
