import ScriptVars.Text.Padded
import ScriptVars.Text.Unprinted

/-!
# Quoted text

A text between double quotes in a form that shows every character: quotes, backslashes and the
common control characters behind a backslash, all else without a printed form by its code point.

* `Text.quoteChar`     the written form of one character;
* `Text.quoted`        a text between quotes.
-/

namespace ScriptVars.Text

/-- a character by its code point in hexadecimal, between braces -/
def codePointForm (c : Char) : List Char :=
  ['\\', 'u', '\x7b'] ++ Padded.hexDigits c.toNat ++ ['\x7d']

def quoteChar (c : Char) : List Char :=
  if c = '\x00' then ['\\', '0']
  else if c = '\t' then ['\\', 't']
  else if c = '\n' then ['\\', 'n']
  else if c = '\r' then ['\\', 'r']
  else if c = '"' || c = '\\' then ['\\', c]
  else if c.toNat < 0x20 || isUnprinted c then codePointForm c
  else [c]

def quoted (s : String) : String := String.ofList ('"' :: s.toList.flatMap quoteChar ++ ['"'])

end ScriptVars.Text
