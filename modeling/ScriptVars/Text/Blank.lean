/-!
# Blanks

White space as Unicode defines it (property White_Space), and cutting text at blanks and
separators.

* `Text.isBlank`     the property;
* `Text.trim`        a text without blanks at its ends;
* `Text.split`       the pieces between separators, one more than there are separators.
-/

namespace ScriptVars.Text

/-- the ranges of code points with the property White_Space -/
def blankRanges : List (Nat × Nat) :=
  [(0x9, 0xD), (0x20, 0x20), (0x85, 0x85), (0xA0, 0xA0), (0x1680, 0x1680), (0x2000, 0x200A),
    (0x2028, 0x2029), (0x202F, 0x202F), (0x205F, 0x205F), (0x3000, 0x3000)]

/-- whether a character is white space -/
def isBlank (c : Char) : Bool := blankRanges.any fun (lo, hi) => lo ≤ c.toNat && c.toNat ≤ hi

def trim (cs : List Char) : List Char :=
  ((cs.dropWhile isBlank).reverse.dropWhile isBlank).reverse

/-- puts a character in front of the first piece, or begins a new piece if it is `sep` -/
def splitStep (sep c : Char) (pieces : List (List Char)) : List (List Char) :=
  if c = sep then [] :: pieces
  else
    match pieces with
    | [] => [[c]]
    | piece :: rest => (c :: piece) :: rest

/-- the pieces of a list of characters between occurrences of `sep` -/
def split (sep : Char) (cs : List Char) : List (List Char) := cs.foldr (splitStep sep) [[]]

/-- the characters before and after the first occurrence of `sep`, if there is one -/
def splitOnce (sep : Char) (cs : List Char) : Option (List Char × List Char) :=
  match cs.dropWhile (· != sep) with
  | [] => none
  | _ :: after => some (cs.takeWhile (· != sep), after)

end ScriptVars.Text
