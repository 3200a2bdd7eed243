import ScriptVars.Failure
import ScriptVars.Text.Blank

/-!
# Module maps

A save records content modules by the index they had when it was written.  A module map tells
which index each of them has now, or that it is gone.  Index 255 belongs to content made at run
time and is kept wherever a map starts from nothing.

* `ModuleMap.identity`, `bare`                  all modules, only the dynamic one;
* `ModuleMap.ofPairs`, `ofLoaded`               a list of indices, old with new or as they are;
* `ModuleMap.resolve`, `resolveForm`            the new index of a module, the new id of a form;
* `ModuleMap.insert`, `remove`, `keep`          changing one index;
* `ModuleMap.parse`                             a map from a text such as `0, 1, 4=2, 0x10`.
-/

namespace ScriptVars

/-- the index of content made at run time -/
def dynamicModule : UInt8 := 0xFF

/-- new indices of modules by their old ones -/
structure ModuleMap where
  /-- the new index of a module, if it is still there -/
  resolve : UInt8 → Option UInt8

namespace ModuleMap

/-- every module at its old index -/
def identity : ModuleMap := ⟨some⟩

/-- only the dynamic module -/
def bare : ModuleMap := ⟨fun old => if old = dynamicModule then some dynamicModule else none⟩

def insert (m : ModuleMap) (old new : UInt8) : ModuleMap :=
  ⟨fun i => if i = old then some new else m.resolve i⟩

def remove (m : ModuleMap) (old : UInt8) : ModuleMap :=
  ⟨fun i => if i = old then none else m.resolve i⟩

/-- the same map with a module kept at its own index -/
def keep (m : ModuleMap) (index : UInt8) : ModuleMap := m.insert index index

def insertAll (m : ModuleMap) (pairs : List (UInt8 × UInt8)) : ModuleMap :=
  pairs.foldl (fun m p => m.insert p.1 p.2) m

/-- the pairs that count: of several for one module the last one; so there are never more than
there are modules, however long the list is -/
def lastPairs (pairs : List (UInt8 × UInt8)) : List (UInt8 × UInt8) :=
  pairs.foldr (fun p kept => if kept.any (·.1 == p.1) then kept else p :: kept) []

/-- the dynamic module and those of some pairs of old and new indices; of several pairs for one
module the last one counts -/
def ofPairs (pairs : List (UInt8 × UInt8)) : ModuleMap := bare.insertAll (lastPairs pairs)

def ofLoaded (indices : List UInt8) : ModuleMap := ofPairs (indices.map fun i => (i, i))

theorem resolve_insert (m : ModuleMap) (old new i : UInt8) :
    (m.insert old new).resolve i = if i = old then some new else m.resolve i := rfl

/-- of two changes of one index the later one counts -/
theorem insert_insert (m : ModuleMap) (old new newer : UInt8) :
    (m.insert old new).insert old newer = m.insert old newer := by
  simp only [insert, mk.injEq]
  funext i
  split <;> rfl

/-- changes of different indices do not meet -/
theorem insert_comm (m : ModuleMap) {old old' : UInt8} (h : old ≠ old') (new new' : UInt8) :
    (m.insert old new).insert old' new' = (m.insert old' new').insert old new := by
  simp only [insert, mk.injEq]
  funext i
  by_cases hi : i = old'
  · rw [if_pos hi, if_neg (hi ▸ h.symm), if_pos hi]
  · rw [if_neg hi, if_neg hi]

/-- a change that comes before another one of the same index does not count -/
theorem insertAll_insert {pairs : List (UInt8 × UInt8)} {old : UInt8}
    (h : ∃ p ∈ pairs, p.1 = old) (m : ModuleMap) (new : UInt8) :
    (m.insert old new).insertAll pairs = m.insertAll pairs := by
  induction pairs generalizing m with
  | nil => obtain ⟨_, hp, _⟩ := h; cases hp
  | cons q pairs ih =>
    simp only [insertAll, List.foldl_cons]
    by_cases hq : q.1 = old
    · rw [← hq, insert_insert]
    · obtain ⟨p, hp, he⟩ := h
      rcases List.mem_cons.1 hp with rfl | hp
      · exact absurd he hq
      · rw [insert_comm m (Ne.symm hq)]
        exact ih ⟨p, hp, he⟩ (m.insert q.1 q.2)

/-- the pairs that do not count may be left out -/
theorem insertAll_lastPairs (m : ModuleMap) (pairs : List (UInt8 × UInt8)) :
    m.insertAll (lastPairs pairs) = m.insertAll pairs := by
  induction pairs generalizing m with
  | nil => rfl
  | cons p pairs ih =>
    rw [insertAll, insertAll, List.foldl_cons, ← insertAll, ← insertAll, ← ih, lastPairs,
      List.foldr_cons, ← lastPairs]
    split
    · next h =>
      simp only [List.any_eq_true, beq_iff_eq] at h
      exact (insertAll_insert h m p.2).symm
    · rfl

theorem ofPairs_eq (pairs : List (UInt8 × UInt8)) : ofPairs pairs = bare.insertAll pairs :=
  insertAll_lastPairs bare pairs

/-- how many forms a module can have: the index of the module stands above their numbers -/
def formsPerModule : Nat := 0x1000000

/-- the module of a form, its top byte -/
def moduleOfForm (form : UInt32) : UInt8 := UInt8.ofNat (form.toNat / formsPerModule)

/-- the id of a form with its module replaced; none if the module is gone.  The null form belongs
to no module. -/
def resolveForm (m : ModuleMap) (form : UInt32) : Option UInt32 :=
  if form = 0 then some 0
  else (m.resolve (moduleOfForm form)).map fun new =>
    UInt32.ofNat (new.toNat * formsPerModule + form.toNat % formsPerModule)

/-! ### module lists -/

def digitValue? (base : Nat) (c : Char) : Option Nat :=
  let value :=
    if '0' ≤ c ∧ c ≤ '9' then c.toNat - '0'.toNat
    else if 'a' ≤ c ∧ c ≤ 'f' then c.toNat - 'a'.toNat + 10
    else if 'A' ≤ c ∧ c ≤ 'F' then c.toNat - 'A'.toNat + 10
    else base
  if value < base then some value else none

/-- the number that some digits write behind `n`, if it is below 256; a number that has passed this
limit does not come back with more digits -/
def digitsValue? (base : Nat) : (n : Nat) → List Char → Option Nat
  | n, [] => some n
  | n, c :: rest => do
    let next := n * base + (← digitValue? base c)
    if next < 256 then digitsValue? base next rest else none

/-- an index: an optional plus sign and at least one digit, with a value of one byte -/
def numeral? (base : Nat) (cs : List Char) : Option UInt8 :=
  let digits := match cs with
    | '+' :: rest => rest
    | _ => cs
  if digits.isEmpty then none
  else (digitsValue? base 0 digits).map UInt8.ofNat

/-- an index in decimal, or in hexadecimal behind `0x` -/
def index? : List Char → Option UInt8
  | '0' :: 'x' :: rest | '0' :: 'X' :: rest => numeral? 16 rest
  | cs => numeral? 10 cs

/-- reads an index with blanks around it -/
def parseIndex (cs : List Char) : Except Failure UInt8 :=
  match index? (Text.trim cs) with
  | some i => .ok i
  | none => .error (.config (.moduleIndex (String.ofList (Text.trim cs))))

/-- reads `old` or `old=new` -/
def parsePiece (cs : List Char) : Except Failure (UInt8 × UInt8) :=
  match Text.splitOnce '=' cs with
  | some (old, new) => do return (← parseIndex old, ← parseIndex new)
  | none => do
    let i ← parseIndex cs
    return (i, i)

/-- reads a list of pieces between commas; blanks around a piece and empty pieces do not count,
and of two pieces for one module the later one does -/
def parse (list : String) : Except Failure ModuleMap := do
  let pieces := ((Text.split ',' list.toList).map Text.trim).filter (!·.isEmpty)
  return ofPairs (← pieces.mapM parsePiece)

end ModuleMap
end ScriptVars
