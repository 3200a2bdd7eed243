import ScriptVars.Failure
import ScriptVars.Text.Blank

/-!
# Files

* `Disk`                   reading and writing whole files, in any monad;
* `Folder`                 files as plain data, seen from one directory;
* `Place`, `Place.ofPath`  what a path leads to, found part by part;
* `Folder.disk`            a folder as a disk.

The directory holds files and no other directories, and the ones above it hold nothing else at
first.  Files may be written into any of them.
-/

namespace ScriptVars

/-- reading and writing whole files -/
structure Disk (m : Type → Type) where
  read : String → m (Except FileProblem (List UInt8))
  write : String → List UInt8 → m (Except FileProblem Unit)

/-- files by the shortest paths to them, which are their names for the files of the directory
itself; of two files of one name the first counts -/
abbrev Folder := List (String × List UInt8)

namespace Folder

def find? (f : Folder) (name : String) : Option (List UInt8) := f.lookup name

/-- puts a file in the place of the one with its name, or adds it -/
def put (f : Folder) (name : String) (bytes : List UInt8) : Folder :=
  (name, bytes) :: f.filter fun (other, _) => other != name

end Folder

/-! ### paths -/

/-- the directories that paths pass through -/
inductive Directory where
  /-- so many levels above the one that paths start in -/
  | above (levels : Nat)
  | root
  deriving DecidableEq, Repr

namespace Directory

/-- the directory that paths start in -/
def here : Directory := above 0

/-- the directory above; above the root is the root -/
def parent : Directory → Directory
  | above levels => above (levels + 1)
  | root => root

/-- the shortest path to a name in a directory -/
def pathTo (d : Directory) (name : String) : String :=
  match d with
  | above levels => String.join (List.replicate levels "../") ++ name
  | root => "/" ++ name

end Directory

/-- what a path leads to -/
inductive Place where
  | directory (d : Directory)
  /-- a name in a directory -/
  | entry (d : Directory) (name : List Char)
  /-- a name with a slash behind it, which only a directory can have -/
  | slashed (d : Directory) (name : List Char)
  /-- something below a name -/
  | below (d : Directory) (name : List Char)
  deriving DecidableEq, Repr

namespace Place

/-- where the next part of a path leads.  No part and one dot stand for the same directory, two
dots for the one above. -/
def enter : Place → List Char → Place
  | directory d, [] | directory d, ['.'] => directory d
  | directory d, ['.', '.'] => directory d.parent
  | directory d, name => entry d name
  | entry d name, [] | slashed d name, [] => slashed d name
  | entry d name, _ | slashed d name, _ | below d name, _ => below d name

/-- where a path leads; one that starts with a slash starts at the root -/
def ofPath (path : String) : Place :=
  match path.toList with
  | '/' :: rest => (Text.split '/' rest).foldl enter (directory .root)
  | cs => (Text.split '/' cs).foldl enter (directory .here)

end Place

def maxNameBytes : Nat := 255

def maxPathBytes : Nat := 4095

/-- refuses paths that no system would look at -/
def checkPath (path : String) : Except FileProblem Unit :=
  if path.toList.contains '\x00' then .error .invalidPath
  else if maxPathBytes < path.utf8ByteSize then .error .nameTooLong
  else .ok ()

namespace Folder

/-- the file with a name in a directory, by its path; a name that is too long is looked up
nowhere -/
def fileIn (f : Folder) (d : Directory) (name : List Char) :
    Except FileProblem (String × Option (List UInt8)) :=
  let name := String.ofList name
  if maxNameBytes < name.utf8ByteSize then .error .nameTooLong
  else .ok (d.pathTo name, f.find? (d.pathTo name))

/-- why a path ends at a name that is no directory -/
def obstacle (f : Folder) (d : Directory) (name : List Char) : FileProblem :=
  match f.fileIn d name with
  | .ok (_, none) => .notFound
  | .ok (_, some _) => .notDirectory
  | .error problem => problem

def read (f : Folder) (path : String) : Except FileProblem (List UInt8) := do
  checkPath path
  match Place.ofPath path with
  | .directory _ => throw .isDirectory
  | .entry d name =>
    match ← f.fileIn d name with
    | (_, some bytes) => return bytes
    | (_, none) => throw .notFound
  | .slashed d name | .below d name => throw (f.obstacle d name)

def write (f : Folder) (path : String) (bytes : List UInt8) : Except FileProblem Folder := do
  checkPath path
  match Place.ofPath path with
  | .directory _ | .slashed _ _ => throw .isDirectory
  | .entry d name =>
    let (file, _) ← f.fileIn d name
    return f.put file bytes
  | .below d name => throw (f.obstacle d name)

/-- a folder as a disk; a write that is refused changes nothing -/
def disk : Disk (StateM Folder) where
  read path := do return (← get).read path
  write path bytes := do
    match (← get).write path bytes with
    | .ok f =>
      set f
      return .ok ()
    | .error problem => return .error problem

/-! ### what a write leaves behind -/

theorem find?_put_self (f : Folder) (name : String) (bytes : List UInt8) :
    (f.put name bytes).find? name = some bytes := by
  simp [find?, put]

theorem find?_put_of_ne (f : Folder) {name other : String} (bytes : List UInt8)
    (h : other ≠ name) : (f.put name bytes).find? other = f.find? other := by
  simp only [find?, put, List.lookup_cons, beq_false_of_ne h]
  induction f with
  | nil => rfl
  | cons file rest ih =>
    obtain ⟨first, contents⟩ := file
    by_cases hf : first = name
    · subst hf
      simp [List.lookup_cons, beq_false_of_ne h, ih]
    · simp [hf, List.lookup_cons, ih]

end Folder
end ScriptVars
