import ScriptVars.CommandLine.Basic
import ScriptVars.Config.Json
import ScriptVars.Disk

/-!
# Running commands

Every command works on a session of its own: it reads its files, does its work, and writes what
it made.

* `Trouble`                what went wrong, and on which errand;
* `Work`                   commands on a disk that may run into trouble;
* `Config.load`, `ModuleMap.load`, `Session.loadFile`, `Session.saveFile`   the errands;
* `Command.run`            one command under some settings;
* `CommandLine.run`        a command line on a disk.
-/

namespace ScriptVars

/-- what a command was about when something went wrong -/
inductive Errand where
  | loadingConfig (path : String)
  | readingModules (list : String)
  | reading (path : String)
  | loading (path : String)
  | understandingDump (path : String)
  | writing (path : String)
  deriving DecidableEq, Repr

def Errand.message : Errand → String
  | loadingConfig path => "failed to load config " ++ path
  | readingModules list => "invalid --modules " ++ Text.quoted list
  | reading path => "failed to read " ++ path
  | loading path => "failed to load " ++ path
  | understandingDump path => path ++ " is not a valid dump"
  | writing path => "failed to write " ++ path

structure Trouble where
  errand : Option Errand
  cause : Failure
  deriving DecidableEq, Repr

/-- the errand, and behind a colon the wording of the cause -/
def Trouble.tell (t : Trouble) (wording : Failure → String) : String :=
  match t.errand with
  | some errand => errand.message ++ ": " ++ wording t.cause
  | none => wording t.cause

def Trouble.message (t : Trouble) : String := t.tell Failure.message

abbrev Work (m : Type → Type) (α : Type) := ExceptT Trouble m α

namespace Work

variable {m : Type → Type} [Monad m] {α β : Type}

/-- a result on an errand, with its failure in the words of the program -/
def on (errand : Option Errand) (toFailure : β → Failure) (r : Except β α) : Work m α :=
  match r with
  | .ok a => pure a
  | .error cause => throw ⟨errand, toFailure cause⟩

def readBytes (disk : Disk m) (errand : Errand) (path : String) : Work m (List UInt8) := do
  on (some errand) .file (← disk.read path)

def readText (disk : Disk m) (errand : Errand) (path : String) : Work m String := do
  match Utf8.strict? (← readBytes disk errand path) with
  | some text => return text
  | none => throw ⟨some errand, .file .invalidData⟩

end Work

section
variable {m : Type → Type} [Monad m]

/-- the settings of a settings file, or the standard ones -/
def Config.load (disk : Disk m) : Option String → Work m Config
  | none => return .standard
  | some path => do
    let errand := Errand.loadingConfig path
    Work.on (some errand) id (Config.parse (← Work.readText disk errand path))

/-- the module map of a module list; without one, all modules are there -/
def ModuleMap.load : Option String → Work m ModuleMap
  | none => return .identity
  | some list => Work.on (some (.readingModules list)) id (ModuleMap.parse list)

def Session.loadFile (disk : Disk m) (config : Config) (path : String) (modules : Option String) :
    Work m (LoadReport × Session) := do
  let map ← ModuleMap.load modules
  let bytes ← Work.readBytes disk (.reading path) path
  Work.on (some (.loading path)) id (Session.ofBytes config map bytes)

def Session.saveFile (disk : Disk m) (s : Session) (path : String) : Work m SaveReport := do
  let (report, bytes) ← Work.on none id s.toBytes
  Work.on (some (.writing path)) .file (← disk.write path bytes)
  return report

/-- one command under some settings -/
def Command.run (disk : Disk m) (config : Config) : Command → Work m Answer
  | dump save modules => do
    let (_, s) ← Session.loadFile disk config save modules
    return ⟨.contents (.capture s), none⟩
  | check save modules => do
    let (report, _) ← Session.loadFile disk config save modules
    return ⟨.checked report, none⟩
  | pack input output => do
    let text ← Work.readText disk (.reading input) input
    let dump ← Work.on (some (.understandingDump input)) id
      ((StoreDump.parse? text).elim (.error .json) .ok)
    let s ← Work.on none id (dump.toSession config)
    let report ← s.saveFile disk output
    return ⟨.packed report, some ("Wrote " ++ output)⟩
  | prune save output modules => do
    let (load, s) ← Session.loadFile disk config save (some modules)
    let saved ← s.saveFile disk output
    return ⟨.pruned load saved, some ("Wrote " ++ output)⟩

def CommandLine.run (disk : Disk m) (line : CommandLine) : Work m Answer := do
  line.command.run disk (← Config.load disk line.config)

end
end ScriptVars
