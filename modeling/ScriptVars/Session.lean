import ScriptVars.Config
import ScriptVars.Save.Read
import ScriptVars.Save.Write

/-!
# Sessions

The variables of one running game, and its life: a new game starts without any, every frame
sweeps, a save writes all of them, and a load replaces all of them or changes nothing.

* `Session.start`, `reset`          no variables;
* `Session.sweep`                   removes the temporary variables nothing claims;
* `Session.save`, `load`            onto and from record streams;
* `Session.toBytes`, `ofBytes`      the same for whole saves;
* `Session.beginLoad`, `endLoad`    setting variables aside and taking them back.
-/

namespace ScriptVars

/-- the variables of a game -/
structure Session where
  config : Config
  arrays : ArrayStore
  strings : StringStore
  deriving DecidableEq, Repr

namespace Session

def start (config : Config) : Session := ⟨config, .empty, .empty⟩

def reset (s : Session) : Session := start s.config

/-- removes the temporary variables nothing claims, and tells how many arrays and strings -/
def sweep (s : Session) : (Nat × Nat) × Session :=
  let (arrayCount, arrays) := s.arrays.sweep
  let (stringCount, strings) := s.strings.sweep
  ((arrayCount, stringCount), { s with arrays, strings })

def beginLoad (s : Session) : Session :=
  { s with arrays := s.arrays.beginLoad, strings := s.strings.beginLoad }

def endLoad (s : Session) (success : Bool) : Session :=
  { s with arrays := s.arrays.endLoad success, strings := s.strings.endLoad success }

/-- replaces all variables by an action; if it is refused, the old ones come back -/
def replacing {τ α : Type} (x : Action (Session × τ) α) : Action (Session × τ) α :=
  fun (s, other) =>
    match x (s.beginLoad, other) with
    | .ok a (s, other) => .ok a (s.endLoad true, other)
    | .error f (s, other) => .error f (s.endLoad false, other)

def onArrays {τ α : Type} (x : Action (ArrayStore × τ) α) : Action (Session × τ) α :=
  fun (s, other) =>
    match x (s.arrays, other) with
    | .ok a (arrays, other) => .ok a ({ s with arrays }, other)
    | .error f (arrays, other) => .error f ({ s with arrays }, other)

def onStrings {τ α : Type} (x : Action (StringStore × τ) α) : Action (Session × τ) α :=
  fun (s, other) =>
    match x (s.strings, other) with
    | .ok a (strings, other) => .ok a ({ s with strings }, other)
    | .error f (strings, other) => .error f ({ s with strings }, other)

section
variable {τ α : Type} (p : Session × τ)

theorem after_replacing (x : Action (Session × τ) α) : ∃ success, (replacing x).after p =
    ((x.after (p.1.beginLoad, p.2)).1.endLoad success, (x.after (p.1.beginLoad, p.2)).2) := by
  rw [Action.after, Action.after, replacing]
  cases x (p.1.beginLoad, p.2) with
  | ok a q => exact ⟨true, rfl⟩
  | error f q => exact ⟨false, rfl⟩

theorem after_onArrays (x : Action (ArrayStore × τ) α) : (onArrays x).after p =
    ({ p.1 with arrays := (x.after (p.1.arrays, p.2)).1 }, (x.after (p.1.arrays, p.2)).2) := by
  rw [Action.after, Action.after, onArrays]
  cases x (p.1.arrays, p.2) <;> rfl

theorem after_onStrings (x : Action (StringStore × τ) α) : (onStrings x).after p =
    ({ p.1 with strings := (x.after (p.1.strings, p.2)).1 }, (x.after (p.1.strings, p.2)).2) := by
  rw [Action.after, Action.after, onStrings]
  cases x (p.1.strings, p.2) <;> rfl

end

/-- writes all variables -/
def save (s : Session) : Action Stream SaveReport := do
  let report ← s.arrays.save s.config.saveVersion s.config.skipPendingOnSave
  return { report with strings := ← s.strings.save }

/-- reads a section of arrays and a section of strings, if there is one -/
def loadSections (m : ModuleMap) : Action (Session × Stream) LoadReport := do
  let report ← onArrays (ArrayStore.load m)
  onStrings (StringStore.load m report)

/-- replaces all variables by those of a save.  Modules are resolved by the map, except that the
dynamic one is always kept.  If the save is malformed, nothing changes. -/
def load (m : ModuleMap) : Action (Session × Stream) LoadReport := do
  let (s, _) ← get
  replacing (loadSections (m.keep s.config.dynamicModule))

/-- the session that a save holds, and the report on it -/
def ofBytes (config : Config) (m : ModuleMap) (bytes : List UInt8) :
    Except Failure (LoadReport × Session) :=
  match load m (start config, Stream.ofBytes bytes) with
  | .ok report (s, _) => .ok (report, s)
  | .error f _ => .error f

/-- the save of a session, and the report on it -/
def toBytes (s : Session) : Except Failure (SaveReport × List UInt8) :=
  match s.save Stream.empty with
  | .ok report stream => .ok (report, stream.bytes.toList)
  | .error f _ => .error f

end Session
end ScriptVars
