import ScriptVars.Config
import ScriptVars.Json.Parser
import ScriptVars.Json.Printer

/-!
# Settings files

Settings are written as an object; what it leaves out has its standard value, and names that are
no settings are refused.

* `Config.toJson`       all settings;
* `Config.parse`        the settings that a text writes, if they are acceptable.
-/

namespace ScriptVars.Config

def members (c : Config) : List (String × Json) :=
  [("save_version", .ofNat c.saveVersion.toNat), ("dynamic_module", .ofNat c.dynamicModule.toNat),
    ("skip_pending_on_save", .bool c.skipPendingOnSave)]

def toJson (c : Config) : Json := .ofMembers c.members

/-- settings by name, or by position in an array -/
def ofJson? (j : Json) : Option Config := do
  match ← j.fields? ["save_version", "dynamic_module", "skip_pending_on_save"] false with
  | [saveVersion, dynamicModule, skipPendingOnSave] =>
    return {
      saveVersion := ← Json.optional? standard.saveVersion Json.word? saveVersion
      dynamicModule := ← Json.optional? standard.dynamicModule Json.byte? dynamicModule
      skipPendingOnSave :=
        ← Json.optional? standard.skipPendingOnSave Json.bool? skipPendingOnSave }
  | _ => none

/-- the settings that a text writes; they must be ones that saves can be written with -/
def parse (text : String) : Except Failure Config :=
  match (Json.parse? text).bind ofJson? with
  | none => .error .json
  | some c => do
    c.validate
    return c

end ScriptVars.Config
