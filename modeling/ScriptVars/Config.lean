import ScriptVars.ModuleMap
import ScriptVars.Save.Format

/-!
# Settings

How a session writes saves and which module it always keeps.

* `Config.standard`     the settings without a settings file;
* `Config.validate`     refuses versions that cannot be written.
-/

namespace ScriptVars

structure Config where
  /-- the version of the array records in saves -/
  saveVersion : UInt32
  /-- the module of content made at run time, kept by every load -/
  dynamicModule : UInt8
  /-- whether saves leave out arrays that the next sweeps would remove -/
  skipPendingOnSave : Bool
  deriving DecidableEq, Repr

namespace Config

/-- the settings without a settings file -/
def standard : Config := ⟨SaveFormat.currentVersion, ScriptVars.dynamicModule, false⟩

/-- refuses versions that cannot be written -/
def validate (c : Config) : Except Failure Unit :=
  if c.saveVersion = SaveFormat.legacyVersion ∨ c.saveVersion = SaveFormat.currentVersion then
    .ok ()
  else .error (.config (.saveVersion c.saveVersion.toNat))

end Config
end ScriptVars
