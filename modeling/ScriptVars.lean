import ScriptVars.CommandLine.Parser
import ScriptVars.CommandLine.Run
import ScriptVars.Main
import ScriptVars.Plugin
import ScriptVars.Proofs.PlainTable
import ScriptVars.Proofs.Host
import ScriptVars.Proofs.Rollback
import ScriptVars.Proofs.Restore
import ScriptVars.Proofs.SkippedSave
import ScriptVars.Proofs.LoadedState
import ScriptVars.Proofs.GrownTexts
import ScriptVars.Proofs.Saving
import ScriptVars.Proofs.Capturing
import ScriptVars.Proofs.NormalDump
import ScriptVars.Proofs.Recapture
import ScriptVars.Proofs.Coverage
import ScriptVars.Proofs.CoveredSaves
import ScriptVars.Proofs.Composition
import ScriptVars.Proofs.Settled
import ScriptVars.Proofs.Commands
import ScriptVars.Proofs.Pruning
import ScriptVars.Proofs.Observation
import ScriptVars.Proofs.Sequence
import ScriptVars.Proofs.JsonTexts
import ScriptVars.Proofs.DumpTexts
import ScriptVars.Proofs.Packing
import ScriptVars.Proofs.Snapshots
import ScriptVars.Proofs.Targets
import ScriptVars.Proofs.ReservedBits
import ScriptVars.Proofs.ReservedSaves
import ScriptVars.Proofs.CopiedTrees
import ScriptVars.Proofs.Sweeps
import ScriptVars.Proofs.DroppedCopies
import ScriptVars.Proofs.RefusedCalls
import ScriptVars.Proofs.Sorting
import ScriptVars.Proofs.Positions
import ScriptVars.Proofs.SingleChanges
import ScriptVars.Proofs.Walks
import ScriptVars.Proofs.PackedLists
import ScriptVars.Proofs.FiniteMaps
import ScriptVars.Proofs.Ranges
import ScriptVars.Proofs.KeyTypes
import ScriptVars.Proofs.ModuleLists
import ScriptVars.Proofs.FailedMaps
import ScriptVars.Proofs.Framing
import ScriptVars.Proofs.CheckedCalls
import ScriptVars.Proofs.KeyOrder
