import ScriptVars.Proofs.Offsets
import ScriptVars.Proofs.Refusals

/-!
# What loads keep of a stream

A load moves on a stream in three ways only, so what these keep is kept by all of it.

* `KeepsStream`                 something is known of the stream beside a state;
* `Session.keepsStream_load`    what a load keeps.
-/

namespace ScriptVars

open ScriptVars.Action

/-- something is known of the stream beside a state -/
def KeepsStream {σ α : Type} (I : Stream → Prop) (x : Action (σ × Stream) α) : Prop :=
  Keeps (fun p => I p.2) x

section
variable {σ α β : Type} {I : Stream → Prop}

theorem keepsStream_onStream {x : Action Stream α} (hx : Keeps I x) :
    KeepsStream I (onStream x : Action (σ × Stream) α) := by
  intro p hp
  rw [after_onStream]
  exact hx hp

theorem KeepsStream.bind {x : Action (σ × Stream) α} {g : α → Action (σ × Stream) β}
    (hx : KeepsStream I x) (hg : ∀ a, KeepsStream I (g a)) : KeepsStream I (x >>= g) :=
  Keeps.bind hx fun {a _ _} _ hp => hg a hp

theorem keepsStream_of_reads {x : Action (σ × Stream) α} (hx : Reads x) : KeepsStream I x := hx.keeps

theorem keepsStream_onArrays {x : Action (ArrayStore × Stream) α} (hx : KeepsStream I x) :
    KeepsStream I (Session.onArrays x) := by
  intro p hp
  rw [Session.after_onArrays]
  exact @hx (p.1.arrays, p.2) hp

theorem keepsStream_onStrings {x : Action (StringStore × Stream) α} (hx : KeepsStream I x) :
    KeepsStream I (Session.onStrings x) := by
  intro p hp
  rw [Session.after_onStrings]
  exact @hx (p.1.strings, p.2) hp

theorem keepsStream_replacing {x : Action (Session × Stream) α} (hx : KeepsStream I x) :
    KeepsStream I (Session.replacing x) := by
  intro p hp
  obtain ⟨success, hafter⟩ := Session.after_replacing p x
  rw [hafter]
  exact @hx (p.1.beginLoad, p.2) hp

variable (hI : Stream.Invariant I)
include hI

theorem ArrayStore.loadInvariant_stream (m : ModuleMap) : LoadInvariant m fun p => I p.2 where
  next := keepsStream_onStream hI.next
  read r := keepsStream_onStream (hI.read r)
  bind _ hq _ := hq
  mend hp := hp

theorem StringStore.loadInvariant_stream (m : ModuleMap) : LoadInvariant m fun p => I p.2 where
  next := keepsStream_onStream hI.next
  read := keepsStream_onStream (hI.read _)
  seek position := keepsStream_onStream (hI.seek position)
  bind _ hq _ := hq

/-- what a load keeps of its stream -/
theorem Session.keepsStream_load (m : ModuleMap) : KeepsStream I (load m) :=
  (keepsStream_of_reads reads_get).bind fun _ => keepsStream_replacing
    ((keepsStream_onArrays (ArrayStore.loadInvariant_stream hI _).load).bind fun report =>
      keepsStream_onStrings ((StringStore.loadInvariant_stream hI _).load report))

end

end ScriptVars
