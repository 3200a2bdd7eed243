import ScriptVars.Proofs.Recapture
import ScriptVars.Proofs.Representation

/-!
# Tables that nothing tells apart

How a table came about does not show.  Two tables without lost handles that hold the same variables
with the same flags give the same answers from then on, and that includes the handles they hand
out.

* `HandleTable.NoneLost`              every handle without a variable is free;
* `HandleTable.answers_congr`         equal variables, equal answers;
* `Session.Indistinct`                sessions that nothing tells apart;
* `Session.ended_of_load`             no load loses handles;
* `Session.Restored.indistinct`       what is restored twice is the same.
-/

namespace ScriptVars

open ScriptVars.Action

/-! ## Tables -/

namespace HandleTable

variable {α : Type} {t u : HandleTable α}

/-- every handle without a variable may be handed out -/
def NoneLost (t : HandleTable α) : Prop := ∀ ⦃h⦄, IsHandle h → t.find? h = none → t.IsFree h

theorem noneLost_beginLoad (t : HandleTable α) : t.beginLoad.NoneLost := fun h hh _ =>
  (isFree_empty h).2 hh

theorem NoneLost.bind (h : t.NoneLost) {id : UInt32} {value : α} (hb : t.bind id value = .ok u) :
    u.NoneLost := by
  intro x hx hn
  rw [find?_bind hb, handleOf_eq_self hx.2] at hn
  split at hn
  · cases hn
  · next hne => exact (isFree_bind hb x).2 ⟨h hx hn, fun e => hne e.symm⟩

theorem NoneLost.endLoad (h : t.NoneLost) : (t.endLoad true).NoneLost := by
  intro x hx hn
  rw [find?_endLoad_true] at hn
  obtain ⟨-, hfree⟩ := h hx hn
  refine ⟨hx, ?_⟩
  rwa [slots_endLoad_true]

def plain (t : HandleTable α) : PlainTable α := ⟨⟨t.toMap id, t.slots.temporaries, ∅⟩, none⟩

theorem NoneLost.refines (h : t.NoneLost) (ha : t.aside = none) : t.Refines t.plain where
  slots := by
    have hfind : ∀ i, t.slots.find? i = (t.toMap id)[i]? := fun i => by
      rw [toMap, Std.ExtTreeMap.getElem?_filterMap, SlotData.find?]
      cases t.slots.index[i]? with
      | none => rfl
      | some key => exact (congrFun Option.map_id _).symm
    have hmem : ∀ i, i ∈ t.toMap id ↔ i ∈ t.slots.index := fun i => by
      rw [Std.ExtTreeMap.mem_iff_isSome_getElem?, ← hfind, t.slots.valid.find?_isSome]
    exact {
      find? := hfind
      temporaries := rfl
      isFree := fun i hi => by
        rw [PlainSlots.isOpen_iff]
        show _ ↔ i ∉ t.toMap id ∧ i ∉ (∅ : HandleSet)
        rw [and_iff_left Std.ExtTreeSet.not_mem_empty, hmem]
        refine ⟨fun hf hm => t.slots.valid.not_isFree hm hf, fun hn => (h hi ?_).2⟩
        rw [find?_eq, handleOf_eq_self hi.2]
        exact Option.not_isSome_iff_eq_none.1 fun hs => hn (t.slots.valid.find?_isSome.1 hs)
      not_reserved := fun _ _ => Std.ExtTreeSet.not_mem_empty }
  aside := by
    rw [ha]
    exact .none

/-- what a table answers depends on its variables and flags only -/
theorem answers_congr (ht : t.NoneLost) (hu : u.NoneLost) (ht' : t.aside = none)
    (hu' : u.aside = none) (hfind : ∀ i, t.find? i = u.find? i)
    (htemporaries : t.slots.temporaries = u.slots.temporaries) (ops : List (TableOp α)) :
    t.answers ops = u.answers ops := by
  rw [(ht.refines ht').answers_eq, (hu.refines hu').answers_eq, plain, plain,
    toMap_congr hfind, htemporaries]

theorem aside_endLoad_true (t : HandleTable α) : (t.endLoad true).aside = none := by
  rw [endLoad]
  split
  · next h => exact h
  · rfl

end HandleTable

/-! ## Strings that are loaded -/

namespace StringStore

def LoadNoneLost (p : StringStore × Stream) : Prop := p.1.NoneLost

theorem noneLost_onStream {α : Type} (x : Action Stream α) : Keeps LoadNoneLost (onStream x) := by
  intro p hp
  rw [after_onStream]
  exact hp

theorem loadInvariant_noneLost (m : ModuleMap) : LoadInvariant m LoadNoneLost where
  next := noneLost_onStream _
  read := noneLost_onStream _
  seek _ := noneLost_onStream _
  bind _ hq hbind := hq.bind hbind

end StringStore

/-! ## Sessions -/

namespace Session

/-- nothing tells the variables of two sessions apart, nor the handles they give next -/
structure Indistinct (s t : Session) : Prop where
  config : s.config = t.config
  arrays : ∀ ops, s.arrays.answers ops = t.arrays.answers ops
  strings : ∀ ops, s.strings.answers ops = t.strings.answers ops

/-- no load is on its way, and none has lost handles -/
structure Ended (s : Session) : Prop where
  arrays : s.arrays.NoneLost
  strings : s.strings.NoneLost
  arraysAside : s.arrays.aside = none
  stringsAside : s.strings.aside = none

variable {s t u : Session} {m : ModuleMap} {stream stream' : Stream} {report : LoadReport}

theorem ended_of_load (hs : s.Reachable) (h : load m (s, stream) = .ok report (t, stream')) :
    t.Ended := by
  have harrays : t.arrays.NoneLost := fun _ => (hs.of_load h).noneReserved.here
  obtain ⟨_, _, hg, h₁⟩ := bind_eq_ok.1 h
  obtain ⟨rfl, rfl⟩ := get_eq_ok.1 hg
  obtain ⟨w, h₂, rfl⟩ := replacing_eq_ok h₁
  obtain ⟨read, ⟨x, stream₁⟩, ha, hb⟩ := bind_eq_ok.1 h₂
  obtain ⟨-, hkept⟩ := onArrays_eq_ok ha
  obtain ⟨hb, -⟩ := onStrings_eq_ok hb
  have hstart : StringStore.LoadNoneLost (x.strings, stream₁) := by
    show x.strings.NoneLost
    rw [show x.strings = s.beginLoad.strings from hkept]
    exact s.strings.noneLost_beginLoad
  have hread := (StringStore.loadInvariant_noneLost (m.keep s.config.dynamicModule)).load read hstart
  rw [after, hb] at hread
  exact ⟨harrays, hread.endLoad, HandleTable.aside_endLoad_true _, HandleTable.aside_endLoad_true _⟩

theorem Restored.indistinct (ht : Restored m s t) (hu : Restored m s u) (ht' : t.Ended)
    (hu' : u.Ended) (hconfig : t.config = u.config) : t.Indistinct u where
  config := hconfig
  arrays := HandleTable.answers_congr ht'.arrays hu'.arrays ht'.arraysAside hu'.arraysAside
    (fun i => by rw [ht.arrays, hu.arrays])
    (HandleTable.slots_temporaries_eq ht.temporaries.1 hu.temporaries.1)
  strings := HandleTable.answers_congr ht'.strings hu'.strings ht'.stringsAside hu'.stringsAside
    (fun i => by rw [ht.strings, hu.strings])
    (HandleTable.slots_temporaries_eq ht.temporaries.2 hu.temporaries.2)

end Session

end ScriptVars
