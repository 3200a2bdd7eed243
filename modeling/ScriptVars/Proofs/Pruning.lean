import Mathlib.Data.List.TakeWhile
import ScriptVars.Proofs.Commands
import ScriptVars.Proofs.Settled

/-!
# Saves that are pruned

A save that was pruned once holds nothing any more that pruning takes away, so pruning it again
writes the same bytes.

* `ModuleMap.inPlace_of_parse`    lists that name modules by their old indices only;
* `Command.prune_again`           pruning what was pruned.
-/

namespace ScriptVars

/-! ## Module lists -/

/-- every result comes from a member -/
theorem Failure.exists_of_mapM {α β : Type} {f : α → Except Failure β} {l : List α} {l' : List β}
    (h : l.mapM f = .ok l') : ∀ b ∈ l', ∃ a ∈ l, f a = .ok b := by
  induction l generalizing l' with
  | nil =>
    cases h
    exact nofun
  | cons a l ih =>
    rw [List.mapM_cons] at h
    obtain ⟨b, hb, h₁⟩ := bind_eq_ok.1 h
    obtain ⟨bs, hbs, h₂⟩ := bind_eq_ok.1 h₁
    cases h₂
    intro c hc
    rcases List.mem_cons.1 hc with rfl | hc
    · exact ⟨a, List.mem_cons_self, hb⟩
    · obtain ⟨a', ha', hc'⟩ := ih hbs c hc
      exact ⟨a', List.mem_cons_of_mem a ha', hc'⟩

namespace Text

theorem mem_of_mem_trim {c : Char} {cs : List Char} (h : c ∈ trim cs) : c ∈ cs := by
  have h₁ := (List.dropWhile_sublist _).subset (List.mem_reverse.1 h)
  exact (List.dropWhile_sublist _).subset (List.mem_reverse.1 h₁)

/-- pieces have no other characters -/
theorem mem_of_mem_split {sep c : Char} {cs piece : List Char} (hp : piece ∈ split sep cs)
    (hc : c ∈ piece) : c ∈ cs := by
  induction cs generalizing piece with
  | nil =>
    obtain rfl := List.mem_singleton.1 hp
    exact hc
  | cons d cs ih =>
    change piece ∈ splitStep sep d (split sep cs) at hp
    rw [splitStep.eq_def] at hp
    split at hp
    · rcases List.mem_cons.1 hp with rfl | hp
      · cases hc
      · exact List.mem_cons_of_mem d (ih hp hc)
    · split at hp
      · obtain rfl := List.mem_singleton.1 hp
        exact List.mem_singleton.1 hc ▸ List.mem_cons_self
      · next first rest hsplit =>
        rcases List.mem_cons.1 hp with rfl | hp
        · rcases List.mem_cons.1 hc with rfl | hc
          · exact List.mem_cons_self
          · exact List.mem_cons_of_mem d (ih (hsplit ▸ List.mem_cons_self) hc)
        · exact List.mem_cons_of_mem d (ih (hsplit ▸ List.mem_cons_of_mem first hp) hc)

theorem splitOnce_of_not_mem {sep : Char} {cs : List Char} (h : sep ∉ cs) :
    splitOnce sep cs = none := by
  have hdrop : cs.dropWhile (· != sep) = [] := List.dropWhile_eq_nil_iff.2 fun c hc => by
    rw [bne_iff_ne]
    rintro rfl
    exact h hc
  rw [splitOnce, hdrop]

end Text

namespace ModuleMap

/-- a module list without new indices -/
def OldOnly (list : String) : Prop := '=' ∉ list.toList

instance (list : String) : Decidable (OldOnly list) :=
  inferInstanceAs (Decidable ('=' ∉ list.toList))

theorem inPlace_bare : bare.InPlace := by
  intro old new h
  change (if old = dynamicModule then some dynamicModule else none) = some new at h
  split at h
  · next e => exact (Option.some.inj h).symm.trans e.symm
  · cases h

theorem InPlace.insertAll {m : ModuleMap} (hm : m.InPlace) {pairs : List (UInt8 × UInt8)}
    (h : ∀ p ∈ pairs, p.2 = p.1) : (m.insertAll pairs).InPlace := by
  refine List.foldlRecOn pairs _ hm fun n hn p hp => ?_
  show (n.insert p.1 p.2).InPlace
  rw [h p hp]
  exact hn.keep p.1

theorem eq_of_parsePiece {cs : List Char} (hcs : '=' ∉ cs) {p : UInt8 × UInt8}
    (h : parsePiece cs = .ok p) : p.2 = p.1 := by
  rw [parsePiece, Text.splitOnce_of_not_mem hcs] at h
  obtain ⟨i, -, h⟩ := Failure.bind_eq_ok.1 h
  cases h
  rfl

theorem inPlace_of_parse {list : String} (hlist : OldOnly list) {m : ModuleMap}
    (h : parse list = .ok m) : m.InPlace := by
  obtain ⟨pairs, hpairs, h⟩ := Failure.bind_eq_ok.1 h
  cases h
  rw [ofPairs_eq]
  refine inPlace_bare.insertAll fun p hp => ?_
  obtain ⟨cs, hcs, hparse⟩ := Failure.exists_of_mapM hpairs p hp
  refine eq_of_parsePiece (fun hc => hlist ?_) hparse
  obtain ⟨piece, hpiece, rfl⟩ := List.mem_map.1 (List.mem_of_mem_filter hcs)
  exact Text.mem_of_mem_split hpiece (Text.mem_of_mem_trim hc)

end ModuleMap

/-! ## Pruning -/

/-- A pruned save is a save that pruning does not change: it can be pruned again with the same
settings and modules, wherever it is by then, and the same bytes are written.  Nothing more is
dropped, nulled or skipped. -/
theorem Command.prune_again {config : Config} {list input output : String} {f f' : Folder}
    {answer : Answer} (hlist : ModuleMap.OldOnly list)
    (h : ((prune input output list).run Folder.disk config).Does f answer f') :
    ∃ load save bytes, answer = ⟨.pruned load save, some ("Wrote " ++ output)⟩ ∧
      f'.read output = .ok bytes ∧
      ∀ (g g' : Folder) (input' output' : String), g.read input' = .ok bytes →
        g.write output' bytes = .ok g' →
        ((prune input' output' list).run Folder.disk config).Does g
          ⟨.pruned ⟨config.saveVersion, load.arrays, load.strings, 0, 0, 0, 0⟩
            ⟨load.arrays, load.strings, 0⟩, some ("Wrote " ++ output')⟩ g' ∧
        g'.read output' = .ok bytes := by
  obtain ⟨m, old, load, s, save, bytes, hm, -, hload, hsave, hwrite, rfl⟩ := does_prune.1 h
  obtain ⟨stream, hload⟩ := Session.ofBytes_eq_ok.1 hload
  have hinplace := (ModuleMap.inPlace_of_parse hlist hm).keep config.dynamicModule
  have hconfig : s.config = config := Session.config_of_load hload
  have hsettled := Session.settled_of_load (.start config) hload
  obtain ⟨-, -, hcounts⟩ := Session.tables_of_load hload
  obtain ⟨hreport, u, stream', hload', -, hsave'⟩ := hsettled.reload hinplace hsave
    (congrArg (fun c => m.keep c.dynamicModule) hconfig) (v := .start config) hconfig.symm
  rw [hconfig, ← hcounts.arrays, ← hcounts.strings] at hload'
  rw [← hcounts.arrays, ← hcounts.strings] at hreport
  subst hreport
  refine ⟨load, _, bytes, rfl, Folder.read_of_write hwrite, fun g g' input' output' hread hwrite' =>
    ⟨does_prune.2 ?_, Folder.read_of_write hwrite'⟩⟩
  exact ⟨m, bytes, _, u, _, bytes, hm, hread, Session.ofBytes_eq_ok.2 ⟨stream', hload'⟩, hsave',
    hwrite', rfl⟩

/-- a save with a negative zero for a key and an id with reserved bits; a string and the array that
another one names belong to module 2, which is gone -/
theorem Command.prune_again_foreign :
    ∃ f answer bytes,
      ((prune "old.sav" "new.sav" "0x1").run Folder.disk .standard).Does
        [("old.sav", Session.foreign)] answer f ∧
      answer.outcome = .pruned ⟨2, 1, 1, 1, 0, 1, 1⟩ ⟨1, 1, 0⟩ ∧ f.read "new.sav" = .ok bytes ∧
      ∃ g, ((prune "new.sav" "again.sav" "0x1").run Folder.disk .standard).Does f
          ⟨.pruned ⟨2, 1, 1, 0, 0, 0, 0⟩ ⟨1, 1, 0⟩, some "Wrote again.sav"⟩ g ∧
        g.read "again.sav" = .ok bytes := by
  have hdone : (((prune "old.sav" "new.sav" "0x1").run Folder.disk .standard).run.run
      [("old.sav", Session.foreign)]).1.toOption.map (·.outcome) =
        some (.pruned ⟨2, 1, 1, 1, 0, 1, 1⟩ ⟨1, 1, 0⟩) := by decide +kernel
  obtain ⟨answer, hanswer, houtcome⟩ := Option.map_eq_some_iff.1 hdone
  obtain ⟨f, hfirst⟩ := Work.exists_does_of_toOption hanswer
  obtain ⟨load, save, bytes, rfl, hread, hagain⟩ := prune_again (by decide) hfirst
  obtain ⟨rfl, rfl⟩ := Outcome.pruned.inj houtcome
  have hwrite : f.write "again.sav" bytes = .ok (f.put "again.sav" bytes) :=
    Folder.write_eq_ok.2 ⟨by decide +kernel, .here, "again.sav".toList, by decide +kernel,
      by decide +kernel, rfl⟩
  obtain ⟨hsecond, hread'⟩ := hagain f _ "new.sav" "again.sav" hread hwrite
  exact ⟨f, _, bytes, hfirst, rfl, hread, _, hsecond, hread'⟩

end ScriptVars
