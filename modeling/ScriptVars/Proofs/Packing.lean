import ScriptVars.Proofs.DumpTexts
import ScriptVars.Proofs.Pruning
import ScriptVars.Proofs.Texts

/-!
# Saves from printed dumps

A save that was loaded can be printed as a dump, and a new save can be made of what was printed.
The new one is what the session of the old one is saved as.  JSON has no form for a number that is
not finite, though, and the text of a string may have grown when it was loaded.

* `Session.exists_toBytes_standard`   what can be saved;
* `Session.Settled.dumpable`          what was loaded can be dumped and put back;
* `Session.Settled.capture_ofBytes`   a save of it is dumped like it;
* `Command.does_pack_printed`         what is made of a printed dump;
* `Command.does_dump_packed`          and how that is dumped;
* `Command.pack_printed`              dumped, made into a save, and dumped again;
* `Command.not_packed`                a number that cannot be printed.
-/

namespace ScriptVars

/-- printed in a file, with blanks behind it or without -/
def StoreDump.PrintedIn (d : StoreDump) (f : Folder) (path : String) : Prop :=
  ∃ blanks : List Char, (∀ c ∈ blanks, Json.isSpace c = true) ∧
    f.read path = .ok (Utf8.encode
      ((Answer.mk (.contents d) none).render .json ++ String.ofList blanks))

/-! ## Sessions -/

namespace Session

variable {m : ModuleMap} {s t : Session}

theorem exists_toBytes_standard (hs : s.Reachable) (hconfig : s.config = .standard) :
    (∃ report bytes, s.toBytes = .ok (report, bytes)) ↔
      s.Countable ∧ ∀ p ∈ s.strings.toList, p.2.data.utf8ByteSize ≤ maxTextBytes := by
  have hversion : s.config.saveVersion = SaveFormat.currentVersion :=
    congrArg Config.saveVersion hconfig
  have hskip : s.config.skipPendingOnSave = false := congrArg Config.skipPendingOnSave hconfig
  have hwritten : ∀ p ∈ s.arrays.toList,
      (p.1, p.2, p.2.refs) ∈ s.arrays.written s.config.skipPendingOnSave := by
    intro p hp
    rw [hskip]
    exact List.mem_map_of_mem hp
  rw [exists_toBytes, exists_save, ArrayStore.exists_save]
  constructor
  · rintro ⟨⟨-, harrays⟩, hstrings⟩
    have hdraft := fun p hp => ArrayVar.fault_draft.1 (harrays _ (hwritten p hp)).2
    refine ⟨⟨fun p hp => (hdraft p hp).2.1, fun p hp => (hdraft p hp).1 hversion,
      fun p hp => (harrays p hp).1, fun p hp => (hstrings p hp).1⟩, fun p hp => ?_⟩
    exact StringVar.fault_draft.1 (hstrings p hp).2
  · rintro ⟨hcount, hshort⟩
    refine ⟨⟨by rw [hversion]; rfl, fun p hp => ⟨hcount.arrayRecords p hp, ?_⟩⟩, fun p hp =>
      ⟨hcount.stringRecords p hp, StringVar.fault_draft.2 (hshort p hp)⟩⟩
    obtain ⟨hm, hsub⟩ := ArrayStore.mem_written hp
    refine ArrayVar.fault_draft.2 ⟨fun _ => ?_, hcount.elements _ hm, hs.short hm⟩
    exact Nat.lt_of_le_of_lt hsub.length_le (hcount.references _ hm)

namespace Settled

theorem dumpable (ht : Settled m t) (hcount : t.Countable) : t.Dumpable where
  targets p hp id hid := by
    refine (((ht.arrays p hp).contents.mem_values _ hid).2 id rfl).imp_right fun ⟨hself, hin⟩ => ?_
    obtain ⟨a, ha⟩ := Option.isSome_iff_exists.1 hin
    rw [HandleTable.handles_eq]
    exact List.mem_map_of_mem (HandleTable.mem_toList.2 ⟨hself, ha⟩)
  sizes p hp _ := Nat.le_of_lt (hcount.elements p hp)

/-- a save of it is dumped like it -/
theorem capture_ofBytes (ht : Settled m t) (hm : m.InPlace) (hconfig : t.config = .standard)
    {modules : ModuleMap} (hmodules : modules.keep Config.standard.dynamicModule = m)
    {report : SaveReport} {bytes : List UInt8} (h : t.toBytes = .ok (report, bytes)) :
    ∃ report' u, ofBytes .standard modules bytes = .ok (report', u) ∧
      StoreDump.capture u = StoreDump.capture t := by
  rw [← hconfig] at hmodules
  obtain ⟨-, u, stream, hload, hr, -⟩ :=
    ht.reload hm h hmodules (v := .start .standard) hconfig.symm
  refine ⟨_, u, ofBytes_eq_ok.2 ⟨stream, hload⟩, StoreDump.Alike.capture_eq ?_⟩
  obtain ⟨harrays, hstrings⟩ := ht.find?_restored hm hr
  have hsame : ArrayVar.recorded t.config.saveVersion = id := by
    rw [hconfig]
    rfl
  refine ⟨fun i => ?_, HandleTable.isTemporary_congr ?_, hstrings⟩
  · rw [harrays, hsame, Option.map_id_fun, id_eq]
  · exact HandleTable.slots_temporaries_eq hr.temporaries.1 ht.temporaries.1

end Settled

end Session

namespace StoreDump

variable {s t : Session}

/-- a session that a captured dump was put into is saved like the old one -/
theorem toBytes_of_toSession (hs : s.Reachable) (h : (capture s).toSession s.config = .ok t) :
    t.toBytes = s.toBytes := by
  obtain ⟨-, hinstalled, hconfig⟩ := of_apply_eq_ok (toSession_eq_ok.1 h)
  have hsave := (alike_of_installed hs hinstalled).save_eq s.config
  have ht : ({ t with config := s.config } : Session) = t := by
    rw [← show t.config = s.config from hconfig]
  rw [ht] at hsave
  rw [Session.toBytes, Session.toBytes, hsave]

theorem exists_toSession (hs : s.Reachable) (hd : s.Dumpable) :
    ∃ t, (capture s).toSession s.config = .ok t := by
  obtain ⟨t, ht⟩ := ((consistent_capture hs).2 hd).exists_apply (.start s.config)
  exact ⟨t, toSession_eq_ok.2 ht⟩

end StoreDump

/-! ## Commands -/

namespace Command

open StoreDump

variable {f f' g g' : Folder} {input path output : String} {answer : Answer}

/-- a printed dump is read back, unless there is no form for one of its numbers -/
theorem does_pack_printed {config : Config} {d : StoreDump} (hnumbers : AllReadBack d.numbers)
    (hprinted : d.PrintedIn g path) :
    ((pack path output).run Folder.disk config).Does g answer g' ↔
      AllFinite d.numbers ∧ ∃ t report bytes, d.toSession config = .ok t ∧
        t.toBytes = .ok (report, bytes) ∧ g.write output bytes = .ok g' ∧
        answer = ⟨.packed report, some ("Wrote " ++ output)⟩ := by
  obtain ⟨blanks, hblanks, hread⟩ := hprinted
  have hparse := parse?_json hnumbers hblanks
  rw [does_pack]
  constructor
  · rintro ⟨bytes, text, d', t, report, saved, hread', htext, hd, ht, hsave, hwrite, rfl⟩
    obtain rfl := Except.ok.inj (hread.symm.trans hread')
    obtain rfl := Option.some.inj ((Utf8.strict?_encode _).symm.trans htext)
    have hd := hd.symm.trans hparse
    split at hd
    · next hfinite =>
      obtain rfl := Option.some.inj hd
      exact ⟨hfinite, t, report, saved, ht, hsave, hwrite, rfl⟩
    · cases hd
  · rintro ⟨hfinite, t, report, saved, ht, hsave, hwrite, rfl⟩
    rw [if_pos hfinite] at hparse
    exact ⟨_, _, d, t, report, saved, hread, Utf8.strict?_encode _, hparse, ht, hsave, hwrite, rfl⟩

section
variable {m : ModuleMap} {s : Session} (hs : s.Reachable) (hsettled : s.Settled m)
  (hconfig : s.config = .standard) (hnumbers : AllReadBack (capture s).numbers)
  (hprinted : (capture s).PrintedIn g path)
include hs hsettled hconfig hnumbers hprinted

/-- what is made of a captured dump is the save of the session that it was captured from -/
theorem does_pack_captured :
    ((pack path output).run Folder.disk .standard).Does g answer g' ↔
      AllFinite (capture s).numbers ∧ ∃ report bytes, s.toBytes = .ok (report, bytes) ∧
        g.write output bytes = .ok g' ∧
        answer = ⟨.packed report, some ("Wrote " ++ output)⟩ := by
  rw [does_pack_printed hnumbers hprinted]
  refine and_congr_right fun _ => ?_
  constructor
  · rintro ⟨t, report, saved, ht, hsave, hdone⟩
    rw [← hconfig] at ht
    exact ⟨report, saved, toBytes_of_toSession hs ht ▸ hsave, hdone⟩
  · rintro ⟨report, saved, hsave, hdone⟩
    have hcount := ((Session.exists_toBytes_standard hs hconfig).1 ⟨report, saved, hsave⟩).1
    obtain ⟨t, ht⟩ := exists_toSession hs (hsettled.dumpable hcount)
    have htoBytes := (toBytes_of_toSession hs ht).trans hsave
    rw [hconfig] at ht
    exact ⟨t, report, saved, ht, htoBytes, hdone⟩

theorem exists_does_pack (hwrites : ∀ saved, ∃ g', g.write output saved = .ok g') :
    (∃ answer g', ((pack path output).run Folder.disk .standard).Does g answer g') ↔
      AllFinite (capture s).numbers ∧ s.Countable ∧
        ∀ p ∈ s.strings.toList, p.2.data.utf8ByteSize ≤ maxTextBytes := by
  rw [← Session.exists_toBytes_standard hs hconfig]
  constructor
  · rintro ⟨answer, g', hdone⟩
    obtain ⟨hfinite, report, saved, hsave, -⟩ :=
      (does_pack_captured hs hsettled hconfig hnumbers hprinted).1 hdone
    exact ⟨hfinite, report, saved, hsave⟩
  · rintro ⟨hfinite, report, saved, hsave⟩
    obtain ⟨g', hwrite⟩ := hwrites saved
    exact ⟨_, g', (does_pack_captured hs hsettled hconfig hnumbers hprinted).2
      ⟨hfinite, report, saved, hsave, hwrite, rfl⟩⟩

/-- what was made of a captured dump is dumped like it -/
theorem does_dump_packed (hm : m.InPlace) (hmodules : ModuleMap.identity.keep dynamicModule = m)
    (h : ((pack path output).run Folder.disk .standard).Does g answer g') :
    ((dump output none).run Folder.disk .standard).Does g' ⟨.contents (.capture s), none⟩ g' := by
  obtain ⟨-, report, saved, hsave, hwrite, -⟩ :=
    (does_pack_captured hs hsettled hconfig hnumbers hprinted).1 h
  obtain ⟨report', u, hload, hcapture⟩ := hsettled.capture_ofBytes hm hconfig hmodules hsave
  rw [← hcapture]
  exact does_dump.2 ⟨⟨.identity, saved, report', u, rfl, Folder.read_of_write hwrite, hload, rfl⟩,
    rfl⟩

end

/-- A save that is accepted is dumped, and a save can be made of the printed dump if and only if
there is a form for every number in it, its numbers of elements and its records fit, and no string
has a text that is too long.  The new save is dumped like the old one. -/
theorem pack_printed (h : ((check input none).run Folder.disk .standard).Does f answer f') :
    ∃ bytes report s, f.read input = .ok bytes ∧
      Session.ofBytes .standard .identity bytes = .ok (report, s) ∧
      ((dump input none).run Folder.disk .standard).Does f ⟨.contents (.capture s), none⟩ f ∧
      ∀ (g : Folder) (path output : String), AllReadBack (capture s).numbers →
        (capture s).PrintedIn g path → (∀ saved, ∃ g', g.write output saved = .ok g') →
        ((∃ answer g', ((pack path output).run Folder.disk .standard).Does g answer g') ↔
          AllFinite (capture s).numbers ∧ s.Countable ∧
            ∀ p ∈ s.strings.toList, p.2.data.utf8ByteSize ≤ maxTextBytes) ∧
        ∀ answer g', ((pack path output).run Folder.disk .standard).Does g answer g' →
          ((dump output none).run Folder.disk .standard).Does g'
            ⟨.contents (.capture s), none⟩ g' := by
  obtain ⟨⟨m, bytes, report, s, hm, hread, hload, rfl⟩, rfl⟩ := does_check.1 h
  obtain rfl : m = .identity := (Except.ok.inj hm).symm
  refine ⟨bytes, report, s, hread, hload,
    does_dump.2 ⟨⟨.identity, bytes, report, s, rfl, hread, hload, rfl⟩, rfl⟩,
    fun g path output hnumbers hprinted hwrites => ?_⟩
  obtain ⟨stream, hload⟩ := Session.ofBytes_eq_ok.1 hload
  have hs : s.Reachable := (Session.Reachable.start .standard).of_load hload
  have hconfig : s.config = .standard := Session.config_of_load hload
  have hsettled := Session.settled_of_load (.start .standard) hload
  exact ⟨exists_does_pack hs hsettled hconfig hnumbers hprinted hwrites, fun _ _ hdone =>
    does_dump_packed hs hsettled hconfig hnumbers hprinted (ModuleMap.inPlace_identity.keep _) rfl
      hdone⟩

def solitary (number : List UInt8) : List UInt8 :=
  ([⟨SaveFormat.arrayStart, 2, []⟩,
    ⟨SaveFormat.arrayRecord, 2, [3, 1, 0, 0, 0, 1, 1, 0, 0, 0, 0, 1, 0, 0, 0,
      0, 0, 0, 0, 0, 0, 0, 0, 1] ++ number⟩, ⟨SaveFormat.arrayEnd, 2, []⟩,
    ⟨SaveFormat.stringStart, 1, []⟩, ⟨SaveFormat.stringEnd, 1, []⟩] : List Record).flatMap
      Record.encode

theorem ofBytes_solitary (number : List UInt8) (x : Number)
    (h : ((Session.ofBytes .standard .identity (solitary number)).toOption.map fun p =>
      ((capture p.2).numbers, decide p.2.Countable, p.2.strings.toList)) =
        some ([⟨0⟩, x], true, [])) :
    ∃ report s, Session.ofBytes .standard .identity (solitary number) = .ok (report, s) ∧
      (capture s).numbers = [⟨0⟩, x] ∧ s.Countable ∧ s.strings.toList = [] := by
  obtain ⟨⟨report, s⟩, hloaded, hp⟩ := Option.map_eq_some_iff.1 h
  obtain ⟨hnumbers, hp⟩ := Prod.mk.inj hp
  obtain ⟨hcount, hstrings⟩ := Prod.mk.inj hp
  exact ⟨report, s, Failure.toOption_eq_some.1 hloaded, hnumbers, of_decide_eq_true hcount,
    hstrings⟩

/-- the number is a tenth -/
theorem pack_printed_tenth :
    ∃ (f g g' : Folder) (d : StoreDump) (answer : Answer),
      f.read "old.sav" = .ok (solitary [0x9A, 0x99, 0x99, 0x99, 0x99, 0x99, 0xB9, 0x3F]) ∧
      ((dump "old.sav" none).run Folder.disk .standard).Does f ⟨.contents d, none⟩ f ∧
      d.numbers = [⟨0⟩, ⟨0x3FB999999999999A⟩] ∧ d.PrintedIn g "dump.json" ∧
      ((pack "dump.json" "new.sav").run Folder.disk .standard).Does g answer g' ∧
      ((dump "new.sav" none).run Folder.disk .standard).Does g' ⟨.contents d, none⟩ g' := by
  let f : Folder := [("old.sav", solitary [0x9A, 0x99, 0x99, 0x99, 0x99, 0x99, 0xB9, 0x3F])]
  have hread : f.read "old.sav" =
      .ok (solitary [0x9A, 0x99, 0x99, 0x99, 0x99, 0x99, 0xB9, 0x3F]) := by decide +kernel
  obtain ⟨report, s, hload, hnumbers, hcount, hstrings⟩ := ofBytes_solitary
    [0x9A, 0x99, 0x99, 0x99, 0x99, 0x99, 0xB9, 0x3F] ⟨0x3FB999999999999A⟩ (by decide +kernel)
  obtain ⟨bytes, report', s', hread', hload', hdump, hpack⟩ :=
    pack_printed (does_check.2 ⟨⟨.identity, _, report, s, rfl, hread, hload, rfl⟩, rfl⟩)
  obtain rfl := Except.ok.inj (hread.symm.trans hread')
  obtain ⟨-, rfl⟩ := Prod.mk.inj (Except.ok.inj (hload.symm.trans hload'))
  have hwrites : ∀ (g : Folder) bytes, ∃ g', g.write "new.sav" bytes = .ok g' := fun g bytes =>
    ⟨_, Folder.write_eq_ok.2 ⟨by decide +kernel, .here, "new.sav".toList, by decide +kernel,
      by decide +kernel, rfl⟩⟩
  obtain ⟨g, hwrite⟩ : ∃ g, f.write "dump.json" (Utf8.encode
      ((Answer.mk (.contents (capture s)) none).render .json ++ "\n")) = .ok g :=
    ⟨_, Folder.write_eq_ok.2 ⟨by decide +kernel, .here, "dump.json".toList, by decide +kernel,
      by decide +kernel, rfl⟩⟩
  have hprinted : (capture s).PrintedIn g "dump.json" :=
    ⟨['\n'], List.forall_mem_singleton.2 rfl, Folder.read_of_write hwrite⟩
  obtain ⟨hpacks, hagain⟩ := hpack g "dump.json" "new.sav"
    (by rw [hnumbers]; decide +kernel) hprinted (hwrites g)
  obtain ⟨answer, g', hdone⟩ := hpacks.2
    ⟨by rw [hnumbers]; decide +kernel, hcount, by rw [hstrings]; exact nofun⟩
  exact ⟨f, g, g', capture s, answer, hread, hdump, hnumbers, hprinted, hdone,
    hagain answer g' hdone⟩

/-- A save with a NaN in it is accepted and dumped, but no save is made of the dump that is
printed. -/
theorem not_packed :
    ∃ (f : Folder) (d : StoreDump) (answer : Answer),
      f.read "old.sav" = .ok (solitary [0, 0, 0, 0, 0, 0, 0xF8, 0x7F]) ∧
      ((check "old.sav" none).run Folder.disk .standard).Does f answer f ∧
      ((dump "old.sav" none).run Folder.disk .standard).Does f ⟨.contents d, none⟩ f ∧
      AllReadBack d.numbers ∧
      ∀ (g g' : Folder) (path output : String) (answer : Answer), d.PrintedIn g path →
        ¬ ((pack path output).run Folder.disk .standard).Does g answer g' := by
  let f : Folder := [("old.sav", solitary [0, 0, 0, 0, 0, 0, 0xF8, 0x7F])]
  have hread : f.read "old.sav" = .ok (solitary [0, 0, 0, 0, 0, 0, 0xF8, 0x7F]) := by
    decide +kernel
  obtain ⟨report, s, hload, hnumbers, -⟩ := ofBytes_solitary
    [0, 0, 0, 0, 0, 0, 0xF8, 0x7F] ⟨0x7FF8000000000000⟩ (by decide +kernel)
  have hback : AllReadBack (capture s).numbers := by
    rw [hnumbers]
    decide +kernel
  refine ⟨f, capture s, _, hread,
    does_check.2 ⟨⟨.identity, _, report, s, rfl, hread, hload, rfl⟩, rfl⟩,
    does_dump.2 ⟨⟨.identity, _, report, s, rfl, hread, hload, rfl⟩, rfl⟩, hback, ?_⟩
  intro g g' path output answer hprinted hdone
  have hfinite := ((does_pack_printed hback hprinted).1 hdone).1
  rw [hnumbers] at hfinite
  exact absurd hfinite (by decide +kernel)

end Command

end ScriptVars
