import ScriptVars.CommandLine.Run

/-!
# Commands on a folder

What a command needs for coming to its end, what it answers then, and what it leaves in the folder.

* `Folder.read_of_write`      what was written can be read;
* `Work.Does`                 a command that comes to its end;
* `Work.does_bind`, …         its parts;
* `Command.does_dump`, …      the commands.
-/

namespace ScriptVars

/-! ## Files -/

namespace Folder

variable {f f' : Folder} {path : String} {bytes : List UInt8}

/-- only a path that leads to a name in a directory can be written -/
theorem write_eq_ok : f.write path bytes = .ok f' ↔
    checkPath path = .ok () ∧ ∃ d name, Place.ofPath path = .entry d name ∧
      ¬ maxNameBytes < (String.ofList name).utf8ByteSize ∧
      f' = f.put (d.pathTo (String.ofList name)) bytes := by
  rw [write]
  cases hpath : checkPath path with
  | error problem => exact iff_of_false nofun nofun
  | ok u =>
    refine Iff.trans ?_ (and_iff_right rfl).symm
    cases hplace : Place.ofPath path with
    | entry d name =>
      have hwrite : (f.fileIn d name >>= fun file => pure (f.put file.1 bytes)) = .ok f' ↔
          ¬ maxNameBytes < (String.ofList name).utf8ByteSize ∧
            f' = f.put (d.pathTo (String.ofList name)) bytes := by
        rw [fileIn]
        split
        · next hname => exact iff_of_false nofun fun h => h.1 hname
        · next hname =>
          refine Iff.trans ?_ (and_iff_right hname).symm
          exact ⟨fun h => (Except.ok.inj h).symm, fun h => congrArg Except.ok h.symm⟩
      refine hwrite.trans ⟨fun h => ⟨d, name, rfl, h⟩, ?_⟩
      rintro ⟨d', name', hplace', h⟩
      obtain ⟨rfl, rfl⟩ := Place.entry.inj hplace'
      exact h
    | _ => exact iff_of_false nofun nofun

/-- what was written can be read -/
theorem read_of_write (h : f.write path bytes = .ok f') : f'.read path = .ok bytes := by
  obtain ⟨hpath, d, name, hplace, hname, rfl⟩ := write_eq_ok.1 h
  have hfile : (f.put (d.pathTo (String.ofList name)) bytes).fileIn d name =
      .ok (d.pathTo (String.ofList name), some bytes) := by
    rw [fileIn, if_neg hname, find?_put_self]
  rw [read, hpath, hplace]
  show (fileIn _ d name >>= _) = _
  rw [hfile]
  rfl

end Folder

/-! ## Work that is done -/

namespace Work

variable {α β : Type} {x : Work (StateM Folder) α} {g : α → Work (StateM Folder) β} {a : α} {b : β}
  {f f' : Folder}

/-- comes to its end in a folder with a result, and leaves another folder -/
def Does (x : Work (StateM Folder) α) (f : Folder) (a : α) (f' : Folder) : Prop :=
  x.run.run f = (.ok a, f')

theorem exists_does_of_toOption (h : (x.run.run f).1.toOption = some a) : ∃ f', x.Does f a f' := by
  cases hrun : x.run.run f with
  | mk r f' =>
    rw [hrun] at h
    cases r with
    | ok c =>
      obtain rfl : c = a := Option.some.inj h
      exact ⟨f', hrun⟩
    | error trouble => cases h

theorem does_bind : (x >>= g).Does f b f' ↔
    ∃ a f₁, x.Does f a f₁ ∧ (g a).Does f₁ b f' := by
  have hrun : (x >>= g).run.run f = match x.run.run f with
      | (.ok a, f₁) => (g a).run.run f₁
      | (.error trouble, f₁) => (.error trouble, f₁) := by
    show (ExceptT.bindCont g (x.run.run f).1).run (x.run.run f).2 = _
    obtain ⟨r, f₁⟩ := x.run.run f
    cases r <;> rfl
  rw [Does, hrun]
  constructor
  · intro h
    cases hx : x.run.run f with
    | mk r f₁ =>
      rw [hx] at h
      cases r with
      | ok a => exact ⟨a, f₁, hx, h⟩
      | error trouble => cases h
  · rintro ⟨a, f₁, hx, hg⟩
    rw [show x.run.run f = (.ok a, f₁) from hx]
    exact hg

theorem does_pure {c : α} : (pure c : Work (StateM Folder) α).Does f a f' ↔ a = c ∧ f' = f := by
  constructor
  · intro h
    obtain ⟨hc, hf⟩ := Prod.mk.inj h
    exact ⟨(Except.ok.inj hc).symm, hf.symm⟩
  · rintro ⟨rfl, rfl⟩
    rfl

theorem does_on {errand : Option Errand} {toFailure : β → Failure} {r : Except β α} :
    (on errand toFailure r : Work (StateM Folder) α).Does f a f' ↔ r = .ok a ∧ f' = f := by
  cases r with
  | ok c =>
    refine does_pure.trans (and_congr_left fun _ => ?_)
    exact ⟨fun h => congrArg Except.ok h.symm, fun h => (Except.ok.inj h).symm⟩
  | error problem => exact iff_of_false nofun nofun

/-- an optional result, with a failure where there is none -/
theorem elim_eq_ok {o : Option α} {problem : β} :
    o.elim (.error problem : Except β α) .ok = .ok a ↔ o = some a := by
  cases o with
  | none => exact iff_of_false nofun nofun
  | some c => exact ⟨fun h => congrArg some (Except.ok.inj h), fun h => by cases h; rfl⟩

theorem does_readBytes {errand : Errand} {path : String} {bytes : List UInt8} :
    (readBytes Folder.disk errand path).Does f bytes f' ↔ f.read path = .ok bytes ∧ f' = f := by
  refine does_bind.trans ⟨?_, fun h => ⟨f.read path, f, rfl, does_on.2 h⟩⟩
  rintro ⟨r, f₁, hr, h⟩
  obtain ⟨hread, rfl⟩ := Prod.mk.inj hr
  obtain rfl := Except.ok.inj hread
  exact does_on.1 h

theorem does_readText {errand : Errand} {path : String} {text : String} :
    (readText Folder.disk errand path).Does f text f' ↔
      (∃ bytes, f.read path = .ok bytes ∧ Utf8.strict? bytes = some text) ∧ f' = f := by
  constructor
  · intro h
    obtain ⟨bytes, f₁, hr, h₁⟩ := does_bind.1 h
    obtain ⟨hread, rfl⟩ := does_readBytes.1 hr
    cases ht : Utf8.strict? bytes with
    | none =>
      rw [ht] at h₁
      cases h₁
    | some t =>
      rw [ht] at h₁
      obtain ⟨rfl, rfl⟩ := does_pure.1 h₁
      exact ⟨⟨bytes, hread, ht⟩, rfl⟩
  · rintro ⟨⟨bytes, hread, ht⟩, rfl⟩
    refine does_bind.2 ⟨bytes, f', does_readBytes.2 ⟨hread, rfl⟩, ?_⟩
    rw [ht]
    exact does_pure.2 ⟨rfl, rfl⟩

end Work

/-- a write that is not refused -/
theorem Folder.does_write {f f' : Folder} {path : String} {bytes : List UInt8} :
    (liftM (Folder.disk.write path bytes) : Work (StateM Folder) _).Does f (.ok ()) f' ↔
      f.write path bytes = .ok f' := by
  show (Except.ok ((Folder.disk.write path bytes).run f).1, ((Folder.disk.write path bytes).run f).2) =
    (Except.ok (Except.ok ()), f') ↔ _
  cases hwrite : f.write path bytes with
  | ok f₁ =>
    have hrun : (Folder.disk.write path bytes).run f = (.ok (), f₁) := by
      simp only [Folder.disk, StateT.run_bind, StateT.run_get, pure_bind, hwrite]
      rfl
    rw [hrun]
    exact ⟨fun h => congrArg Except.ok (Prod.mk.inj h).2, fun h => by cases h; rfl⟩
  | error problem =>
    have hrun : (Folder.disk.write path bytes).run f = (.error problem, f) := by
      simp only [Folder.disk, StateT.run_bind, StateT.run_get, pure_bind, hwrite]
      rfl
    rw [hrun]
    exact iff_of_false (fun h => by cases h) fun h => by cases h

/-! ## Errands -/

variable {f f' : Folder} {config : Config}

/-- the module map of a module list; without one, all modules are there -/
def ModuleMap.ofList (modules : Option String) : Except Failure ModuleMap :=
  modules.elim (.ok .identity) ModuleMap.parse

theorem ModuleMap.does_load {modules : Option String} {m : ModuleMap} :
    (ModuleMap.load modules : Work (StateM Folder) ModuleMap).Does f m f' ↔
      ModuleMap.ofList modules = .ok m ∧ f' = f := by
  cases modules with
  | none =>
    refine Work.does_pure.trans (and_congr_left fun _ => ?_)
    exact ⟨fun h => congrArg Except.ok h.symm, fun h => (Except.ok.inj h).symm⟩
  | some list => exact Work.does_on

theorem Session.does_loadFile {path : String} {modules : Option String} {report : LoadReport}
    {s : Session} :
    (Session.loadFile Folder.disk config path modules).Does f (report, s) f' ↔
      (∃ m bytes, ModuleMap.ofList modules = .ok m ∧ f.read path = .ok bytes ∧
        Session.ofBytes config m bytes = .ok (report, s)) ∧ f' = f := by
  constructor
  · intro h
    obtain ⟨m, f₁, hm, h₁⟩ := Work.does_bind.1 h
    obtain ⟨hmap, rfl⟩ := ModuleMap.does_load.1 hm
    obtain ⟨bytes, f₂, hr, h₂⟩ := Work.does_bind.1 h₁
    obtain ⟨hread, rfl⟩ := Work.does_readBytes.1 hr
    obtain ⟨hload, rfl⟩ := Work.does_on.1 h₂
    exact ⟨⟨m, bytes, hmap, hread, hload⟩, rfl⟩
  · rintro ⟨⟨m, bytes, hm, hread, hload⟩, rfl⟩
    exact Work.does_bind.2 ⟨m, f', ModuleMap.does_load.2 ⟨hm, rfl⟩,
      Work.does_bind.2 ⟨bytes, f', Work.does_readBytes.2 ⟨hread, rfl⟩,
        Work.does_on.2 ⟨hload, rfl⟩⟩⟩

theorem Session.does_saveFile {s : Session} {path : String} {report : SaveReport} :
    (s.saveFile Folder.disk path).Does f report f' ↔
      ∃ bytes, s.toBytes = .ok (report, bytes) ∧ f.write path bytes = .ok f' := by
  constructor
  · intro h
    obtain ⟨⟨report', bytes⟩, f₁, hs, h₁⟩ := Work.does_bind.1 h
    obtain ⟨hsave, rfl⟩ := Work.does_on.1 hs
    obtain ⟨r, f₂, hw, h₂⟩ := Work.does_bind.1 h₁
    obtain ⟨_, f₃, ho, h₃⟩ := Work.does_bind.1 h₂
    obtain ⟨rfl, rfl⟩ := Work.does_on.1 ho
    obtain ⟨rfl, rfl⟩ := Work.does_pure.1 h₃
    exact ⟨bytes, hsave, Folder.does_write.1 hw⟩
  · rintro ⟨bytes, hsave, hwrite⟩
    exact Work.does_bind.2 ⟨(report, bytes), f, Work.does_on.2 ⟨hsave, rfl⟩,
      Work.does_bind.2 ⟨.ok (), f', Folder.does_write.2 hwrite,
        Work.does_bind.2 ⟨(), f', Work.does_on.2 ⟨rfl, rfl⟩, Work.does_pure.2 ⟨rfl, rfl⟩⟩⟩⟩

/-! ## Commands -/

namespace Command

variable {answer : Answer} {input output : String} {modules : Option String}

/-- a command that loads a save and tells something of it -/
theorem does_tell {path : String} {tell : LoadReport × Session → Answer} :
    (Session.loadFile Folder.disk config path modules >>= fun p => pure (tell p)).Does f answer f' ↔
    (∃ m bytes report s, ModuleMap.ofList modules = .ok m ∧ f.read path = .ok bytes ∧
      Session.ofBytes config m bytes = .ok (report, s) ∧ answer = tell (report, s)) ∧ f' = f := by
  constructor
  · intro h
    obtain ⟨⟨report, s⟩, f₁, hl, h₁⟩ := Work.does_bind.1 h
    obtain ⟨⟨m, bytes, hm, hread, hload⟩, rfl⟩ := Session.does_loadFile.1 hl
    obtain ⟨rfl, rfl⟩ := Work.does_pure.1 h₁
    exact ⟨⟨m, bytes, report, s, hm, hread, hload, rfl⟩, rfl⟩
  · rintro ⟨⟨m, bytes, report, s, hm, hread, hload, rfl⟩, rfl⟩
    exact Work.does_bind.2 ⟨(report, s), f',
      Session.does_loadFile.2 ⟨⟨m, bytes, hm, hread, hload⟩, rfl⟩, Work.does_pure.2 ⟨rfl, rfl⟩⟩

theorem does_dump : ((dump input modules).run Folder.disk config).Does f answer f' ↔
    (∃ m bytes report s, ModuleMap.ofList modules = .ok m ∧ f.read input = .ok bytes ∧
      Session.ofBytes config m bytes = .ok (report, s) ∧
      answer = ⟨.contents (.capture s), none⟩) ∧ f' = f :=
  does_tell

theorem does_check : ((check input modules).run Folder.disk config).Does f answer f' ↔
    (∃ m bytes report s, ModuleMap.ofList modules = .ok m ∧ f.read input = .ok bytes ∧
      Session.ofBytes config m bytes = .ok (report, s) ∧
      answer = ⟨.checked report, none⟩) ∧ f' = f :=
  does_tell

theorem does_prune {list : String} :
    ((prune input output list).run Folder.disk config).Does f answer f' ↔
      ∃ m bytes load s save bytes', ModuleMap.parse list = .ok m ∧ f.read input = .ok bytes ∧
        Session.ofBytes config m bytes = .ok (load, s) ∧ s.toBytes = .ok (save, bytes') ∧
        f.write output bytes' = .ok f' ∧
        answer = ⟨.pruned load save, some ("Wrote " ++ output)⟩ := by
  constructor
  · intro h
    obtain ⟨⟨load, s⟩, f₁, hl, h₁⟩ := Work.does_bind.1 h
    obtain ⟨⟨m, bytes, hm, hread, hload⟩, rfl⟩ := Session.does_loadFile.1 hl
    obtain ⟨save, f₂, hs, h₂⟩ := Work.does_bind.1 h₁
    obtain ⟨bytes', hsave, hwrite⟩ := Session.does_saveFile.1 hs
    obtain ⟨rfl, rfl⟩ := Work.does_pure.1 h₂
    exact ⟨m, bytes, load, s, save, bytes', hm, hread, hload, hsave, hwrite, rfl⟩
  · rintro ⟨m, bytes, load, s, save, bytes', hm, hread, hload, hsave, hwrite, rfl⟩
    exact Work.does_bind.2 ⟨(load, s), f,
      Session.does_loadFile.2 ⟨⟨m, bytes, hm, hread, hload⟩, rfl⟩,
      Work.does_bind.2 ⟨save, f', Session.does_saveFile.2 ⟨bytes', hsave, hwrite⟩,
        Work.does_pure.2 ⟨rfl, rfl⟩⟩⟩

theorem does_pack : ((pack input output).run Folder.disk config).Does f answer f' ↔
    ∃ bytes text d s report bytes', f.read input = .ok bytes ∧ Utf8.strict? bytes = some text ∧
      StoreDump.parse? text = some d ∧ d.toSession config = .ok s ∧
      s.toBytes = .ok (report, bytes') ∧ f.write output bytes' = .ok f' ∧
      answer = ⟨.packed report, some ("Wrote " ++ output)⟩ := by
  constructor
  · intro h
    obtain ⟨text, f₁, hr, h₁⟩ := Work.does_bind.1 h
    obtain ⟨⟨bytes, hread, htext⟩, rfl⟩ := Work.does_readText.1 hr
    obtain ⟨d, f₂, hd, h₂⟩ := Work.does_bind.1 h₁
    obtain ⟨hparsed, rfl⟩ := Work.does_on.1 hd
    obtain ⟨s, f₃, hs, h₃⟩ := Work.does_bind.1 h₂
    obtain ⟨hsession, rfl⟩ := Work.does_on.1 hs
    obtain ⟨report, f₄, hs, h₄⟩ := Work.does_bind.1 h₃
    obtain ⟨bytes', hsave, hwrite⟩ := Session.does_saveFile.1 hs
    obtain ⟨rfl, rfl⟩ := Work.does_pure.1 h₄
    exact ⟨bytes, text, d, s, report, bytes', hread, htext, Work.elim_eq_ok.1 hparsed, hsession,
      hsave, hwrite, rfl⟩
  · rintro ⟨bytes, text, d, s, report, bytes', hread, htext, hd, hs, hsave, hwrite, rfl⟩
    exact Work.does_bind.2 ⟨text, f, Work.does_readText.2 ⟨⟨bytes, hread, htext⟩, rfl⟩,
      Work.does_bind.2 ⟨d, f, Work.does_on.2 ⟨Work.elim_eq_ok.2 hd, rfl⟩,
        Work.does_bind.2 ⟨s, f, Work.does_on.2 ⟨hs, rfl⟩,
          Work.does_bind.2 ⟨report, f', Session.does_saveFile.2 ⟨bytes', hsave, hwrite⟩,
            Work.does_pure.2 ⟨rfl, rfl⟩⟩⟩⟩⟩

end Command

end ScriptVars
