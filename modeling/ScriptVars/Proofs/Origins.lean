import ScriptVars.Proofs.Refusals

/-!
# Where strings come from

The text of a string was given by a script, and checked then, or it was read from a save, or it
stood in a dump.

* `Stream.Spells`                  texts that may be read from the bytes of a stream;
* `Session.Event.Brings`           texts that an event takes from outside without a check;
* `StringStore.Meets`              something is known of the text of every string;
* `Session.meets_step`             what an event does to it;
* `Session.run`, `meets_run`       one event after another.
-/

namespace ScriptVars

open ScriptVars.Action

def Stream.Spells (s : Stream) (text : String) : Prop :=
  ∃ raw, raw <:+: s.bytes.toList ∧ raw.length ≤ maxTextBytes ∧ text = Utf8.repair raw

/-- a text that an event may make the text of a string without checking it -/
def Session.Event.Brings : Session.Event → String → Prop
  | .loadStrings _ _ stream, text | .load _ stream, text => stream.Spells text
  | .apply d, text => ∃ v ∈ d.strings, v.data = text
  | _, _ => False

theorem Reader.data_of_savedString {saved : SavedString} {bytes left : List UInt8}
    (h : savedString bytes = .ok saved left) :
    ∃ raw, raw <:+: bytes ∧ raw.length ≤ maxTextBytes ∧ saved.data = Utf8.repair raw := by
  obtain ⟨owner, rest, howner, h₁⟩ := bind_eq_ok.1 h
  obtain ⟨id, rest', hid, h₂⟩ := bind_eq_ok.1 h₁
  obtain ⟨data, _, hdata, h₃⟩ := bind_eq_ok.1 h₂
  obtain ⟨raw, hin, hsize, rfl⟩ := of_text hdata
  have hrest : rest' <:+ bytes := ((careful_word rest).ok hid).trans ((careful_byte bytes).ok howner)
  refine ⟨raw, hin.trans hrest.isInfix, hsize, ?_⟩
  dsimp only at h₃
  split at h₃
  · obtain ⟨_, _, h₄, -⟩ := bind_eq_ok.1 h₃
    exact absurd h₄ throw_eq_ok
  · obtain ⟨rfl, -⟩ := pure_eq_ok.1 h₃
    rfl

/-! ## Strings -/

namespace StringStore

variable {P : String → Prop}

def Meets (P : String → Prop) (s : StringStore) : Prop := HandleTable.Every (fun v => P v.data) s

theorem keeps_place (data : String) (owner : UInt8) (h : P data) :
    Keeps (Meets P) (HandleTable.place ⟨data, owner⟩) := by
  intro s hs
  rcases (HandleTable.atomic_place (⟨data, owner⟩ : StringVar)).after_cases s with he | ⟨x, hx⟩
  · rwa [he]
  · exact HandleTable.Every.place hs h hx

theorem keeps_create (hP : ∀ text, checkText text = .ok () → P text) (data : String)
    (owner : UInt8) : Keeps (Meets P) (create data owner) :=
  (reads_demand _).keeps.bind fun hd ht => by
    obtain ⟨hd, -⟩ := demand_eq_ok.1 hd
    exact keeps_place data owner (hP data hd) ht

/-- a call on strings brings only texts that are checked -/
theorem meets_apply (hP : ∀ text, checkText text = .ok () → P text) {s : StringStore}
    (h : s.Meets P) (c : Call) : (c.apply s).Meets P := by
  cases c with
  | create data owner => exact keeps_create hP data owner h
  | createTemporary data owner =>
    have hmark : ∀ x, Keeps (Meets P) (do
        modify fun s => s.markTemporary x true
        return x : Action StringStore UInt32) := fun x _ hs =>
      HandleTable.Every.markTemporary hs x true
    exact (keeps_create hP data owner).bind (fun {x _ _} _ ht => hmark x ht) h
  | assign id data =>
    refine (reads_demand _).keeps.bind (fun hd ht => ?_) h
    obtain ⟨hd, -⟩ := demand_eq_ok.1 hd
    refine reads_get.keeps.bind (fun {t _ _} _ ht => ?_) ht
    refine (keeps_throw_bind _ _).ite ?_ ht
    intro u hu
    exact HandleTable.Every.modify hu id fun _ _ => hP data hd
  | erase id => exact HandleTable.Every.erase h id
  | markTemporary id temporary => exact HandleTable.Every.markTemporary h id temporary
  | sweep => exact HandleTable.Every.foldl h (fun i ht => HandleTable.Every.erase ht i) _

/-! ## Sections of strings -/

/-- something is known of strings, and of what is beside them -/
structure MeetsBeside {τ : Type} (P : String → Prop) (J : τ → Prop) (p : StringStore × τ) :
    Prop where
  meets : p.1.Meets P
  beside : J p.2

variable {bytes : Array UInt8}

theorem keeps_onStream {α : Type} {x : Action Stream α} (hx : Guarded id x) :
    Keeps (MeetsBeside P (·.bytes = bytes)) (onStream x) := by
  intro p hp
  refine ⟨?_, (hx.onStream.bytes_after p).trans hp.beside⟩
  rw [after_onStream]
  exact hp.meets

/-- texts that are read are texts of the stream -/
theorem loadInvariant
    (hP : ∀ raw, raw <:+: bytes.toList → raw.length ≤ maxTextBytes → P (Utf8.repair raw))
    (m : ModuleMap) : LoadInvariant m (MeetsBeside P (·.bytes = bytes)) where
  next := keeps_onStream Stream.guarded_next
  read := keeps_onStream (Stream.guarded_read Reader.careful_savedString)
  seek _ := keeps_onStream (Stream.guarded_seek _)
  bind {saved _ p _ _} hread hq hbind := by
    obtain ⟨hs, -⟩ := onStream_eq_ok hread
    have hbytes : p.2.bytes = bytes :=
      ((Stream.guarded_read Reader.careful_savedString).ok hs).symm.trans hq.beside
    obtain ⟨left, hsaved⟩ := ArrayStore.exists_of_read hread
    obtain ⟨raw, hin, hsize, hdata⟩ := Reader.data_of_savedString hsaved
    have hin' : raw <:+: bytes.toList := hbytes ▸ hin.trans p.2.isInfix_unread
    have htext : P saved.data := hdata ▸ hP raw hin' hsize
    exact ⟨HandleTable.Every.bind hq.meets htext hbind, hq.beside⟩

end StringStore

theorem StringDump.keeps_install {P : String → Prop} (d : StringDump) (h : P d.data) :
    Keeps (StringStore.Meets P) d.install := by
  refine (keeps_throw_bind _ _).ite ?_
  refine reads_get.keeps.bind fun _ hs => ?_
  refine (keeps_throw_bind _ _).ite ?_ hs
  refine (reads_get.keeps.bind fun {q _ s} hg hs => ?_)
  obtain ⟨rfl, rfl⟩ := get_eq_ok.1 hg
  refine (reads_demand _).keeps.bind (fun {t _ _} hd _ => ?_) hs
  exact HandleTable.Every.bind hs h (demand_eq_ok.1 hd).1

/-! ## Sessions -/

namespace Session

variable {P : String → Prop}

section
variable {τ β : Type} {J : τ → Prop}

structure StringsMeet (P : String → Prop) (J : τ → Prop) (p : Session × τ) : Prop where
  meets : p.1.strings.Meets P
  beside : J p.2

theorem stringsMeet_onArrays {x : Action (ArrayStore × τ) β}
    (hx : ∀ p, J p.2 → J (x.after p).2) : Action.Keeps (StringsMeet P J) (onArrays x) := by
  intro p hp
  rw [after_onArrays]
  exact ⟨hp.meets, hx (p.1.arrays, p.2) hp.beside⟩

theorem stringsMeet_onStrings {x : Action (StringStore × τ) β}
    (hx : Action.Keeps (StringStore.MeetsBeside P J) x) :
    Action.Keeps (StringsMeet P J) (onStrings x) := by
  intro p hp
  have h := @hx (p.1.strings, p.2) ⟨hp.meets, hp.beside⟩
  rw [after_onStrings]
  exact ⟨h.meets, h.beside⟩

theorem stringsMeet_replacing {x : Action (Session × τ) β} (hx : Action.Keeps (StringsMeet P J) x) :
    Action.Keeps (StringsMeet P J) (replacing x) := by
  intro p hp
  have h := @hx (p.1.beginLoad, p.2) ⟨HandleTable.Every.beginLoad hp.meets, hp.beside⟩
  obtain ⟨success, hafter⟩ := after_replacing p x
  rw [hafter]
  exact ⟨HandleTable.Every.endLoad h.meets success, h.beside⟩

end

theorem stringsMeet_load {bytes : Array UInt8}
    (hP : ∀ raw, raw <:+: bytes.toList → raw.length ≤ maxTextBytes → P (Utf8.repair raw))
    (m : ModuleMap) :
    Action.Keeps (StringsMeet P fun stream : Stream => stream.bytes = bytes) (load m) := by
  refine reads_get.keeps.bind fun {q _ _} _ hp => stringsMeet_replacing ?_ hp
  have harrays : Action.Keeps (StringsMeet P fun stream : Stream => stream.bytes = bytes)
      (onArrays (ArrayStore.load (m.keep q.1.config.dynamicModule))) :=
    stringsMeet_onArrays fun p hp => ((ArrayStore.guarded_load _).bytes_after p).trans hp
  exact harrays.bind fun _ hp => stringsMeet_onStrings ((StringStore.loadInvariant hP _).load _) hp

theorem stringsMeet_apply {d : StoreDump} (hP : ∀ v ∈ d.strings, P v.data) {s : Session}
    (h : s.strings.Meets P) : (d.apply.after s).strings.Meets P := by
  have hstrings : Action.Keeps (StringStore.MeetsBeside P fun _ : Unit => True)
      (onFirst (StoreDump.each StringDump.install d.strings)) := fun p hp =>
    ⟨keeps_onFirst (keeps_each fun v hv => v.keeps_install (hP v hv)) hp.meets, trivial⟩
  have hinstall : Action.Keeps (StringsMeet P fun _ : Unit => True) d.install :=
    (stringsMeet_onArrays fun _ _ => trivial).bind fun _ hp => stringsMeet_onStrings hstrings hp
  rw [StoreDump.after_apply]
  exact (@stringsMeet_replacing _ _ _ _ _ hinstall (s, ()) ⟨h, trivial⟩).meets

/-- an event brings only texts that are checked, or texts from outside -/
theorem meets_step (hP : ∀ text, checkText text = .ok () → P text) {s : Session}
    (h : s.strings.Meets P) {e : Event} (he : ∀ text, e.Brings text → P text) :
    (s.step e).strings.Meets P := by
  cases e with
  | strings c => exact StringStore.meets_apply hP h c
  | resetStrings => exact HandleTable.every_empty
  | beginStrings => exact HandleTable.Every.beginLoad h
  | endStrings success => exact HandleTable.Every.endLoad h success
  | loadStrings m report stream =>
    have hload : StringStore.LoadInvariant m (StringStore.MeetsBeside P (·.bytes = stream.bytes)) :=
      StringStore.loadInvariant (fun raw hin hsize => he _ ⟨raw, hin, hsize, rfl⟩) m
    exact (hload.load report (s := (s.strings, stream)) ⟨h, rfl⟩).meets
  | reset => exact HandleTable.every_empty
  | sweep => exact StringStore.meets_apply hP h .sweep
  | beginLoad => exact HandleTable.Every.beginLoad h
  | endLoad success => exact HandleTable.Every.endLoad h success
  | load m stream =>
    have hload : Action.Keeps (StringsMeet P (·.bytes = stream.bytes)) (load m) :=
      stringsMeet_load (fun raw hin hsize => he _ ⟨raw, hin, hsize, rfl⟩) m
    exact (hload (s := (s, stream)) ⟨h, rfl⟩).meets
  | apply d => exact stringsMeet_apply (fun v hv => he _ ⟨v, hv, rfl⟩) h
  | arrays c => exact h
  | plugin p c => exact h
  | resetArrays => exact h
  | beginArrays => exact h
  | endArrays success => exact h
  | loadArrays m stream => exact h

/-- a session after some events, in their order -/
def run (config : Config) (events : List Event) : Session := events.foldl step (start config)

/-- every text of a string was checked, or some event has brought it -/
theorem meets_run (config : Config) (events : List Event) :
    (run config events).strings.Meets fun text =>
      checkText text = .ok () ∨ ∃ e ∈ events, e.Brings text := by
  refine List.foldlRecOn events step (motive := fun s => s.strings.Meets fun text =>
    checkText text = .ok () ∨ ∃ e ∈ events, e.Brings text) ?_ fun s hs e he => ?_
  · exact HandleTable.every_empty
  · exact meets_step (fun _ => .inl) hs fun text ht => .inr ⟨e, he, ht⟩

end Session

end ScriptVars
