import ScriptVars.Plugin
import ScriptVars.Proofs.Fitting
import ScriptVars.Dump.Basic

/-!
# Sessions that can be reached

A session starts empty, and then scripts, plugins and the game do what they like with it.

* `Plugin.Call`, `StringStore.Call`   what plugins do, and what is done to strings;
* `Session.Event`, `Session.step`     one thing that happens to a session;
* `Session.Reachable`                 what can come of it;
* `Session.Reachable.invariant`       tables keep what operations on them keep;
* `Session.Reachable.all`             arrays keep what operations on storages keep;
* `Session.Reachable.allFit`          so they keep their layouts throughout;
* `Session.config_step`               settings never change.
-/

namespace ScriptVars

open ScriptVars.Action

/-! ## Events -/

/-- what a plugin may do to arrays -/
inductive Plugin.Call where
  | createArray (elements : List Element) (owner : UInt8)
  | createMap (pairs : List (Number × Element)) (owner : UInt8)
  | createStringMap (pairs : List (String × Element)) (owner : UInt8)
  | assignResult (slot id : UInt32) (module : UInt8)
  | setElement (id : UInt32) (k : Key) (e : Element)
  | appendElement (id : UInt32) (e : Element)

def Plugin.Call.apply (p : Plugin) (s : ArrayStore) : Plugin.Call → ArrayStore
  | createArray elements owner => (p.createArray elements owner).after s
  | createMap pairs owner => (p.createMap pairs owner).after s
  | createStringMap pairs owner => (p.createStringMap pairs owner).after s
  | assignResult slot id module => ((p.assignResult id module).after (s, slot)).1
  | setElement id k e => (p.setElement id k e).after s
  | appendElement id e => (p.appendElement id e).after s

inductive StringStore.Call where
  | create (data : String) (owner : UInt8)
  | createTemporary (data : String) (owner : UInt8)
  | assign (id : UInt32) (data : String)
  | erase (id : UInt32)
  | markTemporary (id : UInt32) (temporary : Bool)
  | sweep

def StringStore.Call.apply (s : StringStore) : StringStore.Call → StringStore
  | create data owner => (StringStore.create data owner).after s
  | createTemporary data owner => (StringStore.createTemporary data owner).after s
  | assign id data => (StringStore.assign id data).after s
  | erase id => (StringStore.eraseString s id).2
  | markTemporary id temporary => HandleTable.markTemporary s id temporary
  | sweep => (StringStore.sweep s).2

namespace Session

inductive Event where
  | arrays (c : ArrayStore.Call)
  | plugin (p : Plugin) (c : Plugin.Call)
  | strings (c : StringStore.Call)
  | resetArrays
  | resetStrings
  | beginArrays
  | endArrays (success : Bool)
  | beginStrings
  | endStrings (success : Bool)
  /-- a section is read into what is there -/
  | loadArrays (m : ModuleMap) (stream : Stream)
  | loadStrings (m : ModuleMap) (report : LoadReport) (stream : Stream)
  | reset
  | sweep
  | beginLoad
  | endLoad (success : Bool)
  | load (m : ModuleMap) (stream : Stream)
  | apply (d : StoreDump)

/-- the session after an event; what is refused may leave something behind -/
def step (s : Session) : Event → Session
  | .arrays c => { s with arrays := c.apply s.arrays }
  | .plugin p c => { s with arrays := c.apply p s.arrays }
  | .strings c => { s with strings := c.apply s.strings }
  | .resetArrays => { s with arrays := .empty }
  | .resetStrings => { s with strings := .empty }
  | .beginArrays => { s with arrays := s.arrays.beginLoad }
  | .endArrays success => { s with arrays := s.arrays.endLoad success }
  | .beginStrings => { s with strings := s.strings.beginLoad }
  | .endStrings success => { s with strings := s.strings.endLoad success }
  | .loadArrays m stream => { s with arrays := ((ArrayStore.load m).after (s.arrays, stream)).1 }
  | .loadStrings m report stream =>
    { s with strings := ((StringStore.load m report).after (s.strings, stream)).1 }
  | .reset => s.reset
  | .sweep => s.sweep.2
  | .beginLoad => s.beginLoad
  | .endLoad success => s.endLoad success
  | .load m stream => ((load m).after (s, stream)).1
  | .apply d => d.apply.after s

inductive Reachable : Session → Prop where
  | start (config : Config) : Reachable (start config)
  | step {s : Session} (e : Event) : Reachable s → Reachable (s.step e)

end Session

/-! ## Plugins -/

section
variable {σ α : Type} {I : σ → Prop} (p : Plugin) (c : Capability)

theorem Plugin.reads_require : Reads (p.require c : Action σ Unit) := by
  rw [Plugin.require]
  split
  · exact reads_pure ()
  · exact reads_throw _

theorem Plugin.keeps_require_bind {x : Action σ α} (hx : Keeps I x) :
    Keeps I (do p.require c; x) := (p.reads_require c).keeps.bind fun _ ht => hx ht

end

namespace ArrayStore

variable {J : ArrayStore → Prop}

section
variable (hJ : ∀ {s : ArrayStore} (c : Call), c.isBulk = false → c.removes = false → J s →
  J (c.apply s))
include hJ

theorem keeps_call {α : Type} {x : Action ArrayStore α} (c : Call) (hb : c.isBulk = false)
    (hr : c.removes = false) (h : ∀ s, c.apply s = x.after s) : Keeps J x := by
  intro s hs
  rw [← h]
  exact hJ c hb hr hs

theorem keeps_mark (id : UInt32) (temporary : Bool) :
    Keeps J (modify fun s => s.markTemporary id temporary : Action ArrayStore Unit) :=
  keeps_call hJ (.markTemporary id temporary) rfl rfl fun _ => rfl

theorem keeps_setAll (id : UInt32) (pairs : List (Key × Element)) :
    Keeps J (Plugin.setAll id pairs) := by
  induction pairs with
  | nil => exact (reads_pure ()).keeps
  | cons p pairs ih =>
    exact (keeps_call hJ (.setElement id p.1 p.2) rfl rfl fun _ => rfl).bind fun _ ht => ih ht

theorem keeps_createTemporary (keyType : KeyType) (pairs : List (Key × Element)) (owner : UInt8) :
    Keeps J (Plugin.createTemporary keyType pairs owner) := by
  refine (keeps_call hJ (.create keyType false owner) rfl rfl fun _ => rfl).bind
    fun {x _ _} _ ht => ?_
  refine (keeps_mark hJ x true).bind (fun _ ht => ?_) ht
  exact ((keeps_setAll hJ x pairs).bind fun _ ht => (reads_pure x).keeps ht) ht

/-- plugins break nothing that calls keep; their arrays are made like any list -/
theorem keeps_plugin {s : ArrayStore} (h : J s) (p : Plugin) (call : Plugin.Call)
    (hlist : ∀ elements owner, call = .createArray elements owner →
      Keeps J (ArrayStore.createList elements owner)) : J (call.apply p s) := by
  cases call with
  | createArray elements owner =>
    refine p.keeps_require_bind _ ((hlist elements owner rfl).bind fun {x _ _} _ ht => ?_) h
    exact ((keeps_mark hJ x true).bind fun _ ht => (reads_pure x).keeps ht) ht
  | createMap pairs owner => exact p.keeps_require_bind _ (keeps_createTemporary hJ _ _ _) h
  | createStringMap pairs owner => exact p.keeps_require_bind _ (keeps_createTemporary hJ _ _ _) h
  | assignResult slot id module =>
    have hassign : Keeps (fun q : ArrayStore × UInt32 => J q.1) (assignReference id module) :=
      fun q hq => hJ (.assignReference q.2 id module) rfl rfl hq
    exact p.keeps_require_bind _ hassign (s := (s, slot)) h
  | setElement id k e =>
    exact p.keeps_require_bind _ (keeps_call hJ (.setElement id k e) rfl rfl fun _ => rfl) h
  | appendElement id e =>
    exact p.keeps_require_bind _ (keeps_call hJ (.append id e) rfl rfl fun _ => rfl) h

end

section
variable {Q : ArrayKind → Storage → Prop} {s : ArrayStore}
  (c : HandleTable.Invariant (ArrayVar.Meets Q) J)
include c

theorem keeps_markTemporary (id : UInt32) (temporary : Bool) :
    Keeps J (modify fun s => s.markTemporary id temporary : Action ArrayStore Unit) :=
  fun _ hs => c.markTemporary hs id temporary

theorem plugin_invariant (hQ : Storage.Invariant Q) (h : J s) (p : Plugin) (call : Plugin.Call) :
    J (call.apply p s) :=
  keeps_plugin (J := J) (fun call _ _ ht => c.apply hQ ht call) h p call
    fun elements owner _ _ ht => c.apply hQ ht (.createList elements owner)

end

end ArrayStore

/-! ## Loads and dumps -/

namespace Reader

theorem keyType_of_key {type : KeyType} {k : Key} {bytes left : List UInt8}
    (ht : type ≠ .invalid) (h : key type bytes = .ok k left) : k.keyType = type := by
  cases type with
  | invalid => exact absurd rfl ht
  | number =>
    obtain ⟨x, _, -, hp⟩ := bind_eq_ok.1 h
    obtain ⟨rfl, -⟩ := pure_eq_ok.1 hp
    rfl
  | text =>
    obtain ⟨x, _, -, hp⟩ := bind_eq_ok.1 h
    obtain ⟨rfl, -⟩ := pure_eq_ok.1 hp
    rfl

/-- an entry that is read has a key of the right type, and no text in it is too long -/
theorem of_entry {id : UInt32} {kind : ArrayKind} {i : Nat} {p : Key × Element}
    {bytes left : List UInt8} (h : entry id kind i bytes = .ok p left) :
    (∃ rest, key kind.keyType bytes = .ok p.1 rest) ∧ p.1.checkText = .ok () ∧
      p.2.checkText = .ok () := by
  obtain ⟨k, rest, hk, h⟩ := bind_eq_ok.1 h
  dsimp only at h
  split at h
  · obtain ⟨_, _, h, -⟩ := bind_eq_ok.1 h
    exact absurd h throw_eq_ok
  · obtain ⟨e, _, -, h⟩ := bind_eq_ok.1 h
    obtain ⟨_, _, hkey, h⟩ := bind_eq_ok.1 h
    obtain ⟨_, _, he, h⟩ := bind_eq_ok.1 h
    obtain ⟨rfl, -⟩ := pure_eq_ok.1 h
    exact ⟨⟨rest, hk⟩, (demand_eq_ok.1 hkey).1, (demand_eq_ok.1 he).1⟩

/-- what is read several times has every time what it has once -/
theorem forall_mem_of_repeated {α : Type} {P : α → Prop} {r : Nat → Reader α}
    (hr : ∀ {i bytes a left}, r i bytes = .ok a left → P a) {count : Nat} {l : List α}
    {bytes left : List UInt8} (h : repeated r count bytes = .ok l left) : ∀ a ∈ l, P a := by
  have hfrom : ∀ {count i done bytes l left}, (∀ a ∈ done, P a) →
      repeatedFrom r count i done bytes = .ok l left → ∀ a ∈ l, P a := by
    intro count
    induction count with
    | zero =>
      intro i done bytes l left hd h a ha
      obtain ⟨rfl, -⟩ := pure_eq_ok.1 h
      exact hd a (List.mem_reverse.1 ha)
    | succ count ih =>
      intro i done bytes l left hd h
      obtain ⟨a, rest, ha, h⟩ := bind_eq_ok.1 h
      refine ih (fun b hb => ?_) h
      rcases List.mem_cons.1 hb with rfl | hb
      · exact hr ha
      · exact hd b hb
  exact hfrom (List.forall_mem_nil _) h

/-- every entry of an array that is read was read as one -/
theorem entry_of_savedArray {id version : UInt32} {saved : SavedArray}
    {bytes left : List UInt8} (h : savedArray id version bytes = .ok saved left) :
    ∀ p ∈ saved.entries, ∃ i bytes left, entry id saved.kind i bytes = .ok p left := by
  obtain ⟨kind, _, -, h⟩ := bind_eq_ok.1 h
  obtain ⟨refs, _, -, h⟩ := bind_eq_ok.1 h
  obtain ⟨count, _, -, h⟩ := bind_eq_ok.1 h
  obtain ⟨entries, _, he, h⟩ := bind_eq_ok.1 h
  obtain ⟨rfl, -⟩ := pure_eq_ok.1 h
  exact forall_mem_of_repeated (fun h => ⟨_, _, _, h⟩) he

end Reader

theorem ArrayKind.keyType_ne_invalid (kind : ArrayKind) : kind.keyType ≠ .invalid := by
  cases kind <;> nofun

theorem ModuleMap.checkText_resolveElement (m : ModuleMap) (e : Element) :
    (m.resolveElement e).checkText = e.checkText := by
  cases e <;> rfl

/-- an array that is read has what storages of its kind have -/
theorem SavedArray.meets_resolve {Q : ArrayKind → Storage → Prop} (hQ : Storage.Invariant Q)
    {id version : UInt32} {saved : SavedArray} {bytes left : List UInt8}
    (h : Reader.savedArray id version bytes = .ok saved left) (m : ModuleMap) (owner : UInt8) :
    (saved.resolve m owner).Meets Q := by
  refine hQ.read fun p hp => ?_
  obtain ⟨q, hq, rfl⟩ := List.mem_map.1 hp
  obtain ⟨_, _, _, he⟩ := Reader.entry_of_savedArray h q hq
  obtain ⟨⟨_, hk⟩, hkey, helement⟩ := Reader.of_entry he
  exact ⟨Reader.keyType_of_key saved.kind.keyType_ne_invalid hk, hkey,
    (m.checkText_resolveElement _).trans helement⟩

namespace ArrayStore

def LoadMeets (J : ArrayStore → Prop) (p : ArrayStore × Stream) : Prop := J p.1

variable {Q : ArrayKind → Storage → Prop} {J : ArrayStore → Prop}

theorem keeps_onStream {α : Type} (x : Action Stream α) : Keeps (LoadMeets J) (onStream x) := by
  intro p hp
  rw [after_onStream]
  exact hp

/-- a record comes from the bytes of the stream -/
theorem exists_of_read {α β : Type} {r : Reader β} {p q : α × Stream} {b : β}
    (h : onStream (Stream.read r) p = .ok b q) : ∃ left, r p.2.unread = .ok b left := by
  rw [onStream, Stream.read] at h
  by_cases hover : p.2.recordEnd < p.2.position
  · rw [if_pos hover] at h
    cases h
  · rw [if_neg hover] at h
    cases hr : r p.2.unread with
    | ok a left =>
      rw [hr] at h
      cases h
      exact ⟨_, rfl⟩
    | error f left =>
      rw [hr] at h
      cases h

section
variable (c : HandleTable.Invariant (ArrayVar.Meets Q) J) (hQ : Storage.Invariant Q)
include c hQ

omit c hQ in
theorem redirected_mend (s : ArrayStore) (e : Element) :
    e.Redirected (if s.isDangling e then .array 0 else e) := by
  split
  · next h =>
    cases e with
    | array target => exact .inr ⟨target, 0, rfl, rfl⟩
    | _ => cases h
  · exact .inl rfl

theorem loadInvariant (m : ModuleMap) : LoadInvariant m (LoadMeets J) where
  next := keeps_onStream _
  read _ := keeps_onStream _
  bind hread hp hbind := by
    obtain ⟨left, hr⟩ := exists_of_read hread
    exact c.bind hp (SavedArray.meets_resolve hQ hr m _) hbind
  mend {p} hp := by
    refine c.modifyAll hp fun a ha => hQ.redirected ha ?_
    refine (a.storage.mapped_mapValues _).mono fun {e e'} he => ?_
    rw [he]
    exact redirected_mend p.1 e

end

end ArrayStore

namespace ArrayDump

variable {Q : ArrayKind → Storage → Prop} (hQ : Storage.Invariant Q)
include hQ

theorem meets_fill {handle : UInt32} {known : HandleSet} {i : Nat} {a b : ArrayVar}
    {entries : List (Key × Element)} (h : a.Meets Q)
    (hf : fill handle known i a entries = .ok b) : b.Meets Q := by
  induction entries generalizing i a with
  | nil =>
    cases hf
    exact h
  | cons p entries ih =>
    obtain ⟨k, e⟩ := p
    rw [fill] at hf
    have hset : ∃ c old, a.set k e = .ok (c, old) ∧ fill handle known (i + 1) c entries = .ok b := by
      split at hf
      · obtain ⟨_, hf, -⟩ := Failure.bind_eq_ok.1 hf
        cases hf
      · have hrest : (a.set k e >>= fun q => fill handle known (i + 1) q.1 entries) = .ok b := by
          cases e with
          | array target =>
            dsimp only at hf
            split at hf
            · obtain ⟨_, hf, -⟩ := Failure.bind_eq_ok.1 hf
              cases hf
            · exact hf
          | _ => exact hf
        obtain ⟨⟨c, old⟩, hs, hc⟩ := Failure.bind_eq_ok.1 hrest
        exact ⟨c, old, hs, hc⟩
    obtain ⟨c, old, hs, hc⟩ := hset
    exact ih (hQ.set h hs) hc

theorem keeps_install {J : ArrayStore → Prop} (c : HandleTable.Invariant (ArrayVar.Meets Q) J)
    (known : HandleSet) (d : ArrayDump) : Keeps J (d.install known) := by
  refine (keeps_throw_bind _ _).ite ?_
  refine reads_get.keeps.bind fun _ hs => ?_
  refine (keeps_throw_bind _ _).ite ?_ hs
  refine (reads_demand _).keeps.bind fun {a _ s} hd hs => ?_
  have ha : a.Meets Q := meets_fill hQ (hQ.made _ _ _) (demand_eq_ok.1 hd).1
  refine (reads_get.keeps.bind fun {q _ s} hg hs => ?_) hs
  obtain ⟨rfl, rfl⟩ := get_eq_ok.1 hg
  refine ((reads_demand _).keeps.bind fun {t _ _} hd _ => ?_) hs
  have ht : J t := c.bind hs ha (demand_eq_ok.1 hd).1
  show J (after _ t)
  exact ((ArrayStore.keeps_markTemporary c _ _).ite (reads_pure _).keeps) ht

end ArrayDump

/-! ## Sessions -/

namespace Session

theorem keeps_each {σ α : Type} {I : σ → Prop} {x : α → Action σ Unit} {l : List α}
    (hx : ∀ a ∈ l, Keeps I (x a)) : Keeps I (StoreDump.each x l) := by
  induction l with
  | nil => exact (reads_pure ()).keeps
  | cons a l ih =>
    obtain ⟨ha, hl⟩ := List.forall_mem_cons.1 hx
    exact ha.bind fun _ hs => ih hl hs

section
variable {τ β : Type} {J : ArrayStore → Prop}

def ArraysMeet (J : ArrayStore → Prop) (p : Session × τ) : Prop := J p.1.arrays

theorem keeps_onArrays {x : Action (ArrayStore × τ) β} (hx : Keeps (fun p => J p.1) x) :
    Keeps (ArraysMeet J) (onArrays x) := by
  intro p hp
  rw [after_onArrays]
  exact @hx (p.1.arrays, p.2) hp

theorem keeps_onStrings (x : Action (StringStore × τ) β) : Keeps (ArraysMeet J) (onStrings x) := by
  intro p hp
  rw [after_onStrings]
  exact hp

theorem keeps_onFirst {α : Type} {I : α → Prop} {x : Action α β} (hx : Keeps I x) :
    Keeps (fun p : α × τ => I p.1) (onFirst x) := by
  intro p hp
  rw [after_onFirst]
  exact hx hp

theorem keeps_replacing {P : ArrayVar → Prop} (c : HandleTable.Invariant P J)
    {x : Action (Session × τ) β} (hx : Keeps (ArraysMeet J) x) :
    Keeps (ArraysMeet J) (replacing x) := by
  intro p hp
  obtain ⟨success, hafter⟩ := after_replacing p x
  rw [hafter]
  exact c.endLoad (@hx (p.1.beginLoad, p.2) (c.beginLoad hp)) success

end

section
variable {Q : ArrayKind → Storage → Prop} {J : ArrayStore → Prop}
  (c : HandleTable.Invariant (ArrayVar.Meets Q) J) (hQ : Storage.Invariant Q)
include c hQ

theorem keeps_load (m : ModuleMap) : Keeps (ArraysMeet J) (load m) := by
  refine reads_get.keeps.bind fun {q _ _} _ hp => ?_
  have hsections : Keeps (ArraysMeet J) (loadSections (m.keep q.1.config.dynamicModule)) :=
    (keeps_onArrays (ArrayStore.loadInvariant c hQ _).load).bind fun _ hp => keeps_onStrings _ hp
  exact keeps_replacing c hsections hp

theorem keeps_install (d : StoreDump) : Keeps (ArraysMeet J) d.install :=
  (keeps_onArrays (keeps_onFirst (keeps_each fun d _ => d.keeps_install hQ c _))).bind
    fun _ hp => keeps_onStrings _ hp

/-- no event breaks an invariant of tables -/
theorem invariant_step {s : Session} (h : J s.arrays) (e : Event) : J (s.step e).arrays := by
  cases e with
  | arrays call => exact c.apply hQ h call
  | plugin p call => exact ArrayStore.plugin_invariant c hQ h p call
  | strings call => exact h
  | resetArrays => exact c.empty
  | resetStrings => exact h
  | beginArrays => exact c.beginLoad h
  | endArrays success => exact c.endLoad h success
  | beginStrings => exact h
  | endStrings success => exact h
  | loadArrays m stream =>
    exact (ArrayStore.loadInvariant c hQ m).load (s := (s.arrays, stream)) h
  | loadStrings m report stream => exact h
  | reset => exact c.empty
  | sweep => exact c.apply hQ h .sweep
  | beginLoad => exact c.beginLoad h
  | endLoad success => exact c.endLoad h success
  | load m stream => exact @keeps_load _ _ c hQ m (s, stream) h
  | apply d =>
    rw [step, StoreDump.after_apply]
    exact @keeps_replacing _ _ _ _ c _ (keeps_install c hQ d) (s, ()) h

theorem Reachable.invariant {s : Session} (h : s.Reachable) : J s.arrays := by
  induction h with
  | start config => exact c.empty
  | step e _ ih => exact invariant_step c hQ ih e

end

theorem Reachable.all {Q : ArrayKind → Storage → Prop} (hQ : Storage.Invariant Q) {s : Session}
    (h : s.Reachable) : s.arrays.All Q :=
  h.invariant (HandleTable.invariant_every _) hQ

theorem Reachable.allFit {s : Session} (h : s.Reachable) : s.arrays.AllFit :=
  h.all Storage.invariant_fits

/-! ### settings -/

section
variable {τ β : Type} {c : Config}

def SameConfig (c : Config) (p : Session × τ) : Prop := p.1.config = c

theorem sameConfig_onArrays (x : Action (ArrayStore × τ) β) : Keeps (SameConfig c) (onArrays x) := by
  intro p hp
  rw [after_onArrays]
  exact hp

theorem sameConfig_onStrings (x : Action (StringStore × τ) β) :
    Keeps (SameConfig c) (onStrings x) := by
  intro p hp
  rw [after_onStrings]
  exact hp

theorem sameConfig_replacing {x : Action (Session × τ) β} (hx : Keeps (SameConfig c) x) :
    Keeps (SameConfig c) (replacing x) := by
  intro p hp
  obtain ⟨success, hafter⟩ := after_replacing p x
  rw [hafter]
  exact @hx (p.1.beginLoad, p.2) hp

end

/-- no event changes the settings -/
theorem config_step (s : Session) (e : Event) : (s.step e).config = s.config := by
  cases e with
  | load m stream =>
    have hload : Keeps (SameConfig s.config) (load m) := reads_get.keeps.bind fun _ hp =>
      sameConfig_replacing ((sameConfig_onArrays _).bind fun _ hp => sameConfig_onStrings _ hp) hp
    exact @hload (s, stream) rfl
  | apply d =>
    have hinstall : Keeps (SameConfig s.config) d.install :=
      (sameConfig_onArrays _).bind fun _ hp => sameConfig_onStrings _ hp
    rw [step, StoreDump.after_apply]
    exact @sameConfig_replacing _ _ _ _ hinstall (s, ()) rfl
  | _ => rfl

section
variable {s t : Session} {m : ModuleMap} {stream stream' : Stream} {report : LoadReport}

/-- a load that is not refused, as an event -/
theorem step_load (h : load m (s, stream) = .ok report (t, stream')) :
    s.step (.load m stream) = t := by
  rw [step, after, h]

theorem config_of_load (h : load m (s, stream) = .ok report (t, stream')) :
    t.config = s.config := by
  rw [← step_load h, config_step]

theorem Reachable.of_load (hs : s.Reachable)
    (h : load m (s, stream) = .ok report (t, stream')) : t.Reachable :=
  step_load h ▸ .step (.load m stream) hs

end

end Session

end ScriptVars
