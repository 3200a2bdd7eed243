import ScriptVars.Proofs.Lockstep

/-!
# All or nothing

A save or a dump either takes the place of everything a session holds, whatever that was, or
leaves all of it as it was.  One comparison of two runs shows both: while a section is read the
tables keep what they have set aside, and nothing else of what a session held is looked at.

* `InStep`                       two tables and two streams, while a section is read;
* `ArrayStore.agree_load`, `StringStore.agree_load`   the sections of a save;
* `StoreDump.agree_install`      the parts of a dump.
-/

namespace ScriptVars

open ScriptVars.Action

/-! ## Sections -/

section
variable {α β γ : Type} {A B : Option (Slots α)} {k e : Nat} {l : List UInt8} {p q : HandleTable α × Stream}

/-- the same variables, and the same bytes ahead -/
structure InStep (A B : Option (Slots α)) (k : Nat) (l : List UInt8) (e : Nat)
    (p q : HandleTable α × Stream) : Prop where
  tables : HandleTable.Twins A B p.1 q.1
  streams : Stream.Follows k l e p.2 q.2

/-- what stays of a section that was refused -/
def SameAside (A B : Option (Slots α)) (p q : HandleTable α × γ) : Prop :=
  HandleTable.Aside A B p.1 q.1

theorem InStep.sameAside (h : InStep A B k l e p q) : SameAside A B p q := h.tables.aside

theorem agree_onStream {x y : Action Stream β} {R : β → Stream → Stream → Prop}
    (ht : HandleTable.Twins A B p.1 q.1) (h : Agree R (fun _ _ => True) (x p.2) (y q.2)) :
    Agree (fun b p' q' => HandleTable.Twins A B p'.1 q'.1 ∧ R b p'.2 q'.2) (SameAside A B)
      (onStream x p) (onStream y q) := by
  rw [onStream, onStream]
  generalize x p.2 = r at h ⊢
  generalize y q.2 = r' at h ⊢
  cases h with
  | ok h => exact .ok ⟨ht, h⟩
  | error => exact .error ht.aside

theorem InStep.agree_read {r : Reader β} (hr : r.Shrinks) (h : InStep A B k l e p q) :
    Agree (fun _ => InStep A B k l e) (SameAside A B) (onStream (Stream.read r) p)
      (onStream (Stream.read r) q) :=
  (agree_onStream h.tables (h.streams.agree_read hr)).mono fun h => ⟨h.1, h.2⟩

theorem InStep.agree_next (h : InStep A B k l e p q) (sort : VariableSort) :
    Agree (fun _ p' q' => ∃ e', e < e' ∧ InStep A B k l e' p' q') (SameAside A B)
      (nextInSection sort p) (nextInSection sort q) := by
  have hs := h.streams
  refine agree_bind (agree_onStream h.tables
    (Stream.agree_next hs.bytes hs.bytes' hs.recordEnd hs.recordEnd')) ?_
  intro header p' q' ⟨ht, hm⟩
  refine agree_require (fun a ha => ?_) ht.aside
  obtain ⟨e', hlt, hf⟩ := hm (Option.isSome_of_eq_some ha)
  exact ⟨e', hlt, ht, hf⟩

/-- a record's variable goes into the table, unless there is one with its id -/
theorem InStep.agree_insert (h : InStep A B k l e p q) (id : UInt32) (value : α) (f : Failure)
    (b : β) :
    let insert : Action (HandleTable α × Stream) β := do
      let (s, stream) ← get
      if s.contains id then throw f
      let s ← demand (s.bind id value)
      set (s, stream)
      return b
    Agree (fun _ => InStep A B k l e) (SameAside A B) (insert p) (insert q) := by
  obtain ⟨t, s⟩ := p
  obtain ⟨u, s'⟩ := q
  refine agree_get ?_
  dsimp only
  rw [h.tables.contains]
  by_cases hc : u.contains id = true
  · rw [if_pos hc, if_pos hc]
    exact .error h.sameAside
  · rw [if_neg hc, if_neg hc]
    rcases h.tables.bind id value with ⟨g, ht, hu⟩ | ⟨t', u', ht, hu, htw⟩
    · rw [ht, hu]
      exact .error h.sameAside
    · rw [ht, hu]
      exact .ok ⟨htw, h.streams⟩

end

/-! ## Record bodies -/

namespace Reader

theorem shrinks_payload (type : ElementType) : Shrinks (payload type) := by
  cases type with
  | invalid => exact shrinks_pure _
  | number => exact shrinks_number.bind fun _ => shrinks_pure _
  | form => exact shrinks_word.bind fun _ => shrinks_pure _
  | string => exact shrinks_text.bind fun _ => shrinks_pure _
  | array => exact shrinks_word.bind fun _ => shrinks_pure _

theorem shrinks_require {α : Type} (f : Failure) (o : Option α) :
    Shrinks (Action.require f o : Reader α) := shrinks_of_reads (reads_require f o)

theorem shrinks_demand {α : Type} (c : Except Failure α) :
    Shrinks (Action.demand c : Reader α) := shrinks_of_reads (reads_demand c)

theorem shrinks_throw {α : Type} (f : Failure) : Shrinks (throw f : Reader α) :=
  shrinks_of_reads (reads_throw f)

theorem shrinks_element : Shrinks element :=
  shrinks_byte.bind fun _ => (shrinks_require _ _).bind fun _ => shrinks_payload _

theorem shrinks_key (type : KeyType) : Shrinks (key type) := by
  cases type with
  | number => exact shrinks_number.bind fun _ => shrinks_pure _
  | text => exact shrinks_text.bind fun _ => shrinks_pure _
  | invalid => exact shrinks_text.bind fun _ => shrinks_pure _

theorem shrinks_entry (id : UInt32) (kind : ArrayKind) (i : Nat) : Shrinks (entry id kind i) := by
  have hrest : ∀ k, Shrinks (do
      let e ← element
      Action.demand k.checkText
      Action.demand e.checkText
      return (k, e) : Reader (Key × Element)) := fun k =>
    shrinks_element.bind fun _ => (shrinks_demand _).bind fun _ => (shrinks_demand _).bind fun _ =>
      shrinks_pure _
  refine (shrinks_key _).bind fun k => ?_
  dsimp only
  split
  · exact (shrinks_throw _).bind fun _ => hrest k
  · exact hrest k

theorem shrinks_kind (id : UInt32) : Shrinks (kind id) :=
  shrinks_byte.bind fun _ => (shrinks_require _ _).bind fun _ => shrinks_byte.bind fun _ =>
    shrinks_require _ _

theorem shrinks_refs (version : UInt32) : Shrinks (refs version) := by
  rw [refs]
  split
  · exact (shrinks_nat 4).bind fun _ => shrinks_repeated (fun _ => shrinks_byte) _
  · exact shrinks_pure _

theorem shrinks_savedArray (id version : UInt32) : Shrinks (savedArray id version) :=
  (shrinks_kind id).bind fun kind => (shrinks_refs version).bind fun _ =>
    (shrinks_nat 4).bind fun _ => (shrinks_repeated (shrinks_entry id kind) _).bind fun _ =>
      shrinks_pure _

theorem shrinks_savedString : Shrinks savedString := by
  refine shrinks_byte.bind fun owner => shrinks_word.bind fun id => shrinks_text.bind fun data => ?_
  dsimp only
  split
  · exact (shrinks_throw _).bind fun _ => shrinks_pure _
  · exact shrinks_pure _

end Reader

/-! ## Arrays and strings of a save -/

namespace ArrayStore

variable {A B : Option (Slots ArrayVar)} {k e : Nat} {l : List UInt8} {p q : ArrayStore × Stream}

theorem agree_loadRecord (m : ModuleMap) (version : UInt32) (report : LoadReport)
    (h : InStep A B k l e p q) :
    Agree (fun _ => InStep A B k l e) (SameAside A B) (loadRecord m version report p)
      (loadRecord m version report q) := by
  refine agree_bind (h.agree_read Reader.shrinks_byte) fun {owner p q} h => ?_
  refine agree_bind (h.agree_read Reader.shrinks_word) fun {id p q} h => ?_
  refine agree_ite (fun _ => .error h.sameAside) fun _ => ?_
  cases m.resolve owner with
  | none => exact .ok h
  | some owner =>
    refine agree_bind (h.agree_read (Reader.shrinks_savedArray _ _)) fun {saved p q} h => ?_
    exact h.agree_insert _ _ _ _

/-- the fuel is never used up: `e` grows with every record and stays inside of the stream -/
theorem agree_loadRecords (m : ModuleMap) {fuel fuel' : Nat} {report : LoadReport}
    (h : InStep A B k l e p q) (hf : l.length < fuel + e) (hf' : l.length < fuel' + e) :
    Agree (fun _ p' q' => ∃ e', InStep A B k l e' p' q') (SameAside A B)
      (loadRecords m fuel report p) (loadRecords m fuel' report q) := by
  have hw := h.streams.within
  induction fuel generalizing fuel' report e p q with
  | zero => omega
  | succ fuel ih =>
    cases fuel' with
    | zero => omega
    | succ fuel' =>
      refine agree_bind (h.agree_next .array) fun {header p q} ⟨e', hlt, h⟩ => ?_
      refine agree_ite (fun _ => .ok ⟨e', h⟩) fun _ => agree_ite (fun _ => ?_) fun _ =>
        agree_throw h.sameAside
      refine agree_bind (agree_demand h h.sameAside) fun h => ?_
      refine agree_bind (agree_loadRecord m _ _ h) fun h => ?_
      exact ih h (by omega) (by omega) h.streams.within

theorem twins_nullDangling {t u : ArrayStore} (h : HandleTable.Twins A B t u) :
    t.nullDangling.1 = u.nullDangling.1 ∧
      HandleTable.Twins A B t.nullDangling.2 u.nullDangling.2 := by
  have hd : t.isDangling = u.isDangling := by
    funext e
    cases e with
    | array target => exact congrArg (fun b => _ && !b) (h.hasHandle target)
    | _ => rfl
  rw [nullDangling, nullDangling, hd, h.toList]
  exact ⟨rfl, h.modifyAll _⟩

theorem agree_load (m : ModuleMap) (ht : HandleTable.Twins A B p.1 q.1)
    (hb : p.2.bytes.toList.drop k = l) (hb' : q.2.bytes.toList = l)
    (hp : p.2.recordEnd = k + e) (hq : q.2.recordEnd = e) :
    Agree (fun _ p' q' => ∃ e', InStep A B k l e' p' q') (SameAside A B) (load m p) (load m q) := by
  refine agree_bind (agree_onStream ht (Stream.agree_next hb hb' hp hq)) fun {o p q} h => ?_
  have hheader : Agree (fun _ p' q' => ∃ e', InStep A B k l e' p' q') (SameAside A B)
      (require (.format .missingArraySection) o p) (require (.format .missingArraySection) o q) := by
    refine agree_require (fun header ho => ?_) h.1.aside
    obtain ⟨e', -, hf⟩ := h.2 (Option.isSome_of_eq_some ho)
    exact ⟨e', h.1, hf⟩
  refine agree_bind hheader fun {header p q} ⟨e', h⟩ => ?_
  refine agree_ite (fun _ => agree_throw h.sameAside) fun _ => ?_
  refine agree_bind (agree_demand h h.sameAside) fun {_ p q} h => ?_
  refine agree_get ?_
  have hs := h.streams.size
  have hs' : q.2.bytes.size = l.length := by rw [← h.streams.bytes', Array.length_toList]
  refine agree_bind (agree_loadRecords m h (by omega) (by omega)) fun {report p q} ⟨e', h⟩ => ?_
  refine agree_get ?_
  obtain ⟨hn, htw⟩ := twins_nullDangling h.tables
  show Agree _ _ (.ok { report with nulledArrays := (nullDangling p.1).1 } _)
    (.ok { report with nulledArrays := (nullDangling q.1).1 } _)
  rw [hn]
  exact .ok ⟨e', htw, h.streams⟩

end ArrayStore

namespace StringStore

variable {A B : Option (Slots StringVar)} {k e : Nat} {l : List UInt8} {p q : StringStore × Stream}

theorem agree_loadRecord (m : ModuleMap) (report : LoadReport) (h : InStep A B k l e p q) :
    Agree (fun _ => InStep A B k l e) (SameAside A B) (loadRecord m report p)
      (loadRecord m report q) := by
  refine agree_bind (h.agree_read Reader.shrinks_savedString) fun {saved p q} h => ?_
  cases m.resolve saved.owner with
  | none => exact .ok h
  | some owner => exact h.agree_insert _ _ _ _

theorem agree_loadRecords (m : ModuleMap) {fuel fuel' : Nat} {report : LoadReport}
    (h : InStep A B k l e p q) (hf : l.length < fuel + e) (hf' : l.length < fuel' + e) :
    Agree (fun _ p' q' => HandleTable.Twins A B p'.1 q'.1) (SameAside A B)
      (loadRecords m fuel report p) (loadRecords m fuel' report q) := by
  have hw := h.streams.within
  induction fuel generalizing fuel' report e p q with
  | zero => omega
  | succ fuel ih =>
    cases fuel' with
    | zero => omega
    | succ fuel' =>
      refine agree_bind (h.agree_next .string) fun {header p q} ⟨e', hlt, h⟩ => ?_
      refine agree_ite (fun _ => .ok h.tables) fun _ => agree_ite (fun _ => ?_) fun _ =>
        agree_throw h.sameAside
      refine agree_bind (agree_loadRecord m _ h) fun h => ?_
      exact ih h (by omega) (by omega) h.streams.within

/-- where the section is missing both streams go back to the same record -/
theorem agree_load (m : ModuleMap) (report : LoadReport) (h : InStep A B k l e p q) :
    Agree (fun _ p' q' => HandleTable.Twins A B p'.1 q'.1) (SameAside A B)
      (load m report p) (load m report q) := by
  have hs := h.streams
  have hsize := hs.size
  have hsize' : q.2.bytes.size = l.length := by rw [← hs.bytes', Array.length_toList]
  refine agree_get ?_
  refine agree_bind (agree_onStream h.tables
    (Stream.agree_next hs.bytes hs.bytes' hs.recordEnd hs.recordEnd')) fun {o p' q'} h' => ?_
  cases o with
  | none => exact .ok h'.1
  | some header =>
    obtain ⟨e', hlt, hf⟩ := h'.2 rfl
    have hin : InStep A B k l e' p' q' := ⟨h'.1, hf⟩
    refine agree_ite (fun _ => ?_) fun _ => ?_
    · exact agree_loadRecords m hin (by omega) (by omega)
    · rw [hs.recordEnd, hs.recordEnd']
      exact agree_bind (agree_onStream hin.tables (hin.streams.agree_seek e)) fun h => .ok h.1

end StringStore

/-! ## Sessions -/

namespace Session

/-- no operation tells the variables of two sessions apart, nor the handles they give next -/
structure Same (s t : Session) : Prop where
  config : s.config = t.config
  arrays : s.arrays.Same t.arrays
  strings : s.strings.Same t.strings

/-- still has the configuration of `s₀`, and set aside what `s₀` has -/
structure Keeps (s₀ s : Session) : Prop where
  config : s.config = s₀.config
  arrays : s.arrays.aside = s₀.arrays.aside
  strings : s.strings.aside = s₀.strings.aside

section
variable {s₀ t₀ : Session} {β τ : Type} {p q : Session × τ}

/-- two sessions that hold the same variables, while they keep what `s₀` and `t₀` do -/
structure Level (s₀ t₀ : Session) (p q : Session × τ) : Prop where
  config : p.1.config = s₀.config
  config' : q.1.config = t₀.config
  arrays : HandleTable.Twins s₀.arrays.aside t₀.arrays.aside p.1.arrays q.1.arrays
  strings : HandleTable.Twins s₀.strings.aside t₀.strings.aside p.1.strings q.1.strings

def Kept (s₀ t₀ : Session) (p q : Session × τ) : Prop := s₀.Keeps p.1 ∧ t₀.Keeps q.1

theorem agree_onArrays {x y : Action (ArrayStore × τ) β} {Q : τ → τ → Prop}
    (h : Level s₀ t₀ p q)
    (hx : Agree (fun _ a b => HandleTable.Twins s₀.arrays.aside t₀.arrays.aside a.1 b.1 ∧ Q a.2 b.2)
      (SameAside s₀.arrays.aside t₀.arrays.aside) (x (p.1.arrays, p.2)) (y (q.1.arrays, q.2))) :
    Agree (fun _ p' q' => Level s₀ t₀ p' q' ∧ Q p'.2 q'.2) (Kept s₀ t₀) (onArrays x p)
      (onArrays y q) := by
  rw [onArrays, onArrays]
  generalize x (p.1.arrays, p.2) = r at hx ⊢
  generalize y (q.1.arrays, q.2) = r' at hx ⊢
  cases hx with
  | ok hx => exact .ok ⟨⟨h.config, h.config', hx.1, h.strings⟩, hx.2⟩
  | error he =>
    exact .error ⟨⟨h.config, he.1, h.strings.aside.1⟩, ⟨h.config', he.2, h.strings.aside.2⟩⟩

theorem agree_onStrings {x y : Action (StringStore × τ) β} (h : Level s₀ t₀ p q)
    (hx : Agree (fun _ a b => HandleTable.Twins s₀.strings.aside t₀.strings.aside a.1 b.1)
      (SameAside s₀.strings.aside t₀.strings.aside) (x (p.1.strings, p.2)) (y (q.1.strings, q.2))) :
    Agree (fun _ => Level s₀ t₀) (Kept s₀ t₀) (onStrings x p) (onStrings y q) := by
  rw [onStrings, onStrings]
  generalize x (p.1.strings, p.2) = r at hx ⊢
  generalize y (q.1.strings, q.2) = r' at hx ⊢
  cases hx with
  | ok hx => exact .ok ⟨h.config, h.config', h.arrays, hx⟩
  | error he =>
    exact .error ⟨⟨h.config, h.arrays.aside.1, he.1⟩, ⟨h.config', h.arrays.aside.2, he.2⟩⟩

theorem agree_loadSections {k e : Nat} {l : List UInt8} {p q : Session × Stream} (m : ModuleMap)
    (h : Level s₀ t₀ p q) (hb : p.2.bytes.toList.drop k = l) (hb' : q.2.bytes.toList = l)
    (hp : p.2.recordEnd = k + e) (hq : q.2.recordEnd = e) :
    Agree (fun _ => Level s₀ t₀) (Kept s₀ t₀) (loadSections m p) (loadSections m q) := by
  have harrays := ArrayStore.agree_load (p := (p.1.arrays, p.2)) (q := (q.1.arrays, q.2)) m h.arrays
    hb hb' hp hq
  refine agree_bind (agree_onArrays (Q := fun a b => ∃ e, Stream.Follows k l e a b) h
    (harrays.mono fun ⟨e, hin⟩ => ⟨hin.tables, e, hin.streams⟩)) ?_
  intro report p q ⟨h, e, hf⟩
  exact agree_onStrings h (StringStore.agree_load m report ⟨h.strings, hf⟩)

/-- what is read is kept, whatever was held before; what is refused is forgotten -/
theorem agree_replacing {s t : Session} {o o' : τ} {x : Action (Session × τ) β}
    (hs : s.arrays.isLoading = false) (hs' : s.strings.isLoading = false)
    (hx : Agree (fun _ => Level s.beginLoad t.beginLoad) (Kept s.beginLoad t.beginLoad)
      (x (s.beginLoad, o)) (x (t.beginLoad, o'))) :
    Agree (fun _ p q => p.1.config = s.config ∧ q.1.config = t.config ∧
      p.1.arrays.Same q.1.arrays ∧ p.1.strings.Same q.1.strings) (fun p _ => p.1.Same s)
      (replacing x (s, o)) (replacing x (t, o')) := by
  have hnone : s.arrays.aside = none ∧ s.strings.aside = none :=
    ⟨Option.isNone_iff_eq_none.1 (by rw [← Option.not_isSome, ← HandleTable.isLoading, hs]; rfl),
      Option.isNone_iff_eq_none.1 (by rw [← Option.not_isSome, ← HandleTable.isLoading, hs']; rfl)⟩
  rw [replacing, replacing]
  generalize x (s.beginLoad, o) = r at hx ⊢
  generalize x (t.beginLoad, o') = r' at hx ⊢
  cases hx with
  | ok h => exact .ok ⟨h.config, h.config', h.arrays.endLoad, h.strings.endLoad⟩
  | error h =>
    refine .error ⟨h.1.config, ?_, ?_⟩
    · exact HandleTable.same_endLoad_false hnone.1 h.1.arrays
    · exact HandleTable.same_endLoad_false hnone.2 h.1.strings

theorem level_beginLoad (s t : Session) (o o' : τ) :
    Level s.beginLoad t.beginLoad (s.beginLoad, o) (t.beginLoad, o') :=
  ⟨rfl, rfl, ⟨rfl, rfl, rfl⟩, ⟨rfl, rfl, rfl⟩⟩

end

end Session

/-! ## Dumps -/

section
variable {A B : Option (Slots ArrayVar)} {A' B' : Option (Slots StringVar)}

theorem StoreDump.agree_each {σ τ α : Type} {R E : σ → τ → Prop} {x : α → Action σ Unit}
    {y : α → Action τ Unit}
    (hx : ∀ a {s t}, R s t → Agree (fun _ => R) E (x a s) (y a t)) (l : List α) {s : σ} {t : τ}
    (h : R s t) : Agree (fun _ => R) E (StoreDump.each x l s) (StoreDump.each y l t) := by
  induction l generalizing s t with
  | nil => exact .ok h
  | cons a l ih => exact agree_bind (hx a h) fun h => ih h

theorem ArrayDump.agree_install (known : HandleSet) (d : ArrayDump) {t u : ArrayStore}
    (h : HandleTable.Twins A B t u) :
    Agree (fun _ => HandleTable.Twins A B) (HandleTable.Aside A B) (d.install known t)
      (d.install known u) := by
  refine agree_ite (fun _ => .error h.aside) fun _ => ?_
  refine agree_get ?_
  rw [h.contains]
  refine agree_ite (fun _ => .error h.aside) fun _ => ?_
  refine agree_bind (agree_demand h h.aside) fun {a t u} h => ?_
  refine agree_get ?_
  rcases h.bind (handleOf d.id) a with ⟨f, ht, hu⟩ | ⟨t', u', ht, hu, h'⟩
  · rw [ht, hu]
    exact .error h.aside
  · rw [ht, hu]
    exact agree_ite (fun _ => .ok (h'.markTemporary _ _)) fun _ => .ok h'

theorem StringDump.agree_install (d : StringDump) {t u : StringStore}
    (h : HandleTable.Twins A' B' t u) :
    Agree (fun _ => HandleTable.Twins A' B') (HandleTable.Aside A' B') (d.install t)
      (d.install u) := by
  refine agree_ite (fun _ => .error h.aside) fun _ => ?_
  refine agree_get ?_
  rw [h.contains]
  refine agree_ite (fun _ => .error h.aside) fun _ => agree_get ?_
  rcases h.bind (handleOf d.id) ⟨d.data, d.owner⟩ with ⟨f, ht, hu⟩ | ⟨t', u', ht, hu, h'⟩
  · rw [ht, hu]
    exact .error h.aside
  · rw [ht, hu]
    exact .ok h'

end

theorem agree_onFirst {α β τ : Type} {A B : Option (Slots α)} {x y : Action (HandleTable α) β}
    {p q : HandleTable α × τ} (h : Agree (fun _ => HandleTable.Twins A B) (HandleTable.Aside A B)
      (x p.1) (y q.1)) :
    Agree (fun _ p' q' => HandleTable.Twins A B p'.1 q'.1) (SameAside A B) (onFirst x p)
      (onFirst y q) := by
  rw [onFirst, onFirst]
  generalize x p.1 = r at h ⊢
  generalize y q.1 = r' at h ⊢
  cases h with
  | ok h => exact .ok h
  | error h => exact .error h

theorem StoreDump.agree_install {s₀ t₀ : Session} (d : StoreDump) {p q : Session × Unit}
    (h : Session.Level s₀ t₀ p q) :
    Agree (fun _ => Session.Level s₀ t₀) (Session.Kept s₀ t₀) (d.install p) (d.install q) := by
  have harrays := agree_onFirst (p := (p.1.arrays, p.2)) (q := (q.1.arrays, q.2))
    (agree_each (ArrayDump.agree_install (.ofList (d.arrays.map fun a => handleOf a.id) compareHandles))
      d.arrays h.arrays)
  refine agree_bind (Session.agree_onArrays (Q := fun _ _ => True) h
    (harrays.mono fun h => ⟨h, trivial⟩)) ?_
  intro u p q ⟨h, _⟩
  exact Session.agree_onStrings h
    (agree_onFirst (agree_each StringDump.agree_install d.strings h.strings))

/-! ## All or nothing -/

/-- the bytes from the place on where the next record is read -/
def Stream.ahead (s : Stream) : List UInt8 := s.bytes.toList.drop s.recordEnd

namespace Session

/-- a load gives what the save gives to a session without variables, or changes nothing -/
theorem agree_load {s : Session} (hs : s.arrays.isLoading = false)
    (hs' : s.strings.isLoading = false) (m : ModuleMap) (stream : Stream) :
    Agree (fun _ p q => p.1.config = s.config ∧ q.1.config = s.config ∧
      p.1.arrays.Same q.1.arrays ∧ p.1.strings.Same q.1.strings) (fun p _ => p.1.Same s)
      (load m (s, stream)) (load m (start s.config, Stream.ofBytes stream.ahead)) :=
  agree_replacing (t := start s.config) hs hs'
    (agree_loadSections (m.keep s.config.dynamicModule) (level_beginLoad _ _ _ _) rfl rfl rfl rfl)

theorem agree_apply {s : Session} (hs : s.arrays.isLoading = false)
    (hs' : s.strings.isLoading = false) (d : StoreDump) (c : Config) :
    Agree (fun _ p q => p.1.config = s.config ∧ q.1.config = c ∧
      p.1.arrays.Same q.1.arrays ∧ p.1.strings.Same q.1.strings) (fun p _ => p.1.Same s)
      (replacing d.install (s, ())) (replacing d.install (start c, ())) :=
  agree_replacing (t := start c) hs hs' (StoreDump.agree_install d (level_beginLoad _ _ _ _))

/-- replacing what a session holds, by a save or by a dump, leaves a session that is made of the
save or of the dump alone, or it leaves what the session held -/
theorem all_or_nothing {s : Session} (hs : s.arrays.isLoading = false)
    (hs' : s.strings.isLoading = false) :
    (∀ m stream,
      match load m (s, stream) with
      | .error _ (s', _) => s'.Same s
      | .ok report (s', _) =>
        ∃ t, ofBytes s.config m stream.ahead = .ok (report, t) ∧ s'.Same t) ∧
    ∀ d : StoreDump,
      match d.apply s with
      | .error _ s' => s'.Same s
      | .ok _ s' => s'.config = s.config ∧ ∀ c, ∃ t, d.toSession c = .ok t ∧
          s'.arrays.Same t.arrays ∧ s'.strings.Same t.strings := by
  constructor
  · intro m stream
    have h := agree_load hs hs' m stream
    rw [ofBytes]
    generalize load m (s, stream) = r at h ⊢
    generalize load m (start s.config, Stream.ofBytes stream.ahead) = r' at h ⊢
    cases h with
    | error h => exact h
    | ok h =>
      obtain ⟨hc, hc', harrays, hstrings⟩ := h
      exact ⟨_, rfl, hc.trans hc'.symm, harrays, hstrings⟩
  · intro d
    have happly : ∀ c, _ := agree_apply hs hs' d
    rw [StoreDump.apply]
    generalize replacing d.install (s, ()) = r at happly ⊢
    cases r with
    | error f p =>
      have h := happly s.config
      generalize replacing d.install (start s.config, ()) = r' at h
      cases h with
      | error h => exact h
    | ok u p =>
      have hok : ∀ c, p.1.config = s.config ∧ ∃ t, d.toSession c = .ok t ∧
          p.1.arrays.Same t.arrays ∧ p.1.strings.Same t.strings := by
        intro c
        have h := happly c
        rw [StoreDump.toSession, StoreDump.apply]
        generalize replacing d.install (start c, ()) = r' at h ⊢
        cases h with
        | ok h => exact ⟨h.1, _, rfl, h.2.2⟩
      exact ⟨(hok s.config).1, fun c => (hok c).2⟩

def oneString : Session :=
  { start .standard with strings := (StringStore.create "kept" 3).after .empty }

/-- an array section without an end, behind some bytes that are not read -/
def unended : Stream :=
  { (Stream.ofBytes (0 :: (Record.encode ⟨SaveFormat.arrayStart, 2, []⟩))) with recordEnd := 1 }

theorem all_or_nothing_unended :
    oneString.strings.text? 1 = some "kept" ∧
      ∃ f s' stream, load .identity (oneString, unended) = .error f (s', stream) ∧
        s'.Same oneString := by
  refine ⟨by decide +kernel, ?_⟩
  have h := (all_or_nothing (s := oneString) rfl rfl).1 .identity unended
  have hrefused : (match load .identity (oneString, unended) with
      | .error _ _ => true
      | .ok _ _ => false) = true := by decide +kernel
  cases hl : load .identity (oneString, unended) with
  | error f p =>
    rw [hl] at h
    exact ⟨f, p.1, p.2, rfl, h⟩
  | ok report p =>
    rw [hl] at hrefused
    cases hrefused

end Session
end ScriptVars
