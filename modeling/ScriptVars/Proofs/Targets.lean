import ScriptVars.Proofs.Origins

/-!
# Elements that name missing arrays

An array comes to hold ids of other arrays one by one, or many at once, or by copying them from
another array.  Single ids are looked up before they are stored, and ids that are copied were
stored before.  Lists and maps that are made at once store whatever they are given.

* `ArrayStore.closed_apply`, `closed_plugin`   calls that keep stores closed;
* `ArrayStore.closed_createList_iff`, …        what the others have to be given;
* `ArrayStore.Refused`                         calls that refuse an id;
* `ArrayStore.closed_calls`                    all of it in one place;
* `Session.not_closed_createList`              a list that names an array that is not there.
-/

namespace ScriptVars

open ScriptVars.Action

namespace ArrayStore

variable {s t : ArrayStore} {x : UInt32}

/-- it is enough to look through a list of the arrays -/
theorem closed_iff_toList :
    s.Closed ↔ ∀ p ∈ HandleTable.toList s, ∀ e ∈ p.2.values, s.accepts e := by
  constructor
  · intro c p hp
    exact c (HandleTable.mem_toList.1 hp).2
  · intro h i a hf
    exact h (handleOf i, a) (HandleTable.handleOf_mem_toList.2 hf)

instance : Decidable s.Closed := decidable_of_iff _ closed_iff_toList.symm

/-! ### calls that look at what they store -/

/-- only elements, and whether arrays are there, can open a store -/
theorem Closed.of_values (c : s.Closed)
    (h : ∀ i, (t.find? i).map ArrayVar.values = (s.find? i).map ArrayVar.values) : t.Closed := by
  intro i b hb e he
  have hi := h i
  rw [hb, Option.map_some, eq_comm, Option.map_eq_some_iff] at hi
  obtain ⟨a, ha, hvalues⟩ := hi
  have hsome : ∀ j, (t.find? j).isSome = (s.find? j).isSome := fun j => by
    rw [← Option.isSome_map (f := ArrayVar.values), h, Option.isSome_map]
  exact accepts_mono (fun j hj => by rwa [hsome]) (c ha e (hvalues ▸ he))

theorem kept_closed : Kept Closed where
  elements c hf := c hf
  exchange c hf hx hnew := c.exchange hf hx hnew
  place c hp _ ha := c.place hp ha
  mark {s} c id temporary := c.of_values fun i => by rw [s.find?_markTemporary id i temporary]

/-- references say nothing about elements -/
theorem Closed.modify (c : s.Closed) (id : UInt32) {f : ArrayVar → ArrayVar}
    (hf : ∀ a, (f a).values = a.values) : Closed (HandleTable.modify s id f) := by
  refine c.of_values fun i => ?_
  rw [HandleTable.find?_modify]
  split
  · rw [Option.map_map]
    exact congrArg (Option.map · (s.find? i)) (funext hf)
  · rfl

theorem Closed.retain (c : s.Closed) (target : UInt32) (module : UInt8) :
    (s.retain target module).Closed := c.modify target fun _ => rfl

theorem Closed.release (c : s.Closed) (target : UInt32) (module : UInt8) :
    (s.release target module).Closed := c.modify target fun _ => rfl

theorem Closed.reassign (c : s.Closed) (slot target : UInt32) (module : UInt8) :
    (s.reassign slot target module).Closed := by
  have hdropped : (if slot = 0 then s else s.release slot module).Closed := by
    split
    · exact c
    · exact c.release slot module
  rw [ArrayStore.reassign]
  split
  · exact c
  · dsimp only
    split
    · exact hdropped
    · exact hdropped.retain target module

/-- a call that removes nothing and looks at each element that it stores -/
theorem closed_apply (hs : s.Closed) (c : Call) (hb : c.isBulk = false) (hr : c.removes = false) :
    (c.apply s).Closed := by
  cases c with
  | addReference target module =>
    refine (atomic_addReference target module).after_of_ok hs fun h => ?_
    obtain ⟨-, rfl⟩ := addReference_eq_ok h
    exact hs.retain target module
  | removeReference target module =>
    refine (atomic_removeReference target module).after_of_ok hs fun h => ?_
    obtain ⟨-, rfl⟩ := removeReference_eq_ok h
    exact hs.release target module
  | assignReference slot target module =>
    refine (atomic_assignReference target module).after_of_ok (J := fun p => p.1.Closed)
      (s := (s, slot)) hs fun h => ?_
    obtain ⟨-, -, hp⟩ := assignReference_eq_ok h
    exact hp ▸ hs.reassign slot target module
  | createList => cases hb
  | createMap => cases hb
  | eraseArray => cases hr
  | sweep => cases hr
  | _ => exact kept_closed.apply hs trivial rfl

theorem closed_plugin (hs : s.Closed) (p : Plugin) (c : Plugin.Call)
    (hc : ∀ elements owner, c ≠ .createArray elements owner) : (c.apply p s).Closed :=
  keeps_plugin (J := Closed) (fun c hb hr hs => closed_apply hs c hb hr) hs p c
    fun elements owner he => absurd he (hc elements owner)

/-! ### what plugins may do -/

theorem bind_require_eq_error {α : Type} {p : Plugin} {c : Capability} {y : Action ArrayStore α}
    {f : Failure} (hp : p.has c) (h : y s = .error f t) :
    (do p.require c; y) s = .error f t := by
  rw [Plugin.require, if_pos hp]
  exact h

theorem of_bind_require {α : Type} {p : Plugin} {c : Capability} {y : Action ArrayStore α} {a : α}
    (h : (do p.require c; y) s = .ok a t) : p.has c ∧ y s = .ok a t := by
  rw [Plugin.require] at h
  by_cases hp : p.has c
  · rw [if_pos hp] at h
    exact ⟨hp, h⟩
  · rw [if_neg hp] at h
    cases h

/-! ### calls that do not -/

theorem closed_install_iff (hs : s.Closed) {a : ArrayVar} (hi : install a s = .ok x t) :
    t.Closed ↔ ∀ e ∈ a.values, t.accepts e := by
  obtain ⟨u, hp, rfl⟩ := install_eq_ok.1 hi
  exact hs.place_iff (HandleTable.places_of_place hp)

theorem closed_createList_iff (hs : s.Closed) {elements : List Element} {owner : UInt8}
    (hc : createList elements owner s = .ok x t) :
    t.Closed ↔ ∀ e ∈ elements, t.accepts e :=
  closed_install_iff hs (createList_eq_ok hc)

/-- of two pairs with one key only the last one is stored -/
theorem closed_createMap_iff (hs : s.Closed) {pairs : List (Key × Element)} {owner : UInt8}
    (hc : createMap pairs owner s = .ok x t) :
    t.Closed ↔ ∀ a, ArrayVar.ofPairs pairs owner = .ok a → ∀ e ∈ a.values, t.accepts e := by
  obtain ⟨a, ha, hi⟩ := createMap_eq_ok hc
  rw [closed_install_iff hs hi, ha]
  simp only [Except.ok.injEq, forall_eq']

theorem closed_createArray_iff (hs : s.Closed) {p : Plugin} {elements : List Element}
    {owner : UInt8} (hc : p.createArray elements owner s = .ok x t) :
    t.Closed ↔ ∀ e ∈ elements, t.accepts e := by
  obtain ⟨y, u, hl, h⟩ := bind_eq_ok.1 (of_bind_require hc).2
  obtain ⟨_, _, hm, h⟩ := bind_eq_ok.1 h
  obtain rfl := modify_eq_ok.1 hm
  obtain ⟨rfl, rfl⟩ := pure_eq_ok.1 h
  have hfind : ∀ i, (HandleTable.markTemporary u x true).find? i = u.find? i := fun i =>
    u.find?_markTemporary x i true
  have haccepts : ∀ e, accepts (HandleTable.markTemporary u x true) e ↔ u.accepts e := fun e =>
    ⟨accepts_mono fun i hi => by rwa [← hfind], accepts_mono fun i hi => by rwa [hfind]⟩
  simp only [haccepts]
  rw [← closed_createList_iff hs hl]
  exact ⟨fun c => c.of_values fun i => by rw [hfind], fun c => kept_closed.mark c x true⟩

/-! ### ids that are refused -/

theorem requireTarget_missing {target : UInt32} (hz : target ≠ 0) (hn : s.find? target = none) :
    requireTarget (.array target) s = .error (.notFound target) s := by
  have hc : (decide (target ≠ 0) && !s.contains target) = true := by
    rw [HandleTable.contains_eq, hn, decide_eq_true hz]
    rfl
  show (if (decide (target ≠ 0) && !s.contains target) = true then throw (.notFound target)
    else pure () : Action ArrayStore Unit) s = _
  rw [if_pos hc]
  rfl

theorem setAll_missing {id target : UInt32} {pairs : List (Key × Element)} {u : Unit}
    (h : Plugin.setAll id pairs s = .ok u t) (hz : target ≠ 0) (hn : t.find? target = none)
    (k : Key) (rest : List (Key × Element)) :
    Plugin.setAll id (pairs ++ (k, .array target) :: rest) s = .error (.notFound target) t := by
  induction pairs generalizing s with
  | nil =>
    obtain ⟨-, rfl⟩ := pure_eq_ok.1 h
    exact bind_eq_error.2 (.inl (bind_eq_error.2 (.inl (requireTarget_missing hz hn))))
  | cons p pairs ih =>
    obtain ⟨u', s', hp, h⟩ := bind_eq_ok.1 h
    exact bind_eq_error.2 (.inr ⟨u', s', hp, ih h⟩)

theorem createTemporary_missing {target : UInt32} {keyType : KeyType}
    {pairs : List (Key × Element)} {owner : UInt8}
    (h : Plugin.createTemporary keyType pairs owner s = .ok x t) (hz : target ≠ 0)
    (hn : t.find? target = none) (k : Key) (rest : List (Key × Element)) :
    Plugin.createTemporary keyType (pairs ++ (k, .array target) :: rest) owner s =
      .error (.notFound target) t := by
  obtain ⟨y, s₁, hc, h⟩ := bind_eq_ok.1 h
  obtain ⟨u, s₂, hm, h⟩ := bind_eq_ok.1 h
  obtain ⟨u', t', hp, h⟩ := bind_eq_ok.1 h
  obtain ⟨-, rfl⟩ := pure_eq_ok.1 h
  refine bind_eq_error.2 (.inr ⟨y, s₁, hc, ?_⟩)
  refine bind_eq_error.2 (.inr ⟨u, s₂, hm, ?_⟩)
  exact bind_eq_error.2 (.inl (setAll_missing hp hz hn k rest))

/-- every call that is given one element, or one after the other, refuses an id -/
structure Refused (s : ArrayStore) (target : UInt32) : Prop where
  setElement (id : UInt32) (k : Key) :
    setElement id k (.array target) s = .error (.notFound target) s
  setArray (id : UInt32) (k : Key) : setArray id k target s = .error (.notFound target) s
  append (id : UInt32) : append id (.array target) s = .error (.notFound target) s
  insert (id : UInt32) (i : Nat) : insert id i (.array target) s = .error (.notFound target) s
  resize (id : UInt32) (n : Nat) : resize id n (.array target) s = .error (.notFound target) s
  pluginSet (p : Plugin) (hp : p.has .setElement) (id : UInt32) (k : Key) :
    p.setElement id k (.array target) s = .error (.notFound target) s
  pluginAppend (p : Plugin) (hp : p.has .appendElement) (id : UInt32) :
    p.appendElement id (.array target) s = .error (.notFound target) s
  /-- the pairs before stay behind -/
  pluginMap (p : Plugin) {pairs : List (Number × Element)} {owner : UInt8} {x : UInt32}
    {t : ArrayStore} (h : p.createMap pairs owner s = .ok x t) (ht : t.find? target = none)
    (number : Number) (rest : List (Number × Element)) :
    p.createMap (pairs ++ (number, .array target) :: rest) owner s = .error (.notFound target) t
  pluginStringMap (p : Plugin) {pairs : List (String × Element)} {owner : UInt8} {x : UInt32}
    {t : ArrayStore} (h : p.createStringMap pairs owner s = .ok x t) (ht : t.find? target = none)
    (text : String) (rest : List (String × Element)) :
    p.createStringMap (pairs ++ (text, .array target) :: rest) owner s =
      .error (.notFound target) t

theorem refused_of_missing {target : UInt32} (hz : target ≠ 0) (hn : s.find? target = none) :
    s.Refused target := by
  have hrequire : ∀ {α : Type} (g : Unit → Action ArrayStore α),
      (requireTarget (.array target) >>= g) s = .error (.notFound target) s := fun g =>
    bind_eq_error.2 (.inl (requireTarget_missing hz hn))
  refine
    { setElement := fun _ _ => hrequire _
      setArray := fun _ _ => hrequire _
      append := fun _ => hrequire _
      insert := fun _ _ => hrequire _
      resize := fun _ _ => hrequire _
      pluginSet := fun p hp _ _ => bind_require_eq_error hp (hrequire _)
      pluginAppend := fun p hp _ => bind_require_eq_error hp (hrequire _)
      pluginMap := fun p pairs owner x t h ht number rest => ?_
      pluginStringMap := fun p pairs owner x t h ht text rest => ?_ }
  · obtain ⟨hp, h⟩ := of_bind_require h
    refine bind_require_eq_error hp ?_
    rw [List.map_append]
    exact createTemporary_missing h hz ht _ _
  · obtain ⟨hp, h⟩ := of_bind_require h
    refine bind_require_eq_error hp ?_
    rw [List.map_append]
    exact createTemporary_missing h hz ht _ _

/-- no call opens a closed store, except for lists and maps that are made at once of ids that name
nothing; the calls that look at what they store refuse such an id -/
theorem closed_calls (hs : s.Closed) :
    (∀ c : Call, c.isBulk = false → c.removes = false → (c.apply s).Closed) ∧
      (∀ (p : Plugin) (c : Plugin.Call), (∀ elements owner, c ≠ .createArray elements owner) →
        (c.apply p s).Closed) ∧
      (∀ elements owner x t, createList elements owner s = .ok x t →
        (t.Closed ↔ ∀ e ∈ elements, t.accepts e)) ∧
      (∀ pairs owner x t, createMap pairs owner s = .ok x t →
        (t.Closed ↔ ∀ a, ArrayVar.ofPairs pairs owner = .ok a → ∀ e ∈ a.values, t.accepts e)) ∧
      (∀ (p : Plugin) elements owner x t, p.createArray elements owner s = .ok x t →
        (t.Closed ↔ ∀ e ∈ elements, t.accepts e)) ∧
      ∀ target, target ≠ 0 → s.find? target = none → s.Refused target :=
  ⟨closed_apply hs, closed_plugin hs, fun _ _ _ _ => closed_createList_iff hs,
    fun _ _ _ _ => closed_createMap_iff hs, fun _ _ _ _ _ => closed_createArray_iff hs,
    fun _ => refused_of_missing⟩

/-- an array inside another one, and then its id and one that names nothing are put into a list -/
theorem closed_calls_nested :
    let s := [Call.createList [] 1, .createList [.array 1, .array 0] 2].foldl Call.apply .empty
    s.Closed ∧ ((Call.copy 2 3 true).apply s).Closed ∧
      append 2 (.array 7) s = .error (.notFound 7) s :=
  have hs : ([Call.createList [] 1, .createList [.array 1, .array 0] 2].foldl Call.apply
      .empty).Closed := by decide +kernel
  ⟨hs, (closed_calls hs).1 (.copy 2 3 true) rfl rfl,
    ((closed_calls hs).2.2.2.2.2 7 (by decide) (by decide +kernel)).append 2⟩

end ArrayStore

/-- a list that is made at once stores an id that names nothing -/
theorem Session.not_closed_createList :
    ¬ ∀ (config : Config) (events : List Event) (elements : List Element) (owner : UInt8)
      (x : UInt32) (t : ArrayStore), (run config events).arrays.Closed →
      ArrayStore.createList elements owner (run config events).arrays = .ok x t → t.Closed := by
  intro h
  have hmissing : ∃ x t, ArrayStore.createList [.array 7] 1 (run .standard []).arrays = .ok x t ∧
      ¬ t.Closed := ⟨_, _, rfl, by decide +kernel⟩
  obtain ⟨x, t, hc, ht⟩ := hmissing
  exact ht (h .standard [] [.array 7] 1 x t (by decide +kernel) hc)

end ScriptVars
