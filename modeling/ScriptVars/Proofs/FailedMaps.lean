import ScriptVars.Proofs.DroppedCopies
import ScriptVars.Proofs.SingleChanges

/-!
# Maps that were given up half way

A plugin makes a map by putting one pair after the other into it.  When a pair is refused, the map
stays, temporary and without references, and what it holds has references by it.  It is due at once,
and when it goes it gives up just those references.  So sweeps leave what they would have left
without it, but for the order of references.

* `ArrayVar.Lent`                  an array with some more references of one module;
* `ArrayStore.Halfway`             a store with a map that nothing names;
* `Halfway.setElement`, `setAll`   putting pairs into the map;
* `Halfway.removal`, `isDue_iff`   the map goes first, and the others as without it;
* `Session.failed_map_vanishes`    what sweeps leave.
-/

namespace ScriptVars

open ScriptVars.Action

namespace ArrayVar

/-- an array with `n` references of a module more -/
structure Lent (n : Nat) (module : UInt8) (a b : ArrayVar) : Prop where
  kind : b.kind = a.kind
  owner : b.owner = a.owner
  storage : b.storage = a.storage
  refs : ∀ m, b.refs.count m = a.refs.count m + if m = module then n else 0

/-- the same array, but for the order of its references -/
structure Reordered (a b : ArrayVar) : Prop where
  kind : b.kind = a.kind
  owner : b.owner = a.owner
  storage : b.storage = a.storage
  refs : b.refs.Perm a.refs

variable {a b : ArrayVar} {n : Nat} {module : UInt8}

theorem lent_zero (a : ArrayVar) (module : UInt8) : Lent 0 module a a :=
  ⟨rfl, rfl, rfl, fun m => by rw [ite_self, Nat.add_zero]⟩

theorem Reordered.refl (a : ArrayVar) : Reordered a a := ⟨rfl, rfl, rfl, .refl _⟩

theorem Reordered.refs_eq_nil (h : Reordered a b) : b.refs = [] ↔ a.refs = [] := by
  rw [← List.length_eq_zero_iff, ← List.length_eq_zero_iff, h.refs.length_eq]

/-- references that come and references that go, and how many there are then -/
theorem Lent.exchange (h : Lent n module a b) {new gone k : Nat} (hk : new + n = gone + k) :
    Lent k module a ((b.addRefs new module).removeRefs gone module) where
  kind := h.kind
  owner := h.owner
  storage := h.storage
  refs m := by
    rw [count_removeRefs, count_addRefs, h.refs m]
    by_cases hm : m = module
    · rw [if_pos hm, if_pos hm, if_pos hm, if_pos hm]
      omega
    · rw [if_neg hm, if_neg hm, if_neg hm, if_neg hm]

/-- the references that were lent are taken back with others -/
theorem Lent.diff (h : Lent n module a b) (l : List UInt8) :
    (b.refs.diff (l ++ List.replicate n module)).Perm (a.refs.diff l) := by
  refine List.perm_iff_count.2 fun m => ?_
  rw [List.count_diff, List.count_diff, List.count_append, List.count_replicate, h.refs m]
  by_cases hm : m = module
  · rw [if_pos hm, if_pos (beq_iff_eq.2 hm.symm)]
    omega
  · rw [if_neg hm, if_neg fun e => hm (beq_iff_eq.1 e).symm]
    rfl

end ArrayVar

namespace ArrayStore

variable {s t u : ArrayStore} {h : UInt32} {b : ArrayVar} {gone : List UInt32}

/-! ## A map that is being filled -/

/-- A store with one array more, which is temporary and has no references.  It does not hold itself,
and what it holds has one reference more for each of the elements that name it. -/
structure Halfway (s : ArrayStore) (h : UInt32) (b : ArrayVar) (t : ArrayStore) : Prop where
  isHandle : handleOf h = h
  absent : s.find? h = none
  found : t.find? h = some b
  refs : b.refs = []
  apart : h ∉ named b.values
  others : ∀ i, handleOf i ≠ h →
    Option.Rel (ArrayVar.Lent ((named b.values).count (handleOf i)) b.owner) (s.find? i) (t.find? i)
  temporary : ∀ i, t.isTemporary i = if handleOf i = h then true else s.isTemporary i

/-- a map before the first pair -/
theorem halfway_start {keyType : KeyType} {packed : Bool} {owner : UInt8}
    (hc : create keyType packed owner s = .ok h t) :
    ∃ b, Halfway s h b (HandleTable.markTemporary t h true) := by
  obtain ⟨kind, hp⟩ := create_eq_ok hc
  have hplaced := HandleTable.places_of_place hp
  have hself : handleOf h = h := handleOf_eq_self hplaced.free.1.2
  have hempty : named (ArrayVar.empty kind owner []).values = [] := by
    rw [ArrayVar.values_empty]
    rfl
  refine ⟨ArrayVar.empty kind owner [], ?_⟩
  constructor
  · exact hself
  · exact HandleTable.find?_eq_none_of_isFree hplaced.free
  · rw [HandleTable.find?_markTemporary, hplaced.find?, if_pos hself.symm]
  · rfl
  · rw [hempty]
    exact List.not_mem_nil
  · intro i hi
    rw [HandleTable.find?_markTemporary, hplaced.find?, if_neg (Ne.symm hi), hempty]
    cases s.find? i with
    | none => exact .none
    | some a => exact .some (a.lent_zero _)
  · intro i
    rw [HandleTable.isTemporary_markTemporary, hself, hplaced.find?]
    by_cases hi : h = handleOf i
    · rw [if_pos hi, if_pos hi.symm, if_pos ⟨hi, rfl⟩]
    · rw [if_neg fun hm => hi hm.1, if_neg (Ne.symm hi)]
      exact HandleTable.isTemporary_congr hplaced.temporaries_eq i

/-- a pair that does not name the map itself -/
theorem Halfway.setElement (hw : Halfway s h b t) {k : Key} {e : Element}
    (he : ∀ target, e = .array target → handleOf target ≠ h) {r : Unit}
    (hset : ArrayStore.setElement h k e t = .ok r u) : ∃ b', Halfway s h b' u := by
  obtain ⟨-, a, storage, old, hf, -, hwrite, rfl⟩ := setElement_eq_ok hset
  obtain rfl : a = b := Option.some.inj (hf.symm.trans hw.found)
  have hcount := count_named_of_exchanges (Storage.exchanges_write hwrite)
  have hnew : (named [e]).count h = 0 := by
    rw [List.count_eq_zero, mem_named]
    rintro ⟨id, hid, hself⟩
    exact he id (List.mem_singleton.1 hid).symm hself
  have hold : (named a.values).count h = 0 := List.count_eq_zero.2 hw.apart
  -- what is put in does not name the map, and what is taken out was in it
  have hh := hcount h
  have hboth : (named old.toList).count h = 0 ∧ (named storage.values).count h = 0 := by
    change _ + (named a.values).count h = _ at hh
    omega
  refine ⟨{ a with storage }, ?_⟩
  constructor
  · exact hw.isHandle
  · exact hw.absent
  · rw [find?_exchange hf, if_pos rfl, hw.isHandle, hnew, hboth.1]
    simp only [Option.map_some, ArrayVar.addRefs_zero, ArrayVar.removeRefs_zero]
  · exact hw.refs
  · exact List.count_eq_zero.1 hboth.2
  · intro i hi
    have hrel := hw.others i hi
    rw [find?_exchange hf, hw.isHandle, if_neg (Ne.symm hi)]
    generalize s.find? i = o, t.find? i = o' at hrel
    cases hrel with
    | none => exact .none
    | some hlent => exact .some (hlent.exchange (hcount (handleOf i)))
  · intro i
    rw [(becomes_exchange hf storage [e] old.toList).temporary i]
    exact hw.temporary i

/-- a failed call leaves the map with the pairs before the one that was refused -/
theorem Halfway.setAll (hw : Halfway s h b t) {pairs : List (Key × Element)}
    (hpairs : ∀ p ∈ pairs, ∀ target, p.2 = .array target → handleOf target ≠ h) {f : Failure}
    (hset : Plugin.setAll h pairs t = .error f u) : ∃ b', Halfway s h b' u := by
  induction pairs generalizing b t with
  | nil => cases hset
  | cons p pairs ih =>
    obtain ⟨hp, hrest⟩ := List.forall_mem_cons.1 hpairs
    rcases bind_eq_error.1 hset with hset | ⟨_, t', hset, hset'⟩
    · rw [atomic_setElement _ _ _ hset]
      exact ⟨b, hw⟩
    · obtain ⟨b', hw'⟩ := hw.setElement hp hset
      exact ih hw' hrest hset'

/-! ## What goes with it -/

theorem Halfway.ne_of_found (hw : Halfway s h b t) {d : UInt32} {a : ArrayVar}
    (hd : s.find? d = some a) : handleOf d ≠ h := by
  intro hself
  rw [s.find?_congr (hself.trans hw.isHandle.symm), hw.absent] at hd
  cases hd

theorem Halfway.apart_of_removal (hw : Halfway s h b t) (hr : s.Removal gone) :
    ∀ d ∈ gone, handleOf d ≠ h := by
  intro d hd
  obtain ⟨-, a, ha⟩ := hr.found d hd
  exact hw.ne_of_found ha

/-- other arrays give up what they give up without the map -/
theorem Halfway.givenUp_eq (hw : Halfway s h b t) {d : UInt32} (hd : handleOf d ≠ h) (i : UInt32) :
    t.givenUp i d = s.givenUp i d := by
  have hrel := hw.others d hd
  unfold givenUp
  generalize s.find? d = o, t.find? d = o' at hrel
  cases hrel with
  | none => rfl
  | some hlent =>
    show List.replicate ((named (Storage.values _)).count i) _ = List.replicate _ _
    rw [hlent.storage, hlent.owner]
    rfl

/-- when the map goes first, what other arrays keep is what they keep without it -/
theorem Halfway.reordered (hw : Halfway s h b t) (hgone : ∀ d ∈ gone, handleOf d ≠ h) {i : UInt32}
    (hi : handleOf i ≠ h) :
    Option.Rel ArrayVar.Reordered ((s.find? i).map (s.without gone (handleOf i)))
      ((t.find? i).map (t.without (gone ++ [h]) (handleOf i))) := by
  have hrel := hw.others i hi
  have hgiven : (gone ++ [h]).flatMap (t.givenUp (handleOf i)) =
      gone.flatMap (s.givenUp (handleOf i)) ++
        List.replicate ((named b.values).count (handleOf i)) b.owner := by
    rw [List.flatMap_append, List.flatMap_singleton, givenUp, hw.found]
    exact congrArg (· ++ _) (List.flatMap_congr fun d hd => hw.givenUp_eq (hgone d hd) _)
  generalize s.find? i = o, t.find? i = o' at hrel
  cases hrel with
  | none => exact .none
  | some hlent =>
    refine .some ⟨hlent.kind, hlent.owner, hlent.storage, ?_⟩
    show (List.diff _ ((gone ++ [h]).flatMap _)).Perm _
    rw [hgiven]
    exact hlent.diff _

theorem Halfway.isTemporary_eq (hw : Halfway s h b t) {i : UInt32} (hi : handleOf i ≠ h) :
    t.isTemporary i = s.isTemporary i := by
  rw [hw.temporary, if_neg hi]

/-- the map is due from the start -/
theorem Halfway.isDue_self (hw : Halfway s h b t) : t.IsDue [] h where
  isHandle := hw.isHandle
  remains := List.not_mem_nil
  temporary := by rw [hw.temporary, if_pos hw.isHandle]
  unreferenced a ha := by
    obtain rfl := Option.some.inj (ha.symm.trans hw.found)
    show List.diff a.refs _ = []
    rw [hw.refs, List.nil_diff]

/-- another array is due behind the map as it is due without it -/
theorem Halfway.isDue_iff (hw : Halfway s h b t) (hgone : ∀ d ∈ gone, handleOf d ≠ h) {d : UInt32}
    (hd : handleOf d ≠ h) : t.IsDue (gone ++ [h]) d ↔ s.IsDue gone d := by
  have hrel := hw.reordered hgone hd
  have hremains : handleOf d = d → (d ∉ gone ++ [h] ↔ d ∉ gone) := by
    intro hself
    rw [List.mem_append, List.mem_singleton, or_iff_left fun e => hd (hself.trans e)]
  constructor
  · intro hdue
    refine ⟨hdue.isHandle, (hremains hdue.isHandle).1 hdue.remains,
      (hw.isTemporary_eq hd).symm.trans hdue.temporary, fun a ha => ?_⟩
    obtain ⟨c, hc⟩ := hdue.found
    rw [ha, hc, hdue.isHandle] at hrel
    cases hrel with
    | some hsame => exact hsame.refs_eq_nil.1 (hdue.unreferenced c hc)
  · intro hdue
    refine ⟨hdue.isHandle, (hremains hdue.isHandle).2 hdue.remains,
      (hw.isTemporary_eq hd).trans hdue.temporary, fun c hc => ?_⟩
    obtain ⟨a, ha⟩ := hdue.found
    rw [ha, hc, hdue.isHandle] at hrel
    cases hrel with
    | some hsame => exact hsame.refs_eq_nil.2 (hdue.unreferenced a ha)

/-- what goes without the map goes behind it -/
theorem Halfway.removal (hw : Halfway s h b t) (hr : s.Removal gone) : t.Removal (gone ++ [h]) := by
  induction hr with
  | nil => exact .cons .nil hw.isDue_self
  | @cons gone d hr hd ih =>
    obtain ⟨a, ha⟩ := hd.found
    exact .cons ih ((hw.isDue_iff (hw.apart_of_removal hr) (hw.ne_of_found ha)).2 hd)

/-! ## What sweeps leave -/

/-- the same arrays with the same flags, but for the order of references, and the same id for the
next array -/
structure Reordered (s t : ArrayStore) : Prop where
  arrays : ∀ i, Option.Rel ArrayVar.Reordered (s.find? i) (t.find? i)
  temporary : ∀ i, t.isTemporary i = s.isTemporary i
  create_eq : ∀ keyType packed owner,
    (create keyType packed owner).run' t = (create keyType packed owner).run' s

theorem Reordered.refl (s : ArrayStore) : Reordered s s where
  arrays i := by
    cases s.find? i with
    | none => exact .none
    | some a => exact .some (.refl a)
  temporary _ := rfl
  create_eq _ _ _ := rfl

theorem Halfway.sweepAll (hw : Halfway s h b t) (hs : s.NoneReserved) (ht : t.NoneReserved) :
    Reordered s.sweepAll.2 t.sweepAll.2 := by
  obtain ⟨gone, hr, hl, hend, -⟩ := Removal.nil.sweepAll s.left_nil
  obtain ⟨gone', hr', hl', hend', -⟩ := Removal.nil.sweepAll t.left_nil
  have hgone := hw.apart_of_removal hr
  have hnone : ∀ d, ¬ t.IsDue (gone ++ [h]) d := by
    intro d hd
    by_cases hself : handleOf d = h
    · refine hd.remains (List.mem_append_right gone (List.mem_singleton.2 ?_))
      exact hd.isHandle.symm.trans hself
    · exact hend d ((hw.isDue_iff hgone hself).1 hd)
  have hleft := hl'.perm (hr'.perm (hw.removal hr) hend' hnone)
  have hmem : ∀ i, handleOf i ∈ gone ++ [h] ↔ handleOf i ∈ gone ∨ handleOf i = h := fun i => by
    rw [List.mem_append, List.mem_singleton]
  have habsent : ∀ i, handleOf i = h → s.find? i = none := fun i hself =>
    (s.find?_congr (hself.trans hw.isHandle.symm)).trans hw.absent
  have harrays : ∀ i,
      Option.Rel ArrayVar.Reordered (s.sweepAll.2.find? i) (t.sweepAll.2.find? i) := by
    intro i
    rw [hl.find?, hleft.find?]
    by_cases hself : handleOf i = h
    · rw [if_pos ((hmem i).2 (.inr hself)), habsent i hself, Option.map_none, ite_self]
      exact .none
    by_cases hm : handleOf i ∈ gone
    · rw [if_pos hm, if_pos ((hmem i).2 (.inl hm))]
      exact .none
    · rw [if_neg hm, if_neg fun hm' => ((hmem i).1 hm').elim hm hself]
      exact hw.reordered hgone hself
  refine ⟨harrays, fun i => ?_, run'_create_congr (noneReserved_sweepAll hs)
    (noneReserved_sweepAll ht) fun i => ?_⟩
  · rw [hl.isTemporary, hleft.isTemporary]
    by_cases hself : handleOf i = h
    · have hs : s.isTemporary i = false := Bool.eq_false_iff.2 fun htemp =>
        Option.not_isSome_iff_eq_none.2 (habsent i hself)
          (HandleTable.find?_isSome_of_isTemporary htemp)
      rw [hs, Bool.and_false, decide_eq_false fun hm => hm ((hmem i).2 (.inr hself)),
        Bool.false_and]
    · rw [hw.isTemporary_eq hself]
      refine congrArg (· && _) (decide_eq_decide.2 (not_congr ?_))
      rw [hmem i, or_iff_left hself]
  · have hrel := harrays i
    generalize s.sweepAll.2.find? i = o, t.sweepAll.2.find? i = o' at hrel
    cases hrel with
    | none => exact Iff.rfl
    | some _ => exact ⟨nofun, nofun⟩

/-! ## Failed calls -/

/-- the id that the next array would have -/
def nextId? (s : ArrayStore) : Option UInt32 := (create .number false 0).run' s

theorem nextId?_of_create {keyType : KeyType} {packed : Bool} {owner : UInt8}
    (hc : create keyType packed owner s = .ok h t) : s.nextId? = some h := by
  obtain ⟨kind, hp⟩ := create_eq_ok hc
  have hplace : (HandleTable.place (ArrayVar.empty kind owner [])).run' s = some h := by
    delta EStateM.run' EStateM.run
    rw [hp]
  rw [← hplace]
  exact HandleTable.run'_place_congr (fun _ => Iff.rfl) _ _

/-- no pair names the array that is made next -/
def Unnamed {α : Type} (s : ArrayStore) (pairs : List (α × Element)) : Prop :=
  ∀ p ∈ pairs, ∀ target, p.2 = .array target → s.nextId? ≠ some (handleOf target)

/-- keys do not matter to it -/
theorem Unnamed.map {α β : Type} {pairs : List (α × Element)} (h : s.Unnamed pairs) (f : α → β) :
    s.Unnamed (pairs.map fun (a, e) => (f a, e)) := by
  intro p hp
  obtain ⟨q, hq, rfl⟩ := List.mem_map.1 hp
  exact h q hq

/-- a call that fails before it has made a map leaves the store as it was -/
theorem createTemporary_cases {keyType : KeyType} {pairs : List (Key × Element)} {owner : UInt8}
    (hpairs : s.Unnamed pairs) {f : Failure}
    (hc : Plugin.createTemporary keyType pairs owner s = .error f t) :
    t = s ∨ ∃ h b, Halfway s h b t := by
  rcases bind_eq_error.1 hc with hc | ⟨h, u, hcreate, hc⟩
  · exact .inl (atomic_create _ _ _ hc)
  obtain ⟨b, hw⟩ := halfway_start hcreate
  have hnames : ∀ p ∈ pairs, ∀ target, p.2 = .array target → handleOf target ≠ h := by
    intro p hp target he hself
    apply hpairs p hp target he
    rw [nextId?_of_create hcreate, hself]
  rcases bind_eq_error.1 hc with hc | ⟨_, u', hmark, hc⟩
  · cases hc
  obtain rfl := modify_eq_ok.1 hmark
  rcases bind_eq_error.1 hc with hc | ⟨_, _, -, hc⟩
  · obtain ⟨b', hw'⟩ := hw.setAll hnames hc
    exact .inr ⟨h, b', hw'⟩
  · cases hc

/-- what a plugin may not do leaves the store as it was too -/
theorem require_createTemporary_cases {p : Plugin} {c : Capability} {keyType : KeyType}
    {pairs : List (Key × Element)} {owner : UInt8} (hpairs : s.Unnamed pairs) {f : Failure}
    (hc : (do p.require c; Plugin.createTemporary keyType pairs owner) s = .error f t) :
    t = s ∨ ∃ h b, Halfway s h b t := by
  rcases bind_eq_error.1 hc with hfail | ⟨_, u, hrequire, hmake⟩
  · exact .inl ((Plugin.reads_require p c).error hfail)
  · rw [(Plugin.reads_require p c).ok hrequire] at hmake
    exact createTemporary_cases hpairs hmake

/-- what sweeps make of the two -/
theorem reordered_of_cases (hs : s.NoneReserved) (ht : t.NoneReserved)
    (hcases : t = s ∨ ∃ h b, Halfway s h b t) : Reordered s.sweepAll.2 t.sweepAll.2 := by
  rcases hcases with rfl | ⟨h, b, hw⟩
  · exact .refl _
  · exact hw.sweepAll hs ht

end ArrayStore

namespace Session

open ArrayStore

/-- A map that a plugin could not make is gone when sweeps have ended.  They leave what they would
have left before the call, but for the order of references, and the same id for the next array. -/
theorem failed_map_vanishes {x : Session} (hx : x.Reachable) (p : Plugin) (owner : UInt8) :
    (∀ (pairs : List (Number × Element)) f t, x.arrays.Unnamed pairs →
      p.createMap pairs owner x.arrays = .error f t →
      ArrayStore.Reordered x.arrays.sweepAll.2 t.sweepAll.2) ∧
    ∀ (pairs : List (String × Element)) f t, x.arrays.Unnamed pairs →
      p.createStringMap pairs owner x.arrays = .error f t →
      ArrayStore.Reordered x.arrays.sweepAll.2 t.sweepAll.2 := by
  -- the store after the call is that of a session too
  have hafter : ∀ (call : Plugin.Call) t, call.apply p x.arrays = t → t.NoneReserved := by
    rintro call t rfl
    exact (hx.step (.plugin p call)).noneReserved
  constructor
  · intro pairs f t hpairs hc
    have ht := hafter (.createMap pairs owner) t (by rw [Plugin.Call.apply, after, hc])
    exact reordered_of_cases hx.noneReserved ht
      (require_createTemporary_cases (hpairs.map Key.ofNumber) hc)
  · intro pairs f t hpairs hc
    have ht := hafter (.createStringMap pairs owner) t (by rw [Plugin.Call.apply, after, hc])
    exact reordered_of_cases hx.noneReserved ht
      (require_createTemporary_cases (hpairs.map Key.text) hc)

/-- a temporary list in a temporary list, and one beside them -/
def nestedLists : List Event :=
  [.arrays (.createList [.number ⟨0⟩] 2), .arrays (.createList [.array 1] 3),
    .arrays (.createList [] 4), .arrays (.markTemporary 1 true), .arrays (.markTemporary 2 true),
    .arrays (.addReference 3 9)]

/-- pairs for one key twice, and at last one for an array that is not there -/
def unfinished : List (Number × Element) :=
  [(⟨0⟩, .array 3), (⟨0⟩, .array 0x10000001), (.ofNat 1, .array 2), (.ofNat 2, .array 1),
    (.ofNat 3, .array 77)]

/-- both lists are kept alive by the map, and one of them has three references of one module -/
theorem failed_map_vanishes_nested : ∃ f t,
    Plugin.latest.createMap unfinished 3 (run .standard nestedLists).arrays = .error f t ∧
    t.size = 4 ∧ (t.find? 1).map (·.refs) = some [3, 3, 3] ∧ t.sweepAll.2.size = 1 ∧
    ArrayStore.Reordered (run .standard nestedLists).arrays.sweepAll.2 t.sweepAll.2 := by
  obtain ⟨t, ht⟩ : ∃ t, (Plugin.latest.createMap unfinished 3).after
    (run .standard nestedLists).arrays = t := ⟨_, rfl⟩
  have hfailed : (Plugin.latest.createMap unfinished 3).failure?
      (run .standard nestedLists).arrays = some (.notFound 77) := by decide +kernel
  have hnext : (run .standard nestedLists).arrays.nextId? = some 4 := by decide +kernel
  have hunnamed : (run .standard nestedLists).arrays.Unnamed unfinished := by
    intro p hp target he
    rw [hnext]
    simp only [unfinished, List.mem_cons, List.not_mem_nil, or_false] at hp
    rcases hp with rfl | rfl | rfl | rfl | rfl <;> cases he <;> decide
  have hc := failure?_eq_some.1 hfailed
  rw [ht] at hc
  obtain ⟨hmap, -⟩ := failed_map_vanishes (reachable_run .standard nestedLists) .latest 3
  refine ⟨_, t, hc, ?_, ?_, ?_, hmap unfinished _ t hunnamed hc⟩
  · rw [← ht]
    decide +kernel
  · rw [← ht]
    decide +kernel
  · rw [← ht]
    decide +kernel

end Session

end ScriptVars
