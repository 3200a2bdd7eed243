import ScriptVars.Proofs.Removal
import ScriptVars.Save.Pending

/-!
# The arrays that are found pending

The worklist finds arrays in another order than sweeps remove them.  It still takes only what is
due, and with an empty worklist nothing is due any more.

* `ArrayStore.Unreserved`    elements name arrays by handles;
* `Pending.Ends`             the worklist until it is empty, however long that takes;
* `Pending.Working`          what holds between two arrays of the worklist;
* `Working.step`             an array on top of it;
* `Working.collect`          all of them: the fuel is enough.
-/

namespace ScriptVars

theorem length_toList_tally_le (ids : List UInt32) : (tally ids).toList.length ≤ ids.length := by
  rw [Std.ExtTreeMap.length_toList, ← Std.ExtTreeMap.length_keys]
  refine (List.subperm_of_subset ?_ fun h hm => ?_).length_le
  · exact (tally ids).distinct_keys.imp fun hne e => hne (compareHandles_eq_iff.2 e)
  · exact mem_tally.1 (Std.ExtTreeMap.mem_keys.1 hm)

namespace ArrayStore

/-- the ids of arrays among the elements have no reserved bits -/
def Unreserved (s : ArrayStore) : Prop :=
  ∀ p ∈ s.toList, ∀ id, .array id ∈ p.2.values → id.toNat < handleLimit

theorem mem_targetsOf {l : List Element} {id : UInt32} : id ∈ targetsOf l ↔ .array id ∈ l := by
  rw [targetsOf, List.mem_filterMap]
  refine ⟨?_, fun hm => ⟨_, hm, rfl⟩⟩
  rintro ⟨e, he, ha⟩
  cases e with
  | array x =>
    obtain rfl : x = id := Option.some.inj ha
    exact he
  | _ => cases ha

theorem mem_children {a : ArrayVar} {id : UInt32} :
    id ∈ a.children ↔ .array id ∈ a.values ∧ id ≠ 0 := by
  rw [ArrayVar.children, List.mem_filter, bne_iff_ne]
  exact and_congr_left fun _ => mem_targetsOf

instance (s : ArrayStore) : Decidable s.Unreserved :=
  decidable_of_iff ((s.toList.all fun p => (targetsOf p.2.values).all fun id =>
    id.toNat < handleLimit) = true) <| by
    simp only [Unreserved, List.all_eq_true, mem_targetsOf, decide_eq_true_eq]

variable {s : ArrayStore} {id : UInt32} {a : ArrayVar}

theorem Unreserved.handleOf_eq (hs : s.Unreserved) (hself : handleOf id = id)
    (hf : s.find? id = some a) : ∀ c ∈ a.children, handleOf c = c := fun c hc =>
  handleOf_eq_self (hs _ (HandleTable.mem_toList.2 ⟨hself, hf⟩) c (mem_children.1 hc).1)

theorem Unreserved.count_children (hs : s.Unreserved) (hself : handleOf id = id)
    (hf : s.find? id = some a) {h : UInt32} (hh : h ≠ 0) :
    a.children.count h = (named a.values).count h := by
  rw [← ArrayStore.count_children a hh]
  exact congrArg (List.count h)
    ((List.map_congr_left (hs.handleOf_eq hself hf)).trans (List.map_id _)).symm

theorem Unreserved.refs_without_cons (hs : s.Unreserved) (hself : handleOf id = id)
    (hf : s.find? id = some a) {gone : List UInt32} {h : UInt32} {b : ArrayVar}
    (hb : s.find? h = some b) : (s.without (id :: gone) h b).refs =
      withoutRefs a.owner (a.children.count h) [] (s.without gone h b).refs := by
  have hz : h ≠ 0 := by
    rintro rfl
    rw [s.find?_eq_none_of_zero (by decide)] at hb
    cases hb
  rw [without_cons hf, ← hs.count_children hself hf hz]
  rfl

/-- only what an array names can become due when it goes -/
theorem Unreserved.isDue_of_cons (hs : s.Unreserved) (hself : handleOf id = id)
    (hf : s.find? id = some a) {gone : List UInt32} {h : UInt32} (hd : s.IsDue (id :: gone) h)
    (hc : h ∉ a.children) : s.IsDue gone h where
  isHandle := hd.isHandle
  remains hm := hd.remains (List.mem_cons_of_mem _ hm)
  temporary := hd.temporary
  unreferenced b hb := by
    have hempty := hd.unreferenced b hb
    rw [hs.refs_without_cons hself hf hb, List.count_eq_zero.2 hc, withoutRefs_zero,
      List.reverse_nil, List.nil_append] at hempty
    exact hempty

/-- how many elements name arrays, in the arrays that have not gone -/
def childCountWithout (s : ArrayStore) (gone : List UInt32) : Nat :=
  ((s.toList.filter fun p => p.1 ∉ gone).flatMap fun p => p.2.children).length

theorem childCountWithout_nil (s : ArrayStore) : s.childCountWithout [] = s.childCount := by
  rw [childCountWithout, List.filter_eq_self.2 fun _ _ => decide_eq_true List.not_mem_nil]
  rfl

theorem childCountWithout_cons {gone : List UInt32} (hself : handleOf id = id)
    (hf : s.find? id = some a) (hr : id ∉ gone) :
    a.children.length + s.childCountWithout (id :: gone) = s.childCountWithout gone := by
  have hp : ((id, a) :: s.toList.filter fun p => p.1 ∉ id :: gone).Perm
      (s.toList.filter fun p => p.1 ∉ gone) :=
    HandleTable.cons_filter_perm (P := (· ∉ gone)) (Q := (· ∉ id :: gone))
      (HandleTable.mem_toList.2 ⟨hself, hf⟩) hr fun i => by rw [List.mem_cons, not_or]
  have hlen := (hp.flatMap fun p _ => List.Perm.refl p.2.children).length_eq
  rw [List.flatMap_cons, List.length_append] at hlen
  exact hlen

theorem getElem?_refTable {p : UInt32 × ArrayVar} (hp : p ∈ s.toList) :
    s.refTable[p.1]? = some p.2.refs := by
  obtain ⟨hself, hf⟩ := HandleTable.mem_toList.1 hp
  rw [refTable, HandleTable.getElem?_toMap_eq, if_pos hself, hf]
  rfl

end ArrayStore

namespace Pending

variable {s : ArrayStore} {owner : UInt8}

theorem mem_insert_found {found : HandleSet} {id h : UInt32} :
    h ∈ found.insert id ↔ h = id ∨ h ∈ found := by
  rw [Std.ExtTreeSet.mem_insert, compareHandles_eq_iff, eq_comm]

/-! ## Giving up references -/

section
variable (s owner) (p : Pending) (child : UInt32) (n : Nat)

theorem giveUp_of_none (hn : p.refs[child]? = none) : giveUp s owner p child n = p := by
  rw [giveUp, hn]

theorem giveUp_of_some {held : List UInt8} (hh : p.refs[child]? = some held) :
    giveUp s owner p child n =
      { p with
        refs := p.refs.insert child (withoutRefs owner n [] held)
        worklist := if (withoutRefs owner n [] held).isEmpty && s.isTemporary child
          && !p.found.contains child then child :: p.worklist else p.worklist } := by
  rw [giveUp, hh]
  dsimp only
  split <;> rfl

theorem found_giveUp : (giveUp s owner p child n).found = p.found := by
  cases hh : p.refs[child]? with
  | none => rw [giveUp_of_none s owner p child n hh]
  | some held => rw [giveUp_of_some s owner p child n hh]

theorem getElem?_refs_giveUp (h : UInt32) : (giveUp s owner p child n).refs[h]? =
    if child = h then (p.refs[h]?).map (withoutRefs owner n []) else p.refs[h]? := by
  cases hh : p.refs[child]? with
  | none =>
    rw [giveUp_of_none s owner p child n hh]
    split
    · next e =>
      rw [← e, hh]
      rfl
    · rfl
  | some held =>
    rw [giveUp_of_some s owner p child n hh, Std.ExtTreeMap.getElem?_insert]
    by_cases e : child = h
    · rw [if_pos (compareHandles_eq_iff.2 e), if_pos e, ← e, hh]
      rfl
    · rw [if_neg fun hc => e (compareHandles_eq_iff.1 hc), if_neg e]

theorem mem_worklist_giveUp (h : UInt32) : h ∈ (giveUp s owner p child n).worklist ↔
    h ∈ p.worklist ∨ child = h ∧ s.isTemporary h = true ∧ h ∉ p.found ∧
      (giveUp s owner p child n).refs[h]? = some [] := by
  rw [getElem?_refs_giveUp]
  cases hh : p.refs[child]? with
  | none =>
    rw [giveUp_of_none s owner p child n hh]
    refine (or_iff_left ?_).symm
    rintro ⟨rfl, -, -, hr⟩
    rw [if_pos rfl, hh] at hr
    cases hr
  | some held =>
    rw [giveUp_of_some s owner p child n hh]
    have hc : (withoutRefs owner n [] held).isEmpty && s.isTemporary child
        && !p.found.contains child ↔ withoutRefs owner n [] held = [] ∧
          s.isTemporary child = true ∧ child ∉ p.found := by
      simp only [Bool.and_eq_true, Bool.not_eq_true', List.isEmpty_iff, and_assoc, Bool.eq_false_iff,
        ne_eq, Std.ExtTreeSet.contains_iff_mem]
    dsimp only
    split
    · next hp =>
      obtain ⟨hl, ht, hf⟩ := hc.1 hp
      rw [List.mem_cons, or_comm]
      refine or_congr_right ⟨?_, fun hx => hx.1.symm⟩
      rintro rfl
      refine ⟨rfl, ht, hf, ?_⟩
      rw [if_pos rfl, hh, Option.map_some, hl]
    · next hp =>
      refine (or_iff_left ?_).symm
      rintro ⟨rfl, ht, hf, hr⟩
      rw [if_pos rfl, hh, Option.map_some, Option.some_inj] at hr
      exact hp (hc.2 ⟨hr, ht, hf⟩)

theorem length_worklist_giveUp : (giveUp s owner p child n).worklist.length ≤
    p.worklist.length + 1 := by
  cases hh : p.refs[child]? with
  | none =>
    rw [giveUp_of_none s owner p child n hh]
    exact Nat.le_succ _
  | some held =>
    rw [giveUp_of_some s owner p child n hh]
    dsimp only
    split
    · exact Nat.le_refl _
    · exact Nat.le_succ _

end

/-- several arrays are given up, each of them once -/
structure GivenUp (s : ArrayStore) (owner : UInt8) (l : List (UInt32 × Nat)) (p q : Pending) :
    Prop where
  found : q.found = p.found
  refs_of_ne : ∀ h, (∀ c ∈ l, c.1 ≠ h) → q.refs[h]? = p.refs[h]?
  refs_of_mem : ∀ c ∈ l, q.refs[c.1]? = (p.refs[c.1]?).map (withoutRefs owner c.2 [])
  mem_worklist : ∀ h, h ∈ q.worklist ↔ h ∈ p.worklist ∨ h ∈ l.map Prod.fst ∧
    s.isTemporary h = true ∧ h ∉ p.found ∧ q.refs[h]? = some []
  length_worklist : q.worklist.length ≤ p.worklist.length + l.length

theorem givenUp_foldl {l : List (UInt32 × Nat)} (hl : l.Pairwise fun c d => c.1 ≠ d.1)
    (p : Pending) :
    GivenUp s owner l p (l.foldl (fun p c => giveUp s owner p c.1 c.2) p) := by
  induction l generalizing p with
  | nil =>
    refine ⟨rfl, fun _ _ => rfl, nofun, fun h => ?_, Nat.le_refl _⟩
    exact (or_iff_left fun hm => List.not_mem_nil hm.1).symm
  | cons c l ih =>
    obtain ⟨hc, hl⟩ := List.pairwise_cons.1 hl
    have g := ih hl (giveUp s owner p c.1 c.2)
    rw [List.foldl_cons]
    generalize l.foldl (fun p c => giveUp s owner p c.1 c.2) (giveUp s owner p c.1 c.2) = q at g
    have hrefs := getElem?_refs_giveUp s owner p c.1 c.2
    refine ⟨g.found.trans (found_giveUp ..), fun h hne => ?_, fun d hd => ?_, fun h => ?_, ?_⟩
    · rw [g.refs_of_ne h fun d hd => hne d (List.mem_cons_of_mem _ hd), hrefs,
        if_neg (hne c List.mem_cons_self)]
    · rcases List.mem_cons.1 hd with rfl | hd
      · rw [g.refs_of_ne _ fun d hd e => hc d hd e.symm, hrefs, if_pos rfl]
      · rw [g.refs_of_mem d hd, hrefs, if_neg (hc d hd)]
    · have hself : c.1 = h → q.refs[h]? = (giveUp s owner p c.1 c.2).refs[h]? := fun e =>
        g.refs_of_ne h fun d hd e' => hc d hd (e.trans e'.symm)
      rw [g.mem_worklist, mem_worklist_giveUp, found_giveUp, or_assoc, List.map_cons, List.mem_cons]
      refine or_congr_right ⟨?_, ?_⟩
      · rintro (⟨e, ht, hf, hr⟩ | ⟨hm, hr⟩)
        · exact ⟨.inl e.symm, ht, hf, (hself e).trans hr⟩
        · exact ⟨.inr hm, hr⟩
      · rintro ⟨e | hm, ht, hf, hr⟩
        · exact .inl ⟨e.symm, ht, hf, (hself e.symm).symm.trans hr⟩
        · exact .inr ⟨hm, ht, hf, hr⟩
    · have h₁ := g.length_worklist
      have h₂ := length_worklist_giveUp s owner p c.1 c.2
      rw [List.length_cons]
      omega

/-- what an array with some children gives up -/
structure Gives (s : ArrayStore) (owner : UInt8) (children : List UInt32) (p q : Pending) :
    Prop where
  found : q.found = p.found
  refs : ∀ h, q.refs[h]? = (p.refs[h]?).map (withoutRefs owner (children.count h) [])
  mem_worklist : ∀ h, h ∈ q.worklist ↔ h ∈ p.worklist ∨ h ∈ children ∧
    s.isTemporary h = true ∧ h ∉ p.found ∧ q.refs[h]? = some []
  length_worklist : q.worklist.length ≤ p.worklist.length + children.length

theorem gives_tally (s : ArrayStore) (owner : UInt8) (children : List UInt32) (p : Pending) :
    Gives s owner children p ((tally children).foldl (giveUp s owner) p) := by
  rw [Std.ExtTreeMap.foldl_eq_foldl_toList]
  have hmem : ∀ h, h ∈ (tally children).toList.map Prod.fst ↔ h ∈ children := fun h => by
    rw [Std.ExtTreeMap.map_fst_toList_eq_keys, Std.ExtTreeMap.mem_keys, mem_tally]
  have g : GivenUp s owner (tally children).toList p _ := givenUp_foldl
    ((tally children).distinct_keys_toList.imp fun hne e => hne (compareHandles_eq_iff.2 e)) p
  refine ⟨g.found, fun h => ?_, fun h => ?_, g.length_worklist.trans ?_⟩
  · by_cases hm : h ∈ children
    · have hc : (h, children.count h) ∈ (tally children).toList := by
        rw [Std.ExtTreeMap.mem_toList_iff_getElem?_eq_some, getElem?_tally, if_pos hm]
      exact g.refs_of_mem _ hc
    · rw [List.count_eq_zero.2 hm, g.refs_of_ne h fun c hc e =>
        hm ((hmem h).1 (List.mem_map.2 ⟨c, hc, e⟩))]
      cases p.refs[h]? with
      | none => rfl
      | some held => rw [Option.map_some, withoutRefs_zero, List.reverse_nil, List.nil_append]
  · rw [g.mem_worklist, hmem]
  · exact Nat.add_le_add_left (length_toList_tally_le children) _

/-! ## The worklist -/

def start (s : ArrayStore) : Pending := ⟨∅, s.refTable, s.unclaimed.reverse⟩

/-- the worklist until it is empty -/
inductive Ends (s : ArrayStore) : Pending → Pending → Prop where
  | done {p : Pending} (h : p.worklist = []) : Ends s p p
  | more {p q : Pending} {id : UInt32} {rest : List UInt32} (h : p.worklist = id :: rest)
    (he : Ends s (step s { p with worklist := rest } id) q) : Ends s p q

/-- the arrays in `gone` are found, and what is due then is on the worklist -/
structure Working (s : ArrayStore) (gone : List UInt32) (p : Pending) : Prop where
  removal : s.Removal gone
  mem_found : ∀ h, h ∈ p.found ↔ h ∈ gone
  refs : ∀ h, handleOf h = h →
    p.refs[h]? = (s.find? h).map fun a => (s.without gone h a).refs
  worklist : ∀ h ∈ p.worklist, h ∈ gone ∨ s.IsDue gone h
  due : ∀ h, s.IsDue gone h → h ∈ p.worklist

theorem working_start (s : ArrayStore) : Working s [] (start s) where
  removal := .nil
  mem_found _ := iff_of_false Std.ExtTreeSet.not_mem_empty List.not_mem_nil
  refs h hself := by
    have hm := s.getElem?_toMap (·.refs) h
    rw [hself] at hm
    exact hm
  worklist h hm := .inr (s.left_nil.mem_unclaimed.1 (List.mem_reverse.1 hm))
  due h hd := List.mem_reverse.2 (s.left_nil.mem_unclaimed.2 hd)

/-- how often the worklist may still be looked at -/
def remaining (s : ArrayStore) (gone : List UInt32) (p : Pending) : Nat :=
  p.worklist.length + s.childCountWithout gone

section
variable {gone rest : List UInt32} {p : Pending} {id : UInt32}

/-- an array that has been looked at before -/
theorem Working.step_of_mem (w : Working s gone p) (hw : p.worklist = id :: rest) (hg : id ∈ gone) :
    step s { p with worklist := rest } id = { p with worklist := rest } ∧
      Working s gone { p with worklist := rest } := by
  refine ⟨if_pos (Std.ExtTreeSet.contains_iff_mem.2 ((w.mem_found id).2 hg)), ?_⟩
  refine { w with worklist := fun h hm => ?_, due := fun h hd => ?_ }
  · exact w.worklist h (hw ▸ List.mem_cons_of_mem _ hm)
  · refine List.mem_of_ne_of_mem ?_ (hw ▸ w.due h hd)
    rintro rfl
    exact hd.remains hg

theorem Working.gives (w : Working s gone p) (hg : id ∉ gone) {a : ArrayVar}
    (ha : s.find? id = some a) :
    Gives s a.owner a.children { p with worklist := rest, found := p.found.insert id }
      (step s { p with worklist := rest } id) := by
  have hnew : ¬ p.found.contains id = true := fun hc =>
    hg ((w.mem_found id).1 (Std.ExtTreeSet.contains_iff_mem.1 hc))
  have hstep : step s { p with worklist := rest } id = (tally a.children).foldl
      (giveUp s a.owner) { p with worklist := rest, found := p.found.insert id } := by
    rw [step, if_neg hnew, ha]
  rw [hstep]
  exact gives_tally s a.owner a.children _

/-- an array that goes after all that are found -/
theorem Working.give (hs : s.Unreserved) (w : Working s gone p) (hw : p.worklist = id :: rest)
    (hd : s.IsDue gone id) {a : ArrayVar} (ha : s.find? id = some a) {q : Pending}
    (g : Gives s a.owner a.children { p with worklist := rest, found := p.found.insert id } q) :
    Working s (id :: gone) q := by
  have hfound : ∀ h, h ∈ p.found.insert id ↔ h ∈ id :: gone := fun h => by
    rw [mem_insert_found, w.mem_found, List.mem_cons]
  have hrefs : ∀ h, handleOf h = h →
      q.refs[h]? = (s.find? h).map fun b => (s.without (id :: gone) h b).refs := by
    intro h hself
    rw [g.refs, w.refs h hself]
    cases hb : s.find? h with
    | none => rfl
    | some b => exact congrArg some (hs.refs_without_cons hd.isHandle ha hb).symm
  refine ⟨w.removal.cons hd, fun h => ?_, hrefs, fun h hm => ?_, fun h hd' => ?_⟩
  · rw [g.found, hfound]
  · rcases (g.mem_worklist h).1 hm with hm | ⟨hc, ht, hf, hr⟩
    · by_cases hin : h ∈ id :: gone
      · exact .inl hin
      · have hor := w.worklist h (hw ▸ List.mem_cons_of_mem _ hm)
        have hdue := hor.resolve_left fun hm => hin (List.mem_cons_of_mem _ hm)
        exact .inr (hdue.mono w.removal.nodup (List.subset_cons_self _ _) hin)
    · have hself := hs.handleOf_eq hd.isHandle ha h hc
      refine .inr ⟨hself, fun hin => hf ((hfound h).2 hin), ht, fun b hb => ?_⟩
      rw [hrefs h hself, hb] at hr
      exact Option.some.inj hr
  · rw [g.mem_worklist]
    by_cases hdue : s.IsDue gone h
    · refine .inl (List.mem_of_ne_of_mem ?_ (hw ▸ w.due h hdue))
      rintro rfl
      exact hd'.remains List.mem_cons_self
    · -- it has become due because the array named it
      have hc : h ∈ a.children := by
        by_contra hno
        exact hdue (hs.isDue_of_cons hd.isHandle ha hd' hno)
      obtain ⟨b, hb⟩ := hd'.found
      refine .inr ⟨hc, hd'.temporary, fun hf => hd'.remains ((hfound h).1 hf), ?_⟩
      rw [hrefs h hd'.isHandle, hb, Option.map_some, hd'.unreferenced b hb]

/-- the worklist gets no longer than what is taken from the elements that are left -/
theorem Working.step (hs : s.Unreserved) (w : Working s gone p) (hw : p.worklist = id :: rest) :
    ∃ gone', Working s gone' (step s { p with worklist := rest } id) ∧
      remaining s gone' (step s { p with worklist := rest } id) < remaining s gone p := by
  by_cases hg : id ∈ gone
  · obtain ⟨hstep, hrest⟩ := w.step_of_mem hw hg
    refine ⟨gone, hstep.symm ▸ hrest, ?_⟩
    rw [hstep, remaining, remaining, hw, List.length_cons]
    show rest.length + _ < rest.length + 1 + _
    omega
  · have hd : s.IsDue gone id :=
      (w.worklist id (hw ▸ List.mem_cons_self)).resolve_left hg
    obtain ⟨a, ha⟩ := hd.found
    have g : Gives s a.owner a.children { p with worklist := rest, found := p.found.insert id }
        (Pending.step s { p with worklist := rest } id) := w.gives hg ha
    refine ⟨id :: gone, w.give hs hw hd ha g, ?_⟩
    have hlen := g.length_worklist
    have hcount := ArrayStore.childCountWithout_cons hd.isHandle ha hg
    change _ ≤ rest.length + _ at hlen
    rw [remaining, remaining, hw, List.length_cons]
    omega

end

theorem Working.collect {gone : List UInt32} {p : Pending} {fuel : Nat} (hs : s.Unreserved)
    (w : Working s gone p) (hf : remaining s gone p < fuel) :
    Ends s p (collect s fuel p) ∧ ∃ gone', Working s gone' (collect s fuel p) ∧
      ∀ h, ¬ s.IsDue gone' h := by
  induction fuel generalizing gone p with
  | zero => exact absurd hf (Nat.not_lt_zero _)
  | succ fuel ih =>
    cases hw : p.worklist with
    | nil =>
      have hend : Pending.collect s (fuel + 1) p = p := by rw [Pending.collect, hw]
      rw [hend]
      refine ⟨.done hw, gone, w, fun h hd => ?_⟩
      exact List.not_mem_nil (hw ▸ w.due h hd)
    | cons id rest =>
      obtain ⟨gone', w', hlt⟩ := w.step hs hw
      have hmore : Pending.collect s (fuel + 1) p =
          Pending.collect s fuel (Pending.step s { p with worklist := rest } id) := by
        rw [Pending.collect, hw]
      rw [hmore]
      obtain ⟨he, hw'⟩ := ih w' (by omega)
      exact ⟨.more hw he, hw'⟩

end Pending

namespace ArrayStore

variable {s : ArrayStore}

/-- what is found pending goes one after the other, until nothing is due -/
theorem Unreserved.pendingCollection (hs : s.Unreserved) :
    ∃ q, Pending.Ends s (Pending.start s) q ∧ s.pendingCollection = (q.found, q.refs) ∧
      ∃ gone, Pending.Working s gone q ∧ ∀ h, ¬ s.IsDue gone h := by
  have hlt : Pending.remaining s [] (Pending.start s) < s.unclaimed.length + s.childCount + 1 := by
    rw [Pending.remaining, childCountWithout_nil]
    show s.unclaimed.reverse.length + _ < _
    rw [List.length_reverse]
    exact Nat.lt_succ_self _
  obtain ⟨he, hw⟩ := (Pending.working_start s).collect hs hlt
  exact ⟨_, he, rfl, hw⟩

end ArrayStore

end ScriptVars
