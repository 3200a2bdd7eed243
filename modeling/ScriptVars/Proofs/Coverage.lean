import ScriptVars.Proofs.PendingArrays
import ScriptVars.Save.Write

/-!
# References that suffice

A store is covered if every array has at least as many references of each module as elements in
arrays of that module name it.  Pending arrays give up no more references than they hold, so what
is left suffices for the other arrays.  None of those names an array that has no references left.

* `ArrayStore.Covered`        enough references for all elements;
* `ArrayStore.holders`        the modules that the references must have;
* `Pending.Suffices`          what holds between two arrays of the worklist;
* `Suffices.not_mem_found`        what is written names nothing that is left out;
* `ArrayStore.WrittenAs`      a store of what is written; it is covered.
-/

namespace ScriptVars

namespace ArrayStore

variable {s : ArrayStore} {id h : UInt32} {a : ArrayVar} {m : UInt8}

/-- there are references for all elements that name an array, and maybe more -/
def Covered (s : ArrayStore) : Prop :=
  ∀ id a, s.find? id = some a → ∀ m, s.heldBy m (handleOf id) ≤ a.refs.count m

theorem Balanced.covered {outside : UInt8 → UInt32 → Nat} (b : Balanced s outside) : s.Covered :=
  fun _ _ hf m => by
    rw [b.refs hf m]
    exact Nat.le_add_right _ _

/-- the owners of the arrays that name an array, one for each element that does -/
def holders (l : List (UInt32 × ArrayVar)) (h : UInt32) : List UInt8 :=
  l.flatMap fun p => List.replicate ((named p.2.values).count h) p.2.owner

theorem holders_cons (p : UInt32 × ArrayVar) (l : List (UInt32 × ArrayVar)) (h : UInt32) :
    holders (p :: l) h =
      List.replicate ((named p.2.values).count h) p.2.owner ++ holders l h := rfl

theorem count_replicate_holds (a : ArrayVar) (m : UInt8) (h : UInt32) :
    (List.replicate ((named a.values).count h) a.owner).count m = holds m h a := by
  simp only [List.count_replicate, beq_iff_eq, holds]

theorem count_holders (s : ArrayStore) (m : UInt8) (h : UInt32) :
    (holders s.toList h).count m = s.heldBy m h := by
  rw [heldBy, HandleTable.total]
  induction s.toList with
  | nil => rfl
  | cons p l ih =>
    rw [holders_cons, List.count_append, count_replicate_holds, ih, List.foldr_cons]

theorem mem_holders {l : List (UInt32 × ArrayVar)} {p : UInt32 × ArrayVar} (hp : p ∈ l)
    (hid : .array id ∈ p.2.values) : p.2.owner ∈ holders l (handleOf id) := by
  refine List.mem_flatMap.2 ⟨p, hp, List.mem_replicate.2 ⟨?_, rfl⟩⟩
  have hm : handleOf id ∈ named p.2.values := mem_named.2 ⟨id, hid, rfl⟩
  exact Nat.ne_of_gt (List.count_pos_iff.2 hm)

theorem holders_perm {l l' : List (UInt32 × ArrayVar)} (hp : l.Perm l') (h : UInt32) :
    (holders l h).Perm (holders l' h) := hp.flatMap_right _

theorem Covered.subperm (hc : s.Covered) (hf : s.find? id = some a) :
    (holders s.toList (handleOf id)).Subperm a.refs := by
  refine List.subperm_ext_iff.2 fun m _ => ?_
  rw [count_holders]
  exact hc id a hf m

instance (s : ArrayStore) : Decidable s.Covered :=
  decidable_of_iff (∀ p ∈ s.toList, (holders s.toList p.1).Subperm p.2.refs) <| by
    constructor
    · intro hall id a hf m
      have hp : (handleOf id, a) ∈ s.toList := HandleTable.handleOf_mem_toList.2 hf
      rw [← count_holders]
      exact (hall _ hp).count_le m
    · intro hc p hp
      obtain ⟨hself, hf⟩ := HandleTable.mem_toList.1 hp
      have hsub := hc.subperm hf
      rwa [hself] at hsub

/-! ## Arrays that are not found -/

/-- the arrays that are not found -/
def notFound (s : ArrayStore) (found : HandleSet) : List (UInt32 × ArrayVar) :=
  s.toList.filter fun p => p.1 ∉ found

theorem mem_notFound {found : HandleSet} {p : UInt32 × ArrayVar} :
    p ∈ s.notFound found ↔ p ∈ s.toList ∧ p.1 ∉ found := by
  rw [notFound, List.mem_filter, decide_eq_true_eq]

theorem notFound_empty (s : ArrayStore) : s.notFound ∅ = s.toList :=
  List.filter_eq_self.2 fun _ _ => decide_eq_true Std.ExtTreeSet.not_mem_empty

/-- a child by its id is one by its handle -/
theorem count_children_le (a : ArrayVar) (hself : handleOf h = h) (hz : h ≠ 0) :
    a.children.count h ≤ (named a.values).count h := by
  rw [← count_children a hz]
  calc a.children.count h ≤ (a.children.map handleOf).count (handleOf h) :=
        List.count_le_count_map
    _ = (a.children.map handleOf).count h := by rw [hself]

end ArrayStore

/-! ## The worklist -/

namespace Pending

variable {s : ArrayStore}

open ArrayStore

/-- an array that is found takes with it what it holds -/
theorem count_holders_insert {found : HandleSet} {id : UInt32} {a : ArrayVar}
    (hm : (id, a) ∈ s.toList) (hf : id ∉ found) (m : UInt8) (h : UInt32) :
    holds m h a + (holders (s.notFound (found.insert id)) h).count m =
      (holders (s.notFound found) h).count m := by
  have hp : ((id, a) :: s.notFound (found.insert id)).Perm (s.notFound found) :=
    HandleTable.cons_filter_perm (P := (· ∉ found)) (Q := (· ∉ found.insert id)) hm hf fun i => by
      rw [mem_insert_found, not_or]
  rw [← count_replicate_holds, ← List.count_append]
  exact (holders_perm hp h).count_eq m

theorem notFound_insert_of_none {found : HandleSet} {id : UInt32} (hn : s.find? id = none) :
    s.notFound (found.insert id) = s.notFound found := by
  refine List.filter_congr fun p hp => decide_eq_decide.2 ?_
  rw [mem_insert_found, not_or]
  refine and_iff_right ?_
  rintro rfl
  rw [(HandleTable.mem_toList.1 hp).2] at hn
  cases hn

/-- the references that are left suffice for the arrays that are not found, and nothing is left to
what is found or may be -/
structure Suffices (s : ArrayStore) (p : Pending) : Prop where
  handle : ∀ h l, p.refs[h]? = some l → handleOf h = h
  covered : ∀ q ∈ s.toList, ∀ m,
    (holders (s.notFound p.found) q.1).count m ≤ (p.refs[q.1]?.getD q.2.refs).count m
  emptied : ∀ h, h ∈ p.found ∨ h ∈ p.worklist → p.refs[h]? = some []

theorem suffices_start (hc : s.Covered) : Suffices s (start s) where
  handle h l hl := by
    change s.refTable[h]? = some l at hl
    rw [refTable, HandleTable.getElem?_toMap_eq] at hl
    split at hl
    · assumption
    · cases hl
  covered q hq m := by
    obtain ⟨hself, hf⟩ := HandleTable.mem_toList.1 hq
    have hle := hc q.1 q.2 hf m
    rw [hself, ← count_holders] at hle
    show (holders (s.notFound ∅) q.1).count m ≤ (s.refTable[q.1]?.getD q.2.refs).count m
    rwa [notFound_empty, getElem?_refTable hq]
  emptied h hm := by
    have hd := s.left_nil.mem_unclaimed.1
      (List.mem_reverse.1 (hm.resolve_left Std.ExtTreeSet.not_mem_empty))
    obtain ⟨a, ha⟩ := hd.found
    show s.refTable[h]? = some []
    rw [refTable, HandleTable.getElem?_toMap_eq, if_pos hd.isHandle, ha]
    exact congrArg some (hd.unreferenced a ha)

/-- an array gives up less than it holds -/
theorem Suffices.give {p q : Pending} {id : UInt32} {a : ArrayVar} (w : Suffices s p)
    (hf : id ∉ p.found) (hm : (id, a) ∈ s.toList) {rest : List UInt32}
    (hemptied : ∀ h, h ∈ p.found.insert id ∨ h ∈ rest → p.refs[h]? = some [])
    (g : Gives s a.owner a.children { p with worklist := rest, found := p.found.insert id } q) :
    Suffices s q where
  handle h l hl := by
    rw [g.refs] at hl
    obtain ⟨held, hheld, -⟩ := Option.map_eq_some_iff.1 hl
    exact w.handle h held hheld
  covered r hr m := by
    obtain ⟨hself, hz⟩ := HandleTable.handle_of_mem_toList hr
    have hle := w.covered r hr m
    have hinsert := count_holders_insert hm hf m r.1
    have hchildren : m = a.owner → a.children.count r.1 ≤ holds m r.1 a := fun e => by
      rw [holds, if_pos e.symm]
      exact count_children_le a hself hz
    rw [g.found, g.refs]
    show (holders (s.notFound (p.found.insert id)) r.1).count m ≤ _
    dsimp only
    cases hr : p.refs[r.1]? with
    | none =>
      -- nothing is given up to it, and there are fewer that hold it
      rw [hr] at hle
      exact (Nat.le_add_left _ _).trans (hinsert.le.trans hle)
    | some held =>
      rw [hr] at hle
      change _ ≤ held.count m at hle
      show _ ≤ (withoutRefs a.owner (a.children.count r.1) [] held).count m
      rw [count_withoutRefs]
      split
      · next e =>
        have := hchildren e
        omega
      · omega
  emptied h hm := by
    rw [g.found, g.mem_worklist, ← or_assoc] at hm
    rcases hm with hm | ⟨-, -, -, hr⟩
    · rw [g.refs, hemptied h hm]
      exact congrArg some (withoutRefs_nil ..)
    · exact hr

theorem Suffices.step {p : Pending} {id : UInt32} {rest : List UInt32} (w : Suffices s p)
    (hw : p.worklist = id :: rest) : Suffices s (step s { p with worklist := rest } id) := by
  have hrest : ∀ h ∈ rest, p.refs[h]? = some [] := fun h hm =>
    w.emptied h (.inr (hw ▸ List.mem_cons_of_mem _ hm))
  have hid : p.refs[id]? = some [] := w.emptied id (.inr (hw ▸ List.mem_cons_self))
  have hemptied : ∀ h, h ∈ p.found.insert id ∨ h ∈ rest → p.refs[h]? = some [] := by
    intro h hm
    rw [mem_insert_found] at hm
    rcases hm with (rfl | hm) | hm
    · exact hid
    · exact w.emptied h (.inl hm)
    · exact hrest h hm
  rw [Pending.step]
  split
  · -- it has been looked at before
    exact ⟨w.handle, w.covered, fun h hm => hm.elim (fun hm => w.emptied h (.inl hm)) (hrest h)⟩
  · next hnew =>
    rw [Std.ExtTreeSet.contains_iff_mem] at hnew
    dsimp only
    split
    · next hnone =>
      refine ⟨w.handle, ?_, hemptied⟩
      show ∀ q ∈ s.toList, ∀ m, (holders (s.notFound (p.found.insert id)) q.1).count m ≤ _
      rw [notFound_insert_of_none hnone]
      exact w.covered
    · next a ha =>
      have hm : (id, a) ∈ s.toList := HandleTable.mem_toList.2 ⟨w.handle id [] hid, ha⟩
      exact w.give hnew hm hemptied (gives_tally ..)

theorem Suffices.collect {p : Pending} (w : Suffices s p) (fuel : Nat) :
    Suffices s (collect s fuel p) := by
  induction fuel generalizing p with
  | zero => exact w
  | succ fuel ih =>
    rw [Pending.collect]
    split
    · exact w
    · next id rest hw => exact ih (w.step hw)

/-- what is found has no references left, so no other array names it -/
theorem Suffices.not_mem_found {p : Pending} (w : Suffices s p) {q : UInt32 × ArrayVar}
    (hq : q ∈ s.notFound p.found) {id : UInt32} (hid : .array id ∈ q.2.values)
    (hl : (s.find? id).isSome) : handleOf id ∉ p.found := by
  intro hfound
  obtain ⟨a, ha⟩ := Option.isSome_iff_exists.1 hl
  have hle := w.covered _ (HandleTable.handleOf_mem_toList.2 ha) q.2.owner
  rw [w.emptied _ (.inl hfound)] at hle
  have hpos := List.count_pos_iff.2 (mem_holders hq hid)
  exact absurd hle (Nat.not_le.2 hpos)

end Pending

/-! ## What is written -/

namespace ArrayStore

variable {s k : ArrayStore} {skip : Bool} {p : Pending}

/-- the arrays that are not found, with the references that are left to them -/
def keptOf (s : ArrayStore) (p : Pending) : List (UInt32 × ArrayVar) :=
  (s.notFound p.found).map fun q => (q.1, { q.2 with refs := p.refs[q.1]?.getD q.2.refs })

/-- `k` is a store of what a save of `s` writes; what is found in `p` is left out -/
structure WrittenAs (s : ArrayStore) (skip : Bool) (p : Pending) (k : ArrayStore) : Prop where
  enough : p.Suffices s
  written : ((s.written skip).map fun q => (q.1, { q.2.1 with refs := q.2.2 })) = s.keptOf p
  kept : k.toList = s.keptOf p

theorem Covered.written_eq (hc : s.Covered) (skip : Bool) : ∃ p, p.Suffices s ∧
    ((s.written skip).map fun q => (q.1, { q.2.1 with refs := q.2.2 })) = s.keptOf p := by
  have w : (Pending.start s).Suffices s := Pending.suffices_start hc
  cases skip with
  | false =>
    refine ⟨⟨∅, s.refTable, []⟩, ⟨w.handle, w.covered, fun h hm => ?_⟩, ?_⟩
    · exact w.emptied h (hm.imp_right fun hm => (List.not_mem_nil hm).elim)
    · rw [written, if_neg Bool.false_ne_true, keptOf, notFound_empty, List.map_map]
      refine List.map_congr_left fun q hq => ?_
      rw [getElem?_refTable hq]
      rfl
  | true =>
    refine ⟨_, w.collect (s.unclaimed.length + s.childCount + 1), ?_⟩
    rw [written, if_pos rfl, keptOf, notFound]
    dsimp only
    rw [List.map_map]
    refine congrArg (List.map _) (List.filter_congr fun q _ => ?_)
    rw [Bool.eq_iff_iff, Bool.not_eq_true', Bool.eq_false_iff, Ne, Std.ExtTreeSet.contains_iff_mem,
      decide_eq_true_eq]
    rfl

theorem Covered.exists_writtenAs (hc : s.Covered) (skip : Bool) : ∃ p k, s.WrittenAs skip p k := by
  obtain ⟨p, w, hp⟩ := hc.written_eq skip
  obtain ⟨k, hk⟩ : ∃ k : ArrayStore, k.toList = s.keptOf p := by
    refine HandleTable.exists_toList_eq (List.pairwise_map.2 ?_) fun q hq => ?_
    · exact (HandleTable.ascending_toList s).filter _
    · obtain ⟨r, hr, rfl⟩ := List.mem_map.1 hq
      exact HandleTable.handle_of_mem_toList (t := s) (p := r) (mem_notFound.1 hr).1
  exact ⟨p, k, w, hp, hk⟩

/-- records hold the references that a save is given, not those of the arrays -/
theorem records_of_toList
    (h : k.toList = (s.written skip).map fun q => (q.1, { q.2.1 with refs := q.2.2 }))
    (version : UInt32) : records (k.written false) version = records (s.written skip) version := by
  rw [written, if_neg Bool.false_ne_true, h, List.map_map, records, records, List.map_map]
  rfl

namespace WrittenAs

variable (w : s.WrittenAs skip p k)
include w

theorem find?_eq (i : UInt32) : k.find? i = if handleOf i ∈ p.found then none
    else (s.find? i).map fun a => { a with refs := p.refs[handleOf i]?.getD a.refs } := by
  refine Option.ext fun b => ?_
  rw [← HandleTable.handleOf_mem_toList, w.kept, keptOf, List.mem_map]
  constructor
  · rintro ⟨⟨h, a⟩, hq, he⟩
    obtain ⟨e, rfl⟩ := Prod.mk.inj he
    obtain rfl : h = handleOf i := e
    obtain ⟨hm, hf⟩ := mem_notFound.1 hq
    rw [if_neg hf, HandleTable.handleOf_mem_toList.1 hm]
    rfl
  · intro h
    split at h
    · cases h
    · next hf =>
      obtain ⟨a, ha, rfl⟩ := Option.map_eq_some_iff.1 h
      exact ⟨(handleOf i, a), mem_notFound.2 ⟨HandleTable.handleOf_mem_toList.2 ha, hf⟩, rfl⟩

theorem isSome_iff {i : UInt32} :
    (k.find? i).isSome = true ↔ handleOf i ∉ p.found ∧ (s.find? i).isSome = true := by
  rw [w.find?_eq]
  split
  · next hf => exact iff_of_false Bool.false_ne_true fun h => h.1 hf
  · next hf => rw [Option.isSome_map, and_iff_right hf]

theorem holders_eq (h : UInt32) : holders k.toList h = holders (s.notFound p.found) h := by
  rw [w.kept, keptOf, holders, List.flatMap_map, holders]
  rfl

theorem covered : k.Covered := by
  intro id b hb m
  rw [w.find?_eq] at hb
  split at hb
  · cases hb
  · obtain ⟨a, ha, rfl⟩ := Option.map_eq_some_iff.1 hb
    rw [← count_holders, w.holders_eq]
    exact w.enough.covered _ (HandleTable.handleOf_mem_toList.2 ha) m

theorem toList_eq :
    k.toList = (s.written skip).map fun q => (q.1, { q.2.1 with refs := q.2.2 }) :=
  w.kept.trans w.written.symm

theorem records_eq (version : UInt32) :
    records (k.written false) version = records (s.written skip) version :=
  records_of_toList w.toList_eq version

theorem exists_written_iff {id : UInt32} :
    (∃ q ∈ s.written skip, q.1 = handleOf id) ↔ (k.find? id).isSome = true := by
  rw [Option.isSome_iff_exists]
  simp only [← HandleTable.handleOf_mem_toList, w.toList_eq, List.mem_map]
  constructor
  · rintro ⟨q, hq, e⟩
    exact ⟨_, q, hq, Prod.ext e rfl⟩
  · rintro ⟨_, q, hq, e⟩
    exact ⟨q, hq, congrArg Prod.fst e⟩

/-- what is written names nothing that is left out -/
theorem exists_written {q : UInt32 × ArrayVar × List UInt8} (hq : q ∈ s.written skip)
    {id : UInt32} (hid : .array id ∈ q.2.1.values) (hl : (s.find? id).isSome) :
    ∃ r ∈ s.written skip, r.1 = handleOf id := by
  have hm : (q.1, { q.2.1 with refs := q.2.2 }) ∈ s.keptOf p :=
    w.written ▸ List.mem_map_of_mem hq
  obtain ⟨r, hr, e⟩ := List.mem_map.1 hm
  have hvalues : r.2.values = q.2.1.values := congrArg (fun q => q.2.values) e
  rw [w.exists_written_iff, w.isSome_iff]
  exact ⟨w.enough.not_mem_found hr (hvalues ▸ hid) hl, hl⟩

end WrittenAs

end ArrayStore

end ScriptVars
