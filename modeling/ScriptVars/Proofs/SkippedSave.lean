import ScriptVars.Proofs.PendingArrays
import ScriptVars.Save.Write

/-!
# Saves without pending arrays

A save that skips pending arrays writes what a save of everything writes after sweeps have removed
them: the arrays are the same, and so are the references that are left to the others.
-/

namespace ScriptVars.ArrayStore

variable {s t : ArrayStore} {gone gone' : List UInt32}

/-- the arrays that have not gone, with the references that are left to them -/
def writtenWithout (s : ArrayStore) (gone : List UInt32) : List (UInt32 × ArrayVar × List UInt8) :=
  (s.toList.filter fun p => p.1 ∉ gone).map fun p => (p.1, p.2, (s.without gone p.1 p.2).refs)

theorem writtenWithout_perm (hp : gone.Perm gone') : s.writtenWithout gone = s.writtenWithout gone' := by
  have hfilter : (s.toList.filter fun p => p.1 ∉ gone) = s.toList.filter fun p => p.1 ∉ gone' :=
    List.filter_congr fun p _ => decide_eq_decide.2 (not_congr hp.mem_iff)
  rw [writtenWithout, writtenWithout, hfilter]
  refine List.map_congr_left fun p _ => ?_
  rw [without_perm hp]

theorem written_of_working {q : Pending} (w : Pending.Working s gone q)
    (hq : s.pendingCollection = (q.found, q.refs)) : s.written true = s.writtenWithout gone := by
  have hfilter : (s.toList.filter fun p => !q.found.contains p.1) =
      s.toList.filter fun p => p.1 ∉ gone := by
    refine List.filter_congr fun p _ => ?_
    rw [Bool.eq_iff_iff, Bool.not_eq_true', Bool.eq_false_iff, Ne, Std.ExtTreeSet.contains_iff_mem,
      w.mem_found, decide_eq_true_eq]
  show ((s.toList.filter fun p => !s.pendingCollection.1.contains p.1).map fun p =>
    (p.1, p.2, s.pendingCollection.2[p.1]?.getD p.2.refs)) = _
  rw [hq, hfilter, writtenWithout]
  refine List.map_congr_left fun p hp => ?_
  obtain ⟨hself, hf⟩ := HandleTable.mem_toList.1 (List.mem_of_mem_filter hp)
  rw [w.refs p.1 hself, hf]
  rfl

theorem Left.written (hl : Left s gone t) :
    t.written false = (s.writtenWithout gone).map fun p => (p.1, s.without gone p.1 p.2.1, p.2.2) := by
  show (t.toList.map fun p => (p.1, p.2, p.2.refs)) = _
  rw [hl.toList_eq, writtenWithout, List.map_map, List.map_map]
  rfl

/-- records hold the references that a save is given, not those of the arrays -/
theorem Left.records_written (hl : Left s gone t) (version : UInt32) :
    records (t.written false) version = records (s.writtenWithout gone) version := by
  rw [hl.written, records, records, List.map_map]
  rfl

/-- a save that skips pending arrays ends, and it is the save of what sweeps leave -/
theorem save_skipping (s : ArrayStore) (hs : s.Unreserved) (version : UInt32) (stream : Stream) :
    (∃ q, Pending.Ends s (Pending.start s) q ∧ s.pendingCollection = (q.found, q.refs)) ∧
      s.save version true stream = (do
        let report ← s.sweepAll.2.save version false
        return { report with skipped := s.sweepAll.1 }) stream := by
  obtain ⟨q, hq, hp, gone, w, hend⟩ := hs.pendingCollection
  refine ⟨⟨q, hq, hp⟩, ?_⟩
  obtain ⟨swept, hr, hl, hend', hlen⟩ := Removal.nil.sweepAll s.left_nil
  have hwritten : s.written true = s.writtenWithout swept :=
    (written_of_working w hp).trans (writtenWithout_perm (w.removal.perm hr hend hend'))
  have hlength : (s.written true).length = (s.sweepAll.2.written false).length := by
    rw [hwritten, hl.written, List.length_map]
  have hskipped : s.size - (s.written true).length = s.sweepAll.1 := by
    have hsize := hl.size_add_length hr
    have hall : (s.sweepAll.2.written false).length = s.sweepAll.2.size :=
      (List.length_map ..).trans s.sweepAll.2.size_eq.symm
    rw [List.length_nil] at hlen
    omega
  simp only [save, bind_assoc, pure_bind]
  rw [hskipped, hlength, hl.records_written, hwritten]

/-- list 3 goes, and then list 2, which nothing else holds; list 1 stays for the sake of list 4, and
list 5 for its own sake -/
def entangled : ArrayStore :=
  [.createList [] 7, .createList [.array 1, .array 1] 9, .createList [.array 2] 4,
    .createList [.array 1] 5, .createList [] 3, .append 5 (.array 5), .markTemporary 1 true,
    .markTemporary 2 true, .markTemporary 3 true, .markTemporary 5 true].foldl Call.apply .empty

theorem save_skipping_entangled :
    entangled.Unreserved ∧ entangled.unclaimed = [3] ∧
      ((entangled.written true).map fun p => (p.1, p.2.2)) = [(1, [5]), (4, []), (5, [3])] ∧
      entangled.save 2 true Stream.empty = (do
        let report ← entangled.sweepAll.2.save 2 false
        return { report with skipped := entangled.sweepAll.1 }) Stream.empty :=
  have h : entangled.Unreserved := by decide +kernel
  ⟨h, by decide +kernel, by decide +kernel, (save_skipping entangled h 2 Stream.empty).2⟩

end ScriptVars.ArrayStore
