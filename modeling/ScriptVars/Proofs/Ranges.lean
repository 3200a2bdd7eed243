import Mathlib.Data.List.Infix
import ScriptVars.Proofs.PackedLists

/-!
# Ranges of keys

Slices, ranged searches and ranged removals agree with filtering the entries of an array by their
keys.  A slice and a search take the lower bound with them and not the upper one, a removal takes
both.  In a map the bounds may be any keys; in a list they name positions, and a slice or a search
must not run over the end, but a removal may.

* `Key.isInside`, `isWithin`              the two kinds of ranges;
* `Ascending.filter_append_filter_not`    a list in order is cut in two by a bound;
* `Storage.filter_indexed`                a list, filtered by the positions that keys name;
* `ArrayStore.slice_of_find?`, …          calls on a range, refused or not;
* `ArrayStore.MapRanges`, `ListRanges`    what they come to in a map, and in a list;
* `Session.ranges_agree`                  ranges in a session.
-/

namespace ScriptVars

open ScriptVars.Action

/-! ## Ranges -/

namespace Key

variable {lo hi k l : Key}

/-- from `lo` up to, and without, `hi` -/
def isInside (lo hi k : Key) : Bool := lo.isAtMost k && k.isLess hi

/-- from `lo` up to, and with, `hi` -/
def isWithin (lo hi k : Key) : Bool := lo.isAtMost k && k.isAtMost hi

theorem isAtMost_iff : k.isAtMost l = true ↔ (k.compare l).isLE = true := by
  rw [isAtMost]
  cases k.compare l <;> decide

theorem isLess_iff : k.isLess l = true ↔ k.compare l = .lt := beq_iff_eq

theorem isAtMost_of_isLess (h : k.isLess l = true) : k.isAtMost l = true := by
  rw [isAtMost, isLess_iff.1 h]
  rfl

theorem not_isAtMost : (!k.isAtMost l) = l.isLess k := by
  have hswap : k.compare l = (l.compare k).swap := Std.OrientedCmp.eq_swap
  rw [isAtMost, isLess, hswap]
  cases l.compare k <;> rfl

/-- nothing is between reversed bounds -/
theorem isWithin_of_reversed (h : hi.isLess lo = true) (k : Key) : isWithin lo hi k = false := by
  rw [Bool.eq_false_iff]
  intro hk
  obtain ⟨hlo, hhi⟩ := Bool.and_eq_true_iff.1 hk
  have hle : lo.isAtMost hi = true :=
    isAtMost_iff.2 (Std.TransCmp.isLE_trans (isAtMost_iff.1 hlo) (isAtMost_iff.1 hhi))
  rw [← not_isAtMost, hle] at h
  cases h

theorem isWithin_of_isInside (h : isInside lo hi k = true) : isWithin lo hi k = true := by
  obtain ⟨hlo, hhi⟩ := Bool.and_eq_true_iff.1 h
  exact Bool.and_eq_true_iff.2 ⟨hlo, isAtMost_of_isLess hhi⟩

theorem isAtMost_of_index? {i j : Nat} (hk : k.index? = some i) (hl : l.index? = some j) :
    k.isAtMost l = decide (i ≤ j) := by
  rw [Bool.eq_iff_iff, isAtMost_iff, compare_of_index? hk hl, Nat.isLE_compare, decide_eq_true_iff]

theorem isLess_of_index? {i j : Nat} (hk : k.index? = some i) (hl : l.index? = some j) :
    k.isLess l = decide (i < j) := by
  rw [Bool.eq_iff_iff, isLess_iff, compare_of_index? hk hl, Nat.compare_eq_lt, decide_eq_true_iff]

section
variable {i j m : Nat} (hlo : lo.index? = some i) (hhi : hi.index? = some j)
  (hk : k.index? = some m)
include hlo hhi hk

/-- keys that name positions lie in a range as these do -/
theorem isInside_of_index? : isInside lo hi k = (decide (i ≤ m) && decide (m < j)) := by
  rw [isInside, isAtMost_of_index? hlo hk, isLess_of_index? hk hhi]

theorem isWithin_of_index? : isWithin lo hi k = (decide (i ≤ m) && decide (m ≤ j)) := by
  rw [isWithin, isAtMost_of_index? hlo hk, isAtMost_of_index? hk hhi]

end

end Key

/-! ## Lists in order -/

namespace Ascending

variable {entries : List (Key × Element)}

/-- a property that every key has which is less than one that has it cuts a list in two -/
theorem filter_append_filter_not (h : IsAscending Key.compare entries) {p : Key → Bool}
    (hp : ∀ k l, k.compare l = .lt → p l = true → p k = true) :
    entries.filter (fun q => p q.1) ++ entries.filter (fun q => !p q.1) = entries := by
  induction entries with
  | nil => rfl
  | cons q rest ih =>
    obtain ⟨hq, hrest⟩ := List.pairwise_cons.1 h
    rw [List.filter_cons, List.filter_cons]
    cases hpq : p q.1 with
    | true => exact congrArg (q :: ·) (ih hrest)
    | false =>
      have hnone : ∀ r ∈ rest, p r.1 = false := fun r hr => by
        rw [Bool.eq_false_iff]
        intro hpr
        rw [hp q.1 r.1 (hq r hr) hpr] at hpq
        cases hpq
      have hbefore : rest.filter (fun r => p r.1) = [] :=
        List.filter_eq_nil_iff.2 fun r hr => by rw [hnone r hr]; decide
      have hafter : rest.filter (fun r => !p r.1) = rest :=
        List.filter_eq_self.2 fun r hr => by rw [hnone r hr]; rfl
      rw [hbefore, hafter]
      rfl

/-- the entries between two bounds are next to one another -/
theorem infix_filter (h : IsAscending Key.compare entries) (lo : Key) {p : Key → Bool}
    (hp : ∀ k l, k.compare l = .lt → p l = true → p k = true) :
    entries.filter (fun q => lo.isAtMost q.1 && p q.1) <:+: entries := by
  have hlo : ∀ k l, k.compare l = .lt → (!lo.isAtMost l) = true → (!lo.isAtMost k) = true := by
    intro k l hkl hl
    rw [Key.not_isAtMost, Key.isLess_iff] at hl ⊢
    exact Std.TransCmp.lt_trans hkl hl
  have hcut := filter_append_filter_not h hlo
  simp only [Bool.not_not] at hcut
  have habove : IsAscending Key.compare (entries.filter fun q => lo.isAtMost q.1) := h.filter _
  have hcut' := filter_append_filter_not habove hp
  rw [List.filter_filter] at hcut'
  have hcomm : (fun q : Key × Element => lo.isAtMost q.1 && p q.1) =
      fun q => p q.1 && lo.isAtMost q.1 := funext fun q => Bool.and_comm _ _
  refine ⟨entries.filter fun q => !lo.isAtMost q.1,
    (entries.filter fun q => lo.isAtMost q.1).filter fun q => !p q.1, ?_⟩
  rw [hcomm, List.append_assoc, hcut', hcut]

end Ascending

/-! ## Lists -/

namespace Storage

variable {values : List Element} {i j : Nat}

section
variable (hij : i ≤ j) (hj : j ≤ values.length)
include hij hj

/-- some positions of a list stand between those before and those behind them -/
theorem indexed_cut : indexed 0 values =
    indexed 0 (values.take i) ++ indexed i ((values.take j).drop i) ++
      indexed j (values.drop j) := by
  have hcut := List.take_append_drop i (values.take j)
  rw [List.take_take, Nat.min_eq_left hij] at hcut
  have hbefore : (values.take i).length = i := List.length_take_of_le (Nat.le_trans hij hj)
  have hupto : (values.take j).length = j := List.length_take_of_le hj
  calc indexed 0 values = indexed 0 (values.take j ++ values.drop j) := by
        rw [List.take_append_drop]
    _ = indexed 0 (values.take j) ++ indexed j (values.drop j) := by
        rw [indexed_append, hupto, Nat.zero_add]
    _ = _ := by
        conv_lhs => rw [← hcut]
        rw [indexed_append, hbefore, Nat.zero_add]

/-- a list, filtered by the positions that its keys name -/
theorem filter_indexed (hsize : values.length ≤ Key.greatestIndex + 1) {p : Key → Bool}
    (hp : ∀ k m, k.index? = some m → m < values.length →
      p k = (decide (i ≤ m) && decide (m < j))) :
    (indexed 0 values).filter (fun q => p q.1) = indexed i ((values.take j).drop i) ∧
    ((indexed 0 values).filter fun q => !p q.1).map Prod.snd =
      values.take i ++ values.drop j := by
  have hbefore : ∀ q ∈ indexed 0 (values.take i), p q.1 = false := by
    intro q hq
    have hlength : (values.take i).length = i := List.length_take_of_le (Nat.le_trans hij hj)
    obtain ⟨m, hm, -, hlt⟩ := index?_of_mem_indexed (by omega) hq
    rw [hp q.1 m hm (by omega), decide_eq_false (by omega), Bool.false_and]
  have hinside : ∀ q ∈ indexed i ((values.take j).drop i), p q.1 = true := by
    intro q hq
    have hlength : ((values.take j).drop i).length = j - i := by
      rw [List.length_drop, List.length_take_of_le hj]
    obtain ⟨m, hm, hle, hlt⟩ := index?_of_mem_indexed (by omega) hq
    rw [hp q.1 m hm (by omega), decide_eq_true hle, decide_eq_true (by omega), Bool.true_and]
  have hbehind : ∀ q ∈ indexed j (values.drop j), p q.1 = false := by
    intro q hq
    have hlength : (values.drop j).length = values.length - j := List.length_drop
    obtain ⟨m, hm, hle, hlt⟩ := index?_of_mem_indexed (by omega) hq
    rw [hp q.1 m hm (by omega), decide_eq_false (p := m < j) (by omega), Bool.and_false]
  constructor
  · rw [indexed_cut hij hj, List.filter_append, List.filter_append,
      List.filter_eq_nil_iff.2 fun q hq => by rw [hbefore q hq]; decide,
      List.filter_eq_self.2 hinside,
      List.filter_eq_nil_iff.2 fun q hq => by rw [hbehind q hq]; decide,
      List.nil_append, List.append_nil]
  · rw [indexed_cut hij hj, List.filter_append, List.filter_append,
      List.filter_eq_self.2 fun q hq => by rw [hbefore q hq]; rfl,
      List.filter_eq_nil_iff.2 fun q hq => by rw [hinside q hq]; decide,
      List.filter_eq_self.2 fun q hq => by rw [hbehind q hq]; rfl,
      List.append_nil, List.map_append, map_snd_indexed, map_snd_indexed]

end

/-- the first of some values that has a property, by its position -/
theorem find?_indexed (p : Element → Bool) (i : Nat) (values : List Element) :
    ((indexed i values).find? fun q => p q.2).map Prod.fst =
      (values.findIdx? p).map fun n => Key.ofIndex (i + n) := by
  induction values generalizing i with
  | nil => rfl
  | cons e values ih =>
    have hcons : indexed i (e :: values) = (Key.ofIndex i, e) :: indexed (i + 1) values := rfl
    rw [hcons, List.find?_cons, List.findIdx?_cons]
    cases he : p e with
    | true => rfl
    | false =>
      rw [ih (i + 1), if_neg Bool.false_ne_true, Option.map_map]
      refine congrArg (Option.map · _) (funext fun n => congrArg Key.ofIndex ?_)
      show i + 1 + n = i + (n + 1)
      omega

end Storage

theorem ArrayKind.storageOf_packed {kind : ArrayKind} (h : kind.isPacked = true)
    (l : List (Key × Element)) : kind.storageOf l = .packed (l.map Prod.snd) := if_pos h

theorem ArrayKind.storageOf_sorted {kind : ArrayKind} (h : kind.isPacked = false)
    (l : List (Key × Element)) : kind.storageOf l = .sorted l := if_neg (Bool.eq_false_iff.1 h)

/-! ## Calls -/

namespace ArrayStore

variable {s t : ArrayStore} {id : UInt32} {a : ArrayVar} {lo hi : Key}

theorem entriesBetween_of_keyType (hlo : lo.keyType = a.keyType) (hhi : hi.keyType = a.keyType) :
    entriesBetween a lo hi = a.storage.range lo hi := by
  rw [entriesBetween, ArrayVar.checkKey_of_keyType hlo, ArrayVar.checkKey_of_keyType hhi]
  rfl

section
variable (hf : s.find? id = some a) (hlo : lo.keyType = a.keyType) (hhi : hi.keyType = a.keyType)
include hf hlo hhi

theorem slice_of_find? : slice id lo hi s =
    match a.storage.range lo hi with
    | .ok l => install ⟨a.kind, a.owner, [], a.kind.storageOf l⟩ s
    | .error f => .error f s := by
  rw [slice, bind_lookup hf, entriesBetween_of_keyType hlo hhi, bind_demand]
  cases a.storage.range lo hi <;> rfl

theorem find_of_find? (target : Element) : find id target (some (lo, hi)) s =
    match a.storage.range lo hi with
    | .ok l => .ok ((l.find? fun p => p.2.equal target).map Prod.fst) s
    | .error f => .error f s := by
  rw [find, bind_lookup hf]
  show (demand (entriesBetween a lo hi) >>= _) s = _
  rw [entriesBetween_of_keyType hlo hhi, bind_demand]
  cases a.storage.range lo hi <;> rfl

/-- in a list, keys that name no position are refused -/
theorem ranges_refused {values : List Element} (hv : a.storage = .packed values)
    (h : lo.index? = none ∨ hi.index? = none) (target : Element) :
    ∃ f, slice id lo hi s = .error f s ∧ find id target (some (lo, hi)) s = .error f s ∧
      eraseElements id lo hi s = .error f s := by
  obtain ⟨f, hrange, herase⟩ : ∃ f, (Storage.packed values).range lo hi = .error f ∧
      (Storage.packed values).eraseWithin lo hi = .error f := by
    show ∃ f, _ ∧ (Storage.packed values).eraseRange lo hi = .error f
    rw [Storage.range, Storage.eraseRange, Key.position, Key.position]
    cases hl : lo.index? with
    | none => exact ⟨_, rfl, rfl⟩
    | some i =>
      rw [hl] at h
      rw [h.resolve_left (Option.some_ne_none i)]
      exact ⟨_, rfl, rfl⟩
  rw [slice_of_find? hf hlo hhi, find_of_find? hf hlo hhi, eraseElements_of_find? hf hlo hhi, hv,
    hrange, herase]
  exact ⟨f, rfl, rfl, rfl⟩

end

theorem find_all_of_find? (hf : s.find? id = some a) (target : Element) : find id target none s =
    .ok ((a.entries.find? fun p => p.2.equal target).map Prod.fst) s := by
  rw [find, bind_lookup hf]
  rfl

/-! ### maps -/

/-- what calls on a range of keys come to in a map -/
structure MapRanges (s : ArrayStore) (id : UInt32) (a : ArrayVar) (lo hi : Key)
    (target : Element) : Prop where
  /-- a slice has the entries from `lo` up to, and without, `hi` -/
  slice : Makes (slice id lo hi) s ⟨a.kind, a.owner, [],
    .sorted (a.entries.filter fun p => lo.isInside hi p.1)⟩
  find : find id target (some (lo, hi)) s = .ok
    (((a.entries.filter fun p => lo.isInside hi p.1).find? fun p =>
      p.2.equal target).map Prod.fst) s
  /-- what is removed are the entries from `lo` up to, and with, `hi` -/
  erase : ∃ t, eraseElements id lo hi s =
      .ok (a.entries.filter fun p => lo.isWithin hi p.1).length t ∧
    Becomes s t id { a with storage := .sorted (a.entries.filter fun p => !lo.isWithin hi p.1) }
  /-- such entries are next to one another -/
  together : (a.entries.filter fun p => lo.isInside hi p.1) <:+: a.entries ∧
    (a.entries.filter fun p => lo.isWithin hi p.1) <:+: a.entries
  reversed : hi.isLess lo = true → (a.entries.filter fun p => lo.isInside hi p.1) = [] ∧
    (a.entries.filter fun p => lo.isWithin hi p.1) = []

section
variable (hs : s.NoneReserved) (hf : s.find? id = some a) (hlo : lo.keyType = a.keyType)
  (hhi : hi.keyType = a.keyType)
include hs hf hlo hhi

theorem mapRanges {entries : List (Key × Element)} (he : a.storage = .sorted entries)
    (hp : a.isPacked = false) (hasc : Ascending.IsAscending Key.compare entries)
    (target : Element) : MapRanges s id a lo hi target := by
  have hentries : a.entries = entries := ArrayVar.entries_of_sorted he
  have hless : ∀ k l : Key, k.compare l = .lt → l.isLess hi = true → k.isLess hi = true :=
    fun k l hkl hl => Key.isLess_iff.2 (Std.TransCmp.lt_trans hkl (Key.isLess_iff.1 hl))
  have hatMost : ∀ k l : Key, k.compare l = .lt → l.isAtMost hi = true → k.isAtMost hi = true :=
    fun k l hkl hl => Key.isAtMost_iff.2
      (Std.TransCmp.isLE_trans (by rw [hkl]; rfl) (Key.isAtMost_iff.1 hl))
  refine
    { slice := ?_
      find := ?_
      erase := ?_
      together := ?_
      reversed := fun h => ⟨?_, ?_⟩ }
  · have hmake : ArrayStore.slice id lo hi s = install ⟨a.kind, a.owner, [],
        .sorted (a.entries.filter fun p => lo.isInside hi p.1)⟩ s := by
      rw [slice_of_find? hf hlo hhi, he, hentries,
        ← ArrayKind.storageOf_sorted hp (entries.filter fun p => lo.isInside hi p.1)]
      rfl
    rw [Makes, hmake]
    exact makes_install hs _
  · rw [find_of_find? hf hlo hhi, he, hentries]
    rfl
  · rw [eraseElements_of_find? hf hlo hhi, he, hentries]
    exact ⟨_, congrArg (EStateM.Result.ok · _) (List.length_map Prod.snd),
      becomes_exchange hf _ _ _⟩
  · rw [hentries]
    exact ⟨Ascending.infix_filter hasc lo hless, Ascending.infix_filter hasc lo hatMost⟩
  · refine List.filter_eq_nil_iff.2 fun p _ hinside => ?_
    have hwithin := Key.isWithin_of_isInside hinside
    rw [Key.isWithin_of_reversed h] at hwithin
    cases hwithin
  · refine List.filter_eq_nil_iff.2 fun p _ => ?_
    rw [Key.isWithin_of_reversed h]
    exact Bool.false_ne_true

end

/-! ### lists -/

/-- What calls on a range of keys come to in a list, if the keys name the positions `i` and `j`.
They agree with filtering the entries where these have positions. -/
structure ListRanges (s : ArrayStore) (id : UInt32) (a : ArrayVar) (lo hi : Key) (i j : Nat)
    (target : Element) : Prop where
  /-- a slice has the values from `i` up to, and without, `j`, which must be there -/
  slice : if i ≤ j ∧ j ≤ a.size
    then Makes (slice id lo hi) s ⟨a.kind, a.owner, [], .packed ((a.values.take j).drop i)⟩
    else slice id lo hi s = .error (.range (max i j) a.size) s
  find : find id target (some (lo, hi)) s = if i ≤ j ∧ j ≤ a.size
    then .ok ((((a.values.take j).drop i).findIdx? (·.equal target)).map fun n =>
      Key.ofIndex (i + n)) s
    else .error (.range (max i j) a.size) s
  /-- what is removed are the values from `i` up to, and with, `j`, or all up to the end -/
  erase : if i < a.size ∧ i ≤ j
    then ∃ t, eraseElements id lo hi s = .ok (min j (a.size - 1) + 1 - i) t ∧
      Becomes s t id { a with
        storage := .packed (a.values.take i ++ a.values.drop (min j (a.size - 1) + 1)) }
    else eraseElements id lo hi s = .error (.range (if a.size ≤ i then i else j) a.size) s
  inside : a.size ≤ Key.greatestIndex + 1 → i ≤ j → j ≤ a.size →
    (a.entries.filter fun p => lo.isInside hi p.1) =
      Storage.indexed i ((a.values.take j).drop i)
  within : a.size ≤ Key.greatestIndex + 1 → i < a.size → i ≤ j →
    (a.entries.filter fun p => lo.isWithin hi p.1).length = min j (a.size - 1) + 1 - i ∧
    (a.entries.filter fun p => !lo.isWithin hi p.1).map Prod.snd =
      a.values.take i ++ a.values.drop (min j (a.size - 1) + 1)

section
variable {values : List Element} {i j : Nat} (hi' : lo.index? = some i) (hj : hi.index? = some j)
include hi' hj

theorem range_packed : (Storage.packed values).range lo hi =
    if i ≤ j ∧ j ≤ values.length then .ok (Storage.indexed i ((values.take j).drop i))
    else .error (.range (max i j) values.length) := by
  rw [Storage.range, Key.position_of_index? hi', Key.position_of_index? hj]
  show (if (decide (j < i) || decide (values.length < j)) = true then _ else _ :
    Except Failure (List (Key × Element))) = _
  by_cases h : i ≤ j ∧ j ≤ values.length
  · rw [if_pos h, if_neg (by simp only [Bool.or_eq_true, decide_eq_true_eq]; omega)]
    rfl
  · rw [if_neg h, if_pos (by simp only [Bool.or_eq_true, decide_eq_true_eq]; omega)]
    rfl

theorem eraseWithin_packed : (Storage.packed values).eraseWithin lo hi =
    if i < values.length ∧ i ≤ j
    then .ok (.packed (values.take i ++ values.drop (min j (values.length - 1) + 1)),
      (values.take (j + 1)).drop i)
    else .error (.range (if values.length ≤ i then i else j) values.length) := by
  show (Storage.packed values).eraseRange lo hi = _
  rw [Storage.eraseRange, Key.position_of_index? hi', Key.position_of_index? hj]
  show (if values.length ≤ i then _ else _ : Except Failure (Storage × List Element)) = _
  by_cases hend : values.length ≤ i
  · have hno : ¬ (i < values.length ∧ i ≤ j) := by omega
    rw [if_pos hend, if_neg hno, if_pos hend]
    rfl
  · rw [if_neg hend, if_neg hend]
    show (if j < i then _ else _ : Except Failure (Storage × List Element)) = _
    by_cases hreversed : j < i
    · have hno : ¬ (i < values.length ∧ i ≤ j) := by omega
      rw [if_pos hreversed, if_neg hno]
      rfl
    · have hyes : i < values.length ∧ i ≤ j := by omega
      have hdrop : values.drop (min j (values.length - 1) + 1) = values.drop (j + 1) := by
        rcases Nat.lt_or_ge j values.length with hlt | hge
        · rw [Nat.min_eq_left (by omega)]
        · rw [List.drop_of_length_le (by omega), List.drop_of_length_le (by omega)]
      rw [if_neg hreversed, if_pos hyes, hdrop]
      rfl

end

section
variable (hs : s.NoneReserved) (hf : s.find? id = some a) (hlo : lo.keyType = a.keyType)
  (hhi : hi.keyType = a.keyType)
include hs hf hlo hhi

theorem listRanges {values : List Element} {i j : Nat} (hv : a.storage = .packed values)
    (hp : a.isPacked = true) (hi' : lo.index? = some i) (hj : hi.index? = some j)
    (target : Element) : ListRanges s id a lo hi i j target := by
  have hvalues : a.values = values := ArrayVar.values_of_packed hv
  have hsize : a.size = values.length := ArrayVar.size_of_packed hv
  constructor
  case slice =>
    rw [hvalues, hsize]
    have hslice := slice_of_find? hf hlo hhi
    rw [hv, range_packed hi' hj] at hslice
    split
    · next hbounds =>
      rw [if_pos hbounds] at hslice
      have hstorage : a.kind.storageOf (Storage.indexed i ((values.take j).drop i)) =
          .packed ((values.take j).drop i) := by
        rw [ArrayKind.storageOf_packed hp, Storage.map_snd_indexed]
      have hmake : ArrayStore.slice id lo hi s = install ⟨a.kind, a.owner, [],
          .packed ((values.take j).drop i)⟩ s := by
        rw [hslice, ← hstorage]
      rw [Makes, hmake]
      exact makes_install hs _
    · next hbounds =>
      rw [if_neg hbounds] at hslice
      exact hslice
  case find =>
    rw [hvalues, hsize, find_of_find? hf hlo hhi, hv, range_packed hi' hj]
    by_cases hbounds : i ≤ j ∧ j ≤ values.length
    · rw [if_pos hbounds, if_pos hbounds]
      exact congrArg (EStateM.Result.ok · s) (Storage.find?_indexed (·.equal target) i _)
    · rw [if_neg hbounds, if_neg hbounds]
  case erase =>
    rw [hvalues, hsize, eraseElements_of_find? hf hlo hhi, hv, eraseWithin_packed hi' hj]
    split
    · next hbounds =>
      have hcount : ((values.take (j + 1)).drop i).length =
          min j (values.length - 1) + 1 - i := by
        rw [List.length_drop, List.length_take]
        omega
      exact ⟨_, congrArg (EStateM.Result.ok · _) hcount, becomes_exchange hf _ _ _⟩
    · rfl
  case inside =>
    intro hpositions hij hbound
    rw [hsize] at hpositions hbound
    rw [ArrayVar.entries_of_packed hv, hvalues]
    exact (Storage.filter_indexed hij hbound hpositions fun k m hm _ =>
      Key.isInside_of_index? hi' hj hm).1
  case within =>
    intro hpositions hbound hij
    rw [hsize] at hpositions hbound ⊢
    have hle : i ≤ min j (values.length - 1) + 1 := by omega
    have hend : min j (values.length - 1) + 1 ≤ values.length := by omega
    obtain ⟨hinside, hothers⟩ := Storage.filter_indexed hle hend hpositions
      (p := lo.isWithin hi) fun k m hm hlt => by
        have hlast : m ≤ j ↔ m < min j (values.length - 1) + 1 := by omega
        rw [Key.isWithin_of_index? hi' hj hm, decide_eq_decide.2 hlast]
    rw [ArrayVar.entries_of_packed hv, hvalues, hinside, hothers, Storage.length_indexed,
      List.length_drop, List.length_take_of_le hend]
    exact ⟨rfl, rfl⟩

end

end ArrayStore

namespace Session

open ArrayStore

/-- Calls on a range of keys agree with filtering the entries by their keys, and a search without a
range with all entries.  In a map the bounds may be any keys.  In a list they have to name
positions, or the calls are refused, and nothing is different afterwards. -/
theorem ranges_agree {x : Session} (hx : x.Reachable) {id : UInt32} {a : ArrayVar}
    (hf : x.arrays.find? id = some a) {lo hi : Key} (hlo : lo.keyType = a.keyType)
    (hhi : hi.keyType = a.keyType) (target : Element) :
    find id target none x.arrays =
      .ok ((a.entries.find? fun p => p.2.equal target).map Prod.fst) x.arrays ∧
    (a.isPacked = false → MapRanges x.arrays id a lo hi target) ∧
    (a.isPacked = true →
      (∀ i j, lo.index? = some i → hi.index? = some j →
        ListRanges x.arrays id a lo hi i j target) ∧
      (lo.index? = none ∨ hi.index? = none → ∃ f, slice id lo hi x.arrays = .error f x.arrays ∧
        find id target (some (lo, hi)) x.arrays = .error f x.arrays ∧
        eraseElements id lo hi x.arrays = .error f x.arrays)) := by
  refine ⟨find_all_of_find? hf target, fun hp => ?_, fun hp => ?_⟩
  · obtain ⟨entries, he, hasc, -⟩ := hx.sorted hf hp
    exact mapRanges hx.noneReserved hf hlo hhi he hp hasc target
  · have hv := hx.packed hf hp
    exact ⟨fun i j hi hj => listRanges hx.noneReserved hf hlo hhi hv hp hi hj target,
      fun h => ranges_refused hf hlo hhi hv h target⟩

/-- a map with number keys, the last of them a NaN, and a list of three elements -/
def spread : List Event :=
  [.arrays (.createMap [(.number (.ofNat 2), .string "b"), (.number ⟨0⟩, .string "a"),
      (.number ⟨0x7FF8000000000000⟩, .string "c")] 1),
    .arrays (.createList [.string "a", .string "b", .string "a"] 1)]

theorem ranges_agree_spread :
    (∃ a, (run .standard spread).arrays.find? 1 = some a ∧
      MapRanges (run .standard spread).arrays 1 a (.number ⟨0x8000000000000000⟩)
        (.number ⟨0x7FF8000000000000⟩) (.string "b")) ∧
    ∃ a, (run .standard spread).arrays.find? 2 = some a ∧
      ListRanges (run .standard spread).arrays 2 a (Key.ofIndex 1) (Key.ofIndex 3) 1 3
        (.string "a") := by
  have hkinds : ∀ p ∈ (run .standard spread).arrays.toList,
      p.2.keyType = .number ∧ p.2.isPacked = decide (p.1 = 2) := by decide +kernel
  have hsome : ((run .standard spread).arrays.find? 1).isSome ∧
      ((run .standard spread).arrays.find? 2).isSome := by decide +kernel
  obtain ⟨a, ha⟩ := Option.isSome_iff_exists.1 hsome.1
  obtain ⟨b, hb⟩ := Option.isSome_iff_exists.1 hsome.2
  obtain ⟨htype, hp⟩ := hkinds _ (HandleTable.handleOf_mem_toList.2 ha)
  obtain ⟨htype', hp'⟩ := hkinds _ (HandleTable.handleOf_mem_toList.2 hb)
  have hnumber : ∀ m, (Key.number m).keyType = a.keyType := fun _ => htype.symm
  have hindex : ∀ i, (Key.ofIndex i).keyType = b.keyType := fun _ => htype'.symm
  obtain ⟨-, hmap, -⟩ := ranges_agree (reachable_run .standard spread) ha
    (hnumber ⟨0x8000000000000000⟩) (hnumber ⟨0x7FF8000000000000⟩) (.string "b")
  obtain ⟨-, -, hlist⟩ := ranges_agree (reachable_run .standard spread) hb
    (hindex 1) (hindex 3) (.string "a")
  exact ⟨⟨a, ha, hmap hp⟩, b, hb, (hlist hp').1 1 3 (Key.index?_ofIndex (by decide))
    (Key.index?_ofIndex (by decide))⟩

end Session

end ScriptVars
