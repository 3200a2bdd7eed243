import ScriptVars.Proofs.Positions
import ScriptVars.Proofs.SingleChanges
import ScriptVars.Proofs.Sorting

/-!
# Packed arrays as lists

An edit of a packed array does to its values what the operation of that name does to a list, and
nothing to any other array.  It is refused for a position that is out of range, for an element that
names an array that is not there, also where that element would not be stored, and for an overlong
text that would be.

* `Element.overlong?`                 why a list does not take a text;
* `Storage.write_packed`, …           the edits of a list, refused or not;
* `ArrayStore.Relisted`, `Relists`    a list with other values, and what makes it have them;
* `Session.edits_relist`              the edits of a list in a session;
* `Session.not_resize_shrinks`        a list may be cut only with a pad that could be stored.
-/

namespace ScriptVars

open ScriptVars.Action

/-! ## Refusals -/

def Element.overlong? : Element → Option Failure
  | string s =>
    if maxTextBytes < s.utf8ByteSize then
      some (.typeMismatch (.textTooLong s.utf8ByteSize maxTextBytes))
    else none
  | _ => none

theorem Element.checkText_eq (e : Element) :
    e.checkText = match e.overlong? with
      | some f => .error f
      | none => .ok () := by
  cases e with
  | string s =>
    rw [overlong?]
    show ScriptVars.checkText s = _
    rw [ScriptVars.checkText]
    split <;> rfl
  | _ => rfl

namespace Storage

variable (values : List Element) {k : Key} {i : Nat}

theorem write_packed (hk : k.index? = some i) (e : Element) : (packed values).write k e =
    match e.overlong? with
    | some f => .error f
    | none =>
      .ok (packed (if i < values.length then values.set i e else values ++ [e]), values[i]?) := by
  have hkey : k.checkText = .ok () := by
    obtain ⟨x, rfl, -⟩ := Key.exists_of_index? hk
    rfl
  rw [write, hkey, e.checkText_eq]
  cases e.overlong? with
  | some f => rfl
  | none =>
    show (k.position >>= _) = _
    rw [Key.position_of_index? hk]
    show (if i < values.length then _ else _ : Except Failure (Storage × Option Element)) = _
    split
    · rfl
    · next hi =>
      rw [List.getElem?_eq_none (Nat.le_of_not_lt hi)]
      rfl

theorem insert_packed (i : Nat) (new : List Element) : (packed values).insert i new =
    match if values.length < i then some (.range i values.length) else none with
    | some f => .error f
    | none => checkTexts new >>= fun _ => .ok (packed (values.take i ++ new ++ values.drop i)) := by
  rw [insert]
  by_cases hi : values.length < i
  · rw [if_pos hi, if_pos hi]
    rfl
  · rw [if_neg hi, if_neg hi]
    rfl

/-- a list that is cut has no need of a pad -/
theorem resize_packed (n : Nat) (pad : Element) : (packed values).resize n pad =
    match if n < values.length then none else pad.overlong? with
    | some f => .error f
    | none =>
      .ok (packed (values.take n ++ List.replicate (n - values.length) pad), values.drop n) := by
  rw [resize]
  by_cases hn : n < values.length
  · rw [if_pos hn, if_pos hn, Nat.sub_eq_zero_of_le (Nat.le_of_lt hn), List.replicate_zero,
      List.append_nil]
    rfl
  · have hle : values.length ≤ n := Nat.le_of_not_lt hn
    rw [if_neg hn, if_neg hn, pad.checkText_eq, List.take_of_length_le hle,
      List.drop_of_length_le hle]
    cases pad.overlong? with
    | some f => rfl
    | none => rfl

theorem erase_packed (hk : k.index? = some i) : (packed values).erase k =
    match if values.length ≤ i then some (.range i values.length) else none with
    | some f => .error f
    | none => .ok (packed (values.eraseIdx i), values[i]?) := by
  rw [erase, Key.position_of_index? hk]
  show (if values.length ≤ i then _ else _ : Except Failure (Storage × Option Element)) = _
  by_cases hi : values.length ≤ i
  · rw [if_pos hi, if_pos hi]
    rfl
  · rw [if_neg hi, if_neg hi]
    rfl

end Storage

/-! ## Lists -/

namespace ArrayStore

variable {s t : ArrayStore} {id : UInt32} {a : ArrayVar} {values : List Element}

/-- A list has other values.  Its keys name their positions in order, and under a key that names a
position stands the value there.  Nothing else is different, but for references by the owner of the
list. -/
structure Relisted (s t : ArrayStore) (id : UInt32) (a : ArrayVar) (values : List Element) :
    Prop where
  becomes : Becomes s t id { a with storage := .packed values }
  entries : ∃ l, t.entries? id = some l ∧ l.map Prod.snd = values ∧
    l.map Prod.fst = (List.range values.length).map Key.ofIndex
  element : ∀ k i, k.index? = some i → t.getElement? id k = values[i]?
  position : ∀ i ≤ Key.greatestIndex, t.getElement? id (Key.ofIndex i) = values[i]?

/-- an edit that is refused for some reason, or else gives a list other values -/
def Relists {α : Type} (x : Action ArrayStore α) (s : ArrayStore) (id : UInt32) (a : ArrayVar)
    (refusal : Option Failure) (result : α) (values : List Element) : Prop :=
  match refusal with
  | some f => x s = .error f s
  | none => ∃ t, x s = .ok result t ∧ Relisted s t id a values

theorem splice_one (hv : a.storage = .packed values) (i : Nat) (e : Element) : splice id a i [e] s =
    match (if values.length < i then some (.range i values.length) else none).or e.overlong? with
    | some f => .error f s
    | none => .ok ()
      (s.exchange id a (.packed (values.take i ++ [e] ++ values.drop i)) [e] []) := by
  rw [splice_eq, hv, Storage.insert_packed, checkTexts, e.checkText_eq]
  generalize (if values.length < i then some (Failure.range i values.length) else none) = refusal
  cases refusal with
  | some f => rfl
  | none => cases e.overlong? <;> rfl

section
variable (hf : s.find? id = some a) (hp : a.isPacked = true)
include hf hp

theorem relisted_exchange (values new gone : List Element) :
    Relisted s (s.exchange id a (.packed values) new gone) id a values := by
  have hbecomes := becomes_exchange hf (.packed values) new gone
  have helement : ∀ k i, k.index? = some i →
      (s.exchange id a (.packed values) new gone).getElement? id k = values[i]? := by
    intro k i hk
    have htype : k.keyType = ({ a with storage := .packed values } : ArrayVar).keyType :=
      (Key.keyType_of_index? hk).trans (ArrayKind.keyType_of_isPacked hp).symm
    rw [hbecomes.getElement?_eq, ArrayVar.get?_of_keyType htype, Storage.read?, hk]
  refine ⟨hbecomes, ⟨_, hbecomes.entries?_eq, Storage.map_snd_indexed 0 values, ?_⟩, helement,
    fun i hi => helement _ i (Key.index?_ofIndex hi)⟩
  rw [List.range_eq_range']
  exact map_fst_indexed 0 values

/-- what an edit comes to in the end -/
theorem relists_of_eq {α : Type} {x : Action ArrayStore α} {refusal : Option Failure} {result : α}
    (new gone : List Element) (h : x s = match refusal with
      | some f => .error f s
      | none => .ok result (s.exchange id a (.packed values) new gone)) :
    Relists x s id a refusal result values := by
  cases refusal with
  | some f => exact h
  | none => exact ⟨_, h, relisted_exchange hf hp values new gone⟩

variable (hv : a.storage = .packed values)
include hv

theorem relists_setElement {k : Key} {i : Nat} (hk : k.index? = some i) (e : Element) :
    Relists (setElement id k e) s id a ((s.missing? e).or e.overlong?) ()
      (if i < values.length then values.set i e else values ++ [e]) := by
  have htype : k.keyType = a.keyType :=
    (Key.keyType_of_index? hk).trans (ArrayKind.keyType_of_isPacked hp).symm
  refine relists_of_eq hf hp [e] values[i]?.toList ?_
  rw [setElement_of_find? hf, ArrayVar.set_of_keyType htype, hv, Storage.write_packed values hk]
  cases s.missing? e with
  | some f => rfl
  | none => cases e.overlong? <;> rfl

theorem relists_append (e : Element) :
    Relists (append id e) s id a ((s.missing? e).or e.overlong?) () (values ++ [e]) := by
  refine relists_of_eq hf hp [e] [] ?_
  rw [append_of_find? hf hp, ArrayVar.size_of_packed hv, splice_one hv, if_neg (Nat.lt_irrefl _),
    List.take_length, List.drop_length, List.append_nil]
  cases s.missing? e with
  | some f => rfl
  | none => rfl

theorem relists_insert (i : Nat) (e : Element) :
    Relists (insert id i e) s id a ((s.missing? e).or
        ((if values.length < i then some (.range i values.length) else none).or e.overlong?)) ()
      (values.take i ++ [e] ++ values.drop i) := by
  refine relists_of_eq hf hp [e] [] ?_
  rw [insert_of_find? hf, splice_one hv]
  cases s.missing? e with
  | some f => rfl
  | none => rfl

theorem relists_insertRange {source : UInt32} {b : ArrayVar} (hb : s.find? source = some b)
    (hshort : ∀ e ∈ b.values, e.Short) (i : Nat) :
    Relists (insertRange id i source) s id a
      (if values.length < i then some (.range i values.length) else none) ()
      (values.take i ++ b.values ++ values.drop i) := by
  refine relists_of_eq hf hp b.values [] ?_
  rw [insertRange_of_find? hf hb, splice_eq, hv, Storage.insert_packed,
    checkTexts_of_forall hshort]
  generalize (if values.length < i then some (Failure.range i values.length) else none) = refusal
  cases refusal <;> rfl

theorem relists_resize (n : Nat) (pad : Element) :
    Relists (resize id n pad) s id a
      ((s.missing? pad).or (if n < values.length then none else pad.overlong?)) ()
      (values.take n ++ List.replicate (n - values.length) pad) := by
  refine relists_of_eq hf hp (List.replicate (n - a.size) pad) (values.drop n) ?_
  rw [resize_of_find? hf, hv, Storage.resize_packed]
  cases s.missing? pad with
  | some f => rfl
  | none =>
    generalize (if n < values.length then none else pad.overlong?) = refusal
    cases refusal <;> rfl

theorem relists_eraseElement {k : Key} {i : Nat} (hk : k.index? = some i) :
    Relists (eraseElement id k) s id a
      (if values.length ≤ i then some (.range i values.length) else none) true
      (values.eraseIdx i) := by
  have htype : k.keyType = a.keyType :=
    (Key.keyType_of_index? hk).trans (ArrayKind.keyType_of_isPacked hp).symm
  refine relists_of_eq hf hp [] values[i]?.toList ?_
  rw [eraseElement_of_find? hf, ArrayVar.erase_of_keyType htype, hv,
    Storage.erase_packed values hk]
  by_cases hi : values.length ≤ i
  · rw [if_pos hi]
  · rw [if_neg hi, List.getElem?_eq_getElem (Nat.lt_of_not_le hi)]
    rfl

end

end ArrayStore

namespace Session

open ArrayStore

/-- Edits of a packed array are edits of a list, and refused for these reasons only.  A pad that
names an array that is not there is one of them, also where the array is cut. -/
theorem edits_relist {x : Session} (hx : x.Reachable) {id : UInt32} {a : ArrayVar}
    (hf : x.arrays.find? id = some a) (hp : a.isPacked = true) :
    (∀ k i e, k.index? = some i → Relists (setElement id k e) x.arrays id a
      ((missing? x.arrays e).or e.overlong?) ()
      (if i < a.size then a.values.set i e else a.values ++ [e])) ∧
    (∀ e, Relists (append id e) x.arrays id a
      ((missing? x.arrays e).or e.overlong?) () (a.values ++ [e])) ∧
    (∀ i e, Relists (insert id i e) x.arrays id a
      ((missing? x.arrays e).or ((if a.size < i then some (.range i a.size) else none).or
        e.overlong?)) () (a.values.take i ++ [e] ++ a.values.drop i)) ∧
    (∀ i source b, x.arrays.find? source = some b → Relists (insertRange id i source) x.arrays id a
      (if a.size < i then some (.range i a.size) else none) ()
      (a.values.take i ++ b.values ++ a.values.drop i)) ∧
    (∀ n pad, Relists (resize id n pad) x.arrays id a
      ((missing? x.arrays pad).or (if n < a.size then none else pad.overlong?)) ()
      (a.values.take n ++ List.replicate (n - a.size) pad)) ∧
    ∀ k i, k.index? = some i → Relists (eraseElement id k) x.arrays id a
      (if a.size ≤ i then some (.range i a.size) else none) true (a.values.eraseIdx i) := by
  have hv := hx.packed hf hp
  rw [ArrayVar.size_of_packed hv]
  refine ⟨fun k i e hk => relists_setElement hf hp hv hk e, relists_append hf hp hv,
    relists_insert hf hp hv, fun i source b hb => relists_insertRange hf hp hv hb ?_ i,
    relists_resize hf hp hv, fun k i hk => relists_eraseElement hf hp hv hk⟩
  intro e he
  rw [ArrayVar.values, ← Storage.map_snd_entries] at he
  obtain ⟨p, hmem, rfl⟩ := List.mem_map.1 he
  exact (hx.short (HandleTable.handleOf_mem_toList.2 hb) p hmem).2

def counted : List Event :=
  [.arrays (.createList [.number (.ofNat 1), .number (.ofNat 2), .number (.ofNat 3)] 1)]

theorem edits_relist_counted : ∃ a t, (run .standard counted).arrays.find? 1 = some a ∧
    a.isPacked = true ∧
    insertRange 1 1 1 (run .standard counted).arrays = .ok () t ∧
    Relisted (run .standard counted).arrays t 1 a
      (a.values.take 1 ++ a.values ++ a.values.drop 1) := by
  have hsome : ((run .standard counted).arrays.find? 1).isSome := by decide +kernel
  obtain ⟨a, ha⟩ := Option.isSome_iff_exists.1 hsome
  have hlists : ∀ p ∈ (run .standard counted).arrays.toList,
      p.2.isPacked = true ∧ 1 ≤ p.2.size := by decide +kernel
  obtain ⟨hp, hsize⟩ := hlists _ (HandleTable.handleOf_mem_toList.2 ha)
  obtain ⟨-, -, -, hrange, -⟩ := edits_relist (reachable_run .standard counted) ha hp
  have hself := hrange 1 1 a ha
  rw [if_neg (Nat.not_lt.2 hsize)] at hself
  obtain ⟨t, ht, hrelisted⟩ := hself
  exact ⟨a, t, ha, hp, ht, hrelisted⟩

/-- a pad that names no array stands in the way of a cut, where it would not be stored -/
theorem not_resize_shrinks :
    ¬ ∀ (events : List Event) (id : UInt32) (a : ArrayVar) (n : Nat) (pad : Element),
      (run .standard events).arrays.find? id = some a → a.isPacked = true → n < a.size →
      ∃ t, resize id n pad (run .standard events).arrays = .ok () t ∧
        Relisted (run .standard events).arrays t id a (a.values.take n) := by
  intro hresize
  have hsome : ((run .standard counted).arrays.find? 1).isSome := by decide +kernel
  obtain ⟨a, ha⟩ := Option.isSome_iff_exists.1 hsome
  have hlists : ∀ p ∈ (run .standard counted).arrays.toList,
      p.2.isPacked = true ∧ 1 < p.2.size := by decide +kernel
  obtain ⟨hp, hsize⟩ := hlists _ (HandleTable.handleOf_mem_toList.2 ha)
  obtain ⟨t, ht, -⟩ := hresize counted 1 a 1 (.array 99) ha hp hsize
  have hmissing : missing? (run .standard counted).arrays (.array 99) = some (.notFound 99) := by
    decide +kernel
  rw [resize_of_find? ha, hmissing] at ht
  cases ht

end Session

end ScriptVars
