import ScriptVars.Proofs.Capturing

/-!
# The normal form of a dump

A dump that is put into a session comes back as another dump of the same variables: without
reserved bits, in the order of ids, and with at most one entry for each key.

* `Merges`                            the entries of a map as they come back;
* `StoreDump.NormalOf`                a dump as it comes back;
* `StoreDump.normal_form`             which dumps are accepted, and what comes back.
-/

namespace ScriptVars

/-! ## Entries -/

def firstWith (k : Key) (l : List (Key × Element)) : Option (Key × Element) :=
  l.find? fun p => k.same p.1

def lastWith (k : Key) (l : List (Key × Element)) : Option (Key × Element) :=
  l.reverse.find? fun p => k.same p.1

/-- entries in ascending order; under each key there is one with the first key and the last element
that a list has under it -/
structure Merges (l m : List (Key × Element)) : Prop where
  ascending : Ascending.IsAscending Key.compare m
  merged : ∀ k, firstWith k m =
    (firstWith k l).bind fun p => (lastWith k l).map fun q => (p.1, q.2)

section
variable {k k' : Key} {e : Element} {l m m' : List (Key × Element)}

theorem Key.same_iff : k.same k' = true ↔ k.compare k' = .eq := beq_iff_eq

theorem Key.same_congr (h : k.compare k' = .eq) (l : Key) : k.same l = k'.same l := by
  rw [same, same, Std.TransCmp.congr_left h]

theorem firstWith_cons (p : Key × Element) :
    firstWith k (p :: l) = if k.same p.1 then some p else firstWith k l := by
  rw [firstWith, List.find?_cons]
  cases k.same p.1 <;> rfl

theorem firstWith_insert (h : Ascending.IsAscending Key.compare l) :
    firstWith k (Ascending.insert Key.compare k' e l) =
      if k.same k' then some (((firstWith k l).map Prod.fst).getD k', e) else firstWith k l := by
  induction l with
  | nil => exact firstWith_cons (k', e)
  | cons q rest ih =>
    obtain ⟨hq, hrest⟩ := List.pairwise_cons.1 h
    rw [Ascending.insert]
    split
    · next hlt =>
      rw [firstWith_cons]
      by_cases hs : k.same k' = true
      · -- what is behind a key that is less than all others is not the same
        have hnone : firstWith k (q :: rest) = none := by
          refine List.find?_eq_none.2 fun r hr => ?_
          have hr : k'.compare r.1 = .lt := by
            rcases List.mem_cons.1 hr with rfl | hr
            · exact hlt
            · exact Std.TransCmp.lt_trans hlt (hq r hr)
          rw [Key.same_congr (Key.same_iff.1 hs), Key.same_iff, hr]
          decide
        rw [if_pos hs, if_pos hs, hnone]
        rfl
      · rw [if_neg hs, if_neg hs]
    · next heq =>
      have hsame : k.same q.1 = k.same k' := by
        rw [Key.same, Key.same, ← Std.TransCmp.congr_right heq]
      rw [firstWith_cons, firstWith_cons, hsame]
      split <;> rfl
    · next hgt =>
      rw [firstWith_cons, firstWith_cons]
      by_cases hs : k.same q.1 = true
      · have hne : ¬ k.same k' = true := by
          rw [Key.same_congr (Key.same_iff.1 hs), Key.same_iff, Std.OrientedCmp.lt_of_gt hgt]
          decide
        rw [if_pos hs, if_pos hs, if_neg hne]
      · rw [if_neg hs, if_neg hs]
        exact ih hrest

theorem firstWith_append (p : Key × Element) : firstWith k (l ++ [p]) =
    if k.same p.1 then some ((firstWith k l).getD p) else firstWith k l := by
  rw [firstWith, List.find?_append, List.find?_cons, List.find?_nil]
  cases hf : l.find? fun p => k.same p.1 <;> cases hs : k.same p.1 <;> simp [firstWith, hf]

theorem lastWith_append (p : Key × Element) : lastWith k (l ++ [p]) =
    if k.same p.1 then some p else lastWith k l := by
  rw [lastWith, List.reverse_append, List.reverse_singleton, List.singleton_append,
    List.find?_cons]
  cases hs : k.same p.1 <;> simp [lastWith]

theorem exists_lastWith {p : Key × Element} (h : firstWith k l = some p) :
    ∃ q, lastWith k l = some q := by
  have hs : k.same p.1 = true := List.find?_some (p := fun q : Key × Element => k.same q.1) h
  rw [← Option.isSome_iff_exists, lastWith, List.find?_isSome]
  exact ⟨p, List.mem_reverse.2 (List.mem_of_find?_eq_some h), hs⟩

theorem Merges.insert (h : Merges l m) (p : Key × Element) :
    Merges (l ++ [p]) (Ascending.insert Key.compare p.1 p.2 m) where
  ascending := Ascending.isAscending_insert h.ascending
  merged k := by
    rw [firstWith_insert h.ascending, firstWith_append, lastWith_append, h.merged k]
    by_cases hs : k.same p.1 = true
    · rw [if_pos hs, if_pos hs, if_pos hs]
      cases hf : firstWith k l with
      | none => rfl
      | some q =>
        obtain ⟨r, hr⟩ := exists_lastWith hf
        rw [hr]
        rfl
    · rw [if_neg hs, if_neg hs, if_neg hs]

/-- entries that are put in one after the other are merged -/
theorem merges_foldl (l : List (Key × Element)) :
    Merges l (l.foldl (fun m p => Ascending.insert Key.compare p.1 p.2 m) []) := by
  induction l using List.reverseRecOn with
  | nil => exact ⟨.nil, fun _ => rfl⟩
  | append_singleton l p ih =>
    rw [List.foldl_concat]
    exact ih.insert p

/-- in ascending order an entry is the only one under its key -/
theorem firstWith_of_mem (h : Ascending.IsAscending Key.compare m) {p : Key × Element}
    (hp : p ∈ m) : firstWith p.1 m = some p := by
  induction m with
  | nil => cases hp
  | cons q rest ih =>
    obtain ⟨hq, hrest⟩ := List.pairwise_cons.1 h
    rcases List.mem_cons.1 hp with rfl | hp
    · rw [firstWith_cons, if_pos (Key.same_iff.2 Std.ReflCmp.compare_self)]
    · have hne : ¬ p.1.same q.1 = true := by
        rw [Key.same_iff, Std.OrientedCmp.gt_of_lt (hq p hp)]
        decide
      rw [firstWith_cons, if_neg hne]
      exact ih hrest hp

theorem Merges.unique (h : Merges l m) (h' : Merges l m') : m = m' := by
  have hsub : ∀ {m m'}, Merges l m → Merges l m' → ∀ p ∈ m, p ∈ m' := fun h h' p hp => by
    have hf := firstWith_of_mem h.ascending hp
    rw [h.merged, ← h'.merged] at hf
    exact List.mem_of_find?_eq_some hf
  refine eq_of_pairwise_of_mem (fun p q hlt hgt => ?_) h.ascending h'.ascending fun p =>
    ⟨hsub h h' p, hsub h' h p⟩
  rw [Std.OrientedCmp.gt_of_lt hlt] at hgt
  cases hgt

end

/-! ## Dumps -/

structure ArrayDump.NormalOf (d n : ArrayDump) : Prop where
  id : n.id = handleOf d.id
  kind : n.kind = d.kind
  owner : n.owner = d.owner
  refs : n.refs = d.refs
  temporary : n.temporary = d.temporary
  /-- the elements of a list have their positions for keys -/
  packed : d.kind.isPacked = true → n.elements = Storage.indexed 0 (d.elements.map Prod.snd)
  sorted : d.kind.isPacked = false → Merges d.elements n.elements

structure StoreDump.NormalOf (d n : StoreDump) : Prop where
  arrays_ascending : n.arrays.Pairwise fun a b => a.id.toNat < b.id.toNat
  arrays : (∀ a ∈ d.arrays, ∃ b ∈ n.arrays, a.NormalOf b) ∧
    ∀ b ∈ n.arrays, ∃ a ∈ d.arrays, a.NormalOf b
  strings_ascending : n.strings.Pairwise fun v w => v.id.toNat < w.id.toNat
  strings : ∀ w, w ∈ n.strings ↔ ∃ v ∈ d.strings, w = { v with id := handleOf v.id }

theorem ArrayDump.NormalOf.unique {d n n' : ArrayDump} (h : d.NormalOf n) (h' : d.NormalOf n') :
    n = n' := by
  have helements : n.elements = n'.elements := by
    cases hp : d.kind.isPacked with
    | true => rw [h.packed hp, h'.packed hp]
    | false => exact (h.sorted hp).unique (h'.sorted hp)
  obtain ⟨id, kind, owner, refs, temporary, elements⟩ := n
  obtain ⟨id', kind', owner', refs', temporary', elements'⟩ := n'
  obtain ⟨rfl, rfl, rfl, rfl, rfl, -, -⟩ := h
  obtain ⟨rfl, rfl, rfl, rfl, rfl, -, -⟩ := h'
  exact congrArg _ helements

/-- what an array holds comes from the entries it is made of -/
theorem Storage.mem_of_mem_storageFrom {kind : ArrayKind} {l : List (Key × Element)} {e : Element}
    (h : e ∈ (kind.storageFrom l).values) : e ∈ l.map Prod.snd := by
  have hholds : (kind.storageFrom l).Holds (fun _ => True) (· ∈ l.map Prod.snd) :=
    holds_storageFrom fun p hp => ⟨trivial, List.mem_map_of_mem hp⟩
  exact hholds.mem_values e h

theorem ArrayDump.normalOf_toArray (d : ArrayDump) :
    d.NormalOf (ofArray (handleOf d.id) d.toArray d.temporary) where
  id := rfl
  kind := rfl
  owner := rfl
  refs := rfl
  temporary := rfl
  packed hp := by
    show (d.kind.storageFrom d.elements).entries = _
    rw [ArrayKind.storageFrom, if_pos hp]
    rfl
  sorted hp := by
    show Merges d.elements (d.kind.storageFrom d.elements).entries
    rw [ArrayKind.storageFrom, if_neg (Bool.eq_false_iff.1 hp)]
    exact merges_foldl d.elements

namespace StoreDump

variable {d n n' : StoreDump} {s t : Session}

theorem NormalOf.unique (h : d.NormalOf n) (h' : d.NormalOf n') : n = n' := by
  have hsub : ∀ {n n'}, d.NormalOf n → d.NormalOf n' → ∀ b ∈ n.arrays, b ∈ n'.arrays :=
    fun h h' b hb => by
      obtain ⟨a, ha, hab⟩ := h.arrays.2 b hb
      obtain ⟨c, hc, hac⟩ := h'.arrays.1 a ha
      rwa [hab.unique hac]
  have harrays : n.arrays = n'.arrays :=
    eq_of_pairwise_of_mem (fun _ _ => Nat.lt_asymm) h.arrays_ascending h'.arrays_ascending fun b =>
      ⟨hsub h h' b, hsub h' h b⟩
  have hstrings : n.strings = n'.strings :=
    eq_of_pairwise_of_mem (fun _ _ => Nat.lt_asymm) h.strings_ascending h'.strings_ascending
      fun w => (h.strings w).trans (h'.strings w).symm
  obtain ⟨arrays, strings⟩ := n
  obtain ⟨arrays', strings'⟩ := n'
  exact congrArg₂ StoreDump.mk harrays hstrings

theorem Installed.of_mem_toList (h : d.Installed s) {p : UInt32 × ArrayVar}
    (hp : p ∈ s.arrays.toList) : ∃ a ∈ d.arrays, p.1 = handleOf a.id ∧ p.2 = a.toArray := by
  obtain ⟨hself, hf⟩ := HandleTable.mem_toList.1 hp
  obtain ⟨a, ha, e⟩ := h.arrays.only p.1 (Option.isSome_of_eq_some hf)
  have hfind := h.arrays.find? a ha
  rw [s.arrays.find?_congr e, hf] at hfind
  exact ⟨a, ha, hself.symm.trans e.symm, Option.some.inj hfind⟩

theorem Installed.mem_toList (h : d.Installed s) {a : ArrayDump} (ha : a ∈ d.arrays) :
    (handleOf a.id, a.toArray) ∈ s.arrays.toList :=
  HandleTable.handleOf_mem_toList.2 (h.arrays.find? a ha)

theorem Installed.isTemporary_handleOf (h : d.Installed s) {a : ArrayDump} (ha : a ∈ d.arrays) :
    s.arrays.isTemporary (handleOf a.id) = a.temporary := by
  rw [← h.arrays.isTemporary a ha, HandleTable.isTemporary, HandleTable.isTemporary,
    handleOf_handleOf]

theorem normalOf_capture (h : d.Installed s) : d.NormalOf (capture s) where
  arrays_ascending := List.pairwise_map.2 s.arrays.ascending_toList
  arrays := by
    have hnormal : ∀ a ∈ d.arrays, a.NormalOf
        (.ofArray (handleOf a.id) a.toArray (s.arrays.isTemporary (handleOf a.id))) := fun a ha => by
      rw [h.isTemporary_handleOf ha]
      exact a.normalOf_toArray
    refine ⟨fun a ha => ⟨_, mem_arrays_capture.2 ⟨_, h.mem_toList ha, rfl⟩, hnormal a ha⟩,
      fun b hb => ?_⟩
    obtain ⟨p, hp, rfl⟩ := mem_arrays_capture.1 hb
    obtain ⟨a, ha, hid, harray⟩ := h.of_mem_toList hp
    rw [hid, harray]
    exact ⟨a, ha, hnormal a ha⟩
  strings_ascending := List.pairwise_map.2 s.strings.ascending_toList
  strings w := by
    rw [capture, List.mem_map]
    constructor
    · rintro ⟨⟨i, value⟩, hp, rfl⟩
      obtain ⟨hself, hf⟩ := HandleTable.mem_toList.1 hp
      obtain ⟨v, hv, e⟩ := h.strings.only i (Option.isSome_of_eq_some hf)
      have hfind := h.strings.find? v hv
      rw [s.strings.find?_congr e, hf] at hfind
      obtain rfl := Option.some.inj hfind
      refine ⟨v, hv, ?_⟩
      rw [e, hself]
      rfl
    · rintro ⟨v, hv, rfl⟩
      refine ⟨(handleOf v.id, v.toString), ?_, rfl⟩
      exact HandleTable.handleOf_mem_toList.2 (h.strings.find? v hv)

/-- what a consistent dump leaves behind can be captured and put back -/
theorem Installed.dumpable (hd : d.Consistent) (h : d.Installed s) : s.Dumpable where
  targets p hp id hid := by
    obtain ⟨a, ha, -, harray⟩ := h.of_mem_toList hp
    rw [harray] at hid
    obtain ⟨q, hq, he⟩ := List.mem_map.1 (Storage.mem_of_mem_storageFrom hid)
    obtain ⟨i, hi⟩ := List.mem_iff_getElem?.1 hq
    have hfit := hd.entries a ha (q, i) (List.mk_mem_zipIdx_iff_getElem?.2 hi)
    refine (hfit.target id he).imp_right fun hm => ?_
    obtain ⟨b, hb, rfl⟩ := List.mem_map.1 hm
    rw [HandleTable.handles_eq]
    exact List.mem_map_of_mem (f := Prod.fst) (h.mem_toList hb)
  sizes p hp hpacked := by
    obtain ⟨a, ha, -, harray⟩ := h.of_mem_toList hp
    rw [harray] at hpacked ⊢
    have hp : a.kind.isPacked = true := hpacked
    have hsize : a.toArray.size = a.elements.length := by
      show (a.kind.storageFrom a.elements).size = _
      rw [ArrayKind.storageFrom, if_pos hp]
      exact List.length_map ..
    rw [hsize]
    exact length_le_of_index? fun i q hq =>
      (hd.entries a ha (q, i) (List.mk_mem_zipIdx_iff_getElem?.2 hq)).index hp

/-- A dump is accepted if and only if it is consistent, and what is captured then is its normal
form.  That can be put into a session as well, and comes back as it is. -/
theorem normal_form (d : StoreDump) (config : Config) :
    ((∃ s, d.apply (Session.start config) = .ok () s) ↔ d.Consistent) ∧
    ∀ s, d.apply (Session.start config) = .ok () s →
      (∀ n, d.NormalOf n ↔ n = capture s) ∧
      ∀ config', ∃ t, (capture s).apply (Session.start config') = .ok () t ∧
        capture t = capture s := by
  refine ⟨exists_apply, fun s h => ?_⟩
  obtain ⟨hd, hinstalled, -⟩ := of_apply_eq_ok h
  have hnormal := normalOf_capture hinstalled
  refine ⟨fun n => ⟨fun hn => hn.unique hnormal, fun e => e ▸ hnormal⟩, fun config' => ?_⟩
  have hstep : (Session.start config).step (.apply d) = s := by
    show d.apply.after _ = s
    rw [Action.after, h]
  have hs : s.Reachable := hstep ▸ .step (.apply d) (.start config)
  obtain ⟨t, ht⟩ := ((consistent_capture hs).2 (hinstalled.dumpable hd)).exists_apply
    (Session.start config')
  obtain ⟨-, hagain, -⟩ := of_apply_eq_ok ht
  exact ⟨t, ht, (alike_of_installed hs hagain).capture_eq⟩

theorem of_toSession {config : Config} (h : (d.toSession config).toOption = some s) :
    d.apply (Session.start config) = .ok () s :=
  toSession_eq_ok.1 (Failure.toOption_eq_some.1 h)

/-- ids with reserved bits, in no order; and a map with a key that comes twice, once as a negative
zero -/
def jumbled : StoreDump where
  arrays := [
    ⟨0x20000002, .map, 3, [3], true, [(.number ⟨0x8000000000000000⟩, .array 1),
      (.number ⟨0x3FF0000000000000⟩, .form 7), (.number ⟨0⟩, .string "last")]⟩,
    ⟨1, .array, 4, [], false, [(.number ⟨0x8000000000000000⟩, .array 2)]⟩]
  strings := [⟨9, 3, "second"⟩, ⟨0x10000004, 3, "first"⟩]

def ordered : StoreDump where
  arrays := [
    ⟨1, .array, 4, [], false, [(Key.ofIndex 0, .array 2)]⟩,
    ⟨2, .map, 3, [3], true, [(.number ⟨0x8000000000000000⟩, .string "last"),
      (.number ⟨0x3FF0000000000000⟩, .form 7)]⟩]
  strings := [⟨4, 3, "first"⟩, ⟨9, 3, "second"⟩]

theorem normal_form_jumbled : jumbled.Consistent ∧ jumbled.NormalOf ordered ∧
    ∃ t, ordered.apply (.start .standard) = .ok () t ∧ capture t = ordered := by
  obtain ⟨haccepted, hnormal⟩ := normal_form jumbled .standard
  have hsession : (jumbled.toSession .standard).toOption.map capture = some ordered := by
    decide +kernel
  obtain ⟨s, hs, hcapture⟩ := Option.map_eq_some_iff.1 hsession
  have h := of_toSession hs
  have hback := hnormal s h
  rw [hcapture] at hback
  exact ⟨haccepted.1 ⟨s, h⟩, (hback.1 ordered).2 rfl, hback.2 .standard⟩

end StoreDump

end ScriptVars
