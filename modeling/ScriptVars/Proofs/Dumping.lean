import ScriptVars.Proofs.Restore
import ScriptVars.Proofs.Saving

/-!
# What a dump does to a session

* `EntryFits`                      an entry that an array of a kind takes at a position;
* `ArrayDump.fill_eq_ok`           entries are put in as long as all of them fit;
* `StoreDump.Consistent`           a dump that can be put into a session;
* `StoreDump.Installed`            a session that holds what a dump says;
* `StoreDump.exists_apply`         consistent dumps are accepted, and no others;
* `StoreDump.of_apply_eq_ok`       what they leave behind.
-/

namespace ScriptVars

open ScriptVars.Action

/-! ## Entries -/

theorem Key.checkText_eq_ok {k : Key} : k.checkText = .ok () ↔ k.Short := by
  refine ⟨Key.short_of_checkText, fun h => ?_⟩
  cases k with
  | number x => rfl
  | text s => exact ScriptVars.checkText_eq_ok.2 (h s rfl)

theorem Element.checkText_eq_ok {e : Element} : e.checkText = .ok () ↔ e.Short := by
  refine ⟨Element.short_of_checkText, fun h => ?_⟩
  cases e with
  | string s => exact ScriptVars.checkText_eq_ok.2 (h s rfl)
  | _ => rfl

/-- an entry that an array of a kind takes at a position; ids are zero or known -/
structure EntryFits (known : UInt32 → Prop) (kind : ArrayKind) (i : Nat) (p : Key × Element) :
    Prop where
  index : kind.isPacked = true → p.1.index? = some i
  keyType : kind.isPacked = false → p.1.keyType = kind.keyType
  keyText : p.1.Short
  text : p.2.Short
  target : ∀ id, p.2 = .array id → id = 0 ∨ known id

/-- only numbers name positions -/
theorem EntryFits.keyType_eq {known : UInt32 → Prop} {kind : ArrayKind} {i : Nat}
    {p : Key × Element} (h : EntryFits known kind i p) : p.1.keyType = kind.keyType := by
  cases hp : kind.isPacked with
  | false => exact h.keyType hp
  | true =>
    have hi := h.index hp
    obtain ⟨k, e⟩ := p
    cases k with
    | number x => cases kind <;> first | rfl | cases hp
    | text s => cases hi

theorem EntryFits.mono {known known' : UInt32 → Prop} {kind : ArrayKind} {i : Nat}
    {p : Key × Element} (h : EntryFits known kind i p) (hk : ∀ id, known id → known' id) :
    EntryFits known' kind i p :=
  { h with target := fun id hid => (h.target id hid).imp_right (hk id) }

namespace Storage

/-- an entry behind those of a list, or under its key in a map -/
def put : Storage → Key × Element → Storage
  | packed values, p => packed (values ++ [p.2])
  | sorted entries, p => sorted (Ascending.insert Key.compare p.1 p.2 entries)

theorem isPacked_put (s : Storage) (p : Key × Element) : (s.put p).isPacked = s.isPacked := by
  cases s <;> rfl

theorem exists_write {s t : Storage} {k : Key} {e : Element}
    (hi : s.isPacked = true → k.index? = some s.size) :
    (∃ old, s.write k e = .ok (t, old)) ↔ k.Short ∧ e.Short ∧ t = s.put (k, e) := by
  rw [← Key.checkText_eq_ok, ← Element.checkText_eq_ok]
  constructor
  · rintro ⟨old, h⟩
    unfold Storage.write at h
    obtain ⟨⟨⟩, hk, h⟩ := Failure.bind_eq_ok.1 h
    obtain ⟨⟨⟩, he, h⟩ := Failure.bind_eq_ok.1 h
    refine ⟨hk, he, ?_⟩
    cases s with
    | packed values =>
      have hi : k.index? = some values.length := hi rfl
      simp only [Key.position, hi] at h
      obtain ⟨i, hp, h⟩ := Failure.bind_eq_ok.1 h
      cases hp
      rw [if_neg (Nat.lt_irrefl _)] at h
      cases h
      rfl
    | sorted entries =>
      cases h
      rfl
  · rintro ⟨hk, he, rfl⟩
    unfold Storage.write
    rw [hk, he]
    cases s with
    | packed values =>
      have hi : k.index? = some values.length := hi rfl
      refine ⟨none, ?_⟩
      show (do
        let i ← k.position
        if i < values.length then return (packed (values.set i e), values[i]?)
        else return (packed (values ++ [e]), none) : Except Failure (Storage × Option Element)) = _
      rw [Key.position, hi]
      exact if_neg (Nat.lt_irrefl _)
    | sorted entries => exact ⟨_, rfl⟩

end Storage

theorem ArrayKind.foldl_put (kind : ArrayKind) (entries : List (Key × Element)) :
    entries.foldl Storage.put kind.emptyStorage = kind.storageFrom entries := by
  have hpacked : ∀ (l : List (Key × Element)) values,
      l.foldl Storage.put (.packed values) = .packed (values ++ l.map Prod.snd) := by
    intro l
    induction l with
    | nil => simp
    | cons p l ih =>
      intro values
      rw [List.foldl_cons, Storage.put, ih, List.map_cons, List.append_assoc, List.singleton_append]
  have hsorted : ∀ (l m : List (Key × Element)), l.foldl Storage.put (.sorted m) =
      .sorted (l.foldl (fun m p => Ascending.insert Key.compare p.1 p.2 m) m) := by
    intro l
    induction l with
    | nil => simp
    | cons p l ih =>
      intro m
      rw [List.foldl_cons, Storage.put, ih, List.foldl_cons]
  rw [ArrayKind.emptyStorage, ArrayKind.storageFrom]
  split
  · rw [hpacked, List.nil_append]
  · exact hsorted entries []

/-- an array whose storage belongs to its kind, with `i` elements if it is packed -/
structure ArrayVar.FilledTo (a : ArrayVar) (i : Nat) : Prop where
  isPacked : a.storage.isPacked = a.kind.isPacked
  size : a.storage.isPacked = true → a.storage.size = i

theorem ArrayVar.FilledTo.put {a : ArrayVar} {i : Nat} (h : a.FilledTo i) (p : Key × Element) :
    FilledTo { a with storage := a.storage.put p } (i + 1) where
  isPacked := (a.storage.isPacked_put p).trans h.isPacked
  size hp := by
    obtain ⟨kind, owner, refs, storage⟩ := a
    cases storage with
    | packed values => exact List.length_append.trans (congrArg (· + 1) (h.size rfl))
    | sorted entries => cases hp

theorem ArrayVar.exists_set {a b : ArrayVar} {i : Nat} (ha : a.FilledTo i) {k : Key} {e : Element}
    (hi : a.isPacked = true → k.index? = some i) :
    (∃ old, a.set k e = .ok (b, old)) ↔
      k.keyType = a.keyType ∧ k.Short ∧ e.Short ∧
        b = { a with storage := a.storage.put (k, e) } := by
  have hw := fun t => a.storage.exists_write (t := t) (k := k) (e := e) fun hp =>
    (hi (ha.isPacked.symm.trans hp)).trans (congrArg some (ha.size hp).symm)
  constructor
  · rintro ⟨old, h⟩
    obtain ⟨hk, storage, hwrite, rfl⟩ := ArrayVar.set_eq_ok h
    obtain ⟨hkey, he, rfl⟩ := (hw storage).1 ⟨old, hwrite⟩
    exact ⟨hk, hkey, he, rfl⟩
  · rintro ⟨hk, hkey, he, rfl⟩
    obtain ⟨old, hwrite⟩ := (hw _).2 ⟨hkey, he, rfl⟩
    refine ⟨old, ?_⟩
    rw [ArrayVar.set, checkKey, if_pos hk]
    exact Failure.bind_eq_ok.2 ⟨⟨⟩, rfl, Failure.bind_eq_ok.2 ⟨_, hwrite, rfl⟩⟩

namespace ArrayDump

variable {handle : UInt32} {known : HandleSet} {i : Nat} {a b : ArrayVar}

theorem fill_cons (k : Key) (e : Element) (rest : List (Key × Element))
    (hi : a.isPacked = true → k.index? = some i) (ht : ∀ id, e = .array id → id = 0 ∨ id ∈ known) :
    fill handle known i a ((k, e) :: rest) =
      (do let (a, _) ← a.set k e; fill handle known (i + 1) a rest) := by
  rw [fill]
  have hindex : ¬ (a.isPacked && decide (k.index? ≠ some i)) = true := by
    rw [Bool.and_eq_true, decide_eq_true_eq]
    exact fun h => h.2 (hi h.1)
  rw [if_neg hindex]
  cases e with
  | array target =>
    have htarget : ¬ (decide (target ≠ 0) && !known.contains target) = true := by
      rw [Bool.and_eq_true, decide_eq_true_eq, Bool.not_eq_true', ← Bool.not_eq_true,
        Std.ExtTreeSet.contains_iff_mem]
      exact fun h => (ht target rfl).elim h.1 h.2
    dsimp only
    rw [if_neg htarget]
  | _ => rfl

theorem of_fill_cons {k : Key} {e : Element} {rest : List (Key × Element)}
    (h : fill handle known i a ((k, e) :: rest) = .ok b) :
    (a.isPacked = true → k.index? = some i) ∧ ∀ id, e = .array id → id = 0 ∨ id ∈ known := by
  rw [fill] at h
  split at h
  · obtain ⟨_, h, -⟩ := Failure.bind_eq_ok.1 h
    cases h
  · next hindex =>
    rw [Bool.and_eq_true, decide_eq_true_eq, not_and, not_not] at hindex
    refine ⟨hindex, ?_⟩
    rintro id rfl
    dsimp only at h
    split at h
    · obtain ⟨_, h, -⟩ := Failure.bind_eq_ok.1 h
      cases h
    · next htarget =>
      rw [Bool.and_eq_true, decide_eq_true_eq, Bool.not_eq_true', ← Bool.not_eq_true,
        Std.ExtTreeSet.contains_iff_mem, not_and_or, not_not, not_not] at htarget
      exact htarget

/-- entries are put in one after the other, as long as each of them fits -/
theorem fill_eq_ok (ha : a.FilledTo i) {l : List (Key × Element)} :
    fill handle known i a l = .ok b ↔
      (∀ q ∈ l.zipIdx i, EntryFits (· ∈ known) a.kind q.2 q.1) ∧
        b = { a with storage := l.foldl Storage.put a.storage } := by
  induction l generalizing i a with
  | nil =>
    rw [fill, Except.ok.injEq, List.zipIdx_nil]
    exact ⟨fun h => ⟨List.forall_mem_nil _, h.symm⟩, fun h => h.2.symm⟩
  | cons p rest ih =>
    obtain ⟨k, e⟩ := p
    rw [List.zipIdx_cons, List.forall_mem_cons, List.foldl_cons]
    constructor
    · intro h
      obtain ⟨hi, ht⟩ := of_fill_cons h
      rw [fill_cons k e rest hi ht] at h
      obtain ⟨⟨c, old⟩, hset, hrest⟩ := Failure.bind_eq_ok.1 h
      obtain ⟨hk, hkey, he, rfl⟩ := (ArrayVar.exists_set ha hi).1 ⟨old, hset⟩
      obtain ⟨hfit, rfl⟩ := (ih (ha.put (k, e))).1 hrest
      exact ⟨⟨⟨hi, fun _ => hk, hkey, he, ht⟩, hfit⟩, rfl⟩
    · rintro ⟨⟨hp, hfit⟩, rfl⟩
      rw [fill_cons k e rest hp.index hp.target]
      obtain ⟨old, hset⟩ := (ArrayVar.exists_set ha hp.index).2 ⟨hp.keyType_eq, hp.keyText, hp.text, rfl⟩
      exact Failure.bind_eq_ok.2 ⟨_, hset, (ih (ha.put (k, e))).2 ⟨hfit, rfl⟩⟩

def toArray (d : ArrayDump) : ArrayVar :=
  ⟨d.kind, d.owner, d.refs, d.kind.storageFrom d.elements⟩

theorem fill_empty_eq_ok {d : ArrayDump} :
    fill handle known 0 (.empty d.kind d.owner d.refs) d.elements = .ok b ↔
      (∀ q ∈ d.elements.zipIdx, EntryFits (· ∈ known) d.kind q.2 q.1) ∧ b = d.toArray := by
  have hempty : (ArrayVar.empty d.kind d.owner d.refs).FilledTo 0 := by
    cases hkind : d.kind <;> exact ⟨rfl, fun _ => rfl⟩
  rw [fill_eq_ok hempty]
  show _ ∧ b = ⟨d.kind, d.owner, d.refs, d.elements.foldl Storage.put d.kind.emptyStorage⟩ ↔ _
  rw [d.kind.foldl_put]
  rfl

end ArrayDump

/-! ## Tables -/

namespace HandleTable

variable {α β : Type} {t t' : HandleTable α}

/-- a table with one more variable, which may be temporary -/
structure Gains (t : HandleTable α) (id : UInt32) (value : α) (temporary : Bool)
    (t' : HandleTable α) : Prop where
  find? : ∀ i, t'.find? i = if handleOf id = handleOf i then some value else t.find? i
  isTemporary : ∀ i,
    t'.isTemporary i = if handleOf id = handleOf i then temporary else t.isTemporary i

theorem isTemporary_eq_false {i : UInt32} (hn : t.find? i = none) : t.isTemporary i = false := by
  rw [Bool.eq_false_iff]
  intro htemporary
  have hs := find?_isSome_of_isTemporary htemporary
  rw [hn] at hs
  cases hs

/-- what is bound where nothing was is not temporary before it is marked -/
theorem gains_of_bind {id : UInt32} {value : α} (hn : t.find? id = none)
    (hb : t.bind (handleOf id) value = .ok t') : t.Gains id value false t' where
  find? i := by rw [find?_bind hb, handleOf_handleOf]
  isTemporary i := by
    rw [isTemporary_congr (temporaries_bind hb)]
    split
    · next e => exact isTemporary_eq_false ((t.find?_congr e).symm.trans hn)
    · rfl

theorem Gains.markTemporary {id : UInt32} {value : α} (h : t.Gains id value false t') :
    t.Gains id value true (t'.markTemporary (handleOf id) true) where
  find? i := by rw [find?_markTemporary, h.find?]
  isTemporary i := by
    rw [isTemporary_markTemporary, handleOf_handleOf, h.isTemporary]
    by_cases e : handleOf id = handleOf i
    · rw [if_pos ⟨e, by rw [h.find?, if_pos e]; rfl⟩, if_pos e]
    · rw [if_neg fun hc => e hc.1, if_neg e, if_neg e]

/-- how a variable of a dump goes into a table: behind its id, if it is accepted and there is none
yet -/
structure Installs (x : β → Action (HandleTable α) Unit) (id : β → UInt32) (value : β → α)
    (temporary : β → Bool) (Accepted : β → Prop) : Prop where
  of_ok {b : β} {t t' : HandleTable α} {u : Unit} (h : x b t = .ok u t') :
    handleOf (id b) ≠ 0 ∧ t.find? (id b) = none ∧ Accepted b ∧
      t.Gains (id b) (value b) (temporary b) t'
  exists_ok {b : β} {t : HandleTable α} (hz : handleOf (id b) ≠ 0) (hn : t.find? (id b) = none)
    (ha : Accepted b) : ∃ t', x b t = .ok () t'

/-- a table with the variables of a dump, and no others -/
structure Lists (id : β → UInt32) (value : β → α) (temporary : β → Bool) (l : List β)
    (t : HandleTable α) : Prop where
  find? : ∀ b ∈ l, t.find? (id b) = some (value b)
  isTemporary : ∀ b ∈ l, t.isTemporary (id b) = temporary b
  only : ∀ i, (t.find? i).isSome → ∃ b ∈ l, handleOf (id b) = handleOf i

section
variable {x : β → Action (HandleTable α) Unit} {id : β → UInt32} {value : β → α}
  {temporary : β → Bool} {Accepted : β → Prop} (hx : Installs x id value temporary Accepted)
include hx

/-- each id is another one, and was not there before -/
theorem Installs.each_of_ok {l : List β} {u : Unit} (h : StoreDump.each x l t = .ok u t') :
    (∀ b ∈ l, handleOf (id b) ≠ 0 ∧ t.find? (id b) = none ∧ Accepted b) ∧
      (l.map fun b => handleOf (id b)).Nodup ∧
      (∀ b ∈ l, t'.find? (id b) = some (value b) ∧ t'.isTemporary (id b) = temporary b) ∧
      ∀ i, (∀ b ∈ l, handleOf (id b) ≠ handleOf i) →
        t'.find? i = t.find? i ∧ t'.isTemporary i = t.isTemporary i := by
  induction l generalizing t with
  | nil =>
    obtain ⟨-, rfl⟩ := Action.pure_eq_ok.1 h
    exact ⟨List.forall_mem_nil _, .nil, List.forall_mem_nil _, fun _ _ => ⟨rfl, rfl⟩⟩
  | cons b l ih =>
    obtain ⟨_, t₁, h₁, h₂⟩ := Action.bind_eq_ok.1 h
    obtain ⟨hz, hn, ha, hg⟩ := hx.of_ok h₁
    obtain ⟨hall, hnodup, hfound, hrest⟩ := ih h₂
    -- a later one with the same id would have been refused
    have hne : ∀ c ∈ l, handleOf (id b) ≠ handleOf (id c) := fun c hc e => by
      have hfound := (hall c hc).2.1
      rw [hg.find?, if_pos e] at hfound
      cases hfound
    refine ⟨List.forall_mem_cons.2 ⟨⟨hz, hn, ha⟩, fun c hc => ?_⟩,
      List.nodup_cons.2 ⟨fun hm => ?_, hnodup⟩, List.forall_mem_cons.2 ⟨?_, hfound⟩,
      fun i hi => ?_⟩
    · obtain ⟨hcz, hcn, hca⟩ := hall c hc
      rw [hg.find?, if_neg (hne c hc)] at hcn
      exact ⟨hcz, hcn, hca⟩
    · obtain ⟨c, hc, e⟩ := List.mem_map.1 hm
      exact hne c hc e.symm
    · obtain ⟨hf, ht⟩ := hrest (id b) fun c hc e => hne c hc e.symm
      rw [hf, ht, hg.find?, hg.isTemporary, if_pos rfl, if_pos rfl]
      exact ⟨rfl, rfl⟩
    · obtain ⟨hb, hl⟩ := List.forall_mem_cons.1 hi
      obtain ⟨hf, ht⟩ := hrest i hl
      rw [hf, ht, hg.find?, hg.isTemporary, if_neg hb, if_neg hb]
      exact ⟨rfl, rfl⟩

theorem Installs.exists_each {l : List β}
    (hall : ∀ b ∈ l, handleOf (id b) ≠ 0 ∧ t.find? (id b) = none ∧ Accepted b)
    (hnodup : (l.map fun b => handleOf (id b)).Nodup) : ∃ t', StoreDump.each x l t = .ok () t' := by
  induction l generalizing t with
  | nil => exact ⟨t, rfl⟩
  | cons b l ih =>
    obtain ⟨⟨hz, hn, ha⟩, hall⟩ := List.forall_mem_cons.1 hall
    obtain ⟨hb, hnodup⟩ := List.nodup_cons.1 hnodup
    obtain ⟨t₁, h₁⟩ := hx.exists_ok hz hn ha
    obtain ⟨-, -, -, hg⟩ := hx.of_ok h₁
    obtain ⟨t', h₂⟩ := ih (t := t₁) (fun c hc => by
      have hne : handleOf (id b) ≠ handleOf (id c) := fun e =>
        hb (List.mem_map.2 ⟨c, hc, e.symm⟩)
      rw [hg.find?, if_neg hne]
      exact hall c hc) hnodup
    exact ⟨t', (Action.bind_of_ok h₁).trans h₂⟩

theorem Installs.lists {l : List β} {u : Unit} (h : StoreDump.each x l t = .ok u t')
    (hempty : ∀ i, t.find? i = none) : Lists id value temporary l t' := by
  obtain ⟨-, -, hfound, hrest⟩ := hx.each_of_ok h
  refine ⟨fun b hb => (hfound b hb).1, fun b hb => (hfound b hb).2, fun i hi => ?_⟩
  by_contra hno
  push Not at hno
  rw [(hrest i hno).1, hempty] at hi
  cases hi

end

theorem Lists.endLoad {id : β → UInt32} {value : β → α} {temporary : β → Bool} {l : List β}
    (h : Lists id value temporary l t) : Lists id value temporary l (t.endLoad true) where
  find? b hb := (t.find?_endLoad_true _).trans (h.find? b hb)
  isTemporary b hb := by
    rw [isTemporary_congr (congrArg (·.temporaries) t.slots_endLoad_true)]
    exact h.isTemporary b hb
  only i hi := h.only i (by rwa [← t.find?_endLoad_true])

theorem Lists.find?_eq {id : β → UInt32} {value : β → α} {temporary : β → Bool} {u : HandleTable α}
    {f : UInt32 × α → β} (h : Lists id value temporary (u.toList.map f) t)
    (hf : ∀ p ∈ u.toList, id (f p) = p.1 ∧ value (f p) = p.2) (i : UInt32) :
    t.find? i = u.find? i := by
  cases hu : u.find? i with
  | some a =>
    have hp : (handleOf i, a) ∈ u.toList := handleOf_mem_toList.2 hu
    obtain ⟨hid, hvalue⟩ := hf _ hp
    have hfind := h.find? _ (List.mem_map_of_mem hp)
    rw [hid, hvalue, t.find?_congr (handleOf_handleOf i)] at hfind
    exact hfind
  | none =>
    rw [← Option.not_isSome_iff_eq_none]
    intro hi
    obtain ⟨b, hb, e⟩ := h.only i hi
    obtain ⟨p, hp, rfl⟩ := List.mem_map.1 hb
    rw [(hf p hp).1] at e
    have hfind := (mem_toList.1 hp).2
    rw [u.find?_congr e, hu] at hfind
    cases hfind

theorem Lists.isTemporary_eq {id : β → UInt32} {value : β → α} {temporary : β → Bool}
    {u : HandleTable α} {f : UInt32 × α → β} (h : Lists id value temporary (u.toList.map f) t)
    (hf : ∀ p ∈ u.toList, id (f p) = p.1 ∧ value (f p) = p.2)
    (ht : ∀ p ∈ u.toList, temporary (f p) = u.isTemporary p.1) (i : UInt32) :
    t.isTemporary i = u.isTemporary i := by
  cases hu : u.find? i with
  | some a =>
    have hp : (handleOf i, a) ∈ u.toList := handleOf_mem_toList.2 hu
    have htemporary : t.isTemporary (handleOf i) = u.isTemporary (handleOf i) := by
      have hlisted := h.isTemporary _ (List.mem_map_of_mem hp)
      rwa [(hf _ hp).1, ht _ hp] at hlisted
    rw [HandleTable.isTemporary, HandleTable.isTemporary, handleOf_handleOf] at htemporary
    exact htemporary
  | none => rw [isTemporary_eq_false hu, isTemporary_eq_false ((h.find?_eq hf i).trans hu)]

end HandleTable

/-- what is put behind an id, unless it is zero or taken -/
theorem HandleTable.checked_eq_ok {α : Type} {t t' : HandleTable α} {id : UInt32} {f g : Failure}
    {x : Action (HandleTable α) Unit} {u : Unit} :
    (do
      if handleOf id = 0 then throw f
      if (← get).contains (handleOf id) then throw g
      x : Action (HandleTable α) Unit) t = .ok u t' ↔
      handleOf id ≠ 0 ∧ t.find? id = none ∧ x t = .ok u t' := by
  by_cases hz : handleOf id = 0
  · rw [if_pos hz]
    exact iff_of_false nofun fun h => h.1 hz
  · rw [if_neg hz]
    dsimp only
    rw [bind_of_ok (x := get) rfl, contains_eq, t.find?_congr (handleOf_handleOf id)]
    by_cases hn : t.find? id = none
    · rw [hn]
      exact ⟨fun h => ⟨hz, rfl, h⟩, fun h => h.2.2⟩
    · rw [if_pos (Option.isSome_iff_ne_none.2 hn)]
      exact iff_of_false nofun fun h => hn h.2.1

namespace ArrayDump

theorem installs (known : HandleSet) : HandleTable.Installs (install known) (·.id) toArray
    (·.temporary) fun d => ∀ q ∈ d.elements.zipIdx, EntryFits (· ∈ known) d.kind q.2 q.1 where
  of_ok {d t t' u} h := by
    obtain ⟨hz, hn, h⟩ := HandleTable.checked_eq_ok.1 h
    simp only [bind_eq_ok, demand_eq_ok, get_eq_ok, set_eq_ok] at h
    obtain ⟨a, _, ⟨hfill, rfl⟩, _, _, ⟨rfl, rfl⟩, v, _, ⟨hb, rfl⟩, _, _, rfl, h⟩ := h
    obtain ⟨hfit, rfl⟩ := fill_empty_eq_ok.1 hfill
    have hgains := HandleTable.gains_of_bind hn hb
    refine ⟨hz, hn, hfit, ?_⟩
    split at h
    · next htemporary =>
      obtain rfl := modify_eq_ok.1 h
      rw [htemporary]
      exact hgains.markTemporary
    · next htemporary =>
      obtain ⟨-, rfl⟩ := pure_eq_ok.1 h
      rw [Bool.eq_false_iff.2 htemporary]
      exact hgains
  exists_ok {d t} hz hn ha := by
    obtain ⟨v, hb⟩ := HandleTable.exists_bind t (handleOf d.id) d.toArray (by rwa [handleOf_handleOf])
    have hlast : ∃ t', (if d.temporary then modify fun s => s.markTemporary (handleOf d.id) true
        else pure () : Action ArrayStore Unit) v = .ok () t' := by
      split <;> exact ⟨_, rfl⟩
    obtain ⟨t', h⟩ := hlast
    refine ⟨t', HandleTable.checked_eq_ok.2 ⟨hz, hn, ?_⟩⟩
    simp only [bind_eq_ok, demand_eq_ok, get_eq_ok, set_eq_ok]
    exact ⟨_, _, ⟨fill_empty_eq_ok.2 ⟨ha, rfl⟩, rfl⟩, _, _, ⟨rfl, rfl⟩, v, _, ⟨hb, rfl⟩, ⟨⟩, _, rfl, h⟩

end ArrayDump

namespace StringDump

def toString (d : StringDump) : StringVar := ⟨d.data, d.owner⟩

theorem installs : HandleTable.Installs install (·.id) toString (fun _ => false)
    fun _ => True where
  of_ok {d t t' u} h := by
    obtain ⟨hz, hn, h⟩ := HandleTable.checked_eq_ok.1 h
    simp only [bind_eq_ok, demand_eq_ok, get_eq_ok, set_eq_ok] at h
    obtain ⟨_, _, ⟨rfl, rfl⟩, v, _, ⟨hb, rfl⟩, rfl⟩ := h
    exact ⟨hz, hn, trivial, HandleTable.gains_of_bind hn hb⟩
  exists_ok {d t} hz hn _ := by
    obtain ⟨v, hb⟩ := HandleTable.exists_bind t (handleOf d.id) d.toString (by rwa [handleOf_handleOf])
    refine ⟨v, HandleTable.checked_eq_ok.2 ⟨hz, hn, ?_⟩⟩
    simp only [bind_eq_ok, demand_eq_ok, get_eq_ok, set_eq_ok]
    exact ⟨_, _, ⟨rfl, rfl⟩, v, _, ⟨hb, rfl⟩, rfl⟩

end StringDump

/-! ## Sessions -/

namespace StoreDump

variable {d : StoreDump} {s t : Session}

/-- a dump that can be put into a session -/
structure Consistent (d : StoreDump) : Prop where
  arrayIds : ∀ a ∈ d.arrays, handleOf a.id ≠ 0
  arrayIds_nodup : (d.arrays.map fun a => handleOf a.id).Nodup
  stringIds : ∀ v ∈ d.strings, handleOf v.id ≠ 0
  stringIds_nodup : (d.strings.map fun v => handleOf v.id).Nodup
  entries : ∀ a ∈ d.arrays, ∀ q ∈ a.elements.zipIdx,
    EntryFits (· ∈ d.arrays.map fun b => handleOf b.id) a.kind q.2 q.1

/-- a session that holds what a dump says, and nothing else -/
structure Installed (d : StoreDump) (s : Session) : Prop where
  arrays : HandleTable.Lists (·.id) ArrayDump.toArray (·.temporary) d.arrays s.arrays
  strings : HandleTable.Lists (·.id) StringDump.toString (fun _ => false) d.strings s.strings

/-- the ids that elements may name -/
def known (d : StoreDump) : HandleSet :=
  .ofList (d.arrays.map fun a => handleOf a.id) compareHandles

theorem mem_known {id : UInt32} : id ∈ d.known ↔ id ∈ d.arrays.map fun a => handleOf a.id := by
  rw [known, Std.ExtTreeSet.mem_ofList, List.contains_iff_mem]

/-- both tables are emptied and then filled, and taken back if something is refused -/
theorem apply_eq : d.apply s =
    match each (ArrayDump.install d.known) d.arrays s.arrays.beginLoad with
    | .ok _ arrays =>
      match each StringDump.install d.strings s.strings.beginLoad with
      | .ok _ strings => .ok () ⟨s.config, arrays.endLoad true, strings.endLoad true⟩
      | .error f strings => .error f ⟨s.config, arrays.endLoad false, strings.endLoad false⟩
    | .error f arrays =>
      .error f ⟨s.config, arrays.endLoad false, s.strings.beginLoad.endLoad false⟩ := by
  have hinstall : d.install (s.beginLoad, ()) =
      match each (ArrayDump.install d.known) d.arrays s.arrays.beginLoad with
      | .ok _ arrays =>
        match each StringDump.install d.strings s.strings.beginLoad with
        | .ok _ strings => .ok () (⟨s.config, arrays, strings⟩, ())
        | .error f strings => .error f (⟨s.config, arrays, strings⟩, ())
      | .error f arrays => .error f (⟨s.config, arrays, s.strings.beginLoad⟩, ()) := by
    show EStateM.bind (Session.onArrays (onFirst (each (ArrayDump.install d.known) d.arrays)))
      (fun _ => Session.onStrings (onFirst (each StringDump.install d.strings)))
      ((⟨s.config, s.arrays.beginLoad, s.strings.beginLoad⟩ : Session), ()) = _
    simp only [EStateM.bind, Session.onArrays, onFirst]
    cases each (ArrayDump.install d.known) d.arrays s.arrays.beginLoad with
    | error f arrays => rfl
    | ok u arrays =>
      simp only [Session.onStrings, onFirst]
      cases each StringDump.install d.strings s.strings.beginLoad <;> rfl
  rw [apply, Session.replacing, hinstall]
  cases each (ArrayDump.install d.known) d.arrays s.arrays.beginLoad with
  | error f arrays => rfl
  | ok u arrays => cases each StringDump.install d.strings s.strings.beginLoad <;> rfl

theorem of_apply_eq_ok {u : Unit} (h : d.apply s = .ok u t) :
    d.Consistent ∧ d.Installed t ∧ t.config = s.config := by
  rw [apply_eq] at h
  cases ha : each (ArrayDump.install d.known) d.arrays s.arrays.beginLoad with
  | error f arrays =>
    rw [ha] at h
    cases h
  | ok v arrays =>
    rw [ha] at h
    dsimp only at h
    cases hs : each StringDump.install d.strings s.strings.beginLoad with
    | error f strings =>
      rw [hs] at h
      cases h
    | ok w strings =>
      rw [hs] at h
      cases h
      obtain ⟨harrays, hnodup, -⟩ := (ArrayDump.installs d.known).each_of_ok ha
      obtain ⟨hstrings, hnodup', -⟩ := StringDump.installs.each_of_ok hs
      have hlists := (ArrayDump.installs d.known).lists ha s.arrays.find?_beginLoad
      have hlists' := StringDump.installs.lists hs s.strings.find?_beginLoad
      refine ⟨⟨fun a hm => (harrays a hm).1, hnodup, fun v hm => (hstrings v hm).1, hnodup',
        fun a hm q hq => ?_⟩, ⟨hlists.endLoad, hlists'.endLoad⟩, rfl⟩
      exact ((harrays a hm).2.2 q hq).mono fun id => mem_known.1

theorem Consistent.exists_apply (hd : d.Consistent) (s : Session) : ∃ t, d.apply s = .ok () t := by
  obtain ⟨arrays, ha⟩ := (ArrayDump.installs d.known).exists_each (t := s.arrays.beginLoad)
    (fun a hm => ⟨hd.arrayIds a hm, s.arrays.find?_beginLoad _, fun q hq =>
      (hd.entries a hm q hq).mono fun id => mem_known.2⟩) hd.arrayIds_nodup
  obtain ⟨strings, hs⟩ := StringDump.installs.exists_each (t := s.strings.beginLoad)
    (fun v hm => ⟨hd.stringIds v hm, s.strings.find?_beginLoad _, trivial⟩) hd.stringIds_nodup
  refine ⟨⟨s.config, arrays.endLoad true, strings.endLoad true⟩, ?_⟩
  rw [apply_eq, ha]
  dsimp only
  rw [hs]

theorem exists_apply : (∃ t, d.apply s = .ok () t) ↔ d.Consistent :=
  ⟨fun ⟨_, h⟩ => (of_apply_eq_ok h).1, fun hd => hd.exists_apply s⟩

theorem toSession_eq_ok {config : Config} :
    d.toSession config = .ok t ↔ d.apply (.start config) = .ok () t := by
  rw [toSession]
  cases d.apply (.start config) with
  | ok u s =>
    exact ⟨fun h => congrArg _ (Except.ok.inj h), fun h => by cases h; rfl⟩
  | error f s => exact iff_of_false (fun h => by cases h) fun h => by cases h

end StoreDump

end ScriptVars
