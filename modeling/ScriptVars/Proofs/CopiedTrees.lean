import Mathlib.Logic.Relation
import ScriptVars.Proofs.Removal
import ScriptVars.Proofs.Representation
import ScriptVars.Proofs.Targets

/-!
# Trees of copies

A deep copy makes a new array for every time that it comes to one, so what was shared is not shared
any more.  Nothing that was there changes: only new arrays are marked, and only new arrays get
references.

* `ArrayStore.Leads`          what one comes to from an array through its elements;
* `ArrayStore.Duplicated`     elements and their copies, with the handles of all arrays below;
* `ArrayStore.Spares`         arrays that stay as they are;
* `ArrayStore.Added`          new arrays below others;
* `ArrayStore.Only`           no other arrays are new;
* `ArrayStore.FreshTree`      a new array with new arrays below it;
* `ArrayStore.copy_deep`      deep copies are such trees;
* `ArrayStore.copy_refused`   without a cycle, mostly only for want of handles are there none.
-/

namespace ScriptVars

open ScriptVars.Action

/-- the same kind and the same keys, for an owner -/
structure ArrayVar.CopiedFor (a : ArrayVar) (owner : UInt8) (b : ArrayVar) : Prop where
  kind : b.kind = a.kind
  owner : b.owner = owner
  keys : b.entries.map Prod.fst = a.entries.map Prod.fst

namespace ArrayStore

/-! ## Sources -/

/-- the first id is that of an array with the second one among its elements -/
def Names (s : ArrayStore) (id x : UInt32) : Prop :=
  ∃ a, s.find? id = some a ∧ .array x ∈ a.values

/-- the second id is what one comes to from the first one through elements -/
def Leads (s : ArrayStore) : UInt32 → UInt32 → Prop := Relation.ReflTransGen s.Names

/-- one only comes to arrays that are there, and to null -/
def Complete (s : ArrayStore) (source : UInt32) : Prop :=
  ∀ ⦃x⦄, s.Leads source x → x = 0 ∨ (s.find? x).isSome

/-- no array that one comes to is below itself -/
def Acyclic (s : ArrayStore) (source : UInt32) : Prop :=
  ∀ ⦃x y⦄, s.Leads source x → Relation.TransGen s.Names x y → handleOf x ≠ handleOf y

variable {origin s t u : ArrayStore} {owner : UInt8} {l l' : List Element} {source c : UInt32}
  {tops tops' new new' below : List UInt32}

theorem Complete.of_names (hc : s.Complete source) {x : UInt32} (hx : s.Names source x) :
    s.Complete x := fun _ h => hc (.head hx h)

theorem Closed.complete (hs : s.Closed) (h : (s.find? source).isSome) : s.Complete source := by
  intro x hx
  cases hx with
  | refl => exact .inr h
  | tail _ hx =>
    obtain ⟨a, ha, hx⟩ := hx
    exact accepts_array.1 (hs ha _ hx)

/-! ## Copies of elements -/

/-- elements and their copies; `new` are the handles of the copies of the arrays among them, and of
all arrays below -/
inductive Duplicated (s t : ArrayStore) (owner : UInt8) :
    List Element → List Element → List UInt32 → Prop where
  | nil : Duplicated s t owner [] [] []
  | kept {e : Element} {l l' : List Element} {new : List UInt32} (he : ∀ x, e = .array x → x = 0)
    (rest : Duplicated s t owner l l' new) : Duplicated s t owner (e :: l) (e :: l') new
  | nested {x n : UInt32} {a b : ArrayVar} {l l' : List Element} {below new : List UInt32}
    (ha : s.find? x = some a) (hb : t.find? n = some b) (copied : a.CopiedFor owner b)
    (inner : Duplicated s t owner a.values b.values below) (rest : Duplicated s t owner l l' new) :
    Duplicated s t owner (.array x :: l) (.array n :: l') (n :: below ++ new)

/-- other references make no difference -/
theorem Duplicated.mono (h : Duplicated origin s owner l l' new)
    (hst : ∀ {n b}, n ∈ new → s.find? n = some b → ∃ refs, t.find? n = some { b with refs }) :
    Duplicated origin t owner l l' new := by
  induction h with
  | nil => exact .nil
  | kept he _ ih => exact .kept he (ih hst)
  | @nested x n a b l l' below new ha hb copied _ _ ih ih' =>
    obtain ⟨refs, hb⟩ := hst (List.mem_append_left new List.mem_cons_self) hb
    have hbelow : ∀ {m}, m ∈ below → m ∈ n :: below ++ new := fun hm =>
      List.mem_append_left new (List.mem_cons_of_mem n hm)
    exact .nested ha hb ⟨copied.kind, copied.owner, copied.keys⟩ (ih fun hm => hst (hbelow hm))
      (ih' fun hm => hst (List.mem_append_right _ hm))

theorem Duplicated.length_eq (h : Duplicated s t owner l l' new) : l'.length = l.length := by
  induction h with
  | nil => rfl
  | kept _ _ ih => rw [List.length_cons, List.length_cons, ih]
  | nested _ _ _ _ _ _ ih => rw [List.length_cons, List.length_cons, ih]

def childrenOf (l : List Element) : List UInt32 := (targetsOf l).filter (· != 0)

theorem childrenOf_cons_of_ne {n : UInt32} (hn : n ≠ 0) (l : List Element) :
    childrenOf (.array n :: l) = n :: childrenOf l :=
  List.filter_cons_of_pos (bne_iff_ne.2 hn)

theorem childrenOf_cons_of_null {e : Element} (he : ∀ x, e = .array x → x = 0) (l : List Element) :
    childrenOf (e :: l) = childrenOf l := by
  cases e with
  | array x =>
    obtain rfl := he x rfl
    rfl
  | _ => rfl

/-! ## What is added -/

/-- arrays that are there stay as they are -/
structure Spares (s t : ArrayStore) : Prop where
  find? : ∀ {i a}, s.find? i = some a → t.find? i = some a
  isTemporary : ∀ {i a}, s.find? i = some a → t.isTemporary i = s.isTemporary i

theorem Spares.refl (s : ArrayStore) : s.Spares s := ⟨id, fun _ => rfl⟩

theorem Spares.trans (h : s.Spares t) (h' : t.Spares u) : s.Spares u where
  find? hi := h'.find? (h.find? hi)
  isTemporary hi := (h'.isTemporary (h.find? hi)).trans (h.isTemporary hi)

theorem Spares.find?_eq_none (h : s.Spares t) {i : UInt32} (hn : t.find? i = none) :
    s.find? i = none := by
  cases hi : s.find? i with
  | none => rfl
  | some a => exact absurd ((h.find? hi).symm.trans hn) (Option.some_ne_none a)

/-- New temporary arrays are there.  Those on top have no references yet, each of the others has
one. -/
structure Added (owner : UInt8) (tops new : List UInt32) (s t : ArrayStore) : Prop where
  spares : s.Spares t
  nodup : new.Nodup
  fresh : ∀ n ∈ new, handleOf n = n ∧ s.find? n = none
  tops_subset : tops ⊆ new
  nested : ∀ n ∈ new, t.isTemporary n = true ∧
    ∃ b, t.find? n = some b ∧ b.refs = if n ∈ tops then [] else [owner]

theorem Added.nil (owner : UInt8) (s : ArrayStore) : Added owner [] [] s s where
  spares := .refl s
  nodup := .nil
  fresh := List.forall_mem_nil _
  tops_subset := List.Subset.refl _
  nested := List.forall_mem_nil _

theorem Added.append (h : Added owner tops new s t) (h' : Added owner tops' new' t u) :
    Added owner (tops ++ tops') (new ++ new') s u := by
  have hdisjoint : ∀ n ∈ new, n ∉ new' := fun n hn hn' => by
    obtain ⟨-, b, hb, -⟩ := h.nested n hn
    exact Option.some_ne_none b (hb.symm.trans (h'.fresh n hn').2)
  constructor
  · exact h.spares.trans h'.spares
  · exact List.nodup_append.2 ⟨h.nodup, h'.nodup, fun n hn _ hn' e => hdisjoint n hn (e ▸ hn')⟩
  · intro n hn
    rcases List.mem_append.1 hn with hn | hn
    · exact h.fresh n hn
    · exact ⟨(h'.fresh n hn).1, h.spares.find?_eq_none (h'.fresh n hn).2⟩
  · exact List.append_subset.2
      ⟨fun n hn => List.mem_append_left _ (h.tops_subset hn),
        fun n hn => List.mem_append_right _ (h'.tops_subset hn)⟩
  · intro n hn
    rcases List.mem_append.1 hn with hn | hn
    · obtain ⟨ht, b, hb, hrefs⟩ := h.nested n hn
      refine ⟨(h'.spares.isTemporary hb).trans ht, b, h'.spares.find? hb, hrefs.trans ?_⟩
      have hnot : n ∉ tops' := fun hm => hdisjoint n hn (h'.tops_subset hm)
      simp only [List.mem_append, hnot, or_false]
    · obtain ⟨ht, b, hb, hrefs⟩ := h'.nested n hn
      refine ⟨ht, b, hb, hrefs.trans ?_⟩
      have hnot : n ∉ tops := fun hm => hdisjoint n (h.tops_subset hm) hn
      simp only [List.mem_append, hnot, false_or]

/-- A new array for an owner with the new arrays `below` it, in the place of `source` in `origin`.
Between `s` and `t` nothing else has happened. -/
structure FreshTree (origin s t : ArrayStore) (owner : UInt8) (source c : UInt32)
    (below : List UInt32) : Prop where
  root : ∃ a b, origin.find? source = some a ∧ t.find? c = some b ∧ a.CopiedFor owner b ∧
    b.refs = [] ∧ Duplicated origin t owner a.values b.values below
  notTemporary : t.isTemporary c = false
  nodup : (c :: below).Nodup
  fresh : ∀ n ∈ c :: below, handleOf n = n ∧ s.find? n = none
  nested : ∀ n ∈ below, t.isTemporary n = true ∧ ∃ b, t.find? n = some b ∧ b.refs = [owner]
  spares : s.Spares t

/-- a tree whose root is marked is ready to be put below another array -/
theorem FreshTree.mark (h : FreshTree origin s t owner source c below) :
    Added owner [c] (c :: below) s (HandleTable.markTemporary t c true) := by
  obtain ⟨a, b, -, hb, -, hrefs, -⟩ := h.root
  obtain ⟨hself, hfresh⟩ := h.fresh c List.mem_cons_self
  have hfind : ∀ i, (HandleTable.markTemporary t c true).find? i = t.find? i := fun i =>
    t.find?_markTemporary c i true
  have hother : ∀ {i : UInt32}, handleOf c ≠ handleOf i →
      (HandleTable.markTemporary t c true).isTemporary i = t.isTemporary i := fun hne => by
    rw [t.isTemporary_markTemporary, if_neg fun hc => hne hc.1]
  refine ⟨⟨fun hi => ?_, fun {i a} hi => ?_⟩, h.nodup, h.fresh, ?_, fun n hn => ?_⟩
  · rw [hfind]
    exact h.spares.find? hi
  · have hne : handleOf c ≠ handleOf i := fun e => by
      rw [s.find?_congr e, hi] at hfresh
      cases hfresh
    rw [hother hne, h.spares.isTemporary hi]
  · exact List.cons_subset_cons c (List.nil_subset below)
  · rw [hfind]
    rcases List.mem_cons.1 hn with rfl | hn
    · rw [t.isTemporary_markTemporary, hb, if_pos ⟨rfl, rfl⟩, if_pos List.mem_cons_self]
      exact ⟨rfl, b, rfl, hrefs⟩
    · have hne : c ≠ n := fun e => (List.nodup_cons.1 h.nodup).1 (e ▸ hn)
      have hn' := (h.fresh n (List.mem_cons_of_mem _ hn)).1
      obtain ⟨ht, d, hd, hrefs'⟩ := h.nested n hn
      rw [hother (by rwa [hself, hn']), if_neg fun hm => hne (List.mem_singleton.1 hm).symm]
      exact ⟨ht, d, hd, hrefs'⟩

/-- the array that holds the others gives each of those on top a reference -/
theorem Added.install {a : ArrayVar} (h : Added a.owner a.children new s t)
    (hchildren : a.children.Nodup) (hi : install a t = .ok c u) :
    Added a.owner [] new s u ∧ c ∉ new ∧ handleOf c = c ∧ s.find? c = none ∧ u.find? c = some a ∧
      u.isTemporary c = false := by
  obtain ⟨v, hp, rfl⟩ := install_eq_ok.1 hi
  have hpl := HandleTable.places_of_place hp
  have hself : handleOf c = c := handleOf_eq_self hpl.free.1.2
  have hfree : t.find? c = none := HandleTable.find?_eq_none_of_isFree hpl.free
  have hnew : c ∉ new := fun hm => by
    obtain ⟨-, b, hb, -⟩ := h.nested c hm
    exact Option.some_ne_none b (hb.symm.trans hfree)
  have hids : a.children.map handleOf = a.children :=
    (List.map_congr_left fun n hn => (h.fresh n (h.tops_subset hn)).1).trans (List.map_id _)
  have hfind : ∀ i, (retainAll v a.children a.owner).find? i =
      (if c = handleOf i then some a else t.find? i).map
        (·.addRefs (a.children.count (handleOf i)) a.owner) := fun i => by
    rw [find?_installed hpl, hids]
  have htemporary : ∀ i, (retainAll v a.children a.owner).isTemporary i = t.isTemporary i :=
    fun i => HandleTable.isTemporary_congr
      ((HandleTable.temporaries_modifyEach _ _ _).trans hpl.temporaries_eq) i
  have hunnamed : ∀ {i : UInt32}, handleOf i ∉ a.children →
      (·.addRefs (a.children.count (handleOf i)) a.owner : ArrayVar → ArrayVar) = id :=
    fun hn => by
      rw [List.count_eq_zero.2 hn]
      exact funext fun b => b.addRefs_zero _
  have hold : ∀ {i : UInt32} {b : ArrayVar}, t.find? i = some b → c ≠ handleOf i := by
    rintro i b hb e
    have hn := t.find?_congr (hself.trans e)
    rw [hfree, hb] at hn
    cases hn
  refine ⟨⟨⟨fun {i b} hb => ?_, fun hb => ?_⟩, h.nodup, h.fresh, List.nil_subset _, fun n hn => ?_⟩,
    hnew, hself, h.spares.find?_eq_none hfree, ?_, ?_⟩
  · have hn : handleOf i ∉ a.children := fun hm => by
      have hfresh := (h.fresh _ (h.tops_subset hm)).2
      rw [s.find?_congr (handleOf_handleOf i), hb] at hfresh
      cases hfresh
    have ht := h.spares.find? hb
    rw [hfind, if_neg (hold ht), ht, hunnamed hn]
    rfl
  · rw [htemporary, h.spares.isTemporary hb]
  · obtain ⟨ht, b, hb, hrefs⟩ := h.nested n hn
    have hn' := (h.fresh n hn).1
    refine ⟨(htemporary n).trans ht, b.addRefs (a.children.count n) a.owner, ?_, ?_⟩
    · rw [hfind, if_neg (hold hb), hb, hn']
      rfl
    · show b.refs ++ List.replicate (a.children.count n) a.owner = [a.owner]
      rw [hrefs]
      by_cases hm : n ∈ a.children
      · rw [if_pos hm, List.count_eq_one_of_mem hchildren hm]
        rfl
      · rw [if_neg hm, List.count_eq_zero.2 hm]
        rfl
  · rw [hfind, hself, if_pos rfl, Option.map_some]
    have hn : c ∉ a.children := fun hm => hnew (h.tops_subset hm)
    rw [List.count_eq_zero.2 hn, ArrayVar.addRefs_zero]
  · rw [htemporary, Bool.eq_false_iff]
    intro ht
    have hs := HandleTable.find?_isSome_of_isTemporary ht
    rw [hfree] at hs
    cases hs

/-- an array that is there was there before, or is one of the new ones -/
def Only (new : List UInt32) (s t : ArrayStore) : Prop :=
  ∀ ⦃i⦄, (t.find? i).isSome → (s.find? i).isSome ∨ handleOf i ∈ new

theorem Only.nil (s : ArrayStore) : Only [] s s := fun _ => .inl

theorem Only.append (h : Only new s t) (h' : Only new' t u) : Only (new ++ new') s u := by
  intro i hi
  rcases h' hi with hi | hi
  · exact (h hi).imp_right (List.mem_append_left _)
  · exact .inr (List.mem_append_right _ hi)

theorem Only.mark (h : Only new s t) (id : UInt32) :
    Only new s (HandleTable.markTemporary t id true) := by
  intro i hi
  rw [t.find?_markTemporary] at hi
  exact h hi

theorem Only.install {a : ArrayVar} (h : Only new s t) (hi : install a t = .ok c u) :
    Only (c :: new) s u := by
  obtain ⟨v, hp, rfl⟩ := install_eq_ok.1 hi
  intro i hsome
  rw [find?_installed (HandleTable.places_of_place hp), Option.isSome_map] at hsome
  split at hsome
  · next e => exact .inr (List.mem_cons.2 (.inl e.symm))
  · exact (h hsome).imp_right (List.mem_cons_of_mem c)

/-! ## Copies -/

theorem Duplicated.children_sublist (h : Duplicated s t owner l l' new) :
    (childrenOf l').Sublist new := by
  induction h with
  | nil => exact .refl _
  | kept he _ ih => rwa [childrenOf_cons_of_null he]
  | @nested x n a b l l' below new _ hb _ _ _ _ ih =>
    have hn : n ≠ 0 := by
      rintro rfl
      rw [t.find?_eq_none_of_zero (by decide)] at hb
      cases hb
    rw [childrenOf_cons_of_ne hn]
    exact (ih.trans (List.sublist_append_right below new)).cons_cons n

theorem copyElement_array (copyChild : UInt32 → Action ArrayStore UInt32) (x : UInt32) :
    copyElement copyChild true (.array x) s =
      (if HandleTable.contains s x = true then (do
        let nested ← copyChild x
        modify fun s => s.markTemporary nested true
        return .array nested) else pure (.array x) : Action ArrayStore Element) s := rfl

/-- a copy of an element is the element, or the id of a copy that has been marked -/
theorem copyElement_eq_ok {copyChild : UInt32 → Action ArrayStore UInt32} {e e' : Element}
    (h : copyElement copyChild true e s = .ok e' t) :
    (e' = e ∧ t = s ∧ ∀ x, e = .array x → s.find? x = none) ∨
      ∃ x n v, e = .array x ∧ e' = .array n ∧ copyChild x s = .ok n v ∧
        t = HandleTable.markTemporary v n true := by
  cases e with
  | array x =>
    rw [copyElement_array] at h
    split at h
    · obtain ⟨n, v, hc, h⟩ := bind_eq_ok.1 h
      obtain ⟨_, _, hm, h⟩ := bind_eq_ok.1 h
      obtain rfl := modify_eq_ok.1 hm
      obtain ⟨rfl, rfl⟩ := pure_eq_ok.1 h
      exact .inr ⟨x, n, v, rfl, rfl, hc, rfl⟩
    · next hc =>
      obtain ⟨rfl, rfl⟩ := pure_eq_ok.1 h
      refine .inl ⟨rfl, rfl, fun y hy => ?_⟩
      obtain rfl := Element.array.inj hy
      rw [HandleTable.contains_eq] at hc
      exact Option.not_isSome_iff_eq_none.1 hc
  | _ =>
    obtain ⟨rfl, rfl⟩ := pure_eq_ok.1 h
    exact .inl ⟨rfl, rfl, nofun⟩

/-- the elements one after the other; what has been copied before stays -/
theorem mapM_copyElement {copyChild : UInt32 → Action ArrayStore UInt32}
    (hchild : ∀ {x n s t}, .array x ∈ l → origin.Spares s → copyChild x s = .ok n t →
      ∃ below, FreshTree origin s t owner x n below ∧ Only (n :: below) s t)
    (hl : ∀ x, .array x ∈ l → x = 0 ∨ (origin.find? x).isSome) (hs : origin.Spares s)
    (h : l.mapM (copyElement copyChild true) s = .ok l' t) :
    ∃ new, Duplicated origin t owner l l' new ∧ Added owner (childrenOf l') new s t ∧
      Only new s t := by
  induction l generalizing s l' with
  | nil =>
    rw [List.mapM_nil] at h
    obtain ⟨rfl, rfl⟩ := pure_eq_ok.1 h
    exact ⟨[], .nil, .nil owner t, .nil t⟩
  | cons e l ih =>
    rw [List.mapM_cons] at h
    obtain ⟨e', u, he, h⟩ := bind_eq_ok.1 h
    obtain ⟨l', v, hrest, h⟩ := bind_eq_ok.1 h
    obtain ⟨rfl, rfl⟩ := pure_eq_ok.1 h
    have ih := fun hu => ih (s := u) (fun hx => hchild (List.mem_cons_of_mem _ hx))
      (fun x hx => hl x (List.mem_cons_of_mem _ hx)) hu hrest
    rcases copyElement_eq_ok he with ⟨rfl, rfl, hnull⟩ | ⟨x, n, w, rfl, rfl, hc, rfl⟩
    · have hnull : ∀ x, e' = .array x → x = 0 := by
        rintro x rfl
        refine (hl x List.mem_cons_self).resolve_right fun hsome => ?_
        obtain ⟨a, ha⟩ := Option.isSome_iff_exists.1 hsome
        exact Option.some_ne_none a ((hs.find? ha).symm.trans (hnull x rfl))
      obtain ⟨new, hd, ha⟩ := ih hs
      rw [childrenOf_cons_of_null hnull]
      exact ⟨new, .kept hnull hd, ha⟩
    · obtain ⟨below, htree, honly⟩ := hchild List.mem_cons_self hs hc
      have hmark := htree.mark
      obtain ⟨new, hd, ha, honly'⟩ := ih (hs.trans hmark.spares)
      obtain ⟨a, b, hsource, hcopy, hcopied, -, hinner⟩ := htree.root
      have hkept : ∀ {i b}, w.find? i = some b → t.find? i = some b := fun hi =>
        ha.spares.find? ((HandleTable.find?_markTemporary w n _ true).trans hi)
      have hn : n ≠ 0 := by
        rintro rfl
        rw [w.find?_eq_none_of_zero (by decide)] at hcopy
        cases hcopy
      rw [childrenOf_cons_of_ne hn]
      exact ⟨n :: below ++ new, .nested hsource (hkept hcopy) hcopied
        (hinner.mono fun {_ b} _ hi => ⟨b.refs, hkept hi⟩) hd, hmark.append ha,
        (honly.mark n).append honly'⟩

theorem mapM_entries {f : Element → Action ArrayStore Element} {l l' : List (Key × Element)}
    (h : l.mapM (m := Action ArrayStore) (fun p => do return (p.1, ← f p.2)) s = .ok l' t) :
    (l.map Prod.snd).mapM f s = .ok (l'.map Prod.snd) t ∧ l'.map Prod.fst = l.map Prod.fst := by
  induction l generalizing s l' with
  | nil =>
    rw [List.mapM_nil] at h
    obtain ⟨rfl, rfl⟩ := pure_eq_ok.1 h
    exact ⟨rfl, rfl⟩
  | cons p l ih =>
    rw [List.mapM_cons] at h
    obtain ⟨q, u, hq, h⟩ := bind_eq_ok.1 h
    obtain ⟨l', v, hrest, h⟩ := bind_eq_ok.1 h
    obtain ⟨rfl, rfl⟩ := pure_eq_ok.1 h
    obtain ⟨e, w, he, hq⟩ := bind_eq_ok.1 hq
    obtain ⟨rfl, rfl⟩ := pure_eq_ok.1 hq
    obtain ⟨hvalues, hkeys⟩ := ih hrest
    refine ⟨?_, congrArg (p.1 :: ·) hkeys⟩
    rw [List.map_cons, List.mapM_cons]
    exact bind_eq_ok.2 ⟨e, u, he, bind_eq_ok.2 ⟨_, t, hvalues, rfl⟩⟩

theorem map_fst_indexed (i : Nat) (values : List Element) :
    (Storage.indexed i values).map Prod.fst = (List.range' i values.length).map Key.ofIndex := by
  rw [Storage.indexed, List.map_map, ← List.zipIdx_map_snd i values, List.map_map]
  rfl

/-- a storage is copied element by element, and its keys stay -/
theorem traverse_eq_ok {f : Element → Action ArrayStore Element} {st st' : Storage}
    (h : st.traverse f s = .ok st' t) : st.values.mapM f s = .ok st'.values t ∧
      (st'.values.length = st.values.length →
        st'.entries.map Prod.fst = st.entries.map Prod.fst) := by
  cases st with
  | packed values =>
    obtain ⟨values', u, hm, hp⟩ := bind_eq_ok.1 h
    obtain ⟨rfl, rfl⟩ := pure_eq_ok.1 hp
    refine ⟨hm, fun hlength => ?_⟩
    change values'.length = values.length at hlength
    rw [Storage.entries, Storage.entries, map_fst_indexed, map_fst_indexed, hlength]
  | sorted entries =>
    obtain ⟨entries', u, hm, hp⟩ := bind_eq_ok.1 h
    obtain ⟨rfl, rfl⟩ := pure_eq_ok.1 hp
    obtain ⟨hvalues, hkeys⟩ := mapM_entries hm
    exact ⟨hvalues, fun _ => hkeys⟩

theorem find?_of_install {a b : ArrayVar} (hi : install a t = .ok c u) {i : UInt32}
    (hb : t.find? i = some b) : ∃ refs, u.find? i = some { b with refs } := by
  obtain ⟨v, hp, rfl⟩ := install_eq_ok.1 hi
  have hpl := HandleTable.places_of_place hp
  have hne : c ≠ handleOf i := by
    rintro rfl
    have hfree := HandleTable.find?_eq_none_of_isFree hpl.free
    rw [t.find?_congr (handleOf_handleOf i), hb] at hfree
    cases hfree
  rw [find?_installed hpl, if_neg hne, hb]
  exact ⟨_, rfl⟩

theorem freshTree_only_copyTree {fuel : Nat} (hc : origin.Complete source) (hs : origin.Spares s)
    (h : copyTree owner true fuel source s = .ok c t) :
    ∃ below, FreshTree origin s t owner source c below ∧ Only (c :: below) s t := by
  induction fuel generalizing source s c t with
  | zero => cases h
  | succ fuel ih =>
    obtain ⟨a, storage, u, hf, ht, hi⟩ := copyTree_eq_ok h
    have ha : origin.find? source = some a := by
      rcases hc .refl with rfl | hsome
      · rw [HandleTable.find?_eq_none_of_zero _ (by decide)] at hf
        cases hf
      · obtain ⟨a', ha'⟩ := Option.isSome_iff_exists.1 hsome
        rw [ha', ← hf, hs.find? ha']
    obtain ⟨hvalues, hkeys⟩ := traverse_eq_ok ht
    obtain ⟨below, hd, hadd, honly⟩ := mapM_copyElement
      (fun hx hs hn => ih (hc.of_names ⟨a, ha, hx⟩) hs hn)
      (fun x hx => hc.of_names ⟨a, ha, hx⟩ .refl) hs hvalues
    have hnodup := hd.children_sublist.nodup hadd.nodup
    obtain ⟨hbelow, hnew, hself, hfresh, hcopy, htemporary⟩ :=
      Added.install (a := ⟨a.kind, owner, [], storage⟩) hadd hnodup hi
    refine ⟨below, ⟨⟨a, _, ha, hcopy, ⟨rfl, rfl, hkeys hd.length_eq⟩, rfl,
      hd.mono fun _ => find?_of_install hi⟩, htemporary, List.nodup_cons.2 ⟨hnew, hbelow.nodup⟩,
      List.forall_mem_cons.2 ⟨⟨hself, hfresh⟩, hbelow.fresh⟩, fun n hn => ?_, hbelow.spares⟩,
      honly.install hi⟩
    obtain ⟨hn, b, hb, hrefs⟩ := hbelow.nested n hn
    exact ⟨hn, b, hb, hrefs.trans (if_neg List.not_mem_nil)⟩

theorem freshTree_copyTree {fuel : Nat} (hc : origin.Complete source) (hs : origin.Spares s)
    (h : copyTree owner true fuel source s = .ok c t) :
    ∃ below, FreshTree origin s t owner source c below :=
  (freshTree_only_copyTree hc hs h).imp fun _ => And.left

/-- A deep copy of an array from which one only comes to arrays that are there is a new tree, and
nothing else changes.  A copy that comes to an end has met no cycle. -/
theorem copy_deep (hc : s.Complete source) (h : copy source owner true s = .ok c t) :
    ∃ below, FreshTree s s t owner source c below :=
  freshTree_copyTree hc (.refl s) h

/-! ## Copies that are refused -/

theorem mapM_eq_error {α β : Type} {g : α → Action ArrayStore β} {l : List α} {f : Failure}
    (h : l.mapM g s = .error f t) :
    ∃ before a after done u, l = before ++ a :: after ∧ before.mapM g s = .ok done u ∧
      g a u = .error f t := by
  induction l generalizing s with
  | nil =>
    rw [List.mapM_nil] at h
    cases h
  | cons a l ih =>
    rw [List.mapM_cons] at h
    rcases bind_eq_error.1 h with h | ⟨b, u, hb, h⟩
    · exact ⟨[], a, l, [], s, rfl, rfl, h⟩
    · rcases bind_eq_error.1 h with h | ⟨_, _, _, h⟩
      · obtain ⟨before, a', after, done, v, rfl, hdone, h⟩ := ih h
        refine ⟨a :: before, a', after, b :: done, v, rfl, ?_, h⟩
        rw [List.mapM_cons]
        exact bind_eq_ok.2 ⟨b, u, hb, bind_eq_ok.2 ⟨done, v, hdone, rfl⟩⟩
      · cases h

theorem traverse_eq_error {g : Element → Action ArrayStore Element} {st : Storage} {f : Failure}
    (h : st.traverse g s = .error f t) :
    ∃ before e after done u, st.values = before ++ e :: after ∧ before.mapM g s = .ok done u ∧
      g e u = .error f t := by
  cases st with
  | packed values =>
    rcases bind_eq_error.1 h with h | ⟨_, _, _, h⟩
    · exact mapM_eq_error h
    · cases h
  | sorted entries =>
    rcases bind_eq_error.1 h with h | ⟨_, _, _, h⟩
    · obtain ⟨before, p, after, done, u, rfl, hdone, h⟩ := mapM_eq_error h
      rcases bind_eq_error.1 h with h | ⟨_, _, _, h⟩
      · exact ⟨before.map Prod.snd, p.2, after.map Prod.snd, done.map Prod.snd, u,
          List.map_append, (mapM_entries hdone).1, h⟩
      · cases h
    · cases h

theorem copyElement_eq_error {copyChild : UInt32 → Action ArrayStore UInt32} {e : Element}
    {f : Failure} (h : copyElement copyChild true e s = .error f t) :
    ∃ x, e = .array x ∧ (s.find? x).isSome ∧ copyChild x s = .error f t := by
  cases e with
  | array x =>
    rw [copyElement_array] at h
    split at h
    · next hc =>
      rw [HandleTable.contains_eq] at hc
      rcases bind_eq_error.1 h with h | ⟨_, _, _, h⟩
      · exact ⟨x, rfl, hc, h⟩
      · cases h
    · cases h
  | _ => cases h

theorem length_le_of_handles {l : List UInt32} (h : (l.map handleOf).Nodup) :
    l.length ≤ handleLimit := by
  have hnumbers : ((l.map handleOf).map UInt32.toNat).Nodup :=
    h.map fun _ _ e => UInt32.toNat_inj.1 e
  have hrange : (l.map handleOf).map UInt32.toNat ⊆ List.range handleLimit := fun n hn => by
    obtain ⟨i, hi, rfl⟩ := List.mem_map.1 hn
    obtain ⟨id, -, rfl⟩ := List.mem_map.1 hi
    exact List.mem_range.2 (handleOf_lt id)
  have hle := (List.subperm_of_subset hnumbers hrange).length_le
  rwa [List.length_map, List.length_map, List.length_range] at hle

theorem install_eq_error {a : ArrayVar} {f : Failure} (h : install a s = .error f t) :
    f = .exhausted ∧ ∀ i, ¬ t.IsFree i := by
  rcases bind_eq_error.1 h with h | ⟨_, _, _, h⟩
  · rcases HandleTable.place_cases s a with ⟨i, u, hp⟩ | ⟨hp, hnone⟩
    · rw [hp] at h
      cases h
    · rw [hp] at h
      cases h
      exact ⟨rfl, hnone⟩
  · cases h

/-- an array and those above it are all different -/
theorem Acyclic.nodup_above {root : UInt32} {above : List UInt32} (h : origin.Acyclic root)
    (habove : ∀ x ∈ above, origin.Leads root x ∧ Relation.TransGen origin.Names x source)
    (hnodup : (above.map handleOf).Nodup) : ((source :: above).map handleOf).Nodup := by
  refine List.nodup_cons.2 ⟨fun hm => ?_, hnodup⟩
  obtain ⟨x, hx, he⟩ := List.mem_map.1 hm
  obtain ⟨hlead, hbelow⟩ := habove x hx
  exact h hlead hbelow he

/-- every element of a packed array has a position that a key can name -/
def Positioned (s : ArrayStore) : Prop :=
  ∀ ⦃id : UInt32⦄ ⦃a : ArrayVar⦄, s.find? id = some a → a.storage.checkPositions = .ok ()

/-- the fuel lasts, for there are no more arrays above one another than there are handles -/
theorem copyTree_refused {root : UInt32} {above : List UInt32} {fuel : Nat} {f : Failure}
    (hpositions : origin.Positioned) (hroot : origin.Complete root)
    (hacyclic : origin.Acyclic root) (hsource : origin.Leads root source)
    (hlive : (origin.find? source).isSome)
    (habove : ∀ x ∈ above, origin.Leads root x ∧ Relation.TransGen origin.Names x source)
    (hnodup : (above.map handleOf).Nodup) (hfuel : handleLimit ≤ fuel + above.length)
    (hs : origin.Spares s) (h : copyTree owner true fuel source s = .error f t) :
    f = .exhausted ∧ ∀ i, ¬ t.IsFree i := by
  induction fuel generalizing source above s f t with
  | zero =>
    have hlength := length_le_of_handles (hacyclic.nodup_above habove hnodup)
    rw [List.length_cons] at hlength
    omega
  | succ fuel ih =>
    obtain ⟨a, ha⟩ := Option.isSome_iff_exists.1 hlive
    have hlookup : lookup source s = .ok a s := lookup_eq_ok.2 ⟨hs.find? ha, rfl⟩
    rcases copyTree_eq_error h with hl | ⟨b, hb, hrest⟩
    · exact nomatch hlookup.symm.trans hl
    obtain rfl := Option.some.inj ((hs.find? ha).symm.trans hb)
    rw [Storage.fillable_eq (hpositions ha)] at hrest
    rcases hrest with ht | ⟨storage, u, -, ⟨hp, -⟩ | ⟨-, hi⟩⟩
    · obtain ⟨before, e, after, done, u, hvalues, hdone, he⟩ := traverse_eq_error ht
      obtain ⟨x, rfl, hx, hcopy⟩ := copyElement_eq_error he
      have hnames : ∀ y, .array y ∈ before ++ .array x :: after → origin.Names source y :=
        fun y hy => ⟨a, ha, by rwa [ArrayVar.values, hvalues]⟩
      have hbefore : ∀ y, .array y ∈ before → origin.Names source y := fun y hy =>
        hnames y (List.mem_append_left _ hy)
      have hx' : origin.Names source x :=
        hnames x (List.mem_append_right _ List.mem_cons_self)
      have hcomplete : ∀ {y}, origin.Names source y → origin.Complete y := fun hy _ hz =>
        hroot ((hsource.tail hy).trans hz)
      obtain ⟨new, -, hadded, -⟩ := mapM_copyElement
        (fun {y n v w} hy hv hn => freshTree_only_copyTree (hcomplete (hbefore y hy)) hv hn)
        (fun y hy => hcomplete (hbefore y hy) .refl) hs hdone
      have hlive' : (origin.find? x).isSome := by
        rcases hcomplete hx' .refl with rfl | hsome
        · rw [u.find?_eq_none_of_zero (by decide)] at hx
          cases hx
        · exact hsome
      refine ih (hsource.tail hx') hlive' (List.forall_mem_cons.2 ⟨⟨hsource, .single hx'⟩,
        fun y hy => ⟨(habove y hy).1, (habove y hy).2.tail hx'⟩⟩)
        (hacyclic.nodup_above habove hnodup) ?_ (hs.trans hadded.spares) hcopy
      rw [List.length_cons]
      omega
    · exact nomatch hp.symm.trans (hpositions ha)
    · exact install_eq_error hi

/-- Without a cycle, copies are refused only for want of handles, if all elements have positions. -/
theorem copy_refused (hp : s.Positioned) (hc : s.Complete source) (hacyclic : s.Acyclic source)
    (hlive : (s.find? source).isSome) {f : Failure} (h : copy source owner true s = .error f t) :
    f = .exhausted ∧ ∀ i, ¬ t.IsFree i :=
  copyTree_refused hp hc hacyclic .refl hlive (List.forall_mem_nil _) .nil (Nat.le_refl _)
    (.refl s) h

/-- list 3 holds map 2 and list 1, and map 2 holds list 1 twice, once with a reserved bit -/
def tangled : ArrayStore :=
  [.createList [.number ⟨0⟩] 2,
    .createMap [(.text "left", .array 1), (.text "right", .array 0x10000001)] 3,
    .createList [.array 2, .array 0, .array 1, .string "end"] 4].foldl Call.apply .empty

theorem exists_of_run' {α : Type} {x : Action ArrayStore α} {a : α} (h : x.run' s = some a) :
    ∃ t, x s = .ok a t := by
  delta EStateM.run' EStateM.run at h
  cases hx : x s with
  | ok b t =>
    rw [hx] at h
    exact ⟨t, by rw [Option.some.inj h]⟩
  | error f t =>
    rw [hx] at h
    cases h

/-- list 1 is copied three times -/
theorem copy_deep_tangled : ∃ t below, copy 3 9 true tangled = .ok 8 t ∧
    FreshTree tangled tangled t 9 3 8 below := by
  have hclosed : tangled.Closed := by decide +kernel
  have hcopied : ∃ t, copy 3 9 true tangled = .ok 8 t := exists_of_run' (by decide +kernel)
  obtain ⟨t, ht⟩ := hcopied
  obtain ⟨below, htree⟩ := copy_deep (hclosed.complete (by decide +kernel)) ht
  exact ⟨t, below, ht, htree⟩

end ArrayStore

end ScriptVars
