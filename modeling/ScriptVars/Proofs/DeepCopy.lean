import ScriptVars.Proofs.Outcomes

/-!
# Copies of arrays

A copy is made from the leaves up: the arrays below a new one are there before it is.  So whatever
installing one array and marking one as temporary preserve, a copy preserves as well, even one that
is refused half way.

* `Grows`                   no array goes;
* `Action.Maintains`        an invariant that stays, whatever the outcome;
* `Storage.Mapped`          storages with the same keys and related elements;
* `maintains_copyTree`      the rule for copies.
-/

namespace ScriptVars

/-! ## Storages with related elements -/

theorem exists_of_mem_right {α β : Type} {R : α → β → Prop} {l : List α} {l' : List β} {b : β}
    (h : List.Forall₂ R l l') (hb : b ∈ l') : ∃ a ∈ l, R a b := by
  induction h with
  | nil => cases hb
  | cons hr _ ih =>
    rcases List.mem_cons.1 hb with rfl | hb
    · exact ⟨_, List.mem_cons_self, hr⟩
    · obtain ⟨a, ha, hab⟩ := ih hb
      exact ⟨a, List.mem_cons_of_mem _ ha, hab⟩

/-- the same layout and keys, with related elements -/
inductive Storage.Mapped (R : Element → Element → Prop) : Storage → Storage → Prop where
  | packed {values values' : List Element} (h : List.Forall₂ R values values') :
    Mapped R (packed values) (packed values')
  | sorted {entries entries' : List (Key × Element)}
    (h : List.Forall₂ (fun p q => p.1 = q.1 ∧ R p.2 q.2) entries entries') :
    Mapped R (sorted entries) (sorted entries')

/-- what holds of everything that elements are mapped to holds of the elements of the image -/
theorem Storage.Mapped.of_mem {R : Element → Element → Prop} {P : Element → Prop} {s t : Storage}
    (h : s.Mapped R t) (hP : ∀ e ∈ s.values, ∀ e', R e e' → P e') : ∀ e ∈ t.values, P e := by
  cases h with
  | packed h =>
    intro e he
    obtain ⟨x, hx, hr⟩ := exists_of_mem_right h he
    exact hP x hx e hr
  | sorted h =>
    intro e he
    obtain ⟨q, hq, rfl⟩ := List.mem_map.1 he
    obtain ⟨p, hp, -, hr⟩ := exists_of_mem_right h hq
    exact hP p.2 (List.mem_map_of_mem hp) q.2 hr

namespace ArrayStore

/-- every array is still there -/
def Grows (s s' : ArrayStore) : Prop := ∀ i, (s.find? i).isSome → (s'.find? i).isSome

theorem Grows.refl (s : ArrayStore) : s.Grows s := fun _ h => h

theorem Grows.trans {s t u : ArrayStore} (h₁ : s.Grows t) (h₂ : t.Grows u) : s.Grows u :=
  fun i h => h₂ i (h₁ i h)

theorem Grows.install {s s' : ArrayStore} {a : ArrayVar} {h : UInt32}
    (hi : install a s = .ok h s') : s.Grows s' := by
  obtain ⟨t, hp, rfl⟩ := install_eq_ok.1 hi
  intro i hs
  rw [find?_retainAll, (HandleTable.places_of_place hp).find?, Option.isSome_map]
  split
  · rfl
  · exact hs

theorem find?_install_self {s s' : ArrayStore} {a : ArrayVar} {h : UInt32}
    (hi : install a s = .ok h s') : (s'.find? h).isSome := by
  obtain ⟨t, hp, rfl⟩ := install_eq_ok.1 hi
  have hpl := HandleTable.places_of_place hp
  rw [find?_retainAll, hpl.find?, if_pos (handleOf_eq_self hpl.free.1.2).symm]
  rfl

/-- an operation that keeps an invariant and every array, whatever comes out; what is said of its
result goes on to hold as arrays are added -/
structure Maintains {α : Type} (Inv : ArrayStore → Prop) (Q : ArrayStore → α → Prop)
    (x : Action ArrayStore α) : Prop where
  ok : ∀ {s a s'}, Inv s → x s = .ok a s' → Inv s' ∧ s.Grows s' ∧ Q s' a
  error : ∀ {s f s'}, Inv s → x s = .error f s' → Inv s' ∧ s.Grows s'

section
variable {α β γ : Type} {Inv : ArrayStore → Prop}

theorem Maintains.bind {Q : ArrayStore → α → Prop} {Q' : ArrayStore → β → Prop}
    {x : Action ArrayStore α} {g : α → Action ArrayStore β} (hx : Maintains Inv Q x)
    (hg : ∀ {s a}, Inv s → Q s a → (∀ {b s'}, g a s = .ok b s' → Inv s' ∧ s.Grows s' ∧ Q' s' b) ∧
      ∀ {f s'}, g a s = .error f s' → Inv s' ∧ s.Grows s') : Maintains Inv Q' (x >>= g) where
  ok hs h := by
    obtain ⟨a, t, h₁, h₂⟩ := Action.bind_eq_ok.1 h
    obtain ⟨ht, hst, hq⟩ := hx.ok hs h₁
    obtain ⟨hi, hgr, hq'⟩ := (hg ht hq).1 h₂
    exact ⟨hi, hst.trans hgr, hq'⟩
  error hs h := by
    rcases Action.bind_eq_error.1 h with h | ⟨a, t, h₁, h₂⟩
    · exact hx.error hs h
    · obtain ⟨ht, hst, hq⟩ := hx.ok hs h₁
      obtain ⟨hi, hgr⟩ := (hg ht hq).2 h₂
      exact ⟨hi, hst.trans hgr⟩

theorem maintains_pure {Q : ArrayStore → α → Prop} {a : α} (h : ∀ s, Inv s → Q s a) :
    Maintains Inv Q (pure a) where
  ok hs hr := by
    obtain ⟨rfl, rfl⟩ := Action.pure_eq_ok.1 hr
    exact ⟨hs, .refl _, h _ hs⟩
  error _ hr := nomatch hr

theorem maintains_mapM {R : ArrayStore → β → γ → Prop} {f : β → Action ArrayStore γ}
    (hR : ∀ {s s' b c}, s.Grows s' → R s b c → R s' b c)
    (hf : ∀ b, Maintains Inv (fun s c => R s b c) (f b)) (l : List β) :
    Maintains Inv (fun s l' => List.Forall₂ (R s) l l') (l.mapM f) := by
  induction l with
  | nil =>
    rw [List.mapM_nil]
    exact maintains_pure fun _ _ => .nil
  | cons b l ih =>
    rw [List.mapM_cons]
    refine (hf b).bind fun {s c} hs hc => ?_
    have hrest : ∀ {l' t}, l.mapM f s = .ok l' t →
        Inv t ∧ s.Grows t ∧ List.Forall₂ (R t) (b :: l) (c :: l') := by
      intro l' t hl
      obtain ⟨ht, hst, hl'⟩ := ih.ok hs hl
      exact ⟨ht, hst, .cons (hR hst hc) hl'⟩
    refine ⟨fun h => ?_, fun h => ?_⟩
    · obtain ⟨l', t, hl, hp⟩ := Action.bind_eq_ok.1 h
      obtain ⟨rfl, rfl⟩ := Action.pure_eq_ok.1 hp
      exact hrest hl
    · rcases Action.bind_eq_error.1 h with h | ⟨l', t, hl, hp⟩
      · exact ih.error hs h
      · cases hp

theorem maintains_traverse {R : ArrayStore → Element → Element → Prop}
    {f : Element → Action ArrayStore Element}
    (hR : ∀ {s s' e e'}, s.Grows s' → R s e e' → R s' e e')
    (hf : ∀ e, Maintains Inv (fun s e' => R s e e') (f e)) (st : Storage) :
    Maintains Inv (fun s st' => st.Mapped (R s) st') (st.traverse f) := by
  cases st with
  | packed values =>
    refine (maintains_mapM (R := R) hR hf values).bind fun {s l'} hs hl => ⟨fun h => ?_, nofun⟩
    obtain ⟨rfl, rfl⟩ := Action.pure_eq_ok.1 h
    exact ⟨hs, .refl _, .packed hl⟩
  | sorted entries =>
    have hentry : ∀ p : Key × Element, Maintains Inv
        (fun s (q : Key × Element) => p.1 = q.1 ∧ R s p.2 q.2)
        (do return (p.1, ← f p.2)) := by
      intro p
      refine (hf p.2).bind fun {s e'} hs he => ⟨fun h => ?_, nofun⟩
      obtain ⟨rfl, rfl⟩ := Action.pure_eq_ok.1 h
      exact ⟨hs, .refl _, rfl, he⟩
    refine (maintains_mapM (fun hg hr => ⟨hr.1, hR hg hr.2⟩) hentry entries).bind
      fun {s l'} hs hl => ⟨fun h => ?_, nofun⟩
    obtain ⟨rfl, rfl⟩ := Action.pure_eq_ok.1 h
    exact ⟨hs, .refl _, .sorted hl⟩

/-! ## Copies -/

/-- an element and its copy: the same, or the ids of an array and of one that is there now -/
def Copied (s : ArrayStore) (e e' : Element) : Prop :=
  e' = e ∨ ∃ id id', e = .array id ∧ e' = .array id' ∧ (s.find? id').isSome

theorem Copied.mono {s s' : ArrayStore} {e e' : Element} (hg : s.Grows s') (h : Copied s e e') :
    Copied s' e e' := by
  rcases h with h | ⟨id, id', he, he', hs⟩
  · exact .inl h
  · exact .inr ⟨id, id', he, he', hg id' hs⟩

theorem Copied.accepts {s : ArrayStore} {e e' : Element} (h : Copied s e e')
    (he : s.accepts e) : s.accepts e' := by
  rcases h with rfl | ⟨id, id', -, rfl, hs⟩
  · exact he
  · exact accepts_array.2 (.inr hs)

theorem maintains_copyElement {copyChild : UInt32 → Action ArrayStore UInt32}
    (hchild : ∀ id, Maintains Inv (fun s h => (s.find? h).isSome) (copyChild id))
    (hmark : ∀ {s} (id : UInt32), Inv s → Inv (s.markTemporary id true)) (deep : Bool)
    (e : Element) : Maintains Inv (fun s e' => Copied s e e') (copyElement copyChild deep e) := by
  cases e with
  | array child =>
    have hdeep : Maintains Inv (fun s e' => Copied s (.array child) e') (do
        let nested ← copyChild child
        modify fun s => s.markTemporary nested true
        return .array nested) := by
      refine (hchild child).bind fun {s h} hs hh => ⟨fun hr => ?_, nofun⟩
      obtain ⟨_, t, hm, hp⟩ := Action.bind_eq_ok.1 hr
      obtain rfl := Action.modify_eq_ok.1 hm
      obtain ⟨rfl, rfl⟩ := Action.pure_eq_ok.1 hp
      have hfind : ∀ i, (HandleTable.markTemporary s h true).find? i = s.find? i := fun i =>
        s.find?_markTemporary h i true
      refine ⟨hmark h hs, fun i hi => by rwa [hfind], .inr ⟨child, h, rfl, rfl, ?_⟩⟩
      rwa [hfind]
    have hshallow : Maintains Inv (fun s e' => Copied s (.array child) e')
        (pure (.array child)) := maintains_pure fun _ _ => .inl rfl
    constructor
    · intro s e' s' hs h
      by_cases hc : (deep && HandleTable.contains s child) = true
      · refine hdeep.ok hs (Eq.trans ?_ h)
        show _ = (if (deep && HandleTable.contains s child) = true then _ else _ : Action _ _) s
        rw [if_pos hc]
      · refine hshallow.ok hs (Eq.trans ?_ h)
        show _ = (if (deep && HandleTable.contains s child) = true then _ else _ : Action _ _) s
        rw [if_neg hc]
    · intro s f s' hs h
      by_cases hc : (deep && HandleTable.contains s child) = true
      · refine hdeep.error hs (Eq.trans ?_ h)
        show _ = (if (deep && HandleTable.contains s child) = true then _ else _ : Action _ _) s
        rw [if_pos hc]
      · refine hshallow.error hs (Eq.trans ?_ h)
        show _ = (if (deep && HandleTable.contains s child) = true then _ else _ : Action _ _) s
        rw [if_neg hc]
  | _ => exact maintains_pure fun _ _ => .inl rfl

/-- a copy that is made is one of all elements -/
theorem copyTree_eq_ok {owner : UInt8} {deep : Bool} {fuel : Nat} {s t : ArrayStore}
    {source c : UInt32} (h : copyTree owner deep (fuel + 1) source s = .ok c t) :
    ∃ a storage u, s.find? source = some a ∧
      a.storage.traverse (copyElement (copyTree owner deep fuel) deep) s = .ok storage u ∧
      install ⟨a.kind, owner, [], storage⟩ u = .ok c t := by
  obtain ⟨a, _, hl, hcopy⟩ := Action.bind_eq_ok.1 h
  obtain ⟨hf, rfl⟩ := lookup_eq_ok.1 hl
  obtain ⟨storage, u, ht, hrest⟩ := Action.bind_eq_ok.1 hcopy
  obtain ⟨_, _, hp, hi⟩ := Action.bind_eq_ok.1 hrest
  obtain ⟨hpositions, rfl⟩ := Action.demand_eq_ok.1 hp
  rw [Storage.fillable_eq hpositions] at ht
  exact ⟨a, storage, _, hf, ht, hi⟩

/-- a copy is refused when there is nothing to copy, at an element, for want of a position, or for
want of a handle -/
theorem copyTree_eq_error {owner : UInt8} {deep : Bool} {fuel : Nat} {s t : ArrayStore}
    {source : UInt32} {f : Failure} (h : copyTree owner deep (fuel + 1) source s = .error f t) :
    lookup source s = .error f t ∨ ∃ a, s.find? source = some a ∧
      (a.storage.fillable.traverse (copyElement (copyTree owner deep fuel) deep) s = .error f t ∨
        ∃ storage u,
          a.storage.fillable.traverse (copyElement (copyTree owner deep fuel) deep) s =
            .ok storage u ∧
          (a.storage.checkPositions = .error f ∧ t = u ∨
            a.storage.checkPositions = .ok () ∧
              install ⟨a.kind, owner, [], storage⟩ u = .error f t)) := by
  rcases Action.bind_eq_error.1 h with hl | ⟨a, _, hl, hcopy⟩
  · exact .inl hl
  · obtain ⟨hf, rfl⟩ := lookup_eq_ok.1 hl
    refine .inr ⟨a, hf, ?_⟩
    rcases Action.bind_eq_error.1 hcopy with ht | ⟨storage, u, ht, hrest⟩
    · exact .inl ht
    · refine .inr ⟨storage, u, ht, ?_⟩
      rcases Action.bind_eq_error.1 hrest with hp | ⟨_, _, hp, hi⟩
      · cases hc : a.storage.checkPositions with
        | ok _ =>
          rw [hc] at hp
          cases hp
        | error g =>
          rw [hc] at hp
          cases hp
          exact .inl ⟨rfl, rfl⟩
      · obtain ⟨hpositions, rfl⟩ := Action.demand_eq_ok.1 hp
        exact .inr ⟨hpositions, hi⟩

/-- an invariant that marking and installing keep is kept by a copy of any depth -/
theorem maintains_copyTree
    (hmark : ∀ {s} (id : UInt32), Inv s → Inv (s.markTemporary id true))
    (hinstall : ∀ {s₀ s t source a owner storage h}, Inv s₀ → s₀.find? source = some a →
      s₀.Grows s → Inv s → a.storage.Mapped (Copied s) storage →
      install ⟨a.kind, owner, [], storage⟩ s = .ok h t → Inv t)
    (owner : UInt8) (deep : Bool) (fuel : Nat) (source : UInt32) :
    Maintains Inv (fun s h => (s.find? h).isSome) (copyTree owner deep fuel source) := by
  induction fuel generalizing source with
  | zero =>
    refine ⟨nofun, fun hs h => ?_⟩
    cases h
    exact ⟨hs, .refl _⟩
  | succ fuel ih =>
    have htree : ∀ {st : Storage}, Maintains Inv (fun s st' => st.Mapped (Copied s) st')
        (st.traverse (copyElement (copyTree owner deep fuel) deep)) := fun {st} =>
      maintains_traverse (fun hg hc => hc.mono hg) (maintains_copyElement ih hmark deep) st
    constructor
    · intro s₀ h t hs₀ hr
      obtain ⟨a, storage, s, hf, ht, hi⟩ := copyTree_eq_ok hr
      obtain ⟨hs, hg, hm⟩ := htree.ok hs₀ ht
      exact ⟨hinstall hs₀ hf hg hs hm hi, hg.trans (.install hi), find?_install_self hi⟩
    · intro s₀ f t hs₀ hr
      rcases copyTree_eq_error hr with hl | ⟨a, -, ht | ⟨storage, s, ht, h⟩⟩
      · obtain rfl := (reads_lookup source).error hl
        exact ⟨hs₀, .refl _⟩
      · exact htree.error hs₀ ht
      · obtain ⟨hs, hg, -⟩ := htree.ok hs₀ ht
        rcases h with ⟨-, rfl⟩ | ⟨-, hi⟩
        · exact ⟨hs, hg⟩
        · obtain rfl := atomic_install _ hi
          exact ⟨hs, hg⟩

end

end ArrayStore
end ScriptVars
