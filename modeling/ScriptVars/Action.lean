import ScriptVars.Failure

/-!
# Actions

An operation on a state that may be refused.  The state comes back either way, so that it can be
said, and has to be shown, what a refused operation leaves behind.

* `Action σ α`           a state of type `σ` goes in; a result or a failure comes out, with a state;
* `Action.demand`        a check that does not touch the state;
* `Action.onFirst`       on one of two states;
* `Action.bind_eq_ok`, …   what led to a result;
* `Action.Reads`         never changes the state;
* `Action.Atomic`        leaves the state as it was when it is refused;
* `Action.Keeps`         an invariant that stays, whatever comes out.
-/

namespace ScriptVars

/-- an operation on states of type `σ` with results of type `α` -/
abbrev Action (σ α : Type) := EStateM Failure σ α

namespace Action

variable {σ α : Type}

/-- the result of a check, or its failure -/
def demand : Except Failure α → Action σ α
  | .ok a => pure a
  | .error f => throw f

/-- the value that must be present, or a failure in its place -/
def require (f : Failure) : Option α → Action σ α
  | some a => pure a
  | none => throw f

def onFirst {τ : Type} (x : Action σ α) : Action (σ × τ) α := fun (s, other) =>
  match x s with
  | .ok a s => .ok a (s, other)
  | .error f s => .error f (s, other)

/-- the state that an operation leaves behind, refused or not -/
def after (x : Action σ α) (s : σ) : σ :=
  match x s with
  | .ok _ s' => s'
  | .error _ s' => s'

theorem after_bind {β : Type} (x : Action σ α) (g : α → Action σ β) (s : σ) :
    (x >>= g).after s =
      match x s with
      | .ok a t => (g a).after t
      | .error _ t => t := by
  rw [after]
  show (match EStateM.bind x g s with | .ok _ t => t | .error _ t => t) = _
  rw [EStateM.bind]
  cases x s <;> rfl

theorem after_get_bind {β : Type} (g : σ → Action σ β) (s : σ) :
    (get >>= g).after s = (g s).after s := rfl

theorem after_onFirst {τ : Type} (x : Action σ α) (p : σ × τ) :
    (onFirst x).after p = (x.after p.1, p.2) := by
  rw [after, after, onFirst]
  cases x p.1 <;> rfl

/-! ### outcomes -/

section
variable {β : Type} {s s' : σ} {f : Failure}

theorem bind_eq_ok {x : Action σ α} {g : α → Action σ β} {b : β} :
    (x >>= g) s = .ok b s' ↔ ∃ a t, x s = .ok a t ∧ g a t = .ok b s' := by
  show EStateM.bind x g s = _ ↔ _
  rw [EStateM.bind]
  cases x s with
  | ok a t => exact ⟨fun h => ⟨a, t, rfl, h⟩, fun ⟨_, _, e, h⟩ => by cases e; exact h⟩
  | error e t => exact ⟨nofun, fun ⟨_, _, e, _⟩ => by cases e⟩

/-- a first step with a result -/
theorem bind_of_ok {x : Action σ α} {g : α → Action σ β} {a : α} {t : σ} (h : x s = .ok a t) :
    (x >>= g) s = g a t := by
  show EStateM.bind x g s = _
  rw [EStateM.bind, h]

theorem bind_eq_error {x : Action σ α} {g : α → Action σ β} :
    (x >>= g) s = .error f s' ↔
      x s = .error f s' ∨ ∃ a t, x s = .ok a t ∧ g a t = .error f s' := by
  show EStateM.bind x g s = _ ↔ _
  rw [EStateM.bind]
  cases x s with
  | ok a t =>
    refine ⟨fun h => .inr ⟨a, t, rfl, h⟩, ?_⟩
    rintro (e | ⟨_, _, e, h⟩) <;> cases e
    exact h
  | error e t =>
    refine ⟨fun h => .inl ?_, ?_⟩
    · cases h
      rfl
    · rintro (e | ⟨_, _, e, h⟩) <;> cases e
      rfl

theorem pure_eq_ok {a b : α} : (pure a : Action σ α) s = .ok b s' ↔ b = a ∧ s' = s := by
  show EStateM.Result.ok a s = .ok b s' ↔ _
  rw [EStateM.Result.ok.injEq]
  exact and_congr eq_comm eq_comm

theorem get_eq_ok {a : σ} : (get : Action σ σ) s = .ok a s' ↔ a = s ∧ s' = s := by
  show EStateM.Result.ok s s = .ok a s' ↔ _
  rw [EStateM.Result.ok.injEq]
  exact and_congr eq_comm eq_comm

theorem set_eq_ok {t : σ} {u : PUnit} : (set t : Action σ PUnit) s = .ok u s' ↔ s' = t := by
  show EStateM.Result.ok _ t = .ok u s' ↔ _
  rw [EStateM.Result.ok.injEq]
  exact ⟨fun h => h.2.symm, fun h => ⟨rfl, h.symm⟩⟩

theorem modify_eq_ok {g : σ → σ} {u : PUnit} :
    (modify g : Action σ PUnit) s = .ok u s' ↔ s' = g s := by
  show EStateM.Result.ok _ (g s) = .ok u s' ↔ _
  rw [EStateM.Result.ok.injEq]
  exact ⟨fun h => h.2.symm, fun h => ⟨rfl, h.symm⟩⟩

theorem demand_eq_ok {c : Except Failure α} {a : α} :
    demand c s = .ok a s' ↔ c = .ok a ∧ s' = s := by
  cases c with
  | ok b =>
    show (pure b : Action σ α) s = _ ↔ _
    rw [pure_eq_ok, Except.ok.injEq, @eq_comm _ a b]
  | error e => exact ⟨nofun, fun h => nomatch h.1⟩

theorem require_eq_ok {o : Option α} {a : α} :
    require f o s = .ok a s' ↔ o = some a ∧ s' = s := by
  cases o with
  | some b =>
    show (pure b : Action σ α) s = _ ↔ _
    rw [pure_eq_ok, Option.some.injEq, @eq_comm _ a b]
  | none => exact ⟨nofun, fun h => nomatch h.1⟩

theorem throw_eq_ok {a : α} : ¬ (throw f : Action σ α) s = .ok a s' := nofun

end

/-! ### states that stay -/

/-- never changes the state -/
structure Reads (x : Action σ α) : Prop where
  ok : ∀ {s a s'}, x s = .ok a s' → s' = s
  error : ∀ {s f s'}, x s = .error f s' → s' = s

/-- leaves the state as it was when it is refused -/
def Atomic (x : Action σ α) : Prop := ∀ ⦃s f s'⦄, x s = .error f s' → s' = s

/-- such an operation changes nothing, or has a result -/
theorem Atomic.after_cases {x : Action σ α} (hx : Atomic x) (s : σ) :
    x.after s = s ∨ ∃ a, x s = .ok a (x.after s) := by
  rw [after]
  cases h : x s with
  | ok a t => exact .inr ⟨a, rfl⟩
  | error f t => exact .inl (hx h)

/-- keeps what is known of the state, whatever comes out -/
def Keeps (I : σ → Prop) (x : Action σ α) : Prop := ∀ ⦃s⦄, I s → I (x.after s)

/-- is never refused -/
def Succeeds (x : Action σ α) : Prop := ∀ ⦃s f s'⦄, x s ≠ .error f s'

section
variable {β : Type}

theorem reads_pure (a : α) : Reads (pure a : Action σ α) where
  ok h := (pure_eq_ok.1 h).2
  error h := nomatch h

theorem reads_get : Reads (get : Action σ σ) where
  ok h := (get_eq_ok.1 h).2
  error h := nomatch h

theorem reads_throw (f : Failure) : Reads (throw f : Action σ α) where
  ok h := nomatch h
  error h := by cases h; rfl

theorem reads_demand (c : Except Failure α) : Reads (demand c : Action σ α) := by
  cases c with
  | ok a => exact reads_pure a
  | error f => exact reads_throw f

theorem reads_require (f : Failure) (o : Option α) : Reads (require f o : Action σ α) := by
  cases o with
  | some a => exact reads_pure a
  | none => exact reads_throw f

theorem Reads.bind {x : Action σ α} {g : α → Action σ β} (hx : Reads x)
    (hg : ∀ a, Reads (g a)) : Reads (x >>= g) where
  ok h := by
    obtain ⟨a, t, h₁, h₂⟩ := bind_eq_ok.1 h
    exact ((hg a).ok h₂).trans (hx.ok h₁)
  error h := by
    rcases bind_eq_error.1 h with h | ⟨a, t, h₁, h₂⟩
    · exact hx.error h
    · exact ((hg a).error h₂).trans (hx.ok h₁)

theorem Reads.bind_atomic {x : Action σ α} {g : α → Action σ β} (hx : Reads x)
    (hg : ∀ a, Atomic (g a)) : Atomic (x >>= g) := by
  intro s f s' h
  rcases bind_eq_error.1 h with h | ⟨a, t, h₁, h₂⟩
  · exact hx.error h
  · exact (hg a h₂).trans (hx.ok h₁)

theorem Succeeds.atomic {x : Action σ α} (hx : Succeeds x) : Atomic x := fun _ _ _ h =>
  (hx h).elim

theorem succeeds_pure (a : α) : Succeeds (pure a : Action σ α) := nofun

theorem succeeds_set (t : σ) : Succeeds (set t : Action σ PUnit) := nofun

theorem succeeds_modify (g : σ → σ) : Succeeds (modify g : Action σ PUnit) := nofun

theorem Succeeds.bind {x : Action σ α} {g : α → Action σ β} (hx : Succeeds x)
    (hg : ∀ a, Succeeds (g a)) : Succeeds (x >>= g) := by
  intro s f s' h
  rcases bind_eq_error.1 h with h | ⟨a, t, _, h⟩
  · exact hx h
  · exact hg a h

theorem Reads.keeps {I : σ → Prop} {x : Action σ α} (hx : Reads x) : Keeps I x := by
  intro s hs
  rw [after]
  cases h : x s with
  | ok a t => exact hx.ok h ▸ hs
  | error f t => exact hx.error h ▸ hs

theorem Keeps.bind {I : σ → Prop} {x : Action σ α} {g : α → Action σ β} (hx : Keeps I x)
    (hg : ∀ {a s t}, x s = .ok a t → I t → I ((g a).after t)) : Keeps I (x >>= g) := by
  intro s hs
  have ht := hx hs
  rw [after_bind]
  rw [after] at ht
  cases h : x s with
  | ok a t =>
    rw [h] at ht
    exact hg h ht
  | error f t =>
    rw [h] at ht
    exact ht

theorem Keeps.ite {I : σ → Prop} {c : Prop} [Decidable c] {x y : Action σ α} (hx : Keeps I x)
    (hy : Keeps I y) : Keeps I (if c then x else y) := by
  split
  · exact hx
  · exact hy

theorem keeps_throw_bind {I : σ → Prop} (f : Failure) (g : α → Action σ β) :
    Keeps I (throw f >>= g) := (reads_throw f).keeps.bind nofun

/-- after the last check nothing is refused any more -/
theorem Atomic.bind {x : Action σ α} {g : α → Action σ β} (hx : Atomic x)
    (hg : ∀ a, Succeeds (g a)) : Atomic (x >>= g) := by
  intro s f s' h
  rcases bind_eq_error.1 h with h | ⟨a, t, _, h⟩
  · exact hx h
  · exact (hg a h).elim

end

end Action
end ScriptVars
