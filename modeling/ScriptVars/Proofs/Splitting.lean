import ScriptVars.Proofs.Pruning

/-!
# Blanks and separators

Trimming takes the blanks at the ends of a text and no more; splitting cuts a text at its
separators, so that the pieces with separators between them are the text.

* `Text.Blank`, `Tight`                       only blanks, none at the ends;
* `Text.trim_append`, `exists_of_trim`        what trimming leaves and takes;
* `Text.splitOnce_append`, `splitOnce_eq_some`   cutting at the first separator;
* `Text.split_append`, `intercalate_split`    cutting at each.
-/

namespace ScriptVars

namespace Text

/-! ## Blanks at the ends -/

def Blank (cs : List Char) : Prop := ∀ c ∈ cs, isBlank c = true

instance (cs : List Char) : Decidable (Blank cs) :=
  inferInstanceAs (Decidable (∀ c ∈ cs, isBlank c = true))

/-- there is no blank at either end -/
structure Tight (cs : List Char) : Prop where
  head : ∀ c ∈ cs.head?, isBlank c = false
  last : ∀ c ∈ cs.getLast?, isBlank c = false

theorem tight_of_forall {cs : List Char} (h : ∀ c ∈ cs, isBlank c = false) : Tight cs where
  head c hc := h c (List.mem_of_mem_head? hc)
  last c hc := h c (List.mem_of_mem_getLast? hc)

/-- the ends of a text are those of its outer parts -/
theorem Tight.append {cs ds : List Char} (hcs : Tight cs) (hds : Tight ds) (hc : cs ≠ [])
    (hd : ds ≠ []) (middle : List Char) : Tight (cs ++ (middle ++ ds)) where
  head c h := by
    rw [List.head?_append_of_ne_nil cs hc] at h
    exact hcs.head c h
  last c h := by
    rw [List.getLast?_append_of_ne_nil _ (List.append_ne_nil_of_right_ne_nil middle hd),
      List.getLast?_append_of_ne_nil _ hd] at h
    exact hds.last c h

theorem dropWhile_of_head? {cs : List Char} (h : ∀ c ∈ cs.head?, isBlank c = false) :
    cs.dropWhile isBlank = cs := by
  cases cs with
  | nil => rfl
  | cons c cs =>
    have hc : isBlank c = false := h c rfl
    rw [List.dropWhile_cons, hc]
    rfl

theorem trim_of_blank {cs : List Char} (h : Blank cs) : trim cs = [] := by
  rw [trim, List.dropWhile_eq_nil_iff.2 h]
  rfl

/-- trimming takes the blanks and no more -/
theorem trim_append {before inner after : List Char} (hb : Blank before) (hi : Tight inner)
    (ha : Blank after) : trim (before ++ (inner ++ after)) = inner := by
  by_cases hne : inner = []
  · subst hne
    apply trim_of_blank
    intro c hc
    rcases List.mem_append.1 hc with hc | hc
    · exact hb c hc
    · exact ha c hc
  · unfold trim
    have hhead : (inner ++ after).dropWhile isBlank = inner ++ after := by
      apply dropWhile_of_head?
      rw [List.head?_append_of_ne_nil inner hne]
      exact hi.head
    have hlast : inner.reverse.dropWhile isBlank = inner.reverse := by
      apply dropWhile_of_head?
      rw [List.head?_reverse]
      exact hi.last
    rw [List.dropWhile_append_of_pos hb, hhead, List.reverse_append,
      List.dropWhile_append_of_pos fun c hc => ha c (List.mem_reverse.1 hc), hlast,
      List.reverse_reverse]

/-- what trimming takes are blanks -/
theorem exists_of_trim (cs : List Char) :
    ∃ before after, Blank before ∧ Blank after ∧ cs = before ++ (trim cs ++ after) := by
  refine ⟨cs.takeWhile isBlank, ((cs.dropWhile isBlank).reverse.takeWhile isBlank).reverse,
    fun c hc => List.mem_takeWhile_imp hc,
    fun c hc => List.mem_takeWhile_imp (List.mem_reverse.1 hc), ?_⟩
  unfold trim
  rw [← List.reverse_append, List.takeWhile_append_dropWhile, List.reverse_reverse,
    List.takeWhile_append_dropWhile]

theorem blank_of_trim {cs : List Char} (h : trim cs = []) : Blank cs := by
  obtain ⟨before, after, hb, ha, hcs⟩ := exists_of_trim cs
  rw [h] at hcs
  intro c hc
  rw [hcs] at hc
  rcases List.mem_append.1 hc with hc | hc
  · exact hb c hc
  · exact ha c hc

/-! ## Separators -/

theorem splitOnce_append {sep : Char} {before : List Char} (h : sep ∉ before)
    (after : List Char) : splitOnce sep (before ++ sep :: after) = some (before, after) := by
  have hne : ∀ c ∈ before, (c != sep) = true := by
    intro c hc
    rw [bne_iff_ne]
    rintro rfl
    exact h hc
  unfold splitOnce
  rw [List.dropWhile_append_of_pos hne, List.takeWhile_append_of_pos hne,
    List.dropWhile_cons_of_neg (by simp), List.takeWhile_cons_of_neg (by simp), List.append_nil]

theorem splitOnce_eq_some {sep : Char} {cs before after : List Char}
    (h : splitOnce sep cs = some (before, after)) : cs = before ++ sep :: after := by
  unfold splitOnce at h
  split at h
  · cases h
  · next c rest hdrop =>
    have hc : c = sep := by
      have := List.head?_dropWhile_not (· != sep) cs
      rw [hdrop] at this
      simpa using this
    obtain ⟨rfl, rfl⟩ := Prod.mk.inj (Option.some.inj h)
    calc cs = cs.takeWhile (· != sep) ++ cs.dropWhile (· != sep) :=
          List.takeWhile_append_dropWhile.symm
      _ = cs.takeWhile (· != sep) ++ sep :: rest := by rw [hdrop, hc]

theorem split_cons (sep c : Char) (cs : List Char) :
    split sep (c :: cs) = splitStep sep c (split sep cs) := rfl

theorem split_ne_nil (sep : Char) (cs : List Char) : split sep cs ≠ [] := by
  cases cs with
  | nil => exact List.cons_ne_nil _ _
  | cons c cs =>
    rw [split_cons]
    unfold splitStep
    split
    · exact List.cons_ne_nil _ _
    · split <;> exact List.cons_ne_nil _ _

/-- the first piece ends at the first separator -/
theorem split_append {sep : Char} {piece : List Char} (h : sep ∉ piece) (rest : List Char) :
    split sep (piece ++ sep :: rest) = piece :: split sep rest := by
  induction piece with
  | nil =>
    show splitStep sep sep (split sep rest) = _
    unfold splitStep
    rw [if_pos rfl]
  | cons c piece ih =>
    rw [List.cons_append, split_cons, ih fun hc => h (List.mem_cons_of_mem c hc)]
    unfold splitStep
    rw [if_neg (ne_of_mem_of_not_mem List.mem_cons_self h)]

theorem split_of_not_mem {sep : Char} {piece : List Char} (h : sep ∉ piece) :
    split sep piece = [piece] := by
  induction piece with
  | nil => rfl
  | cons c piece ih =>
    rw [split_cons, ih fun hc => h (List.mem_cons_of_mem c hc)]
    unfold splitStep
    rw [if_neg (ne_of_mem_of_not_mem List.mem_cons_self h)]

/-- pieces with separators between them are the text -/
theorem intercalate_split (sep : Char) (cs : List Char) :
    [sep].intercalate (split sep cs) = cs := by
  induction cs with
  | nil => rfl
  | cons c cs ih =>
    rw [split_cons]
    unfold splitStep
    have hne := split_ne_nil sep cs
    split
    · next hc =>
      obtain ⟨piece, rest, hsplit⟩ := List.exists_cons_of_ne_nil hne
      rw [hsplit] at ih ⊢
      rw [List.intercalate_cons_cons, ih, hc]
      rfl
    · cases hsplit : split sep cs with
      | nil => exact absurd hsplit hne
      | cons piece rest =>
        rw [hsplit] at ih
        cases rest with
        | nil =>
          rw [List.intercalate_singleton] at ih ⊢
          rw [ih]
        | cons second rest =>
          rw [List.intercalate_cons_cons] at ih ⊢
          rw [← ih]
          rfl

end Text

end ScriptVars
