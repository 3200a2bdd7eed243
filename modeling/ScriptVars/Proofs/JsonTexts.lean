import ScriptVars.Json.Parser
import ScriptVars.Proofs.Literals

/-!
# JSON texts that are read

A value that is printed is read back, but for numerals, which may be read as other ones.

* `Json.tokens`              the tokens of a value;
* `Json.Found`, `found`      a value is found in its tokens;
* `Json.reread`              a value as it is read;
* `Json.Scans`               characters that are taken as tokens, whatever stands before them;
* `Json.Printed`, `printed`  a printed value;
* `Json.parse?_pretty`       a text with a printed value.
-/

namespace ScriptVars.Json

/-- a property of all values, if arrays and objects have it whose parts have it -/
@[elab_as_elim]
theorem induct {P : Json → Prop} (null : P null) (bool : ∀ b, P (bool b))
    (number : ∀ n, P (number n)) (string : ∀ text, P (string text))
    (array : ∀ items, (∀ v ∈ items, P v) → P (array items))
    (object : ∀ members, (∀ m ∈ members, P m.2) → P (object members)) (j : Json) : P j :=
  Json.rec (motive_1 := P) (motive_2 := fun items => ∀ v ∈ items, P v)
    (motive_3 := fun members => ∀ m ∈ members, P m.2) (motive_4 := fun m => P m.2)
    null bool number string array object (List.forall_mem_nil _)
    (fun _ _ hv hrest => List.forall_mem_cons.2 ⟨hv, hrest⟩) (List.forall_mem_nil _)
    (fun _ _ hm hrest => List.forall_mem_cons.2 ⟨hm, hrest⟩) (fun _ _ hv => hv) j

/-! ## From tokens to values -/

mutual

def tokens : Json → List Token
  | null => [.null]
  | bool b => [.bool b]
  | number n => [.number n]
  | string text => [.string text]
  | array items => .openBracket :: (itemTokens false items ++ [.closeBracket])
  | object members => .openBrace :: (memberTokens false members ++ [.closeBrace])

/-- the tokens of items; `later` tells that others stand before them -/
def itemTokens (later : Bool) : List Json → List Token
  | [] => []
  | v :: rest => (if later then [.comma] else []) ++ (tokens v ++ itemTokens true rest)

def memberTokens (later : Bool) : List (Option String × Json) → List Token
  | [] => []
  | (name, v) :: rest =>
    (if later then [.comma] else []) ++
      (.string name :: .colon :: (tokens v ++ memberTokens true rest))

end

/-- found in its tokens, if there is enough fuel -/
def Found (j : Json) : Prop :=
  ∀ fuel after, j.tokens.length ≤ fuel → value? fuel (j.tokens ++ after) = some (j, after)

/-- nothing is closed where a value begins -/
theorem tokens_append_ne (j : Json) (after rest : List Token) :
    j.tokens ++ after ≠ .closeBracket :: rest := by
  cases j <;> simp [tokens]

theorem items?_tokens {v : Json} {items : List Json} (hv : v.Found) (h : ∀ w ∈ items, w.Found)
    (fuel : Nat) (done : List Json) (after : List Token)
    (hfuel : (itemTokens false (v :: items)).length < fuel) :
    items? fuel done (itemTokens false (v :: items) ++ .closeBracket :: after) =
      some (array (done.reverse ++ v :: items), after) := by
  induction items generalizing v fuel done with
  | nil =>
    cases fuel with
    | zero => cases hfuel
    | succ fuel =>
      simp only [itemTokens, List.append_nil, Bool.false_eq_true, if_false, List.nil_append] at hfuel ⊢
      rw [items?, hv fuel _ (by omega)]
      simp
  | cons w items ih =>
    cases fuel with
    | zero => cases hfuel
    | succ fuel =>
      obtain ⟨hw, hitems⟩ := List.forall_mem_cons.1 h
      have htokens : itemTokens false (v :: w :: items) =
          v.tokens ++ .comma :: itemTokens false (w :: items) := by simp [itemTokens]
      rw [htokens, List.length_append, List.length_cons] at hfuel
      rw [htokens, List.append_assoc, items?, hv fuel _ (by omega)]
      show items? fuel (v :: done) (itemTokens false (w :: items) ++ .closeBracket :: after) = _
      rw [ih hw hitems fuel (v :: done) (by omega)]
      simp

theorem members?_tokens {name : Option String} {v : Json} {members : List (Option String × Json)}
    (hv : v.Found) (h : ∀ m ∈ members, m.2.Found) (fuel : Nat)
    (done : List (Option String × Json)) (after : List Token)
    (hfuel : (memberTokens false ((name, v) :: members)).length < fuel) :
    members? fuel done (memberTokens false ((name, v) :: members) ++ .closeBrace :: after) =
      some (object (done.reverse ++ (name, v) :: members), after) := by
  induction members generalizing name v fuel done with
  | nil =>
    cases fuel with
    | zero => cases hfuel
    | succ fuel =>
      simp only [memberTokens, List.append_nil, Bool.false_eq_true, if_false, List.nil_append,
        List.length_cons] at hfuel ⊢
      rw [List.cons_append, List.cons_append, members?, hv fuel _ (by omega)]
      simp
  | cons m members ih =>
    obtain ⟨next, w⟩ := m
    cases fuel with
    | zero => cases hfuel
    | succ fuel =>
      obtain ⟨hw, hmembers⟩ := List.forall_mem_cons.1 h
      have htokens : memberTokens false ((name, v) :: (next, w) :: members) =
          .string name :: .colon :: (v.tokens ++ .comma :: memberTokens false ((next, w) :: members)) :=
        by simp [memberTokens]
      rw [htokens, List.length_cons, List.length_cons, List.length_append, List.length_cons] at hfuel
      rw [htokens, List.cons_append, List.cons_append, List.append_assoc, members?,
        hv fuel _ (by omega)]
      show members? fuel ((name, v) :: done)
        (memberTokens false ((next, w) :: members) ++ .closeBrace :: after) = _
      rw [ih (v := w) hw hmembers fuel ((name, v) :: done) (by omega)]
      simp

theorem found_array {items : List Json} (h : ∀ v ∈ items, v.Found) : (array items).Found := by
  intro fuel after hfuel
  cases fuel with
  | zero => cases hfuel
  | succ fuel =>
    cases items with
    | nil => rfl
    | cons v items =>
      obtain ⟨hv, hitems⟩ := List.forall_mem_cons.1 h
      have hlength : (itemTokens false (v :: items)).length < fuel := by
        simp only [tokens, List.length_cons, List.length_append, List.length_nil] at hfuel
        omega
      rw [tokens, List.cons_append, List.append_assoc, List.singleton_append, value?]
      · exact items?_tokens hv hitems fuel [] after hlength
      · intro rest hclose
        simp only [itemTokens, Bool.false_eq_true, if_false, List.nil_append, List.append_assoc]
          at hclose
        exact v.tokens_append_ne _ rest hclose

theorem found_object {members : List (Option String × Json)} (h : ∀ m ∈ members, m.2.Found) :
    (object members).Found := by
  intro fuel after hfuel
  cases fuel with
  | zero => cases hfuel
  | succ fuel =>
    cases members with
    | nil => rfl
    | cons m members =>
      obtain ⟨hv, hmembers⟩ := List.forall_mem_cons.1 h
      have hlength : (memberTokens false (m :: members)).length < fuel := by
        simp only [tokens, List.length_cons, List.length_append, List.length_nil] at hfuel
        omega
      rw [tokens, List.cons_append, List.append_assoc, List.singleton_append, value?]
      · exact members?_tokens hv hmembers fuel [] after hlength
      · intro rest hclose
        simp [memberTokens] at hclose

theorem found (j : Json) : j.Found := by
  have hleaf : ∀ {j : Json} {t : Token}, j.tokens = [t] →
      (∀ fuel after, value? (fuel + 1) (t :: after) = some (j, after)) → j.Found := by
    intro j t htokens hvalue fuel after hfuel
    rw [htokens] at hfuel ⊢
    cases fuel with
    | zero => cases hfuel
    | succ fuel => exact hvalue fuel after
  induction j using induct with
  | null => exact hleaf rfl fun _ _ => rfl
  | bool b => exact hleaf rfl fun _ _ => rfl
  | number n => exact hleaf rfl fun _ _ => rfl
  | string text => exact hleaf rfl fun _ _ => rfl
  | array items ih => exact found_array ih
  | object members ih => exact found_object ih

/-! ## From texts to tokens -/

/-- taken as tokens, whatever stands before them -/
def Scans (cs : List Char) (ts : List Token) (rest : List Char) : Prop :=
  ∀ fuel done, (cs ++ rest).length ≤ fuel → ∃ fuel', rest.length ≤ fuel' ∧
    tokensFrom? fuel done (cs ++ rest) = tokensFrom? fuel' (ts.reverse ++ done) rest

section
variable {cs cs' rest : List Char} {ts ts' : List Token} {c : Char}

theorem scans_nil : Scans [] [] rest := fun fuel _ h => ⟨fuel, h, rfl⟩

theorem Scans.append (h : Scans cs ts (cs' ++ rest)) (h' : Scans cs' ts' rest) :
    Scans (cs ++ cs') (ts ++ ts') rest := by
  intro fuel done hfuel
  rw [List.append_assoc] at hfuel ⊢
  obtain ⟨fuel₁, hfuel₁, h₁⟩ := h fuel done hfuel
  obtain ⟨fuel₂, hfuel₂, h₂⟩ := h' fuel₁ (ts.reverse ++ done) hfuel₁
  refine ⟨fuel₂, hfuel₂, h₁.trans (h₂.trans ?_)⟩
  rw [List.reverse_append, List.append_assoc]

theorem scans_space (hc : isSpace c = true) : Scans [c] [] rest := by
  intro fuel done hfuel
  cases fuel with
  | zero => cases hfuel
  | succ fuel =>
    refine ⟨fuel + 1, Nat.le_of_succ_le hfuel, ?_⟩
    rw [List.singleton_append, tokensFrom?, List.dropWhile_cons, if_pos hc]
    rfl

theorem scans_token {t : Token} (hc : isSpace c = false)
    (h : scanToken? (c :: (cs ++ rest)) = some (t, rest)) : Scans (c :: cs) [t] rest := by
  intro fuel done hfuel
  cases fuel with
  | zero => cases hfuel
  | succ fuel =>
    refine ⟨fuel, ?_, ?_⟩
    · simp only [List.cons_append, List.length_cons, List.length_append] at hfuel
      omega
    · rw [List.cons_append, tokensFrom?, List.dropWhile_cons, if_neg (by simp [hc])]
      dsimp only
      rw [h]
      rfl

theorem scans_char {t : Token} (hc : isSpace c = false)
    (h : scanToken? (c :: rest) = some (t, rest)) : Scans [c] [t] rest := scans_token hc h

theorem scans_spaces {blanks : List Char} (h : ∀ c ∈ blanks, isSpace c = true) :
    Scans blanks [] rest := by
  induction blanks with
  | nil => exact scans_nil
  | cons c blanks ih =>
    obtain ⟨hc, hblanks⟩ := List.forall_mem_cons.1 h
    exact (scans_space hc).append (ih hblanks)

theorem tokens?_of_scans {s : String} (h : Scans s.toList ts []) : tokens? s = some ts := by
  obtain ⟨fuel, -, hs⟩ := h s.toList.length [] (by simp)
  rw [List.append_nil, List.append_nil] at hs
  rw [tokens?, hs]
  cases fuel <;> simp [tokensFrom?]

end

/-! ### numerals as they are read -/

/-- the numeral that the characters of another one are read as -/
def rereadNumeral (n : Numeral) : Numeral :=
  match scanNumeral? n.chars with
  | some (n', []) => n'
  | _ => n

mutual

def reread : Json → Json
  | null => null
  | bool b => bool b
  | number n => number (rereadNumeral n)
  | string text => string (some (text.getD ""))
  | array items => array (rereadItems items)
  | object members => object (rereadMembers members)

def rereadItems : List Json → List Json
  | [] => []
  | v :: rest => reread v :: rereadItems rest

def rereadMembers : List (Option String × Json) → List (Option String × Json)
  | [] => []
  | (name, v) :: rest => (some (name.getD ""), reread v) :: rereadMembers rest

end

mutual

/-- a value whose numerals are all read -/
def Legible : Json → Prop
  | number n => ∃ n', scanNumeral? n.chars = some (n', [])
  | array items => AllLegible items
  | object members => MembersLegible members
  | _ => True

def AllLegible : List Json → Prop
  | [] => True
  | v :: rest => Legible v ∧ AllLegible rest

def MembersLegible : List (Option String × Json) → Prop
  | [] => True
  | (_, v) :: rest => Legible v ∧ MembersLegible rest

end

theorem rereadItems_eq (items : List Json) : rereadItems items = items.map reread := by
  induction items with
  | nil => rfl
  | cons v items ih => rw [rereadItems, ih, List.map_cons]

theorem rereadMembers_eq (members : List (Option String × Json)) :
    rereadMembers members = members.map fun m => (some (m.1.getD ""), m.2.reread) := by
  induction members with
  | nil => rfl
  | cons m members ih => rw [rereadMembers, ih, List.map_cons]

theorem allLegible_iff {items : List Json} : AllLegible items ↔ ∀ v ∈ items, v.Legible := by
  induction items with
  | nil => simp [AllLegible]
  | cons v items ih => simp [AllLegible, ih]

theorem membersLegible_iff {members : List (Option String × Json)} :
    MembersLegible members ↔ ∀ m ∈ members, m.2.Legible := by
  induction members with
  | nil => simp [MembersLegible]
  | cons m members ih => simp [MembersLegible, ih]

/-! ### printed values -/

theorem isSpace_of_mem_indentTo (level : Nat) :
    ∀ c ∈ (indentTo "" level).toList, isSpace c = true := by
  induction level with
  | zero => simp [indentTo]
  | succ level ih =>
    intro c hc
    rw [indentTo, indentTo_eq, String.toList_append] at hc
    rcases List.mem_append.1 hc with hc | hc
    · have hblank : c = ' ' := by simpa using hc
      rw [hblank]
      rfl
    · exact ih c hc

theorem toList_newLineTo (later : Bool) (level : Nat) : (newLineTo "" later level).toList =
    (if later then [','] else []) ++ '\n' :: (indentTo "" level).toList := by
  rw [newLineTo, indentTo_eq, String.toList_append]
  cases later <;> simp [commaTo]

theorem delimited_newLine (later : Bool) (level : Nat) (rest : List Char) :
    Delimited ((newLineTo "" later level).toList ++ rest) := by
  rw [toList_newLineTo]
  cases later <;> exact delimited_cons (by decide)

theorem scans_newLine (later : Bool) (level : Nat) (rest : List Char) :
    Scans (newLineTo "" later level).toList (if later then [.comma] else []) rest := by
  have hspaces : Scans ('\n' :: (indentTo "" level).toList) [] rest :=
    scans_spaces (List.forall_mem_cons.2 ⟨rfl, isSpace_of_mem_indentTo level⟩)
  rw [toList_newLineTo]
  cases later with
  | false => exact hspaces
  | true => exact (scans_char (c := ',') rfl rfl).append hspaces

theorem scans_quote (s : String) (rest : List Char) :
    Scans (quoteTo "" s).toList [.string (some s)] rest := by
  have hchars : (quoteTo "" s).toList = '"' :: (s.toList.flatMap quoteChar ++ ['"']) := by
    rw [quoteTo_eq_ofList, String.empty_append, String.toList_ofList, List.cons_append]
  rw [hchars]
  refine scans_token (by decide) ?_
  rw [List.append_assoc]
  exact scanToken?_quote s rest

/-- a printed value is taken as the tokens of the value that is read -/
def Printed (j : Json) : Prop :=
  ∀ level rest, Delimited rest → Scans (prettyTo "" level j).toList j.reread.tokens rest

/-- a numeral starts with a sign or a digit, and nothing else does -/
theorem scanToken?_numeral {c : Char} (hc : c = '-' ∨ c.isDigit = true) {cs rest : List Char}
    {n : Numeral} (h : scanNumeral? (c :: cs) = some (n, rest)) :
    scanToken? (c :: cs) = some (.number n, rest) := by
  rw [scanToken?]
  · rw [h]
  all_goals
    intro _ h
    obtain ⟨rfl, -⟩ := List.cons.inj h
    revert hc
    decide

theorem head_of_scanUnsigned? {cs left : List Char} {negative : Bool} {n : Numeral}
    (h : scanUnsigned? negative cs = some (n, left)) : ∃ c tail, cs = c :: tail ∧ c.isDigit = true := by
  obtain ⟨⟨whole, left₁⟩, hwhole, -⟩ := Option.bind_eq_some_iff.1 h
  cases cs with
  | nil => cases hwhole
  | cons c tail =>
    refine ⟨c, tail, rfl, ?_⟩
    by_contra hc
    rw [scanWhole?, List.takeWhile_cons, if_neg hc] at hwhole
    cases hwhole

theorem head_of_scanNumeral? {cs left : List Char} {n : Numeral}
    (h : scanNumeral? cs = some (n, left)) :
    ∃ c tail, cs = c :: tail ∧ (c = '-' ∨ c.isDigit = true) := by
  rw [scanNumeral?.eq_def] at h
  split at h
  · next tail => exact ⟨'-', tail, rfl, .inl rfl⟩
  · obtain ⟨c, tail, rfl, hc⟩ := head_of_scanUnsigned? h
    exact ⟨c, tail, rfl, .inr hc⟩

theorem isSpace_of_isDigit {c : Char} (hc : c = '-' ∨ c.isDigit = true) : isSpace c = false := by
  by_contra hspace
  simp only [isSpace, Bool.not_eq_false, Bool.or_eq_true, decide_eq_true_eq] at hspace
  rcases hspace with ((rfl | rfl) | rfl) | rfl <;> revert hc <;> decide

theorem printed_number {n : Numeral} (h : (number n).Legible) : (number n).Printed := by
  intro level rest hrest
  obtain ⟨n', hn⟩ := h
  have hreread : rereadNumeral n = n' := by rw [rereadNumeral, hn]
  have htext : (prettyTo "" level (number n)).toList = n.chars := by
    rw [prettyTo, String.empty_append, Numeral.text, String.toList_ofList]
  obtain ⟨c, tail, hcs, hc⟩ := head_of_scanNumeral? hn
  rw [htext, reread, hreread, tokens, hcs]
  refine scans_token (isSpace_of_isDigit hc) ?_
  refine scanToken?_numeral hc ?_
  rw [← List.cons_append, ← hcs]
  exact scanNumeral?_append hrest hn

theorem scans_items {items : List Json} (h : ∀ v ∈ items, v.Printed) (level : Nat) (later : Bool)
    {rest : List Char} (hrest : Delimited rest) :
    Scans (prettyItems "" level later items).toList (itemTokens later (rereadItems items)) rest := by
  induction items generalizing later with
  | nil => exact scans_nil
  | cons v items ih =>
    obtain ⟨hv, hitems⟩ := List.forall_mem_cons.1 h
    have hdelimited : Delimited ((prettyItems "" level true items).toList ++ rest) := by
      cases items with
      | nil => exact hrest
      | cons w items =>
        rw [prettyItems, prettyItems_eq, prettyTo_eq, String.toList_append, String.toList_append,
          List.append_assoc, List.append_assoc]
        exact delimited_newLine true level _
    rw [prettyItems, prettyItems_eq, prettyTo_eq, String.toList_append, String.toList_append,
      List.append_assoc, rereadItems, itemTokens]
    refine (scans_newLine later level _).append ((hv level _ hdelimited).append (ih hitems true))

theorem scans_members {members : List (Option String × Json)} (h : ∀ m ∈ members, m.2.Printed)
    (level : Nat) (later : Bool) {rest : List Char} (hrest : Delimited rest) :
    Scans (prettyMembers "" level later members).toList
      (memberTokens later (rereadMembers members)) rest := by
  induction members generalizing later with
  | nil => exact scans_nil
  | cons m members ih =>
    obtain ⟨name, v⟩ := m
    obtain ⟨hv, hmembers⟩ := List.forall_mem_cons.1 h
    have hdelimited : Delimited ((prettyMembers "" level true members).toList ++ rest) := by
      cases members with
      | nil => exact hrest
      | cons m members =>
        rw [prettyMembers, prettyMembers_eq, prettyTo_eq, quoteTo_eq]
        simp only [String.toList_append, List.append_assoc]
        exact delimited_newLine true level _
    have hcolon : ∀ rest, Scans ": ".toList [.colon] rest := fun rest =>
      (scans_char (c := ':') rfl rfl).append (scans_space rfl)
    rw [prettyMembers, prettyMembers_eq, prettyTo_eq, quoteTo_eq]
    simp only [String.toList_append, List.append_assoc]
    rw [rereadMembers, memberTokens]
    exact (scans_newLine later level _).append ((scans_quote _ _).append ((hcolon _).append
      ((hv level _ hdelimited).append (ih hmembers true))))

theorem printed_array {items : List Json} (h : ∀ v ∈ items, v.Printed) : (array items).Printed := by
  intro level rest hrest
  have hclose : Scans [']'] [.closeBracket] rest := scans_char rfl rfl
  cases items with
  | nil =>
    have htext : (prettyTo "" level (array [])).toList = ['['] ++ [']'] := by simp [prettyTo]
    rw [htext]
    exact (scans_char rfl rfl).append hclose
  | cons v items =>
    have htext : (prettyTo "" level (array (v :: items))).toList =
        ['['] ++ ((prettyItems "" (level + 1) false (v :: items)).toList ++
          ((newLineTo "" false level).toList ++ [']'])) := by
      rw [prettyTo, prettyItems_eq, newLineTo_eq]
      simp
    rw [htext]
    have hitems := scans_items h (level + 1) false
      (delimited_newLine false level ([']'] ++ rest))
    rw [← List.append_assoc] at hitems
    exact (scans_char rfl rfl).append
      (hitems.append ((scans_newLine false level _).append hclose))

theorem printed_object {members : List (Option String × Json)} (h : ∀ m ∈ members, m.2.Printed) :
    (object members).Printed := by
  intro level rest hrest
  have hclose : Scans ['\x7d'] [.closeBrace] rest := scans_char rfl rfl
  cases members with
  | nil =>
    have htext : (prettyTo "" level (object [])).toList = ['\x7b'] ++ ['\x7d'] := by simp [prettyTo]
    rw [htext]
    exact (scans_char rfl rfl).append hclose
  | cons m members =>
    have htext : (prettyTo "" level (object (m :: members))).toList =
        ['\x7b'] ++ ((prettyMembers "" (level + 1) false (m :: members)).toList ++
          ((newLineTo "" false level).toList ++ ['\x7d'])) := by
      rw [prettyTo, prettyMembers_eq, newLineTo_eq]
      simp
    rw [htext]
    have hmembers := scans_members h (level + 1) false
      (delimited_newLine false level (['\x7d'] ++ rest))
    rw [← List.append_assoc] at hmembers
    exact (scans_char rfl rfl).append
      (hmembers.append ((scans_newLine false level _).append hclose))

theorem printed {j : Json} (h : j.Legible) : j.Printed := by
  induction j using induct with
  | null =>
    intro level rest _
    have htext : (prettyTo "" level null).toList = ['n', 'u', 'l', 'l'] := by simp [prettyTo]
    rw [htext]
    exact scans_token rfl rfl
  | bool b =>
    intro level rest _
    cases b with
    | false =>
      have htext : (prettyTo "" level (bool false)).toList = ['f', 'a', 'l', 's', 'e'] := by
        simp [prettyTo]
      rw [htext]
      exact scans_token rfl rfl
    | true =>
      have htext : (prettyTo "" level (bool true)).toList = ['t', 'r', 'u', 'e'] := by
        simp [prettyTo]
      rw [htext]
      exact scans_token rfl rfl
  | number n => exact printed_number h
  | string text => exact fun level rest _ => scans_quote _ _
  | array items ih => exact printed_array fun v hv => ih v hv (allLegible_iff.1 h v hv)
  | object members ih => exact printed_object fun m hm => ih m hm (membersLegible_iff.1 h m hm)

/-- a printed value is read, with blanks behind it or without -/
theorem parse?_pretty {j : Json} (h : j.Legible) {blanks : List Char}
    (hblanks : ∀ c ∈ blanks, isSpace c = true) :
    parse? (j.pretty ++ String.ofList blanks) = some j.reread := by
  have hdelimited : Delimited (blanks ++ []) := by
    intro c hc
    have hspace := hblanks c (List.mem_of_mem_head? (by simpa using hc))
    simp only [isSpace, Bool.or_eq_true, decide_eq_true_eq] at hspace
    rcases hspace with ((rfl | rfl) | rfl) | rfl <;> decide
  have hscans := (printed h 0 _ hdelimited).append (scans_spaces hblanks)
  rw [List.append_nil, ← String.toList_ofList (l := blanks), ← String.toList_append] at hscans
  have htokens := tokens?_of_scans hscans
  rw [parse?, show tokens? (j.pretty ++ String.ofList blanks) = some j.reread.tokens from htokens]
  have hvalue := found j.reread (2 * j.reread.tokens.length + 1) [] (by omega)
  rw [List.append_nil] at hvalue
  exact Option.bind_eq_some_iff.2 ⟨_, rfl, Option.bind_eq_some_iff.2 ⟨_, hvalue, rfl⟩⟩

end ScriptVars.Json
