import ScriptVars.Proofs.ModuleIndices

/-!
# Module lists

The grammar of module lists, and what a list means.  The texts that the parser takes are the lists
of the grammar, and any way to write down a map is one.

* `IsPadded`, `IsPair`, `IsPiece`, `IsList`     the grammar;
* `ModuleMap.Follows`                 a map has what a list of pairs says, and no more;
* `ModuleMap.parsePiece_eq_ok`, `parse_eq_ok`   the parser and the grammar;
* `ModuleMap.refused_parse`           a refusal names a text that is no index;
* `ModuleMap.Pair.print`, `printList`     pairs of indices in writing;
* `ModuleMap.parse_lists`             what is read, and that what is written is read back.
-/

namespace ScriptVars

namespace ModuleMap

/-! ## The grammar -/

/-- an index with blanks around it -/
inductive IsPadded : List Char → UInt8 → Prop
  | mk {before inner after : List Char} {i : UInt8} (hb : Text.Blank before)
      (h : IsIndex inner i) (ha : Text.Blank after) : IsPadded (before ++ (inner ++ after)) i

/-- an index that stays, or an old and a new one -/
inductive IsPair : List Char → UInt8 × UInt8 → Prop
  | kept {cs : List Char} {i : UInt8} (h : IsPadded cs i) : IsPair cs (i, i)
  | moved {before after : List Char} {old new : UInt8} (hold : IsPadded before old)
      (hnew : IsPadded after new) : IsPair (before ++ '=' :: after) (old, new)

/-- nothing but blanks, or a pair -/
inductive IsPiece : List Char → Option (UInt8 × UInt8) → Prop
  | blank {cs : List Char} (h : Text.Blank cs) : IsPiece cs none
  | pair {cs : List Char} {p : UInt8 × UInt8} (h : IsPair cs p) : IsPiece cs (some p)

/-- pieces with commas between them, and their pairs -/
inductive IsList : List Char → List (UInt8 × UInt8) → Prop
  | last {cs : List Char} {p : Option (UInt8 × UInt8)} (h : IsPiece cs p) : IsList cs p.toList
  | cons {cs rest : List Char} {p : Option (UInt8 × UInt8)} {pairs : List (UInt8 × UInt8)}
      (h : IsPiece cs p) (hrest : IsList rest pairs) :
      IsList (cs ++ ',' :: rest) (p.toList ++ pairs)

/-- A map has what some pairs say: the last one for an index counts, the dynamic module stays
where no pair is for it, and any other module without a pair is gone. -/
structure Follows (m : ModuleMap) (pairs : List (UInt8 × UInt8)) : Prop where
  last : ∀ {before after : List (UInt8 × UInt8)} {old new : UInt8},
    pairs = before ++ (old, new) :: after → (∀ p ∈ after, p.1 ≠ old) → m.resolve old = some new
  dynamic : (∀ p ∈ pairs, p.1 ≠ dynamicModule) → m.resolve dynamicModule = some dynamicModule
  gone : ∀ {i : UInt8}, (∀ p ∈ pairs, p.1 ≠ i) → i ≠ dynamicModule → m.resolve i = none

/-! ## Pieces -/

theorem isPadded_iff {cs : List Char} {i : UInt8} : IsPadded cs i ↔ IsIndex (Text.trim cs) i := by
  constructor
  · rintro ⟨hb, h, ha⟩
    rw [Text.trim_append hb h.tight ha]
    exact h
  · intro h
    obtain ⟨before, after, hb, ha, hcs⟩ := Text.exists_of_trim cs
    rw [hcs]
    exact .mk hb h ha

theorem parseIndex_eq_ok {cs : List Char} {i : UInt8} :
    parseIndex cs = .ok i ↔ IsPadded cs i := by
  rw [isPadded_iff, ← index?_eq_some_iff]
  unfold parseIndex
  cases index? (Text.trim cs) with
  | some j =>
    exact ⟨fun h => congrArg some (Except.ok.inj h), fun h => congrArg _ (Option.some.inj h)⟩
  | none => exact ⟨nofun, nofun⟩

/-- a separator that is neither blank nor in an index is not in an index with blanks either -/
theorem IsPadded.not_mem {sep : Char} (hsep : sep ∉ indexChars) (hblank : Text.isBlank sep = false)
    {cs : List Char} {i : UInt8} (h : IsPadded cs i) : sep ∉ cs := by
  obtain ⟨hb, h, ha⟩ := h
  intro hc
  rcases List.mem_append.1 hc with hc | hc
  · exact absurd (hb sep hc) (by rw [hblank]; decide)
  · rcases List.mem_append.1 hc with hc | hc
    · exact hsep (h.mem_indexChars sep hc)
    · exact absurd (ha sep hc) (by rw [hblank]; decide)

theorem IsPadded.equals_not_mem {cs : List Char} {i : UInt8} (h : IsPadded cs i) : '=' ∉ cs :=
  h.not_mem (by decide) (by decide)

theorem IsPiece.comma_not_mem {cs : List Char} {p : Option (UInt8 × UInt8)} (h : IsPiece cs p) :
    ',' ∉ cs := by
  have hpadded : ∀ {ds : List Char} {i : UInt8}, IsPadded ds i → ',' ∉ ds :=
    fun h => h.not_mem (by decide) (by decide)
  cases h with
  | blank h => exact fun hc => absurd (h ',' hc) (by decide)
  | pair h =>
    cases h with
    | kept h => exact hpadded h
    | moved hold hnew =>
      intro hc
      rcases List.mem_append.1 hc with hc | hc
      · exact hpadded hold hc
      · rcases List.mem_cons.1 hc with hc | hc
        · exact absurd hc (by decide)
        · exact hpadded hnew hc

theorem parsePiece_eq_ok {cs : List Char} {p : UInt8 × UInt8} :
    parsePiece cs = .ok p ↔ IsPair cs p := by
  unfold parsePiece
  constructor
  · intro h
    split at h
    · next before after hsplit =>
      obtain ⟨old, hold, h⟩ := Failure.bind_eq_ok.1 h
      obtain ⟨new, hnew, h⟩ := Failure.bind_eq_ok.1 h
      cases h
      rw [Text.splitOnce_eq_some hsplit]
      exact .moved (parseIndex_eq_ok.1 hold) (parseIndex_eq_ok.1 hnew)
    · obtain ⟨i, hi, h⟩ := Failure.bind_eq_ok.1 h
      cases h
      exact .kept (parseIndex_eq_ok.1 hi)
  · intro h
    cases h with
    | kept h =>
      rw [Text.splitOnce_of_not_mem h.equals_not_mem]
      exact Failure.bind_eq_ok.2 ⟨_, parseIndex_eq_ok.2 h, rfl⟩
    | moved hold hnew =>
      rw [Text.splitOnce_append hold.equals_not_mem]
      exact Failure.bind_eq_ok.2 ⟨_, parseIndex_eq_ok.2 hold,
        Failure.bind_eq_ok.2 ⟨_, parseIndex_eq_ok.2 hnew, rfl⟩⟩

theorem IsIndex.isPadded {cs : List Char} {i : UInt8} (h : IsIndex cs i) : IsPadded cs i := by
  have hpadded : IsPadded ([] ++ (cs ++ [])) i := .mk nofun h nofun
  rwa [List.nil_append, List.append_nil] at hpadded

theorem IsPadded.extend {before cs after : List Char} {i : UInt8} (hb : Text.Blank before)
    (h : IsPadded cs i) (ha : Text.Blank after) : IsPadded (before ++ (cs ++ after)) i := by
  obtain ⟨hb', h, ha'⟩ := h
  rw [List.append_assoc, List.append_assoc, ← List.append_assoc before]
  exact .mk (List.forall_mem_append.2 ⟨hb, hb'⟩) h (List.forall_mem_append.2 ⟨ha', ha⟩)

/-- a pair is there without the blanks around it too -/
theorem isPair_trim {cs : List Char} {p : UInt8 × UInt8} :
    IsPair (Text.trim cs) p ↔ IsPair cs p := by
  constructor
  · intro h
    obtain ⟨b, a, hb, ha, hcs⟩ := Text.exists_of_trim cs
    rw [hcs]
    generalize Text.trim cs = inner at h
    cases h with
    | kept h => exact .kept (h.extend hb ha)
    | @moved before after old new hold hnew =>
      have hpair : IsPair ((b ++ (before ++ [])) ++ '=' :: ([] ++ (after ++ a))) (old, new) :=
        .moved (hold.extend hb nofun) (hnew.extend nofun ha)
      simpa only [List.append_nil, List.nil_append, List.append_assoc, List.cons_append] using hpair
  · intro h
    cases h with
    | kept h => exact .kept (isPadded_iff.1 h).isPadded
    | @moved _ _ old new hold hnew =>
      obtain @⟨b, i, a, _, hb, hi, ha⟩ := hold
      obtain @⟨b', i', a', _, hb', hi', ha'⟩ := hnew
      -- without the blanks at the ends it begins with one index and ends with the other
      have htight := hi.tight.append hi'.tight hi.ne_nil hi'.ne_nil (a ++ '=' :: b')
      have htrim := Text.trim_append hb htight ha'
      have hpair : IsPair (([] ++ (i ++ a)) ++ '=' :: (b' ++ (i' ++ []))) (old, new) :=
        .moved (.mk nofun hi ha) (.mk hb' hi' nofun)
      simp only [List.append_nil, List.nil_append, List.append_assoc, List.cons_append]
        at htrim hpair ⊢
      rw [htrim]
      exact hpair

theorem IsPair.not_blank {cs : List Char} {p : UInt8 × UInt8} (h : IsPair cs p) :
    ¬ Text.Blank cs := by
  have hpadded : ∀ {ds : List Char} {i : UInt8}, IsPadded ds i → ¬ Text.Blank ds :=
    fun h hblank => (isPadded_iff.1 h).ne_nil (Text.trim_of_blank hblank)
  cases h with
  | kept h => exact hpadded h
  | moved hold hnew =>
    exact fun hblank => hpadded hold fun c hc => hblank c (List.mem_append_left _ hc)

/-! ## Lists -/

/-- reads pieces; those that are blank do not count -/
def readPieces (pieces : List (List Char)) : Except Failure (List (UInt8 × UInt8)) :=
  ((pieces.map Text.trim).filter (!·.isEmpty)).mapM parsePiece

theorem readPieces_of_blank {cs : List Char} (h : Text.Blank cs) (pieces : List (List Char)) :
    readPieces (cs :: pieces) = readPieces pieces := by
  unfold readPieces
  rw [List.map_cons, Text.trim_of_blank h]
  rfl

theorem readPieces_of_not_blank {cs : List Char} (h : ¬ Text.Blank cs)
    (pieces : List (List Char)) :
    readPieces (cs :: pieces) =
      do return (← parsePiece (Text.trim cs)) :: (← readPieces pieces) := by
  have hne : (Text.trim cs).isEmpty = false := by
    rw [List.isEmpty_eq_false_iff]
    exact fun he => h (Text.blank_of_trim he)
  unfold readPieces
  rw [List.map_cons, List.filter_cons, hne]
  exact List.mapM_cons

theorem readPieces_of_isPiece {cs : List Char} {p : Option (UInt8 × UInt8)} (h : IsPiece cs p)
    {pieces : List (List Char)} {pairs : List (UInt8 × UInt8)}
    (hrest : readPieces pieces = .ok pairs) :
    readPieces (cs :: pieces) = .ok (p.toList ++ pairs) := by
  cases h with
  | blank h => rw [readPieces_of_blank h, hrest]; rfl
  | pair h =>
    rw [readPieces_of_not_blank h.not_blank]
    exact Failure.bind_eq_ok.2 ⟨_, parsePiece_eq_ok.2 (isPair_trim.2 h),
      Failure.bind_eq_ok.2 ⟨_, hrest, rfl⟩⟩

theorem readPieces_of_isList {cs : List Char} {pairs : List (UInt8 × UInt8)}
    (h : IsList cs pairs) : readPieces (Text.split ',' cs) = .ok pairs := by
  induction h with
  | last h =>
    have hread := readPieces_of_isPiece h (show readPieces [] = .ok [] from rfl)
    rw [List.append_nil] at hread
    rw [Text.split_of_not_mem h.comma_not_mem, hread]
  | cons h _ ih =>
    rw [Text.split_append h.comma_not_mem]
    exact readPieces_of_isPiece h ih

/-- what is read of the first piece and of the others -/
theorem exists_of_readPieces {cs : List Char} {pieces : List (List Char)}
    {pairs : List (UInt8 × UInt8)} (h : readPieces (cs :: pieces) = .ok pairs) :
    ∃ p rest, IsPiece cs p ∧ readPieces pieces = .ok rest ∧ pairs = p.toList ++ rest := by
  by_cases hblank : Text.Blank cs
  · rw [readPieces_of_blank hblank] at h
    exact ⟨none, pairs, .blank hblank, h, rfl⟩
  · rw [readPieces_of_not_blank hblank] at h
    obtain ⟨p, hp, h⟩ := Failure.bind_eq_ok.1 h
    obtain ⟨rest, hrest, h⟩ := Failure.bind_eq_ok.1 h
    cases h
    exact ⟨some p, rest, .pair (isPair_trim.1 (parsePiece_eq_ok.1 hp)), hrest, rfl⟩

theorem isList_intercalate {cs : List Char} {pieces : List (List Char)}
    {pairs : List (UInt8 × UInt8)} (h : readPieces (cs :: pieces) = .ok pairs) :
    IsList ([','].intercalate (cs :: pieces)) pairs := by
  induction pieces generalizing cs pairs with
  | nil =>
    obtain ⟨p, rest, hp, hrest, rfl⟩ := exists_of_readPieces h
    have hnil : rest = [] := (Except.ok.inj hrest).symm
    rw [List.intercalate_singleton, hnil, List.append_nil]
    exact .last hp
  | cons second pieces ih =>
    obtain ⟨p, rest, hp, hrest, rfl⟩ := exists_of_readPieces h
    rw [List.intercalate_cons_cons, List.append_assoc]
    exact .cons hp (ih hrest)

theorem isList_iff {cs : List Char} {pairs : List (UInt8 × UInt8)} :
    IsList cs pairs ↔ readPieces (Text.split ',' cs) = .ok pairs := by
  constructor
  · exact readPieces_of_isList
  · intro h
    obtain ⟨piece, rest, hsplit⟩ := List.exists_cons_of_ne_nil (Text.split_ne_nil ',' cs)
    rw [← Text.intercalate_split ',' cs, hsplit]
    rw [hsplit] at h
    exact isList_intercalate h

theorem parse_eq_ok {list : String} {m : ModuleMap} :
    parse list = .ok m ↔ ∃ pairs, IsList list.toList pairs ∧ m = ofPairs pairs := by
  constructor
  · intro h
    obtain ⟨pairs, hpairs, h⟩ := Failure.bind_eq_ok.1 h
    cases h
    exact ⟨pairs, isList_iff.2 hpairs, rfl⟩
  · rintro ⟨pairs, hpairs, rfl⟩
    exact Failure.bind_eq_ok.2 ⟨pairs, isList_iff.1 hpairs, rfl⟩

/-! ## Refusals -/

/-- nothing is refused but a text that is no index -/
def Refused {α : Type} (x : Except Failure α) : Prop :=
  ∀ f, x = .error f →
    ∃ text, (∀ i, ¬ IsIndex text.toList i) ∧ f = .config (.moduleIndex text)

theorem Refused.bind {α β : Type} {x : Except Failure α} {g : α → Except Failure β}
    (hx : Refused x) (hg : ∀ a, Refused (g a)) : Refused (x >>= g) := by
  intro f h
  rcases Failure.bind_eq_error.1 h with h | ⟨a, -, h⟩
  · exact hx f h
  · exact hg a f h

theorem refused_pure {α : Type} (a : α) : Refused (pure a) := fun _ h => by cases h

theorem refused_parseIndex (cs : List Char) : Refused (parseIndex cs) := by
  intro f h
  unfold parseIndex at h
  split at h
  · cases h
  · next hnone =>
    cases h
    refine ⟨_, fun i hi => ?_, rfl⟩
    rw [String.toList_ofList, ← index?_eq_some_iff, hnone] at hi
    cases hi

theorem refused_parsePiece (cs : List Char) : Refused (parsePiece cs) := by
  unfold parsePiece
  split
  · next old new _ =>
    exact (refused_parseIndex old).bind fun _ => (refused_parseIndex new).bind fun _ =>
      refused_pure _
  · exact (refused_parseIndex cs).bind fun _ => refused_pure _

theorem refused_mapM_parsePiece (pieces : List (List Char)) : Refused (pieces.mapM parsePiece) := by
  induction pieces with
  | nil => exact refused_pure []
  | cons piece pieces ih =>
    rw [List.mapM_cons]
    exact (refused_parsePiece piece).bind fun _ => ih.bind fun _ => refused_pure _

theorem refused_parse (list : String) : Refused (parse list) :=
  (refused_mapM_parsePiece _).bind fun _ => refused_pure _

/-! ## What a list means -/

theorem resolve_insertAll_of_ne {pairs : List (UInt8 × UInt8)} {i : UInt8}
    (h : ∀ p ∈ pairs, p.1 ≠ i) (m : ModuleMap) : (m.insertAll pairs).resolve i = m.resolve i := by
  induction pairs generalizing m with
  | nil => rfl
  | cons p pairs ih =>
    obtain ⟨hp, hpairs⟩ := List.forall_mem_cons.1 h
    show ((m.insert p.1 p.2).insertAll pairs).resolve i = m.resolve i
    rw [ih hpairs, resolve_insert, if_neg hp.symm]

theorem insertAll_append (m : ModuleMap) (before after : List (UInt8 × UInt8)) :
    m.insertAll (before ++ after) = (m.insertAll before).insertAll after :=
  List.foldl_append

theorem follows_ofPairs (pairs : List (UInt8 × UInt8)) : (ofPairs pairs).Follows pairs where
  last {before after old new} hpairs hafter := by
    rw [ofPairs_eq, hpairs, insertAll_append]
    show (((bare.insertAll before).insert old new).insertAll after).resolve old = some new
    rw [resolve_insertAll_of_ne hafter, resolve_insert, if_pos rfl]
  dynamic h := by
    rw [ofPairs_eq, resolve_insertAll_of_ne h]
    rfl
  gone h hi := by
    rw [ofPairs_eq, resolve_insertAll_of_ne h]
    exact if_neg hi

/-- of the pairs for an index there is a last one -/
theorem exists_last {pairs : List (UInt8 × UInt8)} {i : UInt8} (h : ∃ p ∈ pairs, p.1 = i) :
    ∃ before new after, pairs = before ++ (i, new) :: after ∧ ∀ p ∈ after, p.1 ≠ i := by
  induction pairs with
  | nil => exact absurd h (by simp)
  | cons p pairs ih =>
    by_cases hlater : ∃ q ∈ pairs, q.1 = i
    · obtain ⟨before, new, after, rfl, hafter⟩ := ih hlater
      exact ⟨p :: before, new, after, rfl, hafter⟩
    · obtain ⟨q, hq, rfl⟩ := h
      rcases List.mem_cons.1 hq with rfl | hq
      · exact ⟨[], q.2, pairs, rfl, fun r hr he => hlater ⟨r, hr, he⟩⟩
      · exact absurd ⟨q, hq, rfl⟩ hlater

/-- A map with the dynamic module is known from its pairs: what follows them is the map. -/
theorem Follows.eq {m n : ModuleMap} {pairs : List (UInt8 × UInt8)} (h : n.Follows pairs)
    (hdynamic : m.resolve dynamicModule ≠ none)
    (hpairs : ∀ old new, m.resolve old = some new ↔ (old, new) ∈ pairs) : n = m := by
  have hresolve : n.resolve = m.resolve := by
    funext i
    cases hi : m.resolve i with
    | some new =>
      obtain ⟨before, new', after, hlist, hafter⟩ := exists_last ⟨_, (hpairs i new).1 hi, rfl⟩
      have hmem : (i, new') ∈ pairs := hlist ▸ List.mem_append_right _ List.mem_cons_self
      rw [h.last hlist hafter, ← (hpairs i new').2 hmem, hi]
    | none =>
      apply h.gone
      · rintro ⟨old, new⟩ hp rfl
        rw [(hpairs old new).2 hp] at hi
        cases hi
      · rintro rfl
        exact hdynamic hi
  cases n
  cases m
  cases hresolve
  rfl

/-! ## Lists in writing -/

inductive Radix
  | decimal
  | hexadecimal

def Radix.print : Radix → UInt8 → String
  | decimal, i => String.ofList (Nat.toDigits 10 i.toNat)
  | hexadecimal, i => "0x" ++ String.ofList (Nat.toDigits 16 i.toNat)

/-- an old and a new index, each with the way in which it is written -/
structure Pair where
  old : UInt8
  new : UInt8
  oldRadix : Radix
  newRadix : Radix

def Pair.indices (p : Pair) : UInt8 × UInt8 := (p.old, p.new)

def Pair.print (p : Pair) : String := p.oldRadix.print p.old ++ "=" ++ p.newRadix.print p.new

def printList (pairs : List Pair) : String := ",".intercalate (pairs.map Pair.print)

theorem isIndex_print (r : Radix) (i : UInt8) : IsIndex (r.print i).toList i := by
  cases r with
  | decimal => exact .decimal (isNumeral_toDigits (by decide) i)
  | hexadecimal =>
    unfold Radix.print
    rw [String.toList_append]
    exact .hexadecimal (.inl rfl) (isNumeral_toDigits (by decide) i)

theorem isPair_print (p : Pair) : IsPair p.print.toList p.indices := by
  unfold Pair.print
  rw [String.toList_append, String.toList_append, List.append_assoc]
  exact .moved (isIndex_print p.oldRadix p.old).isPadded (isIndex_print p.newRadix p.new).isPadded

theorem isList_printList (pairs : List Pair) :
    IsList (printList pairs).toList (pairs.map Pair.indices) := by
  unfold printList
  rw [String.toList_intercalate, List.map_map]
  induction pairs with
  | nil => exact .last (.blank fun c hc => absurd hc List.not_mem_nil)
  | cons p pairs ih =>
    cases pairs with
    | nil =>
      show IsList ([','].intercalate [p.print.toList]) [p.indices]
      rw [List.intercalate_singleton]
      exact .last (.pair (isPair_print p))
    | cons q pairs =>
      show IsList ([','].intercalate (p.print.toList :: q.print.toList :: _)) (p.indices :: _)
      rw [List.intercalate_cons_cons, List.append_assoc]
      exact .cons (.pair (isPair_print p)) ih

/-- The parser takes the lists of the grammar and no other texts; those are refused with a text of
theirs that is no index.  What it makes of a list is what the list says.  So a map that has the
dynamic module is read back from its pairs, in whatever order and in whatever radix they are
written. -/
theorem parse_lists (list : String) :
    ((∃ m, parse list = .ok m) ↔ ∃ pairs, IsList list.toList pairs) ∧
    ((¬ ∃ pairs, IsList list.toList pairs) →
      ∃ text, (∀ i, ¬ IsIndex text.toList i) ∧
        parse list = .error (.config (.moduleIndex text))) ∧
    (∀ pairs, IsList list.toList pairs → ∃ m, parse list = .ok m ∧ m.Follows pairs) ∧
    ∀ (m : ModuleMap) (pairs : List Pair), m.resolve dynamicModule ≠ none →
      (∀ old new, m.resolve old = some new ↔ (old, new) ∈ pairs.map Pair.indices) →
      parse (printList pairs) = .ok m := by
  have hread : ∀ (text : String) pairs, IsList text.toList pairs →
      ∃ m, parse text = .ok m ∧ m.Follows pairs :=
    fun text pairs h => ⟨_, parse_eq_ok.2 ⟨pairs, h, rfl⟩, follows_ofPairs pairs⟩
  have hok : (∃ m, parse list = .ok m) ↔ ∃ pairs, IsList list.toList pairs := by
    constructor
    · rintro ⟨m, hm⟩
      obtain ⟨pairs, hpairs, -⟩ := parse_eq_ok.1 hm
      exact ⟨pairs, hpairs⟩
    · rintro ⟨pairs, hpairs⟩
      obtain ⟨m, hm, -⟩ := hread list pairs hpairs
      exact ⟨m, hm⟩
  refine ⟨hok, ?_, hread list, ?_⟩
  · intro hno
    cases hparse : parse list with
    | ok m => exact absurd (hok.1 ⟨m, hparse⟩) hno
    | error f =>
      obtain ⟨text, hno, rfl⟩ := refused_parse list f hparse
      exact ⟨text, hno, rfl⟩
  · intro m pairs hdynamic hpairs
    obtain ⟨n, hn, hfollows⟩ := hread _ _ (isList_printList pairs)
    rw [hn, hfollows.eq hdynamic hpairs]

/-- a list with a blank piece and two pieces for one module, one with a prefix and no digits, and
a map of two modules in writing -/
theorem parse_lists_spelled :
    (∃ m, parse " 0, 4 = +2,,0X010 ,4=0x3" = .ok m ∧ m.resolve 4 = some 3 ∧
      m.resolve 16 = some 16 ∧ m.resolve 1 = none ∧ m.resolve 255 = some 255) ∧
    (∃ text, (∀ i, ¬ IsIndex text.toList i) ∧
      parse "1,0x" = .error (.config (.moduleIndex text))) ∧
    printList [⟨255, 255, .hexadecimal, .decimal⟩, ⟨4, 26, .decimal, .hexadecimal⟩] =
      "0xff=255,4=0x1a" ∧
    parse (printList [⟨255, 255, .hexadecimal, .decimal⟩, ⟨4, 26, .decimal, .hexadecimal⟩]) =
      .ok (bare.insert 4 26) := by
  have hlist : IsList " 0, 4 = +2,,0X010 ,4=0x3".toList [(0, 0), (4, 2), (16, 16), (4, 3)] :=
    isList_iff.2 (by rfl)
  have hrefused : ¬ ∃ pairs, IsList "1,0x".toList pairs := by
    rintro ⟨pairs, h⟩
    have herror : readPieces (Text.split ',' "1,0x".toList) =
        .error (.config (.moduleIndex "0x")) := by rfl
    rw [isList_iff, herror] at h
    cases h
  obtain ⟨-, -, hread, hwritten⟩ := parse_lists " 0, 4 = +2,,0X010 ,4=0x3"
  obtain ⟨-, hfail, -⟩ := parse_lists "1,0x"
  obtain ⟨m, hm, hfollows⟩ := hread _ hlist
  refine ⟨⟨m, hm, ?_, ?_, ?_, ?_⟩, hfail hrefused, by rfl, hwritten _ _ (by decide) ?_⟩
  · exact hfollows.last (show _ = [(0, 0), (4, 2), (16, 16)] ++ (4, 3) :: [] from rfl)
      (List.forall_mem_nil _)
  · exact hfollows.last (show _ = [(0, 0), (4, 2)] ++ (16, 16) :: [(4, 3)] from rfl)
      (List.forall_mem_singleton.2 (by decide))
  · exact hfollows.gone (by simp) (by decide)
  · exact hfollows.dynamic (by simp [dynamicModule])
  · intro old new
    show (if old = 4 then some 26 else if old = 255 then some 255 else none) = some new ↔
      (old, new) ∈ [((255 : UInt8), (255 : UInt8)), (4, 26)]
    rw [List.mem_cons, List.mem_singleton, Prod.mk.injEq, Prod.mk.injEq]
    split
    · next h => simp [h, eq_comm]
    · next h =>
      split
      · next h' => simp [h', eq_comm]
      · next h' => simp [h, h']

end ModuleMap

end ScriptVars
