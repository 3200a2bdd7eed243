import ScriptVars.Answer
import ScriptVars.Proofs.JsonTexts

/-!
# Printed dumps that are read

A dump whose numbers are all finite is read back from its text.  Infinities and NaN have no form
in JSON, and a text with null in the place of a number is no dump.

* `Number.ReadsBack`             a number that is read as it was written;
* `StoreDump.numbers`            the numbers of a dump;
* `Json.fields?_ofMembers`       the parts of a record, in whatever order they were written;
* `StoreDump.parse?_json`        which printed dumps are read.
-/

namespace ScriptVars

namespace Json

/-! ## Records -/

theorem reread_ofNat (n : Nat) : (ofNat n).reread = ofNat n := by
  rw [ofNat, reread, rereadNumeral, scanNumeral?_ofNat]

theorem legible_ofNat (n : Nat) : (ofNat n).Legible := ⟨_, scanNumeral?_ofNat n⟩

section
variable {l l' : List (String × Json)}

theorem legible_ofMembers (h : ∀ p ∈ l, p.2.Legible) : (ofMembers l).Legible := by
  refine membersLegible_iff.2 fun m hm => ?_
  obtain ⟨p, hp, rfl⟩ := List.mem_map.1 hm
  exact h p hp

theorem legible_ofRecord (h : ∀ p ∈ l, p.2.Legible) : (ofRecord l).Legible :=
  legible_ofMembers fun p hp => h p ((List.mergeSort_perm l _).mem_iff.1 hp)

theorem filter_eq_lookup (hl : (l.map Prod.fst).Nodup) (name : String) :
    (l.filter fun p => p.1 == name) = ((l.lookup name).map (Prod.mk name)).toList := by
  induction l with
  | nil => rfl
  | cons p l ih =>
    obtain ⟨k, v⟩ := p
    obtain ⟨hk, hl⟩ := List.nodup_cons.1 hl
    rw [List.filter_cons, List.lookup_cons]
    by_cases he : k = name
    · subst he
      have hnone : (l.filter fun p => p.1 == k) = [] := by
        refine List.filter_eq_nil_iff.2 fun p hp hpk => hk ?_
        exact List.mem_map.2 ⟨p, hp, beq_iff_eq.1 hpk⟩
      simp [hnone]
    · simp [he, beq_false_of_ne (Ne.symm he), ih hl]

/-- each name finds its part, in whatever order the members stand -/
theorem member?_of_perm (hperm : l'.Perm l) (hl : (l.map Prod.fst).Nodup) (name : String) :
    member? (l'.map fun p => (some p.1, p.2.reread)) name =
      some ((l.lookup name).map reread) := by
  have hfilter := (hperm.filter fun p => p.1 == name).trans (.of_eq (filter_eq_lookup hl name))
  have hmap : ((l'.map fun p => (some p.1, p.2.reread)).filter fun m => m.1 == some name) =
      (l'.filter fun p => p.1 == name).map fun p => (some p.1, p.2.reread) := by
    rw [List.filter_map]
    rfl
  rw [member?, hmap]
  cases hv : l.lookup name with
  | none =>
    rw [hv] at hfilter
    rw [List.perm_nil.1 hfilter]
    rfl
  | some v =>
    rw [hv] at hfilter
    rw [List.perm_singleton.1 hfilter]
    rfl

theorem fields?_ofMembers (hperm : l'.Perm l) (hl : (l.map Prod.fst).Nodup) (names : List String) :
    (ofMembers l').reread.fields? names true =
      some (names.map fun name => (l.lookup name).map reread) := by
  have hobject : (ofMembers l').reread = object (l'.map fun p => (some p.1, p.2.reread)) := by
    rw [ofMembers, reread, rereadMembers_eq, List.map_map]
    rfl
  rw [hobject, fields?, if_pos]
  · rw [funext (member?_of_perm hperm hl)]
    exact List.mapM_pure
  · simp

theorem fields?_ofRecord (hl : (l.map Prod.fst).Nodup) (names : List String) :
    (ofRecord l).reread.fields? names true =
      some (names.map fun name => (l.lookup name).map reread) :=
  fields?_ofMembers (List.mergeSort_perm l _) hl names

end

/-! ## Numbers -/

def numberOf? (cs : List Char) : Option Number :=
  match scanNumeral? cs with
  | some (n, []) => (number n).number?
  | _ => none

end Json

def Number.ReadsBack (x : Number) : Prop :=
  ((x.numeral? Json.numberStyle).bind fun n => Json.numberOf? n.chars) = some x

instance : DecidablePred Number.ReadsBack := fun x =>
  inferInstanceAs (Decidable (((x.numeral? Json.numberStyle).bind fun n =>
    Json.numberOf? n.chars) = some x))

/-- numbers that JSON has a form for -/
def AllFinite (numbers : List Number) : Prop := ∀ x ∈ numbers, x.isFinite = true

instance : DecidablePred AllFinite := fun numbers =>
  inferInstanceAs (Decidable (∀ x ∈ numbers, x.isFinite = true))

theorem allFinite_singleton {x : Number} : AllFinite [x] ↔ x.isFinite = true :=
  List.forall_mem_singleton

theorem allFinite_append {l l' : List Number} : AllFinite (l ++ l') ↔ AllFinite l ∧ AllFinite l' :=
  List.forall_mem_append

/-- two parts that are both needed -/
theorem bind_ite_allFinite {α β γ : Type} (l l' : List Number) (a : α) (b : β) (f : α → β → γ) :
    ((if AllFinite l then some a else none) >>= fun a =>
      (if AllFinite l' then some b else none) >>= fun b => some (f a b)) =
      if AllFinite (l ++ l') then some (f a b) else none := by
  by_cases hfirst : AllFinite l
  · by_cases hrest : AllFinite l'
    · rw [if_pos hfirst, if_pos hrest, if_pos (allFinite_append.2 ⟨hfirst, hrest⟩)]
      rfl
    · rw [if_pos hfirst, if_neg hrest, if_neg fun h => hrest (allFinite_append.1 h).2]
      rfl
  · rw [if_neg hfirst, if_neg fun h => hfirst (allFinite_append.1 h).1]
    rfl

/-- numbers that are read back if they are written at all -/
def AllReadBack (numbers : List Number) : Prop := ∀ x ∈ numbers, x.isFinite = true → x.ReadsBack

instance : DecidablePred AllReadBack := fun numbers =>
  inferInstanceAs (Decidable (∀ x ∈ numbers, x.isFinite = true → x.ReadsBack))

namespace Json

theorem ofNumber_of_not_isFinite {x : Number} (h : ¬ x.isFinite = true) : ofNumber x = null := by
  rw [ofNumber, Number.numeral?, if_pos (by simp [h])]

theorem ofNumber_of_readsBack {x : Number} (h : x.ReadsBack) :
    ∃ n, ofNumber x = number n ∧ (number n).Legible ∧ (number n).reread.number? = some x := by
  obtain ⟨n, hn, hx⟩ := Option.bind_eq_some_iff.1 h
  refine ⟨n, by rw [ofNumber, hn], ?_⟩
  rw [numberOf?] at hx
  split at hx
  · next n' hscan =>
    refine ⟨⟨n', hscan⟩, ?_⟩
    rw [reread, rereadNumeral, hscan, hx]
  · cases hx

theorem legible_ofNumber {x : Number} (h : x.isFinite = true → x.ReadsBack) :
    (ofNumber x).Legible := by
  by_cases hx : x.isFinite = true
  · obtain ⟨n, hn, hlegible, -⟩ := ofNumber_of_readsBack (h hx)
    rw [hn]
    exact hlegible
  · rw [ofNumber_of_not_isFinite hx]
    trivial

/-- a written form that can be printed, and is read as `a` if all its numbers have a form -/
structure Writes {α : Type} (j : Json) (read : Json → Option α) (a : α) (numbers : List Number) :
    Prop where
  legible : j.Legible
  reads : read j.reread = if AllFinite numbers then some a else none

theorem writes_ofNumber {x : Number} (h : AllReadBack [x]) :
    (ofNumber x).Writes number? x [x] := by
  have hx := h x List.mem_cons_self
  refine ⟨legible_ofNumber hx, ?_⟩
  by_cases hfinite : x.isFinite = true
  · obtain ⟨n, hn, -, hreads⟩ := ofNumber_of_readsBack (hx hfinite)
    rw [hn, hreads, if_pos (allFinite_singleton.2 hfinite)]
  · rw [ofNumber_of_not_isFinite hfinite, if_neg fun hall => hfinite (allFinite_singleton.1 hall)]
    rfl

theorem writes_array {α : Type} {read : Json → Option α} {write : α → Json}
    {numbers : α → List Number} {l : List α} (h : ∀ a ∈ l, (write a).Writes read a (numbers a)) :
    (array (l.map write)).Writes (list? read) l (l.flatMap numbers) where
  legible := allLegible_iff.2 fun v hv => by
    obtain ⟨a, ha, rfl⟩ := List.mem_map.1 hv
    exact (h a ha).legible
  reads := by
    rw [reread, rereadItems_eq, list?, List.map_map]
    induction l with
    | nil => rfl
    | cons a l ih =>
      obtain ⟨ha, hl⟩ := List.forall_mem_cons.1 h
      rw [List.map_cons, List.mapM_cons, ih hl]
      show (read (write a).reread >>= _) = _
      rw [ha.reads, List.flatMap_cons]
      exact bind_ite_allFinite _ _ a l List.cons

theorem writes_byte (b : UInt8) : (ofNat b.toNat).Writes byte? b [] :=
  ⟨legible_ofNat _, by rw [reread_ofNat, byte?_ofNat]; rfl⟩

end Json

/-! ## Dumps -/

open Json

namespace Key

def numbers : Key → List Number
  | number x => [x]
  | text _ => []

theorem writes_toJson {k : Key} (h : AllReadBack k.numbers) :
    k.toJson.Writes ofJson? k k.numbers := by
  cases k with
  | text s => exact ⟨trivial, rfl⟩
  | number x =>
    have hx := h x List.mem_cons_self
    refine ⟨legible_ofNumber hx, ?_⟩
    show ofJson? (Json.ofNumber x).reread = if AllFinite [x] then some (number x) else none
    by_cases hfinite : x.isFinite = true
    · obtain ⟨n, hn, -, hreads⟩ := ofNumber_of_readsBack (hx hfinite)
      rw [hn, if_pos (allFinite_singleton.2 hfinite)]
      rw [reread] at hreads ⊢
      rw [ofJson?, hreads]
      rfl
    · rw [ofNumber_of_not_isFinite hfinite,
        if_neg fun hall => hfinite (allFinite_singleton.1 hall)]
      rfl

end Key

namespace Element

def numbers : Element → List Number
  | number x => [x]
  | _ => []

theorem ofJson?_toJson (e : Element) :
    ofJson? e.toJson.reread = ofValue? e.elementType (e.valueToJson.map reread) := by
  have hnodup : (e.members.map Prod.fst).Nodup := by
    rw [members]
    cases e.valueToJson <;> simp
  have hvalue : e.members.lookup "value" = e.valueToJson := by
    rw [members]
    cases e.valueToJson <;> rfl
  have hfields := fields?_ofMembers (List.Perm.refl e.members) hnodup ["type", "value"]
  obtain ⟨ms, hms⟩ : ∃ ms, e.toJson.reread = object ms := ⟨_, rfl⟩
  rw [toJson] at hms
  rw [hms, List.map_cons, List.map_cons, hvalue] at hfields
  rw [toJson, hms]
  show ((object ms).fields? ["type", "value"] true >>= _) = _
  rw [hfields]
  show (ElementType.ofName? e.elementType.name >>= _) = _
  rw [ElementType.ofName?_name]
  rfl

theorem writes_toJson {e : Element} (h : AllReadBack e.numbers) :
    e.toJson.Writes ofJson? e e.numbers := by
  have hvalue : ∀ v ∈ e.valueToJson, v.Legible := by
    cases e with
    | invalid => nofun
    | number x => exact fun v hv => Option.some.inj hv ▸ (writes_ofNumber h).legible
    | form id => exact fun v hv => Option.some.inj hv ▸ legible_ofNat _
    | string s => exact fun v hv => Option.some.inj hv ▸ trivial
    | array id => exact fun v hv => Option.some.inj hv ▸ legible_ofNat _
  refine ⟨legible_ofMembers (List.forall_mem_cons.2 ⟨trivial, fun p hp => ?_⟩), ?_⟩
  · obtain ⟨v, hv, rfl⟩ := List.mem_map.1 hp
    exact hvalue v (Option.mem_toList.1 hv)
  rw [ofJson?_toJson]
  cases e with
  | number x =>
    show (Json.ofNumber x).reread.number?.map number = _
    rw [(writes_ofNumber h).reads]
    show Option.map number (if AllFinite [x] then _ else _) = if AllFinite [x] then _ else _
    split <;> rfl
  | invalid => rfl
  | string s => rfl
  | form id =>
    show (Json.ofNat id.toNat).reread.word?.map form = _
    rw [reread_ofNat, word?_ofNat]
    rfl
  | array id =>
    show (Json.ofNat id.toNat).reread.word?.map array = _
    rw [reread_ofNat, word?_ofNat]
    rfl

end Element

def entryNumbers (p : Key × Element) : List Number := p.1.numbers ++ p.2.numbers

theorem writes_entryToJson {p : Key × Element} (h : AllReadBack (entryNumbers p)) :
    (entryToJson p).Writes entryOfJson? p (entryNumbers p) := by
  obtain ⟨hk, he⟩ := List.forall_mem_append.1 h
  have hkey := Key.writes_toJson hk
  have helement := Element.writes_toJson he
  refine ⟨legible_ofRecord (by simp [hkey.legible, helement.legible]), ?_⟩
  have hfields := fields?_ofRecord
    (l := [("key", p.1.toJson), ("value", p.2.toJson)]) (by simp) ["key", "value"]
  rw [entryOfJson?, entryToJson, hfields]
  show (Key.ofJson? p.1.toJson.reread >>= fun k =>
    Element.ofJson? p.2.toJson.reread >>= fun e => some (k, e)) = _
  rw [hkey.reads, helement.reads]
  exact bind_ite_allFinite _ _ p.1 p.2 Prod.mk

def ArrayDump.numbers (d : ArrayDump) : List Number := d.elements.flatMap entryNumbers

/-- the numbers of a dump -/
def StoreDump.numbers (d : StoreDump) : List Number := d.arrays.flatMap ArrayDump.numbers

theorem AllReadBack.of_flatMap {α : Type} {numbers : α → List Number} {l : List α}
    (h : AllReadBack (l.flatMap numbers)) {a : α} (ha : a ∈ l) : AllReadBack (numbers a) :=
  fun x hx => h x (List.mem_flatMap.2 ⟨a, ha, hx⟩)

theorem ArrayDump.writes_toJson {d : ArrayDump} (h : AllReadBack d.numbers) :
    d.toJson.Writes ofJson? d d.numbers := by
  have helements : (array (d.elements.map entryToJson)).Writes (list? entryOfJson?) d.elements
      d.numbers := writes_array fun p hp => writes_entryToJson (h.of_flatMap hp)
  have hrefs : (array (d.refs.map fun m => ofNat m.toNat)).Writes (list? byte?) d.refs
      (d.refs.flatMap fun _ => []) := writes_array fun b _ => writes_byte b
  have hnone : (d.refs.flatMap fun _ => ([] : List Number)) = [] :=
    List.flatMap_eq_nil_iff.2 fun _ _ => rfl
  obtain ⟨id, kind, owner, refs, temporary, elements⟩ := d
  have hfields := fun names => fields?_ofRecord (l := [("id", .ofNat id.toNat),
    ("kind", .ofText kind.tag), ("owner", .ofNat owner.toNat),
    ("refs", .array (refs.map fun m => .ofNat m.toNat))]
    ++ (if temporary then [("temporary", .bool true)] else [])
    ++ [("elements", .array (elements.map entryToJson))]) (by cases temporary <;> simp) names
  have hread : ofJson? (toJson ⟨id, kind, owner, refs, temporary, elements⟩).reread =
      ((ofNat id.toNat).reread.word? >>= fun id =>
        ArrayKind.ofTag? kind.tag >>= fun kind =>
        (ofNat owner.toNat).reread.byte? >>= fun owner =>
        list? byte? (array (refs.map fun m => ofNat m.toNat)).reread >>= fun refs =>
        list? entryOfJson? (array (elements.map entryToJson)).reread >>= fun elements =>
          some ⟨id, kind, owner, refs, temporary, elements⟩) := by
    rw [ofJson?, toJson, hfields]
    cases temporary <;> rfl
  refine ⟨legible_ofRecord ?_, ?_⟩
  · have hr : AllLegible (refs.map fun m => ofNat m.toNat) := hrefs.legible
    have he : AllLegible (elements.map entryToJson) := helements.legible
    cases temporary <;> simp [legible_ofNat, ofText, Legible, hr, he]
  rw [hread, reread_ofNat, reread_ofNat, word?_ofNat, byte?_ofNat, ArrayKind.ofTag?_tag]
  show (list? byte? (array (refs.map fun m => ofNat m.toNat)).reread >>= fun refs =>
    list? entryOfJson? (array (elements.map entryToJson)).reread >>= fun elements =>
      some (ArrayDump.mk id kind owner refs temporary elements)) = _
  rw [hrefs.reads, helements.reads, bind_ite_allFinite, hnone, List.nil_append]

theorem StringDump.writes_toJson (d : StringDump) : d.toJson.Writes ofJson? d [] := by
  refine ⟨legible_ofRecord (by simp [legible_ofNat, ofText, Legible]), ?_⟩
  have hfields := fields?_ofRecord (l := [("id", .ofNat d.id.toNat), ("owner", .ofNat d.owner.toNat),
    ("data", .ofText d.data)]) (by simp) ["id", "owner", "data"]
  rw [ofJson?, toJson, hfields]
  show ((ofNat d.id.toNat).reread.word? >>= fun id => (ofNat d.owner.toNat).reread.byte? >>=
    fun owner => some ⟨id, owner, d.data⟩) = some d
  rw [reread_ofNat, reread_ofNat, word?_ofNat, byte?_ofNat]
  rfl

theorem StoreDump.writes_toJson {d : StoreDump} (h : AllReadBack d.numbers) :
    d.toJson.Writes ofJson? d d.numbers := by
  have harrays : (array (d.arrays.map ArrayDump.toJson)).Writes (list? ArrayDump.ofJson?) d.arrays
      d.numbers := writes_array fun a ha => ArrayDump.writes_toJson (h.of_flatMap ha)
  have hstrings : (array (d.strings.map StringDump.toJson)).Writes (list? StringDump.ofJson?)
      d.strings (d.strings.flatMap fun _ => []) := writes_array fun v _ => v.writes_toJson
  have hnone : (d.strings.flatMap fun _ => ([] : List Number)) = [] :=
    List.flatMap_eq_nil_iff.2 fun _ _ => rfl
  refine ⟨legible_ofRecord (by simp [members, harrays.legible, hstrings.legible]), ?_⟩
  have hfields := fields?_ofRecord (l := d.members) (by simp [members]) ["arrays", "strings"]
  rw [ofJson?, toJson, hfields]
  show ((list? ArrayDump.ofJson? (array (d.arrays.map ArrayDump.toJson)).reread) >>= fun arrays =>
    list? StringDump.ofJson? (array (d.strings.map StringDump.toJson)).reread >>= fun strings =>
      some (StoreDump.mk arrays strings)) = _
  rw [harrays.reads, hstrings.reads, bind_ite_allFinite, hnone, List.append_nil]

/-- a printed dump is read, with blanks behind it or without, if all its numbers have a form -/
theorem StoreDump.parse?_json {d : StoreDump} (h : AllReadBack d.numbers) {blanks : List Char}
    (hblanks : ∀ c ∈ blanks, isSpace c = true) :
    parse? ((Answer.mk (.contents d) none).json ++ String.ofList blanks) =
      if AllFinite d.numbers then some d else none := by
  have hd := writes_toJson h
  have hjson : (Answer.mk (.contents d) none).toJson = d.toJson :=
    congrArg ofRecord (List.append_nil d.members)
  rw [Answer.json, hjson, parse?, parse?_pretty hd.legible hblanks]
  exact hd.reads

end ScriptVars
