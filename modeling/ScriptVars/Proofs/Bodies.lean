import ScriptVars.Proofs.Layout
import ScriptVars.Proofs.Texts
import ScriptVars.Proofs.WholeNumbers
import ScriptVars.Save.Read
import ScriptVars.Save.Write

/-!
# Record bodies, written and read

What was written of a value without a fault is read as that value, but for the sign of a zero in
a key and for the reserved bits of an id.

* `Reader.Takes`            reads a value off the bytes in front;
* `Draft.append_eq_of`, …   what drafts without a fault are made of;
* `Element.reduced`         what reading makes of elements;
* `Storage.repaired`        what it makes of a storage;
* `Reader.takes_savedArray`, `takes_savedString`   whole bodies.
-/

namespace ScriptVars

open ScriptVars.Action

/-! ## Readers -/

namespace Reader

variable {α β : Type}

/-- reads a value off some bytes, and leaves what follows them -/
def Takes (r : Reader α) (bytes : List UInt8) (a : α) : Prop :=
  ∀ rest, r (bytes ++ rest) = .ok a rest

theorem takes_pure (a : α) : Takes (pure a) [] a := fun _ => rfl

theorem Takes.bind {r : Reader α} {g : α → Reader β} {b c : List UInt8} {a : α} {d : β}
    (hr : r.Takes b a) (hg : (g a).Takes c d) : Takes (r >>= g) (b ++ c) d := by
  intro rest
  show EStateM.bind r g _ = _
  rw [EStateM.bind, List.append_assoc, hr (c ++ rest)]
  exact hg rest

/-- the last step adds nothing to what is read -/
theorem Takes.map {r : Reader α} {b : List UInt8} {a : α} (hr : r.Takes b a) (f : α → β) :
    Takes (do return f (← r)) b (f a) := by
  have h : Takes (do return f (← r)) (b ++ []) (f a) := hr.bind (takes_pure (f a))
  rwa [List.append_nil] at h

/-- a step that reads nothing -/
theorem Takes.skip {r : Reader α} {g : α → Reader β} {b : List UInt8} {a : α} {d : β}
    (hr : r.Takes [] a) (hg : (g a).Takes b d) : Takes (r >>= g) b d := hr.bind hg

theorem takes_demand {c : Except Failure α} {a : α} (h : c = .ok a) :
    Takes (Action.demand c) [] a := by
  rw [h]
  exact takes_pure a

theorem takes_require (f : Failure) {o : Option α} {a : α} (h : o = some a) :
    Takes (Action.require f o) [] a := by
  rw [h]
  exact takes_pure a

theorem takes_take {count : Nat} {bytes : List UInt8} (h : bytes.length = count) :
    Takes (take count) bytes bytes := by
  intro rest
  rw [take_eq, ← h, Bytes.splitAt?_append]

theorem takes_nat {count n : Nat} (h : n < Bytes.capacity count) :
    Takes (nat count) (Bytes.ofNat count n) n := by
  have ht := (takes_take (Bytes.length_ofNat count n)).map Bytes.toNat
  rwa [Bytes.toNat_ofNat, Nat.mod_eq_of_lt h] at ht

theorem takes_byte (b : UInt8) : Takes byte [b] b := by
  have htake : Takes (take 1) [b] [b] := takes_take rfl
  have h := htake.map Bytes.toNat
  have hb : Bytes.toNat [b] = b.toNat := by rw [Bytes.toNat, Bytes.toNat, Nat.mul_zero, Nat.add_zero]
  rw [hb] at h
  have h' := h.map UInt8.ofNat
  rwa [UInt8.ofNat_toNat] at h'

theorem takes_word (w : UInt32) : Takes word (Bytes.ofNat 4 w.toNat) w := by
  have hnat : Takes (nat 4) (Bytes.ofNat 4 w.toNat) w.toNat := takes_nat w.toNat_lt
  have h := hnat.map UInt32.ofNat
  rwa [UInt32.ofNat_toNat] at h

theorem takes_number (x : Number) : Takes number (Bytes.ofNat 8 x.bits.toNat) x := by
  have hnat : Takes (nat 8) (Bytes.ofNat 8 x.bits.toNat) x.bits.toNat := takes_nat x.bits.toNat_lt
  have h := hnat.map fun n => (⟨UInt64.ofNat n⟩ : Number)
  rwa [UInt64.ofNat_toNat] at h

/-- the same kind of value several times, each in its place -/
theorem takes_repeated {γ : Type} {r : Nat → Reader α} {l : List γ} {f : γ → List UInt8}
    {g : γ → α} (h : ∀ i (hi : i < l.length), (r i).Takes (f l[i]) (g l[i])) :
    Takes (repeated r l.length) (l.flatMap f) (l.map g) := by
  have hfrom : ∀ (l : List γ) (i : Nat) (done : List α),
      (∀ j (hj : j < l.length), (r (i + j)).Takes (f l[j]) (g l[j])) →
      Takes (repeatedFrom r l.length i done) (l.flatMap f) (done.reverse ++ l.map g) := by
    intro l
    induction l with
    | nil =>
      intro i done _
      rw [List.map_nil, List.append_nil]
      exact takes_pure _
    | cons c l ih =>
      intro i done hl
      have hrest := ih (i + 1) (g c :: done) fun j hj => by
        have hj' := hl (j + 1) (Nat.succ_lt_succ hj)
        rwa [← Nat.add_assoc, Nat.add_right_comm] at hj'
      rw [List.reverse_cons, List.append_assoc, List.singleton_append] at hrest
      exact (hl 0 (Nat.zero_lt_succ _)).bind hrest
  exact hfrom l 0 [] fun j hj => by
    rw [Nat.zero_add]
    exact h j hj

end Reader

/-! ## Drafts without a fault -/

namespace Draft

variable {α : Type}

theorem of_inj {l m : List α} (h : of l = of m) : l = m := congrArg Draft.parts h

theorem append_eq_of {d e : Draft α} {l : List α} (h : d ++ e = of l) :
    ∃ b c, d = of b ∧ e = of c ∧ l = b ++ c := by
  obtain ⟨parts, fault⟩ := d
  cases fault with
  | some f => cases h
  | none =>
    obtain ⟨parts', fault'⟩ := e
    cases h
    exact ⟨parts, parts', rfl, rfl, rfl⟩

theorem concat_eq_of {γ : Type} {d : γ → Draft α} {l : List γ} {m : List α}
    (h : concat (l.map d) = of m) :
    (∀ c ∈ l, d c = of (d c).parts) ∧ m = l.flatMap fun c => (d c).parts := by
  induction l generalizing m with
  | nil => exact ⟨nofun, (of_inj h).symm⟩
  | cons c l ih =>
    obtain ⟨b, rest, hb, hrest, rfl⟩ := append_eq_of h
    obtain ⟨hl, rfl⟩ := ih hrest
    refine ⟨fun x hx => ?_, ?_⟩
    · rcases List.mem_cons.1 hx with rfl | hx
      · rw [hb]
        rfl
      · exact hl x hx
    · rw [List.flatMap_cons, hb]
      rfl

theorem count_eq_of {n : Nat} {what : String} {l : List UInt8} (h : count n what = of l) :
    n < Bytes.capacity 4 ∧ l = Bytes.ofNat 4 n := by
  rw [count] at h
  split at h
  · next hn => exact ⟨hn, (of_inj h).symm⟩
  · cases h

theorem text_eq_of {s : String} {l : List UInt8} (h : text s = of l) :
    (Utf8.encode s).length < Bytes.capacity 2 ∧
      l = Bytes.ofNat 2 (Utf8.encode s).length ++ Utf8.encode s := by
  rw [text] at h
  split at h
  · next hs => exact ⟨hs, (of_inj h).symm⟩
  · cases h

end Draft

/-! ## Values -/

theorem checkText_eq_ok {s : String} : checkText s = .ok () ↔ s.utf8ByteSize ≤ maxTextBytes := by
  rw [checkText]
  split
  · next h => exact iff_of_false nofun (Nat.not_le.2 h)
  · next h => exact iff_of_true rfl (Nat.not_lt.1 h)

theorem checkText_of_length {s : String} (h : (Utf8.encode s).length < Bytes.capacity 2) :
    checkText s = .ok () := checkText_eq_ok.2 (Nat.le_of_lt_succ h)

/-- an element as it is read again: ids of arrays lose their reserved bits -/
def Element.reduced : Element → Element
  | array id => array (handleOf id)
  | e => e

namespace Reader

theorem takes_text {s : String} {l : List UInt8} (h : Draft.text s = .of l) :
    Takes text l s := by
  obtain ⟨hs, rfl⟩ := Draft.text_eq_of h
  have htake : Takes (take (Utf8.encode s).length) (Utf8.encode s) (Utf8.encode s) := takes_take rfl
  have hrepair := htake.map Utf8.repair
  rw [Utf8.repair_encode] at hrepair
  exact (takes_nat hs).bind hrepair

theorem takes_payload {e : Element} {l : List UInt8} (h : e.payload = .of l) :
    Takes (payload e.elementType) l e.reduced := by
  cases e with
  | invalid =>
    cases Draft.of_inj h
    exact takes_pure _
  | number x =>
    cases Draft.of_inj h
    exact (takes_number x).map Element.number
  | form id =>
    cases Draft.of_inj h
    exact (takes_word id).map Element.form
  | string s => exact (takes_text h).map Element.string
  | array id =>
    cases Draft.of_inj h
    exact (takes_word id).map fun id => Element.array (handleOf id)

theorem takes_element {e : Element} {l : List UInt8} (h : e.draft = .of l) :
    Takes element l e.reduced := by
  obtain ⟨b, c, hb, hc, rfl⟩ := Draft.append_eq_of h
  cases Draft.of_inj hb
  exact (takes_byte _).bind
    ((takes_require _ (ElementType.ofCode?_code e.elementType)).skip (takes_payload hc))

theorem checkText_reduced {e : Element} {l : List UInt8} (h : e.draft = .of l) :
    e.reduced.checkText = .ok () := by
  cases e with
  | string s =>
    obtain ⟨b, c, -, hc, -⟩ := Draft.append_eq_of h
    exact checkText_of_length (Draft.text_eq_of hc).1
  | _ => rfl

theorem takes_key {k : Key} {l : List UInt8} (h : k.draft = .of l) :
    Takes (key k.keyType) l k.fold := by
  cases k with
  | number x =>
    cases Draft.of_inj h
    exact (takes_number x).map Key.ofNumber
  | text s => exact (takes_text h).map Key.text

theorem checkText_fold {k : Key} {l : List UInt8} (h : k.draft = .of l) :
    k.fold.checkText = .ok () := by
  cases k with
  | number x => rfl
  | text s => exact checkText_of_length (Draft.text_eq_of h).1

theorem takes_entry {id : UInt32} {kind : ArrayKind} {i : Nat} {p : Key × Element}
    {l : List UInt8} (h : entryDraft p = .of l) (hk : p.1.keyType = kind.keyType)
    (hi : kind.isPacked = true → p.1.fold.index? = some i) :
    Takes (entry id kind i) l (p.1.fold, p.2.reduced) := by
  obtain ⟨b, c, hb, hc, rfl⟩ := Draft.append_eq_of h
  have hkey := takes_key hb
  rw [hk] at hkey
  refine hkey.bind ?_
  have hplace : ¬ (kind.isPacked && p.1.fold.index? ≠ some i) = true := by
    rw [Bool.and_eq_true, decide_eq_true_eq]
    exact fun hn => hn.2 (hi hn.1)
  have hrest : Takes (do
      Action.demand p.1.fold.checkText
      Action.demand p.2.reduced.checkText
      return (p.1.fold, p.2.reduced)) [] (p.1.fold, p.2.reduced) :=
    .skip (takes_demand (checkText_fold hb))
      (.skip (takes_demand (checkText_reduced hc)) (takes_pure _))
  dsimp only
  rw [if_neg hplace]
  rw [← List.append_nil c]
  exact (takes_element hc).bind hrest

theorem takes_kind (id : UInt32) (k : ArrayKind) :
    Takes (kind id) [k.keyType.code, if k.isPacked then 1 else 0] k := by
  have htype : (KeyType.ofCode? k.keyType.code).filter (· ≠ .invalid) = some k.keyType := by
    cases k <;> rfl
  have hkind : ArrayKind.of? k.keyType ((if k.isPacked then 1 else 0 : UInt8) ≠ 0) = some k := by
    cases k <;> rfl
  have hlast : Takes (do
      let packed ← byte
      Action.require (.format (.invalidKeyType id.toNat k.keyType.code.toNat))
        (ArrayKind.of? k.keyType (packed ≠ 0))) ([if k.isPacked then 1 else 0] ++ []) k :=
    (takes_byte _).bind (takes_require _ hkind)
  exact (takes_byte _).bind (.skip (takes_require _ htype) hlast)

/-- the references that a record of some version has -/
def savedRefs (version : UInt32) (refs : List UInt8) : List UInt8 :=
  if version = SaveFormat.currentVersion then refs else []

theorem takes_refs {version : UInt32} {held : List UInt8} {l : List UInt8}
    (h : (if version = SaveFormat.currentVersion then refsDraft held else .of []) = .of l) :
    Takes (refs version) l (savedRefs version held) := by
  rw [refs, savedRefs]
  by_cases hv : version = SaveFormat.currentVersion
  · rw [if_pos hv] at h ⊢
    rw [if_pos hv]
    obtain ⟨b, c, hb, hc, rfl⟩ := Draft.append_eq_of h
    obtain ⟨hn, rfl⟩ := Draft.count_eq_of hb
    cases Draft.of_inj hc
    have hbytes := takes_repeated (r := fun _ => byte) (l := held) (f := fun b => [b])
      (g := fun b => b) fun i hi => takes_byte _
    rw [List.flatMap_singleton', List.map_id'] at hbytes
    exact (takes_nat hn).bind hbytes
  · rw [if_neg hv] at h ⊢
    rw [if_neg hv]
    cases Draft.of_inj h
    exact takes_pure []

end Reader

/-! ## Bodies -/

def entryRead (p : Key × Element) : Key × Element := (p.1.fold, p.2.reduced)

theorem Key.fold_ofIndex (i : Nat) : (Key.ofIndex i).fold = Key.ofIndex i :=
  congrArg Key.number (Number.foldZero_foldZero _)

namespace Storage

theorem getElem_indexed (values : List Element) (i : Nat) (h : i < (indexed 0 values).length) :
    (indexed 0 values)[i].1 = Key.ofIndex i := by
  simp only [indexed, List.getElem_map, List.getElem_zipIdx, Nat.zero_add]

/-- keys have the type of the kind, those of a packed storage are their places -/
theorem Fits.key_entries {kind : ArrayKind} {s : Storage} (h : s.Fits kind)
    (hn : s.size < Bytes.capacity 4) (i : Nat) (hi : i < s.entries.length) :
    s.entries[i].1.keyType = kind.keyType ∧
      (kind.isPacked = true → s.entries[i].1.fold.index? = some i) := by
  cases s with
  | packed values =>
    have hkey : (entries (packed values))[i].1 = Key.ofIndex i := getElem_indexed values i hi
    have hp : kind.isPacked = true := h
    have htype : KeyType.number = kind.keyType := by cases kind <;> first | rfl | cases hp
    have hlt : i < values.length := by rwa [length_entries] at hi
    have hcap : values.length < 4294967296 := hn
    rw [hkey, Key.fold_ofIndex]
    refine ⟨htype, fun _ => Key.index?_ofIndex ?_⟩
    rw [Key.greatestIndex]
    omega
  | sorted entries =>
    obtain ⟨hp, -, ht⟩ := h
    refine ⟨ht _ (List.getElem_mem hi), fun hn => ?_⟩
    rw [hp] at hn
    cases hn

/-- the same places or keys, but for the signs of zeros, with changed elements -/
def repaired (f : Element → Element) : Storage → Storage
  | packed values => packed (values.map f)
  | sorted entries => sorted (entries.map fun p => (p.1.fold, f p.2))

theorem entries_repaired (f : Element → Element) (s : Storage) :
    (s.repaired f).entries = s.entries.map fun p => (p.1.fold, f p.2) := by
  cases s with
  | packed values =>
    show indexed 0 (values.map f) = (indexed 0 values).map _
    rw [indexed, indexed, List.zipIdx_map, List.map_map, List.map_map]
    refine List.map_congr_left fun p _ => ?_
    exact Prod.ext (Key.fold_ofIndex p.2).symm rfl
  | sorted entries => rfl

theorem mapValues_repaired (f g : Element → Element) (s : Storage) :
    (s.repaired f).mapValues g = s.repaired (g ∘ f) := by
  cases s with
  | packed values => exact congrArg packed (List.map_map ..)
  | sorted entries => exact congrArg sorted (List.map_map ..)

theorem isAscending_fold {entries : List (Key × Element)} (f : Element → Element)
    (h : Ascending.IsAscending Key.compare entries) :
    Ascending.IsAscending Key.compare (entries.map fun p => (p.1.fold, f p.2)) := by
  refine List.pairwise_map.2 (h.imp fun {p q} hlt => ?_)
  show p.1.fold.compare q.1.fold = .lt
  rwa [Key.compare_fold]

/-- entries that were in order come to the same layout -/
theorem storageFrom_entries {kind : ArrayKind} {s : Storage} (h : s.Fits kind)
    (f : Element → Element) :
    kind.storageFrom (s.entries.map fun p => (p.1.fold, f p.2)) = s.repaired f := by
  cases s with
  | packed values =>
    have hp : kind.isPacked = true := h
    rw [ArrayKind.storageFrom, if_pos hp, List.map_map]
    show packed ((indexed 0 values).map (f ∘ Prod.snd)) = packed (values.map f)
    rw [← List.map_map, map_snd_indexed]
  | sorted entries =>
    obtain ⟨hp, ha, -⟩ := h
    rw [ArrayKind.storageFrom, if_neg (Bool.eq_false_iff.1 hp)]
    exact congrArg sorted (Ascending.foldl_insert [] (isAscending_fold f ha))

end Storage

namespace Reader

/-- the record of an array, behind its owner and id -/
theorem takes_savedArray {a : ArrayVar} (ha : a.Fits) (id : UInt32) {version : UInt32}
    {held l : List UInt8}
    (h : .of [a.keyType.code, if a.isPacked then 1 else 0] ++
      ((if version = SaveFormat.currentVersion then refsDraft held else .of []) ++
        (.count a.size "elements" ++ .concat (a.entries.map entryDraft))) = Draft.of l) :
    Takes (savedArray id version) l
      ⟨a.kind, savedRefs version held, a.entries.map entryRead⟩ := by
  obtain ⟨b, _, hb, h₁, rfl⟩ := Draft.append_eq_of h
  obtain ⟨c, _, hc, h₂, rfl⟩ := Draft.append_eq_of h₁
  obtain ⟨d, e, hd, he, rfl⟩ := Draft.append_eq_of h₂
  obtain ⟨hn, rfl⟩ := Draft.count_eq_of hd
  obtain ⟨hentries, rfl⟩ := Draft.concat_eq_of he
  cases Draft.of_inj hb
  have hlength : a.entries.length = a.size := Storage.length_entries _
  have hrepeated : Takes (repeated (entry id a.kind) a.size)
      (a.entries.flatMap fun p => (entryDraft p).parts) (a.entries.map entryRead) := by
    rw [← hlength]
    refine takes_repeated fun i hi => ?_
    obtain ⟨hk, hi'⟩ := Storage.Fits.key_entries ha hn i hi
    exact takes_entry (hentries _ (List.getElem_mem hi)) hk hi'
  exact (takes_kind id a.kind).bind ((takes_refs hc).bind ((takes_nat hn).bind
    (hrepeated.map (SavedArray.mk a.kind (savedRefs version held)))))

/-- the record of a string -/
theorem takes_savedString {v : StringVar} {id : UInt32} (hid : handleOf id = id) (hz : id ≠ 0)
    {l : List UInt8} (h : v.draft id = Draft.of l) :
    Takes savedString l ⟨id, v.owner, v.data⟩ := by
  obtain ⟨b, _, hb, h₁, rfl⟩ := Draft.append_eq_of h
  obtain ⟨c, d, hc, hd, rfl⟩ := Draft.append_eq_of h₁
  cases Draft.of_inj hb
  cases Draft.of_inj hc
  have hlast : Takes (do
      let data ← text
      let id := handleOf id
      if id = 0 then throw (.format (.zeroId .string))
      return (⟨id, v.owner, data⟩ : SavedString)) d ⟨id, v.owner, v.data⟩ := by
    have hstep : Takes (do
        let id := handleOf id
        if id = 0 then throw (.format (.zeroId .string))
        return (⟨id, v.owner, v.data⟩ : SavedString)) [] ⟨id, v.owner, v.data⟩ := by
      dsimp only
      rw [hid, if_neg hz]
      exact takes_pure _
    rw [← List.append_nil d]
    exact (takes_text hd).bind hstep
  exact (takes_byte _).bind ((takes_word id).bind hlast)

end Reader

end ScriptVars
