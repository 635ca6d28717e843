/-
Module: DiskQueue.Proofs.HeaderMembers
Purpose: What a header line says, in terms of the members of the object that it is.
Trusted boundary: none
Main exports:
  Record.valuesOf, Record.Header.Given, Record.Header.read_iff, Record.Kind.readTag_iff
-/
import DiskQueue.Proofs.JsonLists
import DiskQueue.Record.Header

namespace DiskQueue.Record

open Json (isBlank Blanks IsListOf IsObject IsValue Quotes Shape)

/-! ### The values with one key -/

/-- The texts of the values that stand under a key, in their order. -/
def valuesOf (key : String) (ms : List (String × Bytes)) : List Bytes :=
  (ms.filter fun m => m.1 == key).map Prod.snd

theorem valuesOf_cons (key other : String) (v : Bytes) (ms : List (String × Bytes)) :
    valuesOf key ((other, v) :: ms)
      = if other = key then v :: valuesOf key ms else valuesOf key ms := by
  simp only [valuesOf, List.filter_cons, beq_iff_eq]
  split <;> rfl

/-- The members that are fields of a header. -/
def fieldsOf (ms : List (String × Bytes)) : List (String × Bytes) :=
  ms.filter fun m => (Header.shape.field? m.1).isSome

/-- The values of a field are among the members that are fields, so up to their order they depend
on those alone. -/
theorem valuesOf_perm {key : String} (field : (Header.shape.field? key).isSome = true)
    {ms ms' : List (String × Bytes)} (same : (fieldsOf ms).Perm (fieldsOf ms')) :
    (valuesOf key ms).Perm (valuesOf key ms') := by
  have among (ms : List (String × Bytes)) : valuesOf key (fieldsOf ms) = valuesOf key ms := by
    rw [valuesOf, fieldsOf, List.filter_filter, valuesOf]
    congr 1
    apply List.filter_congr
    intro m _
    by_cases named : m.1 = key
    · simp [named, field]
    · simp [named]
  rw [← among ms, ← among ms']
  exact (same.filter _).map _

/-- What a field holds after the values with its key: it takes a value only where it holds none. -/
def Slot {β : Type} (means : β → Bytes → Prop) : Option β → List Bytes → Option β → Prop
  | old, [], new => new = old
  | old, v :: vs, new => old = none ∧ ∃ x, means x v ∧ Slot means (some x) vs new

/-- A field that held nothing holds what the one value with its key means, if there is one. -/
theorem slot_none_iff {β : Type} {means : β → Bytes → Prop} {vs : List Bytes} {new : Option β} :
    Slot means none vs new ↔
      (vs = [] ∧ new = none) ∨ ∃ v x, vs = [v] ∧ means x v ∧ new = some x := by
  match vs with
  | [] => simp [Slot]
  | [v] => simp [Slot]
  | v :: w :: vs => simp [Slot]

/-- A text that is a natural number below a bound. -/
def IsNatBelow (bound n : Nat) (v : Bytes) : Prop := n < bound ∧ v = Decimal.digits n

/-- Natural numbers of at most 64 bits are read from their digits. -/
theorem reads_natBelow {bound : Nat} (h64 : bound ≤ 2 ^ 64) (expected : String) :
    Json.Reads (Json.readNatBelow bound expected) (IsNatBelow bound) where
  value := by
    rintro n _ ⟨-, rfl⟩
    exact Json.isValue_digits n
  piece taken := by
    obtain ⟨range, -, a, text, blanks⟩ := (Json.readNatBelow_iff h64).mp taken
    exact ⟨a, _, text, blanks, range, rfl⟩
  again := by
    rintro n a _ r ⟨range, rfl⟩ blanks stop
    exact (Json.readNatBelow_iff h64).mpr ⟨range, stop, a, rfl, blanks⟩

/-! ### One member after the other -/

section Members

variable {α : Type} {shape : Shape α} {key : String} {draft last : α} {v : Bytes}
  {ms : List (String × Bytes)}

/-- A member that is no field changes nothing. -/
theorem admits_other_iff (unknown : shape.field? key = none) :
    shape.Admits draft ((key, v) :: ms) last ↔ shape.Admits draft ms last := by
  constructor
  · intro h
    cases h with
    | cons member more =>
      cases member with
      | field known => cases known.symm.trans unknown
      | other => exact more
  · exact .cons (.other unknown)

/-- A field takes its value into its place in the draft, if there is none yet. -/
theorem admits_field_iff {β : Type} (get : α → Option β) (set : α → β → α)
    {field : Json.Field α} {scan : Bytes → Json.Scan β} {means : β → Bytes → Prop}
    (known : shape.field? key = some field)
    (isSet : ∀ draft, field.isSet draft = (get draft).isSome)
    (read : ∀ draft s, field.read draft s = (scan s).map fun r => (set draft r.1, r.2))
    (meant : ∀ x, scan v = .ok (x, []) ↔ means x v) :
    shape.Admits draft ((key, v) :: ms) last ↔
      get draft = none ∧ ∃ x, means x v ∧ shape.Admits (set draft x) ms last := by
  constructor
  · intro h
    cases h with
    | cons member more =>
      cases member with
      | field known' unset mapped =>
        cases known.symm.trans known'
        rw [isSet, Option.isSome_eq_false_iff, Option.isNone_iff_eq_none] at unset
        rw [read] at mapped
        cases hScan : scan v with
        | error f =>
          rw [hScan] at mapped
          cases mapped
        | ok p =>
          obtain ⟨x, rest⟩ := p
          rw [hScan] at mapped
          cases mapped
          exact ⟨unset, x, (meant x).mp hScan, more⟩
      | other unknown => cases known.symm.trans unknown
  · rintro ⟨unset, x, hx, more⟩
    refine .cons (.field known ?_ ?_) more
    · rw [isSet, unset]
      rfl
    · rw [read, (meant x).mpr hx]
      rfl

end Members

/-! ### The kind on its own -/

namespace Kind

theorem regular_shape : ∀ field ∈ shape.fields, field.Regular := by
  intro field mem
  rw [List.mem_singleton.mp mem]
  exact (Json.reads_string _).regular fun _ _ => rfl

/-- Of the members of an object the kind is taken, once. -/
theorem admits_iff {ms : List (String × Bytes)} (values : ∀ m ∈ ms, IsValue m.2)
    {old last : Option String} :
    shape.Admits old ms last ↔ Slot Quotes old (valuesOf "kind" ms) last := by
  induction ms generalizing old with
  | nil =>
    constructor
    · intro h
      cases h
      rfl
    · rintro rfl
      exact .nil _
  | cons m ms ih =>
    obtain ⟨key, v⟩ := m
    have value : IsValue v := values _ List.mem_cons_self
    have ih {old : Option String} :
        shape.Admits old ms last ↔ Slot Quotes old (valuesOf "kind" ms) last :=
      ih fun m hm => values m (List.mem_cons_of_mem _ hm)
    rw [valuesOf_cons]
    split
    · rename_i kind
      subst kind
      rw [admits_field_iff id (fun _ x => some x) rfl (fun _ => rfl) (fun _ _ => rfl)
        fun x => (Json.reads_string _).read_value_iff value]
      simp only [ih, Slot, id]
    · rename_i other
      rw [admits_other_iff (by simp [Shape.field?, shape, Ne.symm other]), ih]

/-- A list gives a kind if it has one item, a string. -/
theorem readPositions_iff {items r : Bytes} {last : Option String} :
    shape.readPositions 0 shape.fields none items = .ok (last, r) ↔
      ∃ x b q c, items = b ++ (q ++ (c ++ 0x5D :: r)) ∧ Blanks b ∧ Quotes x q ∧ Blanks c ∧
        last = some x := by
  simp only [shape, Shape.readPositions, decide_true]
  constructor
  · intro h
    split at h
    · cases h
    · cases h
    rename_i rest item
    obtain ⟨a, blanks, whole⟩ := Json.exists_blanks items
    have text : Json.skipBlank items = rest := (Json.nextItem_first_iff.mp item).1
    split at h
    · cases h
    rename_i draft s read
    cases hRead : Json.readString "a string" rest with
    | error f =>
      rw [hRead] at read
      cases read
    | ok p =>
      obtain ⟨x, s⟩ := p
      rw [hRead] at read
      cases read
      obtain ⟨b, q, rfl, between, quotes⟩ := Json.readString_iff.mp hRead
      obtain ⟨⟨c, rfl, after⟩, rfl⟩ := Shape.closeList_iff.mp h
      refine ⟨x, a ++ b, q, c, ?_, blanks.append between, quotes, after, rfl⟩
      rw [List.append_assoc, ← text]
      exact whole
  · rintro ⟨x, b, q, c, rfl, before, ⟨text, rfl, spells⟩, after, rfl⟩
    have read : Json.readString "a string" (0x22 :: (text ++ [0x22]) ++ (c ++ 0x5D :: r))
        = .ok (x, c ++ 0x5D :: r) :=
      Json.readString_iff.mpr ⟨[], _, rfl, .nil, text, rfl, spells⟩
    have item : Json.nextItem true (b ++ (0x22 :: (text ++ [0x22]) ++ (c ++ 0x5D :: r)))
        = .ok (.item (0x22 :: (text ++ [0x22]) ++ (c ++ 0x5D :: r))) := by
      rw [Json.nextItem_first_iff, Json.skipBlank_append before, List.cons_append,
        Json.skipBlank_cons (by decide)]
      exact ⟨rfl, _, _, rfl, by decide⟩
    simp only [item, read, Except.map]
    exact Shape.closeList_iff.mpr ⟨⟨c, rfl, after⟩, rfl⟩

/-- The kind is read from an object with one such member, or from a list of one string. -/
theorem readTag_iff {line : Bytes} {k : String} :
    readTag line = .ok k ↔
      (∃ ms v, IsObject ms line ∧ valuesOf "kind" ms = [v] ∧ Quotes k v) ∨ IsListOf k line := by
  have whole : ∀ last : Option String, shape.missing? last = none ↔ last ≠ none := by
    intro last
    cases last <;> simp [Shape.missing?, shape]
  have read : readTag line = .ok k ↔
      ∃ last, Json.finish (shape.read none line) = .ok last ∧ last.getD "" = k := by
    rw [readTag]
    cases Json.finish (shape.read none line) with
    | error f => simp [Except.map]
    | ok last => simp [Except.map]
  rw [read]
  simp only [Shape.finish_read_iff regular_shape]
  constructor
  · rintro ⟨last, ⟨ms, object, admits, required⟩ | ⟨items, r, begins, positions, blanks⟩, rfl⟩
    · left
      rcases slot_none_iff.mp ((admits_iff object.isValue).mp admits) with
        ⟨-, rfl⟩ | ⟨v, x, one, quotes, rfl⟩
      · exact absurd rfl ((whole _).mp required)
      · exact ⟨ms, v, object, one, quotes⟩
    · right
      obtain ⟨x, b, q, c, rfl, before, quotes, after, rfl⟩ := readPositions_iff.mp positions
      obtain ⟨a, rfl, front⟩ := (Json.skipBlank_eq_cons_iff (by decide)).mp begins
      exact ⟨a, b, q, c, r, rfl, front, before, quotes, after, blanks⟩
  · rintro (⟨ms, v, object, one, quotes⟩ |
      ⟨a, b, q, c, d, rfl, front, before, quotes, after, blanks⟩)
    · have slot := slot_none_iff.mpr (.inr ⟨v, k, one, quotes, rfl⟩)
      have required : shape.missing? (some k) = none := (whole _).mpr (by simp)
      exact ⟨some k, .inl ⟨ms, object, (admits_iff object.isValue).mpr slot, required⟩, rfl⟩
    · exact ⟨some k, .inr ⟨_, d, (Json.skipBlank_eq_cons_iff (by decide)).mpr ⟨a, rfl, front⟩,
        readPositions_iff.mpr ⟨k, b, q, c, rfl, before, quotes, after, rfl⟩, blanks⟩, rfl⟩

end Kind

namespace Header

theorem regular_textField (key : String) (required : Bool) (get : Draft → Option String)
    (set : Draft → String → Draft) : (textField key required get set).Regular :=
  (Json.reads_string _).regular fun _ _ => rfl

theorem regular_numberField (key : String) {bound : Nat} (h64 : bound ≤ 2 ^ 64) (expected : String)
    (get : Draft → Option Nat) (set : Draft → Nat → Draft) :
    (numberField key bound expected get set).Regular :=
  (reads_natBelow h64 expected).regular fun _ _ => rfl

theorem regular_shape : ∀ field ∈ shape.fields, field.Regular := by
  intro field mem
  simp only [shape, List.mem_cons, List.not_mem_nil, or_false] at mem
  rcases mem with rfl | rfl | rfl | rfl | rfl
  · exact regular_numberField _ (by decide) _ _ _
  · exact regular_textField _ _ _ _
  · exact regular_textField _ _ _ _
  · exact regular_textField _ _ _ _
  · exact regular_numberField _ (by decide) _ _ _

/-- What the fields of a header hold after some members. -/
def Slots (old : Draft) (ms : List (String × Bytes)) (new : Draft) : Prop :=
  Slot (IsNatBelow UInt32.size) old.format (valuesOf "format" ms) new.format ∧
  Slot Quotes old.kind (valuesOf "kind" ms) new.kind ∧
  Slot Quotes old.contentType (valuesOf "content_type" ms) new.contentType ∧
  Slot Quotes old.contentEncoding (valuesOf "content_encoding" ms) new.contentEncoding ∧
  Slot (IsNatBelow UInt64.size) old.length (valuesOf "len" ms) new.length

/-- Every field of a header is taken at most once, and other members change nothing. -/
theorem admits_iff {ms : List (String × Bytes)} (values : ∀ m ∈ ms, IsValue m.2)
    {old last : Draft} : shape.Admits old ms last ↔ Slots old ms last := by
  induction ms generalizing old with
  | nil =>
    constructor
    · intro h
      cases h
      exact ⟨rfl, rfl, rfl, rfl, rfl⟩
    · rintro ⟨format, kind, contentType, contentEncoding, length⟩
      obtain rfl : last = old := by
        cases last
        cases old
        simp only [Slot, valuesOf, List.filter_nil, List.map_nil] at *
        simp only [*]
      exact .nil _
  | cons m ms ih =>
    obtain ⟨key, v⟩ := m
    have value : IsValue v := values _ List.mem_cons_self
    have ih {old : Draft} : shape.Admits old ms last ↔ Slots old ms last :=
      ih fun m hm => values m (List.mem_cons_of_mem _ hm)
    have text (x : String) : Json.readString "a string" v = .ok (x, []) ↔ Quotes x v :=
      (Json.reads_string _).read_value_iff value
    by_cases format : key = "format"
    · subst format
      rw [admits_field_iff Draft.format (fun d x => { d with format := some x }) rfl (fun _ => rfl)
        (fun _ _ => rfl) fun x => (reads_natBelow (by decide) _).read_value_iff value]
      simp only [ih, Slots, valuesOf_cons, String.reduceEq, if_true, if_false, Slot]
      grind
    by_cases kind : key = "kind"
    · subst kind
      rw [admits_field_iff Draft.kind (fun d x => { d with kind := some x }) rfl (fun _ => rfl)
        (fun _ _ => rfl) text]
      simp only [ih, Slots, valuesOf_cons, String.reduceEq, if_true, if_false, Slot]
      grind
    by_cases contentType : key = "content_type"
    · subst contentType
      rw [admits_field_iff Draft.contentType (fun d x => { d with contentType := some x }) rfl
        (fun _ => rfl) (fun _ _ => rfl) text]
      simp only [ih, Slots, valuesOf_cons, String.reduceEq, if_true, if_false, Slot]
      grind
    by_cases contentEncoding : key = "content_encoding"
    · subst contentEncoding
      rw [admits_field_iff Draft.contentEncoding (fun d x => { d with contentEncoding := some x })
        rfl (fun _ => rfl) (fun _ _ => rfl) text]
      simp only [ih, Slots, valuesOf_cons, String.reduceEq, if_true, if_false, Slot]
      grind
    by_cases length : key = "len"
    · subst length
      rw [admits_field_iff Draft.length (fun d x => { d with length := some x }) rfl (fun _ => rfl)
        (fun _ _ => rfl) fun x => (reads_natBelow (by decide) _).read_value_iff value]
      simp only [ih, Slots, valuesOf_cons, String.reduceEq, if_true, if_false, Slot]
      grind
    · have unknown : shape.field? key = none := by
        simp [Shape.field?, shape, textField, numberField, Ne.symm format, Ne.symm kind,
          Ne.symm contentType, Ne.symm contentEncoding, Ne.symm length]
      rw [admits_other_iff unknown, ih]
      simp only [Slots, valuesOf_cons, if_neg format, if_neg kind, if_neg contentType,
        if_neg contentEncoding, if_neg length]

/-- A label under a key, which is empty if the key is not there. -/
def IsLabel (key label : String) (ms : List (String × Bytes)) : Prop :=
  (valuesOf key ms = [] ∧ label = "") ∨ ∃ v, valuesOf key ms = [v] ∧ Quotes label v

/-- The members of an object give a header: each of its fields once, the labels at most once.
Members with other keys do not matter, and neither does the order. -/
structure Given (h : Header) (ms : List (String × Bytes)) : Prop where
  format : h.format < UInt32.size ∧ valuesOf "format" ms = [Decimal.digits h.format]
  kind : ∃ v, valuesOf "kind" ms = [v] ∧ Quotes h.kind v
  contentType : IsLabel "content_type" h.contentType ms
  contentEncoding : IsLabel "content_encoding" h.contentEncoding ms
  length : h.length < UInt64.size ∧ valuesOf "len" ms = [Decimal.digits h.length]

theorem IsLabel.perm {key label : String} {ms ms' : List (String × Bytes)}
    (h : IsLabel key label ms) (same : (valuesOf key ms).Perm (valuesOf key ms')) :
    IsLabel key label ms' := by
  rcases h with ⟨absent, empty⟩ | ⟨v, one, quotes⟩
  · rw [absent] at same
    exact .inl ⟨same.nil_eq.symm, empty⟩
  · rw [one] at same
    exact .inr ⟨v, List.perm_singleton.mp same.symm, quotes⟩

/-- The order of the members, and those that are no fields, do not matter. -/
theorem Given.perm {h : Header} {ms ms' : List (String × Bytes)} (given : h.Given ms)
    (same : (fieldsOf ms).Perm (fieldsOf ms')) : h.Given ms' := by
  have one {key : String} {v : Bytes} (field : (shape.field? key).isSome = true)
      (here : valuesOf key ms = [v]) : valuesOf key ms' = [v] := by
    have there := valuesOf_perm field same
    rw [here] at there
    exact List.perm_singleton.mp there.symm
  obtain ⟨v, kind, quotes⟩ := given.kind
  exact ⟨⟨given.format.1, one rfl given.format.2⟩, ⟨v, one rfl kind, quotes⟩,
    given.contentType.perm (valuesOf_perm rfl same),
    given.contentEncoding.perm (valuesOf_perm rfl same),
    ⟨given.length.1, one rfl given.length.2⟩⟩

theorem isLabel_iff {key label : String} {ms : List (String × Bytes)} :
    IsLabel key label ms ↔
      ∃ read : Option String, Slot Quotes none (valuesOf key ms) read ∧ read.getD "" = label := by
  simp only [slot_none_iff]
  constructor
  · rintro (⟨absent, rfl⟩ | ⟨v, one, quotes⟩)
    · exact ⟨none, .inl ⟨absent, rfl⟩, rfl⟩
    · exact ⟨some label, .inr ⟨v, label, one, quotes, rfl⟩, rfl⟩
  · rintro ⟨read, ⟨absent, rfl⟩ | ⟨v, x, one, quotes, rfl⟩, rfl⟩
    · exact .inl ⟨absent, rfl⟩
    · exact .inr ⟨v, one, quotes⟩

/-- A header is read from an object that gives it. -/
theorem read_iff {h : Header} {line : Bytes} {ms : List (String × Bytes)}
    (object : IsObject ms line) : read line = .ok h ↔ h.Given ms := by
  have whole (last : Draft) : shape.missing? last = none ↔
      last.format ≠ none ∧ last.kind ≠ none ∧ last.length ≠ none := by
    obtain ⟨format, kind, contentType, contentEncoding, length⟩ := last
    cases format <;> cases kind <;> cases length <;>
      simp [Shape.missing?, shape, textField, numberField]
  have drafts : read line = .ok h ↔
      ∃ last, (Slots .blank ms last ∧ shape.missing? last = none) ∧ last.complete = h := by
    have mapped : read line = .ok h ↔
        ∃ last, Json.finish (shape.read .blank line) = .ok last ∧ last.complete = h := by
      rw [read]
      cases Json.finish (shape.read .blank line) with
      | error f => simp [Except.map]
      | ok last => simp [Except.map]
    rw [mapped]
    refine exists_congr fun last => and_congr_left fun _ => ?_
    rw [Shape.finish_read_iff regular_shape, ← admits_iff object.isValue]
    constructor
    · rintro (⟨ms', object', admits, required⟩ | ⟨items, r, begins, -⟩)
      · rw [object.unique object']
        exact ⟨admits, required⟩
      · obtain ⟨rest, brace⟩ := object.skipBlank
        cases begins.symm.trans brace
    · rintro ⟨admits, required⟩
      exact .inl ⟨ms, object, admits, required⟩
  rw [drafts]
  constructor
  · rintro ⟨last, ⟨⟨format, kind, contentType, contentEncoding, length⟩, required⟩, rfl⟩
    obtain ⟨hasFormat, hasKind, hasLength⟩ := (whole last).mp required
    rcases slot_none_iff.mp format with ⟨-, absent⟩ | ⟨_, n, oneFormat, ⟨below, rfl⟩, readFormat⟩
    · exact absurd absent hasFormat
    rcases slot_none_iff.mp kind with ⟨-, absent⟩ | ⟨v, k, oneKind, quotes, readKind⟩
    · exact absurd absent hasKind
    rcases slot_none_iff.mp length with ⟨-, absent⟩ | ⟨_, l, oneLength, ⟨fits, rfl⟩, readLength⟩
    · exact absurd absent hasLength
    simp only [Draft.complete, readFormat, readKind, readLength, Option.getD_some]
    exact ⟨⟨below, oneFormat⟩, ⟨v, oneKind, quotes⟩, isLabel_iff.mpr ⟨_, contentType, rfl⟩,
      isLabel_iff.mpr ⟨_, contentEncoding, rfl⟩, fits, oneLength⟩
  · rintro ⟨⟨below, oneFormat⟩, ⟨v, oneKind, quotes⟩, contentType, contentEncoding, fits, oneLength⟩
    obtain ⟨type, slotType, readType⟩ := isLabel_iff.mp contentType
    obtain ⟨encoding, slotEncoding, readEncoding⟩ := isLabel_iff.mp contentEncoding
    refine ⟨⟨some h.format, some h.kind, type, encoding, some h.length⟩, ⟨⟨?_, ?_, slotType,
      slotEncoding, ?_⟩, (whole _).mpr (by simp)⟩, ?_⟩
    · exact slot_none_iff.mpr (.inr ⟨_, h.format, oneFormat, ⟨below, rfl⟩, rfl⟩)
    · exact slot_none_iff.mpr (.inr ⟨v, h.kind, oneKind, quotes, rfl⟩)
    · exact slot_none_iff.mpr (.inr ⟨_, h.length, oneLength, ⟨fits, rfl⟩, rfl⟩)
    · simp only [Draft.complete, readType, readEncoding, Option.getD_some]

/-- No header is read from a list that gives a kind. -/
theorem read_ne_of_isListOf {h : Header} {line : Bytes} {k : String} (list : IsListOf k line) :
    read line ≠ .ok h := by
  obtain ⟨a, b, q, c, d, rfl, front, before, ⟨text, rfl, -⟩, -, -⟩ := list
  -- The kind is a string, but the first field of a header is a number.
  have item : Json.nextItem true (b ++ 0x22 :: (text ++ [0x22] ++ (c ++ 0x5D :: d)))
      = .ok (.item (0x22 :: (text ++ [0x22] ++ (c ++ 0x5D :: d)))) := by
    rw [Json.nextItem, Json.skipBlank_append before, Json.skipBlank_cons (by decide)]
    rfl
  have noNumber (draft : Draft) (rest : Bytes) :
      (numberField "format" UInt32.size "u32" Draft.format
        fun d n => { d with format := some n }).read draft (0x22 :: rest)
        = .error (Json.mismatch "u32" (0x22 :: rest)) := by
    have quote : isBlank 0x22 = false := by decide
    simp only [numberField, Json.readNatBelow, Json.skipBlank_cons quote]
    rfl
  obtain ⟨fields, first⟩ : ∃ fields, shape.fields
      = (numberField "format" UInt32.size "u32" Draft.format
          fun d n => { d with format := some n }) :: fields := ⟨_, rfl⟩
  rw [read, Shape.read, Json.skipBlank_append front, Json.skipBlank_cons (by decide)]
  simp only [List.cons_append, if_neg (show ¬ (0x5B : UInt8) = 0x7B by decide), if_true, first,
    Shape.readPositions, decide_true, item, noNumber, Json.finish, Except.map]
  exact fun equal => by cases equal

end Header

end DiskQueue.Record
