/-
Module: DiskQueue.Proofs.JsonLists
Purpose: Which lists a record is read from.
Trusted boundary: none
Main exports:
  Json.IsList, Json.Shape.Holds, Json.Shape.Holds.unique, Json.Shape.finish_read_iff_holds
-/
import DiskQueue.Proofs.JsonReaders

namespace DiskQueue.Json

/-!
A list is given by the texts of its items. A record of which nothing is required is read from a
list as it is read from the object that has the same values under the keys of the fields, in their
order; a list may be shorter than the record, but not longer.
-/

/-- The rest of a list from before an item to its closing bracket. `first` tells that the bracket
before it was the last thing, so that no comma comes before the item. -/
inductive Items : Bool → List Bytes → Bytes → Prop where
  | closed {first : Bool} {a : Bytes} (before : Blanks a) : Items first [] (a ++ [0x5D])
  | item {v a s : Bytes} {vs : List Bytes} (before : Blanks a) (value : IsValue v)
      (more : Items false vs s) : Items true (v :: vs) (a ++ (v ++ s))
  | comma {v a s : Bytes} {vs : List Bytes} (before : Blanks a) (more : Items true (v :: vs) s) :
      Items false (v :: vs) (a ++ 0x2C :: s)

/-- A text is a list of values. -/
def IsList (vs : List Bytes) (text : Bytes) : Prop :=
  ∃ a s b, text = a ++ 0x5B :: (s ++ b) ∧ Blanks a ∧ Items true vs s ∧ Blanks b

/-! ### One item after the other -/

/-- No value begins with a closing bracket. -/
theorem IsValue.exists_open {v : Bytes} (h : IsValue v) :
    ∃ b rest, v = b :: rest ∧ isBlank b = false ∧ b ≠ 0x5D := by
  obtain ⟨b, rest, rfl, blank⟩ := h.exists_head
  refine ⟨b, rest, rfl, blank, ?_⟩
  rintro rfl
  have fails := h.2
  rw [Json.skipValue, Pending.finish_eq (by simp)] at fails
  simp [Pending.step, skipHead, skipBlank_cons blank, beginsNumeral, Decimal.isDigit] at fails

theorem nextItem_closed_iff {first : Bool} {s rest : Bytes} :
    nextItem first s = .ok (.closed rest) ↔ ∃ a, s = a ++ 0x5D :: rest ∧ Blanks a := by
  rw [← skipBlank_eq_cons_iff (by decide)]
  constructor
  · intro h
    unfold nextItem at h
    split at h
    · cases h
    · rename_i text
      split at h
      · rename_i bracket
        cases h
        rw [text, bracket]
      · repeat' split at h
        all_goals cases h
  · intro text
    simp only [nextItem, text, if_true]

theorem nextItem_first_iff {s t : Bytes} :
    nextItem true s = .ok (.item t) ↔ skipBlank s = t ∧ ∃ b rest, t = b :: rest ∧ b ≠ 0x5D := by
  constructor
  · intro h
    unfold nextItem at h
    split at h
    · cases h
    · rename_i b rest text
      split at h
      · cases h
      · rename_i noBracket
        cases h
        exact ⟨text, b, rest, rfl, noBracket⟩
  · rintro ⟨text, b, rest, rfl, noBracket⟩
    simp only [nextItem, text, if_neg noBracket, if_true]

theorem nextItem_later_iff {s t : Bytes} :
    nextItem false s = .ok (.item t) ↔
      ∃ a u, s = a ++ 0x2C :: u ∧ Blanks a ∧ nextItem true u = .ok (.item t) := by
  have comma (u : Bytes) : skipBlank s = 0x2C :: u ↔ ∃ a, s = a ++ 0x2C :: u ∧ Blanks a :=
    skipBlank_eq_cons_iff (by decide)
  constructor
  · intro h
    unfold nextItem at h
    split at h
    · cases h
    · rename_i b u text
      split at h
      · cases h
      · simp only [Bool.false_eq_true, if_false] at h
        split at h
        · rename_i isComma
          subst isComma
          obtain ⟨a, whole, blanks⟩ := (comma u).mp text
          refine ⟨a, u, whole, blanks, ?_⟩
          split at h
          · cases h
          · rename_i inner
            split at h
            · cases h
            · rename_i noBracket
              cases h
              exact nextItem_first_iff.mpr ⟨inner, _, _, rfl, noBracket⟩
        · cases h
  · rintro ⟨a, u, whole, blanks, item⟩
    have text := (comma u).mpr ⟨a, whole, blanks⟩
    obtain ⟨inner, b, rest, rfl, noBracket⟩ := nextItem_first_iff.mp item
    simp only [nextItem, text, inner, if_true, if_neg noBracket]
    rfl

/-- A closing bracket comes next where there are no items. -/
theorem items_nil_iff {first : Bool} {u r : Bytes} :
    (∃ s, u = s ++ r ∧ Items first [] s) ↔ nextItem first u = .ok (.closed r) := by
  rw [nextItem_closed_iff]
  constructor
  · rintro ⟨s, rfl, h⟩
    cases h with
    | @closed _ a before => exact ⟨a, by simp, before⟩
  · rintro ⟨a, rfl, before⟩
    exact ⟨a ++ [0x5D], by simp, .closed before⟩

/-- Where there is an item its value comes next, then the other items. -/
theorem items_cons_iff {first : Bool} {v u r : Bytes} {vs : List Bytes} :
    (∃ s, u = s ++ r ∧ Items first (v :: vs) s) ↔
      ∃ s, nextItem first u = .ok (.item (v ++ (s ++ r))) ∧ IsValue v ∧ Items false vs s := by
  have atFirst : ∀ {u : Bytes}, (∃ s, u = s ++ r ∧ Items true (v :: vs) s) ↔
      ∃ s, nextItem true u = .ok (.item (v ++ (s ++ r))) ∧ IsValue v ∧ Items false vs s := by
    intro u
    constructor
    · rintro ⟨s, rfl, h⟩
      cases h with
      | @item _ a s _ before value more =>
        obtain ⟨b, rest, rfl, blank, noBracket⟩ := value.exists_open
        refine ⟨s, nextItem_first_iff.mpr ⟨?_, b, _, rfl, noBracket⟩, value, more⟩
        rw [List.append_assoc, List.append_assoc, skipBlank_append before, List.cons_append,
          skipBlank_cons blank]
    · rintro ⟨s, item, value, more⟩
      obtain ⟨text, -⟩ := nextItem_first_iff.mp item
      obtain ⟨a, before, whole⟩ := exists_blanks u
      rw [text] at whole
      exact ⟨a ++ (v ++ s), by simpa using whole, .item before value more⟩
  cases first with
  | true => exact atFirst
  | false =>
    constructor
    · rintro ⟨s, rfl, h⟩
      cases h with
      | @comma _ a s _ before more =>
        obtain ⟨s', item, rest⟩ := atFirst.mp ⟨s, rfl, more⟩
        exact ⟨s', nextItem_later_iff.mpr ⟨a, s ++ r, by simp, before, item⟩, rest⟩
    · rintro ⟨s, item, rest⟩
      obtain ⟨a, u, rfl, before, item⟩ := nextItem_later_iff.mp item
      obtain ⟨s', rfl, more⟩ := atFirst.mpr ⟨s, item, rest⟩
      exact ⟨a ++ 0x2C :: s', by simp, .comma before more⟩

/-- What follows a value in a list cannot go on with a numeral. -/
theorem Items.endsNumeral {vs : List Bytes} {s : Bytes} (h : Items false vs s) (rest : Bytes) :
    EndsNumeral (s ++ rest) := by
  have behind : ∀ {a t : Bytes} {b : UInt8}, Blanks a → b = 0x5D ∨ b = 0x2C →
      EndsNumeral (a ++ b :: t) := by
    intro a t b blanks mark
    cases a with
    | nil => rcases mark with rfl | rfl <;> simp [EndsNumeral, Decimal.isDigit]
    | cons c a =>
      have blank := blanks c List.mem_cons_self
      simp only [isBlank, Bool.or_eq_true, decide_eq_true_eq] at blank
      rcases blank with ((rfl | rfl) | rfl) | rfl <;> simp [EndsNumeral, Decimal.isDigit]
  cases h with
  | closed before => simpa using behind (t := rest) before (.inl rfl)
  | comma before more => simpa using behind before (.inr rfl)

theorem Items.isValue {first : Bool} {vs : List Bytes} {s : Bytes} (h : Items first vs s) :
    ∀ v ∈ vs, IsValue v := by
  induction h with
  | closed => simp
  | item before value more ih => simpa using ⟨value, ih⟩
  | comma before more ih => exact ih

/-- The items that are left are found in one way only at the front of a text. -/
theorem Items.unique {first : Bool} {vs vs' : List Bytes} {s s' r r' : Bytes}
    (h : Items first vs s) (h' : Items first vs' s') (same : s ++ r = s' ++ r') : vs = vs' := by
  induction vs generalizing first vs' s s' with
  | nil =>
    have closed := items_nil_iff.mp ⟨s, (rfl : s ++ r = s ++ r), h⟩
    cases vs' with
    | nil => rfl
    | cons v' vs' =>
      obtain ⟨t, item, -⟩ := items_cons_iff.mp ⟨s', same, h'⟩
      cases closed.symm.trans item
  | cons v vs ih =>
    obtain ⟨t, item, value, more⟩ := items_cons_iff.mp ⟨s, (rfl : s ++ r = s ++ r), h⟩
    cases vs' with
    | nil => cases item.symm.trans (items_nil_iff.mp ⟨s', same, h'⟩)
    | cons v' vs' =>
      obtain ⟨t', item', value', more'⟩ := items_cons_iff.mp ⟨s', same, h'⟩
      have texts : v ++ (t ++ r) = v' ++ (t' ++ r') :=
        More.item.inj (Except.ok.inj (item.symm.trans item'))
      have left := value.skipValue .nil (more.endsNumeral r)
      have left' := value'.skipValue .nil (more'.endsNumeral r')
      rw [List.nil_append] at left left'
      rw [texts, left'] at left
      have rests : t ++ r = t' ++ r' := (Except.ok.inj left).symm
      rw [rests] at texts
      rw [List.append_cancel_right texts, ih more more' rests]

theorem IsList.unique {vs vs' : List Bytes} {text : Bytes} (h : IsList vs text)
    (h' : IsList vs' text) : vs = vs' := by
  obtain ⟨a, s, b, rfl, before, items, -⟩ := h
  obtain ⟨a', s', b', same, before', items', -⟩ := h'
  have inner : Json.skipBlank (a ++ 0x5B :: (s ++ b)) = 0x5B :: (s ++ b) := by
    rw [skipBlank_append before, skipBlank_cons (by decide)]
  rw [same, skipBlank_append before', skipBlank_cons (by decide)] at inner
  exact (items'.unique items (List.cons.inj inner).2).symm

/-- A text is a list if it begins with a bracket behind which items stand to its end. -/
theorem isList_iff {vs : List Bytes} {text : Bytes} :
    IsList vs text ↔ ∃ items s r, skipBlank text = 0x5B :: items ∧ items = s ++ r ∧
      Items true vs s ∧ Blanks r := by
  constructor
  · rintro ⟨a, s, r, rfl, before, items, after⟩
    exact ⟨s ++ r, s, r, (skipBlank_eq_cons_iff (by decide)).mpr ⟨a, rfl, before⟩, rfl, items,
      after⟩
  · rintro ⟨_, s, r, begins, rfl, items, after⟩
    obtain ⟨a, rfl, before⟩ := (skipBlank_eq_cons_iff (by decide)).mp begins
    exact ⟨a, s, r, rfl, before, items, after⟩

/-- No text is both a list and an object. -/
theorem IsList.not_isObject {vs : List Bytes} {text : Bytes} {ms : List (String × Bytes)}
    (h : IsList vs text) : ¬ IsObject ms text := by
  intro object
  obtain ⟨items, s, r, bracket, -⟩ := isList_iff.mp h
  obtain ⟨rest, brace⟩ := object.skipBlank
  rw [bracket] at brace
  cases brace

/-! ### Records -/

namespace Shape

variable {α : Type} {shape : Shape α}

/-- Some fields of a record are apart: each is found by its key, none is required, and reading
one of them does not fill another. -/
structure Apart (shape : Shape α) (fields : List (Field α)) : Prop where
  known : ∀ field ∈ fields, shape.field? field.key = some field
  optional : ∀ field ∈ fields, field.required = false
  separate : fields.Pairwise fun field other => ∀ {draft next : α} {s r : Bytes},
    field.read draft s = .ok (next, r) → other.isSet next = other.isSet draft

theorem Apart.tail {field : Field α} {fields : List (Field α)}
    (apart : shape.Apart (field :: fields)) : shape.Apart fields where
  known other mem := apart.known other (List.mem_cons_of_mem _ mem)
  optional other mem := apart.optional other (List.mem_cons_of_mem _ mem)
  separate := apart.separate.of_cons

/-- Nothing but blanks stands before the bracket that ends a list. -/
theorem closeList_iff {draft last : α} {s r : Bytes} :
    closeList draft s = .ok (last, r) ↔
      (∃ a, s = a ++ 0x5D :: r ∧ Blanks a) ∧ last = draft := by
  rw [← skipBlank_eq_cons_iff (by decide)]
  constructor
  · intro h
    unfold closeList at h
    split at h
    · cases h
    rename_i text
    split at h
    · rename_i bracket
      cases h
      exact ⟨by rw [text, bracket], rfl⟩
    · split at h <;> cases h
  · rintro ⟨text, rfl⟩
    simp only [closeList, text, if_true]

/-- A list is read as the object with its values under the keys of the fields. -/
theorem readPositions_iff {fields : List (Field α)} (regular : ∀ field ∈ fields, field.Regular)
    (apart : shape.Apart fields) {position : Nat} {draft last : α} {u r : Bytes}
    (unset : ∀ field ∈ fields, field.isSet draft = false) :
    shape.readPositions position fields draft u = .ok (last, r) ↔
      ∃ vs s, u = s ++ r ∧ Items (position = 0) vs s ∧ vs.length ≤ fields.length ∧
        shape.Admits draft ((fields.map Field.key).zip vs) last := by
  -- On the fields that are left; the items before them have filled none of these.
  induction fields generalizing position draft u with
  | nil =>
    rw [readPositions, closeList_iff, ← @nextItem_closed_iff (decide (position = 0)),
      ← items_nil_iff]
    constructor
    · rintro ⟨⟨s, rfl, items⟩, rfl⟩
      exact ⟨[], s, rfl, items, Nat.le_refl _, .nil _⟩
    · rintro ⟨vs, s, rfl, items, short, admits⟩
      rw [List.length_nil, Nat.le_zero, List.length_eq_zero_iff] at short
      subst short
      cases admits
      exact ⟨⟨s, rfl, items⟩, rfl⟩
  | cons field fields ih =>
    have noneRequired : firstRequired? (field :: fields) = none :=
      List.findIdx?_eq_none_iff.mpr apart.optional
    have here := regular field List.mem_cons_self
    have known := apart.known field List.mem_cons_self
    have clear := unset field List.mem_cons_self
    have rest : ∀ {next : α} {s r' t : Bytes}, field.read draft s = .ok (next, r') →
        (shape.readPositions (position + 1) fields next t = .ok (last, r) ↔
          ∃ vs s, t = s ++ r ∧ Items false vs s ∧ vs.length ≤ fields.length ∧
            shape.Admits next ((fields.map Field.key).zip vs) last) := by
      intro next s r' t read
      refine ih (fun other mem => regular other (List.mem_cons_of_mem _ mem)) apart.tail ?_
      intro other mem
      rw [(List.pairwise_cons.mp apart.separate).1 other mem read]
      exact unset other (List.mem_cons_of_mem _ mem)
    rw [readPositions]
    constructor
    · intro h
      split at h
      · cases h
      · rename_i closed
        rw [noneRequired] at h
        cases h
        obtain ⟨s, text, items⟩ := items_nil_iff.mpr closed
        exact ⟨[], s, text, items, Nat.zero_le _, .nil _⟩
      rename_i t item
      split at h
      · cases h
      rename_i next left read
      obtain ⟨vs, s, rfl, more, short, admits⟩ := (rest read).mp h
      obtain ⟨c, v, text, blanks, value, whole⟩ := here.piece read
      -- No blanks stand before an item that has been found.
      have front : t = v ++ (s ++ r) := by
        have bare : skipBlank t = t := by
          cases hFirst : decide (position = 0) with
          | true =>
            rw [hFirst] at item
            rw [← (nextItem_first_iff.mp item).1]
            exact List.dropWhile_idempotent _ _
          | false =>
            rw [hFirst] at item
            obtain ⟨_, u, -, -, inner⟩ := nextItem_later_iff.mp item
            rw [← (nextItem_first_iff.mp inner).1]
            exact List.dropWhile_idempotent _ _
        obtain ⟨b, v', rfl, blank⟩ := value.exists_head
        rw [← bare, text, skipBlank_append blanks, List.cons_append, skipBlank_cons blank]
      rw [front] at item
      obtain ⟨s', text', items⟩ := items_cons_iff.mpr ⟨s, item, value, more⟩
      exact ⟨v :: vs, s', text', items, Nat.succ_le_succ short,
        .cons (.field known clear whole) admits⟩
    · rintro ⟨vs, s, rfl, items, short, admits⟩
      cases vs with
      | nil =>
        cases admits
        simp only [items_nil_iff.mp ⟨s, rfl, items⟩, noneRequired]
      | cons v vs =>
        obtain ⟨s', item, value, more⟩ := items_cons_iff.mp ⟨s, (rfl : s ++ r = s ++ r), items⟩
        cases admits with
        | @cons _ next _ _ _ _ member later =>
          cases member with
          | @field field' _ known' _ read =>
            cases known.symm.trans known'
            have again := here.again read .nil (more.endsNumeral r)
            rw [List.nil_append] at again
            simp only [item, again]
            exact (rest again).mpr ⟨vs, s', rfl, more, Nat.le_of_succ_le_succ short, later⟩
          | other unknown => cases known.symm.trans unknown

/-- The members that a text holds for a record: those of an object, or the items of a list under
the keys of the fields. -/
inductive Holds (shape : Shape α) (text : Bytes) : List (String × Bytes) → Prop where
  | object {ms : List (String × Bytes)} (object : IsObject ms text) : shape.Holds text ms
  | list {vs : List Bytes} (list : IsList vs text) (short : vs.length ≤ shape.fields.length) :
      shape.Holds text ((shape.fields.map Field.key).zip vs)

theorem Holds.isValue {text : Bytes} {ms : List (String × Bytes)} (h : shape.Holds text ms) :
    ∀ m ∈ ms, IsValue m.2 := by
  cases h with
  | object object => exact object.isValue
  | list list short =>
    obtain ⟨a, s, b, -, -, items, -⟩ := list
    rintro ⟨key, v⟩ mem
    exact items.isValue v (List.of_mem_zip mem).2

/-- A text holds its members in one way only. -/
theorem Holds.unique {text : Bytes} {ms ms' : List (String × Bytes)} (h : shape.Holds text ms)
    (h' : shape.Holds text ms') : ms = ms' := by
  cases h with
  | object object =>
    cases h' with
    | object object' => exact object.unique object'
    | list list' => exact absurd object list'.not_isObject
  | list list =>
    cases h' with
    | object object' => exact absurd object' list.not_isObject
    | list list' => rw [list.unique list']

/-- A record of which nothing is required is read from the members that a text holds, if it takes
them one after the other. -/
theorem finish_read_iff_holds (regular : ∀ field ∈ shape.fields, field.Regular)
    (apart : shape.Apart shape.fields) {draft last : α} {text : Bytes}
    (unset : ∀ field ∈ shape.fields, field.isSet draft = false) :
    finish (shape.read draft text) = .ok last ↔
      ∃ ms, shape.Holds text ms ∧ shape.Admits draft ms last := by
  have whole : shape.missing? last = none := by
    rw [missing?, Option.map_eq_none_iff, List.find?_eq_none]
    intro field mem
    simp [apart.optional field mem]
  rw [finish_read_iff regular]
  constructor
  · rintro (⟨ms, object, admits, -⟩ | ⟨items, r, begins, read, blanks⟩)
    · exact ⟨ms, .object object, admits⟩
    · obtain ⟨vs, s, rfl, items, short, admits⟩ := (readPositions_iff regular apart unset).mp read
      exact ⟨_, .list (isList_iff.mpr ⟨_, s, r, begins, rfl, items, blanks⟩) short, admits⟩
  · rintro ⟨ms, object | ⟨list, short⟩, admits⟩
    · exact .inl ⟨ms, object, admits, whole⟩
    · obtain ⟨_, s, r, begins, rfl, items, blanks⟩ := isList_iff.mp list
      exact .inr ⟨_, r, begins,
        (readPositions_iff regular apart unset).mpr ⟨_, s, rfl, items, short, admits⟩, blanks⟩

end Shape

end DiskQueue.Json
