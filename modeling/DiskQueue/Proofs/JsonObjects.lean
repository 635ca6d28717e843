/-
Module: DiskQueue.Proofs.JsonObjects
Purpose: Which objects a record is read from.
Trusted boundary: none
Main exports:
  Json.IsObject, Json.IsObject.unique, Json.Shape.Admits, Json.Shape.finish_read_iff
-/
import DiskQueue.Proofs.JsonGrammar

namespace DiskQueue.Json

/-!
An object is given by its members: their keys, with escapes resolved, and the texts of their
values. No text is an object in two ways. A record is read from an object if its members can be
taken one after the other, each of them as a field that was not there before or as no field at all.
-/

/-- The rest of an object from before a member to its closing brace. `first` tells that the brace
before it was the last thing, so that no comma comes before the member. -/
inductive Members : Bool → List (String × Bytes) → Bytes → Prop where
  | closed {first : Bool} {a : Bytes} (before : Blanks a) : Members first [] (a ++ [0x7D])
  | member {key : String} {k v a b c s : Bytes} {ms : List (String × Bytes)} (before : Blanks a)
      (name : Quotes key k) (between : Blanks b) (after : Blanks c) (value : IsValue v)
      (more : Members false ms s) :
      Members true ((key, v) :: ms) (a ++ (k ++ (b ++ 0x3A :: (c ++ (v ++ s)))))
  | comma {m : String × Bytes} {a s : Bytes} {ms : List (String × Bytes)} (before : Blanks a)
      (more : Members true (m :: ms) s) : Members false (m :: ms) (a ++ 0x2C :: s)

/-- A text is an object with the given members. -/
def IsObject (ms : List (String × Bytes)) (text : Bytes) : Prop :=
  ∃ a s b, text = a ++ 0x7B :: (s ++ b) ∧ Blanks a ∧ Members true ms s ∧ Blanks b

/-- A text is a list whose one item is a string. -/
def IsListOf (x : String) (text : Bytes) : Prop :=
  ∃ a b q c d, text = a ++ 0x5B :: (b ++ (q ++ (c ++ 0x5D :: d))) ∧
    Blanks a ∧ Blanks b ∧ Quotes x q ∧ Blanks c ∧ Blanks d

/-! ### One member after the other

What stands in a text before a given rest, told by the scanners that come upon it. -/

theorem scanColon_iff {s rest : Bytes} :
    scanColon s = .ok rest ↔ ∃ a, s = a ++ 0x3A :: rest ∧ Blanks a := by
  rw [← skipBlank_eq_cons_iff (by decide)]
  constructor
  · intro h
    unfold scanColon at h
    split at h
    · cases h
    · rename_i text
      split at h
      · rename_i colon
        cases h
        rw [text, colon]
      · cases h
  · intro text
    simp only [scanColon, text, if_true]

theorem nextKey_closed_iff {first : Bool} {s rest : Bytes} :
    nextKey first s = .ok (.closed rest) ↔ ∃ a, s = a ++ 0x7D :: rest ∧ Blanks a := by
  rw [← skipBlank_eq_cons_iff (by decide)]
  constructor
  · intro h
    unfold nextKey at h
    split at h
    · cases h
    · rename_i text
      split at h
      · rename_i brace
        cases h
        rw [text, brace]
      · repeat' split at h
        all_goals cases h
  · intro text
    simp only [nextKey, text, if_true]

theorem nextKey_first_iff {s rest : Bytes} :
    nextKey true s = .ok (.item rest) ↔ ∃ a, s = a ++ 0x22 :: rest ∧ Blanks a := by
  rw [← skipBlank_eq_cons_iff (by decide)]
  constructor
  · intro h
    unfold nextKey at h
    split at h
    · cases h
    · rename_i text
      split at h
      · cases h
      · simp only [if_true] at h
        split at h
        · rename_i quote
          cases h
          rw [text, quote]
        · cases h
  · intro text
    simp only [nextKey, text, if_true]
    rfl

theorem nextKey_later_iff {s rest : Bytes} :
    nextKey false s = .ok (.item rest) ↔
      ∃ a t, s = a ++ 0x2C :: t ∧ Blanks a ∧ nextKey true t = .ok (.item rest) := by
  have comma (t : Bytes) : skipBlank s = 0x2C :: t ↔ ∃ a, s = a ++ 0x2C :: t ∧ Blanks a :=
    skipBlank_eq_cons_iff (by decide)
  constructor
  · intro h
    unfold nextKey at h
    split at h
    · cases h
    · rename_i b t text
      split at h
      · cases h
      · simp only [Bool.false_eq_true, if_false] at h
        split at h
        · rename_i isComma
          subst isComma
          obtain ⟨a, whole, blanks⟩ := (comma t).mp text
          refine ⟨a, t, whole, blanks, ?_⟩
          split at h
          · cases h
          · rename_i inner
            split at h
            · rename_i quote
              cases h
              rw [quote] at inner
              exact nextKey_first_iff.mpr ((skipBlank_eq_cons_iff (by decide)).mp inner)
            · split at h <;> cases h
        · cases h
  · rintro ⟨a, t, whole, blanks, item⟩
    have text := (comma t).mpr ⟨a, whole, blanks⟩
    have inner := (skipBlank_eq_cons_iff (by decide)).mpr (nextKey_first_iff.mp item)
    simp only [nextKey, text, inner, if_true]
    rfl

/-- A closing brace comes next where there are no members. -/
theorem members_nil_iff {first : Bool} {u r : Bytes} :
    (∃ s, u = s ++ r ∧ Members first [] s) ↔ nextKey first u = .ok (.closed r) := by
  rw [nextKey_closed_iff]
  constructor
  · rintro ⟨s, rfl, h⟩
    cases h with
    | @closed _ a before => exact ⟨a, by simp, before⟩
  · rintro ⟨a, rfl, before⟩
    exact ⟨a ++ [0x7D], by simp, .closed before⟩

/-- A key comes next where there is a member, then a colon, the value, and the other members. -/
theorem members_cons_iff {first : Bool} {key : String} {v u r : Bytes}
    {ms : List (String × Bytes)} :
    (∃ s, u = s ++ r ∧ Members first ((key, v) :: ms) s) ↔
      ∃ text w c s, nextKey first u = .ok (.item text) ∧ scanString text = .ok (key, w) ∧
        scanColon w = .ok (c ++ (v ++ (s ++ r))) ∧ Blanks c ∧ IsValue v ∧ Members false ms s := by
  have atFirst : ∀ {u : Bytes}, (∃ s, u = s ++ r ∧ Members true ((key, v) :: ms) s) ↔
      ∃ text w c s, nextKey true u = .ok (.item text) ∧ scanString text = .ok (key, w) ∧
        scanColon w = .ok (c ++ (v ++ (s ++ r))) ∧ Blanks c ∧ IsValue v ∧ Members false ms s := by
    intro u
    constructor
    · rintro ⟨s, rfl, h⟩
      cases h with
      | @member _ k _ a b c s _ before name between after value more =>
        obtain ⟨inner, rfl, spells⟩ := name
        exact ⟨inner ++ 0x22 :: (b ++ 0x3A :: (c ++ (v ++ (s ++ r)))),
          b ++ 0x3A :: (c ++ (v ++ (s ++ r))), c, s, nextKey_first_iff.mpr ⟨a, by simp, before⟩,
          scanString_iff.mpr ⟨inner, rfl, spells⟩, scanColon_iff.mpr ⟨b, rfl, between⟩, after,
          value, more⟩
    · rintro ⟨text, w, c, s, item, scanned, colon, after, value, more⟩
      obtain ⟨a, rfl, before⟩ := nextKey_first_iff.mp item
      obtain ⟨inner, rfl, spells⟩ := scanString_iff.mp scanned
      obtain ⟨b, rfl, between⟩ := scanColon_iff.mp colon
      exact ⟨_, by simp, .member before ⟨inner, rfl, spells⟩ between after value more⟩
  cases first with
  | true => exact atFirst
  | false =>
    constructor
    · rintro ⟨s, rfl, h⟩
      cases h with
      | @comma _ a s _ before more =>
        obtain ⟨text, w, c, s', item, rest⟩ := atFirst.mp ⟨s, rfl, more⟩
        exact ⟨text, w, c, s', nextKey_later_iff.mpr ⟨a, s ++ r, by simp, before, item⟩, rest⟩
    · rintro ⟨text, w, c, s, item, rest⟩
      obtain ⟨a, t, rfl, before, item⟩ := nextKey_later_iff.mp item
      obtain ⟨s', rfl, more⟩ := atFirst.mpr ⟨text, w, c, s, item, rest⟩
      exact ⟨a ++ 0x2C :: s', by simp, .comma before more⟩

/-- Every member takes a byte at least, and the closing brace another one. -/
theorem Members.length_lt {first : Bool} {ms : List (String × Bytes)} {s : Bytes}
    (h : Members first ms s) : ms.length < s.length := by
  induction h with
  | closed before => simp
  | member before name between after value more ih =>
    simp only [List.length_append, List.length_cons] at ih ⊢
    omega
  | comma before more ih =>
    simp only [List.length_append, List.length_cons] at ih ⊢
    omega

theorem Members.isValue {first : Bool} {ms : List (String × Bytes)} {s : Bytes}
    (h : Members first ms s) : ∀ m ∈ ms, IsValue m.2 := by
  induction h with
  | closed before => simp
  | member before name between after value more ih => simpa using ⟨value, by simpa using ih⟩
  | comma before more ih => exact ih

/-- The values of an object have no blanks around them. -/
theorem IsObject.isValue {ms : List (String × Bytes)} {text : Bytes} (h : IsObject ms text) :
    ∀ m ∈ ms, IsValue m.2 := by
  obtain ⟨a, s, b, -, -, members, -⟩ := h
  exact members.isValue

/-- An object begins with its opening brace. -/
theorem IsObject.skipBlank {ms : List (String × Bytes)} {text : Bytes} (h : IsObject ms text) :
    ∃ rest, skipBlank text = 0x7B :: rest := by
  obtain ⟨a, s, b, rfl, before, -, -⟩ := h
  exact ⟨s ++ b, (skipBlank_eq_cons_iff (by decide)).mpr ⟨a, rfl, before⟩⟩

/-! ### Unambiguity -/

/-- What follows a value in an object cannot go on with a numeral. -/
theorem Members.endsNumeral {ms : List (String × Bytes)} {s : Bytes} (h : Members false ms s)
    (rest : Bytes) : EndsNumeral (s ++ rest) := by
  have blank : ∀ {b : UInt8} {t : Bytes}, isBlank b = true → EndsNumeral (b :: t) := by
    intro b t hb
    simp only [isBlank, Bool.or_eq_true, decide_eq_true_eq] at hb
    rcases hb with ((rfl | rfl) | rfl) | rfl <;> simp [EndsNumeral, Decimal.isDigit]
  cases h with
  | @closed _ a before =>
    cases a with
    | nil => exact endsNumeral_brace _
    | cons b a => exact blank (before b List.mem_cons_self)
  | @comma m a s ms before more =>
    cases a with
    | nil => exact endsNumeral_comma _
    | cons b a => exact blank (before b List.mem_cons_self)

/-- A value is the same in both, if what follows it is. -/
theorem IsValue.unique {c c' v v' rest : Bytes} (h : IsValue v) (h' : IsValue v')
    (blanks : Blanks c) (blanks' : Blanks c') (same : c ++ (v ++ rest) = c' ++ (v' ++ rest)) :
    v = v' := by
  rw [← List.append_assoc, ← List.append_assoc] at same
  have before : c ++ v = c' ++ v' := List.append_cancel_right same
  have bare := skipBlank_append blanks v
  rw [before, skipBlank_append blanks', h.1, h'.1] at bare
  exact bare.symm

/-- The rest of an object is found in one way only at the front of a text. -/
theorem Members.unique {first : Bool} {ms ms' : List (String × Bytes)} {s s' r r' : Bytes}
    (h : Members first ms s) (h' : Members first ms' s') (same : s ++ r = s' ++ r') :
    ms = ms' ∧ r = r' := by
  induction ms generalizing first ms' s s' with
  | nil =>
    have closed : nextKey first (s ++ r) = .ok (.closed r) := members_nil_iff.mp ⟨s, rfl, h⟩
    cases ms' with
    | nil =>
      have closed' := members_nil_iff.mp ⟨s', same, h'⟩
      cases closed.symm.trans closed'
      exact ⟨rfl, rfl⟩
    | cons m' ms' =>
      obtain ⟨text, w, c, t, item, -⟩ := members_cons_iff.mp ⟨s', same, h'⟩
      cases closed.symm.trans item
  | cons m ms ih =>
    obtain ⟨key, v⟩ := m
    obtain ⟨text, w, c, t, item, scanned, colon, blanks, value, more⟩ :=
      members_cons_iff.mp ⟨s, (rfl : s ++ r = s ++ r), h⟩
    cases ms' with
    | nil => cases item.symm.trans (members_nil_iff.mp ⟨s', same, h'⟩)
    | cons m' ms' =>
      obtain ⟨key', v'⟩ := m'
      obtain ⟨text', w', c', t', item', scanned', colon', blanks', value', more'⟩ :=
        members_cons_iff.mp ⟨s', same, h'⟩
      cases item.symm.trans item'
      cases scanned.symm.trans scanned'
      have texts : c ++ (v ++ (t ++ r)) = c' ++ (v' ++ (t' ++ r')) :=
        Except.ok.inj (colon.symm.trans colon')
      have left := value.skipValue blanks (more.endsNumeral r)
      rw [texts, value'.skipValue blanks' (more'.endsNumeral r')] at left
      have rests : t ++ r = t' ++ r' := (Except.ok.inj left).symm
      rw [rests] at texts
      obtain rfl : v = v' := value.unique value' blanks blanks' texts
      obtain ⟨rfl, same⟩ := ih more more' rests
      exact ⟨rfl, same⟩

/-- A text is an object in one way only. -/
theorem IsObject.unique {ms ms' : List (String × Bytes)} {text : Bytes} (h : IsObject ms text)
    (h' : IsObject ms' text) : ms = ms' := by
  obtain ⟨a, s, b, rfl, before, members, -⟩ := h
  obtain ⟨a', s', b', same, before', members', -⟩ := h'
  have brace (t : Bytes) : Json.skipBlank (a ++ 0x7B :: (s ++ b)) = 0x7B :: t ↔
      ∃ c, a ++ 0x7B :: (s ++ b) = c ++ 0x7B :: t ∧ Blanks c := skipBlank_eq_cons_iff (by decide)
  have inner := (brace _).mpr ⟨a, rfl, before⟩
  rw [(brace _).mpr ⟨a', same, before'⟩, List.cons.injEq] at inner
  exact (members.unique members' inner.2.symm).1

/-! ### Records -/

variable {α : Type}

/-- A member that a record takes: a field that was not there before, or no field at all. -/
inductive Shape.AdmitsMember (shape : Shape α) (draft : α) (key : String) (v : Bytes) :
    α → Prop where
  | field {field : Field α} {next : α} (known : shape.field? key = some field)
      (unset : field.isSet draft = false) (read : field.read draft v = .ok (next, [])) :
      shape.AdmitsMember draft key v next
  | other (unknown : shape.field? key = none) : shape.AdmitsMember draft key v draft

/-- Members that a record takes one after the other, which turn one draft into another. -/
inductive Shape.Admits (shape : Shape α) : α → List (String × Bytes) → α → Prop where
  | nil (draft : α) : shape.Admits draft [] draft
  | cons {draft next last : α} {key : String} {v : Bytes} {ms : List (String × Bytes)}
      (member : shape.AdmitsMember draft key v next) (more : shape.Admits next ms last) :
      shape.Admits draft ((key, v) :: ms) last

/-- A field whose value is a piece of a text like any value, and is read alike wherever it
stands. -/
structure Field.Regular (field : Field α) : Prop where
  piece : ∀ {draft next : α} {s r : Bytes}, field.read draft s = .ok (next, r) →
    ∃ a v, s = a ++ (v ++ r) ∧ Blanks a ∧ IsValue v ∧ field.read draft v = .ok (next, [])
  again : ∀ {draft next : α} {a v r : Bytes}, field.read draft v = .ok (next, []) → Blanks a →
    EndsNumeral r → field.read draft (a ++ (v ++ r)) = .ok (next, r)

namespace Shape

variable {shape : Shape α}

/-- A member is read if the record takes it. -/
theorem exists_admitsMember (regular : ∀ field ∈ shape.fields, field.Regular) {draft next : α}
    {key : String} {w r : Bytes} (h : shape.readMember draft key w = .ok (next, r)) :
    ∃ c v, scanColon w = .ok (c ++ (v ++ r)) ∧ Blanks c ∧ IsValue v ∧
      shape.AdmitsMember draft key v next := by
  unfold Shape.readMember at h
  split at h
  · rename_i field known
    split at h
    · cases h
    rename_i unset
    split at h
    · cases h
    rename_i rest colon
    obtain ⟨c, v, rfl, blanks, value, read⟩ :=
      (regular field (List.mem_of_find?_eq_some known)).piece h
    exact ⟨c, v, colon, blanks, value, .field known (by simpa using unset) read⟩
  · rename_i unknown
    split at h
    · cases h
    rename_i rest colon
    cases hSkip : skipValue rest with
    | error f =>
      rw [hSkip] at h
      cases h
    | ok r =>
      rw [hSkip] at h
      cases h
      obtain ⟨c, v, rfl, blanks, value⟩ := exists_value hSkip
      exact ⟨c, v, colon, blanks, value, .other unknown⟩

theorem AdmitsMember.readMember (regular : ∀ field ∈ shape.fields, field.Regular) {draft next : α}
    {key : String} {c v w r : Bytes} (h : shape.AdmitsMember draft key v next)
    (colon : scanColon w = .ok (c ++ (v ++ r))) (blanks : Blanks c) (value : IsValue v)
    (stop : EndsNumeral r) : shape.readMember draft key w = .ok (next, r) := by
  cases h with
  | @field field next known unset read =>
    have again := (regular field (List.mem_of_find?_eq_some known)).again read blanks stop
    simp only [Shape.readMember, known, unset, Bool.false_eq_true, if_false, colon, again]
  | other unknown =>
    simp only [Shape.readMember, unknown, colon, value.skipValue blanks stop]
    rfl

/-- Members are read if the record takes them one after the other. -/
theorem exists_admits (regular : ∀ field ∈ shape.fields, field.Regular) {fuel : Nat} {first : Bool}
    {draft last : α} {u r : Bytes} (h : shape.readMembers fuel first draft u = .ok (last, r)) :
    ∃ ms s, u = s ++ r ∧ Members first ms s ∧ shape.Admits draft ms last := by
  induction fuel generalizing first draft u with
  | zero => cases h
  | succ fuel ih =>
    rw [Shape.readMembers] at h
    split at h
    · cases h
    · rename_i rest closed
      cases h
      obtain ⟨s, text, members⟩ := members_nil_iff.mpr closed
      exact ⟨[], s, text, members, .nil _⟩
    · rename_i text item
      split at h
      · cases h
      rename_i key w scanned
      split at h
      · cases h
      rename_i next rest member
      obtain ⟨c, v, colon, blanks, value, admitted⟩ := exists_admitsMember regular member
      obtain ⟨ms, s, rfl, more, admits⟩ := ih h
      obtain ⟨s', text, members⟩ :=
        members_cons_iff.mpr ⟨_, w, c, s, item, scanned, colon, blanks, value, more⟩
      exact ⟨(key, v) :: ms, s', text, members, .cons admitted admits⟩

theorem Admits.readMembers (regular : ∀ field ∈ shape.fields, field.Regular) {draft last : α}
    {ms : List (String × Bytes)} (h : shape.Admits draft ms last) {fuel : Nat}
    (enough : ms.length < fuel) {first : Bool} {s : Bytes} (members : Members first ms s)
    (r : Bytes) : shape.readMembers fuel first draft (s ++ r) = .ok (last, r) := by
  induction h generalizing fuel first s with
  | nil draft =>
    obtain ⟨fuel, rfl⟩ := Nat.exists_eq_add_of_lt enough
    have closed : nextKey first (s ++ r) = .ok (.closed r) := members_nil_iff.mp ⟨s, rfl, members⟩
    simp only [Shape.readMembers, closed]
  | @cons draft next last key v ms member more ih =>
    obtain ⟨fuel, rfl⟩ := Nat.exists_eq_add_of_lt enough
    obtain ⟨text, w, c, t, item, scanned, colon, blanks, value, members⟩ :=
      members_cons_iff.mp ⟨s, (rfl : s ++ r = s ++ r), members⟩
    have read := member.readMember regular colon blanks value (members.endsNumeral r)
    simp only [Shape.readMembers, item, scanned, read]
    exact ih (by simp; omega) members

theorem readObject_iff (regular : ∀ field ∈ shape.fields, field.Regular) {draft last : α}
    {u r : Bytes} :
    shape.readObject draft u = .ok (last, r) ↔
      ∃ ms s, u = s ++ r ∧ Members true ms s ∧ shape.Admits draft ms last ∧
        shape.missing? last = none := by
  constructor
  · intro h
    unfold Shape.readObject at h
    split at h
    · cases h
    rename_i read
    split at h
    · cases h
    rename_i whole
    cases h
    obtain ⟨ms, s, text, members, admits⟩ := exists_admits regular read
    exact ⟨ms, s, text, members, admits, whole⟩
  · rintro ⟨ms, s, rfl, members, admits, whole⟩
    have enough : ms.length < (s ++ r).length + 1 := by
      have := members.length_lt
      rw [List.length_append]
      omega
    simp only [Shape.readObject, admits.readMembers regular enough members, whole]

/-- A record is read from a text that is an object whose members it takes, with all that it
requires; or else from a text that is a list. -/
theorem finish_read_iff (regular : ∀ field ∈ shape.fields, field.Regular) {draft last : α}
    {text : Bytes} :
    finish (shape.read draft text) = .ok last ↔
      (∃ ms, IsObject ms text ∧ shape.Admits draft ms last ∧ shape.missing? last = none) ∨
      ∃ items r, skipBlank text = 0x5B :: items ∧
        shape.readPositions 0 shape.fields draft items = .ok (last, r) ∧ Blanks r := by
  have finish_iff : ∀ {scan : Scan α},
      finish scan = .ok last ↔ ∃ r, scan = .ok (last, r) ∧ Blanks r := by
    intro scan
    constructor
    · intro h
      unfold finish at h
      split at h
      · cases h
      split at h
      · rename_i blanks
        cases h
        exact ⟨_, rfl, skipBlank_eq_nil_iff.mp blanks⟩
      · cases h
    · rintro ⟨r, rfl, blanks⟩
      simp only [finish, if_pos (skipBlank_eq_nil_iff.mpr blanks)]
  rw [finish_iff]
  constructor
  · rintro ⟨r, read, blanks⟩
    unfold Shape.read at read
    split at read
    · cases read
    rename_i b rest begins
    split at read
    · rename_i brace
      subst brace
      obtain ⟨ms, s, rfl, members, admits, whole⟩ := (readObject_iff regular).mp read
      obtain ⟨a, rfl, before⟩ := (skipBlank_eq_cons_iff (by decide)).mp begins
      exact .inl ⟨ms, ⟨a, s, r, rfl, before, members, blanks⟩, admits, whole⟩
    split at read
    · rename_i bracket
      subst bracket
      exact .inr ⟨rest, r, begins, read, blanks⟩
    · cases read
  · rintro (⟨ms, ⟨a, s, b, rfl, before, members, after⟩, admits, whole⟩ |
      ⟨items, r, begins, read, after⟩)
    · refine ⟨b, ?_, after⟩
      rw [Shape.read, skipBlank_append before, skipBlank_cons (by decide)]
      exact (readObject_iff regular).mpr ⟨ms, s, rfl, members, admits, whole⟩
    · refine ⟨r, ?_, after⟩
      simp only [Shape.read, begins]
      exact read

end Shape

end DiskQueue.Json
