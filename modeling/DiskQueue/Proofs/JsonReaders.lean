/-
Module: DiskQueue.Proofs.JsonReaders
Purpose: Readers of one value, told by what the text of a value means to them.
Trusted boundary: none
Main exports:
  Json.Reads, Json.Reads.regular, Json.reads_string, Json.reads_optional, Json.reads_name
-/
import DiskQueue.Json.Name
import DiskQueue.Proofs.JsonObjects

namespace DiskQueue.Json

/-!
A reader takes the blanks before a value and the text of the value, and what it makes of that
text does not depend on what stands around it. So a reader is known once it is known which texts
it takes for which values.
-/

section Reads

variable {α β : Type} {read : Bytes → Scan β} {means : β → Bytes → Prop}

/-- A reader of texts that mean something: it takes such a text behind blanks and before what
cannot go on with a numeral, and it takes nothing else. -/
structure Reads (read : Bytes → Scan β) (means : β → Bytes → Prop) : Prop where
  value : ∀ {x : β} {v : Bytes}, means x v → IsValue v
  piece : ∀ {x : β} {s r : Bytes}, read s = .ok (x, r) →
    ∃ a v, s = a ++ (v ++ r) ∧ Blanks a ∧ means x v
  again : ∀ {x : β} {a v r : Bytes}, means x v → Blanks a → EndsNumeral r →
    read (a ++ (v ++ r)) = .ok (x, r)

theorem endsNumeral_nil : EndsNumeral [] := by simp [EndsNumeral]

/-- A value begins with a byte that is no blank. -/
theorem IsValue.exists_head {v : Bytes} (h : IsValue v) :
    ∃ b rest, v = b :: rest ∧ isBlank b = false := by
  cases v with
  | nil =>
    have fails := h.2
    rw [Json.skipValue, Pending.finish_eq (by simp)] at fails
    cases fails
  | cons b rest => exact ⟨b, rest, rfl, isBlank_of_skipBlank h.1⟩

/-- Blanks before a value are not a part of it. -/
theorem IsValue.eq_of_blanks {a v w : Bytes} (value : IsValue v) (value' : IsValue w)
    (blanks : Blanks a) (same : v = a ++ w) : v = w := by
  rw [← value.1, same, skipBlank_append blanks, value'.1]

/-- A text that is a value is read whole for what it means. -/
theorem Reads.read_value_iff (h : Reads read means) {v : Bytes} (value : IsValue v) {x : β} :
    read v = .ok (x, []) ↔ means x v := by
  constructor
  · intro taken
    obtain ⟨a, w, text, blanks, meant⟩ := h.piece taken
    rw [List.append_nil] at text
    rw [value.eq_of_blanks (h.value meant) blanks text]
    exact meant
  · intro meant
    simpa using h.again (r := []) meant Blanks.nil endsNumeral_nil

/-- A field whose value such a reader takes is read alike wherever it stands. -/
theorem Reads.regular (h : Reads read means) {field : Field α} {set : α → β → α}
    (same : ∀ draft s, field.read draft s = (read s).map fun r => (set draft r.1, r.2)) :
    field.Regular := by
  have mapped : ∀ {draft next : α} {s r : Bytes}, field.read draft s = .ok (next, r) ↔
      ∃ x, read s = .ok (x, r) ∧ next = set draft x := by
    intro draft next s r
    rw [same]
    cases hRead : read s with
    | error f => simp [Except.map]
    | ok p =>
      obtain ⟨x, rest⟩ := p
      constructor
      · rintro ⟨⟩
        exact ⟨x, rfl, rfl⟩
      · rintro ⟨_, ⟨⟩, rfl⟩
        rfl
  constructor
  · intro draft next s r taken
    obtain ⟨x, hRead, rfl⟩ := mapped.mp taken
    obtain ⟨a, v, text, blanks, meant⟩ := h.piece hRead
    have value := h.value meant
    exact ⟨a, v, text, blanks, value, mapped.mpr ⟨x, (h.read_value_iff value).mpr meant, rfl⟩⟩
  · intro draft next a v r taken blanks stop
    obtain ⟨x, hRead, rfl⟩ := mapped.mp taken
    obtain ⟨b, w, rfl, more, meant⟩ := h.piece hRead
    have read := h.again meant (blanks.append more) stop
    refine mapped.mpr ⟨x, ?_, rfl⟩
    simpa using read

theorem reads_string (expected : String) : Reads (readString expected) Quotes where
  value := Quotes.isValue
  piece := readString_iff.mp
  again quotes blanks _ := readString_iff.mpr ⟨_, _, rfl, blanks, quotes⟩

/-! ### Values that may be left out -/

theorem scanWord_iff {w s r : Bytes} : scanWord w s = .ok r ↔ s = w ++ r := by
  induction w generalizing s with
  | nil => simp [scanWord]
  | cons e w ih =>
    cases s with
    | nil => simp [scanWord]
    | cons b s =>
      by_cases same : b = e
      · simp [scanWord, same, ih]
      · simp [scanWord, same]

/-- The word for nothing. -/
def nullText : Bytes := 0x6E :: nullTail

theorem isValue_null : IsValue nullText := by
  refine ⟨by decide, skipValue_of_skipHead ?_⟩
  decide

/-- The word for nothing stands for nothing, any other text for what it means. -/
def OrNull (means : β → Bytes → Prop) : Option β → Bytes → Prop
  | none, v => v = nullText
  | some x, v => means x v

theorem reads_optional (h : Reads read means)
    (noNull : ∀ {x : β} {v : Bytes}, means x v → v.head? ≠ some 0x6E) :
    Reads (readOptional read) (OrNull means) where
  value := by
    rintro (_ | x) v meant
    · rw [show v = nullText from meant]
      exact isValue_null
    · exact h.value meant
  piece := by
    have present : ∀ {x : Option β} {s r : Bytes},
        ((read s).map fun r => (some r.1, r.2)) = .ok (x, r) →
        ∃ a v, s = a ++ (v ++ r) ∧ Blanks a ∧ OrNull means x v := by
      intro x s r taken
      cases hRead : read s with
      | error f =>
        rw [hRead] at taken
        cases taken
      | ok p =>
        rw [hRead] at taken
        cases taken
        exact h.piece hRead
    intro x s r taken
    unfold readOptional at taken
    dsimp only at taken
    split at taken
    · exact present taken
    rename_i b rest text
    split at taken
    · rename_i letter
      cases hWord : scanWord nullTail rest with
      | error f =>
        rw [hWord] at taken
        cases taken
      | ok r =>
        rw [hWord] at taken
        cases taken
        rw [scanWord_iff.mp hWord, letter] at text
        obtain ⟨a, whole, blanks⟩ := (skipBlank_eq_cons_iff (by decide)).mp text
        exact ⟨a, nullText, whole, blanks, rfl⟩
    · exact present taken
  again := by
    rintro (_ | x) a v r meant blanks stop
    · have word : scanWord nullTail (nullTail ++ r) = .ok r := scanWord_iff.mpr rfl
      rw [show v = nullText from meant, readOptional, skipBlank_append blanks, nullText,
        List.cons_append, skipBlank_cons (by decide)]
      simp only [if_true, word]
      rfl
    · have taken := h.again meant blanks stop
      obtain ⟨b, rest, rfl, blank⟩ := (h.value meant).exists_head
      have other : b ≠ 0x6E := by simpa using noNull meant
      have begins : skipBlank (a ++ (b :: rest ++ r)) = b :: (rest ++ r) := by
        rw [skipBlank_append blanks, List.cons_append, skipBlank_cons blank]
      simp only [readOptional, begins, if_neg other, taken]
      rfl

/-! ### Names -/

/-- How one of a number of names may be written: as a string, or as the only key of an object
in which nothing stands under it. -/
inductive IsNamed (names : List String) (x : String) : Bytes → Prop where
  | string {v : Bytes} (known : x ∈ names) (quotes : Quotes x v) : IsNamed names x v
  | object {a k b c d : Bytes} (known : x ∈ names) (before : Blanks a) (quotes : Quotes x k)
      (between : Blanks b) (after : Blanks c) (behind : Blanks d) :
      IsNamed names x
        (0x7B :: (a ++ (k ++ (b ++ 0x3A :: (c ++ (nullText ++ (d ++ [0x7D])))))))

theorem IsNamed.known {names : List String} {x : String} {v : Bytes} (h : IsNamed names x v) :
    x ∈ names := by
  cases h with
  | string known => exact known
  | object known => exact known

theorem scanUnitMember_iff {s r : Bytes} :
    scanUnitMember s = .ok r ↔
      ∃ b c d, s = b ++ 0x3A :: (c ++ (nullText ++ (d ++ 0x7D :: r))) ∧
        Blanks b ∧ Blanks c ∧ Blanks d := by
  have unit {s r : Bytes} : readUnit s = .ok r ↔ ∃ c, s = c ++ (nullText ++ r) ∧ Blanks c := by
    rw [show (∃ c, s = c ++ (nullText ++ r) ∧ Blanks c) ↔ skipBlank s = 0x6E :: (nullTail ++ r) from
      (skipBlank_eq_cons_iff (by decide)).symm]
    unfold readUnit
    split
    · simp_all
    · rename_i b rest text
      by_cases letter : b = 0x6E
      · simp [text, letter, scanWord_iff]
      · simp [text, letter]
  have close {s r : Bytes} : closeObject s = .ok r ↔ ∃ d, s = d ++ 0x7D :: r ∧ Blanks d := by
    rw [← skipBlank_eq_cons_iff (by decide)]
    unfold closeObject
    split
    · simp_all
    · rename_i b rest text
      by_cases brace : b = 0x7D
      · simp [text, brace]
      · simp [text, brace]
  have steps : scanUnitMember s = .ok r ↔
      ∃ t u, scanColon s = .ok t ∧ readUnit t = .ok u ∧ closeObject u = .ok r := by
    unfold scanUnitMember
    cases scanColon s with
    | error f => simp [bind, Except.bind]
    | ok t =>
      cases hUnit : readUnit t with
      | error f => simp [bind, Except.bind, hUnit]
      | ok u => simp [bind, Except.bind, hUnit]
  rw [steps]
  constructor
  · rintro ⟨t, u, colon, null, brace⟩
    obtain ⟨b, rfl, between⟩ := scanColon_iff.mp colon
    obtain ⟨c, rfl, after⟩ := unit.mp null
    obtain ⟨d, rfl, behind⟩ := close.mp brace
    exact ⟨b, c, d, rfl, between, after, behind⟩
  · rintro ⟨b, c, d, rfl, between, after, behind⟩
    exact ⟨_, _, scanColon_iff.mpr ⟨b, rfl, between⟩, unit.mpr ⟨c, rfl, after⟩,
      close.mpr ⟨d, rfl, behind⟩⟩

theorem IsNamed.isValue {names : List String} {x : String} {v : Bytes} (h : IsNamed names x v) :
    IsValue v := by
  cases h with
  | string known quotes => exact quotes.isValue
  | @object a k b c d known before quotes between after behind =>
    obtain ⟨inner, rfl, spells⟩ := quotes
    refine ⟨skipBlank_cons (by decide) _, ?_⟩
    -- One step for the brace, the key with its colon, the word, and the brace that closes.
    have opened : ∀ t, (Pending.mk .value [] (0x7B :: t)).step = .ok ⟨.first, [.object], t⟩ := by
      intro t
      rw [Pending.step, skipHead, skipBlank_cons (by decide)]
      rfl
    have key : ∀ t, (Pending.mk .first [.object]
        (a ++ (0x22 :: (inner ++ [0x22]) ++ (b ++ 0x3A :: t)))).step
          = .ok ⟨.value, [.object], t⟩ := by
      intro t
      have colon : scanColon (b ++ 0x3A :: t) = .ok t := scanColon_iff.mpr ⟨b, rfl, between⟩
      have text : 0x22 :: (inner ++ [0x22]) ++ (b ++ 0x3A :: t)
          = 0x22 :: (inner ++ 0x22 :: (b ++ 0x3A :: t)) := by simp
      simp only [Pending.step, skipBlank_append before, text, skipBlank_cons (b := 0x22) rfl,
        Bracket.closing, show ¬ (0x22 : UInt8) = 0x7D by decide, if_false, skipKey, if_true,
        skipString_of_spells spells, colon]
      rfl
    have word : ∀ t, (Pending.mk .value [.object] (c ++ (nullText ++ t))).step
        = .ok ⟨.after, [.object], t⟩ := by
      intro t
      have letters : scanWord nullTail (nullTail ++ t) = .ok t := scanWord_iff.mpr rfl
      simp only [Pending.step, skipHead, skipBlank_append after, nullText, List.cons_append,
        skipBlank_cons (b := 0x6E) rfl, if_true, letters]
      rfl
    have closed : (Pending.mk .after [.object] (d ++ [0x7D])).step = .ok ⟨.after, [], []⟩ := by
      simp only [Pending.step, skipBlank_append behind, skipBlank_cons (b := 0x7D) rfl,
        Bracket.closing, show ¬ (0x7D : UInt8) = 0x2C by decide, if_false, if_true]
    rw [skipValue, Pending.finish_eq (by simp), opened]
    dsimp only
    rw [Pending.finish_eq (by simp), key]
    dsimp only
    rw [Pending.finish_eq (by simp), word]
    dsimp only
    rw [Pending.finish_eq (by simp), closed]
    dsimp only
    rw [Pending.finish, if_pos ⟨rfl, rfl⟩]

theorem reads_name (names : List String) : Reads (readName names) (IsNamed names) where
  value := IsNamed.isValue
  piece := by
    have scanned : ∀ {x : String} {s r : Bytes}, scanName names s = .ok (x, r) →
        ∃ inner, s = inner ++ 0x22 :: r ∧ x ∈ names ∧ Spells inner (Utf8.encode x) := by
      intro x s r taken
      unfold scanName at taken
      split at taken
      · cases taken
      rename_i found rest hScan
      cases hPick : pickName names found with
      | error f =>
        rw [hPick] at taken
        cases taken
      | ok name =>
        rw [hPick] at taken
        cases taken
        obtain ⟨known, rfl⟩ := pickName_eq_ok_iff.mp hPick
        obtain ⟨inner, text, spells⟩ := scanString_iff.mp hScan
        exact ⟨inner, text, known, spells⟩
    intro x s r taken
    unfold readName at taken
    split at taken
    · cases taken
    rename_i e rest text
    split at taken
    · rename_i quote
      subst quote
      obtain ⟨inner, rfl, known, spells⟩ := scanned taken
      obtain ⟨a, rfl, blanks⟩ := (skipBlank_eq_cons_iff (by decide)).mp text
      exact ⟨a, 0x22 :: (inner ++ [0x22]), by simp, blanks, .string known ⟨inner, rfl, spells⟩⟩
    split at taken
    · rename_i brace
      subst brace
      unfold readNameObject at taken
      split at taken
      · cases taken
      · cases taken
      rename_i key item
      split at taken
      · cases taken
      rename_i name tail hName
      cases hUnit : scanUnitMember tail with
      | error f =>
        rw [hUnit] at taken
        cases taken
      | ok r =>
        rw [hUnit] at taken
        cases taken
        obtain ⟨inner, rfl, known, spells⟩ := scanned hName
        obtain ⟨front, rfl, before⟩ := nextKey_first_iff.mp item
        obtain ⟨b, c, d, rfl, between, after, behind⟩ := scanUnitMember_iff.mp hUnit
        obtain ⟨a, rfl, blanks⟩ := (skipBlank_eq_cons_iff (by decide)).mp text
        exact ⟨a, _, by simp, blanks,
          .object known before ⟨inner, rfl, spells⟩ between after behind⟩
    · cases taken
  again := by
    have scanned : ∀ {x : String} {inner : Bytes} (r : Bytes), x ∈ names →
        Spells inner (Utf8.encode x) → scanName names (inner ++ 0x22 :: r) = .ok (x, r) := by
      intro x inner r known spells
      have scan : scanString (inner ++ 0x22 :: r) = .ok (x, r) :=
        scanString_iff.mpr ⟨inner, rfl, spells⟩
      have pick : pickName names x = .ok x := pickName_eq_ok_iff.mpr ⟨known, rfl⟩
      simp only [scanName, scan, pick]
      rfl
    intro x a v r meant blanks _
    cases meant with
    | string known quotes =>
      obtain ⟨inner, rfl, spells⟩ := quotes
      have taken := scanned r known spells
      rw [readName, skipBlank_append blanks, List.cons_append, skipBlank_cons (by decide)]
      simp only [if_true, List.append_assoc, List.singleton_append]
      exact taken
    | @object front k b c d known before quotes between after behind =>
      obtain ⟨inner, rfl, spells⟩ := quotes
      have member : scanUnitMember (b ++ 0x3A :: (c ++ (nullText ++ (d ++ 0x7D :: r)))) = .ok r :=
        scanUnitMember_iff.mpr ⟨b, c, d, rfl, between, after, behind⟩
      have item : nextKey true (front ++ 0x22 ::
          (inner ++ 0x22 :: (b ++ 0x3A :: (c ++ (nullText ++ (d ++ 0x7D :: r))))))
          = .ok (.item (inner ++ 0x22 :: (b ++ 0x3A :: (c ++ (nullText ++ (d ++ 0x7D :: r)))))) :=
        nextKey_first_iff.mpr ⟨front, rfl, before⟩
      rw [readName, skipBlank_append blanks, List.cons_append, skipBlank_cons (by decide)]
      simp only [show ¬ (0x7B : UInt8) = 0x22 by decide, if_false, if_true, List.append_assoc,
        List.cons_append, List.nil_append, readNameObject, item,
        scanned _ known spells, member]
      rfl

end Reads

end DiskQueue.Json
