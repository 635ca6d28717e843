/-
Module: DiskQueue.Proofs.SettingsText
Purpose: What the text of a settings file says.
Trusted boundary: none
Main exports:
  Capacity.WrittenAs, Settings.Given, Settings.ofText_iff, Settings.ofText_of_object,
  Settings.ofText_of_capacity
-/
import DiskQueue.Settings
import DiskQueue.Proofs.HeaderMembers
import DiskQueue.Proofs.JsonLists

namespace DiskQueue

/-!
A settings file is an object or a list. Each field has the value that stands for it, and its
default if none does; no field may be given twice. A capacity may be written as a number or as a
string; the string may spell its characters in any of the ways there are.
-/

namespace Json

variable {v : Bytes}

/-- The text that is written for a string quotes it. -/
theorem quotes_quoted (s : String) : Quotes s (quoted s) := by
  obtain ⟨inner, same, spells⟩ := scanString_iff.mp (scanString_quoted s [])
  have text : quoted s = 0x22 :: ((Utf8.encode s).flatMap escapeByte ++ [0x22]) := by
    rw [← quoted_append, List.append_nil]
  exact ⟨inner, by rw [text, same], spells⟩

/-- A member with a blank before its value, alone between two braces. -/
theorem isObject_member (key : String) (value : IsValue v) :
    IsObject [(key, v)] (0x7B :: (quoted key ++ 0x3A :: 0x20 :: (v ++ [0x7D]))) := by
  have blank : Blanks [0x20] := by simp [Blanks, isBlank]
  refine ⟨[], quoted key ++ 0x3A :: 0x20 :: (v ++ [0x7D]), [], by simp, .nil, ?_, .nil⟩
  exact .member (a := []) (b := []) (c := [0x20]) .nil (quotes_quoted key) .nil blank value
    (.closed (a := []) .nil)

theorem quotes_head {x : String} (quotes : Quotes x v) : v.head? = some 0x22 := by
  obtain ⟨inner, rfl, -⟩ := quotes
  rfl

end Json

open Json (Blanks EndsNumeral IsNamed IsObject IsValue OrNull Quotes Reads)

/-! ### Capacities -/

namespace Capacity

/-- How a capacity may be written in a settings file. -/
inductive WrittenAs : Capacity → Bytes → Prop
  | megabytes (n : Int64) : WrittenAs (.megabytes n) (Decimal.ofInt n.toInt)
  | text {x : String} {v : Bytes} (quotes : Quotes x v) : WrittenAs (.text x) v

/-- No capacity is written with the letter that `null` begins with. -/
theorem WrittenAs.head_ne {capacity : Capacity} {v : Bytes} (written : capacity.WrittenAs v) :
    v.head? ≠ some 0x6E := by
  cases written with
  | megabytes n =>
    obtain ⟨d, ds, text, begins, -⟩ := Json.ofInt_eq_cons n.toInt
    rw [text]
    simpa using (Json.ne_of_beginsNumeral begins).1
  | text quotes =>
    rw [Json.quotes_head quotes]
    decide

/-- Of all values only integers and strings may be capacities. -/
theorem exists_text_of_readValue {s r : Bytes} {value : Json} {capacity : Capacity}
    (taken : Json.readValue 127 s = .ok (value, r)) (meant : ofJson? value = some capacity) :
    (∃ b rest n, Json.skipBlank s = b :: rest ∧ value = .number n ∧
        Json.scanNumber (b :: rest) = .ok (n, r)) ∨
      ∃ rest x, Json.skipBlank s = 0x22 :: rest ∧ value = .string x ∧
        Json.scanString rest = .ok (x, r) := by
  have mapped : ∀ {γ δ : Type} {scan : Json.Scan γ} {f : γ → δ} {y : δ},
      (scan.map fun p => (f p.1, p.2)) = .ok (y, r) → ∃ x, scan = .ok (x, r) ∧ y = f x := by
    intro γ δ scan f y h
    cases scan with
    | error fault => cases h
    | ok p =>
      cases h
      exact ⟨p.1, rfl, rfl⟩
  have word : ∀ {scan : Except Json.Fault Bytes} {v : Json}, ofJson? v = none →
      (scan.map fun rest => (v, rest)) ≠ .ok (value, r) := by
    intro scan v other h
    cases scan with
    | error fault => cases h
    | ok p =>
      cases h
      rw [other] at meant
      cases meant
  unfold Json.readValue Json.readValueWithin at taken
  split at taken
  · cases taken
  rename_i b rest text
  split at taken
  · exact absurd taken (word rfl)
  split at taken
  · exact absurd taken (word rfl)
  split at taken
  · exact absurd taken (word rfl)
  split at taken
  · obtain ⟨n, scanned, rfl⟩ := mapped taken
    exact .inl ⟨b, rest, n, text, rfl, scanned⟩
  split at taken
  · rename_i quote
    obtain ⟨x, scanned, rfl⟩ := mapped taken
    exact .inr ⟨rest, x, by rw [text, quote], rfl, scanned⟩
  split at taken
  · split at taken
    · cases taken
    · obtain ⟨items, -, rfl⟩ := mapped taken
      cases meant
  split at taken
  · split at taken
    · cases taken
    · obtain ⟨members, -, rfl⟩ := mapped taken
      cases meant
  · cases taken

/-- A capacity is read exactly from how it may be written. -/
theorem reads : Reads read WrittenAs where
  value := by
    rintro _ _ (n | quotes)
    · exact Json.isValue_ofInt _
    · exact quotes.isValue
  piece := by
    intro capacity s r taken
    unfold read at taken
    split at taken
    · cases taken
    rename_i value rest hValue
    split at taken
    · rename_i found meant
      cases taken
      obtain ⟨a, blanks, whole⟩ := Json.exists_blanks s
      rcases exists_text_of_readValue hValue meant with
        ⟨b, rest, n, text, rfl, scanned⟩ | ⟨rest, x, text, rfl, scanned⟩
      · unfold ofJson? at meant
        split at meant
        · rename_i m same
          cases same
          split at meant
          · rename_i range
            cases meant
            obtain ⟨digits, -⟩ := Json.scanNumber_integer scanned
            have back : (Int64.ofInt m).toInt = m :=
              Int64.toInt_ofInt_of_le range.1 (lt_of_le_of_lt range.2 (by decide))
            refine ⟨a, _, ?_, blanks, .megabytes _⟩
            rw [back, ← digits, ← text]
            exact whole
          · cases meant
        · rename_i same
          cases same
        · cases meant
      · cases meant
        obtain ⟨inner, rfl, spells⟩ := Json.scanString_iff.mp scanned
        refine ⟨a, 0x22 :: (inner ++ [0x22]), ?_, blanks, .text ⟨inner, rfl, spells⟩⟩
        rw [text] at whole
        simpa using whole
    · cases taken
  again := by
    intro capacity a v r written blanks stop
    cases written with
    | megabytes n =>
      have least := n.le_toInt
      have most := n.toInt_lt
      have scanned := Json.scanNumber_ofInt least (by omega) stop
      obtain ⟨d, ds, text, begins, blank⟩ := Json.ofInt_eq_cons n.toInt
      have noWord := Json.ne_of_beginsNumeral begins
      have range : Int64.minValue.toInt ≤ n.toInt ∧ n.toInt ≤ Int64.maxValue.toInt :=
        ⟨n.minValue_le_toInt, n.toInt_le⟩
      have value : Json.readValue 127 (a ++ (Decimal.ofInt n.toInt ++ r))
          = .ok (.number (.integer n.toInt), r) := by
        rw [text, List.cons_append] at scanned ⊢
        rw [Json.readValue, Json.readValueWithin, Json.skipBlank_append blanks,
          Json.skipBlank_cons blank]
        simp only [if_neg noWord.1, if_neg noWord.2.1, if_neg noWord.2.2, if_pos begins, scanned]
        rfl
      simp only [read, value, ofJson?, if_pos range, Int64.ofInt_toInt]
    | @text x _ quotes =>
      obtain ⟨inner, rfl, spells⟩ := quotes
      have scanned : Json.scanString (inner ++ 0x22 :: r) = .ok (x, r) :=
        Json.scanString_iff.mpr ⟨inner, rfl, spells⟩
      have text : 0x22 :: (inner ++ [0x22]) ++ r = 0x22 :: (inner ++ 0x22 :: r) := by simp
      have value : Json.readValue 127 (a ++ (0x22 :: (inner ++ [0x22]) ++ r))
          = .ok (.string x, r) := by
        rw [Json.readValue, Json.readValueWithin, Json.skipBlank_append blanks, text,
          Json.skipBlank_cons (by decide)]
        simp only [show Json.beginsNumeral 0x22 = false by decide, scanned]
        rfl
      simp only [read, value, ofJson?]

end Capacity

/-! ### Settings -/

namespace Settings

open Record (Slot IsNatBelow reads_natBelow valuesOf valuesOf_cons slot_none_iff
  admits_field_iff admits_other_iff)

variable {ms : List (String × Bytes)} {text v : Bytes} {settings : Settings}

theorem reads_directory : Reads (Json.readOptional (Json.readString "path string")) (OrNull Quotes) :=
  Json.reads_optional (Json.reads_string _) fun quotes => by
    rw [Json.quotes_head quotes]
    decide

theorem reads_capacity : Reads (Json.readOptional Capacity.read) (OrNull Capacity.WrittenAs) :=
  Json.reads_optional Capacity.reads Capacity.WrittenAs.head_ne

/-- The words for the orders. -/
def orderNames : List String := RefillOrder.all.map RefillOrder.name

theorem regular_field {α : Type} {means : α → Bytes → Prop} {read : Bytes → Json.Scan α}
    (reads : Reads read means) (key : String) (get : Draft → Option α) (set : Draft → α → Draft) :
    (field key get set read).Regular :=
  reads.regular fun _ _ => rfl

theorem regular_shape : ∀ field ∈ shape.fields, field.Regular := by
  intro field mem
  simp only [shape, List.mem_cons, List.not_mem_nil, or_false] at mem
  rcases mem with rfl | rfl | rfl | rfl | rfl | rfl
  · exact regular_field reads_directory _ _ _
  · exact regular_field reads_capacity _ _ _
  · exact regular_field (reads_natBelow (by decide) _) _ _ _
  · exact regular_field (reads_natBelow (by decide) _) _ _ _
  · exact regular_field (reads_natBelow (by decide) _) _ _ _
  · exact regular_field (Json.reads_name _) _ _ _

/-- What the fields hold after some members. -/
def Slots (old : Draft) (ms : List (String × Bytes)) (new : Draft) : Prop :=
  Slot (OrNull Quotes) old.directory (valuesOf "directory" ms) new.directory ∧
  Slot (OrNull Capacity.WrittenAs) old.capacity (valuesOf "capacity_mb" ms) new.capacity ∧
  Slot (IsNatBelow UInt64.size) old.cacheSize (valuesOf "cache_size" ms) new.cacheSize ∧
  Slot (IsNatBelow UInt32.size) old.deleteAttempts (valuesOf "delete_attempts" ms)
    new.deleteAttempts ∧
  Slot (IsNatBelow UInt64.size) old.deleteBackoffMs (valuesOf "delete_backoff_ms" ms)
    new.deleteBackoffMs ∧
  Slot (IsNamed orderNames) old.refillOrder (valuesOf "refill_order" ms) new.refillOrder

/-- Every field is taken at most once, and other members change nothing. -/
theorem admits_iff (values : ∀ m ∈ ms, IsValue m.2) {old last : Draft} :
    shape.Admits old ms last ↔ Slots old ms last := by
  induction ms generalizing old with
  | nil =>
    constructor
    · intro h
      cases h
      exact ⟨rfl, rfl, rfl, rfl, rfl, rfl⟩
    · rintro ⟨directory, capacity, cacheSize, attempts, backoff, order⟩
      obtain rfl : last = old := by
        cases last
        cases old
        simp only [Slot, valuesOf, List.filter_nil, List.map_nil] at *
        simp only [*]
      exact .nil _
  | cons m ms ih =>
    obtain ⟨key, v⟩ := m
    have value : IsValue v := values _ List.mem_cons_self
    have ih {old : Draft} : shape.Admits old ms last ↔ Slots old ms last :=
      ih fun m hm => values m (List.mem_cons_of_mem _ hm)
    by_cases directory : key = "directory"
    · subst directory
      rw [admits_field_iff Draft.directory (fun d x => { d with directory := some x }) rfl
        (fun _ => rfl) (fun _ _ => rfl) fun x => reads_directory.read_value_iff value]
      simp only [ih, Slots, valuesOf_cons, String.reduceEq, if_true, if_false, Slot]
      grind
    by_cases capacity : key = "capacity_mb"
    · subst capacity
      rw [admits_field_iff Draft.capacity (fun d x => { d with capacity := some x }) rfl
        (fun _ => rfl) (fun _ _ => rfl) fun x => reads_capacity.read_value_iff value]
      simp only [ih, Slots, valuesOf_cons, String.reduceEq, if_true, if_false, Slot]
      grind
    by_cases cacheSize : key = "cache_size"
    · subst cacheSize
      rw [admits_field_iff Draft.cacheSize (fun d x => { d with cacheSize := some x }) rfl
        (fun _ => rfl) (fun _ _ => rfl)
        fun x => (reads_natBelow (by decide) _).read_value_iff value]
      simp only [ih, Slots, valuesOf_cons, String.reduceEq, if_true, if_false, Slot]
      grind
    by_cases attempts : key = "delete_attempts"
    · subst attempts
      rw [admits_field_iff Draft.deleteAttempts (fun d x => { d with deleteAttempts := some x }) rfl
        (fun _ => rfl) (fun _ _ => rfl)
        fun x => (reads_natBelow (by decide) _).read_value_iff value]
      simp only [ih, Slots, valuesOf_cons, String.reduceEq, if_true, if_false, Slot]
      grind
    by_cases backoff : key = "delete_backoff_ms"
    · subst backoff
      rw [admits_field_iff Draft.deleteBackoffMs (fun d x => { d with deleteBackoffMs := some x })
        rfl (fun _ => rfl) (fun _ _ => rfl)
        fun x => (reads_natBelow (by decide) _).read_value_iff value]
      simp only [ih, Slots, valuesOf_cons, String.reduceEq, if_true, if_false, Slot]
      grind
    by_cases order : key = "refill_order"
    · subst order
      rw [admits_field_iff Draft.refillOrder (fun d x => { d with refillOrder := some x }) rfl
        (fun _ => rfl) (fun _ _ => rfl)
        fun x => (Json.reads_name orderNames).read_value_iff value]
      simp only [ih, Slots, valuesOf_cons, String.reduceEq, if_true, if_false, Slot]
      grind
    · have unknown : shape.field? key = none := by
        simp [Json.Shape.field?, shape, field, Ne.symm directory, Ne.symm capacity,
          Ne.symm cacheSize, Ne.symm attempts, Ne.symm backoff, Ne.symm order]
      rw [admits_other_iff unknown, ih]
      simp only [Slots, valuesOf_cons, if_neg directory, if_neg capacity, if_neg cacheSize,
        if_neg attempts, if_neg backoff, if_neg order]

/-- No field is required, and none fills the place of another one. -/
theorem apart_shape : shape.Apart shape.fields where
  known := by
    intro field mem
    simp only [shape, List.mem_cons, List.not_mem_nil, or_false] at mem
    rcases mem with rfl | rfl | rfl | rfl | rfl | rfl <;> rfl
  optional := by
    intro field mem
    simp only [shape, List.mem_cons, List.not_mem_nil, or_false] at mem
    rcases mem with rfl | rfl | rfl | rfl | rfl | rfl <;> rfl
  separate := by
    have keeps : ∀ {α β : Type} {key key' : String} {get : Draft → Option α}
        {set : Draft → α → Draft} {read : Bytes → Json.Scan α} {get' : Draft → Option β}
        {set' : Draft → β → Draft} {read' : Bytes → Json.Scan β},
        (∀ draft x, get' (set draft x) = get' draft) → ∀ {draft next : Draft} {s r : Bytes},
        (field key get set read).read draft s = .ok (next, r) →
        (field key' get' set' read').isSet next = (field key' get' set' read').isSet draft := by
      intro α β key key' get set read get' set' read' same draft next s r taken
      have mapped : ((read s).map fun p => (set draft p.1, p.2)) = .ok (next, r) := taken
      cases hRead : read s with
      | error fault =>
        rw [hRead] at mapped
        cases mapped
      | ok p =>
        rw [hRead] at mapped
        cases mapped
        exact congrArg Option.isSome (same draft p.1)
    simp only [shape, List.pairwise_cons, List.mem_cons, List.not_mem_nil, or_false,
      forall_eq_or_imp, forall_eq, false_implies, implies_true, List.Pairwise.nil, and_true]
    refine ⟨⟨?_, ?_, ?_, ?_, ?_⟩, ⟨?_, ?_, ?_, ?_⟩, ⟨?_, ?_, ?_⟩, ⟨?_, ?_⟩, ?_⟩
    all_goals
      intro draft next s r taken
      refine keeps ?_ taken
      exact fun _ _ => rfl

/-- What a settings file gives for a field: the meaning of the one value with its key, and the
default if there is none. -/
def Gives {β : Type} (key : String) (means : β → Bytes → Prop) (fallback value : β)
    (ms : List (String × Bytes)) : Prop :=
  (valuesOf key ms = [] ∧ value = fallback) ∨ ∃ v, valuesOf key ms = [v] ∧ means value v

/-- The members of a settings file give settings, each field at most once. Members with other keys
do not matter, and neither does the order. -/
structure Given (settings : Settings) (ms : List (String × Bytes)) : Prop where
  directory : Gives "directory" (OrNull fun path v => ∃ x, Utf8.encode x = path ∧ Quotes x v)
    default.directory settings.directory ms
  capacity : Gives "capacity_mb" (OrNull Capacity.WrittenAs) default.capacity settings.capacity ms
  cacheSize : Gives "cache_size" (fun n v => v = Decimal.digits n.toNat) default.cacheSize
    settings.cacheSize ms
  deleteAttempts : Gives "delete_attempts" (fun n v => v = Decimal.digits n.toNat)
    default.deleteAttempts settings.deleteAttempts ms
  deleteBackoffMs : Gives "delete_backoff_ms" (fun n v => v = Decimal.digits n.toNat)
    default.deleteBackoffMs settings.deleteBackoffMs ms
  refillOrder : Gives "refill_order" (fun order v => IsNamed orderNames order.name v)
    default.refillOrder settings.refillOrder ms

/-- A field is given where what was found for it can be turned into its value. -/
theorem gives_iff {β γ : Type} {key : String} {means : β → Bytes → Prop} {scanned : γ → Bytes → Prop}
    {turn : γ → β} {fallback value : β}
    (meant : ∀ y v, means y v ↔ ∃ x, turn x = y ∧ scanned x v) :
    Gives key means fallback value ms ↔
      ∃ found : Option γ, Slot scanned none (valuesOf key ms) found ∧
        (found.map turn).getD fallback = value := by
  simp only [Gives, slot_none_iff]
  constructor
  · rintro (⟨absent, rfl⟩ | ⟨v, one, h⟩)
    · exact ⟨none, .inl ⟨absent, rfl⟩, rfl⟩
    · obtain ⟨x, rfl, found⟩ := (meant _ _).mp h
      exact ⟨some x, .inr ⟨v, x, one, found, rfl⟩, rfl⟩
  · rintro ⟨found, ⟨absent, rfl⟩ | ⟨v, x, one, h, rfl⟩, rfl⟩
    · exact .inl ⟨absent, rfl⟩
    · exact .inr ⟨v, one, (meant _ _).mpr ⟨x, rfl, h⟩⟩

/-- The directory for what was found for it. -/
theorem gives_directory_iff {value : Option Path} :
    Gives "directory" (OrNull fun path v => ∃ x, Utf8.encode x = path ∧ Quotes x v) none value ms ↔
      ∃ found, Slot (OrNull Quotes) none (valuesOf "directory" ms) found ∧
        (found.map (Option.map Utf8.encode)).getD none = value := by
  refine gives_iff fun y v => ?_
  cases y with
  | none => simp [OrNull]
  | some path =>
    constructor
    · rintro ⟨x, rfl, quotes⟩
      exact ⟨some x, rfl, quotes⟩
    · rintro ⟨_ | x, same, quotes⟩
      · cases same
      · cases same
        exact ⟨x, rfl, quotes⟩

/-- Numbers that fit their words are read back from their digits. -/
theorem gives_number_iff {β : Type} {key : String} {toNat : β → Nat} {ofNat : Nat → β} {bound : Nat}
    {fallback value : β} (below : ∀ n, toNat n < bound) (back : ∀ n, ofNat (toNat n) = n)
    (forth : ∀ n < bound, toNat (ofNat n) = n) :
    Gives key (fun n v => v = Decimal.digits (toNat n)) fallback value ms ↔
      ∃ found, Slot (IsNatBelow bound) none (valuesOf key ms) found ∧
        (found.map ofNat).getD fallback = value := by
  refine gives_iff fun n v => ⟨?_, ?_⟩
  · rintro rfl
    exact ⟨toNat n, back n, below n, rfl⟩
  · rintro ⟨m, rfl, range, rfl⟩
    rw [forth m range]

/-- The members give just what is made of what the fields hold after them. -/
theorem given_iff :
    settings.Given ms ↔ ∃ draft, Slots Draft.blank ms draft ∧ draft.complete = settings := by
  have capacity : Gives "capacity_mb" (OrNull Capacity.WrittenAs) none settings.capacity ms ↔
      ∃ found, Slot (OrNull Capacity.WrittenAs) none (valuesOf "capacity_mb" ms) found ∧
        (found.map id).getD none = settings.capacity :=
    gives_iff fun y v => by simp
  have order : Gives "refill_order" (fun order v => IsNamed orderNames order.name v)
        default.refillOrder settings.refillOrder ms ↔
      ∃ found, Slot (IsNamed orderNames) none (valuesOf "refill_order" ms) found ∧
        (found.map fun x => (RefillOrder.ofName? x).getD default.refillOrder).getD
          default.refillOrder = settings.refillOrder := by
    refine gives_iff fun order v => ⟨fun named => ?_, ?_⟩
    · exact ⟨order.name, by rw [RefillOrder.ofName?_name, Option.getD_some], named⟩
    · rintro ⟨x, rfl, named⟩
      have known : x ∈ orderNames := named.known
      have back : ∀ x ∈ orderNames, ((RefillOrder.ofName? x).getD default.refillOrder).name = x := by
        decide
      rw [back x named.known]
      exact named
  have word64 {key : String} {fallback value : UInt64} :
      Gives key (fun n v => v = Decimal.digits n.toNat) fallback value ms ↔
        ∃ found, Slot (IsNatBelow UInt64.size) none (valuesOf key ms) found ∧
          (found.map UInt64.ofNat).getD fallback = value :=
    gives_number_iff UInt64.toNat_lt_size (fun n => UInt64.ofNat_toNat)
      fun n h => UInt64.toNat_ofNat_of_lt h
  have word32 {key : String} {fallback value : UInt32} :
      Gives key (fun n v => v = Decimal.digits n.toNat) fallback value ms ↔
        ∃ found, Slot (IsNatBelow UInt32.size) none (valuesOf key ms) found ∧
          (found.map UInt32.ofNat).getD fallback = value :=
    gives_number_iff UInt32.toNat_lt_size (fun n => UInt32.ofNat_toNat)
      fun n h => UInt32.toNat_ofNat_of_lt h
  -- What is made of a draft, field by field.
  have completed (draft : Draft) : draft.complete = settings ↔
      (draft.directory.map (Option.map Utf8.encode)).getD none = settings.directory ∧
      (draft.capacity.map id).getD none = settings.capacity ∧
      (draft.cacheSize.map UInt64.ofNat).getD default.cacheSize = settings.cacheSize ∧
      (draft.deleteAttempts.map UInt32.ofNat).getD default.deleteAttempts
        = settings.deleteAttempts ∧
      (draft.deleteBackoffMs.map UInt64.ofNat).getD default.deleteBackoffMs
        = settings.deleteBackoffMs ∧
      (draft.refillOrder.map fun x => (RefillOrder.ofName? x).getD default.refillOrder).getD
        default.refillOrder = settings.refillOrder := by
    have directory : (draft.directory.getD none).map Utf8.encode
        = (draft.directory.map (Option.map Utf8.encode)).getD none := by
      cases draft.directory <;> rfl
    have found : draft.capacity.getD none = (draft.capacity.map id).getD none := by
      cases draft.capacity <;> rfl
    have named : (draft.refillOrder.bind RefillOrder.ofName?).getD default.refillOrder
        = (draft.refillOrder.map fun x => (RefillOrder.ofName? x).getD default.refillOrder).getD
            default.refillOrder := by
      cases draft.refillOrder <;> rfl
    cases settings
    rw [Draft.complete, directory, found, named, Settings.mk.injEq]
  constructor
  · intro given
    obtain ⟨directory, hDirectory, sameDirectory⟩ := gives_directory_iff.mp given.directory
    obtain ⟨found, hCapacity, sameCapacity⟩ := capacity.mp given.capacity
    obtain ⟨size, hSize, sameSize⟩ := word64.mp given.cacheSize
    obtain ⟨attempts, hAttempts, sameAttempts⟩ := word32.mp given.deleteAttempts
    obtain ⟨backoff, hBackoff, sameBackoff⟩ := word64.mp given.deleteBackoffMs
    obtain ⟨name, hOrder, sameOrder⟩ := order.mp given.refillOrder
    exact ⟨⟨directory, found, size, attempts, backoff, name⟩,
      ⟨hDirectory, hCapacity, hSize, hAttempts, hBackoff, hOrder⟩,
      (completed _).mpr ⟨sameDirectory, sameCapacity, sameSize, sameAttempts, sameBackoff,
        sameOrder⟩⟩
  · rintro ⟨draft, ⟨hDirectory, hCapacity, hSize, hAttempts, hBackoff, hOrder⟩, same⟩
    obtain ⟨sameDirectory, sameCapacity, sameSize, sameAttempts, sameBackoff, sameOrder⟩ :=
      (completed draft).mp same
    exact ⟨gives_directory_iff.mpr ⟨_, hDirectory, sameDirectory⟩,
      capacity.mpr ⟨_, hCapacity, sameCapacity⟩, word64.mpr ⟨_, hSize, sameSize⟩,
      word32.mpr ⟨_, hAttempts, sameAttempts⟩, word64.mpr ⟨_, hBackoff, sameBackoff⟩,
      order.mpr ⟨_, hOrder, sameOrder⟩⟩

theorem unset_blank : ∀ field ∈ shape.fields, field.isSet Draft.blank = false := by
  intro field mem
  simp only [shape, List.mem_cons, List.not_mem_nil, or_false] at mem
  rcases mem with rfl | rfl | rfl | rfl | rfl | rfl <;> rfl

/-- A text is read as settings just if the members it holds give them and they make sense. -/
theorem ofText_iff :
    ofText text = .ok settings ↔
      ∃ ms, shape.Holds text ms ∧ settings.Given ms ∧ settings.validate = .ok () := by
  have read (draft : Draft) : Json.finish (shape.read Draft.blank text) = .ok draft ↔
      ∃ ms, shape.Holds text ms ∧ Slots Draft.blank ms draft := by
    rw [Json.Shape.finish_read_iff_holds regular_shape apart_shape unset_blank]
    exact exists_congr fun ms => and_congr_right fun holds => admits_iff holds.isValue
  have whole : ofText text = .ok settings ↔ ∃ draft,
      Json.finish (shape.read Draft.blank text) = .ok draft ∧ draft.complete = settings ∧
        settings.validate = .ok () := by
    rw [ofText]
    cases Json.finish (shape.read Draft.blank text) with
    | error fault => simp
    | ok draft =>
      constructor
      · intro h
        dsimp only at h
        split at h
        · cases h
        · rename_i valid
          cases h
          exact ⟨draft, rfl, rfl, valid⟩
      · rintro ⟨_, ⟨⟩, rfl, valid⟩
        simp only [valid]
  rw [whole]
  constructor
  · rintro ⟨draft, taken, same, valid⟩
    obtain ⟨ms, holds, slots⟩ := (read draft).mp taken
    exact ⟨ms, holds, given_iff.mpr ⟨draft, slots, same⟩, valid⟩
  · rintro ⟨ms, holds, given, valid⟩
    obtain ⟨draft, slots, same⟩ := given_iff.mp given
    exact ⟨draft, (read draft).mpr ⟨ms, holds, slots⟩, same, valid⟩

/-- A settings file that is an object. -/
theorem ofText_of_object (object : IsObject ms text) :
    ofText text = .ok settings ↔ settings.Given ms ∧ settings.validate = .ok () := by
  rw [ofText_iff]
  constructor
  · rintro ⟨ms', holds, given, valid⟩
    cases holds.unique (.object object)
    exact ⟨given, valid⟩
  · rintro ⟨given, valid⟩
    exact ⟨ms, .object object, given, valid⟩

/-- A settings file in which nothing but a capacity stands sets that and nothing else. -/
theorem ofText_of_capacity {capacity : Capacity} (object : IsObject [("capacity_mb", v)] text)
    (written : capacity.WrittenAs v) :
    ofText text = .ok { default with capacity := some capacity } := by
  refine (ofText_of_object object).mpr ⟨?_, rfl⟩
  have one : valuesOf "capacity_mb" [("capacity_mb", v)] = [v] := by simp [valuesOf]
  have other {key : String} (different : key ≠ "capacity_mb") :
      valuesOf key [("capacity_mb", v)] = [] := by simp [valuesOf, different.symm]
  exact ⟨.inl ⟨other (by decide), rfl⟩, .inr ⟨v, one, written⟩, .inl ⟨other (by decide), rfl⟩,
    .inl ⟨other (by decide), rfl⟩, .inl ⟨other (by decide), rfl⟩, .inl ⟨other (by decide), rfl⟩⟩

end Settings
end DiskQueue
