/-
Module: DiskQueue.Proofs.NameOrder
Purpose: Generated names are made once, and sort by the time and the number that they were
  made of.
Trusted boundary: none
Main exports:
  FileNames.generated_lt_of_millis_lt, FileNames.generated_lt_of_sequence_lt,
  FileNames.InOrder, FileNames.made_once_and_sorted
-/
import DiskQueue.Proofs.FileNames

namespace DiskQueue.FileNames

/-!
Texts of one length compare as the numbers that they stand for, and padding makes the texts
of a time equally long as long as it has no more than thirteen digits. The time is the first
thing in which two names can differ; what follows it decides nothing once it is different. A
time that is longer, or negative, still gives a name of its own, but one that sorts elsewhere.
-/

/-! ### Digits -/

theorem digitValue_lt {b : UInt8} (h : Decimal.isDigit b = true) : Decimal.digitValue b < 10 := by
  rw [Decimal.isDigit, Bool.and_eq_true, decide_eq_true_eq, decide_eq_true_eq] at h
  have high : b.toNat ≤ 0x39 := h.2
  rw [Decimal.digitValue]
  omega

theorem lt_of_digitValue_lt {b c : UInt8} (hc : Decimal.isDigit c = true)
    (h : Decimal.digitValue b < Decimal.digitValue c) : b < c := by
  rw [Decimal.isDigit, Bool.and_eq_true, decide_eq_true_eq, decide_eq_true_eq] at hc
  have low : 0x30 ≤ c.toNat := hc.1
  rw [Decimal.digitValue, Decimal.digitValue] at h
  exact UInt8.lt_iff_toNat_lt.mpr (by omega)

theorem eq_of_digitValue_eq {b c : UInt8} (hb : Decimal.isDigit b = true)
    (hc : Decimal.isDigit c = true) (h : Decimal.digitValue b = Decimal.digitValue c) : b = c := by
  rw [Decimal.isDigit, Bool.and_eq_true, decide_eq_true_eq, decide_eq_true_eq] at hb hc
  have low : 0x30 ≤ b.toNat ∧ 0x30 ≤ c.toNat := ⟨hb.1, hc.1⟩
  rw [Decimal.digitValue, Decimal.digitValue] at h
  exact UInt8.toNat_inj.mp (by omega)

theorem number_cons (d : Nat) (ds : List Nat) :
    Decimal.number (d :: ds) = 10 ^ ds.length * d + Decimal.number ds := by
  have split := Decimal.number_append [d] ds
  simpa [Decimal.number] using split

theorem number_lt {ds : Bytes} (h : ∀ b ∈ ds, Decimal.isDigit b = true) :
    Decimal.number (ds.map Decimal.digitValue) < 10 ^ ds.length := by
  induction ds with
  | nil => exact Nat.one_pos
  | cons d ds ih =>
    have rest := ih fun b mem => h b (List.mem_cons_of_mem _ mem)
    have first := digitValue_lt (h d List.mem_cons_self)
    rw [List.map_cons, number_cons, List.length_map, List.length_cons, Nat.pow_succ]
    calc 10 ^ ds.length * Decimal.digitValue d + Decimal.number (ds.map Decimal.digitValue)
        < 10 ^ ds.length * Decimal.digitValue d + 10 ^ ds.length := Nat.add_lt_add_left rest _
      _ = 10 ^ ds.length * (Decimal.digitValue d + 1) := by rw [Nat.mul_add, Nat.mul_one]
      _ ≤ 10 ^ ds.length * 10 := Nat.mul_le_mul_left _ first

/-- Runs of digits of one length compare as the numbers that they stand for. -/
theorem append_lt_append {ds es : Bytes} (length : ds.length = es.length)
    (hd : ∀ b ∈ ds, Decimal.isDigit b = true) (he : ∀ b ∈ es, Decimal.isDigit b = true)
    (h : Decimal.number (ds.map Decimal.digitValue) < Decimal.number (es.map Decimal.digitValue))
    (x y : Bytes) : ds ++ x < es ++ y := by
  induction ds generalizing es with
  | nil =>
    cases es with
    | nil => exact absurd h (Nat.lt_irrefl _)
    | cons e es => exact absurd length (by simp)
  | cons d ds ih =>
    cases es with
    | nil => exact absurd length (by simp)
    | cons e es =>
      have same : ds.length = es.length := by simpa using length
      have hds : ∀ b ∈ ds, Decimal.isDigit b = true := fun b mem => hd b (List.mem_cons_of_mem _ mem)
      have hes : ∀ b ∈ es, Decimal.isDigit b = true := fun b mem => he b (List.mem_cons_of_mem _ mem)
      rw [List.map_cons, List.map_cons, number_cons, number_cons, List.length_map, List.length_map,
        same] at h
      rw [List.cons_append, List.cons_append, List.cons_lt_cons_iff]
      rcases Nat.lt_trichotomy (Decimal.digitValue d) (Decimal.digitValue e) with lt | eq | gt
      · exact .inl (lt_of_digitValue_lt (he e List.mem_cons_self) lt)
      · refine .inr ⟨?_, ih same hds hes (by rw [eq] at h; omega)⟩
        exact eq_of_digitValue_eq (hd d List.mem_cons_self) (he e List.mem_cons_self) eq
      · have high := number_lt hes
        have step := Nat.mul_le_mul_left (10 ^ es.length) gt
        rw [Nat.mul_succ] at step
        omega

theorem length_zeroPad {width n : Nat} (h : n < 10 ^ width) (hw : 0 < width) :
    (Decimal.zeroPad width (Decimal.digits n)).length = width := by
  have short : (Decimal.digits n).length ≤ width := (Decimal.length_digits_le_iff hw).mpr h
  rw [Decimal.zeroPad, List.length_append, List.length_replicate]
  omega

/-- Numbers that fit into the width compare as their padded texts do. -/
theorem padded_lt_padded {width m n : Nat} (hw : 0 < width) (hn : n < 10 ^ width) (h : m < n)
    (x y : Bytes) : Decimal.padded width m ++ x < Decimal.padded width n ++ y := by
  rw [padded_natCast, padded_natCast]
  refine append_lt_append ?_ (fun _ => isDigit_of_mem_zeroPad) (fun _ => isDigit_of_mem_zeroPad)
    ?_ x y
  · rw [length_zeroPad (h.trans hn) hw, length_zeroPad hn hw]
  · rwa [number_zeroPad, number_zeroPad]

/-- Names sort by time, whatever the tokens and the numbers. -/
theorem generated_lt_of_millis_lt {m n : Int} (hm : 0 ≤ m) (hn : n < 10 ^ 13) (h : m < n)
    (a b : ProcessToken) (s t : UInt64) (x y : Bytes) :
    generated m a s ++ x < generated n b t ++ y := by
  obtain ⟨k, rfl⟩ := Int.eq_ofNat_of_zero_le hm
  obtain ⟨l, rfl⟩ := Int.eq_ofNat_of_zero_le (hm.trans h.le)
  simp only [generated, List.append_assoc, List.cons_append]
  refine List.append_left_lt (List.cons_lt_cons_iff.mpr (.inr ⟨rfl, ?_⟩))
  exact padded_lt_padded (by decide) (by exact_mod_cast hn) (by exact_mod_cast h) _ _

/-- Names of one time and one token sort by number, up to a million of them. -/
theorem generated_lt_of_sequence_lt (m : Int) (token : ProcessToken) {s t : UInt64}
    (ht : t.toNat < 10 ^ 6) (h : s.toNat < t.toNat) (x y : Bytes) :
    generated m token s ++ x < generated m token t ++ y := by
  simp only [generated, List.append_assoc, List.cons_append]
  refine List.append_left_lt (List.cons_lt_cons_iff.mpr (.inr ⟨rfl, ?_⟩))
  refine List.append_left_lt (List.cons_lt_cons_iff.mpr (.inr ⟨rfl, ?_⟩))
  refine List.append_left_lt (List.cons_lt_cons_iff.mpr (.inr ⟨rfl, ?_⟩))
  exact padded_lt_padded (by decide) ht h _ _

/-! ### Names and what becomes of them -/

/-- A name is before another one, and the same is true of the final names of the two files,
whatever the directory that they are in. -/
structure InOrder (earlier later : Name) : Prop where
  temporary : earlier < later
  committed : ∀ directory : Path, ∃ first second,
    baseName? (directory.join earlier) = some first ∧
      baseName? (directory.join later) = some second ∧ asCommitted first < asCommitted second

/-- The order of generated names does not depend on their extension. -/
theorem inOrder_of_generated {m n : Int} {a b : ProcessToken} (ha : a.IsValid) (hb : b.IsValid)
    {s t : UInt64} (sorted : ∀ behind, generated m a s ++ behind < generated n b t ++ behind) :
    InOrder (staging m a s) (staging n b t) where
  temporary := sorted _
  committed directory := ⟨_, _, baseName?_join_staging directory ha,
    baseName?_join_staging directory hb, sorted _⟩

theorem staging_injective {m n : Int} {a b : ProcessToken} (ha : a.IsValid) (hb : b.IsValid)
    {s t : UInt64} (h : staging m a s = staging n b t) : m = n ∧ a = b ∧ s = t :=
  generated_injective ha hb (withExtension_injective h)

/-- No name is made twice, of whatever time. Names sort by the time, and those of one time and
one token by the number, as long as it has no more digits than it is padded to. -/
theorem made_once_and_sorted {a b : ProcessToken} (ha : a.IsValid) (hb : b.IsValid) (m n : Int)
    (s t : UInt64) :
    (staging m a s = staging n b t → m = n ∧ a = b ∧ s = t) ∧
      (0 ≤ m → n < 10 ^ 13 → m < n → InOrder (staging m a s) (staging n b t)) ∧
      (m = n → a = b → s < t → t.toNat < 10 ^ 6 →
        InOrder (staging m a s) (staging n b t)) := by
  refine ⟨staging_injective ha hb, ?_, ?_⟩
  · intro start fits sooner
    exact inOrder_of_generated ha hb fun behind =>
      generated_lt_of_millis_lt start fits sooner a b s t behind behind
  · rintro rfl rfl below few
    exact inOrder_of_generated ha hb fun behind =>
      generated_lt_of_sequence_lt m a few (UInt64.lt_iff_toNat_lt.mp below) behind behind

theorem made_once_and_sorted_at_rollover :
    let one : ProcessToken := ⟨"zzzzzzzz"⟩
    let other : ProcessToken := ⟨"aaaaaaaa"⟩
    one.IsValid ∧ other.IsValid ∧ staging (-1) one 0 ≠ staging 1 one 0 ∧
      InOrder (staging 999 one 999999) (staging 1000 other 0) ∧
      InOrder (staging 999 one 99) (staging 999 one 100) := by
  intro one other
  have valid : one.IsValid := by decide +kernel
  have valid' : other.IsValid := by decide +kernel
  refine ⟨valid, valid', ?_, ?_, ?_⟩
  · intro same
    exact absurd ((made_once_and_sorted valid valid (-1) 1 0 0).1 same).1 (by decide)
  · exact (made_once_and_sorted valid valid' 999 1000 999999 0).2.1 (by decide) (by decide) (by decide)
  · exact (made_once_and_sorted valid valid 999 999 99 100).2.2 rfl rfl (by decide) (by decide)

/-- A time of fourteen digits sorts before one of thirteen. -/
example : staging 10000000000000 ⟨"abcdefgh"⟩ 0 < staging 9999999999999 ⟨"abcdefgh"⟩ 0 := by
  decide +kernel

end DiskQueue.FileNames
