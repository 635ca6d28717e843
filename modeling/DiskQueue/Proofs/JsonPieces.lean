/-
Module: DiskQueue.Proofs.JsonPieces
Purpose: A scanner takes the same piece whatever follows it, up to the one byte
  that shows where a numeral ends.
Trusted boundary: none
Main exports:
  Json.Blanks, Json.StopsAlike, Json.Takes, Json.takes_skipValue
-/
import DiskQueue.Proofs.JsonText
import Mathlib.Data.List.DropRight

namespace DiskQueue.Json

/-! ### Blanks -/

/-- Nothing but blanks. -/
def Blanks (s : Bytes) : Prop := ∀ b ∈ s, isBlank b = true

theorem Blanks.nil : Blanks [] := fun _ hb => absurd hb List.not_mem_nil

theorem Blanks.append {a b : Bytes} (ha : Blanks a) (hb : Blanks b) : Blanks (a ++ b) :=
  fun c hc => (List.mem_append.mp hc).elim (ha c) (hb c)

theorem skipBlank_append {a : Bytes} (h : Blanks a) (s : Bytes) :
    skipBlank (a ++ s) = skipBlank s :=
  List.dropWhile_append_of_pos h

theorem skipBlank_eq_nil_iff {s : Bytes} : skipBlank s = [] ↔ Blanks s :=
  List.dropWhile_eq_nil_iff

/-- A text is its blanks and what follows them. -/
theorem exists_blanks (s : Bytes) : ∃ a, Blanks a ∧ s = a ++ skipBlank s :=
  ⟨s.takeWhile isBlank, fun _ hb => List.mem_takeWhile_imp hb,
    (List.takeWhile_append_dropWhile).symm⟩

theorem isBlank_of_skipBlank {s rest : Bytes} {b : UInt8} (h : skipBlank s = b :: rest) :
    isBlank b = false := by
  have head := List.head?_dropWhile_not isBlank s
  rw [show s.dropWhile isBlank = b :: rest from h] at head
  simpa using head

/-- What comes first after blanks. -/
theorem skipBlank_eq_cons_iff {s rest : Bytes} {b : UInt8} (h : isBlank b = false) :
    skipBlank s = b :: rest ↔ ∃ a, s = a ++ b :: rest ∧ Blanks a := by
  constructor
  · intro text
    obtain ⟨a, blanks, whole⟩ := exists_blanks s
    exact ⟨a, by rw [← text]; exact whole, blanks⟩
  · rintro ⟨a, rfl, blanks⟩
    rw [skipBlank_append blanks, skipBlank_cons h]

/-! ### Pieces

Where a value ends is decided by its own bytes, except for a numeral: that one goes on as long as
it can, so one more byte is looked at. A piece that a scanner took is therefore taken again before
any text that begins with the same byte, and before any text that cannot go on with a numeral
(`StopsAlike`). This is kept when one scanner follows another, and so by passing over a whole
value. -/

/-- Whether a scanner that stopped before `r` also stops before `t`. -/
def StopsAlike (r t : Bytes) : Prop := t.head? = r.head? ∨ EndsNumeral t

/-- A piece was taken off the front of `s` up to `r`, and is taken before every text that stops a
scanner alike; `scan` relates the whole text to the one behind the piece. -/
def Takes (scan : Bytes → Bytes → Prop) (s r : Bytes) : Prop :=
  ∃ piece, s = piece ++ r ∧ ∀ t, StopsAlike r t → scan (piece ++ t) t

namespace Takes

variable {R S : Bytes → Bytes → Prop} {s m r : Bytes}

/-- Nothing was taken, so nothing has to be taken before another text. -/
theorem nothing (h : ∀ t, StopsAlike r t → R t t) : Takes R r r := ⟨[], rfl, h⟩

/-- Given bytes, and a piece after them. -/
theorem behind (before : Bytes) (h : Takes R s r) (scan : ∀ u t, R u t → S (before ++ u) t) :
    Takes S (before ++ s) r := by
  obtain ⟨piece, rfl, taken⟩ := h
  refine ⟨before ++ piece, by simp, fun t stops => ?_⟩
  rw [List.append_assoc]
  exact scan _ _ (taken t stops)

/-- The same piece, for a scanner that makes something else of it. -/
theorem imp (h : Takes R s r) (scan : ∀ u t, R u t → S u t) : Takes S s r := behind [] h scan

/-- One piece and another one after it. -/
theorem andThen (first : Takes R s m) (second : Takes S m r) :
    Takes (fun u t => ∃ v, R u v ∧ S v t) s r := by
  obtain ⟨piece, rfl, taken⟩ := first
  obtain ⟨more, rfl, takenMore⟩ := second
  refine ⟨piece ++ more, by simp, fun t stops => ⟨more ++ t, ?_, takenMore t stops⟩⟩
  rw [List.append_assoc]
  apply taken
  cases more with
  | nil => exact stops
  | cons b more => exact .inl rfl

/-- The first byte of a text belongs to the piece, if less than the whole text is left. -/
theorem tail {b : UInt8} (h : Takes R (b :: s) r) (less : r.length ≤ s.length) :
    Takes (fun u t => R (b :: u) t) s r := by
  obtain ⟨piece, text, taken⟩ := h
  cases piece with
  | nil =>
    rw [List.nil_append] at text
    rw [← text, List.length_cons] at less
    omega
  | cons c piece =>
    rw [List.cons_append, List.cons.injEq] at text
    obtain ⟨rfl, rfl⟩ := text
    exact ⟨piece, rfl, taken⟩

/-- Blanks, a byte, and a piece after it, where the scanner passes over the blanks to the byte. -/
theorem afterBlanks {b : UInt8} {rest : Bytes} (text : skipBlank s = b :: rest)
    (h : Takes R rest r) (scan : ∀ u v t, skipBlank u = b :: v → R v t → S u t) :
    Takes S s r := by
  obtain ⟨piece, rfl, taken⟩ := h
  obtain ⟨blanks, allBlank, whole⟩ := exists_blanks s
  rw [text] at whole
  refine ⟨blanks ++ b :: piece, by simpa using whole, fun t stops => ?_⟩
  refine scan _ (piece ++ t) t ?_ (taken t stops)
  rw [List.append_assoc, skipBlank_append allBlank, List.cons_append]
  exact skipBlank_cons (isBlank_of_skipBlank text) _

end Takes

/-! ### Words and strings -/

theorem takes_scanWord {w s r : Bytes} (h : scanWord w s = .ok r) :
    Takes (fun u t => scanWord w u = .ok t) s r := by
  induction w generalizing s with
  | nil =>
    cases h
    exact .nothing fun _ _ => rfl
  | cons e w ih =>
    cases s with
    | nil => cases h
    | cons b s =>
      simp only [scanWord] at h
      split at h
      · rename_i same
        refine (ih h).behind [b] fun u t taken => ?_
        rw [List.singleton_append, scanWord, if_pos same]
        exact taken
      · cases h

theorem takes_skipString {s r : Bytes} (h : skipString s = .ok r) :
    Takes (fun u t => skipString u = .ok t) s r := by
  induction length : s.length using Nat.strongRecOn generalizing s with
  | ind n ih =>
    subst length
    have later : ∀ {rest : Bytes}, rest.length < s.length → skipString rest = .ok r →
        Takes (fun u t => skipString u = .ok t) rest r := fun less passed => ih _ less passed rfl
    have escape : ¬ (0x5C : UInt8) = 0x22 := by decide
    unfold skipString at h
    split at h
    · cases h
    rename_i b rest
    split at h
    · rename_i quote
      cases h
      refine (Takes.nothing (R := Eq) fun _ _ => rfl).behind [b] fun u t taken => ?_
      rw [List.singleton_append, skipString.eq_def]
      simp only [if_pos quote, taken]
    split at h
    · rename_i backslash
      subst backslash
      split at h
      · cases h
      rename_i e rest
      split at h
      · rename_i short
        refine (later (by simp only [List.length_cons]; omega) h).behind [0x5C, e]
          fun u t taken => ?_
        rw [List.cons_append, List.singleton_append, skipString.eq_def]
        simp only [if_neg escape, if_true, if_pos short]
        exact taken
      split at h
      · rename_i long unicode
        split at h
        · rename_i a b c d rest
          split at h
          · rename_i digits
            refine (later (by simp only [List.length_cons]; omega) h).behind [0x5C, e, a, b, c, d]
              fun u t taken => ?_
            simp only [List.cons_append, List.nil_append]
            rw [skipString.eq_def]
            simp only [if_neg escape, if_true, if_neg long, if_pos unicode, if_pos digits]
            exact taken
          · cases h
        · cases h
      · cases h
    rename_i plain notEscape
    split at h
    · cases h
    · rename_i printable
      refine (later (by simp) h).behind [b] fun u t taken => ?_
      rw [List.singleton_append, skipString.eq_def]
      simp only [if_neg plain, if_neg notEscape, if_neg printable]
      exact taken

theorem takes_scanColon {s r : Bytes} (h : scanColon s = .ok r) :
    Takes (fun u t => scanColon u = .ok t) s r := by
  unfold scanColon at h
  split at h
  · cases h
  · rename_i b rest text
    split at h
    · rename_i colon
      cases h
      refine Takes.afterBlanks (R := Eq) text (.nothing fun _ _ => rfl) fun u v t text taken => ?_
      simp only [scanColon, text, if_pos colon, taken]
    · cases h

/-! ### Numerals -/

/-- A text that stops a scanner like one without a given byte in front has no such byte in front. -/
theorem StopsAlike.head_ne {r t : Bytes} (h : StopsAlike r t) {p : UInt8 → Prop}
    (here : ∀ b ∈ r.head?, ¬ p b)
    (goes : ∀ b, p b → Decimal.isDigit b = true ∨ b = 0x2E ∨ b = 0x65 ∨ b = 0x45) :
    ∀ b ∈ t.head?, ¬ p b := by
  intro b hb hp
  rcases h with same | ends
  · exact here b (same ▸ hb) hp
  · obtain ⟨digit, point, small, large⟩ := ends b hb
    rcases goes b hp with h | h | h | h
    · rw [digit] at h
      cases h
    · exact point h
    · exact small h
    · exact large h

theorem takes_scanDigits {s ds r : Bytes} (h : scanDigits s = .ok (ds, r)) :
    Takes (fun u t => scanDigits u = .ok (ds, t)) s r := by
  obtain ⟨rfl, nonempty, digits, stop⟩ := scanDigits_iff.mp h
  exact ⟨ds, rfl, fun t stops =>
    scanDigits_iff.mpr ⟨rfl, nonempty, digits, stops.head_ne stop fun _ => .inl⟩⟩

theorem takes_scanWhole {s ds r : Bytes} (h : scanWhole s = .ok (ds, r)) :
    Takes (fun u t => scanWhole u = .ok (ds, t)) s r := by
  unfold scanWhole at h
  split at h
  · cases h
  rename_i scanned
  split at h
  · cases h
  rename_i alone
  cases h
  refine (takes_scanDigits scanned).imp fun u t taken => ?_
  simp only [scanWhole, taken, if_neg alone]

theorem takes_scanFraction {s ds r : Bytes} (h : scanFraction s = .ok (ds, r)) :
    Takes (fun u t => scanFraction u = .ok (ds, t)) s r := by
  -- Where there is no point, none may stand at the front of the text behind either.
  have absent : ∀ {r : Bytes}, (∀ b ∈ r.head?, b ≠ 0x2E) →
      Takes (fun u t => scanFraction u = .ok ([], t)) r r := by
    intro r noPoint
    refine .nothing fun t stops => ?_
    have head := stops.head_ne (p := fun b => b = 0x2E) noPoint (fun _ h => .inr (.inl h))
    cases t with
    | nil => rfl
    | cons b t => rw [scanFraction, if_neg (head b rfl)]
  unfold scanFraction at h
  split at h
  · cases h
    exact absent (by simp)
  · rename_i b rest
    split at h
    · rename_i point
      refine (takes_scanDigits h).behind [b] fun u t taken => ?_
      rw [List.singleton_append, scanFraction, if_pos point]
      exact taken
    · rename_i noPoint
      cases h
      exact absent (by simpa using noPoint)

theorem takes_scanExponent {s r : Bytes} {e : Option (Bool × Bytes)}
    (h : scanExponent s = .ok (e, r)) : Takes (fun u t => scanExponent u = .ok (e, t)) s r := by
  have absent : ∀ {r : Bytes}, (∀ b ∈ r.head?, ¬ (b = 0x65 ∨ b = 0x45)) →
      Takes (fun u t => scanExponent u = .ok (none, t)) r r := by
    intro r noMark
    refine .nothing fun t stops => ?_
    have head := stops.head_ne noMark (fun _ h => .inr (.inr h))
    cases t with
    | nil => rfl
    | cons b t => simp only [scanExponent, if_neg (head b rfl)]
  unfold scanExponent at h
  split at h
  · cases h
    exact absent (by simp)
  rename_i b rest
  split at h
  · rename_i mark
    cases rest with
    | nil => cases h
    | cons c more =>
      dsimp only at h
      by_cases plus : c = 0x2B
      · simp only [if_pos plus] at h
        split at h
        · cases h
        rename_i scanned
        cases h
        refine (takes_scanDigits scanned).behind [b, c] fun u t taken => ?_
        simp only [List.cons_append, List.nil_append, scanExponent, if_pos mark, if_pos plus, taken]
      · by_cases minus : c = 0x2D
        · simp only [if_neg plus, if_pos minus] at h
          split at h
          · cases h
          rename_i scanned
          cases h
          refine (takes_scanDigits scanned).behind [b, c] fun u t taken => ?_
          simp only [List.cons_append, List.nil_append, scanExponent, if_pos mark, if_neg plus,
            if_pos minus, taken]
        · simp only [if_neg plus, if_neg minus] at h
          split at h
          · cases h
          rename_i scanned
          cases h
          have less : r.length ≤ more.length := by
            have := scanDigits_length scanned
            simp only [List.length_cons] at this
            omega
          refine ((takes_scanDigits scanned).tail less).behind [b, c] fun u t taken => ?_
          simp only [List.cons_append, List.nil_append, scanExponent, if_pos mark, if_neg plus,
            if_neg minus, taken]
  · rename_i noMark
    cases h
    exact absent (by simpa using noMark)

theorem takes_scanMagnitude {negative : Bool} {s r : Bytes} {n : Numeral}
    (h : scanMagnitude negative s = .ok (n, r)) :
    Takes (fun u t => scanMagnitude negative u = .ok (n, t)) s r := by
  unfold scanMagnitude at h
  split at h
  · cases h
  rename_i whole _ hWhole
  split at h
  · cases h
  rename_i fraction _ hFraction
  split at h
  · cases h
  rename_i exponent _ hExponent
  cases h
  have pieces := ((takes_scanWhole hWhole).andThen (takes_scanFraction hFraction)).andThen
    (takes_scanExponent hExponent)
  refine pieces.imp ?_
  rintro u t ⟨y, ⟨x, hx, hy⟩, ht⟩
  simp only [scanMagnitude, hx, hy, ht]

theorem takes_scanNumeral {s r : Bytes} {n : Numeral} (h : scanNumeral s = .ok (n, r)) :
    Takes (fun u t => scanNumeral u = .ok (n, t)) s r := by
  unfold scanNumeral at h
  split at h
  · cases h
  rename_i b rest
  split at h
  · rename_i minus
    refine (takes_scanMagnitude h).behind [b] fun u t taken => ?_
    rw [List.singleton_append, scanNumeral, if_pos minus]
    exact taken
  · rename_i unsigned
    have less : r.length ≤ rest.length := by
      have := scanMagnitude_length h
      simp only [List.length_cons] at this
      omega
    refine ((takes_scanMagnitude h).tail less).behind [b] fun u t taken => ?_
    rw [List.singleton_append, scanNumeral, if_neg unsigned]
    exact taken

theorem takes_skipNumeral {s r : Bytes} (h : skipNumeral s = .ok r) :
    Takes (fun u t => skipNumeral u = .ok t) s r := by
  unfold skipNumeral at h
  split at h
  · cases h
  rename_i scanned
  cases h
  refine (takes_scanNumeral scanned).imp fun u t taken => ?_
  simp only [skipNumeral, taken]

/-! ### Whole values -/

theorem takes_skipHead {brackets : List Bracket} {s : Bytes} {q : Pending}
    (h : skipHead brackets s = .ok q) :
    Takes (fun u t => skipHead brackets u = .ok ⟨q.phase, q.brackets, t⟩) s q.rest := by
  -- A scalar is taken by its own scanner, after the blanks and the byte that tells what it is.
  have scalar : ∀ {b : UInt8} {rest : Bytes} {g : Bytes → Except Fault Bytes},
      skipBlank s = b :: rest → (∀ r, g rest = .ok r → Takes (fun u t => g u = .ok t) rest r) →
      (∀ u v, skipBlank u = b :: v → skipHead brackets u = (g v).map (Pending.mk .after brackets)) →
      (g rest).map (Pending.mk .after brackets) = .ok q →
      Takes (fun u t => skipHead brackets u = .ok ⟨q.phase, q.brackets, t⟩) s q.rest := by
    intro b rest g text taken head h
    cases hScan : g rest with
    | error f =>
      rw [hScan] at h
      cases h
    | ok r =>
      rw [hScan] at h
      cases h
      refine (taken r hScan).afterBlanks text fun u v t text taken => ?_
      rw [head u v text, taken]
      rfl
  have opened : ∀ (bracket : Bracket) {b : UInt8} {rest : Bytes}, skipBlank s = b :: rest →
      (∀ u v, skipBlank u = b :: v → skipHead brackets u = .ok ⟨.first, bracket :: brackets, v⟩) →
      q = ⟨.first, bracket :: brackets, rest⟩ →
      Takes (fun u t => skipHead brackets u = .ok ⟨q.phase, q.brackets, t⟩) s q.rest := by
    intro bracket b rest text head hq
    subst hq
    refine Takes.afterBlanks (R := Eq) text (.nothing fun _ _ => rfl) fun u v t text taken => ?_
    rw [head u v text, taken]
  unfold skipHead at h
  split at h
  · cases h
  rename_i b rest text
  split at h
  · rename_i null
    refine scalar text (fun _ => takes_scanWord) (fun u v text => ?_) h
    simp only [skipHead, text, if_pos null]
  split at h
  · rename_i noNull yes
    refine scalar text (fun _ => takes_scanWord) (fun u v text => ?_) h
    simp only [skipHead, text, if_neg noNull, if_pos yes]
  split at h
  · rename_i noNull noTrue no
    refine scalar text (fun _ => takes_scanWord) (fun u v text => ?_) h
    simp only [skipHead, text, if_neg noNull, if_neg noTrue, if_pos no]
  split at h
  · rename_i noNull noTrue noFalse numeral
    refine scalar (g := fun v => skipNumeral (b :: v)) text (fun r skipped => ?_)
      (fun u v text => ?_) h
    · have := skipNumeral_length skipped
      exact (takes_skipNumeral skipped).tail (by simp only [List.length_cons] at this; omega)
    · simp only [skipHead, text, if_neg noNull, if_neg noTrue, if_neg noFalse, if_pos numeral]
  split at h
  · rename_i noNull noTrue noFalse noNumeral quote
    refine scalar text (fun _ => takes_skipString) (fun u v text => ?_) h
    simp only [skipHead, text, if_neg noNull, if_neg noTrue, if_neg noFalse, if_neg noNumeral,
      if_pos quote]
  split at h
  · rename_i noNull noTrue noFalse noNumeral noQuote list
    refine opened .list text (fun u v text => ?_) (by cases h; rfl)
    simp only [skipHead, text, if_neg noNull, if_neg noTrue, if_neg noFalse, if_neg noNumeral,
      if_neg noQuote, if_pos list]
  split at h
  · rename_i noNull noTrue noFalse noNumeral noQuote noList object
    refine opened .object text (fun u v text => ?_) (by cases h; rfl)
    simp only [skipHead, text, if_neg noNull, if_neg noTrue, if_neg noFalse, if_neg noNumeral,
      if_neg noQuote, if_neg noList, if_pos object]
  · cases h

theorem takes_skipKey {brackets : List Bracket} {s : Bytes} {q : Pending}
    (h : skipKey brackets s = .ok q) :
    Takes (fun u t => skipKey brackets u = .ok ⟨q.phase, q.brackets, t⟩) s q.rest := by
  unfold skipKey at h
  split at h
  · cases h
  rename_i b rest text
  split at h
  · rename_i quote
    split at h
    · cases h
    rename_i key skipped
    cases hColon : scanColon key with
    | error f =>
      rw [hColon] at h
      cases h
    | ok r =>
      rw [hColon] at h
      cases h
      refine ((takes_skipString skipped).andThen (takes_scanColon hColon)).afterBlanks text ?_
      rintro u v t text ⟨w, hw, ht⟩
      simp only [skipKey, text, if_pos quote, hw, ht]
      rfl
  · cases h

theorem Pending.takes_step {p q : Pending} (h : p.step = .ok q) :
    Takes (fun u t => (Pending.mk p.phase p.brackets u).step = .ok ⟨q.phase, q.brackets, t⟩)
      p.rest q.rest := by
  obtain ⟨phase, brackets, s⟩ := p
  -- A single byte that stands after blanks is taken.
  have single : ∀ {b : UInt8} {rest : Bytes}, skipBlank s = b :: rest → q.rest = rest →
      (∀ u t, skipBlank u = b :: t →
        (Pending.mk phase brackets u).step = .ok ⟨q.phase, q.brackets, t⟩) →
      Takes (fun u t => (Pending.mk phase brackets u).step = .ok ⟨q.phase, q.brackets, t⟩)
        s q.rest := by
    intro b rest text left step
    rw [left]
    exact Takes.afterBlanks (R := Eq) text (.nothing fun _ _ => rfl)
      fun u v t text taken => step u t (taken ▸ text)
  cases phase with
  | value => exact takes_skipHead h
  | key => exact takes_skipKey h
  | first =>
    cases brackets with
    | nil => exact takes_skipHead h
    | cons top below =>
      simp only [Pending.step] at h
      split at h
      · cases h
      rename_i b rest text
      split at h
      · rename_i closing
        cases h
        refine single text rfl fun u t text => ?_
        simp only [Pending.step, text, if_pos closing]
      · rename_i noClosing
        -- What begins here is scanned from its own first byte on, which is the same in every text.
        have deeper : ∀ {g : Bytes → Except Fault Pending},
            q.rest.length < (b :: rest).length →
            Takes (fun u t => g u = .ok ⟨q.phase, q.brackets, t⟩) (b :: rest) q.rest →
            (∀ u v, skipBlank u = b :: v →
              (Pending.mk .first (top :: below) u).step = g (b :: v)) →
            Takes (fun u t => (Pending.mk .first (top :: below) u).step
              = .ok ⟨q.phase, q.brackets, t⟩) s q.rest := by
          intro g less taken step
          refine (taken.tail (Nat.lt_succ_iff.mp less)).afterBlanks text fun u v t text taken => ?_
          rw [step u v text, taken]
        cases top with
        | list =>
          refine deeper (g := skipHead (.list :: below)) (skipHead_length h) (takes_skipHead h)
            fun u v text => ?_
          simp only [Pending.step, text, if_neg noClosing]
        | object =>
          refine deeper (g := skipKey (.object :: below)) (skipKey_length h) (takes_skipKey h)
            fun u v text => ?_
          simp only [Pending.step, text, if_neg noClosing]
  | after =>
    cases brackets with
    | nil => cases h
    | cons top below =>
      simp only [Pending.step] at h
      split at h
      · cases h
      rename_i b rest text
      split at h
      · rename_i comma
        cases top with
        | list =>
          cases h
          refine single text rfl fun u t text => ?_
          simp only [Pending.step, text, if_pos comma]
        | object =>
          cases h
          refine single text rfl fun u t text => ?_
          simp only [Pending.step, text, if_pos comma]
      · rename_i noComma
        split at h
        · rename_i closing
          cases h
          refine single text rfl fun u t text => ?_
          simp only [Pending.step, text, if_neg noComma, if_pos closing]
        · cases h

/-- A value that is not complete is passed over by one step and what comes after it. -/
theorem Pending.finish_eq {p : Pending} (h : ¬ (p.phase = .after ∧ p.brackets = [])) :
    p.finish = match p.step with
      | .error f => .error f
      | .ok q => q.finish := by
  rw [Pending.finish, if_neg h]
  cases p.step <;> rfl

/-- Passing over a value is one step after the other, so it takes their pieces together. -/
theorem Pending.takes_finish {p : Pending} {r : Bytes} (h : p.finish = .ok r) :
    Takes (fun u t => (Pending.mk p.phase p.brackets u).finish = .ok t) p.rest r := by
  induction length : p.rest.length using Nat.strongRecOn generalizing p with
  | ind n ih =>
    subst length
    by_cases complete : p.phase = .after ∧ p.brackets = []
    · rw [Pending.finish, if_pos complete] at h
      cases h
      refine .nothing fun t _ => ?_
      rw [Pending.finish, if_pos complete]
    · rw [Pending.finish_eq complete] at h
      split at h
      · cases h
      rename_i q step
      refine ((Pending.takes_step step).andThen (ih _ (Pending.step_length step) h rfl)).imp ?_
      rintro u t ⟨v, hv, ht⟩
      rw [Pending.finish_eq (p := ⟨p.phase, p.brackets, u⟩) complete, hv]
      exact ht

/-- A value that is passed over is a piece of the text. -/
theorem takes_skipValue {s r : Bytes} (h : skipValue s = .ok r) :
    Takes (fun u t => skipValue u = .ok t) s r :=
  Pending.takes_finish h

/-- A text that is passed over whole is passed over before every text that cannot go on with a
numeral. -/
theorem skipValue_append {v rest : Bytes} (h : skipValue v = .ok []) (stop : EndsNumeral rest) :
    skipValue (v ++ rest) = .ok rest := by
  obtain ⟨piece, text, taken⟩ := takes_skipValue h
  rw [List.append_nil] at text
  rw [text]
  exact taken rest (.inr stop)

end DiskQueue.Json
