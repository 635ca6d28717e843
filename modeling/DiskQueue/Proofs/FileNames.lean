/-
Module: DiskQueue.Proofs.FileNames
Purpose: Generated names are names of entries and tell what they were made of.
Trusted boundary: none
Main exports:
  ProcessToken.IsValid, FileNames.isProper_withExtension, FileNames.baseName?_join,
  FileNames.generated_injective
-/
import DiskQueue.FileNames
import DiskQueue.Proofs.Digits
import DiskQueue.Proofs.Paths

namespace DiskQueue

namespace Utf8

/-- The bytes of a text are those of its characters. -/
theorem encode_eq_flatMap (s : String) : encode s = s.toList.flatMap encodeChar := by
  have bytes : s.toByteArray = s.toList.utf8Encode := String.utf8Encode_toList.symm
  rw [encode, bytes, List.utf8Encode, List.data_toByteArray, List.toList_toArray]
  rfl

theorem encodeChar_of_ascii {c : Char} (h : c.val ≤ 0x7F) : encodeChar c = [c.val.toUInt8] :=
  String.utf8EncodeChar_eq_singleton (by simp [Char.utf8Size, h])

/-- Bytes below 128 are text. -/
theorem isText_of_ascii {bs : Bytes} (h : ∀ b ∈ bs, b < 0x80) : isText bs = true := by
  have char : ∀ n < 128, encodeChar (Char.ofNat n) = [UInt8.ofNat n] := by decide
  have text : encode (String.ofList (bs.map fun b => Char.ofNat b.toNat)) = bs := by
    rw [encode_eq_flatMap, String.toList_ofList]
    induction bs with
    | nil => rfl
    | cons b bs ih =>
      rw [List.map_cons, List.flatMap_cons, char b.toNat (h b List.mem_cons_self),
        ih fun c hc => h c (List.mem_cons_of_mem _ hc), UInt8.ofNat_toNat]
      rfl
  rw [isText, ← text, decode?_encode]
  rfl

/-- A character of several bytes has no byte of ASCII. -/
theorem encodeChar_eq_singleton {c : Char} {b : UInt8} (h : b ∈ encodeChar c) (ascii : b < 0x80) :
    encodeChar c = [b] := by
  have low : b.toNat < 128 := ascii
  unfold encodeChar String.utf8EncodeChar at h ⊢
  simp only at h ⊢
  split
  · rename_i single
    rw [if_pos single, List.mem_singleton] at h
    rw [h]
  · rename_i several
    exfalso
    rw [if_neg several] at h
    split at h
    · simp only [List.mem_cons, List.not_mem_nil, or_false] at h
      rcases h with rfl | rfl <;> rw [UInt8.toNat_ofNat'] at low <;> omega
    split at h
    · simp only [List.mem_cons, List.not_mem_nil, or_false] at h
      rcases h with rfl | rfl | rfl <;> rw [UInt8.toNat_ofNat'] at low <;> omega
    · simp only [List.mem_cons, List.not_mem_nil, or_false] at h
      rcases h with rfl | rfl | rfl | rfl <;> rw [UInt8.toNat_ofNat'] at low <;> omega

/-- What stands before a byte of ASCII in a text is a text. -/
theorem isText_of_append {a rest : Bytes} {b : UInt8} (ascii : b < 0x80)
    (h : isText (a ++ b :: rest) = true) : isText a = true := by
  obtain ⟨s, decoded⟩ := Option.isSome_iff_exists.mp h
  have bytes := encode_of_decode? decoded
  rw [encode_eq_flatMap] at bytes
  have part : ∃ chars : List Char, chars.flatMap encodeChar = a := by
    clear h decoded
    generalize s.toList = chars at bytes
    induction chars generalizing a with
    | nil => simp at bytes
    | cons c chars ih =>
      rw [List.flatMap_cons, List.append_eq_append_iff] at bytes
      rcases bytes with ⟨behind, rfl, more⟩ | ⟨behind, whole, more⟩
      · obtain ⟨others, rfl⟩ := ih more
        exact ⟨c :: others, List.flatMap_cons⟩
      · cases behind with
        | nil => exact ⟨[c], by simpa using whole⟩
        | cons first behind =>
          -- The byte of ASCII is the whole character.
          cases more
          have single := encodeChar_eq_singleton (c := c) (by simp [whole]) ascii
          rw [whole] at single
          refine ⟨[], ?_⟩
          cases a with
          | nil => rfl
          | cons x a => simp at single
  obtain ⟨chars, rfl⟩ := part
  have text : encode (String.ofList chars) = chars.flatMap encodeChar := by
    rw [encode_eq_flatMap, String.toList_ofList]
  rw [isText, ← text, decode?_encode]
  rfl

end Utf8

namespace ProcessToken

/-- A token with eight characters of the alphabet. -/
def IsValid (token : ProcessToken) : Prop := isWellFormed token.text = true

instance (token : ProcessToken) : Decidable token.IsValid :=
  inferInstanceAs (Decidable (isWellFormed token.text = true))

theorem length_bytes {token : ProcessToken} (h : token.IsValid) : token.bytes.length = 8 := by
  unfold IsValid isWellFormed at h
  rw [Bool.and_eq_true, decide_eq_true_eq] at h
  exact h.1

/-- The bytes of a token are lower-case letters and digits. -/
theorem mem_bytes {token : ProcessToken} (h : token.IsValid) {b : UInt8} (hb : b ∈ token.bytes) :
    0x32 ≤ b ∧ b ≤ 0x7A ∧ Path.slash ≠ b ∧ Path.dot ≠ b ∧ b ≠ 0x2D := by
  have all : alphabet.all fun c => c.val ≤ 0x7F ∧ 0x32 ≤ c.val.toUInt8 ∧ c.val.toUInt8 ≤ 0x7A
      ∧ Path.slash ≠ c.val.toUInt8 ∧ Path.dot ≠ c.val.toUInt8 ∧ c.val.toUInt8 ≠ 0x2D := by
    decide
  have letters : ∀ c ∈ alphabet, c.val ≤ 0x7F ∧ 0x32 ≤ c.val.toUInt8 ∧ c.val.toUInt8 ≤ 0x7A
      ∧ Path.slash ≠ c.val.toUInt8 ∧ Path.dot ≠ c.val.toUInt8 ∧ c.val.toUInt8 ≠ 0x2D :=
    fun c mem => of_decide_eq_true (List.all_eq_true.mp all c mem)
  unfold IsValid isWellFormed at h
  rw [Bool.and_eq_true, List.all_eq_true] at h
  rw [bytes, Utf8.encode_eq_flatMap, List.mem_flatMap] at hb
  obtain ⟨c, hc, hb⟩ := hb
  have mem : c ∈ alphabet := by simpa using h.2 c hc
  obtain ⟨ascii, facts⟩ := letters c mem
  rw [Utf8.encodeChar_of_ascii ascii, List.mem_singleton] at hb
  subst hb
  exact facts

theorem bytes_injective {a b : ProcessToken} (h : a.bytes = b.bytes) : a = b := by
  cases a
  cases b
  exact congrArg ProcessToken.mk (Utf8.encode_injective h)

end ProcessToken

namespace FileNames

/-! ### Extensions -/

/-- The two extensions of the files of a queue. -/
def extensions : List Name := [committed, temporary]

/-- The name of the file of a record that can be taken. -/
abbrev asCommitted (base : Name) : Name := withExtension base committed

/-- The name of the file of a record that is being written or read. -/
abbrev asTemporary (base : Name) : Name := withExtension base temporary

theorem committed_mem_extensions : committed ∈ extensions := List.mem_cons_self

theorem temporary_mem_extensions : temporary ∈ extensions := by simp [extensions]

theorem length_extension {extension : Name} (h : extension ∈ extensions) :
    extension.length = 3 := by
  revert extension
  decide

theorem notMem_extension {extension : Name} (h : extension ∈ extensions) :
    Path.slash ∉ extension ∧ Path.dot ∉ extension ∧ (0 : UInt8) ∉ extension := by
  revert extension
  decide

theorem isProper_withExtension {base extension : Name} (h : extension ∈ extensions)
    (slash : Path.slash ∉ base) : (withExtension base extension).IsProper := by
  have three := length_extension h
  have long : 4 ≤ (withExtension base extension).length := by
    rw [withExtension, List.length_append, List.length_cons, three]
    omega
  refine ⟨?_, ?_, ?_, ?_⟩
  · rintro empty
    rw [empty] at long
    exact absurd long (by decide)
  · rw [withExtension, List.mem_append, List.mem_cons]
    rintro (mem | mem | mem)
    · exact slash mem
    · exact absurd mem (by decide)
    · exact (notMem_extension h).1 mem
  · rintro dot
    rw [dot] at long
    exact absurd long (by decide)
  · rintro dots
    rw [dots] at long
    exact absurd long (by decide)

theorem withExtension_injective {a b extension : Name}
    (h : withExtension a extension = withExtension b extension) : a = b :=
  List.append_cancel_right h

/-- No name has both extensions. -/
theorem committed_ne_temporary (a b : Name) :
    withExtension a committed ≠ withExtension b temporary := by
  intro h
  have last := congrArg List.getLast? h
  rw [withExtension, withExtension, List.getLast?_append_cons, List.getLast?_append_cons] at last
  exact absurd last (by decide)

theorem hasExtension_withExtension {base extension : Name} (hb : base ≠ [])
    (slash : Path.slash ∉ base) (h : extension ∈ extensions) :
    hasExtension (withExtension base extension) extension = true := by
  rw [hasExtension, Path.extension?, Path.fileName?_of_isProper (isProper_withExtension h slash)]
  simp only [Option.bind_some, withExtension,
    Path.splitExtension_append hb (notMem_extension h).2.1, decide_true]

/-- A name with an extension consists of a base name and that extension. -/
theorem eq_withExtension {name extension : Name} (h : name.IsProper)
    (has : hasExtension name extension = true) :
    ∃ base, base ≠ [] ∧ name = withExtension base extension
      ∧ ∀ directory : Path, baseName? (directory.join name) = if Utf8.isText base then some base
        else none := by
  rw [hasExtension, decide_eq_true_eq, Path.extension?, Path.fileName?_of_isProper h,
    Option.bind_some] at has
  cases hsplit : Path.splitExtension name with
  | mk base rest =>
    rw [hsplit] at has
    subst has
    obtain ⟨nonempty, eq⟩ := Path.eq_append_of_splitExtension hsplit
    refine ⟨base, nonempty, eq, fun directory => ?_⟩
    rw [baseName?, Path.stem?, Path.fileName?_join directory h, Option.map_some, hsplit]
    simp [Option.filter]

/-- The base name of a file of a queue is what stands before the extension, if it is text. -/
theorem baseName?_join_eq (directory : Path) {base extension : Name} (hb : base ≠ [])
    (slash : Path.slash ∉ base) (h : extension ∈ extensions) :
    baseName? (directory.join (withExtension base extension))
      = if Utf8.isText base then some base else none := by
  obtain ⟨other, -, eq, read⟩ := eq_withExtension (isProper_withExtension h slash)
    (hasExtension_withExtension hb slash h)
  rw [read, ← withExtension_injective eq]

theorem baseName?_join (directory : Path) {base extension : Name} (hb : base ≠ [])
    (slash : Path.slash ∉ base) (h : extension ∈ extensions) (text : Utf8.isText base = true) :
    baseName? (directory.join (withExtension base extension)) = some base := by
  rw [baseName?_join_eq directory hb slash h, text, if_pos rfl]

theorem eq_of_baseName?_join {directory : Path} {base extension read : Name} (hb : base ≠ [])
    (slash : Path.slash ∉ base) (h : extension ∈ extensions)
    (found : baseName? (directory.join (withExtension base extension)) = some read) :
    read = base := by
  rw [baseName?_join_eq directory hb slash h] at found
  split at found
  · exact (Option.some.inj found).symm
  · cases found

/-! ### Generated names

A generated name is cut apart from its ends: the number behind the last hyphen, then
the eight characters of the token, then the time. -/

theorem mem_padded {width : Nat} {n : Int} {b : UInt8} (h : b ∈ Decimal.padded width n) :
    b = 0x2D ∨ Decimal.isDigit b = true := by
  have pad : ∀ (w m : Nat), b ∈ Decimal.zeroPad w (Decimal.digits m) → Decimal.isDigit b = true := by
    intro w m mem
    rw [Decimal.zeroPad, List.mem_append] at mem
    rcases mem with zero | digit
    · rw [List.eq_of_mem_replicate zero]
      decide
    · exact Decimal.isDigit_of_mem_digits digit
  unfold Decimal.padded at h
  split at h
  · rcases List.mem_cons.mp h with sign | mem
    · exact .inl sign
    · exact .inr (pad _ _ mem)
  · exact .inr (pad _ _ h)

/-- The bytes of generated names stand for themselves in text and in paths. -/
theorem mem_generated {millis : Int} {token : ProcessToken} (h : token.IsValid) {sequence : UInt64}
    {b : UInt8} (hb : b ∈ generated millis token sequence) :
    b < 0x80 ∧ Path.slash ≠ b ∧ Path.dot ≠ b ∧ (0 : UInt8) ≠ b := by
  have word : ∀ b ∈ Utf8.encode "Transmission",
      b < 0x80 ∧ Path.slash ≠ b ∧ Path.dot ≠ b ∧ (0 : UInt8) ≠ b := by decide +kernel
  have sign : ∀ b : UInt8, b = 0x2D → b < 0x80 ∧ Path.slash ≠ b ∧ Path.dot ≠ b ∧ 0 ≠ b := by
    rintro b rfl
    decide
  have digit : ∀ b : UInt8, b = 0x2D ∨ Decimal.isDigit b = true →
      b < 0x80 ∧ Path.slash ≠ b ∧ Path.dot ≠ b ∧ 0 ≠ b := by
    rintro b (hyphen | digit)
    · exact sign b hyphen
    · rw [Decimal.isDigit, Bool.and_eq_true, decide_eq_true_eq, decide_eq_true_eq] at digit
      refine ⟨UInt8.lt_of_le_of_lt digit.2 (show (0x39 : UInt8) < 0x80 by decide), ?_, ?_, ?_⟩ <;>
        rintro rfl <;>
        exact absurd digit.1 (by decide)
  simp only [generated, List.mem_append, List.mem_cons] at hb
  rcases hb with ((mem | eq | mem) | eq | mem) | eq | mem
  · exact word b mem
  · exact sign b eq
  · exact digit b (mem_padded mem)
  · exact sign b eq
  · obtain ⟨low, high, slash, dot, -⟩ := ProcessToken.mem_bytes h mem
    refine ⟨UInt8.lt_of_le_of_lt high (show (0x7A : UInt8) < 0x80 by decide), slash, dot, ?_⟩
    rintro rfl
    exact absurd low (by decide)
  · exact sign b eq
  · exact digit b (mem_padded mem)

theorem generated_ne_nil (millis : Int) (token : ProcessToken) (sequence : UInt64) :
    generated millis token sequence ≠ [] := by
  simp [generated]

theorem slash_notMem_generated {millis : Int} {token : ProcessToken} (h : token.IsValid)
    {sequence : UInt64} : Path.slash ∉ generated millis token sequence :=
  fun mem => (mem_generated h mem).2.1 rfl

theorem isText_generated {millis : Int} {token : ProcessToken} (h : token.IsValid)
    {sequence : UInt64} : Utf8.isText (generated millis token sequence) = true :=
  Utf8.isText_of_ascii fun _ mem => (mem_generated h mem).1

/-- The base name of a staged file is the one that was generated. -/
theorem baseName?_join_staging (directory : Path) {millis : Int} {token : ProcessToken}
    (h : token.IsValid) {sequence : UInt64} :
    baseName? (directory.join (staging millis token sequence))
      = some (generated millis token sequence) :=
  baseName?_join directory (generated_ne_nil _ _ _) (slash_notMem_generated h) (by decide)
    (isText_generated h)

/-- The base name of a file that is being written is the one that was generated for it. -/
theorem baseName?_staging {token : ProcessToken} (h : token.IsValid) (millis : Int)
    (sequence : UInt64) :
    baseName? (staging millis token sequence) = some (generated millis token sequence) := by
  have joined : Path.join [] (staging millis token sequence) = staging millis token sequence := by
    simp [Path.join]
  rw [← joined]
  exact baseName?_join_staging [] h

/-- Zeros in front do not change the number that digits stand for. -/
theorem number_zeroPad (width n : Nat) :
    Decimal.number ((Decimal.zeroPad width (Decimal.digits n)).map Decimal.digitValue) = n := by
  have zeros : ∀ k, Decimal.number ((List.replicate k (0x30 : UInt8)).map Decimal.digitValue) = 0 := by
    intro k
    induction k with
    | zero => rfl
    | succ k ih =>
      rw [List.replicate_succ', List.map_append, Decimal.number_append, ih]
      rfl
  rw [Decimal.zeroPad, List.map_append, Decimal.number_append, zeros, Decimal.number_digits,
    Nat.mul_zero, Nat.zero_add]

theorem isDigit_of_mem_zeroPad {width n : Nat} {b : UInt8}
    (h : b ∈ Decimal.zeroPad width (Decimal.digits n)) : Decimal.isDigit b = true := by
  rw [Decimal.zeroPad, List.mem_append] at h
  rcases h with zero | digit
  · rw [List.eq_of_mem_replicate zero]
    decide
  · exact Decimal.isDigit_of_mem_digits digit

theorem padded_natCast (width n : Nat) :
    Decimal.padded width n = Decimal.zeroPad width (Decimal.digits n) := by
  rw [Decimal.padded, if_neg (by omega), Int.natAbs_natCast]

/-- Different numbers are padded to different texts. -/
theorem padded_injective {width : Nat} {m n : Int}
    (h : Decimal.padded width m = Decimal.padded width n) : m = n := by
  have sign : ∀ (w k v : Nat) (rest : Bytes),
      Decimal.zeroPad w (Decimal.digits k) ≠ 0x2D :: rest := by
    intro w k v rest eq
    have mem : (0x2D : UInt8) ∈ Decimal.zeroPad w (Decimal.digits k) := by
      rw [eq]
      exact List.mem_cons_self
    exact absurd (isDigit_of_mem_zeroPad mem) (by decide)
  have value : ∀ {w k l : Nat},
      Decimal.zeroPad w (Decimal.digits k) = Decimal.zeroPad w (Decimal.digits l) → k = l := by
    intro w k l eq
    rw [← number_zeroPad w k, eq, number_zeroPad]
  unfold Decimal.padded at h
  split_ifs at h with hm hn hn
  · have := value (List.cons.inj h).2
    omega
  · exact absurd h.symm (sign _ _ 0 _)
  · exact absurd h (sign _ _ 0 _)
  · have := value h
    omega

/-- What stands before the first separator and what stands behind it are determined. -/
theorem append_cons_inj_of_first {a b c d : Bytes} {s : UInt8} (ha : s ∉ a) (hc : s ∉ c)
    (h : a ++ s :: b = c ++ s :: d) : a = c ∧ b = d := by
  induction a generalizing c with
  | nil =>
    cases c with
    | nil => exact ⟨rfl, (List.cons.inj h).2⟩
    | cons y c => exact absurd (List.cons.inj h).1 (fun e => hc (e ▸ List.mem_cons_self))
  | cons x a ih =>
    cases c with
    | nil => exact absurd (List.cons.inj h).1.symm (fun e => ha (e ▸ List.mem_cons_self))
    | cons y c =>
      obtain ⟨head, tail⟩ := List.cons.inj h
      rw [List.mem_cons, not_or] at ha hc
      obtain ⟨same, rest⟩ := ih ha.2 hc.2 tail
      exact ⟨by rw [head, same], rest⟩

/-- What stands before the last separator and what stands behind it are determined. -/
theorem append_cons_inj {a b c d : Bytes} {s : UInt8} (hb : s ∉ b) (hd : s ∉ d)
    (h : a ++ s :: b = c ++ s :: d) : a = c ∧ b = d := by
  have back := congrArg List.reverse h
  rw [List.reverse_append, List.reverse_append, List.reverse_cons, List.reverse_cons,
    List.append_assoc, List.append_assoc] at back
  obtain ⟨behind, before⟩ := append_cons_inj_of_first (by simpa using hb) (by simpa using hd) back
  exact ⟨List.reverse_injective before, List.reverse_injective behind⟩

/-- A generated name tells the time, the token and the number that it was made of. -/
theorem generated_injective {m n : Int} {a b : ProcessToken} (ha : a.IsValid) (hb : b.IsValid)
    {s t : UInt64} (h : generated m a s = generated n b t) : m = n ∧ a = b ∧ s = t := by
  have hyphenless : ∀ k : Nat, hyphen ∉ Decimal.padded 6 (k : Int) := by
    intro k mem
    rw [padded_natCast] at mem
    exact absurd (isDigit_of_mem_zeroPad mem) (by decide)
  obtain ⟨front, number⟩ := append_cons_inj (hyphenless _) (hyphenless _) h
  have length : (hyphen :: a.bytes).length = (hyphen :: b.bytes).length := by
    simp [ProcessToken.length_bytes ha, ProcessToken.length_bytes hb]
  obtain ⟨time, token⟩ := List.append_inj' front length
  have millis := (List.cons.inj (List.append_cancel_left time)).2
  have sequence : (s.toNat : Int) = t.toNat := padded_injective number
  refine ⟨padded_injective millis, ProcessToken.bytes_injective (List.cons.inj token).2, ?_⟩
  exact UInt64.toNat_inj.mp (by omega)

/-! ### Names that carry a token -/

theorem contains_append (before part behind : Name) :
    contains part (before ++ part ++ behind) = true := by
  induction before with
  | nil =>
    rw [List.nil_append]
    cases whole : part ++ behind with
    | nil =>
      rw [(List.append_eq_nil_iff.mp whole).1]
      rfl
    | cons b rest =>
      rw [contains, ← whole]
      simp
  | cons b before ih =>
    rw [List.cons_append, List.cons_append, contains, ih, Bool.or_true]

/-- Generated names carry the token that they were made with. -/
theorem contains_generated (millis : Int) (token : ProcessToken) (sequence : UInt64)
    (extension : Name) :
    contains token.bytes (withExtension (generated millis token sequence) extension) = true := by
  have parts : withExtension (generated millis token sequence) extension
      = (Utf8.encode "Transmission" ++ hyphen :: Decimal.padded 13 millis ++ [hyphen])
        ++ token.bytes
        ++ (hyphen :: Decimal.padded 6 sequence.toNat ++ Path.dot :: extension) := by
    simp [withExtension, generated]
  rw [parts]
  exact contains_append _ _ _

/-- A name that ends in a token has no extension. -/
theorem append_bytes_ne_withExtension (start : Name) {token : ProcessToken} (h : token.IsValid)
    {base extension : Name} (he : extension ∈ extensions) :
    start ++ token.bytes ≠ withExtension base extension := by
  intro same
  have three := length_extension he
  have eight := ProcessToken.length_bytes h
  rcases List.append_eq_append_iff.mp same with ⟨more, -, bytes⟩ | ⟨more, -, bytes⟩
  · have dot : Path.dot ∈ token.bytes := by
      rw [bytes]
      simp
    exact (ProcessToken.mem_bytes h dot).2.2.2.1 rfl
  · have length := congrArg List.length bytes
    rw [List.length_append, List.length_cons, three, eight] at length
    omega

end FileNames
end DiskQueue
