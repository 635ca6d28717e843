/-
Module: DiskQueue.Proofs.ShortestHeader
Purpose: The header line that is written is the shortest that gives its values, so what
  has been read can be written again.
Trusted boundary: none
Main exports:
  Json.Spells.length_escaped_le, Json.textLength, Json.Members.textLength_lt,
  Record.Header.Given.length_line_le, Record.stored_again
-/
import DiskQueue.Proofs.RecordGrammar
import Mathlib.Data.List.Basic

namespace DiskQueue

/-!
A header may be written with blanks, with escapes where none are needed, with its fields
in any order and with members that are no fields. Each of these makes it longer. So its
length is bounded from below by its members alone, member by member, and the members
that are written again are among those that have been read.
-/

/-! ### Strings -/

namespace Json

/-- A byte of a character beyond ASCII is written as it is. -/
theorem escapeByte_of_high {b : UInt8} (h : 0x80 ≤ b) : escapeByte b = [b] := by
  have big : 128 ≤ b.toNat := UInt8.le_iff_toNat_le.mp h
  have low : ∀ c : UInt8, c.toNat < 128 → b ≠ c := by
    rintro c small rfl
    omega
  have printable : ¬ b < 0x20 := by
    intro less
    have small : b.toNat < 32 := less
    omega
  unfold escapeByte
  rw [if_neg (low _ (by decide)), if_neg (low _ (by decide)), if_neg (low _ (by decide)),
    if_neg (low _ (by decide)), if_neg (low _ (by decide)), if_neg (low _ (by decide)),
    if_neg (low _ (by decide)), if_neg printable]

theorem length_escapeByte_le (b : UInt8) : (escapeByte b).length ≤ 6 := by
  unfold escapeByte
  split_ifs <;> simp

/-- No character needs more than one numeric escape. -/
theorem length_escaped_char_le (c : Char) :
    ((Utf8.encodeChar c).flatMap escapeByte).length ≤ 6 := by
  have high : ∀ n, 128 ≤ n % 256 → escapeByte (UInt8.ofNat n) = [UInt8.ofNat n] := by
    intro n large
    apply escapeByte_of_high
    rw [UInt8.le_iff_toNat_le, UInt8.toNat_ofNat']
    exact large
  unfold Utf8.encodeChar String.utf8EncodeChar
  dsimp only
  split_ifs
  · simpa using length_escapeByte_le _
  · simp only [List.flatMap_cons, List.flatMap_nil]
    rw [high _ (by omega), high _ (by omega)]
    simp
  · simp only [List.flatMap_cons, List.flatMap_nil]
    rw [high _ (by omega), high _ (by omega), high _ (by omega)]
    simp
  · simp only [List.flatMap_cons, List.flatMap_nil]
    rw [high _ (by omega), high _ (by omega), high _ (by omega), high _ (by omega)]
    simp

/-- A byte that has a letter for its escape is not written with more than that. -/
theorem length_escapeByte_of_plain {e c : UInt8} (means : plainEscape? e = some c) :
    (escapeByte c).length ≤ 2 := by
  unfold plainEscape? at means
  split_ifs at means <;> cases means <;> decide

theorem length_of_scanHex4 {ds : Bytes} {n : Nat} (hex : scanHex4 ds = .ok (n, [])) :
    ds.length = 4 := by
  obtain ⟨a, b, c, d, rfl, -⟩ := hexValue?_of_scanHex4 hex
  rfl

/-- What an escape stands for is not written longer than the escape with its backslash. -/
theorem Escapes.length_escaped_le {esc bs : Bytes} (h : Escapes esc bs) :
    (bs.flatMap escapeByte).length ≤ esc.length + 1 := by
  cases h with
  | letter means => simpa using length_escapeByte_of_plain means
  | unicode hex scalar =>
    rw [List.length_cons, length_of_scanHex4 hex]
    exact length_escaped_char_le _
  | pair hexHigh hexLow rangeHigh rangeLow =>
    refine Nat.le_trans (length_escaped_char_le _) ?_
    simp only [List.length_cons, List.length_append, length_of_scanHex4 hexHigh]
    omega

theorem Spells.length_escaped_le {text bs : Bytes} (h : Spells text bs) :
    (bs.flatMap escapeByte).length ≤ text.length := by
  induction h with
  | nil => exact Nat.le_refl _
  | @plain b text bs noQuote noEscape printable more ih =>
    have bare : (escapeByte b).length = 1 := by
      unfold escapeByte
      split_ifs <;> first | rfl | simp_all
    rw [List.flatMap_cons, List.length_append, bare, List.length_cons]
    omega
  | escape means more ih =>
    have here := means.length_escaped_le
    simp only [List.flatMap_append, List.length_append, List.length_cons]
    omega

/-- No quotation of a string is shorter than the one that is written. -/
theorem Quotes.length_quoted_le {s : String} {v : Bytes} (h : Quotes s v) :
    (quoted s).length ≤ v.length := by
  obtain ⟨text, rfl, spells⟩ := h
  have inner := spells.length_escaped_le
  simp only [quoted, List.cons_append, List.length_cons, List.length_append, List.length_nil]
  omega

/-! ### Objects -/

/-- The bytes that members need: their keys and values, with a colon and a comma each. -/
def textLength : List (String × Bytes) → Nat
  | [] => 0
  | (key, v) :: ms => (quoted key).length + v.length + 2 + textLength ms

theorem textLength_append (ms ms' : List (String × Bytes)) :
    textLength (ms ++ ms') = textLength ms + textLength ms' := by
  induction ms with
  | nil => rw [List.nil_append, textLength, Nat.zero_add]
  | cons m ms ih =>
    rw [List.cons_append, textLength, textLength, ih]
    omega

/-- The rest of an object has its members and the brace. No comma is before the first member. -/
theorem Members.textLength_lt {first : Bool} {ms : List (String × Bytes)} {s : Bytes}
    (h : Members first ms s) : textLength ms < s.length + first.toNat := by
  induction h with
  | closed before =>
    rw [List.length_append, List.length_singleton]
    show 0 < _
    omega
  | member before name between after value more ih =>
    have quoted := name.length_quoted_le
    simp only [textLength, List.length_append, List.length_cons, Bool.toNat_true,
      Bool.toNat_false] at ih ⊢
    omega
  | comma before more ih =>
    simp only [List.length_append, List.length_cons, Bool.toNat_true, Bool.toNat_false] at ih ⊢
    omega

/-- An object is no shorter than its members and one brace; the other one takes the place of the
comma that is not there. -/
theorem IsObject.textLength_lt {ms : List (String × Bytes)} {text : Bytes} (h : IsObject ms text) :
    textLength ms < text.length := by
  obtain ⟨a, s, b, rfl, -, members, -⟩ := h
  have inside := members.textLength_lt
  simp only [List.length_append, List.length_cons, Bool.toNat_true] at inside ⊢
  omega

/-- What a written object has as its members. -/
def written (members : List (String × Json)) : List (String × Bytes) :=
  members.map fun m => (m.1, compact m.2)

theorem textLength_written_cons (m : String × Json) (members : List (String × Json)) :
    textLength (written (m :: members)) = (memberText m).length + 1 + textLength (written members) := by
  rw [written, List.map_cons, textLength, memberText, List.length_append, List.length_cons, written]
  omega

/-- A written object has no byte more than it needs. -/
theorem length_compact_object {members : List (String × Json)} (some : members ≠ []) :
    (compact (.object members)).length = textLength (written members) + 1 := by
  have later : ∀ ms : List (String × Json),
      (ms.flatMap fun m => 0x2C :: memberText m).length = textLength (written ms) := by
    intro ms
    induction ms with
    | nil => rfl
    | cons m ms ih =>
      rw [List.flatMap_cons, List.length_append, ih, textLength_written_cons, List.length_cons]
  cases members with
  | nil => exact absurd rfl some
  | cons m ms =>
    rw [compact, compactMembers_cons, textLength_written_cons, List.cons_append, List.length_cons,
      List.length_append, List.length_append, later, List.length_singleton]
    omega

/-- Members with distinct keys that are all found among others, with values that are no shorter
there, need no more bytes than those. -/
theorem textLength_le {fewer : List (String × Bytes)} (distinct : (fewer.map Prod.fst).Nodup)
    {ms : List (String × Bytes)}
    (found : ∀ m ∈ fewer, ∃ v, (m.1, v) ∈ ms ∧ m.2.length ≤ v.length) :
    textLength fewer ≤ textLength ms := by
  induction fewer generalizing ms with
  | nil => exact Nat.zero_le _
  | cons m fewer ih =>
    obtain ⟨key, v⟩ := m
    rw [List.map_cons, List.nodup_cons] at distinct
    obtain ⟨w, there, long⟩ := found (key, v) List.mem_cons_self
    obtain ⟨before, behind, rfl⟩ := List.append_of_mem there
    have rest : textLength fewer ≤ textLength (before ++ behind) := by
      apply ih distinct.2
      intro other mem
      obtain ⟨x, inside, longer⟩ := found other (List.mem_cons_of_mem _ mem)
      refine ⟨x, ?_, longer⟩
      have different : (other.1, x) ≠ (key, w) := by
        intro same
        exact distinct.1 (List.mem_map.mpr ⟨other, mem, (Prod.mk.inj same).1⟩)
      simpa [different] using inside
    rw [textLength_append] at rest ⊢
    simp only [textLength] at long ⊢
    omega

end Json

/-! ### Header lines -/

namespace Record

open Json (IsObject Quotes)

theorem mem_of_valuesOf {key : String} {v : Bytes} {ms : List (String × Bytes)}
    (one : valuesOf key ms = [v]) : (key, v) ∈ ms := by
  have mem : v ∈ valuesOf key ms := by simp [one]
  obtain ⟨⟨other, w⟩, kept, rfl⟩ := List.mem_map.mp mem
  obtain ⟨inside, same⟩ := List.mem_filter.mp kept
  cases beq_iff_eq.mp same
  exact inside

namespace Header

variable {h : Header} {ms : List (String × Bytes)}

/-- The keys of a written header are distinct. -/
theorem nodup_members (h : Header) : (h.members.map Prod.fst).Nodup := by
  have keys : ["format", "kind", "content_type", "content_encoding", "len"].Nodup := by decide
  refine List.Nodup.sublist ?_ keys
  unfold members
  split_ifs <;> simp

/-- A label that is written is one that was given. -/
theorem IsLabel.written {key label : String} (given : IsLabel key label ms) (named : label ≠ "") :
    ∃ v, (key, v) ∈ ms ∧ (Json.compact (.string label)).length ≤ v.length := by
  rcases given with ⟨-, empty⟩ | ⟨v, one, quotes⟩
  · exact absurd empty named
  · rw [compact_string]
    exact ⟨v, mem_of_valuesOf one, quotes.length_quoted_le⟩

/-- Every member of the written header is given, in a text that is no shorter. -/
theorem Given.written (given : h.Given ms) :
    ∀ m ∈ h.members, ∃ v, (m.1, v) ∈ ms ∧ (Json.compact m.2).length ≤ v.length := by
  have number : ∀ {key : String} {n : Nat}, valuesOf key ms = [Decimal.digits n] →
      ∃ v, (key, v) ∈ ms ∧ (Json.compact (.number (.integer n))).length ≤ v.length := by
    intro key n one
    rw [compact_natCast]
    exact ⟨_, mem_of_valuesOf one, Nat.le_refl _⟩
  intro m mem
  simp only [members, List.mem_append, List.mem_cons, List.not_mem_nil, or_false] at mem
  rcases mem with (((rfl | rfl) | mem) | mem) | rfl
  · exact number given.format.2
  · obtain ⟨v, one, quotes⟩ := given.kind
    rw [compact_string]
    exact ⟨v, mem_of_valuesOf one, quotes.length_quoted_le⟩
  · split_ifs at mem with named
    · cases mem
    · rw [List.mem_singleton.mp mem]
      exact given.contentType.written named
  · split_ifs at mem with named
    · cases mem
    · rw [List.mem_singleton.mp mem]
      exact given.contentEncoding.written named
  · exact number given.length.2

/-- The written header line is the shortest of all objects that give the header. -/
theorem Given.length_line_le {line : Bytes} (given : h.Given ms) (object : IsObject ms line) :
    h.line.length ≤ line.length := by
  have needed : Json.textLength (Json.written h.members) ≤ Json.textLength ms := by
    apply Json.textLength_le
    · rw [Json.written, List.map_map]
      exact nodup_members h
    · intro m mem
      obtain ⟨member, inside, rfl⟩ := List.mem_map.mp mem
      exact given.written member inside
  have some : h.members ≠ [] := by simp [members]
  calc h.line.length = Json.textLength (Json.written h.members) + 1 :=
        Json.length_compact_object some
    _ ≤ Json.textLength ms + 1 := Nat.succ_le_succ needed
    _ ≤ line.length := object.textLength_lt

end Header

/-! ### Writing again -/

/-- A transmission whose header line is short is written, and its record is read back. -/
theorem encode_of_short {t : Transmission}
    (short : (Header.ofTransmission t).line.length ≤ maxHeaderLength)
    (h64 : t.content.length < 2 ^ 64) :
    encode t = .ok ((Header.ofTransmission t).line ++ newline :: t.content) ∧
      decode ((Header.ofTransmission t).line ++ newline :: t.content) = .ok t := by
  have written : encode t = .ok ((Header.ofTransmission t).line ++ newline :: t.content) :=
    parts_of_short short t.content
  exact ⟨written, decode_of_encode written h64⟩

/-- What has been read can be written again and is read back as it was, however its header was
spelled. The record of a transmission does not become longer. -/
theorem stored_again {bs : Bytes} {t : Transmission} (short : bs.length < 2 ^ 63)
    (decoded : decode bs = .ok t) :
    ∃ record, encode t = .ok record ∧ decode record = .ok t ∧
      ∀ line body, splitLine maxHeaderLength bs = some (line, body) →
        Kind.readTag line = .ok Kind.transmission.tag → record.length ≤ bs.length := by
  obtain ⟨line, body, ms, rfl, first, within, object⟩ := exists_object_of_decode decoded
  have h64 : body.length < 2 ^ 64 := by
    rw [List.length_append, List.length_cons] at short
    omega
  have split : splitLine maxHeaderLength (line ++ newline :: body) = some (line, body) :=
    splitLine_iff.mpr ⟨rfl, first, within⟩
  obtain ⟨kind, contentType, contentEncoding, given, rfl⟩ :=
    (decode_object_iff object first within).mp decoded
  cases kind with
  | transmission =>
    have shorter := given.length_line_le object
    obtain ⟨written, read⟩ := encode_of_short
      (t := Kind.transmission.received body contentType contentEncoding)
      (Nat.le_trans shorter within) h64
    refine ⟨_, written, read, ?_⟩
    intro _ _ _ _
    rw [List.length_append, List.length_append]
    exact Nat.add_le_add_right shorter _
  | rawBytes =>
    obtain ⟨written, read⟩ := encode_of_short
      (t := Kind.rawBytes.received body contentType contentEncoding)
      (length_line_unlabelled .transmission h64) h64
    refine ⟨_, written, read, ?_⟩
    intro _ _ found tagged
    cases split.symm.trans found
    obtain ⟨v, one, quotes⟩ := given.kind
    obtain ⟨w, one', quotes'⟩ := (readTag_object_iff object).mp tagged
    cases one.symm.trans one'
    exact absurd (quotes.unique quotes') (show Kind.rawBytes.tag ≠ Kind.transmission.tag by decide)

/-- A header with escapes that are not needed, blanks, fields in another order and a member of no
meaning. -/
theorem stored_again_of_escapes :
    let bs := Utf8.encode
      ("\x7b\"len\":2, \"kind\":\"tr\\u0061nsmission\",\"note\":[1],"
        ++ "\"content_type\":\"\\ud83d\\ude00\\u0001\",\"format\":1\x7d\nhi")
    let t : Transmission := ⟨[0x68, 0x69], "😀\x01", ""⟩
    bs.length < 2 ^ 63 ∧ decode bs = .ok t ∧
      (∃ line body, splitLine maxHeaderLength bs = some (line, body) ∧
        Kind.readTag line = .ok Kind.transmission.tag) ∧
      ∃ record, encode t = .ok record ∧ decode record = .ok t ∧ record.length ≤ bs.length := by
  intro bs t
  have short : bs.length < 2 ^ 63 := by decide +kernel
  have read : decode bs = .ok t := by decide +kernel
  obtain ⟨line, body, kind, h, text, first, within, tagged, -, -, -, received⟩ :=
    decode_eq_ok_iff.mp read
  obtain ⟨record, written, back, shorter⟩ := stored_again short read
  have split := splitLine_iff.mpr ⟨text, first, within⟩
  have tag : Kind.readTag line = .ok Kind.transmission.tag := by
    cases kind with
    | transmission => exact tagged
    | rawBytes =>
      have bare : t.contentType = "" := congrArg Transmission.contentType received
      exact absurd bare (by decide)
  exact ⟨short, read, ⟨line, body, split, tag⟩, record, written, back, shorter line body split tag⟩

end Record
end DiskQueue
