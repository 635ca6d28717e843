/-
Module: DiskQueue.Proofs.RecordRoundTrip
Purpose: A record is written exactly when its header line is short enough to be
  found again, and then it is read back as it was.
Trusted boundary: none
Main exports:
  Record.Header.read_line, Record.Kind.readTag_line, Record.splitLine_append,
  Record.round_trip
-/
import DiskQueue.Proofs.JsonText
import DiskQueue.Record

namespace DiskQueue.Record

open Json (EndsNumeral Shape)

/-! ### The members of a header

Both readers of a header line go through the same members. The one that only wants
the kind passes over the others, the other one takes each of them into its draft. -/

theorem scanColon_colon (rest : Bytes) : Json.scanColon (0x3A :: rest) = .ok rest := by
  rw [Json.scanColon, Json.skipBlank_cons (by decide)]
  rfl

/-- A member that is no field is passed over if its value is. -/
theorem readMember_unknown {α : Type} {shape : Shape α} {draft : α} {key : String}
    {value rest : Bytes} (unknown : shape.field? key = none)
    (skip : Json.skipValue (value ++ rest) = .ok rest) :
    shape.readMember draft key (0x3A :: (value ++ rest)) = .ok (draft, rest) := by
  simp only [Shape.readMember, unknown, scanColon_colon, skip]
  rfl

/-- The value of a field that has not been read yet goes into the draft. -/
theorem readMember_field {α : Type} {shape : Shape α} {draft next : α} {key : String}
    {field : Json.Field α} {value rest : Bytes} (known : shape.field? key = some field)
    (unset : field.isSet draft = false) (read : field.read draft (value ++ rest) = .ok (next, rest)) :
    shape.readMember draft key (0x3A :: (value ++ rest)) = .ok (next, rest) := by
  simp only [Shape.readMember, known, unset, scanColon_colon, read]
  rfl

theorem compact_natCast (n : Nat) : Json.compact (.number (.integer n)) = Decimal.digits n := by
  rw [Json.compact, Json.Number.print, Json.ofInt_natCast]

theorem compact_string (s : String) : Json.compact (.string s) = Json.quoted s := by
  rw [Json.compact]

namespace Kind

/-- A number that is no kind is passed over. -/
theorem fills_number (tag : Option String) {key : String} (h : shape.field? key = none) (n : Nat) :
    shape.Fills tag [(key, .number (.integer n))] tag := by
  refine .cons (fun rest stop => ?_) (.nil tag)
  rw [compact_natCast]
  exact readMember_unknown h (Json.skipValue_digits n stop)

/-- A label is passed over, whether it is written or not. -/
theorem fills_label (tag : Option String) {key : String} (h : shape.field? key = none)
    (label : String) :
    shape.Fills tag (if label = "" then [] else [(key, .string label)]) tag := by
  split
  · exact .nil tag
  · refine .cons (fun rest _ => ?_) (.nil tag)
    rw [compact_string]
    exact readMember_unknown h (Json.skipValue_quoted label rest)

/-- Of the members of a header the kind is taken. -/
theorem fills_members (h : Header) : shape.Fills none h.members (some h.kind) := by
  have kind : shape.Fills none [("kind", .string h.kind)] (some h.kind) := by
    refine .cons (fun rest _ => ?_) (.nil _)
    rw [compact_string]
    apply readMember_field rfl rfl
    simp only [Json.readString_quoted]
    rfl
  exact ((((fills_number none rfl h.format).append kind).append
    (fills_label _ rfl h.contentType)).append (fills_label _ rfl h.contentEncoding)).append
    (fills_number _ rfl h.length)

/-- The kind is read back from a header line. -/
theorem readTag_line (h : Header) : readTag h.line = .ok h.kind := by
  have read := Json.read_object (fills_members h) rfl []
  rw [List.append_nil] at read
  rw [readTag, Header.line, read]
  rfl

end Kind

namespace Header

/-- A label as it is found in a header line: one that is empty is not there. -/
def label? (label : String) : Option String := if label = "" then none else some label

theorem label?_getD (label : String) : (label? label).getD "" = label := by
  unfold label?
  split
  · rename_i h
    exact h.symm
  · rfl

/-- A label that is written goes into the draft, and one that is not leaves it as it is. -/
theorem fills_label {draft next : Draft} {key : String} (get : Draft → Option String)
    (set : Draft → String → Draft) (label : String)
    (known : shape.field? key = some (textField key false get set)) (unset : get draft = none)
    (absent : label? label = none → next = draft)
    (present : label? label = some label → next = set draft label) :
    shape.Fills draft (if label = "" then [] else [(key, .string label)]) next := by
  split
  · rename_i h
    rw [absent (if_pos h)]
    exact .nil draft
  · rename_i h
    rw [present (if_neg h)]
    refine .cons (fun rest _ => ?_) (.nil _)
    rw [compact_string]
    apply readMember_field known (by simp [textField, unset])
    simp only [textField, Json.readString_quoted]
    rfl

/-- A number within its bound goes into the draft. -/
theorem fills_number {draft : Draft} {key : String} (expected : String) {bound n : Nat}
    (get : Draft → Option Nat) (set : Draft → Nat → Draft)
    (known : shape.field? key = some (numberField key bound expected get set))
    (unset : get draft = none) (hn : n < bound) (h64 : n < 2 ^ 64) :
    shape.Fills draft [(key, .number (.integer n))] (set draft n) := by
  refine .cons (fun rest stop => ?_) (.nil _)
  rw [compact_natCast]
  apply readMember_field known (by simp [numberField, unset])
  simp only [numberField, Json.readNatBelow_digits hn h64 _ stop]
  rfl

/-- The members of a header fill a draft with all that it says. -/
theorem fills_members {h : Header} (hf : h.format < 2 ^ 32) (hl : h.length < 2 ^ 64) :
    shape.Fills .blank h.members
      ⟨some h.format, some h.kind, label? h.contentType, label? h.contentEncoding,
        some h.length⟩ := by
  have format : shape.Fills .blank [("format", .number (.integer h.format))]
      ⟨some h.format, none, none, none, none⟩ :=
    fills_number "u32" Draft.format (fun d n => { d with format := some n }) rfl rfl hf
      (hf.trans (by decide))
  have kind : shape.Fills ⟨some h.format, none, none, none, none⟩ [("kind", .string h.kind)]
      ⟨some h.format, some h.kind, none, none, none⟩ := by
    refine .cons (fun rest _ => ?_) (.nil _)
    rw [compact_string]
    apply readMember_field rfl rfl
    simp only [textField, Json.readString_quoted]
    rfl
  have contentType : shape.Fills ⟨some h.format, some h.kind, none, none, none⟩
      (if h.contentType = "" then [] else [("content_type", .string h.contentType)])
      ⟨some h.format, some h.kind, label? h.contentType, none, none⟩ :=
    fills_label Draft.contentType (fun d t => { d with contentType := some t })
      h.contentType rfl rfl (fun none => by rw [none]) (fun some => by rw [some])
  have contentEncoding : shape.Fills ⟨some h.format, some h.kind, label? h.contentType, none, none⟩
      (if h.contentEncoding = "" then [] else [("content_encoding", .string h.contentEncoding)])
      ⟨some h.format, some h.kind, label? h.contentType, label? h.contentEncoding, none⟩ :=
    fills_label Draft.contentEncoding (fun d t => { d with contentEncoding := some t })
      h.contentEncoding rfl rfl (fun none => by rw [none]) (fun some => by rw [some])
  have length : shape.Fills
      ⟨some h.format, some h.kind, label? h.contentType, label? h.contentEncoding, none⟩
      [("len", .number (.integer h.length))]
      ⟨some h.format, some h.kind, label? h.contentType, label? h.contentEncoding,
        some h.length⟩ :=
    fills_number "u64" Draft.length (fun d n => { d with length := some n }) rfl rfl hl hl
  exact (((format.append kind).append contentType).append contentEncoding).append length

/-- A header is read back from its line. -/
theorem read_line {h : Header} (hf : h.format < 2 ^ 32) (hl : h.length < 2 ^ 64) :
    Header.read h.line = .ok h := by
  have read := Json.read_object (fills_members hf hl) rfl []
  rw [List.append_nil] at read
  rw [Header.read, Header.line, read]
  show Except.ok _ = Except.ok h
  simp only [Draft.complete, label?_getD, Option.getD_some]

/-- A header is one line: none of its bytes is a newline. -/
theorem newline_notMem_line (h : Header) : newline ∉ h.line := by
  have digits : ∀ n : Nat, (0x0A : UInt8) ∉ Decimal.digits n := by
    intro n mem
    exact absurd (Decimal.isDigit_of_mem_digits mem) (by decide)
  have number : ∀ (key : String) (n : Nat),
      (0x0A : UInt8) ∉ Json.memberText (key, .number (.integer n)) := by
    intro key n
    simp [Json.memberText, compact_natCast, digits n, Json.newline_notMem_quoted key]
  have string : ∀ key label : String,
      (0x0A : UInt8) ∉ Json.memberText (key, .string label) := by
    intro key label
    simp [Json.memberText, compact_string, Json.newline_notMem_quoted]
  have member : ∀ m ∈ h.members, (0x0A : UInt8) ∉ Json.memberText m := by
    intro m hm
    simp only [members, List.mem_append, List.mem_cons, List.not_mem_nil, or_false] at hm
    rcases hm with (((rfl | rfl) | hm) | hm) | rfl
    · exact number "format" h.format
    · exact string "kind" h.kind
    · split at hm
      · exact absurd hm List.not_mem_nil
      · rw [List.mem_singleton.mp hm]
        exact string _ _
    · split at hm
      · exact absurd hm List.not_mem_nil
      · rw [List.mem_singleton.mp hm]
        exact string _ _
    · exact number "len" h.length
  exact Json.newline_notMem_object member

end Header

/-! ### The line and what follows it -/

/-- A line is found, unless it is longer than the reader looks. -/
theorem splitLine_append {line : Bytes} (h : newline ∉ line) (limit : Nat) (body : Bytes) :
    splitLine limit (line ++ newline :: body)
      = if line.length ≤ limit then some (line, body) else none := by
  induction line generalizing limit with
  | nil =>
    rw [List.nil_append, splitLine.eq_def]
    simp
  | cons b line ih =>
    rw [List.mem_cons, not_or] at h
    rw [List.cons_append, splitLine.eq_def]
    simp only [if_neg (Ne.symm h.1)]
    cases limit with
    | zero => simp
    | succ limit =>
      simp only [ih h.2, List.length_cons, Nat.succ_le_succ_iff]
      split <;> rfl

/-- A record of an allowed kind with a short header line is read back from its parts. -/
theorem decode_line (kind : Kind) {h : Header} {body : Bytes}
    (short : h.line.length ≤ maxHeaderLength) (format : h.format = formatVersion)
    (tag : h.kind = kind.tag) (length : h.length = body.length) (h64 : body.length < 2 ^ 64) :
    decode (h.line ++ newline :: body)
      = .ok (match kind with
        | .transmission => ⟨body, h.contentType, h.contentEncoding⟩
        | .rawBytes => .ofBytes body) := by
  have read : Header.read h.line = .ok h :=
    Header.read_line (by rw [format]; decide) (by rw [length]; exact h64)
  have allowed : Kind.ofTag? h.kind = some kind := by
    rw [tag]
    cases kind <;> rfl
  rw [decode, splitLine_append h.newline_notMem_line, if_pos short]
  simp only [Kind.readTag_line, allowed, decodeAs, read, format, length, ne_eq, not_true_eq_false,
    if_false]
  cases kind <;> rfl

/-- Behind a header line that is too long nothing is found. -/
theorem decode_line_of_long {h : Header} (long : maxHeaderLength < h.line.length) (body : Bytes) :
    decode (h.line ++ newline :: body) = .error (.corrupt .noHeader) := by
  rw [decode, splitLine_append h.newline_notMem_line, if_neg (Nat.not_le.mpr long)]

theorem parts_of_short {h : Header} (short : h.line.length ≤ maxHeaderLength) (body : Bytes) :
    (parts h body).map List.flatten = .ok (h.line ++ newline :: body) := by
  rw [parts, if_neg (Nat.not_lt.mpr short)]
  show Except.ok _ = Except.ok _
  simp

theorem parts_of_long {h : Header} (long : maxHeaderLength < h.line.length) (body : Bytes) :
    ∃ message, (parts h body).map List.flatten = .error (.invalidInput message) := by
  rw [parts, if_pos long]
  exact ⟨_, rfl⟩

/-! ### Round trip -/

/-- A header line without labels is short, whatever the number of bytes. -/
theorem length_line_unlabelled (kind : Kind) {n : Nat} (h : n < 2 ^ 64) :
    (⟨formatVersion, kind.tag, "", "", n⟩ : Header).line.length ≤ maxHeaderLength := by
  have digits : (Decimal.digits n).length ≤ 20 :=
    (Decimal.length_digits_le_iff (by decide)).mpr (h.trans (by decide))
  have tag : (Json.quoted kind.tag).length ≤ 14 := by cases kind <;> decide +kernel
  have members : (⟨formatVersion, kind.tag, "", "", n⟩ : Header).members
      = [("format", .number (.integer (1 : Nat))), ("kind", .string kind.tag),
          ("len", .number (.integer n))] := rfl
  have names : (Json.quoted "format").length = 8 ∧ (Json.quoted "kind").length = 6
      ∧ (Json.quoted "len").length = 5 ∧ (Decimal.digits 1).length = 1 := by decide +kernel
  rw [Header.line, members, Json.compact, Json.compactMembers_cons]
  simp only [List.flatMap_cons, List.flatMap_nil, Json.memberText, compact_natCast, compact_string,
    List.length_append, List.length_cons, List.length_nil, names, maxHeaderLength]
  omega

theorem length_line_ofBytes {content : Bytes} (h : content.length < 2 ^ 64) :
    (Header.ofBytes content).line.length ≤ maxHeaderLength :=
  length_line_unlabelled .rawBytes h

/-- A record is longer than its payload by a header line at most. -/
theorem length_of_parts {h : Header} {body record : Bytes}
    (written : (parts h body).map List.flatten = .ok record) :
    record.length ≤ maxHeaderLength + 1 + body.length := by
  rcases Nat.lt_or_ge maxHeaderLength h.line.length with long | short
  · obtain ⟨message, refused⟩ := parts_of_long long body
    cases written.symm.trans refused
  · cases written.symm.trans (parts_of_short short body)
    rw [List.length_append, List.length_cons]
    omega

/-- The record of a transmission is read back as that transmission. -/
theorem decode_of_encode {t : Transmission} {record : Bytes} (h : encode t = .ok record)
    (h64 : t.content.length < 2 ^ 64) : decode record = .ok t := by
  rcases Nat.lt_or_ge maxHeaderLength (Header.ofTransmission t).line.length with long | short
  · obtain ⟨message, refused⟩ := parts_of_long long t.content
    cases h.symm.trans refused
  · cases h.symm.trans (parts_of_short short t.content)
    exact decode_line .transmission short rfl rfl rfl h64

/-- The record of bare bytes is read back as those bytes without labels. -/
theorem decode_of_encodeRaw {content record : Bytes} (h : encodeRaw content = .ok record)
    (h64 : content.length < 2 ^ 64) : decode record = .ok (Transmission.ofBytes content) := by
  have short := length_line_ofBytes h64
  cases h.symm.trans (parts_of_short short content)
  exact decode_line .rawBytes short rfl rfl rfl h64

/-- A transmission whose header line is short enough is written and read back as it
was; one whose header line is longer is refused, and would not have been found again.
Bare bytes are always written, and come back without labels. The header line is one
line. -/
theorem round_trip :
    (∀ t : Transmission, t.content.length < 2 ^ 64 →
      newline ∉ (Header.ofTransmission t).line ∧
      (((Header.ofTransmission t).line.length ≤ maxHeaderLength ∧
        encode t = .ok ((Header.ofTransmission t).line ++ newline :: t.content) ∧
        decode ((Header.ofTransmission t).line ++ newline :: t.content) = .ok t) ∨
      (maxHeaderLength < (Header.ofTransmission t).line.length ∧
        (∃ message, encode t = .error (.invalidInput message)) ∧
        decode ((Header.ofTransmission t).line ++ newline :: t.content)
          = .error (.corrupt .noHeader)))) ∧
    (∀ content : Bytes, content.length < 2 ^ 64 →
      newline ∉ (Header.ofBytes content).line ∧
      encodeRaw content = .ok ((Header.ofBytes content).line ++ newline :: content) ∧
      decode ((Header.ofBytes content).line ++ newline :: content)
        = .ok (Transmission.ofBytes content)) := by
  constructor
  · intro t h
    refine ⟨Header.newline_notMem_line _, ?_⟩
    rcases Nat.lt_or_ge maxHeaderLength (Header.ofTransmission t).line.length with long | short
    · right
      refine ⟨long, parts_of_long long t.content, decode_line_of_long long t.content⟩
    · left
      have written := parts_of_short short t.content
      exact ⟨short, written, decode_of_encode written h⟩
  · intro content h
    have written := parts_of_short (length_line_ofBytes h) content
    exact ⟨Header.newline_notMem_line _, written, decode_of_encodeRaw written h⟩

/-- Braces and newlines in the payload, quotes, backslashes and control characters in
the labels come back as they were. -/
theorem round_trip_of_special_characters :
    ([0x7B, 0x0A] : Bytes).length < 2 ^ 64 ∧
    (∃ record, encode ⟨[0x7B, 0x0A], "a\"\\\n\x01", ""⟩ = .ok record ∧
      decode record = .ok ⟨[0x7B, 0x0A], "a\"\\\n\x01", ""⟩) ∧
    ∃ record, encodeRaw [0x7B, 0x0A] = .ok record ∧
      decode record = .ok ⟨[0x7B, 0x0A], "", ""⟩ := by
  have length : ([0x7B, 0x0A] : Bytes).length < 2 ^ 64 := by decide
  refine ⟨length, ?_, _, (round_trip.2 [0x7B, 0x0A] length).2⟩
  rcases (round_trip.1 ⟨[0x7B, 0x0A], "a\"\\\n\x01", ""⟩ length).2 with read | ⟨long, -⟩
  · exact ⟨_, read.2⟩
  · exact absurd long (by decide +kernel)

end DiskQueue.Record
