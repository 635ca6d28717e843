/-
Module: DiskQueue.Proofs.RecordGrammar
Purpose: Which byte strings are records, and what is refused for its kind.
Trusted boundary: none
Main exports:
  Record.decode_eq_ok_iff, Record.decode_eq_rejected_iff, Record.accepted_exactly,
  Record.allow_list_first
-/
import DiskQueue.Proofs.HeaderMembers
import DiskQueue.Proofs.RecordRoundTrip

namespace DiskQueue.Record

open Json (Blanks IsListOf IsObject Quotes)

/-!
The header line of a record is read twice, once for its kind alone and once as a whole. Both
readings go through the same members of one object (`IsObject.unique`), so they see the same kind. A
list could only be read as one or the other: the first item is a string for the one reader and a
number for the other.
-/

/-- A line is found where a newline stands within reach, and the first one ends it. -/
theorem splitLine_iff {limit : Nat} {bs line body : Bytes} :
    splitLine limit bs = some (line, body) ↔
      bs = line ++ newline :: body ∧ newline ∉ line ∧ line.length ≤ limit := by
  constructor
  · intro h
    induction bs generalizing limit line with
    | nil =>
      rw [splitLine.eq_def] at h
      cases h
    | cons b bs ih =>
      rw [splitLine.eq_def] at h
      simp only at h
      split at h
      · rename_i end_
        cases h
        exact ⟨by rw [end_]; rfl, List.not_mem_nil, Nat.zero_le _⟩
      · rename_i inside
        split at h
        · cases h
        · rename_i limit
          cases hSplit : splitLine limit bs with
          | none =>
            rw [hSplit] at h
            cases h
          | some p =>
            rw [hSplit] at h
            cases h
            obtain ⟨text, first, short⟩ := ih hSplit
            refine ⟨by rw [text]; rfl, ?_, Nat.succ_le_succ short⟩
            rw [List.mem_cons, not_or]
            exact ⟨Ne.symm inside, first⟩
  · rintro ⟨rfl, first, short⟩
    rw [splitLine_append first, if_pos short]

/-! ### The kind of a record -/

theorem Kind.ofTag?_eq_some_iff {tag : String} {kind : Kind} :
    Kind.ofTag? tag = some kind ↔ tag = kind.tag := by
  constructor
  · intro h
    have found := List.find?_some h
    simpa using (beq_iff_eq.mp found).symm
  · rintro rfl
    cases kind <;> rfl

theorem Kind.ofTag?_eq_none_iff {tag : String} :
    Kind.ofTag? tag = none ↔ tag ≠ Kind.transmission.tag ∧ tag ≠ Kind.rawBytes.tag := by
  rw [Kind.ofTag?, List.find?_eq_none]
  simp only [Kind.allowed, List.mem_cons, List.not_mem_nil, or_false, forall_eq_or_imp, forall_eq,
    beq_iff_eq, ne_eq, eq_comm (b := tag)]

/-- What a record of a kind gives: its payload, with the labels of its header only if it is a
transmission. -/
def Kind.received (kind : Kind) (body : Bytes) (contentType contentEncoding : String) :
    Transmission :=
  match kind with
  | .transmission => ⟨body, contentType, contentEncoding⟩
  | .rawBytes => .ofBytes body

/-- Both readings of a header line see the same kind. -/
theorem Header.kind_eq_of_readTag {line : Bytes} {tag : String} {h : Header}
    (tagged : Kind.readTag line = .ok tag) (header : Header.read line = .ok h) : h.kind = tag := by
  rcases Kind.readTag_iff.mp tagged with ⟨ms, v, object, one, quotes⟩ | list
  · obtain ⟨w, one', quotes'⟩ := ((Header.read_iff object).mp header).kind
    rw [one] at one'
    cases one'
    exact quotes'.unique quotes
  · exact absurd header (Header.read_ne_of_isListOf list)

/-! ### What is read, and what is refused -/

/-- A record is read if its header line is read both ways, with an allowed kind, the known format
and the length of the payload. -/
theorem decode_eq_ok_iff {bs : Bytes} {t : Transmission} :
    decode bs = .ok t ↔
      ∃ line body, ∃ kind : Kind, ∃ h : Header, bs = line ++ newline :: body ∧ newline ∉ line ∧
        line.length ≤ maxHeaderLength ∧ Kind.readTag line = .ok kind.tag ∧
        Header.read line = .ok h ∧ h.format = formatVersion ∧ h.length = body.length ∧
        t = kind.received body h.contentType h.contentEncoding := by
  constructor
  · intro decoded
    unfold decode at decoded
    split at decoded
    · cases decoded
    rename_i line body split
    split at decoded
    · cases decoded
    rename_i tag tagged
    split at decoded
    · cases decoded
    rename_i kind allowed
    unfold decodeAs at decoded
    split at decoded
    · cases decoded
    rename_i h header
    split at decoded
    · cases decoded
    rename_i format
    split at decoded
    · cases decoded
    rename_i length
    obtain ⟨text, first, short⟩ := splitLine_iff.mp split
    rw [Kind.ofTag?_eq_some_iff.mp allowed] at tagged
    refine ⟨line, body, kind, h, text, first, short, tagged, header, not_not.mp format,
      not_not.mp length, ?_⟩
    cases kind <;> exact (Except.ok.inj decoded).symm
  · rintro ⟨line, body, kind, h, text, first, short, tagged, header, format, length, rfl⟩
    have split := splitLine_iff.mpr ⟨text, first, short⟩
    have allowed := Kind.ofTag?_eq_some_iff.mpr (rfl : kind.tag = kind.tag)
    simp only [decode, split, tagged, allowed, decodeAs, header, format, length, ne_eq,
      not_true_eq_false, if_false]
    cases kind <;> rfl

/-- A record is refused for its kind if the kind can be read and is not allowed, and never for
anything else. -/
theorem decode_eq_rejected_iff {bs : Bytes} {tag : String} :
    decode bs = .error (.rejected tag) ↔
      ∃ line body, bs = line ++ newline :: body ∧ newline ∉ line ∧ line.length ≤ maxHeaderLength ∧
        Kind.readTag line = .ok tag ∧ tag ≠ Kind.transmission.tag ∧ tag ≠ Kind.rawBytes.tag := by
  have decodeAs_ne (kind : Kind) (line body : Bytes) :
      decodeAs kind line body ≠ .error (.rejected tag) := by
    unfold decodeAs
    split
    · simp
    · split
      · simp
      · split
        · simp
        · cases kind <;> simp
  constructor
  · intro decoded
    unfold decode at decoded
    split at decoded
    · cases decoded
    rename_i line body split
    split at decoded
    · cases decoded
    rename_i tag' tagged
    split at decoded
    · rename_i refused
      cases decoded
      obtain ⟨text, first, short⟩ := splitLine_iff.mp split
      exact ⟨line, body, text, first, short, tagged, Kind.ofTag?_eq_none_iff.mp refused⟩
    · exact absurd decoded (decodeAs_ne _ _ _)
  · rintro ⟨line, body, text, first, short, tagged, refused⟩
    have split := splitLine_iff.mpr ⟨text, first, short⟩
    simp only [decode, split, tagged, Kind.ofTag?_eq_none_iff.mpr refused]

/-- The newline that ends the header line of a record determines the line and the payload. -/
theorem line_unique {line line' body body' : Bytes} (h : newline ∉ line) (h' : newline ∉ line')
    (same : line ++ newline :: body = line' ++ newline :: body') : line = line' ∧ body = body' := by
  have split := splitLine_iff.mpr ⟨same, h', Nat.le_max_right line.length line'.length⟩
  rw [splitLine_iff.mpr ⟨rfl, h, Nat.le_max_left line.length line'.length⟩] at split
  cases split
  exact ⟨rfl, rfl⟩

/-- Which list of one string a line is, and which members of an object it has, exclude each
other. -/
theorem readTag_object_iff {line : Bytes} {k : String} {ms : List (String × Bytes)}
    (object : IsObject ms line) :
    Kind.readTag line = .ok k ↔ ∃ v, valuesOf "kind" ms = [v] ∧ Quotes k v := by
  rw [Kind.readTag_iff]
  constructor
  · rintro (⟨ms', v, object', found⟩ | ⟨a, b, q, c, d, rfl, front, -⟩)
    · rw [object.unique object']
      exact ⟨v, found⟩
    · obtain ⟨rest, brace⟩ := object.skipBlank
      rw [Json.skipBlank_append front, Json.skipBlank_cons (by decide)] at brace
      cases brace
  · rintro ⟨v, found⟩
    exact .inl ⟨ms, v, object, found⟩

/-- An object whose line is short enough gives a record with every payload of the length that it
names. -/
theorem decode_object_iff {line body : Bytes} {ms : List (String × Bytes)}
    (object : IsObject ms line) (first : newline ∉ line) (short : line.length ≤ maxHeaderLength)
    {t : Transmission} :
    decode (line ++ newline :: body) = .ok t ↔
      ∃ (kind : Kind) (contentType contentEncoding : String),
        Header.Given ⟨formatVersion, kind.tag, contentType, contentEncoding, body.length⟩ ms ∧
        t = kind.received body contentType contentEncoding := by
  rw [decode_eq_ok_iff]
  constructor
  · rintro ⟨line', body', kind, h, text, first', -, tagged, header, format, length, rfl⟩
    obtain ⟨rfl, rfl⟩ := line_unique first first' text
    have given := (Header.read_iff object).mp header
    have named : h.kind = kind.tag := Header.kind_eq_of_readTag tagged header
    obtain ⟨_, _, contentType, contentEncoding, _⟩ := h
    subst format
    subst length
    subst named
    exact ⟨kind, contentType, contentEncoding, given, rfl⟩
  · rintro ⟨kind, contentType, contentEncoding, given, rfl⟩
    exact ⟨line, body, kind, _, rfl, first, short, (readTag_object_iff object).mpr given.kind,
      (Header.read_iff object).mpr given, rfl, rfl, rfl⟩

/-- Every record that is read has an object as its header line. -/
theorem exists_object_of_decode {bs : Bytes} {t : Transmission} (decoded : decode bs = .ok t) :
    ∃ line body ms, bs = line ++ newline :: body ∧ newline ∉ line ∧ line.length ≤ maxHeaderLength ∧
      IsObject ms line := by
  obtain ⟨line, body, kind, h, text, first, short, tagged, header, -⟩ := decode_eq_ok_iff.mp decoded
  rcases Kind.readTag_iff.mp tagged with ⟨ms, v, object, -⟩ | list
  · exact ⟨line, body, ms, text, first, short, object⟩
  · exact absurd header (Header.read_ne_of_isListOf list)

/-- Two objects with the same fields are read alike, and refused alike for their kind. -/
theorem decode_of_same_fields {line line' body : Bytes} {ms ms' : List (String × Bytes)}
    (object : IsObject ms line) (object' : IsObject ms' line') (first : newline ∉ line)
    (first' : newline ∉ line') (short : line.length ≤ maxHeaderLength)
    (short' : line'.length ≤ maxHeaderLength) (same : (fieldsOf ms).Perm (fieldsOf ms'))
    {result : Except DecodeError Transmission} (h : decode (line ++ newline :: body) = result)
    (sound : ∀ c, result ≠ .error (.corrupt c)) : decode (line' ++ newline :: body) = result := by
  match result with
  | .ok t =>
    obtain ⟨kind, contentType, contentEncoding, given, rfl⟩ :=
      (decode_object_iff object first short).mp h
    exact (decode_object_iff object' first' short').mpr
      ⟨kind, contentType, contentEncoding, given.perm same, rfl⟩
  | .error (.rejected tag) =>
    obtain ⟨line₀, body₀, text, first₀, -, tagged, refused⟩ := decode_eq_rejected_iff.mp h
    obtain ⟨rfl, rfl⟩ := line_unique first first₀ text
    obtain ⟨v, one, quotes⟩ := (readTag_object_iff object).mp tagged
    have field : (Header.shape.field? "kind").isSome = true := rfl
    have there := valuesOf_perm field same
    rw [one] at there
    exact decode_eq_rejected_iff.mpr ⟨line', body, rfl, first', short',
      (readTag_object_iff object').mpr ⟨v, List.perm_singleton.mp there.symm, quotes⟩, refused⟩
  | .error (.corrupt c) => exact absurd rfl (sound c)

/-! ### The grammar of records -/

/-- A byte string is read as a record exactly if it is a short line, a newline and a payload, where
the line is an object with the known format, an allowed kind and the length of the payload, each
once, and the labels at most once, and where all other members are values of any form. A list is
never read. Two objects with the same fields, in any order and between any other members, are read
alike, up to the words for a corrupt record. -/
theorem accepted_exactly :
    (∀ bs : Bytes, bs.length < 2 ^ 63 → ∀ t : Transmission,
      decode bs = .ok t ↔
        ∃ (line body : Bytes) (ms : List (String × Bytes)) (kind : Kind)
          (contentType contentEncoding : String),
          bs = line ++ newline :: body ∧ newline ∉ line ∧ line.length ≤ maxHeaderLength ∧
          IsObject ms line ∧
          valuesOf "format" ms = [Decimal.digits 1] ∧
          (∃ v, valuesOf "kind" ms = [v] ∧ Quotes kind.tag v) ∧
          valuesOf "len" ms = [Decimal.digits body.length] ∧
          Header.IsLabel "content_type" contentType ms ∧
          Header.IsLabel "content_encoding" contentEncoding ms ∧
          t = kind.received body contentType contentEncoding) ∧
    (∀ line body items : Bytes, newline ∉ line → Json.skipBlank line = 0x5B :: items →
      ∀ t, decode (line ++ newline :: body) ≠ .ok t) ∧
    (∀ (line line' body : Bytes) (ms ms' : List (String × Bytes)),
      IsObject ms line → IsObject ms' line' → newline ∉ line → newline ∉ line' →
      line.length ≤ maxHeaderLength → line'.length ≤ maxHeaderLength →
      (fieldsOf ms).Perm (fieldsOf ms') →
      decode (line ++ newline :: body) = decode (line' ++ newline :: body) ∨
        ∃ c c', decode (line ++ newline :: body) = .error (.corrupt c) ∧
          decode (line' ++ newline :: body) = .error (.corrupt c')) := by
  refine ⟨?_, ?_, ?_⟩
  · intro bs bound t
    constructor
    · intro decoded
      obtain ⟨line, body, ms, rfl, first, short, object⟩ := exists_object_of_decode decoded
      obtain ⟨kind, contentType, contentEncoding, given, rfl⟩ :=
        (decode_object_iff object first short).mp decoded
      exact ⟨line, body, ms, kind, contentType, contentEncoding, rfl, first, short, object,
        given.format.2, given.kind, given.length.2, given.contentType, given.contentEncoding, rfl⟩
    · rintro ⟨line, body, ms, kind, contentType, contentEncoding, rfl, first, short, object, format,
        tag, length, type, encoding, rfl⟩
      have fits : body.length < UInt64.size := by
        rw [List.length_append, List.length_cons] at bound
        exact lt_of_le_of_lt (by omega) (lt_trans bound (by decide))
      have known : formatVersion < UInt32.size := by decide
      have given : Header.Given
          ⟨formatVersion, kind.tag, contentType, contentEncoding, body.length⟩ ms :=
        ⟨⟨known, format⟩, tag, type, encoding, fits, length⟩
      exact (decode_object_iff object first short).mpr
        ⟨kind, contentType, contentEncoding, given, rfl⟩
  · intro line body items first bracket t decoded
    obtain ⟨line', body', ms, text, first', -, object⟩ := exists_object_of_decode decoded
    obtain ⟨rfl, rfl⟩ := line_unique first first' text
    obtain ⟨rest, brace⟩ := object.skipBlank
    cases bracket.symm.trans brace
  · intro line line' body ms ms' object object' first first' short short' same
    have there {result : Except DecodeError Transmission}
        (h : decode (line ++ newline :: body) = result) :=
      decode_of_same_fields object object' first first' short short' same h
    have back {result : Except DecodeError Transmission}
        (h : decode (line' ++ newline :: body) = result) :=
      decode_of_same_fields object' object first' first short' short same.symm h
    by_cases corrupt : ∃ c, decode (line ++ newline :: body) = .error (.corrupt c)
    · obtain ⟨c, here⟩ := corrupt
      by_cases corrupt' : ∃ c', decode (line' ++ newline :: body) = .error (.corrupt c')
      · obtain ⟨c', here'⟩ := corrupt'
        exact .inr ⟨c, c', here, here'⟩
      · exact .inl (back rfl (not_exists.mp corrupt'))
    · exact .inl (there rfl (not_exists.mp corrupt)).symm

/-- Fields in another order than they are written in, with a member of no meaning between them. -/
theorem accepted_exactly_of_reordered :
    let bs := Utf8.encode "\x7b\"len\":2,\"note\":[1],\"kind\":\"bytes\",\"format\":1\x7d\nhi"
    bs.length < 2 ^ 63 ∧ decode bs = .ok ⟨[0x68, 0x69], "", ""⟩ ∧
      ∃ line body ms, bs = line ++ newline :: body ∧ IsObject ms line ∧
        valuesOf "len" ms = [Decimal.digits body.length] := by
  intro bs
  have short : bs.length < 2 ^ 63 := by decide +kernel
  have read : decode bs = .ok ⟨[0x68, 0x69], "", ""⟩ := by decide +kernel
  obtain ⟨line, body, ms, -, -, -, text, -, -, object, -, -, length, -⟩ :=
    (accepted_exactly.1 bs short _).mp read
  exact ⟨short, read, line, body, ms, text, object, length⟩

/-! ### The allowed kinds -/

/-- The kind is looked at first. A record is refused for its kind exactly if a kind that is not
allowed can be read from its header line, and the refusal names that kind; the kind is read from an
object with one such member, whatever its other members are, or from a list of one string, so the
payload does not matter, nor do the other fields. What is read has the kind that was looked at, and
no line shows one kind to the reader of kinds and another one to the reader of headers. -/
theorem allow_list_first :
    (∀ (bs : Bytes) (tag : String),
      decode bs = .error (.rejected tag) ↔
        ∃ line body, bs = line ++ newline :: body ∧ newline ∉ line ∧
          line.length ≤ maxHeaderLength ∧ Kind.readTag line = .ok tag ∧
          tag ≠ "transmission" ∧ tag ≠ "bytes") ∧
    (∀ (line : Bytes) (tag : String),
      Kind.readTag line = .ok tag ↔
        (∃ ms v, IsObject ms line ∧ valuesOf "kind" ms = [v] ∧ Quotes tag v) ∨
          IsListOf tag line) ∧
    (∀ (line body body' : Bytes) (tag : String), newline ∉ line →
      decode (line ++ newline :: body) = .error (.rejected tag) →
      decode (line ++ newline :: body') = .error (.rejected tag)) ∧
    (∀ (bs : Bytes) (t : Transmission), decode bs = .ok t →
      ∃ line body h, bs = line ++ newline :: body ∧ newline ∉ line ∧
        line.length ≤ maxHeaderLength ∧ Header.read line = .ok h ∧ Kind.readTag line = .ok h.kind ∧
        (h.kind = "transmission" ∨ h.kind = "bytes")) ∧
    (∀ (line : Bytes) (tag : String) (h : Header),
      Kind.readTag line = .ok tag → Header.read line = .ok h → h.kind = tag) := by
  refine ⟨fun bs tag => decode_eq_rejected_iff, fun line tag => Kind.readTag_iff, ?_, ?_,
    fun line tag h => Header.kind_eq_of_readTag⟩
  · intro line body body' tag first refused
    obtain ⟨line', _, text, first', short, kind⟩ := decode_eq_rejected_iff.mp refused
    obtain ⟨rfl, -⟩ := line_unique first first' text
    exact decode_eq_rejected_iff.mpr ⟨line, body', rfl, first, short, kind⟩
  · intro bs t decoded
    obtain ⟨line, body, kind, h, text, first, short, tagged, header, -⟩ :=
      decode_eq_ok_iff.mp decoded
    have named : h.kind = kind.tag := Header.kind_eq_of_readTag tagged header
    refine ⟨line, body, h, text, first, short, header, by rw [named]; exact tagged, ?_⟩
    rw [named]
    cases kind
    · exact .inl rfl
    · exact .inr rfl

/-- A kind written with an escape, in a header whose other fields could not be read. -/
theorem allow_list_first_of_unknown_kind :
    let line := Utf8.encode "\x7b\"len\":-1,\"k\\u0069nd\":\"new\",\"format\":\"\"\x7d"
    newline ∉ line ∧ decode (line ++ newline :: []) = .error (.rejected "new") ∧
      ∀ body, decode (line ++ newline :: body) = .error (.rejected "new") := by
  intro line
  have first : newline ∉ line := by decide +kernel
  have refused : decode (line ++ newline :: []) = .error (.rejected "new") := by decide +kernel
  exact ⟨first, refused, fun body => allow_list_first.2.2.1 line [] body "new" first refused⟩

end DiskQueue.Record
