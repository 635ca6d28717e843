/-
Module: DiskQueue.Proofs.RecordExtent
Purpose: A record that has lost or gained bytes at its end is no record.
Trusted boundary: none
Main exports:
  Record.decode_take, Record.decode_append, Record.Exact, Record.no_record_within_another
-/
import DiskQueue.Proofs.RecordGrammar

namespace DiskQueue.Record

/-!
A record says how long it is: its header line ends at the first newline, and names the length of
all that follows. A cut before that newline leaves no header line, whatever the line was. A cut
behind it leaves the header line as it was, and so does what is added at the end, but the payload
has no longer the length that is named. That the payload may hold newlines and header lines of its
own makes no difference, since nothing is looked for behind the first newline.
-/

variable {bs more : Bytes} {t : Transmission}

/-! ### The header line and what it names -/

theorem Kind.content_received (kind : Kind) (body : Bytes) (contentType contentEncoding : String) :
    (kind.received body contentType contentEncoding).content = body := by
  cases kind <;> rfl

/-- Where no newline stands there is no header line. -/
theorem decode_of_newline_notMem (none : newline ∉ bs) :
    decode bs = .error (.corrupt .noHeader) := by
  have split : splitLine maxHeaderLength bs = Option.none := by
    cases found : splitLine maxHeaderLength bs with
    | none => rfl
    | some p =>
      obtain ⟨text, -, -⟩ := splitLine_iff.mp (found : _ = some (p.1, p.2))
      exact absurd (text ▸ List.mem_append_right _ List.mem_cons_self) none
  rw [decode, split]

/-- The header line of a record refuses every payload of another length. -/
theorem exists_line_of_decode (decoded : decode bs = .ok t) :
    ∃ line, bs = line ++ newline :: t.content ∧ newline ∉ line ∧
      ∀ body : Bytes, body.length ≠ t.content.length →
        decode (line ++ newline :: body)
          = .error (.corrupt (.lengthMismatch body.length t.content.length)) := by
  obtain ⟨line, content, kind, h, rfl, first, short, tagged, header, format, length, rfl⟩ :=
    decode_eq_ok_iff.mp decoded
  rw [kind.content_received]
  refine ⟨line, rfl, first, fun body differs => ?_⟩
  have split := splitLine_iff.mpr ⟨(rfl : line ++ newline :: body = _), first, short⟩
  have allowed := Kind.ofTag?_eq_some_iff.mpr (rfl : kind.tag = kind.tag)
  rw [← length] at differs ⊢
  simp only [decode, split, tagged, allowed, decodeAs, header, format, ne_eq, not_true_eq_false,
    if_false, if_pos differs.symm]

/-! ### Cut short, and continued -/

/-- A record that is cut short has no header line, or a payload that is too short for it. -/
theorem decode_take (decoded : decode bs = .ok t) {n : Nat} (short : n < bs.length) :
    decode (bs.take n) = .error (.corrupt
      (if n < bs.length - t.content.length then .noHeader
        else .lengthMismatch (n - (bs.length - t.content.length)) t.content.length)) := by
  obtain ⟨line, rfl, first, refused⟩ := exists_line_of_decode decoded
  have head : (line ++ newline :: t.content).length - t.content.length = line.length + 1 := by
    rw [List.length_append, List.length_cons]
    omega
  rw [List.length_append, List.length_cons] at short
  rw [head]
  split
  · rename_i inside
    rw [List.take_append_of_le_length (Nat.le_of_lt_succ inside)]
    exact decode_of_newline_notMem fun mem => first (List.mem_of_mem_take mem)
  · rename_i behind
    obtain ⟨k, rfl⟩ := Nat.exists_eq_add_of_le (Nat.not_lt.mp behind)
    have cut : (line ++ newline :: t.content).take (line.length + 1 + k)
        = line ++ newline :: t.content.take k := by
      rw [Nat.add_assoc, List.take_length_add_append, Nat.add_comm 1 k, List.take_succ_cons]
    have length : (t.content.take k).length = k := List.length_take_of_le (by omega)
    rw [cut, refused _ (by omega), length, Nat.add_sub_cancel_left]

/-- A record that goes on has a payload that is too long for its header line. -/
theorem decode_append (decoded : decode bs = .ok t) (nonempty : more ≠ []) :
    decode (bs ++ more) = .error (.corrupt
      (.lengthMismatch (t.content.length + more.length) t.content.length)) := by
  obtain ⟨line, rfl, -, refused⟩ := exists_line_of_decode decoded
  have longer : (t.content ++ more).length ≠ t.content.length := by
    rw [List.length_append]
    have := List.length_pos_iff.mpr nonempty
    omega
  rw [List.append_assoc, List.cons_append, refused _ longer, List.length_append]

/-! ### Records among all byte strings -/

/-- Nothing shorter that it begins with, and nothing longer that begins with it, is a record. -/
def Exact (bs : Bytes) : Prop :=
  (∀ cut, cut <+: bs → cut ≠ bs → ∃ cause, decode cut = .error (.corrupt cause)) ∧
    ∀ longer, bs <+: longer → longer ≠ bs → ∃ cause, decode longer = .error (.corrupt cause)

theorem exact_of_decode (decoded : decode bs = .ok t) : Exact bs := by
  constructor
  · rintro cut before differs
    have short : cut.length < bs.length :=
      lt_of_le_of_ne before.length_le fun same => differs (before.eq_of_length same)
    rw [List.prefix_iff_eq_take.mp before]
    exact ⟨_, decode_take decoded short⟩
  · rintro _ ⟨more, rfl⟩ differs
    refine ⟨_, decode_append decoded ?_⟩
    rintro rfl
    exact differs (List.append_nil bs)

/-- No byte string that is read as a record, and so none that is written as one, is a record
without its last bytes or with more of them. So no record begins with another one, and two records
in a row are no record. -/
theorem no_record_within_another :
    (∀ bs t, decode bs = .ok t → Exact bs) ∧
    (∀ t record, t.content.length < 2 ^ 64 → encode t = .ok record → Exact record) ∧
    (∀ content record, content.length < 2 ^ 64 → encodeRaw content = .ok record → Exact record) ∧
    ∀ bs bs' t t', decode bs = .ok t → decode bs' = .ok t' →
      (bs <+: bs' → bs = bs') ∧ ∃ cause, decode (bs ++ bs') = .error (.corrupt cause) := by
  refine ⟨fun bs t => exact_of_decode, ?_, ?_, ?_⟩
  · exact fun t record h64 written => exact_of_decode (decode_of_encode written h64)
  · exact fun content record h64 written => exact_of_decode (decode_of_encodeRaw written h64)
  · intro bs bs' t t' decoded decoded'
    constructor
    · intro before
      by_contra differs
      obtain ⟨cause, corrupt⟩ := (exact_of_decode decoded').1 bs before differs
      cases decoded.symm.trans corrupt
    · have nonempty : bs' ≠ [] := by
        rintro rfl
        cases decoded'
      exact ⟨_, decode_append decoded nonempty⟩

/-- A record may be the payload of another one. Neither is taken for the other when it is cut
short or goes on. -/
theorem no_record_within_another_of_nested :
    ∃ inner outer, encodeRaw [0x41] = .ok inner ∧ encodeRaw inner = .ok outer ∧
      Exact inner ∧ Exact outer := by
  have short : ([0x41] : Bytes).length < 2 ^ 64 := by decide
  obtain ⟨inner, written⟩ : ∃ inner, encodeRaw [0x41] = .ok inner :=
    ⟨_, parts_of_short (length_line_ofBytes short) [0x41]⟩
  have short' : inner.length < 2 ^ 64 := lt_of_le_of_lt (length_of_parts written) (by decide)
  obtain ⟨outer, written'⟩ : ∃ outer, encodeRaw inner = .ok outer :=
    ⟨_, parts_of_short (length_line_ofBytes short') inner⟩
  exact ⟨inner, outer, written, written', no_record_within_another.2.2.1 _ _ short written,
    no_record_within_another.2.2.1 _ _ short' written'⟩

end DiskQueue.Record
