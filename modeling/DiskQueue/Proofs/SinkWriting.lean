/-
Module: DiskQueue.Proofs.SinkWriting
Purpose: What is left of a record whose writing is cut off.
Trusted boundary: none
Main exports:
  Record.Sink.writeAll_eq, Record.Streams, Record.streams_parts, Record.streamed_as_held
-/
import DiskQueue.Proofs.RecordExtent

namespace DiskQueue.Record

/-!
A record is written part by part, each as far as there is room for it. However the parts are cut,
what has been taken is the beginning of all of them in a row, so a sink holds the beginning of the
record that would be held in memory, and fails exactly if that is not all of it. The length of the
header line is looked at before anything is written.
-/

namespace Sink

/-- A part is taken as far as there is room, and fails if some of it is left. -/
theorem write_eq (sink : Sink) (part : Bytes) :
    sink.write part = (if part.length ≤ sink.room then .ok () else .error (.other "sink full"),
      ⟨sink.room - part.length, sink.taken ++ part.take sink.room⟩) := by
  have left : sink.room - (part.take sink.room).length = sink.room - part.length := by
    rw [List.length_take]
    omega
  have whole : (part.take sink.room).length = part.length ↔ part.length ≤ sink.room := by
    rw [List.length_take]
    omega
  simp only [write, left, whole]
  split <;> rfl

/-- Parts in a row are taken as one, up to where there is no more room. -/
theorem writeAll_eq (sink : Sink) (ps : List Bytes) :
    sink.writeAll ps
      = (if ps.flatten.length ≤ sink.room then .ok () else .error (.other "sink full"),
        ⟨sink.room - ps.flatten.length, sink.taken ++ ps.flatten.take sink.room⟩) := by
  induction ps generalizing sink with
  | nil => simp [writeAll]
  | cons part rest ih =>
    rw [writeAll, write_eq, List.flatten_cons, List.length_append]
    by_cases fits : part.length ≤ sink.room
    · have all : part.length + rest.flatten.length ≤ sink.room
          ↔ rest.flatten.length ≤ sink.room - part.length := by omega
      simp only [if_pos fits, ih, all, Nat.sub_sub, List.take_append, List.take_of_length_le fits,
        List.append_assoc]
    · have none : ¬part.length + rest.flatten.length ≤ sink.room := by omega
      have part' : (part ++ rest.flatten).take sink.room = part.take sink.room :=
        List.take_append_of_le_length (by omega)
      have room : sink.room - (part.length + rest.flatten.length) = sink.room - part.length := by
        omega
      simp only [if_neg fits, if_neg none, part', room]

end Sink

/-- With any room, an empty sink holds the beginning of the record that is held in memory, and
writing succeeds exactly if there is room for all of it. If the record is refused nothing is
written. -/
def Streams (ps : Except IoError (List Bytes)) (whole : Except IoError Bytes) : Prop :=
  ∀ limit : Nat, match whole with
    | .ok record =>
      Sink.writeRecord ⟨limit, []⟩ ps
        = (if record.length ≤ limit then .ok () else .error (.other "sink full"),
          ⟨limit - record.length, record.take limit⟩)
    | .error e =>
      (∃ message, e = .invalidInput message) ∧
        Sink.writeRecord ⟨limit, []⟩ ps = (.error e, ⟨limit, []⟩)

theorem streams_parts (h : Header) (body : Bytes) :
    Streams (parts h body) ((parts h body).map List.flatten) := by
  intro limit
  rcases Nat.lt_or_ge maxHeaderLength h.line.length with long | short
  · simp only [parts, if_pos long]
    exact ⟨⟨_, rfl⟩, rfl⟩
  · simp only [parts, if_neg (Nat.not_lt.mpr short)]
    exact Sink.writeAll_eq ⟨limit, []⟩ [h.line, [newline], body]

/-- What is left in the sink when writing has not succeeded is no record: nothing at all, or the
beginning of one. -/
theorem Streams.unfinished {ps : Except IoError (List Bytes)} {whole : Except IoError Bytes}
    (streams : Streams ps whole) (exact : ∀ record, whole = .ok record → Exact record)
    {limit : Nat} (failed : (Sink.writeRecord ⟨limit, []⟩ ps).1 ≠ .ok ()) :
    ∃ cause, decode (Sink.writeRecord ⟨limit, []⟩ ps).2.taken = .error (.corrupt cause) := by
  have outcome := streams limit
  match whole with
  | .ok record =>
    replace outcome : Sink.writeRecord ⟨limit, []⟩ ps = _ := outcome
    rw [outcome] at failed ⊢
    have short : limit < record.length := by
      by_contra room
      exact failed (if_pos (Nat.not_lt.mp room))
    refine (exact record rfl).1 _ (List.take_prefix limit record) fun same => ?_
    have length := congrArg List.length same
    rw [List.length_take] at length
    omega
  | .error e =>
    rw [outcome.2]
    exact ⟨.noHeader, rfl⟩

/-- Writing a record and holding it in memory agree on what is written, on what is refused, and on
where the writing is cut off, for every transmission, all bare bytes and every room. What is left
of a record that is not written to its end is no record. -/
theorem streamed_as_held :
    (∀ t : Transmission, Streams (transmissionParts t) (encode t)) ∧
    (∀ content : Bytes, Streams (rawParts content) (encodeRaw content)) ∧
    (∀ (t : Transmission) (limit : Nat), t.content.length < 2 ^ 64 →
      (Sink.writeRecord ⟨limit, []⟩ (transmissionParts t)).1 ≠ .ok () →
      ∃ cause, decode (Sink.writeRecord ⟨limit, []⟩ (transmissionParts t)).2.taken
        = .error (.corrupt cause)) ∧
    (∀ (content : Bytes) (limit : Nat), content.length < 2 ^ 64 →
      (Sink.writeRecord ⟨limit, []⟩ (rawParts content)).1 ≠ .ok () →
      ∃ cause, decode (Sink.writeRecord ⟨limit, []⟩ (rawParts content)).2.taken
        = .error (.corrupt cause)) := by
  have streams (t : Transmission) : Streams (transmissionParts t) (encode t) := streams_parts _ _
  have streamsRaw (content : Bytes) : Streams (rawParts content) (encodeRaw content) :=
    streams_parts _ _
  refine ⟨streams, streamsRaw, ?_, ?_⟩
  · intro t limit h64
    exact (streams t).unfinished fun record written =>
      exact_of_decode (decode_of_encode written h64)
  · intro content limit h64
    exact (streamsRaw content).unfinished fun record written =>
      exact_of_decode (decode_of_encodeRaw written h64)

/-- A sink that is full behind the header line holds a header line and no record. -/
theorem streamed_as_held_of_full :
    ∃ limit, (Sink.writeRecord ⟨limit, []⟩ (rawParts [0x41])).1 = .error (.other "sink full") ∧
      newline ∈ (Sink.writeRecord ⟨limit, []⟩ (rawParts [0x41])).2.taken ∧
      ∃ cause, decode (Sink.writeRecord ⟨limit, []⟩ (rawParts [0x41])).2.taken
        = .error (.corrupt cause) := by
  have full : (Sink.writeRecord ⟨36, []⟩ (rawParts [0x41])).1 = .error (.other "sink full") ∧
      newline ∈ (Sink.writeRecord ⟨36, []⟩ (rawParts [0x41])).2.taken := by decide +kernel
  refine ⟨36, full.1, full.2, streamed_as_held.2.2.2 [0x41] 36 (by decide) ?_⟩
  rw [full.1]
  nofun

end DiskQueue.Record
