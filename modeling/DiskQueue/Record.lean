/-
Module: DiskQueue.Record
Purpose: Transmissions as they are stored.
Trusted boundary: none
Main exports:
  Record.parts, Record.encode, Record.encodeRaw, Record.Sink, Record.decode
-/
import DiskQueue.IoError
import DiskQueue.Record.Header

namespace DiskQueue.Record

/-!
A record is a header line, a newline and the payload. A header line has at most 4096 bytes: a longer
one is neither written nor looked for. Reading needs a newline within that length, a kind that is
allowed, a header of the known format, and a payload of exactly the length that the header names.
-/

/-- The greatest number of bytes of a header line, its newline not counted. -/
def maxHeaderLength : Nat := 4096

/-- The byte that ends a header line. -/
def newline : UInt8 := 0x0A

/-! ### Writing -/

/-- The parts of a record in the order in which they are written, unless the header is too long. -/
def parts (h : Header) (body : Bytes) : Except IoError (List Bytes) :=
  let line := h.line
  if maxHeaderLength < line.length then
    let n := line.length
    .error (.invalidInput s!"record header is {n} bytes, limit is {maxHeaderLength}")
  else .ok [line, [newline], body]

/-- The parts of the record of a transmission. -/
def transmissionParts (t : Transmission) : Except IoError (List Bytes) :=
  parts (Header.ofTransmission t) t.content

/-- The parts of the record of bare bytes. -/
def rawParts (content : Bytes) : Except IoError (List Bytes) :=
  parts (Header.ofBytes content) content

/-- The record of a transmission. -/
def encode (t : Transmission) : Except IoError Bytes := (transmissionParts t).map List.flatten

/-- The record of bare bytes. -/
def encodeRaw (content : Bytes) : Except IoError Bytes := (rawParts content).map List.flatten

/-- A place for bytes that takes so many and then fails. -/
structure Sink where
  room : Nat
  taken : Bytes
deriving Repr, DecidableEq

/-- Writes as much of a part as there is room for. A part that does not fit fails. -/
def Sink.write (sink : Sink) (part : Bytes) : Except IoError Unit × Sink :=
  let fitting := part.take sink.room
  let after : Sink := ⟨sink.room - fitting.length, sink.taken ++ fitting⟩
  if fitting.length = part.length then (.ok (), after) else (.error (.other "sink full"), after)

/-- Writes parts one after the other, up to the first failure. -/
def Sink.writeAll (sink : Sink) : List Bytes → Except IoError Unit × Sink
  | [] => (.ok (), sink)
  | part :: rest =>
    match sink.write part with
    | (.error e, after) => (.error e, after)
    | (.ok (), after) => after.writeAll rest

/-- Writes the parts of a record, nothing if there are none. -/
def Sink.writeRecord (sink : Sink) : Except IoError (List Bytes) → Except IoError Unit × Sink
  | .error e => (.error e, sink)
  | .ok ps => sink.writeAll ps

/-! ### Reading -/

/-- How a record is corrupt. -/
inductive Corruption where
  | noHeader
  | unreadable (fault : Json.Fault)
  | unsupportedFormat (format : Nat)
  | lengthMismatch (payload header : Nat)
deriving Repr, DecidableEq

/-- The words for a corruption. -/
def Corruption.message : Corruption → String
  | .noHeader => "missing record header"
  | .unreadable fault => "unreadable header: " ++ fault.message
  | .unsupportedFormat n => s!"unsupported record format {n}"
  | .lengthMismatch payload header =>
    s!"payload length {payload} does not match header length {header}"

/-- Why a record was not read: its kind is not allowed, or it is corrupt. -/
inductive DecodeError where
  | rejected (tag : String)
  | corrupt (cause : Corruption)
deriving Repr, DecidableEq

/-- A line of at most `limit` bytes, and what follows its newline. -/
def splitLine (limit : Nat) : Bytes → Option (Bytes × Bytes)
  | [] => none
  | b :: rest =>
    if b = newline then some ([], rest)
    else
      match limit with
      | 0 => none
      | limit + 1 => (splitLine limit rest).map fun p => (b :: p.1, p.2)

/-- The transmission of a record whose kind is known. -/
def decodeAs (kind : Kind) (line body : Bytes) : Except DecodeError Transmission :=
  match Header.read line with
  | .error fault => .error (.corrupt (.unreadable fault))
  | .ok header =>
    if header.format ≠ formatVersion then .error (.corrupt (.unsupportedFormat header.format))
    else if header.length ≠ body.length then
      .error (.corrupt (.lengthMismatch body.length header.length))
    else
      match kind with
      | .transmission => .ok ⟨body, header.contentType, header.contentEncoding⟩
      | .rawBytes => .ok (.ofBytes body)

/-- The transmission that a record holds. -/
def decode (bs : Bytes) : Except DecodeError Transmission :=
  match splitLine maxHeaderLength bs with
  | none => .error (.corrupt .noHeader)
  | some (line, body) =>
    match Kind.readTag line with
    | .error fault => .error (.corrupt (.unreadable fault))
    | .ok tag =>
      match Kind.ofTag? tag with
      | none => .error (.rejected tag)
      | some kind => decodeAs kind line body

end DiskQueue.Record
