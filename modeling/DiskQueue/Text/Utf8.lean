/-
Module: DiskQueue.Text.Utf8
Purpose: Text as bytes.
Trusted boundary: none
Main exports:
  Bytes, Utf8.encode, Utf8.decode?, Utf8.pieces, Utf8.lossy
-/

namespace DiskQueue

/-!
Record lines, file names and settings files are byte strings; labels and messages are texts. A text
goes to bytes by UTF-8, and comes back only from well-formed UTF-8, so the two directions cancel
(`decode?_encode`, `encode_of_decode?`). Names that are not text are shown with a replacement
character for each maximal part that cannot be continued (`lossy`).
-/

/-- A sequence of octets: the content of a file, a record line, a file name. -/
abbrev Bytes := List UInt8

namespace Utf8

/-- The UTF-8 bytes of a text. -/
def encode (s : String) : Bytes := s.toByteArray.data.toList

/-- The text with the given UTF-8 bytes; nothing if they are not well formed. -/
def decode? (bs : Bytes) : Option String := String.fromUTF8? ⟨bs.toArray⟩

/-- Byte strings that are the UTF-8 of some text. -/
def isText (bs : Bytes) : Bool := (decode? bs).isSome

/-- Decoding undoes encoding. -/
theorem decode?_encode (s : String) : decode? (encode s) = some s := by
  have h : (ByteArray.mk s.toByteArray.data.toList.toArray) = s.toByteArray := by simp
  unfold decode? encode String.fromUTF8?
  rw [h, dif_pos s.isValidUTF8]
  rfl

/-- Only the encoding of a text decodes to it. -/
theorem encode_of_decode? {bs : Bytes} {s : String} (h : decode? bs = some s) : encode s = bs := by
  unfold decode? String.fromUTF8? at h
  split at h
  · cases h
    simp [encode, String.fromUTF8]
  · cases h

/-- Two texts with the same bytes are the same text. -/
theorem encode_injective {s t : String} (h : encode s = encode t) : s = t := by
  have hs := decode?_encode s
  rw [h, decode?_encode] at hs
  exact (Option.some.inj hs).symm

/-- The bytes of a text put after another follow the bytes of the first. -/
theorem encode_append (s t : String) : encode (s ++ t) = encode s ++ encode t := by
  simp [encode, String.toByteArray_append]

/-- The bytes of a single character. -/
def encodeChar (c : Char) : Bytes := String.utf8EncodeChar c

/-- A multi-byte sequence that has begun: its bytes, the last one first, how many
continuation bytes are missing, the range of the next one, and the bits read so
far. -/
structure Unfinished where
  read : Bytes
  missing : Nat
  low : UInt8
  high : UInt8
  bits : Nat
deriving Repr, DecidableEq

/-- A part of a byte string: a character, or the longest run of bytes that is the
beginning of a character and no more, or a single byte that begins none. -/
inductive Piece where
  | char (c : Char)
  | broken (bytes : Bytes)
deriving Repr, DecidableEq

/-- What a byte in leading position begins. -/
inductive Lead where
  | whole (c : Char)
  | starts (u : Unfinished)
  | stray
deriving Repr, DecidableEq

/-- Leading bytes of well-formed sequences. The second byte after `E0`, `ED`, `F0` and `F4` has a
narrower range, which leaves out overlong forms, surrogates and values past `U+10FFFF`. -/
def lead (b : UInt8) : Lead :=
  if b < 0x80 then .whole (Char.ofNat b.toNat)
  else if b < 0xC2 then .stray
  else if b < 0xE0 then .starts ⟨[b], 1, 0x80, 0xBF, b.toNat - 0xC0⟩
  else if b = 0xE0 then .starts ⟨[b], 2, 0xA0, 0xBF, 0⟩
  else if b = 0xED then .starts ⟨[b], 2, 0x80, 0x9F, 0xD⟩
  else if b < 0xF0 then .starts ⟨[b], 2, 0x80, 0xBF, b.toNat - 0xE0⟩
  else if b = 0xF0 then .starts ⟨[b], 3, 0x90, 0xBF, 0⟩
  else if b = 0xF4 then .starts ⟨[b], 3, 0x80, 0x8F, 4⟩
  else if b < 0xF4 then .starts ⟨[b], 3, 0x80, 0xBF, b.toNat - 0xF0⟩
  else .stray

/-- The bytes of an unfinished sequence as a part of their own. -/
def Unfinished.piece (u : Unfinished) : Piece := .broken u.read.reverse

/-- The parts of a byte string that continues the given unfinished sequence. -/
def piecesFrom : Option Unfinished → Bytes → List Piece
  | none, [] => []
  | some u, [] => [u.piece]
  | none, b :: rest =>
    match lead b with
    | .whole c => .char c :: piecesFrom none rest
    | .starts u => piecesFrom (some u) rest
    | .stray => .broken [b] :: piecesFrom none rest
  | some u, b :: rest =>
    if u.low ≤ b ∧ b ≤ u.high then
      let bits := u.bits * 64 + (b.toNat - 0x80)
      if u.missing ≤ 1 then .char (Char.ofNat bits) :: piecesFrom none rest
      else piecesFrom (some ⟨b :: u.read, u.missing - 1, 0x80, 0xBF, bits⟩) rest
    else
      match lead b with
      | .whole c => u.piece :: .char c :: piecesFrom none rest
      | .starts v => u.piece :: piecesFrom (some v) rest
      | .stray => u.piece :: .broken [b] :: piecesFrom none rest

/-- The parts of a byte string. -/
def pieces (bs : Bytes) : List Piece := piecesFrom none bs

/-- The character shown for bytes that are not text. -/
def replacement : Char := Char.ofNat 0xFFFD

/-- The character shown for a part. -/
def Piece.shown : Piece → Char
  | .char c => c
  | .broken _ => replacement

/-- The text shown for a byte string, with one replacement character for each part
that is no character. -/
def lossy (bs : Bytes) : String :=
  match decode? bs with
  | some s => s
  | none => String.ofList ((pieces bs).map Piece.shown)

end Utf8
end DiskQueue
