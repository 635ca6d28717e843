/-
Module: DiskQueue.Text.Quoted
Purpose: Quoted text in messages.
Trusted boundary: none
Main exports:
  Quoted.quote, Quoted.quoteBytes
-/
import DiskQueue.Text.Unshown
import DiskQueue.Text.Utf8

namespace DiskQueue.Quoted

/-!
A text inside a message stands between double quotes. Quotes, backslashes and the characters that
are not shown as they are get an escape, so the message stays on one line.
-/

/-- The escape `\u{…}` of a number, in lower-case hexadecimal. -/
def numeric (n : Nat) : List Char := ['\\', 'u', '\x7b'] ++ Nat.toDigits 16 n ++ ['\x7d']

/-- A character as it is written between quotes. -/
def escape (c : Char) : List Char :=
  if c = '"' then ['\\', '"']
  else if c = '\\' then ['\\', '\\']
  else if c = '\n' then ['\\', 'n']
  else if c = '\r' then ['\\', 'r']
  else if c = '\t' then ['\\', 't']
  else if c.toNat = 0 then ['\\', '0']
  else if Unshown.isUnshown c then numeric c.toNat
  else [c]

/-- A text between quotes. -/
def quote (s : String) : String := String.ofList ('"' :: s.toList.flatMap escape ++ ['"'])

/-- A part of a byte string as it is written between quotes. A byte that belongs to
no character is written by its upper-case hexadecimal digits. -/
def escapePiece : Utf8.Piece → List Char
  | .char c => escape c
  | .broken bytes =>
    bytes.flatMap fun b => ['\\', 'x'] ++ (Nat.toDigits 16 b.toNat).map Char.toUpper

/-- A byte string between quotes. -/
def quoteBytes (bs : Bytes) : String :=
  String.ofList ('"' :: (Utf8.pieces bs).flatMap escapePiece ++ ['"'])

end DiskQueue.Quoted
