/-
Module: DiskQueue.ProcessToken
Purpose: Tokens that tell the files of one process from those of another.
Trusted boundary: none
Main exports:
  ProcessToken, ProcessToken.parse?, ProcessToken.ofRandom
-/
import DiskQueue.Text.Utf8

namespace DiskQueue

/-!
A token has eight characters, each one a lower-case letter or a digit from two
to seven, so a character holds five bits. Two processes with different tokens
never choose the same file name, whatever their clocks say.
-/

/-- A name for one run of a process. A token that was read from a settings text
is kept as it was found; `parse?` is the check. -/
structure ProcessToken where
  text : String
deriving Repr, Inhabited, DecidableEq

namespace ProcessToken

/-- The number of characters of a token. -/
def length : Nat := 8

/-- The characters of a token, in the order of their values. -/
def alphabet : List Char := "abcdefghijklmnopqrstuvwxyz234567".toList

/-- Texts of the right length, in bytes, with no other characters. -/
def isWellFormed (text : String) : Bool :=
  text.utf8ByteSize = length && text.toList.all fun c => alphabet.contains c

/-- The token with a given text. -/
def parse? (text : String) : Option ProcessToken :=
  if isWellFormed text then some ⟨text⟩ else none

/-- The character for the five lowest bits of a number. -/
def digit (n : Nat) : Char := alphabet.getD (n % 32) 'a'

/-- The given number of characters for a number, its lowest bits first. -/
def digitsOf : Nat → Nat → List Char
  | 0, _ => []
  | count + 1, n => digit n :: digitsOf count (n / 32)

/-- The token for a number drawn at random. -/
def ofRandom (n : Nat) : ProcessToken := ⟨String.ofList (digitsOf length n)⟩

/-- The bytes of a token. -/
def bytes (token : ProcessToken) : Bytes := Utf8.encode token.text

/-- The characters from two to seven are part of the alphabet, zero is not. -/
example : (parse? "a2b7cdef").isSome = true ∧ parse? "a0b7cdef" = none := by decide +kernel

end ProcessToken
end DiskQueue
