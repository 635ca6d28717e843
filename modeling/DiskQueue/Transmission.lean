/-
Module: DiskQueue.Transmission
Purpose: What a sender could not deliver.
Trusted boundary: none
Main exports:
  Transmission, Transmission.ofBytes
-/
import DiskQueue.Text.Utf8

namespace DiskQueue

/-!
What a sender could not deliver: a payload of any bytes, and the content type and content encoding
under which it would have been sent.
-/

/-- A payload with the labels it is sent with. -/
structure Transmission where
  content : Bytes
  contentType : String
  contentEncoding : String
deriving Repr, DecidableEq, Inhabited

namespace Transmission

/-- A payload without labels. -/
def ofBytes (content : Bytes) : Transmission := ⟨content, "", ""⟩

/-- The transmission without payload and labels. -/
def empty : Transmission := ofBytes []

/-- The number of bytes of the payload. -/
def length (t : Transmission) : Nat := t.content.length

/-- Whether there is no payload. -/
def isEmpty (t : Transmission) : Bool := t.content.isEmpty

end Transmission
end DiskQueue
