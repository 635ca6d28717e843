/-
Module: DiskQueue.RefillOrder
Purpose: Which of the stored records a batch is taken from.
Trusted boundary: none
Main exports:
  RefillOrder, RefillOrder.name, RefillOrder.parse?
-/

namespace DiskQueue

/-!
When more records are stored than fit into a batch, either the ones with the
greatest names or the ones with the least names are kept. Within a batch the
least name always comes first.
-/

/-- Which names a batch keeps. -/
inductive RefillOrder where
  | highestNames
  | lowestNames
deriving Repr, Inhabited, DecidableEq

namespace RefillOrder

/-- The word for an order in settings and messages. -/
def name : RefillOrder → String
  | .highestNames => "highest_names_retained"
  | .lowestNames => "lowest_names_retained"

/-- Both orders. -/
def all : List RefillOrder := [.highestNames, .lowestNames]

/-- The order with a given word. -/
def ofName? (word : String) : Option RefillOrder := all.find? fun order => order.name == word

/-- Other words for the orders, in lower case. -/
def aliases : List (String × RefillOrder) :=
  [("highest", .highestNames), ("lowest", .lowestNames), ("oldest", .lowestNames)]

/-- Reads an order by its word or by one of its short words, in any case. No
letter in these words is the lower case of a letter outside ASCII. -/
def parse? (text : String) : Option RefillOrder :=
  let word := String.ofList (text.toList.map Char.toLower)
  match ofName? word with
  | some order => some order
  | none => aliases.lookup word

/-- The message for a text that names no order. -/
def unknownMessage (text : String) : String := s!"unknown refill order: {text}"

/-- An order is read back from its word. -/
theorem ofName?_name (order : RefillOrder) : ofName? order.name = some order := by
  cases order <;> decide

end RefillOrder
end DiskQueue
