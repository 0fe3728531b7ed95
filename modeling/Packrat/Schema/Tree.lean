/-!
Parsed values of grammars that are given as data: every value carries the name of the symbol
that it was read as.
-/
namespace Packrat

/-- What a slot of a record holds. -/
inductive Content (α : Type) where
  | one (value : α)
  | maybe (value : Option α)
  | many (values : List α)
  | word (text : String)
deriving BEq

inductive Tree where
  | text (name text : String)
  | number (name : String) (value : Nat)
  | choice (name : String) (chosen : Tree)
  | record (name : String) (slots : List (String × Content Tree))
deriving BEq

namespace Tree

mutual

/-- The number of nodes; slots and lists are none. -/
def nodes : Tree → Nat
  | text _ _ => 1
  | number _ _ => 1
  | choice _ chosen => nodes chosen + 1
  | record _ slots => slotNodes slots + 1

def slotNodes : List (String × Content Tree) → Nat
  | [] => 0
  | (_, content) :: rest => contentNodes content + slotNodes rest

def contentNodes : Content Tree → Nat
  | .one value => nodes value
  | .maybe none => 0
  | .maybe (some value) => nodes value
  | .many values => listNodes values
  | .word _ => 0

def listNodes : List Tree → Nat
  | [] => 0
  | value :: rest => nodes value + listNodes rest

end

mutual

/-- The number of nodes on a longest path from the root. -/
def height : Tree → Nat
  | text _ _ => 1
  | number _ _ => 1
  | choice _ chosen => height chosen + 1
  | record _ slots => slotHeight slots + 1

def slotHeight : List (String × Content Tree) → Nat
  | [] => 0
  | (_, content) :: rest => max (contentHeight content) (slotHeight rest)

def contentHeight : Content Tree → Nat
  | .one value => height value
  | .maybe none => 0
  | .maybe (some value) => height value
  | .many values => listHeight values
  | .word _ => 0

def listHeight : List Tree → Nat
  | [] => 0
  | value :: rest => max (height value) (listHeight rest)

end

end Tree

end Packrat
