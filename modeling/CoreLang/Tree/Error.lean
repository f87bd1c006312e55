import CoreLang.Tree.Node

/-!
# Faults of stored trees

What can be wrong with a tree or with a walk over it. None of them is the fault
of a program text, so every message calls itself an internal error.
-/

namespace CoreLang

inductive TreeError where
  /-- There is no room for another node. -/
  | capacityExceeded (capacity : Nat)
  /-- A construct lies inside too many others. -/
  | nestingTooDeep (limit : Nat)
  /-- A cursor at the root was told to go up. -/
  | ascendPastRoot
  /-- A cursor was told to go down where there is nothing. -/
  | emptySlot (tag : Tag) (slot : Slot)
  /-- A node stands where the grammar wants another kind. -/
  | unexpectedNode (expected found : Tag)
  /-- A number that no node has. -/
  | unknownNode (id : NodeId)
  /-- The tree has no root. -/
  | empty
deriving Repr, DecidableEq, Inhabited

namespace TreeError

/-- What is wrong, without saying that it is an internal error. -/
def reason : TreeError → String
  | .capacityExceeded capacity =>
    "parse tree is out of memory (" ++ Text.Decimal.ofNat capacity ++ " nodes)."
  | .nestingTooDeep limit =>
    "program nests deeper than " ++ Text.Decimal.ofNat limit ++ " levels."
  | .ascendPastRoot => "cannot ascend above the root node."
  | .emptySlot tag slot => tag.text ++ " node has no child in slot " ++ slot.text ++ "."
  | .unexpectedNode expected found =>
    "expecting " ++ expected.text ++ ", found " ++ found.text ++ "."
  | .unknownNode id => "node " ++ id.text ++ " is not in the tree."
  | .empty => "the parse tree is empty."

def message (e : TreeError) : String :=
  "Internal error: " ++ e.reason

end TreeError

end CoreLang
