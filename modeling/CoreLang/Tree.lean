import CoreLang.Tree.Error

/-!
# Stored trees

A `Tree` holds at most `capacity` nodes, numbered in the order they came, each
with the line its text starts on. Nothing is checked about the parts that a node
refers to: they may come later or never.
-/

namespace CoreLang

/-- A node and the line its text starts on. -/
structure Entry where
  node : Node
  line : Nat
deriving Repr, DecidableEq, Inhabited

structure Tree where
  capacity : Nat
  entries : Array Entry
  root : Option NodeId
deriving Repr, DecidableEq, Inhabited

namespace Tree

/-- The room for nodes that a tree has unless told otherwise. -/
def defaultCapacity : Nat := 1000

/-- A tree without nodes. -/
def ofCapacity (capacity : Nat) : Tree :=
  { capacity := capacity, entries := #[], root := none }

def size (t : Tree) : Nat := t.entries.size

/-- Adds a node and gives its number. -/
@[inline] def alloc (t : Tree) (node : Node) (line : Nat) : Except TreeError (NodeId × Tree) :=
  if t.size < t.capacity ∧ t.size < NodeId.limit then
    .ok (⟨t.size⟩, { t with entries := t.entries.push { node := node, line := line } })
  else .error (.capacityExceeded t.capacity)

/-- Makes a stored node the root. -/
def setRoot (t : Tree) (id : NodeId) : Except TreeError Tree :=
  if id.index < t.size then .ok { t with root := some id } else .error (.unknownNode id)

/-- The node with a number, if the tree has it. -/
def node? (t : Tree) (id : NodeId) : Option Node :=
  t.entries[id.index]?.map Entry.node

/-- The node with a number. -/
def get (t : Tree) (id : NodeId) : Except TreeError Node :=
  match t.node? id with
  | some node => .ok node
  | none => .error (.unknownNode id)

/-- The line of a node; zero for a number that no node has. -/
def line (t : Tree) (id : NodeId) : Nat :=
  (t.entries[id.index]?.map Entry.line).getD 0

end Tree

end CoreLang
