import CoreLang.Stop
import CoreLang.Tree

/-!
# Cursors

A `Cursor` stands on a node and remembers the way it came from the root. A step
that cannot be taken leaves the cursor where it was. `within` goes down into a
slot, lets a visitor work there, and comes back up whatever the visitor says.
-/

namespace CoreLang

structure Cursor where
  tree : Tree
  current : NodeId
  /-- The nodes above the current one, nearest first. -/
  ancestors : List NodeId
deriving Repr, DecidableEq, Inhabited

/-- A cursor on the root. -/
def Tree.cursor (t : Tree) : Except TreeError Cursor :=
  match t.root with
  | some root => .ok { tree := t, current := root, ancestors := [] }
  | none => .error .empty

namespace Cursor

def depth (c : Cursor) : Nat := c.ancestors.length

def line (c : Cursor) : Nat := c.tree.line c.current

/-- The node under the cursor. A cursor can stand on a number that no node has. -/
def node (c : Cursor) : Except (Stop TreeError) Node :=
  match c.tree.node? c.current with
  | some node => .ok node
  | none => .error (.dangling c.current)

/-- Goes down into a slot. -/
def descend (c : Cursor) (slot : Slot) : Except (Stop TreeError) Cursor := do
  let node ← c.node
  match node.child? slot with
  | some child => .ok { c with current := child, ancestors := c.current :: c.ancestors }
  | none => .error (.fault (.emptySlot node.tag slot))

/-- Goes back up. -/
def ascend (c : Cursor) : Except (Stop TreeError) Cursor :=
  match c.ancestors with
  | parent :: above => .ok { c with current := parent, ancestors := above }
  | [] => .error (.fault .ascendPastRoot)

/-- Going up undoes going down. -/
theorem ascend_of_descend {c inside : Cursor} {slot : Slot} (h : c.descend slot = .ok inside) :
    inside.ascend = .ok c := by
  unfold descend at h
  cases hn : c.node with
  | error stop => simp [hn, bind, Except.bind] at h
  | ok node =>
    simp only [hn, bind, Except.bind] at h
    split at h
    · cases h
      rfl
    · cases h

/-- Visits a slot: goes down, lets `visit` move about there, goes up once. Where
going up fails, that is the outcome, whatever the visitor found. -/
def within {α : Type} (c : Cursor) (slot : Slot)
    (visit : Cursor → Except (Stop TreeError) α × Cursor) :
    Except (Stop TreeError) α × Cursor :=
  match c.descend slot with
  | .error stop => (.error stop, c)
  | .ok inside =>
    let (found, left) := visit inside
    match left.ascend with
    | .ok back => (found, back)
    | .error stop => (.error stop, left)

end Cursor

end CoreLang
