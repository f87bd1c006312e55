import CoreLang.Tree.Cursor
import CoreLang.Text.Column

/-!
# Outlines

The outline of a tree lists a node on each line, parents before their parts and
parts in slot order, two spaces further in for each level. A cursor makes the
round; for every node on its way it keeps the slots that are still to be tried.
A tree may refer back to its own beginning, so the round is bounded by a number
of steps.

How far in a line starts is a width, and widths are bounded: where the tree is too
deep for that, the round breaks off.
-/

namespace CoreLang

/-- What a leaf adds to its line. -/
def Node.leafText : Node → String
  | .int value => " " ++ Number.text value
  | .ident symbol => " #" ++ Text.Decimal.ofNat symbol.index
  | _ => ""

/-- A line of an outline: how far in it starts, and what stands there. -/
structure OutlineLine where
  indent : Nat
  content : String
deriving Repr, DecidableEq, Inhabited

def OutlineLine.text (line : OutlineLine) : String :=
  Text.spaces line.indent ++ line.content ++ "\n"

/-- The line of a node at a depth, if a line can start there. -/
def Node.outlineLine (node : Node) (depth : Nat) : Except (Stop TreeError) OutlineLine :=
  if 2 * depth < Text.widthLimit then
    .ok { indent := 2 * depth
          content := node.tag.text ++ "/" ++ Text.Decimal.ofNat node.alternative ++ node.leafText }
  else .error (.overwide (2 * depth))

namespace Cursor

/-- The line of the node under the cursor. -/
def outlineLine (c : Cursor) : Except (Stop TreeError) OutlineLine := do
  (← c.node).outlineLine c.depth

/-- Goes on with the round: `pending` holds the slots still to be tried, those of
the current node first, then those of the nodes above it. -/
def outlineFrom : Nat → Cursor → (pending : List (List Slot)) → Array OutlineLine →
    Except (Stop TreeError) (Array OutlineLine)
  | 0, _, _, _ => .error .unfinished
  | _ + 1, _, [], lines => .ok lines
  | _ + 1, _, [[]], lines => .ok lines
  | steps + 1, c, [] :: above, lines => do
    outlineFrom steps (← c.ascend) above lines
  | steps + 1, c, (slot :: slots) :: above, lines => do
    if ((← c.node).child? slot).isSome then
      let inside ← c.descend slot
      outlineFrom steps inside (Slot.all :: slots :: above) (lines.push (← inside.outlineLine))
    else
      outlineFrom steps c (slots :: above) lines

end Cursor

/-- The lines of the outline of a tree, made in at most `steps` steps. -/
def Tree.outlineLines (t : Tree) (steps : Nat) : Except (Stop TreeError) (Array OutlineLine) :=
  match t.cursor with
  | .error _ => .ok #[{ indent := 0, content := "<empty>" }]
  | .ok c => do c.outlineFrom steps [Slot.all] #[← c.outlineLine]

/-- The outline of a tree, made in at most `steps` steps. -/
def Tree.outline (t : Tree) (steps : Nat) : Except (Stop TreeError) String := do
  return String.join ((← t.outlineLines steps).toList.map OutlineLine.text)

end CoreLang
