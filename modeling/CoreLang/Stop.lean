import CoreLang.Tree.Node

/-!
# How work on a tree can end early

Walking a tree that was put together by hand can go wrong in ways that no
program text leads to. A `Stop` keeps them apart: a fault that is reported, a
name or a node that is simply not there, a line that starts too far in to be
written, and work cut off before its end.
-/

namespace CoreLang

inductive Stop (ε : Type) where
  /-- A fault that is reported with a message. -/
  | fault (error : ε)
  /-- The name of a symbol was needed that the table does not have. -/
  | unnamed (symbol : Symbol)
  /-- A node was needed that the tree does not have. -/
  | dangling (id : NodeId)
  /-- A line was to start further in than a width can say. -/
  | overwide (width : Nat)
  /-- The bound on the number of steps was reached. -/
  | unfinished
deriving Repr, DecidableEq, Inhabited

namespace Stop

/-- Reports a fault as part of a larger one; the other endings stay. -/
def mapFault {ε δ : Type} (f : ε → δ) : Stop ε → Stop δ
  | .fault error => .fault (f error)
  | .unnamed symbol => .unnamed symbol
  | .dangling id => .dangling id
  | .overwide width => .overwide width
  | .unfinished => .unfinished

end Stop

end CoreLang
