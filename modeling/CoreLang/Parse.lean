import CoreLang.Parse.Grammar

/-!
# Parsing

From a text to a stored program and the names of its variables.
-/

namespace CoreLang

/-- A stored program and the names of its symbols. -/
structure Parsed where
  tree : Tree
  symbols : SymbolTable
deriving Repr, DecidableEq, Inhabited

/-- Parses a text into a tree of at most `capacity` nodes. -/
def parse (source : String) (capacity : Nat) : Except ParseError Parsed := do
  let start ← ParseState.startWith (TreeBudget.ofCapacity capacity) (TokenStream.ofSource source)
  match BuildM.rootedProgram start with
  | .error error _ => .error error
  | .ok () after => return { tree := after.budget.tree, symbols := after.symbols }

end CoreLang
