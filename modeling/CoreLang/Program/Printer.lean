import CoreLang.Program.Layout
import CoreLang.Stop
import CoreLang.Tree

/-!
# Printing a stored program

The printer walks through a tree and writes the canonical text of the program as it
goes, each node checked to be of the kind that its place wants. All of the text goes
into one buffer, and where a line starts is kept beside it: a block raises the
indentation and lowers it again, also when it could not be printed.

Lists, sequences, sums, products and negations are loops, from one link of the chain to
the next. A tree may refer back to a node that is still being printed, so the way down
is bounded; a way longer than the tree has nodes never ends.

Whether `read` or `write` is printed is told by the node below the statement, not by the
statement's own form.
-/

namespace CoreLang

/-- The text so far, and how far in a line starts. -/
structure Printer where
  out : String := ""
  indent : Nat := 0
deriving Repr, DecidableEq, Inhabited

abbrev PrintM := EStateM (Stop TreeError) Printer

namespace PrintM

def write (text : String) : PrintM Unit := fun p =>
  .ok () { p with out := p.out ++ text }

/-- Writes the spaces that a line starts with. -/
def pad : PrintM Unit := fun p =>
  .ok () { p with out := p.out ++ Text.spaces p.indent }

/-- Sets where lines start from here on. -/
def indentTo (indent : Nat) : PrintM Unit := fun p =>
  .ok () { p with indent := indent }

def stop {α : Type} (reason : Stop TreeError) : PrintM α := fun p => .error reason p

/-- A node stands where `expected` is wanted. -/
def unexpected {α : Type} (expected : Tag) (found : Node) : PrintM α :=
  stop (.fault (.unexpectedNode expected found.tag))

/-- Prints a block one level further in. -/
def block (body : PrintM Unit) : PrintM Unit := fun p =>
  match body { p with indent := p.indent + blockIndent } with
  | .ok () p => .ok () { p with indent := p.indent - blockIndent }
  | .error reason p => .error reason { p with indent := p.indent - blockIndent }

/-- All that is printed from nothing on. -/
def text (m : PrintM Unit) : Except (Stop TreeError) String :=
  match m {} with
  | .ok () p => .ok p.out
  | .error reason _ => .error reason

end PrintM

namespace Tree

open PrintM

/-- The node with a number. -/
def printed (t : Tree) (id : NodeId) : PrintM Node :=
  match t.get id with
  | .ok node => pure node
  | .error error => stop (.fault error)

variable (t : Tree) (symbols : SymbolTable)

def printIdent (id : NodeId) : PrintM Unit := do
  match ← t.printed id with
  | .ident symbol =>
    match symbols.name? symbol with
    | some name => write name
    | none => stop (.unnamed symbol)
  | other => unexpected .ident other

def printIdList : Nat → NodeId → PrintM Unit
  | 0, _ => stop .unfinished
  | depth + 1, id => do
    match ← t.printed id with
    | .idList first rest =>
      t.printIdent symbols first
      match rest with
      | some next =>
        write ", "
        printIdList depth next
      | none => return ()
    | other => unexpected .idList other

def printDecl (depth : Nat) (id : NodeId) : PrintM Unit := do
  match ← t.printed id with
  | .decl ids =>
    write "int "
    t.printIdList symbols depth ids
    write ";\n"
  | other => unexpected .decl other

def printDeclSeq : Nat → NodeId → PrintM Unit
  | 0, _ => stop .unfinished
  | depth + 1, id => do
    match ← t.printed id with
    | .declSeq decl rest =>
      pad
      t.printDecl symbols depth decl
      match rest with
      | some next => printDeclSeq depth next
      | none => return ()
    | other => unexpected .declSeq other

def printInt (id : NodeId) : PrintM Unit := do
  match ← t.printed id with
  | .int value => write (Number.text value)
  | other => unexpected .int other

mutual

def printExpr : Nat → NodeId → PrintM Unit
  | 0, _ => stop .unfinished
  | depth + 1, id => do
    match ← t.printed id with
    | .exprTerm term => printTerm depth term
    | .exprAdd term rest =>
      printTerm depth term
      write " + "
      printExpr depth rest
    | .exprSub term rest =>
      printTerm depth term
      write " - "
      printExpr depth rest
    | other => unexpected .expr other

def printTerm : Nat → NodeId → PrintM Unit
  | 0, _ => stop .unfinished
  | depth + 1, id => do
    match ← t.printed id with
    | .termOperand operand => printOperand depth operand
    | .termMul operand rest =>
      printOperand depth operand
      write " * "
      printTerm depth rest
    | other => unexpected .term other

def printOperand : Nat → NodeId → PrintM Unit
  | 0, _ => stop .unfinished
  | depth + 1, id => do
    match ← t.printed id with
    | .operandInt leaf => t.printInt leaf
    | .operandIdent leaf => t.printIdent symbols leaf
    | .operandParen e =>
      write "("
      printExpr depth e
      write ")"
    | other => unexpected .operand other

end

def printedCompOp (id : NodeId) : PrintM Comparator := do
  match ← t.printed id with
  | .compOp op => return op
  | other => unexpected .compOp other

/-- The operator is looked at before anything is written. -/
def printComparison (depth : Nat) (id : NodeId) : PrintM Unit := do
  match ← t.printed id with
  | .comparison left op right =>
    let op ← t.printedCompOp op
    write "("
    t.printOperand symbols depth left
    write " "
    write op.symbol
    write " "
    t.printOperand symbols depth right
    write ")"
  | other => unexpected .comparison other

/-- Two conditions in brackets, with an operator between them. -/
def printCompound (cond : NodeId → PrintM Unit) (left : NodeId) (op : String) (right : NodeId) :
    PrintM Unit := do
  write "["
  cond left
  write op
  cond right
  write "]"

def printCond : Nat → NodeId → PrintM Unit
  | 0, _ => stop .unfinished
  | depth + 1, id => do
    match ← t.printed id with
    | .condNot c =>
      write "!"
      printCond depth c
    | .condCompare c => t.printComparison symbols depth c
    | .condAnd left right => printCompound (printCond depth) left " && " right
    | .condOr left right => printCompound (printCond depth) left " || " right
    | other => unexpected .cond other

def printAssign (depth : Nat) (id : NodeId) : PrintM Unit := do
  match ← t.printed id with
  | .assign target value =>
    t.printIdent symbols target
    write " = "
    t.printExpr symbols depth value
    write ";\n"
  | other => unexpected .assign other

/-- A conditional; `sequence` prints the statements of a branch. -/
def printIf (sequence : NodeId → PrintM Unit) (depth : Nat) (id : NodeId) : PrintM Unit := do
  match ← t.printed id with
  | .ifStmt cond body other =>
    write "if "
    t.printCond symbols depth cond
    write " then\n"
    block (sequence body)
    match other with
    | some other =>
      pad
      write "else\n"
      block (sequence other)
    | none => pure ()
    pad
    write "end;\n"
  | other => unexpected .ifStmt other

/-- A loop; `sequence` prints the statements of its body. -/
def printWhile (sequence : NodeId → PrintM Unit) (depth : Nat) (id : NodeId) : PrintM Unit := do
  match ← t.printed id with
  | .whileStmt cond body =>
    write "while "
    t.printCond symbols depth cond
    write " loop\n"
    block (sequence body)
    pad
    write "end;\n"
  | other => unexpected .whileStmt other

def printTransfer (depth : Nat) (id : NodeId) : PrintM Unit := do
  let (word, ids) ← match ← t.printed id with
    | .input ids => pure ("read ", ids)
    | .output ids => pure ("write ", ids)
    | other => unexpected .input other
  write word
  t.printIdList symbols depth ids
  write ";\n"

mutual

def printStmt : Nat → NodeId → PrintM Unit
  | 0, _ => stop .unfinished
  | depth + 1, id => do
    match ← t.printed id with
    | .stmt .assign inner => t.printAssign symbols depth inner
    | .stmt .ifStmt inner => t.printIf symbols (printStmtSeq depth) depth inner
    | .stmt .whileStmt inner => t.printWhile symbols (printStmtSeq depth) depth inner
    | .stmt .input inner | .stmt .output inner => t.printTransfer symbols depth inner
    | other => unexpected .stmt other

def printStmtSeq : Nat → NodeId → PrintM Unit
  | 0, _ => stop .unfinished
  | depth + 1, id => do
    match ← t.printed id with
    | .stmtSeq s rest =>
      pad
      printStmt depth s
      match rest with
      | some next => printStmtSeq depth next
      | none => return ()
    | other => unexpected .stmtSeq other

end

def printProgram (id : NodeId) : PrintM Unit := do
  match ← t.printed id with
  | .program decls stmts =>
    write "program\n"
    indentTo blockIndent
    t.printDeclSeq symbols (t.size + 1) decls
    write "begin\n"
    t.printStmtSeq symbols (t.size + 1) stmts
    write "end\n"
  | other => unexpected .program other

/-- The canonical text of the program stored in a tree. -/
def render : Except (Stop TreeError) String :=
  match t.root with
  | none => .error (.fault .empty)
  | some root => PrintM.text (t.printProgram symbols root)

end Tree

end CoreLang
