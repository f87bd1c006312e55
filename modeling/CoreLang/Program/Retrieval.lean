import CoreLang.Program
import CoreLang.Stop
import CoreLang.Tree

/-!
# Retrieving a program

Reading a stored program back: from the root down, each node checked to be of the
kind that its place wants. What `name` gives for a symbol becomes the variable.
A tree may refer back to a node that is still being read, so the way down is
bounded; a way longer than the tree has nodes never ends.

Whether a `read` or a `write` statement is meant is told by the node below the
statement, not by the statement's own form.
-/

namespace CoreLang.Tree

variable {ι : Type}

/-- The node with a number. -/
def fetch (t : Tree) (id : NodeId) : Except (Stop TreeError) Node :=
  (t.get id).mapError .fault

/-- A node stands where `expected` is wanted. -/
def misplaced {α : Type} (expected : Tag) (found : Node) : Except (Stop TreeError) α :=
  .error (.fault (.unexpectedNode expected found.tag))

section

variable (t : Tree) (name : Symbol → Option ι)

def retrieveIdent (id : NodeId) : Except (Stop TreeError) (Ident ι) := do
  match ← t.fetch id with
  | .ident symbol =>
    match name symbol with
    | some var => return { line := t.line id, var := var }
    | none => .error (.unnamed symbol)
  | other => misplaced .ident other

def retrieveIdList : Nat → NodeId → Except (Stop TreeError) (IdList ι)
  | 0, _ => .error .unfinished
  | depth + 1, id => do
    match ← t.fetch id with
    | .idList first none => return .last (← t.retrieveIdent name first)
    | .idList first (some rest) =>
      let first ← t.retrieveIdent name first
      return .cons first (← retrieveIdList depth rest)
    | other => misplaced .idList other

def retrieveDecl (depth : Nat) (id : NodeId) : Except (Stop TreeError) (Decl ι) := do
  match ← t.fetch id with
  | .decl ids => return { line := t.line id, ids := ← t.retrieveIdList name depth ids }
  | other => misplaced .decl other

def retrieveDeclSeq : Nat → NodeId → Except (Stop TreeError) (DeclSeq ι)
  | 0, _ => .error .unfinished
  | depth + 1, id => do
    match ← t.fetch id with
    | .declSeq decl none => return .last (← t.retrieveDecl name depth decl)
    | .declSeq decl (some rest) =>
      let decl ← t.retrieveDecl name depth decl
      return .cons decl (← retrieveDeclSeq depth rest)
    | other => misplaced .declSeq other

def retrieveInt (id : NodeId) : Except (Stop TreeError) Int64 := do
  match ← t.fetch id with
  | .int value => return value
  | other => misplaced .int other

mutual

def retrieveExpr : Nat → NodeId → Except (Stop TreeError) (Expr ι)
  | 0, _ => .error .unfinished
  | depth + 1, id => do
    match ← t.fetch id with
    | .exprTerm term => return .term (← retrieveTerm depth term)
    | .exprAdd term rest =>
      let term ← retrieveTerm depth term
      return .add term (← retrieveExpr depth rest)
    | .exprSub term rest =>
      let term ← retrieveTerm depth term
      return .sub term (← retrieveExpr depth rest)
    | other => misplaced .expr other

def retrieveTerm : Nat → NodeId → Except (Stop TreeError) (Term ι)
  | 0, _ => .error .unfinished
  | depth + 1, id => do
    match ← t.fetch id with
    | .termOperand operand => return .operand (← retrieveOperand depth operand)
    | .termMul operand rest =>
      let operand ← retrieveOperand depth operand
      return .mul operand (← retrieveTerm depth rest)
    | other => misplaced .term other

def retrieveOperand : Nat → NodeId → Except (Stop TreeError) (Operand ι)
  | 0, _ => .error .unfinished
  | depth + 1, id => do
    match ← t.fetch id with
    | .operandInt leaf => return .int (t.line id) (← t.retrieveInt leaf)
    | .operandIdent leaf => return .ident (← t.retrieveIdent name leaf)
    | .operandParen e => return .paren (t.line id) (← retrieveExpr depth e)
    | other => misplaced .operand other

end

def retrieveCompOp (id : NodeId) : Except (Stop TreeError) Comparator := do
  match ← t.fetch id with
  | .compOp op => return op
  | other => misplaced .compOp other

/-- The operator is read before the operands. -/
def retrieveComparison (depth : Nat) (id : NodeId) : Except (Stop TreeError) (Comparison ι) := do
  match ← t.fetch id with
  | .comparison left opId right =>
    let op ← t.retrieveCompOp opId
    let left ← t.retrieveOperand name depth left
    let right ← t.retrieveOperand name depth right
    return { line := t.line id, left := left, opLine := t.line opId, op := op, right := right }
  | other => misplaced .comparison other

def retrieveCond : Nat → NodeId → Except (Stop TreeError) (Cond ι)
  | 0, _ => .error .unfinished
  | depth + 1, id => do
    match ← t.fetch id with
    | .condCompare c => return .compare (← t.retrieveComparison name depth c)
    | .condNot c => return .not (t.line id) (← retrieveCond depth c)
    | .condAnd left right =>
      let left ← retrieveCond depth left
      return .and (t.line id) left (← retrieveCond depth right)
    | .condOr left right =>
      let left ← retrieveCond depth left
      return .or (t.line id) left (← retrieveCond depth right)
    | other => misplaced .cond other

mutual

def retrieveStmt : Nat → NodeId → Except (Stop TreeError) (Stmt ι)
  | 0, _ => .error .unfinished
  | depth + 1, id => do
    match ← t.fetch id with
    | .stmt .assign inner =>
      match ← t.fetch inner with
      | .assign target value =>
        let target ← t.retrieveIdent name target
        return .assign target (← t.retrieveExpr name depth value)
      | other => misplaced .assign other
    | .stmt .ifStmt inner =>
      match ← t.fetch inner with
      | .ifStmt cond body none =>
        let cond ← t.retrieveCond name depth cond
        return .ifThen (t.line inner) cond (← retrieveStmtSeq depth body)
      | .ifStmt cond body (some other) =>
        let cond ← t.retrieveCond name depth cond
        let body ← retrieveStmtSeq depth body
        return .ifElse (t.line inner) cond body (← retrieveStmtSeq depth other)
      | other => misplaced .ifStmt other
    | .stmt .whileStmt inner =>
      match ← t.fetch inner with
      | .whileStmt cond body =>
        let cond ← t.retrieveCond name depth cond
        return .whileLoop (t.line inner) cond (← retrieveStmtSeq depth body)
      | other => misplaced .whileStmt other
    | .stmt .input inner | .stmt .output inner =>
      match ← t.fetch inner with
      | .input ids => return .read (t.line inner) (← t.retrieveIdList name depth ids)
      | .output ids => return .write (t.line inner) (← t.retrieveIdList name depth ids)
      | other => misplaced .input other
    | other => misplaced .stmt other

def retrieveStmtSeq : Nat → NodeId → Except (Stop TreeError) (StmtSeq ι)
  | 0, _ => .error .unfinished
  | depth + 1, id => do
    match ← t.fetch id with
    | .stmtSeq s none => return .last (← retrieveStmt depth s)
    | .stmtSeq s (some rest) =>
      let s ← retrieveStmt depth s
      return .cons s (← retrieveStmtSeq depth rest)
    | other => misplaced .stmtSeq other

end

/-- The program stored in a tree. -/
def toProgram : Except (Stop TreeError) (Program ι) := do
  match t.root with
  | none => .error (.fault .empty)
  | some root =>
    match ← t.fetch root with
    | .program decls stmts =>
      let decls ← t.retrieveDeclSeq name (t.size + 1) decls
      let stmts ← t.retrieveStmtSeq name (t.size + 1) stmts
      return { line := t.line root, decls := decls, stmts := stmts }
    | other => misplaced .program other

end

end CoreLang.Tree
