import CoreLang.Program
import CoreLang.Tree

/-!
# Storing a program

A program is stored parts first: `store` puts the nodes of the parts behind the
nodes already there, in order, and the node that joins them last. So the node of
a stored part is the last one, every node comes after its parts, and the root is
the last node of all. The number of a part is noted before the nodes are handed
on, so that they are never copied.
-/

namespace CoreLang

/-- The number of the node stored last. -/
def lastStored (entries : Array Entry) : NodeId :=
  ⟨entries.size - 1⟩

def Ident.store (entries : Array Entry) (id : Ident Symbol) : Array Entry :=
  entries.push { node := .ident id.var, line := id.line }

def IdList.store (entries : Array Entry) : IdList Symbol → Array Entry
  | .last id =>
    let a := id.store entries
    a.push { node := .idList (lastStored a) none, line := id.line }
  | .cons id rest =>
    let a := id.store entries
    let first := lastStored a
    let b := rest.store a
    b.push { node := .idList first (some (lastStored b)), line := id.line }

def Decl.store (entries : Array Entry) (d : Decl Symbol) : Array Entry :=
  let a := d.ids.store entries
  a.push { node := .decl (lastStored a), line := d.line }

def DeclSeq.store (entries : Array Entry) : DeclSeq Symbol → Array Entry
  | .last d =>
    let a := d.store entries
    a.push { node := .declSeq (lastStored a) none, line := d.line }
  | .cons d rest =>
    let a := d.store entries
    let first := lastStored a
    let b := rest.store a
    b.push { node := .declSeq first (some (lastStored b)), line := d.line }

mutual

def Expr.store (entries : Array Entry) : Expr Symbol → Array Entry
  | .term t =>
    let a := t.store entries
    a.push { node := .exprTerm (lastStored a), line := t.line }
  | .add t rest =>
    let a := t.store entries
    let first := lastStored a
    let b := rest.store a
    b.push { node := .exprAdd first (lastStored b), line := t.line }
  | .sub t rest =>
    let a := t.store entries
    let first := lastStored a
    let b := rest.store a
    b.push { node := .exprSub first (lastStored b), line := t.line }

def Term.store (entries : Array Entry) : Term Symbol → Array Entry
  | .operand o =>
    let a := o.store entries
    a.push { node := .termOperand (lastStored a), line := o.line }
  | .mul o rest =>
    let a := o.store entries
    let first := lastStored a
    let b := rest.store a
    b.push { node := .termMul first (lastStored b), line := o.line }

def Operand.store (entries : Array Entry) : Operand Symbol → Array Entry
  | .int line value =>
    let a := entries.push { node := .int value, line := line }
    a.push { node := .operandInt (lastStored a), line := line }
  | .ident id =>
    let a := id.store entries
    a.push { node := .operandIdent (lastStored a), line := id.line }
  | .paren line e =>
    let a := e.store entries
    a.push { node := .operandParen (lastStored a), line := line }

end

def Comparison.store (entries : Array Entry) (c : Comparison Symbol) : Array Entry :=
  let a := c.left.store entries
  let left := lastStored a
  let b := a.push { node := .compOp c.op, line := c.opLine }
  let op := lastStored b
  let d := c.right.store b
  d.push { node := .comparison left op (lastStored d), line := c.line }

def Cond.store (entries : Array Entry) : Cond Symbol → Array Entry
  | .compare c =>
    let a := c.store entries
    a.push { node := .condCompare (lastStored a), line := c.line }
  | .not line c =>
    let a := c.store entries
    a.push { node := .condNot (lastStored a), line := line }
  | .and line left right =>
    let a := left.store entries
    let first := lastStored a
    let b := right.store a
    b.push { node := .condAnd first (lastStored b), line := line }
  | .or line left right =>
    let a := left.store entries
    let first := lastStored a
    let b := right.store a
    b.push { node := .condOr first (lastStored b), line := line }

/-- Puts the node of a statement behind the node that says what it does. -/
def storeStmt (form : StmtForm) (line : Nat) (entries : Array Entry) : Array Entry :=
  entries.push { node := .stmt form (lastStored entries), line := line }

mutual

def Stmt.store (entries : Array Entry) : Stmt Symbol → Array Entry
  | .assign target value =>
    let a := target.store entries
    let first := lastStored a
    let b := value.store a
    storeStmt .assign target.line
      (b.push { node := .assign first (lastStored b), line := target.line })
  | .ifThen line cond body =>
    let a := cond.store entries
    let first := lastStored a
    let b := body.store a
    storeStmt .ifStmt line
      (b.push { node := .ifStmt first (lastStored b) none, line := line })
  | .ifElse line cond body other =>
    let a := cond.store entries
    let first := lastStored a
    let b := body.store a
    let second := lastStored b
    let c := other.store b
    storeStmt .ifStmt line
      (c.push { node := .ifStmt first second (some (lastStored c)), line := line })
  | .whileLoop line cond body =>
    let a := cond.store entries
    let first := lastStored a
    let b := body.store a
    storeStmt .whileStmt line
      (b.push { node := .whileStmt first (lastStored b), line := line })
  | .read line ids =>
    let a := ids.store entries
    storeStmt .input line (a.push { node := .input (lastStored a), line := line })
  | .write line ids =>
    let a := ids.store entries
    storeStmt .output line (a.push { node := .output (lastStored a), line := line })

def StmtSeq.store (entries : Array Entry) : StmtSeq Symbol → Array Entry
  | .last s =>
    let a := s.store entries
    a.push { node := .stmtSeq (lastStored a) none, line := s.line }
  | .cons s rest =>
    let a := s.store entries
    let first := lastStored a
    let b := rest.store a
    b.push { node := .stmtSeq first (some (lastStored b)), line := s.line }

end

def Program.store (p : Program Symbol) : Array Entry :=
  let a := p.decls.store #[]
  let first := lastStored a
  let b := p.stmts.store a
  b.push { node := .program first (lastStored b), line := p.line }

/-- The tree of a program, if it has room for it. -/
def Tree.ofProgram (capacity : Nat) (p : Program Symbol) : Except TreeError Tree :=
  let entries := p.store
  if entries.size ≤ capacity ∧ entries.size ≤ NodeId.limit then
    .ok { capacity := capacity, entries := entries, root := some (lastStored entries) }
  else .error (.capacityExceeded capacity)

end CoreLang
