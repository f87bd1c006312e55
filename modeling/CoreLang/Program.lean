import CoreLang.Number

/-!
# Programs

The abstract form of a program: what the grammar derives, with the marks and
keywords gone. Sums, products and sequences lean to the right, as the grammar
does. A construct keeps the line of its first token wherever that is not the
line of its first part.

Everything is over a type `ι` of variables: names, as a text has them, or the
numbers that a symbol table gives.
-/

namespace CoreLang

/-- An occurrence of a variable. -/
structure Ident (ι : Type) where
  line : Nat
  var : ι
deriving Repr, DecidableEq, Inhabited

/-- One or more variables. -/
inductive IdList (ι : Type) where
  | last (id : Ident ι)
  | cons (id : Ident ι) (rest : IdList ι)
deriving Repr, DecidableEq, Inhabited

/-- `int` and the variables declared. -/
structure Decl (ι : Type) where
  line : Nat
  ids : IdList ι
deriving Repr, DecidableEq, Inhabited

inductive DeclSeq (ι : Type) where
  | last (decl : Decl ι)
  | cons (decl : Decl ι) (rest : DeclSeq ι)
deriving Repr, DecidableEq, Inhabited

mutual

inductive Expr (ι : Type) where
  | term (t : Term ι)
  | add (t : Term ι) (rest : Expr ι)
  | sub (t : Term ι) (rest : Expr ι)
deriving Repr, DecidableEq

inductive Term (ι : Type) where
  | operand (o : Operand ι)
  | mul (o : Operand ι) (rest : Term ι)
deriving Repr, DecidableEq

inductive Operand (ι : Type) where
  | int (line : Nat) (value : Int64)
  | ident (id : Ident ι)
  | paren (line : Nat) (e : Expr ι)
deriving Repr, DecidableEq

end

/-- A comparison, with the lines of its parenthesis and of its operator. -/
structure Comparison (ι : Type) where
  line : Nat
  left : Operand ι
  opLine : Nat
  op : Comparator
  right : Operand ι
deriving Repr, DecidableEq

inductive Cond (ι : Type) where
  | compare (c : Comparison ι)
  | not (line : Nat) (c : Cond ι)
  | and (line : Nat) (left right : Cond ι)
  | or (line : Nat) (left right : Cond ι)
deriving Repr, DecidableEq

mutual

inductive Stmt (ι : Type) where
  | assign (target : Ident ι) (value : Expr ι)
  | ifThen (line : Nat) (cond : Cond ι) (body : StmtSeq ι)
  | ifElse (line : Nat) (cond : Cond ι) (body other : StmtSeq ι)
  | whileLoop (line : Nat) (cond : Cond ι) (body : StmtSeq ι)
  | read (line : Nat) (ids : IdList ι)
  | write (line : Nat) (ids : IdList ι)
deriving Repr, DecidableEq

inductive StmtSeq (ι : Type) where
  | last (s : Stmt ι)
  | cons (s : Stmt ι) (rest : StmtSeq ι)
deriving Repr, DecidableEq

end

structure Program (ι : Type) where
  line : Nat
  decls : DeclSeq ι
  stmts : StmtSeq ι
deriving Repr, DecidableEq

/-! ### The line of the first token -/

variable {ι : Type}

def IdList.line : IdList ι → Nat
  | .last id | .cons id _ => id.line

def DeclSeq.line : DeclSeq ι → Nat
  | .last d | .cons d _ => d.line

def Operand.line : Operand ι → Nat
  | .int line _ | .paren line _ => line
  | .ident id => id.line

def Term.line : Term ι → Nat
  | .operand o | .mul o _ => o.line

def Expr.line : Expr ι → Nat
  | .term t | .add t _ | .sub t _ => t.line

def Cond.line : Cond ι → Nat
  | .compare c => c.line
  | .not line _ | .and line _ _ | .or line _ _ => line

def Stmt.line : Stmt ι → Nat
  | .assign target _ => target.line
  | .ifThen line _ _ | .ifElse line _ _ _ | .whileLoop line _ _ => line
  | .read line _ | .write line _ => line

def StmtSeq.line : StmtSeq ι → Nat
  | .last s | .cons s _ => s.line

end CoreLang
