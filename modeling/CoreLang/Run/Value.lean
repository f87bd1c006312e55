import CoreLang.Run.Machine

/-!
# The value of an expression

Expressions are evaluated on the stored tree. A sum is gone through in a loop from one
link to the next: the terms are evaluated from left to right and put aside with their
operators, and at the end the operators are applied from the right end back, since sums
group to the right. A product is gone through in the same way. Nothing but the variables
is looked at and nothing changes.

What a loop gives is also told by recursion (`evalExpr_succ`, `evalTerm_succ`): the left
part comes first, then the right part, then the operator, so the first of several faults in
that order is the one reported.

A tree may refer back to a node that is still being evaluated, so every function
here has a bound on how far it goes.
-/

namespace CoreLang.Tree

/-- The node with a number, for a run. -/
def load (t : Tree) (id : NodeId) : Except (Stop RuntimeError) Node :=
  (t.get id).mapError fun error => .fault (.tree error)

/-- A run met a node where `expected` is wanted. -/
def unfit {α : Type} (expected : Tag) (found : Node) : Except (Stop RuntimeError) α :=
  .error (.fault (.tree (.unexpectedNode expected found.tag)))

/-- The name of a symbol, for a run. -/
def nameOf (symbols : SymbolTable) (symbol : Symbol) : Except (Stop RuntimeError) String :=
  match symbols.name? symbol with
  | some name => .ok name
  | none => .error (.unnamed symbol)

section

variable (t : Tree) (env : Environment)

/-- The symbol of an identifier leaf. -/
def symbolAt (id : NodeId) : Except (Stop RuntimeError) Symbol := do
  match ← t.load id with
  | .ident symbol => return symbol
  | other => unfit .ident other

/-- The value of an integer leaf. -/
def literalAt (id : NodeId) : Except (Stop RuntimeError) Int64 := do
  match ← t.load id with
  | .int value => return value
  | other => unfit .int other

/-- The value of the variable of an identifier leaf. -/
def variableAt (id : NodeId) : Except (Stop RuntimeError) Int64 := do
  let symbol ← t.symbolAt id
  match env.get? symbol with
  | some value => return value
  | none =>
    let name ← nameOf env.symbols symbol
    .error (.fault (.uninitializedVariable name (t.line id)))

end

/-- A left operand that was put aside with its operator, and the line that an overflow is
reported on. -/
structure Pending where
  left : Int64
  op : Operator
  line : Nat
deriving Repr, DecidableEq, Inhabited

def Pending.apply (p : Pending) (right : Int64) : Except (Stop RuntimeError) Int64 :=
  (p.op.apply p.left right p.line).mapError .fault

/-- Applies what was put aside, the last operator first. -/
def applyPending : List Pending → Int64 → Except (Stop RuntimeError) Int64
  | [], value => .ok value
  | p :: others, value => do applyPending others (← p.apply value)

section

variable (t : Tree) (env : Environment)

mutual

/-- Goes on with a sum from one of its links; `pending` was put aside before, the last
operand first. -/
def sumFrom : (steps : Nat) → NodeId → (pending : List Pending) → Except (Stop RuntimeError) Int64
  | 0, _, _ => .error .unfinished
  | steps + 1, id, pending => do
    match ← t.load id with
    | .exprTerm term => applyPending pending (← productFrom steps term [])
    | .exprAdd term rest =>
      let left ← productFrom steps term []
      sumFrom steps rest ({ left := left, op := .add, line := t.line id } :: pending)
    | .exprSub term rest =>
      let left ← productFrom steps term []
      sumFrom steps rest ({ left := left, op := .sub, line := t.line id } :: pending)
    | other => unfit .expr other

/-- Goes on with a product from one of its links. -/
def productFrom : (steps : Nat) → NodeId → (pending : List Pending) →
    Except (Stop RuntimeError) Int64
  | 0, _, _ => .error .unfinished
  | steps + 1, id, pending => do
    match ← t.load id with
    | .termOperand operand => applyPending pending (← evalOperand steps operand)
    | .termMul operand rest =>
      let left ← evalOperand steps operand
      productFrom steps rest ({ left := left, op := .mul, line := t.line id } :: pending)
    | other => unfit .term other

def evalOperand : (steps : Nat) → NodeId → Except (Stop RuntimeError) Int64
  | 0, _ => .error .unfinished
  | steps + 1, id => do
    match ← t.load id with
    | .operandInt leaf => t.literalAt leaf
    | .operandIdent leaf => t.variableAt env leaf
    | .operandParen e => sumFrom steps e []
    | other => unfit .operand other

end

def evalExpr (steps : Nat) (id : NodeId) : Except (Stop RuntimeError) Int64 :=
  t.sumFrom env steps id []

def evalTerm (steps : Nat) (id : NodeId) : Except (Stop RuntimeError) Int64 :=
  t.productFrom env steps id []

end

/-! ### The loops as recursions -/

section

variable (t : Tree) (env : Environment)

/-- Applies an operator; its overflow is reported on the line of a node. -/
def combine (op : Operator) (a b : Int64) (id : NodeId) : Except (Stop RuntimeError) Int64 :=
  (op.apply a b (t.line id)).mapError .fault

end

variable {t : Tree} {env : Environment}

theorem applyPending_singleton (p : Pending) : applyPending [p] = p.apply := by
  funext value
  exact bind_pure _

theorem applyPending_cons (p : Pending) (others : List Pending) :
    applyPending (p :: others) = fun value => p.apply value >>= applyPending others := rfl

/-- What was put aside before waits until the rest of the sum is known. -/
theorem sumFrom_eq (steps : Nat) (id : NodeId) (pending : List Pending) :
    t.sumFrom env steps id pending = t.evalExpr env steps id >>= applyPending pending := by
  induction steps generalizing id pending with
  | zero => rfl
  | succ steps ih =>
    rw [evalExpr, sumFrom, sumFrom, bind_assoc]
    refine bind_congr fun node => ?_
    cases node with
    | exprTerm term =>
      rw [bind_assoc]
      rfl
    | exprAdd term rest | exprSub term rest =>
      rw [bind_assoc]
      refine bind_congr fun left => ?_
      rw [ih, ih, applyPending_cons, applyPending_singleton, bind_assoc]
    | _ => rfl

/-- What was put aside before waits until the rest of the product is known. -/
theorem productFrom_eq (steps : Nat) (id : NodeId) (pending : List Pending) :
    t.productFrom env steps id pending = t.evalTerm env steps id >>= applyPending pending := by
  induction steps generalizing id pending with
  | zero => rfl
  | succ steps ih =>
    rw [evalTerm, productFrom, productFrom, bind_assoc]
    refine bind_congr fun node => ?_
    cases node with
    | termOperand operand =>
      rw [bind_assoc]
      rfl
    | termMul operand rest =>
      rw [bind_assoc]
      refine bind_congr fun left => ?_
      rw [ih, ih, applyPending_cons, applyPending_singleton, bind_assoc]
    | _ => rfl

theorem evalExpr_succ (steps : Nat) (id : NodeId) : t.evalExpr env (steps + 1) id = (do
    match ← t.load id with
    | .exprTerm term => t.evalTerm env steps term
    | .exprAdd term rest =>
      let a ← t.evalTerm env steps term
      let b ← t.evalExpr env steps rest
      t.combine .add a b id
    | .exprSub term rest =>
      let a ← t.evalTerm env steps term
      let b ← t.evalExpr env steps rest
      t.combine .sub a b id
    | other => unfit .expr other) := by
  rw [evalExpr, sumFrom]
  refine bind_congr fun node => ?_
  cases node with
  | exprTerm term => exact bind_pure _
  | exprAdd term rest | exprSub term rest =>
    refine bind_congr fun left => ?_
    rw [sumFrom_eq, applyPending_singleton]
    rfl
  | _ => rfl

theorem evalTerm_succ (steps : Nat) (id : NodeId) : t.evalTerm env (steps + 1) id = (do
    match ← t.load id with
    | .termOperand operand => t.evalOperand env steps operand
    | .termMul operand rest =>
      let a ← t.evalOperand env steps operand
      let b ← t.evalTerm env steps rest
      t.combine .mul a b id
    | other => unfit .term other) := by
  rw [evalTerm, productFrom]
  refine bind_congr fun node => ?_
  cases node with
  | termOperand operand => exact bind_pure _
  | termMul operand rest =>
    refine bind_congr fun left => ?_
    rw [productFrom_eq, applyPending_singleton]
    rfl
  | _ => rfl

theorem evalOperand_succ (steps : Nat) (id : NodeId) : t.evalOperand env (steps + 1) id = (do
    match ← t.load id with
    | .operandInt leaf => t.literalAt leaf
    | .operandIdent leaf => t.variableAt env leaf
    | .operandParen e => t.evalExpr env steps e
    | other => unfit .operand other) := by
  rw [evalOperand]
  rfl

end CoreLang.Tree
