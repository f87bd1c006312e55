import CoreLang.Parse.State
import CoreLang.Program

/-!
# The grammar, read as programs

The rules of the grammar once more, giving programs in place of nodes. Every rule is a
recursion over what it reads, and of the tree only the account is kept: a rule reserves its
node before it looks at the text and settles it when it is done.
-/

namespace CoreLang

namespace Budget

def used (b : Budget) : Nat := b.built + b.reserved

/-- Reserves a node, if there is room for it. -/
def reserve? (b : Budget) : Option Budget :=
  if b.used < b.capacity then some { b with reserved := b.reserved + 1 } else none

/-- Turns a reserved node into a finished one. -/
def settle (b : Budget) : Budget :=
  { b with built := b.built + 1, reserved := b.reserved - 1 }

end Budget

/-- The state before the first token, with room for `capacity` nodes. -/
def ParseState.start (capacity : Nat) (stream : TokenStream) : Except ParseError ParseState :=
  startWith { capacity := capacity } stream

abbrev ParseM := ParsingM Budget

namespace ParseM

def reserve : ParseM Unit := fun s =>
  match s.budget.reserve? with
  | some budget => .ok () { s with budget := budget }
  | none => .error (.tree (.capacityExceeded s.budget.capacity)) s

def settle : ParseM Unit := fun s =>
  .ok () { s with budget := s.budget.settle }

/-- A rule that makes one node of its own: reserved at its start, settled at its end. -/
def node {α : Type} (rule : ParseM α) : ParseM α := do
  reserve
  let a ← rule
  settle
  return a

def enter : ParseM Unit := fun s =>
  if s.depth < maxNesting then .ok () { s with depth := s.depth + 1 } else tooDeep s

def leave : ParseM Unit := fun s =>
  .ok () { s with depth := s.depth - 1 }

/-- A rule for a place one level further in. -/
def nested {α : Type} (rule : ParseM α) : ParseM α := do
  enter
  let a ← rule
  leave
  return a

def identifier (site : Site) : ParseM (Ident Symbol) := node do
  match ← peek with
  | .identifier name =>
    let line ← peekLine
    let symbol ← bindName site name
    advance
    return { line := line, var := symbol }
  | _ => unexpected .identifier

/-- A list of names, with at most so many more behind the first. -/
def idListUpTo (site : Site) : Nat → ParseM (IdList Symbol)
  | 0 => node do return .last (← identifier site)
  | n + 1 => node do
    let id ← identifier site
    match ← peek with
    | .mark .comma =>
      advance
      return .cons id (← idListUpTo site n)
    | _ => return .last id

def idList (site : Site) : ParseM (IdList Symbol) :=
  repeating (idListUpTo site)

def decl : ParseM (Decl Symbol) := node do
  let line ← peekLine
  expect (.keyword .intWord) .declaration
  let ids ← idList .declares
  expect (.mark .semicolon) .semicolon
  return { line := line, ids := ids }

/-- Declarations, with at most so many more behind the first. -/
def declSeqUpTo : Nat → ParseM (DeclSeq Symbol)
  | 0 => node do return .last (← decl)
  | n + 1 => node do
    let d ← decl
    match ← peek with
    | .keyword .intWord => return .cons d (← declSeqUpTo n)
    | _ => return .last d

def declSeq : ParseM (DeclSeq Symbol) :=
  repeating declSeqUpTo

/-! ### Expressions -/

/-- An operand; `inside` reads what is in parentheses. The leaf of a literal is a node of its
own. -/
def operandWith (inside : ParseM (Expr Symbol)) : ParseM (Operand Symbol) := node do
  let line ← peekLine
  match ← peek with
  | .integer digits =>
    node advance
    return .int line (Token.literal digits)
  | .identifier _ => return .ident (← identifier .uses)
  | .mark .openParen =>
    advance
    let e ← inside
    expect (.mark .closeParen) .closeParen
    return .paren line e
  | _ => unexpected .operand

/-- A product, with at most so many more operands behind the first. -/
def termUpTo (inside : ParseM (Expr Symbol)) : Nat → ParseM (Term Symbol)
  | 0 => node do return .operand (← operandWith inside)
  | n + 1 => node do
    let o ← operandWith inside
    match ← peek with
    | .mark .star =>
      advance
      return .mul o (← termUpTo inside n)
    | _ => return .operand o

def termWith (inside : ParseM (Expr Symbol)) : ParseM (Term Symbol) :=
  repeating (termUpTo inside)

/-- A sum, with at most so many more terms behind the first. -/
def exprUpTo (inside : ParseM (Expr Symbol)) : Nat → ParseM (Expr Symbol)
  | 0 => node do return .term (← termWith inside)
  | n + 1 => node do
    let t ← termWith inside
    match ← peek with
    | .mark .plus =>
      advance
      return .add t (← exprUpTo inside n)
    | .mark .minus =>
      advance
      return .sub t (← exprUpTo inside n)
    | _ => return .term t

def exprWith (inside : ParseM (Expr Symbol)) : ParseM (Expr Symbol) :=
  repeating (exprUpTo inside)

/-- An expression in parentheses, where `levels` more may be entered. -/
def innerExpr : (levels : Nat) → ParseM (Expr Symbol)
  | 0 => tooDeep
  | levels + 1 => fun s => nested (exprWith (innerExpr levels)) s

def operand (levels : Nat) : ParseM (Operand Symbol) :=
  operandWith (innerExpr levels)

def expr (levels : Nat) : ParseM (Expr Symbol) :=
  exprWith (innerExpr levels)

/-! ### Conditions -/

def compOp : ParseM Comparator := node do
  match comparator? (← peek) with
  | some op =>
    advance
    return op
  | none => unexpected .comparisonOperator

def comparison (levels : Nat) : ParseM (Comparison Symbol) := node do
  let line ← peekLine
  expect (.mark .openParen) .comparison
  let left ← operand levels
  let opLine ← peekLine
  let op ← compOp
  let right ← operand levels
  expect (.mark .closeParen) .closeParen
  return { line := line, left := left, opLine := opLine, op := op, right := right }

/-- A condition that starts with no `!`, up to its node. -/
def plainCond (levels : Nat) (inside : ParseM (Cond Symbol)) : ParseM (Cond Symbol) := do
  let line ← peekLine
  match ← peek with
  | .mark .openBracket =>
    advance
    let left ← inside
    match ← peek with
    | .mark .andAnd =>
      advance
      let right ← inside
      expect (.mark .closeBracket) .closeBracket
      return .and line left right
    | .mark .orOr =>
      advance
      let right ← inside
      expect (.mark .closeBracket) .closeBracket
      return .or line left right
    | _ => unexpected .logicalOperator
  | _ => return .compare (← comparison levels)

def condUpTo (levels : Nat) (inside : ParseM (Cond Symbol)) : Nat → ParseM (Cond Symbol)
  | 0 => node (plainCond levels inside)
  | n + 1 => node do
    match ← peek with
    | .mark .bang =>
      let line ← peekLine
      advance
      return .not line (← condUpTo levels inside n)
    | _ => plainCond levels inside

def condWith (levels : Nat) (inside : ParseM (Cond Symbol)) : ParseM (Cond Symbol) :=
  repeating (condUpTo levels inside)

/-- A condition in brackets, where `levels` more may be entered. -/
def innerCond : (levels : Nat) → ParseM (Cond Symbol)
  | 0 => tooDeep
  | levels + 1 => fun s => nested (condWith levels (innerCond levels)) s

def cond (levels : Nat) : ParseM (Cond Symbol) :=
  condWith levels (innerCond levels)

/-! ### Statements -/

def assignment (levels : Nat) : ParseM (Stmt Symbol) := node do
  let target ← identifier .uses
  expect (.mark .assign) .assign
  let value ← expr levels
  expect (.mark .semicolon) .semicolon
  return .assign target value

def conditional (levels : Nat) (block : ParseM (StmtSeq Symbol)) : ParseM (Stmt Symbol) := node do
  let line ← peekLine
  advance
  let c ← cond levels
  expect (.keyword .thenWord) .thenBranch
  let body ← block
  match ← peek with
  | .keyword .elseWord =>
    advance
    let other ← block
    blockEnd
    return .ifElse line c body other
  | .keyword .endWord =>
    blockEnd
    return .ifThen line c body
  | _ => unexpected .elseOrEnd

def loop (levels : Nat) (block : ParseM (StmtSeq Symbol)) : ParseM (Stmt Symbol) := node do
  let line ← peekLine
  advance
  let c ← cond levels
  expect (.keyword .loopWord) .loopBody
  let body ← block
  blockEnd
  return .whileLoop line c body

/-- The variables of a `read` or `write` statement, keyword and semicolon included. -/
def transfer : ParseM (IdList Symbol) := node do
  advance
  let ids ← idList .uses
  expect (.mark .semicolon) .semicolon
  return ids

def stmtWith (levels : Nat) (block : ParseM (StmtSeq Symbol)) : ParseM (Stmt Symbol) := node do
  let line ← peekLine
  match ← peek with
  | .identifier _ => assignment levels
  | .keyword .ifWord => conditional levels block
  | .keyword .whileWord => loop levels block
  | .keyword .readWord => return .read line (← transfer)
  | .keyword .writeWord => return .write line (← transfer)
  | _ => unexpected .statement

def stmtSeqUpTo (levels : Nat) (block : ParseM (StmtSeq Symbol)) : Nat → ParseM (StmtSeq Symbol)
  | 0 => node do return .last (← stmtWith levels block)
  | n + 1 => node do
    let s ← stmtWith levels block
    if (← peek).kind.startsStatement then
      return .cons s (← stmtSeqUpTo levels block n)
    else
      return .last s

def stmtSeqWith (levels : Nat) (block : ParseM (StmtSeq Symbol)) : ParseM (StmtSeq Symbol) :=
  repeating (stmtSeqUpTo levels block)

/-- The statements of a block, where `levels` more may be entered. -/
def innerBlock : (levels : Nat) → ParseM (StmtSeq Symbol)
  | 0 => tooDeep
  | levels + 1 => fun s => nested (stmtSeqWith levels (innerBlock levels)) s

def stmtSeq (levels : Nat) : ParseM (StmtSeq Symbol) :=
  stmtSeqWith levels (innerBlock levels)

/-! ### Programs -/

def program : ParseM (Program Symbol) := node do
  let line ← peekLine
  expect (.keyword .programWord) .program
  let decls ← declSeq
  expect (.keyword .beginWord) .begin
  let stmts ← stmtSeq maxNesting
  expect (.keyword .endWord) .closing
  nothingMore
  return { line := line, decls := decls, stmts := stmts }

end ParseM

end CoreLang
