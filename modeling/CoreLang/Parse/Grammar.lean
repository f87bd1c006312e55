import CoreLang.Parse.State

/-!
# The grammar

One rule for each nonterminal, with one token of lookahead:

    program    := "program" decl-seq "begin" stmt-seq "end"
    decl-seq   := decl [decl-seq]
    decl       := "int" id-list ";"
    id-list    := identifier ["," id-list]
    stmt-seq   := stmt [stmt-seq]
    stmt       := identifier "=" expr ";"
                | "if" cond "then" stmt-seq ["else" stmt-seq] "end" ";"
                | "while" cond "loop" stmt-seq "end" ";"
                | "read" id-list ";"
                | "write" id-list ";"
    cond       := comparison | "!" cond | "[" cond ("&&" | "||") cond "]"
    comparison := "(" operand comp-op operand ")"
    expr       := term [("+" | "-") expr]
    term       := operand ["*" term]
    operand    := integer | identifier | "(" expr ")"

A rule puts the nodes of what it reads into the tree and gives the number of the last
one. It claims its own node before it looks at the text and adds it when it is done, so
the tree is known to be too small as soon as the claimed and the finished nodes together
outgrow it.

Rules that only repeat are loops: the links of a chain are put aside with their lines, and
their nodes are added from the last one back, so that what a link refers to is already
there. The loops are bounded by the number of tokens. Rules that lead back to themselves
through brackets, parentheses or blocks take the rule for the inside as a parameter. Tying
the knot goes by the number of levels that may still be entered, so that recursion ends
where the nesting limit does.
-/

namespace CoreLang

abbrev BuildM := ParsingM TreeBudget

namespace BuildM

open ParseM

/-- Claims a node for the rule that begins, and gives the line of the token ahead. -/
def claim : BuildM Nat := fun s =>
  if s.budget.tree.size + s.budget.reserved < s.budget.tree.capacity then
    .ok s.lookahead.line { s with budget.reserved := s.budget.reserved + 1 }
  else .error (.tree (.capacityExceeded s.budget.tree.capacity)) s

/-- Adds a node to the tree, for one that was claimed. The state is taken apart, so that the
tree is in one place only and is not copied. -/
def alloc (node : Node) (line : Nat) : BuildM NodeId
  | ⟨lookahead, upcoming, ending, symbols, ⟨tree, reserved⟩, depth, tokenCount⟩ =>
    match tree.alloc node line with
    | .ok (id, tree) =>
      .ok id ⟨lookahead, upcoming, ending, symbols, ⟨tree, reserved - 1⟩, depth, tokenCount⟩
    | .error error =>
      .error (.tree error)
        ⟨lookahead, upcoming, ending, symbols, ⟨tree, reserved - 1⟩, depth, tokenCount⟩

/-- Makes a node the root of the tree. -/
def setRoot (id : NodeId) : BuildM Unit := fun s =>
  match s.budget.tree.setRoot id with
  | .ok tree => .ok () { s with budget.tree := tree }
  | .error error => .error (.tree error) s

/-- A rule for a place one level further in. -/
def nested {α : Type} (rule : BuildM α) : BuildM α := fun s =>
  if s.depth < maxNesting then
    match rule { s with depth := s.depth + 1 } with
    | .ok a s => .ok a { s with depth := s.depth - 1 }
    | .error error s => .error error { s with depth := s.depth - 1 }
  else tooDeep s

/-! ### Chains -/

/-- A link of a chain that was put aside: its line, its item, and how it is joined to what
follows. -/
structure Link (κ : Type) where
  line : Nat
  item : NodeId
  kind : κ
deriving Repr, DecidableEq, Inhabited

/-- What makes a chain: the rule for an item, what is looked for between two items, and the
nodes of the last link and of the ones before it. -/
structure Chain (κ : Type) where
  item : BuildM NodeId
  more : BuildM (Option κ)
  last : NodeId → Node
  join : κ → NodeId → NodeId → Node

namespace Chain

variable {κ : Type} (c : Chain κ)

/-- Adds the nodes of the links that were put aside, the last one first; `rest` is the node
of what follows them. -/
def allocLinks : List (Link κ) → (rest : NodeId) → BuildM NodeId
  | [], rest => return rest
  | link :: links, rest => do
    allocLinks links (← alloc (c.join link.kind link.item rest) link.line)

/-- Adds the nodes of a chain whose last item was read. -/
def allocChain (links : List (Link κ)) (line : Nat) (item : NodeId) : BuildM NodeId := do
  c.allocLinks links (← alloc (c.last item) line)

/-- Goes on with a chain behind an item, for at most `n` more items. -/
def linksUpTo : (n : Nat) → List (Link κ) → (line : Nat) → (item : NodeId) → BuildM NodeId
  | 0, links, line, item => c.allocChain links line item
  | n + 1, links, line, item => do
    match ← c.more with
    | some kind =>
      let next ← claim
      let following ← c.item
      linksUpTo n ({ line := line, item := item, kind := kind } :: links) next following
    | none => c.allocChain links line item

def upTo (n : Nat) : BuildM NodeId := do
  let line ← claim
  let item ← c.item
  c.linksUpTo n [] line item

end Chain

/-- Whether a token that begins another item is ahead. -/
def ahead? {β : Type} (begins : Token → Bool) : ParsingM β (Option Unit) := do
  if begins (← peek) then return some () else return none

/-- Steps past the given token if it is ahead; another item follows then. -/
def passed? {β : Type} (token : Token) : ParsingM β (Option Unit) := do
  if (← peek) = token then
    advance
    return some ()
  else return none

/-! ### Declarations -/

def identifier (site : Site) : BuildM NodeId := do
  let line ← claim
  match ← peek with
  | .identifier name =>
    let symbol ← bindName site name
    advance
    alloc (.ident symbol) line
  | _ => unexpected .identifier

def idList (site : Site) : BuildM NodeId :=
  repeating (Chain.upTo
    { item := identifier site
      more := passed? (.mark .comma)
      last := fun id => .idList id none
      join := fun _ id rest => .idList id (some rest) })

def decl : BuildM NodeId := do
  let line ← claim
  expect (.keyword .intWord) .declaration
  let ids ← idList .declares
  expect (.mark .semicolon) .semicolon
  alloc (.decl ids) line

def declSeq : BuildM NodeId :=
  repeating (Chain.upTo
    { item := decl
      more := ahead? (· = .keyword .intWord)
      last := fun decl => .declSeq decl none
      join := fun _ decl rest => .declSeq decl (some rest) })

/-! ### Expressions -/

def operandWith (inside : BuildM NodeId) : BuildM NodeId := do
  let line ← claim
  let operand ← match ← peek with
    | .integer digits =>
      let leaf ← claim
      advance
      pure (Node.operandInt (← alloc (.int (Token.literal digits)) leaf))
    | .identifier _ => pure (Node.operandIdent (← identifier .uses))
    | .mark .openParen =>
      advance
      let inner ← inside
      expect (.mark .closeParen) .closeParen
      pure (Node.operandParen inner)
    | _ => unexpected .operand
  alloc operand line

def termWith (inside : BuildM NodeId) : BuildM NodeId :=
  repeating (Chain.upTo
    { item := operandWith inside
      more := passed? (.mark .star)
      last := fun operand => .termOperand operand
      join := fun _ operand rest => .termMul operand rest })

/-- How a term is joined to the rest of a sum. -/
inductive Sign where
  | plus
  | minus
deriving Repr, DecidableEq, Inhabited

def Sign.node : Sign → NodeId → NodeId → Node
  | .plus => .exprAdd
  | .minus => .exprSub

/-- A plus or a minus, with another term behind it. -/
def sign? {β : Type} : ParsingM β (Option Sign) := do
  match ← peek with
  | .mark .plus =>
    advance
    return some .plus
  | .mark .minus =>
    advance
    return some .minus
  | _ => return none

def exprWith (inside : BuildM NodeId) : BuildM NodeId :=
  repeating (Chain.upTo
    { item := termWith inside
      more := sign?
      last := fun term => .exprTerm term
      join := Sign.node })

/-- An expression in parentheses, where `levels` more may be entered. -/
def innerExpr : (levels : Nat) → BuildM NodeId
  | 0 => tooDeep
  | levels + 1 => fun s => nested (exprWith (innerExpr levels)) s

def operand (levels : Nat) : BuildM NodeId :=
  operandWith (innerExpr levels)

def expr (levels : Nat) : BuildM NodeId :=
  exprWith (innerExpr levels)

/-! ### Conditions -/

def compOp : BuildM NodeId := do
  let line ← claim
  match comparator? (← peek) with
  | some op =>
    advance
    alloc (.compOp op) line
  | none => unexpected .comparisonOperator

def comparison (levels : Nat) : BuildM NodeId := do
  let line ← claim
  expect (.mark .openParen) .comparison
  let left ← operand levels
  let op ← compOp
  let right ← operand levels
  expect (.mark .closeParen) .closeParen
  alloc (.comparison left op right) line

/-- A condition that starts with no `!`. -/
def plainCond (levels : Nat) (inside : BuildM NodeId) : BuildM NodeId := do
  let line ← claim
  let cond ← match ← peek with
    | .mark .openBracket =>
      advance
      let left ← inside
      let join ← match ← peek with
        | .mark .andAnd => pure Node.condAnd
        | .mark .orOr => pure Node.condOr
        | _ => unexpected .logicalOperator
      advance
      let right ← inside
      expect (.mark .closeBracket) .closeBracket
      pure (join left right)
    | _ => pure (Node.condCompare (← comparison levels))
  alloc cond line

/-- Adds the nodes of negations, which were put aside with their lines, the last one first. -/
def allocNegations : (lines : List Nat) → (cond : NodeId) → BuildM NodeId
  | [], cond => return cond
  | line :: lines, cond => do allocNegations lines (← alloc (.condNot cond) line)

/-- Goes on with a condition behind some negations, for at most `n` more of them. -/
def condUpTo (levels : Nat) (inside : BuildM NodeId) :
    (n : Nat) → (negations : List Nat) → BuildM NodeId
  | 0, negations => do allocNegations negations (← plainCond levels inside)
  | n + 1, negations => do
    match ← peek with
    | .mark .bang =>
      let line ← claim
      advance
      condUpTo levels inside n (line :: negations)
    | _ => allocNegations negations (← plainCond levels inside)

def condWith (levels : Nat) (inside : BuildM NodeId) : BuildM NodeId :=
  repeating fun n => condUpTo levels inside n []

/-- A condition in brackets, where `levels` more may be entered. -/
def innerCond : (levels : Nat) → BuildM NodeId
  | 0 => tooDeep
  | levels + 1 => fun s => nested (condWith levels (innerCond levels)) s

def cond (levels : Nat) : BuildM NodeId :=
  condWith levels (innerCond levels)

/-! ### Statements -/

def assignment (levels : Nat) : BuildM NodeId := do
  let line ← claim
  let target ← identifier .uses
  expect (.mark .assign) .assign
  let value ← expr levels
  expect (.mark .semicolon) .semicolon
  alloc (.assign target value) line

def conditional (levels : Nat) (block : BuildM NodeId) : BuildM NodeId := do
  let line ← claim
  advance
  let c ← cond levels
  expect (.keyword .thenWord) .thenBranch
  let body ← block
  let other ← match ← peek with
    | .keyword .elseWord =>
      advance
      pure (some (← block))
    | .keyword .endWord => pure none
    | _ => unexpected .elseOrEnd
  blockEnd
  alloc (.ifStmt c body other) line

def loop (levels : Nat) (block : BuildM NodeId) : BuildM NodeId := do
  let line ← claim
  advance
  let c ← cond levels
  expect (.keyword .loopWord) .loopBody
  let body ← block
  blockEnd
  alloc (.whileStmt c body) line

/-- A `read` or `write` statement; `node` makes its node. -/
def transfer (node : NodeId → Node) : BuildM NodeId := do
  let line ← claim
  advance
  let ids ← idList .uses
  expect (.mark .semicolon) .semicolon
  alloc (node ids) line

def stmtWith (levels : Nat) (block : BuildM NodeId) : BuildM NodeId := do
  let line ← claim
  let stmt ← match ← peek with
    | .identifier _ => pure (Node.stmt .assign (← assignment levels))
    | .keyword .ifWord => pure (Node.stmt .ifStmt (← conditional levels block))
    | .keyword .whileWord => pure (Node.stmt .whileStmt (← loop levels block))
    | .keyword .readWord => pure (Node.stmt .input (← transfer .input))
    | .keyword .writeWord => pure (Node.stmt .output (← transfer .output))
    | _ => unexpected .statement
  alloc stmt line

def stmtSeqWith (levels : Nat) (block : BuildM NodeId) : BuildM NodeId :=
  repeating (Chain.upTo
    { item := stmtWith levels block
      more := ahead? (·.kind.startsStatement)
      last := fun stmt => .stmtSeq stmt none
      join := fun _ stmt rest => .stmtSeq stmt (some rest) })

/-- The statements of a block, where `levels` more may be entered. -/
def innerBlock : (levels : Nat) → BuildM NodeId
  | 0 => tooDeep
  | levels + 1 => fun s => nested (stmtSeqWith levels (innerBlock levels)) s

def stmtSeq (levels : Nat) : BuildM NodeId :=
  stmtSeqWith levels (innerBlock levels)

/-! ### Programs -/

def program : BuildM NodeId := do
  let line ← claim
  expect (.keyword .programWord) .program
  let decls ← declSeq
  expect (.keyword .beginWord) .begin
  let stmts ← stmtSeq maxNesting
  expect (.keyword .endWord) .closing
  nothingMore
  alloc (.program decls stmts) line

/-- A program whose node is the root of the tree. -/
def rootedProgram : BuildM Unit := do
  setRoot (← program)

end BuildM

end CoreLang
