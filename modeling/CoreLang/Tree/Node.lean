import CoreLang.Number
import CoreLang.Symbol

/-!
# Nodes of the stored tree

A program is stored as numbered nodes, one for every place where the grammar
uses a nonterminal, an integer literal or an identifier. A node is told by its
`Tag` (the nonterminal) and its alternative (which production), and refers to
its parts by number, in at most three slots.
-/

namespace CoreLang

/-- The number of a node. -/
structure NodeId where
  index : Nat
deriving Repr, DecidableEq, Inhabited

namespace NodeId

/-- How many nodes can be numbered: a number is stored in 32 bits. -/
def limit : Nat := UInt32.size

def text (id : NodeId) : String :=
  "#" ++ Text.Decimal.ofNat id.index

end NodeId

/-- The places for the parts of a node. -/
inductive Slot where
  | first
  | second
  | third
deriving Repr, DecidableEq, Inhabited

namespace Slot

def all : List Slot := [.first, .second, .third]

def text : Slot → String
  | .first => "1"
  | .second => "2"
  | .third => "3"

end Slot

/-- The nonterminals of the grammar, and its two kinds of leaves. -/
inductive Tag where
  | program
  | declSeq
  | stmtSeq
  | decl
  | idList
  | stmt
  | assign
  | ifStmt
  | whileStmt
  | input
  | output
  | cond
  | comparison
  | expr
  | term
  | operand
  | compOp
  | int
  | ident
deriving Repr, DecidableEq, Inhabited

namespace Tag

def name : Tag → String
  | .program => "program"
  | .declSeq => "decl seq"
  | .stmtSeq => "stmt seq"
  | .decl => "decl"
  | .idList => "id list"
  | .stmt => "stmt"
  | .assign => "assign"
  | .ifStmt => "if"
  | .whileStmt => "while"
  | .input => "input"
  | .output => "output"
  | .cond => "cond"
  | .comparison => "comparison"
  | .expr => "expr"
  | .term => "term"
  | .operand => "operand"
  | .compOp => "comp op"
  | .int => "int"
  | .ident => "id"

/-- A tag as messages and listings show it. -/
def text (tag : Tag) : String :=
  "<" ++ tag.name ++ ">"

end Tag

/-- What the three slots of a node hold. -/
structure Children where
  first : Option NodeId := none
  second : Option NodeId := none
  third : Option NodeId := none
deriving Repr, DecidableEq, Inhabited

def Children.get (c : Children) : Slot → Option NodeId
  | .first => c.first
  | .second => c.second
  | .third => c.third

/-- The five kinds of statement. -/
inductive StmtForm where
  | assign
  | ifStmt
  | whileStmt
  | input
  | output
deriving Repr, DecidableEq, Inhabited

def StmtForm.alternative : StmtForm → Nat
  | .assign => 1
  | .ifStmt => 2
  | .whileStmt => 3
  | .input => 4
  | .output => 5

def Comparator.alternative : Comparator → Nat
  | .notEqual => 1
  | .equal => 2
  | .less => 3
  | .greater => 4
  | .lessEqual => 5
  | .greaterEqual => 6

/-- A stored node. The constructors of one nonterminal share its name. -/
inductive Node where
  | program (decls stmts : NodeId)
  | declSeq (decl : NodeId) (rest : Option NodeId)
  | stmtSeq (stmt : NodeId) (rest : Option NodeId)
  | decl (ids : NodeId)
  | idList (id : NodeId) (rest : Option NodeId)
  | stmt (form : StmtForm) (inner : NodeId)
  | assign (target value : NodeId)
  | ifStmt (cond thenBranch : NodeId) (elseBranch : Option NodeId)
  | whileStmt (cond body : NodeId)
  | input (ids : NodeId)
  | output (ids : NodeId)
  | condCompare (comparison : NodeId)
  | condNot (cond : NodeId)
  | condAnd (left right : NodeId)
  | condOr (left right : NodeId)
  | comparison (left op right : NodeId)
  | exprTerm (term : NodeId)
  | exprAdd (term rest : NodeId)
  | exprSub (term rest : NodeId)
  | termOperand (operand : NodeId)
  | termMul (operand rest : NodeId)
  | operandInt (leaf : NodeId)
  | operandIdent (leaf : NodeId)
  | operandParen (expr : NodeId)
  | compOp (op : Comparator)
  | int (value : Int64)
  | ident (symbol : Symbol)
deriving Repr, DecidableEq, Inhabited

namespace Node

def tag : Node → Tag
  | .program .. => .program
  | .declSeq .. => .declSeq
  | .stmtSeq .. => .stmtSeq
  | .decl .. => .decl
  | .idList .. => .idList
  | .stmt .. => .stmt
  | .assign .. => .assign
  | .ifStmt .. => .ifStmt
  | .whileStmt .. => .whileStmt
  | .input .. => .input
  | .output .. => .output
  | .condCompare .. | .condNot .. | .condAnd .. | .condOr .. => .cond
  | .comparison .. => .comparison
  | .exprTerm .. | .exprAdd .. | .exprSub .. => .expr
  | .termOperand .. | .termMul .. => .term
  | .operandInt .. | .operandIdent .. | .operandParen .. => .operand
  | .compOp .. => .compOp
  | .int .. => .int
  | .ident .. => .ident

/-- Which production made the node, counted from one: a sequence that goes on and
a conditional with an `else` are the second of their two. -/
def alternative : Node → Nat
  | .declSeq _ rest | .stmtSeq _ rest | .idList _ rest => if rest.isSome then 2 else 1
  | .ifStmt _ _ elseBranch => if elseBranch.isSome then 2 else 1
  | .stmt form _ => form.alternative
  | .condCompare .. | .exprTerm .. | .termOperand .. | .operandInt .. => 1
  | .condNot .. | .exprAdd .. | .termMul .. | .operandIdent .. => 2
  | .condAnd .. | .exprSub .. | .operandParen .. => 3
  | .condOr .. => 4
  | .compOp op => op.alternative
  | .program .. | .decl .. | .assign .. | .whileStmt .. | .input .. | .output .. => 1
  | .comparison .. | .int .. | .ident .. => 1

/-- The parts of a node, by slot. -/
def children : Node → Children
  | .program a b => { first := a, second := b }
  | .declSeq a rest | .stmtSeq a rest | .idList a rest => { first := a, second := rest }
  | .decl a | .input a | .output a => { first := a }
  | .stmt _ a => { first := a }
  | .assign a b | .whileStmt a b => { first := a, second := b }
  | .ifStmt a b rest => { first := a, second := b, third := rest }
  | .condCompare a | .condNot a => { first := a }
  | .condAnd a b | .condOr a b => { first := a, second := b }
  | .comparison a b c => { first := a, second := b, third := c }
  | .exprTerm a | .termOperand a => { first := a }
  | .exprAdd a b | .exprSub a b | .termMul a b => { first := a, second := b }
  | .operandInt a | .operandIdent a | .operandParen a => { first := a }
  | .compOp _ | .int _ | .ident _ => {}

/-- The part in a slot, if the node has one there. -/
def child? (node : Node) (slot : Slot) : Option NodeId :=
  node.children.get slot

end Node

end CoreLang
