import CoreLang.Program
import CoreLang.Token
import CoreLang.Tree.Node

/-!
# Derivations

The grammar of the language as a family of types: a `Derivation` of a tag is a
derivation tree from that nonterminal, with one constructor for each production.
A tree has one node for every place where a nonterminal, an integer literal or an
identifier is used, and keeps of the tokens only what they say.

    program    := "program" decl-seq "begin" stmt-seq "end"
    decl-seq   := decl [decl-seq]
    decl       := "int" id-list ";"
    id-list    := id ["," id-list]
    stmt-seq   := stmt [stmt-seq]
    stmt       := assign | if | while | input | output
    assign     := id "=" expr ";"
    if         := "if" cond "then" stmt-seq ["else" stmt-seq] "end" ";"
    while      := "while" cond "loop" stmt-seq "end" ";"
    input      := "read" id-list ";"
    output     := "write" id-list ";"
    cond       := comparison | "!" cond | "[" cond ("&&" | "||") cond "]"
    comparison := "(" operand comp-op operand ")"
    comp-op    := "!=" | "==" | "<" | ">" | "<=" | ">="
    expr       := term [("+" | "-") expr]
    term       := operand ["*" term]
    operand    := integer | id | "(" expr ")"

Every node carries a note of type `α`: the line of its first token, or nothing.
Variables are of a type `ι`: names, or the symbols of a table.
-/

namespace CoreLang

/-- What the grammar sees of a token: a literal counts by its value. -/
inductive Terminal where
  | keyword (word : Keyword)
  | mark (sign : Mark)
  | integer (value : Int64)
  | identifier (name : String)
  | eof
deriving Repr, DecidableEq, Inhabited

def Token.terminal : Token → Terminal
  | .keyword word => .keyword word
  | .mark sign => .mark sign
  | .integer digits => .integer (literal digits)
  | .identifier name => .identifier name
  | .eof => .eof

def Lexeme.terminal (lexeme : Lexeme) : Terminal := lexeme.token.terminal

/-- The mark that a comparison is written with. -/
def Comparator.sign : Comparator → Mark
  | .notEqual => .notEqual
  | .equal => .equal
  | .less => .less
  | .greater => .greater
  | .lessEqual => .lessEqual
  | .greaterEqual => .greaterEqual

/-- A derivation tree: one constructor for each production. -/
inductive Derivation (α ι : Type) : Tag → Type where
  | program (note : α) (decls : Derivation α ι .declSeq) (stmts : Derivation α ι .stmtSeq) :
    Derivation α ι .program
  | declSeqLast (note : α) (decl : Derivation α ι .decl) : Derivation α ι .declSeq
  | declSeqCons (note : α) (decl : Derivation α ι .decl) (rest : Derivation α ι .declSeq) :
    Derivation α ι .declSeq
  | decl (note : α) (ids : Derivation α ι .idList) : Derivation α ι .decl
  | idListLast (note : α) (id : Derivation α ι .ident) : Derivation α ι .idList
  | idListCons (note : α) (id : Derivation α ι .ident) (rest : Derivation α ι .idList) :
    Derivation α ι .idList
  | stmtSeqLast (note : α) (stmt : Derivation α ι .stmt) : Derivation α ι .stmtSeq
  | stmtSeqCons (note : α) (stmt : Derivation α ι .stmt) (rest : Derivation α ι .stmtSeq) :
    Derivation α ι .stmtSeq
  | stmtAssign (note : α) (inner : Derivation α ι .assign) : Derivation α ι .stmt
  | stmtIf (note : α) (inner : Derivation α ι .ifStmt) : Derivation α ι .stmt
  | stmtWhile (note : α) (inner : Derivation α ι .whileStmt) : Derivation α ι .stmt
  | stmtInput (note : α) (inner : Derivation α ι .input) : Derivation α ι .stmt
  | stmtOutput (note : α) (inner : Derivation α ι .output) : Derivation α ι .stmt
  | assign (note : α) (target : Derivation α ι .ident) (value : Derivation α ι .expr) :
    Derivation α ι .assign
  | ifThen (note : α) (cond : Derivation α ι .cond) (body : Derivation α ι .stmtSeq) :
    Derivation α ι .ifStmt
  | ifElse (note : α) (cond : Derivation α ι .cond) (body other : Derivation α ι .stmtSeq) :
    Derivation α ι .ifStmt
  | whileLoop (note : α) (cond : Derivation α ι .cond) (body : Derivation α ι .stmtSeq) :
    Derivation α ι .whileStmt
  | input (note : α) (ids : Derivation α ι .idList) : Derivation α ι .input
  | output (note : α) (ids : Derivation α ι .idList) : Derivation α ι .output
  | condCompare (note : α) (comparison : Derivation α ι .comparison) : Derivation α ι .cond
  | condNot (note : α) (cond : Derivation α ι .cond) : Derivation α ι .cond
  | condAnd (note : α) (left right : Derivation α ι .cond) : Derivation α ι .cond
  | condOr (note : α) (left right : Derivation α ι .cond) : Derivation α ι .cond
  | comparison (note : α) (left : Derivation α ι .operand) (op : Derivation α ι .compOp)
    (right : Derivation α ι .operand) : Derivation α ι .comparison
  | compOp (note : α) (op : Comparator) : Derivation α ι .compOp
  | exprTerm (note : α) (term : Derivation α ι .term) : Derivation α ι .expr
  | exprAdd (note : α) (term : Derivation α ι .term) (rest : Derivation α ι .expr) :
    Derivation α ι .expr
  | exprSub (note : α) (term : Derivation α ι .term) (rest : Derivation α ι .expr) :
    Derivation α ι .expr
  | termOperand (note : α) (operand : Derivation α ι .operand) : Derivation α ι .term
  | termMul (note : α) (operand : Derivation α ι .operand) (rest : Derivation α ι .term) :
    Derivation α ι .term
  | operandInt (note : α) (leaf : Derivation α ι .int) : Derivation α ι .operand
  | operandIdent (note : α) (leaf : Derivation α ι .ident) : Derivation α ι .operand
  | operandParen (note : α) (expr : Derivation α ι .expr) : Derivation α ι .operand
  | int (note : α) (value : Int64) : Derivation α ι .int
  | ident (note : α) (var : ι) : Derivation α ι .ident

namespace Derivation

variable {α β γ ι κ μ : Type} {tag : Tag}

/-- How many nodes a derivation has. -/
@[simp] def size : {tag : Tag} → Derivation α ι tag → Nat
  | _, .compOp .. | _, .int .. | _, .ident .. => 1
  | _, .declSeqLast _ a | _, .decl _ a | _, .idListLast _ a | _, .stmtSeqLast _ a
  | _, .stmtAssign _ a | _, .stmtIf _ a | _, .stmtWhile _ a | _, .stmtInput _ a
  | _, .stmtOutput _ a | _, .input _ a | _, .output _ a | _, .condCompare _ a
  | _, .condNot _ a | _, .exprTerm _ a | _, .termOperand _ a | _, .operandInt _ a
  | _, .operandIdent _ a | _, .operandParen _ a => a.size + 1
  | _, .program _ a b | _, .declSeqCons _ a b | _, .idListCons _ a b
  | _, .stmtSeqCons _ a b | _, .assign _ a b | _, .ifThen _ a b | _, .whileLoop _ a b
  | _, .condAnd _ a b | _, .condOr _ a b | _, .exprAdd _ a b | _, .exprSub _ a b
  | _, .termMul _ a b => a.size + b.size + 1
  | _, .ifElse _ a b c | _, .comparison _ a b c => a.size + b.size + c.size + 1

/-- How many levels the deepest place lies inside. The bodies of `if` and `while`,
the sides of a bracketed condition and a parenthesised expression lie one level
further in; the parentheses of a comparison make no level. -/
@[simp] def nesting : {tag : Tag} → Derivation α ι tag → Nat
  | _, .compOp .. | _, .int .. | _, .ident .. => 0
  | _, .declSeqLast _ a | _, .decl _ a | _, .idListLast _ a | _, .stmtSeqLast _ a
  | _, .stmtAssign _ a | _, .stmtIf _ a | _, .stmtWhile _ a | _, .stmtInput _ a
  | _, .stmtOutput _ a | _, .input _ a | _, .output _ a | _, .condCompare _ a
  | _, .condNot _ a | _, .exprTerm _ a | _, .termOperand _ a | _, .operandInt _ a
  | _, .operandIdent _ a => a.nesting
  | _, .operandParen _ a => a.nesting + 1
  | _, .program _ a b | _, .declSeqCons _ a b | _, .idListCons _ a b
  | _, .stmtSeqCons _ a b | _, .assign _ a b | _, .exprAdd _ a b | _, .exprSub _ a b
  | _, .termMul _ a b => max a.nesting b.nesting
  | _, .ifThen _ a b | _, .whileLoop _ a b => max a.nesting (b.nesting + 1)
  | _, .condAnd _ a b | _, .condOr _ a b => max (a.nesting + 1) (b.nesting + 1)
  | _, .ifElse _ a b c => max a.nesting (max (b.nesting + 1) (c.nesting + 1))
  | _, .comparison _ a b c => max a.nesting (max b.nesting c.nesting)

/-- The variables of a derivation, from left to right. -/
@[simp] def vars : {tag : Tag} → Derivation α ι tag → List ι
  | _, .compOp .. | _, .int .. => []
  | _, .ident _ var => [var]
  | _, .declSeqLast _ a | _, .decl _ a | _, .idListLast _ a | _, .stmtSeqLast _ a
  | _, .stmtAssign _ a | _, .stmtIf _ a | _, .stmtWhile _ a | _, .stmtInput _ a
  | _, .stmtOutput _ a | _, .input _ a | _, .output _ a | _, .condCompare _ a
  | _, .condNot _ a | _, .exprTerm _ a | _, .termOperand _ a | _, .operandInt _ a
  | _, .operandIdent _ a | _, .operandParen _ a => a.vars
  | _, .program _ a b | _, .declSeqCons _ a b | _, .idListCons _ a b
  | _, .stmtSeqCons _ a b | _, .assign _ a b | _, .ifThen _ a b | _, .whileLoop _ a b
  | _, .condAnd _ a b | _, .condOr _ a b | _, .exprAdd _ a b | _, .exprSub _ a b
  | _, .termMul _ a b => a.vars ++ b.vars
  | _, .ifElse _ a b c | _, .comparison _ a b c => a.vars ++ b.vars ++ c.vars

/-- The tokens that a derivation derives, from left to right. -/
@[simp] def yield : {tag : Tag} → Derivation α String tag → List Terminal
  | _, .program _ decls stmts =>
    [.keyword .programWord] ++ decls.yield ++ [.keyword .beginWord] ++ stmts.yield
      ++ [.keyword .endWord]
  | _, .declSeqLast _ first => first.yield
  | _, .declSeqCons _ first rest => first.yield ++ rest.yield
  | _, .decl _ ids => [.keyword .intWord] ++ ids.yield ++ [.mark .semicolon]
  | _, .idListLast _ id => id.yield
  | _, .idListCons _ id rest => id.yield ++ [.mark .comma] ++ rest.yield
  | _, .stmtSeqLast _ stmt => stmt.yield
  | _, .stmtSeqCons _ stmt rest => stmt.yield ++ rest.yield
  | _, .stmtAssign _ inner | _, .stmtIf _ inner | _, .stmtWhile _ inner
  | _, .stmtInput _ inner | _, .stmtOutput _ inner => inner.yield
  | _, .assign _ target value =>
    target.yield ++ [.mark .assign] ++ value.yield ++ [.mark .semicolon]
  | _, .ifThen _ cond body =>
    [.keyword .ifWord] ++ cond.yield ++ [.keyword .thenWord] ++ body.yield
      ++ [.keyword .endWord, .mark .semicolon]
  | _, .ifElse _ cond body other =>
    [.keyword .ifWord] ++ cond.yield ++ [.keyword .thenWord] ++ body.yield
      ++ [.keyword .elseWord] ++ other.yield ++ [.keyword .endWord, .mark .semicolon]
  | _, .whileLoop _ cond body =>
    [.keyword .whileWord] ++ cond.yield ++ [.keyword .loopWord] ++ body.yield
      ++ [.keyword .endWord, .mark .semicolon]
  | _, .input _ ids => [.keyword .readWord] ++ ids.yield ++ [.mark .semicolon]
  | _, .output _ ids => [.keyword .writeWord] ++ ids.yield ++ [.mark .semicolon]
  | _, .condCompare _ inner => inner.yield
  | _, .condNot _ cond => [.mark .bang] ++ cond.yield
  | _, .condAnd _ left right =>
    [.mark .openBracket] ++ left.yield ++ [.mark .andAnd] ++ right.yield
      ++ [.mark .closeBracket]
  | _, .condOr _ left right =>
    [.mark .openBracket] ++ left.yield ++ [.mark .orOr] ++ right.yield ++ [.mark .closeBracket]
  | _, .comparison _ left op right =>
    [.mark .openParen] ++ left.yield ++ op.yield ++ right.yield ++ [.mark .closeParen]
  | _, .compOp _ op => [.mark op.sign]
  | _, .exprTerm _ term => term.yield
  | _, .exprAdd _ term rest => term.yield ++ [.mark .plus] ++ rest.yield
  | _, .exprSub _ term rest => term.yield ++ [.mark .minus] ++ rest.yield
  | _, .termOperand _ operand => operand.yield
  | _, .termMul _ operand rest => operand.yield ++ [.mark .star] ++ rest.yield
  | _, .operandInt _ leaf => leaf.yield
  | _, .operandIdent _ leaf => leaf.yield
  | _, .operandParen _ expr => [.mark .openParen] ++ expr.yield ++ [.mark .closeParen]
  | _, .int _ value => [.integer value]
  | _, .ident _ name => [.identifier name]

/-- The same derivation with other notes and other variables. -/
@[simp] def map (f : α → β) (g : ι → κ) : {tag : Tag} → Derivation α ι tag → Derivation β κ tag
  | _, .program n a b => .program (f n) (a.map f g) (b.map f g)
  | _, .declSeqLast n a => .declSeqLast (f n) (a.map f g)
  | _, .declSeqCons n a b => .declSeqCons (f n) (a.map f g) (b.map f g)
  | _, .decl n a => .decl (f n) (a.map f g)
  | _, .idListLast n a => .idListLast (f n) (a.map f g)
  | _, .idListCons n a b => .idListCons (f n) (a.map f g) (b.map f g)
  | _, .stmtSeqLast n a => .stmtSeqLast (f n) (a.map f g)
  | _, .stmtSeqCons n a b => .stmtSeqCons (f n) (a.map f g) (b.map f g)
  | _, .stmtAssign n a => .stmtAssign (f n) (a.map f g)
  | _, .stmtIf n a => .stmtIf (f n) (a.map f g)
  | _, .stmtWhile n a => .stmtWhile (f n) (a.map f g)
  | _, .stmtInput n a => .stmtInput (f n) (a.map f g)
  | _, .stmtOutput n a => .stmtOutput (f n) (a.map f g)
  | _, .assign n a b => .assign (f n) (a.map f g) (b.map f g)
  | _, .ifThen n a b => .ifThen (f n) (a.map f g) (b.map f g)
  | _, .ifElse n a b c => .ifElse (f n) (a.map f g) (b.map f g) (c.map f g)
  | _, .whileLoop n a b => .whileLoop (f n) (a.map f g) (b.map f g)
  | _, .input n a => .input (f n) (a.map f g)
  | _, .output n a => .output (f n) (a.map f g)
  | _, .condCompare n a => .condCompare (f n) (a.map f g)
  | _, .condNot n a => .condNot (f n) (a.map f g)
  | _, .condAnd n a b => .condAnd (f n) (a.map f g) (b.map f g)
  | _, .condOr n a b => .condOr (f n) (a.map f g) (b.map f g)
  | _, .comparison n a b c => .comparison (f n) (a.map f g) (b.map f g) (c.map f g)
  | _, .compOp n op => .compOp (f n) op
  | _, .exprTerm n a => .exprTerm (f n) (a.map f g)
  | _, .exprAdd n a b => .exprAdd (f n) (a.map f g) (b.map f g)
  | _, .exprSub n a b => .exprSub (f n) (a.map f g) (b.map f g)
  | _, .termOperand n a => .termOperand (f n) (a.map f g)
  | _, .termMul n a b => .termMul (f n) (a.map f g) (b.map f g)
  | _, .operandInt n a => .operandInt (f n) (a.map f g)
  | _, .operandIdent n a => .operandIdent (f n) (a.map f g)
  | _, .operandParen n a => .operandParen (f n) (a.map f g)
  | _, .int n value => .int (f n) value
  | _, .ident n var => .ident (f n) (g var)

/-- What is left of a derivation without its notes. -/
abbrev shape (d : Derivation α ι tag) : Derivation Unit ι tag :=
  d.map (fun _ => ()) id

/-- The same derivation with other variables. -/
abbrev rename (g : ι → κ) (d : Derivation α ι tag) : Derivation α κ tag :=
  d.map id g

theorem map_map (f : α → β) (g : ι → κ) (f' : β → γ) (g' : κ → μ) (d : Derivation α ι tag) :
    (d.map f g).map f' g' = d.map (f' ∘ f) (g' ∘ g) := by
  induction d <;> simp only [map, Function.comp_apply, *]

theorem map_id (d : Derivation α ι tag) : d.map id id = d := by
  induction d <;> simp only [map, id_eq, *]

theorem rename_rename (g : ι → κ) (g' : κ → μ) (d : Derivation α ι tag) :
    (d.rename g).rename g' = d.rename (g' ∘ g) :=
  map_map id g id g' d

theorem shape_rename (g : ι → κ) (d : Derivation α ι tag) :
    (d.rename g).shape = d.shape.rename g :=
  (map_map id g (fun _ => ()) id d).trans (map_map (fun _ => ()) id id g d).symm

@[simp] theorem size_map (f : α → β) (g : ι → κ) (d : Derivation α ι tag) :
    (d.map f g).size = d.size := by
  induction d <;> simp only [map, size, *]

@[simp] theorem nesting_map (f : α → β) (g : ι → κ) (d : Derivation α ι tag) :
    (d.map f g).nesting = d.nesting := by
  induction d <;> simp only [map, nesting, *]

@[simp] theorem vars_map (f : α → β) (g : ι → κ) (d : Derivation α ι tag) :
    (d.map f g).vars = d.vars.map g := by
  induction d <;> simp only [map, vars, List.map_append, List.map_cons, List.map_nil, *]

@[simp] theorem yield_map (f : α → β) (d : Derivation α String tag) :
    (d.map f id).yield = d.yield := by
  induction d <;> simp only [map, yield, id_eq, *]

theorem map_congr {f : α → β} {g g' : ι → κ} {d : Derivation α ι tag}
    (same : ∀ v ∈ d.vars, g v = g' v) : d.map f g = d.map f g' := by
  induction d <;> simp_all [or_imp, forall_and]

theorem one_le_size (d : Derivation α ι tag) : 1 ≤ d.size := by
  cases d <;> simp only [size] <;> omega

theorem length_vars_le (d : Derivation α ι tag) : d.vars.length ≤ d.size := by
  induction d <;> simp only [vars, size, List.length_append, List.length_cons, List.length_nil] <;>
    omega

/-- The variables that a program declares. -/
@[simp] def declared : Derivation α ι .program → List ι
  | .program _ decls _ => decls.vars

/-- The variables that the statements of a program use. -/
@[simp] def used : Derivation α ι .program → List ι
  | .program _ _ stmts => stmts.vars

theorem length_declared_le (d : Derivation α ι .program) : d.declared.length ≤ d.size := by
  cases d with
  | program _ decls stmts =>
    have := decls.length_vars_le
    simp only [declared, size]
    omega

/-- No variable is declared twice, and all that are used are declared. -/
structure WellNamed (d : Derivation α ι .program) : Prop where
  distinct : d.declared.Nodup
  known : ∀ x ∈ d.used, x ∈ d.declared

end Derivation

/-! ### The derivation of a program

The abstract form of a program leaves out the nodes that are told by their parts
and the lines that are told by their first part. -/

variable {ι : Type}

def Ident.derivation (id : Ident ι) : Derivation Nat ι .ident :=
  .ident id.line id.var

def IdList.derivation : IdList ι → Derivation Nat ι .idList
  | .last id => .idListLast id.line id.derivation
  | .cons id rest => .idListCons id.line id.derivation rest.derivation

def Decl.derivation (d : Decl ι) : Derivation Nat ι .decl :=
  .decl d.line d.ids.derivation

def DeclSeq.derivation : DeclSeq ι → Derivation Nat ι .declSeq
  | .last d => .declSeqLast d.line d.derivation
  | .cons d rest => .declSeqCons d.line d.derivation rest.derivation

mutual

def Expr.derivation : Expr ι → Derivation Nat ι .expr
  | .term t => .exprTerm t.line t.derivation
  | .add t rest => .exprAdd t.line t.derivation rest.derivation
  | .sub t rest => .exprSub t.line t.derivation rest.derivation

def Term.derivation : Term ι → Derivation Nat ι .term
  | .operand o => .termOperand o.line o.derivation
  | .mul o rest => .termMul o.line o.derivation rest.derivation

def Operand.derivation : Operand ι → Derivation Nat ι .operand
  | .int line value => .operandInt line (.int line value)
  | .ident id => .operandIdent id.line id.derivation
  | .paren line e => .operandParen line e.derivation

end

def Comparison.derivation (c : Comparison ι) : Derivation Nat ι .comparison :=
  .comparison c.line c.left.derivation (.compOp c.opLine c.op) c.right.derivation

def Cond.derivation : Cond ι → Derivation Nat ι .cond
  | .compare c => .condCompare c.line c.derivation
  | .not line c => .condNot line c.derivation
  | .and line left right => .condAnd line left.derivation right.derivation
  | .or line left right => .condOr line left.derivation right.derivation

mutual

def Stmt.derivation : Stmt ι → Derivation Nat ι .stmt
  | .assign target value =>
    .stmtAssign target.line (.assign target.line target.derivation value.derivation)
  | .ifThen line cond body => .stmtIf line (.ifThen line cond.derivation body.derivation)
  | .ifElse line cond body other =>
    .stmtIf line (.ifElse line cond.derivation body.derivation other.derivation)
  | .whileLoop line cond body =>
    .stmtWhile line (.whileLoop line cond.derivation body.derivation)
  | .read line ids => .stmtInput line (.input line ids.derivation)
  | .write line ids => .stmtOutput line (.output line ids.derivation)

def StmtSeq.derivation : StmtSeq ι → Derivation Nat ι .stmtSeq
  | .last s => .stmtSeqLast s.line s.derivation
  | .cons s rest => .stmtSeqCons s.line s.derivation rest.derivation

end

def Program.derivation (p : Program ι) : Derivation Nat ι .program :=
  .program p.line p.decls.derivation p.stmts.derivation

/-! ### Programs with other variables -/

section Rename

variable {κ : Type} (g : ι → κ)

def Ident.rename (id : Ident ι) : Ident κ :=
  { line := id.line, var := g id.var }

def IdList.rename : IdList ι → IdList κ
  | .last id => .last (id.rename g)
  | .cons id rest => .cons (id.rename g) rest.rename

def Decl.rename (d : Decl ι) : Decl κ :=
  { line := d.line, ids := d.ids.rename g }

def DeclSeq.rename : DeclSeq ι → DeclSeq κ
  | .last d => .last (d.rename g)
  | .cons d rest => .cons (d.rename g) rest.rename

mutual

def Expr.rename : Expr ι → Expr κ
  | .term t => .term t.rename
  | .add t rest => .add t.rename rest.rename
  | .sub t rest => .sub t.rename rest.rename

def Term.rename : Term ι → Term κ
  | .operand o => .operand o.rename
  | .mul o rest => .mul o.rename rest.rename

def Operand.rename : Operand ι → Operand κ
  | .int line value => .int line value
  | .ident id => .ident (id.rename g)
  | .paren line e => .paren line e.rename

end

def Comparison.rename (c : Comparison ι) : Comparison κ :=
  { line := c.line, left := c.left.rename g, opLine := c.opLine, op := c.op,
    right := c.right.rename g }

def Cond.rename : Cond ι → Cond κ
  | .compare c => .compare (c.rename g)
  | .not line c => .not line c.rename
  | .and line left right => .and line left.rename right.rename
  | .or line left right => .or line left.rename right.rename

mutual

def Stmt.rename : Stmt ι → Stmt κ
  | .assign target value => .assign (target.rename g) (value.rename g)
  | .ifThen line cond body => .ifThen line (cond.rename g) body.rename
  | .ifElse line cond body other => .ifElse line (cond.rename g) body.rename other.rename
  | .whileLoop line cond body => .whileLoop line (cond.rename g) body.rename
  | .read line ids => .read line (ids.rename g)
  | .write line ids => .write line (ids.rename g)

def StmtSeq.rename : StmtSeq ι → StmtSeq κ
  | .last s => .last s.rename
  | .cons s rest => .cons s.rename rest.rename

end

def Program.rename (p : Program ι) : Program κ :=
  { line := p.line, decls := p.decls.rename g, stmts := p.stmts.rename g }

theorem IdList.derivation_rename (ids : IdList ι) :
    (ids.rename g).derivation = ids.derivation.rename g := by
  induction ids with
  | last id => rfl
  | cons id rest ih =>
    simp only [rename, derivation, ih]
    rfl

theorem DeclSeq.derivation_rename (ds : DeclSeq ι) :
    (ds.rename g).derivation = ds.derivation.rename g := by
  induction ds with
  | last d => simp [rename, derivation, Decl.rename, Decl.derivation, IdList.derivation_rename]
  | cons d rest ih =>
    simp [rename, derivation, Decl.rename, Decl.derivation, IdList.derivation_rename, ih]

theorem Operand.line_rename (o : Operand ι) : (o.rename g).line = o.line := by
  cases o <;> rfl

theorem Term.line_rename (t : Term ι) : (t.rename g).line = t.line := by
  cases t <;> exact Operand.line_rename g _

mutual

theorem Expr.derivation_rename : (e : Expr ι) → (e.rename g).derivation = e.derivation.rename g
  | .term t => by
    simp [Expr.rename, Expr.derivation, Term.derivation_rename t, Term.line_rename]
  | .add t rest => by
    simp [Expr.rename, Expr.derivation, Term.derivation_rename t, Term.line_rename,
      Expr.derivation_rename rest]
  | .sub t rest => by
    simp [Expr.rename, Expr.derivation, Term.derivation_rename t, Term.line_rename,
      Expr.derivation_rename rest]

theorem Term.derivation_rename : (t : Term ι) → (t.rename g).derivation = t.derivation.rename g
  | .operand o => by
    simp [Term.rename, Term.derivation, Operand.derivation_rename o, Operand.line_rename]
  | .mul o rest => by
    simp [Term.rename, Term.derivation, Operand.derivation_rename o, Operand.line_rename,
      Term.derivation_rename rest]

theorem Operand.derivation_rename : (o : Operand ι) →
    (o.rename g).derivation = o.derivation.rename g
  | .int line value => by simp [Operand.rename, Operand.derivation]
  | .ident id => by
    simp [Operand.rename, Operand.derivation, Ident.rename, Ident.derivation]
  | .paren line e => by simp [Operand.rename, Operand.derivation, Expr.derivation_rename e]

end

theorem Cond.derivation_rename (c : Cond ι) : (c.rename g).derivation = c.derivation.rename g := by
  induction c with
  | compare c =>
    simp [rename, derivation, Comparison.rename, Comparison.derivation, Operand.derivation_rename]
  | not line c ih => simp [rename, derivation, ih]
  | and line left right ihl ihr => simp [rename, derivation, ihl, ihr]
  | or line left right ihl ihr => simp [rename, derivation, ihl, ihr]

theorem Stmt.line_rename (s : Stmt ι) : (s.rename g).line = s.line := by
  cases s <;> rfl

mutual

theorem Stmt.derivation_rename : (s : Stmt ι) → (s.rename g).derivation = s.derivation.rename g
  | .assign target value => by
    simp [Stmt.rename, Stmt.derivation, Ident.rename, Ident.derivation, Expr.derivation_rename]
  | .ifThen line cond body => by
    simp [Stmt.rename, Stmt.derivation, Cond.derivation_rename, StmtSeq.derivation_rename body]
  | .ifElse line cond body other => by
    simp [Stmt.rename, Stmt.derivation, Cond.derivation_rename, StmtSeq.derivation_rename body,
      StmtSeq.derivation_rename other]
  | .whileLoop line cond body => by
    simp [Stmt.rename, Stmt.derivation, Cond.derivation_rename, StmtSeq.derivation_rename body]
  | .read line ids => by simp [Stmt.rename, Stmt.derivation, IdList.derivation_rename]
  | .write line ids => by simp [Stmt.rename, Stmt.derivation, IdList.derivation_rename]

theorem StmtSeq.derivation_rename : (s : StmtSeq ι) →
    (s.rename g).derivation = s.derivation.rename g
  | .last s => by
    simp [StmtSeq.rename, StmtSeq.derivation, Stmt.derivation_rename s, Stmt.line_rename]
  | .cons s rest => by
    simp [StmtSeq.rename, StmtSeq.derivation, Stmt.derivation_rename s, Stmt.line_rename,
      StmtSeq.derivation_rename rest]

end

theorem Program.derivation_rename (p : Program ι) :
    (p.rename g).derivation = p.derivation.rename g := by
  simp [rename, derivation, DeclSeq.derivation_rename, StmtSeq.derivation_rename]

end Rename

end CoreLang
