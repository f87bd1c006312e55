import CoreLang.Program
import CoreLang.Text.Column

/-!
# The canonical text of a program

One declaration or statement on a line, four spaces further in for every block
around it; single spaces around operators and after commas; no other blanks.
-/

namespace CoreLang

/-- How much further in a block stands than what encloses it. -/
def blockIndent : Nat := 4

def IdList.render : IdList String → String
  | .last id => id.var
  | .cons id rest => id.var ++ ", " ++ rest.render

def Decl.render (d : Decl String) : String :=
  "int " ++ d.ids.render ++ ";\n"

def DeclSeq.render (indent : Nat) : DeclSeq String → String
  | .last d => Text.spaces indent ++ d.render
  | .cons d rest => Text.spaces indent ++ d.render ++ rest.render indent

mutual

def Expr.render : Expr String → String
  | .term t => t.render
  | .add t rest => t.render ++ " + " ++ rest.render
  | .sub t rest => t.render ++ " - " ++ rest.render

def Term.render : Term String → String
  | .operand o => o.render
  | .mul o rest => o.render ++ " * " ++ rest.render

def Operand.render : Operand String → String
  | .int _ value => Number.text value
  | .ident id => id.var
  | .paren _ e => "(" ++ e.render ++ ")"

end

def Comparison.render (c : Comparison String) : String :=
  "(" ++ c.left.render ++ " " ++ c.op.symbol ++ " " ++ c.right.render ++ ")"

def Cond.render : Cond String → String
  | .compare c => c.render
  | .not _ c => "!" ++ c.render
  | .and _ left right => "[" ++ left.render ++ " && " ++ right.render ++ "]"
  | .or _ left right => "[" ++ left.render ++ " || " ++ right.render ++ "]"

mutual

/-- A statement from its first token on; `indent` is where its own line starts. -/
def Stmt.render (indent : Nat) : Stmt String → String
  | .assign target value => target.var ++ " = " ++ value.render ++ ";\n"
  | .ifThen _ cond body =>
    "if " ++ cond.render ++ " then\n" ++ body.render (indent + blockIndent)
      ++ Text.spaces indent ++ "end;\n"
  | .ifElse _ cond body other =>
    "if " ++ cond.render ++ " then\n" ++ body.render (indent + blockIndent)
      ++ Text.spaces indent ++ "else\n" ++ other.render (indent + blockIndent)
      ++ Text.spaces indent ++ "end;\n"
  | .whileLoop _ cond body =>
    "while " ++ cond.render ++ " loop\n" ++ body.render (indent + blockIndent)
      ++ Text.spaces indent ++ "end;\n"
  | .read _ ids => "read " ++ ids.render ++ ";\n"
  | .write _ ids => "write " ++ ids.render ++ ";\n"

/-- Statements, each on lines of its own that start at `indent`. -/
def StmtSeq.render (indent : Nat) : StmtSeq String → String
  | .last s => Text.spaces indent ++ s.render indent
  | .cons s rest => Text.spaces indent ++ s.render indent ++ rest.render indent

end

def Program.render (p : Program String) : String :=
  "program\n" ++ p.decls.render blockIndent ++ "begin\n" ++ p.stmts.render blockIndent ++ "end\n"

end CoreLang
