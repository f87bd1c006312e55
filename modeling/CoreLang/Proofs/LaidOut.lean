import CoreLang.Program.Nesting
import CoreLang.Proofs.Acceptance
import CoreLang.Proofs.Printing
import CoreLang.Proofs.Tokenization

/-!
# The lines of the canonical text

`Program.lines` tells the canonical text line by line, each line with its level and what
stands on it; the text is these lines, four spaces for a level (`Program.render_eq_layOut`).
What stands on a line begins and ends with something visible and does not break it
(`Neat`), so the spaces in front of it are exactly those of its level and there are none
behind it. A statement with `k` blocks around it has its lines at level `k + 1`
(`StmtSeq.lines_infix`).
-/

namespace CoreLang

/-! ### Lines -/

/-- A line of a text: its level, and what stands on it. -/
structure Line where
  level : Nat
  content : String
deriving Repr, DecidableEq

/-- Four spaces for each level. -/
def Line.text (line : Line) : String :=
  String.ofList (List.replicate (4 * line.level) ' ') ++ line.content ++ "\n"

/-- The text of some lines. -/
def layOut (lines : List Line) : String :=
  String.join (lines.map Line.text)

@[simp] theorem layOut_nil : layOut [] = "" :=
  rfl

@[simp] theorem layOut_cons (line : Line) (lines : List Line) :
    layOut (line :: lines) = line.text ++ layOut lines := by
  simp [layOut]

@[simp] theorem layOut_append (lines lines' : List Line) :
    layOut (lines ++ lines') = layOut lines ++ layOut lines' := by
  simp [layOut]

/-- The declarations of a sequence. -/
def DeclSeq.toList {ι : Type} : DeclSeq ι → List (Decl ι)
  | .last d => [d]
  | .cons d rest => d :: rest.toList

/-- A declaration has a line of its own. -/
def Decl.lineAt (level : Nat) (d : Decl String) : Line :=
  ⟨level, "int " ++ d.ids.render ++ ";"⟩

mutual

/-- A block stands one level further in than the lines before and behind it, which are
nothing but these. -/
def Stmt.lines (level : Nat) : Stmt String → List Line
  | .assign target value => [⟨level, target.var ++ " = " ++ value.render ++ ";"⟩]
  | .read _ ids => [⟨level, "read " ++ ids.render ++ ";"⟩]
  | .write _ ids => [⟨level, "write " ++ ids.render ++ ";"⟩]
  | .ifThen _ cond body =>
    ⟨level, "if " ++ cond.render ++ " then"⟩ :: (body.lines (level + 1) ++ [⟨level, "end;"⟩])
  | .ifElse _ cond body other =>
    ⟨level, "if " ++ cond.render ++ " then"⟩ :: (body.lines (level + 1) ++
      ⟨level, "else"⟩ :: (other.lines (level + 1) ++ [⟨level, "end;"⟩]))
  | .whileLoop _ cond body =>
    ⟨level, "while " ++ cond.render ++ " loop"⟩ :: (body.lines (level + 1) ++ [⟨level, "end;"⟩])

def StmtSeq.lines (level : Nat) : StmtSeq String → List Line
  | .last s => s.lines level
  | .cons s rest => s.lines level ++ rest.lines level

end

def Program.lines (p : Program String) : List Line :=
  ⟨0, "program"⟩ :: (p.decls.toList.map (Decl.lineAt 1) ++
    ⟨0, "begin"⟩ :: (p.stmts.lines 1 ++ [⟨0, "end"⟩]))

/-! ### The text is made of the lines -/

theorem DeclSeq.render_eq_layOut (level : Nat) (ds : DeclSeq String) :
    ds.render (4 * level) = layOut (ds.toList.map (Decl.lineAt level)) := by
  induction ds with
  | last d =>
    simp [render, toList, Decl.render, Decl.lineAt, Line.text, Text.spaces, String.append_assoc]
  | cons d rest ih =>
    simp [render, toList, ih, Decl.render, Decl.lineAt, Line.text, Text.spaces,
      String.append_assoc]

theorem indent_succ (level : Nat) : 4 * level + blockIndent = 4 * (level + 1) := by
  simp only [blockIndent]
  omega

mutual

theorem Stmt.render_eq_layOut (level : Nat) : (s : Stmt String) →
    Text.spaces (4 * level) ++ s.render (4 * level) = layOut (s.lines level)
  | .assign target value => by
    simp [Stmt.render, Stmt.lines, Line.text, Text.spaces, String.append_assoc]
  | .read line ids => by
    simp [Stmt.render, Stmt.lines, Line.text, Text.spaces, String.append_assoc]
  | .write line ids => by
    simp [Stmt.render, Stmt.lines, Line.text, Text.spaces, String.append_assoc]
  | .ifThen line cond body => by
    have inner := StmtSeq.render_eq_layOut (level + 1) body
    simp [Stmt.render, Stmt.lines, indent_succ, inner, Line.text, Text.spaces,
      String.append_assoc]
  | .ifElse line cond body other => by
    have inner := StmtSeq.render_eq_layOut (level + 1) body
    have inner' := StmtSeq.render_eq_layOut (level + 1) other
    simp [Stmt.render, Stmt.lines, indent_succ, inner, inner', Line.text, Text.spaces,
      String.append_assoc]
  | .whileLoop line cond body => by
    have inner := StmtSeq.render_eq_layOut (level + 1) body
    simp [Stmt.render, Stmt.lines, indent_succ, inner, Line.text, Text.spaces,
      String.append_assoc]

theorem StmtSeq.render_eq_layOut (level : Nat) : (ss : StmtSeq String) →
    ss.render (4 * level) = layOut (ss.lines level)
  | .last s => by
    rw [StmtSeq.render, StmtSeq.lines, Stmt.render_eq_layOut level s]
  | .cons s rest => by
    rw [StmtSeq.render, StmtSeq.lines, Stmt.render_eq_layOut level s,
      StmtSeq.render_eq_layOut level rest, layOut_append]

end

theorem Program.render_eq_layOut (p : Program String) : p.render = layOut p.lines := by
  have decls : p.decls.render blockIndent = _ := p.decls.render_eq_layOut 1
  have stmts : p.stmts.render blockIndent = _ := p.stmts.render_eq_layOut 1
  simp [render, lines, decls, stmts, Line.text, String.append_assoc]

/-! ### Where a statement stands -/

mutual

/-- The lines of a statement inside another one are among the lines of that one, as many
levels further in as there are blocks between the two. -/
theorem Stmt.lines_infix : (outer : Stmt String) → ∀ (level : Nat) {k : Nat} {s : Stmt String},
    (k, s) ∈ outer.nested → s.lines (level + k) <:+: outer.lines level
  | .assign target value, level, k, s, among | .read line ids, level, k, s, among
  | .write line ids, level, k, s, among => by
    rw [Stmt.nested, List.mem_singleton, Prod.mk.injEq] at among
    obtain ⟨rfl, rfl⟩ := among
    exact List.infix_refl _
  | .ifThen line cond body, level, k, s, among
  | .whileLoop line cond body, level, k, s, among => by
    rw [Stmt.nested, List.mem_cons, Prod.mk.injEq, mem_deeper] at among
    rcases among with ⟨rfl, rfl⟩ | ⟨j, among, rfl⟩
    · exact List.infix_refl _
    · have inside := StmtSeq.lines_infix body (level + 1) among
      rw [show level + (j + 1) = level + 1 + j by omega]
      exact inside.trans (List.infix_cons (List.prefix_append _ _).isInfix)
  | .ifElse line cond body other, level, k, s, among => by
    rw [Stmt.nested, List.mem_cons, Prod.mk.injEq, mem_deeper] at among
    rcases among with ⟨rfl, rfl⟩ | ⟨j, among, rfl⟩
    · exact List.infix_refl _
    · rw [show level + (j + 1) = level + 1 + j by omega]
      rcases List.mem_append.1 among with among | among
      · have inside := StmtSeq.lines_infix body (level + 1) among
        exact inside.trans (List.infix_cons (List.prefix_append _ _).isInfix)
      · have inside := StmtSeq.lines_infix other (level + 1) among
        refine inside.trans (List.infix_cons ?_)
        refine List.IsInfix.trans ?_ (List.suffix_append _ _).isInfix
        exact List.infix_cons (List.prefix_append _ _).isInfix

theorem StmtSeq.lines_infix : (ss : StmtSeq String) → ∀ (level : Nat) {k : Nat} {s : Stmt String},
    (k, s) ∈ ss.nested → s.lines (level + k) <:+: ss.lines level
  | .last first, level, k, s, among => Stmt.lines_infix first level among
  | .cons first rest, level, k, s, among => by
    rcases List.mem_append.1 among with among | among
    · exact (Stmt.lines_infix first level among).trans (List.prefix_append _ _).isInfix
    · exact (StmtSeq.lines_infix rest level among).trans (List.suffix_append _ _).isInfix

end

/-! ### What stands on a line -/

/-- Something that begins and ends with other characters than a space, and has no line end
in it. -/
structure Neat (chars : List Char) : Prop where
  unbroken : '\n' ∉ chars
  opens : ∃ c cs, chars = c :: cs ∧ c ≠ ' '
  closes : ∃ cs c, chars = cs ++ [c] ∧ c ≠ ' '

namespace Neat

variable {chars chars' : List Char}

theorem append (h : Neat chars) (h' : Neat chars') : Neat (chars ++ chars') where
  unbroken among := (List.mem_append.1 among).elim h.unbroken h'.unbroken
  opens := by
    obtain ⟨c, cs, rfl, visible⟩ := h.opens
    exact ⟨c, cs ++ chars', rfl, visible⟩
  closes := by
    obtain ⟨cs, c, rfl, visible⟩ := h'.closes
    exact ⟨chars ++ cs, c, (List.append_assoc ..).symm, visible⟩

theorem spaced (h : Neat chars) (h' : Neat chars') : Neat (chars ++ ' ' :: chars') where
  unbroken among := by
    rcases List.mem_append.1 among with among | among
    · exact h.unbroken among
    · exact h'.unbroken ((List.mem_cons.1 among).resolve_left (by decide))
  opens := by
    obtain ⟨c, cs, rfl, visible⟩ := h.opens
    exact ⟨c, cs ++ ' ' :: chars', rfl, visible⟩
  closes := by
    obtain ⟨cs, c, rfl, visible⟩ := h'.closes
    exact ⟨chars ++ ' ' :: cs, c, by simp, visible⟩

end Neat

theorem Token.Spelled.neat {t : Token} (spelled : t.Spelled) : Neat t.text.toList := by
  have solid {c : Char} (among : c ∈ t.text.toList) : c ≠ '\n' ∧ c ≠ ' ' := by
    have := spelled.isBlank_of_mem among
    constructor <;> rintro rfl <;> cases this
  refine ⟨fun broken => (solid broken).1 rfl, ?_, ?_⟩
  · obtain ⟨c, cs, begins⟩ := List.exists_cons_of_ne_nil spelled.text_ne_nil
    exact ⟨c, cs, begins, (solid (begins ▸ List.mem_cons_self)).2⟩
  · refine ⟨_, _, (List.dropLast_concat_getLast spelled.text_ne_nil).symm, ?_⟩
    exact (solid (List.getLast_mem _)).2

theorem Keyword.neat (word : Keyword) : Neat word.text.toList :=
  Token.Spelled.neat (t := .keyword word) trivial

theorem Mark.neat (sign : Mark) : Neat sign.text.toList :=
  Token.Spelled.neat (t := .mark sign) trivial

/-- What is not written on lines of its own is neat. -/
theorem Derivation.neat_text {α : Type} {tag : Tag} {d : Derivation α String tag} (indent : Nat)
    (inline : tag.wholeLines = false) (written : ∀ t ∈ d.yield, t.Written) :
    Neat (d.text indent) := by
  induction d with
  | program | declSeqLast | declSeqCons | decl | stmtSeqLast | stmtSeqCons | stmtAssign | stmtIf
  | stmtWhile | stmtInput | stmtOutput | assign | ifThen | ifElse | whileLoop | input | output =>
    cases inline
  | compOp n op => exact op.sign.neat
  | int n value =>
    have positive : 0 ≤ value.toInt := written (.integer value) (by simp)
    exact (Token.spelled_text positive).1.neat
  | ident n name =>
    have proper : IsName name := written (.identifier name) (by simp)
    exact Token.Spelled.neat (t := .identifier name) proper
  | idListLast n a iha | condCompare n a iha | exprTerm n a iha | termOperand n a iha
  | operandInt n a iha | operandIdent n a iha => exact iha inline written
  | idListCons n a b iha ihb =>
    simp only [yield, List.forall_mem_append] at written
    exact (iha rfl written.1.1).append (Mark.comma.neat.spaced (ihb rfl written.2))
  | condNot n a iha =>
    simp only [yield, List.forall_mem_append] at written
    exact Mark.bang.neat.append (iha rfl written.2)
  | condAnd n a b iha ihb | condOr n a b iha ihb =>
    simp only [yield, List.forall_mem_append] at written
    have left := iha rfl written.1.1.1.2
    have right := (ihb rfl written.1.2).append Mark.closeBracket.neat
    exact (Mark.neat _).append (left.spaced ((Mark.neat _).spaced right))
  | comparison n a b c iha ihb ihc =>
    simp only [yield, List.forall_mem_append] at written
    have left := iha rfl written.1.1.1.2
    have sign := ihb rfl written.1.1.2
    have right := (ihc rfl written.1.2).append Mark.closeParen.neat
    exact Mark.openParen.neat.append (left.spaced (sign.spaced right))
  | exprAdd n a b iha ihb | exprSub n a b iha ihb | termMul n a b iha ihb =>
    simp only [yield, List.forall_mem_append] at written
    exact (iha rfl written.1.1).spaced ((Mark.neat _).spaced (ihb rfl written.2))
  | operandParen n a iha =>
    simp only [yield, List.forall_mem_append] at written
    exact Mark.openParen.neat.append ((iha rfl written.1.2).append Mark.closeParen.neat)

theorem IdList.neat_render {ids : IdList String}
    (written : ∀ t ∈ ids.derivation.yield, t.Written) : Neat ids.render.toList := by
  rw [IdList.toList_render 0]
  exact Derivation.neat_text 0 rfl written

theorem Expr.neat_render {e : Expr String} (written : ∀ t ∈ e.derivation.yield, t.Written) :
    Neat e.render.toList := by
  rw [Expr.toList_render 0]
  exact Derivation.neat_text 0 rfl written

theorem Cond.neat_render {c : Cond String} (written : ∀ t ∈ c.derivation.yield, t.Written) :
    Neat c.render.toList := by
  rw [Cond.toList_render 0]
  exact Derivation.neat_text 0 rfl written

/-- A list of variables behind a keyword. -/
theorem IdList.neat_behind (word : Keyword) {ids : IdList String}
    (written : ∀ t ∈ ids.derivation.yield, t.Written) :
    Neat (word.text ++ " " ++ ids.render ++ ";").toList := by
  simpa [Mark.text] using word.neat.spaced ((neat_render written).append Mark.semicolon.neat)

/-- A condition between two keywords. -/
theorem Cond.neat_between (word word' : Keyword) {c : Cond String}
    (written : ∀ t ∈ c.derivation.yield, t.Written) :
    Neat (word.text ++ " " ++ c.render ++ (" " ++ word'.text)).toList := by
  simpa using word.neat.spaced ((neat_render written).spaced word'.neat)

theorem neat_blockEnd : Neat "end;".toList :=
  Keyword.endWord.neat.append Mark.semicolon.neat

theorem DeclSeq.neat_lines {ds : DeclSeq String} (level : Nat)
    (written : ∀ t ∈ ds.derivation.yield, t.Written) :
    ∀ line ∈ ds.toList.map (Decl.lineAt level), Neat line.content.toList := by
  induction ds with
  | last d =>
    simp only [derivation, Decl.derivation, Derivation.yield, List.forall_mem_append] at written
    simp only [toList, List.map_cons, List.map_nil, List.forall_mem_singleton]
    exact IdList.neat_behind .intWord written.1.2
  | cons d rest ih =>
    simp only [derivation, Decl.derivation, Derivation.yield, List.forall_mem_append] at written
    simp only [toList, List.map_cons, List.forall_mem_cons]
    exact ⟨IdList.neat_behind .intWord written.1.1.2, ih written.2⟩

mutual

theorem Stmt.neat_lines (level : Nat) : (s : Stmt String) →
    (∀ t ∈ s.derivation.yield, t.Written) → ∀ line ∈ s.lines level, Neat line.content.toList
  | .assign target value, written => by
    simp only [Stmt.derivation, Ident.derivation, Derivation.yield, List.forall_mem_append,
      List.forall_mem_singleton] at written
    obtain ⟨⟨⟨proper, -⟩, expr⟩, -⟩ := written
    have name : Neat target.var.toList :=
      Token.Spelled.neat (t := .identifier target.var) proper
    have value := (Expr.neat_render expr).append Mark.semicolon.neat
    simp only [Stmt.lines, List.forall_mem_singleton]
    simpa [Mark.text] using name.spaced (Mark.assign.neat.spaced value)
  | .read line ids, written => by
    simp only [Stmt.derivation, Derivation.yield, List.forall_mem_append] at written
    simp only [Stmt.lines, List.forall_mem_singleton]
    exact IdList.neat_behind .readWord written.1.2
  | .write line ids, written => by
    simp only [Stmt.derivation, Derivation.yield, List.forall_mem_append] at written
    simp only [Stmt.lines, List.forall_mem_singleton]
    exact IdList.neat_behind .writeWord written.1.2
  | .ifThen line cond body, written => by
    simp only [Stmt.derivation, Derivation.yield, List.forall_mem_append] at written
    obtain ⟨⟨⟨⟨-, test⟩, -⟩, inner⟩, -⟩ := written
    simp only [Stmt.lines, List.forall_mem_cons, List.forall_mem_append, List.not_mem_nil,
      false_imp_iff, implies_true, and_true]
    exact ⟨Cond.neat_between .ifWord .thenWord test, StmtSeq.neat_lines _ body inner, neat_blockEnd⟩
  | .ifElse line cond body other, written => by
    simp only [Stmt.derivation, Derivation.yield, List.forall_mem_append] at written
    obtain ⟨⟨⟨⟨⟨⟨-, test⟩, -⟩, inner⟩, -⟩, inner'⟩, -⟩ := written
    simp only [Stmt.lines, List.forall_mem_cons, List.forall_mem_append, List.not_mem_nil,
      false_imp_iff, implies_true, and_true]
    exact ⟨Cond.neat_between .ifWord .thenWord test, StmtSeq.neat_lines _ body inner,
      Keyword.elseWord.neat, StmtSeq.neat_lines _ other inner', neat_blockEnd⟩
  | .whileLoop line cond body, written => by
    simp only [Stmt.derivation, Derivation.yield, List.forall_mem_append] at written
    obtain ⟨⟨⟨⟨-, test⟩, -⟩, inner⟩, -⟩ := written
    simp only [Stmt.lines, List.forall_mem_cons, List.forall_mem_append, List.not_mem_nil,
      false_imp_iff, implies_true, and_true]
    exact ⟨Cond.neat_between .whileWord .loopWord test, StmtSeq.neat_lines _ body inner,
      neat_blockEnd⟩

theorem StmtSeq.neat_lines (level : Nat) : (ss : StmtSeq String) →
    (∀ t ∈ ss.derivation.yield, t.Written) → ∀ line ∈ ss.lines level, Neat line.content.toList
  | .last s, written => Stmt.neat_lines level s written
  | .cons s rest, written => by
    simp only [StmtSeq.derivation, Derivation.yield, List.forall_mem_append] at written
    simp only [StmtSeq.lines, List.forall_mem_append]
    exact ⟨Stmt.neat_lines level s written.1, StmtSeq.neat_lines level rest written.2⟩

end

theorem Program.neat_lines {p : Program String}
    (written : ∀ t ∈ p.derivation.yield, t.Written) :
    ∀ line ∈ p.lines, Neat line.content.toList := by
  simp only [derivation, Derivation.yield, List.forall_mem_append] at written
  obtain ⟨⟨⟨⟨-, decls⟩, -⟩, stmts⟩, -⟩ := written
  simp only [lines, List.forall_mem_cons, List.forall_mem_append, List.not_mem_nil, false_imp_iff,
    implies_true, and_true]
  exact ⟨Keyword.programWord.neat, DeclSeq.neat_lines 1 decls, Keyword.beginWord.neat,
    StmtSeq.neat_lines 1 p.stmts stmts, Keyword.endWord.neat⟩

/-- A simple statement has one line, at this level. The others begin and end with lines of
their own there, and have their blocks one level further in; so has an `else`. -/
def Stmt.SetAt (level : Nat) (lines : List Line) : Stmt String → Prop
  | .assign .. | .read .. | .write .. => ∃ content, lines = [⟨level, content⟩]
  | .ifThen _ _ body | .whileLoop _ _ body =>
    ∃ header, lines = ⟨level, header⟩ :: (body.lines (level + 1) ++ [⟨level, "end;"⟩])
  | .ifElse _ _ body other =>
    ∃ header, lines = ⟨level, header⟩ :: (body.lines (level + 1) ++
      ⟨level, "else"⟩ :: (other.lines (level + 1) ++ [⟨level, "end;"⟩]))

theorem Stmt.setAt_lines (level : Nat) (s : Stmt String) : s.SetAt level (s.lines level) := by
  cases s <;> exact ⟨_, rfl⟩

/-- The tree of a parse is printed as the program read back from it is. The text is made of
lines with something on them, four spaces in for each level, and nothing behind it: the
keywords at the margin, declarations and statements one level in. Wherever a statement stands,
its lines are together, one level further in than there are blocks around it. -/
theorem render_laid_out {source : String} {capacity : Nat} {parsed : Parsed}
    (accepted : parse source capacity = .ok parsed) :
    ∃ p, parsed.tree.toProgram parsed.symbols.name? = .ok p ∧
      parsed.tree.render parsed.symbols = .ok p.render ∧ p.render = layOut p.lines ∧
      (∀ line ∈ p.lines, Neat line.content.toList) ∧
      p.lines = ⟨0, "program"⟩ ::
        (p.decls.toList.map (fun d => ⟨1, "int " ++ d.ids.render ++ ";"⟩) ++
          ⟨0, "begin"⟩ :: (p.stmts.lines 1 ++ [⟨0, "end"⟩])) ∧
      ∀ k s, (k, s) ∈ p.stmts.nested →
        s.lines (k + 1) <:+: p.stmts.lines 1 ∧ s.SetAt (k + 1) (s.lines (k + 1)) := by
  obtain ⟨d, q, derives, fitting, shows⟩ := parse_sound accepted
  have written := derives.written
  rw [← shows.shape_rename fitting.named, Derivation.yield_map] at written
  refine ⟨_, shows.toProgram_eq fitting.named, shows.render_eq fitting.named,
    Program.render_eq_layOut _, Program.neat_lines written, rfl, fun k s among => ?_⟩
  have inside := StmtSeq.lines_infix _ 1 among
  rw [Nat.add_comm] at inside
  exact ⟨inside, s.setAt_lines (k + 1)⟩

/-- Two blocks around an assignment, the inner one with a second block behind it. -/
theorem render_laid_out_nested :
    ∃ parsed p s, parse ("program int X, Y; begin while (X<3) loop if (X==1) then Y=2; " ++
        "else X=X+1; end; end; write X; end") 80 = .ok parsed ∧
      parsed.tree.toProgram parsed.symbols.name? = .ok p ∧ (2, s) ∈ p.stmts.nested ∧
      s.lines 3 = [⟨3, "Y = 2;"⟩] ∧ s.lines 3 <:+: p.stmts.lines 1 := by
  obtain ⟨parsed, accepted, found⟩ := exists_parsed_such
    ("program int X, Y; begin while (X<3) loop if (X==1) then Y=2; " ++
      "else X=X+1; end; end; write X; end") 80
    (fun parsed => (parsed.tree.toProgram parsed.symbols.name?).toOption.all fun p =>
      p.stmts.nested.any fun entry => entry.1 = 2 ∧ entry.2.lines 3 = [⟨3, "Y = 2;"⟩])
    (by decide +kernel)
  obtain ⟨p, retrieved, -, -, -, -, stands⟩ := render_laid_out accepted
  rw [retrieved] at found
  obtain ⟨⟨k, s⟩, among, here⟩ := List.any_eq_true.1 found
  obtain ⟨two, line⟩ := of_decide_eq_true here
  obtain rfl : k = 2 := two
  exact ⟨parsed, p, s, accepted, retrieved, among, line, (stands 2 s among).1⟩

end CoreLang
