import CoreLang.Program.Printer
import CoreLang.Program.Retrieval

/-!
# The printer writes the text of the program

The printer keeps its text and its indentation in one state that all rules share.
`PrintM.Writes` says what a rule does to it: it appends the text of what it prints, made
for the indentation at its start, and leaves the indentation as it was; where nothing can be
read back from the node, it stops for the same reason. A rule is gone through from left to
right, with what it has written so far (`PrintM.Completes`).

So the walk of the printer and the recursive text of the program that the tree holds are the
same (`Tree.render_eq`).
-/

namespace CoreLang

namespace PrintM

variable {α β : Type}

/-- A rule has ended as the reading `x` did: with the text of what was read, or for the same
reason, and with lines starting where they did. -/
def Ended (indent : Nat) (text : α → String) :
    Except (Stop TreeError) α → EStateM.Result (Stop TreeError) Printer Unit → Prop
  | .ok a, result => result = .ok () ⟨text a, indent⟩
  | .error reason, result => ∃ broken, result = .error reason ⟨broken, indent⟩

theorem Ended.text_eq {m : PrintM Unit} {indent : Nat} {text : α → String}
    {x : Except (Stop TreeError) α} (h : Ended indent text x (m {})) :
    PrintM.text m = x.map text := by
  unfold PrintM.text
  cases x with
  | error reason =>
    obtain ⟨broken, stopped⟩ := h
    rw [stopped]
    rfl
  | ok a =>
    have printed : m {} = .ok () ⟨text a, indent⟩ := h
    rw [printed]
    rfl

/-- Behind the text `done`, `m` writes what is missing of the text of `x`. -/
def Completes (m : PrintM Unit) (done : Nat → String) (x : Except (Stop TreeError) α)
    (text : α → Nat → String) : Prop :=
  ∀ out indent, Ended indent (fun a => out ++ text a indent) x (m ⟨out ++ done indent, indent⟩)

/-- `m` writes the text of `x`. -/
def Writes (m : PrintM Unit) (x : Except (Stop TreeError) α) (text : α → Nat → String) : Prop :=
  ∀ out indent, Ended indent (fun a => out ++ text a indent) x (m ⟨out, indent⟩)

variable {m m' : PrintM Unit} {done : Nat → String} {x : Except (Stop TreeError) α}
  {k : α → Except (Stop TreeError) β} {text : α → Nat → String} {whole : β → Nat → String}

theorem Completes.writes (h : m.Completes (fun _ => "") x text) : m.Writes x text := by
  intro out indent
  have := h out indent
  rwa [String.append_empty] at this

theorem bind_of_ok {p q : Printer} (printed : m p = .ok () q) :
    (m >>= fun _ => m') p = m' q := by
  simp only [Bind.bind, EStateM.bind, printed]

theorem bind_of_error {p q : Printer} {reason : Stop TreeError} (stopped : m p = .error reason q) :
    (m >>= fun _ => m') p = .error reason q := by
  simp only [Bind.bind, EStateM.bind, stopped]

/-- `r` looks something up and writes nothing. -/
def Reads (r : PrintM α) (x : Except (Stop TreeError) α) : Prop :=
  ∀ p, r p = match x with
    | .ok a => .ok a p
    | .error reason => .error reason p

/-! ### From left to right -/

theorem Reads.bind {r : PrintM α} {m : α → PrintM Unit} (found : r.Reads x)
    (rest : ∀ a, (m a).Completes done (k a) whole) :
    (r >>= m).Completes done (x >>= k) whole := by
  intro out indent
  cases x with
  | error reason =>
    refine ⟨out ++ done indent, ?_⟩
    simp only [Bind.bind, EStateM.bind, found _]
  | ok a =>
    have looked : (r >>= m) ⟨out ++ done indent, indent⟩ = m a ⟨out ++ done indent, indent⟩ := by
      simp only [Bind.bind, EStateM.bind, found _]
    rw [looked]
    exact rest a out indent

theorem Completes.write {piece : String}
    (rest : m.Completes (fun indent => done indent ++ piece) x text) :
    (PrintM.write piece >>= fun _ => m).Completes done x text := by
  intro out indent
  have := rest out indent
  rwa [← String.append_assoc] at this

theorem Completes.pad
    (rest : m.Completes (fun indent => done indent ++ Text.spaces indent) x text) :
    (PrintM.pad >>= fun _ => m).Completes done x text := by
  intro out indent
  have := rest out indent
  rwa [← String.append_assoc] at this

/-- A part is printed, then the rest. -/
theorem Writes.bind (part : m.Writes x text)
    (rest : ∀ a, m'.Completes (fun indent => done indent ++ text a indent) (k a) whole) :
    (m >>= fun _ => m').Completes done (x >>= k) whole := by
  intro out indent
  cases x with
  | error reason =>
    obtain ⟨broken, stopped⟩ := part (out ++ done indent) indent
    exact ⟨broken, bind_of_error stopped⟩
  | ok a =>
    have printed : m ⟨out ++ done indent, indent⟩ =
        .ok () ⟨out ++ done indent ++ text a indent, indent⟩ := part _ indent
    have := rest a out indent
    rw [← String.append_assoc] at this
    rw [bind_of_ok printed]
    exact this

/-- The last part is printed. -/
theorem Writes.last (part : m.Writes x text) {f : α → β}
    (all : ∀ a indent, done indent ++ text a indent = whole (f a) indent) :
    m.Completes done (x >>= fun a => .ok (f a)) whole := by
  intro out indent
  cases x with
  | error reason => exact part (out ++ done indent) indent
  | ok a =>
    have printed : m ⟨out ++ done indent, indent⟩ =
        .ok () ⟨out ++ done indent ++ text a indent, indent⟩ := part _ indent
    rwa [String.append_assoc, all] at printed

/-- The last piece is written. -/
theorem Completes.write_last {a : α} {piece : String}
    (all : ∀ indent, done indent ++ piece = text a indent) :
    (PrintM.write piece).Completes done (.ok a) text := by
  intro out indent
  have printed : PrintM.write piece ⟨out ++ done indent, indent⟩ =
      .ok () ⟨out ++ done indent ++ piece, indent⟩ := rfl
  rwa [String.append_assoc, all] at printed

/-- Nothing is missing. -/
theorem Completes.nothing {a : α} (all : ∀ indent, done indent = text a indent) :
    (pure () : PrintM Unit).Completes done (.ok a) text := by
  intro out indent
  rw [all]
  rfl

theorem Completes.stop (reason : Stop TreeError) :
    (PrintM.stop reason).Completes done (.error reason : Except (Stop TreeError) α) text :=
  fun _ _ => ⟨_, rfl⟩

/-- A block is printed further in. -/
theorem Writes.block (body : m.Writes x text) :
    (PrintM.block m).Writes x fun a indent => text a (indent + blockIndent) := by
  intro out indent
  have back : indent + blockIndent - blockIndent = indent := Nat.add_sub_cancel ..
  cases x with
  | error reason =>
    obtain ⟨broken, stopped⟩ := body out (indent + blockIndent)
    refine ⟨broken, ?_⟩
    simp only [PrintM.block, stopped, back]
  | ok a =>
    have printed : m ⟨out, indent + blockIndent⟩ = .ok () ⟨_, _⟩ := body out _
    change PrintM.block m ⟨out, indent⟩ = _
    simp only [PrintM.block, printed, back]

end PrintM

namespace Tree

open PrintM

variable {α : Type} {t : Tree} {symbols : SymbolTable} {text : α → Nat → String}

theorem printed_reads (id : NodeId) : (t.printed id).Reads (t.fetch id) := by
  intro p
  unfold printed fetch
  cases t.get id <;> rfl

theorem printedCompOp_reads (id : NodeId) : (t.printedCompOp id).Reads (t.retrieveCompOp id) := by
  intro p
  unfold printedCompOp retrieveCompOp
  have found := printed_reads (t := t) id p
  cases fetched : t.fetch id with
  | error reason =>
    rw [fetched] at found
    simp only [Bind.bind, EStateM.bind, found, Except.bind]
  | ok node =>
    rw [fetched] at found
    simp only [Bind.bind, EStateM.bind, found, Except.bind]
    cases node <;> rfl

/-- What is printed of a node is told by the node. -/
theorem printed_writes {id : NodeId} {m : Node → PrintM Unit} {x : Node → Except (Stop TreeError) α}
    (h : ∀ node, (m node).Completes (fun _ => "") (x node) text) :
    (t.printed id >>= m).Writes (t.fetch id >>= x) text :=
  ((printed_reads id).bind h).writes

theorem printIdent_writes (id : NodeId) :
    (t.printIdent symbols id).Writes (t.retrieveIdent symbols.name? id) fun id _ => id.var := by
  refine printed_writes fun node => ?_
  cases node with
  | ident symbol =>
    dsimp only
    cases symbols.name? symbol with
    | some name => exact .write_last fun _ => by simp
    | none => exact .stop _
  | _ => exact .stop _

theorem printIdList_writes (depth : Nat) (id : NodeId) :
    (t.printIdList symbols depth id).Writes (t.retrieveIdList symbols.name? depth id)
      fun ids _ => ids.render := by
  induction depth generalizing id with
  | zero => exact (Completes.stop _).writes
  | succ depth ih =>
    refine printed_writes fun node => ?_
    cases node with
    | idList first rest =>
      cases rest with
      | none =>
        exact (printIdent_writes first).bind fun id => .nothing fun _ => by simp [IdList.render]
      | some next =>
        refine (printIdent_writes first).bind fun id => .write ?_
        exact (ih next).last fun rest _ => by simp [IdList.render, String.append_assoc]
    | _ => exact .stop _

theorem printDecl_writes (depth : Nat) (id : NodeId) :
    (t.printDecl symbols depth id).Writes (t.retrieveDecl symbols.name? depth id)
      fun d _ => d.render := by
  refine printed_writes fun node => ?_
  cases node with
  | decl ids =>
    exact .write ((printIdList_writes depth ids).bind fun ids => .write_last fun _ => by
      simp [Decl.render, String.append_assoc])
  | _ => exact .stop _

theorem printDeclSeq_writes (depth : Nat) (id : NodeId) :
    (t.printDeclSeq symbols depth id).Writes (t.retrieveDeclSeq symbols.name? depth id)
      fun ds indent => ds.render indent := by
  induction depth generalizing id with
  | zero => exact (Completes.stop _).writes
  | succ depth ih =>
    refine printed_writes fun node => ?_
    cases node with
    | declSeq decl rest =>
      cases rest with
      | none =>
        exact .pad ((printDecl_writes depth decl).bind fun d => .nothing fun _ => by
          simp [DeclSeq.render])
      | some next =>
        exact .pad ((printDecl_writes depth decl).bind fun d => (ih next).last fun rest _ => by
          simp [DeclSeq.render, String.append_assoc])
    | _ => exact .stop _

theorem printInt_writes (id : NodeId) :
    (t.printInt id).Writes (t.retrieveInt id) fun value _ => Number.text value := by
  refine printed_writes fun node => ?_
  cases node with
  | int value => exact .write_last fun _ => by simp
  | _ => exact .stop _

/-- The rules for expressions, terms and operands write their texts. -/
structure WritesSums (t : Tree) (symbols : SymbolTable) (depth : Nat) : Prop where
  expr : ∀ id, (t.printExpr symbols depth id).Writes (t.retrieveExpr symbols.name? depth id)
    fun e _ => e.render
  term : ∀ id, (t.printTerm symbols depth id).Writes (t.retrieveTerm symbols.name? depth id)
    fun e _ => e.render
  operand : ∀ id, (t.printOperand symbols depth id).Writes
    (t.retrieveOperand symbols.name? depth id) fun e _ => e.render

theorem writesSums (depth : Nat) : WritesSums t symbols depth := by
  induction depth with
  | zero =>
    exact ⟨fun _ => (Completes.stop _).writes, fun _ => (Completes.stop _).writes,
      fun _ => (Completes.stop _).writes⟩
  | succ depth ih =>
    refine ⟨fun id => printed_writes fun node => ?_, fun id => printed_writes fun node => ?_,
      fun id => printed_writes fun node => ?_⟩
    · cases node with
      | exprTerm term => exact (ih.term term).last fun e _ => by simp [Expr.render]
      | exprAdd term rest | exprSub term rest =>
        exact (ih.term term).bind fun e => .write ((ih.expr rest).last fun rest _ => by
          simp [Expr.render, String.append_assoc])
      | _ => exact .stop _
    · cases node with
      | termOperand operand => exact (ih.operand operand).last fun e _ => by simp [Term.render]
      | termMul operand rest =>
        exact (ih.operand operand).bind fun e => .write ((ih.term rest).last fun rest _ => by
          simp [Term.render, String.append_assoc])
      | _ => exact .stop _
    · cases node with
      | operandInt leaf => exact (printInt_writes leaf).last fun e _ => by simp [Operand.render]
      | operandIdent leaf => exact (printIdent_writes leaf).last fun e _ => by simp [Operand.render]
      | operandParen e =>
        exact .write ((ih.expr e).bind fun e => .write_last fun _ => by
          simp [Operand.render, String.append_assoc])
      | _ => exact .stop _

theorem printComparison_writes (depth : Nat) (id : NodeId) :
    (t.printComparison symbols depth id).Writes (t.retrieveComparison symbols.name? depth id)
      fun c _ => c.render := by
  refine printed_writes fun node => ?_
  cases node with
  | comparison left op right =>
    refine (printedCompOp_reads op).bind fun op => .write ?_
    refine ((writesSums depth).operand left).bind fun left => .write (.write (.write ?_))
    exact ((writesSums depth).operand right).bind fun right => .write_last fun _ => by
      simp [Comparison.render, String.append_assoc]
  | _ => exact .stop _

theorem printCond_writes (depth : Nat) (id : NodeId) :
    (t.printCond symbols depth id).Writes (t.retrieveCond symbols.name? depth id)
      fun c _ => c.render := by
  induction depth generalizing id with
  | zero => exact (Completes.stop _).writes
  | succ depth ih =>
    refine printed_writes fun node => ?_
    cases node with
    | condCompare c => exact (printComparison_writes depth c).last fun e _ => by simp [Cond.render]
    | condNot c => exact .write ((ih c).last fun c _ => by simp [Cond.render])
    | condAnd left right | condOr left right =>
      exact .write ((ih left).bind fun left => .write ((ih right).bind fun right =>
        .write_last fun _ => by simp [Cond.render, String.append_assoc]))
    | _ => exact .stop _

/-- The rules for statements and sequences write their texts. -/
structure WritesStmts (t : Tree) (symbols : SymbolTable) (depth : Nat) : Prop where
  stmt : ∀ id, (t.printStmt symbols depth id).Writes (t.retrieveStmt symbols.name? depth id)
    fun s indent => s.render indent
  seq : ∀ id, (t.printStmtSeq symbols depth id).Writes
    (t.retrieveStmtSeq symbols.name? depth id) fun s indent => s.render indent

namespace WritesStmts

variable {depth : Nat} (ih : WritesStmts t symbols depth)
include ih

/-- A statement writes its text if the sequences in it do. -/
theorem stmt_succ (id : NodeId) :
    (t.printStmt symbols (depth + 1) id).Writes (t.retrieveStmt symbols.name? (depth + 1) id)
      fun s indent => s.render indent := by
  refine printed_writes fun node => ?_
  cases node with
  | stmt form inner =>
    cases form with
    | assign =>
      refine (printed_reads inner).bind fun node => ?_
      cases node with
      | assign target value =>
        refine (printIdent_writes target).bind fun target => .write ?_
        exact ((writesSums depth).expr value).bind fun value => .write_last fun _ => by
          simp [Stmt.render, String.append_assoc]
      | _ => exact .stop _
    | ifStmt =>
      refine (printed_reads inner).bind fun node => ?_
      cases node with
      | ifStmt cond body other =>
        cases other with
        | none =>
          refine .write ((printCond_writes depth cond).bind fun cond => .write ?_)
          refine (ih.seq body).block.bind fun body => .pad ?_
          exact .write_last fun _ => by simp [Stmt.render, String.append_assoc]
        | some other =>
          refine .write ((printCond_writes depth cond).bind fun cond => .write ?_)
          refine (ih.seq body).block.bind fun body => .pad (.write ?_)
          refine (ih.seq other).block.bind fun other => .pad ?_
          exact .write_last fun _ => by simp [Stmt.render, String.append_assoc]
      | _ => exact .stop _
    | whileStmt =>
      refine (printed_reads inner).bind fun node => ?_
      cases node with
      | whileStmt cond body =>
        refine .write ((printCond_writes depth cond).bind fun cond => .write ?_)
        refine (ih.seq body).block.bind fun body => .pad ?_
        exact .write_last fun _ => by simp [Stmt.render, String.append_assoc]
      | _ => exact .stop _
    | input | output =>
      refine (printed_reads inner).bind fun node => ?_
      cases node with
      | input ids | output ids =>
        exact .write ((printIdList_writes depth ids).bind fun ids => .write_last fun _ => by
          simp [Stmt.render, String.append_assoc])
      | _ => exact .stop _
  | _ => exact .stop _

/-- A sequence writes its text if its first statement and the rest of it do. -/
theorem seq_succ (id : NodeId) :
    (t.printStmtSeq symbols (depth + 1) id).Writes
      (t.retrieveStmtSeq symbols.name? (depth + 1) id) fun s indent => s.render indent := by
  refine printed_writes fun node => ?_
  cases node with
  | stmtSeq s rest =>
    cases rest with
    | none =>
      exact .pad ((ih.stmt s).bind fun s => .nothing fun _ => by simp [StmtSeq.render])
    | some next =>
      exact .pad ((ih.stmt s).bind fun s => (ih.seq next).last fun rest _ => by
        simp [StmtSeq.render, String.append_assoc])
  | _ => exact .stop _

end WritesStmts

theorem writesStmts (depth : Nat) : WritesStmts t symbols depth := by
  induction depth with
  | zero => exact ⟨fun _ => (Completes.stop _).writes, fun _ => (Completes.stop _).writes⟩
  | succ depth ih => exact ⟨ih.stmt_succ, ih.seq_succ⟩

/-- What follows the first line of a program. -/
def printBody (t : Tree) (symbols : SymbolTable) (decls stmts : NodeId) : PrintM Unit := do
  t.printDeclSeq symbols (t.size + 1) decls
  write "begin\n"
  t.printStmtSeq symbols (t.size + 1) stmts
  write "end\n"

theorem printBody_completes (t : Tree) (symbols : SymbolTable) (decls stmts : NodeId) (line : Nat) :
    (t.printBody symbols decls stmts).Completes (fun _ => "program\n")
      (do
        let decls ← t.retrieveDeclSeq symbols.name? (t.size + 1) decls
        let stmts ← t.retrieveStmtSeq symbols.name? (t.size + 1) stmts
        return { line := line, decls := decls, stmts := stmts : Program String })
      fun p indent => "program\n" ++ p.decls.render indent ++ "begin\n" ++ p.stmts.render indent
        ++ "end\n" := by
  refine (printDeclSeq_writes _ decls).bind fun decls => .write ?_
  exact ((writesStmts _).seq stmts).bind fun stmts => .write_last fun _ => rfl

/-- The rule for programs stops at once, or it prints a body, where the lines start
further in. -/
theorem printProgram_ended (t : Tree) (symbols : SymbolTable) (root : NodeId) :
    ∃ indent, Ended indent Program.render
      (do match ← t.fetch root with
        | .program decls stmts =>
          let decls ← t.retrieveDeclSeq symbols.name? (t.size + 1) decls
          let stmts ← t.retrieveStmtSeq symbols.name? (t.size + 1) stmts
          return { line := t.line root, decls := decls, stmts := stmts }
        | other => misplaced .program other)
      (t.printProgram symbols root {}) := by
  have printed := printed_reads (t := t) root {}
  rw [printProgram]
  cases fetched : t.fetch root with
  | error reason =>
    rw [fetched] at printed
    refine ⟨0, "", ?_⟩
    simp only [Bind.bind, EStateM.bind, printed]
  | ok node =>
    rw [fetched] at printed
    simp only [Bind.bind, EStateM.bind, printed]
    cases node with
    | program decls stmts =>
      have body := t.printBody_completes symbols decls stmts (t.line root) "" blockIndent
      simp only [String.empty_append] at body
      exact ⟨blockIndent, body⟩
    | _ => exact ⟨0, "", rfl⟩

/-- The printer gives the text of the program that the tree holds, and stops where nothing can
be read back. -/
theorem render_eq : t.render symbols = (t.toProgram symbols.name?).map Program.render := by
  unfold render toProgram
  cases t.root with
  | none => rfl
  | some root =>
    obtain ⟨indent, ended⟩ := t.printProgram_ended symbols root
    exact ended.text_eq

end Tree

end CoreLang
