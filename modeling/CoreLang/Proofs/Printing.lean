import CoreLang.Program.Layout
import CoreLang.Proofs.Scanning

/-!
# The text of a derivation

`Derivation.text` writes a derivation in the canonical layout, token by token. It is
what the layout of a program gives (`Program.toList_render`), it says nothing of the
notes, and scanning it gives back the tokens that are derived (`Scans.text`).
-/

namespace CoreLang

theorem Comparator.symbol_eq (op : Comparator) : op.symbol = op.sign.text := by
  cases op <;> rfl

namespace Derivation

variable {α β ι : Type} {tag : Tag}

/-- The canonical text of a derivation; `indent` is where the lines of a block start. -/
@[simp] def text : {tag : Tag} → Derivation α String tag → Nat → List Char
  | _, .program _ a b, indent =>
    Keyword.programWord.text.toList ++ '\n' :: (a.text (indent + blockIndent)
      ++ (Keyword.beginWord.text.toList ++ '\n' :: (b.text (indent + blockIndent)
      ++ (Keyword.endWord.text.toList ++ ['\n']))))
  | _, .declSeqLast _ a, indent | _, .stmtSeqLast _ a, indent =>
    List.replicate indent ' ' ++ a.text indent
  | _, .declSeqCons _ a b, indent | _, .stmtSeqCons _ a b, indent =>
    List.replicate indent ' ' ++ (a.text indent ++ b.text indent)
  | _, .decl _ a, indent =>
    Keyword.intWord.text.toList ++ ' ' :: (a.text indent ++ (Mark.semicolon.text.toList ++ ['\n']))
  | _, .idListLast _ a, indent => a.text indent
  | _, .idListCons _ a b, indent =>
    a.text indent ++ (Mark.comma.text.toList ++ ' ' :: b.text indent)
  | _, .stmtAssign _ a, indent | _, .stmtIf _ a, indent | _, .stmtWhile _ a, indent
  | _, .stmtInput _ a, indent | _, .stmtOutput _ a, indent => a.text indent
  | _, .assign _ a b, indent =>
    a.text indent ++ ' ' :: (Mark.assign.text.toList ++ ' ' :: (b.text indent
      ++ (Mark.semicolon.text.toList ++ ['\n'])))
  | _, .ifThen _ a b, indent =>
    Keyword.ifWord.text.toList ++ ' ' :: (a.text indent ++ ' ' :: (Keyword.thenWord.text.toList
      ++ '\n' :: (b.text (indent + blockIndent) ++ (List.replicate indent ' '
      ++ (Keyword.endWord.text.toList ++ (Mark.semicolon.text.toList ++ ['\n']))))))
  | _, .ifElse _ a b c, indent =>
    Keyword.ifWord.text.toList ++ ' ' :: (a.text indent ++ ' ' :: (Keyword.thenWord.text.toList
      ++ '\n' :: (b.text (indent + blockIndent) ++ (List.replicate indent ' '
      ++ (Keyword.elseWord.text.toList ++ '\n' :: (c.text (indent + blockIndent)
      ++ (List.replicate indent ' ' ++ (Keyword.endWord.text.toList
      ++ (Mark.semicolon.text.toList ++ ['\n'])))))))))
  | _, .whileLoop _ a b, indent =>
    Keyword.whileWord.text.toList ++ ' ' :: (a.text indent ++ ' ' :: (Keyword.loopWord.text.toList
      ++ '\n' :: (b.text (indent + blockIndent) ++ (List.replicate indent ' '
      ++ (Keyword.endWord.text.toList ++ (Mark.semicolon.text.toList ++ ['\n']))))))
  | _, .input _ a, indent =>
    Keyword.readWord.text.toList ++ ' ' :: (a.text indent ++ (Mark.semicolon.text.toList ++ ['\n']))
  | _, .output _ a, indent =>
    Keyword.writeWord.text.toList ++ ' ' :: (a.text indent
      ++ (Mark.semicolon.text.toList ++ ['\n']))
  | _, .condCompare _ a, indent => a.text indent
  | _, .condNot _ a, indent => Mark.bang.text.toList ++ a.text indent
  | _, .condAnd _ a b, indent =>
    Mark.openBracket.text.toList ++ (a.text indent ++ ' ' :: (Mark.andAnd.text.toList ++ ' ' ::
      (b.text indent ++ Mark.closeBracket.text.toList)))
  | _, .condOr _ a b, indent =>
    Mark.openBracket.text.toList ++ (a.text indent ++ ' ' :: (Mark.orOr.text.toList ++ ' ' ::
      (b.text indent ++ Mark.closeBracket.text.toList)))
  | _, .comparison _ a b c, indent =>
    Mark.openParen.text.toList ++ (a.text indent ++ ' ' :: (b.text indent ++ ' ' ::
      (c.text indent ++ Mark.closeParen.text.toList)))
  | _, .compOp _ op, _ => op.sign.text.toList
  | _, .exprTerm _ a, indent | _, .termOperand _ a, indent | _, .operandInt _ a, indent
  | _, .operandIdent _ a, indent => a.text indent
  | _, .exprAdd _ a b, indent =>
    a.text indent ++ ' ' :: (Mark.plus.text.toList ++ ' ' :: b.text indent)
  | _, .exprSub _ a b, indent =>
    a.text indent ++ ' ' :: (Mark.minus.text.toList ++ ' ' :: b.text indent)
  | _, .termMul _ a b, indent =>
    a.text indent ++ ' ' :: (Mark.star.text.toList ++ ' ' :: b.text indent)
  | _, .operandParen _ a, indent =>
    Mark.openParen.text.toList ++ (a.text indent ++ Mark.closeParen.text.toList)
  | _, .int _ value, _ => (Number.text value).toList
  | _, .ident _ name, _ => name.toList

/-- The text says nothing of the notes. -/
theorem text_map (f : α → β) (d : Derivation α String tag) (indent : Nat) :
    (d.map f id).text indent = d.text indent := by
  induction d generalizing indent <;> simp only [map, text, id_eq, *]

end Derivation

/-! ### The layout of a program -/

theorem IdList.toList_render (indent : Nat) (ids : IdList String) :
    ids.render.toList = ids.derivation.text indent := by
  induction ids with
  | last id => simp [render, derivation, Ident.derivation]
  | cons id rest ih => simp [render, derivation, Ident.derivation, ih, Mark.text]

theorem DeclSeq.toList_render (indent : Nat) (ds : DeclSeq String) :
    (ds.render indent).toList = ds.derivation.text indent := by
  induction ds with
  | last d =>
    simp [render, derivation, Decl.render, Decl.derivation, IdList.toList_render indent,
      Text.spaces, Keyword.text, Mark.text]
  | cons d rest ih =>
    simp [render, derivation, Decl.render, Decl.derivation, IdList.toList_render indent, ih,
      Text.spaces, Keyword.text, Mark.text]

mutual

theorem Expr.toList_render (indent : Nat) : (e : Expr String) →
    e.render.toList = e.derivation.text indent
  | .term t => by simp [Expr.render, Expr.derivation, Term.toList_render indent t]
  | .add t rest => by
    simp [Expr.render, Expr.derivation, Term.toList_render indent t,
      Expr.toList_render indent rest, Mark.text]
  | .sub t rest => by
    simp [Expr.render, Expr.derivation, Term.toList_render indent t,
      Expr.toList_render indent rest, Mark.text]

theorem Term.toList_render (indent : Nat) : (t : Term String) →
    t.render.toList = t.derivation.text indent
  | .operand o => by simp [Term.render, Term.derivation, Operand.toList_render indent o]
  | .mul o rest => by
    simp [Term.render, Term.derivation, Operand.toList_render indent o,
      Term.toList_render indent rest, Mark.text]

theorem Operand.toList_render (indent : Nat) : (o : Operand String) →
    o.render.toList = o.derivation.text indent
  | .int line value => by simp [Operand.render, Operand.derivation]
  | .ident id => by simp [Operand.render, Operand.derivation, Ident.derivation]
  | .paren line e => by
    simp [Operand.render, Operand.derivation, Expr.toList_render indent e, Mark.text]

end

theorem Cond.toList_render (indent : Nat) (c : Cond String) :
    c.render.toList = c.derivation.text indent := by
  induction c with
  | compare c =>
    simp [render, derivation, Comparison.render, Comparison.derivation,
      Operand.toList_render indent, Comparator.symbol_eq, Mark.text]
  | not line c ih => simp [render, derivation, ih, Mark.text]
  | and line left right ihl ihr | or line left right ihl ihr =>
    simp [render, derivation, ihl, ihr, Mark.text]

mutual

theorem Stmt.toList_render (indent : Nat) : (s : Stmt String) →
    (s.render indent).toList = s.derivation.text indent
  | .assign target value => by
    simp [Stmt.render, Stmt.derivation, Ident.derivation, Expr.toList_render indent value,
      Mark.text]
  | .ifThen line cond body => by
    simp [Stmt.render, Stmt.derivation, Cond.toList_render indent cond,
      StmtSeq.toList_render (indent + blockIndent) body, Text.spaces, Keyword.text, Mark.text]
  | .ifElse line cond body other => by
    simp [Stmt.render, Stmt.derivation, Cond.toList_render indent cond,
      StmtSeq.toList_render (indent + blockIndent) body,
      StmtSeq.toList_render (indent + blockIndent) other, Text.spaces, Keyword.text, Mark.text]
  | .whileLoop line cond body => by
    simp [Stmt.render, Stmt.derivation, Cond.toList_render indent cond,
      StmtSeq.toList_render (indent + blockIndent) body, Text.spaces, Keyword.text, Mark.text]
  | .read line ids => by
    simp [Stmt.render, Stmt.derivation, IdList.toList_render indent, Keyword.text, Mark.text]
  | .write line ids => by
    simp [Stmt.render, Stmt.derivation, IdList.toList_render indent, Keyword.text, Mark.text]

theorem StmtSeq.toList_render (indent : Nat) : (s : StmtSeq String) →
    (s.render indent).toList = s.derivation.text indent
  | .last s => by
    simp [StmtSeq.render, StmtSeq.derivation, Stmt.toList_render indent s, Text.spaces]
  | .cons s rest => by
    simp [StmtSeq.render, StmtSeq.derivation, Stmt.toList_render indent s,
      StmtSeq.toList_render indent rest, Text.spaces]

end

theorem Program.toList_render (p : Program String) : p.render.toList = p.derivation.text 0 := by
  simp [render, derivation, DeclSeq.toList_render, StmtSeq.toList_render, Keyword.text]

/-- Programs of one shape have the same text. -/
theorem Program.render_eq {p q : Program String} (same : p.derivation.shape = q.derivation.shape) :
    p.render = q.render := by
  apply String.toList_inj.1
  calc
    p.render.toList = p.derivation.text 0 := p.toList_render
    _ = p.derivation.shape.text 0 := (Derivation.text_map ..).symm
    _ = q.derivation.shape.text 0 := by rw [same]
    _ = q.derivation.text 0 := Derivation.text_map ..
    _ = q.render.toList := q.toList_render.symm

/-! ### Scanning the text -/

/-- Whether no longer mark starts with the mark. -/
def Mark.standsAlone : Mark → Bool
  | .assign | .bang | .less | .greater => false
  | _ => true

namespace Scans

variable {α : Type} {tag : Tag} {text : List Char} {ts : List Terminal}

theorem mark_alone {sign : Mark} (alone : sign.standsAlone = true) (h : Scans text ts) :
    Scans (sign.text.toList ++ text) (.mark sign :: ts) := by
  refine h.mark sign fun c d spelled _ => ?_
  cases sign <;> simp [Mark.standsAlone, Mark.text] at alone spelled <;> subst spelled <;> rfl

theorem mark_space (sign : Mark) (h : Scans text ts) :
    Scans (sign.text.toList ++ ' ' :: text) (.mark sign :: ts) := by
  refine (h.blank rfl).mark sign fun c d _ ahead => ?_
  obtain rfl : ' ' = d := by simpa using ahead
  simp [Mark.double?]

/-- The end of a block and of its statement. -/
theorem blockEnd (indent : Nat) (h : Scans text ts) :
    Scans (List.replicate indent ' ' ++ (Keyword.endWord.text.toList ++
      (Mark.semicolon.text.toList ++ '\n' :: text)))
      (.keyword .endWord :: .mark .semicolon :: ts) := by
  have semicolon : Scans (Mark.semicolon.text.toList ++ '\n' :: text) (.mark .semicolon :: ts) :=
    (h.blank rfl).mark_alone rfl
  exact (semicolon.keyword .endWord rfl).blanks indent

end Scans

/-- No token of the layout runs into this text: a word is cut off from it, and it does
not make a mark longer. -/
structure Clear (text : List Char) : Prop where
  cut : isCutOff text = true
  apart : text.head? ≠ some '='

theorem Clear.space (text : List Char) : Clear (' ' :: text) :=
  ⟨rfl, by simp⟩

theorem Clear.semicolon (text : List Char) : Clear (Mark.semicolon.text.toList ++ text) :=
  ⟨rfl, by simp [Mark.text]⟩

theorem Clear.comma (text : List Char) : Clear (Mark.comma.text.toList ++ text) :=
  ⟨rfl, by simp [Mark.text]⟩

theorem Clear.closeParen (text : List Char) : Clear (Mark.closeParen.text.toList ++ text) :=
  ⟨rfl, by simp [Mark.text]⟩

theorem Clear.closeBracket (text : List Char) : Clear (Mark.closeBracket.text.toList ++ text) :=
  ⟨rfl, by simp [Mark.text]⟩

/-- A condition starts with no character that a `!` could run into. -/
theorem Derivation.head?_text_cond {α : Type} (d : Derivation α String .cond) (indent : Nat)
    (rest : List Char) : ∃ c cs, d.text indent ++ rest = c :: cs ∧ Mark.double? '!' c = none := by
  cases d with
  | condCompare _ inner => cases inner; exact ⟨_, _, rfl, rfl⟩
  | condNot _ inner => exact ⟨_, _, rfl, rfl⟩
  | condAnd _ left right => exact ⟨_, _, rfl, rfl⟩
  | condOr _ left right => exact ⟨_, _, rfl, rfl⟩

/-- Whether derivations from the tag are written on lines of their own. -/
def Tag.wholeLines : Tag → Bool
  | .program | .declSeq | .decl | .stmtSeq | .stmt => true
  | .assign | .ifStmt | .whileStmt | .input | .output => true
  | _ => false

/-- The text of a derivation is scanned into the tokens that it derives. -/
theorem Scans.text {α : Type} {tag : Tag} {rest : List Char} {ts : List Terminal}
    {d : Derivation α String tag} (indent : Nat) (h : Scans rest ts)
    (clear : tag.wholeLines = false → Clear rest) (written : ∀ t ∈ d.yield, t.Written) :
    Scans (d.text indent ++ rest) (d.yield ++ ts) := by
  -- the text is put together from its end: each part is scanned in front of what follows it
  induction d generalizing indent rest ts with
  | compOp n op =>
    -- only a `=` right behind it would make the sign another one
    refine h.mark op.sign fun c d spelled ahead => ?_
    have : d ≠ '=' := fun equals => (clear rfl).apart (equals ▸ ahead)
    cases op <;> simp [Comparator.sign, Mark.text] at spelled <;> subst spelled <;>
      simp [Mark.double?, this]
  | int n value => exact h.integer (written (.integer value) (by simp)) (clear rfl).cut
  | ident n name => exact h.identifier (written (.identifier name) (by simp)) (clear rfl).cut
  | idListLast n a iha | stmtAssign n a iha | stmtIf n a iha | stmtWhile n a iha
  | stmtInput n a iha | stmtOutput n a iha | condCompare n a iha | exprTerm n a iha
  | termOperand n a iha | operandInt n a iha | operandIdent n a iha =>
    exact iha indent h clear written
  | declSeqLast n a iha | stmtSeqLast n a iha =>
    rw [Derivation.text, List.append_assoc]
    exact (iha indent h clear written).blanks indent
  | declSeqCons n a b iha ihb | stmtSeqCons n a b iha ihb =>
    have others := ihb indent h clear fun t ht => written t (by simp [ht])
    have first := iha indent others nofun fun t ht => written t (by simp [ht])
    simp only [Derivation.text, Derivation.yield, List.append_assoc]
    exact first.blanks indent
  | program n a b iha ihb =>
    have finish := (h.blank (c := '\n') rfl).keyword .endWord rfl
    have stmts := ihb (indent + blockIndent) finish nofun fun t ht => written t (by simp [ht])
    have middle := (stmts.blank (c := '\n') rfl).keyword .beginWord rfl
    have decls := iha (indent + blockIndent) middle nofun fun t ht => written t (by simp [ht])
    simp only [Derivation.text, Derivation.yield, List.append_assoc, List.cons_append,
      List.nil_append]
    exact (decls.blank rfl).keyword .programWord rfl
  | decl n a iha | input n a iha | output n a iha =>
    have semicolon : Scans (Mark.semicolon.text.toList ++ '\n' :: rest) (.mark .semicolon :: ts) :=
      (h.blank rfl).mark_alone rfl
    have list := iha indent semicolon (fun _ => .semicolon _) fun t ht => written t (by simp [ht])
    simp only [Derivation.text, Derivation.yield, List.append_assoc, List.cons_append,
      List.nil_append]
    exact (list.blank rfl).keyword _ rfl
  | idListCons n a b iha ihb =>
    have others := ihb indent h clear fun t ht => written t (by simp [ht])
    have comma := others.mark_space .comma
    simp only [Derivation.text, Derivation.yield, List.append_assoc, List.cons_append,
      List.nil_append]
    exact iha indent comma (fun _ => .comma _) fun t ht => written t (by simp [ht])
  | assign n a b iha ihb =>
    have semicolon : Scans (Mark.semicolon.text.toList ++ '\n' :: rest) (.mark .semicolon :: ts) :=
      (h.blank rfl).mark_alone rfl
    have value := ihb indent semicolon (fun _ => .semicolon _) fun t ht => written t (by simp [ht])
    have sign := (value.mark_space .assign).blank (c := ' ') rfl
    simp only [Derivation.text, Derivation.yield, List.append_assoc, List.cons_append,
      List.nil_append]
    exact iha indent sign (fun _ => .space _) fun t ht => written t (by simp [ht])
  | ifThen n a b iha ihb | whileLoop n a b iha ihb =>
    have body := ihb (indent + blockIndent) (h.blockEnd indent) nofun
      fun t ht => written t (by simp [ht])
    have middle (word : Keyword) :=
      ((body.blank (c := '\n') rfl).keyword word rfl).blank (c := ' ') rfl
    have test (word : Keyword) := iha indent (middle word) (fun _ => .space _)
      fun t ht => written t (by simp [ht])
    simp only [Derivation.text, Derivation.yield, List.append_assoc, List.cons_append,
      List.nil_append]
    exact ((test _).blank rfl).keyword _ rfl
  | ifElse n a b c iha ihb ihc =>
    have other := ihc (indent + blockIndent) (h.blockEnd indent) nofun
      fun t ht => written t (by simp [ht])
    have between := ((other.blank (c := '\n') rfl).keyword .elseWord rfl).blanks indent
    have body := ihb (indent + blockIndent) between nofun fun t ht => written t (by simp [ht])
    have middle := ((body.blank (c := '\n') rfl).keyword .thenWord rfl).blank (c := ' ') rfl
    have test := iha indent middle (fun _ => .space _) fun t ht => written t (by simp [ht])
    simp only [Derivation.text, Derivation.yield, List.append_assoc, List.cons_append,
      List.nil_append]
    exact (test.blank rfl).keyword .ifWord rfl
  | condNot n a iha =>
    have inner := iha indent h clear fun t ht => written t (by simp [ht])
    -- a `!` and a `=` would be one mark
    obtain ⟨c, cs, starts, apart⟩ := a.head?_text_cond indent rest
    simp only [Derivation.text, Derivation.yield, List.append_assoc, List.cons_append,
      List.nil_append]
    refine inner.mark .bang fun c' d spelled ahead => ?_
    obtain rfl : '!' = c' := by simpa [Mark.text] using spelled
    rw [starts] at ahead
    obtain rfl : c = d := by simpa using ahead
    exact apart
  | condAnd n a b iha ihb | condOr n a b iha ihb =>
    have closing : Scans (Mark.closeBracket.text.toList ++ rest) (.mark .closeBracket :: ts) :=
      h.mark_alone rfl
    have right := ihb indent closing (fun _ => .closeBracket _) fun t ht => written t (by simp [ht])
    have sign (m : Mark) := (right.mark_space m).blank (c := ' ') rfl
    have left (m : Mark) := iha indent (sign m) (fun _ => .space _)
      fun t ht => written t (by simp [ht])
    simp only [Derivation.text, Derivation.yield, List.append_assoc, List.cons_append,
      List.nil_append]
    exact (left _).mark_alone rfl
  | comparison n a b c iha ihb ihc =>
    have closing : Scans (Mark.closeParen.text.toList ++ rest) (.mark .closeParen :: ts) :=
      h.mark_alone rfl
    have right := ihc indent closing (fun _ => .closeParen _) fun t ht => written t (by simp [ht])
    have sign := ihb indent (right.blank (c := ' ') rfl) (fun _ => .space _)
      fun t ht => written t (by simp [ht])
    have left := iha indent (sign.blank (c := ' ') rfl) (fun _ => .space _)
      fun t ht => written t (by simp [ht])
    simp only [Derivation.text, Derivation.yield, List.append_assoc, List.cons_append,
      List.nil_append]
    exact left.mark_alone rfl
  | exprAdd n a b iha ihb | exprSub n a b iha ihb | termMul n a b iha ihb =>
    have others := ihb indent h clear fun t ht => written t (by simp [ht])
    have sign (m : Mark) := (others.mark_space m).blank (c := ' ') rfl
    simp only [Derivation.text, Derivation.yield, List.append_assoc, List.cons_append,
      List.nil_append]
    exact iha indent (sign _) (fun _ => .space _) fun t ht => written t (by simp [ht])
  | operandParen n a iha =>
    have closing : Scans (Mark.closeParen.text.toList ++ rest) (.mark .closeParen :: ts) :=
      h.mark_alone rfl
    have inner := iha indent closing (fun _ => .closeParen _) fun t ht => written t (by simp [ht])
    simp only [Derivation.text, Derivation.yield, List.append_assoc, List.cons_append,
      List.nil_append]
    exact inner.mark_alone rfl

end CoreLang
