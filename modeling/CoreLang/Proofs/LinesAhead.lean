import CoreLang.Proofs.ParseSoundness
import CoreLang.Proofs.Productions

/-!
# The lines of the tokens ahead

A rule of the grammar notes the line of a token when it is ahead and uses it when all its
parts are read. `Reads` follows a production over the lines of the tokens ahead: each token
takes one line, and each part notes the line that is ahead where it begins. `ParseM.Takes`
tells what a rule makes of the lines ahead, step by step, and every rule reads off its
derivation (`ParseM.ReadsOff`).
-/

namespace CoreLang

/-! ### Lines along a production -/

section Reads

variable {ι : Type} {spell : ι → String} {tag : Tag}

/-- With the lines `ls` ahead, the items take as many lines as they have tokens and leave
`rest`, and every part in them, at any depth, notes the line ahead of it. -/
inductive Reads (spell : ι → String) :
    List (Item ((tag : Tag) × Derivation Nat ι tag)) → List Nat → List Nat → Prop where
  | nil {ls : List Nat} : Reads spell [] ls ls
  | token {t : Terminal} {items : List (Item ((tag : Tag) × Derivation Nat ι tag))}
      {ls rest : List Nat} (more : ls ≠ []) (others : Reads spell items ls.tail rest) :
    Reads spell (.token t :: items) ls rest
  | part {p : (tag : Tag) × Derivation Nat ι tag}
      {items : List (Item ((tag : Tag) × Derivation Nat ι tag))} {ls mid rest : List Nat}
      (first : ls.head? = some p.2.note) (inside : Reads spell (p.2.items spell) ls mid)
      (others : Reads spell items mid rest) :
    Reads spell (.part p :: items) ls rest

namespace Reads

variable {items items' : List (Item ((tag : Tag) × Derivation Nat ι tag))}
  {p : (tag : Tag) × Derivation Nat ι tag} {ls mid rest : List Nat}

/-- Items are read one after the other. -/
theorem append (h : Reads spell items ls mid) (h' : Reads spell items' mid rest) :
    Reads spell (items ++ items') ls rest := by
  induction h with
  | nil => exact h'
  | token more _ ih => exact .token more (ih h')
  | part first inside _ _ ih => exact .part first inside (ih h')

/-- A part that stands first notes the first line. -/
theorem head (h : Reads spell (.part p :: items) ls rest) : ls.head? = some p.2.note := by
  cases h with
  | part first _ _ => exact first

/-- A production that begins with a part begins where the part does. -/
theorem around {d : Derivation Nat ι tag} (h : Reads spell (.part p :: items) ls rest)
    (production : d.items spell = .part p :: items) (same : d.note = p.2.note) :
    Reads spell [.part ⟨tag, d⟩] ls rest :=
  .part (same ▸ h.head) (production ▸ h) .nil

/-- A production that begins with a token notes the line of the token. -/
theorem opened {d : Derivation Nat ι tag} {t : Terminal}
    (h : Reads spell (.token t :: items) ls rest) (production : d.items spell = .token t :: items)
    (first : ls ≠ [] → ls.head? = some d.note) : Reads spell [.part ⟨tag, d⟩] ls rest := by
  have more : ls ≠ [] := by
    cases h with
    | token more _ => exact more
  exact .part (first more) (production ▸ h) .nil

/-- The lines that are left stand behind those of the tokens. -/
theorem rest_eq (h : Reads spell items ls rest) :
    rest = ls.drop (items.flatMap (Item.text fun p => p.2.yieldWith spell)).length := by
  induction h with
  | nil => rfl
  | token more _ ih => simp [ih, Nat.add_comm]
  | part first _ _ inside others =>
    rw [others, inside, List.drop_drop, List.flatMap_cons, List.length_append, Item.text,
      ← Derivation.yieldWith_eq]

/-- Each part of a production is read behind the tokens in front of it. -/
theorem split {front : List (Item ((tag : Tag) × Derivation Nat ι tag))}
    (h : Reads spell (front ++ .part p :: items) ls rest) :
    ∃ behind, Reads spell [.part p]
      (ls.drop (front.flatMap (Item.text fun p => p.2.yieldWith spell)).length) behind := by
  induction front generalizing ls with
  | nil =>
    cases h with
    | part first inside _ => exact ⟨_, .part first inside .nil⟩
  | cons item front ih =>
    cases h with
    | token more others => simpa [Nat.add_comm] using ih others
    | part first inside others =>
      obtain rfl := inside.rest_eq
      rw [← Derivation.yieldWith_eq] at others
      simpa using ih others

end Reads

end Reads

/-! ### The notes of chains -/

section Notes

variable {ι : Type}

/-- The line of an operand is noted at its node. -/
theorem Operand.note_derivation (o : Operand ι) : o.derivation.note = o.line := by
  cases o <;> rfl

/-- The line of a term is noted at its node. -/
theorem Term.note_derivation (t : Term ι) : t.derivation.note = t.line := by
  cases t <;> rfl

/-- The line of a statement is noted at its node. -/
theorem Stmt.note_derivation (s : Stmt ι) : s.derivation.note = s.line := by
  cases s <;> rfl

end Notes

/-! ### Steps over the lines ahead -/

namespace ParseState

/-- The lines of the tokens ahead. -/
def lines (s : ParseState) : List Nat :=
  s.ahead.map Lexeme.line

/-- The end of the text is not among the tokens that are still to come. -/
def Solid (s : ParseState) : Prop :=
  ∀ l ∈ s.upcoming, l.token ≠ .eof

/-- A token that is ahead has a line. -/
theorem lines_ne_nil {s : ParseState} (more : s.lookahead.token ≠ .eof) : s.lines ≠ [] := by
  simp [lines, ahead, more]

/-- The first line ahead is that of the token ahead. -/
theorem head?_lines {s : ParseState} (more : s.lines ≠ []) :
    s.lines.head? = some s.lookahead.line := by
  unfold lines ahead at more ⊢
  split at more <;> simp_all

end ParseState

namespace ParseM

/-- With the lines `ls` ahead, what the rule gives and the lines that it leaves are as
told, if it succeeds. -/
def Takes {α : Type} (ls : List Nat) (rule : ParseM α) (told : α → List Nat → Prop) : Prop :=
  ∀ ⦃s : ParseState⦄ ⦃a : α⦄ ⦃s' : ParseState⦄, s.Solid → s.lines = ls → rule s = .ok a s' →
    s'.Solid ∧ told a s'.lines

namespace Takes

variable {α β : Type} {ls : List Nat} {told : α → List Nat → Prop} (spell : Symbol → String)

theorem pure {a : α} (h : told a ls) : Takes ls (Pure.pure a) told := by
  rintro s b s' solid rfl accepted
  obtain ⟨rfl, rfl⟩ := pure_eq_ok.1 accepted
  exact ⟨solid, h⟩

/-- The second rule starts from the lines that the first one leaves. -/
theorem bind {x : ParseM β} {f : β → ParseM α} {between : β → List Nat → Prop}
    (first : Takes ls x between) (next : ∀ b mid, between b mid → Takes mid (f b) told) :
    Takes ls (x >>= f) told := by
  intro s a s' solid lined accepted
  obtain ⟨b, t, one, two⟩ := bind_eq_ok.1 accepted
  obtain ⟨solid, here⟩ := first solid lined one
  exact next b _ here solid rfl two

theorem mono {rule : ParseM α} {told' : α → List Nat → Prop} (h : Takes ls rule told)
    (weaker : ∀ a rest, told a rest → told' a rest) : Takes ls rule told' := by
  intro s a s' solid lined accepted
  obtain ⟨solid, here⟩ := h solid lined accepted
  exact ⟨solid, weaker _ _ here⟩

/-- A rule that looks at the token ahead. -/
theorem peek {f : Token → ParseM α}
    (next : ∀ token, (token ≠ .eof → ls ≠ []) → Takes ls (f token) told) :
    Takes ls (ParseM.peek >>= f) told := by
  rintro s a s' solid rfl accepted
  obtain ⟨_, _, seen, h⟩ := bind_eq_ok.1 accepted
  obtain ⟨rfl, rfl⟩ := peek_eq_ok.1 seen
  exact next _ ParseState.lines_ne_nil solid rfl h

/-- A rule that notes the line ahead. -/
theorem peekLine {f : Nat → ParseM α}
    (next : ∀ line, (ls ≠ [] → ls.head? = some line) → Takes ls (f line) told) :
    Takes ls (ParseM.peekLine >>= f) told := by
  rintro s a s' solid rfl accepted
  obtain ⟨_, _, seen, h⟩ := bind_eq_ok.1 accepted
  obtain ⟨rfl, rfl⟩ := peekLine_eq_ok.1 seen
  exact next _ ParseState.head?_lines solid rfl h

/-- Short of its end, a step takes one token off the text, whatever it is taken for. -/
theorem advance (t : Terminal) (more : ls ≠ []) :
    Takes ls ParseM.advance fun _ rest => Reads spell [.token t] ls rest := by
  rintro s a s' solid rfl accepted
  suffices h : s'.Solid ∧ s'.lines = s.lines.tail from ⟨h.1, .token more (h.2 ▸ .nil)⟩
  unfold ParseM.advance at accepted
  split at accepted
  · next ended => exact absurd (by simp [ParseState.lines, ParseState.ahead, ended]) more
  · next token =>
    split at accepted
    · next l rest upcoming =>
      obtain ⟨-, rfl⟩ := EStateM.Result.ok.inj accepted
      rw [ParseState.Solid, upcoming, List.forall_mem_cons] at solid
      exact ⟨solid.2, by simp [ParseState.lines, ParseState.ahead, token, upcoming, solid.1]⟩
    · next upcoming _ =>
      obtain ⟨-, rfl⟩ := EStateM.Result.ok.inj accepted
      exact ⟨solid, by simp [ParseState.lines, ParseState.ahead, token, upcoming]⟩
    · cases accepted

/-- A rule that fails has nothing to tell. -/
theorem unexpected {expected : Expected} : Takes ls (ParseM.unexpected expected) told :=
  fun _ _ _ _ _ accepted => absurd accepted unexpected_ne_ok

/-- A token that is asked for takes its line. -/
theorem expect {token : Token} {expected : Expected} (solid : token ≠ .eof) :
    Takes ls (ParseM.expect token expected) fun _ rest =>
      Reads spell [.token token.terminal] ls rest := by
  refine peek fun seen more => ?_
  split
  · next same => exact advance spell _ (more (same ▸ solid))
  · exact unexpected

/-- Binding a name takes no token. -/
theorem bindName {site : Site} {name : String} :
    Takes ls (ParseM.bindName site name) fun _ rest => rest = ls := by
  rintro s a s' solid rfl accepted
  cases site with
  | declares | uses =>
    simp only [ParseM.bindName] at accepted
    split at accepted
    · obtain ⟨-, rfl⟩ := EStateM.Result.ok.inj accepted
      exact ⟨solid, rfl⟩
    · cases accepted

theorem node {rule : ParseM α} (h : Takes ls rule told) : Takes ls (ParseM.node rule) told := by
  intro s a s' solid lined accepted
  obtain ⟨-, t, inner, rfl⟩ := node_eq_ok.1 accepted
  -- the account of nodes has nothing to do with the tokens
  have inside := h (s := s.reserved) solid lined inner
  exact inside

/-- Nor has the count of levels anything to do with the tokens. -/
theorem nested {rule : ParseM α} (h : Takes ls rule told) :
    Takes ls (ParseM.nested rule) told := by
  intro s a s' solid lined accepted
  obtain ⟨-, t, inner, rfl⟩ := nested_eq_ok.1 accepted
  have inside := h (s := s.entered) solid lined inner
  exact inside

theorem tooDeep : Takes ls ParseM.tooDeep told := by
  intro s a s' _ _ accepted
  cases accepted

theorem repeating {rule : Nat → ParseM α} (h : ∀ n, Takes ls (rule n) told) :
    Takes ls (ParseM.repeating rule) told :=
  fun s _ _ solid lined accepted => h s.tokenCount solid lined accepted

/-- Looking for the end of the text takes no token. -/
theorem nothingMore : Takes ls ParseM.nothingMore fun _ rest => rest = ls := by
  rintro s a s' solid rfl accepted
  obtain ⟨-, rfl⟩ := nothingMore_eq_ok.1 accepted
  exact ⟨solid, rfl⟩

end Takes

/-- Whatever lines are ahead, the rule takes those of the derivation that it gives. -/
def ReadsOff {α : Type} {tag : Tag} (view : α → Derivation Nat Symbol tag) (rule : ParseM α) :
    Prop :=
  ∀ spell ls, Takes ls rule fun a rest => Reads spell [.part ⟨tag, view a⟩] ls rest

/-! ### Names and declarations -/

/-- A name notes the line of its one token. -/
theorem identifier_readsOff (site : Site) : ReadsOff Ident.derivation (identifier site) := by
  intro spell ls
  refine .node (.peek fun token more => ?_)
  split
  · next name =>
    refine .peekLine fun line first => .bind .bindName ?_
    rintro symbol _ rfl
    refine .bind (.advance spell (.identifier (spell symbol)) (more (by simp))) fun _ _ leaf => ?_
    exact .pure (leaf.opened rfl first)
  · exact .unexpected

/-- A list begins where its first name does, and so does each rest of it. -/
theorem idListUpTo_readsOff (site : Site) (n : Nat) :
    ReadsOff IdList.derivation (idListUpTo site n) := by
  intro spell ls
  induction n generalizing ls with
  | zero =>
    refine .node (.bind (identifier_readsOff site spell ls) fun id _ name => ?_)
    exact .pure (name.around rfl rfl)
  | succ n ih =>
    refine .node (.bind (identifier_readsOff site spell ls) fun id _ name => ?_)
    refine .peek fun token more => ?_
    split
    · refine .bind (.advance spell (.mark .comma) (more (by simp))) fun _ _ comma => ?_
      refine .bind (ih _) fun rest _ others => ?_
      exact .pure ((name.append (comma.append others)).around rfl rfl)
    · exact .pure (name.around rfl rfl)

theorem idList_readsOff (site : Site) : ReadsOff IdList.derivation (idList site) :=
  fun spell ls => .repeating fun n => idListUpTo_readsOff site n spell ls

/-- A declaration notes the line of its `int`. -/
theorem decl_readsOff : ReadsOff Decl.derivation decl := by
  intro spell ls
  refine .node (.peekLine fun line first => ?_)
  refine .bind (.expect spell (by simp)) fun _ _ word => ?_
  refine .bind (idList_readsOff .declares spell _) fun ids _ names => ?_
  refine .bind (.expect spell (by simp)) fun _ _ semicolon => ?_
  exact .pure ((word.append (names.append semicolon)).opened rfl first)

/-- A sequence begins where its first declaration does. -/
theorem declSeqUpTo_readsOff (n : Nat) : ReadsOff DeclSeq.derivation (declSeqUpTo n) := by
  intro spell ls
  induction n generalizing ls with
  | zero =>
    refine .node (.bind (decl_readsOff spell ls) fun d _ first => ?_)
    exact .pure (first.around rfl rfl)
  | succ n ih =>
    refine .node (.bind (decl_readsOff spell ls) fun d _ first => ?_)
    refine .peek fun token more => ?_
    split
    · refine .bind (ih _) fun rest _ others => ?_
      exact .pure ((first.append others).around rfl rfl)
    · exact .pure (first.around rfl rfl)

theorem declSeq_readsOff : ReadsOff DeclSeq.derivation declSeq :=
  fun spell ls => .repeating fun n => declSeqUpTo_readsOff n spell ls

/-! ### Expressions -/

section Expressions

variable {inside : ParseM (Expr Symbol)} (inner : ReadsOff Expr.derivation inside)
include inner

/-- An operand and the leaf below it note the line of the same token. -/
theorem operandWith_readsOff : ReadsOff Operand.derivation (operandWith inside) := by
  intro spell ls
  refine .node (.peekLine fun line first => .peek fun token more => ?_)
  split
  · next digits =>
    refine .bind (.node (.advance spell (.integer (Token.literal digits)) (more (by simp))))
      fun _ _ literal => ?_
    have leaf : Reads spell [.part ⟨_, .int line (Token.literal digits)⟩] _ _ :=
      literal.opened rfl first
    exact .pure (leaf.around rfl rfl)
  · refine .bind (identifier_readsOff .uses spell ls) fun id _ name => ?_
    exact .pure (name.around rfl rfl)
  · refine .bind (.advance spell (.mark .openParen) (more (by simp))) fun _ _ opening => ?_
    refine .bind (inner spell _) fun e _ parts => ?_
    refine .bind (.expect spell (by simp)) fun _ _ closing => ?_
    exact .pure ((opening.append (parts.append closing)).opened rfl first)
  · exact .unexpected

/-- A product begins where its first operand does. -/
theorem termUpTo_readsOff (n : Nat) : ReadsOff Term.derivation (termUpTo inside n) := by
  intro spell ls
  induction n generalizing ls with
  | zero =>
    refine .node (.bind (operandWith_readsOff inner spell ls) fun o _ first => ?_)
    exact .pure (first.around rfl o.note_derivation.symm)
  | succ n ih =>
    refine .node (.bind (operandWith_readsOff inner spell ls) fun o _ first => ?_)
    refine .peek fun token more => ?_
    split
    · refine .bind (.advance spell (.mark .star) (more (by simp))) fun _ _ sign => ?_
      refine .bind (ih _) fun rest _ others => ?_
      exact .pure ((first.append (sign.append others)).around rfl o.note_derivation.symm)
    · exact .pure (first.around rfl o.note_derivation.symm)

theorem termWith_readsOff : ReadsOff Term.derivation (termWith inside) :=
  fun spell ls => .repeating fun n => termUpTo_readsOff inner n spell ls

/-- A sum begins where its first term does. -/
theorem exprUpTo_readsOff (n : Nat) : ReadsOff Expr.derivation (exprUpTo inside n) := by
  intro spell ls
  induction n generalizing ls with
  | zero =>
    refine .node (.bind (termWith_readsOff inner spell ls) fun t _ first => ?_)
    exact .pure (first.around rfl t.note_derivation.symm)
  | succ n ih =>
    refine .node (.bind (termWith_readsOff inner spell ls) fun t _ first => ?_)
    refine .peek fun token more => ?_
    split
    · refine .bind (.advance spell (.mark .plus) (more (by simp))) fun _ _ sign => ?_
      refine .bind (ih _) fun rest _ others => ?_
      exact .pure ((first.append (sign.append others)).around rfl t.note_derivation.symm)
    · refine .bind (.advance spell (.mark .minus) (more (by simp))) fun _ _ sign => ?_
      refine .bind (ih _) fun rest _ others => ?_
      exact .pure ((first.append (sign.append others)).around rfl t.note_derivation.symm)
    · exact .pure (first.around rfl t.note_derivation.symm)

theorem exprWith_readsOff : ReadsOff Expr.derivation (exprWith inside) :=
  fun spell ls => .repeating fun n => exprUpTo_readsOff inner n spell ls

end Expressions

/-- The inside of parentheses, by induction on the levels that may still be entered. -/
theorem innerExpr_readsOff (levels : Nat) : ReadsOff Expr.derivation (innerExpr levels) := by
  intro spell ls
  induction levels generalizing spell ls with
  | zero => exact .tooDeep
  | succ levels ih => exact .nested (exprWith_readsOff ih spell ls)

theorem operand_readsOff (levels : Nat) : ReadsOff Operand.derivation (operand levels) :=
  operandWith_readsOff (innerExpr_readsOff levels)

theorem expr_readsOff (levels : Nat) : ReadsOff Expr.derivation (expr levels) :=
  exprWith_readsOff (innerExpr_readsOff levels)

/-! ### Conditions -/

/-- The line of a sign is noted before it is looked at. -/
theorem compOp_takes (spell : Symbol → String) (ls : List Nat) :
    Takes ls compOp fun op rest => Reads spell [.token (.mark op.sign)] ls rest := by
  refine .node (.peek fun token more => ?_)
  cases told : comparator? token with
  | none => exact .unexpected
  | some op =>
    have more := more (by simp [comparator?_eq_some told])
    exact .bind (.advance spell (.mark op.sign) more) fun _ _ sign => .pure sign

/-- A comparison notes the line of its parenthesis, and its sign has a line of its own. -/
theorem comparison_readsOff (levels : Nat) :
    ReadsOff Comparison.derivation (comparison levels) := by
  intro spell ls
  refine .node (.peekLine fun line first => ?_)
  refine .bind (.expect spell (by simp)) fun _ _ opening => ?_
  refine .bind (operand_readsOff levels spell _) fun left _ one => ?_
  refine .peekLine fun opLine firstSign => .bind (compOp_takes spell _) fun op _ sign => ?_
  refine .bind (operand_readsOff levels spell _) fun right _ two => ?_
  refine .bind (.expect spell (by simp)) fun _ _ closing => ?_
  have sign : Reads spell [.part ⟨_, .compOp opLine op⟩] _ _ := sign.opened rfl firstSign
  have parts := one.append (sign.append (two.append closing))
  exact .pure ((opening.append parts).opened rfl first)

section Conditions

variable {levels : Nat} {inside : ParseM (Cond Symbol)} (inner : ReadsOff Cond.derivation inside)
include inner

/-- A bracketed condition notes the line of its bracket, any other that of its comparison. -/
theorem plainCond_readsOff : ReadsOff Cond.derivation (plainCond levels inside) := by
  intro spell ls
  refine .peekLine fun line first => .peek fun token more => ?_
  split
  · refine .bind (.advance spell (.mark .openBracket) (more (by simp))) fun _ _ opening => ?_
    refine .bind (inner spell _) fun left _ one => .peek fun token more => ?_
    split
    · refine .bind (.advance spell (.mark .andAnd) (more (by simp))) fun _ _ sign => ?_
      refine .bind (inner spell _) fun right _ two => ?_
      refine .bind (.expect spell (by simp)) fun _ _ closing => ?_
      have parts := one.append (sign.append (two.append closing))
      exact .pure ((opening.append parts).opened rfl first)
    · refine .bind (.advance spell (.mark .orOr) (more (by simp))) fun _ _ sign => ?_
      refine .bind (inner spell _) fun right _ two => ?_
      refine .bind (.expect spell (by simp)) fun _ _ closing => ?_
      have parts := one.append (sign.append (two.append closing))
      exact .pure ((opening.append parts).opened rfl first)
    · exact .unexpected
  · refine .bind (comparison_readsOff levels spell ls) fun c _ parts => ?_
    exact .pure (parts.around rfl rfl)

/-- A negation notes the line of its `!`. -/
theorem condUpTo_readsOff (n : Nat) : ReadsOff Cond.derivation (condUpTo levels inside n) := by
  intro spell ls
  induction n generalizing ls with
  | zero => exact .node (plainCond_readsOff inner spell ls)
  | succ n ih =>
    refine .node (.peek fun token more => ?_)
    split
    · refine .peekLine fun line first => ?_
      refine .bind (.advance spell (.mark .bang) (more (by simp))) fun _ _ bang => ?_
      refine .bind (ih _) fun c _ others => ?_
      exact .pure ((bang.append others).opened rfl first)
    · exact plainCond_readsOff inner spell ls

theorem condWith_readsOff : ReadsOff Cond.derivation (condWith levels inside) :=
  fun spell ls => .repeating fun n => condUpTo_readsOff inner n spell ls

end Conditions

/-- The inside of brackets, by induction on the levels that may still be entered. -/
theorem innerCond_readsOff (levels : Nat) : ReadsOff Cond.derivation (innerCond levels) := by
  intro spell ls
  induction levels generalizing spell ls with
  | zero => exact .tooDeep
  | succ levels ih => exact .nested (condWith_readsOff ih spell ls)

theorem cond_readsOff (levels : Nat) : ReadsOff Cond.derivation (cond levels) :=
  condWith_readsOff (innerCond_readsOff levels)

/-! ### Statements

The node of a statement and the one right under it begin with the same token. -/

/-- An assignment begins where its target does. -/
theorem assignment_readsOff (levels : Nat) : ReadsOff Stmt.derivation (assignment levels) := by
  intro spell ls
  refine .node (.bind (identifier_readsOff .uses spell ls) fun target _ name => ?_)
  refine .bind (.expect spell (by simp)) fun _ _ sign => ?_
  refine .bind (expr_readsOff levels spell _) fun value _ parts => ?_
  refine .bind (.expect spell (by simp)) fun _ _ semicolon => ?_
  have inner : Reads spell
      [.part ⟨_, .assign target.line target.derivation value.derivation⟩] _ _ :=
    (name.append (sign.append (parts.append semicolon))).around rfl rfl
  exact .pure (inner.around rfl rfl)

/-- The end of a block takes the lines of two tokens. -/
theorem blockEnd_takes (spell : Symbol → String) (ls : List Nat) :
    Takes ls blockEnd fun _ rest =>
      Reads spell [.token (.keyword .endWord), .token (.mark .semicolon)] ls rest := by
  refine .bind (.expect spell (by simp)) fun _ _ word => ?_
  exact (Takes.expect spell (by simp)).mono fun _ _ semicolon => word.append semicolon

section Statements

variable {levels : Nat} {block : ParseM (StmtSeq Symbol)}

theorem transfer_takes (spell : Symbol → String) (word : Keyword) {ls : List Nat}
    (more : ls ≠ []) :
    Takes ls transfer fun ids rest => Reads spell
      [.token (.keyword word), .part ⟨_, ids.derivation⟩, .token (.mark .semicolon)] ls rest := by
  refine .node (.bind (.advance spell (.keyword word) more) fun _ _ opening => ?_)
  refine .bind (idList_readsOff .uses spell _) fun ids _ names => ?_
  refine .bind (.expect spell (by simp)) fun _ _ semicolon => ?_
  exact .pure (opening.append (names.append semicolon))

variable (inner : ReadsOff StmtSeq.derivation block)
include inner

/-- An `if` notes the line of its keyword, if one is ahead. -/
theorem conditional_takes (spell : Symbol → String) {ls : List Nat} (more : ls ≠ []) :
    Takes ls (conditional levels block) fun a rest =>
      Reads spell [.part ⟨_, a.derivation⟩] ls rest := by
  refine .node (.peekLine fun line first => ?_)
  refine .bind (.advance spell (.keyword .ifWord) more) fun _ _ word => ?_
  refine .bind (cond_readsOff levels spell _) fun c _ guard => ?_
  refine .bind (.expect spell (by simp)) fun _ _ middle => ?_
  refine .bind (inner spell _) fun body _ one => .peek fun token more => ?_
  split
  · refine .bind (.advance spell (.keyword .elseWord) (more (by simp))) fun _ _ second => ?_
    refine .bind (inner spell _) fun other _ two => ?_
    refine .bind (blockEnd_takes spell _) fun _ _ closing => ?_
    have parts := guard.append (middle.append (one.append (second.append (two.append closing))))
    have whole : Reads spell
        [.part ⟨_, .ifElse line c.derivation body.derivation other.derivation⟩] _ _ :=
      (word.append parts).opened rfl first
    exact .pure (whole.around rfl rfl)
  · refine .bind (blockEnd_takes spell _) fun _ _ closing => ?_
    have parts := guard.append (middle.append (one.append closing))
    have whole : Reads spell [.part ⟨_, .ifThen line c.derivation body.derivation⟩] _ _ :=
      (word.append parts).opened rfl first
    exact .pure (whole.around rfl rfl)
  · exact .unexpected

/-- A `while` notes the line of its keyword, if one is ahead. -/
theorem loop_takes (spell : Symbol → String) {ls : List Nat} (more : ls ≠ []) :
    Takes ls (loop levels block) fun a rest =>
      Reads spell [.part ⟨_, a.derivation⟩] ls rest := by
  refine .node (.peekLine fun line first => ?_)
  refine .bind (.advance spell (.keyword .whileWord) more) fun _ _ word => ?_
  refine .bind (cond_readsOff levels spell _) fun c _ guard => ?_
  refine .bind (.expect spell (by simp)) fun _ _ middle => ?_
  refine .bind (inner spell _) fun body _ one => ?_
  refine .bind (blockEnd_takes spell _) fun _ _ closing => ?_
  have parts := guard.append (middle.append (one.append closing))
  have whole : Reads spell [.part ⟨_, .whileLoop line c.derivation body.derivation⟩] _ _ :=
    (word.append parts).opened rfl first
  exact .pure (whole.around rfl rfl)

/-- A statement and the node of its form note the line of the same token. -/
theorem stmtWith_readsOff : ReadsOff Stmt.derivation (stmtWith levels block) := by
  intro spell ls
  refine .node (.peekLine fun line first => .peek fun token more => ?_)
  split
  · exact assignment_readsOff levels spell ls
  · exact conditional_takes inner spell (more (by simp))
  · exact loop_takes inner spell (more (by simp))
  · refine .bind (transfer_takes spell .readWord (more (by simp))) fun ids _ parts => ?_
    have whole : Reads spell [.part ⟨_, .input line ids.derivation⟩] _ _ := parts.opened rfl first
    exact .pure (whole.around rfl rfl)
  · refine .bind (transfer_takes spell .writeWord (more (by simp))) fun ids _ parts => ?_
    have whole : Reads spell [.part ⟨_, .output line ids.derivation⟩] _ _ := parts.opened rfl first
    exact .pure (whole.around rfl rfl)
  · exact .unexpected

/-- A sequence begins where its first statement does. -/
theorem stmtSeqUpTo_readsOff (n : Nat) :
    ReadsOff StmtSeq.derivation (stmtSeqUpTo levels block n) := by
  intro spell ls
  induction n generalizing ls with
  | zero =>
    refine .node (.bind (stmtWith_readsOff inner spell ls) fun s _ first => ?_)
    exact .pure (first.around rfl s.note_derivation.symm)
  | succ n ih =>
    refine .node (.bind (stmtWith_readsOff inner spell ls) fun s _ first => ?_)
    refine .peek fun token more => ?_
    split
    · refine .bind (ih _) fun rest _ others => ?_
      exact .pure ((first.append others).around rfl s.note_derivation.symm)
    · exact .pure (first.around rfl s.note_derivation.symm)

theorem stmtSeqWith_readsOff : ReadsOff StmtSeq.derivation (stmtSeqWith levels block) :=
  fun spell ls => .repeating fun n => stmtSeqUpTo_readsOff inner n spell ls

end Statements

/-- The inside of a block, by induction on the levels that may still be entered. -/
theorem innerBlock_readsOff (levels : Nat) : ReadsOff StmtSeq.derivation (innerBlock levels) := by
  intro spell ls
  induction levels generalizing spell ls with
  | zero => exact .tooDeep
  | succ levels ih => exact .nested (stmtSeqWith_readsOff ih spell ls)

theorem stmtSeq_readsOff (levels : Nat) : ReadsOff StmtSeq.derivation (stmtSeq levels) :=
  stmtSeqWith_readsOff (innerBlock_readsOff levels)

/-- A program notes the line of its first keyword. -/
theorem program_readsOff : ReadsOff Program.derivation program := by
  intro spell ls
  refine .node (.peekLine fun line first => ?_)
  refine .bind (.expect spell (by simp)) fun _ _ opening => ?_
  refine .bind (declSeq_readsOff spell _) fun decls _ names => ?_
  refine .bind (.expect spell (by simp)) fun _ _ middle => ?_
  refine .bind (stmtSeq_readsOff maxNesting spell _) fun stmts _ body => ?_
  refine .bind (.expect spell (by simp)) fun _ _ closing => .bind .nothingMore ?_
  rintro _ _ rfl
  have parts := names.append (middle.append (body.append closing))
  exact .pure ((opening.append parts).opened rfl first)

end ParseM

end CoreLang
