import CoreLang.Proofs.Heeding

/-!
# What is taken can be gone on with

Every rule of the grammar heeds what may follow its phrase, whatever that is (`Attends`): it
takes a token only if some text goes on behind it, and stops at one only if none does. A
rule that chooses by the token ahead takes the one alternative that begins with it, and a
list, a sum or a block ends where what follows it begins.
-/

namespace CoreLang.ParseM

open Future

variable {α β : Type}

/-- The rule for the tag heeds what may follow a phrase, whatever that is, as long as it does
not go on with the phrase. Where names are used, some name must be declared. -/
def Attends (site : Site) (tag : Tag) (rule : ParseM α) : Prop :=
  ∀ ⦃s : ParseState⦄ ⦃K : Future⦄, (site = .uses → s.names ≠ []) → Alive K → EndsAt tag K →
    Heeds (phrase site tag K) rule s K

/-- The same of a rule that may repeat itself as often as there are tokens ahead. -/
def AttendsUpTo (site : Site) (tag : Tag) (rule : Nat → ParseM α) (n : Nat) : Prop :=
  ∀ ⦃s : ParseState⦄ ⦃K : Future⦄, (site = .uses → s.names ≠ []) → Alive K → EndsAt tag K →
    s.text.length ≤ n → Heeds (phrase site tag K) (rule n) s K

section

variable {site : Site} {tag first : Tag} {F G H K : Future} {s t : ParseState}

/-- A rule that succeeds takes some token. -/
theorem Sound.length_lt {extra : Nat} {view : α → Derivation Unit Symbol tag} {rule : ParseM α}
    {a : α} (h : Sound site extra view rule) (ready : s.Ready) (accepted : rule s = .ok a t) :
    t.text.length < s.text.length := by
  obtain ⟨d, passes, -⟩ := h ready accepted
  have := List.length_pos_iff.2 d.yield_ne_nil
  have := passes.length_text
  omega

/-- Behind a phrase that names something, some name is declared. -/
theorem Sound.some_name {extra : Nat} {view : α → Derivation Unit Symbol tag} {rule : ParseM α}
    {a : α} (h : Sound site extra view rule) (naming : ∀ d : Derivation Unit String tag, d.vars ≠ [])
    (ready : s.Ready) (accepted : rule s = .ok a t) : t.names ≠ [] := by
  obtain ⟨d, passes, -⟩ := h ready accepted
  obtain ⟨x, among⟩ := List.exists_mem_of_ne_nil _ (naming d)
  exact List.ne_nil_of_mem (passes.mem_symbols among)

theorem AttendsUpTo.repeating {rule : Nat → ParseM α} (h : ∀ n, AttendsUpTo site tag rule n) :
    Attends site tag (repeating rule) :=
  fun _ _ known alive ends => Heeds.repeating fun n short => h n known alive ends short

theorem Attends.nested {rule : ParseM α} (h : Attends site tag rule) :
    Attends site tag (nested rule) :=
  fun _ _ known alive ends => Heeds.nested (h known alive ends)

theorem tooDeep_attends : Attends site tag (tooDeep : ParseM α) :=
  fun _ _ _ _ _ => Heeds.tooDeep

/-- Nothing is ahead of a rule that may not repeat itself even once, so its first part fails. -/
theorem Heeds.never {view : α → Derivation Unit Symbol tag} {rule : ParseM α} {f : α → ParseM β}
    (sound : Sound site 0 view rule) (heeds : Heeds F rule s G) (short : s.text.length ≤ 0) :
    Heeds F (rule >>= f) s H := by
  refine .bind heeds fun one onward => ?_
  have fewer := sound.length_lt onward.started.ready one
  omega

/-- A list, a product or a sum goes on with a mark and the rest of it, which may repeat itself
once less. -/
theorem AttendsUpTo.chain {again : Nat → ParseM α} {f : α → β} {sign : Mark} {n : Nat}
    (h : AttendsUpTo site tag again n) (some_name : s.names ≠ []) (alive : Alive K)
    (ends : EndsAt tag K) (ahead : s.lookahead.token = .mark sign) (short : s.text.length ≤ n + 1) :
    Heeds (tok (.mark sign) (phrase site tag K)) (do advance; let a ← again n; return f a) s K := by
  refine .bind (.advance ahead nofun) fun step passed => ?_
  have taken := advance_passes site passed.started.ready (by simp [ahead]) step
  refine .bind (h (fun _ => passed.some_name some_name) alive ends ?_) fun _ _ => .pure _
  have fewer := taken.length_text
  rw [List.length_singleton] at fewer
  omega

end

/-! ### Names and declarations -/

theorem identifier_attends (site : Site) : Attends site .ident (identifier site) := by
  intro s K _ alive _
  refine .node fun sane => .peek fun token ahead => ?_
  split
  · next name =>
    -- the node of the name is reserved already, so there is a symbol left for it
    have room : s.reserved.names.length < s.reserved.budget.used := Nat.lt_succ_of_le sane.counted
    refine .peekLine (.bind (.bindName ahead room alive) fun {_ t _} bound onward => ?_)
    obtain ⟨-, -, same⟩ := bindName_passes onward.started.ready bound
    have ahead : t.lookahead.token = .identifier name := same ▸ ahead
    exact .bind (.advance ahead nofun) fun _ _ => .pure _
  · next other =>
    refine .unexpected ahead (.phrase ?_)
    cases token with
    | identifier name => exact absurd rfl (other name)
    | _ => rfl

theorem idListUpTo_attends (site : Site) (n : Nat) :
    AttendsUpTo site .idList (idListUpTo site) n := by
  induction n with
  | zero =>
    intro s K known alive ends short
    rw [phrase_idList]
    exact .node fun _ => .never (identifier_sound site)
      (identifier_attends site known alive.left (.of_not fun _ => rfl)) short
  | succ n ih =>
    intro s K known alive ends short
    rw [phrase_idList]
    refine .node fun _ => .bind (identifier_attends site known alive.left (.of_not fun _ => rfl))
      fun one onward => ?_
    have some_name :=
      (identifier_sound site).some_name Derivation.vars_ident_ne_nil onward.started.ready one
    refine .peek fun token ahead => ?_
    split
    · refine .right some_name ahead (ends rfl) (.tok trivial (alive.named fun _ => rfl)) ?_
      exact ih.chain some_name alive ends ahead (Nat.le_trans onward.length_text_le short)
    · next other =>
      exact .left some_name ahead (.mark other) alive (.pure _)

theorem idList_attends (site : Site) : Attends site .idList (idList site) :=
  AttendsUpTo.repeating (idListUpTo_attends site)

theorem decl_attends : Attends .declares .decl decl := by
  intro s K _ alive _
  rw [phrase_decl]
  refine .node fun _ => .peekLine (.bind .expectKeyword fun _ _ => ?_)
  refine .bind (idList_attends .declares nofun (.tok trivial alive) (.tok rfl)) fun _ _ => ?_
  exact .bind .expectMark fun _ _ => .pure _

theorem declSeqUpTo_attends (n : Nat) : AttendsUpTo .declares .declSeq declSeqUpTo n := by
  induction n with
  | zero =>
    intro s K known alive ends short
    rw [phrase_declSeq]
    exact .node fun _ => .never decl_sound
      (decl_attends known alive.left (.of_not fun _ => rfl)) short
  | succ n ih =>
    intro s K known alive ends short
    rw [phrase_declSeq]
    refine .node fun _ => .bind (decl_attends known alive.left (.of_not fun _ => rfl))
      fun one onward => ?_
    have some_name := decl_sound.some_name Derivation.vars_decl_ne_nil onward.started.ready one
    -- no mark stands between two declarations, but each takes tokens of its own
    have fewer := decl_sound.length_lt onward.started.ready one
    refine .peek fun token ahead => ?_
    split
    · refine .right some_name ahead (ends rfl) (alive.named fun _ => rfl) ?_
      refine .bind (ih nofun alive ends ?_) fun _ _ => .pure _
      exact Nat.le_of_lt_succ (Nat.lt_of_lt_of_le fewer short)
    · next other =>
      refine .left some_name ahead (.phrase ?_) alive (.pure _)
      refine decide_eq_false fun same => ?_
      exact other (Token.terminal_eq_keyword_iff.1 same)

theorem declSeq_attends : Attends .declares .declSeq declSeq :=
  AttendsUpTo.repeating declSeqUpTo_attends

/-! ### Expressions -/

section Expressions

variable {inside : ParseM (Expr Symbol)}

theorem operandWith_attends (inner : Attends .uses .expr inside) :
    Attends .uses .operand (operandWith inside) := by
  intro s K known alive _
  have some_name := known rfl
  refine .node fun _ => .peekLine (.peek fun token ahead => ?_)
  split
  · next digits =>
    rw [phrase_operand]
    refine .left some_name ahead (.either (.phrase rfl) (.tok nofun)) alive.uses ?_
    refine .bind (.node fun _ => ?_) fun _ _ => .pure _
    exact .leaf ahead nofun some_name alive (fun | .int .. => ⟨_, rfl, rfl⟩)
      (d := .int () (Token.literal digits)) rfl
  · next name =>
    rw [phrase_operand]
    refine .right some_name ahead (.phrase rfl) alive.uses.left ?_
    refine .left some_name ahead (.tok nofun) alive.uses ?_
    exact .bind (identifier_attends .uses known alive (.of_not fun _ => rfl)) fun _ _ => .pure _
  · rw [phrase_operand]
    have closed : Alive (tok (.mark .closeParen) K) := .tok trivial alive
    refine .right some_name ahead (.phrase rfl) alive.uses.left ?_
    refine .right some_name ahead (.phrase rfl) (.tok trivial closed.uses) ?_
    refine .bind (.advance ahead nofun) fun _ passed => ?_
    refine .bind (inner (fun _ => passed.some_name some_name) closed (.tok rfl)) fun _ _ => ?_
    exact .bind .expectMark fun _ _ => .pure _
  · next no_literal no_name no_paren =>
    refine .unexpected ahead (.phrase ?_)
    cases token with
    | integer digits => exact absurd rfl (no_literal digits)
    | identifier name => exact absurd rfl (no_name name)
    | mark sign =>
      cases sign with
      | openParen => exact absurd rfl no_paren
      | _ => rfl
    | _ => rfl

theorem termUpTo_attends
    (sound : Sound .uses 1 (fun a : Expr Symbol => a.derivation.shape) inside)
    (inner : Attends .uses .expr inside) (n : Nat) :
    AttendsUpTo .uses .term (termUpTo inside) n := by
  induction n with
  | zero =>
    intro s K known alive ends short
    rw [phrase_term]
    exact .node fun _ => .never (operandWith_sound sound)
      (operandWith_attends inner known alive.left (.of_not fun _ => rfl)) short
  | succ n ih =>
    intro s K known alive ends short
    rw [phrase_term]
    refine .node fun _ => .bind (operandWith_attends inner known alive.left (.of_not fun _ => rfl))
      fun _ onward => ?_
    have some_name := onward.some_name (known rfl)
    refine .peek fun token ahead => ?_
    split
    · refine .right some_name ahead (ends rfl) (.tok trivial alive.uses) ?_
      exact ih.chain some_name alive ends ahead (Nat.le_trans onward.length_text_le short)
    · next other =>
      exact .left some_name ahead (.mark other) alive (.pure _)

theorem termWith_attends
    (sound : Sound .uses 1 (fun a : Expr Symbol => a.derivation.shape) inside)
    (inner : Attends .uses .expr inside) : Attends .uses .term (termWith inside) :=
  AttendsUpTo.repeating (termUpTo_attends sound inner)

theorem exprUpTo_attends
    (sound : Sound .uses 1 (fun a : Expr Symbol => a.derivation.shape) inside)
    (inner : Attends .uses .expr inside) (n : Nat) :
    AttendsUpTo .uses .expr (exprUpTo inside) n := by
  induction n with
  | zero =>
    intro s K known alive ends short
    rw [phrase_expr]
    exact .node fun _ => .never (termWith_sound sound) (termWith_attends sound inner known alive.left
      (.either ends.term (.either (.tok rfl) (.tok rfl)))) short
  | succ n ih =>
    intro s K known alive ends short
    rw [phrase_expr]
    refine .node fun _ => .bind (termWith_attends sound inner known alive.left
      (.either ends.term (.either (.tok rfl) (.tok rfl)))) fun _ onward => ?_
    have some_name := onward.some_name (known rfl)
    have again {sign : Mark} : Alive (tok (.mark sign) (phrase .uses .expr K)) :=
      .tok trivial alive.uses
    refine .peek fun token ahead => ?_
    split
    · refine .right some_name ahead (ends rfl) again.left ?_
      refine .left some_name ahead (.tok nofun) again ?_
      exact ih.chain some_name alive ends ahead (Nat.le_trans onward.length_text_le short)
    · refine .right some_name ahead (ends rfl) again.left ?_
      refine .right some_name ahead (.tok nofun) again ?_
      exact ih.chain some_name alive ends ahead (Nat.le_trans onward.length_text_le short)
    · next no_plus no_minus =>
      exact .left some_name ahead (.either (.mark no_plus) (.mark no_minus)) alive (.pure _)

theorem exprWith_attends
    (sound : Sound .uses 1 (fun a : Expr Symbol => a.derivation.shape) inside)
    (inner : Attends .uses .expr inside) : Attends .uses .expr (exprWith inside) :=
  AttendsUpTo.repeating (exprUpTo_attends sound inner)

end Expressions

theorem innerExpr_attends (levels : Nat) : Attends .uses .expr (innerExpr levels) := by
  induction levels with
  | zero => exact tooDeep_attends
  | succ levels ih => exact (exprWith_attends (innerExpr_sound levels) ih).nested

theorem operand_attends (levels : Nat) : Attends .uses .operand (operand levels) :=
  operandWith_attends (innerExpr_attends levels)

theorem expr_attends (levels : Nat) : Attends .uses .expr (expr levels) :=
  exprWith_attends (innerExpr_sound levels) (innerExpr_attends levels)

/-! ### Conditions -/

theorem opens_compOp (token : Token) :
    Tag.compOp.opens token.terminal = (comparator? token).isSome := by
  cases token with
  | mark sign => cases sign <;> rfl
  | _ => rfl

theorem compOp_attends : Attends .uses .compOp compOp := by
  intro s K known alive _
  refine .node fun _ => .peek fun token ahead => ?_
  cases told : comparator? token with
  | some op =>
    have ahead := ahead.trans (comparator?_eq_some told)
    refine .bind (.leaf ahead nofun (known rfl) alive ?_ (d := .compOp () op) rfl) fun _ _ => .pure _
    exact fun | .compOp .. => ⟨_, rfl, rfl⟩
  | none =>
    refine .unexpected ahead (.phrase ?_)
    rw [opens_compOp, told]
    rfl

theorem comparison_attends (levels : Nat) : Attends .uses .comparison (comparison levels) := by
  intro s K known alive _
  have closed : Alive (tok (.mark .closeParen) K) := .tok trivial alive
  rw [phrase_comparison]
  refine .node fun _ => .peekLine (.bind .expectMark fun _ opened => ?_)
  have known := opened.known known
  refine .bind (operand_attends levels known closed.uses.uses (.of_not fun _ => rfl)) fun _ left => ?_
  have known := left.known known
  refine .peekLine (.bind (compOp_attends known closed.uses (.of_not fun _ => rfl)) fun _ sign => ?_)
  have known := sign.known known
  refine .bind (operand_attends levels known closed (.of_not fun _ => rfl)) fun _ _ => ?_
  exact .bind .expectMark fun _ _ => .pure _

section Conditions

variable {levels : Nat} {inside : ParseM (Cond Symbol)} {s : ParseState} {K : Future}

/-- A bracketed condition behind its left side. -/
theorem rightSide_heeds {f : Cond Symbol → Cond Symbol} {sign : Mark}
    (inner : Attends .uses .cond inside) (some_name : s.names ≠ []) (alive : Alive K)
    (ahead : s.lookahead.token = .mark sign) :
    Heeds (tok (.mark sign) (rightSide K)) (do
      advance
      let right ← inside
      expect (.mark .closeBracket) .closeBracket
      return f right) s K := by
  refine .bind (.advance ahead nofun) fun _ passed => ?_
  refine .bind (inner (fun _ => passed.some_name some_name) (.tok trivial alive)
    (.of_not fun _ => rfl)) fun _ _ => ?_
  exact .bind .expectMark fun _ _ => .pure _

/-- A condition without a leading `!`. -/
theorem plainCond_heeds (inner : Attends .uses .cond inside) (some_name : s.names ≠ [])
    (alive : Alive K) (plain : s.lookahead.token ≠ .mark .bang) :
    Heeds (phrase .uses .cond K) (plainCond levels inside) s K := by
  have closed : Alive (rightSide K) := Alive.uses (.tok trivial alive)
  have sides {sign : Mark} : Alive (tok (.mark sign) (rightSide K)) := .tok trivial closed
  rw [phrase_cond]
  refine .peekLine (.peek fun token ahead => ?_)
  split
  · -- the bracket rules out a comparison first, and then a negation
    have negated : Alive (tok (.mark .bang) (phrase .uses .cond K)) := .tok trivial alive.uses
    refine .right some_name ahead (.phrase rfl) negated.left ?_
    refine .right some_name ahead (.tok nofun) (.tok trivial sides.left.uses) ?_
    refine .bind (.advance ahead nofun) fun _ opened => ?_
    have some_name := opened.some_name some_name
    refine .bind (inner (fun _ => some_name) sides.left (.of_not fun _ => rfl)) fun _ left => ?_
    have some_name := left.some_name some_name
    refine .peek fun token ahead => ?_
    split
    · exact .left some_name ahead (.tok nofun) sides (rightSide_heeds inner some_name alive ahead)
    · exact .right some_name ahead (.tok nofun) sides (rightSide_heeds inner some_name alive ahead)
    · next no_and no_or =>
      exact .unexpected ahead (.either (.mark no_and) (.mark no_or))
  · next no_bracket =>
    refine .left some_name ahead (.either (.mark (ahead ▸ plain)) (.mark no_bracket)) alive.uses ?_
    exact .bind (comparison_attends levels (fun _ => some_name) alive (.of_not fun _ => rfl))
      fun _ _ => .pure _

theorem condUpTo_attends (inner : Attends .uses .cond inside) (n : Nat) :
    AttendsUpTo .uses .cond (condUpTo levels inside) n := by
  induction n with
  | zero =>
    intro s K known alive _ short
    -- nothing is ahead but the end of the text, which is no `!`
    have ended : s.lookahead.token = .eof :=
      ParseState.text_eq_nil_iff.1 (List.length_eq_zero_iff.1 (Nat.le_zero.1 short))
    exact .node fun _ => plainCond_heeds inner (known rfl) alive (ended ▸ nofun)
  | succ n ih =>
    intro s K known alive ends short
    refine .node fun _ => .peek fun token ahead => ?_
    split
    · have negated : Alive (tok (.mark .bang) (phrase .uses .cond K)) := .tok trivial alive.uses
      rw [phrase_cond]
      refine .right (known rfl) ahead (.phrase rfl) negated.left ?_
      refine .left (known rfl) ahead (.tok nofun) negated ?_
      exact .peekLine (ih.chain (known rfl) alive ends ahead short)
    · next plain =>
      exact plainCond_heeds inner (known rfl) alive (ahead ▸ plain)

theorem condWith_attends (inner : Attends .uses .cond inside) :
    Attends .uses .cond (condWith levels inside) :=
  AttendsUpTo.repeating (condUpTo_attends inner)

end Conditions

theorem innerCond_attends (levels : Nat) : Attends .uses .cond (innerCond levels) := by
  induction levels with
  | zero => exact tooDeep_attends
  | succ levels ih => exact (condWith_attends ih).nested

theorem cond_attends (levels : Nat) : Attends .uses .cond (cond levels) :=
  condWith_attends (innerCond_attends levels)

/-! ### Statements -/

theorem assignment_attends (levels : Nat) : Attends .uses .assign (assignment levels) := by
  intro s K known alive _
  have closed : Alive (tok (.mark .semicolon) K) := .tok trivial alive
  rw [phrase_assign]
  refine .node fun _ => .bind (identifier_attends .uses known (.tok trivial closed.uses)
    (.of_not fun _ => rfl)) fun _ target => ?_
  refine .bind .expectMark fun _ passed => ?_
  refine .bind (expr_attends levels (passed.known (target.known known)) closed (.tok rfl))
    fun _ _ => ?_
  exact .bind .expectMark fun _ _ => .pure _

section Statements

variable {levels : Nat} {block : ParseM (StmtSeq Symbol)} {s : ParseState} {K : Future}

theorem blockEnd_heeds : Heeds (Future.blockEnd K) blockEnd s K :=
  .bind .expectKeyword fun _ _ => .expectMark

/-- The condition of a statement, between its keywords. -/
theorem guard_heeds {β : Type} {rule : Cond Symbol → ParseM β} {opening closing : Keyword}
    {expected : Expected} {F : Future} (some_name : s.names ≠ []) (alive : Alive F)
    (ahead : s.lookahead.token = .keyword opening)
    (h : ∀ c {t : ParseState}, t.names ≠ [] → Heeds F (rule c) t K) :
    Heeds (tok (.keyword opening) (phrase .uses .cond (tok (.keyword closing) F))) (do
      advance
      let c ← cond levels
      expect (.keyword closing) expected
      rule c) s K := by
  refine .bind (.advance ahead nofun) fun _ opened => ?_
  have some_name := opened.some_name some_name
  refine .bind (cond_attends levels (fun _ => some_name) (.tok trivial alive)
    (.of_not fun _ => rfl)) fun _ guarded => ?_
  refine .bind .expectKeyword fun _ closed => ?_
  exact h _ (closed.some_name (guarded.some_name some_name))

theorem conditional_heeds (inner : Attends .uses .stmtSeq block) (some_name : s.names ≠ [])
    (alive : Alive K) (ahead : s.lookahead.token = .keyword .ifWord) :
    Heeds (phrase .uses .ifStmt K) (conditional levels block) s K := by
  have closed : Alive (Future.blockEnd K) := alive.blockEnd
  have other : Alive (tok (.keyword .elseWord) (phrase .uses .stmtSeq (Future.blockEnd K))) :=
    .tok trivial closed.uses
  rw [phrase_ifStmt]
  refine .node fun _ => .peekLine (guard_heeds some_name other.left.uses ahead ?_)
  intro c t some_name
  refine .bind (inner (fun _ => some_name) other.left (.either (.tok rfl) (.tok rfl)))
    fun _ body => ?_
  have some_name := body.some_name some_name
  refine .peek fun token ahead => ?_
  split
  · refine .left some_name ahead (.tok nofun) other ?_
    refine .bind (.advance ahead nofun) fun _ passed => ?_
    refine .bind (inner (fun _ => passed.some_name some_name) closed (.tok rfl)) fun _ _ => ?_
    exact .bind blockEnd_heeds fun _ _ => .pure _
  · refine .right some_name ahead (.tok nofun) closed ?_
    exact .bind blockEnd_heeds fun _ _ => .pure _
  · next no_else no_end =>
    exact .unexpected ahead (.either (.keyword no_else) (.keyword no_end))

theorem loop_heeds (inner : Attends .uses .stmtSeq block) (some_name : s.names ≠ [])
    (alive : Alive K) (ahead : s.lookahead.token = .keyword .whileWord) :
    Heeds (phrase .uses .whileStmt K) (loop levels block) s K := by
  have closed : Alive (Future.blockEnd K) := alive.blockEnd
  rw [phrase_whileStmt]
  refine .node fun _ => .peekLine (guard_heeds some_name closed.uses ahead ?_)
  intro c t some_name
  refine .bind (inner (fun _ => some_name) closed (.tok rfl)) fun _ _ => ?_
  exact .bind blockEnd_heeds fun _ _ => .pure _

theorem transfer_heeds {word : Keyword} (some_name : s.names ≠ []) (alive : Alive K)
    (ahead : s.lookahead.token = .keyword word) :
    Heeds (tok (.keyword word) (phrase .uses .idList (tok (.mark .semicolon) K))) transfer s K := by
  have ahead : s.reserved.lookahead.token = .keyword word := ahead
  refine .node fun _ => .bind (.advance ahead nofun) fun _ passed => ?_
  refine .bind (idList_attends .uses (fun _ => passed.some_name some_name) (.tok trivial alive)
    (.tok rfl)) fun _ _ => ?_
  exact .bind .expectMark fun _ _ => .pure _

/-- The token ahead tells which kind of statement may follow. -/
theorem Heeds.statement {α : Type} {rule : ParseM α} {H : Future} {token : Token} (tag : Tag)
    (some_name : s.names ≠ []) (ahead : s.lookahead.token = token) (among : tag ∈ Tag.statements)
    (only : ∀ other ∈ Tag.statements, other ≠ tag → other.opens token.terminal = false)
    (alive : Alive K) (h : Heeds (phrase .uses tag K) rule s H) :
    Heeds (phrase .uses .stmt K) rule s H := by
  refine .narrow ?_ ?_ (fun sane => alive.uses _ (sane.proper some_name)) h
  · exact fun v follows => phrase_stmt_iff.2 ⟨tag, among, follows⟩
  · intro v begins follows
    obtain ⟨other, among', follows⟩ := phrase_stmt_iff.1 follows
    obtain ⟨v, rfl⟩ := List.head?_eq_some_iff.1 begins
    subst ahead
    by_cases same : other = tag
    · exact same ▸ follows
    · exact absurd follows (Misses.phrase (only other among' same) _ _)

theorem stmtWith_attends (inner : Attends .uses .stmtSeq block) :
    Attends .uses .stmt (stmtWith levels block) := by
  intro s K known alive _
  have some_name := known rfl
  refine .node fun _ => .peekLine (.peek fun token ahead => ?_)
  split
  · refine .statement .assign some_name ahead (by decide) ?_ alive ?_
    · intro other among different
      cases other with
      | assign => exact absurd rfl different
      | ifStmt | whileStmt | input | output => rfl
      | _ => exact absurd among (by decide)
    · exact assignment_attends levels known alive (.of_not fun _ => rfl)
  · refine .statement .ifStmt some_name ahead (by decide) (by decide) alive ?_
    exact conditional_heeds inner some_name alive ahead
  · refine .statement .whileStmt some_name ahead (by decide) (by decide) alive ?_
    exact loop_heeds inner some_name alive ahead
  · refine .statement .input some_name ahead (by decide) (by decide) alive ?_
    rw [phrase_input]
    exact .bind (transfer_heeds some_name alive ahead) fun _ _ => .pure _
  · refine .statement .output some_name ahead (by decide) (by decide) alive ?_
    rw [phrase_output]
    exact .bind (transfer_heeds some_name alive ahead) fun _ _ => .pure _
  · next no_name no_if no_while no_read no_write =>
    refine .unexpected ahead (.phrase ?_)
    cases token with
    | identifier name => exact absurd rfl (no_name name)
    | keyword word =>
      cases word with
      | ifWord => exact absurd rfl no_if
      | whileWord => exact absurd rfl no_while
      | readWord => exact absurd rfl no_read
      | writeWord => exact absurd rfl no_write
      | _ => rfl
    | _ => rfl

theorem stmtSeqUpTo_attends
    (sound : Sound .uses 1 (fun a : StmtSeq Symbol => a.derivation.shape) block)
    (inner : Attends .uses .stmtSeq block) (n : Nat) :
    AttendsUpTo .uses .stmtSeq (stmtSeqUpTo levels block) n := by
  induction n with
  | zero =>
    intro s K known alive ends short
    rw [phrase_stmtSeq]
    exact .node fun _ => .never (stmtWith_sound sound)
      (stmtWith_attends inner known alive.left (.of_not fun _ => rfl)) short
  | succ n ih =>
    intro s K known alive ends short
    rw [phrase_stmtSeq]
    refine .node fun _ => .bind (stmtWith_attends inner known alive.left (.of_not fun _ => rfl))
      fun one onward => ?_
    have some_name := onward.some_name (known rfl)
    have fewer := (stmtWith_sound sound).length_lt onward.started.ready one
    refine .peek fun token ahead => ?_
    split
    · next starts =>
      rw [Token.startsStatement_eq] at starts
      refine .right some_name ahead (ends starts) alive.uses ?_
      refine .bind (ih (fun _ => some_name) alive ends ?_) fun _ _ => .pure _
      exact Nat.le_of_lt_succ (Nat.lt_of_lt_of_le fewer short)
    · next ended =>
      rw [Token.startsStatement_eq, Bool.not_eq_true] at ended
      exact .left some_name ahead (.phrase ended) alive (.pure _)

theorem stmtSeqWith_attends
    (sound : Sound .uses 1 (fun a : StmtSeq Symbol => a.derivation.shape) block)
    (inner : Attends .uses .stmtSeq block) :
    Attends .uses .stmtSeq (stmtSeqWith levels block) :=
  AttendsUpTo.repeating (stmtSeqUpTo_attends sound inner)

end Statements

theorem innerBlock_attends (levels : Nat) : Attends .uses .stmtSeq (innerBlock levels) := by
  induction levels with
  | zero => exact tooDeep_attends
  | succ levels ih => exact (stmtSeqWith_attends (innerBlock_sound levels) ih).nested

theorem stmtSeq_attends (levels : Nat) : Attends .uses .stmtSeq (stmtSeq levels) :=
  stmtSeqWith_attends (innerBlock_sound levels) (innerBlock_attends levels)

/-! ### Programs -/

/-- What may follow at the start of a text. -/
def wholeText : Future :=
  tok (.keyword .programWord) (phrase .declares .declSeq (tok (.keyword .beginWord)
    (phrase .uses .stmtSeq (tok (.keyword .endWord) done))))

theorem program_heeds {s : ParseState} : Heeds wholeText program s done := by
  have closed : Alive (tok (.keyword .endWord) done) := .tok trivial .done
  refine .node fun _ => .peekLine (.bind .expectKeyword fun _ _ => ?_)
  refine .bind (declSeq_attends nofun (.tok trivial closed.uses) (.tok rfl)) fun read declared => ?_
  have some_name := declSeq_sound.some_name Derivation.vars_declSeq_ne_nil declared.started.ready read
  refine .bind .expectKeyword fun _ begun => ?_
  refine .bind (stmtSeq_attends maxNesting (fun _ => begun.some_name some_name) closed (.tok rfl))
    fun _ _ => ?_
  refine .bind .expectKeyword fun _ _ => ?_
  exact .bind .nothingMore fun _ _ => .pure _

end CoreLang.ParseM
