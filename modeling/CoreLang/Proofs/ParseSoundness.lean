import CoreLang.Proofs.ParseSteps

/-!
# What a rule accepts is derived

If a rule of the grammar succeeds, the tokens it took are the yield of a derivation,
with as many nodes as it settled, and its result is that derivation with symbols in
the place of names.
-/

namespace CoreLang.ParseM

/-- The results of a rule, seen by `view`, are derivations of the text it takes. The
whole stretch lies `extra` levels further in than where it starts. -/
def Sound {α : Type} {tag : Tag} (site : Site) (extra : Nat)
    (view : α → Derivation Unit Symbol tag) (rule : ParseM α) : Prop :=
  ∀ ⦃s : ParseState⦄ ⦃a : α⦄ ⦃s' : ParseState⦄, s.Ready → rule s = .ok a s' →
    ∃ d : Derivation Unit String tag,
      Passes site s d.yield d.size d.vars (d.nesting + extra) s' ∧
        view a = d.rename s'.symbols.index

section

variable {α : Type} {tag : Tag} {site : Site} {view : α → Derivation Unit Symbol tag}

/-- How often a rule may repeat itself makes no difference to what it has accepted. -/
theorem Sound.repeating {rule : Nat → ParseM α} (h : ∀ n, Sound site 0 view (rule n)) :
    Sound site 0 view (repeating rule) :=
  fun s _ _ ready accepted => h s.tokenCount ready accepted

/-- Inside brackets, parentheses or a block the whole derivation lies one level further in. -/
theorem Sound.nested {rule : ParseM α} (h : Sound site 0 view rule) :
    Sound site 1 view (nested rule) := by
  intro s a s' ready accepted
  obtain ⟨free, t, inner, rfl⟩ := nested_eq_ok.1 accepted
  obtain ⟨d, passes, same⟩ := h (ready.entered free) inner
  exact ⟨d, passes.nested, same⟩

/-- Where no level is left nothing is accepted. -/
theorem tooDeep_sound : Sound site 1 view tooDeep := by
  intro s a s' ready accepted
  cases accepted

/-- A list, a product or a sum goes on behind its first part `d`: with a mark and the
rest of it. -/
theorem Sound.chain {β : Type} {first : Tag} {rule : ParseM α} {f : α → β} {b : β} {sign : Mark}
    {s t s' : ParseState} {d : Derivation Unit String first} (sound : Sound site 0 view rule)
    (passes : Passes site s d.yield d.size d.vars (d.nesting + 0) t)
    (ahead : t.lookahead.token = .mark sign)
    (accepted : (do advance; let a ← rule; return f a) t = .ok b s') :
    ∃ (a : α) (e : Derivation Unit String tag), f a = b ∧
      Passes site s (d.yield ++ .mark sign :: e.yield) (d.size + e.size) (d.vars ++ e.vars)
        (max d.nesting e.nesting) s' ∧
      d.rename t.symbols.index = d.rename s'.symbols.index ∧
      view a = e.rename s'.symbols.index := by
  obtain ⟨_, t₁, step, h⟩ := bind_eq_ok.1 accepted
  obtain ⟨a, t₂, others, h⟩ := bind_eq_ok.1 h
  obtain ⟨same, rfl⟩ := pure_eq_ok.1 h
  have joins := advance_passes site passes.ready (by simp [ahead]) step
  obtain ⟨e, passes', view'⟩ := sound joins.ready others
  refine ⟨a, e, same, ?_, ?_, view'⟩
  · simpa [ahead, Token.terminal] using (passes.trans joins).trans passes'
  · exact (joins.trans passes').rename_index fun x hx => passes.mem_symbols hx

end

/-! ### Names and declarations -/

/-- A name. Its symbol is the one that the table has for it behind the rule, also where the
rule has just declared it. -/
theorem identifier_sound (site : Site) :
    Sound site 0 (fun a : Ident Symbol => a.derivation.shape) (identifier site) := by
  intro s a s' ready accepted
  obtain ⟨free, t, h, rfl⟩ := node_eq_ok.1 accepted
  obtain ⟨_, _, seen, h⟩ := bind_eq_ok.1 h
  obtain ⟨token, rfl⟩ := peek_eq_ok.1 seen
  split at h
  · next name =>
    obtain ⟨line, _, lined, h⟩ := bind_eq_ok.1 h
    obtain ⟨rfl, rfl⟩ := peekLine_eq_ok.1 lined
    obtain ⟨symbol, t₁, bound, h⟩ := bind_eq_ok.1 h
    obtain ⟨_, t₂, step, h⟩ := bind_eq_ok.1 h
    obtain ⟨rfl, rfl⟩ := pure_eq_ok.1 h
    obtain ⟨binds, rfl, ahead⟩ := bindName_passes (ready.reserved free) bound
    have takes : Passes site t₁ [.identifier name] 0 [] 0 t₂ := by
      have := advance_passes site binds.ready (by simp [ahead, token]) step
      simpa [ahead, token, Token.terminal] using this
    refine ⟨.ident () name, by simpa using (binds.trans takes).node, ?_⟩
    have same : t₂.symbols = t₁.symbols := takes.symbols_eq_of_nil
    simp [Ident.derivation, ParseState.settled, same]
  · exact absurd h unexpected_ne_ok

/-- A list of names, by induction on the bound: the rest of the list is read with one less. -/
theorem idListUpTo_sound (site : Site) (n : Nat) :
    Sound site 0 (fun a : IdList Symbol => a.derivation.shape) (idListUpTo site n) := by
  induction n with
  | zero =>
    intro s a s' ready accepted
    obtain ⟨free, t, h, rfl⟩ := node_eq_ok.1 accepted
    obtain ⟨id, t₁, first, h⟩ := bind_eq_ok.1 h
    obtain ⟨rfl, rfl⟩ := pure_eq_ok.1 h
    obtain ⟨d, passes, view⟩ := identifier_sound site (ready.reserved free) first
    refine ⟨.idListLast () d, by simpa using passes.node, ?_⟩
    simp [IdList.derivation, ParseState.settled, view]
  | succ n ih =>
    intro s a s' ready accepted
    obtain ⟨free, t, h, rfl⟩ := node_eq_ok.1 accepted
    obtain ⟨id, t₁, first, h⟩ := bind_eq_ok.1 h
    obtain ⟨d, passes, view⟩ := identifier_sound site (ready.reserved free) first
    obtain ⟨_, _, seen, h⟩ := bind_eq_ok.1 h
    obtain ⟨token, rfl⟩ := peek_eq_ok.1 seen
    split at h
    · obtain ⟨rest, e, rfl, passes', kept, view'⟩ := ih.chain passes token h
      refine ⟨.idListCons () d e, by simpa using passes'.node, ?_⟩
      simp [IdList.derivation, ParseState.settled, view, kept, view']
    · obtain ⟨rfl, rfl⟩ := pure_eq_ok.1 h
      refine ⟨.idListLast () d, by simpa using passes.node, ?_⟩
      simp [IdList.derivation, ParseState.settled, view]

theorem idList_sound (site : Site) :
    Sound site 0 (fun a : IdList Symbol => a.derivation.shape) (idList site) :=
  .repeating (idListUpTo_sound site)

/-- A declaration: `int`, new names and a semicolon. -/
theorem decl_sound : Sound .declares 0 (fun a : Decl Symbol => a.derivation.shape) decl := by
  intro s a s' ready accepted
  obtain ⟨free, t, h, rfl⟩ := node_eq_ok.1 accepted
  obtain ⟨line, _, lined, h⟩ := bind_eq_ok.1 h
  obtain ⟨rfl, rfl⟩ := peekLine_eq_ok.1 lined
  obtain ⟨_, t₁, word, h⟩ := bind_eq_ok.1 h
  obtain ⟨ids, t₂, list, h⟩ := bind_eq_ok.1 h
  obtain ⟨_, t₃, semicolon, h⟩ := bind_eq_ok.1 h
  obtain ⟨rfl, rfl⟩ := pure_eq_ok.1 h
  have word := expect_passes .declares (ready.reserved free) (by simp) word
  obtain ⟨d, passes, view⟩ := idList_sound .declares word.ready list
  have semicolon := expect_passes .declares passes.ready (by simp) semicolon
  refine ⟨.decl () d, ?_, ?_⟩
  · simpa [Token.terminal] using ((word.trans passes).trans semicolon).node
  · simp [Decl.derivation, ParseState.settled, view, semicolon.symbols_eq_of_nil]

/-- A sequence of declarations goes on while `int` is ahead. The later ones add to the table,
and the names of the first keep their symbols. -/
theorem declSeqUpTo_sound (n : Nat) :
    Sound .declares 0 (fun a : DeclSeq Symbol => a.derivation.shape) (declSeqUpTo n) := by
  induction n with
  | zero =>
    intro s a s' ready accepted
    obtain ⟨free, t, h, rfl⟩ := node_eq_ok.1 accepted
    obtain ⟨first, t₁, one, h⟩ := bind_eq_ok.1 h
    obtain ⟨rfl, rfl⟩ := pure_eq_ok.1 h
    obtain ⟨d, passes, view⟩ := decl_sound (ready.reserved free) one
    refine ⟨.declSeqLast () d, by simpa using passes.node, ?_⟩
    simp [DeclSeq.derivation, ParseState.settled, view]
  | succ n ih =>
    intro s a s' ready accepted
    obtain ⟨free, t, h, rfl⟩ := node_eq_ok.1 accepted
    obtain ⟨first, t₁, one, h⟩ := bind_eq_ok.1 h
    obtain ⟨d, passes, view⟩ := decl_sound (ready.reserved free) one
    obtain ⟨_, _, seen, h⟩ := bind_eq_ok.1 h
    obtain ⟨token, rfl⟩ := peek_eq_ok.1 seen
    split at h
    · obtain ⟨rest, t₂, others, h⟩ := bind_eq_ok.1 h
      obtain ⟨rfl, rfl⟩ := pure_eq_ok.1 h
      obtain ⟨e, passes', view'⟩ := ih passes.ready others
      have kept := passes'.rename_index fun x hx => passes.mem_symbols hx
      refine ⟨.declSeqCons () d e, by simpa using (passes.trans passes').node, ?_⟩
      simp [DeclSeq.derivation, ParseState.settled, view, view', kept]
    · obtain ⟨rfl, rfl⟩ := pure_eq_ok.1 h
      refine ⟨.declSeqLast () d, by simpa using passes.node, ?_⟩
      simp [DeclSeq.derivation, ParseState.settled, view]

theorem declSeq_sound :
    Sound .declares 0 (fun a : DeclSeq Symbol => a.derivation.shape) declSeq :=
  .repeating declSeqUpTo_sound

/-! ### Expressions -/

section Expressions

variable {inside : ParseM (Expr Symbol)}

/-- An operand, with a rule for the inside of parentheses that is sound one level further in. A
literal is two nodes, the leaf and the operand. -/
theorem operandWith_sound
    (inner : Sound .uses 1 (fun a : Expr Symbol => a.derivation.shape) inside) :
    Sound .uses 0 (fun a : Operand Symbol => a.derivation.shape) (operandWith inside) := by
  intro s a s' ready accepted
  obtain ⟨free, t, h, rfl⟩ := node_eq_ok.1 accepted
  obtain ⟨line, _, lined, h⟩ := bind_eq_ok.1 h
  obtain ⟨rfl, rfl⟩ := peekLine_eq_ok.1 lined
  obtain ⟨_, _, seen, h⟩ := bind_eq_ok.1 h
  obtain ⟨token, rfl⟩ := peek_eq_ok.1 seen
  split at h
  · next digits =>
    obtain ⟨_, t₁, leaf, h⟩ := bind_eq_ok.1 h
    obtain ⟨rfl, rfl⟩ := pure_eq_ok.1 h
    obtain ⟨free', t₂, step, rfl⟩ := node_eq_ok.1 leaf
    have takes := advance_passes .uses ((ready.reserved free).reserved free')
      (by simp [ParseState.reserved] at token; simp [ParseState.reserved, token]) step
    refine ⟨.operandInt () (.int () (Token.literal digits)), ?_, ?_⟩
    · simp only [ParseState.reserved] at token
      simpa [ParseState.reserved, token, Token.terminal] using takes.node.node
    · simp [Operand.derivation]
  · obtain ⟨id, t₁, name, h⟩ := bind_eq_ok.1 h
    obtain ⟨rfl, rfl⟩ := pure_eq_ok.1 h
    obtain ⟨d, passes, view⟩ := identifier_sound .uses (ready.reserved free) name
    refine ⟨.operandIdent () d, by simpa using passes.node, ?_⟩
    simp [Operand.derivation, ParseState.settled, view]
  · obtain ⟨_, t₁, step, h⟩ := bind_eq_ok.1 h
    obtain ⟨e, t₂, parse, h⟩ := bind_eq_ok.1 h
    obtain ⟨_, t₃, close, h⟩ := bind_eq_ok.1 h
    obtain ⟨rfl, rfl⟩ := pure_eq_ok.1 h
    have opening := advance_passes .uses (ready.reserved free) (by simp [token]) step
    obtain ⟨d, passes, view⟩ := inner opening.ready parse
    have close := expect_passes .uses passes.ready (by simp) close
    refine ⟨.operandParen () d, ?_, ?_⟩
    · simpa [token, Token.terminal] using ((opening.trans passes).trans close).node
    · simp [Operand.derivation, ParseState.settled, view, close.symbols_eq]
  · exact absurd h unexpected_ne_ok

/-- A product, by induction on the bound. -/
theorem termUpTo_sound
    (inner : Sound .uses 1 (fun a : Expr Symbol => a.derivation.shape) inside) (n : Nat) :
    Sound .uses 0 (fun a : Term Symbol => a.derivation.shape) (termUpTo inside n) := by
  induction n with
  | zero =>
    intro s a s' ready accepted
    obtain ⟨free, t, h, rfl⟩ := node_eq_ok.1 accepted
    obtain ⟨o, t₁, one, h⟩ := bind_eq_ok.1 h
    obtain ⟨rfl, rfl⟩ := pure_eq_ok.1 h
    obtain ⟨d, passes, view⟩ := operandWith_sound inner (ready.reserved free) one
    refine ⟨.termOperand () d, by simpa using passes.node, ?_⟩
    simp [Term.derivation, ParseState.settled, view]
  | succ n ih =>
    intro s a s' ready accepted
    obtain ⟨free, t, h, rfl⟩ := node_eq_ok.1 accepted
    obtain ⟨o, t₁, one, h⟩ := bind_eq_ok.1 h
    obtain ⟨d, passes, view⟩ := operandWith_sound inner (ready.reserved free) one
    obtain ⟨_, _, seen, h⟩ := bind_eq_ok.1 h
    obtain ⟨token, rfl⟩ := peek_eq_ok.1 seen
    split at h
    · obtain ⟨rest, e, rfl, passes', kept, view'⟩ := ih.chain passes token h
      refine ⟨.termMul () d e, by simpa using passes'.node, ?_⟩
      simp [Term.derivation, ParseState.settled, view, kept, view']
    · obtain ⟨rfl, rfl⟩ := pure_eq_ok.1 h
      refine ⟨.termOperand () d, by simpa using passes.node, ?_⟩
      simp [Term.derivation, ParseState.settled, view]

theorem termWith_sound
    (inner : Sound .uses 1 (fun a : Expr Symbol => a.derivation.shape) inside) :
    Sound .uses 0 (fun a : Term Symbol => a.derivation.shape) (termWith inside) :=
  .repeating (termUpTo_sound inner)

/-- A sum, by induction on the bound. Plus and minus differ only in the production. -/
theorem exprUpTo_sound
    (inner : Sound .uses 1 (fun a : Expr Symbol => a.derivation.shape) inside) (n : Nat) :
    Sound .uses 0 (fun a : Expr Symbol => a.derivation.shape) (exprUpTo inside n) := by
  induction n with
  | zero =>
    intro s a s' ready accepted
    obtain ⟨free, t, h, rfl⟩ := node_eq_ok.1 accepted
    obtain ⟨u, t₁, one, h⟩ := bind_eq_ok.1 h
    obtain ⟨rfl, rfl⟩ := pure_eq_ok.1 h
    obtain ⟨d, passes, view⟩ := termWith_sound inner (ready.reserved free) one
    refine ⟨.exprTerm () d, by simpa using passes.node, ?_⟩
    simp [Expr.derivation, ParseState.settled, view]
  | succ n ih =>
    intro s a s' ready accepted
    obtain ⟨free, t, h, rfl⟩ := node_eq_ok.1 accepted
    obtain ⟨u, t₁, one, h⟩ := bind_eq_ok.1 h
    obtain ⟨d, passes, view⟩ := termWith_sound inner (ready.reserved free) one
    obtain ⟨_, _, seen, h⟩ := bind_eq_ok.1 h
    obtain ⟨token, rfl⟩ := peek_eq_ok.1 seen
    split at h
    · obtain ⟨rest, e, rfl, passes', kept, view'⟩ := ih.chain passes token h
      refine ⟨.exprAdd () d e, by simpa using passes'.node, ?_⟩
      simp [Expr.derivation, ParseState.settled, view, kept, view']
    · obtain ⟨rest, e, rfl, passes', kept, view'⟩ := ih.chain passes token h
      refine ⟨.exprSub () d e, by simpa using passes'.node, ?_⟩
      simp [Expr.derivation, ParseState.settled, view, kept, view']
    · obtain ⟨rfl, rfl⟩ := pure_eq_ok.1 h
      refine ⟨.exprTerm () d, by simpa using passes.node, ?_⟩
      simp [Expr.derivation, ParseState.settled, view]

theorem exprWith_sound
    (inner : Sound .uses 1 (fun a : Expr Symbol => a.derivation.shape) inside) :
    Sound .uses 0 (fun a : Expr Symbol => a.derivation.shape) (exprWith inside) :=
  .repeating (exprUpTo_sound inner)

end Expressions

/-- The inside of parentheses, by induction on the levels that may still be entered: this ties
the knot between operands and expressions. -/
theorem innerExpr_sound (levels : Nat) :
    Sound .uses 1 (fun a : Expr Symbol => a.derivation.shape) (innerExpr levels) := by
  induction levels with
  | zero => exact tooDeep_sound
  | succ levels ih => exact (exprWith_sound ih).nested

theorem operand_sound (levels : Nat) :
    Sound .uses 0 (fun a : Operand Symbol => a.derivation.shape) (operand levels) :=
  operandWith_sound (innerExpr_sound levels)

/-- Expressions, at any number of levels. -/
theorem expr_sound (levels : Nat) :
    Sound .uses 0 (fun a : Expr Symbol => a.derivation.shape) (expr levels) :=
  exprWith_sound (innerExpr_sound levels)

/-! ### Conditions -/

/-- A token that stands for a comparison is its sign. -/
theorem comparator?_eq_some {token : Token} {op : Comparator} (h : comparator? token = some op) :
    token = .mark op.sign := by
  unfold comparator? at h
  split at h <;> cases h <;> rfl

/-- The sign of a comparison is a node of its own. -/
theorem compOp_sound :
    Sound .uses 0 (fun op : Comparator => (.compOp () op : Derivation Unit Symbol .compOp))
      compOp := by
  intro s a s' ready accepted
  obtain ⟨free, t, h, rfl⟩ := node_eq_ok.1 accepted
  obtain ⟨sign, _, seen, h⟩ := bind_eq_ok.1 h
  obtain ⟨token, rfl⟩ := peek_eq_ok.1 seen
  cases told : comparator? sign with
  | none =>
    rw [told] at h
    exact absurd h unexpected_ne_ok
  | some op =>
    rw [told] at h
    obtain ⟨_, t₁, step, h⟩ := bind_eq_ok.1 h
    obtain ⟨rfl, rfl⟩ := pure_eq_ok.1 h
    have token := token.trans (comparator?_eq_some told)
    have takes := advance_passes .uses (ready.reserved free) (by simp [token]) step
    refine ⟨.compOp () op, ?_, rfl⟩
    simpa [token, Token.terminal] using takes.node

/-- A comparison: two operands and a sign between parentheses, which enter no level. -/
theorem comparison_sound (levels : Nat) :
    Sound .uses 0 (fun a : Comparison Symbol => a.derivation.shape) (comparison levels) := by
  intro s a s' ready accepted
  obtain ⟨free, t, h, rfl⟩ := node_eq_ok.1 accepted
  obtain ⟨line, _, lined, h⟩ := bind_eq_ok.1 h
  obtain ⟨rfl, rfl⟩ := peekLine_eq_ok.1 lined
  obtain ⟨_, t₁, opening, h⟩ := bind_eq_ok.1 h
  obtain ⟨left, t₂, one, h⟩ := bind_eq_ok.1 h
  obtain ⟨opLine, _, lined, h⟩ := bind_eq_ok.1 h
  obtain ⟨rfl, rfl⟩ := peekLine_eq_ok.1 lined
  obtain ⟨op, t₃, sign, h⟩ := bind_eq_ok.1 h
  obtain ⟨right, t₄, two, h⟩ := bind_eq_ok.1 h
  obtain ⟨_, t₅, closing, h⟩ := bind_eq_ok.1 h
  obtain ⟨rfl, rfl⟩ := pure_eq_ok.1 h
  have opening := expect_passes .uses (ready.reserved free) (by simp) opening
  obtain ⟨d, passes₁, view₁⟩ := operand_sound levels opening.ready one
  obtain ⟨o, passes₂, view₂⟩ := compOp_sound passes₁.ready sign
  obtain ⟨e, passes₃, view₃⟩ := operand_sound levels passes₂.ready two
  have closing := expect_passes .uses passes₃.ready (by simp) closing
  refine ⟨.comparison () d o e, ?_, ?_⟩
  · have all := (((opening.trans passes₁).trans passes₂).trans passes₃).trans closing
    simpa [Token.terminal, Nat.max_assoc] using all.node
  · have view₂ : (.compOp () op : Derivation Unit Symbol .compOp) = o.rename _ := view₂
    simp [Comparison.derivation, ParseState.settled, view₁, view₂, view₃, passes₂.symbols_eq,
      passes₃.symbols_eq, closing.symbols_eq]

section Conditions

variable {levels : Nat} {inside : ParseM (Cond Symbol)}

/-- A bracketed condition behind its left side `d`. -/
theorem rightSide_sound {f : Cond Symbol → Cond Symbol} {a : Cond Symbol} {sign : Mark}
    {s t s' : ParseState} {d : Derivation Unit String .cond}
    (inner : Sound .uses 1 (fun a : Cond Symbol => a.derivation.shape) inside)
    (passes : Passes .uses s (.mark .openBracket :: d.yield) d.size d.vars (d.nesting + 1) t)
    (ahead : t.lookahead.token = .mark sign)
    (accepted : (do
      advance
      let right ← inside
      expect (.mark .closeBracket) .closeBracket
      return f right) t = .ok a s') :
    ∃ (right : Cond Symbol) (e : Derivation Unit String .cond), f right = a ∧
      Passes .uses s (.mark .openBracket :: (d.yield ++ .mark sign :: (e.yield ++
        [.mark .closeBracket]))) (d.size + e.size) (d.vars ++ e.vars)
        (max (d.nesting + 1) (e.nesting + 1)) s' ∧
      s'.symbols = t.symbols ∧ right.derivation.shape = e.rename s'.symbols.index := by
  obtain ⟨_, t₁, step, h⟩ := bind_eq_ok.1 accepted
  obtain ⟨right, t₂, two, h⟩ := bind_eq_ok.1 h
  obtain ⟨_, t₃, closing, h⟩ := bind_eq_ok.1 h
  obtain ⟨same, rfl⟩ := pure_eq_ok.1 h
  have joins := advance_passes .uses passes.ready (by simp [ahead]) step
  obtain ⟨e, passes', view⟩ := inner joins.ready two
  have closing := expect_passes .uses passes'.ready (by simp) closing
  refine ⟨right, e, same, ?_, ((joins.trans passes').trans closing).symbols_eq, ?_⟩
  · simpa [ahead, Token.terminal] using ((passes.trans joins).trans passes').trans closing
  · simpa [closing.symbols_eq] using view

/-- A condition without a leading `!`, before its node is settled. -/
theorem plainCond_sound
    (inner : Sound .uses 1 (fun a : Cond Symbol => a.derivation.shape) inside)
    {s s' : ParseState} {a : Cond Symbol} (ready : s.Ready)
    (accepted : plainCond levels inside s = .ok a s') :
    ∃ (d : Derivation Unit String .cond) (n : Nat), d.size = n + 1 ∧
      Passes .uses s d.yield n d.vars d.nesting s' ∧
        a.derivation.shape = d.rename s'.symbols.index := by
  obtain ⟨line, _, lined, h⟩ := bind_eq_ok.1 accepted
  obtain ⟨rfl, rfl⟩ := peekLine_eq_ok.1 lined
  obtain ⟨_, _, seen, h⟩ := bind_eq_ok.1 h
  obtain ⟨token, rfl⟩ := peek_eq_ok.1 seen
  split at h
  · obtain ⟨_, t₁, step, h⟩ := bind_eq_ok.1 h
    obtain ⟨left, t₂, one, h⟩ := bind_eq_ok.1 h
    have opening := advance_passes .uses ready (by simp [token]) step
    obtain ⟨d, passes, view⟩ := inner opening.ready one
    have opened : Passes .uses s (.mark .openBracket :: d.yield) d.size d.vars (d.nesting + 1)
        t₂ := by
      simpa [token, Token.terminal] using opening.trans passes
    obtain ⟨_, _, seen, h⟩ := bind_eq_ok.1 h
    obtain ⟨ahead, rfl⟩ := peek_eq_ok.1 seen
    split at h
    · obtain ⟨right, e, rfl, passes', table, view'⟩ := rightSide_sound inner opened ahead h
      refine ⟨.condAnd () d e, d.size + e.size, rfl, by simpa using passes', ?_⟩
      simp [Cond.derivation, view, view', table]
    · obtain ⟨right, e, rfl, passes', table, view'⟩ := rightSide_sound inner opened ahead h
      refine ⟨.condOr () d e, d.size + e.size, rfl, by simpa using passes', ?_⟩
      simp [Cond.derivation, view, view', table]
    · exact absurd h unexpected_ne_ok
  · obtain ⟨c, t₁, one, h⟩ := bind_eq_ok.1 h
    obtain ⟨rfl, rfl⟩ := pure_eq_ok.1 h
    obtain ⟨d, passes, view⟩ := comparison_sound levels ready one
    exact ⟨.condCompare () d, d.size, rfl, by simpa using passes, by simp [Cond.derivation, view]⟩

/-- A condition, by induction on the bound. Each `!` settles a node, and behind the last one
stands a condition without it. -/
theorem condUpTo_sound
    (inner : Sound .uses 1 (fun a : Cond Symbol => a.derivation.shape) inside) (n : Nat) :
    Sound .uses 0 (fun a : Cond Symbol => a.derivation.shape) (condUpTo levels inside n) := by
  induction n with
  | zero =>
    intro s a s' ready accepted
    obtain ⟨free, t, h, rfl⟩ := node_eq_ok.1 accepted
    obtain ⟨d, n, size, passes, view⟩ := plainCond_sound inner (ready.reserved free) h
    exact ⟨d, size ▸ passes.node, view⟩
  | succ n ih =>
    intro s a s' ready accepted
    obtain ⟨free, t, h, rfl⟩ := node_eq_ok.1 accepted
    obtain ⟨_, _, seen, h⟩ := bind_eq_ok.1 h
    obtain ⟨token, rfl⟩ := peek_eq_ok.1 seen
    split at h
    · obtain ⟨line, _, lined, h⟩ := bind_eq_ok.1 h
      obtain ⟨rfl, rfl⟩ := peekLine_eq_ok.1 lined
      obtain ⟨_, t₁, step, h⟩ := bind_eq_ok.1 h
      obtain ⟨c, t₂, one, h⟩ := bind_eq_ok.1 h
      obtain ⟨rfl, rfl⟩ := pure_eq_ok.1 h
      have bang := advance_passes .uses (ready.reserved free) (by simp [token]) step
      obtain ⟨d, passes, view⟩ := ih bang.ready one
      refine ⟨.condNot () d, ?_, by simp [Cond.derivation, ParseState.settled, view]⟩
      simpa [token, Token.terminal] using (bang.trans passes).node
    · obtain ⟨d, n, size, passes, view⟩ := plainCond_sound inner (ready.reserved free) h
      exact ⟨d, size ▸ passes.node, view⟩

theorem condWith_sound
    (inner : Sound .uses 1 (fun a : Cond Symbol => a.derivation.shape) inside) :
    Sound .uses 0 (fun a : Cond Symbol => a.derivation.shape) (condWith levels inside) :=
  .repeating (condUpTo_sound inner)

end Conditions

/-- The inside of brackets, by induction on the levels that may still be entered. -/
theorem innerCond_sound (levels : Nat) :
    Sound .uses 1 (fun a : Cond Symbol => a.derivation.shape) (innerCond levels) := by
  induction levels with
  | zero => exact tooDeep_sound
  | succ levels ih => exact (condWith_sound ih).nested

theorem cond_sound (levels : Nat) :
    Sound .uses 0 (fun a : Cond Symbol => a.derivation.shape) (cond levels) :=
  condWith_sound (innerCond_sound levels)

/-! ### Statements -/

/-- An assignment. Its node lies inside that of the statement, which is not settled here. -/
theorem assignment_sound (levels : Nat) {s s' : ParseState} {a : Stmt Symbol} (ready : s.Ready)
    (accepted : assignment levels s = .ok a s') :
    ∃ d : Derivation Unit String .assign, Passes .uses s d.yield d.size d.vars d.nesting s' ∧
      a.derivation.shape = .stmtAssign () (d.rename s'.symbols.index) := by
  obtain ⟨free, t, h, rfl⟩ := node_eq_ok.1 accepted
  obtain ⟨target, t₁, name, h⟩ := bind_eq_ok.1 h
  obtain ⟨_, t₂, sign, h⟩ := bind_eq_ok.1 h
  obtain ⟨value, t₃, right, h⟩ := bind_eq_ok.1 h
  obtain ⟨_, t₄, semicolon, h⟩ := bind_eq_ok.1 h
  obtain ⟨rfl, rfl⟩ := pure_eq_ok.1 h
  obtain ⟨d, passes, view⟩ := identifier_sound .uses (ready.reserved free) name
  have sign := expect_passes .uses passes.ready (by simp) sign
  obtain ⟨e, passes', view'⟩ := expr_sound levels sign.ready right
  have semicolon := expect_passes .uses passes'.ready (by simp) semicolon
  refine ⟨.assign () d e, ?_, ?_⟩
  · have all := ((passes.trans sign).trans passes').trans semicolon
    simpa [Token.terminal] using all.node
  · simp [Stmt.derivation, ParseState.settled, view, view', sign.symbols_eq, passes'.symbols_eq,
      semicolon.symbols_eq]

/-- The end of a block takes two tokens and makes no node. -/
theorem blockEnd_passes {s s' : ParseState} (ready : s.Ready) (accepted : blockEnd s = .ok () s') :
    Passes .uses s [.keyword .endWord, .mark .semicolon] 0 [] 0 s' := by
  obtain ⟨_, t, closing, semicolon⟩ := bind_eq_ok.1 accepted
  have closing := expect_passes .uses ready (by simp) closing
  have semicolon := expect_passes .uses closing.ready (by simp) semicolon
  simpa [Token.terminal] using closing.trans semicolon

section Statements

variable {levels : Nat} {block : ParseM (StmtSeq Symbol)} {s s' : ParseState} {a : Stmt Symbol}

/-- What an `if` or a `while` begins with: a condition between two keywords. -/
theorem guard_sound {β : Type} {rule : Cond Symbol → ParseM β} {b : β} {opening closing : Keyword}
    {expected : Expected} (ready : s.Ready) (ahead : s.lookahead.token = .keyword opening)
    (accepted : (do
      advance
      let c ← cond levels
      expect (.keyword closing) expected
      rule c) s = .ok b s') :
    ∃ (c : Cond Symbol) (d : Derivation Unit String .cond) (t : ParseState), rule c t = .ok b s' ∧
      Passes .uses s (.keyword opening :: (d.yield ++ [.keyword closing])) d.size d.vars
        d.nesting t ∧ c.derivation.shape = d.rename t.symbols.index := by
  obtain ⟨_, t₁, step, h⟩ := bind_eq_ok.1 accepted
  obtain ⟨c, t₂, test, h⟩ := bind_eq_ok.1 h
  obtain ⟨_, t₃, word, h⟩ := bind_eq_ok.1 h
  have start := advance_passes .uses ready (by simp [ahead]) step
  obtain ⟨d, passes, view⟩ := cond_sound levels start.ready test
  have middle := expect_passes .uses passes.ready (by simp) word
  refine ⟨c, d, t₃, h, ?_, by simpa [middle.symbols_eq] using view⟩
  simpa [ahead, Token.terminal] using (start.trans passes).trans middle

/-- An `if`. The token behind the first block tells whether there is a second one. -/
theorem conditional_sound
    (inner : Sound .uses 1 (fun a : StmtSeq Symbol => a.derivation.shape) block)
    (ready : s.Ready) (word : s.lookahead.token = .keyword .ifWord)
    (accepted : conditional levels block s = .ok a s') :
    ∃ d : Derivation Unit String .ifStmt, Passes .uses s d.yield d.size d.vars d.nesting s' ∧
      a.derivation.shape = .stmtIf () (d.rename s'.symbols.index) := by
  obtain ⟨free, t, h, rfl⟩ := node_eq_ok.1 accepted
  obtain ⟨line, _, lined, h⟩ := bind_eq_ok.1 h
  obtain ⟨rfl, rfl⟩ := peekLine_eq_ok.1 lined
  obtain ⟨c, d, t₁, h, guard, view₁⟩ := guard_sound (ready.reserved free) word h
  obtain ⟨body, t₂, branch, h⟩ := bind_eq_ok.1 h
  obtain ⟨e, passes₁, view₂⟩ := inner guard.ready branch
  obtain ⟨_, _, seen, h⟩ := bind_eq_ok.1 h
  obtain ⟨token, rfl⟩ := peek_eq_ok.1 seen
  split at h
  · obtain ⟨_, t₃, step, h⟩ := bind_eq_ok.1 h
    obtain ⟨other, t₄, branch', h⟩ := bind_eq_ok.1 h
    obtain ⟨_, t₅, finish, h⟩ := bind_eq_ok.1 h
    obtain ⟨rfl, rfl⟩ := pure_eq_ok.1 h
    have second := advance_passes .uses passes₁.ready (by simp [token]) step
    obtain ⟨f, passes₂, view₃⟩ := inner second.ready branch'
    have finish := blockEnd_passes passes₂.ready finish
    refine ⟨.ifElse () d e f, ?_, ?_⟩
    · have all := (((guard.trans passes₁).trans second).trans passes₂).trans finish
      simpa [token, Token.terminal, Nat.max_assoc] using all.node
    · simp [Stmt.derivation, ParseState.settled, view₁, view₂, view₃, passes₁.symbols_eq,
        second.symbols_eq, passes₂.symbols_eq, finish.symbols_eq]
  · obtain ⟨_, t₃, finish, h⟩ := bind_eq_ok.1 h
    obtain ⟨rfl, rfl⟩ := pure_eq_ok.1 h
    have finish := blockEnd_passes passes₁.ready finish
    refine ⟨.ifThen () d e, by simpa using ((guard.trans passes₁).trans finish).node, ?_⟩
    simp [Stmt.derivation, ParseState.settled, view₁, view₂, passes₁.symbols_eq, finish.symbols_eq]
  · exact absurd h unexpected_ne_ok

/-- A `while`, with its block one level further in. -/
theorem loop_sound
    (inner : Sound .uses 1 (fun a : StmtSeq Symbol => a.derivation.shape) block)
    (ready : s.Ready) (word : s.lookahead.token = .keyword .whileWord)
    (accepted : loop levels block s = .ok a s') :
    ∃ d : Derivation Unit String .whileStmt, Passes .uses s d.yield d.size d.vars d.nesting s' ∧
      a.derivation.shape = .stmtWhile () (d.rename s'.symbols.index) := by
  obtain ⟨free, t, h, rfl⟩ := node_eq_ok.1 accepted
  obtain ⟨line, _, lined, h⟩ := bind_eq_ok.1 h
  obtain ⟨rfl, rfl⟩ := peekLine_eq_ok.1 lined
  obtain ⟨c, d, t₁, h, guard, view₁⟩ := guard_sound (ready.reserved free) word h
  obtain ⟨body, t₂, branch, h⟩ := bind_eq_ok.1 h
  obtain ⟨_, t₃, finish, h⟩ := bind_eq_ok.1 h
  obtain ⟨rfl, rfl⟩ := pure_eq_ok.1 h
  obtain ⟨e, passes, view₂⟩ := inner guard.ready branch
  have finish := blockEnd_passes passes.ready finish
  refine ⟨.whileLoop () d e, by simpa using ((guard.trans passes).trans finish).node, ?_⟩
  simp [Stmt.derivation, ParseState.settled, view₁, view₂, passes.symbols_eq, finish.symbols_eq]

/-- The keyword of a transfer is not looked at again. -/
theorem transfer_sound {ids : IdList Symbol} {word : Keyword} (ready : s.Ready)
    (ahead : s.lookahead.token = .keyword word) (accepted : transfer s = .ok ids s') :
    ∃ d : Derivation Unit String .idList,
      Passes .uses s ([.keyword word] ++ d.yield ++ [.mark .semicolon]) (d.size + 1) d.vars
        d.nesting s' ∧ ids.derivation.shape = d.rename s'.symbols.index := by
  obtain ⟨free, t, h, rfl⟩ := node_eq_ok.1 accepted
  obtain ⟨_, t₁, step, h⟩ := bind_eq_ok.1 h
  obtain ⟨list, t₂, names, h⟩ := bind_eq_ok.1 h
  obtain ⟨_, t₃, semicolon, h⟩ := bind_eq_ok.1 h
  obtain ⟨rfl, rfl⟩ := pure_eq_ok.1 h
  have ahead : s.reserved.lookahead.token = .keyword word := ahead
  have start := advance_passes .uses (ready.reserved free) (by simp [ahead]) step
  obtain ⟨d, passes, view⟩ := idList_sound .uses start.ready names
  have semicolon := expect_passes .uses passes.ready (by simp) semicolon
  refine ⟨d, ?_, by simpa [ParseState.settled, semicolon.symbols_eq] using view⟩
  simpa [ahead, Token.terminal] using ((start.trans passes).trans semicolon).node

/-- A statement: the token ahead tells its form, and its node comes around that of the form. -/
theorem stmtWith_sound
    (inner : Sound .uses 1 (fun a : StmtSeq Symbol => a.derivation.shape) block) :
    Sound .uses 0 (fun a : Stmt Symbol => a.derivation.shape) (stmtWith levels block) := by
  intro s a s' ready accepted
  obtain ⟨free, t, h, rfl⟩ := node_eq_ok.1 accepted
  obtain ⟨line, _, lined, h⟩ := bind_eq_ok.1 h
  obtain ⟨rfl, rfl⟩ := peekLine_eq_ok.1 lined
  obtain ⟨_, _, seen, h⟩ := bind_eq_ok.1 h
  obtain ⟨token, rfl⟩ := peek_eq_ok.1 seen
  split at h
  · obtain ⟨d, passes, view⟩ := assignment_sound levels (ready.reserved free) h
    exact ⟨.stmtAssign () d, by simpa using passes.node, view⟩
  · obtain ⟨d, passes, view⟩ := conditional_sound inner (ready.reserved free) token h
    exact ⟨.stmtIf () d, by simpa using passes.node, view⟩
  · obtain ⟨d, passes, view⟩ := loop_sound inner (ready.reserved free) token h
    exact ⟨.stmtWhile () d, by simpa using passes.node, view⟩
  · obtain ⟨ids, t₁, names, h⟩ := bind_eq_ok.1 h
    obtain ⟨rfl, rfl⟩ := pure_eq_ok.1 h
    obtain ⟨d, passes, view⟩ := transfer_sound (ready.reserved free) token names
    refine ⟨.stmtInput () (.input () d), by simpa using passes.node, ?_⟩
    simp [Stmt.derivation, ParseState.settled, view]
  · obtain ⟨ids, t₁, names, h⟩ := bind_eq_ok.1 h
    obtain ⟨rfl, rfl⟩ := pure_eq_ok.1 h
    obtain ⟨d, passes, view⟩ := transfer_sound (ready.reserved free) token names
    refine ⟨.stmtOutput () (.output () d), by simpa using passes.node, ?_⟩
    simp [Stmt.derivation, ParseState.settled, view]
  · exact absurd h unexpected_ne_ok

/-- A sequence of statements, by induction on the bound. Statements declare nothing, so the
table is the same behind all of them. -/
theorem stmtSeqUpTo_sound
    (inner : Sound .uses 1 (fun a : StmtSeq Symbol => a.derivation.shape) block) (n : Nat) :
    Sound .uses 0 (fun a : StmtSeq Symbol => a.derivation.shape)
      (stmtSeqUpTo levels block n) := by
  induction n with
  | zero =>
    intro s a s' ready accepted
    obtain ⟨free, t, h, rfl⟩ := node_eq_ok.1 accepted
    obtain ⟨first, t₁, one, h⟩ := bind_eq_ok.1 h
    obtain ⟨rfl, rfl⟩ := pure_eq_ok.1 h
    obtain ⟨d, passes, view⟩ := stmtWith_sound inner (ready.reserved free) one
    refine ⟨.stmtSeqLast () d, by simpa using passes.node, ?_⟩
    simp [StmtSeq.derivation, ParseState.settled, view]
  | succ n ih =>
    intro s a s' ready accepted
    obtain ⟨free, t, h, rfl⟩ := node_eq_ok.1 accepted
    obtain ⟨first, t₁, one, h⟩ := bind_eq_ok.1 h
    obtain ⟨d, passes, view⟩ := stmtWith_sound inner (ready.reserved free) one
    obtain ⟨_, _, seen, h⟩ := bind_eq_ok.1 h
    obtain ⟨token, rfl⟩ := peek_eq_ok.1 seen
    split at h
    · obtain ⟨rest, t₂, others, h⟩ := bind_eq_ok.1 h
      obtain ⟨rfl, rfl⟩ := pure_eq_ok.1 h
      obtain ⟨e, passes', view'⟩ := ih passes.ready others
      refine ⟨.stmtSeqCons () d e, by simpa using (passes.trans passes').node, ?_⟩
      simp [StmtSeq.derivation, ParseState.settled, view, view', passes'.symbols_eq]
    · obtain ⟨rfl, rfl⟩ := pure_eq_ok.1 h
      refine ⟨.stmtSeqLast () d, by simpa using passes.node, ?_⟩
      simp [StmtSeq.derivation, ParseState.settled, view]

theorem stmtSeqWith_sound
    (inner : Sound .uses 1 (fun a : StmtSeq Symbol => a.derivation.shape) block) :
    Sound .uses 0 (fun a : StmtSeq Symbol => a.derivation.shape) (stmtSeqWith levels block) :=
  .repeating (stmtSeqUpTo_sound inner)

end Statements

/-- The inside of a block, by induction on the levels that may still be entered. -/
theorem innerBlock_sound (levels : Nat) :
    Sound .uses 1 (fun a : StmtSeq Symbol => a.derivation.shape) (innerBlock levels) := by
  induction levels with
  | zero => exact tooDeep_sound
  | succ levels ih => exact (stmtSeqWith_sound ih).nested

theorem stmtSeq_sound (levels : Nat) :
    Sound .uses 0 (fun a : StmtSeq Symbol => a.derivation.shape) (stmtSeq levels) :=
  stmtSeqWith_sound (innerBlock_sound levels)

/-! ### Programs -/

/-- The check for the end of the text passes exactly where nothing is ahead. -/
theorem nothingMore_eq_ok {s s' : ParseState} :
    nothingMore s = .ok () s' ↔ s.text = [] ∧ s = s' := by
  rw [ParseState.text_eq_nil_iff, nothingMore]
  split <;> simp_all

/-- What a parse reads from its first token to its last is a derivation of the whole
text, in order in all that the text alone does not tell. -/
theorem program_sound {s s' : ParseState} {a : Program Symbol} (ready : s.Ready)
    (fresh : s.symbols.names = []) (accepted : program s = .ok a s') :
    ∃ d : Derivation Unit String .program, s.Whole ∧ s.text = d.yield ∧ d.WellNamed ∧
      s.budget.used + d.size ≤ s.budget.capacity ∧ s.depth + d.nesting ≤ maxNesting ∧
        s'.symbols.names = d.declared ∧ a.derivation.shape = d.rename s'.symbols.index := by
  obtain ⟨free, t, h, rfl⟩ := node_eq_ok.1 accepted
  obtain ⟨line, _, lined, h⟩ := bind_eq_ok.1 h
  obtain ⟨rfl, rfl⟩ := peekLine_eq_ok.1 lined
  obtain ⟨_, t₁, opening, h⟩ := bind_eq_ok.1 h
  obtain ⟨decls, t₂, names, h⟩ := bind_eq_ok.1 h
  obtain ⟨_, t₃, middle, h⟩ := bind_eq_ok.1 h
  obtain ⟨stmts, t₄, body, h⟩ := bind_eq_ok.1 h
  obtain ⟨_, t₅, closing, h⟩ := bind_eq_ok.1 h
  obtain ⟨_, _, finished, h⟩ := bind_eq_ok.1 h
  obtain ⟨rfl, rfl⟩ := pure_eq_ok.1 h
  obtain ⟨done, rfl⟩ := nothingMore_eq_ok.1 finished
  have opening := expect_passes .declares (ready.reserved free) (by simp) opening
  obtain ⟨d, declares, view⟩ := declSeq_sound opening.ready names
  have middle := expect_passes .declares declares.ready (by simp) middle
  obtain ⟨e, uses, view'⟩ := stmtSeq_sound maxNesting middle.ready body
  have closing := expect_passes .uses uses.ready (by simp) closing
  -- behind `begin` names are only used, so the table is that of the declarations
  have front := (opening.trans declares).trans middle
  have back := uses.trans closing
  have table : t₅.symbols = t₂.symbols := back.symbols_eq.trans middle.symbols_eq_of_nil
  have names : t₃.symbols.names = d.vars := by
    have := front.symbols
    simpa [ParseState.reserved, fresh, Site.after] using this
  refine ⟨.program () d e, ?_, ?_, ⟨?_, ?_⟩, ?_, ?_, ?_, ?_⟩
  · obtain ⟨_, line, eof⟩ := back.ready.ended (ParseState.text_eq_nil_iff.1 done)
    exact ⟨line, (back.ending.trans front.ending).symm.trans eof⟩
  · have text : s.text = _ := front.text
    rw [text, back.text, done]
    simp [Token.terminal]
  · have := t₃.symbols.distinct
    rwa [names] at this
  · intro x hx
    have := back.known rfl x (by simpa using hx)
    rwa [names] at this
  · have := back.ready.room
    simp only [back.budget, front.budget, ParseState.reserved, Budget.used, Derivation.size]
      at this ⊢
    omega
  · have := front.levels
    have := back.levels
    have := front.depth
    simp only [ParseState.reserved, Derivation.nesting] at *
    omega
  · change t₅.symbols.names = d.vars
    rw [back.symbols_eq, names]
  · simp [Program.derivation, ParseState.settled, view, view', table, closing.symbols_eq.symm]

end CoreLang.ParseM
