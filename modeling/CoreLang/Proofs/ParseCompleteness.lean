import CoreLang.Proofs.ParseSoundness

/-!
# What is derived is accepted

If the yield of a derivation stands ahead, and there is room for its nodes, its
levels and its names, then the rule of its tag succeeds and gives this derivation. The
token behind it must not go on with it: a list ends where no comma follows, a sum
where no operator does.
-/

namespace CoreLang

/-- Whether a token right behind a derivation from the tag is taken as more of it. -/
def Tag.goesOn : Tag → Terminal → Bool
  | .idList, .mark .comma => true
  | .declSeq, .keyword .intWord => true
  | .stmtSeq, .identifier _ => true
  | .stmtSeq, .keyword .ifWord => true
  | .stmtSeq, .keyword .whileWord => true
  | .stmtSeq, .keyword .readWord => true
  | .stmtSeq, .keyword .writeWord => true
  | .term, .mark .star => true
  | .expr, .mark .star => true
  | .expr, .mark .plus => true
  | .expr, .mark .minus => true
  | _, _ => false

/-- A derivation from the tag ends before the text. -/
def Tag.Stops (tag : Tag) (text : List Terminal) : Prop :=
  ∀ t ∈ text.head?, tag.goesOn t = false

@[simp] theorem Tag.stops_cons {tag : Tag} {t : Terminal} {text : List Terminal} :
    tag.Stops (t :: text) ↔ tag.goesOn t = false := by
  simp [Stops]

/-- What ends a sum ends its last term. -/
theorem Tag.Stops.term {text : List Terminal} (h : Tag.expr.Stops text) : Tag.term.Stops text := by
  intro t ht
  have ends := h t ht
  cases t with
  | mark sign => cases sign <;> simp_all [Tag.goesOn]
  | _ => rfl

/-- What stands ahead where a derivation stops does not go on with it. -/
theorem Tag.Stops.lookahead {tag : Tag} {s : ParseState} (h : tag.Stops s.text) :
    tag.goesOn s.lookahead.token.terminal = false := by
  by_cases ended : s.lookahead.token = .eof
  · cases tag <;> simp [ended, Token.terminal, Tag.goesOn]
  · rw [s.text_eq_cons ended, Tag.stops_cons] at h
    exact h

/-- A sequence of statements goes on exactly with the tokens that start a statement. -/
theorem Token.startsStatement_eq (token : Token) :
    token.kind.startsStatement = Tag.stmtSeq.goesOn token.terminal := by
  cases token with
  | keyword word => cases word <;> rfl
  | mark sign => cases sign <;> rfl
  | _ => rfl

namespace Derivation

/-- Declarations begin with `int`. -/
theorem exists_yield_declSeq (d : Derivation Unit String .declSeq) :
    ∃ tail, d.yield = .keyword .intWord :: tail := by
  cases d with
  | declSeqLast _ first => cases first; simp
  | declSeqCons _ first rest => cases first; simp

/-- A statement begins with a token that starts one. -/
theorem exists_yield_stmt (d : Derivation Unit String .stmt) :
    ∃ t tail, d.yield = t :: tail ∧ Tag.stmtSeq.goesOn t = true := by
  cases d with
  | stmtAssign _ inner =>
    cases inner with
    | assign _ target value => cases target; simp [Tag.goesOn]
  | stmtIf _ inner => cases inner <;> simp [Tag.goesOn]
  | stmtWhile _ inner => cases inner; simp [Tag.goesOn]
  | stmtInput _ inner => cases inner; simp [Tag.goesOn]
  | stmtOutput _ inner => cases inner; simp [Tag.goesOn]

/-- So does a sequence of statements. -/
theorem exists_yield_stmtSeq (d : Derivation Unit String .stmtSeq) :
    ∃ t tail, d.yield = t :: tail ∧ Tag.stmtSeq.goesOn t = true := by
  cases d with
  | stmtSeqLast _ stmt =>
    obtain ⟨t, tail, yield, starts⟩ := stmt.exists_yield_stmt
    exact ⟨t, tail, by simp [yield], starts⟩
  | stmtSeqCons _ stmt rest =>
    obtain ⟨t, tail, yield, starts⟩ := stmt.exists_yield_stmt
    exact ⟨t, tail ++ rest.yield, by simp [yield], starts⟩

/-- No production derives the empty text. -/
theorem yield_ne_nil {tag : Tag} (d : Derivation Unit String tag) : d.yield ≠ [] := by
  induction d <;> simp_all

end Derivation

namespace ParseM

/-- The rule takes the derivation off the text, and its result shows it. -/
def Finds {α : Type} {tag : Tag} (site : Site) (extra : Nat)
    (view : α → Derivation Unit Symbol tag) (rule : ParseM α) (d : Derivation Unit String tag)
    (s : ParseState) : Prop :=
  ∃ a s', rule s = .ok a s' ∧ Passes site s d.yield d.size d.vars (d.nesting + extra) s' ∧
    view a = d.rename s'.symbols.index

/-- The rule finds every derivation that is ahead. -/
def Complete {α : Type} {tag : Tag} (site : Site) (extra levels : Nat)
    (view : α → Derivation Unit Symbol tag) (rule : ParseM α) : Prop :=
  ∀ ⦃s : ParseState⦄ ⦃d : Derivation Unit String tag⦄ ⦃rest : List Terminal⦄,
    Fits site levels s d.yield d.size d.vars (d.nesting + extra) rest → tag.Stops rest →
      Finds site extra view rule d s

/-- The same of a rule that may repeat itself as often as there are tokens ahead. -/
def CompleteUpTo {α : Type} {tag : Tag} (site : Site) (levels : Nat)
    (view : α → Derivation Unit Symbol tag) (rule : Nat → ParseM α) (n : Nat) : Prop :=
  ∀ ⦃s : ParseState⦄ ⦃d : Derivation Unit String tag⦄ ⦃rest : List Terminal⦄,
    Fits site levels s d.yield d.size d.vars (d.nesting + 0) rest → tag.Stops rest →
      s.text.length ≤ n → Finds site 0 view (rule n) d s

section

variable {α : Type} {tag : Tag} {site : Site} {levels : Nat} {view : α → Derivation Unit Symbol tag}

/-- The bound is no restriction: there are no more tokens ahead than in the whole text. -/
theorem CompleteUpTo.repeating {rule : Nat → ParseM α}
    (h : ∀ n, CompleteUpTo site levels view rule n) :
    Complete site 0 levels view (repeating rule) := by
  intro s d rest fits stops
  exact h s.tokenCount fits stops (by simpa [ParseState.text] using fits.ready.counted)

/-- Nothing is ahead of a rule that may not repeat itself even once. -/
theorem completeUpTo_zero {rule : Nat → ParseM α} : CompleteUpTo site levels view rule 0 := by
  intro s d rest fits stops short
  have := fits.text
  rw [List.length_eq_zero_iff.1 (Nat.le_zero.1 short)] at this
  exact absurd (List.append_eq_nil_iff.1 this.symm).1 d.yield_ne_nil

/-- A derivation that fits one level further in leaves a level to enter. -/
theorem Complete.nested {rule : ParseM α} (h : Complete site 0 levels view rule) :
    Complete site 1 (levels + 1) view (nested rule) := by
  intro s d rest fits stops
  obtain ⟨a, t, accepted, passes, same⟩ := h fits.nested stops
  have free : s.depth < maxNesting := by
    have := fits.levels
    omega
  exact ⟨a, t.left, nested_eq_ok.2 ⟨free, t, accepted, rfl⟩, passes.nested, same⟩

/-- Nothing that lies a level further in fits where no level is left. -/
theorem tooDeep_complete : Complete site 1 0 view tooDeep := by
  intro s d rest fits stops
  exact absurd fits.within (by omega)

end

/-- The text ahead gets shorter by what was taken off it. -/
theorem Passes.length_text {site : Site} {s t : ParseState} {ts : List Terminal} {n k : Nat}
    {xs : List String} (h : Passes site s ts n xs k t) :
    s.text.length = ts.length + t.text.length := by
  rw [h.text, List.length_append]

/-- What is ahead behind the part that fits. -/
theorem Passes.text_eq {site : Site} {levels : Nat} {s t : ParseState} {ts rest : List Terminal}
    {n k l : Nat} {xs : List String} (h : Passes site s ts n xs l t)
    (fits : Fits site levels s ts n xs k rest) : t.text = rest :=
  List.append_cancel_left (h.text.symm.trans fits.text)

/-- A list, a product or a sum of more than one part is found where its first part, a
mark and the rest of it are ahead. -/
theorem CompleteUpTo.exists_chain {α β : Type} {tag first : Tag} {site : Site} {levels n : Nat}
    {view : α → Derivation Unit Symbol tag} {view' : β → Derivation Unit Symbol first}
    {again : Nat → ParseM α} {rule : ParseM β} {s : ParseState} {sign : Mark}
    {d : Derivation Unit String first} {e : Derivation Unit String tag} {rest : List Terminal}
    (others : CompleteUpTo site levels view again n) (one : Complete site 0 levels view' rule)
    (fits : Fits site levels s (d.yield ++ .mark sign :: e.yield) (d.size + e.size)
      (d.vars ++ e.vars) (max d.nesting e.nesting) rest)
    (ends : first.goesOn (.mark sign) = false) (stops : tag.Stops rest)
    (short : s.text.length ≤ n + 1) :
    ∃ b t₁ t₂ a t₃, rule s = .ok b t₁ ∧ t₁.lookahead.token = .mark sign ∧
      advance t₁ = .ok () t₂ ∧ again n t₂ = .ok a t₃ ∧
      Passes site s (d.yield ++ .mark sign :: e.yield) (d.size + e.size) (d.vars ++ e.vars)
        (max d.nesting e.nesting) t₃ ∧
      view' b = d.rename t₃.symbols.index ∧ view a = e.rename t₃.symbols.index := by
  obtain ⟨b, t₁, found, passes, seen⟩ := one (fits.first (Nat.le_max_left ..)) (by simpa using ends)
  have behind := fits.second passes (Nat.le_max_right ..)
  have token := behind.mark_ahead
  obtain ⟨t₂, step, joins, behind⟩ := behind.advance
  -- the mark is no longer ahead, so the rest may repeat itself once less
  obtain ⟨a, t₃, found', passes', seen'⟩ := others behind stops (by
    have := passes.length_text
    have := joins.length_text
    simp only [List.length_cons] at *
    omega)
  have kept := (joins.trans passes').rename_index fun x hx => passes.mem_symbols hx
  refine ⟨b, t₁, t₂, a, t₃, found, token, step, found', ?_, seen.trans kept, seen'⟩
  simpa using (passes.trans joins).trans passes'

/-! ### Names and declarations -/

/-- A name is found if the table admits it: a known one where it is used, a new one where it is
declared. -/
theorem identifier_complete (site : Site) (levels : Nat) :
    Complete site 0 levels (fun a : Ident Symbol => a.derivation.shape) (identifier site) := by
  intro s d rest fits stops
  cases d with
  | ident _ name =>
    have parts : Fits site levels s [.identifier name] (0 + 1) [name] 0 rest := by simpa using fits
    have token : s.reserved.lookahead.token = .identifier name :=
      Token.terminal_eq_identifier_iff.1 (ParseState.terminal_of_text_eq_cons parts.node.text)
    obtain ⟨symbol, t₁, bound⟩ := exists_bindName parts.node.names
    obtain ⟨binds, rfl, ahead⟩ := bindName_passes parts.node.ready bound
    have fits₁ : Fits site levels t₁ [.identifier name] 0 [] 0 rest :=
      Fits.second (by simpa using parts.node) binds (Nat.le_refl 0)
    obtain ⟨t₂, step, takes, _⟩ := fits₁.advance
    refine ⟨⟨s.lookahead.line, t₁.symbols.index name⟩, t₂.settled,
      node_eq_ok.2 ⟨parts.free, t₂, ?_, rfl⟩, by simpa using (binds.trans takes).node, ?_⟩
    · refine bind_eq_ok.2 ⟨_, _, peek_eq_ok.2 ⟨token, rfl⟩, bind_eq_ok.2 ⟨_, _,
        peekLine_eq_ok.2 ⟨rfl, rfl⟩, bind_eq_ok.2 ⟨_, t₁, bound, bind_eq_ok.2 ⟨(), t₂, step, rfl⟩⟩⟩⟩
    · have same : t₂.symbols = t₁.symbols := takes.symbols_eq_of_nil
      simp [Ident.derivation, ParseState.settled, same]

/-- A list is found to its end, for no comma stands behind it. The induction is on the bound:
each round takes a name and a comma off the text. -/
theorem idListUpTo_complete (site : Site) (levels n : Nat) :
    CompleteUpTo site levels (fun a : IdList Symbol => a.derivation.shape) (idListUpTo site) n := by
  induction n with
  | zero => exact completeUpTo_zero
  | succ n ih =>
    intro s d rest fits stops short
    cases d with
    | idListLast _ d =>
      have parts : Fits site levels s d.yield (d.size + 1) d.vars d.nesting rest := by
        simpa using fits
      obtain ⟨id, t₁, one, passes, view⟩ := identifier_complete site levels parts.node
        (by simp [Tag.Stops, Tag.goesOn])
      refine ⟨.last id, t₁.settled, node_eq_ok.2 ⟨parts.free, t₁, ?_, rfl⟩,
        by simpa using passes.node, by simpa [IdList.derivation, ParseState.settled] using view⟩
      refine bind_eq_ok.2 ⟨id, t₁, one, bind_eq_ok.2 ⟨_, _, peek_eq_ok.2 ⟨rfl, rfl⟩, ?_⟩⟩
      have ends := (passes.text_eq parts.node ▸ stops).lookahead
      generalize t₁.lookahead.token = token at ends ⊢
      split
      · simp [Token.terminal, Tag.goesOn] at ends
      · rfl
    | idListCons _ d e =>
      have parts : Fits site levels s (d.yield ++ .mark .comma :: e.yield) (d.size + e.size + 1)
          (d.vars ++ e.vars) (max d.nesting e.nesting) rest := by
        simpa using fits
      obtain ⟨id, t₁, t₂, list, t₃, one, token, step, others, passes, view, view'⟩ :=
        ih.exists_chain (identifier_complete site levels) parts.node (by simp [Tag.goesOn]) stops
          short
      refine ⟨.cons id list, t₃.settled, node_eq_ok.2 ⟨parts.free, t₃, ?_, rfl⟩,
        by simpa using passes.node, by simp [IdList.derivation, ParseState.settled, view, view']⟩
      exact bind_eq_ok.2 ⟨id, t₁, one, bind_eq_ok.2 ⟨_, _, peek_eq_ok.2 ⟨token, rfl⟩,
        bind_eq_ok.2 ⟨(), t₂, step, bind_eq_ok.2 ⟨list, t₃, others, rfl⟩⟩⟩⟩

theorem idList_complete (site : Site) (levels : Nat) :
    Complete site 0 levels (fun a : IdList Symbol => a.derivation.shape) (idList site) :=
  CompleteUpTo.repeating (idListUpTo_complete site levels)

/-- A declaration. The semicolon behind its names ends their list. -/
theorem decl_complete (levels : Nat) :
    Complete .declares 0 levels (fun a : Decl Symbol => a.derivation.shape) decl := by
  intro s d rest fits stops
  cases d with
  | decl _ d =>
    have parts : Fits .declares levels s (.keyword .intWord :: (d.yield ++ [.mark .semicolon]))
        (d.size + 1) d.vars d.nesting rest := by
      simpa using fits
    obtain ⟨t₁, word, opening, behind⟩ := parts.node.expectKeyword .declaration
    obtain ⟨ids, t₂, list, passes, view⟩ := idList_complete .declares levels
      (behind.front (Nat.le_refl _)) (by simp [Tag.goesOn])
    obtain ⟨t₃, semicolon, closing, _⟩ := (behind.back passes).expectMark .semicolon
    refine ⟨⟨s.lookahead.line, ids⟩, t₃.settled, node_eq_ok.2 ⟨parts.free, t₃, ?_, rfl⟩,
      by simpa using ((opening.trans passes).trans closing).node, ?_⟩
    · exact bind_eq_ok.2 ⟨_, _, peekLine_eq_ok.2 ⟨rfl, rfl⟩, bind_eq_ok.2 ⟨(), t₁, word,
        bind_eq_ok.2 ⟨ids, t₂, list, bind_eq_ok.2 ⟨(), t₃, semicolon, rfl⟩⟩⟩⟩
    · simp [Decl.derivation, ParseState.settled, view, closing.symbols_eq_of_nil]

/-- Declarations are found to the last one, for no `int` stands behind it. -/
theorem declSeqUpTo_complete (levels n : Nat) :
    CompleteUpTo .declares levels (fun a : DeclSeq Symbol => a.derivation.shape) declSeqUpTo n := by
  induction n with
  | zero => exact completeUpTo_zero
  | succ n ih =>
    intro s d rest fits stops short
    cases d with
    | declSeqLast _ d =>
      have parts : Fits .declares levels s d.yield (d.size + 1) d.vars d.nesting rest := by
        simpa using fits
      obtain ⟨first, t₁, one, passes, view⟩ := decl_complete levels parts.node
        (by simp [Tag.Stops, Tag.goesOn])
      refine ⟨.last first, t₁.settled, node_eq_ok.2 ⟨parts.free, t₁, ?_, rfl⟩,
        by simpa using passes.node, by simpa [DeclSeq.derivation, ParseState.settled] using view⟩
      refine bind_eq_ok.2 ⟨first, t₁, one, bind_eq_ok.2 ⟨_, _, peek_eq_ok.2 ⟨rfl, rfl⟩, ?_⟩⟩
      have ends := (passes.text_eq parts.node ▸ stops).lookahead
      generalize t₁.lookahead.token = token at ends ⊢
      split
      · simp [Token.terminal, Tag.goesOn] at ends
      · rfl
    | declSeqCons _ d e =>
      have parts : Fits .declares levels s (d.yield ++ e.yield) (d.size + e.size + 1)
          (d.vars ++ e.vars) (max d.nesting e.nesting) rest := by
        simpa using fits
      obtain ⟨first, t₁, one, passes, view⟩ := decl_complete levels
        (parts.node.first (Nat.le_max_left ..)) (by simp [Tag.Stops, Tag.goesOn])
      have behind := parts.node.second passes (Nat.le_max_right ..)
      obtain ⟨tail, opens⟩ := e.exists_yield_declSeq
      have token := (opens ▸ behind).keyword_ahead
      -- a declaration takes at least one token, so the others need one round less
      obtain ⟨list, t₂, others, passes', view'⟩ := ih behind stops (by
        have := passes.length_text
        have := List.length_pos_iff.2 d.yield_ne_nil
        simp only [ParseState.text_reserved] at *
        omega)
      have kept := passes'.rename_index fun x hx => passes.mem_symbols hx
      refine ⟨.cons first list, t₂.settled, node_eq_ok.2 ⟨parts.free, t₂, ?_, rfl⟩,
        by simpa using (passes.trans passes').node, ?_⟩
      · exact bind_eq_ok.2 ⟨first, t₁, one, bind_eq_ok.2 ⟨_, _, peek_eq_ok.2 ⟨token, rfl⟩,
          bind_eq_ok.2 ⟨list, t₂, others, rfl⟩⟩⟩
      · simp [DeclSeq.derivation, ParseState.settled, view, view', kept]

theorem declSeq_complete (levels : Nat) :
    Complete .declares 0 levels (fun a : DeclSeq Symbol => a.derivation.shape) declSeq :=
  CompleteUpTo.repeating (declSeqUpTo_complete levels)

/-! ### Expressions -/

section Expressions

variable {levels : Nat} {inside : ParseM (Expr Symbol)}

/-- An operand. Its first token tells which production it comes from. -/
theorem operandWith_complete
    (inner : Complete .uses 1 levels (fun a : Expr Symbol => a.derivation.shape) inside) :
    Complete .uses 0 levels (fun a : Operand Symbol => a.derivation.shape)
      (operandWith inside) := by
  intro s d rest fits stops
  cases d with
  | operandInt _ leaf =>
    cases leaf with
    | int _ value =>
      have parts : Fits .uses levels s [.integer value] (0 + 1 + 1) [] 0 rest := by
        simpa using fits
      obtain ⟨digits, token, rfl⟩ := Token.terminal_eq_integer_iff.1
        (ParseState.terminal_of_text_eq_cons parts.node.text)
      obtain ⟨t₁, step, takes, _⟩ := parts.node.node.advance
      refine ⟨.int s.lookahead.line (Token.literal digits), t₁.settled.settled,
        node_eq_ok.2 ⟨parts.free, t₁.settled, ?_, rfl⟩, by simpa using takes.node.node, ?_⟩
      · exact bind_eq_ok.2 ⟨_, _, peekLine_eq_ok.2 ⟨rfl, rfl⟩, bind_eq_ok.2 ⟨_, _,
          peek_eq_ok.2 ⟨token, rfl⟩, bind_eq_ok.2 ⟨(), t₁.settled,
            node_eq_ok.2 ⟨parts.node.free, t₁, step, rfl⟩, rfl⟩⟩⟩
      · simp [Operand.derivation]
  | operandIdent _ leaf =>
    cases leaf with
    | ident _ name =>
      have parts : Fits .uses levels s [.identifier name] (1 + 1) [name] 0 rest := by
        simpa using fits
      have token := Token.terminal_eq_identifier_iff.1
        (ParseState.terminal_of_text_eq_cons parts.node.text)
      obtain ⟨id, t₁, one, passes, view⟩ := identifier_complete .uses levels
        (d := .ident () name) (by simpa using parts.node) (by simp [Tag.Stops, Tag.goesOn])
      refine ⟨.ident id, t₁.settled, node_eq_ok.2 ⟨parts.free, t₁, ?_, rfl⟩,
        by simpa using passes.node, by simpa [Operand.derivation, ParseState.settled] using view⟩
      exact bind_eq_ok.2 ⟨_, _, peekLine_eq_ok.2 ⟨rfl, rfl⟩, bind_eq_ok.2 ⟨_, _,
        peek_eq_ok.2 ⟨token, rfl⟩, bind_eq_ok.2 ⟨id, t₁, one, rfl⟩⟩⟩
  | operandParen _ d =>
    have parts : Fits .uses levels s (.mark .openParen :: (d.yield ++ [.mark .closeParen]))
        (d.size + 1) d.vars (d.nesting + 1) rest := by
      simpa using fits
    have token := parts.node.mark_ahead
    obtain ⟨t₁, step, opening, behind⟩ := parts.node.advance
    obtain ⟨e, t₂, middle, passes, view⟩ := inner (behind.front (Nat.le_refl _))
      (by simp [Tag.goesOn])
    obtain ⟨t₃, close, closing, _⟩ := (behind.back passes).expectMark .closeParen
    refine ⟨.paren s.lookahead.line e, t₃.settled, node_eq_ok.2 ⟨parts.free, t₃, ?_, rfl⟩,
      by simpa using ((opening.trans passes).trans closing).node, ?_⟩
    · exact bind_eq_ok.2 ⟨_, _, peekLine_eq_ok.2 ⟨rfl, rfl⟩, bind_eq_ok.2 ⟨_, _,
        peek_eq_ok.2 ⟨token, rfl⟩, bind_eq_ok.2 ⟨(), t₁, step, bind_eq_ok.2 ⟨e, t₂, middle,
          bind_eq_ok.2 ⟨(), t₃, close, rfl⟩⟩⟩⟩⟩
    · simp [Operand.derivation, ParseState.settled, view, closing.symbols_eq]

/-- A product is found to its end, for no `*` stands behind it. -/
theorem termUpTo_complete
    (inner : Complete .uses 1 levels (fun a : Expr Symbol => a.derivation.shape) inside) (n : Nat) :
    CompleteUpTo .uses levels (fun a : Term Symbol => a.derivation.shape) (termUpTo inside) n := by
  induction n with
  | zero => exact completeUpTo_zero
  | succ n ih =>
    intro s d rest fits stops short
    cases d with
    | termOperand _ d =>
      have parts : Fits .uses levels s d.yield (d.size + 1) d.vars d.nesting rest := by
        simpa using fits
      obtain ⟨o, t₁, one, passes, view⟩ := operandWith_complete inner parts.node
        (by simp [Tag.Stops, Tag.goesOn])
      refine ⟨.operand o, t₁.settled, node_eq_ok.2 ⟨parts.free, t₁, ?_, rfl⟩,
        by simpa using passes.node, by simpa [Term.derivation, ParseState.settled] using view⟩
      refine bind_eq_ok.2 ⟨o, t₁, one, bind_eq_ok.2 ⟨_, _, peek_eq_ok.2 ⟨rfl, rfl⟩, ?_⟩⟩
      have ends := (passes.text_eq parts.node ▸ stops).lookahead
      generalize t₁.lookahead.token = token at ends ⊢
      split
      · simp [Token.terminal, Tag.goesOn] at ends
      · rfl
    | termMul _ d e =>
      have parts : Fits .uses levels s (d.yield ++ .mark .star :: e.yield) (d.size + e.size + 1)
          (d.vars ++ e.vars) (max d.nesting e.nesting) rest := by
        simpa using fits
      obtain ⟨o, t₁, t₂, product, t₃, one, token, step, others, passes, view, view'⟩ :=
        ih.exists_chain (operandWith_complete inner) parts.node (by simp [Tag.goesOn]) stops short
      refine ⟨.mul o product, t₃.settled, node_eq_ok.2 ⟨parts.free, t₃, ?_, rfl⟩,
        by simpa using passes.node, by simp [Term.derivation, ParseState.settled, view, view']⟩
      exact bind_eq_ok.2 ⟨o, t₁, one, bind_eq_ok.2 ⟨_, _, peek_eq_ok.2 ⟨token, rfl⟩,
        bind_eq_ok.2 ⟨(), t₂, step, bind_eq_ok.2 ⟨product, t₃, others, rfl⟩⟩⟩⟩

theorem termWith_complete
    (inner : Complete .uses 1 levels (fun a : Expr Symbol => a.derivation.shape) inside) :
    Complete .uses 0 levels (fun a : Term Symbol => a.derivation.shape) (termWith inside) :=
  CompleteUpTo.repeating (termUpTo_complete inner)

/-- A sum is found to its end, for no sign stands behind it. The sign behind one of its terms
ends that term. -/
theorem exprUpTo_complete
    (inner : Complete .uses 1 levels (fun a : Expr Symbol => a.derivation.shape) inside) (n : Nat) :
    CompleteUpTo .uses levels (fun a : Expr Symbol => a.derivation.shape) (exprUpTo inside) n := by
  induction n with
  | zero => exact completeUpTo_zero
  | succ n ih =>
    intro s d rest fits stops short
    cases d with
    | exprTerm _ d =>
      have parts : Fits .uses levels s d.yield (d.size + 1) d.vars d.nesting rest := by
        simpa using fits
      obtain ⟨u, t₁, one, passes, view⟩ := termWith_complete inner parts.node stops.term
      refine ⟨.term u, t₁.settled, node_eq_ok.2 ⟨parts.free, t₁, ?_, rfl⟩,
        by simpa using passes.node, by simpa [Expr.derivation, ParseState.settled] using view⟩
      refine bind_eq_ok.2 ⟨u, t₁, one, bind_eq_ok.2 ⟨_, _, peek_eq_ok.2 ⟨rfl, rfl⟩, ?_⟩⟩
      have ends := (passes.text_eq parts.node ▸ stops).lookahead
      generalize t₁.lookahead.token = token at ends ⊢
      split
      · simp [Token.terminal, Tag.goesOn] at ends
      · simp [Token.terminal, Tag.goesOn] at ends
      · rfl
    | exprAdd _ d e =>
      have parts : Fits .uses levels s (d.yield ++ .mark .plus :: e.yield) (d.size + e.size + 1)
          (d.vars ++ e.vars) (max d.nesting e.nesting) rest := by
        simpa using fits
      obtain ⟨u, t₁, t₂, sum, t₃, one, token, step, others, passes, view, view'⟩ :=
        ih.exists_chain (termWith_complete inner) parts.node (by simp [Tag.goesOn]) stops short
      refine ⟨.add u sum, t₃.settled, node_eq_ok.2 ⟨parts.free, t₃, ?_, rfl⟩,
        by simpa using passes.node, by simp [Expr.derivation, ParseState.settled, view, view']⟩
      exact bind_eq_ok.2 ⟨u, t₁, one, bind_eq_ok.2 ⟨_, _, peek_eq_ok.2 ⟨token, rfl⟩,
        bind_eq_ok.2 ⟨(), t₂, step, bind_eq_ok.2 ⟨sum, t₃, others, rfl⟩⟩⟩⟩
    | exprSub _ d e =>
      have parts : Fits .uses levels s (d.yield ++ .mark .minus :: e.yield) (d.size + e.size + 1)
          (d.vars ++ e.vars) (max d.nesting e.nesting) rest := by
        simpa using fits
      obtain ⟨u, t₁, t₂, difference, t₃, one, token, step, others, passes, view, view'⟩ :=
        ih.exists_chain (termWith_complete inner) parts.node (by simp [Tag.goesOn]) stops short
      refine ⟨.sub u difference, t₃.settled, node_eq_ok.2 ⟨parts.free, t₃, ?_, rfl⟩,
        by simpa using passes.node, by simp [Expr.derivation, ParseState.settled, view, view']⟩
      exact bind_eq_ok.2 ⟨u, t₁, one, bind_eq_ok.2 ⟨_, _, peek_eq_ok.2 ⟨token, rfl⟩,
        bind_eq_ok.2 ⟨(), t₂, step, bind_eq_ok.2 ⟨difference, t₃, others, rfl⟩⟩⟩⟩

theorem exprWith_complete
    (inner : Complete .uses 1 levels (fun a : Expr Symbol => a.derivation.shape) inside) :
    Complete .uses 0 levels (fun a : Expr Symbol => a.derivation.shape) (exprWith inside) :=
  CompleteUpTo.repeating (exprUpTo_complete inner)

end Expressions

/-- The inside of parentheses, by induction on the levels that may still be entered. -/
theorem innerExpr_complete (levels : Nat) :
    Complete .uses 1 levels (fun a : Expr Symbol => a.derivation.shape) (innerExpr levels) := by
  induction levels with
  | zero => exact tooDeep_complete
  | succ levels ih => exact (exprWith_complete ih).nested

theorem operand_complete (levels : Nat) :
    Complete .uses 0 levels (fun a : Operand Symbol => a.derivation.shape) (operand levels) :=
  operandWith_complete (innerExpr_complete levels)

/-- Expressions that fit the levels that are left. -/
theorem expr_complete (levels : Nat) :
    Complete .uses 0 levels (fun a : Expr Symbol => a.derivation.shape) (expr levels) :=
  exprWith_complete (innerExpr_complete levels)

/-! ### Conditions -/

/-- The sign of a comparison stands for it. -/
theorem comparator?_sign (op : Comparator) : comparator? (.mark op.sign) = some op := by
  cases op <;> rfl

/-- The sign of a comparison, which is one token. -/
theorem compOp_complete (levels : Nat) :
    Complete .uses 0 levels
      (fun op : Comparator => (.compOp () op : Derivation Unit Symbol .compOp)) compOp := by
  intro s d rest fits stops
  cases d with
  | compOp _ op =>
    have parts : Fits .uses levels s [.mark op.sign] (0 + 1) [] 0 rest := by simpa using fits
    have token := parts.node.mark_ahead
    obtain ⟨t₁, step, takes, _⟩ := parts.node.advance
    refine ⟨op, t₁.settled, node_eq_ok.2 ⟨parts.free, t₁, ?_, rfl⟩, by simpa using takes.node, rfl⟩
    refine bind_eq_ok.2 ⟨_, _, peek_eq_ok.2 ⟨token, rfl⟩, ?_⟩
    rw [comparator?_sign]
    exact bind_eq_ok.2 ⟨(), t₁, step, rfl⟩

/-- A comparison. No token goes on with an operand, so each is ended by what stands behind it.
-/
theorem comparison_complete (levels : Nat) :
    Complete .uses 0 levels (fun a : Comparison Symbol => a.derivation.shape)
      (comparison levels) := by
  intro s d rest fits stops
  cases d with
  | comparison _ d op e =>
    have parts : Fits .uses levels s (.mark .openParen :: (d.yield ++ (op.yield ++
        (e.yield ++ [.mark .closeParen])))) (d.size + (op.size + e.size) + 1)
        (d.vars ++ (op.vars ++ e.vars)) (max d.nesting (max op.nesting e.nesting)) rest := by
      simpa [Nat.add_assoc] using fits
    obtain ⟨t₁, opening, opens, behind⟩ := parts.node.expectMark .comparison
    obtain ⟨left, t₂, one, passes₁, view₁⟩ := operand_complete levels
      (behind.first (Nat.le_max_left ..)) (by simp [Tag.Stops, Tag.goesOn])
    have behind := behind.second passes₁ (Nat.le_max_right ..)
    obtain ⟨sign, t₃, told, passes₂, view₂⟩ := compOp_complete levels
      (behind.first (Nat.le_max_left ..)) (by simp [Tag.Stops, Tag.goesOn])
    have behind := behind.second passes₂ (Nat.le_max_right ..)
    obtain ⟨right, t₄, two, passes₃, view₃⟩ := operand_complete levels
      (behind.front (Nat.le_refl _)) (by simp [Tag.Stops, Tag.goesOn])
    obtain ⟨t₅, close, closing, _⟩ := (behind.back passes₃).expectMark .closeParen
    refine ⟨⟨s.lookahead.line, left, t₂.lookahead.line, sign, right⟩, t₅.settled,
      node_eq_ok.2 ⟨parts.free, t₅, ?_, rfl⟩, ?_, ?_⟩
    · exact bind_eq_ok.2 ⟨_, _, peekLine_eq_ok.2 ⟨rfl, rfl⟩, bind_eq_ok.2 ⟨(), t₁, opening,
        bind_eq_ok.2 ⟨left, t₂, one, bind_eq_ok.2 ⟨_, _, peekLine_eq_ok.2 ⟨rfl, rfl⟩,
          bind_eq_ok.2 ⟨sign, t₃, told, bind_eq_ok.2 ⟨right, t₄, two,
            bind_eq_ok.2 ⟨(), t₅, close, rfl⟩⟩⟩⟩⟩⟩⟩
    · have all := (((opens.trans passes₁).trans passes₂).trans passes₃).trans closing
      simpa [Nat.max_assoc] using all.node
    · simp [Comparison.derivation, ParseState.settled, view₁, view₂, view₃, passes₂.symbols_eq,
        passes₃.symbols_eq, closing.symbols_eq]

/-- A bracketed condition between its two sides: the sides and the operator that joins
them are ahead. -/
theorem exists_sides {levels : Nat} {inside : ParseM (Cond Symbol)} {s : ParseState}
    {d e : Derivation Unit String .cond} {sign : Mark} {rest : List Terminal}
    (inner : Complete .uses 1 levels (fun a : Cond Symbol => a.derivation.shape) inside)
    (parts : Fits .uses levels s (.mark .openBracket :: (d.yield ++
      (.mark sign :: (e.yield ++ [.mark .closeBracket])))) (d.size + e.size) (d.vars ++ e.vars)
        (max (d.nesting + 1) (e.nesting + 1)) rest) :
    ∃ left right t₁ t₂ t₃ t₄ t₅, advance s = .ok () t₁ ∧ inside t₁ = .ok left t₂ ∧
      t₂.lookahead.token = .mark sign ∧ advance t₂ = .ok () t₃ ∧ inside t₃ = .ok right t₄ ∧
      expect (.mark .closeBracket) .closeBracket t₄ = .ok () t₅ ∧
      Passes .uses s ([.mark .openBracket] ++ d.yield ++ [.mark sign] ++ e.yield
        ++ [.mark .closeBracket]) (d.size + e.size) (d.vars ++ e.vars)
        (max (d.nesting + 1) (e.nesting + 1)) t₅ ∧
      left.derivation.shape = d.rename t₅.symbols.index ∧
      right.derivation.shape = e.rename t₅.symbols.index := by
  obtain ⟨t₁, open', opening, behind⟩ := parts.advance
  obtain ⟨left, t₂, one, passes₁, view₁⟩ := inner (behind.first (Nat.le_max_left ..))
    (by simp [Tag.goesOn])
  have behind := behind.second passes₁ (Nat.le_max_right ..)
  have token := behind.mark_ahead
  obtain ⟨t₃, step, joins, behind⟩ := behind.advance
  obtain ⟨right, t₄, two, passes₂, view₂⟩ := inner (behind.front (Nat.le_refl _))
    (by simp [Tag.goesOn])
  obtain ⟨t₅, close, closing, _⟩ := (behind.back passes₂).expectMark .closeBracket
  refine ⟨left, right, t₁, t₂, t₃, t₄, t₅, open', one, token, step, two, close, ?_, ?_, ?_⟩
  · simpa using (((opening.trans passes₁).trans joins).trans passes₂).trans closing
  · simpa [joins.symbols_eq, passes₂.symbols_eq, closing.symbols_eq] using view₁
  · simpa [closing.symbols_eq] using view₂

section Conditions

variable {levels : Nat} {inside : ParseM (Cond Symbol)}

/-- A condition, by induction on the bound: a round takes a `!` off the text. The first token
of what is not a negation tells its production. -/
theorem condUpTo_complete
    (inner : Complete .uses 1 levels (fun a : Cond Symbol => a.derivation.shape) inside) (n : Nat) :
    CompleteUpTo .uses levels (fun a : Cond Symbol => a.derivation.shape)
      (condUpTo levels inside) n := by
  induction n with
  | zero => exact completeUpTo_zero
  | succ n ih =>
    intro s d rest fits stops short
    cases d with
    | condCompare _ d =>
      have parts : Fits .uses levels s d.yield (d.size + 1) d.vars d.nesting rest := by
        simpa using fits
      obtain ⟨c, t₁, one, passes, view⟩ := comparison_complete levels parts.node
        (by simp [Tag.Stops, Tag.goesOn])
      obtain ⟨tail, opens⟩ : ∃ tail, d.yield = .mark .openParen :: tail := by
        cases d
        simp
      -- the parenthesis ahead is looked at twice: it is no `!`, and no bracket
      have token := (opens ▸ parts.node).mark_ahead
      refine ⟨.compare c, t₁.settled, node_eq_ok.2 ⟨parts.free, t₁, ?_, rfl⟩,
        by simpa using passes.node, by simpa [Cond.derivation, ParseState.settled] using view⟩
      exact bind_eq_ok.2 ⟨_, _, peek_eq_ok.2 ⟨token, rfl⟩, bind_eq_ok.2 ⟨_, _,
        peekLine_eq_ok.2 ⟨rfl, rfl⟩, bind_eq_ok.2 ⟨_, _, peek_eq_ok.2 ⟨token, rfl⟩,
          bind_eq_ok.2 ⟨c, t₁, one, rfl⟩⟩⟩⟩
    | condNot _ d =>
      have parts : Fits .uses levels s (.mark .bang :: d.yield) (d.size + 1) d.vars d.nesting
          rest := by
        simpa using fits
      have token := parts.node.mark_ahead
      obtain ⟨t₁, step, bang, behind⟩ := parts.node.advance
      obtain ⟨c, t₂, one, passes, view⟩ := ih behind stops (by
        have := bang.length_text
        simp only [List.length_cons, ParseState.text_reserved] at *
        omega)
      refine ⟨.not s.lookahead.line c, t₂.settled, node_eq_ok.2 ⟨parts.free, t₂, ?_, rfl⟩,
        by simpa using (bang.trans passes).node, ?_⟩
      · exact bind_eq_ok.2 ⟨_, _, peek_eq_ok.2 ⟨token, rfl⟩, bind_eq_ok.2 ⟨_, _,
          peekLine_eq_ok.2 ⟨rfl, rfl⟩, bind_eq_ok.2 ⟨(), t₁, step,
            bind_eq_ok.2 ⟨c, t₂, one, rfl⟩⟩⟩⟩
      · simp [Cond.derivation, ParseState.settled, view]
    | condAnd _ d e =>
      have parts : Fits .uses levels s (.mark .openBracket :: (d.yield ++
          (.mark .andAnd :: (e.yield ++ [.mark .closeBracket])))) (d.size + e.size + 1)
          (d.vars ++ e.vars) (max (d.nesting + 1) (e.nesting + 1)) rest := by
        simpa using fits
      obtain ⟨left, right, t₁, t₂, t₃, t₄, t₅, open', one, token, step, two, close, passes, view₁,
        view₂⟩ := exists_sides inner parts.node
      refine ⟨.and s.lookahead.line left right, t₅.settled,
        node_eq_ok.2 ⟨parts.free, t₅, ?_, rfl⟩, by simpa using passes.node, ?_⟩
      · exact bind_eq_ok.2 ⟨_, _, peek_eq_ok.2 ⟨parts.node.mark_ahead, rfl⟩, bind_eq_ok.2 ⟨_, _,
          peekLine_eq_ok.2 ⟨rfl, rfl⟩, bind_eq_ok.2 ⟨_, _,
            peek_eq_ok.2 ⟨parts.node.mark_ahead, rfl⟩, bind_eq_ok.2 ⟨(), t₁, open',
              bind_eq_ok.2 ⟨left, t₂, one, bind_eq_ok.2 ⟨_, _, peek_eq_ok.2 ⟨token, rfl⟩,
                bind_eq_ok.2 ⟨(), t₃, step, bind_eq_ok.2 ⟨right, t₄, two,
                  bind_eq_ok.2 ⟨(), t₅, close, rfl⟩⟩⟩⟩⟩⟩⟩⟩⟩
      · simp [Cond.derivation, ParseState.settled, view₁, view₂]
    | condOr _ d e =>
      have parts : Fits .uses levels s (.mark .openBracket :: (d.yield ++
          (.mark .orOr :: (e.yield ++ [.mark .closeBracket])))) (d.size + e.size + 1)
          (d.vars ++ e.vars) (max (d.nesting + 1) (e.nesting + 1)) rest := by
        simpa using fits
      obtain ⟨left, right, t₁, t₂, t₃, t₄, t₅, open', one, token, step, two, close, passes, view₁,
        view₂⟩ := exists_sides inner parts.node
      refine ⟨.or s.lookahead.line left right, t₅.settled,
        node_eq_ok.2 ⟨parts.free, t₅, ?_, rfl⟩, by simpa using passes.node, ?_⟩
      · exact bind_eq_ok.2 ⟨_, _, peek_eq_ok.2 ⟨parts.node.mark_ahead, rfl⟩, bind_eq_ok.2 ⟨_, _,
          peekLine_eq_ok.2 ⟨rfl, rfl⟩, bind_eq_ok.2 ⟨_, _,
            peek_eq_ok.2 ⟨parts.node.mark_ahead, rfl⟩, bind_eq_ok.2 ⟨(), t₁, open',
              bind_eq_ok.2 ⟨left, t₂, one, bind_eq_ok.2 ⟨_, _, peek_eq_ok.2 ⟨token, rfl⟩,
                bind_eq_ok.2 ⟨(), t₃, step, bind_eq_ok.2 ⟨right, t₄, two,
                  bind_eq_ok.2 ⟨(), t₅, close, rfl⟩⟩⟩⟩⟩⟩⟩⟩⟩
      · simp [Cond.derivation, ParseState.settled, view₁, view₂]

theorem condWith_complete
    (inner : Complete .uses 1 levels (fun a : Cond Symbol => a.derivation.shape) inside) :
    Complete .uses 0 levels (fun a : Cond Symbol => a.derivation.shape) (condWith levels inside) :=
  CompleteUpTo.repeating (condUpTo_complete inner)

end Conditions

/-- The inside of brackets, by induction on the levels that may still be entered. -/
theorem innerCond_complete (levels : Nat) :
    Complete .uses 1 levels (fun a : Cond Symbol => a.derivation.shape) (innerCond levels) := by
  induction levels with
  | zero => exact tooDeep_complete
  | succ levels ih => exact (condWith_complete ih).nested

theorem cond_complete (levels : Nat) :
    Complete .uses 0 levels (fun a : Cond Symbol => a.derivation.shape) (cond levels) :=
  condWith_complete (innerCond_complete levels)

/-! ### Statements -/

section Statements

variable {levels : Nat} {block : ParseM (StmtSeq Symbol)} {s : ParseState} {rest : List Terminal}

/-- An assignment that is ahead is found, up to the node of the statement around it. -/
theorem exists_assignment {d : Derivation Unit String .assign}
    (fits : Fits .uses levels s d.yield d.size d.vars d.nesting rest) :
    ∃ a s', assignment levels s = .ok a s' ∧ Passes .uses s d.yield d.size d.vars d.nesting s' ∧
      a.derivation.shape = .stmtAssign () (d.rename s'.symbols.index) := by
  cases d with
  | assign _ d e =>
    have parts : Fits .uses levels s (d.yield ++ (.mark .assign :: (e.yield ++
        [.mark .semicolon]))) (d.size + e.size + 1) (d.vars ++ e.vars) (max d.nesting e.nesting)
        rest := by
      simpa using fits
    obtain ⟨target, t₁, name, passes₁, view₁⟩ := identifier_complete .uses levels
      (parts.node.first (Nat.le_max_left ..)) (by simp [Tag.Stops, Tag.goesOn])
    have behind := parts.node.second passes₁ (Nat.le_max_right ..)
    obtain ⟨t₂, step, sign, behind⟩ := behind.expectMark .assign
    obtain ⟨value, t₃, right, passes₂, view₂⟩ := expr_complete levels
      (behind.front (Nat.le_refl _)) (by simp [Tag.goesOn])
    obtain ⟨t₄, close, closing, _⟩ := (behind.back passes₂).expectMark .semicolon
    refine ⟨.assign target value, t₄.settled, node_eq_ok.2 ⟨parts.free, t₄, ?_, rfl⟩,
      by simpa using (((passes₁.trans sign).trans passes₂).trans closing).node, ?_⟩
    · exact bind_eq_ok.2 ⟨target, t₁, name, bind_eq_ok.2 ⟨(), t₂, step,
        bind_eq_ok.2 ⟨value, t₃, right, bind_eq_ok.2 ⟨(), t₄, close, rfl⟩⟩⟩⟩
    · simp [Stmt.derivation, ParseState.settled, view₁, view₂, sign.symbols_eq,
        passes₂.symbols_eq, closing.symbols_eq]

/-- The end of a block that is ahead is taken off. -/
theorem exists_blockEnd
    (fits : Fits .uses levels s [.keyword .endWord, .mark .semicolon] 0 [] 0 rest) :
    ∃ s', blockEnd s = .ok () s' ∧
      Passes .uses s [.keyword .endWord, .mark .semicolon] 0 [] 0 s' := by
  obtain ⟨t, close, closing, behind⟩ := fits.expectKeyword .closing
  obtain ⟨s', step, semicolon, _⟩ := behind.expectMark .semicolon
  exact ⟨s', bind_eq_ok.2 ⟨(), t, close, step⟩, by simpa using closing.trans semicolon⟩

/-- What an `if` or a `while` begins with is taken off, and what follows it fits. -/
theorem exists_guard {opening closing : Keyword} {c : Derivation Unit String .cond}
    {ts : List Terminal} {n k : Nat} {xs : List String} (expected : Expected)
    (fits : Fits .uses levels s (.keyword opening :: (c.yield ++ .keyword closing :: ts))
      (c.size + n) (c.vars ++ xs) (max c.nesting k) rest) :
    ∃ t₁ test t₂ t₃, advance s = .ok () t₁ ∧ cond levels t₁ = .ok test t₂ ∧
      expect (.keyword closing) expected t₂ = .ok () t₃ ∧
      Passes .uses s (.keyword opening :: (c.yield ++ [.keyword closing])) c.size c.vars
        c.nesting t₃ ∧ test.derivation.shape = c.rename t₃.symbols.index ∧
      Fits .uses levels t₃ ts n xs k rest := by
  obtain ⟨t₁, step, start, behind⟩ := fits.advance
  obtain ⟨test, t₂, condition, passes, view⟩ := cond_complete levels
    (behind.first (Nat.le_max_left ..)) (by simp [Tag.goesOn])
  obtain ⟨t₃, word, middle, behind⟩ :=
    (behind.second passes (Nat.le_max_right ..)).expectKeyword expected
  refine ⟨t₁, test, t₂, t₃, step, condition, word, ?_, ?_, behind⟩
  · simpa using (start.trans passes).trans middle
  · simpa [middle.symbols_eq] using view

/-- An `if` that is ahead is found: `else` or `end` ends its first block, and tells whether
there is a second one. -/
theorem exists_conditional {d : Derivation Unit String .ifStmt}
    (inner : Complete .uses 1 levels (fun a : StmtSeq Symbol => a.derivation.shape) block)
    (fits : Fits .uses levels s d.yield d.size d.vars d.nesting rest) :
    ∃ a s', conditional levels block s = .ok a s' ∧
      Passes .uses s d.yield d.size d.vars d.nesting s' ∧
        a.derivation.shape = .stmtIf () (d.rename s'.symbols.index) := by
  cases d with
  | ifThen _ c d =>
    have parts : Fits .uses levels s (.keyword .ifWord :: (c.yield ++ (.keyword .thenWord ::
        (d.yield ++ [.keyword .endWord, .mark .semicolon])))) (c.size + d.size + 1)
        (c.vars ++ d.vars) (max c.nesting (d.nesting + 1)) rest := by
      simpa using fits
    obtain ⟨t₁, test, t₂, t₃, step, condition, word, guard, view₁, behind⟩ :=
      exists_guard .thenBranch parts.node
    obtain ⟨body, t₄, branch, passes, view₂⟩ := inner (behind.front (Nat.le_refl _))
      (by simp [Tag.goesOn])
    have behind := behind.back passes
    have token := behind.keyword_ahead
    obtain ⟨t₅, close, closing⟩ := exists_blockEnd behind
    refine ⟨.ifThen s.lookahead.line test body, t₅.settled,
      node_eq_ok.2 ⟨parts.free, t₅, ?_, rfl⟩,
      by simpa using ((guard.trans passes).trans closing).node, ?_⟩
    · exact bind_eq_ok.2 ⟨_, _, peekLine_eq_ok.2 ⟨rfl, rfl⟩, bind_eq_ok.2 ⟨(), t₁, step,
        bind_eq_ok.2 ⟨test, t₂, condition, bind_eq_ok.2 ⟨(), t₃, word, bind_eq_ok.2 ⟨body, t₄,
          branch, bind_eq_ok.2 ⟨_, _, peek_eq_ok.2 ⟨token, rfl⟩,
            bind_eq_ok.2 ⟨(), t₅, close, rfl⟩⟩⟩⟩⟩⟩⟩
    · simp [Stmt.derivation, ParseState.settled, view₁, view₂, passes.symbols_eq,
        closing.symbols_eq]
  | ifElse _ c d e =>
    have parts : Fits .uses levels s (.keyword .ifWord :: (c.yield ++ (.keyword .thenWord ::
        (d.yield ++ (.keyword .elseWord :: (e.yield ++ [.keyword .endWord, .mark .semicolon]))))))
        (c.size + (d.size + e.size) + 1) (c.vars ++ (d.vars ++ e.vars))
        (max c.nesting (max (d.nesting + 1) (e.nesting + 1))) rest := by
      simpa [Nat.add_assoc] using fits
    obtain ⟨t₁, test, t₂, t₃, step, condition, word, guard, view₁, behind⟩ :=
      exists_guard .thenBranch parts.node
    obtain ⟨body, t₄, branch, passes₁, view₂⟩ := inner (behind.first (Nat.le_max_left ..))
      (by simp [Tag.goesOn])
    have behind := behind.second passes₁ (Nat.le_max_right ..)
    have token := behind.keyword_ahead
    obtain ⟨t₅, step', second, behind⟩ := behind.advance
    obtain ⟨other, t₆, branch', passes₂, view₃⟩ := inner (behind.front (Nat.le_refl _))
      (by simp [Tag.goesOn])
    obtain ⟨t₇, close, closing⟩ := exists_blockEnd (behind.back passes₂)
    refine ⟨.ifElse s.lookahead.line test body other, t₇.settled,
      node_eq_ok.2 ⟨parts.free, t₇, ?_, rfl⟩, ?_, ?_⟩
    · exact bind_eq_ok.2 ⟨_, _, peekLine_eq_ok.2 ⟨rfl, rfl⟩, bind_eq_ok.2 ⟨(), t₁, step,
        bind_eq_ok.2 ⟨test, t₂, condition, bind_eq_ok.2 ⟨(), t₃, word, bind_eq_ok.2 ⟨body, t₄,
          branch, bind_eq_ok.2 ⟨_, _, peek_eq_ok.2 ⟨token, rfl⟩, bind_eq_ok.2 ⟨(), t₅, step',
            bind_eq_ok.2 ⟨other, t₆, branch', bind_eq_ok.2 ⟨(), t₇, close, rfl⟩⟩⟩⟩⟩⟩⟩⟩⟩
    · have all := (((guard.trans passes₁).trans second).trans passes₂).trans closing
      simpa [Nat.max_assoc] using all.node
    · simp [Stmt.derivation, ParseState.settled, view₁, view₂, view₃, passes₁.symbols_eq,
        second.symbols_eq, passes₂.symbols_eq, closing.symbols_eq]

/-- A `while` that is ahead is found; `end` ends its block. -/
theorem exists_loop {d : Derivation Unit String .whileStmt}
    (inner : Complete .uses 1 levels (fun a : StmtSeq Symbol => a.derivation.shape) block)
    (fits : Fits .uses levels s d.yield d.size d.vars d.nesting rest) :
    ∃ a s', loop levels block s = .ok a s' ∧ Passes .uses s d.yield d.size d.vars d.nesting s' ∧
      a.derivation.shape = .stmtWhile () (d.rename s'.symbols.index) := by
  cases d with
  | whileLoop _ c d =>
    have parts : Fits .uses levels s (.keyword .whileWord :: (c.yield ++ (.keyword .loopWord ::
        (d.yield ++ [.keyword .endWord, .mark .semicolon])))) (c.size + d.size + 1)
        (c.vars ++ d.vars) (max c.nesting (d.nesting + 1)) rest := by
      simpa using fits
    obtain ⟨t₁, test, t₂, t₃, step, condition, word, guard, view₁, behind⟩ :=
      exists_guard .loopBody parts.node
    obtain ⟨body, t₄, branch, passes, view₂⟩ := inner (behind.front (Nat.le_refl _))
      (by simp [Tag.goesOn])
    obtain ⟨t₅, close, closing⟩ := exists_blockEnd (behind.back passes)
    refine ⟨.whileLoop s.lookahead.line test body, t₅.settled,
      node_eq_ok.2 ⟨parts.free, t₅, ?_, rfl⟩,
      by simpa using ((guard.trans passes).trans closing).node, ?_⟩
    · exact bind_eq_ok.2 ⟨_, _, peekLine_eq_ok.2 ⟨rfl, rfl⟩, bind_eq_ok.2 ⟨(), t₁, step,
        bind_eq_ok.2 ⟨test, t₂, condition, bind_eq_ok.2 ⟨(), t₃, word, bind_eq_ok.2 ⟨body, t₄,
          branch, bind_eq_ok.2 ⟨(), t₅, close, rfl⟩⟩⟩⟩⟩⟩
    · simp [Stmt.derivation, ParseState.settled, view₁, view₂, passes.symbols_eq,
        closing.symbols_eq]

/-- The names of a `read` or a `write` that is ahead are found. -/
theorem exists_transfer {d : Derivation Unit String .idList} {word : Keyword}
    (fits : Fits .uses levels s (.keyword word :: (d.yield ++ [.mark .semicolon])) (d.size + 1)
      d.vars d.nesting rest) :
    ∃ ids s', transfer s = .ok ids s' ∧
      Passes .uses s ([.keyword word] ++ d.yield ++ [.mark .semicolon]) (d.size + 1) d.vars
        d.nesting s' ∧ ids.derivation.shape = d.rename s'.symbols.index := by
  obtain ⟨t₁, step, opening, behind⟩ := fits.node.advance
  obtain ⟨ids, t₂, names, passes, view⟩ := idList_complete .uses levels
    (behind.front (Nat.le_refl _)) (by simp [Tag.goesOn])
  obtain ⟨t₃, close, closing, _⟩ := (behind.back passes).expectMark .semicolon
  refine ⟨ids, t₃.settled, node_eq_ok.2 ⟨fits.free, t₃, ?_, rfl⟩,
    by simpa using ((opening.trans passes).trans closing).node, ?_⟩
  · exact bind_eq_ok.2 ⟨(), t₁, step, bind_eq_ok.2 ⟨ids, t₂, names,
      bind_eq_ok.2 ⟨(), t₃, close, rfl⟩⟩⟩
  · simpa [ParseState.settled, closing.symbols_eq] using view

/-- A statement. Its first token tells which production it comes from. -/
theorem stmtWith_complete
    (inner : Complete .uses 1 levels (fun a : StmtSeq Symbol => a.derivation.shape) block) :
    Complete .uses 0 levels (fun a : Stmt Symbol => a.derivation.shape)
      (stmtWith levels block) := by
  intro s d rest fits stops
  cases d with
  | stmtAssign _ d =>
    have parts : Fits .uses levels s d.yield (d.size + 1) d.vars d.nesting rest := by
      simpa using fits
    obtain ⟨name, tail, opens⟩ : ∃ name tail, d.yield = .identifier name :: tail := by
      cases d with
      | assign _ target value => cases target; simp
    have token := Token.terminal_eq_identifier_iff.1
      (ParseState.terminal_of_text_eq_cons (opens ▸ parts.node).text)
    obtain ⟨a, t₁, one, passes, view⟩ := exists_assignment parts.node
    refine ⟨a, t₁.settled, node_eq_ok.2 ⟨parts.free, t₁, ?_, rfl⟩, by simpa using passes.node,
      by simpa [ParseState.settled] using view⟩
    exact bind_eq_ok.2 ⟨_, _, peekLine_eq_ok.2 ⟨rfl, rfl⟩, bind_eq_ok.2 ⟨_, _,
      peek_eq_ok.2 ⟨token, rfl⟩, one⟩⟩
  | stmtIf _ d =>
    have parts : Fits .uses levels s d.yield (d.size + 1) d.vars d.nesting rest := by
      simpa using fits
    obtain ⟨tail, opens⟩ : ∃ tail, d.yield = .keyword .ifWord :: tail := by
      cases d <;> simp
    have token := (opens ▸ parts.node).keyword_ahead
    obtain ⟨a, t₁, one, passes, view⟩ := exists_conditional inner parts.node
    refine ⟨a, t₁.settled, node_eq_ok.2 ⟨parts.free, t₁, ?_, rfl⟩, by simpa using passes.node,
      by simpa [ParseState.settled] using view⟩
    exact bind_eq_ok.2 ⟨_, _, peekLine_eq_ok.2 ⟨rfl, rfl⟩, bind_eq_ok.2 ⟨_, _,
      peek_eq_ok.2 ⟨token, rfl⟩, one⟩⟩
  | stmtWhile _ d =>
    have parts : Fits .uses levels s d.yield (d.size + 1) d.vars d.nesting rest := by
      simpa using fits
    obtain ⟨tail, opens⟩ : ∃ tail, d.yield = .keyword .whileWord :: tail := by
      cases d
      simp
    have token := (opens ▸ parts.node).keyword_ahead
    obtain ⟨a, t₁, one, passes, view⟩ := exists_loop inner parts.node
    refine ⟨a, t₁.settled, node_eq_ok.2 ⟨parts.free, t₁, ?_, rfl⟩, by simpa using passes.node,
      by simpa [ParseState.settled] using view⟩
    exact bind_eq_ok.2 ⟨_, _, peekLine_eq_ok.2 ⟨rfl, rfl⟩, bind_eq_ok.2 ⟨_, _,
      peek_eq_ok.2 ⟨token, rfl⟩, one⟩⟩
  | stmtInput _ d =>
    cases d with
    | input _ d =>
      have parts : Fits .uses levels s (.keyword .readWord :: (d.yield ++ [.mark .semicolon]))
          (d.size + 1 + 1) d.vars d.nesting rest := by
        simpa using fits
      obtain ⟨ids, t₁, one, passes, view⟩ := exists_transfer parts.node
      refine ⟨.read s.lookahead.line ids, t₁.settled, node_eq_ok.2 ⟨parts.free, t₁, ?_, rfl⟩,
        by simpa using passes.node, by simp [Stmt.derivation, ParseState.settled, view]⟩
      exact bind_eq_ok.2 ⟨_, _, peekLine_eq_ok.2 ⟨rfl, rfl⟩, bind_eq_ok.2 ⟨_, _,
        peek_eq_ok.2 ⟨parts.node.keyword_ahead, rfl⟩, bind_eq_ok.2 ⟨ids, t₁, one, rfl⟩⟩⟩
  | stmtOutput _ d =>
    cases d with
    | output _ d =>
      have parts : Fits .uses levels s (.keyword .writeWord :: (d.yield ++ [.mark .semicolon]))
          (d.size + 1 + 1) d.vars d.nesting rest := by
        simpa using fits
      obtain ⟨ids, t₁, one, passes, view⟩ := exists_transfer parts.node
      refine ⟨.write s.lookahead.line ids, t₁.settled, node_eq_ok.2 ⟨parts.free, t₁, ?_, rfl⟩,
        by simpa using passes.node, by simp [Stmt.derivation, ParseState.settled, view]⟩
      exact bind_eq_ok.2 ⟨_, _, peekLine_eq_ok.2 ⟨rfl, rfl⟩, bind_eq_ok.2 ⟨_, _,
        peek_eq_ok.2 ⟨parts.node.keyword_ahead, rfl⟩, bind_eq_ok.2 ⟨ids, t₁, one, rfl⟩⟩⟩

/-- Statements are found to the last one, for no token that starts another stands behind it. -/
theorem stmtSeqUpTo_complete
    (inner : Complete .uses 1 levels (fun a : StmtSeq Symbol => a.derivation.shape) block)
    (n : Nat) :
    CompleteUpTo .uses levels (fun a : StmtSeq Symbol => a.derivation.shape)
      (stmtSeqUpTo levels block) n := by
  induction n with
  | zero => exact completeUpTo_zero
  | succ n ih =>
    intro s d rest fits stops short
    cases d with
    | stmtSeqLast _ d =>
      have parts : Fits .uses levels s d.yield (d.size + 1) d.vars d.nesting rest := by
        simpa using fits
      obtain ⟨first, t₁, one, passes, view⟩ := stmtWith_complete inner parts.node
        (by simp [Tag.Stops, Tag.goesOn])
      have ends := (passes.text_eq parts.node ▸ stops).lookahead
      refine ⟨.last first, t₁.settled, node_eq_ok.2 ⟨parts.free, t₁, ?_, rfl⟩,
        by simpa using passes.node, by simpa [StmtSeq.derivation, ParseState.settled] using view⟩
      refine bind_eq_ok.2 ⟨first, t₁, one, bind_eq_ok.2 ⟨_, _, peek_eq_ok.2 ⟨rfl, rfl⟩, ?_⟩⟩
      rw [Token.startsStatement_eq, ends]
      rfl
    | stmtSeqCons _ d e =>
      have parts : Fits .uses levels s (d.yield ++ e.yield) (d.size + e.size + 1)
          (d.vars ++ e.vars) (max d.nesting e.nesting) rest := by
        simpa using fits
      obtain ⟨first, t₁, one, passes, view⟩ := stmtWith_complete inner
        (parts.node.first (Nat.le_max_left ..)) (by simp [Tag.Stops, Tag.goesOn])
      have behind := parts.node.second passes (Nat.le_max_right ..)
      obtain ⟨t, tail, opens, starts⟩ := e.exists_yield_stmtSeq
      have token := ParseState.terminal_of_text_eq_cons (opens ▸ behind).text
      obtain ⟨list, t₂, others, passes', view'⟩ := ih behind stops (by
        have := passes.length_text
        have := List.length_pos_iff.2 d.yield_ne_nil
        simp only [ParseState.text_reserved] at *
        omega)
      refine ⟨.cons first list, t₂.settled, node_eq_ok.2 ⟨parts.free, t₂, ?_, rfl⟩,
        by simpa using (passes.trans passes').node, ?_⟩
      · refine bind_eq_ok.2 ⟨first, t₁, one, bind_eq_ok.2 ⟨_, _, peek_eq_ok.2 ⟨rfl, rfl⟩, ?_⟩⟩
        rw [Token.startsStatement_eq, token, starts]
        exact bind_eq_ok.2 ⟨list, t₂, others, rfl⟩
      · simp [StmtSeq.derivation, ParseState.settled, view, view', passes'.symbols_eq]

theorem stmtSeqWith_complete
    (inner : Complete .uses 1 levels (fun a : StmtSeq Symbol => a.derivation.shape) block) :
    Complete .uses 0 levels (fun a : StmtSeq Symbol => a.derivation.shape)
      (stmtSeqWith levels block) :=
  CompleteUpTo.repeating (stmtSeqUpTo_complete inner)

end Statements

/-- The inside of a block, by induction on the levels that may still be entered. -/
theorem innerBlock_complete (levels : Nat) :
    Complete .uses 1 levels (fun a : StmtSeq Symbol => a.derivation.shape) (innerBlock levels) := by
  induction levels with
  | zero => exact tooDeep_complete
  | succ levels ih => exact (stmtSeqWith_complete ih).nested

theorem stmtSeq_complete (levels : Nat) :
    Complete .uses 0 levels (fun a : StmtSeq Symbol => a.derivation.shape) (stmtSeq levels) :=
  stmtSeqWith_complete (innerBlock_complete levels)

/-! ### Programs -/

/-- A whole text that a derivation in good order derives is parsed into it. -/
theorem exists_program {s : ParseState} {d : Derivation Unit String .program} (ready : s.Ready)
    (whole : s.Whole) (fresh : s.symbols.names = []) (outside : s.depth = 0)
    (text : s.text = d.yield) (named : d.WellNamed)
    (few : d.declared.length ≤ Symbol.limit)
    (room : s.budget.used + d.size ≤ s.budget.capacity) (shallow : d.nesting ≤ maxNesting) :
    ∃ a s', program s = .ok a s' ∧ s'.symbols.names = d.declared ∧
      a.derivation.shape = d.rename s'.symbols.index := by
  cases d with
  | program _ d e =>
    have nesting : max d.nesting e.nesting ≤ maxNesting := by simpa using shallow
    -- up to `begin` names are declared, and behind it they are used
    have front : Fits .declares maxNesting s (.keyword .programWord :: (d.yield ++
        [.keyword .beginWord])) (d.size + 1) d.vars d.nesting (e.yield ++ [.keyword .endWord]) :=
      { ready := ready
        whole := whole
        text := by simp [text]
        room := Nat.le_trans (by simp only [Derivation.size]; omega) room
        names := by simpa [Site.Admits, fresh] using And.intro named.distinct few
        within := Nat.le_trans (Nat.le_max_left ..) nesting
        levels := by rw [outside, Nat.zero_add] }
    obtain ⟨t₁, opening, opens, behind⟩ := front.node.expectKeyword .program
    obtain ⟨decls, t₂, names, declares, view₁⟩ := declSeq_complete maxNesting
      (behind.front (Nat.le_refl _)) (by simp [Tag.goesOn])
    obtain ⟨t₃, middle, begins, behind⟩ := (behind.back declares).expectKeyword .begin
    have table : t₃.symbols.names = d.vars := by
      have := ((opens.trans declares).trans begins).symbols
      simpa [ParseState.reserved, fresh, Site.after] using this
    have back : Fits .uses maxNesting t₃ (e.yield ++ [.keyword .endWord]) e.size e.vars e.nesting
        [] :=
      { ready := behind.ready
        whole := behind.whole
        text := by simpa using behind.text
        room := by
          have := ((opens.trans declares).trans begins).budget
          simp only [this, ParseState.reserved, Budget.used, Derivation.size] at room ⊢
          omega
        names := fun x hx => table ▸ named.known x hx
        within := Nat.le_trans (Nat.le_max_right ..) nesting
        levels := behind.levels }
    obtain ⟨stmts, t₄, body, uses, view₂⟩ := stmtSeq_complete maxNesting
      (back.front (Nat.le_refl _)) (by simp [Tag.goesOn])
    obtain ⟨t₅, closing, closes, behind⟩ := (back.back uses).expectKeyword .closing
    have done : nothingMore t₅ = .ok () t₅ := nothingMore_eq_ok.2 ⟨by simpa using behind.text, rfl⟩
    refine ⟨⟨s.lookahead.line, decls, stmts⟩, t₅.settled,
      node_eq_ok.2 ⟨front.free, t₅, ?_, rfl⟩, ?_, ?_⟩
    · exact bind_eq_ok.2 ⟨_, _, peekLine_eq_ok.2 ⟨rfl, rfl⟩, bind_eq_ok.2 ⟨(), t₁, opening,
        bind_eq_ok.2 ⟨decls, t₂, names, bind_eq_ok.2 ⟨(), t₃, middle, bind_eq_ok.2 ⟨stmts, t₄,
          body, bind_eq_ok.2 ⟨(), t₅, closing, bind_eq_ok.2 ⟨(), t₅, done, rfl⟩⟩⟩⟩⟩⟩⟩
    · change t₅.symbols.names = d.vars
      rw [closes.symbols_eq, uses.symbols_eq, table]
    · simp [Program.derivation, ParseState.settled, view₁, view₂, begins.symbols_eq_of_nil,
        uses.symbols_eq, closes.symbols_eq]

end ParseM

end CoreLang
