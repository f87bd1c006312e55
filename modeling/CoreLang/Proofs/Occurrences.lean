import CoreLang.Proofs.Shape

/-!
# Every node is a part of the program

A parsed tree has no stray nodes: under every number there is an expression, a condition,
a statement or whatever else the tag of the node says, and the tree holds all of it there
(`Parsed.Shows.exists_part`). What is shown for an expression or a condition that a tree
holds so holds for every node with the tag of one.
-/

namespace CoreLang

namespace Derivation

variable {ι : Type} {tag : Tag}

/-- The derivation is that of an abstract form: its notes are the lines of first tokens. -/
def Abstract : {tag : Tag} → Derivation Nat ι tag → Prop
  | .program, d => ∃ p : Program ι, d = p.derivation
  | .declSeq, d => ∃ ds : DeclSeq ι, d = ds.derivation
  | .decl, d => ∃ decl : Decl ι, d = decl.derivation
  | .idList, d => ∃ ids : IdList ι, d = ids.derivation
  | .stmtSeq, d => ∃ ss : StmtSeq ι, d = ss.derivation
  | .stmt, d => ∃ s : Stmt ι, d = s.derivation
  | .assign, d => ∃ (line : Nat) (target : Ident ι) (value : Expr ι),
      d = .assign line target.derivation value.derivation
  | .ifStmt, d => (∃ (line : Nat) (cond : Cond ι) (body : StmtSeq ι),
      d = .ifThen line cond.derivation body.derivation) ∨
    ∃ (line : Nat) (cond : Cond ι) (body other : StmtSeq ι),
      d = .ifElse line cond.derivation body.derivation other.derivation
  | .whileStmt, d => ∃ (line : Nat) (cond : Cond ι) (body : StmtSeq ι),
      d = .whileLoop line cond.derivation body.derivation
  | .input, d => ∃ (line : Nat) (ids : IdList ι), d = .input line ids.derivation
  | .output, d => ∃ (line : Nat) (ids : IdList ι), d = .output line ids.derivation
  | .cond, d => ∃ c : Cond ι, d = c.derivation
  | .comparison, d => ∃ c : Comparison ι, d = c.derivation
  | .expr, d => ∃ e : Expr ι, d = e.derivation
  | .term, d => ∃ u : Term ι, d = u.derivation
  | .operand, d => ∃ o : Operand ι, d = o.derivation
  | .compOp, _ | .int, _ | .ident, _ => True

/-- The parts of an abstract form are abstract forms. -/
theorem Abstract.parts {d : Derivation Nat ι tag} (h : d.Abstract) :
    ∀ part ∈ d.parts, part.2.Abstract := by
  cases tag with
  | compOp | int | ident =>
    cases d
    simp [Derivation.parts]
  | program =>
    obtain ⟨p, rfl⟩ := h
    simp [Program.derivation, Derivation.parts, Abstract]
  | declSeq =>
    obtain ⟨ds, rfl⟩ := h
    cases ds <;> simp [DeclSeq.derivation, Derivation.parts, Abstract]
  | decl =>
    obtain ⟨decl, rfl⟩ := h
    simp [Decl.derivation, Derivation.parts, Abstract]
  | idList =>
    obtain ⟨ids, rfl⟩ := h
    cases ids <;> simp [IdList.derivation, Derivation.parts, Abstract]
  | stmtSeq =>
    obtain ⟨ss, rfl⟩ := h
    cases ss <;> simp [StmtSeq.derivation, Derivation.parts, Abstract]
  | stmt =>
    obtain ⟨s, rfl⟩ := h
    cases s <;> simp [Stmt.derivation, Derivation.parts, Abstract]
  | assign =>
    obtain ⟨line, target, value, rfl⟩ := h
    simp [Derivation.parts, Abstract]
  | ifStmt =>
    obtain ⟨line, cond, body, rfl⟩ | ⟨line, cond, body, other, rfl⟩ := h <;>
      simp [Derivation.parts, Abstract]
  | whileStmt =>
    obtain ⟨line, cond, body, rfl⟩ := h
    simp [Derivation.parts, Abstract]
  | input | output =>
    obtain ⟨line, ids, rfl⟩ := h
    simp [Derivation.parts, Abstract]
  | cond =>
    obtain ⟨c, rfl⟩ := h
    cases c <;> simp [Cond.derivation, Derivation.parts, Abstract]
  | comparison =>
    obtain ⟨c, rfl⟩ := h
    simp [Comparison.derivation, Derivation.parts, Abstract]
  | expr =>
    obtain ⟨e, rfl⟩ := h
    cases e <;> simp [Expr.derivation, Derivation.parts, Abstract]
  | term =>
    obtain ⟨u, rfl⟩ := h
    cases u <;> simp [Term.derivation, Derivation.parts, Abstract]
  | operand =>
    obtain ⟨o, rfl⟩ := h
    cases o <;> simp [Operand.derivation, Derivation.parts, Abstract]

end Derivation

namespace Tree

variable {t : Tree} {tag : Tag} {base : Nat} {d : Derivation Nat Symbol tag}

/-- Under the number of a stored node there is a part of what is stored. -/
theorem Lies.exists_part (stored : t.Lies base (d.entries base)) (abstract : d.Abstract)
    {id : NodeId} {node : Node} (after : base ≤ id.index) (before : id.index < base + d.size)
    (here : t.node? id = some node) :
    ∃ base' tag', ∃ part : Derivation Nat Symbol tag', node.tag = tag' ∧ part.Abstract ∧
      t.Lies base' (part.entries base') ∧ part.root base' = id ∧ part.vars ⊆ d.vars ∧
        part.size ≤ d.size := by
  induction d using Derivation.by_parts generalizing base with
  | step d ih =>
  obtain ⟨own, joins, top, below⟩ := stored.joins
  by_cases last : id.index = base + Derivation.sizes d.parts
  · obtain rfl : id = d.root base := by
      rw [Derivation.root_eq, ← last]
    obtain rfl := Option.some.inj (top.symm.trans here)
    exact ⟨base, _, d, joins.tag_eq, abstract, stored, rfl, List.Subset.refl _, Nat.le_refl _⟩
  · have size := d.size_eq
    have early : id.index < base + Derivation.sizes d.parts := by omega
    obtain ⟨piece, among, after', before'⟩ := Derivation.exists_located after early
    obtain ⟨listed, start, stop⟩ := Derivation.mem_located among
    obtain ⟨base', tag', part, same, abstract', stored', top', vars, small⟩ :=
      ih _ listed (below piece among) (abstract.parts _ listed) after' before'
    refine ⟨base', tag', part, same, abstract', stored', top', fun v hv => ?_, ?_⟩
    · rw [joins.vars_eq]
      exact List.mem_append_right _ (List.mem_flatMap.2 ⟨_, listed, vars hv⟩)
    · have small : part.size ≤ piece.derivation.size := small
      simp only [Derivation.Located.stop] at stop
      omega

end Tree

namespace Parsed.Shows

variable {parsed : Parsed} {capacity : Nat} {d : Derivation Unit String .program}
  {p : Program Symbol} {id : NodeId} {node : Node}

/-- Under every number of the tree there is a part of the program, held with the names that
the table gives. -/
theorem exists_part (h : parsed.Shows capacity d p) (named : d.WellNamed)
    (here : parsed.tree.node? id = some node) :
    ∃ tag, ∃ part : Derivation Nat Symbol tag, node.tag = tag ∧ part.Abstract ∧
      parsed.tree.Holds parsed.symbols.name? (part.rename parsed.symbols.spell) id ∧
        part.size ≤ parsed.tree.size := by
  have whole := Tree.lies_of_stored h.stored
  obtain ⟨base, tag, part, same, abstract, stored, rfl, vars, small⟩ :=
    whole.exists_part ⟨p, rfl⟩ (Nat.zero_le _) (Tree.index_lt_of_node? h.stored here) here
  refine ⟨tag, part, same, abstract, ?_, ?_⟩
  · exact Tree.holds_of_lies stored fun v hv => h.vars_named named v (vars hv)
  · rw [Tree.size_of_stored h.stored]
    exact small

theorem exists_expr (h : parsed.Shows capacity d p) (named : d.WellNamed)
    (here : parsed.tree.node? id = some node) (expression : node.tag = .expr) :
    ∃ e : Expr String, parsed.tree.Holds parsed.symbols.name? e.derivation id ∧
      e.derivation.size ≤ parsed.tree.size := by
  obtain ⟨tag, part, same, abstract, held, small⟩ := h.exists_part named here
  obtain rfl := same.symm.trans expression
  obtain ⟨e, rfl⟩ := abstract
  rw [← Expr.derivation_rename] at held
  refine ⟨_, held, ?_⟩
  rw [Expr.derivation_rename, Derivation.size_map]
  exact small

theorem exists_cond (h : parsed.Shows capacity d p) (named : d.WellNamed)
    (here : parsed.tree.node? id = some node) (condition : node.tag = .cond) :
    ∃ c : Cond String, parsed.tree.Holds parsed.symbols.name? c.derivation id ∧
      c.derivation.size ≤ parsed.tree.size := by
  obtain ⟨tag, part, same, abstract, held, small⟩ := h.exists_part named here
  obtain rfl := same.symm.trans condition
  obtain ⟨c, rfl⟩ := abstract
  rw [← Cond.derivation_rename] at held
  refine ⟨_, held, ?_⟩
  rw [Cond.derivation_rename, Derivation.size_map]
  exact small

end Parsed.Shows

end CoreLang
