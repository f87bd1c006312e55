import CoreLang.Program.Retrieval
import CoreLang.Proofs.Storage

/-!
# Trees that hold a derivation

`Tree.Holds` says that a tree has a derivation under a number: a node for its
production, with the line that it carries, whose parts are held in turn. A stored
program is held under its root (`Tree.holds_of_lies`), and what is held is read
back as it is (`Tree.toProgram_eq`).
-/

namespace CoreLang

namespace Tree

variable {ι : Type} {tag : Tag}

/-- The tree has the node, on the line, under the number. -/
def At (t : Tree) (id : NodeId) (node : Node) (line : Nat) : Prop :=
  t.entries[id.index]? = some ⟨node, line⟩

/-- The tree has the derivation under the number; `name` tells the variables of its
symbols. -/
@[simp] def Holds (t : Tree) (name : Symbol → Option ι) :
    {tag : Tag} → Derivation Nat ι tag → NodeId → Prop
  | _, .program n a b, id =>
    ∃ i j, t.At id (.program i j) n ∧ t.Holds name a i ∧ t.Holds name b j
  | _, .declSeqLast n a, id => ∃ i, t.At id (.declSeq i none) n ∧ t.Holds name a i
  | _, .declSeqCons n a b, id =>
    ∃ i j, t.At id (.declSeq i (some j)) n ∧ t.Holds name a i ∧ t.Holds name b j
  | _, .decl n a, id => ∃ i, t.At id (.decl i) n ∧ t.Holds name a i
  | _, .idListLast n a, id => ∃ i, t.At id (.idList i none) n ∧ t.Holds name a i
  | _, .idListCons n a b, id =>
    ∃ i j, t.At id (.idList i (some j)) n ∧ t.Holds name a i ∧ t.Holds name b j
  | _, .stmtSeqLast n a, id => ∃ i, t.At id (.stmtSeq i none) n ∧ t.Holds name a i
  | _, .stmtSeqCons n a b, id =>
    ∃ i j, t.At id (.stmtSeq i (some j)) n ∧ t.Holds name a i ∧ t.Holds name b j
  | _, .stmtAssign n a, id => ∃ i, t.At id (.stmt .assign i) n ∧ t.Holds name a i
  | _, .stmtIf n a, id => ∃ i, t.At id (.stmt .ifStmt i) n ∧ t.Holds name a i
  | _, .stmtWhile n a, id => ∃ i, t.At id (.stmt .whileStmt i) n ∧ t.Holds name a i
  | _, .stmtInput n a, id => ∃ i, t.At id (.stmt .input i) n ∧ t.Holds name a i
  | _, .stmtOutput n a, id => ∃ i, t.At id (.stmt .output i) n ∧ t.Holds name a i
  | _, .assign n a b, id =>
    ∃ i j, t.At id (.assign i j) n ∧ t.Holds name a i ∧ t.Holds name b j
  | _, .ifThen n a b, id =>
    ∃ i j, t.At id (.ifStmt i j none) n ∧ t.Holds name a i ∧ t.Holds name b j
  | _, .ifElse n a b c, id =>
    ∃ i j k, t.At id (.ifStmt i j (some k)) n ∧ t.Holds name a i ∧ t.Holds name b j ∧
      t.Holds name c k
  | _, .whileLoop n a b, id =>
    ∃ i j, t.At id (.whileStmt i j) n ∧ t.Holds name a i ∧ t.Holds name b j
  | _, .input n a, id => ∃ i, t.At id (.input i) n ∧ t.Holds name a i
  | _, .output n a, id => ∃ i, t.At id (.output i) n ∧ t.Holds name a i
  | _, .condCompare n a, id => ∃ i, t.At id (.condCompare i) n ∧ t.Holds name a i
  | _, .condNot n a, id => ∃ i, t.At id (.condNot i) n ∧ t.Holds name a i
  | _, .condAnd n a b, id =>
    ∃ i j, t.At id (.condAnd i j) n ∧ t.Holds name a i ∧ t.Holds name b j
  | _, .condOr n a b, id =>
    ∃ i j, t.At id (.condOr i j) n ∧ t.Holds name a i ∧ t.Holds name b j
  | _, .comparison n a b c, id =>
    ∃ i j k, t.At id (.comparison i j k) n ∧ t.Holds name a i ∧ t.Holds name b j ∧
      t.Holds name c k
  | _, .compOp n op, id => t.At id (.compOp op) n
  | _, .exprTerm n a, id => ∃ i, t.At id (.exprTerm i) n ∧ t.Holds name a i
  | _, .exprAdd n a b, id =>
    ∃ i j, t.At id (.exprAdd i j) n ∧ t.Holds name a i ∧ t.Holds name b j
  | _, .exprSub n a b, id =>
    ∃ i j, t.At id (.exprSub i j) n ∧ t.Holds name a i ∧ t.Holds name b j
  | _, .termOperand n a, id => ∃ i, t.At id (.termOperand i) n ∧ t.Holds name a i
  | _, .termMul n a b, id =>
    ∃ i j, t.At id (.termMul i j) n ∧ t.Holds name a i ∧ t.Holds name b j
  | _, .operandInt n a, id => ∃ i, t.At id (.operandInt i) n ∧ t.Holds name a i
  | _, .operandIdent n a, id => ∃ i, t.At id (.operandIdent i) n ∧ t.Holds name a i
  | _, .operandParen n a, id => ∃ i, t.At id (.operandParen i) n ∧ t.Holds name a i
  | _, .int n value, id => t.At id (.int value) n
  | _, .ident n var, id => ∃ symbol, t.At id (.ident symbol) n ∧ name symbol = some var

/-! ### Stored derivations are held -/

/-- The nodes stand in the tree one after the other, from number `base` on. -/
def Lies (t : Tree) (base : Nat) (list : List Entry) : Prop :=
  ∀ i (h : i < list.length), t.entries[base + i]? = some list[i]

section Lies

variable {t : Tree} {base : Nat}

/-- The front of what lies in a tree lies there from the same number on. -/
theorem Lies.left {l l' : List Entry} (h : t.Lies base (l ++ l')) : t.Lies base l := by
  intro i within
  rw [h i (by simp only [List.length_append]; omega), List.getElem_append_left within]

/-- The back of what lies in a tree lies there from where the front ends. -/
theorem Lies.right {l l' : List Entry} (h : t.Lies base (l ++ l')) :
    t.Lies (base + l.length) l' := by
  intro i within
  have := h (l.length + i) (by simp only [List.length_append]; omega)
  simpa [Nat.add_assoc] using this

/-- The node behind its parts has the number that follows theirs. -/
theorem Lies.at_root {l : List Entry} {node : Node} {line : Nat}
    (h : t.Lies base (l ++ [⟨node, line⟩])) : t.At ⟨base + l.length⟩ node line := by
  simpa [At] using h.right 0 (by simp)

/-- A stored derivation is held under its last number, with names for its symbols. -/
theorem holds_of_lies {name : Symbol → Option ι} {spell : Symbol → ι}
    {d : Derivation Nat Symbol tag} (stored : t.Lies base (d.entries base))
    (named : ∀ v ∈ d.vars, name v = some (spell v)) :
    t.Holds name (d.rename spell) (d.root base) := by
  -- the cases go by the number of parts: these lie one after the other, and the node that
  -- joins them comes last
  induction d generalizing base with
  | compOp n op | int n value => simpa [Derivation.root, At] using stored 0 (by simp)
  | ident n symbol =>
    refine ⟨symbol, ?_, named symbol (by simp)⟩
    simpa [Derivation.root, At] using stored 0 (by simp)
  | declSeqLast n a iha | decl n a iha | idListLast n a iha | stmtSeqLast n a iha
  | stmtAssign n a iha | stmtIf n a iha | stmtWhile n a iha | stmtInput n a iha
  | stmtOutput n a iha | input n a iha | output n a iha | condCompare n a iha
  | condNot n a iha | exprTerm n a iha | termOperand n a iha | operandInt n a iha
  | operandIdent n a iha | operandParen n a iha =>
    refine ⟨a.root base, ?_, iha (Lies.left stored) named⟩
    simpa [Derivation.root, ← Nat.add_assoc] using stored.at_root
  | program n a b iha ihb | declSeqCons n a b iha ihb | idListCons n a b iha ihb
  | stmtSeqCons n a b iha ihb | assign n a b iha ihb | ifThen n a b iha ihb
  | whileLoop n a b iha ihb | condAnd n a b iha ihb | condOr n a b iha ihb
  | exprAdd n a b iha ihb | exprSub n a b iha ihb | termMul n a b iha ihb =>
    have parts := Lies.left stored
    have second := parts.right
    rw [Derivation.length_entries] at second
    refine ⟨a.root base, b.root (base + a.size), ?_,
      iha parts.left fun v hv => named v (List.mem_append_left _ hv),
      ihb second fun v hv => named v (List.mem_append_right _ hv)⟩
    simpa [Derivation.root, ← Nat.add_assoc] using stored.at_root
  | ifElse n a b c iha ihb ihc | comparison n a b c iha ihb ihc =>
    have parts := Lies.left stored
    have third := parts.right
    have second := parts.left.right
    rw [List.length_append, Derivation.length_entries, Derivation.length_entries,
      ← Nat.add_assoc] at third
    rw [Derivation.length_entries] at second
    refine ⟨a.root base, b.root (base + a.size), c.root (base + a.size + b.size), ?_,
      iha parts.left.left fun v hv => named v (by simp [hv]),
      ihb second fun v hv => named v (by simp [hv]),
      ihc third fun v hv => named v (by simp [hv])⟩
    simpa [Derivation.root, ← Nat.add_assoc] using stored.at_root

end Lies

/-! ### What is held is read back -/

section Retrieval

variable {t : Tree} {name : Symbol → Option ι} {id : NodeId}

/-- A node that the tree has is fetched. -/
theorem At.fetch_eq {node : Node} {line : Nat} (h : t.At id node line) : t.fetch id = .ok node := by
  have found : t.entries[id.index]? = some ⟨node, line⟩ := h
  rw [fetch, get, node?, found]
  rfl

/-- The line of a node is the one that it was stored with. -/
theorem At.line_eq {node : Node} {line : Nat} (h : t.At id node line) : t.line id = line := by
  have found : t.entries[id.index]? = some ⟨node, line⟩ := h
  simp [Tree.line, found]

theorem ok_bind {ε α β : Type} (a : α) (f : α → Except ε β) : (Except.ok a >>= f) = f a := rfl

/-- A name is read back under the symbol that it was stored with. -/
theorem retrieveIdent_eq {x : Ident ι} (held : t.Holds name x.derivation id) :
    t.retrieveIdent name id = .ok x := by
  obtain ⟨symbol, here, named⟩ := held
  simp only [retrieveIdent, here.fetch_eq, ok_bind, named, here.line_eq]
  rfl

/-- A bound on the size of a derivation is not zero, so the reader has a step left. -/
theorem exists_depth {d : Derivation Nat ι tag} {depth : Nat} (deep : d.size ≤ depth) :
    ∃ n, depth = n + 1 :=
  Nat.exists_eq_add_of_le' (Nat.le_trans d.one_le_size deep)

/-- A list is read back from its links, by induction on it: the bound goes down with every
link. -/
theorem retrieveIdList_eq {depth : Nat} {ids : IdList ι} (held : t.Holds name ids.derivation id)
    (deep : ids.derivation.size ≤ depth) : t.retrieveIdList name depth id = .ok ids := by
  induction ids generalizing depth id with
  | last x =>
    obtain ⟨depth, rfl⟩ := exists_depth deep
    obtain ⟨i, here, first⟩ := held
    simp only [retrieveIdList, here.fetch_eq, ok_bind, retrieveIdent_eq first]
    rfl
  | cons x rest ih =>
    obtain ⟨depth, rfl⟩ := exists_depth deep
    obtain ⟨i, j, here, first, others⟩ := held
    simp only [IdList.derivation, Derivation.size] at deep
    have others := ih others (show _ ≤ depth by omega)
    simp only [retrieveIdList, here.fetch_eq, ok_bind, retrieveIdent_eq first, others]
    rfl

theorem retrieveDecl_eq {depth : Nat} {d : Decl ι} (held : t.Holds name d.derivation id)
    (deep : d.derivation.size ≤ depth) : t.retrieveDecl name depth id = .ok d := by
  obtain ⟨i, here, ids⟩ := held
  simp only [Decl.derivation, Derivation.size] at deep
  have ids := retrieveIdList_eq ids (Nat.le_of_succ_le deep)
  simp only [retrieveDecl, here.fetch_eq, ok_bind, ids, here.line_eq]
  rfl

/-- Declarations are read back from their links, like lists. -/
theorem retrieveDeclSeq_eq {depth : Nat} {ds : DeclSeq ι} (held : t.Holds name ds.derivation id)
    (deep : ds.derivation.size ≤ depth) : t.retrieveDeclSeq name depth id = .ok ds := by
  induction ds generalizing depth id with
  | last d =>
    obtain ⟨depth, rfl⟩ := exists_depth deep
    obtain ⟨i, here, first⟩ := held
    simp only [DeclSeq.derivation, Derivation.size] at deep
    have first := retrieveDecl_eq first (Nat.le_of_succ_le_succ deep)
    simp only [retrieveDeclSeq, here.fetch_eq, ok_bind, first]
    rfl
  | cons d rest ih =>
    obtain ⟨depth, rfl⟩ := exists_depth deep
    obtain ⟨i, j, here, first, others⟩ := held
    simp only [DeclSeq.derivation, Derivation.size] at deep
    have first := retrieveDecl_eq first (show _ ≤ depth by omega)
    have others := ih others (show _ ≤ depth by omega)
    simp only [retrieveDeclSeq, here.fetch_eq, ok_bind, first, others]
    rfl

/-- A literal is read back from its leaf. -/
theorem retrieveInt_eq {line : Nat} {value : Int64} (here : t.At id (.int value) line) :
    t.retrieveInt id = .ok value := by
  simp only [retrieveInt, here.fetch_eq, ok_bind]
  rfl

mutual

/-- Expressions, terms and operands are read back together: an operand may hold an expression.
-/
theorem retrieveExpr_eq : (e : Expr ι) → {depth : Nat} → {id : NodeId} →
    t.Holds name e.derivation id → e.derivation.size ≤ depth → t.retrieveExpr name depth id = .ok e
  | .term u, depth, id, held, deep => by
    obtain ⟨depth, rfl⟩ := exists_depth deep
    obtain ⟨i, here, first⟩ := held
    simp only [Expr.derivation, Derivation.size] at deep
    have first := retrieveTerm_eq u first (Nat.le_of_succ_le_succ deep)
    simp only [retrieveExpr, here.fetch_eq, ok_bind, first]
    rfl
  | .add u rest, depth, id, held, deep => by
    obtain ⟨depth, rfl⟩ := exists_depth deep
    obtain ⟨i, j, here, first, others⟩ := held
    simp only [Expr.derivation, Derivation.size] at deep
    have first := retrieveTerm_eq u first (show _ ≤ depth by omega)
    have others := retrieveExpr_eq rest others (show _ ≤ depth by omega)
    simp only [retrieveExpr, here.fetch_eq, ok_bind, first, others]
    rfl
  | .sub u rest, depth, id, held, deep => by
    obtain ⟨depth, rfl⟩ := exists_depth deep
    obtain ⟨i, j, here, first, others⟩ := held
    simp only [Expr.derivation, Derivation.size] at deep
    have first := retrieveTerm_eq u first (show _ ≤ depth by omega)
    have others := retrieveExpr_eq rest others (show _ ≤ depth by omega)
    simp only [retrieveExpr, here.fetch_eq, ok_bind, first, others]
    rfl

theorem retrieveTerm_eq : (u : Term ι) → {depth : Nat} → {id : NodeId} →
    t.Holds name u.derivation id → u.derivation.size ≤ depth → t.retrieveTerm name depth id = .ok u
  | .operand o, depth, id, held, deep => by
    obtain ⟨depth, rfl⟩ := exists_depth deep
    obtain ⟨i, here, first⟩ := held
    simp only [Term.derivation, Derivation.size] at deep
    have first := retrieveOperand_eq o first (Nat.le_of_succ_le_succ deep)
    simp only [retrieveTerm, here.fetch_eq, ok_bind, first]
    rfl
  | .mul o rest, depth, id, held, deep => by
    obtain ⟨depth, rfl⟩ := exists_depth deep
    obtain ⟨i, j, here, first, others⟩ := held
    simp only [Term.derivation, Derivation.size] at deep
    have first := retrieveOperand_eq o first (show _ ≤ depth by omega)
    have others := retrieveTerm_eq rest others (show _ ≤ depth by omega)
    simp only [retrieveTerm, here.fetch_eq, ok_bind, first, others]
    rfl

theorem retrieveOperand_eq : (o : Operand ι) → {depth : Nat} → {id : NodeId} →
    t.Holds name o.derivation id → o.derivation.size ≤ depth →
      t.retrieveOperand name depth id = .ok o
  | .int line value, depth, id, held, deep => by
    obtain ⟨depth, rfl⟩ := exists_depth deep
    obtain ⟨i, here, leaf⟩ := held
    simp only [retrieveOperand, here.fetch_eq, ok_bind, retrieveInt_eq leaf, here.line_eq]
    rfl
  | .ident x, depth, id, held, deep => by
    obtain ⟨depth, rfl⟩ := exists_depth deep
    obtain ⟨i, here, leaf⟩ := held
    simp only [retrieveOperand, here.fetch_eq, ok_bind, retrieveIdent_eq leaf]
    rfl
  | .paren line e, depth, id, held, deep => by
    obtain ⟨depth, rfl⟩ := exists_depth deep
    obtain ⟨i, here, inner⟩ := held
    simp only [Operand.derivation, Derivation.size] at deep
    have inner := retrieveExpr_eq e inner (Nat.le_of_succ_le_succ deep)
    simp only [retrieveOperand, here.fetch_eq, ok_bind, inner, here.line_eq]
    rfl

end

/-- A comparison is read back from its three parts. -/
theorem retrieveComparison_eq {depth : Nat} {c : Comparison ι}
    (held : t.Holds name c.derivation id) (deep : c.derivation.size ≤ depth) :
    t.retrieveComparison name depth id = .ok c := by
  obtain ⟨i, j, k, here, left, op, right⟩ := held
  simp only [Comparison.derivation, Derivation.size] at deep
  have left := retrieveOperand_eq c.left left (show _ ≤ depth by omega)
  have right := retrieveOperand_eq c.right right (show _ ≤ depth by omega)
  have told : t.retrieveCompOp j = .ok c.op := by
    simp only [retrieveCompOp, op.fetch_eq, ok_bind]
    rfl
  simp only [retrieveComparison, here.fetch_eq, ok_bind, told, left, right, here.line_eq,
    op.line_eq]
  rfl

/-- A condition is read back, by induction on it. -/
theorem retrieveCond_eq {depth : Nat} {c : Cond ι} (held : t.Holds name c.derivation id)
    (deep : c.derivation.size ≤ depth) : t.retrieveCond name depth id = .ok c := by
  induction c generalizing depth id with
  | compare c =>
    obtain ⟨depth, rfl⟩ := exists_depth deep
    obtain ⟨i, here, inner⟩ := held
    simp only [Cond.derivation, Derivation.size] at deep
    have inner := retrieveComparison_eq inner (Nat.le_of_succ_le_succ deep)
    simp only [retrieveCond, here.fetch_eq, ok_bind, inner]
    rfl
  | not line c ih =>
    obtain ⟨depth, rfl⟩ := exists_depth deep
    obtain ⟨i, here, inner⟩ := held
    simp only [Cond.derivation, Derivation.size] at deep
    have inner := ih inner (Nat.le_of_succ_le_succ deep)
    simp only [retrieveCond, here.fetch_eq, ok_bind, inner, here.line_eq]
    rfl
  | and line left right ihl ihr | or line left right ihl ihr =>
    obtain ⟨depth, rfl⟩ := exists_depth deep
    obtain ⟨i, j, here, one, two⟩ := held
    simp only [Cond.derivation, Derivation.size] at deep
    have one := ihl one (show _ ≤ depth by omega)
    have two := ihr two (show _ ≤ depth by omega)
    simp only [retrieveCond, here.fetch_eq, ok_bind, one, two, here.line_eq]
    rfl

mutual

/-- Statements and sequences of them are read back together: a statement may hold a block. -/
theorem retrieveStmt_eq : (s : Stmt ι) → {depth : Nat} → {id : NodeId} →
    t.Holds name s.derivation id → s.derivation.size ≤ depth → t.retrieveStmt name depth id = .ok s
  | .assign target value, depth, id, held, deep => by
    obtain ⟨depth, rfl⟩ := exists_depth deep
    obtain ⟨i, here, j, k, below, left, right⟩ := held
    simp only [Stmt.derivation, Derivation.size] at deep
    have right := retrieveExpr_eq value right (show _ ≤ depth by omega)
    simp only [retrieveStmt, here.fetch_eq, below.fetch_eq, ok_bind, retrieveIdent_eq left, right]
    rfl
  | .ifThen line cond body, depth, id, held, deep => by
    obtain ⟨depth, rfl⟩ := exists_depth deep
    obtain ⟨i, here, j, k, below, test, branch⟩ := held
    simp only [Stmt.derivation, Derivation.size] at deep
    have test := retrieveCond_eq test (show _ ≤ depth by omega)
    have branch := retrieveStmtSeq_eq body branch (show _ ≤ depth by omega)
    simp only [retrieveStmt, here.fetch_eq, below.fetch_eq, ok_bind, test, branch, below.line_eq]
    rfl
  | .ifElse line cond body other, depth, id, held, deep => by
    obtain ⟨depth, rfl⟩ := exists_depth deep
    obtain ⟨i, here, j, k, l, below, test, branch, branch'⟩ := held
    simp only [Stmt.derivation, Derivation.size] at deep
    have test := retrieveCond_eq test (show _ ≤ depth by omega)
    have branch := retrieveStmtSeq_eq body branch (show _ ≤ depth by omega)
    have branch' := retrieveStmtSeq_eq other branch' (show _ ≤ depth by omega)
    simp only [retrieveStmt, here.fetch_eq, below.fetch_eq, ok_bind, test, branch, branch',
      below.line_eq]
    rfl
  | .whileLoop line cond body, depth, id, held, deep => by
    obtain ⟨depth, rfl⟩ := exists_depth deep
    obtain ⟨i, here, j, k, below, test, branch⟩ := held
    simp only [Stmt.derivation, Derivation.size] at deep
    have test := retrieveCond_eq test (show _ ≤ depth by omega)
    have branch := retrieveStmtSeq_eq body branch (show _ ≤ depth by omega)
    simp only [retrieveStmt, here.fetch_eq, below.fetch_eq, ok_bind, test, branch, below.line_eq]
    rfl
  | .read line ids, depth, id, held, deep => by
    obtain ⟨depth, rfl⟩ := exists_depth deep
    obtain ⟨i, here, j, below, list⟩ := held
    simp only [Stmt.derivation, Derivation.size] at deep
    have list := retrieveIdList_eq list (show _ ≤ depth by omega)
    simp only [retrieveStmt, here.fetch_eq, below.fetch_eq, ok_bind, list, below.line_eq]
    rfl
  | .write line ids, depth, id, held, deep => by
    obtain ⟨depth, rfl⟩ := exists_depth deep
    obtain ⟨i, here, j, below, list⟩ := held
    simp only [Stmt.derivation, Derivation.size] at deep
    have list := retrieveIdList_eq list (show _ ≤ depth by omega)
    simp only [retrieveStmt, here.fetch_eq, below.fetch_eq, ok_bind, list, below.line_eq]
    rfl

theorem retrieveStmtSeq_eq : (s : StmtSeq ι) → {depth : Nat} → {id : NodeId} →
    t.Holds name s.derivation id → s.derivation.size ≤ depth →
      t.retrieveStmtSeq name depth id = .ok s
  | .last s, depth, id, held, deep => by
    obtain ⟨depth, rfl⟩ := exists_depth deep
    obtain ⟨i, here, first⟩ := held
    simp only [StmtSeq.derivation, Derivation.size] at deep
    have first := retrieveStmt_eq s first (Nat.le_of_succ_le_succ deep)
    simp only [retrieveStmtSeq, here.fetch_eq, ok_bind, first]
    rfl
  | .cons s rest, depth, id, held, deep => by
    obtain ⟨depth, rfl⟩ := exists_depth deep
    obtain ⟨i, j, here, first, others⟩ := held
    simp only [StmtSeq.derivation, Derivation.size] at deep
    have first := retrieveStmt_eq s first (show _ ≤ depth by omega)
    have others := retrieveStmtSeq_eq rest others (show _ ≤ depth by omega)
    simp only [retrieveStmtSeq, here.fetch_eq, ok_bind, first, others]
    rfl

end

/-- A program that a tree holds under its root is what is read from it. -/
theorem toProgram_eq {p : Program ι} {root : NodeId} (rooted : t.root = some root)
    (held : t.Holds name p.derivation root) (small : p.derivation.size ≤ t.size) :
    t.toProgram name = .ok p := by
  obtain ⟨i, j, here, decls, stmts⟩ := held
  simp only [Program.derivation, Derivation.size] at small
  have decls := retrieveDeclSeq_eq decls (show _ ≤ t.size + 1 by omega)
  have stmts := retrieveStmtSeq_eq p.stmts stmts (show _ ≤ t.size + 1 by omega)
  simp only [toProgram, rooted, here.fetch_eq, ok_bind, decls, stmts, here.line_eq]
  rfl

end Retrieval

end Tree

end CoreLang
