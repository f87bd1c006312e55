import CoreLang.Program.Storage
import CoreLang.Proofs.Derivation

/-!
# Where the nodes of a program are stored

`Derivation.entries` lists the nodes of a derivation in the order in which they are
stored, first parts first and the root last, with the numbers they have when the
first of them is number `base`. Storing a program adds these nodes and no others
(`Program.store_eq`), and but for the lines they depend on the shape of the
derivation alone.
-/

namespace CoreLang

namespace Derivation

variable {α β ι : Type} {tag : Tag}

/-- The number of the root of a derivation whose first node is number `base`. -/
def root (d : Derivation α ι tag) (base : Nat) : NodeId :=
  ⟨base + d.size - 1⟩

/-- The nodes of a derivation from number `base` on. -/
@[simp] def entries : {tag : Tag} → Derivation Nat Symbol tag → Nat → List Entry
  | _, .program n a b, base =>
    a.entries base ++ b.entries (base + a.size)
      ++ [⟨.program (a.root base) (b.root (base + a.size)), n⟩]
  | _, .declSeqLast n a, base => a.entries base ++ [⟨.declSeq (a.root base) none, n⟩]
  | _, .declSeqCons n a b, base =>
    a.entries base ++ b.entries (base + a.size)
      ++ [⟨.declSeq (a.root base) (some (b.root (base + a.size))), n⟩]
  | _, .decl n a, base => a.entries base ++ [⟨.decl (a.root base), n⟩]
  | _, .idListLast n a, base => a.entries base ++ [⟨.idList (a.root base) none, n⟩]
  | _, .idListCons n a b, base =>
    a.entries base ++ b.entries (base + a.size)
      ++ [⟨.idList (a.root base) (some (b.root (base + a.size))), n⟩]
  | _, .stmtSeqLast n a, base => a.entries base ++ [⟨.stmtSeq (a.root base) none, n⟩]
  | _, .stmtSeqCons n a b, base =>
    a.entries base ++ b.entries (base + a.size)
      ++ [⟨.stmtSeq (a.root base) (some (b.root (base + a.size))), n⟩]
  | _, .stmtAssign n a, base => a.entries base ++ [⟨.stmt .assign (a.root base), n⟩]
  | _, .stmtIf n a, base => a.entries base ++ [⟨.stmt .ifStmt (a.root base), n⟩]
  | _, .stmtWhile n a, base => a.entries base ++ [⟨.stmt .whileStmt (a.root base), n⟩]
  | _, .stmtInput n a, base => a.entries base ++ [⟨.stmt .input (a.root base), n⟩]
  | _, .stmtOutput n a, base => a.entries base ++ [⟨.stmt .output (a.root base), n⟩]
  | _, .assign n a b, base =>
    a.entries base ++ b.entries (base + a.size)
      ++ [⟨.assign (a.root base) (b.root (base + a.size)), n⟩]
  | _, .ifThen n a b, base =>
    a.entries base ++ b.entries (base + a.size)
      ++ [⟨.ifStmt (a.root base) (b.root (base + a.size)) none, n⟩]
  | _, .ifElse n a b c, base =>
    a.entries base ++ b.entries (base + a.size) ++ c.entries (base + a.size + b.size)
      ++ [⟨.ifStmt (a.root base) (b.root (base + a.size))
        (some (c.root (base + a.size + b.size))), n⟩]
  | _, .whileLoop n a b, base =>
    a.entries base ++ b.entries (base + a.size)
      ++ [⟨.whileStmt (a.root base) (b.root (base + a.size)), n⟩]
  | _, .input n a, base => a.entries base ++ [⟨.input (a.root base), n⟩]
  | _, .output n a, base => a.entries base ++ [⟨.output (a.root base), n⟩]
  | _, .condCompare n a, base => a.entries base ++ [⟨.condCompare (a.root base), n⟩]
  | _, .condNot n a, base => a.entries base ++ [⟨.condNot (a.root base), n⟩]
  | _, .condAnd n a b, base =>
    a.entries base ++ b.entries (base + a.size)
      ++ [⟨.condAnd (a.root base) (b.root (base + a.size)), n⟩]
  | _, .condOr n a b, base =>
    a.entries base ++ b.entries (base + a.size)
      ++ [⟨.condOr (a.root base) (b.root (base + a.size)), n⟩]
  | _, .comparison n a b c, base =>
    a.entries base ++ b.entries (base + a.size) ++ c.entries (base + a.size + b.size)
      ++ [⟨.comparison (a.root base) (b.root (base + a.size)) (c.root (base + a.size + b.size)), n⟩]
  | _, .compOp n op, _ => [⟨.compOp op, n⟩]
  | _, .exprTerm n a, base => a.entries base ++ [⟨.exprTerm (a.root base), n⟩]
  | _, .exprAdd n a b, base =>
    a.entries base ++ b.entries (base + a.size)
      ++ [⟨.exprAdd (a.root base) (b.root (base + a.size)), n⟩]
  | _, .exprSub n a b, base =>
    a.entries base ++ b.entries (base + a.size)
      ++ [⟨.exprSub (a.root base) (b.root (base + a.size)), n⟩]
  | _, .termOperand n a, base => a.entries base ++ [⟨.termOperand (a.root base), n⟩]
  | _, .termMul n a b, base =>
    a.entries base ++ b.entries (base + a.size)
      ++ [⟨.termMul (a.root base) (b.root (base + a.size)), n⟩]
  | _, .operandInt n a, base => a.entries base ++ [⟨.operandInt (a.root base), n⟩]
  | _, .operandIdent n a, base => a.entries base ++ [⟨.operandIdent (a.root base), n⟩]
  | _, .operandParen n a, base => a.entries base ++ [⟨.operandParen (a.root base), n⟩]
  | _, .int n value, _ => [⟨.int value, n⟩]
  | _, .ident n symbol, _ => [⟨.ident symbol, n⟩]

@[simp] theorem length_entries (d : Derivation Nat Symbol tag) (base : Nat) :
    (d.entries base).length = d.size := by
  induction d generalizing base <;>
    simp only [entries, size, List.length_append, List.length_cons, List.length_nil, *]

@[simp] theorem root_map {κ : Type} (f : α → β) (g : ι → κ) (d : Derivation α ι tag) (base : Nat) :
    (d.map f g).root base = d.root base := by
  simp only [root, size_map]

/-- The nodes say nothing of the notes. -/
theorem map_node_entries_map (f : Nat → Nat) (d : Derivation Nat Symbol tag) (base : Nat) :
    ((d.map f id).entries base).map Entry.node = (d.entries base).map Entry.node := by
  induction d generalizing base <;>
    simp only [map, entries, size_map, root_map, List.map_append, List.map_cons, List.map_nil,
      id_eq, *]

/-- Derivations of one shape have the same nodes. -/
theorem map_node_entries_eq {d e : Derivation Nat Symbol tag} (same : d.shape = e.shape)
    (base : Nat) : (d.entries base).map Entry.node = (e.entries base).map Entry.node := by
  have blank : d.map (fun _ => 0) id = e.map (fun _ => 0) id := by
    have := congrArg (map (fun _ => 0) id) same
    rwa [map_map, map_map] at this
  rw [← map_node_entries_map (fun _ => 0) d, blank, map_node_entries_map]

end Derivation

/-- Storing `d` behind the nodes `before` gives `after`. -/
structure Stores {tag : Tag} (before : Array Entry) (d : Derivation Nat Symbol tag)
    (after : Array Entry) : Prop where
  toList_eq : after.toList = before.toList ++ d.entries before.size

namespace Stores

variable {tag tag' : Tag} {a b c : Array Entry} {d : Derivation Nat Symbol tag}
  {e : Derivation Nat Symbol tag'}

theorem size_eq (h : Stores a d b) : b.size = a.size + d.size := by
  have := congrArg List.length h.toList_eq
  simpa using this

theorem lastStored_eq (h : Stores a d b) : lastStored b = d.root a.size := by
  rw [lastStored, Derivation.root, h.size_eq]

end Stores

theorem Ident.stores (es : Array Entry) (id : Ident Symbol) :
    Stores es id.derivation (id.store es) :=
  ⟨by simp [store, derivation]⟩

theorem IdList.stores (es : Array Entry) : (ids : IdList Symbol) →
    Stores es ids.derivation (ids.store es)
  | .last id =>
    have h := id.stores es
    ⟨by simp [store, derivation, h.toList_eq, h.lastStored_eq]⟩
  | .cons id rest =>
    have h := id.stores es
    have h' := rest.stores (id.store es)
    ⟨by simp [store, derivation, h.toList_eq, h.lastStored_eq, h'.toList_eq, h'.lastStored_eq,
      h.size_eq]⟩

theorem Decl.stores (es : Array Entry) (d : Decl Symbol) : Stores es d.derivation (d.store es) :=
  have h := d.ids.stores es
  ⟨by simp [store, derivation, h.toList_eq, h.lastStored_eq]⟩

theorem DeclSeq.stores (es : Array Entry) : (ds : DeclSeq Symbol) →
    Stores es ds.derivation (ds.store es)
  | .last d =>
    have h := d.stores es
    ⟨by simp [store, derivation, h.toList_eq, h.lastStored_eq]⟩
  | .cons d rest =>
    have h := d.stores es
    have h' := rest.stores (d.store es)
    ⟨by simp [store, derivation, h.toList_eq, h.lastStored_eq, h'.toList_eq, h'.lastStored_eq,
      h.size_eq]⟩

mutual

theorem Expr.stores (es : Array Entry) : (e : Expr Symbol) → Stores es e.derivation (e.store es)
  | .term t =>
    have h := t.stores es
    ⟨by simp [Expr.store, Expr.derivation, h.toList_eq, h.lastStored_eq]⟩
  | .add t rest =>
    have h := t.stores es
    have h' := rest.stores (t.store es)
    ⟨by simp [Expr.store, Expr.derivation, h.toList_eq, h.lastStored_eq, h'.toList_eq,
      h'.lastStored_eq, h.size_eq]⟩
  | .sub t rest =>
    have h := t.stores es
    have h' := rest.stores (t.store es)
    ⟨by simp [Expr.store, Expr.derivation, h.toList_eq, h.lastStored_eq, h'.toList_eq,
      h'.lastStored_eq, h.size_eq]⟩

theorem Term.stores (es : Array Entry) : (t : Term Symbol) → Stores es t.derivation (t.store es)
  | .operand o =>
    have h := o.stores es
    ⟨by simp [Term.store, Term.derivation, h.toList_eq, h.lastStored_eq]⟩
  | .mul o rest =>
    have h := o.stores es
    have h' := rest.stores (o.store es)
    ⟨by simp [Term.store, Term.derivation, h.toList_eq, h.lastStored_eq, h'.toList_eq,
      h'.lastStored_eq, h.size_eq]⟩

theorem Operand.stores (es : Array Entry) : (o : Operand Symbol) →
    Stores es o.derivation (o.store es)
  | .int line value =>
    ⟨by simp [Operand.store, Operand.derivation, lastStored, Derivation.root]⟩
  | .ident id =>
    have h := id.stores es
    ⟨by simp [Operand.store, Operand.derivation, h.toList_eq, h.lastStored_eq]⟩
  | .paren line e =>
    have h := e.stores es
    ⟨by simp [Operand.store, Operand.derivation, h.toList_eq, h.lastStored_eq]⟩

end

theorem Comparison.stores (es : Array Entry) (c : Comparison Symbol) :
    Stores es c.derivation (c.store es) :=
  have h := c.left.stores es
  have op : Stores (c.left.store es) (.compOp c.opLine c.op)
      ((c.left.store es).push { node := .compOp c.op, line := c.opLine }) := ⟨by simp⟩
  have h' := c.right.stores ((c.left.store es).push { node := .compOp c.op, line := c.opLine })
  ⟨by simp [store, derivation, h.toList_eq, h.lastStored_eq, op.lastStored_eq, h'.toList_eq,
    h'.lastStored_eq, h.size_eq]⟩

theorem Cond.stores (es : Array Entry) : (c : Cond Symbol) → Stores es c.derivation (c.store es)
  | .compare c =>
    have h := c.stores es
    ⟨by simp [store, derivation, h.toList_eq, h.lastStored_eq]⟩
  | .not line c =>
    have h := c.stores es
    ⟨by simp [store, derivation, h.toList_eq, h.lastStored_eq]⟩
  | .and line left right =>
    have h := left.stores es
    have h' := right.stores (left.store es)
    ⟨by simp [store, derivation, h.toList_eq, h.lastStored_eq, h'.toList_eq, h'.lastStored_eq,
      h.size_eq]⟩
  | .or line left right =>
    have h := left.stores es
    have h' := right.stores (left.store es)
    ⟨by simp [store, derivation, h.toList_eq, h.lastStored_eq, h'.toList_eq, h'.lastStored_eq,
      h.size_eq]⟩

/-- The node of a statement is stored behind the node that says what it does. -/
theorem storeStmt_eq {tag : Tag} {before after : Array Entry} {d : Derivation Nat Symbol tag}
    (h : Stores before d after) (form : StmtForm) (line : Nat) :
    (storeStmt form line after).toList =
      before.toList ++ d.entries before.size ++ [⟨.stmt form (d.root before.size), line⟩] := by
  simp [storeStmt, h.toList_eq, h.lastStored_eq]

mutual

theorem Stmt.stores (es : Array Entry) : (s : Stmt Symbol) → Stores es s.derivation (s.store es)
  | .assign target value =>
    have h := target.stores es
    have h' := value.stores (target.store es)
    have inner : Stores es (.assign target.line target.derivation value.derivation)
        ((value.store (target.store es)).push ⟨.assign (lastStored (target.store es))
          (lastStored (value.store (target.store es))), target.line⟩) :=
      ⟨by simp [h.toList_eq, h.lastStored_eq, h'.toList_eq, h'.lastStored_eq, h.size_eq]⟩
    ⟨by simp [Stmt.store, Stmt.derivation, storeStmt_eq inner]⟩
  | .ifThen line cond body =>
    have h := cond.stores es
    have h' := body.stores (cond.store es)
    have inner : Stores es (.ifThen line cond.derivation body.derivation)
        ((body.store (cond.store es)).push ⟨.ifStmt (lastStored (cond.store es))
          (lastStored (body.store (cond.store es))) none, line⟩) :=
      ⟨by simp [h.toList_eq, h.lastStored_eq, h'.toList_eq, h'.lastStored_eq, h.size_eq]⟩
    ⟨by simp [Stmt.store, Stmt.derivation, storeStmt_eq inner]⟩
  | .ifElse line cond body other =>
    have h := cond.stores es
    have h' := body.stores (cond.store es)
    have h'' := other.stores (body.store (cond.store es))
    have inner : Stores es (.ifElse line cond.derivation body.derivation other.derivation)
        ((other.store (body.store (cond.store es))).push ⟨.ifStmt (lastStored (cond.store es))
          (lastStored (body.store (cond.store es)))
          (some (lastStored (other.store (body.store (cond.store es))))), line⟩) :=
      ⟨by simp [h.toList_eq, h.lastStored_eq, h'.toList_eq, h'.lastStored_eq, h''.toList_eq,
        h''.lastStored_eq, h.size_eq, h'.size_eq]⟩
    ⟨by simp [Stmt.store, Stmt.derivation, storeStmt_eq inner]⟩
  | .whileLoop line cond body =>
    have h := cond.stores es
    have h' := body.stores (cond.store es)
    have inner : Stores es (.whileLoop line cond.derivation body.derivation)
        ((body.store (cond.store es)).push ⟨.whileStmt (lastStored (cond.store es))
          (lastStored (body.store (cond.store es))), line⟩) :=
      ⟨by simp [h.toList_eq, h.lastStored_eq, h'.toList_eq, h'.lastStored_eq, h.size_eq]⟩
    ⟨by simp [Stmt.store, Stmt.derivation, storeStmt_eq inner]⟩
  | .read line ids =>
    have h := ids.stores es
    have inner : Stores es (.input line ids.derivation)
        ((ids.store es).push ⟨.input (lastStored (ids.store es)), line⟩) :=
      ⟨by simp [h.toList_eq, h.lastStored_eq]⟩
    ⟨by simp [Stmt.store, Stmt.derivation, storeStmt_eq inner]⟩
  | .write line ids =>
    have h := ids.stores es
    have inner : Stores es (.output line ids.derivation)
        ((ids.store es).push ⟨.output (lastStored (ids.store es)), line⟩) :=
      ⟨by simp [h.toList_eq, h.lastStored_eq]⟩
    ⟨by simp [Stmt.store, Stmt.derivation, storeStmt_eq inner]⟩

theorem StmtSeq.stores (es : Array Entry) : (s : StmtSeq Symbol) →
    Stores es s.derivation (s.store es)
  | .last s =>
    have h := s.stores es
    ⟨by simp [StmtSeq.store, StmtSeq.derivation, h.toList_eq, h.lastStored_eq]⟩
  | .cons s rest =>
    have h := s.stores es
    have h' := rest.stores (s.store es)
    ⟨by simp [StmtSeq.store, StmtSeq.derivation, h.toList_eq, h.lastStored_eq, h'.toList_eq,
      h'.lastStored_eq, h.size_eq]⟩

end

theorem Program.stores (p : Program Symbol) : Stores #[] p.derivation p.store :=
  have h := p.decls.stores #[]
  have h' := p.stmts.stores (p.decls.store #[])
  ⟨by simp [store, derivation, h.toList_eq, h.lastStored_eq, h'.toList_eq, h'.lastStored_eq,
    h.size_eq]⟩

/-- A tree holds a program if it has room for its derivation. -/
theorem Tree.ofProgram_eq_ok_iff {capacity : Nat} {p : Program Symbol} {t : Tree} :
    Tree.ofProgram capacity p = .ok t ↔
      p.derivation.size ≤ capacity ∧ p.derivation.size ≤ NodeId.limit ∧
        t = { capacity := capacity, entries := (p.derivation.entries 0).toArray,
              root := some (p.derivation.root 0) } := by
  have size : p.store.size = p.derivation.size := by simpa using p.stores.size_eq
  have root : lastStored p.store = p.derivation.root 0 := p.stores.lastStored_eq
  have stored : p.store = (p.derivation.entries 0).toArray := by
    apply Array.toList_inj.1
    simpa using p.stores.toList_eq
  simp only [ofProgram, size, root]
  rw [stored]
  split
  · next fits => simp [fits.1, fits.2, eq_comm]
  · next full =>
    simp only [reduceCtorEq, false_iff]
    exact fun h => full ⟨h.1, h.2.1⟩

end CoreLang
