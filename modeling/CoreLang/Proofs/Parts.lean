import CoreLang.Proofs.Retrieval

/-!
# Derivations by their parts

Every production joins some parts under a node of its own. `Derivation.parts` lists
them from left to right, and `Derivation.Joins` says for all productions at once what
the node has to do with its parts: it is stored right behind their nodes, keeps their
roots in its slots in order, and wants their tags there. What holds of a stored
derivation because it holds of its parts is then shown without a look at the single
productions (`Derivation.by_parts`).
-/

namespace CoreLang

/-! ### What a node keeps -/

namespace Node

/-- The parts of a node with their slots, in slot order. -/
def kept (node : Node) : List (Slot × NodeId) :=
  Slot.all.filterMap fun slot => (node.child? slot).map (slot, ·)

/-- The tag that the production of a node wants in a slot. -/
def wanted : Node → Slot → Option Tag
  | .program .., .first => some .declSeq
  | .program .., .second => some .stmtSeq
  | .declSeq .., .first => some .decl
  | .declSeq .., .second => some .declSeq
  | .stmtSeq .., .first => some .stmt
  | .stmtSeq .., .second => some .stmtSeq
  | .decl .., .first => some .idList
  | .idList .., .first => some .ident
  | .idList .., .second => some .idList
  | .stmt .assign _, .first => some .assign
  | .stmt .ifStmt _, .first => some .ifStmt
  | .stmt .whileStmt _, .first => some .whileStmt
  | .stmt .input _, .first => some .input
  | .stmt .output _, .first => some .output
  | .assign .., .first => some .ident
  | .assign .., .second => some .expr
  | .ifStmt .., .first => some .cond
  | .ifStmt .., .second => some .stmtSeq
  | .ifStmt .., .third => some .stmtSeq
  | .whileStmt .., .first => some .cond
  | .whileStmt .., .second => some .stmtSeq
  | .input .., .first => some .idList
  | .output .., .first => some .idList
  | .condCompare .., .first => some .comparison
  | .condNot .., .first => some .cond
  | .condAnd .., .first => some .cond
  | .condAnd .., .second => some .cond
  | .condOr .., .first => some .cond
  | .condOr .., .second => some .cond
  | .comparison .., .first => some .operand
  | .comparison .., .second => some .compOp
  | .comparison .., .third => some .operand
  | .exprTerm .., .first => some .term
  | .exprAdd .., .first => some .term
  | .exprAdd .., .second => some .expr
  | .exprSub .., .first => some .term
  | .exprSub .., .second => some .expr
  | .termOperand .., .first => some .operand
  | .termMul .., .first => some .operand
  | .termMul .., .second => some .term
  | .operandInt .., .first => some .int
  | .operandIdent .., .first => some .ident
  | .operandParen .., .first => some .expr
  | _, _ => none

/-- The symbol of an identifier leaf; no other node has one of its own. -/
def symbols : Node → List Symbol
  | .ident symbol => [symbol]
  | _ => []

theorem mem_kept_iff {node : Node} {slot : Slot} {child : NodeId} :
    (slot, child) ∈ node.kept ↔ node.child? slot = some child := by
  have listed : slot ∈ Slot.all := by cases slot <;> decide
  simp only [kept, List.mem_filterMap, Option.map_eq_some_iff, Prod.mk.injEq]
  constructor
  · rintro ⟨_, _, _, found, rfl, rfl⟩
    exact found
  · intro found
    exact ⟨slot, listed, child, found, rfl, rfl⟩

end Node

namespace Derivation

variable {α ι : Type} {tag : Tag}

/-- The parts that a production joins, from left to right. -/
def parts : {tag : Tag} → Derivation α ι tag → List ((tag : Tag) × Derivation α ι tag)
  | _, .compOp .. | _, .int .. | _, .ident .. => []
  | _, .declSeqLast _ a | _, .decl _ a | _, .idListLast _ a | _, .stmtSeqLast _ a
  | _, .stmtAssign _ a | _, .stmtIf _ a | _, .stmtWhile _ a | _, .stmtInput _ a
  | _, .stmtOutput _ a | _, .input _ a | _, .output _ a | _, .condCompare _ a
  | _, .condNot _ a | _, .exprTerm _ a | _, .termOperand _ a | _, .operandInt _ a
  | _, .operandIdent _ a | _, .operandParen _ a => [⟨_, a⟩]
  | _, .program _ a b | _, .declSeqCons _ a b | _, .idListCons _ a b
  | _, .stmtSeqCons _ a b | _, .assign _ a b | _, .ifThen _ a b | _, .whileLoop _ a b
  | _, .condAnd _ a b | _, .condOr _ a b | _, .exprAdd _ a b | _, .exprSub _ a b
  | _, .termMul _ a b => [⟨_, a⟩, ⟨_, b⟩]
  | _, .ifElse _ a b c | _, .comparison _ a b c => [⟨_, a⟩, ⟨_, b⟩, ⟨_, c⟩]

/-- What holds of a derivation if it holds of its parts holds of every derivation. -/
theorem by_parts {P : {tag : Tag} → Derivation α ι tag → Prop}
    (step : ∀ {tag : Tag} (d : Derivation α ι tag), (∀ part ∈ d.parts, P part.2) → P d)
    (d : Derivation α ι tag) : P d := by
  induction d with
  | compOp n op | int n value | ident n var => exact step _ (by simp [parts])
  | declSeqLast n a iha | decl n a iha | idListLast n a iha | stmtSeqLast n a iha
  | stmtAssign n a iha | stmtIf n a iha | stmtWhile n a iha | stmtInput n a iha
  | stmtOutput n a iha | input n a iha | output n a iha | condCompare n a iha
  | condNot n a iha | exprTerm n a iha | termOperand n a iha | operandInt n a iha
  | operandIdent n a iha | operandParen n a iha => exact step _ (by simpa [parts] using iha)
  | program n a b iha ihb | declSeqCons n a b iha ihb | idListCons n a b iha ihb
  | stmtSeqCons n a b iha ihb | assign n a b iha ihb | ifThen n a b iha ihb
  | whileLoop n a b iha ihb | condAnd n a b iha ihb | condOr n a b iha ihb
  | exprAdd n a b iha ihb | exprSub n a b iha ihb | termMul n a b iha ihb =>
    exact step _ (by simpa [parts] using ⟨iha, ihb⟩)
  | ifElse n a b c iha ihb ihc | comparison n a b c iha ihb ihc =>
    exact step _ (by simpa [parts] using ⟨iha, ihb, ihc⟩)

/-- The note of the root. -/
def note : {tag : Tag} → Derivation α ι tag → α
  | _, .compOp n _ | _, .int n _ | _, .ident n _ => n
  | _, .declSeqLast n _ | _, .decl n _ | _, .idListLast n _ | _, .stmtSeqLast n _
  | _, .stmtAssign n _ | _, .stmtIf n _ | _, .stmtWhile n _ | _, .stmtInput n _
  | _, .stmtOutput n _ | _, .input n _ | _, .output n _ | _, .condCompare n _
  | _, .condNot n _ | _, .exprTerm n _ | _, .termOperand n _ | _, .operandInt n _
  | _, .operandIdent n _ | _, .operandParen n _ => n
  | _, .program n _ _ | _, .declSeqCons n _ _ | _, .idListCons n _ _
  | _, .stmtSeqCons n _ _ | _, .assign n _ _ | _, .ifThen n _ _ | _, .whileLoop n _ _
  | _, .condAnd n _ _ | _, .condOr n _ _ | _, .exprAdd n _ _ | _, .exprSub n _ _
  | _, .termMul n _ _ => n
  | _, .ifElse n _ _ _ | _, .comparison n _ _ _ => n

/-- A derivation and the number of its first node. -/
structure Located where
  base : Nat
  tag : Tag
  derivation : Derivation Nat Symbol tag

namespace Located

/-- The nodes of the derivation. -/
def entries (p : Located) : List Entry := p.derivation.entries p.base

/-- The number of the root. -/
def root (p : Located) : NodeId := p.derivation.root p.base

/-- The number behind the root. -/
def stop (p : Located) : Nat := p.base + p.derivation.size

theorem root_lt (p : Located) : p.root.index < p.stop := by
  have := p.derivation.one_le_size
  simp only [root, Derivation.root, stop]
  omega

end Located

/-- Derivations one behind the other, the first one from number `base` on. -/
def located : List ((tag : Tag) × Derivation Nat Symbol tag) → Nat → List Located
  | [], _ => []
  | part :: rest, base => ⟨base, part.1, part.2⟩ :: located rest (base + part.2.size)

/-- The node is that of the derivation: stored right behind its parts, it keeps their
roots in order, with the tags that its production wants. -/
structure Joins (d : Derivation Nat Symbol tag) (base : Nat) (node : Node) : Prop where
  entries_eq : d.entries base = (located d.parts base).flatMap Located.entries ++ [⟨node, d.note⟩]
  tag_eq : node.tag = tag
  kept_eq : node.kept.map (fun k => (node.wanted k.1, k.2)) =
    (located d.parts base).map fun part => (some part.tag, part.root)
  vars_eq : d.vars = node.symbols ++ d.parts.flatMap (·.2.vars)

theorem Joins.map_snd_kept {d : Derivation Nat Symbol tag} {base : Nat} {node : Node}
    (h : d.Joins base node) : node.kept.map Prod.snd = (located d.parts base).map Located.root := by
  have := congrArg (List.map Prod.snd) h.kept_eq
  rwa [List.map_map, List.map_map] at this

theorem exists_joins (d : Derivation Nat Symbol tag) (base : Nat) :
    ∃ node, d.Joins base node := by
  cases d <;> exact ⟨_, by simp [parts, note, located, Located.entries]; rfl, by rfl, by rfl,
    by simp [parts, Node.symbols]⟩

variable {base : Nat} {parts : List ((tag : Tag) × Derivation Nat Symbol tag)}

/-! ### Where the parts are -/

/-- How many nodes some derivations have together. -/
def sizes : List ((tag : Tag) × Derivation Nat Symbol tag) → Nat
  | [] => 0
  | part :: parts => part.2.size + sizes parts

@[simp] theorem sizes_nil : sizes [] = 0 := rfl

@[simp] theorem sizes_cons (part : (tag : Tag) × Derivation Nat Symbol tag) :
    sizes (part :: parts) = part.2.size + sizes parts := rfl

theorem size_eq (d : Derivation Nat Symbol tag) : d.size = sizes d.parts + 1 := by
  cases d <;> simp [parts, Nat.add_assoc]

theorem root_eq (d : Derivation Nat Symbol tag) (base : Nat) :
    d.root base = ⟨base + sizes d.parts⟩ := by
  rw [root, size_eq, ← Nat.add_assoc, Nat.add_sub_cancel]

theorem mem_located {part : Located} (h : part ∈ located parts base) :
    ⟨part.tag, part.derivation⟩ ∈ parts ∧ base ≤ part.base ∧ part.stop ≤ base + sizes parts := by
  induction parts generalizing base with
  | nil => cases h
  | cons first rest ih =>
    rw [sizes_cons]
    rcases List.mem_cons.1 h with rfl | h
    · refine ⟨List.mem_cons_self, Nat.le_refl _, ?_⟩
      simp only [Located.stop]
      omega
    · obtain ⟨among, after, before⟩ := ih h
      refine ⟨List.mem_cons_of_mem _ among, ?_, ?_⟩ <;> omega

theorem exists_located_of_mem {part : (tag : Tag) × Derivation Nat Symbol tag}
    (h : part ∈ parts) (base : Nat) :
    ∃ here ∈ located parts base, ⟨here.tag, here.derivation⟩ = part := by
  induction parts generalizing base with
  | nil => cases h
  | cons first rest ih =>
    rcases List.mem_cons.1 h with rfl | h
    · exact ⟨_, List.mem_cons_self, rfl⟩
    · obtain ⟨here, among, same⟩ := ih h (base + first.2.size)
      exact ⟨here, List.mem_cons_of_mem _ among, same⟩

/-- Each number below the root is that of a node of one part. -/
theorem exists_located {i : Nat} (after : base ≤ i) (before : i < base + sizes parts) :
    ∃ part ∈ located parts base, part.base ≤ i ∧ i < part.stop := by
  induction parts generalizing base with
  | nil =>
    rw [sizes_nil] at before
    omega
  | cons first rest ih =>
    rw [sizes_cons] at before
    by_cases within : i < base + first.2.size
    · exact ⟨_, List.mem_cons_self, after, within⟩
    · obtain ⟨part, among, inside⟩ := ih (Nat.le_of_not_lt within) (by omega)
      exact ⟨part, List.mem_cons_of_mem _ among, inside⟩

theorem flatMap_vars_located :
    (located parts base).flatMap (·.derivation.vars) = parts.flatMap (·.2.vars) := by
  induction parts generalizing base with
  | nil => rfl
  | cons first rest ih => simp only [located, List.flatMap_cons, ih]

theorem flatMap_range_located :
    (located parts base).flatMap (fun part => List.range' part.base part.derivation.size) =
      List.range' base (sizes parts) := by
  induction parts generalizing base with
  | nil => rfl
  | cons first rest ih => rw [located, List.flatMap_cons, ih, sizes_cons, List.range'_append_1]

end Derivation

end CoreLang
