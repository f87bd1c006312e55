import CoreLang.Proofs.Shape

/-!
# Productions from left to right

A production is a list of `Item`s: tokens, and parts that are derived in turn. It can be
told from a derivation, where the parts are derivations, and from a stored node, where they
are numbers of nodes. The two agree for a derivation that is stored
(`Derivation.Joins.items_eq`), so the tokens that a node of the tree derives
(`Tree.yield`) are the yield of the derivation under it.
-/

namespace CoreLang

/-- What stands in a production. -/
inductive Item (π : Type) where
  | token (t : Terminal)
  | part (p : π)

namespace Item

variable {π κ : Type}

@[simp] def map (f : π → κ) : Item π → Item κ
  | .token t => .token t
  | .part p => .part (f p)

/-- The tokens of an item, if `f` tells those of a part. -/
@[simp] def text (f : π → List Terminal) : Item π → List Terminal
  | .token t => [t]
  | .part p => f p

end Item

/-! ### The productions of derivations -/

namespace Derivation

variable {α ι : Type} {tag : Tag}

/-- The production at the root. -/
def items (spell : ι → String) :
    {tag : Tag} → Derivation α ι tag → List (Item ((tag : Tag) × Derivation α ι tag))
  | _, .program _ decls stmts =>
    [.token (.keyword .programWord), .part ⟨_, decls⟩, .token (.keyword .beginWord),
      .part ⟨_, stmts⟩, .token (.keyword .endWord)]
  | _, .declSeqLast _ first => [.part ⟨_, first⟩]
  | _, .declSeqCons _ first rest => [.part ⟨_, first⟩, .part ⟨_, rest⟩]
  | _, .decl _ ids => [.token (.keyword .intWord), .part ⟨_, ids⟩, .token (.mark .semicolon)]
  | _, .idListLast _ id => [.part ⟨_, id⟩]
  | _, .idListCons _ id rest => [.part ⟨_, id⟩, .token (.mark .comma), .part ⟨_, rest⟩]
  | _, .stmtSeqLast _ stmt => [.part ⟨_, stmt⟩]
  | _, .stmtSeqCons _ stmt rest => [.part ⟨_, stmt⟩, .part ⟨_, rest⟩]
  | _, .stmtAssign _ inner | _, .stmtIf _ inner | _, .stmtWhile _ inner
  | _, .stmtInput _ inner | _, .stmtOutput _ inner => [.part ⟨_, inner⟩]
  | _, .assign _ target value =>
    [.part ⟨_, target⟩, .token (.mark .assign), .part ⟨_, value⟩, .token (.mark .semicolon)]
  | _, .ifThen _ cond body =>
    [.token (.keyword .ifWord), .part ⟨_, cond⟩, .token (.keyword .thenWord), .part ⟨_, body⟩,
      .token (.keyword .endWord), .token (.mark .semicolon)]
  | _, .ifElse _ cond body other =>
    [.token (.keyword .ifWord), .part ⟨_, cond⟩, .token (.keyword .thenWord), .part ⟨_, body⟩,
      .token (.keyword .elseWord), .part ⟨_, other⟩, .token (.keyword .endWord),
      .token (.mark .semicolon)]
  | _, .whileLoop _ cond body =>
    [.token (.keyword .whileWord), .part ⟨_, cond⟩, .token (.keyword .loopWord), .part ⟨_, body⟩,
      .token (.keyword .endWord), .token (.mark .semicolon)]
  | _, .input _ ids => [.token (.keyword .readWord), .part ⟨_, ids⟩, .token (.mark .semicolon)]
  | _, .output _ ids => [.token (.keyword .writeWord), .part ⟨_, ids⟩, .token (.mark .semicolon)]
  | _, .condCompare _ inner => [.part ⟨_, inner⟩]
  | _, .condNot _ cond => [.token (.mark .bang), .part ⟨_, cond⟩]
  | _, .condAnd _ left right =>
    [.token (.mark .openBracket), .part ⟨_, left⟩, .token (.mark .andAnd), .part ⟨_, right⟩,
      .token (.mark .closeBracket)]
  | _, .condOr _ left right =>
    [.token (.mark .openBracket), .part ⟨_, left⟩, .token (.mark .orOr), .part ⟨_, right⟩,
      .token (.mark .closeBracket)]
  | _, .comparison _ left op right =>
    [.token (.mark .openParen), .part ⟨_, left⟩, .part ⟨_, op⟩, .part ⟨_, right⟩,
      .token (.mark .closeParen)]
  | _, .compOp _ op => [.token (.mark op.sign)]
  | _, .exprTerm _ term => [.part ⟨_, term⟩]
  | _, .exprAdd _ term rest => [.part ⟨_, term⟩, .token (.mark .plus), .part ⟨_, rest⟩]
  | _, .exprSub _ term rest => [.part ⟨_, term⟩, .token (.mark .minus), .part ⟨_, rest⟩]
  | _, .termOperand _ operand => [.part ⟨_, operand⟩]
  | _, .termMul _ operand rest => [.part ⟨_, operand⟩, .token (.mark .star), .part ⟨_, rest⟩]
  | _, .operandInt _ leaf => [.part ⟨_, leaf⟩]
  | _, .operandIdent _ leaf => [.part ⟨_, leaf⟩]
  | _, .operandParen _ expr =>
    [.token (.mark .openParen), .part ⟨_, expr⟩, .token (.mark .closeParen)]
  | _, .int _ value => [.token (.integer value)]
  | _, .ident _ var => [.token (.identifier (spell var))]

/-- The tokens of a derivation, with the names that `spell` gives its variables. -/
def yieldWith (spell : ι → String) (d : Derivation α ι tag) : List Terminal :=
  (d.rename spell).yield

theorem yieldWith_eq (spell : ι → String) (d : Derivation α ι tag) :
    d.yieldWith spell = (d.items spell).flatMap (Item.text fun p => p.2.yieldWith spell) := by
  cases d <;> simp [yieldWith, items]

/-- Items whose parts are derivations that are stored one behind the other, the first of
them from number `base` on. -/
def locatedItems :
    List (Item ((tag : Tag) × Derivation Nat Symbol tag)) → Nat → List (Item Located)
  | [], _ => []
  | .token t :: items, base => .token t :: locatedItems items base
  | .part p :: items, base => .part ⟨base, p.1, p.2⟩ :: locatedItems items (base + p.2.size)

/-- What a located item is without its place. -/
def Located.part (p : Located) : (tag : Tag) × Derivation Nat Symbol tag :=
  ⟨p.tag, p.derivation⟩

theorem map_part_locatedItems (items : List (Item ((tag : Tag) × Derivation Nat Symbol tag)))
    (base : Nat) : (locatedItems items base).map (Item.map Located.part) = items := by
  induction items generalizing base with
  | nil => rfl
  | cons item items ih => cases item <;> simp [locatedItems, Located.part, ih]

/-- The parts of a production are the parts of the derivation, at their places. -/
theorem mem_located_of_item {spell : Symbol → String} {d : Derivation Nat Symbol tag} {base : Nat}
    {p : Located} (h : .part p ∈ locatedItems (d.items spell) base) :
    p ∈ located d.parts base := by
  revert h
  cases d <;> simp [items, locatedItems, parts, located]

end Derivation

/-! ### The productions of stored nodes -/

/-- The production of a node. -/
def Node.items (spell : Symbol → String) : Node → List (Item NodeId)
  | .program decls stmts =>
    [.token (.keyword .programWord), .part decls, .token (.keyword .beginWord), .part stmts,
      .token (.keyword .endWord)]
  | .declSeq first rest | .stmtSeq first rest => .part first :: (rest.map Item.part).toList
  | .decl ids => [.token (.keyword .intWord), .part ids, .token (.mark .semicolon)]
  | .idList id none => [.part id]
  | .idList id (some rest) => [.part id, .token (.mark .comma), .part rest]
  | .stmt _ inner => [.part inner]
  | .assign target value =>
    [.part target, .token (.mark .assign), .part value, .token (.mark .semicolon)]
  | .ifStmt cond body none =>
    [.token (.keyword .ifWord), .part cond, .token (.keyword .thenWord), .part body,
      .token (.keyword .endWord), .token (.mark .semicolon)]
  | .ifStmt cond body (some other) =>
    [.token (.keyword .ifWord), .part cond, .token (.keyword .thenWord), .part body,
      .token (.keyword .elseWord), .part other, .token (.keyword .endWord),
      .token (.mark .semicolon)]
  | .whileStmt cond body =>
    [.token (.keyword .whileWord), .part cond, .token (.keyword .loopWord), .part body,
      .token (.keyword .endWord), .token (.mark .semicolon)]
  | .input ids => [.token (.keyword .readWord), .part ids, .token (.mark .semicolon)]
  | .output ids => [.token (.keyword .writeWord), .part ids, .token (.mark .semicolon)]
  | .condCompare inner => [.part inner]
  | .condNot cond => [.token (.mark .bang), .part cond]
  | .condAnd left right =>
    [.token (.mark .openBracket), .part left, .token (.mark .andAnd), .part right,
      .token (.mark .closeBracket)]
  | .condOr left right =>
    [.token (.mark .openBracket), .part left, .token (.mark .orOr), .part right,
      .token (.mark .closeBracket)]
  | .comparison left op right =>
    [.token (.mark .openParen), .part left, .part op, .part right, .token (.mark .closeParen)]
  | .exprTerm term => [.part term]
  | .exprAdd term rest => [.part term, .token (.mark .plus), .part rest]
  | .exprSub term rest => [.part term, .token (.mark .minus), .part rest]
  | .termOperand operand => [.part operand]
  | .termMul operand rest => [.part operand, .token (.mark .star), .part rest]
  | .operandInt leaf | .operandIdent leaf => [.part leaf]
  | .operandParen expr => [.token (.mark .openParen), .part expr, .token (.mark .closeParen)]
  | .compOp op => [.token (.mark op.sign)]
  | .int value => [.token (.integer value)]
  | .ident symbol => [.token (.identifier (spell symbol))]

/-- What stands in a slot stands in the production. -/
theorem Node.part_mem_items {node : Node} {slot : Slot} {child : NodeId} (spell : Symbol → String)
    (kept : node.child? slot = some child) : .part child ∈ node.items spell := by
  revert kept
  cases node with
  | declSeq first rest | stmtSeq first rest | idList first rest =>
    cases rest <;> cases slot <;> simp +contextual [child?, children, Children.get, items]
  | ifStmt cond body other =>
    cases other <;> cases slot <;> simp +contextual [child?, children, Children.get, items]
  | _ => cases slot <;> simp +contextual [child?, children, Children.get, items]

namespace Derivation

variable {tag : Tag} {base : Nat} {d : Derivation Nat Symbol tag} {node node' : Node}

/-- The nodes of a derivation tell the one that joins its parts. -/
theorem Joins.unique (h : d.Joins base node) (h' : d.Joins base node') : node = node' := by
  have last := h.entries_eq.symm.trans h'.entries_eq
  have same := List.append_cancel_left last
  simpa using same

theorem Joins.items_eq (spell : Symbol → String) (h : d.Joins base node) :
    node.items spell = (locatedItems (d.items spell) base).map (Item.map Located.root) := by
  obtain ⟨own, joins, same⟩ : ∃ own, d.Joins base own ∧
      own.items spell = (locatedItems (d.items spell) base).map (Item.map Located.root) := by
    cases d <;> exact ⟨_, ⟨by simp [parts, note, located, Located.entries]; rfl, by rfl, by rfl,
      by simp [parts, Node.symbols]⟩, by rfl⟩
  rw [h.unique joins, same]

end Derivation

/-! ### The tokens of stored nodes -/

namespace Tree

/-- The tokens that a node derives. Only parts with smaller numbers are looked into. -/
def yield (t : Tree) (spell : Symbol → String) (id : NodeId) : List Terminal :=
  match t.node? id with
  | none => []
  | some node =>
    (node.items spell).flatMap fun item =>
      match item with
      | .token x => [x]
      | .part p => if p.index < id.index then t.yield spell p else []
termination_by id.index

variable {t : Tree} {tag : Tag} {base : Nat} {d : Derivation Nat Symbol tag}

/-- Under the root of a stored derivation stands what it derives. -/
theorem Lies.yield_eq (spell : Symbol → String) (stored : t.Lies base (d.entries base)) :
    t.yield spell (d.root base) = d.yieldWith spell := by
  induction d using Derivation.by_parts generalizing base with
  | step d ih =>
  obtain ⟨node, joins, top, below⟩ := stored.joins
  have each : ∀ item ∈ Derivation.locatedItems (d.items spell) base,
      (match item.map Derivation.Located.root with
        | .token x => [x]
        | .part p => if p.index < (d.root base).index then t.yield spell p else []) =
      (item.map Derivation.Located.part).text fun p => p.2.yieldWith spell := by
    intro item among
    cases item with
    | token x => rfl
    | part p =>
      have among := Derivation.mem_located_of_item among
      obtain ⟨listed, -, early⟩ := Derivation.mem_located among
      have := p.root_lt
      simp only [Item.map, Item.text]
      rw [Derivation.root_eq, if_pos (by simp only; omega)]
      exact ih _ listed (below p among)
  rw [yield, top, Derivation.yieldWith_eq, ← Derivation.map_part_locatedItems (d.items spell) base]
  simp only
  rw [joins.items_eq, List.flatMap_map, List.flatMap_map]
  exact List.flatMap_congr each

/-- The line of a stored derivation is that of its root. -/
theorem Lies.line_eq (stored : t.Lies base (d.entries base)) : t.line (d.root base) = d.note := by
  obtain ⟨node, joins⟩ := d.exists_joins base
  have last : (d.entries base)[d.size - 1]? = some ⟨node, d.note⟩ := by
    rw [← d.length_entries base, ← List.getLast?_eq_getElem?, joins.entries_eq,
      List.getLast?_concat]
  obtain ⟨within, same⟩ := List.getElem?_eq_some_iff.1 last
  have found := stored _ within
  rw [same, ← Nat.add_sub_assoc d.one_le_size] at found
  rw [line, Derivation.root, found]
  rfl

end Tree

end CoreLang
