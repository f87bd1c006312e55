import CoreLang.Proofs.CursorPaths
import CoreLang.Proofs.Numerals
import CoreLang.Proofs.RoundTrip
import CoreLang.Tree.Outline

/-!
# Outlines list the tree in preorder

`Tree.preorder` is the recursive listing of what lies below a node: the node itself, then
its parts in slot order, each with all that lies below it. The round that a cursor makes
for an outline comes by the same nodes in the same order. It keeps a list of slots for each
node on its way, and between two parts of a node the cursor is back on that node with the
remaining slots first in line (`Cursor.outlineFrom_slots`), so the two never drift apart.

A node costs the round four steps, one for each slot and one to leave. In the tree of a
parse every node is met once.
-/

namespace CoreLang

/-- A node that is met, with the number of levels above it. -/
structure Listed where
  depth : Nat
  id : NodeId
  node : Node
deriving Repr, DecidableEq

/-- The nonterminal of a node and the number of its production, as a listing shows them. -/
def Listed.heading (v : Listed) : String :=
  match v.node with
  | .program _ _ => "<program>/1"
  | .declSeq _ none => "<decl seq>/1"
  | .declSeq _ (some _) => "<decl seq>/2"
  | .stmtSeq _ none => "<stmt seq>/1"
  | .stmtSeq _ (some _) => "<stmt seq>/2"
  | .decl _ => "<decl>/1"
  | .idList _ none => "<id list>/1"
  | .idList _ (some _) => "<id list>/2"
  | .stmt .assign _ => "<stmt>/1"
  | .stmt .ifStmt _ => "<stmt>/2"
  | .stmt .whileStmt _ => "<stmt>/3"
  | .stmt .input _ => "<stmt>/4"
  | .stmt .output _ => "<stmt>/5"
  | .assign _ _ => "<assign>/1"
  | .ifStmt _ _ none => "<if>/1"
  | .ifStmt _ _ (some _) => "<if>/2"
  | .whileStmt _ _ => "<while>/1"
  | .input _ => "<input>/1"
  | .output _ => "<output>/1"
  | .condCompare _ => "<cond>/1"
  | .condNot _ => "<cond>/2"
  | .condAnd _ _ => "<cond>/3"
  | .condOr _ _ => "<cond>/4"
  | .comparison _ _ _ => "<comparison>/1"
  | .exprTerm _ => "<expr>/1"
  | .exprAdd _ _ => "<expr>/2"
  | .exprSub _ _ => "<expr>/3"
  | .termOperand _ => "<term>/1"
  | .termMul _ _ => "<term>/2"
  | .operandInt _ => "<operand>/1"
  | .operandIdent _ => "<operand>/2"
  | .operandParen _ => "<operand>/3"
  | .compOp .notEqual => "<comp op>/1"
  | .compOp .equal => "<comp op>/2"
  | .compOp .less => "<comp op>/3"
  | .compOp .greater => "<comp op>/4"
  | .compOp .lessEqual => "<comp op>/5"
  | .compOp .greaterEqual => "<comp op>/6"
  | .int _ => "<int>/1"
  | .ident _ => "<id>/1"

/-- What a leaf says of itself. -/
def Listed.leaf (v : Listed) : String :=
  match v.node with
  | .int value => " " ++ Number.text value
  | .ident symbol => " #" ++ Text.Decimal.ofNat symbol.index
  | _ => ""

/-- Two spaces for each level, the nonterminal and its production, and what a leaf says. -/
def Listed.line (v : Listed) : String :=
  String.ofList (List.replicate (2 * v.depth) ' ') ++ v.heading ++ v.leaf ++ "\n"

/-- The levels that a line can show, two columns each. -/
def deepestLine : Nat := 32768

namespace Tree

/-- A node and all that lies below it, parents first, parts in slot order. Only parts with
smaller numbers are looked into. -/
def preorder (t : Tree) (depth : Nat) (id : NodeId) : List Listed :=
  match t.node? id with
  | none => []
  | some node =>
    ⟨depth, id, node⟩ :: (Slot.all.filterMap node.child?).flatMap fun child =>
      if child.index < id.index then t.preorder (depth + 1) child else []
termination_by id.index

/-- What is met on the way down from the root is there, and has a smaller number than what
it is part of. -/
structure Grounded (t : Tree) (root : NodeId) : Prop where
  rooted : t.root = some root
  present : ∀ {id : NodeId}, t.Reaches root id → ∃ node, t.node? id = some node
  descends : ∀ {parent slot child}, t.Reaches root parent → t.Keeps parent slot child →
    child.index < parent.index

variable {t : Tree} {root id : NodeId} {node : Node}

theorem WellShaped.grounded (h : t.WellShaped root) : t.Grounded root where
  rooted := h.rooted
  present := h.exists_node?
  descends _ := h.descends

/-- Below the root all parts are looked into. -/
theorem Grounded.preorder_eq (h : t.Grounded root) (reached : t.Reaches root id)
    (here : t.node? id = some node) (depth : Nat) :
    t.preorder depth id =
      ⟨depth, id, node⟩ :: (Slot.all.filterMap node.child?).flatMap (t.preorder (depth + 1)) := by
  rw [preorder, here]
  dsimp only
  congr 1
  refine List.flatMap_congr fun child among => ?_
  obtain ⟨slot, -, kept⟩ := List.mem_filterMap.1 among
  rw [if_pos (h.descends reached ⟨node, here, kept⟩)]

end Tree

/-! ### Lines -/

/-- The lines of some nodes. -/
def listing (listed : List Listed) : String :=
  String.join (listed.map Listed.line)

theorem listing_cons (v : Listed) (listed : List Listed) :
    listing (v :: listed) = v.line ++ listing listed := by
  simp [listing]

/-- A line is ended where it ends, and nowhere else. -/
theorem Listed.count_line (v : Listed) : v.line.toList.count '\n' = 1 := by
  have digits (n : Nat) : (Text.Decimal.ofNat n).toList.count '\n' = 0 := by
    refine List.count_eq_zero.2 fun among => ?_
    have := Text.Decimal.isDigit_of_mem_ofNat among
    cases this
  have number (value : Int64) : (Number.text value).toList.count '\n' = 0 := by
    refine List.count_eq_zero.2 fun among => ?_
    rcases Text.Decimal.mem_ofInt among with this | this <;> cases this
  have heading : v.heading.toList.count '\n' = 0 := by
    unfold Listed.heading
    split <;> rfl
  have leaf : v.leaf.toList.count '\n' = 0 := by
    unfold Listed.leaf
    split
    · next value _ => simp [number value]
    · next symbol _ => simp [digits symbol.index]
    · rfl
  simp [Listed.line, List.count_replicate, heading, leaf]

/-- There is one line for each node. -/
theorem count_listing (listed : List Listed) :
    (listing listed).toList.count '\n' = listed.length := by
  induction listed with
  | nil => rfl
  | cons v listed ih =>
    rw [listing_cons, String.toList_append, List.count_append, v.count_line, ih, List.length_cons]
    omega

namespace Listed

variable {v : Listed} {listed : List Listed}

/-- The line that the round makes of a node. -/
def outlined (v : Listed) : Except (Stop TreeError) OutlineLine :=
  v.node.outlineLine v.depth

theorem heading_eq (v : Listed) :
    v.node.tag.text ++ "/" ++ Text.Decimal.ofNat v.node.alternative = v.heading := by
  have digits : [1, 2, 3, 4, 5, 6].map Text.Decimal.ofNat = ["1", "2", "3", "4", "5", "6"] := by
    decide
  simp only [List.map_cons, List.map_nil, List.cons.injEq, and_true] at digits
  unfold heading
  split <;> next shown =>
    simp [shown, digits, Node.tag, Tag.text, Tag.name, Node.alternative, StmtForm.alternative,
      Comparator.alternative]

theorem outlined_of_shallow (shallow : v.depth < deepestLine) :
    ∃ line, v.outlined = .ok line ∧ line.text = v.line := by
  have narrow : 2 * v.depth < Text.widthLimit := by
    simp only [deepestLine, Text.widthLimit, UInt16.size] at shallow ⊢
    omega
  refine ⟨_, if_pos narrow, ?_⟩
  have leaf : v.node.leafText = v.leaf := by
    obtain ⟨depth, id, node⟩ := v
    cases node <;> rfl
  rw [OutlineLine.text, v.heading_eq, leaf, Listed.line, Text.spaces]
  simp only [String.append_assoc]

theorem outlined_of_deep (deep : v.depth = deepestLine) :
    v.outlined = .error (.overwide Text.widthLimit) := by
  rw [outlined, Node.outlineLine, deep]
  rfl

/-- Nodes that are not too deep are all listed. -/
theorem mapM_outlined_of_shallow (shallow : ∀ v ∈ listed, v.depth < deepestLine) :
    ∃ lines, listed.mapM outlined = .ok lines ∧
      String.join (lines.map OutlineLine.text) = listing listed := by
  induction listed with
  | nil => exact ⟨[], rfl, rfl⟩
  | cons v listed ih =>
    obtain ⟨here, others⟩ := List.forall_mem_cons.1 shallow
    obtain ⟨line, made, text⟩ := outlined_of_shallow here
    obtain ⟨lines, all, rest⟩ := ih others
    refine ⟨line :: lines, ?_, ?_⟩
    · rw [List.mapM_cons, made, all]
      rfl
    · rw [listing_cons, ← rest, List.map_cons, String.join_cons, text]

/-- At the first node that is too deep the listing breaks off. -/
theorem mapM_outlined_of_deep {others : List Listed} (shallow : ∀ v ∈ listed, v.depth < deepestLine)
    (deep : v.depth = deepestLine) :
    (listed ++ v :: others).mapM outlined = .error (.overwide Text.widthLimit) := by
  obtain ⟨lines, made, -⟩ := mapM_outlined_of_shallow shallow
  rw [List.mapM_append, made, List.mapM_cons, outlined_of_deep deep]
  rfl

end Listed

/-! ### Levels -/

namespace Tree

variable {t : Tree} {root id : NodeId} {v : Listed} {depth : Nat}

/-- What lies below a node is met below its parts. -/
theorem mem_preorder (among : v ∈ t.preorder depth id) :
    (v.depth = depth ∧ v.id = id) ∨ ∃ child : NodeId, child.index < id.index ∧
      v ∈ t.preorder (depth + 1) child := by
  rw [preorder] at among
  cases here : t.node? id with
  | none =>
    rw [here] at among
    cases among
  | some node =>
    rw [here] at among
    rcases List.mem_cons.1 among with rfl | among
    · exact .inl ⟨rfl, rfl⟩
    · obtain ⟨child, -, among⟩ := List.mem_flatMap.1 among
      split at among
      · next smaller => exact .inr ⟨child, smaller, among⟩
      · cases among

/-- There are fewer levels above a node than nodes behind it. -/
theorem depth_add_index_le (among : v ∈ t.preorder depth id) :
    v.depth + v.id.index ≤ depth + id.index := by
  induction number : id.index using Nat.strongRecOn generalizing id depth with
  | ind number ih =>
  subst number
  rcases mem_preorder among with ⟨rfl, rfl⟩ | ⟨child, smaller, among⟩
  · exact Nat.le_refl _
  · have := ih child.index smaller among rfl
    omega

/-- Levels are entered one at a time: the first node at some depth or below lies at just
that depth. -/
theorem depth_of_find? {deep : Nat} (above : depth ≤ deep)
    (found : (t.preorder depth id).find? (deep ≤ ·.depth) = some v) : v.depth = deep := by
  induction number : id.index using Nat.strongRecOn generalizing id depth with
  | ind number ih =>
  subst number
  rw [preorder] at found
  cases here : t.node? id with
  | none =>
    rw [here] at found
    cases found
  | some node =>
    simp only [here, List.find?_cons] at found
    by_cases reached : deep ≤ depth
    · simp only [reached, decide_true] at found
      cases found
      exact Nat.le_antisymm above reached
    · simp only [reached, decide_false, List.find?_flatMap] at found
      obtain ⟨child, -, found⟩ := List.exists_of_findSome?_eq_some found
      split at found
      · next smaller => exact ih child.index smaller (by omega) found rfl
      · cases found

/-- The lines of a tree are made up to the first node that is too deep. -/
theorem mapM_outlined_preorder (t : Tree) (root : NodeId) :
    ((∀ v ∈ t.preorder 0 root, v.depth < deepestLine) →
      ∃ lines, (t.preorder 0 root).mapM Listed.outlined = .ok lines ∧
        String.join (lines.map OutlineLine.text) = listing (t.preorder 0 root)) ∧
    ((¬ ∀ v ∈ t.preorder 0 root, v.depth < deepestLine) →
      (t.preorder 0 root).mapM Listed.outlined = .error (.overwide Text.widthLimit)) := by
  refine ⟨Listed.mapM_outlined_of_shallow, fun deeper => ?_⟩
  cases found : (t.preorder 0 root).find? (deepestLine ≤ ·.depth) with
  | none =>
    refine absurd (fun v among => ?_) deeper
    simpa using List.find?_eq_none.1 found v among
  | some v =>
    have deep := depth_of_find? (Nat.zero_le _) found
    obtain ⟨-, front, back, split, shallow⟩ := List.find?_eq_some_iff_append.1 found
    rw [split]
    exact Listed.mapM_outlined_of_deep (by simpa using shallow) deep

end Tree

/-! ### The round -/

namespace Cursor

variable {t : Tree} {root : NodeId} {c : Cursor} {node : Node}

theorem outlineLine_of_node (here : c.node = .ok node) :
    c.outlineLine = Listed.outlined ⟨c.depth, c.current, node⟩ := by
  rw [outlineLine, here]
  rfl

/-- A slot without a part is passed over. -/
theorem outlineFrom_of_empty {slot : Slot} (here : c.node = .ok node)
    (empty : node.child? slot = none) (steps : Nat) (slots : List Slot) (above : List (List Slot))
    (lines : Array OutlineLine) :
    c.outlineFrom (steps + 1) ((slot :: slots) :: above) lines =
      c.outlineFrom steps (slots :: above) lines := by
  simp only [outlineFrom, here, bind, Except.bind, empty]
  rfl

/-- Going down a slot adds the line of the part, and its slots come first. -/
theorem outlineFrom_of_child {inside : Cursor} {slot : Slot} {child : NodeId} {part : Node}
    (here : c.node = .ok node) (kept : node.child? slot = some child)
    (down : c.descend slot = .ok inside) (there : inside.node = .ok part) (steps : Nat)
    (slots : List Slot) (above : List (List Slot)) (lines : Array OutlineLine) :
    c.outlineFrom (steps + 1) ((slot :: slots) :: above) lines = (do
      let line ← Listed.outlined ⟨inside.depth, inside.current, part⟩
      inside.outlineFrom steps (Slot.all :: slots :: above) (lines.push line)) := by
  simp only [outlineFrom, here, bind, Except.bind, kept, down, outlineLine_of_node there]
  rfl

/-- A node whose slots are done is left. -/
theorem outlineFrom_of_done {back : Cursor} (up : c.ascend = .ok back) (steps : Nat)
    (slots : List Slot) (above : List (List Slot)) (lines : Array OutlineLine) :
    c.outlineFrom (steps + 1) ([] :: slots :: above) lines =
      back.outlineFrom steps (slots :: above) lines := by
  simp only [outlineFrom, up, bind, Except.bind]

/-- What lies below the current node, in some of its slots. -/
def below (c : Cursor) (node : Node) (slots : List Slot) : List Listed :=
  (slots.filterMap node.child?).flatMap (c.tree.preorder (c.depth + 1))

theorem below_cons_of_empty {slot : Slot} (empty : node.child? slot = none) (slots : List Slot) :
    c.below node (slot :: slots) = c.below node slots := by
  rw [below, List.filterMap_cons_none empty, below]

theorem below_cons_of_child {slot : Slot} {child : NodeId} (kept : node.child? slot = some child)
    (slots : List Slot) :
    c.below node (slot :: slots) =
      c.tree.preorder (c.depth + 1) child ++ c.below node slots := by
  rw [below, List.filterMap_cons_some kept, List.flatMap_cons, below]

/-- The node under the cursor comes first, then what lies below it. -/
theorem preorder_current (grounded : t.Grounded root) (onPath : c.OnPath t root)
    (here : c.node = .ok node) :
    c.tree.preorder c.depth c.current =
      ⟨c.depth, c.current, node⟩ :: c.below node Slot.all := by
  obtain rfl := onPath.tree_eq
  exact grounded.preorder_eq onPath.reaches (node_eq_ok_iff.1 here) c.depth

/-- The parts in some slots of the current node are listed one after the other, each with all
that lies below it; then the cursor is back where it was, and these slots are done. A node
that is too deep ends the round there. -/
theorem outlineFrom_slots (grounded : t.Grounded root) (c : Cursor) (onPath : c.OnPath t root)
    (here : c.node = .ok node) (slots : List Slot) (steps : Nat) (above : List (List Slot))
    (lines : Array OutlineLine) :
    c.outlineFrom (slots.length + 4 * (c.below node slots).length + steps) (slots :: above) lines =
      (do
        let more ← (c.below node slots).mapM Listed.outlined
        c.outlineFrom steps ([] :: above) (lines ++ more.toArray)) := by
  -- the parts have smaller numbers than the node
  induction number : c.current.index using Nat.strongRecOn
    generalizing c node slots steps above lines with
  | ind number ih =>
  subst number
  induction slots generalizing steps lines with
  | nil => simp [below]
  | cons slot slots others =>
    cases kept : node.child? slot with
    | none =>
      rw [below_cons_of_empty kept, List.length_cons]
      have count : slots.length + 1 + 4 * (c.below node slots).length + steps =
          slots.length + 4 * (c.below node slots).length + steps + 1 := by omega
      rw [count, outlineFrom_of_empty here kept, others]
    | some child =>
      have down := descend_of_child? here kept
      generalize entered :
          ({ c with current := child, ancestors := c.current :: c.ancestors } : Cursor) = inside
        at down
      have inPath := onPath.descend down
      obtain ⟨part, found⟩ := grounded.present inPath.reaches
      have there : inside.node = .ok part := by
        rw [node_eq_ok_iff, inPath.tree_eq, found]
      have smaller : inside.current.index < c.current.index := by
        obtain ⟨child, stored, rfl⟩ := descend_eq_ok_iff.1 down
        rw [onPath.tree_eq] at stored
        exact grounded.descends onPath.reaches stored
      have first : c.tree.preorder (c.depth + 1) child =
          ⟨inside.depth, inside.current, part⟩ :: inside.below part Slot.all := by
        rw [← preorder_current grounded inPath there, ← entered]
        rfl
      have count : (slot :: slots).length + 4 * (c.below node (slot :: slots)).length + steps =
          Slot.all.length + 4 * (inside.below part Slot.all).length +
            (slots.length + 4 * (c.below node slots).length + steps + 1) + 1 := by
        rw [below_cons_of_child kept, first]
        simp only [List.length_append, List.length_cons, Slot.all, List.length_nil]
        omega
      have inner (line : OutlineLine) := ih _ smaller inside inPath there Slot.all
        (slots.length + 4 * (c.below node slots).length + steps + 1) (slots :: above)
        (lines.push line) rfl
      rw [count, outlineFrom_of_child here kept down there, below_cons_of_child kept, first]
      simp only [inner, outlineFrom_of_done (ascend_of_descend down), others, List.mapM_append,
        List.mapM_cons, bind_assoc, pure_bind]
      simp

end Cursor

namespace Tree

variable {t : Tree} {root : NodeId}

/-- With four steps for each node that is met the round comes to its end, and has made the
lines of all nodes, or it breaks off where a line cannot be made. -/
theorem Grounded.outlineLines_eq (h : t.Grounded root) {steps : Nat}
    (enough : 4 * (t.preorder 0 root).length ≤ steps) :
    t.outlineLines steps = (do
      let lines ← (t.preorder 0 root).mapM Listed.outlined
      return lines.toArray) := by
  obtain ⟨node, found⟩ := h.present .root
  generalize begun : ({ tree := t, current := root, ancestors := [] } : Cursor) = c
  have start : t.cursor = .ok c := by
    simp only [Tree.cursor, h.rooted, begun]
  have onPath : c.OnPath t root := begun ▸ Cursor.onPath_root t root
  have here : c.node = .ok node := by
    rw [Cursor.node_eq_ok_iff, ← begun, found]
  have all : t.preorder 0 root = ⟨0, root, node⟩ :: c.below node Slot.all := by
    have listed := Cursor.preorder_current h onPath here
    rwa [← begun] at listed ⊢
  have line : c.outlineLine = Listed.outlined ⟨0, root, node⟩ := by
    rw [Cursor.outlineLine_of_node here, ← begun]
    rfl
  obtain ⟨spare, rfl⟩ := Nat.exists_eq_add_of_le enough
  have count : 4 * (t.preorder 0 root).length + spare =
      Slot.all.length + 4 * (c.below node Slot.all).length + (spare + 1) := by
    rw [all]
    simp only [List.length_cons, Slot.all, List.length_nil]
    omega
  have round (line : OutlineLine) := Cursor.outlineFrom_slots h c onPath here Slot.all (spare + 1)
    [] #[line]
  rw [count]
  simp only [outlineLines, start, line, all, round, Cursor.outlineFrom, List.mapM_cons, bind_assoc,
    pure_bind]
  simp only [bind, Except.bind, pure, Except.pure]
  cases Listed.outlined ⟨0, root, node⟩ with
  | error stop => rfl
  | ok line =>
    dsimp only
    cases (c.below node Slot.all).mapM Listed.outlined with
    | error stop => rfl
    | ok lines => simp

/-- The outline is the listing, as far as it can be made. -/
theorem Grounded.outline_eq (h : t.Grounded root) {steps : Nat}
    (enough : 4 * (t.preorder 0 root).length ≤ steps) :
    t.outline steps =
      if ∀ v ∈ t.preorder 0 root, v.depth < deepestLine then .ok (listing (t.preorder 0 root))
      else .error (.overwide Text.widthLimit) := by
  obtain ⟨shallow, deep⟩ := t.mapM_outlined_preorder root
  rw [outline, h.outlineLines_eq enough]
  split
  · next within =>
    obtain ⟨lines, made, text⟩ := shallow within
    rw [made, ← text]
    rfl
  · next deeper =>
    rw [deep deeper]
    rfl

end Tree

/-! ### Trees of parses -/

namespace Derivation

variable {α β ι κ : Type} {tag : Tag}

/-- The derivation has a part with so many levels above it. -/
def Deep : Nat → {tag : Tag} → Derivation α ι tag → Prop
  | 0, _, _ => True
  | n + 1, _, d => ∃ part ∈ d.parts, Deep n part.2

theorem parts_map (f : α → β) (g : ι → κ) (d : Derivation α ι tag) :
    (d.map f g).parts = d.parts.map fun part => ⟨part.1, part.2.map f g⟩ := by
  cases d <;> rfl

theorem deep_map (f : α → β) (g : ι → κ) (n : Nat) (d : Derivation α ι tag) :
    (d.map f g).Deep n ↔ d.Deep n := by
  induction n generalizing tag with
  | zero => exact Iff.rfl
  | succ n ih => simp only [Deep, parts_map, List.mem_map, exists_exists_and_eq_and, ih]

end Derivation

namespace Tree

variable {t : Tree} {tag : Tag} {base : Nat} {d : Derivation Nat Symbol tag}

theorem filterMap_child?_eq (node : Node) :
    Slot.all.filterMap node.child? = node.kept.map Prod.snd := by
  rw [Node.kept, List.map_filterMap]
  refine List.filterMap_congr fun slot _ => ?_
  cases node.child? slot <;> rfl

/-- A stored derivation is listed by its parts. -/
theorem Lies.preorder_eq (stored : t.Lies base (d.entries base)) (depth : Nat) :
    ∃ node, t.preorder depth (d.root base) = ⟨depth, d.root base, node⟩ ::
      (Derivation.located d.parts base).flatMap fun part => t.preorder (depth + 1) part.root := by
  obtain ⟨node, joins, top, lower⟩ := stored.joins
  refine ⟨node, ?_⟩
  rw [preorder, top]
  dsimp only
  rw [filterMap_child?_eq, joins.map_snd_kept, List.flatMap_map]
  refine congrArg _ (List.flatMap_congr fun part among => if_pos ?_)
  -- a part ends before the root
  obtain ⟨-, -, early⟩ := Derivation.mem_located among
  have := part.root_lt
  rw [Derivation.root_eq]
  simp only
  omega

/-- Below the root of a stored derivation each of its nodes is met once. -/
theorem Lies.preorder_perm (stored : t.Lies base (d.entries base)) (depth : Nat) :
    ((t.preorder depth (d.root base)).map Listed.id).Perm
      ((List.range' base d.size).map NodeId.mk) := by
  induction d using Derivation.by_parts generalizing base depth with
  | step d ih =>
  obtain ⟨-, -, -, lower⟩ := stored.joins
  have each : ∀ part ∈ Derivation.located d.parts base,
      ((t.preorder (depth + 1) part.root).map Listed.id).Perm
        ((List.range' part.base part.derivation.size).map NodeId.mk) := by
    intro part among
    exact ih _ (Derivation.mem_located among).1 (lower part among) (depth + 1)
  have whole : (List.range' base d.size).map NodeId.mk =
      (List.range' base (Derivation.sizes d.parts)).map NodeId.mk ++ [d.root base] := by
    rw [Derivation.size_eq, List.range'_1_concat, List.map_append, List.map_singleton,
      ← Derivation.root_eq]
  obtain ⟨node, parts⟩ := stored.preorder_eq depth
  rw [parts, List.map_cons, List.map_flatMap, whole, ← Derivation.flatMap_range_located,
    List.map_flatMap]
  refine .trans (.cons _ (List.Perm.flatMap_left _ each)) ?_
  exact (List.perm_append_singleton _ _).symm

/-- A stored derivation is listed as deep as it goes. -/
theorem Lies.exists_depth {n : Nat} (stored : t.Lies base (d.entries base)) (deep : d.Deep n)
    (depth : Nat) : ∃ v ∈ t.preorder depth (d.root base), v.depth = depth + n := by
  induction n generalizing tag base depth with
  | zero =>
    obtain ⟨node, listed⟩ := stored.preorder_eq depth
    exact ⟨_, listed ▸ List.mem_cons_self, rfl⟩
  | succ n ih =>
    obtain ⟨part, among, deep⟩ := deep
    obtain ⟨here, located, rfl⟩ := Derivation.exists_located_of_mem among base
    obtain ⟨-, -, -, lower⟩ := stored.joins
    obtain ⟨v, below, far⟩ := ih (lower here located) deep (depth + 1)
    obtain ⟨node, listed⟩ := stored.preorder_eq depth
    refine ⟨v, ?_, by omega⟩
    rw [listed]
    exact List.mem_cons_of_mem _ (List.mem_flatMap.2 ⟨here, located, below⟩)

end Tree

/-- A tree whose root leads only to nodes that are there, each with a smaller number than
what it is part of, is listed in preorder as long as it is not too deep for its lines: the
round ends, and its text is that of the recursion, with one line for each node met. At a
node with 32768 levels above it the round breaks off; a tree with no more nodes than that
has no such node. If the tree comes from a parse, it is listed under the same condition, and
then every one of its nodes is listed once. -/
theorem outline_preorder (t : Tree) :
    (∀ root : NodeId, t.Grounded root →
      (∀ depth id node, t.Reaches root id → t.node? id = some node →
        t.preorder depth id =
          ⟨depth, id, node⟩ :: (Slot.all.filterMap node.child?).flatMap (t.preorder (depth + 1))) ∧
      (listing (t.preorder 0 root)).toList.count '\n' = (t.preorder 0 root).length ∧
      (root.index < deepestLine → ∀ v ∈ t.preorder 0 root, v.depth < deepestLine) ∧
      ∀ steps, 4 * (t.preorder 0 root).length ≤ steps →
        t.outline steps =
          if ∀ v ∈ t.preorder 0 root, v.depth < deepestLine then .ok (listing (t.preorder 0 root))
          else .error (.overwide Text.widthLimit)) ∧
    ∀ (source : String) (capacity : Nat) (symbols : SymbolTable),
      parse source capacity = .ok { tree := t, symbols := symbols } →
      ∃ root text, t.Grounded root ∧
        (∀ steps, 4 * t.size ≤ steps →
          t.outline steps =
            if ∀ v ∈ t.preorder 0 root, v.depth < deepestLine then .ok text
            else .error (.overwide Text.widthLimit)) ∧
        (t.size ≤ deepestLine → ∀ v ∈ t.preorder 0 root, v.depth < deepestLine) ∧
        text = listing (t.preorder 0 root) ∧
        text.toList.count '\n' = t.size ∧
        ((t.preorder 0 root).map Listed.id).Perm ((List.range t.size).map NodeId.mk) := by
  have shallow {root : NodeId} (small : root.index < deepestLine) :
      ∀ v ∈ t.preorder 0 root, v.depth < deepestLine := by
    intro v among
    have := Tree.depth_add_index_le among
    omega
  refine ⟨fun root grounded => ⟨fun depth id node reached here =>
    grounded.preorder_eq reached here depth, count_listing _, shallow,
    fun steps => grounded.outline_eq⟩, ?_⟩
  intro source capacity symbols accepted
  obtain ⟨d, p, derives, fitting, shows⟩ := parse_sound accepted
  have grounded : t.Grounded (p.derivation.root 0) :=
    (Tree.wellShaped_of_stored shows.stored shows.root_eq).grounded
  have size : t.size = p.derivation.size := Tree.size_of_stored shows.stored
  have once := (Tree.lies_of_stored shows.stored).preorder_perm 0
  rw [← size, ← List.range_eq_range'] at once
  have length : (t.preorder 0 (p.derivation.root 0)).length = t.size := by
    simpa using once.length_eq
  refine ⟨_, _, grounded, fun steps enough => grounded.outline_eq (length ▸ enough),
    fun small => shallow ?_, rfl, ?_, once⟩
  · have := p.derivation.one_le_size
    simp only [Derivation.root]
    omega
  · rw [count_listing, length]

/-- A tree that uses a leaf twice lists it twice. In the tree of a parse the round passes
over a missing `else` and the end of each sequence. -/
theorem outline_preorder_shared_leaf :
    (∃ (t : Tree) (root : NodeId), t.Grounded root ∧ t.size = 2 ∧
      t.outline 12 = .ok (listing (t.preorder 0 root)) ∧
      (t.preorder 0 root).map Listed.line =
        ["<assign>/1\n", "  <int>/1 7\n", "  <int>/1 7\n"]) ∧
    ∃ parsed text, parse "program int X; begin if (X<=10) then X=2*(X+1); end; write X; end" 60
        = .ok parsed ∧
      parsed.tree.outline 200 = .ok text ∧ text.toList.count '\n' = 38 := by
  constructor
  · let t : Tree := ⟨2, #[⟨.int 7, 1⟩, ⟨.assign ⟨0⟩ ⟨0⟩, 1⟩], some ⟨1⟩⟩
    have kept : ∀ {parent slot child}, t.Keeps parent slot child → parent = ⟨1⟩ ∧ child = ⟨0⟩ := by
      rintro ⟨_ | _ | n⟩ slot child ⟨node, here, held⟩
      · cases here; cases slot <;> cases held
      · cases here; cases slot <;> cases held <;> exact ⟨rfl, rfl⟩
      · cases here
    have reached : ∀ {id}, t.Reaches ⟨1⟩ id → id = ⟨1⟩ ∨ id = ⟨0⟩ := by
      intro id among
      cases among with
      | root => exact .inl rfl
      | part above held => exact .inr (kept held).2
    have grounded : t.Grounded ⟨1⟩ := by
      refine ⟨rfl, fun among => ?_, fun _ held => ?_⟩
      · rcases reached among with rfl | rfl <;> exact ⟨_, rfl⟩
      · obtain ⟨rfl, rfl⟩ := kept held
        decide
    obtain ⟨unfolds, -, shallow, ends⟩ := (outline_preorder t).1 ⟨1⟩ grounded
    have below : t.Reaches ⟨1⟩ ⟨0⟩ :=
      .part .root ⟨.assign ⟨0⟩ ⟨0⟩, rfl, (rfl : Node.child? _ .first = _)⟩
    have leaf : t.preorder 1 ⟨0⟩ = [⟨1, ⟨0⟩, .int 7⟩] := unfolds 1 ⟨0⟩ (.int 7) below rfl
    have all : t.preorder 0 ⟨1⟩ =
        [⟨0, ⟨1⟩, .assign ⟨0⟩ ⟨0⟩⟩, ⟨1, ⟨0⟩, .int 7⟩, ⟨1, ⟨0⟩, .int 7⟩] := by
      rw [unfolds 0 ⟨1⟩ (.assign ⟨0⟩ ⟨0⟩) .root rfl]
      simp [Slot.all, Node.child?, Node.children, Children.get, leaf]
    refine ⟨t, ⟨1⟩, grounded, rfl, ?_, ?_⟩
    · rw [ends 12 (by rw [all]; decide), if_pos (shallow (by decide))]
    · rw [all]
      decide
  · obtain ⟨parsed, accepted, size⟩ := exists_parsed_such
      "program int X; begin if (X<=10) then X=2*(X+1); end; write X; end" 60
      (fun parsed => parsed.tree.size = 38) (by decide +kernel)
    have size := of_decide_eq_true size
    obtain ⟨root, text, -, ends, shallow, -, lines, -⟩ :=
      (outline_preorder parsed.tree).2 _ _ parsed.symbols accepted
    refine ⟨parsed, text, accepted, ?_, by rw [lines, size]⟩
    rw [ends 200 (by omega), if_pos (shallow (by rw [size]; decide))]

/-! ### A tree that is too deep -/

/-- A condition behind `n` negations. -/
def Cond.negated {ι : Type} (c : Cond ι) : Nat → Cond ι
  | 0 => c
  | n + 1 => .not 1 (c.negated n)

/-- Some variable is compared with itself. -/
def Cond.reflexive {ι : Type} (x : Ident ι) : Cond ι :=
  .compare ⟨x.line, .ident x, x.line, .equal, .ident x⟩

/-- A program with `n` negations one inside the other. -/
def Program.negations (n : Nat) : Program String :=
  let a : Ident String := ⟨1, "A"⟩
  { line := 1
    decls := .last ⟨1, .last a⟩
    stmts := .last (.whileLoop 1 ((Cond.reflexive a).negated n)
      (.last (.assign a (.term (.operand (.ident a)))))) }

namespace Cond

variable {ι : Type} (c : Cond ι) (n : Nat)

theorem size_negated : (c.negated n).derivation.size = c.derivation.size + n := by
  induction n with
  | zero => rfl
  | succ n ih =>
    rw [negated, derivation, Derivation.size, ih]
    omega

theorem nesting_negated : (c.negated n).derivation.nesting = c.derivation.nesting := by
  induction n with
  | zero => rfl
  | succ n ih => rw [negated, derivation, Derivation.nesting, ih]

theorem vars_negated : (c.negated n).derivation.vars = c.derivation.vars := by
  induction n with
  | zero => rfl
  | succ n ih => rw [negated, derivation, Derivation.vars, ih]

theorem yield_negated (c : Cond String) :
    (c.negated n).derivation.yield = List.replicate n (.mark .bang) ++ c.derivation.yield := by
  induction n with
  | zero => rfl
  | succ n ih =>
    rw [negated, derivation, Derivation.yield, ih]
    rfl

theorem deep_negated : (c.negated n).derivation.Deep n := by
  induction n with
  | zero => trivial
  | succ n ih => exact ⟨⟨_, (c.negated n).derivation⟩, List.mem_singleton_self _, ih⟩

end Cond

namespace Program

variable (n : Nat)

theorem derivation_negations : (negations n).derivation =
    .program 1 (.declSeqLast 1 (.decl 1 (.idListLast 1 (.ident 1 "A"))))
      (.stmtSeqLast 1 (.stmtWhile 1 (.whileLoop 1
        ((Cond.reflexive (⟨1, "A"⟩ : Ident String)).negated n).derivation
        (.stmtSeqLast 1 (.stmtAssign 1 (.assign 1 (.ident 1 "A")
          (.exprTerm 1 (.termOperand 1 (.operandIdent 1 (.ident 1 "A")))))))))) := by
  rfl

/-- The condition lies four levels down. -/
theorem deep_negations : (negations n).derivation.Deep (n + 4) := by
  rw [derivation_negations]
  exact ⟨_, .tail _ (.head _), _, .head _, _, .head _, _, .head _, Cond.deep_negated ..⟩

theorem size_negations : (negations n).derivation.size = n + 23 := by
  rw [derivation_negations]
  simp [Cond.size_negated, Cond.reflexive, Cond.derivation, Comparison.derivation,
    Operand.derivation, Ident.derivation]
  omega

theorem fitting_negations : (negations n).derivation.shape.Fitting (n + 23) := by
  refine ⟨⟨?_, ?_⟩, ?_, ?_⟩
  · rw [derivation_negations]
    simp
  · rw [derivation_negations]
    simp [Cond.vars_negated, Cond.reflexive, Cond.derivation, Comparison.derivation,
      Operand.derivation, Ident.derivation]
  · rw [Derivation.size_map, size_negations]
  · rw [derivation_negations]
    simp [Cond.nesting_negated, Cond.reflexive, Cond.derivation, Comparison.derivation,
      Operand.derivation, Ident.derivation, ParseM.maxNesting]

theorem written_negations : ∀ t ∈ (negations n).derivation.yield, t.Written := by
  have name : IsName "A" := ⟨⟨'A', [], rfl, rfl⟩, rfl⟩
  rw [derivation_negations]
  simp [Cond.yield_negated, Cond.reflexive, Cond.derivation, Comparison.derivation,
    Operand.derivation, Ident.derivation, or_imp, forall_and, Terminal.Written, name]

end Program

/-- With enough negations a program is parsed, and there is no outline of its tree. -/
theorem outline_negations {n : Nat} (many : deepestLine ≤ n + 4)
    (numbered : n + 23 ≤ NodeId.limit) :
    ∃ parsed, parse (Program.negations n).render (n + 23) = .ok parsed ∧
      parsed.tree.size = n + 23 ∧
      ∀ steps, 4 * (n + 23) ≤ steps →
        parsed.tree.outline steps = .error (.overwide Text.widthLimit) := by
  have small : (Program.negations n).derivation.shape.size ≤ NodeId.limit := by
    rwa [Derivation.size_map, Program.size_negations]
  obtain ⟨parsed, p, accepted, shows⟩ :=
    exists_parse (derives_render (Program.written_negations n)) (Program.fitting_negations n) small
  have lies := Tree.lies_of_stored shows.stored
  have grounded := (Tree.wellShaped_of_stored shows.stored shows.root_eq).grounded
  have deep : p.derivation.Deep (n + 4) := by
    have shape : p.derivation.shape.Deep (n + 4) := by
      rw [shows.shape_eq]
      exact (Derivation.deep_map ..).2 ((Derivation.deep_map ..).2 (Program.deep_negations n))
    exact (Derivation.deep_map ..).1 shape
  have size : parsed.tree.size = n + 23 := by
    rw [Tree.size_of_stored shows.stored, ← Program.size_negations n]
    have := congrArg Derivation.size shows.shape_eq
    simpa using this
  refine ⟨parsed, accepted, size, fun steps enough => ?_⟩
  obtain ⟨v, among, far⟩ := lies.exists_depth deep 0
  have length : (parsed.tree.preorder 0 (p.derivation.root 0)).length = n + 23 := by
    have := (lies.preorder_perm 0).length_eq
    rw [List.length_map, List.length_map, List.length_range', ← Tree.size_of_stored shows.stored,
      size] at this
    exact this
  rw [grounded.outline_eq (by rwa [length]), if_neg]
  intro shallow
  have := shallow v among
  omega

/-- The text of a program with 33000 negations is parsed, and there is no outline of its
tree, with however many steps to spare. -/
theorem no_outline_of_negations :
    ∃ parsed, parse (Program.negations 33000).render 33023 = .ok parsed ∧
      ∀ steps, 132092 ≤ steps →
        parsed.tree.outline steps = .error (.overwide 65536) := by
  obtain ⟨parsed, accepted, -, stops⟩ := outline_negations (n := 33000) (by decide) (by decide)
  exact ⟨parsed, accepted, stops⟩

end CoreLang
