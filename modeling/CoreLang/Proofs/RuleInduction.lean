import CoreLang.Parse.Grammar

/-!
# Induction over the grammar

Every rule of the grammar is put together from a few primitive steps, and an `Assembly` of a
rule says how. What holds of the primitive steps and is kept by putting rules together
therefore holds of every rule, and in the end of the rule for programs (`Assembly.program`).

An assembly also keeps count. It tells how many nodes are claimed and not yet added where a
rule begins and where it ends: a link of a chain that is put aside stays claimed until the end
of the chain. And a level is entered only inside a node that was claimed for it, and only as
often as levels are left.
-/

namespace CoreLang

theorem ParseError.ofScan_ne_tree (fault : ScanFault) (error : TreeError) :
    ParseError.ofScan fault ≠ .tree error := by
  unfold ofScan
  repeat' split
  all_goals nofun

namespace BuildM

open ParseM (Site)

/-! ### Primitive steps -/

section Steps

variable {α : Type} {rule : BuildM α} {s t : ParseState TreeBudget} {node : Node} {line : Nat}

/-- Where there is room, a node is claimed. -/
theorem claim_of_free (free : s.budget.tree.size + s.budget.reserved < s.budget.tree.capacity) :
    claim s = .ok s.lookahead.line { s with budget.reserved := s.budget.reserved + 1 } :=
  if_pos free

theorem claim_of_full (full : ¬ s.budget.tree.size + s.budget.reserved < s.budget.tree.capacity) :
    claim s = .error (.tree (.capacityExceeded s.budget.tree.capacity)) s :=
  if_neg full

/-- The state in which a node has been added to the tree. -/
def withNode (s : ParseState TreeBudget) (node : Node) (line : Nat) : ParseState TreeBudget :=
  { s with
    budget.tree.entries := s.budget.tree.entries.push { node := node, line := line }
    budget.reserved := s.budget.reserved - 1 }

/-- Where there is room and a number, a node is added and its claim given back. -/
theorem alloc_of_free (free : s.budget.tree.size < s.budget.tree.capacity)
    (numbered : s.budget.tree.size < NodeId.limit) :
    alloc node line s = .ok ⟨s.budget.tree.size⟩ (withNode s node line) := by
  have stored : s.budget.tree.alloc node line = .ok _ := if_pos ⟨free, numbered⟩
  simp only [alloc, stored]
  rfl

/-- The claim is given back also where the node cannot be added. -/
theorem alloc_of_full (full : ¬ (s.budget.tree.size < s.budget.tree.capacity ∧
    s.budget.tree.size < NodeId.limit)) :
    alloc node line s = .error (.tree (.capacityExceeded s.budget.tree.capacity))
      { s with budget.reserved := s.budget.reserved - 1 } := by
  have full : s.budget.tree.alloc node line = .error _ := if_neg full
  simp only [alloc, full]

theorem nested_of_ok {a : α} (shallow : s.depth < ParseM.maxNesting)
    (done : rule { s with depth := s.depth + 1 } = .ok a t) :
    nested rule s = .ok a { t with depth := t.depth - 1 } := by
  simp only [nested, shallow, if_true, done]

/-- A level is left also if the rule inside fails. -/
theorem nested_of_error {e : ParseError} (shallow : s.depth < ParseM.maxNesting)
    (stopped : rule { s with depth := s.depth + 1 } = .error e t) :
    nested rule s = .error e { t with depth := t.depth - 1 } := by
  simp only [nested, shallow, if_true, stopped]

theorem nested_of_deep (deep : ¬ s.depth < ParseM.maxNesting) :
    nested rule s = ParseM.tooDeep s := by
  simp only [nested, deep, if_false]

end Steps

/-- The primitive steps that neither claim nor add a node and enter no level. -/
inductive Plain : {α : Type} → BuildM α → Prop where
  | pure {α : Type} (a : α) : Plain (Pure.pure a)
  | peek : Plain ParseM.peek
  | advance : Plain ParseM.advance
  | bindName (site : Site) (name : String) : Plain (ParseM.bindName site name)
  | nothingMore : Plain ParseM.nothingMore

/-- A step that does not look at the budget and keeps it, and the depth. Where it stops, it has
changed nothing and has something against the text, not against the tree. -/
def Quiet {α : Type} (rule : BuildM α) : Prop :=
  ∀ (s : ParseState TreeBudget) (budget : TreeBudget), match rule s with
    | .ok a t => t.budget = s.budget ∧ t.depth = s.depth ∧
      rule { s with budget := budget } = .ok a { t with budget := budget }
    | .error e t => t = s ∧ (∀ error, e ≠ .tree error) ∧
      rule { s with budget := budget } = .error e { t with budget := budget }

theorem Quiet.unexpected {α : Type} (expected : Expected) :
    Quiet (ParseM.unexpected expected : BuildM α) :=
  fun _ _ => ⟨rfl, by simp, rfl⟩

theorem Quiet.advance : Quiet ParseM.advance := by
  rintro ⟨lookahead, upcoming, ending, symbols, held, depth, tokenCount⟩ budget
  by_cases ended : lookahead.token = .eof
  · simp only [ParseM.advance, ended, if_true, and_self]
  · simp only [ParseM.advance, ended, if_false]
    cases upcoming with
    | cons next rest => exact ⟨rfl, rfl, rfl⟩
    | nil =>
      cases ending with
      | eof line => exact ⟨rfl, rfl, rfl⟩
      | fault fault => exact ⟨rfl, ParseError.ofScan_ne_tree fault, rfl⟩

theorem Quiet.bindName (site : Site) (name : String) : Quiet (ParseM.bindName site name) := by
  rintro ⟨lookahead, upcoming, ending, symbols, held, depth, tokenCount⟩ budget
  cases site with
  | declares =>
    simp only [ParseM.bindName]
    cases symbols.declare? name with
    | some found => exact ⟨rfl, rfl, rfl⟩
    | none => exact ⟨rfl, by simp, rfl⟩
  | uses =>
    simp only [ParseM.bindName]
    cases symbols.resolve? name with
    | some symbol => exact ⟨rfl, rfl, rfl⟩
    | none => exact ⟨rfl, by simp, rfl⟩

theorem Quiet.nothingMore : Quiet ParseM.nothingMore := by
  rintro ⟨lookahead, upcoming, ending, symbols, held, depth, tokenCount⟩ budget
  by_cases ended : lookahead.token = .eof
  · simp only [ParseM.nothingMore, ended, if_true, and_self]
  · simp only [ParseM.nothingMore, ended, if_false]
    exact ⟨trivial, by simp, trivial⟩

/-- Every plain step is quiet. -/
theorem Plain.quiet {α : Type} {rule : BuildM α} (step : Plain rule) : Quiet rule := by
  cases step with
  | pure | peek => exact fun _ _ => ⟨rfl, rfl, rfl⟩
  | advance => exact .advance
  | bindName site name => exact .bindName site name
  | nothingMore => exact .nothingMore

/-- How a rule is put together, for a place where at least `spare` more nodes are claimed than
levels are entered, and where `levels` more levels may be entered. The rule itself has
claimed `opened` nodes where it begins and `opened'` where it ends. -/
inductive Assembly : (spare levels opened opened' : Nat) → {α : Type} → BuildM α → Type 1 where
  | plain {spare levels opened : Nat} {α : Type} {rule : BuildM α} (step : Plain rule) :
    Assembly spare levels opened opened rule
  | claim {spare levels opened : Nat} : Assembly spare levels opened (opened + 1) claim
  | alloc {spare levels opened : Nat} (node : Node) (line : Nat) :
    Assembly spare levels (opened + 1) opened (alloc node line)
  | unexpected {spare levels opened opened' : Nat} {α : Type} (expected : Expected) :
    Assembly spare levels opened opened' (ParseM.unexpected expected : BuildM α)
  | tooDeep {spare : Nat} {α : Type} : Assembly (spare + 1) 0 0 0 (ParseM.tooDeep : BuildM α)
  | bind {spare levels opened opened' opened'' : Nat} {α β : Type} {x : BuildM α}
      {f : α → BuildM β} (first : Assembly spare levels opened opened' x)
      (next : ∀ a, Assembly spare levels opened' opened'' (f a)) :
    Assembly spare levels opened opened'' (x >>= f)
  | call {spare levels opened : Nat} {α : Type} {rule : BuildM α}
      (inside : Assembly (spare + opened) levels 0 0 rule) :
    Assembly spare levels opened opened rule
  | nested {spare levels : Nat} {α : Type} {rule : BuildM α}
      (inside : Assembly spare levels 0 0 rule) :
    Assembly (spare + 1) (levels + 1) 0 0 (nested rule)
  | repeating {spare levels : Nat} {α : Type} {rule : Nat → BuildM α}
      (each : ∀ n, Assembly spare levels 0 0 (rule n)) :
    Assembly spare levels 0 0 (ParseM.repeating rule)

namespace Assembly

variable {spare levels opened : Nat}

/-- A token that is asked for. -/
def expect (token : Token) (expected : Expected) :
    Assembly spare levels opened opened (ParseM.expect token expected) :=
  .bind (.plain .peek) fun _ => by
    split
    · exact .plain .advance
    · exact .unexpected expected

def blockEnd : Assembly spare levels opened opened ParseM.blockEnd :=
  .bind (expect _ _) fun _ => expect _ _

/-! ### Chains -/

section

variable {κ : Type} {c : Chain κ} (item : ∀ spare, Assembly spare levels 0 0 c.item)
  (more : ∀ opened, Assembly spare levels opened opened c.more)

/-- The links that were put aside are claimed, and what follows them is in the tree. -/
def allocLinks : (links : List (Link κ)) → (rest : NodeId) →
    Assembly spare levels links.length 0 (c.allocLinks links rest)
  | [], _ => .plain (.pure _)
  | _ :: links, _ => .bind (.alloc _ _) fun _ => allocLinks links _

/-- The last link is claimed like the ones that were put aside. -/
def allocChain (links : List (Link κ)) (line : Nat) (item : NodeId) :
    Assembly spare levels (links.length + 1) 0 (c.allocChain links line item) :=
  .bind (.alloc _ _) fun _ => allocLinks links _

/-- The links that were put aside are claimed, and so is the one behind them. -/
def linksUpTo : (n : Nat) → (links : List (Link κ)) → (line : Nat) → (at_ : NodeId) →
    Assembly spare levels (links.length + 1) 0 (c.linksUpTo n links line at_)
  | 0, links, _, _ => allocChain links _ _
  | n + 1, links, line, at_ => .bind (more _) fun found => by
    cases found with
    | none => exact allocChain links _ _
    | some kind =>
      exact .bind .claim fun _ => .bind (.call (item _)) fun _ =>
        linksUpTo n (⟨line, at_, kind⟩ :: links) _ _

/-- A chain claims a link before each item, so every item is inside a claimed node. -/
def upTo (n : Nat) : Assembly spare levels 0 0 (c.upTo n) :=
  .bind .claim fun _ => .bind (.call (item _)) fun _ => linksUpTo item more n [] _ _

end

def ahead? (begins : Token → Bool) :
    Assembly spare levels opened opened (BuildM.ahead? begins) :=
  .bind (.plain .peek) fun _ => by
    split
    · exact .plain (.pure _)
    · exact .plain (.pure _)

def passed? (token : Token) : Assembly spare levels opened opened (BuildM.passed? token) :=
  .bind (.plain .peek) fun _ => by
    split
    · exact .bind (.plain .advance) fun _ => .plain (.pure _)
    · exact .plain (.pure _)

def sign? : Assembly spare levels opened opened BuildM.sign? :=
  .bind (.plain .peek) fun _ => by
    split
    · exact .bind (.plain .advance) fun _ => .plain (.pure _)
    · exact .bind (.plain .advance) fun _ => .plain (.pure _)
    · exact .plain (.pure _)

/-! ### Declarations -/

def identifier (site : Site) : Assembly spare levels 0 0 (BuildM.identifier site) :=
  .bind .claim fun _ => .bind (.plain .peek) fun _ => by
    split
    · exact .bind (.plain (.bindName _ _)) fun _ => .bind (.plain .advance) fun _ => .alloc _ _
    · exact .unexpected _

def idList (site : Site) : Assembly spare levels 0 0 (BuildM.idList site) :=
  .repeating fun n => upTo (fun _ => identifier site) (fun _ => passed? _) n

def decl : Assembly spare levels 0 0 BuildM.decl :=
  .bind .claim fun _ => .bind (expect _ _) fun _ => .bind (.call (idList _)) fun _ =>
    .bind (expect _ _) fun _ => .alloc _ _

def declSeq : Assembly spare levels 0 0 BuildM.declSeq :=
  .repeating fun n => upTo (fun _ => decl) (fun _ => ahead? _) n

/-! ### Expressions

Where one rule is inside another, a node of the outer one is claimed. -/

section

variable {inside : BuildM NodeId} (inner : ∀ spare, Assembly (spare + 1) levels 0 0 inside)

/-- An operand claims its node before it looks inside parentheses, so one more node than before
is claimed there. -/
def operandWith : Assembly spare levels 0 0 (BuildM.operandWith inside) :=
  .bind .claim fun _ => .bind (.plain .peek) fun _ => by
    split
    · exact .bind .claim fun _ => .bind (.plain .advance) fun _ => .bind (.alloc _ _) fun _ =>
        .bind (.plain (.pure _)) fun _ => .alloc _ _
    · exact .bind (.call (identifier _)) fun _ => .bind (.plain (.pure _)) fun _ => .alloc _ _
    · exact .bind (.plain .advance) fun _ => .bind (.call (inner _)) fun _ =>
        .bind (expect _ _) fun _ => .bind (.plain (.pure _)) fun _ => .alloc _ _
    · exact .bind (.unexpected _) fun _ => .alloc _ _

def termWith : Assembly spare levels 0 0 (BuildM.termWith inside) :=
  .repeating fun n => upTo (fun _ => operandWith inner) (fun _ => passed? _) n

def exprWith : Assembly spare levels 0 0 (BuildM.exprWith inside) :=
  .repeating fun n => upTo (fun _ => termWith inner) (fun _ => sign?) n

end

/-- The inside of parentheses, by recursion on the levels. The level that is entered is covered
by the node that is claimed around it. -/
def innerExpr : (levels spare : Nat) → Assembly (spare + 1) levels 0 0 (BuildM.innerExpr levels)
  | 0, _ => .tooDeep
  | levels + 1, _ => .nested (exprWith (innerExpr levels))

def operand : Assembly spare levels 0 0 (BuildM.operand levels) :=
  operandWith (innerExpr levels)

def expr : Assembly spare levels 0 0 (BuildM.expr levels) :=
  exprWith (innerExpr levels)

/-! ### Conditions -/

def compOp : Assembly spare levels 0 0 BuildM.compOp :=
  .bind .claim fun _ => .bind (.plain .peek) fun _ => by
    split
    · exact .bind (.plain .advance) fun _ => .alloc _ _
    · exact .unexpected _

def comparison : Assembly spare levels 0 0 (BuildM.comparison levels) :=
  .bind .claim fun _ => .bind (expect _ _) fun _ => .bind (.call operand) fun _ =>
    .bind (.call compOp) fun _ => .bind (.call operand) fun _ => .bind (expect _ _) fun _ =>
      .alloc _ _

/-- The negations that were put aside are claimed, and what follows them is in the tree. -/
def allocNegations : (lines : List Nat) → (cond : NodeId) →
    Assembly spare levels lines.length 0 (BuildM.allocNegations lines cond)
  | [], _ => .plain (.pure _)
  | _ :: lines, _ => .bind (.alloc _ _) fun _ => allocNegations lines _

section

variable {inside : BuildM NodeId} (inner : ∀ spare, Assembly (spare + 1) levels 0 0 inside)

def plainCond : Assembly spare levels 0 0 (BuildM.plainCond levels inside) :=
  .bind .claim fun _ => .bind (.plain .peek) fun _ => by
    split
    · refine .bind (.plain .advance) fun _ => .bind (.call (inner _)) fun _ =>
        .bind (.plain .peek) fun _ => ?_
      split
      · exact .bind (.plain (.pure _)) fun _ => .bind (.plain .advance) fun _ =>
          .bind (.call (inner _)) fun _ => .bind (expect _ _) fun _ =>
            .bind (.plain (.pure _)) fun _ => .alloc _ _
      · exact .bind (.plain (.pure _)) fun _ => .bind (.plain .advance) fun _ =>
          .bind (.call (inner _)) fun _ => .bind (expect _ _) fun _ =>
            .bind (.plain (.pure _)) fun _ => .alloc _ _
      · exact .bind (.unexpected _) fun _ => .bind (.plain .advance) fun _ =>
          .bind (.call (inner _)) fun _ => .bind (expect _ _) fun _ =>
            .bind (.plain (.pure _)) fun _ => .alloc _ _
    · exact .bind (.call comparison) fun _ => .bind (.plain (.pure _)) fun _ => .alloc _ _

/-- The negations that were put aside are claimed. -/
def condUpTo : (n : Nat) → (negations : List Nat) →
    Assembly spare levels negations.length 0 (BuildM.condUpTo levels inside n negations)
  | 0, negations => .bind (.call (plainCond inner)) fun _ => allocNegations negations _
  | n + 1, negations => .bind (.plain .peek) fun _ => by
    split
    · exact .bind .claim fun line => .bind (.plain .advance) fun _ =>
        condUpTo n (line :: negations)
    · exact .bind (.call (plainCond inner)) fun _ => allocNegations negations _

def condWith : Assembly spare levels 0 0 (BuildM.condWith levels inside) :=
  .repeating fun n => condUpTo inner n []

end

/-- The inside of brackets, by recursion on the levels. -/
def innerCond : (levels spare : Nat) → Assembly (spare + 1) levels 0 0 (BuildM.innerCond levels)
  | 0, _ => .tooDeep
  | levels + 1, _ => .nested (condWith (innerCond levels))

def cond : Assembly spare levels 0 0 (BuildM.cond levels) :=
  condWith (innerCond levels)

/-! ### Statements -/

def assignment : Assembly spare levels 0 0 (BuildM.assignment levels) :=
  .bind .claim fun _ => .bind (.call (identifier _)) fun _ => .bind (expect _ _) fun _ =>
    .bind (.call expr) fun _ => .bind (expect _ _) fun _ => .alloc _ _

def transfer (node : NodeId → Node) : Assembly spare levels 0 0 (BuildM.transfer node) :=
  .bind .claim fun _ => .bind (.plain .advance) fun _ => .bind (.call (idList _)) fun _ =>
    .bind (expect _ _) fun _ => .alloc _ _

section

variable {block : BuildM NodeId} (inner : ∀ spare, Assembly (spare + 1) levels 0 0 block)

def conditional : Assembly spare levels 0 0 (BuildM.conditional levels block) :=
  .bind .claim fun _ => .bind (.plain .advance) fun _ => .bind (.call cond) fun _ =>
    .bind (expect _ _) fun _ => .bind (.call (inner _)) fun _ => .bind (.plain .peek) fun _ => by
      split
      · exact .bind (.plain .advance) fun _ => .bind (.call (inner _)) fun _ =>
          .bind (.plain (.pure _)) fun _ => .bind blockEnd fun _ => .alloc _ _
      · exact .bind (.plain (.pure _)) fun _ => .bind blockEnd fun _ => .alloc _ _
      · exact .bind (.unexpected _) fun _ => .bind blockEnd fun _ => .alloc _ _

def loop : Assembly spare levels 0 0 (BuildM.loop levels block) :=
  .bind .claim fun _ => .bind (.plain .advance) fun _ => .bind (.call cond) fun _ =>
    .bind (expect _ _) fun _ => .bind (.call (inner _)) fun _ => .bind blockEnd fun _ => .alloc _ _

def stmtWith : Assembly spare levels 0 0 (BuildM.stmtWith levels block) :=
  .bind .claim fun _ => .bind (.plain .peek) fun _ => by
    split
    · exact .bind (.call assignment) fun _ => .bind (.plain (.pure _)) fun _ => .alloc _ _
    · exact .bind (.call (conditional inner)) fun _ => .bind (.plain (.pure _)) fun _ => .alloc _ _
    · exact .bind (.call (loop inner)) fun _ => .bind (.plain (.pure _)) fun _ => .alloc _ _
    · exact .bind (.call (transfer _)) fun _ => .bind (.plain (.pure _)) fun _ => .alloc _ _
    · exact .bind (.call (transfer _)) fun _ => .bind (.plain (.pure _)) fun _ => .alloc _ _
    · exact .bind (.unexpected _) fun _ => .alloc _ _

def stmtSeqWith : Assembly spare levels 0 0 (BuildM.stmtSeqWith levels block) :=
  .repeating fun n => upTo (fun _ => stmtWith inner) (fun _ => ahead? _) n

end

/-- The inside of a block, by recursion on the levels. -/
def innerBlock : (levels spare : Nat) → Assembly (spare + 1) levels 0 0 (BuildM.innerBlock levels)
  | 0, _ => .tooDeep
  | levels + 1, _ => .nested (stmtSeqWith (innerBlock levels))

def stmtSeq : Assembly spare levels 0 0 (BuildM.stmtSeq levels) :=
  stmtSeqWith (innerBlock levels)

/-! ### Programs -/

/-- A program, with no level entered and no node claimed before it begins. -/
def program : Assembly 0 ParseM.maxNesting 0 0 BuildM.program :=
  .bind .claim fun _ => .bind (expect _ _) fun _ => .bind (.call declSeq) fun _ =>
    .bind (expect _ _) fun _ => .bind (.call stmtSeq) fun _ => .bind (expect _ _) fun _ =>
      .bind (.plain .nothingMore) fun _ => .alloc _ _

end Assembly

end BuildM

end CoreLang
