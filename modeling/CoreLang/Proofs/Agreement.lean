import CoreLang.Proofs.Safety
import CoreLang.Proofs.Shape

/-!
# What can be printed can be run

Printing reads a program back from its tree and running walks the same tree, and each
checks for itself that a node is of the kind that its place wants. Nothing is assumed here
about how the tree came to be.

The two agree but for one thing. Below a statement of the form `read` or `write`, printing
takes a node of either kind, and the node tells which of the two is printed; a run goes by
the form of the statement. So a run of a tree that can be printed finds every node and
every name, and the only fault of the tree that it can meet is a statement of one form over
a node of the other (`Tree.Crossed`).
-/

namespace CoreLang

variable {α β : Type}

/-- A `read` statement over a `write` node, or the other way round, is met on the way down
from the root. The tags are the one that the statement wants and the one that is there. -/
inductive Tree.Crossed (t : Tree) (root : NodeId) : (expected found : Tag) → Prop where
  | read {id inner ids : NodeId} (reached : t.Reaches root id)
      (stmt : t.node? id = some (.stmt .input inner)) (node : t.node? inner = some (.output ids)) :
      Crossed t root .input .output
  | write {id inner ids : NodeId} (reached : t.Reaches root id)
      (stmt : t.node? id = some (.stmt .output inner)) (node : t.node? inner = some (.input ids)) :
      Crossed t root .output .input

/-- Nothing is missing, and the tree is at fault only where kinds are mixed up in a way that
is let pass. -/
def Stop.Agreed (mixed : Tag → Tag → Prop) : Stop RuntimeError → Prop
  | .unfinished => True
  | .unnamed _ | .dangling _ | .overwide _ => False
  | .fault (.tree (.unexpectedNode expected found)) => mixed expected found
  | .fault (.tree _) => False
  | .fault _ => True

variable {t : Tree} {table : SymbolTable} {mixed : Tag → Tag → Prop} {id : NodeId}

/-! ### What retrieving finds -/

theorem exists_of_bind_eq_ok {ε : Type} {x : Except ε α} {f : α → Except ε β} {b : β}
    (h : x >>= f = .ok b) : ∃ a, x = .ok a ∧ f a = .ok b := by
  cases x with
  | ok a => exact ⟨a, rfl, h⟩
  | error e => cases h

namespace Tree

theorem node?_of_fetch {node : Node} (found : t.fetch id = .ok node) : t.node? id = some node := by
  rw [fetch, get] at found
  cases here : t.node? id with
  | some other =>
    rw [here] at found
    cases found
    rfl
  | none =>
    rw [here] at found
    cases found

/-- What begins with a look at a node finds one. -/
theorem exists_node {f : Node → Except (Stop TreeError) α} {a : α}
    (found : t.fetch id >>= f = .ok a) : ∃ node, t.node? id = some node ∧ f node = .ok a := by
  obtain ⟨node, here, found⟩ := exists_of_bind_eq_ok found
  exact ⟨node, node?_of_fetch here, found⟩

theorem exists_ident {x : Ident String} (found : t.retrieveIdent table.name? id = .ok x) :
    ∃ symbol, t.node? id = some (.ident symbol) ∧ table.name? symbol = some x.var := by
  obtain ⟨node, here, found⟩ := exists_node found
  cases node with
  | ident symbol =>
    simp only at found
    cases named : table.name? symbol with
    | some name =>
      rw [named] at found
      cases found
      exact ⟨symbol, here, named⟩
    | none =>
      rw [named] at found
      cases found
  | _ => cases found

theorem exists_int {value : Int64} (found : t.retrieveInt id = .ok value) :
    t.node? id = some (.int value) := by
  obtain ⟨node, here, found⟩ := exists_node found
  cases node with
  | int value =>
    cases found
    exact here
  | _ => cases found

theorem exists_compOp {op : Comparator} (found : t.retrieveCompOp id = .ok op) :
    t.node? id = some (.compOp op) := by
  obtain ⟨node, here, found⟩ := exists_node found
  cases node with
  | compOp op =>
    cases found
    exact here
  | _ => cases found

/-! ### Expressions -/

theorem symbolAt_of_node? {symbol : Symbol} (here : t.node? id = some (.ident symbol)) :
    t.symbolAt id = .ok symbol := by
  rw [symbolAt, load_eq_ok_iff.2 here]
  rfl

theorem variableAt_agreed {x : Ident String} (found : t.retrieveIdent table.name? id = .ok x)
    {env : Environment} (symbols : env.symbols = table) :
    FailsOnly (Stop.Agreed mixed) (t.variableAt env id) := by
  obtain ⟨symbol, here, named⟩ := exists_ident found
  simp only [variableAt, symbolAt_of_node? here, ok_bind, symbols, nameOf, named]
  cases env.get? symbol with
  | some value => exact .ok value
  | none => exact .error trivial

theorem literalAt_agreed {value : Int64} (found : t.retrieveInt id = .ok value) :
    FailsOnly (Stop.Agreed mixed) (t.literalAt id) := by
  rw [literalAt, load_eq_ok_iff.2 (exists_int found)]
  exact .ok value

theorem combine_agreed (op : Operator) (a b : Int64) :
    FailsOnly (Stop.Agreed mixed) (t.combine op a b id) := by
  unfold combine Operator.apply
  split
  · exact .ok _
  · exact .error trivial

/-- Expressions, terms and operands that can be retrieved can be evaluated. -/
structure ValuesAgree (t : Tree) (table : SymbolTable) (mixed : Tag → Tag → Prop) (depth : Nat) :
    Prop where
  expr {id : NodeId} {e : Expr String} (found : t.retrieveExpr table.name? depth id = .ok e)
    {env : Environment} (symbols : env.symbols = table) (steps : Nat) :
    FailsOnly (Stop.Agreed mixed) (t.evalExpr env steps id)
  term {id : NodeId} {u : Term String} (found : t.retrieveTerm table.name? depth id = .ok u)
    {env : Environment} (symbols : env.symbols = table) (steps : Nat) :
    FailsOnly (Stop.Agreed mixed) (t.evalTerm env steps id)
  operand {id : NodeId} {o : Operand String}
    (found : t.retrieveOperand table.name? depth id = .ok o)
    {env : Environment} (symbols : env.symbols = table) (steps : Nat) :
    FailsOnly (Stop.Agreed mixed) (t.evalOperand env steps id)

theorem valuesAgree (depth : Nat) : ValuesAgree t table mixed depth := by
  induction depth with
  | zero => exact ⟨nofun, nofun, nofun⟩
  | succ depth ih =>
    constructor
    · intro id e found env symbols steps
      obtain ⟨node, here, found⟩ := exists_node found
      cases steps with
      | zero => exact .error trivial
      | succ steps =>
        rw [evalExpr_succ, load_eq_ok_iff.2 here]
        cases node with
        | exprTerm a =>
          obtain ⟨u, term, -⟩ := exists_of_bind_eq_ok found
          exact ih.term term symbols steps
        | exprAdd a b | exprSub a b =>
          obtain ⟨u, term, found⟩ := exists_of_bind_eq_ok found
          obtain ⟨e, rest, -⟩ := exists_of_bind_eq_ok found
          exact (ih.term term symbols steps).bind fun _ =>
            (ih.expr rest symbols steps).bind fun _ => combine_agreed _ _ _
        | _ => cases found
    · intro id u found env symbols steps
      obtain ⟨node, here, found⟩ := exists_node found
      cases steps with
      | zero => exact .error trivial
      | succ steps =>
        rw [evalTerm_succ, load_eq_ok_iff.2 here]
        cases node with
        | termOperand a =>
          obtain ⟨o, operand, -⟩ := exists_of_bind_eq_ok found
          exact ih.operand operand symbols steps
        | termMul a b =>
          obtain ⟨o, operand, found⟩ := exists_of_bind_eq_ok found
          obtain ⟨u, rest, -⟩ := exists_of_bind_eq_ok found
          exact (ih.operand operand symbols steps).bind fun _ =>
            (ih.term rest symbols steps).bind fun _ => combine_agreed _ _ _
        | _ => cases found
    · intro id o found env symbols steps
      obtain ⟨node, here, found⟩ := exists_node found
      cases steps with
      | zero => exact .error trivial
      | succ steps =>
        rw [evalOperand_succ, load_eq_ok_iff.2 here]
        cases node with
        | operandInt leaf =>
          obtain ⟨value, int, -⟩ := exists_of_bind_eq_ok found
          exact literalAt_agreed int
        | operandIdent leaf =>
          obtain ⟨x, ident, -⟩ := exists_of_bind_eq_ok found
          exact variableAt_agreed ident symbols
        | operandParen a =>
          obtain ⟨e, expr, -⟩ := exists_of_bind_eq_ok found
          exact ih.expr expr symbols steps
        | _ => cases found

theorem namesAt_agreed {depth : Nat} {ids : IdList String}
    (found : t.retrieveIdList table.name? depth id = .ok ids) (steps : Nat) :
    FailsOnly (Stop.Agreed mixed) (t.namesAt table steps id) := by
  induction depth generalizing id ids steps with
  | zero => cases found
  | succ depth ih =>
    obtain ⟨node, here, found⟩ := exists_node found
    cases steps with
    | zero => exact .error trivial
    | succ steps =>
      rw [namesAt, load_eq_ok_iff.2 here]
      cases node with
      | idList first rest =>
        cases rest with
        | none =>
          obtain ⟨x, ident, -⟩ := exists_of_bind_eq_ok found
          obtain ⟨symbol, leaf, named⟩ := exists_ident ident
          simp only [ok_bind, symbolAt_of_node? leaf, nameOf, named]
          exact .ok _
        | some rest =>
          obtain ⟨x, ident, found⟩ := exists_of_bind_eq_ok found
          obtain ⟨xs, others, -⟩ := exists_of_bind_eq_ok found
          obtain ⟨symbol, leaf, named⟩ := exists_ident ident
          simp only [ok_bind, symbolAt_of_node? leaf, nameOf, named]
          exact (ih others steps).bind fun _ => .ok _
      | _ => cases found

end Tree

/-! ### Computations -/

/-- Over this table, a computation keeps the table and stops only as agreed. -/
def RunM.Agrees (table : SymbolTable) (mixed : Tag → Tag → Prop) (x : RunM α) : Prop :=
  ∀ m : Machine, m.env.symbols = table →
    match x m with
    | .ok _ m' => m'.env.symbols = table
    | .error stop _ => stop.Agreed mixed

namespace RunM.Agrees

theorem pure (a : α) : Agrees table mixed (Pure.pure a) :=
  fun _ symbols => symbols

theorem bind {x : RunM α} {f : α → RunM β} (first : Agrees table mixed x)
    (next : ∀ a, Agrees table mixed (f a)) : Agrees table mixed (x >>= f) := by
  intro m symbols
  have h := first m symbols
  cases ends : x m with
  | ok a m' =>
    rw [ends] at h
    rw [bind_of_ok f ends]
    exact next a m' h
  | error stop m' =>
    rw [ends] at h
    rw [bind_of_error f ends]
    exact h

theorem value {r : Except (Stop RuntimeError) α} (h : FailsOnly (Stop.Agreed mixed) r) :
    Agrees table mixed (ofExcept r) := by
  intro m symbols
  cases r with
  | ok a => exact symbols
  | error stop => exact h stop rfl

theorem unfinished : Agrees table mixed (ofExcept (.error .unfinished) : RunM α) :=
  .value (.error trivial)

theorem environment {f : Environment → RunM α}
    (next : ∀ env, env.symbols = table → Agrees table mixed (f env)) :
    Agrees table mixed (RunM.environment >>= f) :=
  fun m symbols => next m.env symbols m symbols

/-- The node is there. -/
theorem node {node : Node} (here : t.node? id = some node) {f : Node → RunM α}
    (next : Agrees table mixed (f node)) : Agrees table mixed (ofExcept (t.load id) >>= f) := by
  rw [Tree.load_eq_ok_iff.2 here]
  exact next

theorem count (f : Counters → Counters) : Agrees table mixed (count f) :=
  fun _ symbols => symbols

theorem store (symbol : Symbol) (v : Int64) (name : String) (line : Nat) :
    Agrees table mixed (store symbol v name line) := by
  intro m symbols
  simp only [RunM.store]
  cases stored : m.env.set? symbol v with
  | some env => exact (Environment.symbols_of_set? stored).trans symbols
  | none => trivial

theorem storeByName (name : String) (v : Int64) (line : Nat) :
    Agrees table mixed (storeByName name v line) := by
  intro m symbols
  simp only [RunM.storeByName]
  cases stored : m.env.setByName? name v with
  | some env =>
    obtain ⟨symbol, -, stored⟩ := Option.bind_eq_some_iff.1 stored
    exact (Environment.symbols_of_set? stored).trans symbols
  | none => trivial

theorem nextValue (line : Nat) : Agrees table mixed (nextValue line) := by
  intro m symbols
  have proper := m.input.next_proper line
  simp only [RunM.nextValue]
  cases told : m.input.next line with
  | mk result input =>
    rw [told] at proper
    cases result with
    | ok v => exact symbols
    | error e =>
      cases e with
      | tree error => exact (proper trivial).elim
      | _ => trivial

theorem emit (text : String) (line : Nat) : Agrees table mixed (emit text line) := by
  intro m symbols
  unfold RunM.emit
  obtain ⟨written, sink⟩ := m.sink.writeText text
  cases written with
  | ok _ => exact symbols
  | error reason => trivial

theorem flush (line : Nat) : Agrees table mixed (flush line) := by
  intro m symbols
  unfold RunM.flush
  cases m.sink.flush with
  | ok _ => exact symbols
  | error reason => trivial

theorem readValues (line : Nat) (names : List String) :
    Agrees table mixed (Tree.readValues line names) := by
  induction names with
  | nil => exact .pure ()
  | cons name others ih =>
    exact (nextValue line).bind fun v => (storeByName name v line).bind fun _ => ih

theorem writeValues (line : Nat) (names : List String) :
    Agrees table mixed (Tree.writeValues line names) := by
  induction names with
  | nil => exact .pure ()
  | cons name others ih =>
    refine .environment fun env symbols => ?_
    split
    · exact fun _ _ => trivial
    · exact (emit _ line).bind fun _ => ih

end RunM.Agrees

/-! ### Conditions and statements -/

namespace Tree

open RunM (Agrees)

variable {depth : Nat}

theorem evalComparison_agrees {c : Comparison String}
    (found : t.retrieveComparison table.name? depth id = .ok c) (steps : Nat) :
    Agrees table mixed (t.evalComparison steps id) := by
  obtain ⟨node, here, found⟩ := exists_node found
  refine .node here ?_
  cases node with
  | comparison left op right =>
    obtain ⟨sign, compOp, found⟩ := exists_of_bind_eq_ok found
    obtain ⟨a, first, found⟩ := exists_of_bind_eq_ok found
    obtain ⟨b, second, -⟩ := exists_of_bind_eq_ok found
    have values : ValuesAgree t table mixed depth := valuesAgree depth
    refine (Agrees.count _).bind fun _ => .environment fun env symbols => ?_
    refine (Agrees.value (values.operand first symbols steps)).bind fun a => ?_
    have sign : t.comparatorAt op = .ok sign := by
      rw [comparatorAt, load_eq_ok_iff.2 (exists_compOp compOp)]
      rfl
    rw [sign]
    exact (Agrees.value (values.operand second symbols steps)).bind fun b => .pure _
  | _ => cases found

theorem evalCond_agrees {c : Cond String} (found : t.retrieveCond table.name? depth id = .ok c)
    (steps : Nat) : Agrees table mixed (t.evalCond steps id) := by
  induction depth generalizing id c steps with
  | zero => cases found
  | succ depth ih =>
    obtain ⟨node, here, found⟩ := exists_node found
    cases steps with
    | zero => exact Agrees.unfinished
    | succ steps =>
      rw [evalCond_succ]
      refine .node here ?_
      cases node with
      | condCompare a =>
        obtain ⟨c, comparison, -⟩ := exists_of_bind_eq_ok found
        exact (Agrees.count _).bind fun _ => evalComparison_agrees comparison steps
      | condNot a =>
        obtain ⟨c, inner, -⟩ := exists_of_bind_eq_ok found
        exact (Agrees.count _).bind fun _ => (ih inner steps).bind fun _ => .pure _
      | condAnd a b | condOr a b =>
        obtain ⟨l, left, found⟩ := exists_of_bind_eq_ok found
        obtain ⟨r, right, -⟩ := exists_of_bind_eq_ok found
        exact (Agrees.count _).bind fun _ => (ih left steps).bind fun _ =>
          (ih right steps).bind fun _ => .pure _
      | _ => cases found

theorem runAssign_agrees {target value : NodeId} {x : Ident String} {e : Expr String}
    (here : t.node? id = some (.assign target value))
    (ident : t.retrieveIdent table.name? target = .ok x)
    (expr : t.retrieveExpr table.name? depth value = .ok e) (steps : Nat) :
    Agrees table mixed (t.runAssign steps id) := by
  obtain ⟨symbol, leaf, -⟩ := exists_ident ident
  refine .node here ?_
  simp only [symbolAt_of_node? leaf, RunM.ofExcept_ok_bind]
  refine .environment fun env symbols => ?_
  exact (Agrees.value ((valuesAgree depth).expr expr symbols steps)).bind fun v =>
    Agrees.store _ v _ _

/-- A loop agrees if its condition and its body do. -/
theorem runLoop_agrees {cond body : NodeId}
    (asks : ∀ steps, Agrees table mixed (t.evalCond steps cond))
    (runs : ∀ steps, Agrees table mixed (t.runStmtSeq steps body)) (steps : Nat) :
    Agrees table mixed (t.runLoop steps cond body) := by
  induction steps with
  | zero => exact Agrees.unfinished
  | succ steps ih =>
    rw [runLoop]
    refine (asks steps).bind fun holds => ?_
    split
    · exact (Agrees.count _).bind fun _ => (runs steps).bind fun _ => ih
    · exact .pure ()

theorem runInput_agrees {ids : NodeId} {xs : IdList String}
    (here : t.node? id = some (.input ids))
    (found : t.retrieveIdList table.name? depth ids = .ok xs) (steps : Nat) :
    Agrees table mixed (t.runInput steps id) := by
  refine .node here (.environment fun env symbols => ?_)
  rw [symbols]
  exact (Agrees.value (namesAt_agreed found steps)).bind fun names => Agrees.readValues _ names

theorem runOutput_agrees {ids : NodeId} {xs : IdList String}
    (here : t.node? id = some (.output ids))
    (found : t.retrieveIdList table.name? depth ids = .ok xs) (steps : Nat) :
    Agrees table mixed (t.runOutput steps id) := by
  refine .node here (.environment fun env symbols => ?_)
  rw [symbols]
  exact (Agrees.value (namesAt_agreed found steps)).bind fun names => Agrees.writeValues _ names

/-- Statements and sequences below a root that can be retrieved can be run. -/
structure BlocksAgree (t : Tree) (table : SymbolTable) (root : NodeId) (depth : Nat) : Prop where
  stmt {id : NodeId} {s : Stmt String} (reached : t.Reaches root id)
    (found : t.retrieveStmt table.name? depth id = .ok s) (steps : Nat) :
    Agrees table (t.Crossed root) (t.runStmt steps id)
  seq {id : NodeId} {s : StmtSeq String} (reached : t.Reaches root id)
    (found : t.retrieveStmtSeq table.name? depth id = .ok s) (steps : Nat) :
    Agrees table (t.Crossed root) (t.runStmtSeq steps id)

namespace BlocksAgree

variable {root : NodeId} (ih : BlocksAgree t table root depth)

include ih

theorem branch {cond body : NodeId} {other : Option NodeId} {c : Cond String} {b : StmtSeq String}
    (reached : t.Reaches root id) (here : t.node? id = some (.ifStmt cond body other))
    (asked : t.retrieveCond table.name? depth cond = .ok c)
    (first : t.retrieveStmtSeq table.name? depth body = .ok b)
    (second : ∀ i ∈ other, ∃ o, t.retrieveStmtSeq table.name? depth i = .ok o) (steps : Nat) :
    Agrees table (t.Crossed root) (t.runIf steps id) := by
  cases steps with
  | zero => exact Agrees.unfinished
  | succ steps =>
    rw [runIf]
    refine .node here ((evalCond_agrees asked steps).bind fun holds => ?_)
    split
    · have kept : t.Keeps id .second body := ⟨_, here, rfl⟩
      exact ih.seq (reached.part kept) first steps
    · cases other with
      | none => exact .pure ()
      | some i =>
        have kept : t.Keeps id .third i := ⟨_, here, rfl⟩
        obtain ⟨o, found⟩ := second i rfl
        exact ih.seq (reached.part kept) found steps

/-- The node below a `read` or `write` statement is of one of the two kinds. If it is not the
one that the statement says, the statement is crossed. -/
theorem next_stmt {s : Stmt String} (reached : t.Reaches root id)
    (found : t.retrieveStmt table.name? (depth + 1) id = .ok s) (steps : Nat) :
    Agrees table (t.Crossed root) (t.runStmt steps id) := by
  obtain ⟨node, here, found⟩ := exists_node found
  cases steps with
  | zero => exact Agrees.unfinished
  | succ steps =>
    rw [runStmt]
    refine .node here ?_
    cases node with
    | stmt form inner =>
      have kept : t.Keeps id .first inner := ⟨_, here, rfl⟩
      have below := reached.part kept
      refine (Agrees.count _).bind fun _ => ?_
      cases form with
      | assign =>
        obtain ⟨node, there, found⟩ := exists_node found
        cases node with
        | assign target value =>
          obtain ⟨x, ident, found⟩ := exists_of_bind_eq_ok found
          obtain ⟨e, expr, -⟩ := exists_of_bind_eq_ok found
          exact runAssign_agrees there ident expr steps
        | _ => cases found
      | ifStmt =>
        obtain ⟨node, there, found⟩ := exists_node found
        cases node with
        | ifStmt cond body other =>
          cases other with
          | none =>
            obtain ⟨c, asked, found⟩ := exists_of_bind_eq_ok found
            obtain ⟨b, first, -⟩ := exists_of_bind_eq_ok found
            exact ih.branch below there asked first (by simp) steps
          | some other =>
            obtain ⟨c, asked, found⟩ := exists_of_bind_eq_ok found
            obtain ⟨b, first, found⟩ := exists_of_bind_eq_ok found
            obtain ⟨o, second, -⟩ := exists_of_bind_eq_ok found
            exact ih.branch below there asked first (by simpa using ⟨o, second⟩) steps
        | _ => cases found
      | whileStmt =>
        obtain ⟨node, there, found⟩ := exists_node found
        cases node with
        | whileStmt cond body =>
          have round : t.Keeps inner .second body := ⟨_, there, rfl⟩
          obtain ⟨c, cond, found⟩ := exists_of_bind_eq_ok found
          obtain ⟨b, body, -⟩ := exists_of_bind_eq_ok found
          exact .node there
            (runLoop_agrees (evalCond_agrees cond) (ih.seq (below.part round) body) steps)
        | _ => cases found
      | input =>
        obtain ⟨node, there, found⟩ := exists_node found
        cases node with
        | input ids =>
          obtain ⟨xs, list, -⟩ := exists_of_bind_eq_ok found
          exact runInput_agrees there list steps
        | output ids => exact .node there (.value (.error (.read reached here there)))
        | _ => cases found
      | output =>
        obtain ⟨node, there, found⟩ := exists_node found
        cases node with
        | output ids =>
          obtain ⟨xs, list, -⟩ := exists_of_bind_eq_ok found
          exact runOutput_agrees there list steps
        | input ids => exact .node there (.value (.error (.write reached here there)))
        | _ => cases found
    | _ => cases found

theorem next_seq {s : StmtSeq String} (reached : t.Reaches root id)
    (found : t.retrieveStmtSeq table.name? (depth + 1) id = .ok s) (steps : Nat) :
    Agrees table (t.Crossed root) (t.runStmtSeq steps id) := by
  obtain ⟨node, here, found⟩ := exists_node found
  cases steps with
  | zero => exact Agrees.unfinished
  | succ steps =>
    rw [runStmtSeq]
    refine .node here ?_
    cases node with
    | stmtSeq first rest =>
      have kept : t.Keeps id .first first := ⟨_, here, rfl⟩
      cases rest with
      | none =>
        obtain ⟨s, stmt, -⟩ := exists_of_bind_eq_ok found
        exact (ih.stmt (reached.part kept) stmt steps).bind fun _ => .pure ()
      | some rest =>
        have behind : t.Keeps id .second rest := ⟨_, here, rfl⟩
        obtain ⟨s, stmt, found⟩ := exists_of_bind_eq_ok found
        obtain ⟨ss, others, -⟩ := exists_of_bind_eq_ok found
        exact (ih.stmt (reached.part kept) stmt steps).bind fun _ =>
          ih.seq (reached.part behind) others steps
    | _ => cases found

end BlocksAgree

theorem blocksAgree (root : NodeId) (depth : Nat) : BlocksAgree t table root depth := by
  induction depth with
  | zero => exact ⟨nofun, nofun⟩
  | succ depth ih => exact ⟨ih.next_stmt, ih.next_seq⟩

theorem run_agrees {p : Program String} {root : NodeId} (rooted : t.root = some root)
    (found : t.toProgram table.name? = .ok p) (steps : Nat) :
    Agrees table (t.Crossed root) (t.run steps) := by
  rw [toProgram, rooted] at found
  obtain ⟨node, here, found⟩ := exists_node found
  rw [run, rooted]
  refine .node here ?_
  cases node with
  | program decls stmts =>
    have kept : t.Keeps root .second stmts := ⟨_, here, rfl⟩
    obtain ⟨ds, -, found⟩ := exists_of_bind_eq_ok found
    obtain ⟨ss, seq, -⟩ := exists_of_bind_eq_ok found
    exact ((blocksAgree root _).seq (Reaches.root.part kept) seq steps).bind fun _ => Agrees.flush _
  | _ => cases found

/-- A tree that can be printed has a root. -/
theorem exists_root {text : String} (rendered : t.render table = .ok text) :
    ∃ root p, t.root = some root ∧ t.toProgram table.name? = .ok p := by
  rw [render_eq] at rendered
  cases found : t.toProgram table.name? with
  | error reason =>
    rw [found] at rendered
    cases rendered
  | ok p =>
    cases rooted : t.root with
    | some root => exact ⟨root, p, rfl, rfl⟩
    | none =>
      rw [toProgram, rooted] at found
      cases found

end Tree

/-- A tree may be put together in any way: if it can be printed with a table, then a run over
this table that comes to an end misses no name and no node, and finds fault with the tree
only at a `read` statement over a `write` node or the other way round. -/
theorem run_error_of_render {text : String} (rendered : t.render table = .ok text) {m m' : Machine}
    (symbols : m.env.symbols = table) {steps : Nat} {stop : Stop RuntimeError}
    (ended : t.run steps m = .error stop m') (finished : stop ≠ .unfinished) :
    ∃ e, stop = .fault e ∧ ∀ fault, e = .tree fault →
      ∃ root expected found, t.root = some root ∧ t.Crossed root expected found ∧
        fault = .unexpectedNode expected found := by
  obtain ⟨root, p, rooted, found⟩ := Tree.exists_root rendered
  have agreed := Tree.run_agrees rooted found steps m symbols
  rw [ended] at agreed
  cases stop with
  | unfinished => exact absurd rfl finished
  | unnamed symbol | dangling id | overwide width => exact agreed.elim
  | fault e =>
    refine ⟨e, rfl, ?_⟩
    rintro fault rfl
    cases fault with
    | unexpectedNode expected found => exact ⟨root, expected, found, rooted, agreed, rfl⟩
    | _ => exact agreed.elim

/-- One variable. -/
def SymbolTable.single (name : String) : SymbolTable :=
  .ofNames [name]

/-- A program made by hand: it declares a variable and has one statement, of the form given,
over a `write` node. Both have the same list of names. -/
def Tree.declareAndWrite (form : StmtForm) : Tree where
  capacity := defaultCapacity
  entries := #[⟨.ident ⟨0⟩, 1⟩, ⟨.idList ⟨0⟩ none, 1⟩, ⟨.decl ⟨1⟩, 1⟩, ⟨.declSeq ⟨2⟩ none, 1⟩,
    ⟨.output ⟨1⟩, 1⟩, ⟨.stmt form ⟨4⟩, 1⟩, ⟨.stmtSeq ⟨5⟩ none, 1⟩, ⟨.program ⟨3⟩ ⟨6⟩, 1⟩]
  root := some ⟨7⟩

/-- It is printed and it is run; what goes wrong is the program's own fault. -/
theorem run_error_of_render_unset :
    ∃ (text : String) (m' : Machine) (e : RuntimeError),
      (Tree.declareAndWrite .output).render (.single "X") = .ok text ∧
      (Tree.declareAndWrite .output).run 4 (.start (.single "X") (.ofBytes [] none) {}) =
        .error (.fault e) m' ∧
      ∀ fault, e = .tree fault → ∃ root expected found,
        (Tree.declareAndWrite .output).root = some root ∧
        (Tree.declareAndWrite .output).Crossed root expected found ∧
        fault = .unexpectedNode expected found := by
  have rendered : (Tree.declareAndWrite .output).render (.single "X") =
      .ok "program\n    int X;\nbegin\n    write X;\nend\n" := by decide +kernel
  have ended : ∃ m', (Tree.declareAndWrite .output).run 4
      (.start (.single "X") (.ofBytes [] none) {}) =
        .error (.fault (.uninitializedVariable "X" 1)) m' := ⟨_, rfl⟩
  obtain ⟨m', ended⟩ := ended
  obtain ⟨e, same, blamed⟩ := run_error_of_render rendered rfl ended nofun
  exact ⟨_, m', e, rendered, same ▸ ended, blamed⟩

/-- A statement that says `read` over a `write` node is printed, and it cannot be run, though
every part has a smaller number than what it is a part of. -/
theorem crossed_printed_not_run :
    ∃ m', (∀ parent slot child, (Tree.declareAndWrite .input).Keeps parent slot child →
        child.index < parent.index) ∧
      (Tree.declareAndWrite .input).render (.single "X") =
        .ok "program\n    int X;\nbegin\n    write X;\nend\n" ∧
      (Tree.declareAndWrite .input).run 4 (.start (.single "X") (.ofBytes [] none) {}) =
        .error (.fault (.tree (.unexpectedNode .input .output))) m' := by
  refine ⟨_, ?_, by decide +kernel, rfl⟩
  have checked : ∀ i < 8, ∀ slot ∈ Slot.all, ∀ child ∈
      ((Tree.declareAndWrite .input).node? ⟨i⟩).bind (·.child? slot), child.index < i := by decide
  rintro parent slot child ⟨node, here, kept⟩
  obtain ⟨entry, found, -⟩ := Option.map_eq_some_iff.1 here
  obtain ⟨within, -⟩ := Array.getElem?_eq_some_iff.1 found
  refine checked parent.index within slot ?_ child ?_
  · cases slot <;> decide
  · simp [here, kept]

end CoreLang
