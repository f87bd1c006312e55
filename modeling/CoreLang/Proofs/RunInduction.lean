import CoreLang.Run

/-!
# Induction over runs

A run of a tree is put together from a few simple computations. A property of
computations that these have and that is kept when one follows another therefore holds of
every run of the tree (`Compositional.run`).

There are two lists of simple computations. The one of `Compositional` takes the reading
and writing of whole lists of variables as simple, so that a property may compare machines
that know their variables by other names. The one of `Stepwise` goes down to single steps
of the machine, and gives the other.
-/

namespace CoreLang

variable {α β : Type}

/-- The tree or the bound on steps is at fault. -/
def Stop.Structural : Stop RuntimeError → Prop
  | .unfinished | .fault (.tree _) => True
  | _ => False

/-- Neither the data nor the output is at fault. -/
def Stop.Inward : Stop RuntimeError → Prop
  | .fault (.inputExhausted _) | .fault (.inputNotInteger _ _) | .fault (.io _ _) => False
  | _ => True

theorem Stop.Structural.inward {stop : Stop RuntimeError} (h : stop.Structural) : stop.Inward := by
  unfold Structural at h
  split at h <;> trivial

/-- A failure, if there is one, is of a certain kind. -/
def FailsOnly (Q : Stop RuntimeError → Prop) (r : Except (Stop RuntimeError) α) : Prop :=
  ∀ stop, r = .error stop → Q stop

namespace FailsOnly

variable {Q R : Stop RuntimeError → Prop}

theorem ok (a : α) : FailsOnly Q (.ok a) :=
  nofun

theorem error {stop : Stop RuntimeError} (h : Q stop) :
    FailsOnly Q (.error stop : Except (Stop RuntimeError) α) := by
  rintro _ ⟨⟩
  exact h

theorem bind {r : Except (Stop RuntimeError) α} {f : α → Except (Stop RuntimeError) β}
    (first : FailsOnly Q r) (next : ∀ a, FailsOnly Q (f a)) : FailsOnly Q (r >>= f) := by
  cases r with
  | ok a => exact next a
  | error stop => exact .error (first stop rfl)

theorem mono {r : Except (Stop RuntimeError) α} (h : FailsOnly Q r)
    (weaker : ∀ {stop}, Q stop → R stop) : FailsOnly R r :=
  fun stop ends => weaker (h stop ends)

end FailsOnly

namespace Tree

variable (t : Tree) (id : NodeId)

theorem load_structural : FailsOnly Stop.Structural (t.load id) := by
  unfold load get
  cases t.node? id with
  | some node => exact .ok node
  | none => exact .error trivial

theorem load_eq_ok_iff {t : Tree} {id : NodeId} {node : Node} :
    t.load id = .ok node ↔ t.node? id = some node := by
  unfold load get
  cases t.node? id with
  | none => constructor <;> intro found <;> cases found
  | some other => constructor <;> intro found <;> cases found <;> rfl

theorem unfit_structural (expected : Tag) (found : Node) :
    FailsOnly Stop.Structural (unfit expected found : Except (Stop RuntimeError) α) :=
  .error trivial

theorem symbolAt_structural : FailsOnly Stop.Structural (t.symbolAt id) := by
  refine (t.load_structural id).bind fun node => ?_
  split
  · exact .ok _
  · exact unfit_structural _ _

theorem literalAt_structural : FailsOnly Stop.Structural (t.literalAt id) := by
  refine (t.load_structural id).bind fun node => ?_
  split
  · exact .ok _
  · exact unfit_structural _ _

theorem comparatorAt_structural : FailsOnly Stop.Structural (t.comparatorAt id) := by
  refine (t.load_structural id).bind fun node => ?_
  split
  · exact .ok _
  · exact unfit_structural _ _

theorem nameOf_inward (symbols : SymbolTable) (symbol : Symbol) :
    FailsOnly Stop.Inward (nameOf symbols symbol) := by
  unfold nameOf
  split
  · exact .ok _
  · exact .error trivial

theorem variableAt_inward (env : Environment) : FailsOnly Stop.Inward (t.variableAt env id) := by
  refine ((t.symbolAt_structural id).mono Stop.Structural.inward).bind fun symbol => ?_
  split
  · exact .ok _
  · exact (nameOf_inward _ _).bind fun _ => .error trivial

theorem combine_inward (op : Operator) (a b : Int64) :
    FailsOnly Stop.Inward (t.combine op a b id) := by
  unfold combine Operator.apply
  split
  · exact .ok _
  · exact .error trivial

theorem namesAt_inward (symbols : SymbolTable) (steps : Nat) :
    FailsOnly Stop.Inward (t.namesAt symbols steps id) := by
  induction steps generalizing id with
  | zero => exact .error trivial
  | succ steps ih =>
    refine ((t.load_structural id).mono Stop.Structural.inward).bind fun node => ?_
    split
    · refine ((t.symbolAt_structural _).mono Stop.Structural.inward).bind fun symbol => ?_
      refine (nameOf_inward _ _).bind fun name => ?_
      split
      · exact .ok _
      · exact (ih _).bind fun _ => .ok _
    · exact (unfit_structural _ _).mono Stop.Structural.inward

end Tree

namespace RunM

/-- What is found from the variables alone. -/
def look (find : Environment → Except (Stop RuntimeError) α) : RunM α := do
  let env ← environment
  ofExcept (find env)

theorem ofExcept_bind (r : Except (Stop RuntimeError) α)
    (f : α → Except (Stop RuntimeError) β) :
    (ofExcept r >>= fun a => ofExcept (f a)) = ofExcept (r >>= f) := by
  cases r <;> rfl

theorem look_bind (x : Environment → Except (Stop RuntimeError) α)
    (f : α → Environment → Except (Stop RuntimeError) β) :
    (look fun env => x env >>= fun a => f a env) = look x >>= fun a => look (f a) := by
  funext m
  simp only [look, Bind.bind, EStateM.bind, environment, ofExcept]
  cases x m.env <;> rfl

theorem bind_of_ok {x : RunM α} {m m' : Machine} {a : α} (f : α → RunM β)
    (ends : x m = .ok a m') : (x >>= f) m = f a m' := by
  simp only [Bind.bind, EStateM.bind, ends]

theorem bind_of_error {x : RunM α} {m m' : Machine} {stop : Stop RuntimeError} (f : α → RunM β)
    (ends : x m = .error stop m') : (x >>= f) m = .error stop m' := by
  simp only [Bind.bind, EStateM.bind, ends]

/-- A property of computations that the simple ones have and that is kept when one follows
another. -/
structure Compositional (t : Tree) (P : {α : Type} → RunM α → Prop) : Prop where
  pure {α : Type} (a : α) : P (Pure.pure a : RunM α)
  bind {α β : Type} {x : RunM α} {f : α → RunM β} (first : P x) (next : ∀ a, P (f a)) :
    P (x >>= f)
  known {α : Type} {r : Except (Stop RuntimeError) α} (structural : FailsOnly Stop.Structural r) :
    P (ofExcept r)
  count (f : Counters → Counters) : P (count f)
  variableAt (id : NodeId) : P (look fun env => t.variableAt env id)
  combine (op : Operator) (a b : Int64) (id : NodeId) : P (ofExcept (t.combine op a b id))
  store (symbol : Symbol) (v : Int64) (line : Nat) :
    P (store symbol v ("#" ++ Text.Decimal.ofNat symbol.index) line)
  readAll (steps : Nat) (ids : NodeId) (line : Nat) :
    P (RunM.environment >>= fun env =>
      ofExcept (t.namesAt env.symbols steps ids) >>= Tree.readValues line)
  writeAll {id ids : NodeId} (here : t.node? id = some (.output ids)) (steps : Nat) :
    P (RunM.environment >>= fun env =>
      ofExcept (t.namesAt env.symbols steps ids) >>= Tree.writeValues (t.line id))
  flush (line : Nat) : P (flush line)

namespace Compositional

variable {t : Tree} {P : {α : Type} → RunM α → Prop} (h : Compositional t P)

include h

theorem load (id : NodeId) : P (ofExcept (t.load id)) :=
  h.known (t.load_structural id)

/-- What is done with a node that was loaded may rely on its being there. -/
theorem loaded {id : NodeId} {f : Node → RunM α}
    (next : ∀ node, t.node? id = some node → P (f node)) : P (ofExcept (t.load id) >>= f) := by
  cases found : t.load id with
  | ok node => exact next node (Tree.load_eq_ok_iff.1 found)
  | error stop => exact h.known (.error (t.load_structural id stop found))

theorem unfit (expected : Tag) (found : Node) :
    P (ofExcept (Tree.unfit expected found : Except _ α)) :=
  h.known (Tree.unfit_structural expected found)

theorem unfinished : P (ofExcept (.error .unfinished : Except (Stop RuntimeError) α)) :=
  h.known (.error trivial)

theorem look_bind {x : Environment → Except (Stop RuntimeError) α}
    {f : α → Environment → Except (Stop RuntimeError) β} (first : P (look x))
    (next : ∀ a, P (look (f a))) : P (look fun env => x env >>= fun a => f a env) := by
  rw [RunM.look_bind]
  exact h.bind first next

/-! ### Expressions and conditions -/

omit h in
/-- The property holds of expressions, terms and operands. -/
structure Values (t : Tree) (P : {α : Type} → RunM α → Prop) (steps : Nat) : Prop where
  expr (id : NodeId) : P (look fun env => t.evalExpr env steps id)
  term (id : NodeId) : P (look fun env => t.evalTerm env steps id)
  operand (id : NodeId) : P (look fun env => t.evalOperand env steps id)

theorem values (steps : Nat) : Values t P steps := by
  induction steps with
  | zero => exact ⟨fun _ => h.unfinished, fun _ => h.unfinished,
      fun _ => h.unfinished⟩
  | succ steps ih =>
    constructor
    · intro id
      simp only [Tree.evalExpr_succ]
      refine h.look_bind (h.load id) fun node => ?_
      cases node with
      | exprTerm a => exact ih.term a
      | exprAdd a b | exprSub a b =>
        exact h.look_bind (ih.term a) fun _ => h.look_bind (ih.expr b) fun _ => h.combine _ _ _ id
      | _ => exact h.unfit _ _
    · intro id
      simp only [Tree.evalTerm_succ]
      refine h.look_bind (h.load id) fun node => ?_
      cases node with
      | termOperand a => exact ih.operand a
      | termMul a b =>
        exact h.look_bind (ih.operand a) fun _ => h.look_bind (ih.term b) fun _ =>
          h.combine _ _ _ id
      | _ => exact h.unfit _ _
    · intro id
      simp only [Tree.evalOperand_succ]
      refine h.look_bind (h.load id) fun node => ?_
      cases node with
      | operandInt leaf => exact h.known (t.literalAt_structural leaf)
      | operandIdent leaf => exact h.variableAt leaf
      | operandParen a => exact ih.expr a
      | _ => exact h.unfit _ _

theorem evalComparison (steps : Nat) (id : NodeId) : P (t.evalComparison steps id) := by
  refine h.bind (h.load id) fun node => ?_
  cases node with
  | comparison left op right =>
    have operand := (h.values steps).operand
    have sides : P (look fun env => t.evalOperand env steps left >>= fun a =>
        t.comparatorAt op >>= fun op => t.evalOperand env steps right >>= fun b =>
          (.ok (op.holds a b) : Except (Stop RuntimeError) Bool)) :=
      h.look_bind (operand left) fun a =>
        h.look_bind (h.known (t.comparatorAt_structural op)) fun op =>
          h.look_bind (operand right) fun b => h.known (.ok _)
    refine h.bind (h.count _) fun _ => ?_
    simp only [look, ← ofExcept_bind] at sides
    exact sides
  | _ => exact h.unfit _ _

theorem countCondition : P Tree.countCondition :=
  h.count _

theorem evalCond (steps : Nat) (id : NodeId) : P (t.evalCond steps id) := by
  induction steps generalizing id with
  | zero => exact h.unfinished
  | succ steps ih =>
    simp only [Tree.evalCond_succ]
    refine h.bind (h.load id) fun node => ?_
    cases node with
    | condCompare c => exact h.bind h.countCondition fun _ => h.evalComparison steps c
    | condNot c => exact h.bind h.countCondition fun _ => h.bind (ih c) fun _ => h.pure _
    | condAnd a b | condOr a b =>
      exact h.bind h.countCondition fun _ => h.bind (ih a) fun _ => h.bind (ih b) fun _ => h.pure _
    | _ => exact h.unfit _ _

/-! ### Statements -/

theorem runAssign (steps : Nat) (id : NodeId) : P (t.runAssign steps id) := by
  refine h.bind (h.load id) fun node => ?_
  cases node with
  | assign target value =>
    refine h.bind (h.known (t.symbolAt_structural target)) fun symbol => ?_
    have assigned := h.bind ((h.values steps).expr value) fun v => h.store symbol v (t.line target)
    exact assigned
  | _ => exact h.unfit _ _

theorem runInput (steps : Nat) (id : NodeId) : P (t.runInput steps id) := by
  refine h.bind (h.load id) fun node => ?_
  cases node with
  | input ids => exact h.readAll steps ids _
  | _ => exact h.unfit _ _

theorem runOutput (steps : Nat) (id : NodeId) : P (t.runOutput steps id) := by
  refine h.loaded fun node here => ?_
  cases node with
  | output ids => exact h.writeAll here steps
  | _ => exact h.unfit _ _

omit h in
/-- The property holds of what may stand inside one another among statements. -/
structure Blocks (t : Tree) (P : {α : Type} → RunM α → Prop) (steps : Nat) : Prop where
  stmt (id : NodeId) : P (t.runStmt steps id)
  branch (id : NodeId) : P (t.runIf steps id)
  loop (cond body : NodeId) : P (t.runLoop steps cond body)
  seq (id : NodeId) : P (t.runStmtSeq steps id)

theorem blocks (steps : Nat) : Blocks t P steps := by
  induction steps with
  | zero => exact ⟨fun _ => h.unfinished, fun _ => h.unfinished,
      fun _ _ => h.unfinished, fun _ => h.unfinished⟩
  | succ steps ih =>
    constructor
    · intro id
      simp only [Tree.runStmt]
      refine h.bind (h.load id) fun node => ?_
      cases node with
      | stmt form inner =>
        refine h.bind (h.count _) fun _ => ?_
        cases form with
        | assign => exact h.runAssign steps inner
        | ifStmt => exact ih.branch inner
        | whileStmt =>
          refine h.bind (h.load inner) fun node => ?_
          cases node with
          | whileStmt cond body => exact ih.loop cond body
          | _ => exact h.unfit _ _
        | input => exact h.runInput steps inner
        | output => exact h.runOutput steps inner
      | _ => exact h.unfit _ _
    · intro id
      simp only [Tree.runIf]
      refine h.bind (h.load id) fun node => ?_
      cases node with
      | ifStmt cond body other =>
        refine h.bind (h.evalCond steps cond) fun holds => ?_
        split
        · exact ih.seq body
        · cases other with
          | some other => exact ih.seq other
          | none => exact h.pure ()
      | _ => exact h.unfit _ _
    · intro cond body
      simp only [Tree.runLoop]
      refine h.bind (h.evalCond steps cond) fun holds => ?_
      split
      · exact h.bind (h.count _) fun _ => h.bind (ih.seq body) fun _ => ih.loop cond body
      · exact h.pure ()
    · intro id
      simp only [Tree.runStmtSeq]
      refine h.bind (h.load id) fun node => ?_
      cases node with
      | stmtSeq stmt rest =>
        refine h.bind (ih.stmt stmt) fun _ => ?_
        cases rest with
        | some rest => exact ih.seq rest
        | none => exact h.pure ()
      | _ => exact h.unfit _ _

/-- The property holds of every run. -/
theorem run (steps : Nat) : P (t.run steps) := by
  unfold Tree.run
  cases t.root with
  | none => exact h.known (r := .error (.fault (.tree .empty))) (.error trivial)
  | some root =>
    refine h.bind (h.load root) fun node => ?_
    cases node with
    | program decls stmts =>
      exact h.bind ((h.blocks steps).seq stmts) fun _ => h.flush _
    | _ => exact h.unfit _ _

end Compositional

/-- A property of computations that every single step of the machine has and that is kept
when one computation follows another. -/
structure Stepwise (P : {α : Type} → RunM α → Prop) : Prop where
  pure {α : Type} (a : α) : P (Pure.pure a : RunM α)
  bind {α β : Type} {x : RunM α} {f : α → RunM β} (first : P x) (next : ∀ a, P (f a)) :
    P (x >>= f)
  environment : P environment
  value {α : Type} {r : Except (Stop RuntimeError) α} (inward : FailsOnly Stop.Inward r) : P (ofExcept r)
  count (f : Counters → Counters) : P (count f)
  store (symbol : Symbol) (v : Int64) (name : String) (line : Nat) : P (store symbol v name line)
  storeByName (name : String) (v : Int64) (line : Nat) : P (storeByName name v line)
  nextValue (line : Nat) : P (nextValue line)
  emit (text : String) (line : Nat) : P (emit text line)
  flush (line : Nat) : P (flush line)

namespace Stepwise

variable {P : {α : Type} → RunM α → Prop} (h : Stepwise P)

include h

theorem readValues (line : Nat) (names : List String) : P (Tree.readValues line names) := by
  induction names with
  | nil => exact h.pure ()
  | cons name others ih =>
    exact h.bind (h.nextValue line) fun v => h.bind (h.storeByName name v line) fun _ => ih

theorem writeValues (line : Nat) (names : List String) : P (Tree.writeValues line names) := by
  induction names with
  | nil => exact h.pure ()
  | cons name others ih =>
    refine h.bind h.environment fun env => ?_
    split
    · exact h.value (r := .error (.fault (.uninitializedVariable name line))) (.error trivial)
    · exact h.bind (h.emit _ line) fun _ => ih

theorem compositional (t : Tree) : Compositional t P where
  pure := h.pure
  bind := h.bind
  known structural := h.value (structural.mono Stop.Structural.inward)
  count := h.count
  variableAt id := h.bind h.environment fun env => h.value (t.variableAt_inward id env)
  combine op a b id := h.value (t.combine_inward id op a b)
  store symbol v line := h.store symbol v _ line
  readAll steps ids line := h.bind h.environment fun env =>
    h.bind (h.value (t.namesAt_inward ids env.symbols steps)) (h.readValues line)
  writeAll _ steps := h.bind h.environment fun env =>
    h.bind (h.value (t.namesAt_inward _ env.symbols steps)) (h.writeValues _)
  flush := h.flush

/-- The property holds of every run of every tree. -/
theorem run (t : Tree) (steps : Nat) : P (t.run steps) :=
  (h.compositional t).run steps

end Stepwise

end RunM

end CoreLang
