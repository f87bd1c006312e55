import Mathlib.Algebra.Ring.Int.Defs
import CoreLang.Proofs.Occurrences
import CoreLang.Proofs.Simulation

/-!
# Expressions have their exact values

Over the integers every expression has a value once its variables have values
(`Expr.exact`). A run works with 64 bits, and what can go wrong on the way is a list of
steps (`Expr.evalSteps`): a variable is looked up, an operator gives a result. The steps
stand in the order of plain recursion, left part, right part, operator. If none of them
fails the exact value is found; otherwise the first one that fails tells the fault
(`Expr.value_told`).

A result is looked at only if no step before it failed, so it is the exact one, and it does
not matter that a variable without a value counts as zero in the results behind it.
-/

namespace CoreLang

/-! ### Values over the integers -/

/-- The values of variables as integers; zero for a variable without a value. -/
def exactValues (vars : String → Option Int64) (name : String) : Int :=
  ((vars name).map Int64.toInt).getD 0

/-- What can go wrong when an expression is evaluated. -/
inductive EvalStep where
  /-- The variable of a leaf is looked up. -/
  | lookup (id : Ident String)
  /-- An operator gives a result; `line` is the line of the node of the operator. -/
  | apply (result : Int) (line : Nat)
deriving Repr, DecidableEq

/-- The fault of a step, if it fails. -/
def EvalStep.fault? (vars : String → Option Int64) : EvalStep → Option RuntimeError
  | .lookup id =>
    if (vars id.var).isSome then none else some (.uninitializedVariable id.var id.line)
  | .apply result line =>
    if -2 ^ 63 ≤ result ∧ result ≤ 2 ^ 63 - 1 then none else some (.overflow line)

/-- The variable that a step looks up. -/
def EvalStep.name? : EvalStep → Option String
  | .lookup id => some id.var
  | .apply .. => none

section Exact

variable (vals : String → Int)

mutual

/-- The value over the integers, where nothing overflows. -/
def Expr.exact : Expr String → Int
  | .term t => t.exact
  | .add t rest => t.exact + rest.exact
  | .sub t rest => t.exact - rest.exact

def Term.exact : Term String → Int
  | .operand o => o.exact
  | .mul o rest => o.exact * rest.exact

def Operand.exact : Operand String → Int
  | .int _ value => value.toInt
  | .ident id => vals id.var
  | .paren _ e => e.exact

end

mutual

/-- The steps of an evaluation in order. The node of a sum or a product is on the line where
the whole of it begins. -/
def Expr.evalSteps : Expr String → List EvalStep
  | .term t => t.evalSteps
  | .add t rest =>
    t.evalSteps ++ rest.evalSteps ++ [.apply (t.exact vals + rest.exact vals) t.line]
  | .sub t rest =>
    t.evalSteps ++ rest.evalSteps ++ [.apply (t.exact vals - rest.exact vals) t.line]

def Term.evalSteps : Term String → List EvalStep
  | .operand o => o.evalSteps
  | .mul o rest =>
    o.evalSteps ++ rest.evalSteps ++ [.apply (o.exact vals * rest.exact vals) o.line]

def Operand.evalSteps : Operand String → List EvalStep
  | .int _ _ => []
  | .ident id => [.lookup id]
  | .paren _ e => e.evalSteps

end

mutual

/-- Every variable that occurs is looked up, and no other. -/
theorem Expr.filterMap_name?_evalSteps : (e : Expr String) →
    (e.evalSteps vals).filterMap EvalStep.name? = e.derivation.vars
  | .term t => Term.filterMap_name?_evalSteps t
  | .add t rest | .sub t rest => by
    simp [Expr.evalSteps, Expr.derivation, EvalStep.name?, Term.filterMap_name?_evalSteps t,
      Expr.filterMap_name?_evalSteps rest]

theorem Term.filterMap_name?_evalSteps : (t : Term String) →
    (t.evalSteps vals).filterMap EvalStep.name? = t.derivation.vars
  | .operand o => Operand.filterMap_name?_evalSteps o
  | .mul o rest => by
    simp [Term.evalSteps, Term.derivation, EvalStep.name?, Operand.filterMap_name?_evalSteps o,
      Term.filterMap_name?_evalSteps rest]

theorem Operand.filterMap_name?_evalSteps : (o : Operand String) →
    (o.evalSteps vals).filterMap EvalStep.name? = o.derivation.vars
  | .int _ _ => rfl
  | .ident _ => rfl
  | .paren _ e => Expr.filterMap_name?_evalSteps e

end

end Exact

/-! ### Steps tell the value -/

/-- How an evaluation ends is told by its steps: with the exact value if they all go well,
and otherwise with the fault of the first that does not. -/
inductive Told (vars : String → Option Int64) (steps : List EvalStep) (exact : Int) :
    Except RuntimeError Int64 → Prop where
  | ok {v : Int64} (well : ∀ s ∈ steps, s.fault? vars = none) (same : v.toInt = exact) :
    Told vars steps exact (.ok v)
  | error {e : RuntimeError} (first : steps.findSome? (·.fault? vars) = some e) :
    Told vars steps exact (.error e)

namespace Told

variable {vars : String → Option Int64} {steps steps' : List EvalStep} {a b exact : Int}
  {r r' : Except RuntimeError Int64}

theorem eq_ok_iff (h : Told vars steps exact r) {v : Int64} :
    r = .ok v ↔ (∀ s ∈ steps, s.fault? vars = none) ∧ v.toInt = exact := by
  cases h with
  | ok well same =>
    rw [Except.ok.injEq, ← Int64.toInt_inj, same]
    exact ⟨fun h => ⟨well, h.symm⟩, fun h => h.2.symm⟩
  | error first =>
    obtain ⟨s, among, fails⟩ := List.exists_of_findSome?_eq_some first
    refine ⟨nofun, fun h => ?_⟩
    rw [h.1 s among] at fails
    cases fails

theorem eq_error_iff (h : Told vars steps exact r) {e : RuntimeError} :
    r = .error e ↔ steps.findSome? (·.fault? vars) = some e := by
  cases h with
  | ok well _ =>
    rw [List.findSome?_eq_none_iff.2 well]
    simp
  | error first => simp [first]

/-- The operator comes after both of its parts. -/
theorem apply (op : Operator) (line : Nat) (left : Told vars steps a r)
    (right : Told vars steps' b r') :
    Told vars (steps ++ steps' ++ [.apply (op.ofInts a b) line]) (op.ofInts a b)
      (do
        let x ← r
        let y ← r'
        op.apply x y line) := by
  cases left with
  | error first =>
    exact .error (by simp [List.findSome?_append, first])
  | @ok x well same =>
    have passed := List.findSome?_eq_none_iff.2 well
    cases right with
    | error first =>
      exact .error (by simp [List.findSome?_append, passed, first])
    | @ok y well' same' =>
      have passed' := List.findSome?_eq_none_iff.2 well'
      subst same same'
      change Told _ _ _ (op.apply x y line)
      unfold Operator.apply Operator.checked?
      cases fits : Number.ofInt? (op.ofInts x.toInt y.toInt) with
      | some v =>
        have value := Number.ofInt?_eq_some_iff.1 fits
        have least := v.le_toInt
        have most := v.toInt_lt
        refine .ok (fun s among => ?_) value
        rcases List.mem_append.1 among with among | among
        · exact (List.mem_append.1 among).elim (well s) (well' s)
        · obtain rfl := List.mem_singleton.1 among
          rw [EvalStep.fault?, if_pos (by omega)]
      | none =>
        have out := Number.ofInt?_eq_none_iff.1 fits
        rw [Int64.toInt_minValue, Int64.toInt_maxValue] at out
        have fails : (EvalStep.apply (op.ofInts x.toInt y.toInt) line).fault? vars =
            some (.overflow line) := if_neg out
        exact .error (by simp [List.findSome?_append, passed, passed', fails])

end Told

section Values

variable (vars : String → Option Int64)

mutual

theorem Expr.value_told : (e : Expr String) →
    Told vars (e.evalSteps (exactValues vars)) (e.exact (exactValues vars)) (e.value vars)
  | .term t => Term.value_told t
  | .add t rest => (Term.value_told t).apply .add t.line (Expr.value_told rest)
  | .sub t rest => (Term.value_told t).apply .sub t.line (Expr.value_told rest)

theorem Term.value_told : (t : Term String) →
    Told vars (t.evalSteps (exactValues vars)) (t.exact (exactValues vars)) (t.value vars)
  | .operand o => Operand.value_told o
  | .mul o rest => (Operand.value_told o).apply .mul o.line (Term.value_told rest)

theorem Operand.value_told : (o : Operand String) →
    Told vars (o.evalSteps (exactValues vars)) (o.exact (exactValues vars)) (o.value vars)
  | .int _ value => .ok nofun rfl
  | .ident id => by
    simp only [Operand.value, Operand.evalSteps, Operand.exact, exactValues]
    cases found : vars id.var with
    | some v => exact .ok (by simp [EvalStep.fault?, found]) rfl
    | none => exact .error (by simp [EvalStep.fault?, found])
  | .paren _ e => Expr.value_told e

end

end Values

/-! ### Expressions of a parsed program -/

theorem EvalStep.fault?_lookup_eq_none_iff {vars : String → Option Int64} {id : Ident String} :
    (EvalStep.lookup id).fault? vars = none ↔ (vars id.var).isSome := by
  simp [fault?, Option.isSome_iff_ne_none]

theorem EvalStep.fault?_apply_eq_none_iff {vars : String → Option Int64} {r : Int} {line : Nat} :
    (EvalStep.apply r line).fault? vars = none ↔ -2 ^ 63 ≤ r ∧ r ≤ 2 ^ 63 - 1 := by
  simp [fault?]

/-- All steps go well exactly if every variable has a value and every result fits. -/
theorem Expr.forall_evalSteps_iff (vars : String → Option Int64) (vals : String → Int)
    (e : Expr String) : (∀ s ∈ e.evalSteps vals, s.fault? vars = none) ↔
      (∀ x ∈ e.derivation.vars, (vars x).isSome) ∧
        ∀ r line, .apply r line ∈ e.evalSteps vals → -2 ^ 63 ≤ r ∧ r ≤ 2 ^ 63 - 1 := by
  rw [← e.filterMap_name?_evalSteps vals]
  constructor
  · intro well
    refine ⟨fun x among => ?_, fun r line among => ?_⟩
    · obtain ⟨s, listed, same⟩ := List.mem_filterMap.1 among
      cases s with
      | lookup id =>
        obtain rfl := Option.some.inj same
        exact EvalStep.fault?_lookup_eq_none_iff.1 (well _ listed)
      | apply r line => cases same
    · exact EvalStep.fault?_apply_eq_none_iff.1 (well _ among)
  · rintro ⟨known, fits⟩ s among
    cases s with
    | lookup id =>
      exact EvalStep.fault?_lookup_eq_none_iff.2
        (known _ (List.mem_filterMap.2 ⟨_, among, rfl⟩))
    | apply r line => exact EvalStep.fault?_apply_eq_none_iff.2 (fits r line among)

/-- Every expression of a parsed program has its exact value. Its evaluation succeeds exactly
if all variables that occur in it have values and the result of every operator, taken over
the integers, fits 64 bits; the value then is the one over the integers. Otherwise it fails
as the first step does that fails. Nothing changes either way. -/
theorem evalExpr_exact {source : String} {capacity : Nat} {parsed : Parsed} {id : NodeId}
    {node : Node} (accepted : parse source capacity = .ok parsed)
    (here : parsed.tree.node? id = some node) (expression : node.tag = .expr) :
    ∃ e : Expr String, parsed.tree.Holds parsed.symbols.name? e.derivation id ∧
      ∀ (m : Machine) (steps : Nat), m.env.symbols = parsed.symbols →
        parsed.tree.size ≤ steps ∨ parsed.tree.evalExpr m.env steps id ≠ .error .unfinished →
        let vars := m.env.getByName?
        let evalSteps := e.evalSteps (exactValues vars)
        let run := (RunM.look fun env => parsed.tree.evalExpr env steps id) m
        (∀ v m', run = .ok v m' ↔ m' = m ∧
          (∀ x ∈ e.derivation.vars, (vars x).isSome) ∧
          (∀ r line, .apply r line ∈ evalSteps → -2 ^ 63 ≤ r ∧ r ≤ 2 ^ 63 - 1) ∧
          v.toInt = e.exact (exactValues vars)) ∧
        ∀ stop m', run = .error stop m' ↔ m' = m ∧
          ∃ error, evalSteps.findSome? (·.fault? vars) = some error ∧ stop = .fault error := by
  obtain ⟨d, p, derives, fitting, shows⟩ := parse_sound accepted
  obtain ⟨e, held, small⟩ := shows.exists_expr fitting.named here expression
  refine ⟨e, held, fun m steps symbols ends => ?_⟩
  rw [← symbols] at held
  have found := Tree.evalExpr_evaluates e held
    (ends.imp_left fun enough => Nat.le_trans small enough)
  have told := e.value_told m.env.getByName?
  have ran : (RunM.look fun env => parsed.tree.evalExpr env steps id) m =
      RunM.ofExcept ((e.value m.env.getByName?).mapError .fault) m := by
    rw [← found]
    rfl
  dsimp only
  rw [ran]
  constructor
  · intro v m'
    rw [← and_assoc (a := ∀ x ∈ _, _), ← e.forall_evalSteps_iff, ← told.eq_ok_iff]
    cases e.value m.env.getByName? with
    | ok w => simp [RunM.ofExcept, Except.mapError, and_comm, eq_comm]
    | error error => simp [RunM.ofExcept, Except.mapError]
  · intro stop m'
    simp only [← told.eq_error_iff]
    cases e.value m.env.getByName? with
    | ok w => simp [RunM.ofExcept, Except.mapError]
    | error error => simp [RunM.ofExcept, Except.mapError, and_comm, eq_comm]

/-- The sum overflows on its own line before the variable behind it is looked up. -/
theorem evalExpr_exact_overflow :
    ∃ (parsed : Parsed) (e : Expr String),
      parse "program int A; begin\nA = 2 -\n(9223372036854775807 + 1) * A; end" 100 = .ok parsed ∧
      parsed.tree.node? ⟨22⟩ = some (.exprSub ⟨7⟩ ⟨21⟩) ∧
      parsed.tree.Holds parsed.symbols.name? e.derivation ⟨22⟩ ∧
      ∀ vars, vars = (Machine.start parsed.symbols (.ofBytes [] none) {}).env.getByName? →
        (e.evalSteps (exactValues vars)).findSome? (·.fault? vars) = some (.overflow 3) := by
  obtain ⟨parsed, accepted, ran⟩ := exists_parsed_such
    "program int A; begin\nA = 2 -\n(9223372036854775807 + 1) * A; end" 100
    (fun parsed => parsed.tree.node? ⟨22⟩ = some (.exprSub ⟨7⟩ ⟨21⟩) ∧ parsed.tree.size ≤ 40 ∧
      parsed.tree.evalExpr (.ofSymbols parsed.symbols) 40 ⟨22⟩ = .error (.fault (.overflow 3)))
    (by decide +kernel)
  obtain ⟨here, enough, failed⟩ := of_decide_eq_true ran
  obtain ⟨e, held, meaning⟩ := evalExpr_exact accepted here rfl
  refine ⟨parsed, e, accepted, here, held, ?_⟩
  rintro _ rfl
  obtain ⟨-, error, first, same⟩ :=
    ((meaning (.start parsed.symbols (.ofBytes [] none) {}) 40 rfl (.inl enough)).2 _ _).1
      (congrArg (RunM.ofExcept · _) failed)
  cases same
  exact first

end CoreLang
