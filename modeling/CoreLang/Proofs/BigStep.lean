import CoreLang.Program
import CoreLang.Run

/-!
# The meaning of a program

A big-step semantics on the abstract form of a program. Expressions and conditions
have a value by recursion on their form; statements need not come to an end, so what
they do is a relation, `Exec`, with one rule for every way a construct can go. There is
no rule for a statement that goes on for ever.

Variables are known by their names. A fault is an ordinary outcome: it keeps the state
in which it was met, and no rule goes on behind it.
-/

namespace CoreLang

/-- What a program can see and change. -/
structure State where
  vars : String → Option Int64
  input : DataStream
  sink : Sink
  counters : Counters

/-- How something ends: with a result or with a fault, and in which state. -/
abbrev Outcome (α : Type) := EStateM.Result RuntimeError State α

/-- What something does, where it is certain to end. -/
abbrev Effect := EStateM RuntimeError State

namespace State

/-- The state with a value in a variable. -/
def store (s : State) (name : String) (value : Int64) : State :=
  { s with vars := fun x => if x = name then some value else s.vars x }

/-- The state with other counters. -/
def count (s : State) (f : Counters → Counters) : State :=
  { s with counters := f s.counters }

end State

/-- What is found from the variables alone; the state stays as it is. -/
def look {α : Type} (value : (String → Option Int64) → Except RuntimeError α) : Effect α := fun s =>
  match value s.vars with
  | .ok a => .ok a s
  | .error e => .error e s

namespace Counters

def statement (c : Counters) : Counters := { c with statements := c.statements + 1 }

def condition (c : Counters) : Counters := { c with conditions := c.conditions + 1 }

def comparison (c : Counters) : Counters := { c with comparisons := c.comparisons + 1 }

def iteration (c : Counters) : Counters := { c with iterations := c.iterations + 1 }

end Counters

/-! ### Expressions

An operator is applied after both of its parts, and reports an overflow on the line
where the whole sum or product begins. -/

section Values

variable (vars : String → Option Int64)

mutual

def Expr.value : Expr String → Except RuntimeError Int64
  | .term t => t.value
  | .add t rest => do
    let a ← t.value
    let b ← rest.value
    Operator.add.apply a b t.line
  | .sub t rest => do
    let a ← t.value
    let b ← rest.value
    Operator.sub.apply a b t.line

def Term.value : Term String → Except RuntimeError Int64
  | .operand o => o.value
  | .mul o rest => do
    let a ← o.value
    let b ← rest.value
    Operator.mul.apply a b o.line

def Operand.value : Operand String → Except RuntimeError Int64
  | .int _ value => .ok value
  | .ident id =>
    match vars id.var with
    | some value => .ok value
    | none => .error (.uninitializedVariable id.var id.line)
  | .paren _ e => e.value

end

end Values

/-! ### Conditions

A condition changes the counters and nothing else. -/

/-- A comparison is counted before its sides are evaluated, the left one first. -/
def Comparison.truth (c : Comparison String) : Effect Bool := do
  modify (·.count .comparison)
  look fun vars => do
    let a ← c.left.value vars
    let b ← c.right.value vars
    return c.op.holds a b

/-- Every condition is counted before its parts are; both sides of a compound one are
evaluated, whatever the left one comes to. -/
def Cond.truth : Cond String → Effect Bool
  | .compare c => do
    modify (·.count .condition)
    c.truth
  | .not _ c => do
    modify (·.count .condition)
    let a ← c.truth
    return !a
  | .and _ left right => do
    modify (·.count .condition)
    let a ← left.truth
    let b ← right.truth
    return a && b
  | .or _ left right => do
    modify (·.count .condition)
    let a ← left.truth
    let b ← right.truth
    return a || b

/-! ### Simple statements -/

/-- The names of a list, from left to right. -/
def IdList.names : IdList String → List String
  | .last id => [id.var]
  | .cons id rest => id.var :: rest.names

/-- The value comes first; a fault in it leaves the variable as it was. -/
def assignValue (name : String) (value : Expr String) : Effect Unit := do
  let v ← look fun vars => value.value vars
  modify (·.store name v)

/-- The next value of the data goes into the variable. -/
def readName (line : Nat) (name : String) : Effect Unit := fun s =>
  match s.input.next line with
  | (.ok v, input) => .ok () ({ s with input := input }.store name v)
  | (.error e, input) => .error e { s with input := input }

/-- The variable is shown on a line of its own; a sink that fails keeps what it took. -/
def writeName (line : Nat) (name : String) : Effect Unit := fun s =>
  match s.vars name with
  | none => .error (.uninitializedVariable name line) s
  | some v =>
    match s.sink.writeText (name ++ " = " ++ Number.text v ++ "\n") with
    | (.ok (), sink) => .ok () { s with sink := sink }
    | (.error reason, sink) => .error (.io reason line) { s with sink := sink }

/-- Does something for each name in turn, up to the first fault. -/
def forNames (act : String → Effect Unit) : List String → Effect Unit
  | [] => pure ()
  | name :: others => do
    act name
    forNames act others

/-! ### Statements -/

/-- What can be carried out: a statement, a sequence, or a loop that was begun before. -/
inductive Code where
  | stmt (s : Stmt String)
  | seq (ss : StmtSeq String)
  | loop (cond : Cond String) (body : StmtSeq String)

/-- `Exec code s out`: carried out in the state `s`, the code ends with `out`. -/
inductive Exec : Code → State → Outcome Unit → Prop where
  | assign {s target value} :
    Exec (.stmt (.assign target value)) s
      (assignValue target.var value (s.count .statement))
  | read {s line ids} :
    Exec (.stmt (.read line ids)) s (forNames (readName line) ids.names (s.count .statement))
  | write {s line ids} :
    Exec (.stmt (.write line ids)) s (forNames (writeName line) ids.names (s.count .statement))
  | thenBranch {s s₁ line cond body out} :
    cond.truth (s.count .statement) = .ok true s₁ → Exec (.seq body) s₁ out →
    Exec (.stmt (.ifThen line cond body)) s out
  | thenSkipped {s s₁ line cond body} :
    cond.truth (s.count .statement) = .ok false s₁ →
    Exec (.stmt (.ifThen line cond body)) s (.ok () s₁)
  | thenFault {s s₁ line cond body e} :
    cond.truth (s.count .statement) = .error e s₁ →
    Exec (.stmt (.ifThen line cond body)) s (.error e s₁)
  | elseFirst {s s₁ line cond body other out} :
    cond.truth (s.count .statement) = .ok true s₁ → Exec (.seq body) s₁ out →
    Exec (.stmt (.ifElse line cond body other)) s out
  | elseSecond {s s₁ line cond body other out} :
    cond.truth (s.count .statement) = .ok false s₁ → Exec (.seq other) s₁ out →
    Exec (.stmt (.ifElse line cond body other)) s out
  | elseFault {s s₁ line cond body other e} :
    cond.truth (s.count .statement) = .error e s₁ →
    Exec (.stmt (.ifElse line cond body other)) s (.error e s₁)
  | whileLoop {s line cond body out} :
    Exec (.loop cond body) (s.count .statement) out →
    Exec (.stmt (.whileLoop line cond body)) s out
  | loopDone {s s₁ cond body} :
    cond.truth s = .ok false s₁ → Exec (.loop cond body) s (.ok () s₁)
  | loopFault {s s₁ cond body e} :
    cond.truth s = .error e s₁ → Exec (.loop cond body) s (.error e s₁)
  | loopRound {s s₁ s₂ cond body out} :
    cond.truth s = .ok true s₁ → Exec (.seq body) (s₁.count .iteration) (.ok () s₂) →
    Exec (.loop cond body) s₂ out → Exec (.loop cond body) s out
  | loopBroken {s s₁ s₂ cond body e} :
    cond.truth s = .ok true s₁ → Exec (.seq body) (s₁.count .iteration) (.error e s₂) →
    Exec (.loop cond body) s (.error e s₂)
  | last {s st out} : Exec (.stmt st) s out → Exec (.seq (.last st)) s out
  | cons {s s₁ st rest out} :
    Exec (.stmt st) s (.ok () s₁) → Exec (.seq rest) s₁ out → Exec (.seq (.cons st rest)) s out
  | consFault {s s₁ st rest e} :
    Exec (.stmt st) s (.error e s₁) → Exec (.seq (.cons st rest)) s (.error e s₁)

/-- Flushes the output. -/
def flushOutput (line : Nat) : Effect Unit := fun s =>
  match s.sink.flush with
  | .ok () => .ok () s
  | .error reason => .error (.io reason line) s

/-- A program carries out its statements and flushes the output if all went well. -/
inductive Program.Runs (p : Program String) : State → Outcome Unit → Prop where
  | ended {s s₁} : Exec (.seq p.stmts) s (.ok () s₁) → p.Runs s (flushOutput p.line s₁)
  | stopped {s s₁ e} : Exec (.seq p.stmts) s (.error e s₁) → p.Runs s (.error e s₁)

end CoreLang
