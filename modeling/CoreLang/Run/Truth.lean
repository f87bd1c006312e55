import CoreLang.Run.Value

/-!
# The truth of a condition

Both sides of a compound condition are always evaluated, the left one first. The
counters count every condition and every comparison that was begun. Negations are
gone through in a loop that keeps whether what comes is to be negated; what this gives is
also told by recursion (`evalCond_succ`).
-/

namespace CoreLang.Tree

variable (t : Tree)

def comparatorAt (id : NodeId) : Except (Stop RuntimeError) Comparator := do
  match ← t.load id with
  | .compOp op => return op
  | other => unfit .compOp other

def evalComparison (steps : Nat) (id : NodeId) : RunM Bool := do
  match ← RunM.ofExcept (t.load id) with
  | .comparison left op right =>
    RunM.count fun c => { c with comparisons := c.comparisons + 1 }
    let env ← RunM.environment
    let a ← RunM.ofExcept (t.evalOperand env steps left)
    let op ← RunM.ofExcept (t.comparatorAt op)
    let b ← RunM.ofExcept (t.evalOperand env steps right)
    return op.holds a b
  | other => RunM.ofExcept (unfit .comparison other)

def countCondition : RunM Unit :=
  RunM.count fun c => { c with conditions := c.conditions + 1 }

/-- Goes on with a condition behind some negations; `negated` tells if their number is odd. -/
def condFrom : (steps : Nat) → (negated : Bool) → NodeId → RunM Bool
  | 0, _, _ => RunM.ofExcept (.error .unfinished)
  | steps + 1, negated, id => do
    match ← RunM.ofExcept (t.load id) with
    | .condNot cond =>
      countCondition
      condFrom steps (!negated) cond
    | .condCompare comparison =>
      countCondition
      let value ← t.evalComparison steps comparison
      return value != negated
    | .condAnd left right =>
      countCondition
      let a ← condFrom steps false left
      let b ← condFrom steps false right
      return (a && b) != negated
    | .condOr left right =>
      countCondition
      let a ← condFrom steps false left
      let b ← condFrom steps false right
      return (a || b) != negated
    | other => RunM.ofExcept (unfit .cond other)

def evalCond (steps : Nat) (id : NodeId) : RunM Bool :=
  t.condFrom steps false id

/-! ### The loop as a recursion -/

variable {t}

/-- The negations before only turn the truth of what comes. -/
theorem condFrom_eq (steps : Nat) (negated : Bool) (id : NodeId) :
    t.condFrom steps negated id = t.evalCond steps id >>= fun a => return a != negated := by
  induction steps generalizing negated id with
  | zero => rfl
  | succ steps ih =>
    rw [evalCond, condFrom, condFrom, bind_assoc]
    refine bind_congr fun node => ?_
    cases node with
    | condNot cond =>
      rw [bind_assoc]
      refine bind_congr fun _ => ?_
      rw [ih, ih, bind_assoc]
      refine bind_congr fun a => ?_
      cases a <;> cases negated <;> rfl
    | condCompare comparison =>
      simp only [bind_assoc, pure_bind, Bool.bne_false]
    | condAnd left right | condOr left right =>
      simp only [bind_assoc, pure_bind, Bool.bne_false]
    | _ => rfl

theorem evalCond_succ (steps : Nat) (id : NodeId) : t.evalCond (steps + 1) id = (do
    match ← RunM.ofExcept (t.load id) with
    | .condCompare comparison =>
      countCondition
      t.evalComparison steps comparison
    | .condNot cond =>
      countCondition
      let a ← t.evalCond steps cond
      return !a
    | .condAnd left right =>
      countCondition
      let a ← t.evalCond steps left
      let b ← t.evalCond steps right
      return a && b
    | .condOr left right =>
      countCondition
      let a ← t.evalCond steps left
      let b ← t.evalCond steps right
      return a || b
    | other => RunM.ofExcept (unfit .cond other)) := by
  rw [evalCond, condFrom]
  refine bind_congr fun node => ?_
  cases node with
  | condNot cond =>
    refine bind_congr fun _ => ?_
    rw [condFrom_eq]
    simp only [Bool.not_false, Bool.bne_true]
  | condCompare comparison => simp only [Bool.bne_false, bind_pure]
  | condAnd left right | condOr left right => simp only [Bool.bne_false, evalCond]
  | _ => rfl

end CoreLang.Tree
