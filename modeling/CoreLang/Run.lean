import CoreLang.Run.Truth

/-!
# Running a program

Statements are run on the stored tree, in order. A loop may go on for ever, so a
run is bounded by a number of steps; one that ends within its bound ends the same
way under any larger one.
-/

namespace CoreLang.Tree

variable (t : Tree)

/-- The names of an identifier list. -/
def namesAt (symbols : SymbolTable) :
    (steps : Nat) → NodeId → Except (Stop RuntimeError) (List String)
  | 0, _ => .error .unfinished
  | steps + 1, id => do
    match ← t.load id with
    | .idList first rest =>
      let symbol ← t.symbolAt first
      let name ← nameOf symbols symbol
      match rest with
      | none => return [name]
      | some rest => return name :: (← namesAt symbols steps rest)
    | other => unfit .idList other

/-- Reads a value into the variable of each name in turn. -/
def readValues (line : Nat) : List String → RunM Unit
  | [] => return
  | name :: others => do
    let value ← RunM.nextValue line
    RunM.storeByName name value line
    readValues line others

/-- The line that shows a variable. -/
def bindingLine (name : String) (value : Int64) : String :=
  name ++ " = " ++ Number.text value ++ "\n"

/-- Writes the value of the variable of each name in turn. -/
def writeValues (line : Nat) : List String → RunM Unit
  | [] => return
  | name :: others => do
    match (← RunM.environment).getByName? name with
    | none => RunM.fault (.uninitializedVariable name line)
    | some value =>
      RunM.emit (bindingLine name value) line
      writeValues line others

def runAssign (steps : Nat) (id : NodeId) : RunM Unit := do
  match ← RunM.ofExcept (t.load id) with
  | .assign target value =>
    let symbol ← RunM.ofExcept (t.symbolAt target)
    let env ← RunM.environment
    let v ← RunM.ofExcept (t.evalExpr env steps value)
    RunM.store symbol v ("#" ++ Text.Decimal.ofNat symbol.index) (t.line target)
  | other => RunM.ofExcept (unfit .assign other)

def runInput (steps : Nat) (id : NodeId) : RunM Unit := do
  match ← RunM.ofExcept (t.load id) with
  | .input ids =>
    let env ← RunM.environment
    let names ← RunM.ofExcept (t.namesAt env.symbols steps ids)
    readValues (t.line id) names
  | other => RunM.ofExcept (unfit .input other)

def runOutput (steps : Nat) (id : NodeId) : RunM Unit := do
  match ← RunM.ofExcept (t.load id) with
  | .output ids =>
    let env ← RunM.environment
    let names ← RunM.ofExcept (t.namesAt env.symbols steps ids)
    writeValues (t.line id) names
  | other => RunM.ofExcept (unfit .output other)

mutual

def runStmt : (steps : Nat) → NodeId → RunM Unit
  | 0, _ => RunM.ofExcept (.error .unfinished)
  | steps + 1, id => do
    match ← RunM.ofExcept (t.load id) with
    | .stmt form inner =>
      RunM.count fun c => { c with statements := c.statements + 1 }
      match form with
      | .assign => t.runAssign steps inner
      | .ifStmt => runIf steps inner
      | .whileStmt =>
        match ← RunM.ofExcept (t.load inner) with
        | .whileStmt cond body => runLoop steps cond body
        | other => RunM.ofExcept (unfit .whileStmt other)
      | .input => t.runInput steps inner
      | .output => t.runOutput steps inner
    | other => RunM.ofExcept (unfit .stmt other)

def runIf : (steps : Nat) → NodeId → RunM Unit
  | 0, _ => RunM.ofExcept (.error .unfinished)
  | steps + 1, id => do
    match ← RunM.ofExcept (t.load id) with
    | .ifStmt cond body other =>
      if ← t.evalCond steps cond then
        runStmtSeq steps body
      else
        match other with
        | some other => runStmtSeq steps other
        | none => return
    | other => RunM.ofExcept (unfit .ifStmt other)

/-- The condition is evaluated before every round, and once more at the end. -/
def runLoop : (steps : Nat) → NodeId → NodeId → RunM Unit
  | 0, _, _ => RunM.ofExcept (.error .unfinished)
  | steps + 1, cond, body => do
    if ← t.evalCond steps cond then
      RunM.count fun c => { c with iterations := c.iterations + 1 }
      runStmtSeq steps body
      runLoop steps cond body
    else
      return

def runStmtSeq : (steps : Nat) → NodeId → RunM Unit
  | 0, _ => RunM.ofExcept (.error .unfinished)
  | steps + 1, id => do
    match ← RunM.ofExcept (t.load id) with
    | .stmtSeq stmt rest =>
      runStmt steps stmt
      match rest with
      | some rest => runStmtSeq steps rest
      | none => return
    | other => RunM.ofExcept (unfit .stmtSeq other)

end

/-- Runs the program of a tree from the state at hand. -/
def run (steps : Nat) : RunM Unit := do
  match t.root with
  | none => RunM.fault (.tree .empty)
  | some root =>
    match ← RunM.ofExcept (t.load root) with
    | .program _ stmts =>
      t.runStmtSeq steps stmts
      RunM.flush (t.line root)
    | other => RunM.ofExcept (unfit .program other)

end CoreLang.Tree
