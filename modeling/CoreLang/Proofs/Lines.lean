import CoreLang.Proofs.Simulation

/-!
# Runs and lines

Lines only say where a fault is reported. Two trees with the same nodes therefore run in
step, whatever lines their nodes are on: they change the machine alike, and if one of
them stops, so does the other, for the same reason on another line.

The statements come in two strengths. Under the same bound the runs agree throughout,
also where the bound cuts them off; under a larger bound (`early`) the other run agrees
unless the first one is cut off. A tree and itself give that more steps make no
difference to a run that ends.
-/

namespace CoreLang

/-- The fault, reported on another line. A fault of the tree is on no line. -/
def RuntimeError.onLine (line : Nat) : RuntimeError → RuntimeError
  | .uninitializedVariable name _ => .uninitializedVariable name line
  | .unknownVariable name _ => .unknownVariable name line
  | .inputExhausted _ => .inputExhausted line
  | .inputNotInteger token _ => .inputNotInteger token line
  | .overflow _ => .overflow line
  | .io reason _ => .io reason line
  | .tree error => .tree error

/-- The same stop, but for the line of a fault. -/
inductive StopsAlike : Stop RuntimeError → Stop RuntimeError → Prop where
  | same (stop : Stop RuntimeError) : StopsAlike stop stop
  | fault (e : RuntimeError) (line : Nat) : StopsAlike (.fault e) (.fault (e.onLine line))

/-- The bound of a run and that of another: the same, or a larger one if runs may be cut
off early. -/
def Bounds (early : Prop) (steps steps' : Nat) : Prop :=
  steps = steps' ∨ early ∧ steps ≤ steps'

namespace Bounds

variable {early : Prop} {steps steps' : Nat}

theorem pred (h : Bounds early (steps + 1) steps') :
    ∃ n, steps' = n + 1 ∧ Bounds early steps n := by
  rcases h with rfl | ⟨allowed, more⟩
  · exact ⟨steps, rfl, .inl rfl⟩
  · obtain ⟨n, rfl⟩ : ∃ n, steps' = n + 1 := ⟨steps' - 1, by omega⟩
    exact ⟨n, rfl, .inr ⟨allowed, by omega⟩⟩

end Bounds

section Alike

variable {α β : Type} {early : Prop}

/-! ### Values -/

/-- The same value, or the same stop but for its line. -/
inductive Alike (early : Prop) : Except (Stop RuntimeError) α → Except (Stop RuntimeError) α →
    Prop where
  | ok (a : α) : Alike early (.ok a) (.ok a)
  | error {stop stop' : Stop RuntimeError} (h : StopsAlike stop stop') :
    Alike early (.error stop) (.error stop')
  | cut (allowed : early) (r : Except (Stop RuntimeError) α) : Alike early (.error .unfinished) r

namespace Alike

theorem refl (r : Except (Stop RuntimeError) α) : Alike early r r := by
  cases r with
  | ok a => exact .ok a
  | error stop => exact .error (.same stop)

theorem bind {x x' : Except (Stop RuntimeError) α} {f f' : α → Except (Stop RuntimeError) β}
    (first : Alike early x x') (next : ∀ a, Alike early (f a) (f' a)) :
    Alike early (x >>= f) (x' >>= f') := by
  cases first with
  | ok a => exact next a
  | error h => exact .error h
  | cut allowed _ => exact .cut allowed _

theorem of_zero {steps : Nat} {r' : Except (Stop RuntimeError) α} (bounds : Bounds early 0 steps)
    (stopped : steps = 0 → r' = .error .unfinished) : Alike early (.error .unfinished) r' := by
  rcases bounds with none_left | ⟨allowed, -⟩
  · rw [stopped none_left.symm]
    exact .refl _
  · exact .cut allowed r'

end Alike

/-! ### Computations -/

/-- The same end, but for the line of a fault, and the same machine left behind. -/
inductive EndsAlike (early : Prop) : EStateM.Result (Stop RuntimeError) Machine α →
    EStateM.Result (Stop RuntimeError) Machine α → Prop where
  | ok (a : α) (m : Machine) : EndsAlike early (.ok a m) (.ok a m)
  | error {stop stop' : Stop RuntimeError} (h : StopsAlike stop stop') (m : Machine) :
    EndsAlike early (.error stop m) (.error stop' m)
  | cut (allowed : early) (m : Machine) (r : EStateM.Result (Stop RuntimeError) Machine α) :
    EndsAlike early (.error .unfinished m) r

/-- From every machine the two computations end alike. -/
def InStep (early : Prop) (x x' : RunM α) : Prop :=
  ∀ m, EndsAlike early (x m) (x' m)

namespace InStep

theorem refl (x : RunM α) : InStep early x x := by
  intro m
  cases x m with
  | ok a m' => exact .ok a m'
  | error stop m' => exact .error (.same stop) m'

theorem bind {x x' : RunM α} {f f' : α → RunM β} (first : InStep early x x')
    (next : ∀ a, InStep early (f a) (f' a)) : InStep early (x >>= f) (x' >>= f') := by
  intro m
  have h := first m
  simp only [Bind.bind, EStateM.bind]
  cases ended : x m with
  | ok a m' =>
    cases ended' : x' m with
    | ok a' m'' =>
      rw [ended, ended'] at h
      cases h
      exact next a m'
    | error stop m'' =>
      rw [ended, ended'] at h
      cases h
  | error stop m' =>
    cases ended' : x' m with
    | ok a' m'' =>
      rw [ended, ended'] at h
      cases h with
      | cut allowed => exact .cut allowed _ _
    | error stop' m'' =>
      rw [ended, ended'] at h
      cases h with
      | error same => exact .error same _
      | cut allowed => exact .cut allowed _ _

/-- What both begin with is the same. -/
theorem after (x : RunM α) {f f' : α → RunM β} (next : ∀ a, InStep early (f a) (f' a)) :
    InStep early (x >>= f) (x >>= f') :=
  (refl x).bind next

theorem ofExcept {r r' : Except (Stop RuntimeError) α} (h : Alike early r r') :
    InStep early (RunM.ofExcept r) (RunM.ofExcept r') := by
  intro m
  cases h with
  | ok a => exact .ok a m
  | error same => exact .error same m
  | cut allowed _ => exact .cut allowed m _

theorem of_zero {steps : Nat} {x' : RunM α} (bounds : Bounds early 0 steps)
    (stopped : steps = 0 → x' = RunM.ofExcept (.error .unfinished)) :
    InStep early (RunM.ofExcept (.error .unfinished)) x' := by
  rcases bounds with none_left | ⟨allowed, -⟩
  · rw [stopped none_left.symm]
    exact .refl _
  · exact fun m => .cut allowed m (x' m)

end InStep

end Alike

/-! ### Trees with the same nodes -/

/-- The same nodes under the same numbers, and the same root. -/
structure Tree.SameNodes (t t' : Tree) : Prop where
  nodes : t'.entries.map Entry.node = t.entries.map Entry.node
  root : t'.root = t.root

namespace Tree.SameNodes

variable {t t' : Tree} {early : Prop} {steps steps' : Nat}

theorem node?_eq (same : t.SameNodes t') (id : NodeId) : t'.node? id = t.node? id := by
  have := congrArg (·[id.index]?) same.nodes
  simpa [node?] using this

theorem load_eq (same : t.SameNodes t') (id : NodeId) : t'.load id = t.load id := by
  rw [load, load, get, get, same.node?_eq]

theorem symbolAt_eq (same : t.SameNodes t') (id : NodeId) : t'.symbolAt id = t.symbolAt id := by
  rw [symbolAt, symbolAt, same.load_eq]

theorem literalAt_alike (same : t.SameNodes t') (id : NodeId) :
    Alike early (t.literalAt id) (t'.literalAt id) := by
  rw [literalAt, literalAt, same.load_eq]
  exact .refl _

theorem comparatorAt_eq (same : t.SameNodes t') (id : NodeId) :
    t'.comparatorAt id = t.comparatorAt id := by
  rw [comparatorAt, comparatorAt, same.load_eq]

/-! ### Expressions and conditions -/

theorem variableAt_alike (same : t.SameNodes t') (env : Environment) (id : NodeId) :
    Alike early (t.variableAt env id) (t'.variableAt env id) := by
  rw [variableAt, variableAt, same.symbolAt_eq]
  refine (Alike.refl _).bind fun symbol => ?_
  cases env.get? symbol with
  | some value => exact .refl _
  | none =>
    refine (Alike.refl _).bind fun name => ?_
    exact .error (.fault (.uninitializedVariable name (t.line id)) (t'.line id))

theorem combine_alike (t t' : Tree) (op : Operator) (a b : Int64) (id : NodeId) :
    Alike early (t.combine op a b id) (t'.combine op a b id) := by
  unfold combine Operator.apply
  cases op.checked? a b with
  | some v => exact .refl _
  | none => exact .error (.fault (.overflow (t.line id)) (t'.line id))

/-- The values of expressions, terms and operands are alike. -/
structure ValuesAlike (early : Prop) (t t' : Tree) (env : Environment) (steps steps' : Nat) :
    Prop where
  expr (id : NodeId) : Alike early (t.evalExpr env steps id) (t'.evalExpr env steps' id)
  term (id : NodeId) : Alike early (t.evalTerm env steps id) (t'.evalTerm env steps' id)
  operand (id : NodeId) : Alike early (t.evalOperand env steps id) (t'.evalOperand env steps' id)

theorem eval_alike (same : t.SameNodes t') (env : Environment) (bounds : Bounds early steps steps') :
    ValuesAlike early t t' env steps steps' := by
  induction steps generalizing steps' with
  | zero =>
    constructor
    · intro id
      exact .of_zero bounds (by rintro rfl; rfl)
    · intro id
      exact .of_zero bounds (by rintro rfl; rfl)
    · intro id
      exact .of_zero bounds (by rintro rfl; rfl)
  | succ steps ih =>
    obtain ⟨steps', rfl, fewer⟩ := bounds.pred
    obtain ⟨expr, term, operand⟩ := ih fewer
    constructor
    · intro id
      rw [evalExpr_succ, evalExpr_succ, same.load_eq]
      refine (Alike.refl _).bind fun node => ?_
      cases node with
      | exprTerm a => exact term a
      | exprAdd a b | exprSub a b =>
        exact (term a).bind fun _ => (expr b).bind fun _ => combine_alike t t' _ _ _ id
      | _ => exact .refl _
    · intro id
      rw [evalTerm_succ, evalTerm_succ, same.load_eq]
      refine (Alike.refl _).bind fun node => ?_
      cases node with
      | termOperand a => exact operand a
      | termMul a b =>
        exact (operand a).bind fun _ => (term b).bind fun _ => combine_alike t t' _ _ _ id
      | _ => exact .refl _
    · intro id
      rw [evalOperand_succ, evalOperand_succ, same.load_eq]
      refine (Alike.refl _).bind fun node => ?_
      cases node with
      | operandInt leaf => exact same.literalAt_alike leaf
      | operandIdent leaf => exact same.variableAt_alike env leaf
      | operandParen a => exact expr a
      | _ => exact .refl _

theorem evalComparison_inStep (same : t.SameNodes t') (bounds : Bounds early steps steps')
    (id : NodeId) : InStep early (t.evalComparison steps id) (t'.evalComparison steps' id) := by
  rw [evalComparison, evalComparison, same.load_eq]
  refine .after _ fun node => ?_
  cases node with
  | comparison left op right =>
    refine .after _ fun _ => .after _ fun env => ?_
    obtain ⟨-, -, operand⟩ := same.eval_alike env bounds
    refine (InStep.ofExcept (operand left)).bind fun a => ?_
    rw [same.comparatorAt_eq]
    exact .after _ fun op => (InStep.ofExcept (operand right)).bind fun b => .refl _
  | _ => exact .refl _

theorem evalCond_inStep (same : t.SameNodes t') (bounds : Bounds early steps steps') (id : NodeId) :
    InStep early (t.evalCond steps id) (t'.evalCond steps' id) := by
  induction steps generalizing steps' id with
  | zero => exact .of_zero bounds (by rintro rfl; rfl)
  | succ steps ih =>
    obtain ⟨steps', rfl, fewer⟩ := bounds.pred
    rw [evalCond_succ, evalCond_succ, same.load_eq]
    refine .after _ fun node => ?_
    cases node with
    | condCompare a => exact .after _ fun _ => same.evalComparison_inStep fewer a
    | condNot a => exact .after _ fun _ => (ih fewer a).bind fun _ => .refl _
    | condAnd a b | condOr a b =>
      exact .after _ fun _ => (ih fewer a).bind fun _ => (ih fewer b).bind fun _ => .refl _
    | _ => exact .refl _

/-! ### Statements -/

theorem namesAt_alike (same : t.SameNodes t') (symbols : SymbolTable)
    (bounds : Bounds early steps steps') (id : NodeId) :
    Alike early (t.namesAt symbols steps id) (t'.namesAt symbols steps' id) := by
  induction steps generalizing steps' id with
  | zero => exact .of_zero bounds (by rintro rfl; rfl)
  | succ steps ih =>
    obtain ⟨steps', rfl, fewer⟩ := bounds.pred
    rw [namesAt, namesAt, same.load_eq]
    refine (Alike.refl _).bind fun node => ?_
    cases node with
    | idList first rest =>
      have head := same.symbolAt_eq first
      simp only [head]
      refine (Alike.refl _).bind fun symbol => (Alike.refl _).bind fun name => ?_
      cases rest with
      | none => exact .refl _
      | some rest => exact (ih fewer rest).bind fun _ => .refl _
    | _ => exact .refl _

theorem nextValue_inStep (line line' : Nat) :
    InStep early (RunM.nextValue line) (RunM.nextValue line') := by
  intro m
  unfold RunM.nextValue DataStream.next
  cases m.input.nextToken with
  | mk read rest =>
    cases read with
    | error reason => exact .error (.fault (.io reason line) line') _
    | ok token =>
      cases token with
      | none => exact .error (.fault (.inputExhausted line) line') _
      | some token =>
        simp only
        cases Number.parse? (Text.Utf8.decodeLossy token) with
        | some value => exact .ok value _
        | none => exact .error (.fault (.inputNotInteger _ line) line') _

theorem store_inStep (symbol : Symbol) (value : Int64) (name : String) (line line' : Nat) :
    InStep early (RunM.store symbol value name line) (RunM.store symbol value name line') := by
  intro m
  unfold RunM.store
  cases m.env.set? symbol value with
  | some env => exact .ok () _
  | none => exact .error (.fault (.unknownVariable name line) line') m

theorem storeByName_inStep (name : String) (value : Int64) (line line' : Nat) :
    InStep early (RunM.storeByName name value line) (RunM.storeByName name value line') := by
  intro m
  unfold RunM.storeByName
  cases m.env.setByName? name value with
  | some env => exact .ok () _
  | none => exact .error (.fault (.unknownVariable name line) line') m

theorem emit_inStep (text : String) (line line' : Nat) :
    InStep early (RunM.emit text line) (RunM.emit text line') := by
  intro m
  unfold RunM.emit
  cases m.sink.writeText text with
  | mk written sink =>
    cases written with
    | ok _ => exact .ok () _
    | error reason => exact .error (.fault (.io reason line) line') _

theorem flush_inStep (line line' : Nat) : InStep early (RunM.flush line) (RunM.flush line') := by
  intro m
  unfold RunM.flush
  cases m.sink.flush with
  | ok _ => exact .ok () m
  | error reason => exact .error (.fault (.io reason line) line') m

theorem readValues_inStep (line line' : Nat) (names : List String) :
    InStep early (readValues line names) (readValues line' names) := by
  induction names with
  | nil => exact .refl _
  | cons name others ih =>
    exact (nextValue_inStep line line').bind fun value =>
      (storeByName_inStep name value line line').bind fun _ => ih

theorem writeValues_inStep (line line' : Nat) (names : List String) :
    InStep early (writeValues line names) (writeValues line' names) := by
  induction names with
  | nil => exact .refl _
  | cons name others ih =>
    refine .after _ fun env => ?_
    cases env.getByName? name with
    | none => exact fun m => .error (.fault (.uninitializedVariable name line) line') m
    | some value => exact (emit_inStep _ line line').bind fun _ => ih

theorem runAssign_inStep (same : t.SameNodes t') (bounds : Bounds early steps steps') (id : NodeId) :
    InStep early (t.runAssign steps id) (t'.runAssign steps' id) := by
  rw [runAssign, runAssign, same.load_eq]
  refine .after _ fun node => ?_
  cases node with
  | assign target value =>
    simp only [same.symbolAt_eq]
    refine .after _ fun symbol => .after _ fun env => ?_
    exact (InStep.ofExcept ((same.eval_alike env bounds).expr value)).bind fun v =>
      store_inStep _ _ _ _ _
  | _ => exact .refl _

theorem runInput_inStep (same : t.SameNodes t') (bounds : Bounds early steps steps') (id : NodeId) :
    InStep early (t.runInput steps id) (t'.runInput steps' id) := by
  rw [runInput, runInput, same.load_eq]
  refine .after _ fun node => ?_
  cases node with
  | input ids =>
    refine .after _ fun env => ?_
    exact (InStep.ofExcept (same.namesAt_alike env.symbols bounds ids)).bind fun names =>
      readValues_inStep _ _ names
  | _ => exact .refl _

theorem runOutput_inStep (same : t.SameNodes t') (bounds : Bounds early steps steps')
    (id : NodeId) : InStep early (t.runOutput steps id) (t'.runOutput steps' id) := by
  rw [runOutput, runOutput, same.load_eq]
  refine .after _ fun node => ?_
  cases node with
  | output ids =>
    refine .after _ fun env => ?_
    exact (InStep.ofExcept (same.namesAt_alike env.symbols bounds ids)).bind fun names =>
      writeValues_inStep _ _ names
  | _ => exact .refl _

/-- Statements, branches, loops and sequences run in step. -/
structure BlocksInStep (early : Prop) (t t' : Tree) (steps steps' : Nat) : Prop where
  stmt (id : NodeId) : InStep early (t.runStmt steps id) (t'.runStmt steps' id)
  branch (id : NodeId) : InStep early (t.runIf steps id) (t'.runIf steps' id)
  loop (cond body : NodeId) : InStep early (t.runLoop steps cond body) (t'.runLoop steps' cond body)
  seq (id : NodeId) : InStep early (t.runStmtSeq steps id) (t'.runStmtSeq steps' id)

theorem blocksInStep_zero (bounds : Bounds early 0 steps') : BlocksInStep early t t' 0 steps' where
  stmt _ := .of_zero bounds (by rintro rfl; rfl)
  branch _ := .of_zero bounds (by rintro rfl; rfl)
  loop _ _ := .of_zero bounds (by rintro rfl; rfl)
  seq _ := .of_zero bounds (by rintro rfl; rfl)

section Step

variable (same : t.SameNodes t') (bounds : Bounds early steps steps')
  (blocks : BlocksInStep early t t' steps steps')

include same bounds blocks

theorem runStmt_inStep (id : NodeId) :
    InStep early (t.runStmt (steps + 1) id) (t'.runStmt (steps' + 1) id) := by
  rw [runStmt, runStmt, same.load_eq]
  refine .after _ fun node => ?_
  cases node with
  | stmt form inner =>
    refine .after _ fun _ => ?_
    cases form with
    | assign => exact same.runAssign_inStep bounds inner
    | ifStmt => exact blocks.branch inner
    | whileStmt =>
      simp only [same.load_eq]
      refine .after _ fun node => ?_
      cases node with
      | whileStmt cond body => exact blocks.loop cond body
      | _ => exact .refl _
    | input => exact same.runInput_inStep bounds inner
    | output => exact same.runOutput_inStep bounds inner
  | _ => exact .refl _

theorem runIf_inStep (id : NodeId) :
    InStep early (t.runIf (steps + 1) id) (t'.runIf (steps' + 1) id) := by
  rw [runIf, runIf, same.load_eq]
  refine .after _ fun node => ?_
  cases node with
  | ifStmt cond body other =>
    refine (same.evalCond_inStep bounds cond).bind fun b => ?_
    cases b with
    | true => exact blocks.seq body
    | false =>
      cases other with
      | some other => exact blocks.seq other
      | none => exact .refl _
  | _ => exact .refl _

theorem runLoop_inStep (cond body : NodeId) :
    InStep early (t.runLoop (steps + 1) cond body) (t'.runLoop (steps' + 1) cond body) := by
  rw [runLoop, runLoop]
  refine (same.evalCond_inStep bounds cond).bind fun b => ?_
  cases b with
  | true => exact .after _ fun _ => (blocks.seq body).bind fun _ => blocks.loop cond body
  | false => exact .refl _

omit bounds in
theorem runStmtSeq_inStep (id : NodeId) :
    InStep early (t.runStmtSeq (steps + 1) id) (t'.runStmtSeq (steps' + 1) id) := by
  rw [runStmtSeq, runStmtSeq, same.load_eq]
  refine .after _ fun node => ?_
  cases node with
  | stmtSeq first rest =>
    refine (blocks.stmt first).bind fun _ => ?_
    cases rest with
    | some rest => exact blocks.seq rest
    | none => exact .refl _
  | _ => exact .refl _

end Step

theorem blocksInStep (same : t.SameNodes t') (bounds : Bounds early steps steps') :
    BlocksInStep early t t' steps steps' := by
  induction steps generalizing steps' with
  | zero => exact blocksInStep_zero bounds
  | succ steps ih =>
    obtain ⟨steps', rfl, fewer⟩ := bounds.pred
    have blocks := ih fewer
    exact ⟨same.runStmt_inStep fewer blocks, same.runIf_inStep fewer blocks,
      same.runLoop_inStep fewer blocks, same.runStmtSeq_inStep blocks⟩

/-- Trees with the same nodes run in step. -/
theorem run_inStep (same : t.SameNodes t') (bounds : Bounds early steps steps') :
    InStep early (t.run steps) (t'.run steps') := by
  rw [run, run, same.root]
  cases t.root with
  | none => exact .refl _
  | some root =>
    simp only [same.load_eq]
    refine .after _ fun node => ?_
    cases node with
    | program decls stmts =>
      exact ((same.blocksInStep bounds).seq stmts).bind fun _ => flush_inStep _ _
    | _ => exact .refl _

end Tree.SameNodes

end CoreLang
