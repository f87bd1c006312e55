import CoreLang.Proofs.Acceptance
import CoreLang.Proofs.Simulation
import CoreLang.Session

/-!
# Running a tree is the meaning of its program

What a run does first is said once for every construct: which computations of its parts
it puts together, and how (`Performs` and its inversions, and `Branches` for what begins
with a test). A run that comes to an end then does what the rules of `Exec` derive
(`follows`, by induction on the bound of the run), and whatever the rules derive is what
every run with enough steps does (`exists_reaches`, by induction on the derivation).
-/

namespace CoreLang

/-! ### Ends that are known -/

section EndsAs

variable {α β : Type} {table : SymbolTable} {x : RunM α} {y : Effect α} {m : Machine} {a : α}
  {e : RuntimeError} {s : State} {r : EStateM.Result (Stop RuntimeError) Machine α}
  {out : Outcome α}

theorem endsAs_ok : EndsAs table (.ok a m) out ↔ m.env.symbols = table ∧ out = .ok a m.view := by
  simp only [EndsAs, EStateM.Result.ok.injEq, reduceCtorEq, false_and, and_false, exists_false,
    or_false]
  constructor
  · rintro ⟨a, m, symbols, ⟨rfl, rfl⟩, rfl⟩
    exact ⟨symbols, rfl⟩
  · rintro ⟨symbols, rfl⟩
    exact ⟨a, m, symbols, ⟨rfl, rfl⟩, rfl⟩

theorem endsAs_error {stop : Stop RuntimeError} : EndsAs table (.error stop m) out ↔
    ∃ e, stop = .fault e ∧ m.env.symbols = table ∧ out = .error e m.view := by
  constructor
  · rintro (⟨_, _, _, h, _⟩ | ⟨e, m, symbols, h, rfl⟩)
    · cases h
    · cases h
      exact ⟨e, rfl, symbols, rfl⟩
  · rintro ⟨e, rfl, symbols, rfl⟩
    exact .inr ⟨e, m, symbols, rfl, rfl⟩

theorem endsAs_pure {run : RunM Unit} (skips : run = pure ()) (symbols : m.env.symbols = table)
    (seen : m.view = s) : EndsAs table (run m) (.ok () s) := by
  subst skips seen
  exact .inl ⟨(), m, symbols, rfl, rfl⟩

theorem EndsAs.exists_ok (h : EndsAs table r (.ok a s)) :
    ∃ m, m.env.symbols = table ∧ m.view = s ∧ r = .ok a m := by
  rcases h with ⟨_, m, symbols, rfl, seen⟩ | ⟨_, _, _, _, seen⟩
  · cases seen
    exact ⟨m, symbols, rfl, rfl⟩
  · cases seen

theorem EndsAs.exists_error (h : EndsAs table r (.error e s)) :
    ∃ m, m.env.symbols = table ∧ m.view = s ∧ r = .error (.fault e) m := by
  rcases h with ⟨_, _, _, _, seen⟩ | ⟨_, m, symbols, rfl, seen⟩
  · cases seen
  · cases seen
    exact ⟨m, symbols, rfl, rfl⟩

theorem EndsAs.bind_ok (h : EndsAs table (x m) (.ok a s)) (f : α → RunM β) :
    ∃ m', m'.env.symbols = table ∧ m'.view = s ∧ (x >>= f) m = f a m' := by
  obtain ⟨m', symbols, seen, h⟩ := h.exists_ok
  exact ⟨m', symbols, seen, by simp only [Bind.bind, EStateM.bind, h]⟩

theorem EndsAs.bind_error (h : EndsAs table (x m) (.error e s)) (f : α → RunM β) :
    EndsAs table ((x >>= f) m) (.error e s) := by
  obtain ⟨m', symbols, rfl, stopped⟩ := h.exists_error
  exact .inr ⟨e, m', symbols, by simp only [Bind.bind, EStateM.bind, stopped], rfl⟩

theorem Simulates.bind_ok {P : Prop} (h : Simulates table P x y)
    (symbols : m.env.symbols = table) (enough : P) (meaning : y m.view = .ok a s)
    (f : α → RunM β) : ∃ m', m'.env.symbols = table ∧ m'.view = s ∧ (x >>= f) m = f a m' := by
  have ended := h m symbols (.inl enough)
  rw [meaning] at ended
  exact ended.bind_ok f

theorem Simulates.bind_error {P : Prop} (h : Simulates table P x y)
    (symbols : m.env.symbols = table) (enough : P) (meaning : y m.view = .error e s)
    (f : α → RunM β) : EndsAs table ((x >>= f) m) (.error e s) := by
  have ended := h m symbols (.inl enough)
  rw [meaning] at ended
  exact ended.bind_error f

end EndsAs

/-- The machine with other counters. -/
def Machine.count (m : Machine) (f : Counters → Counters) : Machine :=
  { m with counters := f m.counters }

/-- The computation that carries the code out on the tree. -/
inductive Performs (t : Tree) (table : SymbolTable) (steps : Nat) : Code → RunM Unit → Prop where
  | stmt {st id} : t.Holds table.name? st.derivation id →
    Performs t table steps (.stmt st) (t.runStmt steps id)
  | seq {ss id} : t.Holds table.name? ss.derivation id →
    Performs t table steps (.seq ss) (t.runStmtSeq steps id)
  | loop {cond body i j} : t.Holds table.name? cond.derivation i →
    t.Holds table.name? body.derivation j →
    Performs t table steps (.loop cond body) (t.runLoop steps i j)

namespace Performs

variable {t : Tree} {table : SymbolTable} {steps line : Nat} {run : RunM Unit} {m : Machine}
  {code : Code} {target : Ident String} {value : Expr String} {ids : IdList String}
  {cond : Cond String} {st : Stmt String} {body other : StmtSeq String}

/-! ### What a run does first -/

theorem unfinished (h : Performs t table 0 code run) : Unfinished (run m) := by
  cases h with
  | stmt => exact ⟨m, by rw [Tree.runStmt]; rfl⟩
  | seq => exact ⟨m, by rw [Tree.runStmtSeq]; rfl⟩
  | loop => exact ⟨m, by rw [Tree.runLoop]; rfl⟩

theorem assign (h : Performs t table (steps + 1) (.stmt (.assign target value)) run) :
    Simulates table (value.derivation.size ≤ steps) run fun s =>
      assignValue target.var value (s.count .statement) := by
  cases h with
  | stmt held =>
    obtain ⟨i, here, held⟩ := held
    simp only [Tree.runStmt, here.load_eq, RunM.ofExcept_ok_bind]
    exact (Simulates.count .statement).bind fun _ => Tree.runAssign_simulates held

theorem read (h : Performs t table (steps + 1) (.stmt (.read line ids)) run) :
    Simulates table (ids.derivation.size ≤ steps) run fun s =>
      forNames (readName line) ids.names (s.count .statement) := by
  cases h with
  | stmt held =>
    obtain ⟨i, here, held⟩ := held
    simp only [Tree.runStmt, here.load_eq, RunM.ofExcept_ok_bind]
    exact (Simulates.count .statement).bind fun _ => Tree.runInput_simulates held

theorem write (h : Performs t table (steps + 1) (.stmt (.write line ids)) run) :
    Simulates table (ids.derivation.size ≤ steps) run fun s =>
      forNames (writeName line) ids.names (s.count .statement) := by
  cases h with
  | stmt held =>
    obtain ⟨i, here, held⟩ := held
    simp only [Tree.runStmt, here.load_eq, RunM.ofExcept_ok_bind]
    exact (Simulates.count .statement).bind fun _ => Tree.runOutput_simulates held

theorem whileLoop (h : Performs t table (steps + 1) (.stmt (.whileLoop line cond body)) run) :
    ∃ rounds, Performs t table steps (.loop cond body) rounds ∧
      ∀ m, run m = rounds (m.count .statement) := by
  cases h with
  | stmt held =>
    obtain ⟨i, here, j, k, loop, left, right⟩ := held
    refine ⟨_, .loop left right, fun m => ?_⟩
    simp only [Tree.runStmt, here.load_eq, RunM.ofExcept_ok_bind, loop.load_eq]
    rfl

theorem last (h : Performs t table (steps + 1) (.seq (.last st)) run) :
    Performs t table steps (.stmt st) run := by
  cases h with
  | seq held =>
    obtain ⟨i, here, left⟩ := held
    simp only [Tree.runStmtSeq, here.load_eq, RunM.ofExcept_ok_bind, bind_pure_unit]
    exact .stmt left

theorem cons (h : Performs t table (steps + 1) (.seq (.cons st body)) run) :
    ∃ first others, Performs t table steps (.stmt st) first ∧
      Performs t table steps (.seq body) others ∧ run = first >>= fun _ => others := by
  cases h with
  | seq held =>
    obtain ⟨i, j, here, left, right⟩ := held
    exact ⟨_, _, .stmt left, .seq right,
      by simp only [Tree.runStmtSeq, here.load_eq, RunM.ofExcept_ok_bind]⟩

end Performs

/-! ### Tests

An `if` and a loop both begin with a test, and what comes behind it depends on its truth
alone. -/

/-- The code begins with a test, `ahead` steps on and counted as `tick` says, and goes on
as `next` says of its truth. It does not get that far with fewer steps. -/
structure Branches (t : Tree) (table : SymbolTable) (code : Code) (test : Cond String)
    (ahead : Nat) (tick : Counters → Counters) (next : Bool → Nat → RunM Unit → Prop) : Prop where
  short : ∀ {steps run m}, steps < ahead → Performs t table steps code run → Unfinished (run m)
  long : ∀ {steps run}, Performs t table (steps + ahead) code run → ∃ x branch,
    Simulates table (test.derivation.size ≤ steps) x test.truth ∧
    (∀ b, next b steps (branch b)) ∧ ∀ m, run m = (x >>= branch) (m.count tick)

section Branches

variable {t : Tree} {table : SymbolTable} {steps line : Nat} {m : Machine} {cond : Cond String}
  {body other : StmtSeq String}

theorem runStmt_if_unfinished {i j : NodeId} (here : t.At i (.stmt .ifStmt j) line)
    (few : steps < 2) : Unfinished (t.runStmt steps i m) := by
  obtain rfl | rfl : steps = 0 ∨ steps = 1 := by omega
  · exact ⟨m, by rw [Tree.runStmt]; rfl⟩
  · exact ⟨m.count .statement, by simp only [Tree.runStmt, here.load_eq, Tree.runIf]; rfl⟩

theorem branches_ifThen : Branches t table (.stmt (.ifThen line cond body)) cond 2 .statement
    fun b steps run => bif b then Performs t table steps (.seq body) run else run = pure () where
  short few performs := by
    cases performs with
    | stmt held =>
      obtain ⟨i, here, _⟩ := held
      exact runStmt_if_unfinished here few
  long {steps _} performs := by
    cases performs with
    | stmt held =>
      obtain ⟨i, here, j, k, choice, left, right⟩ := held
      refine ⟨_, fun b => if b then t.runStmtSeq steps k else pure (),
        Tree.evalCond_simulates cond left, fun b => ?_, fun m => ?_⟩
      · cases b with
        | true => exact .seq right
        | false => rfl
      · simp only [Tree.runStmt, here.load_eq, RunM.ofExcept_ok_bind, Tree.runIf, choice.load_eq]
        rfl

theorem branches_ifElse :
    Branches t table (.stmt (.ifElse line cond body other)) cond 2 .statement
      fun b steps run => Performs t table steps (.seq (bif b then body else other)) run where
  short few performs := by
    cases performs with
    | stmt held =>
      obtain ⟨i, here, _⟩ := held
      exact runStmt_if_unfinished here few
  long {steps _} performs := by
    cases performs with
    | stmt held =>
      obtain ⟨i, here, j, k, l, choice, left, right, last⟩ := held
      refine ⟨_, fun b => if b then t.runStmtSeq steps k else t.runStmtSeq steps l,
        Tree.evalCond_simulates cond left, fun b => ?_, fun m => ?_⟩
      · cases b with
        | true => exact .seq right
        | false => exact .seq last
      · simp only [Tree.runStmt, here.load_eq, RunM.ofExcept_ok_bind, Tree.runIf, choice.load_eq]
        rfl

/-- A round is counted; it is the body and then the loop again. -/
def Round (t : Tree) (table : SymbolTable) (cond : Cond String) (body : StmtSeq String)
    (steps : Nat) (run : RunM Unit) : Prop :=
  ∃ first again, Performs t table steps (.seq body) first ∧
    Performs t table steps (.loop cond body) again ∧
    ∀ m, run m = (first >>= fun _ => again) (m.count .iteration)

theorem branches_loop : Branches t table (.loop cond body) cond 1 id
    fun b steps run => bif b then Round t table cond body steps run else run = pure () where
  short few performs := by
    obtain rfl := Nat.lt_one_iff.1 few
    exact performs.unfinished
  long {steps _} performs := by
    cases performs with
    | @loop _ _ i j left right =>
      refine ⟨_, fun b => if b then (do
          RunM.count .iteration
          t.runStmtSeq steps j
          t.runLoop steps i j) else pure (),
        Tree.evalCond_simulates cond left, fun b => ?_, fun m => ?_⟩
      · cases b with
        | true => exact ⟨_, _, .seq right, .loop left right, fun _ => rfl⟩
        | false => rfl
      · simp only [Tree.runLoop]
        rfl

end Branches

section Runs

variable {t : Tree} {table : SymbolTable} {steps : Nat} {run : RunM Unit} {m : Machine}
  {code : Code} {s : State} {out : Outcome Unit}

/-! ### A run that ends follows the rules -/

/-- Within so many steps, what comes to an end follows the rules. -/
def Follows (t : Tree) (table : SymbolTable) (steps : Nat) : Prop :=
  ∀ {code run m}, Performs t table steps code run → m.env.symbols = table →
    ¬ Unfinished (run m) → ∃ out, EndsAs table (run m) out ∧ Exec code m.view out

/-- How a run goes on that gets past its test. -/
theorem Branches.split {test : Cond String} {ahead : Nat} {tick : Counters → Counters}
    {next : Bool → Nat → RunM Unit → Prop} (branches : Branches t table code test ahead tick next)
    (performs : Performs t table steps code run) (symbols : m.env.symbols = table)
    (ends : ¬ Unfinished (run m)) :
    (∃ k, k + ahead = steps ∧ ∃ b branch m', next b k branch ∧ m'.env.symbols = table ∧
      run m = branch m' ∧ test.truth (m.view.count tick) = .ok b m'.view) ∨
    (∃ e m', m'.env.symbols = table ∧ run m = .error (.fault e) m' ∧
      test.truth (m.view.count tick) = .error e m'.view) := by
  have enough : ahead ≤ steps :=
    Nat.le_of_not_lt fun few => ends (branches.short few performs)
  obtain ⟨k, rfl⟩ := Nat.exists_eq_add_of_le' enough
  obtain ⟨x, branch, simulates, goes_on, run_eq⟩ := branches.long performs
  rw [run_eq] at ends ⊢
  rcases simulates.split (m := m.count tick) symbols (.inr ends) with
    ⟨b, m', symbols', goes, truth⟩ | ⟨e, m', symbols', goes, truth⟩
  · exact .inl ⟨k, rfl, b, branch b, m', goes_on b, symbols', goes, truth⟩
  · exact .inr ⟨e, m', symbols', goes, truth⟩

theorem follows_stmt {st : Stmt String} (ih : ∀ k ≤ steps, Follows t table k)
    (performs : Performs t table (steps + 1) (.stmt st) run) (symbols : m.env.symbols = table)
    (ends : ¬ Unfinished (run m)) :
    ∃ out, EndsAs table (run m) out ∧ Exec (.stmt st) m.view out := by
  cases st with
  | assign target value => exact ⟨_, performs.assign m symbols (.inr ends), .assign⟩
  | read line ids => exact ⟨_, performs.read m symbols (.inr ends), .read⟩
  | write line ids => exact ⟨_, performs.write m symbols (.inr ends), .write⟩
  | ifThen line cond body =>
    rcases branches_ifThen.split performs symbols ends with
      ⟨k, few, b, branch, m', next, symbols', goes, truth⟩ | ⟨e, m', symbols', goes, truth⟩
    · rw [goes] at ends ⊢
      cases b with
      | true =>
        obtain ⟨out, ended, exec⟩ := ih k (by omega) next symbols' ends
        exact ⟨out, ended, .thenBranch truth exec⟩
      | false => exact ⟨_, endsAs_pure next symbols' rfl, .thenSkipped truth⟩
    · exact ⟨_, .inr ⟨e, m', symbols', goes, rfl⟩, .thenFault truth⟩
  | ifElse line cond body other =>
    rcases branches_ifElse.split performs symbols ends with
      ⟨k, few, b, branch, m', next, symbols', goes, truth⟩ | ⟨e, m', symbols', goes, truth⟩
    · rw [goes] at ends ⊢
      obtain ⟨out, ended, exec⟩ := ih k (by omega) next symbols' ends
      cases b with
      | true => exact ⟨out, ended, .elseFirst truth exec⟩
      | false => exact ⟨out, ended, .elseSecond truth exec⟩
    · exact ⟨_, .inr ⟨e, m', symbols', goes, rfl⟩, .elseFault truth⟩
  | whileLoop line cond body =>
    obtain ⟨rounds, next, run_eq⟩ := performs.whileLoop
    rw [run_eq] at ends ⊢
    obtain ⟨out, ended, exec⟩ :=
      ih steps (Nat.le_refl _) next (m := m.count .statement) symbols ends
    exact ⟨out, ended, .whileLoop exec⟩

theorem follows_seq {ss : StmtSeq String} (ih : Follows t table steps)
    (performs : Performs t table (steps + 1) (.seq ss) run) (symbols : m.env.symbols = table)
    (ends : ¬ Unfinished (run m)) :
    ∃ out, EndsAs table (run m) out ∧ Exec (.seq ss) m.view out := by
  cases ss with
  | last st =>
    obtain ⟨out, ended, exec⟩ := ih performs.last symbols ends
    exact ⟨out, ended, .last exec⟩
  | cons st rest =>
    obtain ⟨first, others, next, next', rfl⟩ := performs.cons
    obtain ⟨out, ended, exec⟩ := ih next symbols fun stuck => ends stuck.bind
    rcases ended.bind fun _ => others with
      ⟨_, m', symbols', goes, rfl⟩ | ⟨e, m', symbols', goes, rfl⟩
    · rw [goes] at ends ⊢
      obtain ⟨out, ended', exec'⟩ := ih next' symbols' ends
      exact ⟨out, ended', .cons exec exec'⟩
    · exact ⟨_, .inr ⟨e, m', symbols', goes, rfl⟩, .consFault exec⟩

theorem follows_loop {cond : Cond String} {body : StmtSeq String} (ih : Follows t table steps)
    (performs : Performs t table (steps + 1) (.loop cond body) run)
    (symbols : m.env.symbols = table) (ends : ¬ Unfinished (run m)) :
    ∃ out, EndsAs table (run m) out ∧ Exec (.loop cond body) m.view out := by
  rcases branches_loop.split performs symbols ends with
    ⟨k, few, b, branch, m', next, symbols', goes, truth⟩ | ⟨e, m', symbols', goes, truth⟩
  · obtain rfl : k = steps := by omega
    rw [goes] at ends ⊢
    cases b with
    | false => exact ⟨_, endsAs_pure next symbols' rfl, .loopDone truth⟩
    | true =>
      obtain ⟨first, again, body, loop, round⟩ := next
      rw [round] at ends ⊢
      obtain ⟨out, ended, exec⟩ := ih body (m := m'.count .iteration) symbols'
        fun stuck => ends stuck.bind
      rcases ended.bind fun _ => again with
        ⟨_, m'', symbols'', goes, rfl⟩ | ⟨e, m'', symbols'', goes, rfl⟩
      · rw [goes] at ends ⊢
        obtain ⟨out, ended', exec'⟩ := ih loop symbols'' ends
        exact ⟨out, ended', .loopRound truth exec exec'⟩
      · exact ⟨_, .inr ⟨e, m'', symbols'', goes, rfl⟩, .loopBroken truth exec⟩
  · exact ⟨_, .inr ⟨e, m', symbols', goes, rfl⟩, .loopFault truth⟩

theorem follows (t : Tree) (table : SymbolTable) (steps : Nat) : Follows t table steps := by
  -- an `if` comes to its branches two steps on, so the induction is strong
  induction steps using Nat.strongRecOn with
  | ind steps ih =>
    intro code run m performs symbols ends
    cases steps with
    | zero => exact absurd performs.unfinished ends
    | succ k =>
      cases code with
      | stmt st =>
        exact follows_stmt (fun n le => ih n (Nat.lt_succ_of_le le)) performs symbols ends
      | seq ss => exact follows_seq (ih k (Nat.lt_succ_self k)) performs symbols ends
      | loop cond body => exact follows_loop (ih k (Nat.lt_succ_self k)) performs symbols ends

/-! ### What the rules derive is done -/

/-- With so many steps or more, the code ends as `out` says if it is begun in the state. -/
def Reaches (t : Tree) (table : SymbolTable) (code : Code) (s : State) (out : Outcome Unit)
    (bound : Nat) : Prop :=
  ∀ {steps run m}, bound ≤ steps → Performs t table steps code run → m.env.symbols = table →
    m.view = s → EndsAs table (run m) out

/-- The first `ahead` steps are for what the code does before its parts. -/
theorem exists_reaches_of (ahead bound : Nat)
    (h : ∀ {k run m}, bound ≤ k → Performs t table (k + ahead) code run → m.env.symbols = table →
      m.view = s → EndsAs table (run m) out) : ∃ bound, Reaches t table code s out bound := by
  refine ⟨bound + ahead, fun {steps run m} enough performs symbols seen => ?_⟩
  obtain ⟨k, rfl⟩ : ∃ k, steps = k + ahead := ⟨steps - ahead, by omega⟩
  exact h (by omega) performs symbols seen

section Tests

variable {test : Cond String} {ahead : Nat} {tick : Counters → Counters}
  {next : Bool → Nat → RunM Unit → Prop} {s₁ : State}

/-- Behind a test that comes to an end, the branch decides. -/
theorem Branches.exists_reaches {b : Bool}
    (branches : Branches t table code test ahead tick next)
    (truth : test.truth (s.count tick) = .ok b s₁) (bound : Nat)
    (reaches : ∀ {steps branch m}, bound ≤ steps → next b steps branch → m.env.symbols = table →
      m.view = s₁ → EndsAs table (branch m) out) : ∃ bound, Reaches t table code s out bound := by
  refine exists_reaches_of ahead (test.derivation.size + bound)
    fun {k run m} enough performs symbols seen => ?_
  subst seen
  obtain ⟨x, branch, simulates, goes_on, run_eq⟩ := branches.long performs
  obtain ⟨m', symbols', seen, goes⟩ :=
    simulates.bind_ok (m := m.count tick) symbols (by omega) truth branch
  rw [run_eq, goes]
  exact reaches (by omega) (goes_on b) symbols' seen

theorem Branches.exists_reaches_fault {e : RuntimeError}
    (branches : Branches t table code test ahead tick next)
    (truth : test.truth (s.count tick) = .error e s₁) :
    ∃ bound, Reaches t table code s (.error e s₁) bound := by
  refine exists_reaches_of ahead test.derivation.size
    fun {k run m} enough performs symbols seen => ?_
  subst seen
  obtain ⟨x, branch, simulates, _, run_eq⟩ := branches.long performs
  rw [run_eq]
  exact simulates.bind_error (m := m.count tick) symbols enough truth branch

end Tests

theorem exists_reaches (t : Tree) (table : SymbolTable) (exec : Exec code s out) :
    ∃ bound, Reaches t table code s out bound := by
  -- a bound is found before the machine: the second part of a sequence or a round is begun on
  -- whatever machine the first one leaves, and only its state is known
  induction exec with
  | @assign s target value =>
    refine exists_reaches_of 1 value.derivation.size
      fun {k run m} enough performs symbols seen => ?_
    exact seen ▸ performs.assign m symbols (.inl enough)
  | @read s line ids =>
    refine exists_reaches_of 1 ids.derivation.size fun {k run m} enough performs symbols seen => ?_
    exact seen ▸ performs.read m symbols (.inl enough)
  | @write s line ids =>
    refine exists_reaches_of 1 ids.derivation.size fun {k run m} enough performs symbols seen => ?_
    exact seen ▸ performs.write m symbols (.inl enough)
  | thenBranch truth _ ih =>
    obtain ⟨bound, ih⟩ := ih
    exact branches_ifThen.exists_reaches truth bound ih
  | thenSkipped truth =>
    exact branches_ifThen.exists_reaches truth 0 fun _ skips => endsAs_pure skips
  | thenFault truth => exact branches_ifThen.exists_reaches_fault truth
  | elseFirst truth _ ih | elseSecond truth _ ih =>
    obtain ⟨bound, ih⟩ := ih
    exact branches_ifElse.exists_reaches truth bound ih
  | elseFault truth => exact branches_ifElse.exists_reaches_fault truth
  | whileLoop _ ih =>
    obtain ⟨bound, ih⟩ := ih
    refine exists_reaches_of 1 bound fun {k run m} enough performs symbols seen => ?_
    subst seen
    obtain ⟨rounds, next, run_eq⟩ := performs.whileLoop
    rw [run_eq]
    exact ih enough next symbols rfl
  | loopDone truth =>
    exact branches_loop.exists_reaches truth 0 fun _ done => endsAs_pure done
  | loopFault truth => exact branches_loop.exists_reaches_fault truth
  | loopRound truth _ _ ih ih' =>
    obtain ⟨bound, ih⟩ := ih
    obtain ⟨bound', ih'⟩ := ih'
    refine branches_loop.exists_reaches truth (bound + bound')
      fun {steps branch m} enough round symbols seen => ?_
    obtain ⟨first, again, body, loop, run_eq⟩ := round
    subst seen
    have ended := ih (by omega) body (m := m.count .iteration) symbols rfl
    obtain ⟨m', symbols', seen, goes⟩ := ended.bind_ok fun _ => again
    rw [run_eq, goes]
    exact ih' (by omega) loop symbols' seen
  | loopBroken truth _ ih =>
    obtain ⟨bound, ih⟩ := ih
    refine branches_loop.exists_reaches truth bound
      fun {steps branch m} enough round symbols seen => ?_
    obtain ⟨first, again, body, _, run_eq⟩ := round
    subst seen
    rw [run_eq]
    exact (ih enough body (m := m.count .iteration) symbols rfl).bind_error fun _ => again
  | last _ ih =>
    obtain ⟨bound, ih⟩ := ih
    exact exists_reaches_of 1 bound fun enough performs symbols seen =>
      ih enough performs.last symbols seen
  | cons _ _ ih ih' =>
    obtain ⟨bound, ih⟩ := ih
    obtain ⟨bound', ih'⟩ := ih'
    refine exists_reaches_of 1 (bound + bound')
      fun {k run m} enough performs symbols seen => ?_
    obtain ⟨first, others, next, next', rfl⟩ := performs.cons
    have ended := ih (by omega) next symbols seen
    obtain ⟨m', symbols', seen', goes⟩ := ended.bind_ok fun _ => others
    rw [goes]
    exact ih' (by omega) next' symbols' seen'
  | consFault _ ih =>
    obtain ⟨bound, ih⟩ := ih
    refine exists_reaches_of 1 bound fun {k run m} enough performs symbols seen => ?_
    obtain ⟨first, others, next, _, rfl⟩ := performs.cons
    exact (ih enough next symbols seen).bind_error fun _ => others

/-! ### Whole programs -/

variable {p : Program String} {root : NodeId}

theorem exists_run_eq (rooted : t.root = some root) (held : t.Holds table.name? p.derivation root)
    (steps : Nat) : ∃ run, Performs t table steps (.seq p.stmts) run ∧
      t.run steps = run >>= fun _ => RunM.flush p.line := by
  obtain ⟨i, j, here, _, stmts⟩ := held
  refine ⟨_, .seq stmts, ?_⟩
  simp only [Tree.run, rooted, here.load_eq, RunM.ofExcept_ok_bind, here.line_eq]

/-- A run of a program that comes to an end is one of its runs. -/
theorem exists_runs (rooted : t.root = some root) (held : t.Holds table.name? p.derivation root)
    (symbols : m.env.symbols = table) (ends : ¬ Unfinished (t.run steps m)) :
    ∃ out, EndsAs table (t.run steps m) out ∧ p.Runs m.view out := by
  obtain ⟨run, performs, run_eq⟩ := exists_run_eq rooted held steps
  rw [run_eq] at ends ⊢
  obtain ⟨out, ended, exec⟩ := follows t table steps performs symbols fun stuck => ends stuck.bind
  rcases ended.bind fun _ => RunM.flush p.line with
    ⟨_, m', symbols', goes, rfl⟩ | ⟨e, m', symbols', goes, rfl⟩
  · rw [goes] at ends ⊢
    exact ⟨_, Tree.flush_simulates m' symbols' (.inl trivial), .ended exec⟩
  · exact ⟨_, .inr ⟨e, m', symbols', goes, rfl⟩, .stopped exec⟩

theorem exists_endsAs (rooted : t.root = some root) (held : t.Holds table.name? p.derivation root)
    (symbols : m.env.symbols = table) (runs : p.Runs m.view out) :
    ∃ steps, EndsAs table (t.run steps m) out := by
  cases runs with
  | ended exec =>
    obtain ⟨bound, reaches⟩ := exists_reaches t table exec
    obtain ⟨run, performs, run_eq⟩ := exists_run_eq rooted held bound
    obtain ⟨m', symbols', rfl, goes⟩ := (reaches (Nat.le_refl _) performs symbols rfl).bind_ok
      fun _ => RunM.flush p.line
    refine ⟨bound, ?_⟩
    rw [run_eq, goes]
    exact Tree.flush_simulates m' symbols' (.inl trivial)
  | stopped exec =>
    obtain ⟨bound, reaches⟩ := exists_reaches t table exec
    obtain ⟨run, performs, run_eq⟩ := exists_run_eq rooted held bound
    refine ⟨bound, ?_⟩
    rw [run_eq]
    exact (reaches (Nat.le_refl _) performs symbols rfl).bind_error _

end Runs

namespace Parsed

variable {parsed : Parsed} {steps : Nat} {m m' : Machine}

theorem execute_eq_ok_iff :
    parsed.execute steps m = (.ok (), m') ↔ parsed.tree.run steps m = .ok () m' := by
  unfold execute
  split <;> simp_all

theorem execute_eq_error_iff {stop : Stop RuntimeError} :
    parsed.execute steps m = (.error stop, m') ↔ parsed.tree.run steps m = .error stop m' := by
  unfold execute
  split <;> simp_all

end Parsed

/-- A parsed program is read back from its tree, and running the tree is its meaning: in
whatever state it is begun, a run ends with a result and a final state exactly if the
rules derive them. -/
theorem execute_iff_runs {source : String} {capacity : Nat} {parsed : Parsed}
    (accepted : parse source capacity = .ok parsed) :
    ∃ p, parsed.tree.toProgram parsed.symbols.name? = .ok p ∧
      ∀ m : Machine, m.env.symbols = parsed.symbols → ∀ s : State,
        ((∃ steps m', parsed.execute steps m = (.ok (), m') ∧ m'.view = s) ↔
          p.Runs m.view (.ok () s)) ∧
        ∀ stop, stop ≠ .unfinished →
          ((∃ steps m', parsed.execute steps m = (.error stop, m') ∧ m'.view = s) ↔
            ∃ e, stop = .fault e ∧ p.Runs m.view (.error e s)) := by
  obtain ⟨d, q, derives, fitting, shows⟩ := parse_sound accepted
  obtain ⟨root, rooted, held⟩ := shows.holds fitting.named
  refine ⟨_, shows.toProgram_eq fitting.named,
    fun m symbols s => ⟨⟨?_, ?_⟩, fun stop ended => ⟨?_, ?_⟩⟩⟩
  · rintro ⟨steps, m', run, rfl⟩
    rw [Parsed.execute_eq_ok_iff] at run
    have ends : ¬ Unfinished (parsed.tree.run steps m) := by
      rintro ⟨_, stuck⟩
      cases run.symm.trans stuck
    obtain ⟨out, ended, runs⟩ := exists_runs rooted held symbols ends
    rw [run] at ended
    obtain ⟨_, rfl⟩ := endsAs_ok.1 ended
    exact runs
  · intro runs
    obtain ⟨steps, ended⟩ := exists_endsAs rooted held symbols runs
    obtain ⟨m', _, seen, run⟩ := ended.exists_ok
    exact ⟨steps, m', Parsed.execute_eq_ok_iff.2 run, seen⟩
  · rintro ⟨steps, m', run, rfl⟩
    rw [Parsed.execute_eq_error_iff] at run
    have ends : ¬ Unfinished (parsed.tree.run steps m) := by
      rintro ⟨_, stuck⟩
      cases run.symm.trans stuck
      exact ended rfl
    obtain ⟨out, ended, runs⟩ := exists_runs rooted held symbols ends
    rw [run] at ended
    obtain ⟨e, rfl, _, rfl⟩ := endsAs_error.1 ended
    exact ⟨e, rfl, runs⟩
  · rintro ⟨e, rfl, runs⟩
    obtain ⟨steps, ended⟩ := exists_endsAs rooted held symbols runs
    obtain ⟨m', _, seen, run⟩ := ended.exists_error
    exact ⟨steps, m', Parsed.execute_eq_error_iff.2 run, seen⟩

theorem execute_iff_runs_countdown :
    ∃ parsed p s,
      parse "program int X; begin\nX=2; while (X!=0) loop X=X-1; end; write X;\nread X; end" 1000
        = .ok parsed ∧
      parsed.tree.toProgram parsed.symbols.name? = .ok p ∧
      p.Runs (Machine.start parsed.symbols (.ofBytes [] none) {}).view
        (.error (.inputExhausted 3) s) ∧ s.counters.iterations = 2 := by
  obtain ⟨parsed, accepted, ran⟩ := exists_parsed_such
    "program int X; begin\nX=2; while (X!=0) loop X=X-1; end; write X;\nread X; end" 1000
    (fun parsed =>
      let ran := parsed.execute 60 (.start parsed.symbols (.ofBytes [] none) {})
      ran.1 = .error (.fault (.inputExhausted 3)) ∧ ran.2.counters.iterations = 2)
    (by decide +kernel)
  obtain ⟨stopped, rounds⟩ := of_decide_eq_true ran
  obtain ⟨p, retrieved, meaning⟩ := execute_iff_runs accepted
  obtain ⟨e, same, runs⟩ := ((meaning _ rfl _).2 (.fault (.inputExhausted 3)) (by simp)).1
    ⟨60, _, Prod.ext stopped rfl, rfl⟩
  cases same
  exact ⟨parsed, p, _, accepted, retrieved, runs, rounds⟩

end CoreLang
