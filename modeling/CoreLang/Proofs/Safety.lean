import CoreLang.Proofs.Refinement

/-!
# No program text leads to an internal error

A text that is refused because of its tree is too large or too deep, nothing else
(`parse_tree_error`). A parsed program is printed, and its runs end in a fault of the
program, of its data or of its output, however many of them follow one another: no node
and no name is ever missing. What the rules of `Exec` derive shows which faults there
are, and the runs of a tree follow these rules.
-/

namespace CoreLang

/-! ### Texts that are refused -/

/-- What can be wrong with the tree of a text, at a capacity. -/
def ParseM.IsLimit (capacity : Nat) (t : TreeError) : Prop :=
  t = .capacityExceeded capacity ∨ t = .nestingTooDeep maxNesting

namespace BuildM

/-- At this capacity, a rule blames the tree only for being too large or too deep. -/
def BlamesLimits (capacity : Nat) {α : Type} (rule : BuildM α) : Prop :=
  ∀ s : ParseState TreeBudget, s.budget.tree.capacity = capacity →
    match rule s with
    | .ok _ s' => s'.budget.tree.capacity = capacity
    | .error e _ => ∀ t, e = .tree t → ParseM.IsLimit capacity t

namespace BlamesLimits

variable {capacity : Nat} {α β : Type}

theorem of_quiet {rule : BuildM α} (quiet : Quiet rule) : BlamesLimits capacity rule := by
  intro s room
  have kept := quiet s s.budget
  cases done : rule s with
  | ok a t =>
    rw [done] at kept
    exact (congrArg (·.tree.capacity) kept.1).trans room
  | error e t =>
    rw [done] at kept
    exact fun error blamed => absurd blamed (kept.2.1 error)

theorem bind {x : BuildM α} {f : α → BuildM β} (first : BlamesLimits capacity x)
    (next : ∀ a, BlamesLimits capacity (f a)) : BlamesLimits capacity (x >>= f) := by
  intro s room
  have h := first s room
  simp only [Bind.bind, EStateM.bind]
  cases step : x s with
  | ok a s' =>
    rw [step] at h
    exact next a s' h
  | error e s' =>
    rw [step] at h
    exact h

theorem claim : BlamesLimits capacity claim := by
  rintro s rfl
  by_cases free : s.budget.tree.size + s.budget.reserved < s.budget.tree.capacity
  · rw [claim_of_free free]
  · rw [claim_of_full free]
    rintro t ⟨⟩
    exact .inl rfl

theorem alloc (node : Node) (line : Nat) : BlamesLimits capacity (alloc node line) := by
  rintro s rfl
  by_cases free : s.budget.tree.size < s.budget.tree.capacity ∧ s.budget.tree.size < NodeId.limit
  · rw [alloc_of_free free.1 free.2]
    rfl
  · rw [alloc_of_full free]
    rintro t ⟨⟩
    exact .inl rfl

theorem tooDeep : BlamesLimits capacity (ParseM.tooDeep : BuildM α) := by
  rintro s room t ⟨⟩
  exact .inr rfl

theorem nested {rule : BuildM α} (inside : BlamesLimits capacity rule) :
    BlamesLimits capacity (nested rule) := by
  intro s room
  by_cases shallow : s.depth < ParseM.maxNesting
  · have ended := inside { s with depth := s.depth + 1 } room
    cases done : rule { s with depth := s.depth + 1 } with
    | ok a t =>
      rw [done] at ended
      rw [nested_of_ok shallow done]
      exact ended
    | error e t =>
      rw [done] at ended
      rw [nested_of_error shallow done]
      exact ended
  · rw [nested_of_deep shallow]
    rintro t ⟨⟩
    exact .inr rfl

theorem of_assembly {spare levels opened opened' : Nat} {rule : BuildM α}
    (made : Assembly spare levels opened opened' rule) : BlamesLimits capacity rule := by
  induction made with
  | plain step => exact of_quiet step.quiet
  | claim => exact claim
  | alloc node line => exact alloc node line
  | unexpected expected => exact of_quiet (.unexpected expected)
  | tooDeep => exact tooDeep
  | bind _ _ first next => exact first.bind next
  | call _ inside => exact inside
  | nested _ inside => exact inside.nested
  | repeating _ each => exact fun s => each s.tokenCount s

end BlamesLimits

end BuildM

/-- A text whose tree is refused needs one that is too large or too deep. -/
theorem parse_tree_error {source : String} {capacity : Nat} {t : TreeError}
    (h : parse source capacity = .error (.tree t)) : ParseM.IsLimit capacity t := by
  rcases parse_eq_error h with ⟨fault, -, blamed⟩ | ⟨u, after, begun, stopped⟩
  · exact absurd blamed.symm (ParseError.ofScan_ne_tree fault t)
  · have empty := ParseState.budget_of_startWith begun
    have ended := BuildM.BlamesLimits.of_assembly .program u (by rw [empty])
    rw [stopped] at ended
    exact ended t rfl

/-! ### Faults of runs -/

/-- Faults that no program text should lead to. -/
def RuntimeError.Internal : RuntimeError → Prop
  | .tree _ | .unknownVariable .. => True
  | _ => False

/-- The value is there, or it is missing for a reason that is not internal. -/
def ProperValue {α : Type} : Except RuntimeError α → Prop
  | .ok _ => True
  | .error e => ¬ e.Internal

/-- The end is a result or a fault that is not internal. -/
def ProperEnd {α : Type} : Outcome α → Prop
  | .ok _ _ => True
  | .error e _ => ¬ e.Internal

section Values

variable {α β : Type} {vars : String → Option Int64}

theorem ProperValue.ok (a : α) : ProperValue (.ok a) := trivial

theorem ProperValue.bind {x : Except RuntimeError α} {f : α → Except RuntimeError β}
    (first : ProperValue x) (next : ∀ a, ProperValue (f a)) : ProperValue (x >>= f) := by
  cases x with
  | ok a => exact next a
  | error e => exact first

theorem Operator.apply_proper (op : Operator) (a b : Int64) (line : Nat) :
    ProperValue (op.apply a b line) := by
  unfold apply
  split
  · trivial
  · exact id

mutual

theorem Expr.value_proper : (e : Expr String) → ProperValue (e.value vars)
  | .term u => Term.value_proper u
  | .add u rest => (Term.value_proper u).bind fun a => (Expr.value_proper rest).bind fun b =>
      Operator.apply_proper .add a b u.line
  | .sub u rest => (Term.value_proper u).bind fun a => (Expr.value_proper rest).bind fun b =>
      Operator.apply_proper .sub a b u.line

theorem Term.value_proper : (u : Term String) → ProperValue (u.value vars)
  | .operand o => Operand.value_proper o
  | .mul o rest => (Operand.value_proper o).bind fun a => (Term.value_proper rest).bind fun b =>
      Operator.apply_proper .mul a b o.line

theorem Operand.value_proper : (o : Operand String) → ProperValue (o.value vars)
  | .int _ value => .ok value
  | .ident x => by
    simp only [Operand.value]
    cases vars x.var with
    | some v => trivial
    | none => exact id
  | .paren _ e => Expr.value_proper e

end

end Values

/-- Whatever it is done in, the effect ends properly. -/
def Proper {α : Type} (x : Effect α) : Prop :=
  ∀ s, ProperEnd (x s)

section Effects

variable {α β : Type} {line : Nat}

theorem Proper.not_internal {x : Effect α} {s s' : State} {e : RuntimeError} (h : Proper x)
    (stopped : x s = .error e s') : ¬ e.Internal := by
  have ended := h s
  rw [stopped] at ended
  exact ended

theorem Proper.pure (a : α) : Proper (Pure.pure a) :=
  fun _ => trivial

theorem Proper.modify (f : State → State) : Proper (MonadStateOf.modifyGet fun s => ((), f s)) :=
  fun _ => trivial

theorem Proper.bind {x : Effect α} {f : α → Effect β} (first : Proper x)
    (next : ∀ a, Proper (f a)) : Proper (x >>= f) := by
  intro s
  simp only [Bind.bind, EStateM.bind]
  cases step : x s with
  | ok a s' => exact next a s'
  | error e s' => exact first.not_internal step

theorem Proper.look {value : (String → Option Int64) → Except RuntimeError α}
    (proper : ∀ vars, ProperValue (value vars)) : Proper (CoreLang.look value) := by
  intro s
  have h := proper s.vars
  simp only [CoreLang.look]
  cases found : value s.vars with
  | ok a => trivial
  | error e =>
    rw [found] at h
    exact h

theorem Comparison.truth_proper (c : Comparison String) : Proper c.truth :=
  (Proper.modify _).bind fun _ => .look fun _ =>
    (Operand.value_proper c.left).bind fun a => (Operand.value_proper c.right).bind fun b =>
      .ok (c.op.holds a b)

theorem Cond.truth_proper (c : Cond String) : Proper c.truth := by
  induction c with
  | compare c => exact (Proper.modify _).bind fun _ => c.truth_proper
  | not line c ih => exact (Proper.modify _).bind fun _ => ih.bind fun a => .pure (!a)
  | and line left right ihl ihr =>
    exact (Proper.modify _).bind fun _ => ihl.bind fun a => ihr.bind fun b => .pure (a && b)
  | or line left right ihl ihr =>
    exact (Proper.modify _).bind fun _ => ihl.bind fun a => ihr.bind fun b => .pure (a || b)

theorem forNames_proper {act : String → Effect Unit} (proper : ∀ name, Proper (act name)) :
    (names : List String) → Proper (forNames act names)
  | [] => .pure ()
  | name :: others => (proper name).bind fun _ => forNames_proper proper others

theorem DataStream.next_proper (d : DataStream) (line : Nat) : ProperValue (d.next line).1 := by
  unfold next
  split
  · exact id
  · exact id
  · simp only
    split
    · trivial
    · exact id

theorem readName_proper (name : String) : Proper (readName line name) := by
  intro s
  have h := s.input.next_proper line
  simp only [readName]
  cases told : s.input.next line with
  | mk result input =>
    rw [told] at h
    cases result with
    | ok v => trivial
    | error e => exact h

theorem writeName_proper (name : String) : Proper (writeName line name) := by
  intro s
  simp only [writeName]
  cases s.vars name with
  | none => exact id
  | some v =>
    simp only
    split
    · trivial
    · exact id

theorem flushOutput_proper : Proper (flushOutput line) := by
  intro s
  simp only [flushOutput]
  cases s.sink.flush with
  | ok _ => trivial
  | error reason => exact id

/-- No rule derives an internal fault. -/
theorem Exec.proper {code : Code} {s : State} {out : Outcome Unit} (h : Exec code s out) :
    ProperEnd out := by
  -- a rule passes on the end of a part, or ends as a test or a simple statement does
  induction h with
  | @assign s target value =>
    have assigned : Proper (assignValue target.var value) :=
      (Proper.look fun _ => value.value_proper).bind fun _ => .modify _
    exact assigned _
  | read => exact forNames_proper readName_proper _ _
  | write => exact forNames_proper writeName_proper _ _
  | thenSkipped | loopDone => trivial
  | @thenFault s s₁ line cond body e truth | @elseFault s s₁ line cond body other e truth
  | @loopFault s s₁ cond body e truth =>
    exact cond.truth_proper.not_internal truth
  | thenBranch _ _ ih | elseFirst _ _ ih | elseSecond _ _ ih | whileLoop _ ih | loopBroken _ _ ih
  | last _ ih | consFault _ ih => exact ih
  | loopRound _ _ _ _ ih | cons _ _ _ ih => exact ih

theorem Program.Runs.proper {p : Program String} {s : State} {out : Outcome Unit}
    (h : p.Runs s out) : ProperEnd out := by
  cases h with
  | ended => exact flushOutput_proper _
  | stopped exec => exact exec.proper

end Effects

/-! ### Runs of parsed programs -/

namespace Parsed

/-- The machine is where a run of the program can begin: fresh, or left by a run that
came to an end. -/
inductive Session (p : Parsed) (input : DataStream) (sink : Sink) : Machine → Prop where
  | fresh : Session p input sink (.start p.symbols input sink)
  | again {m m' steps result} : Session p input sink m → p.execute steps m = (result, m') →
    result ≠ .error .unfinished → Session p input sink m'

variable {parsed : Parsed} {source : String} {capacity : Nat} {m m' : Machine}

/-- A run of a parsed program keeps its variables and ends properly, if it ends. -/
theorem execute_proper (accepted : parse source capacity = .ok parsed)
    (symbols : m.env.symbols = parsed.symbols) {steps : Nat}
    {result : Except (Stop RuntimeError) Unit} (run : parsed.execute steps m = (result, m')) :
    result = .error .unfinished ∨ m'.env.symbols = parsed.symbols ∧
      (result = .ok () ∨ ∃ e, result = .error (.fault e) ∧ ¬ e.Internal) := by
  obtain ⟨d, q, derives, fitting, shows⟩ := parse_sound accepted
  obtain ⟨root, rooted, held⟩ := shows.holds fitting.named
  by_cases stuck : Unfinished (parsed.tree.run steps m)
  · obtain ⟨m'', stuck⟩ := stuck
    rw [execute, stuck] at run
    cases run
    exact .inl rfl
  · obtain ⟨out, ended, runs⟩ := exists_runs rooted held symbols stuck
    right
    rcases ended with ⟨_, m'', symbols', ran, rfl⟩ | ⟨e, m'', symbols', ran, rfl⟩
    · rw [execute, ran] at run
      cases run
      exact ⟨symbols', .inl rfl⟩
    · rw [execute, ran] at run
      cases run
      exact ⟨symbols', .inr ⟨e, rfl, runs.proper⟩⟩

/-- A run of a parsed program that does not end well is cut off or properly at fault. -/
theorem run_error (accepted : parse source capacity = .ok parsed) {steps : Nat}
    {stop : Stop RuntimeError} (symbols : m.env.symbols = parsed.symbols)
    (run : parsed.tree.run steps m = .error stop m') :
    stop = .unfinished ∨ ∃ e, stop = .fault e ∧ ¬ e.Internal := by
  have run : parsed.execute steps m = (.error stop, m') := by rw [execute, run]
  rcases execute_proper accepted symbols run with cut | ⟨-, done | ⟨e, failed, proper⟩⟩
  · cases cut
    exact .inl rfl
  · cases done
  · cases failed
    exact .inr ⟨e, rfl, proper⟩

theorem Session.symbols_eq {input : DataStream} {sink : Sink}
    (accepted : parse source capacity = .ok parsed) (h : parsed.Session input sink m) :
    m.env.symbols = parsed.symbols := by
  induction h with
  | fresh => rfl
  | again _ run ended ih =>
    rcases execute_proper accepted ih run with stuck | ⟨symbols, _⟩
    · exact absurd stuck ended
    · exact symbols

theorem runOnce_exitCode (accepted : parse source capacity = .ok parsed) {steps : Nat}
    {input : DataStream} {sink sink' : Sink} {stop : Stop Error}
    (h : parsed.runOnce steps input sink = (.error stop, sink')) (ended : stop ≠ .unfinished) :
    ∃ e, stop = .fault e ∧ e.exitCode ≠ 70 := by
  unfold runOnce at h
  cases run : parsed.execute steps (.start parsed.symbols input sink) with
  | mk result m =>
    rw [run] at h
    rcases execute_proper accepted rfl run with rfl | ⟨_, rfl | ⟨e, rfl, proper⟩⟩
    · cases h
      exact absurd rfl ended
    · cases h
    · cases h
      refine ⟨.runtime e, rfl, ?_⟩
      cases e with
      | tree t => exact absurd trivial proper
      | _ => nofun

/-- The session of a parsed program never ends with the code of an internal error. -/
theorem perform_exitCode (accepted : parse source capacity = .ok parsed) {print : Bool}
    {steps : Nat} {input : DataStream} {sink sink' : Sink} {stop : Stop Error}
    (h : parsed.perform print steps input sink = (.error stop, sink'))
    (ended : stop ≠ .unfinished) : ∃ e, stop = .fault e ∧ e.exitCode ≠ 70 := by
  cases print with
  | false => exact runOnce_exitCode accepted h ended
  | true =>
    obtain ⟨d, q, derives, fitting, shows⟩ := parse_sound accepted
    simp only [perform, if_true, shows.render_eq fitting.named] at h
    split at h
    · next reason _ _ =>
      cases h
      exact ⟨.output reason, rfl, nofun⟩
    · exact runOnce_exitCode accepted h ended

end Parsed

/-- A parsed program is printed, and its runs, one after the other on one machine, end
with a result or with a fault of the program, its data or its output: never with a
missing name or node, a fault of the tree or an unknown variable. So a session ends with
the code of an internal error exactly if the text needs a tree that is too large or too
deep. -/
theorem no_internal_fault (source : String) (capacity : Nat) :
    (∀ parsed, parse source capacity = .ok parsed →
      (∃ text, parsed.tree.render parsed.symbols = .ok text) ∧
      ∀ input sink m, parsed.Session input sink m → ∀ steps result m',
        parsed.execute steps m = (result, m') → result ≠ .error .unfinished →
        result = .ok () ∨ ∃ e, result = .error (.fault e) ∧ (∀ t, e ≠ .tree t) ∧
          ∀ name line, e ≠ .unknownVariable name line) ∧
    ∀ print steps input sink stop sink',
      interpret source { maxNodes := capacity, print := print } steps input sink =
        (.error stop, sink') → stop ≠ .unfinished →
      ∃ e, stop = .fault e ∧ (e.exitCode = 70 ↔
        parse source capacity = .error (.tree (.capacityExceeded capacity)) ∨
        parse source capacity = .error (.tree (.nestingTooDeep ParseM.maxNesting))) := by
  refine ⟨fun parsed accepted => ⟨?_, ?_⟩, ?_⟩
  · obtain ⟨d, q, derives, fitting, shows⟩ := parse_sound accepted
    exact ⟨_, shows.render_eq fitting.named⟩
  · intro input sink m session steps result m' run ended
    rcases Parsed.execute_proper accepted (session.symbols_eq accepted) run with
      stuck | ⟨_, done | ⟨e, failed, proper⟩⟩
    · exact absurd stuck ended
    · exact .inl done
    · refine .inr ⟨e, failed, ?_, ?_⟩
      · rintro t rfl
        exact proper trivial
      · rintro name line rfl
        exact proper trivial
  · intro print steps input sink stop sink' h ended
    unfold interpret at h
    cases read : parse source capacity with
    | ok parsed =>
      simp only [read] at h
      obtain ⟨e, rfl, code⟩ := Parsed.perform_exitCode read h ended
      exact ⟨e, rfl, by simp [code]⟩
    | error error =>
      simp only [read, Prod.mk.injEq, Except.error.injEq] at h
      obtain ⟨rfl, rfl⟩ := h
      refine ⟨.parse error, rfl, ?_⟩
      cases error with
      | tree t =>
        rcases parse_tree_error read with rfl | rfl
        · simp [Error.exitCode]
        · simp [Error.exitCode]
      | _ => simp [Error.exitCode]

theorem no_internal_fault_echo :
    (∃ parsed text m m', parse "program int X; begin read X; write X; end" 1000 = .ok parsed ∧
      parsed.tree.render parsed.symbols = .ok text ∧
      parsed.Session (.ofBytes [0x35] none) {} m ∧
      parsed.execute 40 m = (.error (.fault (.inputExhausted 1)), m') ∧
      ∀ t, RuntimeError.inputExhausted 1 ≠ .tree t) ∧
    ∃ e, interpret "program int X; begin read X; write X; end" { maxNodes := 3, print := true } 40
        (.ofBytes [0x35] none) {} = (.error (.fault e), {}) ∧ e.exitCode = 70 ∧
      (parse "program int X; begin read X; write X; end" 3 =
          .error (.tree (.capacityExceeded 3)) ∨
        parse "program int X; begin read X; write X; end" 3 =
          .error (.tree (.nestingTooDeep ParseM.maxNesting))) := by
  constructor
  · obtain ⟨parsed, accepted, ran⟩ := exists_parsed_such
      "program int X; begin read X; write X; end" 1000
      (fun parsed =>
        let first := parsed.execute 40 (.start parsed.symbols (.ofBytes [0x35] none) {})
        first.1 = .ok () ∧ (parsed.execute 40 first.2).1 = .error (.fault (.inputExhausted 1)))
      (by decide +kernel)
    obtain ⟨first, second⟩ := of_decide_eq_true ran
    obtain ⟨⟨text, rendered⟩, runs⟩ :=
      (no_internal_fault "program int X; begin read X; write X; end" 1000).1 parsed accepted
    have session := Parsed.Session.fresh.again (Prod.ext first rfl) (by simp)
    refine ⟨parsed, text, _, _, accepted, rendered, session, Prod.ext second rfl, ?_⟩
    rcases runs _ _ _ session 40 _ _ (Prod.ext second rfl) (by simp) with
      done | ⟨e, failed, proper, _⟩
    · cases done
    · cases failed
      exact proper
  · have stopped : interpret "program int X; begin read X; write X; end"
        { maxNodes := 3, print := true } 40 (.ofBytes [0x35] none) {} =
        (.error (.fault (.parse (.tree (.capacityExceeded 3)))), {}) := by decide +kernel
    obtain ⟨e, same, code⟩ := (no_internal_fault "program int X; begin read X; write X; end" 3).2
      true 40 _ _ _ _ stopped (by simp)
    cases same
    exact ⟨_, stopped, rfl, code.1 rfl⟩

end CoreLang
