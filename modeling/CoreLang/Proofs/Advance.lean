import CoreLang.Program.Nesting
import CoreLang.Proofs.BoundedOutput
import CoreLang.Proofs.DataTokens
import CoreLang.Proofs.Refinement

/-!
# Runs only move forward

`State.Advances` is what lies between the state in which something is begun and the one in
which it ends or fails. Only variables that a statement gives values to have changed, and
none was lost; whole lines were added to the output, each for a variable that a statement
shows, cut off only where there was no more room; the counters have not gone back, and
tokens were taken from the front of the data only.

The relation can be put together, and every change that is made to a state on its own is an
instance of it. So it holds between the two ends of whatever the rules derive
(`Exec.advances`).
-/

namespace CoreLang

/-- The variables that a statement itself gives values to, not counting what is inside. -/
def Stmt.targets : Stmt String → List String
  | .assign target _ => [target.var]
  | .read _ ids => ids.names
  | .write .. | .ifThen .. | .ifElse .. | .whileLoop .. => []

/-- The variables that a statement itself shows. -/
def Stmt.shown : Stmt String → List String
  | .write _ ids => ids.names
  | .assign .. | .read .. | .ifThen .. | .ifElse .. | .whileLoop .. => []

/-- The bytes of some lines, each with the name and the value of a variable. -/
def shownLines (lines : List (String × Int64)) : List UInt8 :=
  lines.flatMap fun line =>
    Text.Utf8.encode (line.1 ++ " = " ++ Number.text line.2 ++ "\n")

theorem shownLines_append (lines lines' : List (String × Int64)) :
    shownLines (lines ++ lines') = shownLines lines ++ shownLines lines' :=
  List.flatMap_append

namespace Sink

/-- What a write leaves: as much as there was room for, and so much less room. -/
theorem snd_write (sink : Sink) (bytes : List UInt8) :
    (sink.write bytes).2 =
      { sink.plus (bytes.take (sink.room.getD bytes.length)) with
        room := sink.room.map (· - bytes.length) } := by
  cases limit : sink.room with
  | none => simp [write, limit, plus]
  | some room => by_cases fits : bytes.length ≤ room <;> simp [write, limit, fits, plus]

theorem write_nil (sink : Sink) : sink.write [] = (.ok (), sink) := by
  obtain ⟨written, room, flushFails, refusal⟩ := sink
  cases room <;> simp [write]

/-- All is taken if and only if there is room for it. -/
theorem fst_write_eq_ok_iff {sink : Sink} {bytes : List UInt8} :
    (sink.write bytes).1 = .ok () ↔ ∀ room, sink.room = some room → bytes.length ≤ room := by
  cases limit : sink.room with
  | none => simp [write, limit]
  | some room => by_cases fits : bytes.length ≤ room <;> simp [write, limit, fits]

/-- Writing twice is writing once, refused or not. -/
theorem write_write (sink : Sink) (bytes bytes' : List UInt8) :
    ((sink.write bytes).2.write bytes').2 = (sink.write (bytes ++ bytes')).2 := by
  simp only [snd_write]
  cases limit : sink.room with
  | none =>
    have joined := congrArg written (sink.plus_plus bytes bytes')
    simp only [plus] at joined
    simp only [plus, limit, Option.map_none, Option.getD_none, List.take_length, joined]
  | some room =>
    have joined := congrArg written
      (sink.plus_plus (bytes.take room) (bytes'.take (room - bytes.length)))
    have less : room - bytes.length - bytes'.length = room - (bytes.length + bytes'.length) := by
      omega
    simp only [plus] at joined
    simp only [plus, limit, Option.map_some, Option.getD_some, List.take_append,
      List.length_append, joined, less]

theorem take_of_fst_write {sink : Sink} {bytes : List UInt8}
    (taken : (sink.write bytes).1 = .ok ()) :
    bytes.take (sink.room.getD bytes.length) = bytes := by
  rw [fst_write_eq_ok_iff] at taken
  apply List.take_of_length_le
  cases limit : sink.room with
  | none => exact Nat.le_refl _
  | some room => exact taken room limit

/-- What is taken piece by piece is taken as a whole. -/
theorem fst_write_append {sink : Sink} {bytes bytes' : List UInt8}
    (taken : (sink.write bytes).1 = .ok ())
    (taken' : ((sink.write bytes).2.write bytes').1 = .ok ()) :
    (sink.write (bytes ++ bytes')).1 = .ok () := by
  rw [fst_write_eq_ok_iff] at taken taken' ⊢
  intro room limit
  have first := taken room limit
  have second := taken' (room - bytes.length) (by rw [snd_write, limit, Option.map_some])
  rw [List.length_append]
  omega

end Sink

/-- Each counter is at least as large. -/
structure Counters.Below (c c' : Counters) : Prop where
  statements : c.statements ≤ c'.statements
  conditions : c.conditions ≤ c'.conditions
  comparisons : c.comparisons ≤ c'.comparisons
  iterations : c.iterations ≤ c'.iterations

namespace Counters

theorem below_statement (c : Counters) : c.Below c.statement := by
  constructor <;> simp [statement]

theorem below_condition (c : Counters) : c.Below c.condition := by
  constructor <;> simp [condition]

theorem below_comparison (c : Counters) : c.Below c.comparison := by
  constructor <;> simp [comparison]

theorem below_iteration (c : Counters) : c.Below c.iteration := by
  constructor <;> simp [iteration]

end Counters

/-- What is done by code with these statements in it can lead from one state to the other. All
of its output was taken, unless it ended because something was `refused`. -/
structure State.Advances (stmts : List (Stmt String)) (refused : Prop) (s s' : State) : Prop where
  untouched : ∀ {x}, (∀ st ∈ stmts, x ∉ st.targets) → s'.vars x = s.vars x
  kept : ∀ {x}, s.vars x ≠ none → s'.vars x ≠ none
  output : ∃ lines, (∀ line ∈ lines, ∃ st ∈ stmts, line.1 ∈ st.shown) ∧
    s'.sink = (s.sink.write (shownLines lines)).2 ∧
      ((s.sink.write (shownLines lines)).1 = .ok () ∨ refused)
  counters : s.counters.Below s'.counters
  input : s'.input.tokens <:+ s.input.tokens

namespace Outcome

variable {α : Type}

/-- The state in which something ends. -/
def state : Outcome α → State
  | .ok _ s => s
  | .error _ s => s

/-- It ended because the data or the output failed. -/
def Refused : Outcome α → Prop
  | .ok .. => False
  | .error e _ => ∃ reason line, e = .io reason line

end Outcome

section Advance

variable {stmts : List (Stmt String)} {refused : Prop} {s s' s'' : State} {α β : Type} {line : Nat}

namespace State.Advances

theorem refl (s : State) : s.Advances stmts refused s where
  untouched _ := rfl
  kept := id
  output := by
    refine ⟨[], by simp, ?_, .inl ?_⟩
    · exact (congrArg Prod.snd s.sink.write_nil).symm
    · exact congrArg Prod.fst s.sink.write_nil
  counters := ⟨Nat.le_refl _, Nat.le_refl _, Nat.le_refl _, Nat.le_refl _⟩
  input := List.suffix_refl _

theorem trans (first : s.Advances stmts False s') (next : s'.Advances stmts refused s'') :
    s.Advances stmts refused s'' where
  untouched apart := (next.untouched apart).trans (first.untouched apart)
  kept has := next.kept (first.kept has)
  output := by
    obtain ⟨lines, named, wrote, taken⟩ := first.output
    obtain ⟨lines', named', wrote', taken'⟩ := next.output
    have taken := taken.resolve_right id
    refine ⟨lines ++ lines', ?_, ?_, ?_⟩
    · intro line among
      rcases List.mem_append.1 among with among | among
      · exact named line among
      · exact named' line among
    · rw [wrote', wrote, Sink.write_write, shownLines_append]
    · rw [wrote] at taken'
      rw [shownLines_append]
      exact taken'.imp_left (Sink.fst_write_append taken)
  counters :=
    have a := first.counters
    have b := next.counters
    ⟨a.statements.trans b.statements, a.conditions.trans b.conditions,
      a.comparisons.trans b.comparisons, a.iterations.trans b.iterations⟩
  input := next.input.trans first.input

theorem count (s : State) {f : Counters → Counters} (more : ∀ c : Counters, c.Below (f c)) :
    s.Advances stmts refused (s.count f) :=
  { refl s with counters := more s.counters }

theorem store (s : State) {st : Stmt String} (among : st ∈ stmts) {name : String}
    (target : name ∈ st.targets) (value : Int64) :
    s.Advances stmts refused (s.store name value) where
  __ := refl s
  untouched {x} apart := by
    have other : x ≠ name := by
      rintro rfl
      exact apart st among target
    simp only [State.store, if_neg other]
  kept {x} has := by
    by_cases same : x = name
    · simp [State.store, same]
    · simpa only [State.store, if_neg same] using has

/-- Taking a token, be it a value or not. -/
theorem read (s : State) (line : Nat) :
    s.Advances stmts refused { s with input := (s.input.next line).2 } where
  __ := refl s
  input := by
    obtain ⟨d, asked, left, -⟩ := s.input.next_eq line
    simp only [asked, left]
    exact List.tail_suffix _

/-- Showing a variable, even if the line is cut off. -/
theorem write (s : State) {st : Stmt String} (among : st ∈ stmts) {name : String}
    (shown : name ∈ st.shown) {value : Int64} {result : Except String Unit} {sink : Sink}
    (told : s.sink.writeText (name ++ " = " ++ Number.text value ++ "\n") = (result, sink))
    (taken : result = .ok () ∨ refused) :
    s.Advances stmts refused { s with sink := sink } where
  __ := (refl s : s.Advances stmts refused s)
  output := by
    have wrote : s.sink.write (shownLines [(name, value)]) = (result, sink) := by
      simpa [shownLines, Sink.writeText] using told
    refine ⟨[(name, value)], ?_, ?_, ?_⟩
    · intro line only
      cases List.mem_singleton.1 only
      exact ⟨st, among, shown⟩
    · rw [wrote]
    · rwa [wrote]

end State.Advances

/-! ### Effects -/

/-- Wherever it is begun, the effect leads onward. -/
def Onward (stmts : List (Stmt String)) (x : Effect α) : Prop :=
  ∀ s : State, s.Advances stmts (Outcome.Refused (x s)) (Outcome.state (x s))

namespace Onward

theorem advances {x : Effect α} (h : Onward stmts x) {out : Outcome α} (step : x s = out) :
    s.Advances stmts (Outcome.Refused out) (Outcome.state out) :=
  step ▸ h s

theorem pure (a : α) : Onward stmts (Pure.pure a) :=
  fun s => .refl s

theorem bind {x : Effect α} {f : α → Effect β} (first : Onward stmts x)
    (next : ∀ a, Onward stmts (f a)) : Onward stmts (x >>= f) := by
  intro s
  have began := first s
  simp only [Bind.bind, EStateM.bind]
  cases step : x s with
  | ok a s' =>
    rw [step] at began
    exact began.trans (next a s')
  | error e s' =>
    rw [step] at began
    exact began

theorem look (value : (String → Option Int64) → Except RuntimeError α) :
    Onward stmts (CoreLang.look value) := by
  intro s
  simp only [CoreLang.look]
  cases value s.vars <;> exact .refl s

theorem count {f : Counters → Counters} (more : ∀ c : Counters, c.Below (f c)) :
    Onward stmts (modify (·.count f) : Effect Unit) :=
  fun s => .count s more

end Onward

theorem Comparison.truth_onward (c : Comparison String) : Onward stmts c.truth :=
  (Onward.count Counters.below_comparison).bind fun _ => .look _

/-- A test changes counters only. -/
theorem Cond.truth_onward (c : Cond String) : Onward stmts c.truth := by
  induction c with
  | compare c => exact (Onward.count Counters.below_condition).bind fun _ => c.truth_onward
  | not line c ih =>
    exact (Onward.count Counters.below_condition).bind fun _ => ih.bind fun a => .pure (!a)
  | and line left right ihl ihr =>
    exact (Onward.count Counters.below_condition).bind fun _ =>
      ihl.bind fun a => ihr.bind fun b => .pure (a && b)
  | or line left right ihl ihr =>
    exact (Onward.count Counters.below_condition).bind fun _ =>
      ihl.bind fun a => ihr.bind fun b => .pure (a || b)

theorem forNames_onward {act : String → Effect Unit} {names : List String}
    (onward : ∀ name ∈ names, Onward stmts (act name)) : Onward stmts (forNames act names) := by
  induction names with
  | nil => exact .pure ()
  | cons name others ih =>
    exact (onward name List.mem_cons_self).bind fun _ =>
      ih fun name among => onward name (List.mem_cons_of_mem _ among)

section Statement

variable {st : Stmt String} (among : st ∈ stmts) {name : String}
include among

theorem assignValue_onward (target : name ∈ st.targets) (value : Expr String) :
    Onward stmts (assignValue name value) :=
  (Onward.look _).bind fun v s => .store s among target v

/-- The token is gone even if it is no value. -/
theorem readName_onward (target : name ∈ st.targets) : Onward stmts (readName line name) := by
  intro s
  have taken {refused : Prop} :
      s.Advances stmts refused { s with input := (s.input.next line).2 } := .read s line
  simp only [readName]
  cases told : s.input.next line with
  | mk result input =>
    rw [told] at taken
    cases result with
    | ok v => exact taken.trans (.store _ among target v)
    | error e => exact taken

/-- A line that is cut off is still one of those shown. -/
theorem writeName_onward (shown : name ∈ st.shown) : Onward stmts (writeName line name) := by
  intro s
  simp only [writeName]
  cases s.vars name with
  | none => exact .refl s
  | some v =>
    dsimp only
    cases told : s.sink.writeText (name ++ " = " ++ Number.text v ++ "\n") with
    | mk result sink =>
      cases result with
      | ok _ => exact .write s among shown told (.inl rfl)
      | error reason => exact .write s among shown told (.inr ⟨reason, line, rfl⟩)

end Statement

theorem flushOutput_onward : Onward stmts (flushOutput line) := by
  intro s
  simp only [flushOutput]
  cases s.sink.flush <;> exact .refl s

/-! ### Statements and programs -/

/-- The statements in a piece of code. -/
def Code.within : Code → List (Stmt String)
  | .stmt s => s.within
  | .seq ss => ss.within
  | .loop _ body => body.within

/-- Whatever the rules derive leads onward, ended or failed. -/
theorem Exec.advances {code : Code} {out : Outcome Unit} (h : Exec code s out)
    (within : code.within ⊆ stmts) :
    s.Advances stmts (Outcome.Refused out) (Outcome.state out) := by
  have begun (s : State) : s.Advances stmts False (s.count .statement) :=
    .count s Counters.below_statement
  -- a rule is a chain of tests, parts and simple statements, each of which leads onward
  induction h with
  | @assign s target value =>
    have among := within (Stmt.mem_within _)
    exact (begun s).trans (assignValue_onward among List.mem_cons_self value _)
  | @read s line ids =>
    have among := within (Stmt.mem_within _)
    exact (begun s).trans (forNames_onward (fun _ => readName_onward among) _)
  | @write s line ids =>
    have among := within (Stmt.mem_within _)
    exact (begun s).trans (forNames_onward (fun _ => writeName_onward among) _)
  | @thenBranch s s₁ line cond body out truth _ ih =>
    rw [Code.within, Stmt.within_ifThen] at within
    have tested := (begun s).trans (cond.truth_onward.advances truth)
    exact tested.trans (ih (List.subset_of_cons_subset within))
  | @thenSkipped s s₁ line cond body truth | @thenFault s s₁ line cond body e truth
  | @elseFault s s₁ line cond body other e truth =>
    exact (begun s).trans (cond.truth_onward.advances truth)
  | @elseFirst s s₁ line cond body other out truth _ ih =>
    rw [Code.within, Stmt.within_ifElse] at within
    have tested := (begun s).trans (cond.truth_onward.advances truth)
    exact tested.trans (ih (List.append_subset.1 (List.subset_of_cons_subset within)).1)
  | @elseSecond s s₁ line cond body other out truth _ ih =>
    rw [Code.within, Stmt.within_ifElse] at within
    have tested := (begun s).trans (cond.truth_onward.advances truth)
    exact tested.trans (ih (List.append_subset.1 (List.subset_of_cons_subset within)).2)
  | @whileLoop s line cond body out _ ih =>
    rw [Code.within, Stmt.within_whileLoop] at within
    exact (begun s).trans (ih (List.subset_of_cons_subset within))
  | @loopDone s s₁ cond body truth | @loopFault s s₁ cond body e truth =>
    exact cond.truth_onward.advances truth
  | @loopRound s s₁ s₂ cond body out truth _ _ ih ih' =>
    have tested : s.Advances stmts False s₁ := cond.truth_onward.advances truth
    have counted : s.Advances stmts False (s₁.count .iteration) :=
      tested.trans (.count s₁ Counters.below_iteration)
    exact (counted.trans (ih within)).trans (ih' within)
  | @loopBroken s s₁ s₂ cond body e truth _ ih =>
    have tested : s.Advances stmts False s₁ := cond.truth_onward.advances truth
    have counted : s.Advances stmts False (s₁.count .iteration) :=
      tested.trans (.count s₁ Counters.below_iteration)
    exact counted.trans (ih within)
  | last _ ih =>
    rw [Code.within, StmtSeq.within_last] at within
    exact ih within
  | cons _ _ ih ih' =>
    rw [Code.within, StmtSeq.within_cons, List.append_subset] at within
    exact (ih within.1).trans (ih' within.2)
  | consFault _ ih =>
    rw [Code.within, StmtSeq.within_cons, List.append_subset] at within
    exact ih within.1

theorem Program.Runs.advances {p : Program String} {out : Outcome Unit} (h : p.Runs s out) :
    s.Advances p.stmts.within (Outcome.Refused out) (Outcome.state out) := by
  cases h with
  | ended exec => exact (exec.advances (List.Subset.refl _)).trans (flushOutput_onward _)
  | stopped exec => exact exec.advances (List.Subset.refl _)

end Advance

/-- A run leaves the state that its outcome tells, and says so if something was refused. -/
theorem EndsAs.of_execute {parsed : Parsed} {table : SymbolTable} {steps : Nat} {m m' : Machine}
    {result : Except (Stop RuntimeError) Unit} {out : Outcome Unit}
    (ended : EndsAs table (parsed.tree.run steps m) out)
    (run : parsed.execute steps m = (result, m')) :
    Outcome.state out = m'.view ∧
      (Outcome.Refused out → ∃ reason line, result = .error (.fault (.io reason line))) := by
  rcases ended with ⟨_, left, -, ran, rfl⟩ | ⟨e, left, -, ran, rfl⟩
  · rw [Parsed.execute, ran] at run
    cases run
    exact ⟨rfl, False.elim⟩
  · rw [Parsed.execute, ran] at run
    cases run
    refine ⟨rfl, ?_⟩
    rintro ⟨reason, line, rfl⟩
    exact ⟨reason, line, rfl⟩

/-- A run of a parsed program that ends, well or not, from whatever state, has changed only
variables that an assignment or a `read` of the program names, and left none without a value
that had one. It has added whole lines to the output, each for a variable that a `write`
names; only if it was refused something, a sink with too little room has just the beginning
of them. No counter has gone back, and the data still ahead is the end of what was ahead
before. -/
theorem execute_advances {source : String} {capacity : Nat} {parsed : Parsed}
    (accepted : parse source capacity = .ok parsed) :
    ∃ p, parsed.tree.toProgram parsed.symbols.name? = .ok p ∧
      ∀ {steps : Nat} {m m' : Machine} {result : Except (Stop RuntimeError) Unit},
        m.env.symbols = parsed.symbols → parsed.execute steps m = (result, m') →
        result ≠ .error .unfinished →
        (∀ x, (∀ st ∈ p.stmts.within, x ∉ st.targets) →
          m'.env.getByName? x = m.env.getByName? x) ∧
        (∀ x, m.env.getByName? x ≠ none → m'.env.getByName? x ≠ none) ∧
        (∃ lines : List (String × Int64),
          (∀ line ∈ lines, ∃ st ∈ p.stmts.within, line.1 ∈ st.shown) ∧
          m'.sink.written.toList = m.sink.written.toList ++
            (shownLines lines).take (m.sink.room.getD (shownLines lines).length) ∧
          (m.sink.room = none ∨ (∀ reason line, result ≠ .error (.fault (.io reason line))) →
            m'.sink.written.toList = m.sink.written.toList ++ shownLines lines)) ∧
        m.counters.Below m'.counters ∧
        m'.input.tokens <:+ m.input.tokens := by
  obtain ⟨d, q, derives, fitting, shows⟩ := parse_sound accepted
  obtain ⟨root, rooted, held⟩ := shows.holds fitting.named
  refine ⟨_, shows.toProgram_eq fitting.named, fun {steps m m' result} symbols run ends => ?_⟩
  have ended : ¬ Unfinished (parsed.tree.run steps m) := by
    rintro ⟨m'', stuck⟩
    rw [Parsed.execute, stuck] at run
    cases run
    exact ends rfl
  obtain ⟨out, ended, runs⟩ := exists_runs rooted held symbols ended
  obtain ⟨left, told⟩ := ended.of_execute run
  have advanced := runs.advances
  rw [left] at advanced
  obtain ⟨lines, named, wrote, taken⟩ := advanced.output
  have written := congrArg (·.written.toList) wrote
  rw [Sink.toList_written_write] at written
  refine ⟨fun x => advanced.untouched, fun x => advanced.kept, ⟨lines, named, written, ?_⟩,
    advanced.counters, advanced.input⟩
  intro accepting
  have all : (m.view.sink.write (shownLines lines)).1 = .ok () := by
    rcases accepting with unlimited | unrefused
    · rw [Sink.fst_write_eq_ok_iff]
      intro room limit
      cases unlimited.symm.trans limit
    · refine taken.resolve_right fun refused => ?_
      obtain ⟨reason, line, failed⟩ := told refused
      exact unrefused reason line failed
  rwa [Sink.take_of_fst_write all] at written

/-- The `read` fails on its second variable: the first one is stored and the token is gone.
The variable that is only shown stays without a value. -/
theorem execute_advances_past_failure :
    ∃ parsed p m m' lines, parse
        "program int A, B, C, D; begin A = 1; write A; read B, D; write C; end" 60 = .ok parsed ∧
      parsed.tree.toProgram parsed.symbols.name? = .ok p ∧
      parsed.execute 60 m = (.error (.fault (.inputNotInteger "x" 1)), m') ∧
      m'.env.getByName? "B" = some 7 ∧ m'.env.getByName? "C" = m.env.getByName? "C" ∧
      m'.sink.written.toList = m.sink.written.toList ++ shownLines lines ∧
      m'.input.tokens <:+ m.input.tokens := by
  let start (parsed : Parsed) : Machine :=
    .start parsed.symbols (.ofBytes (Text.Utf8.encode "7 x 9") none) {}
  obtain ⟨parsed, accepted, ran⟩ := exists_parsed_such
    "program int A, B, C, D; begin A = 1; write A; read B, D; write C; end" 60
    (fun parsed =>
      let ran := parsed.execute 60 (start parsed)
      ran.1 = .error (.fault (.inputNotInteger "x" 1)) ∧ ran.2.env.getByName? "B" = some 7 ∧
        ((parsed.tree.toProgram parsed.symbols.name?).toOption.all fun p =>
          p.stmts.within.all fun st => "C" ∉ st.targets) = true)
    (by decide +kernel)
  obtain ⟨stopped, stored, apart⟩ := of_decide_eq_true ran
  obtain ⟨p, retrieved, advances⟩ := execute_advances accepted
  have apart : ∀ st ∈ p.stmts.within, "C" ∉ st.targets := by
    rw [retrieved] at apart
    simpa [Except.toOption] using apart
  have run : parsed.execute 60 (start parsed) =
      (.error (.fault (.inputNotInteger "x" 1)), (parsed.execute 60 (start parsed)).2) :=
    Prod.ext stopped rfl
  obtain ⟨untouched, -, ⟨lines, -, -, wrote⟩, -, taken⟩ := advances rfl run (by simp)
  exact ⟨parsed, p, start parsed, _, lines, accepted, retrieved, run, stored,
    untouched "C" apart, wrote (.inr (by simp)), taken⟩

end CoreLang
