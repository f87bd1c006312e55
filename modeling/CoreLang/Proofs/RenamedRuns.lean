import CoreLang.Proofs.Acceptance
import CoreLang.Proofs.DataTokens
import CoreLang.Proofs.Simulation

/-!
# Runs under other names

A tree knows its variables as symbols. Their names come from a table, and only three things
are done with them: a `read` looks up the variable of a name, a `write` looks it up and shows
the name, and a fault tells the name of a variable without a value. So two runs of a tree,
each with a table of its own, stay in parallel (`Renaming.run_parallel`): the variables have
the same values under the same symbols, and what was shown is told by one list of symbols and
values, read in either table.
-/

namespace CoreLang

namespace SymbolTable

variable {t : SymbolTable} {symbol : Symbol}

theorem name?_eq_spell (known : symbol.index < t.size) : t.name? symbol = some (t.spell symbol) := by
  have found : t.name? symbol = some _ := List.getElem?_eq_getElem known
  rw [spell, found, Option.getD_some]

theorem name?_eq_none (unknown : ¬ symbol.index < t.size) : t.name? symbol = none :=
  List.getElem?_eq_none (Nat.le_of_not_lt unknown)

/-- The lines that show variables with their values. -/
def report (t : SymbolTable) (shown : List (Symbol × Int64)) : List UInt8 :=
  shown.flatMap fun (symbol, v) => Text.Utf8.encode (Tree.bindingLine (t.spell symbol) v)

end SymbolTable

namespace Sink

/-- The sink after some bytes were written to it. -/
def plus (sink : Sink) (bytes : List UInt8) : Sink :=
  { sink with written := sink.written ++ bytes }

theorem writeText_plus {sink : Sink} (unlimited : sink.room = none) (bytes : List UInt8)
    (text : String) :
    (sink.plus bytes).writeText text = (.ok (), sink.plus (bytes ++ Text.Utf8.encode text)) := by
  have joined : sink.written ++ bytes ++ Text.Utf8.encode text =
      sink.written ++ (bytes ++ Text.Utf8.encode text) := by
    apply Array.toList_inj.1
    simp
  simp only [writeText, write, plus, unlimited, joined]

theorem flush_plus (sink : Sink) (bytes : List UInt8) : (sink.plus bytes).flush = sink.flush :=
  rfl

end Sink

/-- The stop names no variable. -/
def Stop.Nameless : Stop RuntimeError → Prop
  | .fault (.uninitializedVariable _ _) => False
  | _ => True

theorem Stop.Structural.nameless {stop : Stop RuntimeError} (h : stop.Structural) :
    stop.Nameless := by
  unfold Structural at h
  split at h <;> trivial

/-- Two tables that name the same symbols. -/
structure Renaming where
  before : SymbolTable
  after : SymbolTable
  size_eq : after.size = before.size

namespace Renaming

variable (r : Renaming) (sink : Sink) {α β : Type}

/-- The same stop, with the name that its variable has in either table. -/
inductive Stops : Stop RuntimeError → Stop RuntimeError → Prop where
  | same {stop : Stop RuntimeError} (nameless : stop.Nameless) : Stops stop stop
  | named {symbol : Symbol} (known : symbol.index < r.before.size) (line : Nat) :
    Stops (.fault (.uninitializedVariable (r.before.spell symbol) line))
      (.fault (.uninitializedVariable (r.after.spell symbol) line))

/-- Machines that differ in the names of their variables and in the names they have shown. -/
structure Twins (m m' : Machine) : Prop where
  symbols : m.env.symbols = r.before
  symbols' : m'.env.symbols = r.after
  values : m'.env.values = m.env.values
  input : m'.input = m.input
  counters : m'.counters = m.counters
  shown : ∃ shown : List (Symbol × Int64), (∀ e ∈ shown, e.1.index < r.before.size) ∧
    m.sink = sink.plus (r.before.report shown) ∧ m'.sink = sink.plus (r.after.report shown)

/-- The same end, with twins left behind. -/
inductive Ends : EStateM.Result (Stop RuntimeError) Machine α →
    EStateM.Result (Stop RuntimeError) Machine α → Prop where
  | ok (a : α) {m m' : Machine} (twins : r.Twins sink m m') : Ends (.ok a m) (.ok a m')
  | error {stop stop' : Stop RuntimeError} (stops : r.Stops stop stop') {m m' : Machine}
    (twins : r.Twins sink m m') : Ends (.error stop m) (.error stop' m')

/-- From twins the two computations come to the same end. -/
def Parallel (x x' : RunM α) : Prop :=
  ∀ m m', r.Twins sink m m' → r.Ends sink (x m) (x' m')

variable {r sink}

theorem Parallel.pure (a : α) : r.Parallel sink (Pure.pure a) (Pure.pure a) :=
  fun _ _ twins => .ok a twins

theorem Parallel.bind {x x' : RunM α} {f f' : α → RunM β} (first : r.Parallel sink x x')
    (next : ∀ a, r.Parallel sink (f a) (f' a)) : r.Parallel sink (x >>= f) (x' >>= f') := by
  intro m m' twins
  have ends := first m m' twins
  generalize here : x m = e at ends
  generalize here' : x' m' = e' at ends
  cases ends with
  | ok a twins =>
    rw [RunM.bind_of_ok f here, RunM.bind_of_ok f' here']
    exact next a _ _ twins
  | error stops twins =>
    rw [RunM.bind_of_error f here, RunM.bind_of_error f' here']
    exact .error stops twins

/-- A value that is found without the variables. -/
theorem Parallel.value {e : Except (Stop RuntimeError) α} (nameless : FailsOnly Stop.Nameless e) :
    r.Parallel sink (RunM.ofExcept e) (RunM.ofExcept e) := by
  intro m m' twins
  cases e with
  | ok a => exact .ok a twins
  | error stop => exact .error (.same (nameless stop rfl)) twins

/-- What is found on either side belongs together, or both searches stop for one reason
that names no variable. -/
inductive Finds (R : α → β → Prop) :
    Except (Stop RuntimeError) α → Except (Stop RuntimeError) β → Prop where
  | ok {a : α} {b : β} (related : R a b) : Finds R (.ok a) (.ok b)
  | error {stop : Stop RuntimeError} (nameless : stop.Nameless) : Finds R (.error stop) (.error stop)

namespace Finds

variable {γ δ : Type} {R : α → β → Prop} {S : γ → δ → Prop}

theorem structural {e : Except (Stop RuntimeError) α} (known : FailsOnly Stop.Structural e) :
    Finds Eq e e := by
  cases e with
  | ok a => exact .ok rfl
  | error stop => exact .error (known stop rfl).nameless

theorem bind {e : Except (Stop RuntimeError) α} {e' : Except (Stop RuntimeError) β}
    {f : α → Except (Stop RuntimeError) γ} {f' : β → Except (Stop RuntimeError) δ}
    (first : Finds R e e') (next : ∀ a b, R a b → Finds S (f a) (f' b)) :
    Finds S (e >>= f) (e' >>= f') := by
  cases first with
  | ok related => exact next _ _ related
  | error nameless => exact .error nameless

end Finds

theorem nameOf_finds (r : Renaming) (symbol : Symbol) :
    Finds (fun name name' => symbol.index < r.before.size ∧
        name = r.before.spell symbol ∧ name' = r.after.spell symbol)
      (Tree.nameOf r.before symbol) (Tree.nameOf r.after symbol) := by
  unfold Tree.nameOf
  by_cases known : symbol.index < r.before.size
  · rw [SymbolTable.name?_eq_spell known, SymbolTable.name?_eq_spell (by rwa [r.size_eq])]
    exact .ok ⟨known, rfl, rfl⟩
  · rw [SymbolTable.name?_eq_none known, SymbolTable.name?_eq_none (by rwa [r.size_eq])]
    exact .error trivial

/-! ### Variables -/

namespace Twins

variable {m m' : Machine} (h : r.Twins sink m m') {symbol : Symbol}

include h

theorem get?_eq (symbol : Symbol) : m'.env.get? symbol = m.env.get? symbol := by
  unfold Environment.get?
  rw [h.values]

theorem known : symbol.index < m.env.values.size ↔ symbol.index < r.before.size := by
  rw [m.env.size_values, h.symbols]

theorem named (known : symbol.index < r.before.size) :
    m.env.symbols.name? symbol = some (r.before.spell symbol) ∧
      m'.env.symbols.name? symbol = some (r.after.spell symbol) := by
  rw [h.symbols, h.symbols']
  exact ⟨SymbolTable.name?_eq_spell known, SymbolTable.name?_eq_spell (by rwa [r.size_eq])⟩

/-- Both machines store to a variable that they have, and remain twins. -/
theorem exists_set? (known : symbol.index < r.before.size) (v : Int64) :
    ∃ env env', m.env.set? symbol v = some env ∧ m'.env.set? symbol v = some env' ∧
      r.Twins sink { m with env := env } { m' with env := env' } := by
  have bound := h.known.2 known
  have bound' : symbol.index < m'.env.values.size := by rwa [h.values]
  refine ⟨_, _, if_pos bound, if_pos bound', ?_⟩
  exact { h with values := congrArg (·.setIfInBounds symbol.index (some v)) h.values }

theorem set?_eq_none (unknown : ¬ symbol.index < r.before.size) (v : Int64) :
    m.env.set? symbol v = none ∧ m'.env.set? symbol v = none := by
  rw [← h.known] at unknown
  exact ⟨if_neg unknown, if_neg (by rwa [h.values])⟩

end Twins

theorem variableAt_parallel (t : Tree) (id : NodeId) :
    r.Parallel sink (RunM.look fun env => t.variableAt env id)
      (RunM.look fun env => t.variableAt env id) := by
  intro m m' twins
  change r.Ends sink (RunM.ofExcept (t.variableAt m.env id) m)
    (RunM.ofExcept (t.variableAt m'.env id) m')
  unfold Tree.variableAt
  cases found : t.symbolAt id with
  | error stop =>
    exact .error (.same (t.symbolAt_structural id stop found).nameless) twins
  | ok symbol =>
    simp only [Tree.ok_bind, twins.get?_eq, twins.symbols, twins.symbols']
    cases m.env.get? symbol with
    | some v => exact .ok v twins
    | none =>
      have found := r.nameOf_finds symbol
      generalize Tree.nameOf r.before symbol = name at found ⊢
      generalize Tree.nameOf r.after symbol = name' at found ⊢
      cases found with
      | ok related =>
        obtain ⟨known, rfl, rfl⟩ := related
        exact .error (.named known _) twins
      | error nameless => exact .error (.same nameless) twins

theorem store_parallel (symbol : Symbol) (v : Int64) (name : String) (line : Nat) :
    r.Parallel sink (RunM.store symbol v name line) (RunM.store symbol v name line) := by
  intro m m' twins
  unfold RunM.store
  by_cases known : symbol.index < r.before.size
  · obtain ⟨env, env', stored, stored', after⟩ := twins.exists_set? known v
    rw [stored, stored']
    exact .ok () after
  · obtain ⟨missing, missing'⟩ := twins.set?_eq_none known v
    rw [missing, missing']
    exact .error (.same (by trivial)) twins

theorem storeByName_parallel {symbol : Symbol} (known : symbol.index < r.before.size) (v : Int64)
    (line : Nat) :
    r.Parallel sink (RunM.storeByName (r.before.spell symbol) v line)
      (RunM.storeByName (r.after.spell symbol) v line) := by
  intro m m' twins
  obtain ⟨env, env', stored, stored', after⟩ := twins.exists_set? known v
  obtain ⟨here, here'⟩ := twins.named known
  unfold RunM.storeByName
  rw [← Environment.set?_eq_setByName? here, ← Environment.set?_eq_setByName? here', stored, stored']
  exact .ok () after

theorem nextValue_parallel (line : Nat) :
    r.Parallel sink (RunM.nextValue line) (RunM.nextValue line) := by
  intro m m' twins
  obtain ⟨input, answered, -⟩ := m.input.next_eq line
  unfold RunM.nextValue
  rw [twins.input, answered]
  unfold DataStream.valueAnswer
  cases m.input.answer with
  | error reason => exact .error (.same (by trivial)) { twins with input := rfl }
  | ok token? =>
    cases token? with
    | none => exact .error (.same (by trivial)) { twins with input := rfl }
    | some token =>
      dsimp only
      cases Number.parse? (Text.Utf8.decodeLossy token) with
      | some v => exact .ok v { twins with input := rfl }
      | none => exact .error (.same (by trivial)) { twins with input := rfl }

theorem count_parallel (f : Counters → Counters) :
    r.Parallel sink (RunM.count f) (RunM.count f) :=
  fun _ _ twins => .ok () { twins with counters := congrArg f twins.counters }

theorem flush_parallel (line : Nat) : r.Parallel sink (RunM.flush line) (RunM.flush line) := by
  intro m m' twins
  obtain ⟨shown, -, here, here'⟩ := twins.shown
  unfold RunM.flush
  rw [here, here', Sink.flush_plus, Sink.flush_plus]
  cases sink.flush with
  | ok _ => exact .ok () twins
  | error reason => exact .error (.same (by trivial)) twins

/-- Both machines show the variable of a symbol under the name it has there. -/
theorem emit_parallel (unlimited : sink.room = none) {symbol : Symbol}
    (known : symbol.index < r.before.size) (v : Int64) (line : Nat) :
    r.Parallel sink (RunM.emit (Tree.bindingLine (r.before.spell symbol) v) line)
      (RunM.emit (Tree.bindingLine (r.after.spell symbol) v) line) := by
  intro m m' twins
  obtain ⟨shown, named, here, here'⟩ := twins.shown
  unfold RunM.emit
  rw [here, here', Sink.writeText_plus unlimited, Sink.writeText_plus unlimited]
  refine .ok () { twins with shown := ⟨shown ++ [(symbol, v)], ?_, ?_, ?_⟩ }
  · simpa [or_imp, forall_and, known] using named
  · simp [SymbolTable.report]
  · simp [SymbolTable.report]

/-! ### Reading and writing -/

/-- Either table gives its names of the same symbols. -/
def NamesOf (r : Renaming) (names names' : List String) : Prop :=
  ∃ symbols : List Symbol, (∀ s ∈ symbols, s.index < r.before.size) ∧
    names = symbols.map r.before.spell ∧ names' = symbols.map r.after.spell

theorem namesAt_finds (r : Renaming) (t : Tree) (steps : Nat) (id : NodeId) :
    Finds r.NamesOf (t.namesAt r.before steps id) (t.namesAt r.after steps id) := by
  induction steps generalizing id with
  | zero => exact .error trivial
  | succ steps ih =>
    simp only [Tree.namesAt]
    refine (Finds.structural (t.load_structural id)).bind fun node _ same => ?_
    subst same
    cases node with
    | idList first rest =>
      refine (Finds.structural (t.symbolAt_structural first)).bind fun symbol _ same => ?_
      subst same
      refine (r.nameOf_finds symbol).bind ?_
      rintro _ _ ⟨known, rfl, rfl⟩
      cases rest with
      | none => exact .ok ⟨[symbol], by simpa using known, rfl, rfl⟩
      | some rest =>
        refine (ih rest).bind ?_
        rintro _ _ ⟨symbols, others, rfl, rfl⟩
        exact .ok ⟨symbol :: symbols, List.forall_mem_cons.2 ⟨known, others⟩, rfl, rfl⟩
    | _ => exact .error trivial

theorem Parallel.names {f f' : List String → RunM α} (t : Tree) (steps : Nat) (id : NodeId)
    (next : ∀ symbols : List Symbol, (∀ s ∈ symbols, s.index < r.before.size) →
      r.Parallel sink (f (symbols.map r.before.spell)) (f' (symbols.map r.after.spell))) :
    r.Parallel sink
      (RunM.environment >>= fun env => RunM.ofExcept (t.namesAt env.symbols steps id) >>= f)
      (RunM.environment >>= fun env => RunM.ofExcept (t.namesAt env.symbols steps id) >>= f') := by
  intro m m' twins
  change r.Ends sink ((RunM.ofExcept (t.namesAt m.env.symbols steps id) >>= f) m)
    ((RunM.ofExcept (t.namesAt m'.env.symbols steps id) >>= f') m')
  rw [twins.symbols, twins.symbols']
  have found := r.namesAt_finds t steps id
  generalize t.namesAt r.before steps id = names at found ⊢
  generalize t.namesAt r.after steps id = names' at found ⊢
  cases found with
  | ok related =>
    obtain ⟨symbols, known, rfl, rfl⟩ := related
    exact next symbols known m m' twins
  | error nameless => exact .error (.same nameless) twins

theorem readValues_parallel {symbols : List Symbol}
    (known : ∀ s ∈ symbols, s.index < r.before.size) (line : Nat) :
    r.Parallel sink (Tree.readValues line (symbols.map r.before.spell))
      (Tree.readValues line (symbols.map r.after.spell)) := by
  induction symbols with
  | nil => exact .pure ()
  | cons symbol others ih =>
    have first := known symbol List.mem_cons_self
    have rest := ih fun s hs => known s (List.mem_cons_of_mem _ hs)
    exact (nextValue_parallel line).bind fun v =>
      (storeByName_parallel first v line).bind fun _ => rest

theorem writeValues_parallel (unlimited : sink.room = none) {symbols : List Symbol}
    (known : ∀ s ∈ symbols, s.index < r.before.size) (line : Nat) :
    r.Parallel sink (Tree.writeValues line (symbols.map r.before.spell))
      (Tree.writeValues line (symbols.map r.after.spell)) := by
  induction symbols with
  | nil => exact .pure ()
  | cons symbol others ih =>
    have first := known symbol List.mem_cons_self
    have rest := ih fun s hs => known s (List.mem_cons_of_mem _ hs)
    intro m m' twins
    obtain ⟨here, here'⟩ := twins.named first
    simp only [List.map_cons, Tree.writeValues]
    rw [RunM.bind_of_ok (x := RunM.environment) (m := m) _ rfl,
      RunM.bind_of_ok (x := RunM.environment) (m := m') _ rfl,
      ← Environment.get?_eq_getByName? here, ← Environment.get?_eq_getByName? here', twins.get?_eq]
    cases m.env.get? symbol with
    | none => exact .error (.named first line) twins
    | some v => exact ((emit_parallel unlimited first v line).bind fun _ => rest) m m' twins

/-! ### Runs -/

theorem compositional (unlimited : sink.room = none) (t : Tree) :
    RunM.Compositional t fun x => r.Parallel sink x x where
  pure := .pure
  bind := .bind
  known structural := .value (structural.mono Stop.Structural.nameless)
  count := count_parallel
  variableAt := variableAt_parallel t
  combine op a b id := by
    unfold Tree.combine Operator.apply
    cases op.checked? a b with
    | some v => exact .value (.ok v)
    | none => exact .value (.error (by trivial))
  store symbol v line := store_parallel symbol v _ line
  readAll steps ids line := .names t steps ids fun _ known => readValues_parallel known line
  writeAll _ steps :=
    .names t steps _ fun _ known => writeValues_parallel unlimited known _
  flush := flush_parallel

/-- A run under other names goes the same way. -/
theorem run_parallel (unlimited : sink.room = none) (t : Tree) (steps : Nat) :
    r.Parallel sink (t.run steps) (t.run steps) :=
  (compositional unlimited t).run steps

end Renaming

end CoreLang
