import CoreLang.Proofs.RenamedRuns
import CoreLang.Proofs.RunInduction
import CoreLang.Session

/-!
# Output on a sink with limited room

`Emits t x m out` says what the computation `x` shows when it is begun in the state `m` and
all is taken: each byte, with the `write` node that it comes from. On a sink with room for
`n` bytes the computation goes the same way up to the first byte that is refused; the
statement that this byte comes from is the one that fails (`Emits.tracks`).

The sink decides nothing else. Therefore the bytes that are shown, and the lines that are
blamed, do not depend on how a computation is taken apart.
-/

namespace CoreLang

variable {α β : Type}

/-! ### Sinks -/

namespace Sink

/-- The sink with room for `n` bytes and no more. -/
def withRoom (sink : Sink) (n : Nat) : Sink :=
  { sink with room := some n }

variable {sink : Sink} {bytes : List UInt8} {n : Nat}

theorem plus_nil (sink : Sink) : sink.plus [] = sink := by
  simp [plus]

theorem plus_plus (sink : Sink) (bytes bytes' : List UInt8) :
    (sink.plus bytes).plus bytes' = sink.plus (bytes ++ bytes') := by
  have joined : sink.written ++ bytes ++ bytes' = sink.written ++ (bytes ++ bytes') := by
    apply Array.toList_inj.1
    simp
  simp only [plus, joined]

theorem write_of_unlimited (unlimited : sink.room = none) (bytes : List UInt8) :
    sink.write bytes = (.ok (), sink.plus bytes) := by
  simp only [write, unlimited, plus]

theorem write_of_fits (fits : bytes.length ≤ n) :
    (sink.withRoom n).write bytes = (.ok (), (sink.plus bytes).withRoom (n - bytes.length)) := by
  simp only [write, withRoom, plus, fits, if_true, List.take_of_length_le]

theorem write_of_refused (sink : Sink) (refused : n < bytes.length) :
    ∃ left, (sink.withRoom n).write bytes = (.error sink.refusal, left) ∧
      left.written = sink.written ++ bytes.take n := by
  refine ⟨(sink.plus (bytes.take n)).withRoom (n - bytes.length), ?_, rfl⟩
  simp only [write, withRoom, plus, Nat.not_le.2 refused, if_false]

end Sink

/-- The machine with room for `n` bytes of output. -/
def Machine.withRoom (m : Machine) (n : Nat) : Machine :=
  { m with sink := m.sink.withRoom n }

/-! ### What is shown -/

/-- A byte of the output, with the `write` node that it comes from. -/
structure Produced where
  node : NodeId
  byte : UInt8
deriving Repr, DecidableEq

/-- The bytes that a list of variables shows: all before the first one without a value. -/
def shownBytes (env : Environment) : List String → List UInt8
  | [] => []
  | name :: others =>
    match env.getByName? name with
    | none => []
    | some v => Text.Utf8.encode (Tree.bindingLine name v) ++ shownBytes env others

/-- What a `write` node shows of its variables. -/
def Tree.shownAt (t : Tree) (steps : Nat) (id ids : NodeId) (env : Environment) : List Produced :=
  match t.namesAt env.symbols steps ids with
  | .ok names => (shownBytes env names).map (Produced.mk id)
  | .error _ => []

namespace RunM

/-- The state that is left at the end. -/
def left : EStateM.Result (Stop RuntimeError) Machine α → Machine
  | .ok _ m | .error _ m => m

/-- The same ending with other room left. -/
def withRoom (n : Nat) :
    EStateM.Result (Stop RuntimeError) Machine α → EStateM.Result (Stop RuntimeError) Machine α
  | .ok a m => .ok a (m.withRoom n)
  | .error stop m => .error stop (m.withRoom n)

/-- Nothing is shown: the sink stays, and its room makes no difference. -/
def Quiet (x : RunM α) : Prop :=
  ∀ m, (left (x m)).sink = m.sink ∧ ∀ n, x (m.withRoom n) = withRoom n (x m)

/-- What a computation shows, if all is taken. -/
inductive Emits (t : Tree) : {α : Type} → RunM α → Machine → (out : List Produced) → Prop
  | write {id ids : NodeId} (here : t.node? id = some (.output ids)) (steps : Nat) (m : Machine) :
      Emits t (t.runOutput steps id) m (t.shownAt steps id ids m.env)
  | quiet {α : Type} {x : RunM α} (h : Quiet x) (m : Machine) : Emits t x m []
  | stopped {α β : Type} {x : RunM α} {f : α → RunM β} {m m' : Machine} {stop : Stop RuntimeError}
      {out : List Produced} (first : Emits t x m out) (ends : x m = .error stop m') :
      Emits t (x >>= f) m out
  | next {α β : Type} {x : RunM α} {f : α → RunM β} {m m' : Machine} {a : α}
      {out out' : List Produced} (first : Emits t x m out) (ends : x m = .ok a m')
      (later : Emits t (f a) m' out') : Emits t (x >>= f) m (out ++ out')

/-- With room for all that it shows a computation goes the same way; with less it takes what
fits and fails where the first byte that does not fit comes from. -/
structure Tracks (t : Tree) (x : RunM α) (m : Machine) (out : List Produced) : Prop where
  sink_eq : (left (x m)).sink = m.sink.plus (out.map Produced.byte)
  fits {n : Nat} (room : out.length ≤ n) : x (m.withRoom n) = withRoom (n - out.length) (x m)
  refused {n : Nat} {p : Produced} (first : out[n]? = some p) :
    ∃ m', x (m.withRoom n) = .error (.fault (.io m.sink.refusal (t.line p.node))) m' ∧
      m'.sink.written = m.sink.written ++ (out.take n).map Produced.byte

variable {t : Tree} {x : RunM α} {f : α → RunM β} {m m' : Machine} {out out' : List Produced}

/-! ### Computations that follow one another -/

theorem Quiet.tracks (h : Quiet x) (m : Machine) : Tracks t x m [] where
  sink_eq := by rw [(h m).1, List.map_nil, Sink.plus_nil]
  fits _ := (h m).2 _
  refused first := by simp at first

theorem Tracks.stopped {stop : Stop RuntimeError} (h : Tracks t x m out)
    (ends : x m = .error stop m') : Tracks t (x >>= f) m out where
  sink_eq := by
    have same := h.sink_eq
    rw [ends] at same
    rw [bind_of_error f ends]
    exact same
  fits room := by
    have same := h.fits room
    rw [ends] at same
    rw [bind_of_error f ends, bind_of_error f same]
    rfl
  refused first := by
    obtain ⟨m', fails, written⟩ := h.refused first
    exact ⟨m', bind_of_error f fails, written⟩

theorem Tracks.next {a : α} (h : Tracks t x m out) (ends : x m = .ok a m')
    (later : Tracks t (f a) m' out') : Tracks t (x >>= f) m (out ++ out') := by
  have sink : m'.sink = m.sink.plus (out.map Produced.byte) := by
    have same := h.sink_eq
    rw [ends] at same
    exact same
  have goes_on {n : Nat} (room : out.length ≤ n) :
      (x >>= f) (m.withRoom n) = f a (m'.withRoom (n - out.length)) := by
    have same := h.fits room
    rw [ends] at same
    exact bind_of_ok f same
  constructor
  · rw [bind_of_ok f ends, later.sink_eq, sink, Sink.plus_plus, List.map_append]
  · intro n room
    rw [List.length_append] at room ⊢
    rw [goes_on (by omega), later.fits (by omega), bind_of_ok f ends, Nat.sub_sub]
  · intro n p first
    by_cases early : n < out.length
    · rw [List.getElem?_append_left early] at first
      obtain ⟨m'', fails, written⟩ := h.refused first
      refine ⟨m'', bind_of_error f fails, ?_⟩
      rw [List.take_append_of_le_length (Nat.le_of_lt early)]
      exact written
    · have room : out.length ≤ n := Nat.le_of_not_lt early
      rw [List.getElem?_append_right room] at first
      obtain ⟨m'', fails, written⟩ := later.refused first
      rw [sink] at fails written
      refine ⟨m'', (goes_on room).trans fails, ?_⟩
      rw [List.take_append, List.take_of_length_le room, List.map_append]
      exact written.trans (congrArg Sink.written (m.sink.plus_plus _ _))

/-! ### Write statements -/

theorem emit_tracks (unlimited : m.sink.room = none) (text : String) (id : NodeId) :
    Tracks t (emit text (t.line id)) m ((Text.Utf8.encode text).map (Produced.mk id)) := by
  have bytes : ((Text.Utf8.encode text).map (Produced.mk id)).map Produced.byte =
      Text.Utf8.encode text := by
    rw [List.map_map]
    exact List.map_id _
  constructor
  · rw [bytes, emit, Sink.writeText, Sink.write_of_unlimited unlimited]
    rfl
  · intro n room
    rw [List.length_map] at room ⊢
    simp only [emit, Machine.withRoom, Sink.writeText, Sink.write_of_fits room,
      Sink.write_of_unlimited unlimited]
    rfl
  · intro n p first
    rw [List.getElem?_map] at first
    obtain ⟨b, there, rfl⟩ := Option.map_eq_some_iff.1 first
    obtain ⟨refused, -⟩ := List.getElem?_eq_some_iff.1 there
    obtain ⟨left, fails, written⟩ := m.sink.write_of_refused refused
    refine ⟨{ m with sink := left }, ?_, ?_⟩
    · simp only [emit, Machine.withRoom, Sink.writeText, fails]
    · rw [List.map_take, bytes]
      exact written

theorem environment_quiet : Quiet environment :=
  fun _ => ⟨rfl, fun _ => rfl⟩

theorem ofExcept_quiet (r : Except (Stop RuntimeError) α) : Quiet (ofExcept r) := by
  intro m
  cases r with
  | ok a => exact ⟨rfl, fun _ => rfl⟩
  | error stop => exact ⟨rfl, fun _ => rfl⟩

theorem writeValues_tracks (unlimited : m.sink.room = none) (id : NodeId) (names : List String) :
    Tracks t (Tree.writeValues (t.line id) names) m
      ((shownBytes m.env names).map (Produced.mk id)) := by
  induction names generalizing m with
  | nil => exact (ofExcept_quiet (.ok ())).tracks m
  | cons name others ih =>
    refine (environment_quiet.tracks m).next rfl ?_
    rw [shownBytes]
    cases m.env.getByName? name with
    | none =>
      exact (ofExcept_quiet (.error (.fault (.uninitializedVariable name _)))).tracks m
    | some v =>
      rw [List.map_append]
      have shown := emit_tracks (t := t) unlimited (Tree.bindingLine name v) id
      have ends : emit (Tree.bindingLine name v) (t.line id) m = .ok () { m with
          sink := m.sink.plus (Text.Utf8.encode (Tree.bindingLine name v)) } := by
        rw [emit, Sink.writeText, Sink.write_of_unlimited unlimited]
      exact shown.next ends (ih unlimited)

theorem runOutput_tracks {id ids : NodeId} (unlimited : m.sink.room = none)
    (here : t.node? id = some (.output ids)) (steps : Nat) :
    Tracks t (t.runOutput steps id) m (t.shownAt steps id ids m.env) := by
  unfold Tree.runOutput Tree.shownAt
  rw [Tree.load_eq_ok_iff.2 here, ofExcept_ok_bind]
  refine (environment_quiet.tracks m).next rfl ?_
  cases t.namesAt m.env.symbols steps ids with
  | ok names => exact writeValues_tracks unlimited id names
  | error stop => exact (ofExcept_quiet (.error stop)).tracks m

theorem Emits.tracks (h : Emits t x m out) (unlimited : m.sink.room = none) :
    Tracks t x m out := by
  induction h with
  | write here steps m => exact runOutput_tracks unlimited here steps
  | quiet h m => exact h.tracks m
  | stopped first ends ih => exact (ih unlimited).stopped ends
  | next first ends later ih ih' =>
    have tracks := ih unlimited
    have sink := tracks.sink_eq
    rw [ends] at sink
    exact tracks.next ends (ih' ((congrArg Sink.room sink).trans unlimited))

/-- What is shown comes from `write` nodes. -/
theorem Emits.exists_output (h : Emits t x m out) :
    ∀ p ∈ out, ∃ ids, t.node? p.node = some (.output ids) := by
  induction h with
  | @write id ids here steps m =>
    intro p among
    unfold Tree.shownAt at among
    split at among
    · obtain ⟨b, -, rfl⟩ := List.mem_map.1 among
      exact ⟨ids, here⟩
    · cases among
  | quiet h m => exact nofun
  | stopped first ends ih => exact ih
  | next first ends later ih ih' =>
    intro p among
    exact (List.mem_append.1 among).elim (ih p) (ih' p)

/-! ### Runs -/

theorem exists_emits_bind (first : ∀ m, ∃ out, Emits t x m out)
    (next : ∀ a m, ∃ out, Emits t (f a) m out) (m : Machine) : ∃ out, Emits t (x >>= f) m out := by
  obtain ⟨out, shown⟩ := first m
  cases ends : x m with
  | error stop m' => exact ⟨out, shown.stopped ends⟩
  | ok a m' =>
    obtain ⟨out', later⟩ := next a m'
    exact ⟨out ++ out', shown.next ends later⟩

theorem Quiet.exists_emits (h : Quiet x) (m : Machine) : ∃ out, Emits t x m out :=
  ⟨[], .quiet h m⟩

theorem Quiet.bind (first : Quiet x) (next : ∀ a, Quiet (f a)) : Quiet (x >>= f) := by
  intro m
  obtain ⟨same, alike⟩ := first m
  cases ends : x m with
  | error stop m' =>
    rw [ends] at same alike
    exact ⟨by rw [bind_of_error f ends]; exact same,
      fun n => by rw [bind_of_error f ends, bind_of_error f (alike n)]; rfl⟩
  | ok a m' =>
    rw [ends] at same alike
    obtain ⟨same', alike'⟩ := next a m'
    exact ⟨by rw [bind_of_ok f ends, same']; exact same,
      fun n => by rw [bind_of_ok f ends, bind_of_ok f (alike n), alike' n]⟩

theorem store_quiet (symbol : Symbol) (v : Int64) (name : String) (line : Nat) :
    Quiet (store symbol v name line) := by
  intro m
  unfold store
  simp only [Machine.withRoom]
  cases m.env.set? symbol v with
  | some env => exact ⟨rfl, fun _ => rfl⟩
  | none => exact ⟨rfl, fun _ => rfl⟩

theorem storeByName_quiet (name : String) (v : Int64) (line : Nat) :
    Quiet (storeByName name v line) := by
  intro m
  unfold storeByName
  simp only [Machine.withRoom]
  cases m.env.setByName? name v with
  | some env => exact ⟨rfl, fun _ => rfl⟩
  | none => exact ⟨rfl, fun _ => rfl⟩

theorem nextValue_quiet (line : Nat) : Quiet (nextValue line) := by
  intro m
  unfold nextValue
  simp only [Machine.withRoom]
  obtain ⟨answer, input⟩ := m.input.next line
  cases answer with
  | ok v => exact ⟨rfl, fun _ => rfl⟩
  | error e => exact ⟨rfl, fun _ => rfl⟩

theorem flush_quiet (line : Nat) : Quiet (flush line) := by
  intro m
  have same (n : Nat) : (m.sink.withRoom n).flush = m.sink.flush := rfl
  unfold flush
  simp only [Machine.withRoom, same]
  cases m.sink.flush with
  | ok _ => exact ⟨rfl, fun _ => rfl⟩
  | error reason => exact ⟨rfl, fun _ => rfl⟩

theorem readValues_quiet (line : Nat) (names : List String) :
    Quiet (Tree.readValues line names) := by
  induction names with
  | nil => exact ofExcept_quiet (.ok ())
  | cons name others ih =>
    exact (nextValue_quiet line).bind fun v => (storeByName_quiet name v line).bind fun _ => ih

theorem compositional_emits (t : Tree) :
    Compositional t fun x => ∀ m, ∃ out, Emits t x m out where
  pure a := (ofExcept_quiet (.ok a)).exists_emits
  bind := exists_emits_bind
  known _ := (ofExcept_quiet _).exists_emits
  count _ := Quiet.exists_emits fun _ => ⟨rfl, fun _ => rfl⟩
  variableAt id := (environment_quiet.bind fun _ => ofExcept_quiet _).exists_emits
  combine op a b id := (ofExcept_quiet _).exists_emits
  store symbol v line := (store_quiet symbol v _ line).exists_emits
  readAll steps ids line := (environment_quiet.bind fun _ =>
    (ofExcept_quiet _).bind (readValues_quiet line)).exists_emits
  writeAll here steps m := by
    have shown := Emits.write here steps m
    rw [Tree.runOutput, Tree.load_eq_ok_iff.2 here] at shown
    exact ⟨_, shown⟩
  flush line := (flush_quiet line).exists_emits

end RunM

/-! ### Sessions -/

/-- What a session writes before the run. -/
def heading (print : Bool) (text : String) : List UInt8 :=
  if print then Text.Utf8.encode (text ++ "\n") else []

namespace Parsed

variable {p : Parsed} {steps : Nat} {input : DataStream} {sink : Sink} {out : List Produced}

theorem runOnce_sink_eq
    (h : RunM.Tracks p.tree (p.tree.run steps) (.start p.symbols input sink) out) :
    (p.runOnce steps input sink).2 = sink.plus (out.map Produced.byte) := by
  have same := h.sink_eq
  unfold runOnce execute
  cases ends : p.tree.run steps (.start p.symbols input sink) with
  | ok a m =>
    rw [ends] at same
    exact same
  | error stop m =>
    rw [ends] at same
    exact same

theorem runOnce_of_fits
    (h : RunM.Tracks p.tree (p.tree.run steps) (.start p.symbols input sink) out) {n : Nat}
    (room : out.length ≤ n) :
    (p.runOnce steps input (sink.withRoom n)).1 = (p.runOnce steps input sink).1 ∧
      (p.runOnce steps input (sink.withRoom n)).2.written =
        sink.written ++ out.map Produced.byte := by
  have alike : p.tree.run steps (.start p.symbols input (sink.withRoom n)) = _ := h.fits room
  have same := h.sink_eq
  unfold runOnce execute
  rw [alike]
  cases ends : p.tree.run steps (.start p.symbols input sink) with
  | ok a m =>
    rw [ends] at same
    exact ⟨rfl, congrArg Sink.written same⟩
  | error stop m =>
    rw [ends] at same
    exact ⟨rfl, congrArg Sink.written same⟩

theorem runOnce_of_refused
    (h : RunM.Tracks p.tree (p.tree.run steps) (.start p.symbols input sink) out) {n : Nat}
    {q : Produced} (first : out[n]? = some q) :
    (p.runOnce steps input (sink.withRoom n)).1 =
        .error (.fault (.runtime (.io sink.refusal (p.tree.line q.node)))) ∧
      (p.runOnce steps input (sink.withRoom n)).2.written =
        sink.written ++ (out.take n).map Produced.byte := by
  obtain ⟨m', fails, written⟩ := h.refused first
  have fails : p.tree.run steps (.start p.symbols input (sink.withRoom n)) = _ := fails
  unfold runOnce execute
  rw [fails]
  exact ⟨rfl, written⟩

variable {print : Bool} {text : String}

/-- Without printing nothing stands before the run. -/
theorem perform_false : p.perform false steps input sink = p.runOnce steps input sink :=
  rfl

theorem perform_true (rendered : p.tree.render p.symbols = .ok text) :
    p.perform true steps input sink =
      match sink.write (heading true text) with
      | (.error reason, sink) => (.error (.fault (.output reason)), sink)
      | (.ok (), sink) => p.runOnce steps input sink := by
  unfold perform
  rw [rendered]
  rfl

theorem perform_of_unlimited (rendered : p.tree.render p.symbols = .ok text)
    (unlimited : sink.room = none) :
    p.perform print steps input sink = p.runOnce steps input (sink.plus (heading print text)) := by
  cases print with
  | false => rw [perform_false, heading, if_neg (by decide), Sink.plus_nil]
  | true => rw [perform_true rendered, Sink.write_of_unlimited unlimited]

theorem perform_of_fits (rendered : p.tree.render p.symbols = .ok text) {n : Nat}
    (room : (heading print text).length ≤ n) :
    p.perform print steps input (sink.withRoom n) =
      p.runOnce steps input
        ((sink.plus (heading print text)).withRoom (n - (heading print text).length)) := by
  cases print with
  | false =>
    rw [perform_false, heading, if_neg (by decide), Sink.plus_nil]
    rfl
  | true => rw [perform_true rendered, Sink.write_of_fits room]

theorem perform_of_refused (rendered : p.tree.render p.symbols = .ok text) {n : Nat}
    (refused : n < (heading print text).length) :
    (p.perform print steps input (sink.withRoom n)).1 = .error (.fault (.output sink.refusal)) ∧
      (p.perform print steps input (sink.withRoom n)).2.written =
        sink.written ++ (heading print text).take n := by
  cases print with
  | false => exact absurd refused (Nat.not_lt_zero n)
  | true =>
    obtain ⟨left, fails, written⟩ := sink.write_of_refused refused
    rw [perform_true rendered, fails]
    exact ⟨rfl, written⟩

end Parsed

/-- A session on a sink with room for `n` bytes shows the first `n` bytes of what it shows on
a sink that takes all. That is the printed program, if it is printed, and then what the
`write` statements show. If all fits, nothing else changes. If the printed program does not
fit, the session fails with that; otherwise it fails on the line of the statement that the
first byte refused comes from. A run that its bound cuts off counts as well. -/
theorem perform_on_limited_sink {source : String} {capacity : Nat} {parsed : Parsed}
    (accepted : parse source capacity = .ok parsed) (print : Bool) (steps : Nat)
    (input : DataStream) (sink : Sink) (unlimited : sink.room = none) :
    ∃ text, parsed.tree.render parsed.symbols = .ok text ∧
      let front := heading print text
      let start := Machine.start parsed.symbols input (sink.plus front)
      (∃ out, RunM.Emits parsed.tree (parsed.tree.run steps) start out) ∧
      ∀ out, RunM.Emits parsed.tree (parsed.tree.run steps) start out →
        let whole := front ++ out.map Produced.byte
        let full := parsed.perform print steps input sink
        full.2.written = sink.written ++ whole ∧
        ∀ n,
          let run := parsed.perform print steps input (sink.withRoom n)
          (whole.length ≤ n → run.1 = full.1 ∧ run.2.written = sink.written ++ whole) ∧
          (n < whole.length → run.2.written = sink.written ++ whole.take n ∧
            (n < front.length → run.1 = .error (.fault (.output sink.refusal))) ∧
            (front.length ≤ n → ∃ p ids, out[n - front.length]? = some p ∧
              parsed.tree.node? p.node = some (.output ids) ∧
              run.1 =
                .error (.fault (.runtime (.io sink.refusal (parsed.tree.line p.node)))))) := by
  obtain ⟨d, q, derives, fitting, shows⟩ := parse_sound accepted
  have rendered := shows.render_eq fitting.named
  refine ⟨_, rendered, ?_⟩
  intro front start
  refine ⟨(RunM.compositional_emits parsed.tree).run steps start, fun out shown => ?_⟩
  have tracks := shown.tracks unlimited
  intro whole full
  have joined (bytes : List UInt8) :
      (sink.plus front).written ++ bytes = sink.written ++ (front ++ bytes) :=
    congrArg Sink.written (sink.plus_plus front bytes)
  have ran : full = parsed.runOnce steps input (sink.plus front) :=
    Parsed.perform_of_unlimited rendered unlimited
  have length : whole.length = front.length + out.length := by simp [whole]
  refine ⟨?_, fun n => ?_⟩
  · rw [ran, Parsed.runOnce_sink_eq tracks]
    exact joined _
  intro run
  refine ⟨fun room => ?_, fun short => ?_⟩
  · have frontFits : front.length ≤ n := by omega
    have outFits : out.length ≤ n - front.length := by omega
    have ran' : run = _ := Parsed.perform_of_fits rendered frontFits
    obtain ⟨same, written⟩ := Parsed.runOnce_of_fits tracks outFits
    rw [ran', ran]
    exact ⟨same, written.trans (joined _)⟩
  · by_cases early : n < front.length
    · obtain ⟨fails, written⟩ : run.1 = _ ∧ run.2.written = _ :=
        Parsed.perform_of_refused rendered early
      refine ⟨?_, fun _ => fails, fun late => absurd early (Nat.not_lt.2 late)⟩
      rw [List.take_append_of_le_length (Nat.le_of_lt early)]
      exact written
    · have late : front.length ≤ n := Nat.le_of_not_lt early
      obtain ⟨p, first⟩ : ∃ p, out[n - front.length]? = some p :=
        ⟨_, List.getElem?_eq_getElem (by omega)⟩
      obtain ⟨ids, node⟩ := shown.exists_output p (List.mem_of_getElem? first)
      obtain ⟨fails, written⟩ := Parsed.runOnce_of_refused tracks first
      have ran' : run = _ := Parsed.perform_of_fits rendered late
      rw [ran']
      refine ⟨?_, fun now => absurd now early, fun _ => ⟨p, ids, first, node, fails⟩⟩
      rw [List.take_append, List.take_of_length_le late, ← List.map_take]
      exact written.trans (joined _)

/-- The program is printed and the first write is done; the second one is cut short, and its
line is told. -/
theorem perform_on_limited_sink_second_line :
    ∃ (parsed : Parsed) (text : String) (out : List Produced) (p : Produced),
      parse "program int A; begin A=1; write A;\nwrite A; end" 100 = .ok parsed ∧
      parsed.tree.render parsed.symbols = .ok text ∧ (heading true text).length = 67 ∧
      RunM.Emits parsed.tree (parsed.tree.run 20)
        (.start parsed.symbols (.ofBytes [] none) (Sink.plus {} (heading true text))) out ∧
      out[8]? = some p ∧ parsed.tree.line p.node = 2 := by
  obtain ⟨parsed, accepted, ran⟩ := exists_parsed_such
    "program int A; begin A=1; write A;\nwrite A; end" 100
    (fun parsed =>
      (parsed.tree.render parsed.symbols).toOption.map (heading true · |>.length) = some 67 ∧
      (parsed.perform true 20 (.ofBytes [] none) {}).2.written.size = 79 ∧
      (parsed.perform true 20 (.ofBytes [] none) (Sink.withRoom {} 75)).1 =
        .error (.fault (.runtime (.io "" 2))))
    (by decide +kernel)
  obtain ⟨printed, written, stopped⟩ := of_decide_eq_true ran
  obtain ⟨text, rendered, ⟨out, shown⟩, meaning⟩ :=
    perform_on_limited_sink accepted true 20 (.ofBytes [] none) {} rfl
  obtain ⟨full, short⟩ := meaning out shown
  have front : (heading true text).length = 67 := by
    rw [rendered] at printed
    exact Option.some.inj printed
  have length : out.length = 12 := by
    rw [full] at written
    have total : 67 + out.length = 79 := by simpa [front] using written
    omega
  obtain ⟨-, -, late⟩ := (short 75).2 (by simp [front, length])
  obtain ⟨p, ids, first, -, fails⟩ := late (by simp [front])
  rw [front] at first
  have line : 2 = parsed.tree.line p.node := by simpa [stopped] using fails
  exact ⟨parsed, text, out, p, accepted, rendered, front, shown, first, line.symm⟩

end CoreLang
