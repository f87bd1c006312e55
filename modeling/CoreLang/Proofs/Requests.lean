import CoreLang.Proofs.DataTokens
import CoreLang.Proofs.RunInduction
import CoreLang.Session

/-!
# What a run asks of its data

`Asks x m k` says that the computation `x`, begun in the state `m`, makes `k` requests for
a value. Every run makes a certain number of requests, and the answers to them are all that
it learns of its data: the tokens behind, the blanks between the tokens and the way they
are spread over lines leave no trace.

Requests are counted along the way a computation is put together. That the number does not
depend on how it is taken apart shows in the end: it is the number of tokens gone, and one
more if the last request found none (`Asks.number`).
-/

namespace CoreLang

variable {α β : Type}

/-- The machine with other data ahead. -/
def Machine.reading (m : Machine) (d : DataStream) : Machine :=
  { m with input := d }

@[simp]
theorem Machine.input_reading (m : Machine) (d : DataStream) : (m.reading d).input = d :=
  rfl

/-- The data had no token left. -/
def Stop.Exhausted : Stop RuntimeError → Prop
  | .fault (.inputExhausted _) => True
  | _ => False

theorem Stop.Inward.not_exhausted {stop : Stop RuntimeError} (h : stop.Inward) :
    ¬ stop.Exhausted := by
  intro exhausted
  unfold Stop.Exhausted at exhausted
  split at exhausted
  · exact h
  · exact exhausted

namespace RunM

/-- The same ending with other data left ahead. -/
def leaving (d : DataStream) :
    EStateM.Result (Stop RuntimeError) Machine α → EStateM.Result (Stop RuntimeError) Machine α
  | .ok a m => .ok a (m.reading d)
  | .error stop m => .error stop (m.reading d)

/-- The last request was in vain. -/
def Exhausted : EStateM.Result (Stop RuntimeError) Machine α → Prop
  | .ok _ _ => False
  | .error stop _ => stop.Exhausted

/-- Nothing is asked of the data: whatever it is, the ending is the same and the data stays. -/
def Silent (x : RunM α) : Prop :=
  ∀ m, ¬ Exhausted (x m) ∧ ∀ d, x (m.reading d) = leaving d (x m)

/-- A computation makes `k` requests for a value. -/
inductive Asks : {α : Type} → RunM α → Machine → (k : Nat) → Prop
  | request (line : Nat) (m : Machine) : Asks (nextValue line) m 1
  | silent {α : Type} {x : RunM α} (h : Silent x) (m : Machine) : Asks x m 0
  | stopped {α β : Type} {x : RunM α} {f : α → RunM β} {m m' : Machine} {stop : Stop RuntimeError}
      {k : Nat} (asked : Asks x m k) (ends : x m = .error stop m') : Asks (x >>= f) m k
  | next {α β : Type} {x : RunM α} {f : α → RunM β} {m m' : Machine} {a : α} {j k : Nat}
      (asked : Asks x m j) (ends : x m = .ok a m') (later : Asks (f a) m' k) :
      Asks (x >>= f) m (j + k)

/-- The first `k` tokens decide the ending, and they are the ones gone then. -/
def Determined (x : RunM α) (m : Machine) (k : Nat) : Prop :=
  ∀ d : DataStream, d.failure = none → m.input.tokens.take k = d.tokens.take k →
    ∃ d', x (m.reading d) = leaving d' (x m) ∧ d'.tokens = d.tokens.drop k ∧ d'.failure = none

variable {x : RunM α} {f : α → RunM β} {m m' : Machine} {j k : Nat}

theorem leaving_inj {r : EStateM.Result (Stop RuntimeError) Machine α} {d d' : DataStream}
    (h : leaving d r = leaving d' r) : d = d' := by
  cases r with
  | ok a m =>
    obtain ⟨-, same⟩ := EStateM.Result.ok.inj h
    exact congrArg Machine.input same
  | error stop m =>
    obtain ⟨-, same⟩ := EStateM.Result.error.inj h
    exact congrArg Machine.input same

/-! ### Single requests -/

theorem nextValue_eq (line : Nat) (m : Machine) :
    ∃ d', d'.tokens = m.input.tokens.tail ∧ d'.failure = m.input.failure ∧
      nextValue line m = leaving d' (ofExcept ((m.input.valueAnswer line).mapError .fault) m) := by
  obtain ⟨d', answered, left, failing⟩ := m.input.next_eq line
  refine ⟨d', left, failing, ?_⟩
  unfold nextValue
  rw [answered]
  cases m.input.valueAnswer line <;> rfl

theorem nextValue_determined (line : Nat) (steady : m.input.failure = none) :
    Determined (nextValue line) m 1 := by
  intro d steady' same
  obtain ⟨d₁, -, -, ends₁⟩ := nextValue_eq line m
  obtain ⟨d₂, left, failing, ends₂⟩ := nextValue_eq line (m.reading d)
  have first : m.input.tokens.head? = d.tokens.head? := by
    simpa [List.head?_take] using congrArg List.head? same
  have answer : m.input.valueAnswer line = d.valueAnswer line := by
    unfold DataStream.valueAnswer
    rw [DataStream.answer_congr first (steady.trans steady'.symm)]
  refine ⟨d₂, ?_, by simpa using left, failing.trans steady'⟩
  rw [ends₁, ends₂]
  simp only [Machine.reading, answer]
  cases d.valueAnswer line <;> rfl

/-! ### Sequences of requests -/

theorem Silent.determined (h : Silent x) (m : Machine) : Determined x m 0 :=
  fun d steady _ => ⟨d, (h m).2 d, rfl, steady⟩

/-- A computation that goes on leaves the tokens behind those it asked for. -/
theorem Determined.left {a : α} (h : Determined x m k) (steady : m.input.failure = none)
    (ends : x m = .ok a m') :
    m'.input.tokens = m.input.tokens.drop k ∧ m'.input.failure = none := by
  obtain ⟨d, same, left, steady'⟩ := h m.input steady rfl
  have here : x m = leaving d (x m) := same
  rw [ends] at here
  obtain ⟨-, here⟩ := EStateM.Result.ok.inj here
  rw [here]
  exact ⟨left, steady'⟩

theorem Determined.stopped {stop : Stop RuntimeError} (h : Determined x m k)
    (ends : x m = .error stop m') : Determined (x >>= f) m k := by
  intro d steady same
  obtain ⟨d', here, left⟩ := h d steady same
  refine ⟨d', ?_, left⟩
  rw [ends] at here
  rw [bind_of_error f ends, bind_of_error f here]
  rfl

theorem Determined.next {a : α} (first : Determined x m j) (steady : m.input.failure = none)
    (ends : x m = .ok a m') (later : Determined (f a) m' k) : Determined (x >>= f) m (j + k) := by
  intro d steady' same
  obtain ⟨left, -⟩ := first.left steady ends
  have same₁ : m.input.tokens.take j = d.tokens.take j := by
    simpa [List.take_take] using congrArg (List.take j) same
  obtain ⟨d₁, here, left₁, steady₁⟩ := first d steady' same₁
  have same₂ : m'.input.tokens.take k = d₁.tokens.take k := by
    rw [left, left₁, List.take_drop, List.take_drop, same]
  obtain ⟨d₂, there, left₂, steady₂⟩ := later d₁ steady₁ same₂
  refine ⟨d₂, ?_, by rw [left₂, left₁, List.drop_drop], steady₂⟩
  rw [ends] at here
  rw [bind_of_ok f ends, bind_of_ok f here, there]

namespace Asks

theorem determined (h : Asks x m k) (steady : m.input.failure = none) : Determined x m k := by
  induction h with
  | request line m => exact nextValue_determined line steady
  | silent h m => exact h.determined m
  | stopped asked ends ih => exact (ih steady).stopped ends
  | next asked ends later ih ih' =>
    have first := ih steady
    exact first.next steady ends (ih' (first.left steady ends).2)

/-- Only the last request can be in vain. -/
theorem number (h : Asks x m k) (steady : m.input.failure = none) :
    Exhausted (x m) ∧ k = m.input.tokens.length + 1 ∨
      ¬ Exhausted (x m) ∧ k ≤ m.input.tokens.length := by
  induction h with
  | request line m =>
    obtain ⟨d', -, -, ends⟩ := nextValue_eq line m
    rw [ends]
    unfold DataStream.valueAnswer DataStream.answer
    cases tokens : m.input.tokens with
    | nil =>
      rw [steady]
      exact .inl ⟨trivial, rfl⟩
    | cons token others =>
      refine .inr ⟨?_, by simp⟩
      dsimp only [List.head?_cons]
      cases Number.parse? (Text.Utf8.decodeLossy token) <;> exact id
  | silent h m => exact .inr ⟨(h m).1, Nat.zero_le _⟩
  | @stopped _ _ x f m m' stop k asked ends ih =>
    have number := ih steady
    rw [ends] at number
    rw [bind_of_error f ends]
    exact number
  | @next _ _ x f m m' a j k asked ends later ih ih' =>
    obtain ⟨left, steady'⟩ := (asked.determined steady).left steady ends
    have within : j ≤ m.input.tokens.length := by
      obtain ⟨none_left, -⟩ | ⟨-, within⟩ := ih steady
      · rw [ends] at none_left
        exact none_left.elim
      · exact within
    have rest := ih' steady'
    rw [left, List.length_drop] at rest
    rw [bind_of_ok f ends]
    obtain ⟨ended, number⟩ | ⟨going, number⟩ := rest
    · exact .inl ⟨ended, by omega⟩
    · exact .inr ⟨going, by omega⟩

/-- How a computation is taken apart makes no difference to the number of its requests. -/
theorem unique (h : Asks x m j) (h' : Asks x m k) (steady : m.input.failure = none) : j = k := by
  obtain ⟨ended, number⟩ | ⟨going, within⟩ := h.number steady <;>
    obtain ⟨ended', number'⟩ | ⟨going', within'⟩ := h'.number steady
  · omega
  · exact absurd ended going'
  · exact absurd ended' going
  · obtain ⟨d, here, left, -⟩ := h.determined steady m.input steady rfl
    obtain ⟨d', here', left', -⟩ := h'.determined steady m.input steady rfl
    obtain rfl := leaving_inj (here.symm.trans here')
    have := congrArg List.length (left.symm.trans left')
    simp only [List.length_drop] at this
    omega

end Asks

/-! ### Runs -/

theorem exists_asks_bind (first : ∀ m, ∃ k, Asks x m k) (next : ∀ a m, ∃ k, Asks (f a) m k)
    (m : Machine) : ∃ k, Asks (x >>= f) m k := by
  obtain ⟨j, asked⟩ := first m
  cases ends : x m with
  | error stop m' => exact ⟨j, asked.stopped ends⟩
  | ok a m' =>
    obtain ⟨k, later⟩ := next a m'
    exact ⟨j + k, asked.next ends later⟩

theorem Silent.exists_asks (h : Silent x) (m : Machine) : ∃ k, Asks x m k :=
  ⟨0, .silent h m⟩

theorem ofExcept_silent {r : Except (Stop RuntimeError) α} (inward : FailsOnly Stop.Inward r) :
    Silent (ofExcept r) := by
  intro m
  cases r with
  | ok a => exact ⟨id, fun _ => rfl⟩
  | error stop => exact ⟨(inward stop rfl).not_exhausted, fun _ => rfl⟩

theorem store_silent (symbol : Symbol) (v : Int64) (name : String) (line : Nat) :
    Silent (store symbol v name line) := by
  intro m
  unfold store
  simp only [Machine.reading]
  cases m.env.set? symbol v with
  | some env => exact ⟨id, fun _ => rfl⟩
  | none => exact ⟨id, fun _ => rfl⟩

theorem storeByName_silent (name : String) (v : Int64) (line : Nat) :
    Silent (storeByName name v line) := by
  intro m
  unfold storeByName
  simp only [Machine.reading]
  cases m.env.setByName? name v with
  | some env => exact ⟨id, fun _ => rfl⟩
  | none => exact ⟨id, fun _ => rfl⟩

theorem emit_silent (text : String) (line : Nat) : Silent (emit text line) := by
  intro m
  unfold emit
  simp only [Machine.reading]
  obtain ⟨written, sink⟩ := m.sink.writeText text
  cases written with
  | ok _ => exact ⟨id, fun _ => rfl⟩
  | error reason => exact ⟨id, fun _ => rfl⟩

theorem flush_silent (line : Nat) : Silent (flush line) := by
  intro m
  unfold flush
  simp only [Machine.reading]
  cases m.sink.flush with
  | ok _ => exact ⟨id, fun _ => rfl⟩
  | error reason => exact ⟨id, fun _ => rfl⟩

theorem stepwise_asks : Stepwise fun x => ∀ m, ∃ k, Asks x m k where
  pure _ := Silent.exists_asks fun _ => ⟨id, fun _ => rfl⟩
  bind := exists_asks_bind
  environment := Silent.exists_asks fun _ => ⟨id, fun _ => rfl⟩
  value inward := (ofExcept_silent inward).exists_asks
  count _ := Silent.exists_asks fun _ => ⟨id, fun _ => rfl⟩
  store symbol v name line := (store_silent symbol v name line).exists_asks
  storeByName name v line := (storeByName_silent name v line).exists_asks
  nextValue line m := ⟨1, .request line m⟩
  emit text line := (emit_silent text line).exists_asks
  flush line := (flush_silent line).exists_asks

end RunM

/-- A run makes a certain number of requests for values. Other data with the same tokens up
to this number, or with the same tokens altogether if it has fewer, gives the same ending,
the same values of the variables, the same output and the same counters. A run that its
bound cuts off counts as well, so within any bound either both runs come to an end or
neither does. -/
theorem execute_determined_by_requests (p : Parsed) (steps : Nat) (m : Machine)
    (data : List UInt8) :
    ∃ k, (∀ j, RunM.Asks (p.tree.run steps) (m.reading (.ofBytes data none)) j ↔ j = k) ∧
      ∀ other, (dataTokens data).take k = (dataTokens other).take k →
        let (ending, last) := p.execute steps (m.reading (.ofBytes data none))
        let (ending', last') := p.execute steps (m.reading (.ofBytes other none))
        ending' = ending ∧ last'.env = last.env ∧ last'.sink = last.sink ∧
          last'.counters = last.counters := by
  obtain ⟨k, asked⟩ := RunM.stepwise_asks.run p.tree steps (m.reading (.ofBytes data none))
  refine ⟨k, fun j => ⟨fun asked' => asked'.unique asked rfl, fun same => same ▸ asked⟩, ?_⟩
  intro other same
  obtain ⟨d', ends, -⟩ := asked.determined rfl (.ofBytes other none) rfl same
  have ends : p.tree.run steps (m.reading (.ofBytes other none)) = _ := ends
  unfold Parsed.execute
  rw [ends]
  cases p.tree.run steps (m.reading (.ofBytes data none)) with
  | ok a m' => exact ⟨rfl, rfl, rfl, rfl⟩
  | error stop m' => exact ⟨rfl, rfl, rfl, rfl⟩

end CoreLang
