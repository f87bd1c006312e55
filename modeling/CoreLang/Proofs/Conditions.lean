import CoreLang.Proofs.ExactValues
import CoreLang.Proofs.Refinement

/-!
# Conditions are evaluated to the end

The truth of a condition is found by a walk over the whole of it, from left to right:
`Cond.visits` lists the conditions and the comparisons where they are entered, and the
operands where they are evaluated. What is true on one side never spares the other one. So
either all operands have values, every condition and every comparison is counted, and the
truth is the ordinary one; or the walk stops at the leftmost operand that fails, with all
counted that was entered before it (`Cond.truth_walks`).
-/

namespace CoreLang

/-! ### Machines are told by what is seen of them -/

/-- An environment is told by its table and by the values that its names have. -/
theorem Environment.eq_of_getByName? {env env' : Environment} (symbols : env'.symbols = env.symbols)
    (values : env'.getByName? = env.getByName?) : env' = env := by
  have sizes : env'.values.size = env.values.size := by
    rw [env'.size_values, env.size_values, symbols]
  have same : env'.values = env.values := by
    apply Array.ext sizes
    intro i h h'
    have within : i < env.symbols.names.length := by
      rw [env.size_values] at h'
      exact h'
    have named : env.symbols.name? ⟨i⟩ = some env.symbols.names[i] :=
      List.getElem?_eq_getElem within
    have read := env.get?_eq_getByName? named
    have named' : env'.symbols.name? ⟨i⟩ = some env.symbols.names[i] := by
      rw [symbols]
      exact named
    have read' := env'.get?_eq_getByName? named'
    rw [values, ← read] at read'
    simpa [get?, h, h'] using read'
  cases env
  cases env'
  cases symbols
  cases same
  rfl

theorem Machine.eq_of_view {m m' : Machine} (symbols : m'.env.symbols = m.env.symbols)
    (seen : m'.view = m.view) : m' = m := by
  have env := Environment.eq_of_getByName? symbols (congrArg State.vars seen)
  have input : m'.input = m.input := congrArg State.input seen
  have sink : m'.sink = m.sink := congrArg State.sink seen
  have counters : m'.counters = m.counters := congrArg State.counters seen
  cases m
  cases m'
  simp_all

/-! ### Ordinary truth -/

/-- The comparison of integers. -/
def Comparator.Relates : Comparator → Int → Int → Prop
  | .notEqual, a, b => a ≠ b
  | .equal, a, b => a = b
  | .less, a, b => a < b
  | .greater, a, b => a > b
  | .lessEqual, a, b => a ≤ b
  | .greaterEqual, a, b => a ≥ b

theorem Comparator.holds_iff (op : Comparator) (a b : Int64) :
    op.holds a b = true ↔ op.Relates a.toInt b.toInt := by
  cases op <;>
    simp [holds, Relates, Int64.lt_iff_toInt_lt, Int64.le_iff_toInt_le, ← Int64.toInt_inj]

/-- The truth of a condition over the integers. -/
def Cond.Meaning (vals : String → Int) : Cond String → Prop
  | .compare c => c.op.Relates (c.left.exact vals) (c.right.exact vals)
  | .not _ c => ¬ c.Meaning vals
  | .and _ left right => left.Meaning vals ∧ right.Meaning vals
  | .or _ left right => left.Meaning vals ∨ right.Meaning vals

/-! ### Walks -/

/-- What is met on a walk over a condition. -/
inductive Visit where
  | cond
  | comparison
  | operand (o : Operand String)
deriving Repr, DecidableEq

/-- The walk over a condition, from left to right; what encloses comes first. -/
def Cond.visits : Cond String → List Visit
  | .compare c => [.cond, .comparison, .operand c.left, .operand c.right]
  | .not _ c => .cond :: c.visits
  | .and _ left right | .or _ left right => .cond :: (left.visits ++ right.visits)

/-- The counters after a walk: conditions and comparisons are counted where they are entered. -/
def Counters.after (c : Counters) (visits : List Visit) : Counters :=
  { c with
    conditions := c.conditions + visits.count .cond
    comparisons := c.comparisons + visits.count .comparison }

theorem Counters.after_append (c : Counters) (visits visits' : List Visit) :
    (c.after visits).after visits' = c.after (visits ++ visits') := by
  simp [after, Nat.add_assoc]

/-- The operand has a value. -/
def Operand.Defined (vars : String → Option Int64) (o : Operand String) : Prop :=
  ∃ v, o.value vars = .ok v

/-- All operands met on a walk have values. -/
def AllDefined (vars : String → Option Int64) (visits : List Visit) : Prop :=
  ∀ o, .operand o ∈ visits → o.Defined vars

/-- The walk stops at its leftmost operand without a value, with `before` behind it. -/
def StopsAt (vars : String → Option Int64) (visits before : List Visit) (e : RuntimeError) : Prop :=
  ∃ o after, visits = before ++ .operand o :: after ∧ AllDefined vars before ∧
    o.value vars = .error e

/-- The state after a walk. -/
def State.walk (s : State) (visits : List Visit) : State :=
  s.count (·.after visits)

theorem State.walk_walk (s : State) (visits visits' : List Visit) :
    (s.walk visits).walk visits' = s.walk (visits ++ visits') := by
  simp only [walk, count, Counters.after_append]

/-- How a walk ends: it reaches its end and finds the truth, or it stops at an operand. -/
inductive Walks (visits : List Visit) (truth : Prop) (s : State) : Outcome Bool → Prop where
  | ok {b : Bool} (defined : AllDefined s.vars visits) (same : b = true ↔ truth) :
    Walks visits truth s (.ok b (s.walk visits))
  | error {before : List Visit} {e : RuntimeError} (stops : StopsAt s.vars visits before e) :
    Walks visits truth s (.error e (s.walk before))

section Walks

variable {vars : String → Option Int64} {visits visits' before : List Visit} {e : RuntimeError}

theorem AllDefined.append (h : AllDefined vars visits) (h' : AllDefined vars visits') :
    AllDefined vars (visits ++ visits') :=
  fun o among => (List.mem_append.1 among).elim (h o) (h' o)

theorem allDefined_cond : AllDefined vars [.cond] := by
  simp [AllDefined]

theorem StopsAt.append (h : StopsAt vars visits before e) (more : List Visit) :
    StopsAt vars (visits ++ more) before e := by
  obtain ⟨o, after, rfl, defined, fails⟩ := h
  exact ⟨o, after ++ more, by simp, defined, fails⟩

theorem StopsAt.prepend {first : List Visit} (passed : AllDefined vars first)
    (h : StopsAt vars visits before e) : StopsAt vars (first ++ visits) (first ++ before) e := by
  obtain ⟨o, after, rfl, defined, fails⟩ := h
  exact ⟨o, after, by simp, passed.append defined, fails⟩

/-- A walk does not both reach its end and stop. -/
theorem AllDefined.not_stopsAt (h : AllDefined vars visits) : ¬ StopsAt vars visits before e := by
  rintro ⟨o, after, rfl, -, fails⟩
  obtain ⟨v, value⟩ := h o (by simp)
  rw [value] at fails
  cases fails

/-- An operand that fails is not among the ones that have values. -/
theorem length_le_of_fails {o : Operand String} {after first rest : List Visit}
    (fails : o.value vars = .error e) (defined : AllDefined vars first)
    (same : before ++ .operand o :: after = first ++ rest) : first.length ≤ before.length := by
  apply Nat.le_of_not_lt
  intro longer
  have here : (first ++ rest)[before.length]? = some (.operand o) := by
    rw [← same]
    simp
  rw [List.getElem?_append_left longer] at here
  obtain ⟨v, value⟩ := defined o (List.mem_of_getElem? here)
  rw [value] at fails
  cases fails

/-- There is one leftmost operand without a value. -/
theorem StopsAt.unique {before' : List Visit} {e' : RuntimeError}
    (h : StopsAt vars visits before e) (h' : StopsAt vars visits before' e') :
    before = before' ∧ e = e' := by
  obtain ⟨o, after, rfl, defined, fails⟩ := h
  obtain ⟨o', after', same, defined', fails'⟩ := h'
  have length : before.length = before'.length :=
    Nat.le_antisymm (length_le_of_fails fails' defined same.symm)
      (length_le_of_fails fails defined' same)
  obtain ⟨rfl, rest⟩ := List.append_inj same length
  obtain ⟨rfl, -⟩ := (List.cons.inj rest).imp_left Visit.operand.inj
  rw [fails] at fails'
  exact ⟨rfl, Except.error.inj fails'⟩

end Walks

/-! ### The truth of a condition is found by a walk -/

section Truth

variable {s : State} {visits visits' first : List Visit} {truth truth' joint : Prop}

/-- A walk goes on where another one ended. -/
theorem Walks.after {out : Outcome Bool} (passed : AllDefined s.vars first)
    (h : Walks visits truth (s.walk first) out) : Walks (first ++ visits) truth s out := by
  cases h with
  | ok defined same =>
    rw [State.walk_walk]
    exact .ok (passed.append defined) same
  | error stops =>
    rw [State.walk_walk]
    exact .error (stops.prepend passed)

theorem Walks.not {x : Effect Bool} (h : Walks visits truth s (x s)) :
    Walks visits (¬ truth) s ((do
      let a ← x
      return !a) s) := by
  simp only [Bind.bind, EStateM.bind]
  generalize x s = out at h
  cases h with
  | @ok b defined same => exact .ok defined (by rw [← same]; simp)
  | error stops => exact .error stops

/-- Both sides are walked over, whatever the first one comes to. -/
theorem Walks.both {x y : Effect Bool} {join : Bool → Bool → Bool}
    (left : Walks visits truth s (x s))
    (right : Walks visits' truth' (s.walk visits) (y (s.walk visits)))
    (joins : ∀ a b, (a = true ↔ truth) → (b = true ↔ truth') → (join a b = true ↔ joint)) :
    Walks (visits ++ visits') joint s ((do
      let a ← x
      let b ← y
      return join a b) s) := by
  simp only [Bind.bind, EStateM.bind]
  generalize x s = out at left
  cases left with
  | error stops => exact .error (stops.append visits')
  | @ok a defined same =>
    simp only
    generalize y (s.walk visits) = out at right
    apply Walks.after defined
    cases right with
    | error stops => exact .error stops
    | @ok b defined' same' => exact .ok defined' (joins a b same same')

theorem Comparison.truth_walks (c : Comparison String) (s : State) :
    Walks [.comparison, .operand c.left, .operand c.right]
      (c.op.Relates (c.left.exact (exactValues s.vars)) (c.right.exact (exactValues s.vars))) s
      (c.truth s) := by
  have begun : c.truth s = look (fun vars => do
      let a ← c.left.value vars
      let b ← c.right.value vars
      return c.op.holds a b) (s.walk [.comparison]) := rfl
  have sides : (s.walk [.comparison]).vars = s.vars := rfl
  have met : AllDefined s.vars [.comparison] := by simp [AllDefined]
  rw [begun, look, sides]
  cases left : c.left.value s.vars with
  | error e => exact .error ⟨c.left, _, rfl, met, left⟩
  | ok a =>
    have metLeft : AllDefined s.vars [.comparison, .operand c.left] := by
      simpa [AllDefined] using ⟨a, left⟩
    cases right : c.right.value s.vars with
    | error e =>
      have counted : s.walk [.comparison] = s.walk [.comparison, .operand c.left] := by
        simp [State.walk, Counters.after]
      change Walks _ _ _ (.error e (s.walk [.comparison]))
      rw [counted]
      exact .error ⟨c.right, [], rfl, metLeft, right⟩
    | ok b =>
      have counted : s.walk [.comparison] =
          s.walk [.comparison, .operand c.left, .operand c.right] := by
        simp [State.walk, Counters.after]
      obtain ⟨-, exactLeft⟩ := (c.left.value_told s.vars).eq_ok_iff.1 left
      obtain ⟨-, exactRight⟩ := (c.right.value_told s.vars).eq_ok_iff.1 right
      change Walks _ _ _ (.ok (c.op.holds a b) (s.walk [.comparison]))
      rw [counted]
      refine .ok ?_ ?_
      · simpa [AllDefined] using ⟨⟨a, left⟩, ⟨b, right⟩⟩
      · rw [Comparator.holds_iff, exactLeft, exactRight]

/-- The truth of a condition is found by a walk over all of it. -/
theorem Cond.truth_walks (c : Cond String) (s : State) :
    Walks c.visits (c.Meaning (exactValues s.vars)) s (c.truth s) := by
  -- a condition is counted first; its parts begin in the state that this leaves, where the
  -- variables are the same
  induction c generalizing s with
  | compare c => exact (c.truth_walks (s.walk [.cond])).after allDefined_cond
  | not line c ih => exact (ih (s.walk [.cond])).not.after allDefined_cond
  | and line left right ihl ihr =>
    refine Walks.after allDefined_cond
      ((ihl (s.walk [.cond])).both (ihr _) fun a b same same' => ?_)
    rw [Bool.and_eq_true, same, same']
    rfl
  | or line left right ihl ihr =>
    refine Walks.after allDefined_cond
      ((ihl (s.walk [.cond])).both (ihr _) fun a b same same' => ?_)
    rw [Bool.or_eq_true, same, same']
    rfl

end Truth

/-! ### Conditions of a parsed program -/

section Ends

variable {s : State} {visits : List Visit} {truth : Prop} {out : Outcome Bool}

theorem Walks.eq_ok_iff (h : Walks visits truth s out) {b : Bool} {s' : State} :
    out = .ok b s' ↔ AllDefined s.vars visits ∧ (b = true ↔ truth) ∧ s' = s.walk visits := by
  cases h with
  | @ok a defined same =>
    rw [EStateM.Result.ok.injEq]
    constructor
    · rintro ⟨rfl, rfl⟩
      exact ⟨defined, same, rfl⟩
    · rintro ⟨-, same', rfl⟩
      exact ⟨Bool.eq_iff_iff.2 (same.trans same'.symm), rfl⟩
  | error stops => exact ⟨nofun, fun h => absurd stops h.1.not_stopsAt⟩

theorem Walks.eq_error_iff (h : Walks visits truth s out) {e : RuntimeError} {s' : State} :
    out = .error e s' ↔ ∃ before, StopsAt s.vars visits before e ∧ s' = s.walk before := by
  cases h with
  | ok defined _ => exact ⟨nofun, fun ⟨_, stops, _⟩ => absurd stops defined.not_stopsAt⟩
  | @error before e' stops =>
    rw [EStateM.Result.error.injEq]
    constructor
    · rintro ⟨rfl, rfl⟩
      exact ⟨before, stops, rfl⟩
    · rintro ⟨before', stops', rfl⟩
      obtain ⟨rfl, rfl⟩ := stops.unique stops'
      exact ⟨rfl, rfl⟩

end Ends

namespace Derivation

variable {α ι : Type} {tag : Tag}

/-- The tag of the root. -/
abbrev rootTag (_ : Derivation α ι tag) : Tag := tag

/-- The tags of the nodes below the root; what encloses comes first. -/
def tagsBelow : {tag : Tag} → Derivation α ι tag → List Tag
  | _, .compOp .. | _, .int .. | _, .ident .. => []
  | _, .declSeqLast _ a | _, .decl _ a | _, .idListLast _ a | _, .stmtSeqLast _ a
  | _, .stmtAssign _ a | _, .stmtIf _ a | _, .stmtWhile _ a | _, .stmtInput _ a
  | _, .stmtOutput _ a | _, .input _ a | _, .output _ a | _, .condCompare _ a
  | _, .condNot _ a | _, .exprTerm _ a | _, .termOperand _ a | _, .operandInt _ a
  | _, .operandIdent _ a | _, .operandParen _ a => a.rootTag :: a.tagsBelow
  | _, .program _ a b | _, .declSeqCons _ a b | _, .idListCons _ a b
  | _, .stmtSeqCons _ a b | _, .assign _ a b | _, .ifThen _ a b | _, .whileLoop _ a b
  | _, .condAnd _ a b | _, .condOr _ a b | _, .exprAdd _ a b | _, .exprSub _ a b
  | _, .termMul _ a b => a.rootTag :: a.tagsBelow ++ b.rootTag :: b.tagsBelow
  | _, .ifElse _ a b c | _, .comparison _ a b c =>
    a.rootTag :: a.tagsBelow ++ b.rootTag :: b.tagsBelow ++ c.rootTag :: c.tagsBelow

/-- The tags of the nodes of a derivation. -/
def tags (d : Derivation α ι tag) : List Tag := d.rootTag :: d.tagsBelow

/-- The tags of arithmetic; nothing of a condition lies below them. -/
def Arithmetic (tag : Tag) : Prop :=
  tag = .expr ∨ tag = .term ∨ tag = .operand ∨ tag = .int ∨ tag = .ident

theorem Arithmetic.of_mem_tagsBelow {d : Derivation α ι tag} (h : Arithmetic tag) :
    ∀ inner ∈ d.tagsBelow, Arithmetic inner := by
  induction d with
  | int | ident => simp [tagsBelow]
  | exprTerm _ _ ih | termOperand _ _ ih | operandInt _ _ ih | operandIdent _ _ ih
  | operandParen _ _ ih => simp_all [Arithmetic, tagsBelow]
  | exprAdd _ a b iha ihb | exprSub _ a b iha ihb | termMul _ a b iha ihb =>
    simp only [Arithmetic, tagsBelow, List.mem_append, List.mem_cons] at *
    grind
  | _ => simp [Arithmetic] at h

theorem Arithmetic.count_tagsBelow {d : Derivation α ι tag} {counted : Tag} (h : Arithmetic tag)
    (other : ¬ Arithmetic counted) : d.tagsBelow.count counted = 0 :=
  List.count_eq_zero.2 fun among => other (h.of_mem_tagsBelow counted among)

end Derivation

/-- A walk over a condition meets each condition and each comparison in it once. -/
theorem Cond.count_visits (c : Cond String) :
    c.visits.count .cond = c.derivation.tags.count .cond ∧
      c.visits.count .comparison = c.derivation.tags.count .comparison := by
  induction c with
  | compare c =>
    have operand : Derivation.Arithmetic .operand := .inr (.inr (.inl rfl))
    have cond : ¬ Derivation.Arithmetic .cond := by simp [Derivation.Arithmetic]
    have comparison : ¬ Derivation.Arithmetic .comparison := by simp [Derivation.Arithmetic]
    simp [visits, derivation, Comparison.derivation, Derivation.tags, Derivation.tagsBelow,
      operand.count_tagsBelow cond, operand.count_tagsBelow comparison]
  | not line c ih => simpa [visits, derivation, Derivation.tags, Derivation.tagsBelow] using ih
  | and line left right ihl ihr | or line left right ihl ihr =>
    simp only [visits, derivation, Derivation.tags, Derivation.tagsBelow, List.cons_append,
      List.count_append, List.count_cons_self, List.count_cons_of_ne, ne_eq, reduceCtorEq,
      not_false_eq_true] at ihl ihr ⊢
    omega

/-- The operands of a condition that a tree holds are held by it. -/
theorem Tree.Holds.exists_operand {t : Tree} {names : Symbol → Option String} {o : Operand String} :
    {id : NodeId} → (c : Cond String) → t.Holds names c.derivation id → .operand o ∈ c.visits →
      ∃ i, t.Holds names o.derivation i ∧ o.derivation.size ≤ c.derivation.size
  | _, .compare c, held, among => by
    obtain ⟨_, _, i, _, k, _, left, _, right⟩ := held
    simp only [Cond.visits, List.mem_cons, reduceCtorEq, Visit.operand.injEq, List.not_mem_nil,
      false_or, or_false] at among
    simp only [Cond.derivation, Comparison.derivation, Derivation.size]
    rcases among with rfl | rfl
    · exact ⟨i, left, by omega⟩
    · exact ⟨k, right, by omega⟩
  | _, .not _ c, held, among => by
    obtain ⟨_, _, inner⟩ := held
    simp only [Cond.visits, List.mem_cons, reduceCtorEq, false_or] at among
    obtain ⟨i, held, small⟩ := exists_operand c inner among
    exact ⟨i, held, Nat.le_succ_of_le small⟩
  | _, .and _ l r, held, among | _, .or _ l r, held, among => by
    obtain ⟨_, _, _, left, right⟩ := held
    simp only [Cond.visits, List.mem_cons, List.mem_append, reduceCtorEq, false_or] at among
    simp only [Cond.derivation, Derivation.size]
    rcases among with among | among
    · obtain ⟨i, held, small⟩ := exists_operand l left among
      exact ⟨i, held, by omega⟩
    · obtain ⟨i, held, small⟩ := exists_operand r right among
      exact ⟨i, held, by omega⟩

/-- A walk of the machine, seen as a walk of the state. -/
theorem Machine.eq_of_view_walk {m m' : Machine} {visits : List Visit}
    (symbols : m'.env.symbols = m.env.symbols) :
    m'.view = m.view.walk visits ↔ m' = m.count (·.after visits) :=
  ⟨fun seen => Machine.eq_of_view symbols seen, fun same => same ▸ rfl⟩

/-- Every condition of a parsed program is evaluated to its end: nothing is spared. Its
evaluation succeeds exactly if every operand in it does. The truth then is the ordinary one,
and all its conditions and comparisons have been counted. If some operand fails, the
leftmost one that does tells the fault, and what was entered before it has been counted.
The counters apart, nothing changes. -/
theorem evalCond_walks {source : String} {capacity : Nat} {parsed : Parsed} {id : NodeId}
    {node : Node} (accepted : parse source capacity = .ok parsed)
    (here : parsed.tree.node? id = some node) (condition : node.tag = .cond) :
    ∃ c : Cond String, parsed.tree.Holds parsed.symbols.name? c.derivation id ∧
      c.visits.count .cond = c.derivation.tags.count .cond ∧
      c.visits.count .comparison = c.derivation.tags.count .comparison ∧
      ∀ (m : Machine) (steps : Nat), m.env.symbols = parsed.symbols →
        parsed.tree.size ≤ steps ∨ ¬ Unfinished (parsed.tree.evalCond steps id m) →
        let vars := m.env.getByName?
        (∀ o, .operand o ∈ c.visits → ∃ i, parsed.tree.Holds parsed.symbols.name? o.derivation i ∧
          ∀ enough, parsed.tree.size ≤ enough →
            parsed.tree.evalOperand m.env enough i = (o.value vars).mapError .fault) ∧
        (∀ b m', parsed.tree.evalCond steps id m = .ok b m' ↔
          (∀ o, .operand o ∈ c.visits → ∃ v, o.value vars = .ok v) ∧
          (b = true ↔ c.Meaning (exactValues vars)) ∧
          m' = { m with counters := m.counters.after c.visits }) ∧
        ∀ stop m', parsed.tree.evalCond steps id m = .error stop m' ↔
          ∃ before o after e, c.visits = before ++ .operand o :: after ∧
            (∀ o', .operand o' ∈ before → ∃ v, o'.value vars = .ok v) ∧
            o.value vars = .error e ∧ stop = .fault e ∧
            m' = { m with counters := m.counters.after before } := by
  obtain ⟨d, p, derives, fitting, shows⟩ := parse_sound accepted
  obtain ⟨c, held, small⟩ := shows.exists_cond fitting.named here condition
  refine ⟨c, held, c.count_visits.1, c.count_visits.2, fun m steps symbols ends => ?_⟩
  have ended := Tree.evalCond_simulates c held m symbols
    (ends.imp_left fun enough => Nat.le_trans small enough)
  have walks := c.truth_walks m.view
  dsimp only
  refine ⟨fun o among => ?_, fun b m' => ?_, fun stop m' => ?_⟩
  · obtain ⟨i, inner, less⟩ := Tree.Holds.exists_operand c held among
    refine ⟨i, inner, fun enough le => ?_⟩
    rw [← symbols] at inner
    exact Tree.evalOperand_evaluates o inner (.inl (by omega))
  · constructor
    · intro ran
      rw [ran] at ended
      obtain ⟨symbols', seen⟩ := endsAs_ok.1 ended
      obtain ⟨defined, same, walked⟩ := walks.eq_ok_iff.1 seen
      exact ⟨defined, same, (Machine.eq_of_view_walk (symbols'.trans symbols.symm)).1 walked⟩
    · rintro ⟨defined, same, rfl⟩
      rw [walks.eq_ok_iff.2 ⟨defined, same, rfl⟩] at ended
      obtain ⟨m', symbols', seen, ran⟩ := ended.exists_ok
      rw [ran, (Machine.eq_of_view_walk (symbols'.trans symbols.symm)).1 seen]
      rfl
  · constructor
    · intro ran
      rw [ran] at ended
      obtain ⟨e, rfl, symbols', seen⟩ := endsAs_error.1 ended
      obtain ⟨before, ⟨o, after, split, defined, fails⟩, walked⟩ := walks.eq_error_iff.1 seen
      exact ⟨before, o, after, e, split, defined, fails, rfl,
        (Machine.eq_of_view_walk (symbols'.trans symbols.symm)).1 walked⟩
    · rintro ⟨before, o, after, e, split, defined, fails, rfl, rfl⟩
      rw [walks.eq_error_iff.2 ⟨before, ⟨o, after, split, defined, fails⟩, rfl⟩] at ended
      obtain ⟨m', symbols', seen, ran⟩ := ended.exists_error
      rw [ran, (Machine.eq_of_view_walk (symbols'.trans symbols.symm)).1 seen]
      rfl

/-- The left side is false, and the right one is evaluated all the same. -/
theorem evalCond_walks_both_sides :
    ∃ (parsed : Parsed) (c : Cond String) (before after : List Visit) (o : Operand String),
      parse "program int B; begin\nwhile [!(1==1) && (1<B)] loop write B; end; end" 100 =
        .ok parsed ∧
      parsed.tree.node? ⟨19⟩ = some (.condAnd ⟨11⟩ ⟨18⟩) ∧
      parsed.tree.Holds parsed.symbols.name? c.derivation ⟨19⟩ ∧
      c.visits = before ++ .operand o :: after ∧
      o.value (Machine.start parsed.symbols (.ofBytes [] none) {}).env.getByName? =
        .error (.uninitializedVariable "B" 2) ∧
      before.count .cond = 4 ∧ before.count .comparison = 2 := by
  obtain ⟨parsed, accepted, ran⟩ := exists_parsed_such
    "program int B; begin\nwhile [!(1==1) && (1<B)] loop write B; end; end" 100
    (fun parsed => parsed.tree.node? ⟨19⟩ = some (.condAnd ⟨11⟩ ⟨18⟩) ∧ parsed.tree.size ≤ 40 ∧
      (match parsed.tree.evalCond 40 ⟨19⟩ (.start parsed.symbols (.ofBytes [] none) {}) with
      | .ok .. => false
      | .error stop m' => decide (stop = .fault (.uninitializedVariable "B" 2) ∧
        m'.counters.conditions = 4 ∧ m'.counters.comparisons = 2)) = true)
    (by decide +kernel)
  obtain ⟨here, enough, failed⟩ := of_decide_eq_true ran
  obtain ⟨c, held, -, -, meaning⟩ := evalCond_walks accepted here rfl
  obtain ⟨-, -, fails⟩ :=
    meaning (.start parsed.symbols (.ofBytes [] none) {}) 40 rfl (.inl enough)
  split at failed
  · cases failed
  · rename_i stopped
    obtain ⟨rfl, conds, comparisons⟩ := of_decide_eq_true failed
    obtain ⟨before, o, after, e, split, -, fault, same, rfl⟩ := (fails _ _).1 stopped
    cases same
    exact ⟨parsed, c, before, after, o, accepted, here, held, split, fault,
      by simpa [Counters.after, Machine.start] using conds,
      by simpa [Counters.after, Machine.start] using comparisons⟩

end CoreLang
