import Mathlib.Data.List.Chain
import CoreLang.Proofs.Safety

/-!
# The account of a parse

A rule claims its node when it begins and adds it when it is done, a chain keeps a claim for
every link that is put aside, and a rule goes one level in where it nests. The assembly of a
rule tells the points that it passes, one primitive step after the other (`Assembly.leads`), and
for each of them how many nodes are claimed and how many levels are entered there.

The account that the state keeps of both is right at every point, for every step keeps it so
(`Point.Accounted.moves`), and so are its limits (`Point.Fits.moves`): the tree has room for the
claimed nodes. That no more levels are entered than nodes are claimed can be read off the
assembly; so in a tree for no more nodes than there are levels, the levels are never used up.
-/

namespace CoreLang

namespace BuildM

/-! ### Points and steps -/

/-- A point of a parse: the state there, and how many nodes are claimed and not yet added and
how many levels are entered and not yet left. -/
structure Point where
  state : ParseState TreeBudget
  nodes : Nat := 0
  levels : Nat := 0
deriving Repr, DecidableEq, Inhabited

/-- The state in which a step ends, well or not. -/
def endState {α : Type} :
    EStateM.Result ParseError (ParseState TreeBudget) α → ParseState TreeBudget
  | .ok _ t | .error _ t => t

namespace Point

/-- One level further in. -/
def inner (p : Point) : Point :=
  { p with state.depth := p.state.depth + 1, levels := p.levels + 1 }

/-- One level further out. -/
def outer (p : Point) : Point :=
  { p with state.depth := p.state.depth - 1, levels := p.levels - 1 }

/-- A primitive step leads from one point to the next. Where one rule follows another, the
last point of the first is the first point of the second. -/
inductive Moves : Point → Point → Prop where
  | stay {p : Point} : Moves p p
  | plain {p : Point} {α : Type} {rule : BuildM α} {a : α} {t : ParseState TreeBudget}
      (step : Plain rule) (done : rule p.state = .ok a t) : Moves p { p with state := t }
  | opened {p : Point} {line : Nat} {t : ParseState TreeBudget}
      (done : claim p.state = .ok line t) : Moves p { p with state := t, nodes := p.nodes + 1 }
  | closed {p : Point} (node : Node) (line : Nat) :
    Moves { p with nodes := p.nodes + 1 } { p with state := endState (alloc node line p.state) }
  | entered {p : Point} (shallow : p.state.depth < ParseM.maxNesting) : Moves p p.inner
  | left {p : Point} (inside : 0 < p.levels) : Moves p p.outer

end Point

/-! ### The points of a rule -/

section Points

variable {α β : Type}

/-- The points behind a step, if there is anything behind it. -/
def behind (result : EStateM.Result ParseError (ParseState TreeBudget) α)
    (go : α → ParseState TreeBudget → List Point) : List Point :=
  match result with
  | .ok a t => go a t
  | .error _ _ => []

theorem mem_behind {result : EStateM.Result ParseError (ParseState TreeBudget) α}
    {go : α → ParseState TreeBudget → List Point} {p : Point} :
    p ∈ behind result go ↔ ∃ a t, result = .ok a t ∧ p ∈ go a t := by
  cases result with
  | ok a t => exact ⟨fun h => ⟨a, t, rfl, h⟩, by rintro ⟨_, _, ⟨⟩, h⟩; exact h⟩
  | error e t => simp [behind]

/-- The points that a rule passes from a state on, where so many nodes are claimed around the
rule and so many levels are entered. -/
def Assembly.points {spare levels opened opened' : Nat} {α : Type} {rule : BuildM α} :
    Assembly spare levels opened opened' rule → (nodes around : Nat) → ParseState TreeBudget →
      List Point
  | .plain _, nodes, around, s =>
    ⟨s, nodes + opened, around⟩ :: behind (rule s) fun _ t => [⟨t, nodes + opened, around⟩]
  | .claim, nodes, around, s =>
    ⟨s, nodes + opened, around⟩ ::
      behind (BuildM.claim s) fun _ t => [⟨t, nodes + (opened + 1), around⟩]
  | .alloc node line, nodes, around, s =>
    [⟨s, nodes + (opened' + 1), around⟩,
      ⟨endState (BuildM.alloc node line s), nodes + opened', around⟩]
  | .unexpected _, nodes, around, s => [⟨s, nodes + opened, around⟩]
  | .tooDeep, nodes, around, s => [⟨s, nodes, around⟩]
  | @Assembly.bind _ _ _ _ _ _ _ x _ first next, nodes, around, s =>
    first.points nodes around s ++ behind (x s) fun a t => (next a).points nodes around t
  | .call inside, nodes, around, s => inside.points (nodes + opened) around s
  | .nested inside, nodes, around, s =>
    ⟨s, nodes, around⟩ ::
      if s.depth < ParseM.maxNesting then
        let passed := inside.points nodes (around + 1) { s with depth := s.depth + 1 }
        -- the level is left where the rule inside ends, also if it fails
        passed ++ passed.getLast?.toList.map Point.outer
      else []
  | .repeating each, nodes, around, s => (each s.tokenCount).points nodes around s

/-- The points lead from the first one to where a rule ends, step by step; if it ends well,
`nodes` are claimed there. As many levels are entered then as in the beginning. -/
structure Leads (first : Point) (nodes : Nat)
    (result : EStateM.Result ParseError (ParseState TreeBudget) α) (points : List Point) :
    Prop where
  head : points.head? = some first
  chain : points.IsChain Point.Moves
  last : match result with
    | .ok _ t => points.getLast? = some ⟨t, nodes, first.levels⟩
    | .error _ t => ∃ p, points.getLast? = some p ∧ p.state = t ∧ p.levels = first.levels

namespace Leads

variable {s : ParseState TreeBudget} {nodes nodes' nodes'' around : Nat}

/-- A rule that stops at once. -/
theorem stop (e : ParseError) (s : ParseState TreeBudget) (nodes nodes' around : Nat) :
    Leads ⟨s, nodes, around⟩ nodes' (.error e s : EStateM.Result _ _ α) [⟨s, nodes, around⟩] :=
  ⟨rfl, .singleton _, _, rfl, rfl, rfl⟩

theorem plain {rule : BuildM α} (step : Plain rule) (s : ParseState TreeBudget)
    (nodes around : Nat) :
    Leads ⟨s, nodes, around⟩ nodes (rule s)
      (⟨s, nodes, around⟩ :: behind (rule s) fun _ t => [⟨t, nodes, around⟩]) := by
  have quiet := step.quiet s s.budget
  cases done : rule s with
  | ok a t => exact ⟨rfl, .cons_cons (.plain step done) (.singleton _), rfl⟩
  | error e t =>
    rw [done] at quiet
    obtain ⟨rfl, -⟩ := quiet
    exact .stop e t nodes nodes around

theorem claim (s : ParseState TreeBudget) (nodes around : Nat) :
    Leads ⟨s, nodes, around⟩ (nodes + 1) (claim s)
      (⟨s, nodes, around⟩ :: behind (BuildM.claim s) fun _ t => [⟨t, nodes + 1, around⟩]) := by
  by_cases free : s.budget.tree.size + s.budget.reserved < s.budget.tree.capacity
  · have done := claim_of_free free
    rw [done]
    exact ⟨rfl, .cons_cons (.opened done) (.singleton _), rfl⟩
  · rw [claim_of_full free]
    exact .stop _ s nodes (nodes + 1) around

theorem alloc (node : Node) (line : Nat) (s : ParseState TreeBudget) (nodes around : Nat) :
    Leads ⟨s, nodes + 1, around⟩ nodes (alloc node line s)
      [⟨s, nodes + 1, around⟩, ⟨endState (BuildM.alloc node line s), nodes, around⟩] := by
  refine ⟨rfl, .cons_cons (.closed (p := ⟨s, nodes, around⟩) node line) (.singleton _), ?_⟩
  cases BuildM.alloc node line s with
  | ok id t => rfl
  | error e t => exact ⟨_, rfl, rfl, rfl⟩

theorem bind {x : BuildM α} {f : α → BuildM β} {points : List Point}
    {next : α → ParseState TreeBudget → List Point}
    (first : Leads ⟨s, nodes, around⟩ nodes' (x s) points)
    (follow : ∀ a t, Leads ⟨t, nodes', around⟩ nodes'' (f a t) (next a t)) :
    Leads ⟨s, nodes, around⟩ nodes'' ((x >>= f) s) (points ++ behind (x s) next) := by
  have head (others : List Point) : (points ++ others).head? = some ⟨s, nodes, around⟩ := by
    rw [List.head?_append, first.head]
    rfl
  have last := first.last
  simp only [Bind.bind, EStateM.bind]
  cases done : x s with
  | error e t =>
    rw [done] at last
    refine ⟨head _, ?_, ?_⟩
    · simpa [behind] using first.chain
    · simpa [behind] using last
  | ok a t =>
    rw [done] at last
    have others := follow a t
    refine ⟨head _, List.isChain_append.2 ⟨first.chain, others.chain, ?_⟩, ?_⟩
    · intro p lastly q firstly
      rw [last] at lastly
      rw [behind, others.head] at firstly
      cases lastly
      cases firstly
      exact .stay
    · have ended := others.last
      simp only [behind, List.getLast?_append]
      cases result : f a t with
      | ok b u =>
        rw [result] at ended
        simp [ended]
      | error e u =>
        rw [result] at ended
        obtain ⟨p, found, here⟩ := ended
        exact ⟨p, by simp [found], here⟩

/-- The last point of a rule. -/
theorem exists_last {first : Point}
    {result : EStateM.Result ParseError (ParseState TreeBudget) α} {points : List Point}
    (h : Leads first nodes result points) : ∃ p, points.getLast? = some p ∧
      p.state = endState result ∧ p.levels = first.levels := by
  have last := h.last
  cases result with
  | ok a t => exact ⟨_, last, rfl, rfl⟩
  | error e t => exact last

/-- A rule one level further in leads in, through the rule and out again. -/
theorem nested {rule : BuildM α} {points : List Point} (shallow : s.depth < ParseM.maxNesting)
    (inside : Leads ⟨{ s with depth := s.depth + 1 }, nodes, around + 1⟩ nodes
      (rule { s with depth := s.depth + 1 }) points) :
    Leads ⟨s, nodes, around⟩ nodes (nested rule s)
      (⟨s, nodes, around⟩ :: (points ++ points.getLast?.toList.map Point.outer)) := by
  obtain ⟨p, found, ended, within⟩ := inside.exists_last
  have enters : ∀ q ∈ (points ++ points.getLast?.toList.map Point.outer).head?,
      Point.Moves ⟨s, nodes, around⟩ q := by
    intro q here
    rw [List.head?_append, inside.head] at here
    cases here
    exact .entered (p := ⟨s, nodes, around⟩) shallow
  have leaves : p.Moves p.outer := .left (within ▸ Nat.succ_pos around)
  have chain : (points ++ points.getLast?.toList.map Point.outer).IsChain Point.Moves := by
    rw [found]
    refine List.isChain_append.2 ⟨inside.chain, .singleton _, ?_⟩
    intro q lastly r here
    rw [found] at lastly
    cases lastly
    cases here
    exact leaves
  have last : (⟨s, nodes, around⟩ :: (points ++ points.getLast?.toList.map Point.outer)).getLast? =
      some p.outer := by
    simp [found, List.getLast?_cons]
  refine ⟨rfl, .cons chain enters, ?_⟩
  rw [last]
  cases done : rule { s with depth := s.depth + 1 } with
  | ok a t =>
    have here := inside.last
    rw [done] at here
    obtain rfl := Option.some.inj (found.symm.trans here)
    rw [nested_of_ok shallow done]
    rfl
  | error e t =>
    rw [done] at ended
    rw [nested_of_error shallow done]
    refine ⟨p.outer, rfl, ?_, congrArg (· - 1) within⟩
    rw [Point.outer, ended]
    rfl

end Leads

/-- The points of a rule lead from its start to its end. -/
theorem Assembly.leads {spare levels opened opened' : Nat} {rule : BuildM α}
    (made : Assembly spare levels opened opened' rule) (nodes around : Nat)
    (s : ParseState TreeBudget) :
    Leads ⟨s, nodes + opened, around⟩ (nodes + opened') (rule s) (made.points nodes around s) := by
  induction made generalizing nodes around s with
  | plain step => exact .plain step s _ around
  | claim => exact .claim s _ around
  | alloc node line => exact .alloc node line s _ around
  | unexpected | tooDeep => exact .stop _ s _ _ around
  | bind _ _ first next => exact (first nodes around s).bind fun a t => next a nodes around t
  | call _ inside => exact inside _ around s
  | nested _ inside =>
    by_cases shallow : s.depth < ParseM.maxNesting
    · simp only [points, shallow, if_true]
      exact (inside nodes (around + 1) _).nested shallow
    · simp only [points, shallow, if_false]
      rw [nested_of_deep shallow]
      exact .stop _ s _ _ around
  | repeating _ each => exact each s.tokenCount nodes around s

end Points

/-! ### The account -/

/-- The state keeps account of the nodes that are claimed and the levels that are entered. -/
structure Point.Accounted (p : Point) : Prop where
  reserved_eq : p.state.budget.reserved = p.nodes
  depth_eq : p.state.depth = p.levels

/-- The tree has this capacity, with room for all that is claimed, and there are no more levels
than there may be. -/
structure Point.Fits (capacity : Nat) (p : Point) : Prop extends p.Accounted where
  capacity_eq : p.state.budget.tree.capacity = capacity
  room : p.state.budget.tree.size + p.state.budget.reserved ≤ capacity
  shallow : p.state.depth ≤ ParseM.maxNesting

section Moves

variable {p q : Point}

/-- A step that adds a node gives its claim back, whether or not there is room. -/
theorem reserved_endState_alloc (node : Node) (line : Nat) (s : ParseState TreeBudget) :
    (endState (alloc node line s)).budget.reserved = s.budget.reserved - 1 ∧
      (endState (alloc node line s)).depth = s.depth ∧
      (endState (alloc node line s)).budget.tree.capacity = s.budget.tree.capacity ∧
      (endState (alloc node line s)).budget.tree.size ≤ s.budget.tree.size + 1 := by
  by_cases free : s.budget.tree.size < s.budget.tree.capacity ∧ s.budget.tree.size < NodeId.limit
  · rw [alloc_of_free free.1 free.2]
    exact ⟨rfl, rfl, rfl, by simp [endState, withNode, Tree.size]⟩
  · rw [alloc_of_full free]
    exact ⟨rfl, rfl, rfl, Nat.le_succ _⟩

theorem claim_eq_ok {s t : ParseState TreeBudget} {line : Nat} (done : claim s = .ok line t) :
    s.budget.tree.size + s.budget.reserved < s.budget.tree.capacity ∧
      t = { s with budget.reserved := s.budget.reserved + 1 } := by
  by_cases free : s.budget.tree.size + s.budget.reserved < s.budget.tree.capacity
  · obtain ⟨-, rfl⟩ := EStateM.Result.ok.inj (done.symm.trans (claim_of_free free))
    exact ⟨free, rfl⟩
  · cases done.symm.trans (claim_of_full free)

theorem Plain.account_eq {α : Type} {rule : BuildM α} {s t : ParseState TreeBudget} {a : α}
    (step : Plain rule) (done : rule s = .ok a t) : t.budget = s.budget ∧ t.depth = s.depth := by
  have quiet := step.quiet s s.budget
  rw [done] at quiet
  exact ⟨quiet.1, quiet.2.1⟩

/-- Every step keeps the account. -/
theorem Point.Accounted.moves (h : p.Accounted) (step : p.Moves q) : q.Accounted := by
  obtain ⟨reserved, depth⟩ := h
  cases step with
  | stay => exact ⟨reserved, depth⟩
  | plain step done =>
    obtain ⟨budget, level⟩ := step.account_eq done
    exact ⟨(congrArg _ budget).trans reserved, level.trans depth⟩
  | opened done =>
    obtain ⟨-, rfl⟩ := claim_eq_ok done
    exact ⟨congrArg (· + 1) reserved, depth⟩
  | @closed p node line =>
    obtain ⟨given, level, -⟩ := reserved_endState_alloc node line p.state
    exact ⟨given.trans (congrArg (· - 1) reserved), level.trans depth⟩
  | entered => exact ⟨reserved, congrArg (· + 1) depth⟩
  | left => exact ⟨reserved, congrArg (· - 1) depth⟩

/-- Every step stays within the limits. -/
theorem Point.Fits.moves {capacity : Nat} (h : p.Fits capacity) (step : p.Moves q) :
    q.Fits capacity := by
  have accounted := h.toAccounted.moves step
  obtain ⟨before, capacity_eq, room, shallow⟩ := h
  cases step with
  | stay => exact ⟨accounted, capacity_eq, room, shallow⟩
  | plain step done =>
    obtain ⟨budget, level⟩ := step.account_eq done
    exact ⟨accounted, budget ▸ capacity_eq, budget ▸ room, level ▸ shallow⟩
  | opened done =>
    obtain ⟨free, rfl⟩ := claim_eq_ok done
    exact ⟨accounted, capacity_eq, capacity_eq ▸ free, shallow⟩
  | @closed p node line =>
    obtain ⟨given, level, same, grown⟩ := reserved_endState_alloc node line p.state
    refine ⟨accounted, same.trans capacity_eq, ?_, Nat.le_trans (Nat.le_of_eq level) shallow⟩
    -- the node that is added had been claimed
    have claimed : p.state.budget.reserved = p.nodes + 1 := before.reserved_eq
    simp only at room ⊢
    omega
  | entered free => exact ⟨accounted, capacity_eq, room, free⟩
  | left => exact ⟨accounted, capacity_eq, room, Nat.le_trans (Nat.sub_le _ _) shallow⟩

end Moves

namespace Assembly

variable {spare levels opened opened' : Nat} {α : Type} {rule : BuildM α}
  {s t : ParseState TreeBudget} {nodes around : Nat}

/-- What every step keeps holds at all points of a rule, if it holds at the first. -/
theorem forall_points {P : Point → Prop} (made : Assembly spare levels opened opened' rule)
    (kept : ∀ {p q : Point}, P p → p.Moves q → P q) (start : P ⟨s, nodes + opened, around⟩) :
    ∀ p ∈ made.points nodes around s, P p := by
  have path := made.leads nodes around s
  refine path.chain.induction _ _ (fun p q step h => kept h step) fun nonempty => ?_
  have first := path.head
  rw [List.head?_eq_some_head nonempty] at first
  rw [Option.some.inj first]
  exact start

/-- A rule that is done keeps the account. -/
theorem accounted_of_ok (made : Assembly spare levels opened opened' rule)
    (start : Point.Accounted ⟨s, nodes + opened, around⟩) {a : α} (done : rule s = .ok a t) :
    Point.Accounted ⟨t, nodes + opened', around⟩ := by
  have last := (made.leads nodes around s).last
  rw [done] at last
  exact made.forall_points .moves start _ (List.mem_of_getLast? last)

/-- A rule leaves all levels that it enters, however it ends. -/
theorem depth_eq (made : Assembly spare levels opened opened' rule)
    (claimed : opened ≤ s.budget.reserved) : (endState (rule s)).depth = s.depth := by
  have start : Point.Accounted ⟨s, s.budget.reserved - opened + opened, s.depth⟩ :=
    ⟨(Nat.sub_add_cancel claimed).symm, rfl⟩
  obtain ⟨p, last, ended, level⟩ :=
    (made.leads (s.budget.reserved - opened) s.depth s).exists_last
  have account := made.forall_points .moves start p (List.mem_of_getLast? last)
  rw [← ended, account.depth_eq, level]

/-- Where the levels around a rule are covered, they are covered at each of its own points,
whatever it has claimed itself. -/
theorem covered_point (covered : around + spare ≤ nodes) (claimed : Nat)
    (s : ParseState TreeBudget) :
    Point.levels ⟨s, nodes + claimed, around⟩ ≤ Point.nodes ⟨s, nodes + claimed, around⟩ := by
  simp only
  omega

/-- No more levels are entered than nodes are claimed, at any point of a rule. -/
theorem levels_le (made : Assembly spare levels opened opened' rule)
    (covered : around + spare ≤ nodes) (s : ParseState TreeBudget) :
    ∀ p ∈ made.points nodes around s, p.levels ≤ p.nodes := by
  induction made generalizing nodes around s with
  | plain | claim =>
    intro p h
    rcases List.mem_cons.1 h with rfl | h
    · exact covered_point covered _ _
    · obtain ⟨_, t, -, h⟩ := mem_behind.1 h
      obtain rfl := List.mem_singleton.1 h
      exact covered_point covered _ _
  | alloc =>
    intro p h
    rcases List.mem_cons.1 h with rfl | h
    · exact covered_point covered _ _
    · obtain rfl := List.mem_singleton.1 h
      exact covered_point covered _ _
  | unexpected =>
    intro p h
    obtain rfl := List.mem_singleton.1 h
    exact covered_point covered _ _
  | tooDeep =>
    intro p h
    obtain rfl := List.mem_singleton.1 h
    exact covered_point covered 0 _
  | bind _ _ first next =>
    intro p h
    rcases List.mem_append.1 h with h | h
    · exact first covered s p h
    · obtain ⟨a, t, -, h⟩ := mem_behind.1 h
      exact next a covered t p h
  | call _ inside => exact inside (by omega) s
  | nested _ inside =>
    intro p h
    rcases List.mem_cons.1 h with rfl | h
    · exact covered_point covered 0 _
    · split at h
      · have within := @inside nodes (around + 1) (by omega) { s with depth := s.depth + 1 }
        rcases List.mem_append.1 h with h | h
        · exact within p h
        · obtain ⟨q, last, rfl⟩ := List.mem_map.1 h
          have := within q (List.mem_of_getLast? (Option.mem_toList.1 last))
          exact Nat.le_trans (Nat.sub_le _ _) this
      · cases h
  | repeating _ each => exact each s.tokenCount covered s

theorem bind_eq_error {β : Type} {x : BuildM α} {f : α → BuildM β} {e : ParseError} :
    (x >>= f) s = .error e t ↔ x s = .error e t ∨ ∃ a u, x s = .ok a u ∧ f a u = .error e t := by
  change EStateM.bind x f s = .error e t ↔ _
  unfold EStateM.bind
  cases x s with
  | ok a u =>
    constructor
    · exact fun h => .inr ⟨a, u, rfl, h⟩
    · rintro (⟨⟨⟩⟩ | ⟨a', u', found, h⟩)
      cases found
      exact h
  | error e' u => simp

/-- A rule that nests too deeply has come to a point where more nodes are claimed than there
are levels in all. -/
theorem exists_deep (made : Assembly spare levels opened opened' rule)
    (start : Point.Accounted ⟨s, nodes + opened, around⟩) (covered : around + spare ≤ nodes)
    (left : s.depth + levels = ParseM.maxNesting) {limit : Nat}
    (stopped : rule s = .error (.tree (.nestingTooDeep limit)) t) :
    ∃ p ∈ made.points nodes around s, ParseM.maxNesting < p.nodes := by
  induction made generalizing nodes around s t with
  | plain step =>
    have quiet := step.quiet s s.budget
    rw [stopped] at quiet
    exact absurd rfl (quiet.2.1 _)
  | claim =>
    by_cases free : s.budget.tree.size + s.budget.reserved < s.budget.tree.capacity
    · cases stopped.symm.trans (claim_of_free free)
    · cases stopped.symm.trans (claim_of_full free)
  | alloc node line =>
    by_cases free : s.budget.tree.size < s.budget.tree.capacity ∧ s.budget.tree.size < NodeId.limit
    · cases stopped.symm.trans (alloc_of_free free.1 free.2)
    · cases stopped.symm.trans (alloc_of_full free)
  | unexpected => cases stopped
  | tooDeep =>
    have level : s.depth = around := start.depth_eq
    exact ⟨_, List.mem_singleton_self _, by simp only; omega⟩
  | bind first _ one next =>
    rcases bind_eq_error.1 stopped with stopped | ⟨a, u, done, stopped⟩
    · obtain ⟨p, h, deep⟩ := one start covered left stopped
      exact ⟨p, List.mem_append_left _ h, deep⟩
    · have account := first.accounted_of_ok start done
      have level : u.depth = s.depth := account.depth_eq.trans start.depth_eq.symm
      obtain ⟨p, h, deep⟩ := next a account covered (level ▸ left) stopped
      exact ⟨p, List.mem_append_right _ (mem_behind.2 ⟨a, u, done, h⟩), deep⟩
  | call _ inside => exact inside start (by omega) left stopped
  | @nested spare levels _ rule _ inside =>
    -- a level is left, so it is entered
    have shallow : s.depth < ParseM.maxNesting := by omega
    cases done : rule { s with depth := s.depth + 1 } with
    | ok a u => cases stopped.symm.trans (nested_of_ok shallow done)
    | error e u =>
      obtain ⟨rfl, -⟩ :=
        EStateM.Result.error.inj (stopped.symm.trans (nested_of_error shallow done))
      obtain ⟨p, h, deep⟩ := @inside { s with depth := s.depth + 1 } u nodes (around + 1)
        ⟨start.reserved_eq, congrArg (· + 1) start.depth_eq⟩ (by omega) (by simp only; omega) done
      refine ⟨p, List.mem_cons_of_mem _ ?_, deep⟩
      rw [if_pos shallow]
      exact List.mem_append_left _ h
  | repeating _ each => exact each s.tokenCount start covered left stopped

end Assembly

/-- The account at a point of a parse into a tree of this capacity, as it should be. -/
structure Point.InOrder (capacity : Nat) (p : Point) : Prop where
  room : p.state.budget.tree.size + p.state.budget.reserved ≤ capacity
  /-- Reserved are the nodes of the rules that have begun and of the links that are put aside. -/
  reserved_eq : p.state.budget.reserved = p.nodes
  depth_eq : p.state.depth = p.levels
  shallow : p.state.depth ≤ ParseM.maxNesting
  covered : p.state.depth ≤ p.state.budget.reserved
  /-- Where a node is claimed, the tree takes one. -/
  settles : 0 < p.nodes → ∀ node line, ∃ grown, p.state.budget.tree.alloc node line = .ok grown

end BuildM

section Parse

variable {source : String} {capacity : Nat} {s : ParseState TreeBudget}

/-- A parse starts with nothing claimed and no level entered. -/
theorem ParseState.fits_of_startWith
    (begun : startWith (TreeBudget.ofCapacity capacity) (TokenStream.ofSource source) = .ok s) :
    BuildM.Point.Fits capacity { state := s } := by
  have empty := budget_of_startWith begun
  have level := (starts (fun l hl => TokenStream.token_ne_eof hl) (startWith_view begun)).depth
  have level : s.depth = 0 := level
  refine ⟨⟨?_, level⟩, ?_, ?_, ?_⟩ <;> simp only [empty, level]
  · rfl
  · rfl
  · exact Nat.zero_le _
  · exact Nat.zero_le _

theorem point_inOrder (addressable : capacity ≤ NodeId.limit)
    (begun : ParseState.startWith (TreeBudget.ofCapacity capacity)
      (TokenStream.ofSource source) = .ok s) :
    ∀ p ∈ BuildM.Assembly.program.points 0 0 s, p.InOrder capacity := by
  intro p passed
  have fits := BuildM.Assembly.program.forall_points .moves
    (ParseState.fits_of_startWith begun) p passed
  have nested := BuildM.Assembly.program.levels_le (Nat.le_refl 0) s p passed
  obtain ⟨⟨reserved, depth⟩, same, room, shallow⟩ := fits
  refine ⟨room, reserved, depth, shallow, by omega, fun claimed node line => ?_⟩
  have free : p.state.budget.tree.size < p.state.budget.tree.capacity ∧
      p.state.budget.tree.size < NodeId.limit := by omega
  exact ⟨_, if_pos free⟩

/-- In a tree for no more nodes than there are levels, the levels are not used up. -/
theorem parse_ne_nestingTooDeep (small : capacity ≤ ParseM.maxNesting) (limit : Nat) :
    parse source capacity ≠ .error (.tree (.nestingTooDeep limit)) := by
  intro failed
  rcases parse_eq_error failed with ⟨fault, -, blamed⟩ | ⟨u, t, begun, stopped⟩
  · exact ParseError.ofScan_ne_tree fault _ blamed.symm
  · have fits := ParseState.fits_of_startWith begun
    have level : u.depth = 0 := fits.depth_eq
    obtain ⟨p, passed, deep⟩ := BuildM.Assembly.program.exists_deep fits.toAccounted
      (Nat.le_refl 0) (by rw [level, Nat.zero_add]) stopped
    have addressable : capacity ≤ NodeId.limit := Nat.le_trans small (by decide)
    have point := point_inOrder addressable begun p passed
    have := point.room
    have := point.reserved_eq
    omega

/-- From its first step to its last, a parse keeps account of the tree that it builds. At
every point the reserved nodes are those of the rules that have begun and of the links that
are put aside, they fit the tree together with the nodes that are in it, and there are at least
as many as levels were entered; each rule gives back what it took, and a level also if it
fails. So adding a node never fails, nor does making the last one the root, and a tree for a
thousand nodes is never nested too deeply. -/
theorem parse_keeps_account (addressable : capacity ≤ NodeId.limit) :
    (∀ s, ParseState.startWith (TreeBudget.ofCapacity capacity) (TokenStream.ofSource source) =
        .ok s →
      BuildM.Leads { state := s } 0 (BuildM.program s) (BuildM.Assembly.program.points 0 0 s) ∧
      (∀ p ∈ BuildM.Assembly.program.points 0 0 s, p.InOrder capacity) ∧
      ∀ id t, BuildM.program s = .ok id t → parse source capacity =
        .ok { tree := { t.budget.tree with root := some id }, symbols := t.symbols }) ∧
    (∀ {spare levels : Nat} {α : Type} {rule : BuildM α},
      BuildM.Assembly spare levels 0 0 rule → ∀ s,
        (∀ a t, rule s = .ok a t → t.budget.reserved = s.budget.reserved ∧ t.depth = s.depth) ∧
        ∀ e t, rule s = .error e t → t.depth = s.depth) ∧
    (capacity ≤ 1000 → ∀ limit,
      parse source capacity ≠ .error (.tree (.nestingTooDeep limit))) := by
  refine ⟨fun s begun => ⟨BuildM.Assembly.program.leads 0 0 s, point_inOrder addressable begun,
    fun id t done => parse_of_program_ok begun done⟩, fun made s => ⟨fun a t done => ?_,
    fun e t stopped => ?_⟩, parse_ne_nestingTooDeep⟩
  · have start : BuildM.Point.Accounted ⟨s, s.budget.reserved + 0, s.depth⟩ := ⟨rfl, rfl⟩
    have account := made.accounted_of_ok start done
    exact ⟨account.reserved_eq, account.depth_eq⟩
  · have level := made.depth_eq (s := s) (Nat.zero_le _)
    rw [stopped] at level
    exact level

/-- A tree for thirteen nodes is full inside the parentheses: five nodes are in it, and eight
are claimed around the one level. -/
theorem parse_keeps_account_inside :
    ∃ s p, ParseState.startWith (TreeBudget.ofCapacity 13)
        (TokenStream.ofSource "program int X; begin X = (1); end") = .ok s ∧
      p ∈ BuildM.Assembly.program.points 0 0 s ∧ p.nodes = 8 ∧ p.state.budget.tree.size = 5 ∧
      p.state.budget.reserved = 8 ∧ p.levels = 1 ∧ p.state.depth = 1 ∧
      (∃ grown, p.state.budget.tree.alloc (.int 1) 1 = .ok grown) ∧
      ∀ limit, parse "program int X; begin X = (1); end" 13 ≠
        .error (.tree (.nestingTooDeep limit)) := by
  obtain ⟨account, -, shallow⟩ :=
    @parse_keeps_account "program int X; begin X = (1); end" 13 (by decide)
  obtain ⟨s, begun, passes⟩ := exists_ok_such
    (ParseState.startWith (TreeBudget.ofCapacity 13)
      (TokenStream.ofSource "program int X; begin X = (1); end"))
    (fun s => (BuildM.Assembly.program.points 0 0 s).any fun p =>
      p.nodes = 8 ∧ p.state.budget.tree.size = 5 ∧ p.levels = 1) (by decide +kernel)
  obtain ⟨p, passed, here⟩ := List.any_eq_true.1 passes
  obtain ⟨nodes, size, levels⟩ := of_decide_eq_true here
  obtain ⟨-, points, -⟩ := account s begun
  have point := points p passed
  exact ⟨s, p, begun, passed, nodes, size, point.reserved_eq.trans nodes, levels,
    point.depth_eq.trans levels, point.settles (by omega) _ _, shallow (by decide)⟩

end Parse

end CoreLang
