import CoreLang.Proofs.Building
import CoreLang.Proofs.RuleInduction

/-!
# The room for nodes

How much room there is for nodes decides whether a parse runs out of it, and nothing else: a
rule that gets by does the same with more room (`BuildM.Roomy`), and so does a parse
(`parse_eq_of_le`).
-/

namespace CoreLang

/-- The same budget with other room for nodes. -/
def TreeBudget.withRoom (budget : TreeBudget) (capacity : Nat) : TreeBudget :=
  { budget with tree.capacity := capacity }

/-- The same state with other room for nodes. -/
def ParseState.withRoom (s : ParseState TreeBudget) (capacity : Nat) : ParseState TreeBudget :=
  { s with budget := s.budget.withRoom capacity }

namespace BuildM

variable {α β : Type}

/-- A rule that does not run out of room does the same where there is more of it. -/
def Roomy (rule : BuildM α) : Prop :=
  ∀ (s : ParseState TreeBudget) (capacity : Nat), s.budget.tree.capacity ≤ capacity →
    match rule s with
    | .ok a t =>
      rule (s.withRoom capacity) = .ok a (t.withRoom capacity) ∧
        t.budget.tree.capacity = s.budget.tree.capacity
    | .error e t =>
      e = .tree (.capacityExceeded s.budget.tree.capacity) ∨
        rule (s.withRoom capacity) = .error e (t.withRoom capacity)

namespace Roomy

theorem of_quiet {rule : BuildM α} (quiet : Quiet rule) : Roomy rule := by
  intro s capacity more
  have same := quiet s (s.budget.withRoom capacity)
  cases done : rule s with
  | ok a t =>
    rw [done] at same
    obtain ⟨kept, -, same⟩ := same
    refine ⟨?_, by rw [kept]⟩
    rw [ParseState.withRoom, ParseState.withRoom, kept]
    exact same
  | error e t =>
    rw [done] at same
    obtain ⟨rfl, -, same⟩ := same
    exact .inr same

theorem bind {x : BuildM α} {f : α → BuildM β} (first : Roomy x) (next : ∀ a, Roomy (f a)) :
    Roomy (x >>= f) := by
  intro s capacity more
  have h := first s capacity more
  simp only [Bind.bind, EStateM.bind]
  cases step : x s with
  | error e t =>
    rw [step] at h
    rcases h with full | same
    · exact .inl full
    · exact .inr (by rw [same])
  | ok a t =>
    rw [step] at h
    obtain ⟨same, room⟩ := h
    have rest := next a t capacity (room ▸ more)
    rw [room] at rest
    rw [same]
    exact rest

theorem claim : Roomy claim := by
  intro s capacity more
  by_cases free : s.budget.tree.size + s.budget.reserved < s.budget.tree.capacity
  · rw [claim_of_free free]
    exact ⟨claim_of_free (s := s.withRoom capacity) (Nat.lt_of_lt_of_le free more), rfl⟩
  · rw [claim_of_full free]
    exact .inl rfl

theorem alloc (node : Node) (line : Nat) : Roomy (alloc node line) := by
  intro s capacity more
  by_cases free : s.budget.tree.size < s.budget.tree.capacity ∧ s.budget.tree.size < NodeId.limit
  · obtain ⟨free, numbered⟩ := free
    rw [alloc_of_free free numbered]
    exact ⟨alloc_of_free (s := s.withRoom capacity) (Nat.lt_of_lt_of_le free more) numbered, rfl⟩
  · rw [alloc_of_full free]
    exact .inl rfl

theorem nested {rule : BuildM α} (inside : Roomy rule) : Roomy (nested rule) := by
  intro s capacity more
  by_cases shallow : s.depth < ParseM.maxNesting
  · have same := inside { s with depth := s.depth + 1 } capacity more
    cases done : rule { s with depth := s.depth + 1 } with
    | ok a t =>
      rw [done] at same
      rw [nested_of_ok shallow done]
      exact ⟨nested_of_ok (s := s.withRoom capacity) shallow same.1, same.2⟩
    | error e t =>
      rw [done] at same
      rw [nested_of_error shallow done]
      exact same.imp_right (nested_of_error (s := s.withRoom capacity) shallow)
  · rw [nested_of_deep shallow]
    exact .inr (nested_of_deep (s := s.withRoom capacity) shallow)

/-- Every rule is like that. -/
theorem of_assembly {spare levels opened opened' : Nat} {rule : BuildM α}
    (made : Assembly spare levels opened opened' rule) : Roomy rule := by
  induction made with
  | plain step => exact of_quiet step.quiet
  | claim => exact claim
  | alloc node line => exact alloc node line
  | unexpected expected => exact of_quiet (.unexpected expected)
  | tooDeep => exact fun _ _ _ => .inr rfl
  | bind _ _ first next => exact first.bind next
  | call _ inside => exact inside
  | nested _ inside => exact inside.nested
  | repeating _ each => exact fun s => each s.tokenCount s

end Roomy

end BuildM

/-- The same parse, recorded with another capacity. -/
def Parsed.withCapacity (parsed : Parsed) (capacity : Nat) : Parsed :=
  { parsed with tree.capacity := capacity }

/-- A parse that does not run out of room is the same with more room. -/
theorem parse_eq_of_le {source : String} {capacity capacity' : Nat} (more : capacity ≤ capacity')
    (enough : parse source capacity ≠ .error (.tree (.capacityExceeded capacity))) :
    parse source capacity' = (parse source capacity).map (·.withCapacity capacity') := by
  have begun' := ParseState.startWith_eq_map (TreeBudget.ofCapacity capacity)
    (TreeBudget.ofCapacity capacity') (TokenStream.ofSource source)
  cases begun : ParseState.startWith (TreeBudget.ofCapacity capacity)
      (TokenStream.ofSource source) with
  | error e =>
    rw [begun] at begun'
    rw [parse_of_start_error begun, parse_of_start_error begun']
    rfl
  | ok u =>
    have empty := ParseState.budget_of_startWith begun
    have room : u.budget.tree.capacity = capacity := by
      rw [empty]
      rfl
    have begun' : ParseState.startWith (TreeBudget.ofCapacity capacity')
        (TokenStream.ofSource source) = .ok (u.withRoom capacity') := by
      rw [begun', begun, ParseState.withRoom, empty]
      rfl
    have same := BuildM.Roomy.of_assembly .program u capacity' (room.symm ▸ more)
    cases done : BuildM.program u with
    | error e t =>
      rw [done, room] at same
      rw [parse_of_program_error begun done] at enough ⊢
      rcases same with rfl | same
      · exact absurd rfl enough
      · rw [parse_of_program_error begun' same]
        rfl
    | ok id t =>
      rw [done] at same
      rw [parse_of_program_ok begun done, parse_of_program_ok begun' same.1]
      rfl

end CoreLang
