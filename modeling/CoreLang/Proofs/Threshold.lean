import Mathlib.Data.Nat.Find
import CoreLang.Proofs.Safety

/-!
# The node budget is a threshold

A parse that does not run out of room does the same with more of it (`parse_eq_of_le`). So for
each text there is a number of nodes below which every parse runs out of room and from which on
all parses agree; for a program it is the number of its nodes.
-/

namespace CoreLang

/-- As many nodes make a parse of the text come to its end: with less room it runs out of
it, and from there on the room makes no difference. -/
structure IsThreshold (source : String) (nodes : Nat) : Prop where
  below : ∀ capacity ≤ NodeId.limit, capacity < nodes →
    parse source capacity = .error (.tree (.capacityExceeded capacity))
  enough : ∀ capacity ≤ NodeId.limit, nodes ≤ capacity →
    parse source capacity ≠ .error (.tree (.capacityExceeded capacity))
  same : ∀ capacity ≤ NodeId.limit, ∀ capacity' ≤ NodeId.limit, nodes ≤ capacity →
    nodes ≤ capacity' →
      parse source capacity' = (parse source capacity).map (·.withCapacity capacity')
  size_eq : ∀ capacity ≤ NodeId.limit, nodes ≤ capacity → ∀ parsed,
    parse source capacity = .ok parsed → parsed.tree.size = nodes

/-- A program is parsed with exactly as much room as it has nodes. -/
theorem exists_parse_size {source : String} {capacity : Nat} {parsed : Parsed}
    (accepted : parse source capacity = .ok parsed) :
    ∃ again, parse source parsed.tree.size = .ok again := by
  obtain ⟨d, p, derives, fitting, shows⟩ := parse_sound accepted
  obtain ⟨again, _, accepted', _⟩ := exists_parse derives
    ⟨fitting.named, Nat.le_of_eq shows.size_eq.symm, fitting.shallow⟩ shows.size_le_limit
  exact ⟨again, accepted'⟩

theorem size_le_capacity {source : String} {capacity : Nat} {parsed : Parsed}
    (accepted : parse source capacity = .ok parsed) : parsed.tree.size ≤ capacity := by
  obtain ⟨d, p, derives, fitting, shows⟩ := parse_sound accepted
  rw [shows.size_eq]
  exact fitting.small

/-- With more room a parse that did not run out of it does not either. -/
theorem enough_of_le {source : String} {capacity capacity' : Nat} (more : capacity ≤ capacity')
    (enough : parse source capacity ≠ .error (.tree (.capacityExceeded capacity))) :
    parse source capacity' ≠ .error (.tree (.capacityExceeded capacity')) := by
  intro full
  rw [parse_eq_of_le more enough] at full
  cases outcome : parse source capacity with
  | ok parsed =>
    rw [outcome] at full
    cases full
  | error e =>
    rw [outcome] at full
    cases full
    -- a parse that runs out of room names the room it had
    rcases parse_tree_error outcome with same | deep
    · cases same
      exact enough outcome
    · cases deep

/-- The least room that is enough is a threshold. -/
theorem isThreshold_of_least {source : String} {nodes : Nat}
    (enough : parse source nodes ≠ .error (.tree (.capacityExceeded nodes)))
    (below : ∀ capacity ≤ NodeId.limit, capacity < nodes →
      parse source capacity = .error (.tree (.capacityExceeded capacity))) :
    IsThreshold source nodes := by
  have agree {capacity : Nat} (more : nodes ≤ capacity) :
      parse source capacity = (parse source nodes).map (·.withCapacity capacity) :=
    parse_eq_of_le more enough
  refine ⟨below, fun _ _ more => enough_of_le more enough, ?_, ?_⟩
  · intro capacity _ capacity' _ more more'
    rw [agree more, agree more']
    cases parse source nodes <;> rfl
  · intro capacity addressable more parsed accepted
    apply Nat.le_antisymm
    · -- the same nodes were made with just the least room
      have outcome := agree more
      rw [accepted] at outcome
      cases least : parse source nodes with
      | error e =>
        rw [least] at outcome
        cases outcome
      | ok first =>
        rw [least] at outcome
        cases outcome
        have small : first.tree.size ≤ nodes := size_le_capacity least
        exact small
    · -- with less room than the nodes take, the parse would have run out of it
      obtain ⟨again, accepted'⟩ := exists_parse_size accepted
      by_contra less
      have small := Nat.le_trans (size_le_capacity accepted) addressable
      rw [below parsed.tree.size small (Nat.lt_of_not_le less)] at accepted'
      cases accepted'

/-- Every text has a number of nodes below which parses run out of room, with just that
error, and from which on they all have one outcome but for the capacity they record. If
this is a program, the number is that of its nodes. -/
theorem exists_threshold (source : String) : ∃ nodes, IsThreshold source nodes := by
  classical
  by_cases possible : ∃ capacity, capacity ≤ NodeId.limit ∧
      parse source capacity ≠ .error (.tree (.capacityExceeded capacity))
  · obtain ⟨-, enough⟩ := Nat.find_spec possible
    refine ⟨Nat.find possible, isThreshold_of_least enough ?_⟩
    intro capacity addressable less
    by_contra enough
    exact Nat.find_min possible less ⟨addressable, enough⟩
  · -- no room that can be addressed is enough
    refine ⟨NodeId.limit + 1, ?_, ?_, ?_, ?_⟩
    · intro capacity addressable _
      by_contra enough
      exact possible ⟨capacity, addressable, enough⟩
    · intro capacity addressable more
      omega
    · intro capacity addressable _ _ more
      omega
    · intro capacity addressable more
      omega

end CoreLang
