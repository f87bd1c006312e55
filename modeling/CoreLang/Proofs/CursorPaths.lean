import Mathlib.Data.List.Chain
import CoreLang.Proofs.Shape
import CoreLang.Tree.Script

/-!
# Where a cursor can be

The nodes above a cursor and the node under it are a way down from the root
(`Cursor.OnPath`). Going down a slot and going up keep it so, and all that is done with a
cursor comes down to these two: `Visits` follows a visitor through them, however it goes
on after a failure and however deep its visits lie inside one another, and notes every
place on the way.

A visitor without steps of its own, made of visits and answers only, ends where it began.
-/

namespace CoreLang

namespace Cursor

variable {c inside back : Cursor} {slot : Slot} {t : Tree} {root : NodeId}

/-! ### Single steps -/

theorem descend_eq_ok_iff :
    c.descend slot = .ok inside ↔ ∃ child, c.tree.Keeps c.current slot child ∧
      inside = { c with current := child, ancestors := c.current :: c.ancestors } := by
  unfold descend node Tree.Keeps
  cases found : c.tree.node? c.current with
  | none =>
    constructor
    · intro h
      cases h
    · rintro ⟨child, ⟨node, here, -⟩, -⟩
      cases here
  | some node =>
    cases held : node.child? slot with
    | none =>
      constructor
      · intro h
        simp only [bind, Except.bind, held] at h
        cases h
      · rintro ⟨child, ⟨_, ⟨⟩, kept⟩, -⟩
        rw [held] at kept
        cases kept
    | some child =>
      simp only [bind, Except.bind, held, Except.ok.injEq, Option.some.injEq]
      constructor
      · rintro rfl
        exact ⟨child, ⟨node, rfl, held⟩, rfl⟩
      · rintro ⟨_, ⟨_, rfl, kept⟩, rfl⟩
        rw [held] at kept
        cases kept
        rfl

theorem descend_of_child? {node : Node} {child : NodeId} (here : c.node = .ok node)
    (kept : node.child? slot = some child) :
    c.descend slot = .ok { c with current := child, ancestors := c.current :: c.ancestors } := by
  rw [descend, here]
  simp only [bind, Except.bind, kept]

theorem descend_of_empty {node : Node} (here : c.node = .ok node)
    (empty : node.child? slot = none) :
    c.descend slot = .error (.fault (.emptySlot node.tag slot)) := by
  rw [descend, here]
  simp only [bind, Except.bind, empty]

theorem ascend_eq_ok_iff :
    c.ascend = .ok back ↔ ∃ parent above, c.ancestors = parent :: above ∧
      back = { c with current := parent, ancestors := above } := by
  unfold ascend
  cases c.ancestors with
  | nil => simp
  | cons parent above =>
    simp only [Except.ok.injEq, List.cons.injEq]
    constructor
    · rintro rfl
      exact ⟨parent, above, ⟨rfl, rfl⟩, rfl⟩
    · rintro ⟨_, _, ⟨rfl, rfl⟩, rfl⟩
      rfl

theorem node_eq_ok_iff {node : Node} :
    c.node = .ok node ↔ c.tree.node? c.current = some node := by
  unfold Cursor.node
  cases c.tree.node? c.current with
  | none => simp
  | some found => simp

/-! ### Ways down -/

/-- The nodes from the top down to the current one. -/
def path (c : Cursor) : List NodeId :=
  c.ancestors.reverse ++ [c.current]

/-- The path of a cursor in the tree starts at `root`, and each node on it stands in a slot
of the one before. -/
structure OnPath (c : Cursor) (t : Tree) (root : NodeId) : Prop where
  tree_eq : c.tree = t
  starts : c.path.head? = some root
  chained : c.path.IsChain fun parent child => ∃ slot, t.Keeps parent slot child

theorem onPath_root (t : Tree) (root : NodeId) :
    OnPath { tree := t, current := root, ancestors := [] } t root :=
  ⟨rfl, rfl, .singleton root⟩

theorem onPath_cons {tree : Tree} {child parent : NodeId} {above : List NodeId} :
    OnPath { tree := tree, current := child, ancestors := parent :: above } t root ↔
      OnPath { tree := tree, current := parent, ancestors := above } t root ∧
        ∃ slot, t.Keeps parent slot child := by
  have longer : path { tree := tree, current := child, ancestors := parent :: above } =
      path { tree := tree, current := parent, ancestors := above } ++ [child] := by
    simp [path]
  have starts : (path { tree := tree, current := child, ancestors := parent :: above }).head? =
      (path { tree := tree, current := parent, ancestors := above }).head? := by
    rw [longer, List.head?_append_of_ne_nil]
    simp [path]
  have last : (path { tree := tree, current := parent, ancestors := above }).getLast? =
      some parent := by
    simp [path]
  constructor
  · rintro ⟨tree_eq, top, chained⟩
    rw [longer, List.isChain_append] at chained
    obtain ⟨upper, -, joined⟩ := chained
    exact ⟨⟨tree_eq, starts ▸ top, upper⟩, joined parent last child rfl⟩
  · rintro ⟨⟨tree_eq, top, upper⟩, kept⟩
    refine ⟨tree_eq, starts.trans top, ?_⟩
    rw [longer, List.isChain_append]
    refine ⟨upper, .singleton child, ?_⟩
    intro parent' isLast child' isFirst
    rw [last] at isLast
    cases isLast
    cases isFirst
    exact kept

theorem OnPath.descend (h : c.OnPath t root) (down : c.descend slot = .ok inside) :
    inside.OnPath t root := by
  obtain ⟨child, kept, rfl⟩ := descend_eq_ok_iff.1 down
  rw [h.tree_eq] at kept
  exact onPath_cons.2 ⟨h, slot, kept⟩

theorem OnPath.ascend (h : c.OnPath t root) (up : c.ascend = .ok back) : back.OnPath t root := by
  obtain ⟨tree, current, ancestors⟩ := c
  obtain ⟨parent, above, rfl, rfl⟩ := ascend_eq_ok_iff.1 up
  exact (onPath_cons.1 h).1

theorem OnPath.reaches (h : c.OnPath t root) : t.Reaches root c.current := by
  obtain ⟨tree, current, ancestors⟩ := c
  induction ancestors generalizing current with
  | nil =>
    obtain rfl : current = root := by simpa [path] using h.starts
    exact .root
  | cons parent above ih =>
    obtain ⟨upper, slot, kept⟩ := onPath_cons.1 h
    exact .part (ih parent upper) kept

end Cursor

/-! ### Visitors -/

/-- Something done with a cursor: what it comes to, and where the cursor is left. -/
abbrev Visitor (α : Type) := Cursor → Except (Stop TreeError) α × Cursor

/-- A move as something to do with a cursor. -/
def Move.visitor (move : Move) : Visitor Unit :=
  fun c => ((move.perform c).outcome, (move.perform c).after)

/-- What a visitor does, begun at a cursor, is made of answers, visits and, if it `roams`,
single steps; `met` are the places where it stood, the first one included. Whatever came
out of one part, an error too, may decide what is done next. -/
inductive Visits (roams : Bool) : {α : Type} → Visitor α → Cursor → (met : List Cursor) → Prop where
  | answer {α : Type} (found : Except (Stop TreeError) α) (c : Cursor) :
      Visits roams (fun c => (found, c)) c [c]
  | descend (free : roams = true) (slot : Slot) (c : Cursor) :
      Visits roams (Move.descend slot).visitor c [c, ((Move.descend slot).visitor c).2]
  | ascend (free : roams = true) (c : Cursor) :
      Visits roams Move.ascend.visitor c [c, (Move.ascend.visitor c).2]
  | closed {α : Type} {visit : Visitor α} {c : Cursor} {slot : Slot} {stop : Stop TreeError}
      (shut : c.descend slot = .error stop) : Visits roams (·.within slot visit) c [c]
  | within {α : Type} {visit : Visitor α} {c inside : Cursor} {slot : Slot} {met : List Cursor}
      (down : c.descend slot = .ok inside) (inner : Visits roams visit inside met) :
      Visits roams (·.within slot visit) c (c :: met ++ [(c.within slot visit).2])
  | next {α β : Type} {first : Visitor α} {later : Except (Stop TreeError) α → Visitor β}
      {c : Cursor} {met met' : List Cursor} (start : Visits roams first c met)
      (rest : Visits roams (later (first c).1) (first c).2 met') :
      Visits roams (fun c => later (first c).1 (first c).2) c (met ++ met')
  | like {α : Type} {visit other : Visitor α} {c : Cursor} {met : List Cursor}
      (same : visit c = other c) (visits : Visits roams visit c met) : Visits roams other c met

namespace Cursor

variable {α : Type} {c inside : Cursor} {slot : Slot} {visit : Visitor α}

/-- A visitor that leaves the cursor where it found it makes a visit that does so too, and
the visit comes to what the visitor comes to. -/
theorem within_of_stays (down : c.descend slot = .ok inside) (stays : (visit inside).2 = inside) :
    c.within slot visit = ((visit inside).1, c) := by
  simp only [within, down, stays, ascend_of_descend down]

theorem within_of_closed {stop : Stop TreeError} (shut : c.descend slot = .error stop) :
    c.within slot visit = (.error stop, c) := by
  simp only [within, shut]

end Cursor

namespace Move

variable {c : Cursor} {stop : Stop TreeError}

/-- A step down that fails leaves the cursor as it was. -/
theorem after_descend_of_error {slot : Slot}
    (fails : ((Move.descend slot).perform c).outcome = .error stop) :
    ((Move.descend slot).perform c).after = c := by
  simp only [perform] at fails ⊢
  cases down : c.descend slot with
  | error stop => rfl
  | ok inside =>
    rw [down] at fails
    cases fails

/-- A step up that fails leaves the cursor as it was. -/
theorem after_ascend_of_error (fails : (Move.ascend.perform c).outcome = .error stop) :
    (Move.ascend.perform c).after = c := by
  simp only [perform] at fails ⊢
  cases up : c.ascend with
  | error stop => rfl
  | ok back =>
    rw [up] at fails
    cases fails

theorem perform_ascend_of_descend {slot : Slot}
    (goes : ((Move.descend slot).perform c).outcome = .ok ()) :
    Move.ascend.perform ((Move.descend slot).perform c).after = .plain (.ok ()) c := by
  simp only [perform] at goes
  cases down : c.descend slot with
  | error stop =>
    rw [down] at goes
    cases goes
  | ok inside =>
    simp only [perform, down, Step.ofResult, Step.after, Cursor.ascend_of_descend down]

end Move

namespace Visits

variable {α : Type} {visit : Visitor α} {c : Cursor} {met : List Cursor} {roams : Bool}
  {t : Tree} {root : NodeId}

/-- From a place on a path, only places on paths are met, and one is left. -/
theorem onPath (h : Visits roams visit c met) (begins : c.OnPath t root) :
    (∀ d ∈ met, d.OnPath t root) ∧ (visit c).2.OnPath t root := by
  induction h with
  | answer found c => exact ⟨by simpa using begins, begins⟩
  | descend free slot c =>
    have left : ((Move.descend slot).visitor c).2.OnPath t root := by
      unfold Move.visitor Move.perform
      cases down : c.descend slot with
      | ok inside => exact begins.descend down
      | error stop => exact begins
    exact ⟨by simpa using ⟨begins, left⟩, left⟩
  | ascend free c =>
    have left : (Move.ascend.visitor c).2.OnPath t root := by
      unfold Move.visitor Move.perform
      cases up : c.ascend with
      | ok back => exact begins.ascend up
      | error stop => exact begins
    exact ⟨by simpa using ⟨begins, left⟩, left⟩
  | closed shut =>
    simp only [Cursor.within_of_closed shut]
    exact ⟨by simpa using begins, begins⟩
  | @within _ visit c inside slot met down inner ih =>
    obtain ⟨places, last⟩ := ih (begins.descend down)
    have left : (c.within slot visit).2.OnPath t root := by
      simp only [Cursor.within, down]
      cases up : (visit inside).2.ascend with
      | ok back => exact last.ascend up
      | error stop => exact last
    refine ⟨fun d among => ?_, left⟩
    simp only [List.cons_append, List.mem_cons, List.mem_append, List.not_mem_nil, or_false]
      at among
    rcases among with rfl | among | rfl
    · exact begins
    · exact places d among
    · exact left
  | next start rest ih ih' =>
    obtain ⟨places, middle⟩ := ih begins
    obtain ⟨places', last⟩ := ih' middle
    refine ⟨fun d among => ?_, last⟩
    exact (List.mem_append.1 among).elim (places d) (places' d)
  | like same visits ih =>
    rw [← same]
    exact ih begins

/-- Without single steps a visitor ends where it began. -/
theorem stays (h : Visits false visit c met) : (visit c).2 = c := by
  generalize fixed : false = roams at h
  induction h with
  | answer found c => rfl
  | descend free | ascend free =>
    rw [← fixed] at free
    cases free
  | closed shut => simp only [Cursor.within_of_closed shut]
  | within down inner ih => simp only [Cursor.within_of_stays down ih]
  | next start rest ih ih' => exact ih'.trans ih
  | like same visits ih => rw [← same, ih]

end Visits

/-! ### Journeys -/

/-- The cursor stood there at the end of the step or of a step inside it. -/
inductive Step.Shows : Step → Cursor → Prop where
  | after (step : Step) : Step.Shows step step.after
  | inner {outcome : Except (Stop TreeError) Unit} {after c : Cursor} {steps : List Step}
      {step : Step} (among : step ∈ steps) (shows : step.Shows c) :
      Step.Shows (.visit outcome after steps) c

/-- A step that is no visit shows one place. -/
theorem Step.Shows.eq_of_ofResult {c d : Cursor} {result : Except (Stop TreeError) Cursor}
    (h : (Step.ofResult c result).Shows d) : d = (Step.ofResult c result).after := by
  cases result with
  | ok c' => cases h; rfl
  | error stop => cases h; rfl

namespace Move

/-- What the moves of a visit do, one after the other, up to the first that fails. -/
def untilFailure (moves : List Move) : Visitor Unit :=
  fun c => Step.conclusion c (performUntilFailure moves c)

theorem untilFailure_cons (move : Move) (moves : List Move) (c : Cursor) :
    untilFailure (move :: moves) c =
      match (move.visitor c).1 with
      | .ok () => untilFailure moves (move.visitor c).2
      | .error stop => (.error stop, (move.visitor c).2) := by
  simp only [untilFailure, visitor, performUntilFailure]
  cases ended : (move.perform c).outcome with
  | error stop => simp [Step.conclusion, ended]
  | ok done =>
    simp only [Step.conclusion]
    cases later : (performUntilFailure moves (move.perform c).after).getLast? with
    | some last => simp [List.getLast?_cons, later]
    | none => simp [List.getLast?_cons, later, ended]

theorem perform_within_of_closed {c : Cursor} {slot : Slot} {stop : Stop TreeError}
    (moves : List Move) (shut : c.descend slot = .error stop) :
    (Move.within slot moves).perform c = .visit (.error stop) c [] := by
  simp only [perform, shut]

theorem perform_within {c inside : Cursor} {slot : Slot} (moves : List Move)
    (down : c.descend slot = .ok inside) :
    (Move.within slot moves).perform c =
      .visit (c.within slot (untilFailure moves)).1 (c.within slot (untilFailure moves)).2
        (performUntilFailure moves inside) := by
  simp only [perform, Cursor.within, down, untilFailure]

theorem visitor_within (slot : Slot) (moves : List Move) (c : Cursor) :
    (Move.within slot moves).visitor c = c.within slot (untilFailure moves) := by
  unfold visitor
  cases down : c.descend slot with
  | error stop =>
    rw [perform_within_of_closed moves down, Cursor.within_of_closed down]
    rfl
  | ok inside =>
    rw [perform_within moves down]
    rfl

/-- A move that takes no single step: it refuses, or it visits and makes such moves there. -/
inductive Tethered : Move → Prop where
  | refuse : Tethered .refuse
  | within {slot : Slot} {moves : List Move} (inner : ∀ move ∈ moves, move.Tethered) :
      Tethered (.within slot moves)

mutual

/-- A move is made of steps and visits, and the places it shows are met on the way. Steps
are needed only by moves that are not tethered. -/
theorem exists_visits (roams : Bool) : (move : Move) → (c : Cursor) →
    (roams = false → move.Tethered) →
    ∃ met, Visits roams move.visitor c met ∧ ∀ d, (move.perform c).Shows d → d ∈ met
  | .descend slot, c, tethered => by
    have free : roams = true := by
      cases roams with
      | false => cases tethered rfl
      | true => rfl
    refine ⟨_, .descend free slot c, fun d shows => ?_⟩
    simp only [perform] at shows
    obtain rfl := shows.eq_of_ofResult
    exact List.mem_cons_of_mem _ (List.mem_singleton.2 (by simp only [visitor, perform]))
  | .ascend, c, tethered => by
    have free : roams = true := by
      cases roams with
      | false => cases tethered rfl
      | true => rfl
    refine ⟨_, .ascend free c, fun d shows => ?_⟩
    simp only [perform] at shows
    obtain rfl := shows.eq_of_ofResult
    exact List.mem_cons_of_mem _ (List.mem_singleton.2 (by simp only [visitor, perform]))
  | .refuse, c, _ => by
    refine ⟨[c], .like (by simp only [visitor, perform, Step.outcome, Step.after])
      (.answer (.error (.fault .empty)) c), fun d shows => ?_⟩
    simp only [perform] at shows
    cases shows
    exact List.mem_singleton.2 rfl
  | .within slot moves, c, tethered => by
    have same := (visitor_within slot moves c).symm
    cases down : c.descend slot with
    | error stop =>
      refine ⟨_, .like same (.closed down), fun d shows => ?_⟩
      rw [perform_within_of_closed moves down] at shows
      cases shows with
      | after => exact List.mem_singleton.2 rfl
      | inner among => cases among
    | ok inside =>
      obtain ⟨met, visits, places⟩ := exists_visits_untilFailure roams moves inside fun fixed => by
        cases tethered fixed with
        | within inner => exact inner
      refine ⟨_, .like same (.within down visits), fun d shows => ?_⟩
      rw [perform_within moves down] at shows
      cases shows with
      | after => exact List.mem_append_right _ (List.mem_singleton.2 rfl)
      | inner among shows =>
        exact List.mem_append_left _ (List.mem_cons_of_mem _ (places _ among d shows))

theorem exists_visits_untilFailure (roams : Bool) : (moves : List Move) → (c : Cursor) →
    (roams = false → ∀ move ∈ moves, move.Tethered) →
    ∃ met, Visits roams (untilFailure moves) c met ∧
      ∀ step ∈ performUntilFailure moves c, ∀ d, step.Shows d → d ∈ met
  | [], c, _ => ⟨[c], .like rfl (.answer (.ok ()) c), by simp [performUntilFailure]⟩
  | move :: moves, c, tethered => by
    obtain ⟨met, visits, places⟩ :=
      exists_visits roams move c fun fixed => tethered fixed move List.mem_cons_self
    -- what is done behind the first move, whatever that came to
    let later : Except (Stop TreeError) Unit → Visitor Unit
      | .ok () => untilFailure moves
      | .error stop => fun c => (.error stop, c)
    have same : later (move.visitor c).1 (move.visitor c).2 = untilFailure (move :: moves) c := by
      rw [untilFailure_cons]
      cases (move.visitor c).1 <;> rfl
    cases ended : (move.perform c).outcome with
    | error stop =>
      have rest : Visits roams (later (move.visitor c).1) (move.visitor c).2
          [(move.visitor c).2] := by
        rw [visitor, ended]
        exact .answer (.error stop) _
      refine ⟨_, .like same (.next visits rest), fun step among d shows => ?_⟩
      simp only [performUntilFailure, ended, List.mem_singleton] at among
      subst among
      exact List.mem_append_left _ (places d shows)
    | ok done =>
      obtain ⟨met', visits', places'⟩ := exists_visits_untilFailure roams moves
        (move.perform c).after fun fixed move among =>
          tethered fixed move (List.mem_cons_of_mem _ among)
      have rest : Visits roams (later (move.visitor c).1) (move.visitor c).2 met' := by
        rw [visitor, ended]
        exact visits'
      refine ⟨_, .like same (.next visits rest), fun step among d shows => ?_⟩
      simp only [performUntilFailure, ended, List.mem_cons] at among
      rcases among with rfl | among
      · exact List.mem_append_left _ (places d shows)
      · exact List.mem_append_right _ (places' step among d shows)

end

/-- A tethered move ends where it began. -/
theorem Tethered.after_eq {move : Move} (h : move.Tethered) (c : Cursor) :
    (move.perform c).after = c := by
  obtain ⟨met, visits, -⟩ := move.exists_visits false c fun _ => h
  exact visits.stays

/-- A journey that begins on a path stays on paths, whatever fails on the way. -/
theorem performAll_onPath {t : Tree} {root : NodeId} {moves : List Move} {c : Cursor}
    (begins : c.OnPath t root) :
    ∀ step ∈ performAll moves c, ∀ d, step.Shows d → d.OnPath t root := by
  induction moves generalizing c with
  | nil =>
    intro step among
    cases among
  | cons move moves ih =>
    obtain ⟨met, visits, places⟩ := move.exists_visits true c nofun
    obtain ⟨all, left⟩ := visits.onPath begins
    intro step among d shows
    simp only [performAll, List.mem_cons] at among
    rcases among with rfl | among
    · exact all d (places d shows)
    · exact ih left step among d shows

end Move

theorem Tree.exists_node? {t : Tree} {id : NodeId} (within : id.index < t.size) :
    ∃ node, t.node? id = some node := by
  have found : t.entries[id.index]? = some t.entries[id.index] := Array.getElem?_eq_getElem within
  exact ⟨_, by rw [Tree.node?, found]; rfl⟩

/-- What is met on the way down from the root is there. -/
theorem Tree.WellShaped.exists_node? {t : Tree} {root id : NodeId} (h : t.WellShaped root)
    (reached : t.Reaches root id) : ∃ node, t.node? id = some node := by
  cases reached with
  | root =>
    have last := h.last
    exact Tree.exists_node? (by omega)
  | part above kept =>
    obtain ⟨node, here, held⟩ := kept
    obtain ⟨part, found, -⟩ := h.tagged here held
    exact ⟨part, found⟩

/-- On the tree of a parse a cursor is always at the end of a way down from the root: after
every move of a journey, and at every place of a visit inside one, whatever failed before,
and wherever else a visitor takes it. There is a node at each such place.

A step down or up that fails leaves the cursor as it was, and a step up takes back a step
down. A visit of a slot with something in it ends where it began and comes to what its
visitor comes to, if the visitor leaves the cursor where it found it; so does every visitor
without single steps of its own. A visit of an empty slot fails on the spot. -/
theorem parse_cursor_onPath {source : String} {capacity : Nat} {parsed : Parsed}
    (accepted : parse source capacity = .ok parsed) :
    ∃ root start, parsed.tree.root = some root ∧ parsed.tree.cursor = .ok start ∧
      start.path = [root] ∧
      (∀ moves, ∀ step ∈ Move.performAll moves start, ∀ c, step.Shows c →
        c.OnPath parsed.tree root) ∧
      ∀ c : Cursor, c.OnPath parsed.tree root →
        (∀ (α : Type) (visit : Visitor α) (met : List Cursor), Visits true visit c met →
          (∀ d ∈ met, d.OnPath parsed.tree root) ∧ (visit c).2.OnPath parsed.tree root) ∧
        (∀ slot stop, ((Move.descend slot).perform c).outcome = .error stop →
          ((Move.descend slot).perform c).after = c) ∧
        (∀ stop, (Move.ascend.perform c).outcome = .error stop →
          (Move.ascend.perform c).after = c) ∧
        (∀ slot, ((Move.descend slot).perform c).outcome = .ok () →
          Move.ascend.perform ((Move.descend slot).perform c).after = .plain (.ok ()) c) ∧
        (∀ move : Move, move.Tethered → (move.perform c).after = c) ∧
        ∃ node, c.node = .ok node ∧ ∀ (α : Type) (visit : Visitor α) (slot : Slot),
          (node.child? slot = none →
            c.within slot visit = (.error (.fault (.emptySlot node.tag slot)), c)) ∧
          ∀ child, node.child? slot = some child →
            let inside := { c with current := child, ancestors := c.current :: c.ancestors }
            ((visit inside).2 = inside → c.within slot visit = ((visit inside).1, c)) ∧
            ∀ met, Visits false visit inside met → c.within slot visit = ((visit inside).1, c) := by
  obtain ⟨d, p, derives, fitting, shows⟩ := parse_sound accepted
  have shaped := Tree.wellShaped_of_stored shows.stored shows.root_eq
  have start : parsed.tree.cursor =
      .ok { tree := parsed.tree, current := p.derivation.root 0, ancestors := [] } := by
    simp only [Tree.cursor, shows.root_eq]
  refine ⟨_, _, shows.root_eq, start, rfl,
    fun moves => Move.performAll_onPath (Cursor.onPath_root _ _), fun c onPath => ?_⟩
  refine ⟨fun α visit met visits => visits.onPath onPath,
    fun slot stop => Move.after_descend_of_error, fun stop => Move.after_ascend_of_error,
    fun slot => Move.perform_ascend_of_descend, fun move tethered => tethered.after_eq c, ?_⟩
  obtain ⟨node, found⟩ := shaped.exists_node? onPath.reaches
  have here : c.node = .ok node := by
    rw [Cursor.node_eq_ok_iff, onPath.tree_eq, found]
  refine ⟨node, here, fun α visit slot => ⟨fun empty => ?_, fun child kept => ?_⟩⟩
  · exact Cursor.within_of_closed (Cursor.descend_of_empty here empty)
  · have down := Cursor.descend_of_child? here kept
    exact ⟨Cursor.within_of_stays down, fun met visits => Cursor.within_of_stays down visits.stays⟩

/-- The journey fails at the root, visits the statements with a visitor that climbs out above
where it began, and goes on. -/
theorem parse_cursor_onPath_past_failures :
    ∃ parsed root start, parse "program int A; begin A = 1; end" 40 = .ok parsed ∧
      parsed.tree.root = some root ∧ parsed.tree.cursor = .ok start ∧
      ∃ step ∈ Move.performAll [.ascend, .descend .third,
          .within .second [.within .first [.refuse], .ascend, .ascend],
          .within .second [.ascend], .descend .second, .descend .first] start,
        step.after.OnPath parsed.tree root ∧ step.after.depth = 2 := by
  obtain ⟨parsed, accepted, deep⟩ := exists_parsed_such "program int A; begin A = 1; end" 40
    (fun parsed => parsed.tree.cursor.toOption.any fun start =>
      (Move.performAll [.ascend, .descend .third,
        .within .second [.within .first [.refuse], .ascend, .ascend],
        .within .second [.ascend], .descend .second, .descend .first] start).any
          fun step => step.after.depth = 2)
    (by decide +kernel)
  obtain ⟨root, start, rooted, begins, -, stays, -⟩ := parse_cursor_onPath accepted
  rw [begins] at deep
  obtain ⟨step, among, depth⟩ := List.any_eq_true.1 deep
  exact ⟨parsed, root, start, accepted, rooted, begins, step, among,
    stays _ step among _ (.after step), of_decide_eq_true depth⟩

end CoreLang
