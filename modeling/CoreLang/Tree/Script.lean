import CoreLang.Tree.Cursor

/-!
# Scripts for a cursor

A `Move` is one thing to do with a cursor, visits included, so a list of moves is
a whole journey. Every move leaves a `Step`: how it went and where the cursor
stood afterwards. A journey goes on after a move that failed; a visit does not.
-/

namespace CoreLang

inductive Move where
  | descend (slot : Slot)
  | ascend
  /-- Stays and fails. -/
  | refuse
  /-- Visits a slot and makes moves there, up to the first that fails. -/
  | within (slot : Slot) (moves : List Move)
deriving Repr, Inhabited

/-- What a move came to. -/
inductive Step where
  | plain (outcome : Except (Stop TreeError) Unit) (after : Cursor)
  | visit (outcome : Except (Stop TreeError) Unit) (after : Cursor) (inner : List Step)

namespace Step

def outcome : Step → Except (Stop TreeError) Unit
  | .plain outcome _ => outcome
  | .visit outcome _ _ => outcome

def after : Step → Cursor
  | .plain _ after => after
  | .visit _ after _ => after

/-- How the moves of a visit went: as the last one made, or well if there was none. -/
def conclusion (inside : Cursor) (steps : List Step) : Except (Stop TreeError) Unit × Cursor :=
  match steps.getLast? with
  | some last => (last.outcome, last.after)
  | none => (.ok (), inside)

/-- The step of a move that either gets somewhere or stays. -/
def ofResult (c : Cursor) : Except (Stop TreeError) Cursor → Step
  | .ok c' => .plain (.ok ()) c'
  | .error stop => .plain (.error stop) c

end Step

namespace Move

mutual

/-- Makes one move. -/
def perform : Move → Cursor → Step
  | .descend slot, c => .ofResult c (c.descend slot)
  | .ascend, c => .ofResult c c.ascend
  | .refuse, c => .plain (.error (.fault .empty)) c
  | .within slot moves, c =>
    match c.descend slot with
    | .error stop => .visit (.error stop) c []
    | .ok inside =>
      -- the visitor starts from `inside`, so its moves are known before the visit
      let inner := performUntilFailure moves inside
      let (outcome, after) := c.within slot fun _ => Step.conclusion inside inner
      .visit outcome after inner

/-- Makes moves up to and including the first that fails. -/
def performUntilFailure : List Move → Cursor → List Step
  | [], _ => []
  | move :: moves, c =>
    let step := perform move c
    match step.outcome with
    | .ok () => step :: performUntilFailure moves step.after
    | .error _ => [step]

end

/-- Makes all moves of a journey, those after a failure too. -/
def performAll : List Move → Cursor → List Step
  | [], _ => []
  | move :: moves, c =>
    let step := move.perform c
    step :: performAll moves step.after

end Move

end CoreLang
