import Allotment.Columns
import Allotment.Slot

/-! Sessions: allotments one after another, each of which may start from the sizes that the one before it left. A
    step that is refused leaves the sizes as they were. -/

namespace Allotment

/-- The sizes at hand. -/
structure Session where
  sizes : List Cells := []
  deriving DecidableEq, Repr

namespace Session

/-- A way to other sizes. -/
inductive Change
  /-- Shares a total out anew, with the sizes as minimums or without any. -/
  | atLeast (total : Cells) (ratios : List Cells) (sizesAsMinimums : Bool)
  | fill (total : Cells) (slots : List Slot)
  /-- Shares a total out under maximums, by default the sizes; a slot of ratio 0 keeps its size. -/
  | atMost (total : Cells) (ratios : List Cells) (maximums : Option (List Cells))
  /-- Takes a total away from the sizes in proportion to `ratios`. -/
  | takeAway (total : Cells) (ratios : List Cells)
  | shrink (wraps : List Bool) (limit : Cells)
  /-- Shares another total out in proportion to the sizes. -/
  | rescale (total : Cells)
  deriving DecidableEq, Repr

/-- A step changes the sizes, or only looks at the parts of a budget in proportion to them. -/
inductive Step
  | change (change : Change)
  | parts (budget : Int)
  deriving DecidableEq, Repr

/-- What a step answers. -/
inductive Answer
  | sizes (sizes : List Cells)
  | parts (parts : List Int)
  | refused (error : AllotError)
  deriving DecidableEq, Repr

/-- The sizes to which a change leads. -/
def changed (session : Session) : Change → Except AllotError (Traced (List Cells))
  | .atLeast total ratios sizesAsMinimums =>
    allotAtLeast total ratios (if sizesAsMinimums then some session.sizes else none)
  | .fill total slots => Slot.fill total slots
  | .atMost total ratios maximums => allotAtMost total ratios (maximums.getD session.sizes) session.sizes
  | .takeAway total ratios => do
    let cuts ← allotAtMost total ratios session.sizes (session.sizes.map fun _ => 0)
    return cuts.map (session.sizes.zipWith Cells.minus ·)
  | .shrink wraps limit => shrinkColumns session.sizes wraps limit
  | .rescale total => allotAtLeast total session.sizes none

/-- Carries out one step. -/
def step (session : Session) : Step → Session × Traced Answer
  | .change change =>
    match session.changed change with
    | .ok sizes => (⟨sizes.value⟩, sizes.map .sizes)
    | .error error => (session, .quiet (.refused error))
  | .parts budget => (session, .quiet (.parts (LargestRemainder.parts budget session.sizes)))

/-- Carries out steps in order. -/
def run (session : Session) : List Step → Session × Traced (List Answer)
  | [] => (session, .quiet [])
  | first :: rest =>
    let (next, answer) := session.step first
    let (last, answers) := next.run rest
    (last, ⟨answer.value :: answers.value, answer.events ++ answers.events⟩)

end Session
end Allotment
