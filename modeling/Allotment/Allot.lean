import Allotment.Error
import Allotment.Rounds

/-! The two allotments of a total among ratios: with a least size for every slot, and with a greatest. -/

namespace Allotment

/-! ### With least sizes -/

/-- The sizes with which a budget is shared out among slots that do not go below `minimums`. The budget may be
    negative; the sizes are not. -/
def flooredSizes (budget : Int) (ratios minimums : List Cells) : Traced (List Cells) :=
  let settlement := settle .floor budget (entrants ratios minimums)
  ⟨settlement.sizes (ratios.map fun _ => 0), settlement.events .floor⟩

theorem length_flooredSizes (budget : Int) (ratios minimums : List Cells) :
    (flooredSizes budget ratios minimums).value.length = ratios.length := by
  simp [flooredSizes, Settlement.length_sizes]

/-- Shares `total` out in proportion to `ratios`, with no slot below its minimum. The sizes add up to `total`, unless
    the minimums alone exceed it: then every slot has its minimum. -/
def allotAtLeast (total : Cells) (ratios : List Cells) (minimums : Option (List Cells)) :
    Except AllotError (Traced (List Cells)) := do
  if let some minimums := minimums then
    checkLength "minimums" ratios.length minimums.length
  checkRatios ratios
  return flooredSizes total.toNat ratios (minimums.getD (ratios.map fun _ => 0))

/-! ### With greatest sizes -/

/-- The sizes with which a budget is shared out among the slots of a positive ratio, none above its maximum; the
    other slots keep their value. -/
def cappedSizes (budget : Nat) (ratios maximums values : List Cells) : Traced (List Cells) :=
  let settlement := settle .cap budget ((entrants ratios maximums).filter fun entrant => 0 < entrant.ratio)
  ⟨settlement.sizes values, settlement.events .cap⟩

theorem length_cappedSizes (budget : Nat) (ratios maximums values : List Cells) :
    (cappedSizes budget ratios maximums values).value.length = values.length := by
  simp [cappedSizes, Settlement.length_sizes]

/-- Shares `total` out in proportion to `ratios`, with no slot above its maximum. The sizes add up to `total`, unless
    the maximums fall short of it: then every slot has its maximum. A slot of ratio 0 keeps its value. -/
def allotAtMost (total : Cells) (ratios maximums values : List Cells) : Except AllotError (Traced (List Cells)) := do
  checkLength "maximums" ratios.length maximums.length
  checkLength "values" ratios.length values.length
  return cappedSizes total.toNat ratios maximums values

end Allotment
