import Allotment.Allot

/-! Shrinking the columns of a table to a width. Cells are taken from columns whose content can wrap, and in each
    pass from the widest of these alone, evenly, until they are as wide as the next narrower ones or the table fits.
    Where no cell is left to take, the table stays too wide. -/

namespace Allotment

/-- A column of a table. One that `wraps` can do with fewer cells. -/
structure Column where
  width : Cells
  wraps : Bool
  deriving DecidableEq, Repr

namespace Column

/-- The greatest of some widths, 0 if there is none. -/
def greatest (widths : List Cells) : Cells := widths.foldl max 0

/-- The widths of all columns. -/
def widths (columns : List Column) : List Cells := columns.map (·.width)

/-- The widths of the columns that can shrink. -/
def wrappingWidths (columns : List Column) : List Cells := widths (columns.filter (·.wraps))

/-- The width of the widest columns that can shrink. -/
def widest (columns : List Column) : Cells := greatest (wrappingWidths columns)

/-- The width of the next narrower ones, 0 if all are equally wide. -/
def runnerUp (columns : List Column) : Cells :=
  let widest := widest columns
  greatest ((wrappingWidths columns).filter (· ≠ widest))

/-- The cells between the widest columns and the next narrower ones. -/
def gap (columns : List Column) : Nat := (widest columns).toNat - (runnerUp columns).toNat

/-- A column that can shrink and has a given width. -/
def givesAt (width : Cells) (column : Column) : Bool := column.wraps && column.width == width

/-- Takes up to `excess` cells from the widest columns, and from none more than the gap below it. -/
def squeeze (excess : Nat) (columns : List Column) : Traced (List Column) :=
  let widest := widest columns
  let limit := Cells.nearest (min excess (gap columns) : Nat)
  let ratios := columns.map fun column => if column.givesAt widest then 1 else 0
  (cappedSizes excess ratios (columns.map fun _ => limit) (widths columns)).map fun cuts =>
    columns.zipWith (fun column cut =>
      if column.givesAt widest then { column with width := column.width.minus cut } else column) cuts

/-- Squeezes columns until they fit into `limit` cells, or nothing is left to take. That the widths also stand after a
    pass that takes nothing is there for the recursion to end: where the sum of the widths fits 64 bits, every pass
    takes cells (`total_squeeze_lt`). -/
def shrink (limit : Cells) (columns : List Column) : Traced (List Column) :=
  let total := Cells.total (widths columns)
  if total ≤ limit.toNat ∨ gap columns = 0 then .quiet columns
  else
    let excess := total - limit.toNat
    let pass := squeeze excess columns
    let left := Cells.total (widths pass.value)
    let events := pass.events ++ [.squeezed excess left (widths pass.value)]
    if left < total then
      let later := shrink limit pass.value
      ⟨later.value, events ++ later.events⟩
    else ⟨pass.value, events⟩
termination_by Cells.total (widths columns)

end Column

/-- Shrinks columns of given widths to `limit` cells in total; `wraps` tells which of them can shrink. -/
def shrinkColumns (widths : List Cells) (wraps : List Bool) (limit : Cells) :
    Except AllotError (Traced (List Cells)) := do
  checkLength "wrapable flags" widths.length wraps.length
  return (Column.shrink limit (widths.zipWith Column.mk wraps)).map Column.widths

end Allotment
