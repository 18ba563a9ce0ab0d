import Allotment.Slot

/-! Regions of a screen, and their division into pieces along an axis. The pieces lie one after another from the
    region's origin and keep its extent across the axis. Pieces that overflow the region go past its far edge. -/

namespace Allotment

/-- The axis along which pieces lie: left to right, or top to bottom. -/
inductive Axis
  | horizontal | vertical
  deriving DecidableEq, Repr

namespace Axis

/-- Pieces lie left to right unless something else is said. -/
def standard : Axis := .horizontal

def name : Axis → String
  | .horizontal => "Horizontal"
  | .vertical => "Vertical"

def all : List Axis := [.horizontal, .vertical]

/-- The axis of a given name. -/
def ofName? (text : String) : Option Axis := all.find? (·.name == text)

theorem ofName?_name (axis : Axis) : ofName? axis.name = some axis := by
  cases axis <;> decide

/-- The axis across. -/
def across : Axis → Axis
  | .horizontal => .vertical
  | .vertical => .horizontal

end Axis

/-- A rectangle of cells whose first column is `col` and whose first row is `row`. -/
structure Region where
  col : Cells := 0
  row : Cells := 0
  width : Cells := 0
  height : Cells := 0
  deriving DecidableEq, Repr

namespace Region

/-- The number of cells along an axis. -/
def extent (region : Region) : Axis → Cells
  | .horizontal => region.width
  | .vertical => region.height

/-- The first cell along an axis. -/
def origin (region : Region) : Axis → Cells
  | .horizontal => region.col
  | .vertical => region.row

/-- The piece that starts `offset` cells from the origin along an axis and is `extent` cells long. -/
def slice (region : Region) (axis : Axis) (offset extent : Cells) : Region :=
  match axis with
  | .horizontal => { region with col := region.col.plus offset, width := extent }
  | .vertical => { region with row := region.row.plus offset, height := extent }

/-- Pieces of given extents, one after another, the first `offset` cells from the origin. -/
def pieces (region : Region) (axis : Axis) : Cells → List Cells → List Region
  | _, [] => []
  | offset, extent :: extents => region.slice axis offset extent :: region.pieces axis (offset.plus extent) extents

@[simp] theorem extent_slice (region : Region) (axis : Axis) (offset extent : Cells) :
    (region.slice axis offset extent).extent axis = extent := by
  cases axis <;> rfl

@[simp] theorem origin_slice (region : Region) (axis : Axis) (offset extent : Cells) :
    (region.slice axis offset extent).origin axis = (region.origin axis).plus offset := by
  cases axis <;> rfl

@[simp] theorem extent_slice_across (region : Region) (axis : Axis) (offset extent : Cells) :
    (region.slice axis offset extent).extent axis.across = region.extent axis.across := by
  cases axis <;> rfl

@[simp] theorem origin_slice_across (region : Region) (axis : Axis) (offset extent : Cells) :
    (region.slice axis offset extent).origin axis.across = region.origin axis.across := by
  cases axis <;> rfl

theorem length_pieces (region : Region) (axis : Axis) (offset : Cells) (extents : List Cells) :
    (region.pieces axis offset extents).length = extents.length := by
  induction extents generalizing offset with
  | nil => rfl
  | cons extent extents ih => simp [pieces, ih]

/-- Divides a region along an axis into one piece per slot. -/
def divide (region : Region) (axis : Axis) (slots : List Slot) : Except AllotError (Traced (List Region)) := do
  let sizes ← Slot.fill (region.extent axis) slots
  return sizes.map (region.pieces axis 0)

/-- The region as text. -/
def describe (region : Region) : String :=
  s!"Region[col: {region.col}, row: {region.row}, width: {region.width}, height: {region.height}]"

end Region

/-! ### Division after division -/

/-- A region, and all pieces made of it and of its pieces, in the order they were made. -/
structure Subdivision where
  regions : List Region
  deriving DecidableEq, Repr

/-- Why a division was refused. -/
inductive Subdivision.Refusal
  /-- There is no region of the given number. -/
  | noSuchRegion
  | allotment (error : AllotError)
  deriving DecidableEq, Repr

namespace Subdivision

/-- Nothing is divided yet. -/
def whole (region : Region) : Subdivision := ⟨[region]⟩

/-- Divides the region of a given number. -/
def divide (subdivision : Subdivision) (number : Nat) (axis : Axis) (slots : List Slot) :
    Except Refusal (Traced (List Region)) :=
  match subdivision.regions[number]? with
  | none => .error .noSuchRegion
  | some region => (region.divide axis slots).mapError .allotment

/-- Adds the pieces of a division. -/
def extend (subdivision : Subdivision) (pieces : List Region) : Subdivision := ⟨subdivision.regions ++ pieces⟩

end Subdivision
end Allotment
