import Allotment.Allot

/-! Slots: the places of a row to be filled, each of a fixed size or flexible. The fixed sizes come out of the total
    first; what is left, be it a deficit, is shared out among the flexible slots. -/

namespace Allotment

/-- One place of a row. A slot with a `size` gets that size and shares in nothing; the others share in proportion to
    `ratio` and are never below `minimumSize`. -/
structure Slot where
  size : Option Cells := none
  ratio : Cells := 1
  minimumSize : Cells := 1
  deriving DecidableEq, Repr

namespace Slot

/-- The plain slot is flexible, has a ratio of 1, and is at least one cell wide. -/
def plain : Slot := {}

/-- A slot of a fixed size. -/
def fixed (size : Cells) : Slot := { size := some size }

/-- A flexible slot of a given ratio. -/
def flexible (ratio : Cells) : Slot := { ratio }

/-- The slot with another minimum. -/
def withMinimum (slot : Slot) (minimumSize : Cells) : Slot := { slot with minimumSize }

def isFixed (slot : Slot) : Bool := slot.size.isSome

/-- The slot as text. -/
def describe (slot : Slot) : String :=
  let size := match slot.size with
    | none => "None"
    | some size => s!"Some({size})"
  s!"Slot \x7b size: {size}, ratio: {slot.ratio}, minimum_size: {slot.minimumSize} \x7d"

/-- The slots that share, in order. -/
def sharing (slots : List Slot) : List Slot := slots.filter fun slot => !slot.isFixed

/-- What the fixed slots take together. -/
def fixedTotal (slots : List Slot) : Nat := Cells.total (slots.filterMap (·.size))

/-- The sizes of all slots in order, where the flexible ones have the sizes `shared`, in order. -/
def weave : List Slot → List Cells → List Cells
  | [], _ => []
  | slot :: slots, shared =>
    match slot.size with
    | some size => size :: weave slots shared
    | none => shared.headD 0 :: weave slots shared.tail

theorem length_weave (slots : List Slot) (shared : List Cells) : (weave slots shared).length = slots.length := by
  induction slots generalizing shared with
  | nil => rfl
  | cons slot slots ih =>
    unfold weave
    split <;> simp [ih]

/-- The sizes with which `slots` fill `total` cells. -/
def fill (total : Cells) (slots : List Slot) : Except AllotError (Traced (List Cells)) :=
  let sharing := sharing slots
  if sharing.isEmpty then .ok (.quiet (weave slots []))
  else do
    let ratios := sharing.map (·.ratio)
    checkRatios ratios
    let budget : Int := total.toNat - fixedTotal slots
    return (flooredSizes budget ratios (sharing.map (·.minimumSize))).map (weave slots)

end Slot
end Allotment
