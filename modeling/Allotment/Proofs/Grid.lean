import Allotment.Proofs.Pieces

/-! Rows of columns and columns of rows. A piece keeps its region's extent across the axis of the division, so that a
    division across it goes the same way in every piece. Both orders of two divisions therefore cut a region at the
    same columns and the same rows, also past its far edges and where the screen ends. -/

namespace Allotment

@[simp] theorem Axis.across_across (axis : Axis) : axis.across.across = axis := by
  cases axis <;> rfl

namespace Region

/-- Divides a region along an axis, and each piece across it. -/
def grid (region : Region) (axis : Axis) (along across : List Slot) : Except AllotError (List (List Region)) := do
  let strips ← region.divide axis along
  strips.value.mapM fun strip => do
    let pieces ← strip.divide axis.across across
    return pieces.value

theorem slice_slice_across (region : Region) (axis : Axis) (offset extent offset' extent' : Cells) :
    (region.slice axis offset extent).slice axis.across offset' extent' =
      (region.slice axis.across offset' extent').slice axis offset extent := by
  cases axis <;> rfl

/-- Pieces of given extents along an axis, each cut into pieces of given extents across it. -/
def strips (region : Region) (axis : Axis) (extents extents' : List Cells) : List (List Region) :=
  (region.pieces axis 0 extents).map fun strip => strip.pieces axis.across 0 extents'

section Strips
variable (region : Region) (axis : Axis) (extents extents' : List Cells)

theorem length_strips : (region.strips axis extents extents').length = extents.length := by
  rw [strips, List.length_map, length_pieces]

theorem length_of_mem_strips {strip : List Region} (h : strip ∈ region.strips axis extents extents') :
    strip.length = extents'.length := by
  obtain ⟨piece, -, rfl⟩ := List.mem_map.mp h
  exact length_pieces ..

theorem getElem?_strips (i j : Nat) :
    (region.strips axis extents extents')[i]?.bind (·[j]?) =
      extents[i]?.bind fun extent => extents'[j]?.map fun extent' =>
        (region.slice axis (offsetAt 0 extents i) extent).slice axis.across (offsetAt 0 extents' j) extent' := by
  rw [strips, List.getElem?_map, getElem?_pieces]
  cases extents[i]? with
  | none => rfl
  | some extent => exact getElem?_pieces ..

theorem strips_across (i j : Nat) :
    (region.strips axis extents extents')[i]?.bind (·[j]?) =
      (region.strips axis.across extents' extents)[j]?.bind (·[i]?) := by
  rw [getElem?_strips, getElem?_strips, Axis.across_across]
  cases extents[i]? with
  | none => cases extents'[j]? <;> rfl
  | some extent =>
    cases extents'[j]? with
    | none => rfl
    | some extent' => exact congrArg some (slice_slice_across ..)

end Strips

theorem mapM_divide_pieces (region : Region) (axis : Axis) {across : List Slot} {sizes : Traced (List Cells)}
    (h : Slot.fill (region.extent axis.across) across = .ok sizes) (offset : Cells) (extents : List Cells) :
    ((region.pieces axis offset extents).mapM fun strip => do
      let pieces ← strip.divide axis.across across
      return pieces.value) =
        .ok ((region.pieces axis offset extents).map fun strip => strip.pieces axis.across 0 sizes.value) := by
  induction extents generalizing offset with
  | nil => rfl
  | cons extent extents ih =>
    -- The piece is as long across as the region, so that the same sizes fill it.
    rw [pieces, List.mapM_cons, divide_eq, extent_slice_across, h, ih]
    rfl

theorem grid_of_fill {region : Region} {axis : Axis} {along across : List Slot} {sizes sizes' : Traced (List Cells)}
    (h : Slot.fill (region.extent axis) along = .ok sizes)
    (h' : Slot.fill (region.extent axis.across) across = .ok sizes') :
    region.grid axis along across = .ok (region.strips axis sizes.value sizes'.value) := by
  rw [grid, divide_eq, h]
  exact mapM_divide_pieces region axis h' 0 sizes.value

/-- The piece in row `j` of column `i` is the one in column `i` of row `j`. -/
theorem grid_either_way (region : Region) (across down : List Slot) (widths heights : Traced (List Cells))
    (hwidths : Slot.fill region.width across = .ok widths) (hheights : Slot.fill region.height down = .ok heights) :
    ∃ columns rows, region.grid .horizontal across down = .ok columns ∧ region.grid .vertical down across = .ok rows ∧
      columns.length = across.length ∧ (∀ column ∈ columns, column.length = down.length) ∧
      rows.length = down.length ∧ (∀ row ∈ rows, row.length = across.length) ∧
      ∀ i j : Nat, columns[i]?.bind (·[j]?) = rows[j]?.bind (·[i]?) := by
  have hwidths' := Slot.length_of_fill hwidths
  have hheights' := Slot.length_of_fill hheights
  refine ⟨_, _, grid_of_fill hwidths hheights, grid_of_fill hheights hwidths, ?_, fun column hcolumn => ?_, ?_,
    fun row hrow => ?_, strips_across region .horizontal widths.value heights.value⟩
  · rw [length_strips, hwidths']
  · rw [length_of_mem_strips _ _ _ _ hcolumn, hheights']
  · rw [length_strips, hheights']
  · rw [length_of_mem_strips _ _ _ _ hrow, hwidths']

/-- The third column starts where the screen ends, and the second row below the last one of the region. -/
theorem grid_either_way_past_edges :
    ∃ columns rows,
      (⟨0xfffffffffffffff6, 3, 20, 4⟩ : Region).grid .horizontal [.fixed 8, .fixed 8, .flexible 1]
          [(Slot.flexible 1).withMinimum 5, .flexible 2] = .ok columns ∧
        (⟨0xfffffffffffffff6, 3, 20, 4⟩ : Region).grid .vertical [(Slot.flexible 1).withMinimum 5, .flexible 2]
          [.fixed 8, .fixed 8, .flexible 1] = .ok rows ∧
        columns[2]?.bind (·[1]?) = some ⟨0xffffffffffffffff, 8, 4, 1⟩ ∧
        rows[1]?.bind (·[2]?) = some ⟨0xffffffffffffffff, 8, 4, 1⟩ := by
  have hgrid : (⟨0xfffffffffffffff6, 3, 20, 4⟩ : Region).grid .horizontal [.fixed 8, .fixed 8, .flexible 1]
      [(Slot.flexible 1).withMinimum 5, .flexible 2] =
        .ok [[⟨0xfffffffffffffff6, 3, 8, 5⟩, ⟨0xfffffffffffffff6, 8, 8, 1⟩],
          [⟨0xfffffffffffffffe, 3, 8, 5⟩, ⟨0xfffffffffffffffe, 8, 8, 1⟩],
          [⟨0xffffffffffffffff, 3, 4, 5⟩, ⟨0xffffffffffffffff, 8, 4, 1⟩]] := by cbv
  obtain ⟨columns, rows, hcolumns, hrows, -, -, -, -, hsame⟩ := grid_either_way ⟨0xfffffffffffffff6, 3, 20, 4⟩
    [.fixed 8, .fixed 8, .flexible 1] [(Slot.flexible 1).withMinimum 5, .flexible 2] _ _ rfl rfl
  rw [hgrid] at hcolumns
  cases hcolumns
  exact ⟨_, rows, hgrid, hrows, rfl, (hsame 2 1).symm⟩

end Region
end Allotment
