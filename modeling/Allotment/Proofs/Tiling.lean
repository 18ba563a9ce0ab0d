import Allotment.Region
import Allotment.Proofs.SlotFilling

/-! Divisions tile the screen. Where slots fit a region its pieces lie side by side from its near edge to its far one,
    so that every cell of the region is in just one piece and no piece has any other cell. This is kept when one piece
    is replaced by its own, and so it holds of the pieces that are left after any number of divisions. -/

namespace Allotment

/-! ### The cells of a region -/

/-- A cell of the screen, by its column and its row. -/
structure Cell where
  col : Nat
  row : Nat
  deriving DecidableEq, Repr

/-- Where a cell lies along an axis. -/
def Cell.along (cell : Cell) : Axis → Nat
  | .horizontal => cell.col
  | .vertical => cell.row

namespace Region

/-- The columns or rows from the origin of a region along an axis to its far edge. -/
def Spans (region : Region) (axis : Axis) (n : Nat) : Prop :=
  (region.origin axis).toNat ≤ n ∧ n < (region.origin axis).toNat + (region.extent axis).toNat

instance (region : Region) (axis : Axis) (n : Nat) : Decidable (region.Spans axis n) :=
  inferInstanceAs (Decidable (_ ∧ _))

/-- A cell of a region. -/
def Holds (region : Region) (cell : Cell) : Prop :=
  region.Spans .horizontal cell.col ∧ region.Spans .vertical cell.row

instance (region : Region) (cell : Cell) : Decidable (region.Holds cell) := inferInstanceAs (Decidable (_ ∧ _))

/-- The far edges of a region are counts. -/
def OnScreen (region : Region) : Prop :=
  ∀ axis, (region.origin axis).toNat + (region.extent axis).toNat ≤ Cells.most

section Pieces
variable {region : Region} {axis : Axis} {cell : Cell} {offset extent : Cells} {n : Nat}

theorem holds_iff (region : Region) (axis : Axis) (cell : Cell) :
    region.Holds cell ↔ region.Spans axis.across (cell.along axis.across) ∧ region.Spans axis (cell.along axis) := by
  cases axis
  · exact and_comm
  · exact Iff.rfl

theorem toNat_origin_slice (h : (region.origin axis).toNat + offset.toNat ≤ Cells.most) (extent : Cells) :
    ((region.slice axis offset extent).origin axis).toNat = (region.origin axis).toNat + offset.toNat := by
  rw [origin_slice, Cells.toNat_plus_of_le h]

theorem holds_slice (h : (region.origin axis).toNat + offset.toNat ≤ Cells.most) (extent : Cells) (cell : Cell) :
    (region.slice axis offset extent).Holds cell ↔ region.Spans axis.across (cell.along axis.across) ∧
      (region.origin axis).toNat + offset.toNat ≤ cell.along axis ∧
        cell.along axis < (region.origin axis).toNat + offset.toNat + extent.toNat := by
  rw [holds_iff _ axis, Spans, Spans, Spans, toNat_origin_slice h, extent_slice, origin_slice_across,
    extent_slice_across]

theorem onScreen_slice (hregion : region.OnScreen)
    (h : (region.origin axis).toNat + offset.toNat + extent.toNat ≤ Cells.most) :
    (region.slice axis offset extent).OnScreen := by
  have halong : ((region.slice axis offset extent).origin axis).toNat +
      ((region.slice axis offset extent).extent axis).toNat ≤ Cells.most := by
    rw [toNat_origin_slice (by omega), extent_slice]
    exact h
  have hacross : ((region.slice axis offset extent).origin axis.across).toNat +
      ((region.slice axis offset extent).extent axis.across).toNat ≤ Cells.most := by
    rw [origin_slice_across, extent_slice_across]
    exact hregion axis.across
  intro other
  cases axis <;> cases other <;> assumption

/-- Pieces that end on the screen hold the cells from the first origin to the last far edge, and each cell once. -/
theorem countP_holds_pieces {extents : List Cells}
    (h : (region.origin axis).toNat + offset.toNat + Cells.total extents ≤ Cells.most) :
    (region.pieces axis offset extents).countP (fun piece => piece.Holds cell) =
      if region.Spans axis.across (cell.along axis.across) ∧
        (region.origin axis).toNat + offset.toNat ≤ cell.along axis ∧
          cell.along axis < (region.origin axis).toNat + offset.toNat + Cells.total extents then 1 else 0 := by
  induction extents generalizing offset with
  | nil =>
    rw [Cells.total_nil, if_neg (by omega)]
    rfl
  | cons extent extents ih =>
    rw [Cells.total_cons] at h ⊢
    have hoffset : (offset.plus extent).toNat = offset.toNat + extent.toNat := Cells.toNat_plus_of_le (by omega)
    have hfirst := holds_slice (show (region.origin axis).toNat + offset.toNat ≤ Cells.most by omega) extent cell
    rw [pieces, List.countP_cons, ih (by rw [hoffset]; omega), hoffset]
    simp only [decide_eq_true_eq, hfirst]
    -- The cell is across the region or not; if it is, it is in the first piece, in a later one, or in neither.
    by_cases hacross : region.Spans axis.across (cell.along axis.across)
    · simp only [hacross, true_and]
      split_ifs <;> omega
    · simp only [hacross, false_and, if_false]

theorem onScreen_pieces (hregion : region.OnScreen) {extents : List Cells}
    (h : (region.origin axis).toNat + offset.toNat + Cells.total extents ≤ Cells.most) :
    ∀ piece ∈ region.pieces axis offset extents, piece.OnScreen := by
  induction extents generalizing offset with
  | nil => exact fun piece hpiece => nomatch hpiece
  | cons extent extents ih =>
    rw [Cells.total_cons] at h
    have hoffset : (offset.plus extent).toNat = offset.toNat + extent.toNat := Cells.toNat_plus_of_le (by omega)
    intro piece hpiece
    rcases List.mem_cons.mp hpiece with rfl | hpiece
    · exact onScreen_slice hregion (by omega)
    · exact ih (by rw [hoffset]; omega) piece hpiece

end Pieces

/-! ### Tilings -/

/-- Parts of a whole that have each of its cells once, and no other cell. -/
structure Tiles (whole : Region) (parts : List Region) : Prop where
  onScreen : ∀ part ∈ parts, part.OnScreen
  countP_holds : ∀ cell, parts.countP (fun part => part.Holds cell) = if whole.Holds cell then 1 else 0

namespace Tiles
variable {whole part : Region} {parts pieces : List Region}

theorem refl (h : whole.OnScreen) : whole.Tiles [whole] where
  onScreen := fun part hpart => List.mem_singleton.mp hpart ▸ h
  countP_holds := fun cell => by simp only [List.countP_singleton, decide_eq_true_eq]

theorem holds_of_mem (h : whole.Tiles parts) (hpart : part ∈ parts) {cell : Cell} (hcell : part.Holds cell) :
    whole.Holds cell := by
  have hcount : 0 < parts.countP (fun part => part.Holds cell) :=
    List.countP_pos_iff.mpr ⟨part, hpart, decide_eq_true hcell⟩
  by_contra hnot
  rw [h.countP_holds, if_neg hnot] at hcount
  exact Nat.lt_irrefl 0 hcount

/-- The order of the parts does not matter. -/
theorem perm {parts' : List Region} (h : whole.Tiles parts) (hperm : parts.Perm parts') : whole.Tiles parts' where
  onScreen := fun part hpart => h.onScreen part (hperm.mem_iff.mpr hpart)
  countP_holds := fun cell => (hperm.countP_eq _).symm.trans (h.countP_holds cell)

/-- One part gives way to its own parts. -/
theorem replace (h : whole.Tiles (part :: parts)) (hpieces : part.Tiles pieces) : whole.Tiles (parts ++ pieces) where
  onScreen := by
    intro piece hpiece
    rcases List.mem_append.mp hpiece with hpiece | hpiece
    · exact h.onScreen piece (List.mem_cons_of_mem part hpiece)
    · exact hpieces.onScreen piece hpiece
  countP_holds := by
    intro cell
    have hcount := h.countP_holds cell
    rw [List.countP_cons] at hcount
    rw [← hcount, List.countP_append, hpieces.countP_holds]
    simp only [decide_eq_true_eq]

end Tiles
end Region

/-! ### One division -/

namespace Slot

/-- Slots, as many as a list can hold, that do not overflow an extent and have someone to take what is left of it. -/
structure Fits (extent : Cells) (slots : List Slot) : Prop where
  entries : slots.length ≤ mostEntries
  shares : ∃ slot ∈ sharing slots, 0 < slot.ratio
  least : fixedTotal slots + minimumTotal slots ≤ extent.toNat

theorem Fits.exists_fill {extent : Cells} {slots : List Slot} (h : Fits extent slots) :
    ∃ filled, fill extent slots = .ok filled ∧ Cells.total filled.value = extent.toNat := by
  have htotal := total_weave_flooredSizes extent h.entries h.shares
  refine ⟨_, fill_of_ratio_pos extent h.shares, ?_⟩
  rw [Traced.value_map, htotal]
  exact max_eq_left h.least

end Slot

namespace Region

/-- Slots that fit a region divide it into pieces that tile it. -/
theorem tiles_divide {region : Region} (hregion : region.OnScreen) {axis : Axis} {slots : List Slot}
    (h : Slot.Fits (region.extent axis) slots) :
    ∃ pieces, region.divide axis slots = .ok pieces ∧ region.Tiles pieces.value := by
  obtain ⟨filled, hok, htotal⟩ := h.exists_fill
  have hedge := hregion axis
  have hzero : (0 : Cells).toNat = 0 := rfl
  refine ⟨filled.map (region.pieces axis 0), ?_, ?_⟩
  · rw [divide, hok]
    rfl
  · rw [Traced.value_map]
    refine ⟨onScreen_pieces hregion (by omega), fun cell => ?_⟩
    rw [countP_holds_pieces (by omega)]
    simp only [holds_iff region axis, Spans, htotal, hzero, Nat.add_zero]

end Region

/-! ### Division after division -/

namespace Subdivision

/-- One of the leaves, and how it is to be divided. -/
structure Split where
  number : Nat
  axis : Axis
  slots : List Slot
  deriving DecidableEq, Repr

/-- Divides a leaf, and puts its pieces into its place. -/
def splitLeaf (leaves : Subdivision) (split : Split) : Except Refusal Subdivision := do
  let pieces ← leaves.divide split.number split.axis split.slots
  return ⟨leaves.regions.take split.number ++ pieces.value ++ leaves.regions.drop (split.number + 1)⟩

/-- Divides one leaf after another. -/
def splitLeaves (leaves : Subdivision) (splits : List Split) : Except Refusal Subdivision :=
  splits.foldlM splitLeaf leaves

/-- Each leaf that is to be divided is there when its turn comes, and the slots fit it. -/
def Admits : Subdivision → List Split → Prop
  | _, [] => True
  | leaves, split :: splits =>
    (∃ leaf, leaves.regions[split.number]? = some leaf ∧ Slot.Fits (leaf.extent split.axis) split.slots) ∧
      ∀ next, leaves.splitLeaf split = .ok next → Admits next splits

variable {root : Region} {leaves : Subdivision} {split : Split}

theorem divide_eq_ok_iff {subdivision : Subdivision} {number : Nat} {axis : Axis} {slots : List Slot}
    {pieces : Traced (List Region)} :
    subdivision.divide number axis slots = .ok pieces ↔
      ∃ region, subdivision.regions[number]? = some region ∧ region.divide axis slots = .ok pieces := by
  rw [divide]
  cases subdivision.regions[number]? with
  | none => exact iff_of_false (fun h => nomatch h) fun ⟨_, h, _⟩ => nomatch h
  | some region =>
    simp only [Option.some.injEq, exists_eq_left']
    cases region.divide axis slots with
    | ok pieces => exact ⟨fun h => congrArg Except.ok (Except.ok.inj h), fun h => congrArg Except.ok (Except.ok.inj h)⟩
    | error error => exact iff_of_false (fun h => nomatch h) fun h => nomatch h

theorem splitLeaf_of_divide {leaf : Region} {pieces : Traced (List Region)}
    (hleaf : leaves.regions[split.number]? = some leaf) (hpieces : leaf.divide split.axis split.slots = .ok pieces) :
    leaves.splitLeaf split =
      .ok ⟨leaves.regions.take split.number ++ pieces.value ++ leaves.regions.drop (split.number + 1)⟩ := by
  rw [splitLeaf, divide_eq_ok_iff.mpr ⟨leaf, hleaf, hpieces⟩]
  rfl

theorem perm_cons_take_drop {regions : List Region} {number : Nat} {region : Region}
    (h : regions[number]? = some region) :
    regions.Perm (region :: (regions.take number ++ regions.drop (number + 1))) := by
  obtain ⟨hlt, rfl⟩ := List.getElem?_eq_some_iff.mp h
  rw [← List.eraseIdx_eq_take_drop_succ]
  exact (List.getElem_cons_eraseIdx_perm hlt).symm

theorem perm_take_pieces_drop (regions pieces : List Region) (number : Nat) :
    (regions.take number ++ regions.drop (number + 1) ++ pieces).Perm
      (regions.take number ++ pieces ++ regions.drop (number + 1)) := by
  rw [List.append_assoc, List.append_assoc]
  exact List.perm_append_comm.append_left _

theorem tiles_splitLeaf (h : root.Tiles leaves.regions) {leaf : Region}
    (hleaf : leaves.regions[split.number]? = some leaf) (hfits : Slot.Fits (leaf.extent split.axis) split.slots) :
    ∃ next, leaves.splitLeaf split = .ok next ∧ root.Tiles next.regions := by
  obtain ⟨pieces, hok, hpieces⟩ := Region.tiles_divide (h.onScreen leaf (List.mem_of_getElem? hleaf)) hfits
  refine ⟨_, splitLeaf_of_divide hleaf hok, ?_⟩
  exact ((h.perm (perm_cons_take_drop hleaf)).replace hpieces).perm (perm_take_pieces_drop _ _ _)

theorem tiles_splitLeaves (h : root.Tiles leaves.regions) {splits : List Split} (hadmits : leaves.Admits splits) :
    ∃ final, leaves.splitLeaves splits = .ok final ∧ root.Tiles final.regions := by
  induction splits generalizing leaves with
  | nil => exact ⟨leaves, rfl, h⟩
  | cons split splits ih =>
    obtain ⟨⟨leaf, hleaf, hfits⟩, hlater⟩ := hadmits
    obtain ⟨next, hok, hnext⟩ := tiles_splitLeaf h hleaf hfits
    obtain ⟨final, hfinal, htiles⟩ := ih hnext (hlater next hok)
    refine ⟨final, ?_, htiles⟩
    rw [splitLeaves, List.foldlM_cons, hok]
    exact hfinal

/-- However a region is divided again and again by slots that fit, no division fails, and the leaves that are left
    have each cell of the region once, and no other cell. -/
theorem leaves_tile_root (root : Region) (splits : List Split)
    (hcols : root.col.toNat + root.width.toNat ≤ Cells.most)
    (hrows : root.row.toNat + root.height.toNat ≤ Cells.most) (hadmits : (whole root).Admits splits) :
    ∃ leaves, (whole root).splitLeaves splits = .ok leaves ∧
      (∀ cell, root.Holds cell → leaves.regions.countP (fun leaf => leaf.Holds cell) = 1) ∧
      ∀ leaf ∈ leaves.regions, ∀ cell, leaf.Holds cell → root.Holds cell := by
  have hroot : root.OnScreen := fun axis => by cases axis <;> assumption
  have htiles : root.Tiles (whole root).regions := Region.Tiles.refl hroot
  obtain ⟨leaves, hok, htiles⟩ := tiles_splitLeaves htiles hadmits
  refine ⟨leaves, hok, fun cell hcell => ?_, fun leaf hleaf cell hcell => htiles.holds_of_mem hleaf hcell⟩
  rw [htiles.countP_holds, if_pos hcell]

/-- A side bar of 3 columns, and beside it a head of one row above the rest. -/
theorem leaves_tile_root_twice :
    (whole ⟨2, 3, 10, 4⟩).Admits
        [⟨0, .horizontal, [.fixed 3, .flexible 1]⟩, ⟨1, .vertical, [.flexible 1, .flexible 2]⟩] ∧
      ∃ leaves, (whole ⟨2, 3, 10, 4⟩).splitLeaves
          [⟨0, .horizontal, [.fixed 3, .flexible 1]⟩, ⟨1, .vertical, [.flexible 1, .flexible 2]⟩] = .ok leaves ∧
        leaves.regions = [⟨2, 3, 3, 4⟩, ⟨5, 3, 7, 1⟩, ⟨5, 4, 7, 3⟩] ∧
        leaves.regions.countP (fun leaf => leaf.Holds ⟨5, 4⟩) = 1 := by
  have hfirst : (whole ⟨2, 3, 10, 4⟩).splitLeaf ⟨0, .horizontal, [.fixed 3, .flexible 1]⟩ =
      .ok ⟨[⟨2, 3, 3, 4⟩, ⟨5, 3, 7, 4⟩]⟩ := by cbv
  have hsecond : (⟨[⟨2, 3, 3, 4⟩, ⟨5, 3, 7, 4⟩]⟩ : Subdivision).splitLeaf
      ⟨1, .vertical, [.flexible 1, .flexible 2]⟩ =
      .ok ⟨[⟨2, 3, 3, 4⟩, ⟨5, 3, 7, 1⟩, ⟨5, 4, 7, 3⟩]⟩ := by cbv
  have hadmits : (whole ⟨2, 3, 10, 4⟩).Admits
      [⟨0, .horizontal, [.fixed 3, .flexible 1]⟩, ⟨1, .vertical, [.flexible 1, .flexible 2]⟩] := by
    refine ⟨⟨_, rfl, by decide, ⟨.flexible 1, by decide, by decide⟩, by decide⟩, fun next hnext => ?_⟩
    rw [hfirst] at hnext
    cases hnext
    exact ⟨⟨_, rfl, by decide, ⟨.flexible 1, by decide, by decide⟩, by decide⟩, fun _ _ => trivial⟩
  obtain ⟨leaves, hok, hcells, -⟩ := leaves_tile_root _ _ (by decide) (by decide) hadmits
  refine ⟨hadmits, leaves, hok, ?_, hcells _ (by decide)⟩
  have hrun : (⟨[⟨2, 3, 3, 4⟩, ⟨5, 3, 7, 4⟩]⟩ : Subdivision).splitLeaves
      [⟨1, .vertical, [.flexible 1, .flexible 2]⟩] = .ok leaves := by
    rw [splitLeaves, List.foldlM_cons, hfirst] at hok
    exact hok
  rw [splitLeaves, List.foldlM_cons, hsecond] at hrun
  cases hrun
  rfl

end Subdivision
end Allotment
