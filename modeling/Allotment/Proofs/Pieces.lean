import Allotment.Region
import Allotment.Proofs.FlexibleSlots

/-! The pieces of a division lie in a row. Each starts where the sizes before it end, counted from the origin of the
    region; the two sums that are cut off at the largest count, of the offset and of origin and offset, are one sum
    that is cut off once. So pieces that end on the screen lie side by side, and the last ends at the far edge of the
    region or past it by what the fixed sizes and the minimums need more. -/

namespace Allotment

theorem Cells.toNat_foldl_plus (offset : Cells) (extents : List Cells) :
    (extents.foldl plus offset).toNat = min (offset.toNat + total extents) most := by
  induction extents generalizing offset with
  | nil =>
    have := toNat_le_most offset
    rw [List.foldl_nil, total_nil]
    omega
  | cons extent extents ih =>
    rw [List.foldl_cons, ih, toNat_plus, total_cons]
    omega

theorem Cells.total_take_add_one {counts : List Cells} {k : Nat} {count : Cells} (h : counts[k]? = some count) :
    total (counts.take (k + 1)) = total (counts.take k) + count.toNat := by
  rw [List.take_add_one, h, total_append]
  rfl

theorem Cells.total_take_le (counts : List Cells) (k : Nat) : total (counts.take k) ≤ total counts := by
  have hsplit := total_append (counts.take k) (counts.drop k)
  rw [List.take_append_drop] at hsplit
  omega

theorem Slot.length_of_fill {total : Cells} {slots : List Slot} {filled : Traced (List Cells)}
    (hfill : fill total slots = .ok filled) : filled.value.length = slots.length := by
  rcases eq_or_ne (sharing slots) [] with hnil | hne
  · rw [fill_of_fixed total hnil] at hfill
    cases hfill
    exact length_weave slots []
  · rw [eq_of_fill hfill hne, Traced.value_map, length_weave]

theorem Slot.total_of_fill {total : Cells} {slots : List Slot} {filled : Traced (List Cells)}
    (hfill : fill total slots = .ok filled) (hne : sharing slots ≠ []) (hentries : slots.length ≤ mostEntries) :
    Cells.total filled.value = max total.toNat (fixedTotal slots + minimumTotal slots) := by
  rw [eq_of_fill hfill hne, Traced.value_map]
  exact total_weave_flooredSizes total hentries (exists_ratio_pos hfill hne)

namespace Region
variable {region : Region} {axis : Axis} {slots : List Slot}

/-- Where the piece at `k` starts, from where the first one does. -/
def offsetAt (offset : Cells) (extents : List Cells) (k : Nat) : Cells := (extents.take k).foldl Cells.plus offset

theorem getElem?_pieces (region : Region) (axis : Axis) (offset : Cells) (extents : List Cells) (k : Nat) :
    (region.pieces axis offset extents)[k]? = extents[k]?.map (region.slice axis (offsetAt offset extents k)) := by
  induction extents generalizing offset k with
  | nil => rfl
  | cons extent extents ih =>
    cases k with
    | zero => rfl
    | succ k => exact ih (offset.plus extent) k

/-- Two sums that are cut off one after the other are cut off once. -/
theorem toNat_origin_plus (region : Region) (axis : Axis) (extents : List Cells) (k : Nat) :
    ((region.origin axis).plus (offsetAt 0 extents k)).toNat =
      min Cells.most ((region.origin axis).toNat + Cells.total (extents.take k)) := by
  rw [Cells.toNat_plus, offsetAt, Cells.toNat_foldl_plus, UInt64.toNat_zero]
  omega

theorem divide_eq (region : Region) (axis : Axis) (slots : List Slot) :
    region.divide axis slots = (Slot.fill (region.extent axis) slots).map (Traced.map (region.pieces axis 0)) := by
  rw [divide]
  cases Slot.fill (region.extent axis) slots <;> rfl

/-- What a piece of a row is like. -/
structure InRow (region : Region) (axis : Axis) (extents : List Cells) (k : Nat) (piece : Region) : Prop where
  origin : (piece.origin axis).toNat = min Cells.most ((region.origin axis).toNat + Cells.total (extents.take k))
  extent : extents[k]? = some (piece.extent axis)
  origin_across : piece.origin axis.across = region.origin axis.across
  extent_across : piece.extent axis.across = region.extent axis.across

theorem inRow_of_getElem?_pieces {extents : List Cells} {k : Nat} {piece : Region}
    (h : (region.pieces axis 0 extents)[k]? = some piece) : region.InRow axis extents k piece := by
  rw [getElem?_pieces, Option.map_eq_some_iff] at h
  obtain ⟨extent, hextent, rfl⟩ := h
  refine ⟨?_, ?_, origin_slice_across .., extent_slice_across ..⟩
  · rw [origin_slice, toNat_origin_plus]
  · rw [extent_slice, hextent]

namespace InRow
variable {extents : List Cells} {k : Nat} {piece next : Region}

theorem far_edge (h : region.InRow axis extents k piece)
    (hscreen : (region.origin axis).toNat + Cells.total extents ≤ Cells.most) :
    (piece.origin axis).toNat + (piece.extent axis).toNat =
      (region.origin axis).toNat + Cells.total (extents.take (k + 1)) := by
  have hnext := Cells.total_take_add_one h.extent
  have hle := Cells.total_take_le extents (k + 1)
  rw [h.origin]
  omega

theorem abut (h : region.InRow axis extents k piece) (hnext : region.InRow axis extents (k + 1) next)
    (hscreen : (region.origin axis).toNat + Cells.total extents ≤ Cells.most) :
    (next.origin axis).toNat = (piece.origin axis).toNat + (piece.extent axis).toNat := by
  have hle := Cells.total_take_le extents (k + 1)
  rw [h.far_edge hscreen, hnext.origin]
  omega

end InRow

theorem exists_last_piece {filled : Traced (List Cells)} (hfill : Slot.fill (region.extent axis) slots = .ok filled)
    (hscreen : (region.origin axis).toNat + Cells.total filled.value ≤ Cells.most) (hne : Slot.sharing slots ≠ [])
    (hentries : slots.length ≤ mostEntries) :
    ∃ last, (region.pieces axis 0 filled.value).getLast? = some last ∧
      (last.origin axis).toNat + (last.extent axis).toNat = (region.origin axis).toNat + (region.extent axis).toNat +
        (Slot.fixedTotal slots + Slot.minimumTotal slots - (region.extent axis).toNat) := by
  have htotal := Slot.total_of_fill hfill hne hentries
  have hlength := length_pieces region axis 0 filled.value
  have hsome : region.pieces axis 0 filled.value ≠ [] := by
    rw [← List.length_pos_iff, hlength, Slot.length_of_fill hfill, List.length_pos_iff]
    rintro rfl
    exact hne rfl
  obtain ⟨last, hlast⟩ := Option.ne_none_iff_exists'.mp (mt List.getLast?_eq_none_iff.mp hsome)
  refine ⟨last, hlast, ?_⟩
  rw [List.getLast?_eq_getElem?] at hlast
  have hpos := List.length_pos_iff.mpr hsome
  rw [(inRow_of_getElem?_pieces hlast).far_edge hscreen, Nat.sub_add_cancel hpos, hlength, List.take_length, htotal]
  omega

/-- A division fails as the filling of its extent does. Its pieces lie in a row as far as the screen goes, and where
    someone takes what is left they reach the far edge, or overflow it by what the slots need at least. -/
theorem divide_in_row (region : Region) (axis : Axis) (slots : List Slot) :
    (∀ error, region.divide axis slots = .error error ↔ Slot.fill (region.extent axis) slots = .error error) ∧
    ∀ filled, Slot.fill (region.extent axis) slots = .ok filled →
      ∃ pieces, region.divide axis slots = .ok pieces ∧ pieces.value.length = filled.value.length ∧
        (∀ (k : Nat) (piece : Region), pieces.value[k]? = some piece → region.InRow axis filled.value k piece) ∧
        ((region.origin axis).toNat + Cells.total filled.value ≤ Cells.most →
          (∀ (k : Nat) (piece next : Region), pieces.value[k]? = some piece → pieces.value[k + 1]? = some next →
            (next.origin axis).toNat = (piece.origin axis).toNat + (piece.extent axis).toNat) ∧
          (Slot.sharing slots ≠ [] → slots.length ≤ mostEntries → ∃ last, pieces.value.getLast? = some last ∧
            (last.origin axis).toNat + (last.extent axis).toNat =
              (region.origin axis).toNat + (region.extent axis).toNat +
                (Slot.fixedTotal slots + Slot.minimumTotal slots - (region.extent axis).toNat))) := by
  rw [divide_eq]
  cases hfill : Slot.fill (region.extent axis) slots with
  | error e =>
    refine ⟨fun error => ?_, fun filled h => nomatch h⟩
    exact ⟨fun h => Except.error.inj h ▸ rfl, fun h => Except.error.inj h ▸ rfl⟩
  | ok sizes =>
    refine ⟨fun error => ⟨fun h => (nomatch h), fun h => (nomatch h)⟩, ?_⟩
    rintro filled ⟨⟩
    refine ⟨_, rfl, length_pieces .., fun k piece => inRow_of_getElem?_pieces, fun hscreen => ⟨?_, ?_⟩⟩
    · intro k piece next hpiece hnext
      exact (inRow_of_getElem?_pieces hpiece).abut (inRow_of_getElem?_pieces hnext) hscreen
    · exact exists_last_piece hfill hscreen

/-- Slots that need 31 columns more than there are overflow the far edge by as many, and next to the end of the screen
    the third piece starts where the screen ends. -/
theorem divide_in_row_overflow :
    (∃ pieces last, (⟨3, 0, 20, 10⟩ : Region).divide .horizontal [(Slot.flexible 1).withMinimum 50, .flexible 1] =
        .ok pieces ∧ pieces.value.getLast? = some last ∧ last.col.toNat + last.width.toNat = 3 + 20 + 31) ∧
      ∃ pieces piece, (⟨0xfffffffffffffff6, 0, 20, 10⟩ : Region).divide .horizontal
          [.fixed 8, .fixed 8, .flexible 1] = .ok pieces ∧ pieces.value[2]? = some piece ∧
        piece.col.toNat = Cells.most ∧ piece.height = 10 := by
  have hover : (Slot.fill 20 [(Slot.flexible 1).withMinimum 50, .flexible 1]).map (·.value) = .ok [50, 1] := by cbv
  have hfull : (Slot.fill 20 [.fixed 8, .fixed 8, .flexible 1]).map (·.value) = .ok [8, 8, 4] := by cbv
  constructor
  · obtain ⟨filled, hfill⟩ : ∃ filled, Slot.fill 20 [(Slot.flexible 1).withMinimum 50, .flexible 1] = .ok filled :=
      ⟨_, rfl⟩
    rw [hfill] at hover
    have hvalue : filled.value = [50, 1] := Except.ok.inj hover
    obtain ⟨pieces, hok, -, -, hscreen⟩ := (divide_in_row ⟨3, 0, 20, 10⟩ .horizontal
      [(Slot.flexible 1).withMinimum 50, .flexible 1]).2 filled hfill
    rw [hvalue] at hscreen
    obtain ⟨last, hlast, hedge⟩ := (hscreen (by decide)).2 (by decide) (by decide)
    exact ⟨pieces, last, hok, hlast, hedge⟩
  · obtain ⟨filled, hfill⟩ : ∃ filled, Slot.fill 20 [.fixed 8, .fixed 8, .flexible 1] = .ok filled := ⟨_, rfl⟩
    rw [hfill] at hfull
    have hvalue : filled.value = [8, 8, 4] := Except.ok.inj hfull
    obtain ⟨pieces, hok, hlength, hrow, -⟩ := (divide_in_row ⟨0xfffffffffffffff6, 0, 20, 10⟩ .horizontal
      [.fixed 8, .fixed 8, .flexible 1]).2 filled hfill
    rw [hvalue] at hrow hlength
    have hpiece := List.getElem?_eq_getElem (show 2 < pieces.value.length by rw [hlength]; decide)
    exact ⟨pieces, _, hok, hpiece, (hrow 2 _ hpiece).origin.trans (by decide), (hrow 2 _ hpiece).extent_across⟩

end Region
end Allotment
