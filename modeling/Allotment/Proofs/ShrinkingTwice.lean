import Allotment.Proofs.Shrinking

/-! Shrinking in steps. What a table is shrunk to depends on the cells that the limit leaves to its columns that wrap,
    and on nothing else of the limit. A table that has been shrunk has just these cells, and shrunk again it ends at
    the level at which it ends if it is shrunk at once, with the cells that remain on the same columns. So no step on
    the way to a limit leaves a trace, shrinking again to the same limit changes nothing, and a smaller limit leaves no
    column wider. -/

namespace Allotment.Column

/-! ### What a table is shrunk to -/

/-- The table that is left if the columns that wrap have to do with some cells. -/
def Shrunk (cells : Nat) (columns out : List Column) : Prop :=
  wrappingTotal columns ≤ cells ∧ out = columns ∨ cells < wrappingTotal columns ∧ Levelled cells columns out

section Shrunk
variable {cells c d : Nat} {columns out mid : List Column}

theorem FillsTo.unique {l m : Nat} (hl : FillsTo cells l columns) (hm : FillsTo cells m columns) : l = m :=
  Nat.le_antisymm (Nat.le_of_lt_succ (hl.lt_of_lt_levelTotal hm.lt)) (Nat.le_of_lt_succ (hm.lt_of_lt_levelTotal hl.lt))

theorem Levelled.unique {out' : List Column} (h : Levelled cells columns out) (h' : Levelled cells columns out') :
    out = out' := by
  obtain ⟨level, hfills, rfl⟩ := h
  obtain ⟨level', hfills', rfl⟩ := h'
  rw [hfills.unique hfills']

theorem Shrunk.unique {out' : List Column} (h : Shrunk cells columns out) (h' : Shrunk cells columns out') :
    out = out' := by
  rcases h with ⟨hfits, rfl⟩ | ⟨hover, hout⟩ <;> rcases h' with ⟨hfits', rfl⟩ | ⟨hover', hout'⟩
  · rfl
  · exact absurd hover' (Nat.not_lt_of_le hfits)
  · exact absurd hover (Nat.not_lt_of_le hfits')
  · exact hout.unique hout'

theorem shrunk_shrink (limit : Cells) (htotal : Cells.total (widths columns) ≤ Cells.most) :
    Shrunk (room limit columns) columns (shrink limit columns).value := by
  rcases Nat.lt_or_ge (room limit columns) (wrappingTotal columns) with hroom | hroom
  · exact Or.inr ⟨hroom, levelled_shrink limit columns htotal hroom⟩
  · exact Or.inl ⟨hroom, shrink_of_le_room hroom⟩

theorem Shrunk.rigidTotal_eq (h : Shrunk cells columns out) : rigidTotal out = rigidTotal columns := by
  rcases h with ⟨-, rfl⟩ | ⟨-, hout⟩
  · rfl
  · exact hout.rigidTotal_eq

theorem Shrunk.total_le (h : Shrunk cells columns out) : Cells.total (widths out) ≤ Cells.total (widths columns) := by
  rcases h with ⟨-, rfl⟩ | ⟨hover, hout⟩
  · exact Nat.le_refl _
  · rw [total_widths, total_widths, hout.rigidTotal_eq, hout.wrappingTotal_eq]
    omega

/-- Shrunk to some cells, and then to some others, a table is shrunk to the fewer of them. -/
theorem Shrunk.trans (h : Shrunk c columns mid) (h' : Shrunk d mid out) : Shrunk (min c d) columns out := by
  rcases h with ⟨hfits, rfl⟩ | ⟨hover, hmid⟩
  · rcases h' with ⟨hfits', rfl⟩ | ⟨hover', hout⟩
    · exact Or.inl ⟨Nat.le_min.mpr ⟨hfits, hfits'⟩, rfl⟩
    · rw [Nat.min_eq_right (by omega)]
      exact Or.inr ⟨hover', hout⟩
  · have hcells := hmid.wrappingTotal_eq
    rcases h' with ⟨hfits', rfl⟩ | ⟨hover', hout⟩
    · rw [Nat.min_eq_left (by omega)]
      exact Or.inr ⟨hover, hmid⟩
    -- Both times cells are missing: the level of the second time is one of the whole table.
    · rw [Nat.min_eq_right (by omega)]
      obtain ⟨level, -, rfl⟩ := hmid
      exact Or.inr ⟨by omega, hout.of_levelled hover'⟩

theorem room_min (a b : Cells) (columns : List Column) :
    room (min a b) columns = min (room a columns) (room b columns) := by
  rw [room, room, room, UInt64.toNat_min]
  omega

/-- Shrinking twice is shrinking to the smaller limit. -/
theorem shrink_shrink (a b : Cells) (htotal : Cells.total (widths columns) ≤ Cells.most) :
    (shrink b (shrink a columns).value).value = (shrink (min a b) columns).value := by
  have hfirst : Shrunk (room a columns) columns (shrink a columns).value := shrunk_shrink a htotal
  have hsecond : Shrunk (room b (shrink a columns).value) (shrink a columns).value _ :=
    shrunk_shrink b (hfirst.total_le.trans htotal)
  have honce : Shrunk (room (min a b) columns) columns (shrink (min a b) columns).value := shrunk_shrink _ htotal
  rw [room, hfirst.rigidTotal_eq, ← room] at hsecond
  rw [room_min] at honce
  exact (hfirst.trans hsecond).unique honce

theorem shrink_shrink_of_le {a b : Cells} (h : a ≤ b) (htotal : Cells.total (widths columns) ≤ Cells.most) :
    (shrink a (shrink b columns).value).value = (shrink a columns).value := by
  have hmin : min b a = a := by
    rw [← UInt64.toNat_inj, UInt64.toNat_min, Nat.min_eq_right (UInt64.le_iff_toNat_le.mp h)]
  rw [shrink_shrink b a htotal, hmin]

end Shrunk

/-! ### Column by column -/

/-- A column with the cells that it had, or with fewer. -/
structure Narrows (out column : Column) : Prop where
  wraps : out.wraps = column.wraps
  width : out.width ≤ column.width

section Narrows
variable {cells : Nat} {columns out : List Column} {sizes : List Cells} {wraps : List Bool}

theorem Narrows.refl (column : Column) : Narrows column column := ⟨rfl, UInt64.le_refl _⟩

theorem Narrows.trans {out mid column : Column} (h : Narrows out mid) (h' : Narrows mid column) : Narrows out column :=
  ⟨h.wraps.trans h'.wraps, UInt64.le_trans h.width h'.width⟩

theorem narrows_cut {level : Nat} (column : Column) (more : Prop) [Decidable more] :
    Narrows (if column.above level then
      { column with width := Cells.nearest ((level : Int) + if more then 1 else 0) } else column) column := by
  by_cases h : column.above level = true
  · rw [if_pos h]
    refine ⟨rfl, UInt64.le_iff_toNat_le.mpr ?_⟩
    have hlt := (above_iff.mp h).2
    rw [toNat_cut h more]
    split <;> omega
  · rw [if_neg h]
    exact Narrows.refl column

theorem narrows_levelled (level extra : Nat) (columns : List Column) :
    List.Forall₂ Narrows (levelled level extra columns) columns := by
  induction columns with
  | nil => exact .nil
  | cons column columns ih => exact .cons (narrows_cut column _) ih

theorem Shrunk.narrows (h : Shrunk cells columns out) : List.Forall₂ Narrows out columns := by
  rcases h with ⟨-, rfl⟩ | ⟨-, level, -, rfl⟩
  · exact List.forall₂_same.mpr fun column _ => Narrows.refl column
  · exact narrows_levelled level _ columns

theorem narrows_trans {mid : List Column} (h : List.Forall₂ Narrows out mid)
    (h' : List.Forall₂ Narrows mid columns) : List.Forall₂ Narrows out columns := by
  induction h generalizing columns with
  | nil => exact h'
  | cons hfirst _ ih =>
    cases h' with
    | cons hfirst' hlater' => exact .cons (hfirst.trans hfirst') (ih hlater')

theorem narrows_zipWith_cut (width : Cells) {columns : List Column} {cuts : List Cells}
    (h : cuts.length = columns.length) : List.Forall₂ Narrows (columns.zipWith (cut width) cuts) columns := by
  induction columns generalizing cuts with
  | nil => exact .nil
  | cons column columns ih =>
    cases cuts with
    | nil => cases h
    | cons cells cuts =>
      refine .cons ?_ (ih (Nat.succ.inj h))
      rw [cut]
      split
      · refine ⟨rfl, UInt64.le_iff_toNat_le.mpr ?_⟩
        rw [Cells.toNat_minus]
        exact Nat.sub_le _ _
      · exact Narrows.refl column

theorem narrows_squeeze (excess : Nat) (columns : List Column) :
    List.Forall₂ Narrows (squeeze excess columns).value columns := by
  rw [squeeze_eq, Traced.value_map]
  exact narrows_zipWith_cut _ ((length_cappedSizes _ _ _ _).trans (List.length_map _))

/-- However many cells a table has, shrinking it makes no column wider. -/
theorem narrows_shrink (limit : Cells) (columns : List Column) :
    List.Forall₂ Narrows (shrink limit columns).value columns := by
  induction columns using shrink.induct limit with
  | case1 columns total hfits =>
    rw [shrink_of_fits hfits]
    exact List.forall₂_same.mpr fun column _ => Narrows.refl column
  | case2 columns total hwide excess pass left hless ih =>
    rw [shrink_of_squeeze hwide hless]
    exact narrows_trans ih (narrows_squeeze _ columns)
  | case3 columns total hwide excess pass left hless =>
    rw [shrink, if_neg hwide]
    dsimp only
    rw [if_neg hless]
    exact narrows_squeeze _ columns

theorem map_wraps_eq (h : List.Forall₂ Narrows out columns) : out.map (·.wraps) = columns.map (·.wraps) := by
  induction h with
  | nil => rfl
  | cons h _ ih => rw [List.map_cons, List.map_cons, h.wraps, ih]

theorem width_le (h : List.Forall₂ Narrows out columns) {i : Nat} {x y : Cells} (hx : (widths out)[i]? = some x)
    (hy : (widths columns)[i]? = some y) : x ≤ y := by
  induction h generalizing i with
  | nil => cases hx
  | cons h _ ih =>
    cases i with
    | zero =>
      cases hx
      cases hy
      exact h.width
    | succ i => exact ih hx hy

theorem map_wraps_table (h : wraps.length = sizes.length) : (table sizes wraps).map (·.wraps) = wraps := by
  apply List.ext_getElem
  · rw [List.length_map, length_table h, h]
  · intro i _ _
    simp [table]

theorem table_widths (columns : List Column) : table (widths columns) (columns.map (·.wraps)) = columns := by
  induction columns with
  | nil => rfl
  | cons column columns ih =>
    rw [table] at ih
    rw [widths, List.map_cons, List.map_cons, table, List.zipWith_cons_cons]
    exact congrArg (column :: ·) ih

/-- A table that has been shrunk is again one of widths and of the same flags. -/
theorem table_shrink (limit : Cells) (h : wraps.length = sizes.length) (htotal : Cells.total sizes ≤ Cells.most) :
    table (widths (shrink limit (table sizes wraps)).value) wraps = (shrink limit (table sizes wraps)).value := by
  have hshrunk : Shrunk (room limit (table sizes wraps)) (table sizes wraps) _ :=
    shrunk_shrink limit ((widths_table h).symm ▸ htotal)
  have hwraps := map_wraps_eq hshrunk.narrows
  rw [map_wraps_table h] at hwraps
  have htable := table_widths (shrink limit (table sizes wraps)).value
  rwa [hwraps] at htable

end Narrows

/-- Shrinking a table in two steps is shrinking it at once to the smaller limit. A second step to the same limit
    changes nothing, and under a smaller limit no column is wider. -/
theorem shrinkColumns_twice (sizes : List Cells) (wraps : List Bool) (a b : Cells)
    (htotal : Cells.total sizes ≤ Cells.most) (hlength : wraps.length = sizes.length) :
    ∃ first second once, shrinkColumns sizes wraps a = .ok first ∧ shrinkColumns first.value wraps b = .ok second ∧
      shrinkColumns sizes wraps (min a b) = .ok once ∧ second.value = once.value ∧
      (∃ again, shrinkColumns first.value wraps a = .ok again ∧ again.value = first.value) ∧
      ∃ wider, shrinkColumns sizes wraps b = .ok wider ∧
        (a ≤ b → ∀ (i : Nat) (x y : Cells), first.value[i]? = some x → wider.value[i]? = some y → x ≤ y) := by
  have hwidths : Cells.total (widths (table sizes wraps)) ≤ Cells.most := (widths_table hlength).symm ▸ htotal
  have hfirst : Shrunk (room a (table sizes wraps)) (table sizes wraps) (shrink a (table sizes wraps)).value :=
    shrunk_shrink a hwidths
  have hflags : wraps.length = (widths (shrink a (table sizes wraps)).value).length := by
    have hwraps := congrArg List.length ((map_wraps_eq hfirst.narrows).trans (map_wraps_table hlength))
    rw [List.length_map] at hwraps
    rw [widths, List.length_map, hwraps]
  -- What the second step finds is the table that the first one left.
  have hagain : ∀ limit : Cells, shrinkColumns (widths (shrink a (table sizes wraps)).value) wraps limit =
      .ok ((shrink limit (shrink a (table sizes wraps)).value).map widths) := fun limit => by
    rw [shrinkColumns_of_length limit hflags, table_shrink a hlength htotal]
  refine ⟨_, _, _, shrinkColumns_of_length a hlength, hagain b, shrinkColumns_of_length (min a b) hlength, ?_,
    ⟨_, hagain a, ?_⟩, _, shrinkColumns_of_length b hlength, fun hab i x y hx hy => ?_⟩
  · exact congrArg widths (shrink_shrink a b hwidths)
  · exact congrArg widths (shrink_shrink_of_le (UInt64.le_refl a) hwidths)
  -- The narrower table is also what the wider one is shrunk to.
  · have hb : Shrunk (room b (table sizes wraps)) (table sizes wraps) (shrink b (table sizes wraps)).value :=
      shrunk_shrink b hwidths
    have hnarrower := shrunk_shrink a (hb.total_le.trans hwidths)
    rw [shrink_shrink_of_le hab hwidths] at hnarrower
    exact width_le hnarrower.narrows hx hy

/-- Of the two odd cells that the first step leaves the second takes the one that is further left. -/
theorem shrinkColumns_twice_odd :
    (Cells.total [9, 9, 9] ≤ Cells.most ∧ [true, true, true].length = [9, 9, 9].length) ∧
      ∃ first second once, shrinkColumns [9, 9, 9] [true, true, true] 26 = .ok first ∧
        shrinkColumns first.value [true, true, true] 25 = .ok second ∧
        shrinkColumns [9, 9, 9] [true, true, true] 25 = .ok once ∧
        first.value = [8, 9, 9] ∧ second.value = once.value ∧ once.value = [8, 8, 9] := by
  have hfirst' : (shrinkColumns [9, 9, 9] [true, true, true] 26).map (·.value) = .ok [8, 9, 9] := by cbv
  have honce' : (shrinkColumns [9, 9, 9] [true, true, true] (min 26 25)).map (·.value) = .ok [8, 8, 9] := by cbv
  obtain ⟨first, second, once, hfirst, hsecond, honce, heq, -⟩ :=
    shrinkColumns_twice [9, 9, 9] [true, true, true] 26 25 (by decide) rfl
  rw [hfirst] at hfirst'
  rw [honce] at honce'
  exact ⟨⟨by decide, rfl⟩, first, second, once, hfirst, hsecond, honce, Except.ok.inj hfirst', heq,
    Except.ok.inj honce'⟩

end Allotment.Column
