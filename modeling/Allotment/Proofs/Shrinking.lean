import Allotment.Proofs.Squeezing

/-! The table after all passes. Where the columns that wrap have more cells than the limit leaves them, they end at the
    greatest level that does not exceed what it leaves, and the last of the columns cut take the cells that remain. A
    pass keeps this: what it cuts to a level above is cut to the same level in the end. -/

namespace Allotment.Column

/-- The cells that a limit leaves to the columns that wrap. -/
def room (limit : Cells) (columns : List Column) : Nat := limit.toNat - rigidTotal columns

/-- The columns that wrap can be cut to a level within some cells, and to no greater one. -/
structure FillsTo (cells level : Nat) (columns : List Column) : Prop where
  le : levelTotal level columns ≤ cells
  lt : cells < levelTotal (level + 1) columns

/-- A table cut down to the level that some cells fill, with the cells that remain on its last columns. -/
def Levelled (cells : Nat) (columns out : List Column) : Prop :=
  ∃ level, FillsTo cells level columns ∧ out = levelled level (cells - levelTotal level columns) columns

section Fills
variable {cells level : Nat} {columns out : List Column} {limit : Cells}

theorem FillsTo.isGreatest (h : FillsTo cells level columns) :
    IsGreatest {l | levelTotal l columns ≤ cells} level := by
  refine ⟨h.le, fun l hl => ?_⟩
  by_contra hlt
  have hmono : levelTotal (level + 1) columns ≤ levelTotal l columns := levelTotal_mono (by omega) columns
  have hover := h.lt
  have hfits : levelTotal l columns ≤ cells := hl
  omega

/-- Every cell that remains finds a column above the level. -/
theorem FillsTo.wrappingTotal_levelled (h : FillsTo cells level columns) :
    wrappingTotal (levelled level (cells - levelTotal level columns) columns) = cells := by
  have hle := h.le
  have hlt := h.lt
  rw [levelTotal_succ] at hlt
  rw [Column.wrappingTotal_levelled]
  omega

theorem FillsTo.lt_of_lt_levelTotal {m : Nat} (h : FillsTo cells level columns) (hm : cells < levelTotal m columns) :
    level < m := by
  by_contra hle
  have hmono := levelTotal_mono (Nat.le_of_not_lt hle) columns
  have hfits := h.le
  omega

/-- Cells that a table cut down has more of fill it as they fill the table. -/
theorem Levelled.of_levelled {m kept : Nat} (hcells : cells < wrappingTotal (levelled m kept columns))
    (h : Levelled cells (levelled m kept columns) out) : Levelled cells columns out := by
  obtain ⟨level, hfills, rfl⟩ := h
  have hlevel : level ≤ m := by
    refine Nat.le_of_lt_succ (hfills.lt_of_lt_levelTotal ?_)
    rwa [levelTotal_eq_wrappingTotal fun _ hmem hwraps => width_le_of_mem_levelled hmem hwraps]
  obtain ⟨hle, hover⟩ := hfills
  rw [levelTotal_levelled hlevel] at hle ⊢
  rcases Nat.lt_or_eq_of_le hlevel with hlt | rfl
  -- Below `m` the table and the one cut down have the same cells under each level.
  · rw [levelTotal_levelled hlt] at hover
    exact ⟨level, ⟨hle, hover⟩, levelled_levelled hlt _ kept columns⟩
  -- At `m` some of the columns that kept a cell the first time give it up.
  · rw [Column.wrappingTotal_levelled] at hcells
    refine ⟨level, ⟨hle, ?_⟩, levelled_levelled_self (by omega) level columns⟩
    rw [levelTotal_succ]
    omega

namespace Levelled

theorem rigidTotal_eq (h : Levelled cells columns out) : rigidTotal out = rigidTotal columns := by
  obtain ⟨level, -, rfl⟩ := h
  exact rigidTotal_levelled level _ columns

theorem wrappingTotal_eq (h : Levelled cells columns out) : wrappingTotal out = cells := by
  obtain ⟨level, hfills, rfl⟩ := h
  exact hfills.wrappingTotal_levelled

theorem room_eq (h : Levelled cells columns out) : room limit out = room limit columns := by
  rw [room, room, h.rigidTotal_eq]

theorem total_eq (h : Levelled (room limit columns) columns out) :
    Cells.total (widths out) = max limit.toNat (rigidTotal columns) := by
  rw [total_widths, h.rigidTotal_eq, h.wrappingTotal_eq, room]
  omega

end Levelled
end Fills

/-! ### A pass -/

section Pass
variable {limit : Cells} {columns : List Column}

theorem gap_ne_zero_of_wrappingTotal_pos (h : 0 < wrappingTotal columns) : gap columns ≠ 0 := by
  intro hgap
  rw [← levelTotal_widest, gap_eq_zero_iff.mp hgap, levelTotal_zero] at h
  exact Nat.lt_irrefl 0 h

/-- A table whose columns have more cells than the limit leaves them can be squeezed. -/
theorem squeezable_of_room_lt (htotal : Cells.total (widths columns) ≤ Cells.most)
    (h : room limit columns < wrappingTotal columns) :
    Squeezable (Cells.total (widths columns) - limit.toNat) columns where
  gap_ne := gap_ne_zero_of_wrappingTotal_pos (Nat.zero_lt_of_lt h)
  excess_pos := by
    rw [room] at h
    rw [total_widths]
    omega
  excess_le := Nat.sub_le _ _
  total_le := htotal

theorem shrink_of_fits (h : Cells.total (widths columns) ≤ limit.toNat ∨ gap columns = 0) :
    (shrink limit columns).value = columns := by
  rw [shrink, if_pos h]
  rfl

theorem shrink_of_squeeze (h : ¬(Cells.total (widths columns) ≤ limit.toNat ∨ gap columns = 0))
    (hless : Cells.total (widths (squeeze (Cells.total (widths columns) - limit.toNat) columns).value) <
      Cells.total (widths columns)) :
    (shrink limit columns).value =
      (shrink limit (squeeze (Cells.total (widths columns) - limit.toNat) columns).value).value := by
  rw [shrink, if_neg h]
  dsimp only
  rw [if_pos hless]

/-- Columns that have no more cells than the limit leaves them are not shrunk. -/
theorem shrink_of_le_room (h : wrappingTotal columns ≤ room limit columns) :
    (shrink limit columns).value = columns := by
  refine shrink_of_fits ?_
  rcases Nat.eq_zero_or_pos (wrappingTotal columns) with hzero | hpos
  · right
    by_contra hgap
    have htotal := wrappingTotal_eq hgap
    have hcount := Nat.mul_pos (countP_givesAt_pos hgap) (Nat.pos_of_ne_zero hgap)
    omega
  · left
    rw [room] at h
    rw [total_widths]
    omega

/-- The last pass cuts the table to its final level. -/
theorem levelled_squeeze_last (h : Squeezable (Cells.total (widths columns) - limit.toNat) columns)
    (hexcess : Cells.total (widths columns) - limit.toNat < widestCount columns * gap columns) :
    Levelled (room limit columns) columns (squeeze (Cells.total (widths columns) - limit.toNat) columns).value := by
  have htotal := total_widths columns
  have hwrapping : wrappingTotal columns =
      levelTotal (runnerUp columns).toNat columns + widestCount columns * gap columns := wrappingTotal_eq h.gap_ne
  have hpos := h.excess_pos
  obtain ⟨kept, hkept⟩ : ∃ kept,
      kept = widestCount columns * gap columns - (Cells.total (widths columns) - limit.toNat) := ⟨_, rfl⟩
  have hroom : room limit columns = levelTotal (runnerUp columns).toNat columns + kept := by
    rw [room]
    omega
  have hquotient : kept / widestCount columns < gap columns := Nat.div_lt_of_lt_mul (by omega)
  have hdiv := Nat.div_add_mod kept (widestCount columns)
  have hmod := Nat.mod_lt kept h.widestCount_pos
  have hlevel : levelTotal ((runnerUp columns).toNat + kept / widestCount columns) columns =
      levelTotal (runnerUp columns).toNat columns + widestCount columns * (kept / widestCount columns) :=
    levelTotal_runnerUp_add hquotient.le
  have hgap := runnerUp_add_gap h.gap_ne
  have habove : columns.countP (above ((runnerUp columns).toNat + kept / widestCount columns)) =
      widestCount columns := countP_above_eq (Nat.le_add_right _ _) (by omega)
  refine ⟨(runnerUp columns).toNat + kept / widestCount columns, ⟨by omega, ?_⟩, ?_⟩
  · rw [levelTotal_succ, habove]
    omega
  · have hextra : room limit columns - levelTotal ((runnerUp columns).toNat + kept / widestCount columns) columns =
        kept % widestCount columns := by omega
    rw [hextra, squeeze_last h hexcess, hkept]

/-- A pass after which nothing is left to cut has cut the table to its final level. -/
theorem levelled_runnerUp (h : gap columns ≠ 0)
    (hroom : room limit columns = levelTotal (runnerUp columns).toNat columns) :
    Levelled (room limit columns) columns (levelled (runnerUp columns).toNat 0 columns) := by
  have hgap := runnerUp_add_gap h
  have habove : columns.countP (above (runnerUp columns).toNat) = widestCount columns :=
    countP_above_eq (Nat.le_refl _) (by omega)
  have hcount : 0 < widestCount columns := countP_givesAt_pos h
  refine ⟨(runnerUp columns).toNat, ⟨hroom.ge, ?_⟩, ?_⟩
  · rw [levelTotal_succ, habove]
    omega
  · rw [hroom, Nat.sub_self]

/-- A pass cuts the table to its final level, or to the next narrower width if that is above it. -/
theorem squeeze_cases (h : Squeezable (Cells.total (widths columns) - limit.toNat) columns) :
    Levelled (room limit columns) columns (squeeze (Cells.total (widths columns) - limit.toNat) columns).value ∨
      room limit columns < levelTotal (runnerUp columns).toNat columns ∧
        (squeeze (Cells.total (widths columns) - limit.toNat) columns).value =
          levelled (runnerUp columns).toNat 0 columns := by
  rcases Nat.lt_or_ge (Cells.total (widths columns) - limit.toNat) (widestCount columns * gap columns) with
    hexcess | hexcess
  · exact Or.inl (levelled_squeeze_last h hexcess)
  · rw [squeeze_full h hexcess]
    have htotal := total_widths columns
    have hwrapping : wrappingTotal columns =
        levelTotal (runnerUp columns).toNat columns + widestCount columns * gap columns := wrappingTotal_eq h.gap_ne
    have hpos := h.excess_pos
    have hle : room limit columns ≤ levelTotal (runnerUp columns).toNat columns := by
      rw [room]
      omega
    rcases Nat.eq_or_lt_of_le hle with hroom | hlt
    · exact Or.inl (levelled_runnerUp h.gap_ne hroom)
    · exact Or.inr ⟨hlt, rfl⟩

/-- Columns that have more cells than the limit leaves them are cut to the level that these cells fill. -/
theorem levelled_shrink (limit : Cells) (columns : List Column) (htotal : Cells.total (widths columns) ≤ Cells.most)
    (hroom : room limit columns < wrappingTotal columns) :
    Levelled (room limit columns) columns (shrink limit columns).value := by
  induction columns using shrink.induct limit with
  | case1 columns total hfits =>
    have h := squeezable_of_room_lt htotal hroom
    have hpos := h.excess_pos
    rcases hfits with hfits | hgap
    · omega
    · exact absurd hgap h.gap_ne
  | case2 columns total hmore excess pass left hless ih =>
    rw [shrink_of_squeeze hmore hless]
    -- After its last pass the table has no more cells than the limit leaves, and the next call returns it.
    rcases squeeze_cases (squeezable_of_room_lt htotal hroom) with hlast | ⟨hlt, hfull⟩
    · have hfits : wrappingTotal pass.value ≤ room limit pass.value :=
        hlast.wrappingTotal_eq.le.trans hlast.room_eq.ge
      rw [shrink_of_le_room hfits]
      exact hlast
    · have hrigid : room limit pass.value = room limit columns := by
        rw [hfull, room, rigidTotal_levelled, room]
      have hwrapping : wrappingTotal pass.value = levelTotal (runnerUp columns).toNat columns := by
        rw [hfull, wrappingTotal_levelled, Nat.zero_min, Nat.add_zero]
      have hfinal := ih (hless.le.trans htotal) (by rwa [hrigid, hwrapping])
      rw [hrigid] at hfinal
      rw [hfull] at hwrapping hfinal
      refine Levelled.of_levelled (hwrapping.symm ▸ hlt) ?_
      rw [hfull]
      exact hfinal
  | case3 columns total hmore excess pass left hmost =>
    -- A pass over such a table always takes something.
    exact absurd (total_squeeze_lt (squeezable_of_room_lt htotal hroom)) hmost

end Pass

/-! ### Column by column -/

section Table
variable {columns : List Column} {column : Column} {sizes : List Cells} {wraps : List Bool} {level extra i : Nat}

/-- The columns of given widths, some of which wrap. -/
def table (sizes : List Cells) (wraps : List Bool) : List Column := sizes.zipWith Column.mk wraps

theorem getElem?_table {size : Cells} {flag : Bool} (hsize : sizes[i]? = some size) (hflag : wraps[i]? = some flag) :
    (table sizes wraps)[i]? = some ⟨size, flag⟩ := by
  rw [table, List.getElem?_zipWith, hsize, hflag]

theorem length_table (h : wraps.length = sizes.length) : (table sizes wraps).length = sizes.length := by
  rw [table, List.length_zipWith, h, min_self]

theorem widths_table (h : wraps.length = sizes.length) : widths (table sizes wraps) = sizes := by
  apply List.ext_getElem
  · rw [widths, List.length_map, length_table h]
  · intro i _ _
    simp [widths, table]

theorem getElem?_widths_of_rigid (hcolumn : columns[i]? = some column) (hrigid : column.wraps = false) :
    (widths (levelled level extra columns))[i]? = some column.width := by
  have habove : ¬column.above level = true := fun h => by
    rw [(above_iff.mp h).1] at hrigid
    cases hrigid
  rw [widths, List.getElem?_map, getElem?_levelled, hcolumn, Option.map_some, if_neg habove, Option.map_some]

theorem exists_width_of_wraps (level extra : Nat) (hcolumn : columns[i]? = some column)
    (hwraps : column.wraps = true) :
    ∃ size, (widths (levelled level extra columns))[i]? = some size ∧
      size.toNat = min column.width.toNat level +
        if level < column.width.toNat ∧ (columns.drop (i + 1)).countP (above level) < extra then 1 else 0 := by
  rw [widths, List.getElem?_map, getElem?_levelled, hcolumn, Option.map_some, Option.map_some]
  by_cases h : column.above level = true
  · have hlt := (above_iff.mp h).2
    refine ⟨_, rfl, ?_⟩
    rw [if_pos h, min_eq_right hlt.le]
    simp only [hlt, true_and]
    exact toNat_cut h _
  · have hle : ¬level < column.width.toNat := fun hlt => h (above_iff.mpr ⟨hwraps, hlt⟩)
    refine ⟨_, rfl, ?_⟩
    rw [if_neg h, min_eq_left (Nat.le_of_not_lt hle), if_neg fun hboth => hle hboth.1]
    rfl

theorem length_widths_levelled (h : wraps.length = sizes.length) (level extra : Nat) :
    (widths (levelled level extra (table sizes wraps))).length = sizes.length := by
  rw [widths, List.length_map, length_levelled, length_table h]

theorem getElem?_widths_levelled (h : wraps.length = sizes.length) (level extra : Nat)
    (hrigid : wraps[i]? = some false) : (widths (levelled level extra (table sizes wraps)))[i]? = sizes[i]? := by
  cases hsize : sizes[i]? with
  | some size => exact getElem?_widths_of_rigid (getElem?_table hsize hrigid) rfl
  | none =>
    rw [List.getElem?_eq_none_iff] at hsize ⊢
    rwa [length_widths_levelled h]

theorem shrinkColumns_of_length (limit : Cells) (h : wraps.length = sizes.length) :
    shrinkColumns sizes wraps limit = .ok ((shrink limit (table sizes wraps)).map widths) := by
  rw [shrinkColumns, checkLength_eq_ok_iff.mpr h.symm]
  rfl

end Table

/-- A table is cut to the greatest level that the limit lets its columns have, and its last columns take what the
    level leaves. No pass is refused. -/
theorem shrinkColumns_levels (sizes : List Cells) (wraps : List Bool) (limit : Cells)
    (htotal : Cells.total sizes ≤ Cells.most) :
    (wraps.length ≠ sizes.length →
      shrinkColumns sizes wraps limit = .error (.lengthMismatch "wrapable flags" sizes.length wraps.length)) ∧
    (wraps.length = sizes.length → ∃ shrunk, shrinkColumns sizes wraps limit = .ok shrunk ∧
      shrunk.value.length = sizes.length ∧
      (∀ i : Nat, wraps[i]? = some false → shrunk.value[i]? = sizes[i]?) ∧
      (wrappingTotal (table sizes wraps) ≤ room limit (table sizes wraps) → shrunk.value = sizes) ∧
      (room limit (table sizes wraps) < wrappingTotal (table sizes wraps) →
        Cells.total shrunk.value = max limit.toNat (rigidTotal (table sizes wraps)) ∧
        ∃ level, IsGreatest {l | levelTotal l (table sizes wraps) ≤ room limit (table sizes wraps)} level ∧
          ∀ (i : Nat) (width : Cells), sizes[i]? = some width → wraps[i]? = some true →
            ∃ size, shrunk.value[i]? = some size ∧
              size.toNat = min width.toNat level +
                if level < width.toNat ∧ ((table sizes wraps).drop (i + 1)).countP (above level) <
                  room limit (table sizes wraps) - levelTotal level (table sizes wraps) then 1 else 0)) ∧
    ∀ (excess : Cells) (columns : List Column), ∃ cuts,
      allotAtMost excess (passRatios columns) (passLimits excess.toNat columns) (widths columns) = .ok cuts ∧
        squeeze excess.toNat columns = cuts.map fun taken => columns.zipWith (cut (widest columns)) taken := by
  refine ⟨fun hne => ?_, fun hlength => ?_, fun excess columns => ?_⟩
  · rw [shrinkColumns, checkLength, if_neg (Ne.symm hne)]
    rfl
  · have hwidths := widths_table hlength
    refine ⟨_, shrinkColumns_of_length limit hlength, ?_⟩
    rw [Traced.value_map]
    rcases Nat.lt_or_ge (room limit (table sizes wraps)) (wrappingTotal (table sizes wraps)) with hroom | hroom
    · have hlevelled := levelled_shrink limit (table sizes wraps) (hwidths.symm ▸ htotal) hroom
      have hsum := hlevelled.total_eq
      obtain ⟨level, hfills, hshrunk⟩ := hlevelled
      rw [hshrunk] at hsum ⊢
      refine ⟨length_widths_levelled hlength level _, fun i => getElem?_widths_levelled hlength level _,
        fun hle => absurd hroom (Nat.not_lt_of_le hle), fun _ => ⟨hsum, level, hfills.isGreatest, ?_⟩⟩
      intro i width hsize hwraps
      exact exists_width_of_wraps level _ (getElem?_table hsize hwraps) rfl
    · rw [shrink_of_le_room hroom, hwidths]
      exact ⟨rfl, fun _ _ => rfl, fun _ => rfl, fun hlt => absurd hlt (Nat.not_lt_of_le hroom)⟩
  · exact ⟨_, allotAtMost_of_length excess (length_passLimits excess.toNat columns) (length_widths columns),
      squeeze_eq excess.toNat columns⟩

/-- The widest columns end one cell apart, and the one that does not wrap stays as it is. -/
theorem shrinkColumns_levels_apart :
    Cells.total [10, 20, 20, 7] ≤ Cells.most ∧
      ∃ shrunk, shrinkColumns [10, 20, 20, 7] [true, true, true, false] 46 = .ok shrunk ∧
        shrunk.value.length = 4 ∧ shrunk.value[3]? = some 7 ∧ Cells.total shrunk.value = 46 := by
  refine ⟨by decide, ?_⟩
  obtain ⟨shrunk, hok, hlength, hrigid, -, hshrunk⟩ :=
    (shrinkColumns_levels [10, 20, 20, 7] [true, true, true, false] 46 (by decide)).2.1 rfl
  exact ⟨shrunk, hok, hlength, hrigid 3 rfl, (hshrunk (by decide)).1⟩

end Allotment.Column
