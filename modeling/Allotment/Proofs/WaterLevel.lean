import Allotment.Columns
import Mathlib

/-! Levels of a table. Under a level no column that wraps is wider than it; how many cells these columns then take
    grows with the level by one for each column above it. A table cut down to a level, where the last few of the
    columns cut keep one cell more, has exactly those cells more, and cutting it to a lower level still is the same
    as cutting the whole table to that. Between the two greatest widths all columns above a level are the widest. -/

namespace Allotment.Column

/-! ### Totals under a level -/

/-- The cells of the columns that keep their widths. -/
def rigidTotal (columns : List Column) : Nat := Cells.total (widths (columns.filter fun column => !column.wraps))

/-- The cells of the columns that wrap. -/
def wrappingTotal (columns : List Column) : Nat := Cells.total (wrappingWidths columns)

/-- The cells of the columns that wrap where none is wider than `level`. -/
def levelTotal (level : Nat) (columns : List Column) : Nat :=
  ((columns.filter (·.wraps)).map fun column => min column.width.toNat level).sum

/-- A column that wraps and is wider than `level`. -/
def above (level : Nat) (column : Column) : Bool := column.wraps && level < column.width.toNat

/-- The columns cut down to `level`, where the last `extra` of those that are cut keep one cell more. -/
def levelled (level extra : Nat) : List Column → List Column
  | [] => []
  | column :: columns =>
    (if column.above level then
      { column with width := Cells.nearest (level + if columns.countP (above level) < extra then 1 else 0) }
    else column) :: levelled level extra columns

section Totals
variable {columns : List Column} {column : Column} {level extra : Nat}

theorem above_iff : column.above level = true ↔ column.wraps = true ∧ level < column.width.toNat := by
  rw [above, Bool.and_eq_true, decide_eq_true_eq]

theorem rigidTotal_cons (column : Column) (columns : List Column) :
    rigidTotal (column :: columns) = (if column.wraps then 0 else column.width.toNat) + rigidTotal columns := by
  cases h : column.wraps <;> simp [rigidTotal, widths, h]

theorem wrappingTotal_cons (column : Column) (columns : List Column) :
    wrappingTotal (column :: columns) = (if column.wraps then column.width.toNat else 0) + wrappingTotal columns := by
  cases h : column.wraps <;> simp [wrappingTotal, wrappingWidths, widths, h]

theorem levelTotal_cons (level : Nat) (column : Column) (columns : List Column) :
    levelTotal level (column :: columns) =
      (if column.wraps then min column.width.toNat level else 0) + levelTotal level columns := by
  cases h : column.wraps <;> simp [levelTotal, h]

theorem countP_above_cons (level : Nat) (column : Column) (columns : List Column) :
    (column :: columns).countP (above level) =
      columns.countP (above level) + if column.above level then 1 else 0 := List.countP_cons

theorem total_widths (columns : List Column) :
    Cells.total (widths columns) = rigidTotal columns + wrappingTotal columns := by
  induction columns with
  | nil => rfl
  | cons column columns ih =>
    have hcons : Cells.total (widths (column :: columns)) = column.width.toNat + Cells.total (widths columns) := rfl
    rw [hcons, rigidTotal_cons, wrappingTotal_cons, ih]
    cases column.wraps <;> simp <;> omega

theorem levelTotal_zero (columns : List Column) : levelTotal 0 columns = 0 := by
  induction columns with
  | nil => rfl
  | cons column columns ih => rw [levelTotal_cons, ih, Nat.min_zero, ite_self]

/-- One level up each column above the level takes one cell more. -/
theorem levelTotal_succ (level : Nat) (columns : List Column) :
    levelTotal (level + 1) columns = levelTotal level columns + columns.countP (above level) := by
  induction columns with
  | nil => rfl
  | cons column columns ih =>
    rw [levelTotal_cons, levelTotal_cons, countP_above_cons, ih, above]
    cases column.wraps
    · simp
    · by_cases h : level < column.width.toNat
      · simp only [h, if_true, decide_true, Bool.and_true]
        omega
      · simp only [h, if_true, decide_false, Bool.and_false, Bool.false_eq_true, if_false]
        omega

theorem levelTotal_mono {m : Nat} (h : level ≤ m) (columns : List Column) :
    levelTotal level columns ≤ levelTotal m columns := by
  induction h with
  | refl => exact Nat.le_refl _
  | step _ ih => exact ih.trans (levelTotal_succ _ columns ▸ Nat.le_add_right _ _)

theorem levelTotal_eq_wrappingTotal
    (h : ∀ column ∈ columns, column.wraps = true → column.width.toNat ≤ level) :
    levelTotal level columns = wrappingTotal columns := by
  induction columns with
  | nil => rfl
  | cons column columns ih =>
    rw [levelTotal_cons, wrappingTotal_cons, ih fun c hc => h c (List.mem_cons_of_mem _ hc)]
    split
    · rename_i hwraps
      rw [min_eq_left (h column List.mem_cons_self hwraps)]
    · rfl

end Totals

/-! ### Columns cut down -/

section Levelled
variable {columns : List Column} {column : Column} {level extra m : Nat}

theorem length_levelled (level extra : Nat) (columns : List Column) :
    (levelled level extra columns).length = columns.length := by
  induction columns with
  | nil => rfl
  | cons column columns ih => rw [levelled, List.length_cons, List.length_cons, ih]

theorem toNat_cut (h : column.above level = true) (more : Prop) [Decidable more] :
    (Cells.nearest ((level : Int) + if more then 1 else 0)).toNat = level + if more then 1 else 0 := by
  have hlt := (above_iff.mp h).2
  have hmost := Cells.toNat_le_most column.width
  rw [Cells.toNat_nearest]
  split <;> omega

theorem rigidTotal_levelled (level extra : Nat) (columns : List Column) :
    rigidTotal (levelled level extra columns) = rigidTotal columns := by
  induction columns with
  | nil => rfl
  | cons column columns ih =>
    rw [levelled, rigidTotal_cons, rigidTotal_cons, ih]
    by_cases h : column.above level = true
    · have hwraps := (above_iff.mp h).1
      simp only [h, hwraps, if_true]
    · rw [if_neg h]

/-- Columns cut down take what the level lets them, and the cells they keep beyond it. -/
theorem wrappingTotal_levelled (level extra : Nat) (columns : List Column) :
    wrappingTotal (levelled level extra columns) =
      levelTotal level columns + min extra (columns.countP (above level)) := by
  induction columns with
  | nil => simp [levelled, wrappingTotal, wrappingWidths, widths, levelTotal]
  | cons column columns ih =>
    rw [levelled, wrappingTotal_cons, ih, levelTotal_cons, countP_above_cons]
    by_cases h : column.above level = true
    · obtain ⟨hwraps, hlt⟩ := above_iff.mp h
      have hcut := toNat_cut h (columns.countP (above level) < extra)
      simp only [h, hwraps, if_true] at hcut ⊢
      rw [hcut, min_eq_right hlt.le]
      split <;> omega
    · have hwidth : (if column.wraps then column.width.toNat else 0) =
          if column.wraps then min column.width.toNat level else 0 := by
        split
        · rename_i hwraps
          rw [above_iff, not_and, Nat.not_lt] at h
          rw [min_eq_left (h hwraps)]
        · rfl
      rw [if_neg h, if_neg h, hwidth]
      omega

theorem above_cut (h : level < m) (more : Prop) [Decidable more] :
    above level (if column.above m then { column with width := Cells.nearest ((m : Int) + if more then 1 else 0) }
      else column) = column.above level := by
  by_cases hm : column.above m = true
  · obtain ⟨hwraps, hlt⟩ := above_iff.mp hm
    have hcut := toNat_cut hm more
    rw [if_pos hm, above, above, hcut, hwraps]
    simp only [Bool.true_and, decide_eq_decide]
    omega
  · rw [if_neg hm]

theorem countP_above_levelled (h : level < m) (kept : Nat) (columns : List Column) :
    (levelled m kept columns).countP (above level) = columns.countP (above level) := by
  induction columns with
  | nil => rfl
  | cons column columns ih => rw [levelled, countP_above_cons, countP_above_cons, ih, above_cut h]

/-- Cut to a level, and then to a lower one, a table is as if cut to the lower one. -/
theorem levelled_levelled (h : level < m) (extra kept : Nat) (columns : List Column) :
    levelled level extra (levelled m kept columns) = levelled level extra columns := by
  induction columns with
  | nil => rfl
  | cons column columns ih =>
    simp only [levelled]
    rw [ih, countP_above_levelled h kept columns, above_cut h]
    congr 1
    -- A column cut to `m` is above the lower level before and after.
    by_cases hm : column.above m = true
    · have hlevel : column.above level = true :=
        above_iff.mpr ⟨(above_iff.mp hm).1, h.trans (above_iff.mp hm).2⟩
      simp only [hm, hlevel, if_true]
    · rw [if_neg hm]

theorem levelTotal_levelled (h : level ≤ m) (kept : Nat) (columns : List Column) :
    levelTotal level (levelled m kept columns) = levelTotal level columns := by
  induction columns with
  | nil => rfl
  | cons column columns ih =>
    rw [levelled, levelTotal_cons, levelTotal_cons, ih]
    congr 1
    by_cases hm : column.above m = true
    · obtain ⟨hwraps, hlt⟩ := above_iff.mp hm
      have hcut := toNat_cut hm (columns.countP (above m) < kept)
      simp only [hm, hwraps, if_true, hcut]
      omega
    · rw [if_neg hm]

theorem above_cut_self (m : Nat) (column : Column) (more : Prop) [Decidable more] :
    above m (if column.above m then { column with width := Cells.nearest ((m : Int) + if more then 1 else 0) }
      else column) = (column.above m && decide more) := by
  by_cases hm : column.above m = true
  · have hcut := toNat_cut hm more
    rw [if_pos hm, above, hcut, (above_iff.mp hm).1, hm]
    by_cases hmore : more <;> simp [hmore]
  · rw [if_neg hm, Bool.eq_false_iff.mpr hm, Bool.false_and]

/-- Of the columns cut to a level those that keep one cell more are above it. -/
theorem countP_above_levelled_self (m kept : Nat) (columns : List Column) :
    (levelled m kept columns).countP (above m) = min kept (columns.countP (above m)) := by
  induction columns with
  | nil => exact (Nat.min_zero kept).symm
  | cons column columns ih =>
    rw [levelled, countP_above_cons, countP_above_cons, ih, above_cut_self]
    by_cases hm : column.above m = true
    · by_cases hmore : columns.countP (above m) < kept
      · simp only [hm, hmore, decide_true, Bool.and_self, if_true]
        omega
      · simp only [hm, hmore, decide_false, Bool.and_false, Bool.false_eq_true, if_true, if_false]
        omega
    · simp only [hm, Bool.false_and, Bool.false_eq_true, if_false]
      omega

/-- Cut to a level twice, a table keeps the cells that it keeps the second time, if these are no more. -/
theorem levelled_levelled_self {kept : Nat} (h : extra ≤ kept) (m : Nat) (columns : List Column) :
    levelled m extra (levelled m kept columns) = levelled m extra columns := by
  induction columns with
  | nil => rfl
  | cons column columns ih =>
    simp only [levelled]
    rw [ih, countP_above_levelled_self, above_cut_self]
    congr 1
    by_cases hm : column.above m = true
    · simp only [hm, Bool.true_and, decide_eq_true_eq, if_true]
      by_cases hmore : columns.countP (above m) < kept
      · have hiff : min kept (columns.countP (above m)) < extra ↔ columns.countP (above m) < extra := by omega
        simp only [hmore, if_true, hiff]
      -- A column that keeps no cell the first time has none to keep the second time.
      · have hnone : ¬columns.countP (above m) < extra := by omega
        simp only [hmore, hnone, if_false]
    · simp only [hm, Bool.false_and, Bool.false_eq_true, if_false]

theorem width_le_of_mem_levelled {kept : Nat} (h : column ∈ levelled m kept columns) (hwraps : column.wraps = true) :
    column.width.toNat ≤ m + 1 := by
  induction columns with
  | nil => cases h
  | cons first columns ih =>
    rcases List.mem_cons.mp h with rfl | h
    · by_cases hm : first.above m = true
      · rw [if_pos hm, toNat_cut hm]
        split <;> omega
      · rw [if_neg hm] at hwraps ⊢
        rw [above_iff, not_and, Nat.not_lt] at hm
        exact (hm hwraps).trans (Nat.le_succ m)
    · exact ih h

/-- The column at `i` ends at the level or at its own width, and has a cell more if few columns after it are cut. -/
theorem getElem?_levelled (level extra : Nat) (columns : List Column) (i : Nat) :
    (levelled level extra columns)[i]? = columns[i]?.map fun column =>
      if column.above level then
        { column with
          width := Cells.nearest (level + if (columns.drop (i + 1)).countP (above level) < extra then 1 else 0) }
      else column := by
  induction columns generalizing i with
  | nil => rfl
  | cons column columns ih =>
    cases i with
    | zero => rfl
    | succ i => exact ih i

end Levelled

/-! ### The widest columns -/

section Widest
variable {columns : List Column} {column : Column}

theorem le_greatest {counts : List Cells} {count : Cells} (h : count ∈ counts) : count.toNat ≤ (greatest counts).toNat := by
  have hle : ∀ (first : Cells), first.toNat ≤ (counts.foldl max first).toNat ∧
      (count ∈ counts → count.toNat ≤ (counts.foldl max first).toNat) := by
    clear h
    induction counts with
    | nil => exact fun first => ⟨Nat.le_refl _, fun h => nomatch h⟩
    | cons next counts ih =>
      intro first
      obtain ⟨hfirst, hmem⟩ := ih (max first next)
      rw [UInt64.toNat_max] at hfirst
      refine ⟨(le_max_left _ _).trans hfirst, fun h => ?_⟩
      rcases List.mem_cons.mp h with rfl | h
      · exact (le_max_right _ _).trans hfirst
      · exact hmem h
  exact (hle 0).2 h

theorem greatest_mem {counts : List Cells} (hpos : 0 < (greatest counts).toNat) : greatest counts ∈ counts := by
  have hmem : ∀ (first : Cells), counts.foldl max first = first ∨ counts.foldl max first ∈ counts := by
    clear hpos
    induction counts with
    | nil => exact fun first => Or.inl rfl
    | cons next counts ih =>
      intro first
      rw [List.foldl_cons]
      rcases ih (max first next) with h | h
      · rw [h, UInt64.max_def]
        split
        · exact Or.inr List.mem_cons_self
        · exact Or.inl rfl
      · exact Or.inr (List.mem_cons_of_mem _ h)
  rcases hmem 0 with h | h
  · rw [greatest, h] at hpos
    cases hpos
  · exact h

theorem mem_wrappingWidths {width : Cells} :
    width ∈ wrappingWidths columns ↔ ∃ column ∈ columns, column.wraps = true ∧ column.width = width := by
  simp [wrappingWidths, widths, and_assoc]

theorem givesAt_iff {width : Cells} : column.givesAt width = true ↔ column.wraps = true ∧ column.width = width := by
  rw [givesAt, Bool.and_eq_true, beq_iff_eq]

theorem width_le_widest (h : column ∈ columns) (hwraps : column.wraps = true) :
    column.width.toNat ≤ (widest columns).toNat :=
  le_greatest (mem_wrappingWidths.mpr ⟨column, h, hwraps, rfl⟩)

theorem width_le_runnerUp (h : column ∈ columns) (hwraps : column.wraps = true) (hne : column.width ≠ widest columns) :
    column.width.toNat ≤ (runnerUp columns).toNat := by
  refine le_greatest (List.mem_filter.mpr ⟨mem_wrappingWidths.mpr ⟨column, h, hwraps, rfl⟩, ?_⟩)
  exact decide_eq_true hne

theorem runnerUp_lt_widest (h : 0 < (widest columns).toNat) : (runnerUp columns).toNat < (widest columns).toNat := by
  rcases Nat.eq_zero_or_pos (runnerUp columns).toNat with hzero | hpos
  · omega
  · obtain ⟨hmem, hne⟩ := List.mem_filter.mp (greatest_mem hpos)
    have hle : (runnerUp columns).toNat ≤ (widest columns).toNat := le_greatest hmem
    have hne' : (runnerUp columns).toNat ≠ (widest columns).toNat :=
      fun heq => of_decide_eq_true hne (UInt64.toNat_inj.mp heq)
    omega

theorem gap_eq_zero_iff : gap columns = 0 ↔ (widest columns).toNat = 0 := by
  rw [gap]
  constructor
  · intro h
    by_contra hne
    have := runnerUp_lt_widest (Nat.pos_of_ne_zero hne)
    omega
  · intro h
    omega

theorem runnerUp_add_gap (h : gap columns ≠ 0) : (runnerUp columns).toNat + gap columns = (widest columns).toNat := by
  rw [gap] at h ⊢
  omega

theorem levelTotal_widest (columns : List Column) :
    levelTotal (widest columns).toNat columns = wrappingTotal columns :=
  levelTotal_eq_wrappingTotal fun _ h hwraps => width_le_widest h hwraps

theorem countP_givesAt_pos (h : gap columns ≠ 0) : 0 < columns.countP (givesAt (widest columns)) := by
  obtain ⟨column, hmem, hwraps, hwidth⟩ :=
    mem_wrappingWidths.mp (greatest_mem (Nat.pos_of_ne_zero (mt gap_eq_zero_iff.mpr h)))
  exact List.countP_pos_iff.mpr ⟨column, hmem, givesAt_iff.mpr ⟨hwraps, hwidth⟩⟩

/-- Between the two greatest widths the columns above a level are the widest. -/
theorem above_eq_givesAt {level : Nat} (hlow : (runnerUp columns).toNat ≤ level)
    (hhigh : level < (widest columns).toNat) (h : column ∈ columns) :
    column.above level = column.givesAt (widest columns) := by
  rw [Bool.eq_iff_iff, above_iff, givesAt_iff]
  constructor
  · rintro ⟨hwraps, hlt⟩
    refine ⟨hwraps, ?_⟩
    by_contra hne
    have := width_le_runnerUp h hwraps hne
    omega
  · rintro ⟨hwraps, heq⟩
    exact ⟨hwraps, heq ▸ hhigh⟩

theorem countP_above_eq {level : Nat} (hlow : (runnerUp columns).toNat ≤ level)
    (hhigh : level < (widest columns).toNat) :
    columns.countP (above level) = columns.countP (givesAt (widest columns)) :=
  List.countP_congr fun _ h => by rw [above_eq_givesAt hlow hhigh h]

theorem levelTotal_runnerUp_add {n : Nat} (h : n ≤ gap columns) :
    levelTotal ((runnerUp columns).toNat + n) columns =
      levelTotal (runnerUp columns).toNat columns + columns.countP (givesAt (widest columns)) * n := by
  induction n with
  | zero => rfl
  | succ n ih =>
    have hgap : (runnerUp columns).toNat + gap columns = (widest columns).toNat := runnerUp_add_gap (by omega)
    rw [← Nat.add_assoc, levelTotal_succ, ih (by omega), countP_above_eq (by omega) (by omega), Nat.mul_succ,
      Nat.add_assoc]

/-- All columns that wrap are as wide as the widest take off the gap. -/
theorem wrappingTotal_eq (h : gap columns ≠ 0) :
    wrappingTotal columns = levelTotal (runnerUp columns).toNat columns +
      columns.countP (givesAt (widest columns)) * gap columns := by
  rw [← levelTotal_widest, ← runnerUp_add_gap h, levelTotal_runnerUp_add (Nat.le_refl _)]

end Widest
end Allotment.Column
