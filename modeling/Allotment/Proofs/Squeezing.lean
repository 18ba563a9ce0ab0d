import Allotment.Proofs.CappedSizes
import Allotment.Proofs.WaterLevel

/-! One pass over a table. The widest columns share the excess equally, and none gives more than the gap below it. A
    pass whose excess is not less than all these gaps cuts the table to the next narrower width; any other takes the
    excess in one round, where the first of the widest columns give the odd cells. Both leave the table cut to a
    level: the columns that give no odd cell are the last ones, and keep one cell more. -/

namespace Allotment.Column

/-- The ratios of a pass: 1 for the widest columns, 0 for the others. -/
def passRatios (columns : List Column) : List Cells :=
  columns.map fun column => if column.givesAt (widest columns) then 1 else 0

/-- The most that a pass takes from a column. -/
def passLimit (excess : Nat) (columns : List Column) : Cells := Cells.nearest (min excess (gap columns) : Nat)

def passLimits (excess : Nat) (columns : List Column) : List Cells := columns.map fun _ => passLimit excess columns

/-- The slots that share the excess in a pass. -/
def givers (excess : Nat) (columns : List Column) : List Entrant :=
  takers (passRatios columns) (passLimits excess columns)

/-- A column of a given width gives up some cells. -/
def cut (width : Cells) (column : Column) (cells : Cells) : Column :=
  if column.givesAt width then { column with width := column.width.minus cells } else column

/-- The number of the widest columns. -/
def widestCount (columns : List Column) : Nat := columns.countP (givesAt (widest columns))

/-- The share of an excess that the widest column at `j` among these gives, where the first give the odd cells. -/
def due (excess : Nat) (columns : List Column) (j : Nat) : Nat :=
  excess / widestCount columns + if j < excess % widestCount columns then 1 else 0

theorem squeeze_eq (excess : Nat) (columns : List Column) :
    squeeze excess columns =
      (cappedSizes excess (passRatios columns) (passLimits excess columns) (widths columns)).map fun cuts =>
        columns.zipWith (cut (widest columns)) cuts := rfl

/-! ### The slots of a pass -/

section Givers
variable {excess : Nat} {columns : List Column}

theorem length_passLimits (excess : Nat) (columns : List Column) :
    (passLimits excess columns).length = (passRatios columns).length := by
  rw [passLimits, passRatios, List.length_map, List.length_map]

theorem length_widths (columns : List Column) : (widths columns).length = (passRatios columns).length := by
  rw [widths, passRatios, List.length_map, List.length_map]

theorem getElem?_passRatios {i : Nat} {column : Column} (h : columns[i]? = some column) :
    (passRatios columns)[i]? = some (if column.givesAt (widest columns) then 1 else 0) := by
  rw [passRatios, List.getElem?_map, h, Option.map_some]

theorem getElem?_passLimits (excess : Nat) {i : Nat} {column : Column} (h : columns[i]? = some column) :
    (passLimits excess columns)[i]? = some (passLimit excess columns) := by
  rw [passLimits, List.getElem?_map, h, Option.map_some]

theorem toNat_passLimit (excess : Nat) (columns : List Column) :
    (passLimit excess columns).toNat = min excess (gap columns) := by
  have hwidest := Cells.toNat_le_most (widest columns)
  rw [passLimit, Cells.toNat_nearest, gap]
  omega

theorem total_passRatios (columns : List Column) : Cells.total (passRatios columns) = widestCount columns := by
  have htotal : ∀ rest : List Column,
      Cells.total (rest.map fun column => if column.givesAt (widest columns) then 1 else 0) =
        rest.countP (givesAt (widest columns)) := by
    intro rest
    induction rest with
    | nil => rfl
    | cons column rest ih =>
      rw [List.map_cons, Cells.total_cons, ih, List.countP_cons]
      split
      · exact Nat.add_comm _ _
      · exact Nat.zero_add _
  exact htotal columns

theorem mem_givers {entrant : Entrant} (h : entrant ∈ givers excess columns) :
    entrant.ratio = 1 ∧ entrant.limit = passLimit excess columns := by
  obtain ⟨hzip, hpos⟩ := mem_takers.mp h
  obtain ⟨hratio, hlimit⟩ := List.getElem?_zip_eq_some.mp hzip
  obtain ⟨column, -, hcolumn⟩ := List.mem_map.mp (List.mem_of_getElem? hratio)
  obtain ⟨-, -, heq⟩ := List.mem_map.mp (List.mem_of_getElem? hlimit)
  refine ⟨?_, heq.symm⟩
  dsimp only at hcolumn
  split at hcolumn
  · exact hcolumn.symm
  · rw [← hcolumn] at hpos
    cases hpos

theorem length_givers (excess : Nat) (columns : List Column) :
    (givers excess columns).length = widestCount columns := by
  have hratios : (givers excess columns).map (·.ratio) = List.replicate (givers excess columns).length 1 :=
    List.map_eq_replicate_iff.mpr fun _ hmem => (mem_givers hmem).1
  have htotal : ratioTotal (givers excess columns) = Cells.total (passRatios columns) :=
    ratioTotal_takers (length_passLimits excess columns)
  rw [total_passRatios, ratioTotal, hratios, LargestRemainder.total_replicate_one] at htotal
  exact htotal

theorem map_ratio_givers (excess : Nat) (columns : List Column) :
    (givers excess columns).map (·.ratio) = List.replicate (widestCount columns) 1 := by
  rw [← length_givers excess columns]
  exact List.map_eq_replicate_iff.mpr fun _ hmem => (mem_givers hmem).1

theorem limitTotal_givers (excess : Nat) (columns : List Column) :
    limitTotal (givers excess columns) = widestCount columns * min excess (gap columns) := by
  have hlimits : (givers excess columns).map (·.limit) =
      List.replicate (givers excess columns).length (passLimit excess columns) :=
    List.map_eq_replicate_iff.mpr fun _ hmem => (mem_givers hmem).2
  rw [limitTotal, hlimits, LargestRemainder.total_replicate, length_givers, toNat_passLimit]

/-- The slot of a column comes after those of the widest columns before it. -/
theorem getElem?_givers (excess : Nat) {i : Nat} {column : Column} (hcolumn : columns[i]? = some column)
    (hwidest : column.givesAt (widest columns) = true) :
    (givers excess columns)[(columns.take i).countP (givesAt (widest columns))]? =
      some ⟨i, 1, passLimit excess columns⟩ := by
  have hratio := getElem?_passRatios hcolumn
  have hlimit := getElem?_passLimits excess hcolumn
  rw [if_pos hwidest] at hratio
  have hentrant : (entrants (passRatios columns) (passLimits excess columns))[i]? =
      some ⟨i, 1, passLimit excess columns⟩ := by
    have hzip : ((passRatios columns).zip (passLimits excess columns))[i]? = some (1, passLimit excess columns) :=
      List.getElem?_zip_eq_some.mpr ⟨hratio, hlimit⟩
    rw [entrants, List.getElem?_mapIdx, hzip]
    rfl
  have hcount : ((entrants (passRatios columns) (passLimits excess columns)).take i).countP
      (fun entrant => 0 < entrant.ratio) = (columns.take i).countP (givesAt (widest columns)) := by
    have hratios := map_ratio_entrants (length_passLimits excess columns)
    have hmap : (((entrants (passRatios columns) (passLimits excess columns)).take i).map (·.ratio)).countP (0 < ·) =
        ((columns.take i).map fun column => if column.givesAt (widest columns) then (1 : Cells) else 0).countP
          (0 < ·) := by
      rw [List.map_take, hratios, passRatios, List.map_take]
    rw [List.countP_map, List.countP_map] at hmap
    refine hmap.trans (List.countP_congr fun column _ => ?_)
    rw [Function.comp_apply]
    cases column.givesAt (widest columns) <;> decide
  rw [← hcount]
  exact getElem?_filter_countP hentrant rfl

end Givers

/-! ### The cells that a pass takes -/

/-- A table whose widest columns can give some of its excess. -/
structure Squeezable (excess : Nat) (columns : List Column) : Prop where
  gap_ne : gap columns ≠ 0
  excess_pos : 0 < excess
  excess_le : excess ≤ Cells.total (widths columns)
  total_le : Cells.total (widths columns) ≤ Cells.most

namespace Squeezable
variable {excess : Nat} {columns : List Column} {i : Nat} {column : Column}

theorem widestCount_pos (h : Squeezable excess columns) : 0 < widestCount columns := countP_givesAt_pos h.gap_ne

theorem gaps_le (h : Squeezable excess columns) :
    widestCount columns * gap columns ≤ Cells.total (widths columns) := by
  rw [total_widths, wrappingTotal_eq h.gap_ne, widestCount]
  omega

theorem underCaps (h : Squeezable excess columns) : UnderCaps excess (givers excess columns) := by
  have hcount : widestCount columns ≤ widestCount columns * gap columns :=
    Nat.le_mul_of_pos_right _ (Nat.pos_of_ne_zero h.gap_ne)
  have hmost : (Cells.most : Int) ≤ Wide.greatest := by decide
  refine underCaps_takers (length_passLimits excess columns) ?_ (h.excess_le.trans h.total_le)
  rw [total_passRatios]
  exact (Int.ofNat_le.mpr ((hcount.trans h.gaps_le).trans h.total_le)).trans hmost

/-- An excess not less than the gaps is not used up by a pass. -/
theorem taken_full (h : Squeezable excess columns) (hexcess : widestCount columns * gap columns ≤ excess)
    (hcolumn : columns[i]? = some column) (hwidest : column.givesAt (widest columns) = true) :
    ∃ size, (cappedSizes excess (passRatios columns) (passLimits excess columns) (widths columns)).value[i]? =
      some size ∧ size.toNat = gap columns := by
  have hratio := getElem?_passRatios hcolumn
  rw [if_pos hwidest] at hratio
  obtain ⟨size, hmem, hsize⟩ := exists_outcome_cappedSizes excess (length_passLimits excess columns)
    (length_widths columns) hratio (by decide) (getElem?_passLimits excess hcolumn)
  have hgap : min excess (gap columns) = gap columns :=
    min_eq_right ((Nat.le_mul_of_pos_left _ h.widestCount_pos).trans hexcess)
  have hlimits : (limitTotal (givers excess columns) : Int) ≤ excess := by
    rw [limitTotal_givers, hgap]
    exact Int.ofNat_le.mpr hexcess
  have heq : size = passLimit excess columns :=
    h.underCaps.settle.eq_limit (perm_map_fst_outcomes .cap excess (givers excess columns)) hlimits _ hmem
  exact ⟨size, hsize, by rw [heq, toNat_passLimit, hgap]⟩

theorem due_le (h : Squeezable excess columns) (hexcess : excess < widestCount columns * gap columns) (j : Nat) :
    due excess columns j ≤ min excess (gap columns) := by
  have hquotient : excess / widestCount columns < gap columns := Nat.div_lt_of_lt_mul hexcess
  have hdiv := Nat.div_add_mod excess (widestCount columns)
  have hle : excess / widestCount columns ≤ widestCount columns * (excess / widestCount columns) :=
    Nat.le_mul_of_pos_left _ h.widestCount_pos
  rw [due]
  split <;> omega

theorem shareOut_givers (h : Squeezable excess columns) :
    shareOut excess (givers excess columns) =
      (givers excess columns).zip ((List.range (widestCount columns)).map fun j => (due excess columns j : Int)) := by
  have hrange : LargestRemainder.InRange excess (widestCount columns) := by
    have hratios : ratioTotal (givers excess columns) = widestCount columns :=
      (ratioTotal_takers (length_passLimits excess columns)).trans (total_passRatios columns)
    rw [← hratios]
    exact h.underCaps.inRange (hratios ▸ h.widestCount_pos)
  rw [shareOut, map_ratio_givers, LargestRemainder.parts_replicate_one hrange]
  rfl

theorem missing_shareOut (h : Squeezable excess columns) (hexcess : excess < widestCount columns * gap columns) :
    (missing .cap (shareOut excess (givers excess columns))).isEmpty = true := by
  rw [missing_isEmpty_iff]
  intro s hs
  have hshare := hs
  rw [h.shareOut_givers] at hshare
  obtain ⟨j, -, hj⟩ := List.mem_map.mp (List.of_mem_zip (a := s.1) (b := s.2) hshare).2
  have hdue := h.due_le hexcess j
  rw [Bound.missedBy, (mem_givers (mem_pool_of_mem_shareOut hs)).2, toNat_passLimit, ← hj, decide_eq_true_eq]
  omega

/-- A smaller excess is used up in one round. -/
theorem taken_last (h : Squeezable excess columns) (hexcess : excess < widestCount columns * gap columns)
    (hcolumn : columns[i]? = some column) (hwidest : column.givesAt (widest columns) = true) :
    ∃ size, (cappedSizes excess (passRatios columns) (passLimits excess columns) (widths columns)).value[i]? =
      some size ∧ size.toNat = due excess columns ((columns.take i).countP (givesAt (widest columns))) := by
  have hgiver := getElem?_givers excess hcolumn hwidest
  obtain ⟨hposition, -⟩ := List.getElem?_eq_some_iff.mp hgiver
  rw [length_givers] at hposition
  have hmem : (⟨i, 1, passLimit excess columns⟩,
      (due excess columns ((columns.take i).countP (givesAt (widest columns))) : Int)) ∈
        shareOut excess (givers excess columns) := by
    rw [h.shareOut_givers]
    refine List.mem_of_getElem? (List.getElem?_zip_eq_some.mpr ⟨hgiver, ?_⟩)
    rw [List.getElem?_map, List.getElem?_range hposition, Option.map_some]
  -- No share exceeds the gap, so that the first round is the last.
  have houtcome : (⟨i, 1, passLimit excess columns⟩,
      Cells.nearest (due excess columns ((columns.take i).countP (givesAt (widest columns))))) ∈
        (settle .cap excess (givers excess columns)).outcomes := by
    rw [outcomes_settle_of_isEmpty (h.missing_shareOut hexcess)]
    exact List.mem_map.mpr ⟨_, hmem, rfl⟩
  have hlt : i < (widths columns).length := by
    rw [widths, List.length_map]
    exact (List.getElem?_eq_some_iff.mp hcolumn).1
  refine ⟨_, getElem?_sizes (nodup_place_takers (length_passLimits excess columns)) houtcome hlt, ?_⟩
  have hdue := h.due_le hexcess ((columns.take i).countP (givesAt (widest columns)))
  have hexcess' := h.excess_le.trans h.total_le
  rw [Cells.toNat_nearest]
  omega

end Squeezable

/-! ### The table after a pass -/

section Pass
variable {excess level extra : Nat} {columns : List Column}

/-- Of the widest columns, those before one, itself and those after it are all. -/
theorem countP_take_add_countP_drop {i : Nat} {column : Column} (hcolumn : columns[i]? = some column)
    (hwidest : column.givesAt (widest columns) = true) :
    (columns.take i).countP (givesAt (widest columns)) + 1 +
      (columns.drop (i + 1)).countP (givesAt (widest columns)) = widestCount columns := by
  obtain ⟨hi, heq⟩ := List.getElem?_eq_some_iff.mp hcolumn
  have hsplit : columns.countP (givesAt (widest columns)) =
      (columns.take i ++ columns[i] :: columns.drop (i + 1)).countP (givesAt (widest columns)) := by
    rw [← List.drop_eq_getElem_cons hi, List.take_append_drop]
  rw [widestCount, hsplit, List.countP_append, List.countP_cons, heq, if_pos hwidest]
  omega

theorem cut_eq {width cells : Cells} {column : Column} {kept : Nat} (h : column.givesAt width = true)
    (hkept : kept + cells.toNat = width.toNat) :
    cut width column cells = { column with width := Cells.nearest kept } := by
  have hleft : (width.toNat : Int) - cells.toNat = kept := by omega
  rw [cut, if_pos h, Cells.minus, (givesAt_iff.mp h).2, hleft]

/-- A pass cuts the table to a level if each of the widest columns gives what it has above the level. -/
theorem squeeze_eq_levelled (hlow : (runnerUp columns).toNat ≤ level) (hhigh : level < (widest columns).toNat)
    (htaken : ∀ i column, columns[i]? = some column → column.givesAt (widest columns) = true →
      ∃ size, (cappedSizes excess (passRatios columns) (passLimits excess columns) (widths columns)).value[i]? =
        some size ∧ (level + if (columns.drop (i + 1)).countP (givesAt (widest columns)) < extra then 1 else 0) +
          size.toNat = (widest columns).toNat) :
    (squeeze excess columns).value = levelled level extra columns := by
  apply List.ext_getElem?
  intro i
  rw [squeeze_eq, Traced.value_map, getElem?_levelled, List.getElem?_zipWith]
  cases hcolumn : columns[i]? with
  | none => rfl
  | some column =>
    have hmem := List.mem_of_getElem? hcolumn
    have habove := above_eq_givesAt hlow hhigh hmem
    rw [Option.map_some, habove]
    by_cases hwidest : column.givesAt (widest columns) = true
    · obtain ⟨size, hsize, hwidth⟩ := htaken i column hcolumn hwidest
      have hlater : (columns.drop (i + 1)).countP (above level) =
          (columns.drop (i + 1)).countP (givesAt (widest columns)) :=
        List.countP_congr fun c hc => by rw [above_eq_givesAt hlow hhigh (List.mem_of_mem_drop hc)]
      have hcut := cut_eq hwidest hwidth
      rw [Nat.cast_add, Nat.cast_ite, Nat.cast_one, Nat.cast_zero] at hcut
      rw [hsize, if_pos hwidest, hlater]
      exact congrArg some hcut
    · have hratio := getElem?_passRatios hcolumn
      rw [if_neg hwidest] at hratio
      have hkept := getElem?_cappedSizes_of_zero excess (passLimits excess columns) (widths columns) hratio
      have hwidth : (widths columns)[i]? = some column.width := by
        rw [widths, List.getElem?_map, hcolumn, Option.map_some]
      rw [hkept, hwidth, if_neg hwidest]
      exact congrArg some (if_neg hwidest)

theorem squeeze_full (h : Squeezable excess columns) (hexcess : widestCount columns * gap columns ≤ excess) :
    (squeeze excess columns).value = levelled (runnerUp columns).toNat 0 columns := by
  have hgap := runnerUp_add_gap h.gap_ne
  refine squeeze_eq_levelled (Nat.le_refl _) (by have := h.gap_ne; omega) fun i column hcolumn hwidest => ?_
  obtain ⟨size, hsize, hcut⟩ := h.taken_full hexcess hcolumn hwidest
  refine ⟨size, hsize, ?_⟩
  rw [if_neg (Nat.not_lt_zero _), hcut]
  exact hgap

/-- What `count` equal gaps keep if they give less than they have: as much each, and one more some of them. -/
theorem sub_div_mod {count each given : Nat} (h : given < count * each) :
    (given % count = 0 ∧ (count * each - given) / count + given / count = each ∧
      (count * each - given) % count = 0) ∨
    (0 < given % count ∧ (count * each - given) / count + given / count + 1 = each ∧
      (count * each - given) % count = count - given % count) := by
  have hcount : 0 < count := Nat.pos_of_ne_zero fun hzero => by simp [hzero] at h
  have hdiv := Nat.div_add_mod given count
  have hmod := Nat.mod_lt given hcount
  obtain ⟨kept, hkept⟩ := Nat.exists_eq_add_of_lt (Nat.div_lt_of_lt_mul h)
  have hmul : count * each = count * (given / count) + count * kept + count := by
    rw [hkept, Nat.mul_add, Nat.mul_add, Nat.mul_one]
  -- Where some give an odd cell it is the others that keep one.
  rcases Nat.eq_zero_or_pos (given % count) with hzero | hpos
  · have hunique : (count * each - given) / count = kept + 1 ∧ (count * each - given) % count = 0 :=
      (Nat.div_mod_unique hcount).mpr ⟨by rw [Nat.mul_succ]; omega, hcount⟩
    exact Or.inl ⟨hzero, by omega, hunique.2⟩
  · have hunique : (count * each - given) / count = kept ∧
        (count * each - given) % count = count - given % count :=
      (Nat.div_mod_unique hcount).mpr ⟨by omega, by omega⟩
    exact Or.inr ⟨hpos, by omega, hunique.2⟩

/-- The widest columns that give an odd cell are those that do not keep one. -/
theorem kept_add_due (hexcess : excess < widestCount columns * gap columns) {before after : Nat}
    (hcount : before + 1 + after = widestCount columns) :
    (widestCount columns * gap columns - excess) / widestCount columns +
      (if after < (widestCount columns * gap columns - excess) % widestCount columns then 1 else 0) +
        due excess columns before = gap columns := by
  rw [due]
  rcases sub_div_mod hexcess with ⟨hnone, hquotient, hremainder⟩ | ⟨hsome, hquotient, hremainder⟩
  · rw [if_neg (by omega), if_neg (by omega)]
    omega
  · by_cases hodd : before < excess % widestCount columns
    · rw [if_neg (by omega), if_pos hodd]
      omega
    · rw [if_pos (by omega), if_neg hodd]
      omega

theorem squeeze_last (h : Squeezable excess columns) (hexcess : excess < widestCount columns * gap columns) :
    (squeeze excess columns).value =
      levelled ((runnerUp columns).toNat + (widestCount columns * gap columns - excess) / widestCount columns)
        ((widestCount columns * gap columns - excess) % widestCount columns) columns := by
  have hgap := runnerUp_add_gap h.gap_ne
  have hkept : (widestCount columns * gap columns - excess) / widestCount columns < gap columns :=
    Nat.div_lt_of_lt_mul (Nat.sub_lt (Nat.zero_lt_of_lt hexcess) h.excess_pos)
  refine squeeze_eq_levelled (Nat.le_add_right _ _) (by omega) fun i column hcolumn hwidest => ?_
  obtain ⟨size, hsize, hcut⟩ := h.taken_last hexcess hcolumn hwidest
  refine ⟨size, hsize, ?_⟩
  have hdue := kept_add_due hexcess (countP_take_add_countP_drop hcolumn hwidest)
  omega

/-- A pass takes the excess, or all the gaps below the widest columns if these are less. -/
theorem total_squeeze (h : Squeezable excess columns) :
    Cells.total (widths (squeeze excess columns).value) + min excess (widestCount columns * gap columns) =
      Cells.total (widths columns) := by
  have hwrapping : wrappingTotal columns =
      levelTotal (runnerUp columns).toNat columns + widestCount columns * gap columns := wrappingTotal_eq h.gap_ne
  have htotal := total_widths columns
  rcases Nat.lt_or_ge excess (widestCount columns * gap columns) with hexcess | hexcess
  · obtain ⟨kept, hkept⟩ : ∃ kept, kept = widestCount columns * gap columns - excess := ⟨_, rfl⟩
    have hpos := h.excess_pos
    have hquotient : kept / widestCount columns < gap columns := Nat.div_lt_of_lt_mul (by omega)
    have hgap := runnerUp_add_gap h.gap_ne
    have hlevel : levelTotal ((runnerUp columns).toNat + kept / widestCount columns) columns =
        levelTotal (runnerUp columns).toNat columns + widestCount columns * (kept / widestCount columns) :=
      levelTotal_runnerUp_add hquotient.le
    have habove : columns.countP (above ((runnerUp columns).toNat + kept / widestCount columns)) =
        widestCount columns := countP_above_eq (Nat.le_add_right _ _) (by omega)
    have hdiv := Nat.div_add_mod kept (widestCount columns)
    have hmod := Nat.mod_lt kept h.widestCount_pos
    rw [squeeze_last h hexcess, ← hkept, total_widths, rigidTotal_levelled, wrappingTotal_levelled, hlevel, habove]
    omega
  · rw [squeeze_full h hexcess, total_widths, rigidTotal_levelled, wrappingTotal_levelled, Nat.zero_min, Nat.add_zero]
    omega

theorem total_squeeze_lt (h : Squeezable excess columns) :
    Cells.total (widths (squeeze excess columns).value) < Cells.total (widths columns) := by
  have htotal := total_squeeze h
  have hgaps := Nat.mul_pos h.widestCount_pos (Nat.pos_of_ne_zero h.gap_ne)
  have hpos := h.excess_pos
  omega

end Pass
end Allotment.Column
