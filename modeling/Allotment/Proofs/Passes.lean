import Allotment.Proofs.Shrinking

/-! The passes over a table, one by one. A pass takes the excess from the widest columns, or as much as brings them all
    down to the next narrower ones. In the first case the table fits and there is no other pass. In the second the
    greatest width is gone and no new one comes, but the width 0. So there are no more passes than there are widths,
    however great these are. -/

namespace Allotment.Column

/-! ### A pass and a run -/

/-- A pass: the table that it finds, the cells that it takes from the columns, and the table that it leaves. -/
structure Pass where
  before : List Column
  cuts : Traced (List Cells)
  after : List Column

namespace Pass

/-- The cells that are too many before a pass. -/
def excess (limit : Cells) (pass : Pass) : Nat := Cells.total (widths pass.before) - limit.toNat

/-- What a pass reports: the rounds in which its cells were taken, then the excess before it and the table after it. -/
def events (limit : Cells) (pass : Pass) : List Event :=
  pass.cuts.events ++ [.squeezed (pass.excess limit) (Cells.total (widths pass.after)) (widths pass.after)]

/-- A pass is made over a table that is too wide and has cells to give. It takes the excess from the widest columns in
    equal parts, and from none more than the gap below it. -/
structure Made (limit : Cells) (pass : Pass) : Prop where
  too_wide : limit.toNat < Cells.total (widths pass.before)
  gap_ne : gap pass.before ≠ 0
  cuts : allotAtMost (Cells.nearest (pass.excess limit)) (passRatios pass.before)
    (passLimits (pass.excess limit) pass.before) (widths pass.before) = .ok pass.cuts
  after : pass.after = pass.before.zipWith (cut (widest pass.before)) pass.cuts.value

/-- The pass over a table. -/
def ofTable (limit : Cells) (columns : List Column) : Pass where
  before := columns
  cuts := cappedSizes (Cells.total (widths columns) - limit.toNat) (passRatios columns)
    (passLimits (Cells.total (widths columns) - limit.toNat) columns) (widths columns)
  after := (squeeze (Cells.total (widths columns) - limit.toNat) columns).value

end Pass

/-- Passes made over a table until it fits or has no cells to give, and the table that they leave. -/
inductive Run (limit : Cells) : List Column → List Pass → List Column → Prop
  | stop {columns : List Column} (h : Cells.total (widths columns) ≤ limit.toNat ∨ gap columns = 0) :
    Run limit columns [] columns
  | pass {pass : Pass} {passes : List Pass} {last : List Column} (h : pass.Made limit)
    (later : Run limit pass.after passes last) : Run limit pass.before (pass :: passes) last

section Made
variable {limit : Cells} {columns : List Column} {pass : Pass}

theorem squeezable_of_too_wide (htotal : Cells.total (widths columns) ≤ Cells.most)
    (h : ¬(Cells.total (widths columns) ≤ limit.toNat ∨ gap columns = 0)) :
    Squeezable (Cells.total (widths columns) - limit.toNat) columns where
  gap_ne hgap := h (Or.inr hgap)
  excess_pos := by
    have hwide : ¬Cells.total (widths columns) ≤ limit.toNat := fun hfits => h (Or.inl hfits)
    omega
  excess_le := Nat.sub_le _ _
  total_le := htotal

/-- The excess of a table whose widths add up to a count is a count. -/
theorem toNat_excess (limit : Cells) (htotal : Cells.total (widths columns) ≤ Cells.most) :
    (Cells.nearest (Cells.total (widths columns) - limit.toNat : Nat)).toNat =
      Cells.total (widths columns) - limit.toNat := by
  rw [Cells.toNat_nearest]
  omega

theorem made_ofTable (htotal : Cells.total (widths columns) ≤ Cells.most)
    (h : ¬(Cells.total (widths columns) ≤ limit.toNat ∨ gap columns = 0)) :
    (Pass.ofTable limit columns).Made limit where
  too_wide := Nat.lt_of_not_le fun hfits => h (Or.inl hfits)
  gap_ne hgap := h (Or.inr hgap)
  cuts := by
    have hcuts := allotAtMost_of_length
      (Cells.nearest (Cells.total (widths columns) - limit.toNat : Nat))
      (length_passLimits (Cells.total (widths columns) - limit.toNat) columns) (length_widths columns)
    rwa [toNat_excess limit htotal] at hcuts
  after := by rw [Pass.ofTable, squeeze_eq, Traced.value_map]

namespace Pass.Made

theorem squeezable (h : pass.Made limit) (htotal : Cells.total (widths pass.before) ≤ Cells.most) :
    Squeezable (pass.excess limit) pass.before where
  gap_ne := h.gap_ne
  excess_pos := Nat.sub_pos_of_lt h.too_wide
  excess_le := Nat.sub_le _ _
  total_le := htotal

theorem cuts_eq (h : pass.Made limit) (htotal : Cells.total (widths pass.before) ≤ Cells.most) :
    pass.cuts = cappedSizes (pass.excess limit) (passRatios pass.before) (passLimits (pass.excess limit) pass.before)
      (widths pass.before) := by
  have hcuts := (allotAtMost_eq_ok_iff.mp h.cuts).2.2
  rwa [Pass.excess, toNat_excess limit htotal] at hcuts

theorem after_eq (h : pass.Made limit) (htotal : Cells.total (widths pass.before) ≤ Cells.most) :
    pass.after = (squeeze (pass.excess limit) pass.before).value := by
  rw [h.after, h.cuts_eq htotal, squeeze_eq, Traced.value_map]

end Pass.Made
end Made

/-! ### What a pass does -/

/-- A pass takes the excess, or all the gaps below the widest columns if these are less; that is one cell at least, and
    no column gives more than it has. -/
structure Pass.Takes (limit : Cells) (pass : Pass) : Prop where
  total : Cells.total (widths pass.after) +
    min (pass.excess limit) (widestCount pass.before * gap pass.before) = Cells.total (widths pass.before)
  pos : 1 ≤ min (pass.excess limit) (widestCount pass.before * gap pass.before)
  cut_le : ∀ (i : Nat) (column : Column) (cells : Cells), pass.before[i]? = some column →
    column.givesAt (widest pass.before) = true → pass.cuts.value[i]? = some cells →
      cells.toNat ≤ column.width.toNat

/-- The widths, other than 0, that the columns that wrap have. -/
def distinctWidths (columns : List Column) : Finset Cells := (wrappingWidths columns).toFinset.erase 0

section Takes
variable {limit : Cells} {columns : List Column} {pass : Pass}

/-- No column gives more than the gap below it. -/
theorem Squeezable.cut_le {excess : Nat} (h : Squeezable excess columns) {i : Nat} {column : Column} {cells : Cells}
    (hcolumn : columns[i]? = some column) (hwidest : column.givesAt (widest columns) = true)
    (hcells : (cappedSizes excess (passRatios columns) (passLimits excess columns) (widths columns)).value[i]? =
      some cells) : cells.toNat ≤ column.width.toNat := by
  have hratio := getElem?_passRatios hcolumn
  rw [if_pos hwidest] at hratio
  have hle := h.underCaps.cappedSizes_le (length_passLimits excess columns) (length_widths columns) hratio (by decide)
    (getElem?_passLimits excess hcolumn) hcells
  have hgap := runnerUp_add_gap h.gap_ne
  rw [UInt64.le_iff_toNat_le, toNat_passLimit] at hle
  rw [(givesAt_iff.mp hwidest).2]
  omega

theorem Pass.Made.takes (h : pass.Made limit) (htotal : Cells.total (widths pass.before) ≤ Cells.most) :
    pass.Takes limit where
  total := by
    rw [h.after_eq htotal]
    exact total_squeeze (h.squeezable htotal)
  pos := by
    have hsqueezable := h.squeezable htotal
    have hgaps := Nat.mul_pos hsqueezable.widestCount_pos (Nat.pos_of_ne_zero h.gap_ne)
    have hexcess := hsqueezable.excess_pos
    omega
  cut_le i column cells hcolumn hwidest hcells := by
    rw [h.cuts_eq htotal] at hcells
    exact (h.squeezable htotal).cut_le hcolumn hwidest hcells

theorem Pass.Takes.lt (h : pass.Takes limit) : Cells.total (widths pass.after) < Cells.total (widths pass.before) := by
  have htotal := h.total
  have hpos := h.pos
  omega

theorem Pass.Takes.limit_le (h : pass.Takes limit) (hmade : pass.Made limit) :
    limit.toNat ≤ Cells.total (widths pass.after) := by
  have htotal := h.total
  have hwide := hmade.too_wide
  rw [Pass.excess] at htotal
  omega

/-! ### Widths that are gone -/

theorem mem_distinctWidths {width : Cells} :
    width ∈ distinctWidths columns ↔ width ≠ 0 ∧ ∃ column ∈ columns, column.wraps = true ∧ column.width = width := by
  rw [distinctWidths, Finset.mem_erase, List.mem_toFinset, mem_wrappingWidths]

theorem widest_mem_distinctWidths (h : gap columns ≠ 0) : widest columns ∈ distinctWidths columns := by
  have hpos : 0 < (widest columns).toNat := Nat.pos_of_ne_zero (mt gap_eq_zero_iff.mpr h)
  refine Finset.mem_erase.mpr ⟨fun hzero => ?_, List.mem_toFinset.mpr (greatest_mem hpos)⟩
  rw [hzero] at hpos
  exact Nat.lt_irrefl 0 hpos

/-- Columns cut to the next narrower width have widths that there were before, and no longer the greatest. -/
theorem distinctWidths_levelled_subset (h : gap columns ≠ 0) :
    distinctWidths (levelled (runnerUp columns).toNat 0 columns) ⊆ (distinctWidths columns).erase (widest columns) := by
  have hpos : 0 < (widest columns).toNat := Nat.pos_of_ne_zero (mt gap_eq_zero_iff.mpr h)
  have hlt := runnerUp_lt_widest hpos
  intro width hwidth
  obtain ⟨hne, out, hout, hwraps, rfl⟩ := mem_distinctWidths.mp hwidth
  obtain ⟨i, hi⟩ := List.mem_iff_getElem?.mp hout
  rw [getElem?_levelled, Option.map_eq_some_iff] at hi
  obtain ⟨column, hcolumn, rfl⟩ := hi
  have hmem := List.mem_of_getElem? hcolumn
  by_cases habove : column.above (runnerUp columns).toNat = true
  -- A column that is cut has the width of the next narrower ones, of which there is one unless it is 0.
  · rw [if_pos habove, if_neg (Nat.not_lt_zero _), Int.add_zero, Cells.nearest_toNat] at hne ⊢
    have hrunner : 0 < (greatest ((wrappingWidths columns).filter (· ≠ widest columns))).toNat :=
      Nat.pos_of_ne_zero fun hzero => hne (UInt64.toNat_inj.mp hzero)
    refine Finset.mem_erase.mpr ⟨fun heq => absurd hlt (heq ▸ Nat.lt_irrefl _), Finset.mem_erase.mpr ⟨hne, ?_⟩⟩
    exact List.mem_toFinset.mpr (List.mem_of_mem_filter (greatest_mem hrunner))
  · rw [if_neg habove] at hne hwraps ⊢
    refine Finset.mem_erase.mpr ⟨fun heq => habove (above_iff.mpr ⟨hwraps, ?_⟩), ?_⟩
    · rwa [heq]
    · exact mem_distinctWidths.mpr ⟨hne, column, hmem, hwraps, rfl⟩

theorem card_distinctWidths_levelled_lt (h : gap columns ≠ 0) :
    (distinctWidths (levelled (runnerUp columns).toNat 0 columns)).card < (distinctWidths columns).card :=
  Nat.lt_of_le_of_lt (Finset.card_le_card (distinctWidths_levelled_subset h))
    (Finset.card_erase_lt_of_mem (widest_mem_distinctWidths h))

/-- After a pass the table fits, or has fewer widths. -/
theorem Pass.Made.fits_or_card_lt (h : pass.Made limit) (htotal : Cells.total (widths pass.before) ≤ Cells.most) :
    Cells.total (widths pass.after) ≤ limit.toNat ∨
      (distinctWidths pass.after).card < (distinctWidths pass.before).card := by
  rcases Nat.lt_or_ge (pass.excess limit) (widestCount pass.before * gap pass.before) with hexcess | hexcess
  · left
    have htakes := (h.takes htotal).total
    rw [min_eq_left hexcess.le, Pass.excess] at htakes
    omega
  · right
    rw [h.after_eq htotal, squeeze_full (h.squeezable htotal) hexcess]
    exact card_distinctWidths_levelled_lt h.gap_ne

end Takes

/-! ### Runs -/

/-- The totals that events report of passes. -/
def reportedTotals (events : List Event) : List Nat :=
  events.filterMap fun
    | .squeezed _ total _ => some total
    | .pinned .. => none

section Runs
variable {limit : Cells} {columns last : List Column} {passes : List Pass}

theorem Run.forall_made (h : Run limit columns passes last) (htotal : Cells.total (widths columns) ≤ Cells.most) :
    ∀ pass ∈ passes, pass.Made limit ∧ Cells.total (widths pass.before) ≤ Cells.most := by
  induction h with
  | stop => exact fun _ hpass => nomatch hpass
  | pass hmade _ ih =>
    intro pass hpass
    rcases List.mem_cons.mp hpass with rfl | hpass
    · exact ⟨hmade, htotal⟩
    · exact ih ((hmade.takes htotal).lt.le.trans htotal) pass hpass

/-- No pass is made over a table that fits. -/
theorem Run.eq_nil_of_fits (h : Run limit columns passes last) (hfits : Cells.total (widths columns) ≤ limit.toNat) :
    passes = [] := by
  cases h with
  | stop => rfl
  | pass hmade _ => exact absurd hfits (Nat.not_le_of_lt hmade.too_wide)

/-- There are no more passes than widths: a table that fits has no other pass, and any other has one width less. -/
theorem Run.length_le (h : Run limit columns passes last) (htotal : Cells.total (widths columns) ≤ Cells.most) :
    passes.length ≤ (distinctWidths columns).card := by
  induction h with
  | stop => exact Nat.zero_le _
  | @pass pass passes last hmade later ih =>
    have hrest := ih ((hmade.takes htotal).lt.le.trans htotal)
    have hwidest := Finset.card_pos.mpr ⟨_, widest_mem_distinctWidths hmade.gap_ne⟩
    rw [List.length_cons]
    rcases hmade.fits_or_card_lt htotal with hfits | hfewer
    · rw [later.eq_nil_of_fits hfits, List.length_nil]
      omega
    · omega

theorem Run.pairwise_lt (h : Run limit columns passes last) (htotal : Cells.total (widths columns) ≤ Cells.most) :
    (Cells.total (widths columns) :: passes.map fun pass => Cells.total (widths pass.after)).Pairwise (· > ·) := by
  induction h with
  | stop => exact List.pairwise_singleton _ _
  | @pass pass passes last hmade later ih =>
    have hlt := (hmade.takes htotal).lt
    have hrest := ih (hlt.le.trans htotal)
    rw [List.map_cons, List.pairwise_cons]
    refine ⟨fun total hmem => ?_, hrest⟩
    rcases List.mem_cons.mp hmem with rfl | hmem
    · exact hlt
    · exact Nat.lt_trans (List.rel_of_pairwise_cons hrest hmem) hlt

theorem reportedTotals_append (a b : List Event) : reportedTotals (a ++ b) = reportedTotals a ++ reportedTotals b :=
  List.filterMap_append

theorem reportedTotals_rounds (bound : Bound) (settlement : Settlement) :
    reportedTotals (settlement.events bound) = [] := by
  rw [reportedTotals, Settlement.events, List.filterMap_map, List.filterMap_eq_nil_iff]
  exact fun round _ => rfl

theorem reportedTotals_events (h : ∀ pass ∈ passes, pass.Made limit) :
    reportedTotals (passes.flatMap (Pass.events limit)) = passes.map fun pass => Cells.total (widths pass.after) := by
  induction passes with
  | nil => rfl
  | cons pass passes ih =>
    have hcuts : reportedTotals pass.cuts.events = [] := by
      rw [(allotAtMost_eq_ok_iff.mp (h pass List.mem_cons_self).cuts).2.2]
      exact reportedTotals_rounds _ _
    rw [List.flatMap_cons, List.map_cons, reportedTotals_append, ih fun p hp => h p (List.mem_cons_of_mem _ hp),
      Pass.events, reportedTotals_append, hcuts]
    rfl

/-- Shrinking runs over the table until it fits or has no cells to give, and reports each pass. -/
theorem exists_run (limit : Cells) (columns : List Column) (htotal : Cells.total (widths columns) ≤ Cells.most) :
    ∃ passes, Run limit columns passes (shrink limit columns).value ∧
      (shrink limit columns).events = passes.flatMap (Pass.events limit) := by
  induction columns using shrink.induct limit with
  | case1 columns total hfits =>
    rw [shrink, if_pos hfits]
    exact ⟨[], .stop hfits, rfl⟩
  | case2 columns total hmore excess pass left hless ih =>
    obtain ⟨passes, hrun, hevents⟩ := ih (hless.le.trans htotal)
    refine ⟨.ofTable limit columns :: passes, ?_, ?_⟩
    · rw [shrink_of_squeeze hmore hless]
      exact .pass (made_ofTable htotal hmore) hrun
    · rw [shrink, if_neg hmore]
      dsimp only
      rw [if_pos hless, List.flatMap_cons, ← hevents]
      rfl
  | case3 columns total hmore excess pass left hmost =>
    exact absurd (total_squeeze_lt (squeezable_of_too_wide htotal hmore)) hmost

end Runs

/-- A table is shrunk in no more passes than its columns that wrap have widths. Each takes as much as it can, and what
    it reports comes closer to the limit and not below it. -/
theorem shrinkColumns_passes (sizes : List Cells) (wraps : List Bool) (limit : Cells)
    (htotal : Cells.total sizes ≤ Cells.most) (hlength : wraps.length = sizes.length) :
    ∃ (shrunk : Traced (List Cells)) (passes : List Pass) (last : List Column),
      shrinkColumns sizes wraps limit = .ok shrunk ∧ Run limit (table sizes wraps) passes last ∧
      shrunk.value = widths last ∧ shrunk.events = passes.flatMap (Pass.events limit) ∧
      passes.length ≤ (distinctWidths (table sizes wraps)).card ∧ (∀ pass ∈ passes, pass.Takes limit) ∧
      reportedTotals shrunk.events = passes.map (fun pass => Cells.total (widths pass.after)) ∧
      (Cells.total sizes :: reportedTotals shrunk.events).Pairwise (· > ·) ∧
      ∀ total ∈ reportedTotals shrunk.events, limit.toNat ≤ total := by
  have hwidths := widths_table hlength
  have htotal' : Cells.total (widths (table sizes wraps)) ≤ Cells.most := hwidths.symm ▸ htotal
  obtain ⟨passes, hrun, hevents⟩ := exists_run limit (table sizes wraps) htotal'
  have hmade := hrun.forall_made htotal'
  have htakes : ∀ pass ∈ passes, pass.Takes limit := fun pass hpass =>
    (hmade pass hpass).1.takes (hmade pass hpass).2
  have hreported := reportedTotals_events fun pass hpass => (hmade pass hpass).1
  have hfalling := hrun.pairwise_lt htotal'
  rw [hwidths] at hfalling
  refine ⟨_, passes, _, shrinkColumns_of_length limit hlength, hrun, rfl, hevents, hrun.length_le htotal', htakes,
    ?_, ?_, fun total hmem => ?_⟩
  · rw [Traced.events_map, hevents, hreported]
  · rwa [Traced.events_map, hevents, hreported]
  · rw [Traced.events_map, hevents, hreported] at hmem
    obtain ⟨pass, hpass, rfl⟩ := List.mem_map.mp hmem
    exact (htakes pass hpass).limit_le (hmade pass hpass).1

/-- There can be as many passes as widths: here the widths 30, 20 and 10 go one by one. -/
theorem shrinkColumns_passes_thrice :
    Cells.total [10, 20, 30, 7] ≤ Cells.most ∧
    (∃ (shrunk : Traced (List Cells)) (passes : List Pass) (last : List Column),
      shrinkColumns [10, 20, 30, 7] [true, true, true, false] 30 = .ok shrunk ∧
      Run 30 (table [10, 20, 30, 7] [true, true, true, false]) passes last ∧ shrunk.value = widths last ∧
      passes.length ≤ 3 ∧ ∀ pass ∈ passes, pass.Takes 30) ∧
    (shrinkColumns [10, 20, 30, 7] [true, true, true, false] 30).toOption.map (fun shrunk =>
      (shrunk.value, reportedTotals shrunk.events)) = some ([7, 8, 8, 7], [57, 37, 30]) := by
  refine ⟨by decide, ?_, by cbv⟩
  obtain ⟨shrunk, passes, last, hshrunk, hrun, hvalue, -, hlength, htakes, -⟩ :=
    shrinkColumns_passes [10, 20, 30, 7] [true, true, true, false] 30 (by decide) rfl
  have hwidths : (distinctWidths (table [10, 20, 30, 7] [true, true, true, false])).card = 3 := by decide
  exact ⟨shrunk, passes, last, hshrunk, hrun, hvalue, hwidths ▸ hlength, htakes⟩

end Allotment.Column
