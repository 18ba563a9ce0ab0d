import Allotment.Proofs.CappedSizes
import Allotment.Proofs.FlooredSizes

/-! How an allotment fills its caps. The slots of a positive ratio take the whole total, or all that their caps hold if
    that is less; no cap is exceeded, and the slots of ratio 0 keep their values. Nothing but a list of another length
    is refused, and of two such lists the caps are named. -/

namespace Allotment

/-- The counts at the places of a positive ratio, in order. -/
def taken (ratios counts : List Cells) : List Cells := ((ratios.zip counts).filter fun x => 0 < x.1).map (·.2)

section Taken
variable {budget : Nat} {ratios maximums values counts : List Cells}

theorem map_ratio_limit_entrants (ratios limits : List Cells) :
    (entrants ratios limits).map (fun entrant => (entrant.ratio, entrant.limit)) = ratios.zip limits := by
  apply List.ext_getElem
  · simp [entrants]
  · intro i _ _
    simp [entrants]

/-- What each slot has at its place is what stands beside its ratio. -/
theorem map_ratio_getD_entrants (hmaximums : maximums.length = ratios.length)
    (hcounts : counts.length = ratios.length) :
    (entrants ratios maximums).map (fun entrant => (entrant.ratio, counts.getD entrant.place 0)) =
      ratios.zip counts := by
  apply List.ext_getElem
  · rw [List.length_map, length_entrants hmaximums, List.length_zip, hcounts, min_self]
  · intro i _ hi
    have hi' : i < counts.length := List.lt_length_right_of_zip hi
    simp [entrants, hi']

theorem taken_eq_map_takers {f : Entrant → Cells}
    (h : (entrants ratios maximums).map (fun entrant => (entrant.ratio, f entrant)) = ratios.zip counts) :
    taken ratios counts = (takers ratios maximums).map f := by
  rw [taken, ← h, List.filter_map, List.map_map]
  rfl

theorem total_taken_maximums (ratios maximums : List Cells) :
    Cells.total (taken ratios maximums) = limitTotal (takers ratios maximums) := by
  rw [taken_eq_map_takers (map_ratio_limit_entrants ratios maximums), limitTotal]

theorem total_taken_cappedSizes (hmaximums : maximums.length = ratios.length)
    (hvalues : values.length = ratios.length) :
    Cells.total (taken ratios (cappedSizes budget ratios maximums values).value) =
      sizeTotal (settle .cap budget (takers ratios maximums)).outcomes := by
  have hlength : (cappedSizes budget ratios maximums values).value.length = ratios.length :=
    (length_cappedSizes budget ratios maximums values).trans hvalues
  rw [taken_eq_map_takers (map_ratio_getD_entrants hmaximums hlength)]
  refine total_sizes (nodup_place_takers hmaximums) fun entrant hmem => ?_
  rw [hvalues]
  exact place_lt_of_mem_takers hmaximums hmem

end Taken

theorem underCaps_total (total : Cells) {ratios maximums : List Cells} (hlength : maximums.length = ratios.length)
    (hentries : ratios.length ≤ mostEntries) : UnderCaps total.toNat (takers ratios maximums) := by
  have hratios : (Cells.total ratios : Int) ≤ Wide.greatest :=
    (Int.ofNat_le.mpr (Cells.total_le_of_length hentries)).trans (by decide)
  exact underCaps_takers hlength hratios (Cells.toNat_le_most total)

/-- Every allotment with greatest sizes takes the whole total, or as much of it as the caps hold. -/
theorem allotAtMost_fills (total : Cells) (ratios maximums values : List Cells)
    (hentries : ratios.length ≤ mostEntries) :
    (maximums.length ≠ ratios.length → allotAtMost total ratios maximums values =
      .error (.lengthMismatch "maximums" ratios.length maximums.length)) ∧
    (maximums.length = ratios.length → values.length ≠ ratios.length → allotAtMost total ratios maximums values =
      .error (.lengthMismatch "values" ratios.length values.length)) ∧
    (maximums.length = ratios.length → values.length = ratios.length →
      ∃ allotted, allotAtMost total ratios maximums values = .ok allotted ∧
        allotted.value.length = ratios.length ∧
        (∀ i : Nat, ratios[i]? = some 0 → allotted.value[i]? = values[i]?) ∧
        (∀ (i : Nat) (ratio maximum size : Cells), ratios[i]? = some ratio → 0 < ratio →
          maximums[i]? = some maximum → allotted.value[i]? = some size → size ≤ maximum) ∧
        Cells.total (taken ratios allotted.value) = min total.toNat (Cells.total (taken ratios maximums))) := by
  refine ⟨fun hne => ?_, fun hmaximums hne => ?_, fun hmaximums hvalues => ?_⟩
  · rw [allotAtMost, checkLength, if_neg (Ne.symm hne)]
    rfl
  · rw [allotAtMost, checkLength_eq_ok_iff.mpr hmaximums.symm, checkLength, if_neg (Ne.symm hne)]
    rfl
  · have h := underCaps_total total hmaximums hentries
    refine ⟨_, allotAtMost_of_length total hmaximums hvalues, (length_cappedSizes _ _ _ _).trans hvalues,
      fun i => getElem?_cappedSizes_of_zero _ _ _, ?_, ?_⟩
    · intro i ratio maximum size hratio hpos hmaximum hsize
      exact h.cappedSizes_le hmaximums hvalues hratio hpos hmaximum hsize
    · have htotal := h.settle.total
      rw [total_taken_cappedSizes hmaximums hvalues, total_taken_maximums]
      omega

/-- The cap of the first slot leaves 3 of its cells to the second; the slot of ratio 0 keeps its value. -/
theorem allotAtMost_fills_capped :
    [1, 1, 0].length ≤ mostEntries ∧ ∃ allotted, allotAtMost 10 [1, 1, 0] [2, 100, 0] [0, 0, 7] = .ok allotted ∧
      allotted.value = [2, 8, 7] ∧ Cells.total (taken [1, 1, 0] allotted.value) = 10 := by
  have hsizes : (allotAtMost 10 [1, 1, 0] [2, 100, 0] [0, 0, 7]).map (·.value) = .ok [2, 8, 7] := by cbv
  obtain ⟨allotted, hok, -, -, -, htotal⟩ :=
    (allotAtMost_fills 10 [1, 1, 0] [2, 100, 0] [0, 0, 7] (by decide)).2.2 rfl rfl
  rw [hok] at hsizes
  exact ⟨by decide, allotted, hok, Except.ok.inj hsizes, htotal.trans (by decide)⟩

end Allotment
