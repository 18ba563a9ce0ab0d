import Allotment.Proofs.CapFilling
import Allotment.Proofs.Rates

/-! Rates under caps. Caps that shares exceed take less than the rate of their round gives for the ratios that leave
    with them, so that the rate rises from round to round. A slot that ends below its cap shares in the last round, at
    the highest rate; the cap of a slot pinned before is below a rate that is lower. So no slot that could take more
    has less for its ratio than any other, but for a cell of rounding on either side. -/

namespace Allotment

/-- What is above a rate is above a lower one. -/
theorem lt_mul_of_rate_le {n ratio budget total budget' total' : Int} (htotal : 0 < total) (htotal' : 0 < total')
    (hratio : 0 ≤ ratio) (hrate : budget * total' ≤ budget' * total) (h : budget' * ratio < n * total') :
    budget * ratio < n * total := by
  refine lt_of_mul_lt_mul_right ?_ htotal'.le
  calc
    budget * ratio * total' = budget * total' * ratio := by ring
    _ ≤ budget' * total * ratio := mul_le_mul_of_nonneg_right hrate hratio
    _ = budget' * ratio * total := by ring
    _ < n * total' * total := mul_lt_mul_of_pos_right h htotal
    _ = n * total * total' := by ring

/-- Bounds that each take less than a rate gives their ratios take less together. -/
theorem limitTotal_mul_lt {budget total : Int} {pool : List Entrant} (hne : pool ≠ [])
    (h : ∀ entrant ∈ pool, entrant.limit.toNat * total < budget * entrant.ratio.toNat) :
    limitTotal pool * total < budget * ratioTotal pool := by
  rw [← sum_budget_mul_ratio, ← sum_limit_mul]
  exact List.sum_lt_sum_of_ne_nil hne _ _ h

namespace UnderCaps
variable {budget : Int} {pool : List Entrant}

theorem ratioTotal_pos_of_mem (h : UnderCaps budget pool) {entrant : Entrant} (hmem : entrant ∈ pool) :
    0 < ratioTotal pool :=
  ratioTotal_pos h.positive (List.ne_nil_of_mem hmem)

/-! ### The rate rises -/

/-- A cap that is missed takes less than the rate of its round gives. -/
theorem limit_mul_lt (h : UnderCaps budget pool) {entrant : Entrant}
    (hmem : entrant ∈ missing .cap (shareOut budget pool)) :
    entrant.limit.toNat * ratioTotal pool < budget * entrant.ratio.toNat := by
  have hpos := h.ratioTotal_pos_of_mem ((missing_sublist .cap budget pool).subset hmem)
  obtain ⟨s, hs, rfl⟩ := List.mem_map.mp hmem
  obtain ⟨hshare, hmissed⟩ := List.mem_filter.mp hs
  rw [Bound.missedBy, decide_eq_true_eq] at hmissed
  calc
    (s.1.limit.toNat : Int) * ratioTotal pool ≤ (s.2 - 1) * ratioTotal pool :=
      mul_le_mul_of_nonneg_right (Int.le_sub_one_of_lt hmissed) (Int.natCast_nonneg _)
    _ < budget * s.1.ratio.toNat := share_sub_one_mul_lt (h.inRange hpos) hshare

/-- A round that pins slots leaves a higher rate to the next. -/
theorem rate_lt (h : UnderCaps budget pool) (hsome : ¬(missing .cap (shareOut budget pool)).isEmpty = true) :
    budget * ratioTotal (keeping .cap (shareOut budget pool)) <
      Bound.cap.spendAll budget (missing .cap (shareOut budget pool)) * ratioTotal pool := by
  have hpinned := limitTotal_mul_lt (mt List.isEmpty_iff.mpr hsome) fun entrant hmem => h.limit_mul_lt hmem
  have htotal := budget_mul_ratioTotal .cap budget pool
  rw [h.spendAll_eq hsome, sub_mul]
  omega

/-! ### Slots below their caps -/

/-- A slot below its cap is less than one cell below the rate of every round. -/
theorem lt_size_add_one_mul (h : UnderCaps budget pool) {x : Entrant × Cells}
    (hx : x ∈ (Allotment.settle .cap budget pool).outcomes) (hbelow : x.2 < x.1.limit) :
    budget * x.1.ratio.toNat < ((x.2.toNat : Int) + 1) * ratioTotal pool := by
  induction budget, pool using settle.induct .cap with
  | case1 budget pool shared pinned hnone =>
    have hpos := h.ratioTotal_pos_of_mem (mem_pool_of_mem_outcomes hx)
    exact lt_share_add_one_mul (h.inRange hpos)
      (mem_shareOut_of_mem_outcomes hnone (fun _ => h.share_mem hnone) hx)
  | case2 budget pool shared pinned hsome ih =>
    have hpos := h.ratioTotal_pos_of_mem (mem_pool_of_mem_outcomes hx)
    rcases mem_missing_or_later hsome hx with ⟨entrant, -, rfl⟩ | hx
    · exact absurd hbelow (UInt64.lt_irrefl _)
    · have hpos' := (h.next hsome).ratioTotal_pos_of_mem (mem_pool_of_mem_outcomes hx)
      exact lt_mul_of_rate_le (by exact_mod_cast hpos) (by exact_mod_cast hpos') (Int.natCast_nonneg _)
        (h.rate_lt hsome).le (ih (h.next hsome) hx)

/-- No slot below its cap is worse off than another, but for a cell on either side. -/
theorem fair (h : UnderCaps budget pool) {x y : Entrant × Cells}
    (hx : x ∈ (Allotment.settle .cap budget pool).outcomes) (hbelow : x.2 < x.1.limit)
    (hy : y ∈ (Allotment.settle .cap budget pool).outcomes) :
    ((y.2.toNat : Int) - 1) * x.1.ratio.toNat < (x.2.toNat + 1) * y.1.ratio.toNat := by
  induction budget, pool using settle.induct .cap with
  | case1 budget pool shared pinned hnone =>
    have hpos := h.ratioTotal_pos_of_mem (mem_pool_of_mem_outcomes hx)
    have hratio := h.positive _ (mem_pool_of_mem_outcomes hy)
    refine mul_lt_mul_of_rate (by exact_mod_cast hpos) (by exact_mod_cast UInt64.lt_iff_toNat_lt.mp hratio)
      (Int.natCast_nonneg _) ?_ (h.lt_size_add_one_mul hx hbelow)
    exact share_sub_one_mul_lt (h.inRange hpos)
      (mem_shareOut_of_mem_outcomes hnone (fun _ => h.share_mem hnone) hy)
  | case2 budget pool shared pinned hsome ih =>
    have hpos := h.ratioTotal_pos_of_mem (mem_pool_of_mem_outcomes hx)
    have hratio := h.positive _ (mem_pool_of_mem_outcomes hy)
    have hrate := h.lt_size_add_one_mul hx hbelow
    rcases mem_missing_or_later hsome hx with ⟨entrant, -, rfl⟩ | hx
    · exact absurd hbelow (UInt64.lt_irrefl _)
    rcases mem_missing_or_later hsome hy with ⟨entrant, hmem, rfl⟩ | hy
    -- The slot pinned in this round has its cap below the rate of this round.
    · refine mul_lt_mul_of_rate (by exact_mod_cast hpos) (by exact_mod_cast UInt64.lt_iff_toNat_lt.mp hratio)
        (Int.natCast_nonneg _) ?_ hrate
      calc
        ((entrant.limit.toNat : Int) - 1) * ratioTotal pool ≤ entrant.limit.toNat * ratioTotal pool :=
          mul_le_mul_of_nonneg_right (sub_le_self _ zero_le_one) (Int.natCast_nonneg _)
        _ < budget * entrant.ratio.toNat := h.limit_mul_lt hmem
    · exact ih (h.next hsome) hx hy

end UnderCaps

/-- Whatever round pins a slot, what is taken under caps is shared fairly. -/
theorem allotAtMost_fair (total : Cells) (ratios maximums values : List Cells) (allotted : Traced (List Cells))
    (hentries : ratios.length ≤ mostEntries) (hallot : allotAtMost total ratios maximums values = .ok allotted)
    (i j : Nat) (ratio maximum size ratio' size' : Cells) (hratio : ratios[i]? = some ratio) (hpos : 0 < ratio)
    (hmaximum : maximums[i]? = some maximum) (hsize : allotted.value[i]? = some size) (hbelow : size < maximum)
    (hratio' : ratios[j]? = some ratio') (hpos' : 0 < ratio') (hsize' : allotted.value[j]? = some size') :
    ((size'.toNat : Int) - 1) * ratio.toNat < (size.toNat + 1) * ratio'.toNat := by
  obtain ⟨hlength, hvalues, rfl⟩ := allotAtMost_eq_ok_iff.mp hallot
  have hunder := underCaps_total total hlength hentries
  obtain ⟨cap, hcap, hx⟩ := mem_outcomes_of_getElem?_cappedSizes hlength hvalues hratio hpos hsize
  obtain ⟨cap', -, hy⟩ := mem_outcomes_of_getElem?_cappedSizes hlength hvalues hratio' hpos' hsize'
  rw [hmaximum] at hcap
  cases hcap
  exact hunder.fair hx hbelow hy

/-- The slot that two rounds leave 4 cells to is no worse off than the one of twice its ratio that has its cap of 6. -/
theorem allotAtMost_fair_capped_twice :
    [1, 2, 1].length ≤ mostEntries ∧
      ∃ allotted, allotAtMost 12 [1, 2, 1] [2, 6, 100] [0, 0, 0] = .ok allotted ∧ allotted.value = [2, 6, 4] ∧
        ((6 : Cells).toNat - 1 : Int) * (1 : Cells).toNat < ((4 : Cells).toNat + 1) * (2 : Cells).toNat := by
  have hsizes : (cappedSizes (12 : Cells).toNat [1, 2, 1] [2, 6, 100] [0, 0, 0]).value = [2, 6, 4] := by cbv
  have hallot : allotAtMost 12 [1, 2, 1] [2, 6, 100] [0, 0, 0] =
      .ok (cappedSizes (12 : Cells).toNat [1, 2, 1] [2, 6, 100] [0, 0, 0]) := allotAtMost_of_length 12 rfl rfl
  refine ⟨by decide, _, hallot, hsizes, ?_⟩
  exact allotAtMost_fair 12 [1, 2, 1] [2, 6, 100] [0, 0, 0] _ (by decide) hallot 2 1 1 100 4 2 6 rfl (by decide) rfl
    (congrArg (·[2]?) hsizes) (by decide) rfl (by decide) (congrArg (·[1]?) hsizes)

end Allotment
