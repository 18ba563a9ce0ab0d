import Allotment.Proofs.FlooredSizes
import Allotment.Proofs.LeastBudgets

/-! Rates. A round shares its budget out at a rate of so many cells for each unit of ratio, and no share is a whole cell
    off it. Floors that are missed take more than this for the ratios that leave with them, so that the rate falls from
    round to round. A slot that ends above its floor shares in the last round, at the lowest rate; the floor of a slot
    pinned before is above a rate that is higher. So no slot above its floor is better off for its ratio than any
    other, but for a cell of rounding on either side. -/

namespace Allotment

/-! ### Fractions -/

/-- What is below a rate is below a higher one. -/
theorem mul_lt_of_rate_le {n ratio budget total budget' total' : Int} (htotal : 0 < total) (htotal' : 0 < total')
    (hratio : 0 ≤ ratio) (hrate : budget' * total ≤ budget * total') (h : n * total' < budget' * ratio) :
    n * total < budget * ratio := by
  refine lt_of_mul_lt_mul_right ?_ htotal'.le
  calc
    n * total * total' = n * total' * total := by ring
    _ < budget' * ratio * total := mul_lt_mul_of_pos_right h htotal
    _ = budget' * total * ratio := by ring
    _ ≤ budget * total' * ratio := mul_le_mul_of_nonneg_right hrate hratio
    _ = budget * ratio * total' := by ring

/-- What is below a rate is below what is above it. -/
theorem mul_lt_mul_of_rate {m n p q budget total : Int} (htotal : 0 < total) (hp : 0 < p) (hq : 0 ≤ q)
    (hm : m * total < budget * p) (hn : budget * q < n * total) : m * q < n * p := by
  refine lt_of_mul_lt_mul_right ?_ htotal.le
  calc
    m * q * total = m * total * q := by ring
    _ ≤ budget * p * q := mul_le_mul_of_nonneg_right hm.le hq
    _ = budget * q * p := by ring
    _ < n * total * p := mul_lt_mul_of_pos_right hn hp
    _ = n * p * total := by ring

/-! ### The rate of a round -/

section Rate
variable {budget : Int} {pool : List Entrant} {s : Entrant × Int}

theorem share_sub_one_mul_lt (h : LargestRemainder.InRange budget (ratioTotal pool)) (hs : s ∈ shareOut budget pool) :
    (s.2 - 1) * ratioTotal pool < budget * s.1.ratio.toNat := by
  have habs := (abs_lt.mp (LargestRemainder.abs_part_sub_lt h (mem_zip_of_mem_shareOut hs))).2
  have htotal : Cells.total (pool.map (·.ratio)) = ratioTotal pool := rfl
  rw [htotal] at habs
  rw [sub_mul, one_mul]
  omega

theorem lt_share_add_one_mul (h : LargestRemainder.InRange budget (ratioTotal pool)) (hs : s ∈ shareOut budget pool) :
    budget * s.1.ratio.toNat < (s.2 + 1) * ratioTotal pool := by
  have habs := (abs_lt.mp (LargestRemainder.abs_part_sub_lt h (mem_zip_of_mem_shareOut hs))).1
  have htotal : Cells.total (pool.map (·.ratio)) = ratioTotal pool := rfl
  rw [htotal] at habs
  rw [add_mul, one_mul]
  omega

theorem sum_budget_mul_ratio (budget : Int) (pool : List Entrant) :
    (pool.map fun entrant => budget * entrant.ratio.toNat).sum = budget * ratioTotal pool := by
  rw [List.sum_map_mul_left, ratioTotal, Cells.total_eq_sum, List.map_map, Nat.cast_list_sum, List.map_map]
  rfl

theorem sum_limit_mul (total : Int) (pool : List Entrant) :
    (pool.map fun entrant => entrant.limit.toNat * total).sum = limitTotal pool * total := by
  rw [List.sum_map_mul_right, limitTotal, Cells.total_eq_sum, List.map_map, Nat.cast_list_sum, List.map_map]
  rfl

theorem budget_mul_ratioTotal (bound : Bound) (budget : Int) (pool : List Entrant) :
    budget * (ratioTotal pool : Int) = budget * ratioTotal (missing bound (shareOut budget pool)) +
      budget * ratioTotal (keeping bound (shareOut budget pool)) := by
  rw [← mul_add, ← Nat.cast_add, ratioTotal_missing_add_keeping]

/-- Bounds that each take more than a rate gives their ratios take more together. -/
theorem mul_ratioTotal_lt {total : Int} (hne : pool ≠ [])
    (h : ∀ entrant ∈ pool, budget * entrant.ratio.toNat < entrant.limit.toNat * total) :
    budget * ratioTotal pool < limitTotal pool * total := by
  rw [← sum_budget_mul_ratio, ← sum_limit_mul]
  exact List.sum_lt_sum_of_ne_nil hne _ _ h

end Rate

/-- A budget and the ratios of a pool in numbers of 128 bits. The budget may be any deficit. -/
structure InWords (budget : Int) (pool : List Entrant) : Prop where
  ratios : (ratioTotal pool : Int) ≤ Wide.greatest
  high : budget ≤ Wide.greatest

namespace InWords
variable {budget : Int} {pool : List Entrant}

theorem next (h : InWords budget pool) :
    InWords (Bound.floor.spendAll budget (missing .floor (shareOut budget pool)))
      (keeping .floor (shareOut budget pool)) := by
  have hratios := ratioTotal_missing_add_keeping .floor budget pool
  have hspent := spendAll_floor budget (missing .floor (shareOut budget pool))
  obtain ⟨h1, h2⟩ := id h
  exact ⟨by omega, by omega⟩

/-- No share is a whole cell below the rate: a floor that is not exact is too high. -/
theorem lt_share_add_one_mul (h : InWords budget pool) (hpos : 0 < ratioTotal pool) {s : Entrant × Int}
    (hs : s ∈ shareOut budget pool) : budget * s.1.ratio.toNat < (s.2 + 1) * ratioTotal pool := by
  have hlt : ratioTotal pool < 2 ^ 127 := by
    have := h.ratios
    rw [Wide.greatest] at this
    omega
  have hfloor : budget * s.1.ratio.toNat / ratioTotal pool ≤ s.2 :=
    LargestRemainder.exactFloor_le_part hpos hlt h.high (mem_zip_of_mem_shareOut hs)
  calc
    budget * s.1.ratio.toNat < (budget * s.1.ratio.toNat / ratioTotal pool + 1) * ratioTotal pool :=
      Int.lt_ediv_add_one_mul_self _ (by exact_mod_cast hpos)
    _ ≤ (s.2 + 1) * ratioTotal pool := mul_le_mul_of_nonneg_right (by omega) (Int.natCast_nonneg _)

/-- A floor that is missed takes more than the rate of its round gives. -/
theorem mul_ratio_lt (h : InWords budget pool) (hpos : 0 < ratioTotal pool) {entrant : Entrant}
    (hmem : entrant ∈ missing .floor (shareOut budget pool)) :
    budget * entrant.ratio.toNat < entrant.limit.toNat * ratioTotal pool := by
  obtain ⟨s, hs, rfl⟩ := List.mem_map.mp hmem
  obtain ⟨hshare, hmissed⟩ := List.mem_filter.mp hs
  rw [Bound.missedBy, decide_eq_true_eq] at hmissed
  calc
    budget * s.1.ratio.toNat < (s.2 + 1) * ratioTotal pool := h.lt_share_add_one_mul hpos hshare
    _ ≤ s.1.limit.toNat * ratioTotal pool := mul_le_mul_of_nonneg_right (by omega) (Int.natCast_nonneg _)

/-- A round that pins slots leaves a lower rate to the next. -/
theorem rate_lt (h : InWords budget pool) (hpos : 0 < ratioTotal pool)
    (hsome : ¬(missing .floor (shareOut budget pool)).isEmpty = true) :
    Bound.floor.spendAll budget (missing .floor (shareOut budget pool)) * ratioTotal pool <
      budget * ratioTotal (keeping .floor (shareOut budget pool)) := by
  have hpinned := mul_ratioTotal_lt (mt List.isEmpty_iff.mpr hsome) fun entrant hmem => h.mul_ratio_lt hpos hmem
  have htotal := budget_mul_ratioTotal .floor budget pool
  rw [spendAll_floor, sub_mul]
  omega

end InWords

namespace UnderFloors
variable {budget : Int} {pool : List Entrant}

theorem inWords (h : UnderFloors budget pool) : InWords budget pool := ⟨h.ratios, h.high.trans (by decide)⟩

/-! ### Slots above their floors -/

theorem ratio_pos (h : UnderFloors budget pool) {x : Entrant × Cells}
    (hx : x ∈ (Allotment.settle .floor budget pool).outcomes) (habove : x.1.limit < x.2) : 0 < x.1.ratio.toNat := by
  by_contra hzero
  have hlimit := h.settle.of_ratio_zero x hx (UInt64.toNat_inj.mp (Nat.eq_zero_of_not_pos hzero))
  rw [hlimit] at habove
  exact UInt64.lt_irrefl _ habove

theorem ratioTotal_pos (h : UnderFloors budget pool) {x : Entrant × Cells}
    (hx : x ∈ (Allotment.settle .floor budget pool).outcomes) (habove : x.1.limit < x.2) : 0 < ratioTotal pool :=
  Nat.lt_of_lt_of_le (h.ratio_pos hx habove) (ratio_le_ratioTotal (mem_pool_of_mem_outcomes hx))

/-- A slot above its floor is less than one cell above the rate of every round. -/
theorem size_sub_one_mul_lt (h : UnderFloors budget pool) {x : Entrant × Cells}
    (hx : x ∈ (Allotment.settle .floor budget pool).outcomes) (habove : x.1.limit < x.2) :
    ((x.2.toNat : Int) - 1) * ratioTotal pool < budget * x.1.ratio.toNat := by
  induction budget, pool using settle.induct .floor with
  | case1 budget pool shared pinned hnone =>
    have hshare := mem_shareOut_of_mem_outcomes hnone (fun _ => h.share_mem hnone) hx
    exact share_sub_one_mul_lt (h.inRange (h.ratioTotal_pos hx habove)) hshare
  | case2 budget pool shared pinned hsome ih =>
    have hpos := h.ratioTotal_pos hx habove
    rcases mem_missing_or_later hsome hx with ⟨entrant, -, rfl⟩ | hx
    · exact absurd habove (UInt64.lt_irrefl _)
    · have hpos' := (h.next hsome).ratioTotal_pos hx habove
      exact mul_lt_of_rate_le (by exact_mod_cast hpos) (by exact_mod_cast hpos') (Int.natCast_nonneg _)
        (h.inWords.rate_lt hpos hsome).le (ih (h.next hsome) hx)

/-- No slot above its floor is better off than another, but for a cell on either side. -/
theorem fair (h : UnderFloors budget pool) {x y : Entrant × Cells}
    (hx : x ∈ (Allotment.settle .floor budget pool).outcomes) (habove : x.1.limit < x.2)
    (hy : y ∈ (Allotment.settle .floor budget pool).outcomes) :
    ((x.2.toNat : Int) - 1) * y.1.ratio.toNat < (y.2.toNat + 1) * x.1.ratio.toNat := by
  induction budget, pool using settle.induct .floor with
  | case1 budget pool shared pinned hnone =>
    have hpos : (0 : Int) < ratioTotal pool := by exact_mod_cast h.ratioTotal_pos hx habove
    have hratio : (0 : Int) < x.1.ratio.toNat := by exact_mod_cast h.ratio_pos hx habove
    have hshare := mem_shareOut_of_mem_outcomes hnone (fun _ => h.share_mem hnone) hy
    refine mul_lt_mul_of_rate hpos hratio (Int.natCast_nonneg _) (h.size_sub_one_mul_lt hx habove) ?_
    exact lt_share_add_one_mul (h.inRange (h.ratioTotal_pos hx habove)) hshare
  | case2 budget pool shared pinned hsome ih =>
    have hpos : (0 : Int) < ratioTotal pool := by exact_mod_cast h.ratioTotal_pos hx habove
    have hratio : (0 : Int) < x.1.ratio.toNat := by exact_mod_cast h.ratio_pos hx habove
    have hrate := h.size_sub_one_mul_lt hx habove
    have hpos' := h.ratioTotal_pos hx habove
    rcases mem_missing_or_later hsome hx with ⟨entrant, -, rfl⟩ | hx
    · exact absurd habove (UInt64.lt_irrefl _)
    rcases mem_missing_or_later hsome hy with ⟨entrant, hmem, rfl⟩ | hy
    -- The slot pinned in this round has its floor above the rate of this round.
    · refine mul_lt_mul_of_rate hpos hratio (Int.natCast_nonneg _) hrate ?_
      have hfloor := h.inWords.mul_ratio_lt hpos' hmem
      dsimp only at hfloor ⊢
      rw [add_mul, one_mul]
      omega
    · exact ih (h.next hsome) hx hy

end UnderFloors

/-- Whatever round pins a slot, the cells above the floors are shared fairly. -/
theorem allotAtLeast_fair (total : Cells) (ratios : List Cells) (minimums : Option (List Cells))
    (allotted : Traced (List Cells)) (hentries : ratios.length ≤ mostEntries)
    (hallot : allotAtLeast total ratios minimums = .ok allotted) (i j : Nat)
    (ratio minimum size ratio' size' : Cells) (hratio : ratios[i]? = some ratio)
    (hminimum : (floorsOf ratios minimums)[i]? = some minimum) (hsize : allotted.value[i]? = some size)
    (habove : minimum < size) (hratio' : ratios[j]? = some ratio') (hsize' : allotted.value[j]? = some size') :
    ((size.toNat : Int) - 1) * ratio'.toNat < (size'.toNat + 1) * ratio.toNat := by
  obtain ⟨hlength, hpos, rfl⟩ := allotAtLeast_eq_ok_iff.mp hallot
  have hunder := underFloors_total total hlength hentries hpos
  obtain ⟨floor, hfloor, hx⟩ := mem_outcomes_of_getElem? hlength hratio hsize
  obtain ⟨floor', -, hy⟩ := mem_outcomes_of_getElem? hlength hratio' hsize'
  rw [hminimum] at hfloor
  cases hfloor
  exact hunder.fair hx habove hy

/-- The slot that two rounds leave 2 cells to is no better off than the one whose floor of 4 the first round missed. -/
theorem allotAtLeast_fair_repinned :
    [1, 1, 1].length ≤ mostEntries ∧ ∃ allotted, allotAtLeast 10 [1, 1, 1] (some [4, 4, 0]) = .ok allotted ∧
      allotted.value = [4, 4, 2] ∧
      ((2 : Cells).toNat - 1 : Int) * (1 : Cells).toNat < ((4 : Cells).toNat + 1) * (1 : Cells).toNat := by
  have hsizes : (flooredSizes (10 : Cells).toNat [1, 1, 1] [4, 4, 0]).value = [4, 4, 2] := by cbv
  refine ⟨by decide, _, rfl, hsizes, ?_⟩
  exact allotAtLeast_fair 10 [1, 1, 1] (some [4, 4, 0]) _ (by decide) rfl 2 1 1 0 2 1 4 rfl rfl
    (congrArg (·[2]?) hsizes) (by decide) rfl (congrArg (·[1]?) hsizes)

end Allotment
