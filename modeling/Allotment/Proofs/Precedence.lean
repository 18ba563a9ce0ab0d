import Allotment.Proofs.CapRates

/-! Precedence among slots. A slot takes precedence over another by a larger ratio, or by an earlier place where their
    ratios are the same. In a round that shares out no deficit it then has no smaller a share: its exact share is no
    smaller, and where the floors are the same its remainder comes first. A slot pinned in an earlier round is measured
    by the rate of that round, from which the rates of later rounds only move away. So a slot never ends below one that
    it takes precedence over, provided that its bound is not the lower one. -/

namespace Allotment

/-! ### Parts -/

namespace LargestRemainder
variable {budget : Int} {weights : List Cells} {i j : Nat} {v w : Cells} {p q : Int}

theorem position_le_position (h : exactRemainder budget weights j < exactRemainder budget weights i ∨
    exactRemainder budget weights j = exactRemainder budget weights i ∧ i ≤ j) :
    position budget weights i ≤ position budget weights j := by
  refine List.countP_mono_left fun k _ hk => ?_
  rw [decide_eq_true_eq] at hk ⊢
  omega

theorem exactFloor_le_exactFloor (h : InRange budget (Cells.total weights)) (hbudget : 0 ≤ budget)
    (hw : weights[i]? = some w) (hv : weights[j]? = some v) (hle : v ≤ w) :
    exactFloor budget weights j ≤ exactFloor budget weights i := by
  have hcells : (v.toNat : Int) ≤ w.toNat := by exact_mod_cast UInt64.le_iff_toNat_le.mp hle
  rw [exactFloor, exactFloor, getD_eq_of_getElem? hw, getD_eq_of_getElem? hv]
  exact Int.ediv_le_ediv (by exact_mod_cast h.sum_pos) (mul_le_mul_of_nonneg_left hcells hbudget)

/-- With equal floors the remainders stand in the order of the weights. -/
theorem position_le_of_exactFloor_eq (hbudget : 0 < budget) (hw : weights[i]? = some w) (hv : weights[j]? = some v)
    (hprecedes : v < w ∨ v = w ∧ i < j) (heq : exactFloor budget weights j = exactFloor budget weights i) :
    position budget weights i ≤ position budget weights j := by
  have hdivi := Int.mul_ediv_add_emod (budget * w.toNat) (Cells.total weights)
  have hdivj := Int.mul_ediv_add_emod (budget * v.toNat) (Cells.total weights)
  rw [exactFloor, exactFloor, getD_eq_of_getElem? hw, getD_eq_of_getElem? hv] at heq
  rw [heq] at hdivj
  apply position_le_position
  rw [exactRemainder, exactRemainder, getD_eq_of_getElem? hw, getD_eq_of_getElem? hv]
  rcases hprecedes with hlt | ⟨rfl, hlt⟩
  · have hmore : budget * v.toNat < budget * w.toNat :=
      mul_lt_mul_of_pos_left (by exact_mod_cast UInt64.lt_iff_toNat_lt.mp hlt) hbudget
    exact Or.inl (by omega)
  · exact Or.inr ⟨rfl, hlt.le⟩

/-- The larger of two weights has no smaller a part, nor has the first of two equal ones. -/
theorem part_le_part (h : InRange budget (Cells.total weights)) (hbudget : 0 ≤ budget)
    (hw : weights[i]? = some w) (hv : weights[j]? = some v) (hp : (parts budget weights)[i]? = some p)
    (hq : (parts budget weights)[j]? = some q) (hprecedes : v < w ∨ v = w ∧ i < j) : q ≤ p := by
  have hle : v ≤ w := hprecedes.elim UInt64.le_of_lt fun heq => UInt64.le_of_eq heq.1
  have hfloors := exactFloor_le_exactFloor h hbudget hw hv hle
  have hi := part_eq h hp
  have hj := part_eq h hq
  have hzip : (v, q) ∈ weights.zip (parts budget weights) :=
    List.mem_of_getElem? (List.getElem?_zip_eq_some.mpr ⟨hv, hq⟩)
  rcases part_cases h hzip with hdown | ⟨-, hsome⟩
  · rw [← getD_eq_of_getElem? hv, ← exactFloor] at hdown
    split at hi <;> omega
  -- The second part is rounded up, so that its remainder is not 0, and neither is the budget.
  have hbudget' : 0 < budget := by
    refine lt_of_le_of_ne hbudget ?_
    rintro rfl
    rw [zero_mul, Int.zero_emod] at hsome
    exact hsome rfl
  rcases hfloors.lt_or_eq with hlt | heq
  · split at hi <;> split at hj <;> omega
  · have hposition := position_le_of_exactFloor_eq hbudget' hw hv hprecedes heq
    split at hi <;> split at hj <;> omega

end LargestRemainder

/-! ### Shares -/

/-- A slot takes precedence over one of a smaller ratio, and over a later one of the same ratio. -/
def Entrant.Precedes (a b : Entrant) : Prop := b.ratio < a.ratio ∨ b.ratio = a.ratio ∧ a.place < b.place

theorem Entrant.Precedes.ratio_le {a b : Entrant} (h : a.Precedes b) : (b.ratio.toNat : Int) ≤ a.ratio.toNat := by
  rcases h with hlt | ⟨heq, -⟩
  · exact_mod_cast (UInt64.lt_iff_toNat_lt.mp hlt).le
  · rw [heq]

/-- The slots of a pool stand in the order of their places. -/
def InOrder (pool : List Entrant) : Prop := (pool.map (·.place)).Pairwise (· < ·)

theorem InOrder.sublist {pool part : List Entrant} (h : InOrder pool) (hsub : part.Sublist pool) : InOrder part :=
  List.Pairwise.sublist (hsub.map _) h

theorem InOrder.lt_of_place_lt {pool : List Entrant} (h : InOrder pool) {i j : Nat} {a b : Entrant}
    (ha : pool[i]? = some a) (hb : pool[j]? = some b) (hlt : a.place < b.place) : i < j := by
  obtain ⟨hi, rfl⟩ := List.getElem?_eq_some_iff.mp ha
  obtain ⟨hj, rfl⟩ := List.getElem?_eq_some_iff.mp hb
  rcases Nat.lt_trichotomy i j with hij | rfl | hji
  · exact hij
  · exact absurd hlt (Nat.lt_irrefl _)
  · have := List.pairwise_iff_getElem.mp (List.pairwise_map.mp h) j i hj hi hji
    exact absurd hlt (Nat.lt_asymm this)

theorem inOrder_entrants {ratios limits : List Cells} (h : limits.length = ratios.length) :
    InOrder (entrants ratios limits) := by
  rw [InOrder, map_place_entrants h]
  exact List.pairwise_lt_range

section Round
variable {budget : Int} {pool : List Entrant}

theorem share_le_share (h : 0 < ratioTotal pool → LargestRemainder.InRange budget (ratioTotal pool))
    (hbudget : 0 < ratioTotal pool → 0 ≤ budget) (horder : InOrder pool) {s t : Entrant × Int}
    (hs : s ∈ shareOut budget pool) (ht : t ∈ shareOut budget pool) (hprecedes : s.1.Precedes t.1) : t.2 ≤ s.2 := by
  rcases Nat.eq_zero_or_pos (ratioTotal pool) with hzero | hpos
  · rw [share_eq_zero_of_ratioTotal hzero hs, share_eq_zero_of_ratioTotal hzero ht]
  · obtain ⟨i, hi⟩ := List.mem_iff_getElem?.mp hs
    obtain ⟨j, hj⟩ := List.mem_iff_getElem?.mp ht
    obtain ⟨hs1, hs2⟩ := List.getElem?_zip_eq_some.mp hi
    obtain ⟨ht1, ht2⟩ := List.getElem?_zip_eq_some.mp hj
    have hratio : (pool.map (·.ratio))[i]? = some s.1.ratio := by rw [List.getElem?_map, hs1, Option.map_some]
    have hratio' : (pool.map (·.ratio))[j]? = some t.1.ratio := by rw [List.getElem?_map, ht1, Option.map_some]
    refine LargestRemainder.part_le_part (h hpos) (hbudget hpos) hratio hratio' hs2 ht2 ?_
    exact hprecedes.imp_right fun hplace => ⟨hplace.1, horder.lt_of_place_lt hs1 ht1 hplace.2⟩

end Round

/-! ### Sizes -/

/-- What is below the rate for a ratio is below what is above the rate for a larger one. -/
theorem lt_of_rate {m n budget total p q : Int} (htotal : 0 < total) (hbudget : 0 ≤ budget) (hle : q ≤ p)
    (hm : m * total < budget * q) (hn : budget * p < n * total) : m < n := by
  refine lt_of_mul_lt_mul_right ?_ htotal.le
  calc
    m * total < budget * q := hm
    _ ≤ budget * p := mul_le_mul_of_nonneg_left hle hbudget
    _ < n * total := hn

namespace UnderFloors
variable {budget : Int} {pool : List Entrant}

/-- The last round shares out no deficit. -/
theorem budget_nonneg (h : UnderFloors budget pool) (hnone : (missing .floor (shareOut budget pool)).isEmpty = true)
    (hpos : 0 < ratioTotal pool) : 0 ≤ budget := by
  have hlast := (h.shareTotal_last hnone).1
  rw [shareTotal_shareOut (h.inRange hpos)] at hlast
  omega

/-- A floor that is missed is no lower than the size of a slot above its own floor that it takes precedence over. -/
theorem size_le_limit (h : UnderFloors budget pool) {entrant : Entrant}
    (hmem : entrant ∈ missing .floor (shareOut budget pool)) {y : Entrant × Cells}
    (hy : y ∈ (Allotment.settle .floor budget pool).outcomes) (habove : y.1.limit < y.2)
    (hprecedes : entrant.Precedes y.1) : y.2 ≤ entrant.limit := by
  have hpos := h.ratioTotal_pos hy habove
  have hrate := h.size_sub_one_mul_lt hy habove
  have habove' := UInt64.lt_iff_toNat_lt.mp habove
  have hbudget : 0 ≤ budget := by
    have hcells : 0 ≤ ((y.2.toNat : Int) - 1) * ratioTotal pool := mul_nonneg (by omega) (Int.natCast_nonneg _)
    exact nonneg_of_mul_nonneg_left (hcells.trans hrate.le) (by exact_mod_cast h.ratio_pos hy habove)
  have hlt := lt_of_rate (by exact_mod_cast hpos) hbudget hprecedes.ratio_le hrate (h.inWords.mul_ratio_lt hpos hmem)
  rw [UInt64.le_iff_toNat_le]
  omega

theorem size_le_of_precedes (h : UnderFloors budget pool) (horder : InOrder pool) {x y : Entrant × Cells}
    (hx : x ∈ (Allotment.settle .floor budget pool).outcomes)
    (hy : y ∈ (Allotment.settle .floor budget pool).outcomes) (hlimit : y.1.limit ≤ x.1.limit)
    (hprecedes : x.1.Precedes y.1) : y.2 ≤ x.2 := by
  induction budget, pool using settle.induct .floor with
  | case1 budget pool shared pinned hnone =>
    have hs := mem_shareOut_of_mem_outcomes hnone (fun _ => h.share_mem hnone) hx
    have ht := mem_shareOut_of_mem_outcomes hnone (fun _ => h.share_mem hnone) hy
    have hshares := share_le_share h.inRange (h.budget_nonneg hnone) horder hs ht hprecedes
    exact UInt64.le_iff_toNat_le.mpr (Int.ofNat_le.mp hshares)
  | case2 budget pool shared pinned hsome ih =>
    rcases mem_missing_or_later hsome hx with ⟨entrant, hmem, rfl⟩ | hx'
    · by_cases habove : y.1.limit < y.2
      · exact h.size_le_limit hmem hy habove hprecedes
      · exact UInt64.le_trans (UInt64.not_lt.mp habove) hlimit
    rcases mem_missing_or_later hsome hy with ⟨entrant, -, rfl⟩ | hy'
    · exact UInt64.le_trans hlimit ((h.next hsome).settle.limit_le x hx')
    · exact ih (h.next hsome) (horder.sublist (keeping_sublist .floor budget pool)) hx' hy'

end UnderFloors

namespace UnderCaps
variable {budget : Int} {pool : List Entrant}

/-- A cap that is missed is no higher than the size of a slot below its own cap that takes precedence over it. -/
theorem limit_le_size (h : UnderCaps budget pool) {entrant : Entrant}
    (hmem : entrant ∈ missing .cap (shareOut budget pool)) {x : Entrant × Cells}
    (hx : x ∈ (Allotment.settle .cap budget pool).outcomes) (hbelow : x.2 < x.1.limit)
    (hprecedes : x.1.Precedes entrant) : entrant.limit ≤ x.2 := by
  have hpos := h.ratioTotal_pos_of_mem (mem_pool_of_mem_outcomes hx)
  have hlt := lt_of_rate (by exact_mod_cast hpos) h.low hprecedes.ratio_le (h.limit_mul_lt hmem)
    (h.lt_size_add_one_mul hx hbelow)
  rw [UInt64.le_iff_toNat_le]
  omega

theorem size_le_of_precedes (h : UnderCaps budget pool) (horder : InOrder pool) {x y : Entrant × Cells}
    (hx : x ∈ (Allotment.settle .cap budget pool).outcomes) (hy : y ∈ (Allotment.settle .cap budget pool).outcomes)
    (hlimit : y.1.limit ≤ x.1.limit) (hprecedes : x.1.Precedes y.1) : y.2 ≤ x.2 := by
  induction budget, pool using settle.induct .cap with
  | case1 budget pool shared pinned hnone =>
    have hs := mem_shareOut_of_mem_outcomes hnone (fun _ => h.share_mem hnone) hx
    have ht := mem_shareOut_of_mem_outcomes hnone (fun _ => h.share_mem hnone) hy
    have hshares := share_le_share h.inRange (fun _ => h.low) horder hs ht hprecedes
    exact UInt64.le_iff_toNat_le.mpr (Int.ofNat_le.mp hshares)
  | case2 budget pool shared pinned hsome ih =>
    rcases mem_missing_or_later hsome hy with ⟨entrant, hmem, rfl⟩ | hy'
    · by_cases hbelow : x.2 < x.1.limit
      · exact h.limit_le_size hmem hx hbelow hprecedes
      · exact UInt64.le_trans hlimit (UInt64.not_lt.mp hbelow)
    rcases mem_missing_or_later hsome hx with ⟨entrant, -, rfl⟩ | hx'
    · exact UInt64.le_trans ((h.next hsome).settle.le_limit y hy') hlimit
    · exact ih (h.next hsome) (horder.sublist (keeping_sublist .cap budget pool)) hx' hy'

end UnderCaps

/-- No slot fares worse than one that it takes precedence over, if its minimum or its maximum is no lower. -/
theorem sizes_by_precedence :
    (∀ (total : Cells) (ratios : List Cells) (minimums : Option (List Cells)) (allotted : Traced (List Cells)),
      ratios.length ≤ mostEntries → allotAtLeast total ratios minimums = .ok allotted →
        ∀ (i j : Nat) (ratio minimum size ratio' minimum' size' : Cells), ratios[i]? = some ratio →
          (floorsOf ratios minimums)[i]? = some minimum → allotted.value[i]? = some size →
          ratios[j]? = some ratio' → (floorsOf ratios minimums)[j]? = some minimum' →
          allotted.value[j]? = some size' → minimum' ≤ minimum → ratio' < ratio ∨ ratio' = ratio ∧ i < j →
            size' ≤ size) ∧
    (∀ (total : Cells) (ratios maximums values : List Cells) (allotted : Traced (List Cells)),
      ratios.length ≤ mostEntries → allotAtMost total ratios maximums values = .ok allotted →
        ∀ (i j : Nat) (ratio maximum size ratio' maximum' size' : Cells), ratios[i]? = some ratio → 0 < ratio →
          maximums[i]? = some maximum → allotted.value[i]? = some size → ratios[j]? = some ratio' → 0 < ratio' →
          maximums[j]? = some maximum' → allotted.value[j]? = some size' → maximum' ≤ maximum →
          ratio' < ratio ∨ ratio' = ratio ∧ i < j → size' ≤ size) := by
  constructor
  · intro total ratios minimums allotted hentries hallot i j ratio minimum size ratio' minimum' size' hratio hminimum
      hsize hratio' hminimum' hsize' hle hprecedes
    obtain ⟨hlength, hpos, rfl⟩ := allotAtLeast_eq_ok_iff.mp hallot
    obtain ⟨floor, hfloor, hx⟩ := mem_outcomes_of_getElem? hlength hratio hsize
    obtain ⟨floor', hfloor', hy⟩ := mem_outcomes_of_getElem? hlength hratio' hsize'
    rw [hminimum] at hfloor
    rw [hminimum'] at hfloor'
    cases hfloor
    cases hfloor'
    have hunder := underFloors_total total hlength hentries hpos
    exact hunder.size_le_of_precedes (inOrder_entrants hlength) hx hy hle hprecedes
  · intro total ratios maximums values allotted hentries hallot i j ratio maximum size ratio' maximum' size' hratio hpos
      hmaximum hsize hratio' hpos' hmaximum' hsize' hle hprecedes
    obtain ⟨hlength, hvalues, rfl⟩ := allotAtMost_eq_ok_iff.mp hallot
    obtain ⟨cap, hcap, hx⟩ := mem_outcomes_of_getElem?_cappedSizes hlength hvalues hratio hpos hsize
    obtain ⟨cap', hcap', hy⟩ := mem_outcomes_of_getElem?_cappedSizes hlength hvalues hratio' hpos' hsize'
    rw [hmaximum] at hcap
    rw [hmaximum'] at hcap'
    cases hcap
    cases hcap'
    have horder : InOrder (takers ratios maximums) := (inOrder_entrants hlength).sublist List.filter_sublist
    exact (underCaps_total total hlength hentries).size_le_of_precedes horder hx hy hle hprecedes

/-- Of two slots of one ratio the first has its floor from the first round, above what the last round leaves to the
    other; and a slot of twice the ratio of another ends at the higher one of two caps that different rounds pin. -/
theorem sizes_by_precedence_repinned :
    ([1, 1, 1].length ≤ mostEntries ∧ ∃ allotted, allotAtLeast 10 [1, 1, 1] (some [4, 4, 0]) = .ok allotted ∧
      allotted.value = [4, 4, 2] ∧ (2 : Cells) ≤ 4) ∧
    ∃ allotted, allotAtMost 12 [1, 2, 1] [2, 6, 100] [0, 0, 0] = .ok allotted ∧ allotted.value = [2, 6, 4] ∧
      (2 : Cells) ≤ 6 := by
  have hfloored : (flooredSizes (10 : Cells).toNat [1, 1, 1] [4, 4, 0]).value = [4, 4, 2] := by cbv
  have hcapped : (cappedSizes (12 : Cells).toNat [1, 2, 1] [2, 6, 100] [0, 0, 0]).value = [2, 6, 4] := by cbv
  refine ⟨⟨by decide, _, rfl, hfloored, ?_⟩, _, allotAtMost_of_length 12 rfl rfl, hcapped, ?_⟩
  · exact sizes_by_precedence.1 10 [1, 1, 1] (some [4, 4, 0]) _ (by decide) rfl 1 2 1 4 4 1 0 2 rfl rfl
      (congrArg (·[1]?) hfloored) rfl rfl (congrArg (·[2]?) hfloored) (by decide) (Or.inr ⟨rfl, by decide⟩)
  · exact sizes_by_precedence.2 12 [1, 2, 1] [2, 6, 100] [0, 0, 0] _ (by decide) (allotAtMost_of_length 12 rfl rfl)
      1 0 2 6 6 1 2 2 rfl (by decide) rfl (congrArg (·[1]?) hcapped) rfl (by decide) rfl (congrArg (·[0]?) hcapped)
      (by decide) (Or.inl (by decide))

end Allotment
