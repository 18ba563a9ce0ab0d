import Allotment.Proofs.LargestRemainder

/-! No split of a budget is closer to the exact shares than its parts. What a split costs is the sum of its distances
    to the shares. The last share that gets a unit sets a price for the next unit: whoever has its part could not give
    a unit up for less than this price, nor take another one for less. So a split with the same sum as the parts, which
    takes as many units as it gives up, never costs less. -/

namespace Allotment.LargestRemainder

/-! ### A price for a unit -/

/-- The part of `n / total`, rounded up where the remainder reaches the threshold, cannot be moved to `x` for less than
    the price at which rounding up or down would cost the same. -/
theorem price_mul_le {n total threshold part : Int} (hpos : 0 < total) (hnonneg : 0 ≤ threshold)
    (hle : threshold ≤ total)
    (hpart : part = n / total ∧ n % total ≤ threshold ∨ part = n / total + 1 ∧ threshold ≤ n % total) (x : Int) :
    (total - 2 * threshold) * (x - part) ≤ |total * x - n| - |total * part - n| := by
  have hdiv := Int.mul_ediv_add_emod n total
  have hmod := Int.emod_nonneg n hpos.ne'
  have hlt := Int.emod_lt_of_pos n hpos
  have habove := le_abs_self (total * x - n)
  have hbelow := neg_le_abs (total * x - n)
  rcases hpart with ⟨rfl, hthreshold⟩ | ⟨rfl, hthreshold⟩
  · have hself : |total * (n / total) - n| = n % total := by
      rw [abs_sub_comm, abs_of_nonneg] <;> linarith
    rcases le_or_gt x (n / total) with hx | hx
    · have hgiven := mul_nonneg (sub_nonneg.mpr hle) (sub_nonneg.mpr hx)
      linarith
    · have htaken := mul_nonneg hnonneg (sub_nonneg.mpr (Int.add_one_le_of_lt hx))
      linarith
  · have hself : |total * (n / total + 1) - n| = total - n % total := by
      rw [abs_of_nonneg] <;> linarith
    rcases le_or_gt x (n / total) with hx | hx
    · have hgiven := mul_nonneg (sub_nonneg.mpr hle) (sub_nonneg.mpr hx)
      linarith
    · have htaken := mul_nonneg hnonneg (sub_nonneg.mpr (Int.add_one_le_of_lt hx))
      linarith

/-- Moves that each cost no less than a price for every unit cost no less together. -/
theorem price_mul_sum_le {α : Type} {cost : α → Int → Int} {price : Int} {l : List α} {parts split : List Int}
    (hparts : parts.length = l.length) (hsplit : split.length = l.length)
    (h : ∀ a part, (a, part) ∈ l.zip parts → ∀ x, price * (x - part) ≤ cost a x - cost a part) :
    price * (split.sum - parts.sum) ≤ (l.zipWith cost split).sum - (l.zipWith cost parts).sum := by
  induction l generalizing parts split with
  | nil =>
    obtain rfl := List.eq_nil_of_length_eq_zero hparts
    obtain rfl := List.eq_nil_of_length_eq_zero hsplit
    simp
  | cons a l ih =>
    obtain ⟨part, parts, rfl⟩ := List.exists_of_length_succ parts hparts
    obtain ⟨x, split, rfl⟩ := List.exists_of_length_succ split hsplit
    have hfirst := h a part List.mem_cons_self x
    have hrest := ih (Nat.succ.inj hparts) (Nat.succ.inj hsplit) fun a part hmem =>
      h a part (List.mem_cons_of_mem _ hmem)
    simp only [List.zipWith_cons_cons, List.sum_cons]
    linarith

/-! ### The remainder of the last share that gets a unit -/

theorem mem_of_lastServed? {units : Nat} {shares : List Share} {last : Share}
    (h : lastServed? units shares = some last) : last ∈ shares :=
  (List.mergeSort_perm shares Share.before).mem_iff.mp (List.mem_of_mem_take (List.mem_of_getLast? h))

theorem exists_share_of_mem_zip {budget : Int} {weights : List Cells} {f : Share → Int} {weight : Cells} {part : Int}
    (h : (weight, part) ∈ weights.zip ((exactShares budget weights).map f)) :
    ∃ i, part = f (Share.exact budget (Cells.total weights) i weight) := by
  obtain ⟨i, hi⟩ := List.mem_iff_getElem?.mp h
  obtain ⟨hweight, hpart⟩ := List.getElem?_zip_eq_some.mp hi
  rw [exactShares, List.getElem?_map, List.getElem?_mapIdx, hweight] at hpart
  exact ⟨i, (Option.some.inj hpart).symm⟩

/-- The remainders of the shares that get a unit are on one side of a threshold, those of the others on the other. -/
theorem exists_threshold {budget : Int} {weights : List Cells} (h : InRange budget (Cells.total weights)) :
    ∃ threshold : Int, 0 ≤ threshold ∧ threshold ≤ Cells.total weights ∧
      ∀ weight part, (weight, part) ∈ weights.zip (parts budget weights) →
        part = budget * weight.toNat / Cells.total weights ∧
            budget * weight.toNat % Cells.total weights ≤ threshold ∨
          part = budget * weight.toNat / Cells.total weights + 1 ∧
            threshold ≤ budget * weight.toNat % Cells.total weights := by
  have hpos : (0 : Int) < Cells.total weights := by exact_mod_cast h.sum_pos
  have hmod := fun weight : Cells => Int.emod_nonneg (budget * weight.toNat) hpos.ne'
  have hlt := fun weight : Cells => Int.emod_lt_of_pos (budget * weight.toNat) hpos
  rw [parts, if_neg h.sum_pos.ne', shares_eq_exactShares h]
  dsimp only
  split
  -- No share gets a unit, and no remainder is as large as the sum of the weights.
  · refine ⟨Cells.total weights, hpos.le, le_rfl, fun weight part hmem => Or.inl ?_⟩
    obtain ⟨i, rfl⟩ := exists_share_of_mem_zip hmem
    exact ⟨rfl, (hlt weight).le⟩
  · rename_i last hlast
    have hremainder := (splits_exactShares budget h.sum_pos).remainder_lt last (mem_of_lastServed? hlast)
    refine ⟨last.remainder, Int.natCast_nonneg _, by exact_mod_cast hremainder.le, fun weight part hmem => ?_⟩
    obtain ⟨i, rfl⟩ := exists_share_of_mem_zip hmem
    have hexact : ((Share.exact budget (Cells.total weights) i weight).remainder : Int) =
        budget * weight.toNat % Cells.total weights := Int.toNat_of_nonneg (hmod weight)
    rw [← hexact]
    split
    · rename_i hbefore
      rcases Share.before_iff.mp hbefore with hmore | ⟨heq, -⟩
      · exact Or.inr ⟨rfl, by exact_mod_cast hmore.le⟩
      · exact Or.inr ⟨rfl, by exact_mod_cast heq.ge⟩
    · rename_i hafter
      rw [Share.before_iff, not_or, not_lt] at hafter
      exact Or.inl ⟨rfl, by exact_mod_cast hafter.1⟩

/-! ### The closest split -/

/-- How far a split is from the exact shares, in parts of one unit as many as the weights have in sum. -/
def distance (budget : Int) (weights : List Cells) (split : List Int) : Int :=
  (weights.zipWith (fun weight part => |Cells.total weights * part - budget * weight.toNat|) split).sum

theorem distance_sub_nonneg {budget : Int} {weights : List Cells} (h : InRange budget (Cells.total weights))
    {split : List Int} (hlength : split.length = weights.length) (hsum : split.sum = budget) :
    0 ≤ distance budget weights split - distance budget weights (parts budget weights) := by
  have hpos : (0 : Int) < Cells.total weights := by exact_mod_cast h.sum_pos
  obtain ⟨threshold, hnonneg, hle, hparts⟩ := exists_threshold h
  have hmoves := price_mul_sum_le (length_parts budget weights) hlength fun weight part hmem =>
    price_mul_le hpos hnonneg hle (hparts weight part hmem)
  rwa [hsum, sum_parts h, sub_self, mul_zero] at hmoves

/-- No split of the budget in whole units is closer to the exact shares than the parts. -/
theorem distance_parts_le (budget : Int) (weights : List Cells) (hpos : 0 < Cells.total weights)
    (hlt : Cells.total weights < 2 ^ 127) (hlow : -2 ^ 127 + Cells.total weights - 1 ≤ budget)
    (hhigh : budget ≤ 2 ^ 127 - 1) (split : List Int) (hlength : split.length = weights.length)
    (hsum : split.sum = budget) : distance budget weights (parts budget weights) ≤ distance budget weights split :=
  sub_nonneg.mp (distance_sub_nonneg (InRange.of_bounds hpos hlt hlow hhigh) hlength hsum)

/-- Rounding the first part of a deficit up and the others down costs a third of what another split costs. -/
theorem distance_parts_le_of_deficit :
    (0 < Cells.total [3, 2, 2] ∧ Cells.total [3, 2, 2] < 2 ^ 127) ∧ [-5, -3, -2].sum = (-10 : Int) ∧
      parts (-10) [3, 2, 2] = [-4, -3, -3] ∧ distance (-10) [3, 2, 2] [-4, -3, -3] = 4 ∧
      distance (-10) [3, 2, 2] [-5, -3, -2] = 12 ∧
      distance (-10) [3, 2, 2] (parts (-10) [3, 2, 2]) ≤ distance (-10) [3, 2, 2] [-5, -3, -2] :=
  ⟨⟨by decide, by decide⟩, by decide, by cbv, by decide, by decide,
    distance_parts_le (-10) [3, 2, 2] (by decide) (by decide) (by decide) (by decide) [-5, -3, -2] rfl (by decide)⟩

end Allotment.LargestRemainder
