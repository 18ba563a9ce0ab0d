import Allotment.Proofs.ExactShares

/-! The parts of a budget are those of the largest remainders. Shares are ordered by their remainders, the larger
    first, and by their places where these are equal; a share gets a unit on top of its floor exactly if fewer shares
    come before it than units are left over. So the parts add up to the budget, each is less than one unit away from
    its rational share, and a weight of 0 gets nothing. -/

namespace Allotment.LargestRemainder

/-! ### The order of the shares -/

theorem Share.before_iff {s t : Share} :
    s.before t = true ↔ t.remainder < s.remainder ∨ s.remainder = t.remainder ∧ s.place ≤ t.place := by
  simp only [Share.before, Bool.or_eq_true, Bool.and_eq_true, decide_eq_true_eq, beq_iff_eq]

theorem Share.before_refl (s : Share) : s.before s = true := Share.before_iff.mpr (Or.inr ⟨rfl, Nat.le_refl _⟩)

theorem Share.before_trans {s t u : Share} (hst : s.before t = true) (htu : t.before u = true) :
    s.before u = true := by
  rw [Share.before_iff] at hst htu ⊢
  omega

theorem Share.before_total (s t : Share) : (s.before t || t.before s) = true := by
  rw [Bool.or_eq_true, Share.before_iff, Share.before_iff]
  omega

theorem Share.place_eq_of_before {s t : Share} (hst : s.before t = true) (hts : t.before s = true) :
    s.place = t.place := by
  rw [Share.before_iff] at hst hts
  omega

/-- Shares stand in their order, and no two have one place. -/
structure Ranked (shares : List Share) : Prop where
  sorted : shares.Pairwise fun s t => s.before t = true
  places : (shares.map (·.place)).Nodup

theorem ranked_mergeSort {shares : List Share} (hplaces : (shares.map (·.place)).Nodup) :
    Ranked (shares.mergeSort Share.before) where
  sorted := @List.pairwise_mergeSort _ Share.before (fun _ _ _ => Share.before_trans) Share.before_total shares
  places := ((List.mergeSort_perm shares Share.before).map _).nodup_iff.mpr hplaces

namespace Ranked
variable {shares : List Share}

theorem before_getElem_iff (h : Ranked shares) {i j : Nat} (hi : i < shares.length) (hj : j < shares.length) :
    shares[i].before shares[j] = true ↔ i ≤ j := by
  have hsorted := List.pairwise_iff_getElem.mp h.sorted
  constructor
  · intro hbefore
    by_contra hlt
    have hback := hsorted j i hj hi (by omega)
    have hne := List.pairwise_iff_getElem.mp (List.pairwise_map.mp h.places) j i hj hi (by omega)
    exact hne (Share.place_eq_of_before hback hbefore)
  · intro hle
    rcases Nat.eq_or_lt_of_le hle with rfl | hlt
    · exact Share.before_refl _
    · exact hsorted i j hi hj hlt

/-- The shares that come no later than the one at `j` are those at the first `j + 1` positions. -/
theorem countP_before_getElem (h : Ranked shares) {j : Nat} (hj : j < shares.length) :
    shares.countP (·.before shares[j]) = j + 1 := by
  have hsplit : shares.countP (·.before shares[j]) =
      (shares.take (j + 1)).countP (·.before shares[j]) + (shares.drop (j + 1)).countP (·.before shares[j]) := by
    rw [← List.countP_append, List.take_append_drop]
  have hfirst : (shares.take (j + 1)).countP (·.before shares[j]) = j + 1 := by
    rw [List.countP_eq_length.mpr, List.length_take]
    · omega
    · intro s hs
      obtain ⟨i, hi, rfl⟩ := List.mem_take_iff_getElem.mp hs
      exact (h.before_getElem_iff (by omega) hj).mpr (by omega)
  have hlater : (shares.drop (j + 1)).countP (·.before shares[j]) = 0 := by
    rw [List.countP_eq_zero]
    intro s hs hbefore
    obtain ⟨i, hi, rfl⟩ := List.mem_drop_iff_getElem.mp hs
    have := (h.before_getElem_iff (by omega) hj).mp hbefore
    omega
  omega

end Ranked

/-! ### Who gets a unit -/

/-- How many shares come no later than `s`. -/
def standing (shares : List Share) (s : Share) : Nat := shares.countP (·.before s)

theorem standing_pos {shares : List Share} {s : Share} (hs : s ∈ shares) : 0 < standing shares s :=
  List.countP_pos_iff.mpr ⟨s, hs, Share.before_refl s⟩

theorem lastServed?_zero (shares : List Share) : lastServed? 0 shares = none := by
  rw [lastServed?, List.take_zero, List.getLast?_nil]

/-- The last of some shares that get a unit has as many shares no later than it. -/
theorem lastServed?_succ {shares : List Share} (hplaces : (shares.map (·.place)).Nodup) {units : Nat}
    (hunits : units < shares.length) :
    ∃ last, lastServed? (units + 1) shares = some last ∧ shares.countP (·.before last) = units + 1 ∧
      ∀ s ∈ shares, (s.before last = true ↔ standing shares s ≤ units + 1) := by
  have hranked := ranked_mergeSort hplaces
  have hperm := List.mergeSort_perm shares Share.before
  have hlast : units < (shares.mergeSort Share.before).length := by
    rw [hperm.length_eq]
    exact hunits
  refine ⟨(shares.mergeSort Share.before)[units], ?_, ?_, ?_⟩
  · rw [lastServed?, List.getLast?_eq_getElem?, List.length_take, Nat.min_eq_left hlast, Nat.succ_sub_one,
      List.getElem?_take_of_lt (Nat.lt_succ_self units), List.getElem?_eq_getElem hlast]
  · rw [← hperm.countP_eq, hranked.countP_before_getElem hlast]
  · intro s hs
    obtain ⟨i, hi, rfl⟩ := List.mem_iff_getElem.mp (hperm.mem_iff.mpr hs)
    rw [hranked.before_getElem_iff hi hlast, standing, ← hperm.countP_eq, hranked.countP_before_getElem hi]
    omega

/-- As many shares are among the first `units` as there are units. -/
theorem countP_standing_le {shares : List Share} (hplaces : (shares.map (·.place)).Nodup) {units : Nat}
    (hunits : units ≤ shares.length) : shares.countP (fun s => standing shares s ≤ units) = units := by
  cases units with
  | zero =>
    rw [List.countP_eq_zero]
    intro s hs hle
    have := standing_pos hs
    rw [decide_eq_true_eq] at hle
    omega
  | succ units =>
    obtain ⟨last, -, hcount, hserved⟩ := lastServed?_succ hplaces hunits
    refine Eq.trans (List.countP_congr fun s hs => ?_) hcount
    rw [hserved s hs, decide_eq_true_eq]

/-- The floor of a share, and the unit that it gets on top if it is among the first `units`. -/
def Share.served (units : Nat) (shares : List Share) (s : Share) : Int :=
  s.floor + if standing shares s ≤ units then 1 else 0

theorem map_lastServed? {shares : List Share} (hplaces : (shares.map (·.place)).Nodup) {units : Nat}
    (hunits : units ≤ shares.length) :
    (match lastServed? units shares with
      | none => shares.map (·.floor)
      | some last => shares.map fun s => if s.before last then s.floor + 1 else s.floor) =
        shares.map (Share.served units shares) := by
  cases units with
  | zero =>
    rw [lastServed?_zero]
    refine List.map_congr_left fun s hs => ?_
    have := standing_pos hs
    rw [Share.served, if_neg (by omega), add_zero]
  | succ units =>
    obtain ⟨last, hlast, -, hserved⟩ := lastServed?_succ hplaces hunits
    rw [hlast]
    refine List.map_congr_left fun s hs => ?_
    rw [Share.served]
    by_cases hbefore : s.before last = true
    · rw [if_pos hbefore, if_pos ((hserved s hs).mp hbefore)]
    · rw [if_neg hbefore, if_neg fun hle => hbefore ((hserved s hs).mpr hle), add_zero]

theorem sum_served {shares : List Share} (hplaces : (shares.map (·.place)).Nodup) {units : Nat}
    (hunits : units ≤ shares.length) :
    (shares.map (Share.served units shares)).sum = (shares.map (·.floor)).sum + units := by
  have hsum : ∀ l : List Share,
      (l.map (Share.served units shares)).sum =
        (l.map (·.floor)).sum + l.countP (fun s => standing shares s ≤ units) := by
    intro l
    induction l with
    | nil => simp
    | cons s l ih =>
      rw [List.map_cons, List.sum_cons, ih, List.map_cons, List.sum_cons, List.countP_cons, Share.served]
      by_cases hs : standing shares s ≤ units
      · simp only [hs, if_true, decide_true]
        omega
      · simp only [hs, if_false, decide_false, Bool.false_eq_true]
        omega
  rw [hsum, countP_standing_le hplaces hunits]

namespace Splits
variable {budget : Int} {sum : Nat} {shares : List Share}

theorem exactLeftover_le_length (h : Splits budget sum shares) (hpos : 0 < sum) :
    (exactLeftover budget shares).toNat ≤ shares.length :=
  (h.exactLeftover_le hpos).trans List.countP_le_length

/-- A share without a remainder gets no unit: every share that has one comes before it. -/
theorem served_of_remainder_eq_zero (h : Splits budget sum shares) (hpos : 0 < sum) {s : Share} (hs : s ∈ shares)
    (hzero : s.remainder = 0) : s.served (exactLeftover budget shares).toNat shares = s.floor := by
  have hcount : shares.countP (0 < ·.remainder) ≤ standing shares s := by
    refine List.countP_mono_left fun t _ hpositive => Share.before_iff.mpr (Or.inl ?_)
    rw [decide_eq_true_eq] at hpositive
    omega
  have hnot : ¬standing shares s ≤ (exactLeftover budget shares).toNat := by
    rcases le_or_gt (exactLeftover budget shares) 0 with hnone | hsome
    · have := standing_pos hs
      omega
    · have := h.exactLeftover_lt hpos hsome
      omega
  rw [Share.served, if_neg hnot, add_zero]

end Splits

/-! ### The parts -/

theorem parts_of_total_eq_zero (budget : Int) {weights : List Cells} (h : Cells.total weights = 0) :
    parts budget weights = List.replicate weights.length 0 := by
  rw [parts, if_pos h, List.map_const']

/-- The parts are the floors, with a unit on top of as many as there are units left over. -/
theorem parts_eq_map_served {budget : Int} {weights : List Cells} (hpos : 0 < Cells.total weights)
    (hexact : leftover budget (shares budget weights) = exactLeftover budget (shares budget weights))
    (hunits : (exactLeftover budget (shares budget weights)).toNat ≤ (shares budget weights).length) :
    parts budget weights = (shares budget weights).map
      (Share.served (exactLeftover budget (shares budget weights)).toNat (shares budget weights)) := by
  rw [parts, if_neg hpos.ne']
  dsimp only
  rw [hexact]
  exact map_lastServed? (nodup_place_shares budget weights) hunits

theorem parts_eq_served {budget : Int} {weights : List Cells} (h : InRange budget (Cells.total weights)) :
    parts budget weights = (exactShares budget weights).map
      (Share.served (exactLeftover budget (exactShares budget weights)).toNat (exactShares budget weights)) := by
  have hsplits := splits_exactShares budget h.sum_pos
  have hunits := hsplits.exactLeftover_le_length h.sum_pos
  have hexact : leftover budget (exactShares budget weights) = exactLeftover budget (exactShares budget weights) := by
    have hless : exactLeftover budget (exactShares budget weights) < Cells.total weights :=
      exactLeftover_exactShares_lt h.sum_pos
    have hleast : Wide.least ≤ 0 := by decide
    exact leftover_eq (hleast.trans (hsplits.exactLeftover_nonneg h.sum_pos)) (hless.le.trans h.sum_le)
  rw [← shares_eq_exactShares h] at hunits hexact ⊢
  exact parts_eq_map_served h.sum_pos hexact hunits

/-- Nothing of the budget is lost, and nothing given twice. -/
theorem sum_parts {budget : Int} {weights : List Cells} (h : InRange budget (Cells.total weights)) :
    (parts budget weights).sum = budget := by
  have hsplits := splits_exactShares budget h.sum_pos
  rw [parts_eq_served h, sum_served hsplits.places (hsplits.exactLeftover_le_length h.sum_pos),
    Int.toNat_of_nonneg (hsplits.exactLeftover_nonneg h.sum_pos), exactLeftover, add_sub_cancel]

theorem part_cases {budget : Int} {weights : List Cells} (h : InRange budget (Cells.total weights))
    {weight : Cells} {part : Int} (hmem : (weight, part) ∈ weights.zip (parts budget weights)) :
    part = budget * weight.toNat / Cells.total weights ∨
      part = budget * weight.toNat / Cells.total weights + 1 ∧ budget * weight.toNat % Cells.total weights ≠ 0 := by
  have hsplits := splits_exactShares budget h.sum_pos
  obtain ⟨i, hi, heq⟩ := List.mem_iff_getElem.mp hmem
  have hi' : i < (exactShares budget weights).length := by
    rw [exactShares, List.length_mapIdx]
    exact (List.lt_length_left_of_zip hi)
  rw [List.getElem_zip, Prod.mk.injEq] at heq
  obtain ⟨hweight, hpart⟩ := heq
  have hshare : (exactShares budget weights)[i] = Share.exact budget (Cells.total weights) i weight := by
    simp only [exactShares, List.getElem_mapIdx, hweight]
  simp only [parts_eq_served h, List.getElem_map] at hpart
  by_cases hzero : budget * weight.toNat % Cells.total weights = 0
  · left
    rw [← hpart, hsplits.served_of_remainder_eq_zero h.sum_pos (List.getElem_mem hi'), hshare, Share.exact]
    rw [hshare, Share.exact, hzero, Int.toNat_zero]
  · rw [← hpart, hshare, Share.served, Share.exact]
    split
    · exact Or.inr ⟨rfl, hzero⟩
    · exact Or.inl (add_zero _)

/-- The part of a weight is less than one unit away from its rational share. -/
theorem abs_part_sub_lt {budget : Int} {weights : List Cells} (h : InRange budget (Cells.total weights))
    {weight : Cells} {part : Int} (hmem : (weight, part) ∈ weights.zip (parts budget weights)) :
    |part * Cells.total weights - budget * weight.toNat| < Cells.total weights := by
  have hpos : (0 : Int) < Cells.total weights := by exact_mod_cast h.sum_pos
  have hdiv := Int.mul_ediv_add_emod (budget * weight.toNat) (Cells.total weights)
  have hlt := Int.emod_lt_of_pos (budget * weight.toNat) hpos
  have hnonneg := Int.emod_nonneg (budget * weight.toNat) hpos.ne'
  rw [mul_comm] at hdiv
  rw [abs_lt]
  -- The floor is less than one unit below the share, and one more is above it only by what the remainder lacks.
  rcases part_cases h hmem with rfl | ⟨rfl, hsome⟩
  · omega
  · rw [add_mul, one_mul]
    omega

theorem part_eq_zero {budget : Int} {weights : List Cells} (h : InRange budget (Cells.total weights)) {part : Int}
    (hmem : (0, part) ∈ weights.zip (parts budget weights)) : part = 0 := by
  have hpos : (0 : Int) < Cells.total weights := by exact_mod_cast h.sum_pos
  have habs := abs_part_sub_lt h hmem
  rw [show ((0 : Cells).toNat : Int) = 0 from rfl, mul_zero, sub_zero, abs_mul, abs_of_pos hpos] at habs
  refine Int.abs_lt_one_iff.mp (lt_of_mul_lt_mul_right ?_ hpos.le)
  rwa [one_mul]

/-! ### The parts by their places -/

/-- The floor of the rational share of the weight at `i`. -/
def exactFloor (budget : Int) (weights : List Cells) (i : Nat) : Int :=
  budget * (weights.getD i 0).toNat / Cells.total weights

/-- The remainder of that share, in parts of one unit as many as the weights have in sum. -/
def exactRemainder (budget : Int) (weights : List Cells) (i : Nat) : Int :=
  budget * (weights.getD i 0).toNat % Cells.total weights

/-- The units that the floors of all shares leave over. -/
def spare (budget : Int) (weights : List Cells) : Int :=
  budget - ((List.range weights.length).map (exactFloor budget weights)).sum

/-- The position of the weight at `i`, counted from 1, where larger remainders come first, and of equal ones the
    first. -/
def position (budget : Int) (weights : List Cells) (i : Nat) : Nat :=
  (List.range weights.length).countP fun j =>
    exactRemainder budget weights i < exactRemainder budget weights j ∨
      exactRemainder budget weights j = exactRemainder budget weights i ∧ j ≤ i

theorem exactShares_eq_map (budget : Int) (weights : List Cells) :
    exactShares budget weights = (List.range weights.length).map fun i =>
      ⟨i, exactFloor budget weights i, (exactRemainder budget weights i).toNat⟩ := by
  apply List.ext_getElem
  · simp [exactShares]
  · intro i hi _
    have hi' : i < weights.length := by simpa [exactShares] using hi
    simp [exactShares, Share.exact, exactFloor, exactRemainder, hi']

theorem exactLeftover_exactShares (budget : Int) (weights : List Cells) :
    exactLeftover budget (exactShares budget weights) = spare budget weights := by
  rw [exactLeftover, exactShares_eq_map, List.map_map, spare]
  rfl

theorem standing_exactShares {budget : Int} {weights : List Cells} (hpos : 0 < Cells.total weights) (i : Nat) :
    standing (exactShares budget weights)
        ⟨i, exactFloor budget weights i, (exactRemainder budget weights i).toNat⟩ = position budget weights i := by
  have hnonneg : ∀ j, 0 ≤ exactRemainder budget weights j := fun j => Int.emod_nonneg _ (by omega)
  rw [standing, exactShares_eq_map, List.countP_map, position]
  refine List.countP_congr fun j _ => ?_
  have := hnonneg i
  have := hnonneg j
  rw [Function.comp_apply, Share.before_iff, decide_eq_true_eq]
  dsimp only
  omega

theorem parts_eq_map {budget : Int} {weights : List Cells} (h : InRange budget (Cells.total weights)) :
    parts budget weights = (List.range weights.length).map fun i =>
      exactFloor budget weights i + if position budget weights i ≤ spare budget weights then 1 else 0 := by
  have hnonneg := (splits_exactShares budget h.sum_pos).exactLeftover_nonneg h.sum_pos
  rw [parts_eq_served h, exactShares_eq_map, List.map_map, ← exactShares_eq_map]
  refine List.map_congr_left fun i _ => ?_
  rw [Function.comp_apply, Share.served, standing_exactShares h.sum_pos]
  rw [exactLeftover_exactShares] at hnonneg ⊢
  have hiff : position budget weights i ≤ (spare budget weights).toNat ↔
      (position budget weights i : Int) ≤ spare budget weights := by omega
  simp only [hiff]

theorem part_eq {budget : Int} {weights : List Cells} (h : InRange budget (Cells.total weights)) {i : Nat} {part : Int}
    (hpart : (parts budget weights)[i]? = some part) :
    part = exactFloor budget weights i + if position budget weights i ≤ spare budget weights then 1 else 0 := by
  rw [parts_eq_map h, List.getElem?_map, Option.map_eq_some_iff] at hpart
  obtain ⟨k, hk, rfl⟩ := hpart
  obtain ⟨hlt, hget⟩ := List.getElem?_eq_some_iff.mp hk
  rw [List.getElem_range] at hget
  subst hget
  rfl

theorem getD_eq_of_getElem? {counts : List Cells} {i : Nat} {count : Cells} (h : counts[i]? = some count) :
    counts.getD i 0 = count := by
  rw [List.getD_eq_getElem?_getD, h, Option.getD_some]

theorem part_eq_exactFloor {budget : Int} {weights : List Cells} (h : InRange budget (Cells.total weights)) {i : Nat}
    {part : Int} (hpart : (parts budget weights)[i]? = some part) (hzero : exactRemainder budget weights i = 0) :
    part = exactFloor budget weights i := by
  obtain ⟨hi, -⟩ := List.getElem?_eq_some_iff.mp hpart
  rw [length_parts] at hi
  have hweight : weights[i]? = some weights[i] := List.getElem?_eq_getElem hi
  rw [exactRemainder, getD_eq_of_getElem? hweight] at hzero
  rw [exactFloor, getD_eq_of_getElem? hweight]
  rcases part_cases h (List.mem_of_getElem? (List.getElem?_zip_eq_some.mpr ⟨hweight, hpart⟩)) with hfloor | ⟨-, hne⟩
  · exact hfloor
  · exact absurd hzero hne

/-- The remainders settle how many units the floors leave over. -/
theorem spare_mul_total (budget : Int) {weights : List Cells} (hpos : 0 < Cells.total weights) :
    spare budget weights * Cells.total weights =
      ((weights.map fun weight => (budget * weight.toNat % Cells.total weights).toNat).sum : Nat) := by
  have hremainders : (exactShares budget weights).map (·.remainder) =
      weights.map fun weight => (budget * weight.toNat % Cells.total weights).toNat := by
    apply List.ext_getElem
    · simp [exactShares]
    · intro i _ _
      simp [exactShares, Share.exact]
  rw [← exactLeftover_exactShares, (splits_exactShares budget hpos).exactLeftover_mul, hremainders]

theorem spare_lt_length {budget : Int} {weights : List Cells} (h : InRange budget (Cells.total weights)) :
    spare budget weights < weights.length := by
  have hsplits := splits_exactShares budget h.sum_pos
  have hlength : (exactShares budget weights).length = weights.length := by rw [exactShares, List.length_mapIdx]
  have hcount : (exactShares budget weights).countP (0 < ·.remainder) ≤ (exactShares budget weights).length :=
    List.countP_le_length
  rw [← exactLeftover_exactShares]
  rcases le_or_gt (exactLeftover budget (exactShares budget weights)) 0 with hnone | hsome
  · cases weights with
    | nil => exact absurd h.sum_pos (Nat.lt_irrefl 0)
    | cons weight weights =>
      rw [List.length_cons]
      omega
  · have := hsplits.exactLeftover_lt h.sum_pos hsome
    omega

theorem countP_range_le (n i : Nat) : (List.range n).countP (· ≤ i) = min n (i + 1) := by
  induction n with
  | zero => rfl
  | succ n ih =>
    rw [List.range_succ, List.countP_append, ih, List.countP_singleton]
    by_cases h : n ≤ i
    · simp only [h, decide_true, if_true]
      omega
    · simp only [h, decide_false, Bool.false_eq_true, if_false]
      omega

theorem total_replicate (count : Nat) (weight : Cells) :
    Cells.total (List.replicate count weight) = count * weight.toNat := by
  induction count with
  | zero => exact (Nat.zero_mul _).symm
  | succ count ih => rw [List.replicate_succ, Cells.total_cons, ih, Nat.succ_mul, Nat.add_comm]

theorem total_replicate_one (count : Nat) : Cells.total (List.replicate count 1) = count := by
  rw [total_replicate, UInt64.toNat_one, Nat.mul_one]

section Equal
variable {budget count i : Nat}

theorem mul_replicate_one (budget : Nat) (hi : i < count) :
    (budget : Int) * ((List.replicate count (1 : Cells)).getD i 0).toNat = budget := by
  rw [List.getD_eq_getElem _ _ (by rwa [List.length_replicate]), List.getElem_replicate, UInt64.toNat_one,
    Nat.cast_one, mul_one]

theorem exactFloor_replicate_one (budget : Nat) (hi : i < count) :
    exactFloor budget (List.replicate count 1) i = ((budget / count : Nat) : Int) := by
  rw [exactFloor, mul_replicate_one budget hi, total_replicate_one, Int.natCast_div]

theorem exactRemainder_replicate_one (budget : Nat) (hi : i < count) :
    exactRemainder budget (List.replicate count 1) i = ((budget % count : Nat) : Int) := by
  rw [exactRemainder, mul_replicate_one budget hi, total_replicate_one, Int.natCast_mod]

theorem spare_replicate_one (budget count : Nat) :
    spare budget (List.replicate count 1) = ((budget % count : Nat) : Int) := by
  have hsum : ((List.range count).map (exactFloor budget (List.replicate count 1))).sum =
      ((count * (budget / count) : Nat) : Int) := by
    rw [List.map_congr_left fun i hi => exactFloor_replicate_one budget (List.mem_range.mp hi), List.map_const',
      List.sum_replicate, List.length_range, nsmul_eq_mul, Nat.cast_mul]
  have hdiv := Nat.div_add_mod budget count
  rw [spare, List.length_replicate, hsum]
  omega

theorem position_replicate_one (budget : Nat) (hi : i < count) :
    position budget (List.replicate count 1) i = i + 1 := by
  have hcount := countP_range_le count i
  rw [min_eq_right hi] at hcount
  rw [position, List.length_replicate, ← hcount]
  refine List.countP_congr fun j hj => ?_
  rw [exactRemainder_replicate_one budget hi, exactRemainder_replicate_one budget (List.mem_range.mp hj),
    decide_eq_true_eq, decide_eq_true_eq]
  omega

/-- Equal weights have equal remainders: the first of them get what is left over. -/
theorem parts_replicate_one (h : InRange budget count) :
    parts budget (List.replicate count 1) = (List.range count).map fun i =>
      (((budget / count + if i < budget % count then 1 else 0) : Nat) : Int) := by
  rw [parts_eq_map (by rwa [total_replicate_one]), List.length_replicate, spare_replicate_one]
  refine List.map_congr_left fun i hi => ?_
  have hi' := List.mem_range.mp hi
  rw [exactFloor_replicate_one budget hi', position_replicate_one budget hi']
  by_cases hserved : i < budget % count
  · rw [if_pos (by omega), if_pos hserved, Nat.cast_add, Nat.cast_one]
  · rw [if_neg (by omega), if_neg hserved, Nat.cast_add, Nat.cast_zero]

end Equal

/-- Every budget is split by largest remainders. Where all weights are 0 so are the parts. -/
theorem parts_by_largest_remainders (budget : Int) (weights : List Cells) :
    (Cells.total weights = 0 → parts budget weights = List.replicate weights.length 0) ∧
    (0 < Cells.total weights → Cells.total weights < 2 ^ 127 → -2 ^ 127 + Cells.total weights - 1 ≤ budget →
      budget ≤ 2 ^ 127 - 1 →
        (∀ i, 0 ≤ exactRemainder budget weights i ∧ exactRemainder budget weights i < Cells.total weights) ∧
        (0 ≤ spare budget weights ∧ spare budget weights < weights.length) ∧
        (parts budget weights = (List.range weights.length).map fun i =>
          exactFloor budget weights i + if position budget weights i ≤ spare budget weights then 1 else 0) ∧
        (parts budget weights).sum = budget ∧
        ∀ weight part, (weight, part) ∈ weights.zip (parts budget weights) →
          |part * Cells.total weights - budget * weight.toNat| < Cells.total weights ∧ (weight = 0 → part = 0)) := by
  refine ⟨parts_of_total_eq_zero budget, fun hpos hlt hlow hhigh => ?_⟩
  have h : InRange budget (Cells.total weights) := by
    refine ⟨hpos, ?_, ?_, ?_⟩ <;> simp only [Wide.least, Wide.greatest] <;> omega
  refine ⟨fun i => ⟨Int.emod_nonneg _ (by omega), Int.emod_lt_of_pos _ (by omega)⟩, ⟨?_, spare_lt_length h⟩,
    parts_eq_map h, sum_parts h, fun weight part hmem => ⟨abs_part_sub_lt h hmem, fun hzero => ?_⟩⟩
  · rw [← exactLeftover_exactShares]
    exact (splits_exactShares budget hpos).exactLeftover_nonneg hpos
  · subst hzero
    exact part_eq_zero h hmem

/-- The greatest deficit that these weights can split. -/
theorem parts_of_greatest_deficit :
    (0 < Cells.total [0xffffffffffffffff, 1, 0] ∧ Cells.total [0xffffffffffffffff, 1, 0] < 2 ^ 127) ∧
      parts (-2 ^ 127 + 2 ^ 64 - 1) [0xffffffffffffffff, 1, 0] =
        [-170141183460469231704017187605319778306, -9223372036854775807, 0] := by
  refine ⟨⟨by decide, by decide⟩, ?_⟩
  have h := (parts_by_largest_remainders (-2 ^ 127 + 2 ^ 64 - 1) [0xffffffffffffffff, 1, 0]).2 (by decide) (by decide)
    (by decide) (by decide)
  rw [h.2.2.1]
  decide

end Allotment.LargestRemainder
