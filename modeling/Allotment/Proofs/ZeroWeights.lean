import Allotment.Proofs.CapRates

/-! Weights of 0 have no say in how a budget is rounded. Their shares are exact, so that they take no unit that is left
    over, and without them those that have a remainder stand in the same order. So an allotment that leaves the slots
    of ratio 0 out and one that shares among all slots give the others the same, as long as no bound is missed. -/

namespace Allotment

/-! ### Places in a filtered list -/

section Lists
variable {α β : Type}

theorem take_filter_countP (p : α → Bool) (l : List α) (n : Nat) :
    (l.filter p).take ((l.take n).countP p) = (l.take n).filter p := by
  have hprefix : (l.take n).filter p <+: l.filter p := (List.take_prefix n l).filter p
  rw [List.countP_eq_length_filter]
  exact (List.prefix_iff_eq_take.mp hprefix).symm

/-- A list that has the image of each kept element at its place. -/
theorem eq_map_filter {p : α → Bool} {f : α → β} {l : List α} {m : List β} (hlength : m.length = l.countP p)
    (h : ∀ (i : Nat) (a : α), l[i]? = some a → p a = true → m[(l.take i).countP p]? = some (f a)) :
    m = (l.filter p).map f := by
  induction l generalizing m with
  | nil => exact List.eq_nil_of_length_eq_zero hlength
  | cons a l ih =>
    rw [List.countP_cons] at hlength
    have hnext := fun i c (hc : l[i]? = some c) => h (i + 1) c hc
    simp only [List.take_succ_cons, List.countP_cons] at hnext
    by_cases ha : p a = true
    · rw [if_pos ha] at hlength
      simp only [if_pos ha] at hnext
      rw [List.filter_cons_of_pos ha, List.map_cons]
      cases m with
      | nil => cases hlength
      | cons b m =>
        cases h 0 a rfl ha
        exact congrArg _ (ih (Nat.succ.inj hlength) hnext)
    · rw [if_neg ha] at hlength
      simp only [if_neg ha] at hnext
      rw [List.filter_cons_of_neg ha]
      exact ih hlength hnext

/-- Those of all elements that have one of two properties, or the other and stand among the first `m`. -/
theorem countP_range_getD {p q : α → Bool} (hpq : ∀ a, p a = true → q a = false) (l : List α) (d : α) (m : Nat) :
    (List.range l.length).countP (fun j => p (l.getD j d) || q (l.getD j d) && j < m) =
      l.countP p + (l.take m).countP q := by
  induction l generalizing m with
  | nil => rw [List.take_nil]; rfl
  | cons a l ih =>
    rw [List.length_cons, List.range_succ_eq_map, List.countP_cons, List.countP_map, List.countP_cons]
    simp only [Function.comp_def, List.getD_cons_zero, List.getD_cons_succ]
    cases m with
    | zero =>
      have hrest := ih 0
      simp only [Nat.not_lt_zero, decide_false, Bool.and_false, Bool.or_false, List.take_zero, List.countP_nil,
        Nat.add_zero] at hrest ⊢
      rw [hrest]
    | succ m =>
      simp only [Nat.succ_lt_succ_iff, ih m, Nat.zero_lt_succ, decide_true, Bool.and_true, List.take_succ_cons,
        List.countP_cons]
      by_cases ha : p a = true
      · simp only [ha, hpq a ha, Bool.or_false, if_true, Bool.false_eq_true, if_false]
        omega
      · rw [Bool.not_eq_true] at ha
        simp only [ha, Bool.false_or, Bool.false_eq_true, if_false]
        omega

end Lists

/-! ### Parts -/

namespace LargestRemainder
variable {budget : Int} {weights : List Cells}

/-- A share comes after those of larger remainders, and after those of the same remainder before it. -/
theorem position_eq (budget : Int) (weights : List Cells) (i : Nat) :
    position budget weights i =
      weights.countP (fun v => exactRemainder budget weights i < budget * v.toNat % Cells.total weights) +
        (weights.take (i + 1)).countP
          (fun v => budget * v.toNat % Cells.total weights = exactRemainder budget weights i) := by
  rw [← countP_range_getD (fun v hv => ?_) weights 0 (i + 1), position]
  · refine List.countP_congr fun j _ => ?_
    simp only [Bool.or_eq_true, Bool.and_eq_true, decide_eq_true_eq, Nat.lt_succ_iff]
    rfl
  · rw [decide_eq_true_eq] at hv
    exact decide_eq_false hv.ne'

theorem spare_filter_pos (budget : Int) (hpos : 0 < Cells.total weights) :
    spare budget (weights.filter (0 < ·)) = spare budget weights := by
  have hne : (Cells.total weights : Int) ≠ 0 := by exact_mod_cast hpos.ne'
  have htotal := Cells.total_filter_pos weights
  have hpos' : 0 < Cells.total (weights.filter (0 < ·)) := by rwa [htotal]
  have hspare := spare_mul_total budget hpos'
  rw [htotal, Cells.sum_map_filter_pos (by simp), ← spare_mul_total budget hpos] at hspare
  exact mul_right_cancel₀ hne hspare

section Kept
variable {i : Nat} {weight : Cells} (hweight : weights[i]? = some weight) (hpos : 0 < weight)
include hweight hpos

theorem getElem?_filter_pos : (weights.filter (0 < ·))[(weights.take i).countP (0 < ·)]? = some weight :=
  getElem?_filter_countP hweight (decide_eq_true hpos)

theorem exactFloor_filter_pos :
    exactFloor budget (weights.filter (0 < ·)) ((weights.take i).countP (0 < ·)) = exactFloor budget weights i := by
  rw [exactFloor, exactFloor, getD_eq_of_getElem? (getElem?_filter_pos hweight hpos), getD_eq_of_getElem? hweight,
    Cells.total_filter_pos]

theorem exactRemainder_filter_pos :
    exactRemainder budget (weights.filter (0 < ·)) ((weights.take i).countP (0 < ·)) =
      exactRemainder budget weights i := by
  rw [exactRemainder, exactRemainder, getD_eq_of_getElem? (getElem?_filter_pos hweight hpos),
    getD_eq_of_getElem? hweight, Cells.total_filter_pos]

theorem position_filter_pos (hrest : 0 < exactRemainder budget weights i) :
    position budget (weights.filter (0 < ·)) ((weights.take i).countP (0 < ·)) = position budget weights i := by
  have hcount : (weights.take (i + 1)).countP (0 < ·) = (weights.take i).countP (0 < ·) + 1 := by
    rw [List.take_add_one, hweight, List.countP_append]
    simp [hpos]
  -- A share in front of one with a remainder has a remainder too, so that its weight is not 0.
  have hkept : ∀ v : Cells, 0 < budget * v.toNat % Cells.total weights → 0 < v := by
    intro v hv
    by_contra hzero
    rw [UInt64.pos_iff_ne_zero, not_not] at hzero
    rw [hzero, UInt64.toNat_zero, Nat.cast_zero, mul_zero, Int.zero_emod] at hv
    exact lt_irrefl _ hv
  rw [position_eq, position_eq, exactRemainder_filter_pos hweight hpos, Cells.total_filter_pos, ← hcount,
    take_filter_countP, List.countP_filter, List.countP_filter]
  congr 1
  · refine List.countP_congr fun v _ => ?_
    simp only [Bool.and_eq_true, decide_eq_true_eq, and_iff_left_iff_imp]
    exact fun hv => hkept v (hrest.trans hv)
  · refine List.countP_congr fun v _ => ?_
    simp only [Bool.and_eq_true, decide_eq_true_eq, and_iff_left_iff_imp]
    exact fun hv => hkept v (hv ▸ hrest)

theorem getElem?_parts_filter_pos (h : InRange budget (Cells.total weights)) {part : Int}
    (hpart : (parts budget weights)[i]? = some part) :
    (parts budget (weights.filter (0 < ·)))[(weights.take i).countP (0 < ·)]? = some part := by
  have h' : InRange budget (Cells.total (weights.filter (0 < ·))) := by rwa [Cells.total_filter_pos]
  obtain ⟨hlt, -⟩ := List.getElem?_eq_some_iff.mp (getElem?_filter_pos hweight hpos)
  obtain ⟨part', hpart'⟩ : ∃ part', (parts budget (weights.filter (0 < ·)))[(weights.take i).countP (0 < ·)]? =
      some part' := ⟨_, List.getElem?_eq_getElem (by rwa [length_parts])⟩
  have hnonneg : 0 ≤ exactRemainder budget weights i := Int.emod_nonneg _ (by exact_mod_cast h.sum_pos.ne')
  rw [hpart']
  -- Without a remainder a share is its floor in either list; with one it has the same place in both orders.
  rcases hnonneg.eq_or_lt with hzero | hrest
  · have hzero' := (exactRemainder_filter_pos hweight hpos).trans hzero.symm
    rw [part_eq_exactFloor h' hpart' hzero', part_eq_exactFloor h hpart hzero.symm,
      exactFloor_filter_pos hweight hpos]
  · rw [part_eq h' hpart', part_eq h hpart, exactFloor_filter_pos hweight hpos,
      position_filter_pos hweight hpos hrest, spare_filter_pos budget h.sum_pos]

end Kept

/-- Weights of 0 are transparent: without them the parts of the others are the same. -/
theorem parts_filter_pos (h : InRange budget (Cells.total weights)) :
    parts budget (weights.filter (0 < ·)) =
      ((weights.zip (parts budget weights)).filter fun x => 0 < x.1).map (·.2) := by
  have hfst : (weights.zip (parts budget weights)).map (·.1) = weights :=
    List.map_fst_zip (length_parts budget weights).ge
  have hcount : ∀ i, ((weights.zip (parts budget weights)).take i).countP (fun x => 0 < x.1) =
      (weights.take i).countP (0 < ·) := fun i => by
    conv_rhs => rw [← hfst, ← List.map_take, List.countP_map]
    rfl
  refine eq_map_filter ?_ fun i x hx hpos => ?_
  · have hall := hcount (weights.zip (parts budget weights)).length
    rw [List.take_length, List.length_zip, length_parts, min_self, List.take_length] at hall
    rw [length_parts, hall, List.countP_eq_length_filter]
  · obtain ⟨hweight, hpart⟩ := List.getElem?_zip_eq_some.mp hx
    rw [hcount]
    exact getElem?_parts_filter_pos hweight (of_decide_eq_true hpos) h hpart

end LargestRemainder

/-! ### Shares -/

section Shares
variable {budget : Int} {pool : List Entrant} {ratios limits : List Cells} {s : Entrant × Int}

theorem shareOut_filter_pos (h : LargestRemainder.InRange budget (ratioTotal pool)) :
    shareOut budget (pool.filter fun entrant => 0 < entrant.ratio) =
      (shareOut budget pool).filter fun s => 0 < s.1.ratio := by
  have hratios : (pool.filter fun entrant => 0 < entrant.ratio).map (·.ratio) =
      (pool.map (·.ratio)).filter (0 < ·) := by
    rw [List.filter_map]
    rfl
  have hpool : (pool.filter fun entrant => 0 < entrant.ratio) =
      ((shareOut budget pool).filter fun s => 0 < s.1.ratio).map (·.1) := by
    conv_lhs => rw [← map_fst_shareOut budget pool, List.filter_map]
    rfl
  have hparts : ((pool.map (·.ratio)).zip (LargestRemainder.parts budget (pool.map (·.ratio)))).filter
      (fun x => 0 < x.1) =
        ((shareOut budget pool).filter fun s => 0 < s.1.ratio).map fun s => (s.1.ratio, s.2) := by
    rw [List.zip_map_left, List.filter_map]
    rfl
  rw [shareOut, hratios, LargestRemainder.parts_filter_pos h, hparts, List.map_map, hpool, List.zip_map']
  exact List.map_id _

theorem getElem?_parts_of_mem_shareOut (hlength : limits.length = ratios.length)
    (hs : s ∈ shareOut budget (entrants ratios limits)) :
    (LargestRemainder.parts budget ratios)[s.1.place]? = some s.2 := by
  obtain ⟨i, hi⟩ := List.mem_iff_getElem?.mp hs
  obtain ⟨hentrant, hshare⟩ := List.getElem?_zip_eq_some.mp hi
  rw [map_ratio_entrants hlength] at hshare
  have hplace : ((entrants ratios limits).map (·.place))[i]? = some s.1.place := by
    rw [List.getElem?_map, hentrant, Option.map_some]
  rw [map_place_entrants hlength] at hplace
  obtain ⟨_, hi'⟩ := List.getElem?_eq_some_iff.mp hplace
  rw [List.getElem_range] at hi'
  rwa [← hi']

end Shares

/-! ### Sizes -/

section Sizes
variable {total : Cells} {ratios maximums values : List Cells}

/-- Without minimums each slot has its part of the total. -/
theorem exists_size_of_no_minimums (total : Cells) (hentries : ratios.length ≤ mostEntries)
    (hpos : ∃ ratio ∈ ratios, 0 < ratio) {i : Nat} {ratio : Cells} (hratio : ratios[i]? = some ratio) :
    ∃ size, (flooredSizes total.toNat ratios (ratios.map fun _ => 0)).value[i]? = some size ∧
      (LargestRemainder.parts total.toNat ratios)[i]? = some (size.toNat : Int) := by
  have hlength : (ratios.map fun _ => (0 : Cells)).length = ratios.length := List.length_map _
  have hunder := underFloors_total total hlength hentries hpos
  have hnone : (missing .floor (shareOut total.toNat (entrants ratios (ratios.map fun _ => 0)))).isEmpty = true := by
    refine missing_isEmpty_iff.mpr fun s hs => ?_
    have hlimit : (ratios.map fun _ => (0 : Cells))[s.1.place]? = some s.1.limit :=
      (List.getElem?_zip_eq_some.mp (mem_entrants.mp (mem_pool_of_mem_shareOut hs))).2
    have hshare := share_nonneg hunder.inRange (Int.natCast_nonneg _) hs
    rw [List.getElem?_map, Option.map_eq_some_iff] at hlimit
    obtain ⟨-, -, hzero⟩ := hlimit
    rw [Bound.missedBy, decide_eq_true_eq, ← hzero, UInt64.toNat_zero]
    omega
  have hminimum : (ratios.map fun _ => (0 : Cells))[i]? = some 0 := by rw [List.getElem?_map, hratio, Option.map_some]
  obtain ⟨size, hmem, hsize⟩ := exists_outcome_flooredSizes total.toNat hlength hratio hminimum
  have hs := mem_shareOut_of_mem_outcomes hnone (fun _ => hunder.share_mem hnone) hmem
  exact ⟨size, hsize, getElem?_parts_of_mem_shareOut hlength hs⟩

/-- Where the maximums hold the parts of the total, each slot of a positive ratio has its part of it. -/
theorem exists_size_of_maximums (hentries : ratios.length ≤ mostEntries) (hmaximums : maximums.length = ratios.length)
    (hvalues : values.length = ratios.length)
    (hcaps : ∀ (i : Nat) (ratio maximum : Cells) (part : Int), ratios[i]? = some ratio → 0 < ratio →
      maximums[i]? = some maximum → (LargestRemainder.parts total.toNat ratios)[i]? = some part →
        part ≤ maximum.toNat) {i : Nat} {ratio : Cells} (hratio : ratios[i]? = some ratio) (hratio' : 0 < ratio) :
    ∃ size, (cappedSizes total.toNat ratios maximums values).value[i]? = some size ∧
      (LargestRemainder.parts total.toNat ratios)[i]? = some (size.toNat : Int) := by
  have hunder := underCaps_total total hmaximums hentries
  have hshares : shareOut total.toNat (takers ratios maximums) =
      (shareOut total.toNat (entrants ratios maximums)).filter fun s => 0 < s.1.ratio := by
    have hratios : 0 < ratioTotal (takers ratios maximums) := by
      rw [ratioTotal_takers hmaximums]
      exact total_pos_of_mem (List.mem_of_getElem? hratio) hratio'
    refine shareOut_filter_pos ?_
    rw [← ratioTotal_filter_pos]
    exact hunder.inRange hratios
  have hpart : ∀ s ∈ shareOut total.toNat (takers ratios maximums),
      (LargestRemainder.parts total.toNat ratios)[s.1.place]? = some s.2 := fun s hs => by
    rw [hshares] at hs
    exact getElem?_parts_of_mem_shareOut hmaximums (List.mem_of_mem_filter hs)
  have hnone : (missing .cap (shareOut total.toNat (takers ratios maximums))).isEmpty = true := by
    refine missing_isEmpty_iff.mpr fun s hs => ?_
    obtain ⟨hzip, hpos⟩ := mem_takers.mp (mem_pool_of_mem_shareOut hs)
    obtain ⟨hratio, hmaximum⟩ := List.getElem?_zip_eq_some.mp hzip
    have hle : s.2 ≤ s.1.limit.toNat := hcaps _ _ _ _ hratio hpos hmaximum (hpart s hs)
    rw [Bound.missedBy, decide_eq_true_eq]
    omega
  obtain ⟨hi, -⟩ := List.getElem?_eq_some_iff.mp hratio
  obtain ⟨size, hmem, hsize⟩ := exists_outcome_cappedSizes total.toNat hmaximums hvalues hratio hratio'
    (List.getElem?_eq_getElem (hmaximums ▸ hi))
  have hs := mem_shareOut_of_mem_outcomes hnone (fun _ => hunder.share_mem hnone) hmem
  exact ⟨size, hsize, hpart _ hs⟩

end Sizes

/-- Caps that hold the shares of an allotment without minimums give the slots of a positive ratio the same. -/
theorem allotAtMost_eq_allotAtLeast (total : Cells) (ratios : List Cells) (hentries : ratios.length ≤ mostEntries)
    (hpos : ∃ ratio ∈ ratios, 0 < ratio) :
    ∃ shared, allotAtLeast total ratios none = .ok shared ∧ shared.value.length = ratios.length ∧
      ∀ maximums values : List Cells, maximums.length = ratios.length → values.length = ratios.length →
        (∀ (i : Nat) (ratio maximum size : Cells), ratios[i]? = some ratio → 0 < ratio →
          maximums[i]? = some maximum → shared.value[i]? = some size → size ≤ maximum) →
        ∃ allotted, allotAtMost total ratios maximums values = .ok allotted ∧
          allotted.value.length = ratios.length ∧
          ∀ (i : Nat) (ratio : Cells), ratios[i]? = some ratio →
            allotted.value[i]? = if 0 < ratio then shared.value[i]? else values[i]? := by
  have hok : allotAtLeast total ratios none = .ok (flooredSizes total.toNat ratios (floorsOf ratios none)) :=
    allotAtLeast_eq_ok_iff.mpr ⟨List.length_map _, hpos, rfl⟩
  refine ⟨_, hok, length_flooredSizes _ _ _, fun maximums values hmaximums hvalues hcaps => ?_⟩
  refine ⟨_, allotAtMost_of_length total hmaximums hvalues, (length_cappedSizes _ _ _ _).trans hvalues,
    fun i ratio hratio => ?_⟩
  have hparts : ∀ (i : Nat) (ratio maximum : Cells) (part : Int), ratios[i]? = some ratio → 0 < ratio →
      maximums[i]? = some maximum → (LargestRemainder.parts total.toNat ratios)[i]? = some part →
        part ≤ maximum.toNat := by
    intro i ratio maximum part hratio hratio' hmaximum hpart
    obtain ⟨size, hsize, hpart'⟩ := exists_size_of_no_minimums total hentries hpos hratio
    have hle := UInt64.le_iff_toNat_le.mp (hcaps i ratio maximum size hratio hratio' hmaximum hsize)
    rw [hpart', Option.some.injEq] at hpart
    omega
  rcases eq_or_ne ratio 0 with rfl | hne
  · rw [if_neg (UInt64.lt_irrefl 0)]
    exact getElem?_cappedSizes_of_zero _ _ _ hratio
  · have hratio' : 0 < ratio := UInt64.pos_iff_ne_zero.mpr hne
    obtain ⟨size, hsize, hpart⟩ := exists_size_of_no_minimums total hentries hpos hratio
    obtain ⟨size', hsize', hpart'⟩ := exists_size_of_maximums hentries hmaximums hvalues hparts hratio hratio'
    rw [hpart, Option.some.injEq, Int.natCast_inj, UInt64.toNat_inj] at hpart'
    rw [if_pos hratio', hsize', ← hpart']
    exact hsize.symm

/-- The odd cell goes to the first of three slots, with or without the slots of ratio 0 between them. -/
theorem allotAtMost_eq_allotAtLeast_odd :
    ([0, 1, 0, 1, 1, 0].length ≤ mostEntries ∧ ∃ ratio ∈ ([0, 1, 0, 1, 1, 0] : List Cells), 0 < ratio) ∧
    ∃ allotted, allotAtMost 10 [0, 1, 0, 1, 1, 0] [0, 4, 0, 3, 3, 0] [7, 0, 8, 0, 0, 9] = .ok allotted ∧
      allotted.value[1]? = some 4 ∧ allotted.value[2]? = some 8 := by
  have hsizes : (flooredSizes (10 : Cells).toNat [0, 1, 0, 1, 1, 0] [0, 0, 0, 0, 0, 0]).value = [0, 4, 0, 3, 3, 0] := by
    cbv
  have hentries : [0, 1, 0, 1, 1, 0].length ≤ mostEntries := by decide
  have hpos : ∃ ratio ∈ ([0, 1, 0, 1, 1, 0] : List Cells), 0 < ratio := ⟨1, by decide, by decide⟩
  obtain ⟨shared, hshared, -, hcapped⟩ := allotAtMost_eq_allotAtLeast 10 [0, 1, 0, 1, 1, 0] hentries hpos
  have hvalue : shared.value = [0, 4, 0, 3, 3, 0] := by
    rw [← hsizes]
    exact congrArg Traced.value (Except.ok.inj hshared).symm
  obtain ⟨allotted, hallotted, -, hplaces⟩ := hcapped [0, 4, 0, 3, 3, 0] [7, 0, 8, 0, 0, 9] rfl rfl
    (fun i ratio maximum size _ _ hmaximum hsize => by
      rw [hvalue, hmaximum] at hsize
      exact UInt64.le_of_eq (Option.some.inj hsize).symm)
  refine ⟨⟨hentries, hpos⟩, allotted, hallotted, ?_, hplaces 2 0 rfl⟩
  rw [hplaces 1 1 rfl, hvalue]
  rfl

end Allotment
