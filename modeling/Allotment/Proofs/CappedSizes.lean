import Allotment.Allot
import Allotment.Proofs.Settlement

/-! Allotments with greatest sizes. No size is above its cap, and the sizes add up to the budget or to the caps,
    whichever is less: shares that exceed their caps leave enough of the budget for the others. Only the slots of a
    positive ratio share it; each finds what the rounds give it at its own place, and the others keep their values. -/

namespace Allotment

/-! ### Under caps -/

/-- What every round under caps finds. -/
structure UnderCaps (budget : Int) (pool : List Entrant) : Prop where
  ratios : (ratioTotal pool : Int) ≤ Wide.greatest
  low : 0 ≤ budget
  high : budget ≤ Cells.most
  positive : ∀ entrant ∈ pool, 0 < entrant.ratio

/-- What a settlement under caps gives. -/
structure Capped (budget : Int) (pool : List Entrant) (outcomes : List (Entrant × Cells)) : Prop where
  le_limit : ∀ x ∈ outcomes, x.2 ≤ x.1.limit
  total : (sizeTotal outcomes : Int) = min budget (limitTotal pool)

/-- Caps take what there is at most, one after another as all at once. -/
theorem spendAll_cap {budget : Int} (h : 0 ≤ budget) (pinned : List Entrant) :
    Bound.cap.spendAll budget pinned = max 0 (budget - limitTotal pinned) := by
  induction pinned generalizing budget with
  | nil => simp [Bound.spendAll, h]
  | cons entrant pinned ih =>
    have hrest := ih (le_max_left 0 (budget - entrant.limit.toNat))
    rw [Bound.spendAll] at hrest ⊢
    rw [List.foldl_cons, Bound.spend, hrest, limitTotal_cons]
    omega

namespace UnderCaps
variable {budget : Int} {pool : List Entrant}

theorem inRange (h : UnderCaps budget pool) (hpos : 0 < ratioTotal pool) :
    LargestRemainder.InRange budget (ratioTotal pool) where
  sum_pos := hpos
  sum_le := h.ratios
  low := by
    have hlow := h.low
    have hratios := h.ratios
    simp only [Wide.least, Wide.greatest] at hratios ⊢
    omega
  high := h.high.trans (by decide)

theorem share_nonneg (h : UnderCaps budget pool) {s : Entrant × Int} (hs : s ∈ shareOut budget pool) : 0 ≤ s.2 :=
  Allotment.share_nonneg h.inRange h.low hs

theorem shareTotal_eq (h : UnderCaps budget pool) (hne : pool ≠ []) : shareTotal (shareOut budget pool) = budget :=
  shareTotal_shareOut (h.inRange (ratioTotal_pos h.positive hne))

/-- The caps of shares that exceed them do not use up the budget. -/
theorem sub_limitTotal_nonneg (h : UnderCaps budget pool) (hsome : ¬(missing .cap (shareOut budget pool)).isEmpty = true) :
    0 ≤ budget - limitTotal (missing .cap (shareOut budget pool)) := by
  have hne : pool ≠ [] := by
    rintro rfl
    exact hsome rfl
  have hsum := shareTotal_filter_add (fun s => Bound.cap.missedBy s.1.limit s.2) (shareOut budget pool)
  rw [h.shareTotal_eq hne] at hsum
  have hmissed : ∀ s ∈ (shareOut budget pool).filter fun s => Bound.cap.missedBy s.1.limit s.2,
      s.1.limit.toNat - s.2 ≤ -1 := fun s hs => by
    have := (List.mem_filter.mp hs).2
    rw [Bound.missedBy, decide_eq_true_eq] at this
    omega
  have hmore := le_length_mul hmissed
  have hothers : 0 ≤ shareTotal ((shareOut budget pool).filter fun s => !Bound.cap.missedBy s.1.limit s.2) :=
    List.sum_nonneg fun n hn => by
      obtain ⟨s, hs, rfl⟩ := List.mem_map.mp hn
      exact h.share_nonneg (List.mem_of_mem_filter hs)
  rw [missing]
  omega

/-- No cap takes more than there is. -/
theorem spendAll_eq (h : UnderCaps budget pool) (hsome : ¬(missing .cap (shareOut budget pool)).isEmpty = true) :
    Bound.cap.spendAll budget (missing .cap (shareOut budget pool)) =
      budget - limitTotal (missing .cap (shareOut budget pool)) := by
  rw [spendAll_cap h.low, max_eq_right (h.sub_limitTotal_nonneg hsome)]

theorem next (h : UnderCaps budget pool) (hsome : ¬(missing .cap (shareOut budget pool)).isEmpty = true) :
    UnderCaps (Bound.cap.spendAll budget (missing .cap (shareOut budget pool)))
      (keeping .cap (shareOut budget pool)) := by
  have hratios := ratioTotal_missing_add_keeping .cap budget pool
  have hleft := h.sub_limitTotal_nonneg hsome
  obtain ⟨h1, h2, h3, hpositive⟩ := id h
  rw [h.spendAll_eq hsome]
  exact ⟨by omega, hleft, by omega, fun entrant hmem => hpositive entrant (mem_pool_of_mem_keeping hmem)⟩

theorem share_le_limit (h : (missing .cap (shareOut budget pool)).isEmpty = true) {s : Entrant × Int}
    (hs : s ∈ shareOut budget pool) : s.2 ≤ s.1.limit.toNat := by
  have := missing_isEmpty_iff.mp h s hs
  rw [Bound.missedBy, decide_eq_true_eq] at this
  omega

/-- The shares of the last round are counts. -/
theorem share_mem (h : UnderCaps budget pool) (hnone : (missing .cap (shareOut budget pool)).isEmpty = true)
    {s : Entrant × Int} (hs : s ∈ shareOut budget pool) : 0 ≤ s.2 ∧ s.2 ≤ Cells.most := by
  have hle := share_le_limit hnone hs
  have hmost := Cells.toNat_le_most s.1.limit
  exact ⟨h.share_nonneg hs, by omega⟩

/-- The last round gives each slot its share. -/
theorem last (h : UnderCaps budget pool) (hnone : (missing .cap (shareOut budget pool)).isEmpty = true) :
    Capped budget pool ((shareOut budget pool).map fun s => (s.1, Cells.nearest s.2)) := by
  have hmem : ∀ s ∈ shareOut budget pool, 0 ≤ s.2 ∧ s.2 ≤ Cells.most := fun _ hs => h.share_mem hnone hs
  refine ⟨?_, ?_⟩
  · intro x hx
    obtain ⟨s, hs, rfl⟩ := List.mem_map.mp hx
    have hle := share_le_limit hnone hs
    rw [← Cells.nearest_of_mem (hmem s hs).1 (hmem s hs).2] at hle
    exact UInt64.le_iff_toNat_le.mpr (Int.ofNat_le.mp hle)
  · have hcaps : shareTotal (shareOut budget pool) ≤ limitTotal pool := by
      have hle := length_mul_le fun s hs => sub_nonneg_of_le (share_le_limit hnone (s := s) hs)
      rw [map_fst_shareOut] at hle
      omega
    rw [sizeTotal_nearest hmem]
    rcases eq_or_ne pool [] with rfl | hne
    · exact (min_eq_right h.low).symm
    · rw [h.shareTotal_eq hne] at hcaps ⊢
      exact (min_eq_left hcaps).symm

end UnderCaps

/-- A round that pins slots at their caps keeps what the rounds after it give. -/
theorem UnderCaps.pin {budget : Int} {pool : List Entrant} (h : UnderCaps budget pool)
    (hsome : ¬(missing .cap (shareOut budget pool)).isEmpty = true) {later : List (Entrant × Cells)}
    (hlater : Capped (Bound.cap.spendAll budget (missing .cap (shareOut budget pool)))
      (keeping .cap (shareOut budget pool)) later) :
    Capped budget pool
      ((missing .cap (shareOut budget pool)).map (fun entrant => (entrant, entrant.limit)) ++ later) where
  le_limit := by
    intro x hx
    rcases List.mem_append.mp hx with hx | hx
    · obtain ⟨entrant, -, rfl⟩ := List.mem_map.mp hx
      exact UInt64.le_refl _
    · exact hlater.le_limit x hx
  total := by
    have hlimits := limitTotal_missing_add_keeping .cap budget pool
    rw [sizeTotal_append, sizeTotal_limits, Nat.cast_add, hlater.total, h.spendAll_eq hsome]
    omega

/-- A budget that the caps cannot hold fills all of them. -/
theorem Capped.eq_limit {budget : Int} {pool : List Entrant} {outcomes : List (Entrant × Cells)}
    (h : Capped budget pool outcomes) (hperm : (outcomes.map (·.1)).Perm pool) (hbudget : limitTotal pool ≤ budget) :
    ∀ x ∈ outcomes, x.2 = x.1.limit := by
  have htotal := h.total
  have hlimits : Cells.total (outcomes.map fun x => x.1.limit) = limitTotal pool := by
    rw [limitTotal, ← Cells.total_perm (hperm.map _), List.map_map]
    rfl
  have hreach : Cells.total (outcomes.map fun x => x.1.limit) ≤ Cells.total (outcomes.map (·.2)) := by
    rw [hlimits]
    rw [sizeTotal] at htotal
    omega
  exact Cells.eq_of_total_map_le h.le_limit hreach

theorem UnderCaps.settle {budget : Int} {pool : List Entrant} (h : UnderCaps budget pool) :
    Capped budget pool (settle .cap budget pool).outcomes := by
  induction budget, pool using settle.induct .cap with
  | case1 budget pool shared pinned hnone =>
    rw [outcomes_settle_of_isEmpty hnone]
    exact h.last hnone
  | case2 budget pool shared pinned hsome ih =>
    rw [outcomes_settle_of_not_isEmpty hsome]
    exact h.pin hsome (ih (h.next hsome))

/-! ### Allotments with greatest sizes -/

/-- An element that is kept comes after those kept before it. -/
theorem getElem?_filter_countP {α : Type} {p : α → Bool} {l : List α} {i : Nat} {a : α} (h : l[i]? = some a)
    (ha : p a = true) : (l.filter p)[(l.take i).countP p]? = some a := by
  induction l generalizing i with
  | nil => cases h
  | cons first l ih =>
    cases i with
    | zero =>
      cases h
      rw [List.filter_cons_of_pos ha]
      rfl
    | succ i =>
      rw [List.take_succ_cons, List.countP_cons, List.filter_cons]
      split
      · exact ih h
      · exact ih h

/-- The slots of a positive ratio. -/
def takers (ratios maximums : List Cells) : List Entrant :=
  (entrants ratios maximums).filter fun entrant => 0 < entrant.ratio

section Takers
variable {budget : Nat} {ratios maximums values : List Cells}

theorem mem_takers {entrant : Entrant} :
    entrant ∈ takers ratios maximums ↔
      (ratios.zip maximums)[entrant.place]? = some (entrant.ratio, entrant.limit) ∧ 0 < entrant.ratio := by
  rw [takers, List.mem_filter, mem_entrants, decide_eq_true_eq]

theorem nodup_place_takers (h : maximums.length = ratios.length) : ((takers ratios maximums).map (·.place)).Nodup :=
  (nodup_place_entrants h).sublist (List.filter_sublist.map _)

theorem place_lt_of_mem_takers (h : maximums.length = ratios.length) {entrant : Entrant}
    (hmem : entrant ∈ takers ratios maximums) : entrant.place < ratios.length :=
  place_lt_of_mem_entrants h (List.mem_of_mem_filter hmem)

theorem ratioTotal_filter_pos (pool : List Entrant) :
    ratioTotal (pool.filter fun entrant => 0 < entrant.ratio) = ratioTotal pool := by
  rw [ratioTotal, ratioTotal, ← Cells.total_filter_pos (pool.map (·.ratio)), List.filter_map]
  rfl

theorem ratioTotal_takers (h : maximums.length = ratios.length) :
    ratioTotal (takers ratios maximums) = Cells.total ratios := by
  rw [takers, ratioTotal_filter_pos, ratioTotal, map_ratio_entrants h]

theorem underCaps_takers (hlength : maximums.length = ratios.length)
    (hratios : (Cells.total ratios : Int) ≤ Wide.greatest) (hbudget : budget ≤ Cells.most) :
    UnderCaps budget (takers ratios maximums) where
  ratios := by rwa [ratioTotal_takers hlength]
  low := Int.natCast_nonneg budget
  high := Int.ofNat_le.mpr hbudget
  positive := fun _ hmem => (mem_takers.mp hmem).2

/-- A slot of a positive ratio has an outcome, which is its size. -/
theorem exists_outcome_cappedSizes (budget : Nat) (hlength : maximums.length = ratios.length)
    (hvalues : values.length = ratios.length) {i : Nat} {ratio maximum : Cells} (hratio : ratios[i]? = some ratio)
    (hpos : 0 < ratio) (hmaximum : maximums[i]? = some maximum) :
    ∃ size, (⟨i, ratio, maximum⟩, size) ∈ (settle .cap budget (takers ratios maximums)).outcomes ∧
      (cappedSizes budget ratios maximums values).value[i]? = some size := by
  have hmem : (⟨i, ratio, maximum⟩ : Entrant) ∈ takers ratios maximums :=
    mem_takers.mpr ⟨List.getElem?_zip_eq_some.mpr ⟨hratio, hmaximum⟩, hpos⟩
  refine exists_outcome .cap budget (nodup_place_takers hlength) hmem ?_
  rw [hvalues]
  exact place_lt_of_mem_takers hlength hmem

/-- What stands at the place of a slot of a positive ratio is its outcome. -/
theorem mem_outcomes_of_getElem?_cappedSizes (hlength : maximums.length = ratios.length)
    (hvalues : values.length = ratios.length) {i : Nat} {ratio size : Cells} (hratio : ratios[i]? = some ratio)
    (hpos : 0 < ratio) (hsize : (cappedSizes budget ratios maximums values).value[i]? = some size) :
    ∃ maximum, maximums[i]? = some maximum ∧
      (⟨i, ratio, maximum⟩, size) ∈ (settle .cap budget (takers ratios maximums)).outcomes := by
  obtain ⟨hi, -⟩ := List.getElem?_eq_some_iff.mp hratio
  have hmaximum : maximums[i]? = some maximums[i] := List.getElem?_eq_getElem (hlength ▸ hi)
  obtain ⟨size', hmem, hsize'⟩ := exists_outcome_cappedSizes budget hlength hvalues hratio hpos hmaximum
  rw [hsize] at hsize'
  cases hsize'
  exact ⟨_, hmaximum, hmem⟩

theorem UnderCaps.cappedSizes_le (h : UnderCaps budget (takers ratios maximums))
    (hlength : maximums.length = ratios.length) (hvalues : values.length = ratios.length) {i : Nat}
    {ratio maximum size : Cells} (hratio : ratios[i]? = some ratio) (hpos : 0 < ratio)
    (hmaximum : maximums[i]? = some maximum)
    (hsize : (cappedSizes budget ratios maximums values).value[i]? = some size) : size ≤ maximum := by
  obtain ⟨maximum', hmaximum', hmem⟩ := mem_outcomes_of_getElem?_cappedSizes hlength hvalues hratio hpos hsize
  rw [hmaximum] at hmaximum'
  cases hmaximum'
  exact h.settle.le_limit _ hmem

theorem getElem?_cappedSizes_of_zero (budget : Nat) (maximums values : List Cells) {i : Nat}
    (hratio : ratios[i]? = some 0) : (cappedSizes budget ratios maximums values).value[i]? = values[i]? := by
  refine getElem?_sizes_of_not_mem fun hmem => ?_
  obtain ⟨entrant, hentrant, rfl⟩ := List.mem_map.mp hmem
  obtain ⟨hzip, hpos⟩ := mem_takers.mp hentrant
  have hsame : ratios[entrant.place]? = some entrant.ratio := (List.getElem?_zip_eq_some.mp hzip).1
  rw [hratio] at hsame
  rw [← Option.some.inj hsame] at hpos
  cases hpos

end Takers

/-- An allotment with greatest sizes is refused only for lists of different lengths. -/
theorem allotAtMost_of_length (total : Cells) {ratios maximums values : List Cells}
    (hmaximums : maximums.length = ratios.length) (hvalues : values.length = ratios.length) :
    allotAtMost total ratios maximums values = .ok (cappedSizes total.toNat ratios maximums values) := by
  rw [allotAtMost, checkLength_eq_ok_iff.mpr hmaximums.symm, checkLength_eq_ok_iff.mpr hvalues.symm]
  rfl

theorem allotAtMost_eq_ok_iff {total : Cells} {ratios maximums values : List Cells} {allotted : Traced (List Cells)} :
    allotAtMost total ratios maximums values = .ok allotted ↔
      maximums.length = ratios.length ∧ values.length = ratios.length ∧
        allotted = cappedSizes total.toNat ratios maximums values := by
  constructor
  · intro h
    rw [allotAtMost] at h
    obtain ⟨⟨⟩, hmaximums, h⟩ := bind_eq_ok_iff.mp h
    obtain ⟨⟨⟩, hvalues, ⟨⟩⟩ := bind_eq_ok_iff.mp h
    exact ⟨(checkLength_eq_ok_iff.mp hmaximums).symm, (checkLength_eq_ok_iff.mp hvalues).symm, rfl⟩
  · rintro ⟨hmaximums, hvalues, rfl⟩
    exact allotAtMost_of_length total hmaximums hvalues

end Allotment
