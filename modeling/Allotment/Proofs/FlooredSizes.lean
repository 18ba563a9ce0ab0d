import Allotment.Allot
import Allotment.Proofs.Settlement

/-! Allotments with least sizes. No slot goes below its minimum, one of ratio 0 has exactly its minimum, and the sizes
    add up to the total or to the minimums, whichever is more. A round that pins slots keeps what this rests on: the
    floors that were missed exceed the shares in their place, so that the other slots never have more to share than
    their shares. An allotment is refused for lists of two lengths and for ratios none of which is positive, and for
    nothing else. -/

namespace Allotment

/-! ### Lists in memory -/

/-- The most counts that a list can hold: each takes eight bytes, and a memory of signed 64-bit offsets has fewer
    than `2 ^ 63`. -/
def mostEntries : Nat := 0x1000000000000000

theorem Cells.total_le_mul (counts : List Cells) : total counts ≤ most * counts.length := by
  induction counts with
  | nil => exact Nat.le_refl _
  | cons count counts ih =>
    have := toNat_le_most count
    rw [total_cons, List.length_cons, Nat.mul_succ]
    omega

theorem Cells.total_le_of_length {counts : List Cells} (h : counts.length ≤ mostEntries) :
    total counts ≤ most * mostEntries :=
  (total_le_mul counts).trans (Nat.mul_le_mul_left _ h)

/-- Counts that reach those of another list place by place, and do not exceed them in total, are the same. -/
theorem Cells.eq_of_total_le {a b : List Cells} (hlength : a.length = b.length)
    (hle : ∀ (i : Nat) (x y : Cells), a[i]? = some x → b[i]? = some y → x ≤ y) (htotal : total b ≤ total a) : b = a := by
  have hfst : (a.zip b).map Prod.fst = a := List.map_fst_zip hlength.le
  have hsnd : (a.zip b).map Prod.snd = b := List.map_snd_zip hlength.ge
  have hle' : ∀ z ∈ a.zip b, z.1 ≤ z.2 := fun z hz => by
    obtain ⟨i, hi⟩ := List.mem_iff_getElem?.mp hz
    obtain ⟨hx, hy⟩ := List.getElem?_zip_eq_some.mp hi
    exact hle i z.1 z.2 hx hy
  have heq := eq_of_total_map_le hle' (by rwa [hfst, hsnd])
  calc
    b = (a.zip b).map Prod.snd := hsnd.symm
    _ = (a.zip b).map Prod.fst := List.map_congr_left fun z hz => (heq z hz).symm
    _ = a := hfst

/-! ### Under floors -/

/-- What every round under floors finds. The budget may be a deficit, and floors may make it a greater one: what is
    left of the range does for them. If no slot has a positive ratio the floors take all of the budget. -/
structure UnderFloors (budget : Int) (pool : List Entrant) : Prop where
  ratios : (ratioTotal pool : Int) ≤ Wide.greatest
  low : Wide.least + ratioTotal pool + limitTotal pool ≤ budget + 1
  high : budget ≤ Cells.most
  cover : 0 < ratioTotal pool ∨ budget ≤ limitTotal pool

/-- What a settlement under floors gives. -/
structure Floored (budget : Int) (pool : List Entrant) (outcomes : List (Entrant × Cells)) : Prop where
  limit_le : ∀ x ∈ outcomes, x.1.limit ≤ x.2
  of_ratio_zero : ∀ x ∈ outcomes, x.1.ratio = 0 → x.2 = x.1.limit
  total : (sizeTotal outcomes : Int) = max budget (limitTotal pool)

theorem spendAll_floor (budget : Int) (pinned : List Entrant) :
    Bound.floor.spendAll budget pinned = budget - limitTotal pinned := by
  induction pinned generalizing budget with
  | nil => simp [Bound.spendAll]
  | cons entrant pinned ih =>
    have := ih (budget - entrant.limit.toNat)
    rw [Bound.spendAll] at this ⊢
    rw [List.foldl_cons, Bound.spend, this, limitTotal_cons]
    omega

namespace UnderFloors
variable {budget : Int} {pool : List Entrant}

theorem inRange (h : UnderFloors budget pool) (hpos : 0 < ratioTotal pool) :
    LargestRemainder.InRange budget (ratioTotal pool) where
  sum_pos := hpos
  sum_le := h.ratios
  low := by
    have := h.low
    omega
  high := h.high.trans (by decide)

/-- Slots that missed their floors leave less to share than the shares of the others. -/
theorem spendAll_lt (h : UnderFloors budget pool) (hpos : 0 < ratioTotal pool)
    (hsome : ¬(missing .floor (shareOut budget pool)).isEmpty = true) :
    Bound.floor.spendAll budget (missing .floor (shareOut budget pool)) <
      shareTotal ((shareOut budget pool).filter fun s => !Bound.floor.missedBy s.1.limit s.2) := by
  have hsum := shareTotal_filter_add (fun s => Bound.floor.missedBy s.1.limit s.2) (shareOut budget pool)
  rw [shareTotal_shareOut (h.inRange hpos)] at hsum
  have hmissed : ∀ s ∈ (shareOut budget pool).filter fun s => Bound.floor.missedBy s.1.limit s.2,
      1 ≤ s.1.limit.toNat - s.2 := fun s hs => by
    have := (List.mem_filter.mp hs).2
    rw [Bound.missedBy, decide_eq_true_eq] at this
    omega
  have hless := length_mul_le hmissed
  rw [missing, List.isEmpty_map, List.isEmpty_iff_length_eq_zero] at hsome
  rw [spendAll_floor, missing]
  omega

/-- If none of the slots left over has a positive ratio they have no shares, and so no claim to the budget. -/
theorem next (h : UnderFloors budget pool)
    (hsome : ¬(missing .floor (shareOut budget pool)).isEmpty = true) :
    UnderFloors (Bound.floor.spendAll budget (missing .floor (shareOut budget pool)))
      (keeping .floor (shareOut budget pool)) := by
  have hratios := ratioTotal_missing_add_keeping .floor budget pool
  have hlimits := limitTotal_missing_add_keeping .floor budget pool
  have hspent := spendAll_floor budget (missing .floor (shareOut budget pool))
  obtain ⟨h1, h2, h3, hcover⟩ := id h
  refine ⟨by omega, by omega, by omega, ?_⟩
  rcases Nat.eq_zero_or_pos (ratioTotal (keeping .floor (shareOut budget pool))) with hzero | hpos'
  · right
    rcases hcover with hpos | hle
    -- The slots that stay have no shares, so those pinned had the whole budget and still missed their floors.
    · have hless := h.spendAll_lt hpos hsome
      have hshares : ∀ s ∈ (shareOut budget pool).filter fun s => !Bound.floor.missedBy s.1.limit s.2, s.2 = 0 := by
        intro s hs
        have hle : s.1.ratio.toNat ≤ ratioTotal (keeping .floor (shareOut budget pool)) :=
          ratio_le_ratioTotal (List.mem_map_of_mem hs)
        refine share_eq_zero_of_ratio h.inRange (List.mem_of_mem_filter hs) (UInt64.toNat_inj.mp ?_)
        exact Nat.le_zero.mp (hzero ▸ hle)
      rw [shareTotal_eq_zero hshares] at hless
      omega
    · omega
  · exact Or.inl hpos'

theorem limit_le_share (h : (missing .floor (shareOut budget pool)).isEmpty = true) {s : Entrant × Int}
    (hs : s ∈ shareOut budget pool) : (s.1.limit.toNat : Int) ≤ s.2 := by
  have := missing_isEmpty_iff.mp h s hs
  rw [Bound.missedBy, decide_eq_true_eq] at this
  omega

/-- Without a positive ratio all shares are 0, and so are the floors that they keep to. -/
theorem shareTotal_last (h : UnderFloors budget pool)
    (hnone : (missing .floor (shareOut budget pool)).isEmpty = true) :
    shareTotal (shareOut budget pool) = max budget (limitTotal pool) ∧
      shareTotal (shareOut budget pool) ≤ Cells.most := by
  have hfloors : (limitTotal pool : Int) ≤ shareTotal (shareOut budget pool) := by
    have hle := le_length_mul fun s hs => sub_nonpos_of_le (limit_le_share hnone (s := s) hs)
    rw [map_fst_shareOut] at hle
    omega
  have hmost : (0 : Int) ≤ Cells.most := Int.natCast_nonneg _
  have hcover := h.cover
  have hhigh := h.high
  rcases Nat.eq_zero_or_pos (ratioTotal pool) with hzero | hpos
  · have hshares : shareTotal (shareOut budget pool) = 0 :=
      shareTotal_eq_zero fun s hs => share_eq_zero_of_ratioTotal hzero hs
    omega
  · have hshares := shareTotal_shareOut (h.inRange hpos)
    omega

/-- The shares of the last round are counts. -/
theorem share_mem (h : UnderFloors budget pool) (hnone : (missing .floor (shareOut budget pool)).isEmpty = true)
    {s : Entrant × Int} (hs : s ∈ shareOut budget pool) : 0 ≤ s.2 ∧ s.2 ≤ Cells.most := by
  have hnonneg : ∀ s ∈ shareOut budget pool, 0 ≤ s.2 := fun s hs =>
    (Int.natCast_nonneg _).trans (limit_le_share hnone hs)
  exact ⟨hnonneg s hs, (share_le_shareTotal hnonneg hs).trans (h.shareTotal_last hnone).2⟩

/-- The last round gives each slot its share. -/
theorem last (h : UnderFloors budget pool) (hnone : (missing .floor (shareOut budget pool)).isEmpty = true) :
    Floored budget pool ((shareOut budget pool).map fun s => (s.1, Cells.nearest s.2)) := by
  have hmem : ∀ s ∈ shareOut budget pool, 0 ≤ s.2 ∧ s.2 ≤ Cells.most := fun _ hs => h.share_mem hnone hs
  have hsize : ∀ s ∈ shareOut budget pool, ((Cells.nearest s.2).toNat : Int) = s.2 := fun s hs =>
    Cells.nearest_of_mem (hmem s hs).1 (hmem s hs).2
  refine ⟨?_, ?_, ?_⟩
  · intro x hx
    obtain ⟨s, hs, rfl⟩ := List.mem_map.mp hx
    have hle := limit_le_share hnone hs
    rw [← hsize s hs] at hle
    exact UInt64.le_iff_toNat_le.mpr (Int.ofNat_le.mp hle)
  · intro x hx hratio
    obtain ⟨s, hs, rfl⟩ := List.mem_map.mp hx
    have hle := limit_le_share hnone hs
    have heq := hsize s hs
    rw [share_eq_zero_of_ratio h.inRange hs hratio] at hle heq
    refine UInt64.toNat_inj.mp ?_
    dsimp only at hle heq ⊢
    rw [share_eq_zero_of_ratio h.inRange hs hratio]
    omega
  · rw [sizeTotal_nearest hmem]
    exact (h.shareTotal_last hnone).1

end UnderFloors

/-- A round that pins slots at their floors keeps what the rounds after it give. -/
theorem Floored.pin {budget : Int} {pool : List Entrant} {later : List (Entrant × Cells)}
    (h : Floored (Bound.floor.spendAll budget (missing .floor (shareOut budget pool)))
      (keeping .floor (shareOut budget pool)) later) :
    Floored budget pool
      ((missing .floor (shareOut budget pool)).map (fun entrant => (entrant, entrant.limit)) ++ later) where
  limit_le := by
    intro x hx
    rcases List.mem_append.mp hx with hx | hx
    · obtain ⟨entrant, -, rfl⟩ := List.mem_map.mp hx
      exact UInt64.le_refl _
    · exact h.limit_le x hx
  of_ratio_zero := by
    intro x hx hratio
    rcases List.mem_append.mp hx with hx | hx
    · obtain ⟨entrant, -, rfl⟩ := List.mem_map.mp hx
      rfl
    · exact h.of_ratio_zero x hx hratio
  total := by
    have hlimits := limitTotal_missing_add_keeping .floor budget pool
    rw [sizeTotal_append, sizeTotal_limits, Nat.cast_add, h.total, spendAll_floor]
    omega

theorem UnderFloors.settle {budget : Int} {pool : List Entrant} (h : UnderFloors budget pool) :
    Floored budget pool (settle .floor budget pool).outcomes := by
  induction budget, pool using settle.induct .floor with
  | case1 budget pool shared pinned hnone =>
    rw [outcomes_settle_of_isEmpty hnone]
    exact h.last hnone
  | case2 budget pool shared pinned hsome ih =>
    rw [outcomes_settle_of_not_isEmpty hsome]
    exact (ih (h.next hsome)).pin

/-! ### Sizes above floors -/

/-- The sizes keep to their floors, and what the floors leave of the budget is shared out. -/
structure KeepsFloors (budget : Int) (ratios minimums sizes : List Cells) : Prop where
  length : sizes.length = ratios.length
  minimum_le : ∀ (i : Nat) (minimum size : Cells), minimums[i]? = some minimum → sizes[i]? = some size →
    minimum ≤ size
  of_ratio_zero : ∀ i : Nat, ratios[i]? = some 0 → sizes[i]? = minimums[i]?
  total : (Cells.total sizes : Int) = max budget (Cells.total minimums)

section Floors
variable {budget : Int} {ratios minimums : List Cells}

theorem ratioTotal_entrants (h : minimums.length = ratios.length) :
    ratioTotal (entrants ratios minimums) = Cells.total ratios := by
  rw [ratioTotal, map_ratio_entrants h]

theorem limitTotal_entrants (h : minimums.length = ratios.length) :
    limitTotal (entrants ratios minimums) = Cells.total minimums := by
  rw [limitTotal, map_limit_entrants h]

theorem total_pos_of_mem {ratio : Cells} (hmem : ratio ∈ ratios) (hpos : 0 < ratio) : 0 < Cells.total ratios :=
  Nat.lt_of_lt_of_le (UInt64.lt_iff_toNat_lt.mp hpos) (LargestRemainder.toNat_le_total hmem)

/-- A deficit that a list of counts in memory can make leaves room for the ratios and the minimums. -/
theorem underFloors_entrants (hlength : minimums.length = ratios.length) (hentries : ratios.length ≤ mostEntries)
    (hpos : ∃ ratio ∈ ratios, 0 < ratio) (hlow : -(Cells.most * mostEntries : Nat) ≤ budget)
    (hhigh : budget ≤ Cells.most) : UnderFloors budget (entrants ratios minimums) := by
  have hratios := Cells.total_le_of_length hentries
  have hminimums := Cells.total_le_of_length (hlength ▸ hentries)
  obtain ⟨ratio, hmem, hratio⟩ := hpos
  -- The ratios, the minimums and the deficit each take at most a third of the range below 0.
  have hroom : Wide.least + (3 * (Cells.most * mostEntries) : Nat) ≤ 0 := by decide
  have hroom' : ((Cells.most * mostEntries : Nat) : Int) ≤ Wide.greatest := by decide
  constructor
  · rw [ratioTotal_entrants hlength]
    omega
  · rw [ratioTotal_entrants hlength, limitTotal_entrants hlength]
    omega
  · exact hhigh
  · rw [ratioTotal_entrants hlength]
    exact Or.inl (total_pos_of_mem hmem hratio)

theorem underFloors_total (total : Cells) (hlength : minimums.length = ratios.length)
    (hentries : ratios.length ≤ mostEntries) (hpos : ∃ ratio ∈ ratios, 0 < ratio) :
    UnderFloors total.toNat (entrants ratios minimums) := by
  have hmost := Cells.toNat_le_most total
  exact underFloors_entrants hlength hentries hpos (by omega) (by omega)

theorem map_getD_range (counts : List Cells) : ((List.range counts.length).map fun i => counts.getD i 0) = counts := by
  apply List.ext_getElem
  · rw [List.length_map, List.length_range]
  · intro i _ hi
    rw [List.getElem_map, List.getElem_range, List.getD_eq_getElem _ _ hi]

/-- Each place of a row has an outcome, which is its size. -/
theorem exists_outcome_flooredSizes (budget : Int) (hlength : minimums.length = ratios.length) {i : Nat}
    {ratio minimum : Cells} (hratio : ratios[i]? = some ratio) (hminimum : minimums[i]? = some minimum) :
    ∃ size, (⟨i, ratio, minimum⟩, size) ∈ (settle .floor budget (entrants ratios minimums)).outcomes ∧
      (flooredSizes budget ratios minimums).value[i]? = some size := by
  have hmem : (⟨i, ratio, minimum⟩ : Entrant) ∈ entrants ratios minimums :=
    mem_entrants.mpr (List.getElem?_zip_eq_some.mpr ⟨hratio, hminimum⟩)
  refine exists_outcome .floor budget (nodup_place_entrants hlength) hmem ?_
  rw [List.length_map]
  exact place_lt_of_mem_entrants hlength hmem

/-- What stands at the place of a slot is its outcome. -/
theorem mem_outcomes_of_getElem? (hlength : minimums.length = ratios.length) {i : Nat} {ratio size : Cells}
    (hratio : ratios[i]? = some ratio) (hsize : (flooredSizes budget ratios minimums).value[i]? = some size) :
    ∃ minimum, minimums[i]? = some minimum ∧
      (⟨i, ratio, minimum⟩, size) ∈ (settle .floor budget (entrants ratios minimums)).outcomes := by
  obtain ⟨hi, -⟩ := List.getElem?_eq_some_iff.mp hratio
  have hminimum : minimums[i]? = some minimums[i] := List.getElem?_eq_getElem (hlength ▸ hi)
  obtain ⟨size', hmem, hsize'⟩ := exists_outcome_flooredSizes budget hlength hratio hminimum
  rw [hsize] at hsize'
  cases hsize'
  exact ⟨_, hminimum, hmem⟩

theorem total_flooredSizes (hlength : minimums.length = ratios.length) :
    Cells.total (flooredSizes budget ratios minimums).value =
      sizeTotal (settle .floor budget (entrants ratios minimums)).outcomes := by
  have hall := map_getD_range (flooredSizes budget ratios minimums).value
  rw [length_flooredSizes, ← map_place_entrants hlength, List.map_map] at hall
  have htotal : Cells.total ((entrants ratios minimums).map fun entrant =>
        (flooredSizes budget ratios minimums).value.getD entrant.place 0) =
      sizeTotal (settle .floor budget (entrants ratios minimums)).outcomes :=
    total_sizes (nodup_place_entrants hlength) fun entrant hmem => by
      rw [List.length_map]
      exact place_lt_of_mem_entrants hlength hmem
  rw [← htotal]
  exact congrArg Cells.total hall.symm

theorem keepsFloors_flooredSizes (hlength : minimums.length = ratios.length)
    (h : UnderFloors budget (entrants ratios minimums)) :
    KeepsFloors budget ratios minimums (flooredSizes budget ratios minimums).value where
  length := length_flooredSizes budget ratios minimums
  minimum_le := by
    intro i minimum size hminimum hsize
    obtain ⟨hi, -⟩ := List.getElem?_eq_some_iff.mp hminimum
    have hratio : ratios[i]? = some ratios[i] := List.getElem?_eq_getElem (hlength ▸ hi)
    obtain ⟨size', hmem, hsize'⟩ := exists_outcome_flooredSizes budget hlength hratio hminimum
    rw [hsize] at hsize'
    cases hsize'
    exact h.settle.limit_le _ hmem
  of_ratio_zero := by
    intro i hratio
    obtain ⟨hi, -⟩ := List.getElem?_eq_some_iff.mp hratio
    have hminimum : minimums[i]? = some minimums[i] := List.getElem?_eq_getElem (hlength.symm ▸ hi)
    obtain ⟨size, hmem, hsize⟩ := exists_outcome_flooredSizes budget hlength hratio hminimum
    have heq := h.settle.of_ratio_zero _ hmem rfl
    exact hsize.trans ((congrArg some heq).trans hminimum.symm)
  total := by
    rw [total_flooredSizes hlength, h.settle.total, limitTotal_entrants hlength]

end Floors

/-! ### Allotments -/

theorem checkRatios_of_pos {ratios : List Cells} (h : ∃ ratio ∈ ratios, 0 < ratio) : checkRatios ratios = .ok () :=
  checkRatios_eq_ok_iff.mpr h

theorem checkRatios_of_zero {ratios : List Cells} (h : ∀ ratio ∈ ratios, ratio = 0) :
    checkRatios ratios = .error (.zeroRatioSum ratios.length) := by
  rw [checkRatios, if_neg]
  rw [List.any_eq_true]
  rintro ⟨ratio, hmem, hpos⟩
  rw [h ratio hmem] at hpos
  cases hpos

/-- The minimums of an allotment, all 0 where none are given. -/
def floorsOf (ratios : List Cells) (minimums : Option (List Cells)) : List Cells :=
  minimums.getD (ratios.map fun _ => 0)

theorem allotAtLeast_eq (total : Cells) (ratios : List Cells) (minimums : Option (List Cells)) :
    allotAtLeast total ratios minimums =
      (checkLength "minimums" ratios.length (floorsOf ratios minimums).length).bind fun _ =>
        (checkRatios ratios).bind fun _ => .ok (flooredSizes total.toNat ratios (floorsOf ratios minimums)) := by
  cases minimums with
  | none =>
    have hlength : checkLength "minimums" ratios.length (floorsOf ratios none).length = .ok () :=
      checkLength_eq_ok_iff.mpr (List.length_map _).symm
    rw [hlength]
    rfl
  | some minimums => rfl

theorem allotAtLeast_eq_ok_iff {total : Cells} {ratios : List Cells} {minimums : Option (List Cells)}
    {allotted : Traced (List Cells)} :
    allotAtLeast total ratios minimums = .ok allotted ↔
      (floorsOf ratios minimums).length = ratios.length ∧ (∃ ratio ∈ ratios, 0 < ratio) ∧
        allotted = flooredSizes total.toNat ratios (floorsOf ratios minimums) := by
  rw [allotAtLeast_eq]
  constructor
  · intro h
    obtain ⟨⟨⟩, hlength, h⟩ := bind_eq_ok_iff.mp h
    obtain ⟨⟨⟩, hratios, ⟨⟩⟩ := bind_eq_ok_iff.mp h
    exact ⟨(checkLength_eq_ok_iff.mp hlength).symm, checkRatios_eq_ok_iff.mp hratios, rfl⟩
  · rintro ⟨hlength, hpos, rfl⟩
    rw [checkLength_eq_ok_iff.mpr hlength.symm, checkRatios_of_pos hpos]
    rfl

/-- Every allotment with least sizes fills the total, or overflows it by what the minimums need. -/
theorem allotAtLeast_fills (total : Cells) (ratios : List Cells) (minimums : Option (List Cells))
    (hentries : ratios.length ≤ mostEntries) :
    ((floorsOf ratios minimums).length ≠ ratios.length → allotAtLeast total ratios minimums =
      .error (.lengthMismatch "minimums" ratios.length (floorsOf ratios minimums).length)) ∧
    ((floorsOf ratios minimums).length = ratios.length → (∀ ratio ∈ ratios, ratio = 0) →
      allotAtLeast total ratios minimums = .error (.zeroRatioSum ratios.length)) ∧
    ((floorsOf ratios minimums).length = ratios.length → (∃ ratio ∈ ratios, 0 < ratio) →
      ∃ allotted, allotAtLeast total ratios minimums = .ok allotted ∧
        allotted.value.length = ratios.length ∧
        (∀ (i : Nat) (minimum size : Cells), (floorsOf ratios minimums)[i]? = some minimum →
          allotted.value[i]? = some size → minimum ≤ size) ∧
        (∀ i : Nat, ratios[i]? = some 0 → allotted.value[i]? = (floorsOf ratios minimums)[i]?) ∧
        Cells.total allotted.value = max total.toNat (Cells.total (floorsOf ratios minimums)) ∧
        (total.toNat ≤ Cells.total (floorsOf ratios minimums) → allotted.value = floorsOf ratios minimums)) := by
  rw [allotAtLeast_eq]
  refine ⟨fun hne => ?_, fun hlength hzero => ?_, fun hlength hpos => ?_⟩
  · rw [checkLength, if_neg (Ne.symm hne)]
    rfl
  · rw [checkLength_eq_ok_iff.mpr hlength.symm, checkRatios_of_zero hzero]
    rfl
  · have hmost := Cells.toNat_le_most total
    have hunder : UnderFloors total.toNat (entrants ratios (floorsOf ratios minimums)) :=
      underFloors_entrants hlength hentries hpos (by omega) (by omega)
    have h := keepsFloors_flooredSizes hlength hunder
    have htotal := h.total
    rw [checkLength_eq_ok_iff.mpr hlength.symm, checkRatios_of_pos hpos]
    refine ⟨_, rfl, h.length, h.minimum_le, h.of_ratio_zero, by omega, fun hle => ?_⟩
    exact Cells.eq_of_total_le (hlength.trans h.length.symm) h.minimum_le (by omega)

/-- Two rounds pin a slot each, and the third slot takes what is left. -/
theorem allotAtLeast_fills_ten :
    [1, 1, 1].length ≤ mostEntries ∧ ∃ allotted, allotAtLeast 10 [1, 1, 1] (some [4, 4, 0]) = .ok allotted ∧
      allotted.value.length = 3 ∧ Cells.total allotted.value = 10 := by
  refine ⟨by decide, ?_⟩
  obtain ⟨allotted, hok, hlength, -, -, htotal, -⟩ :=
    (allotAtLeast_fills 10 [1, 1, 1] (some [4, 4, 0]) (by decide)).2.2 rfl ⟨1, by decide, by decide⟩
  exact ⟨allotted, hok, hlength, htotal.trans (by decide)⟩

end Allotment
