import Allotment.Rounds
import Allotment.Proofs.LargestRemainder

/-! What the rounds give out. A round shares its budget out, and tells the slots whose shares miss their bounds from
    those whose shares keep to them. Over all rounds each slot of the pool ends with one size, which is its bound or
    its last share, and which it finds at its place among the sizes. -/

namespace Allotment

/-! ### Totals -/

namespace Cells

theorem total_eq_sum (counts : List Cells) : total counts = (counts.map (·.toNat)).sum := by
  induction counts with
  | nil => rfl
  | cons count counts ih => rw [total_cons, ih, List.map_cons, List.sum_cons]

theorem total_append (a b : List Cells) : total (a ++ b) = total a + total b := by
  rw [total_eq_sum, total_eq_sum, total_eq_sum, List.map_append, List.sum_append]

theorem total_perm {a b : List Cells} (h : a.Perm b) : total a = total b := by
  rw [total_eq_sum, total_eq_sum]
  exact (h.map _).sum_eq

theorem total_map_le {α : Type} {l : List α} {f g : α → Cells} (h : ∀ x ∈ l, f x ≤ g x) :
    total (l.map f) ≤ total (l.map g) := by
  induction l with
  | nil => exact Nat.le_refl _
  | cons x l ih =>
    exact Nat.add_le_add (UInt64.le_iff_toNat_le.mp (h x List.mem_cons_self))
      (ih fun y hy => h y (List.mem_cons_of_mem _ hy))

/-- Counts that do not exceed some others one by one, and reach them in total, are the same. -/
theorem eq_of_total_map_le {α : Type} {l : List α} {f g : α → Cells} (h : ∀ x ∈ l, f x ≤ g x)
    (htotal : total (l.map g) ≤ total (l.map f)) : ∀ x ∈ l, f x = g x := by
  induction l with
  | nil => exact fun x hx => nomatch hx
  | cons first l ih =>
    have hfirst := UInt64.le_iff_toNat_le.mp (h first List.mem_cons_self)
    have hrest := total_map_le fun x hx => h x (List.mem_cons_of_mem _ hx)
    rw [List.map_cons, List.map_cons, total_cons, total_cons] at htotal
    intro x hx
    rcases List.mem_cons.mp hx with rfl | hx
    · exact UInt64.toNat_inj.mp (by omega)
    · exact ih (fun y hy => h y (List.mem_cons_of_mem _ hy)) (by omega) x hx

/-- Counts of 0 add nothing to a sum in which 0 has no weight. -/
theorem sum_map_filter_pos {f : Cells → Nat} (h : f 0 = 0) (counts : List Cells) :
    ((counts.filter (0 < ·)).map f).sum = (counts.map f).sum := by
  induction counts with
  | nil => rfl
  | cons count counts ih =>
    rw [List.filter_cons, List.map_cons, List.sum_cons]
    split
    · rw [List.map_cons, List.sum_cons, ih]
    · rename_i hzero
      rw [decide_eq_true_eq, UInt64.pos_iff_ne_zero, not_not] at hzero
      rw [ih, hzero, h, Nat.zero_add]

theorem total_filter_pos (counts : List Cells) : total (counts.filter (0 < ·)) = total counts := by
  rw [total_eq_sum, total_eq_sum, sum_map_filter_pos rfl]

theorem nearest_of_mem {n : Int} (h0 : 0 ≤ n) (h : n ≤ most) : ((nearest n).toNat : Int) = n := by
  rw [toNat_nearest]
  omega

end Cells

/-- The sum of the ratios of some slots. -/
def ratioTotal (pool : List Entrant) : Nat := Cells.total (pool.map (·.ratio))

/-- The sum of the bounds of some slots. -/
def limitTotal (pool : List Entrant) : Nat := Cells.total (pool.map (·.limit))

/-- The sum of the shares of some slots. -/
def shareTotal (shared : List (Entrant × Int)) : Int := (shared.map (·.2)).sum

/-- The sum of the sizes of some slots. -/
def sizeTotal (sized : List (Entrant × Cells)) : Nat := Cells.total (sized.map (·.2))

@[simp] theorem limitTotal_nil : limitTotal [] = 0 := rfl

@[simp] theorem shareTotal_nil : shareTotal [] = 0 := rfl

@[simp] theorem limitTotal_cons (entrant : Entrant) (pool : List Entrant) :
    limitTotal (entrant :: pool) = entrant.limit.toNat + limitTotal pool := rfl

@[simp] theorem ratioTotal_cons (entrant : Entrant) (pool : List Entrant) :
    ratioTotal (entrant :: pool) = entrant.ratio.toNat + ratioTotal pool := rfl

@[simp] theorem shareTotal_cons (s : Entrant × Int) (shared : List (Entrant × Int)) :
    shareTotal (s :: shared) = s.2 + shareTotal shared := rfl

theorem ratio_le_ratioTotal {pool : List Entrant} {entrant : Entrant} (h : entrant ∈ pool) :
    entrant.ratio.toNat ≤ ratioTotal pool :=
  LargestRemainder.toNat_le_total (List.mem_map_of_mem h)

theorem ratioTotal_pos {pool : List Entrant} (hratio : ∀ entrant ∈ pool, 0 < entrant.ratio) (hne : pool ≠ []) :
    0 < ratioTotal pool := by
  obtain ⟨entrant, hmem⟩ := List.exists_mem_of_ne_nil pool hne
  exact Nat.lt_of_lt_of_le (UInt64.lt_iff_toNat_lt.mp (hratio entrant hmem)) (ratio_le_ratioTotal hmem)

theorem limitTotal_append (a b : List Entrant) : limitTotal (a ++ b) = limitTotal a + limitTotal b := by
  rw [limitTotal, List.map_append, Cells.total_append, ← limitTotal, ← limitTotal]

theorem sizeTotal_append (a b : List (Entrant × Cells)) : sizeTotal (a ++ b) = sizeTotal a + sizeTotal b := by
  rw [sizeTotal, List.map_append, Cells.total_append]
  rfl

theorem sizeTotal_limits (pinned : List Entrant) :
    sizeTotal (pinned.map fun entrant => (entrant, entrant.limit)) = limitTotal pinned := by
  rw [sizeTotal, List.map_map]
  rfl

theorem sizeTotal_nearest {shared : List (Entrant × Int)} (h : ∀ s ∈ shared, 0 ≤ s.2 ∧ s.2 ≤ Cells.most) :
    (sizeTotal (shared.map fun s => (s.1, Cells.nearest s.2)) : Int) = shareTotal shared := by
  rw [sizeTotal, List.map_map]
  induction shared with
  | nil => rfl
  | cons s shared ih =>
    obtain ⟨h0, hmost⟩ := h s List.mem_cons_self
    have hrest := ih fun s hs => h s (List.mem_cons_of_mem _ hs)
    rw [List.map_cons, Cells.total_cons, Nat.cast_add, hrest, shareTotal_cons]
    exact congrArg (· + shareTotal shared) (Cells.nearest_of_mem h0 hmost)

/-! ### A round shares out -/

section Round
variable {bound : Bound} {budget : Int} {pool : List Entrant} {s : Entrant × Int}

theorem map_fst_shareOut (budget : Int) (pool : List Entrant) : (shareOut budget pool).map (·.1) = pool :=
  List.map_fst_zip (by rw [LargestRemainder.length_parts, List.length_map])

theorem mem_pool_of_mem_shareOut (h : s ∈ shareOut budget pool) : s.1 ∈ pool := by
  have := List.mem_map_of_mem (f := (·.1)) h
  rwa [map_fst_shareOut] at this

theorem mem_zip_of_mem_shareOut (h : s ∈ shareOut budget pool) :
    (s.1.ratio, s.2) ∈ (pool.map (·.ratio)).zip (LargestRemainder.parts budget (pool.map (·.ratio))) := by
  rw [List.zip_map_left]
  exact List.mem_map.mpr ⟨s, h, rfl⟩

theorem shareTotal_shareOut (h : LargestRemainder.InRange budget (ratioTotal pool)) :
    shareTotal (shareOut budget pool) = budget := by
  rw [shareTotal, shareOut, List.map_snd_zip (by rw [LargestRemainder.length_parts, List.length_map])]
  exact LargestRemainder.sum_parts h

theorem share_eq_zero_of_ratioTotal (h : ratioTotal pool = 0) (hs : s ∈ shareOut budget pool) : s.2 = 0 := by
  have hpart := (List.of_mem_zip (a := s.1) (b := s.2) hs).2
  rw [LargestRemainder.parts_of_total_eq_zero budget h] at hpart
  exact List.eq_of_mem_replicate hpart

/-- A slot of ratio 0 has no share. -/
theorem share_eq_zero_of_ratio (h : 0 < ratioTotal pool → LargestRemainder.InRange budget (ratioTotal pool))
    (hs : s ∈ shareOut budget pool) (hratio : s.1.ratio = 0) : s.2 = 0 := by
  rcases Nat.eq_zero_or_pos (ratioTotal pool) with hzero | hpos
  · exact share_eq_zero_of_ratioTotal hzero hs
  · have hmem := mem_zip_of_mem_shareOut hs
    rw [hratio] at hmem
    exact LargestRemainder.part_eq_zero (h hpos) hmem

/-- A budget that is no deficit has no deficits for shares. -/
theorem share_nonneg (h : 0 < ratioTotal pool → LargestRemainder.InRange budget (ratioTotal pool))
    (hbudget : 0 ≤ budget) (hs : s ∈ shareOut budget pool) : 0 ≤ s.2 := by
  rcases Nat.eq_zero_or_pos (ratioTotal pool) with hzero | hpos
  · exact (share_eq_zero_of_ratioTotal hzero hs).ge
  · have habs := (abs_lt.mp (LargestRemainder.abs_part_sub_lt (h hpos) (mem_zip_of_mem_shareOut hs))).1
    have hexact : 0 ≤ budget * (s.1.ratio.toNat : Int) := mul_nonneg hbudget (Int.natCast_nonneg _)
    have hpos' : (0 : Int) ≤ ratioTotal pool := Int.natCast_nonneg _
    by_contra hneg
    have hle : s.2 * (ratioTotal pool : Int) ≤ -1 * ratioTotal pool :=
      mul_le_mul_of_nonneg_right (by omega) hpos'
    have htotal : Cells.total (pool.map (·.ratio)) = ratioTotal pool := rfl
    rw [htotal] at habs
    omega

theorem share_le_shareTotal {shared : List (Entrant × Int)} (h : ∀ s ∈ shared, 0 ≤ s.2) (hs : s ∈ shared) :
    s.2 ≤ shareTotal shared := by
  refine List.single_le_sum (fun n hn => ?_) _ (List.mem_map_of_mem hs)
  obtain ⟨t, ht, rfl⟩ := List.mem_map.mp hn
  exact h t ht

/-! ### A round tells apart -/

theorem perm_missing_keeping (bound : Bound) (shared : List (Entrant × Int)) :
    (missing bound shared ++ keeping bound shared).Perm (shared.map (·.1)) := by
  rw [missing, keeping, ← List.map_append]
  exact (List.filter_append_perm _ shared).map _

theorem missing_isEmpty_iff {shared : List (Entrant × Int)} :
    (missing bound shared).isEmpty = true ↔ ∀ s ∈ shared, ¬bound.missedBy s.1.limit s.2 = true := by
  rw [missing, List.isEmpty_iff, List.map_eq_nil_iff, List.filter_eq_nil_iff]

theorem limitTotal_missing_add_keeping (bound : Bound) (budget : Int) (pool : List Entrant) :
    limitTotal (missing bound (shareOut budget pool)) + limitTotal (keeping bound (shareOut budget pool)) =
      limitTotal pool := by
  have hperm := perm_missing_keeping bound (shareOut budget pool)
  rw [map_fst_shareOut] at hperm
  rw [limitTotal, limitTotal, ← Cells.total_append, ← List.map_append]
  exact Cells.total_perm (hperm.map _)

theorem ratioTotal_missing_add_keeping (bound : Bound) (budget : Int) (pool : List Entrant) :
    ratioTotal (missing bound (shareOut budget pool)) + ratioTotal (keeping bound (shareOut budget pool)) =
      ratioTotal pool := by
  have hperm := perm_missing_keeping bound (shareOut budget pool)
  rw [map_fst_shareOut] at hperm
  rw [ratioTotal, ratioTotal, ← Cells.total_append, ← List.map_append]
  exact Cells.total_perm (hperm.map _)

theorem shareTotal_filter_add (p : Entrant × Int → Bool) (shared : List (Entrant × Int)) :
    shareTotal (shared.filter p) + shareTotal (shared.filter fun s => !p s) = shareTotal shared := by
  rw [shareTotal, shareTotal, ← List.sum_append, ← List.map_append]
  exact ((List.filter_append_perm p shared).map _).sum_eq

theorem shareTotal_eq_zero {shared : List (Entrant × Int)} (h : ∀ s ∈ shared, s.2 = 0) : shareTotal shared = 0 :=
  List.sum_eq_zero fun n hn => by
    obtain ⟨s, hs, rfl⟩ := List.mem_map.mp hn
    exact h s hs

/-- Slots that are each at least `n` cells below their bounds. -/
theorem length_mul_le {n : Int} {shared : List (Entrant × Int)} (h : ∀ s ∈ shared, n ≤ s.1.limit.toNat - s.2) :
    shared.length * n ≤ limitTotal (shared.map (·.1)) - shareTotal shared := by
  induction shared with
  | nil => simp
  | cons s shared ih =>
    have hrest := ih fun s hs => h s (List.mem_cons_of_mem _ hs)
    have hfirst := h s List.mem_cons_self
    rw [shareTotal_cons, List.length_cons, List.map_cons, limitTotal_cons]
    push_cast
    linarith

/-- Slots that are each at most `n` cells below their bounds. -/
theorem le_length_mul {n : Int} {shared : List (Entrant × Int)} (h : ∀ s ∈ shared, s.1.limit.toNat - s.2 ≤ n) :
    limitTotal (shared.map (·.1)) - shareTotal shared ≤ shared.length * n := by
  induction shared with
  | nil => simp
  | cons s shared ih =>
    have hrest := ih fun s hs => h s (List.mem_cons_of_mem _ hs)
    have hfirst := h s List.mem_cons_self
    rw [shareTotal_cons, List.length_cons, List.map_cons, limitTotal_cons]
    push_cast
    linarith

theorem missing_sublist (bound : Bound) (budget : Int) (pool : List Entrant) :
    (missing bound (shareOut budget pool)).Sublist pool := by
  conv_rhs => rw [← map_fst_shareOut budget pool]
  exact List.filter_sublist.map _

theorem keeping_sublist (bound : Bound) (budget : Int) (pool : List Entrant) :
    (keeping bound (shareOut budget pool)).Sublist pool := by
  conv_rhs => rw [← map_fst_shareOut budget pool]
  exact List.filter_sublist.map _

theorem mem_pool_of_mem_keeping {entrant : Entrant} (h : entrant ∈ keeping bound (shareOut budget pool)) :
    entrant ∈ pool :=
  (keeping_sublist bound budget pool).subset h

end Round

/-! ### What each slot ends with -/

namespace Settlement

/-- Each slot with the size that it ends with: pinned slots have their bounds, the others their shares. -/
def outcomes (settlement : Settlement) : List (Entrant × Cells) :=
  (settlement.rounds.flatMap fun round => round.pinned.map fun entrant => (entrant, entrant.limit)) ++
    settlement.shared.map fun (entrant, share) => (entrant, Cells.nearest share)

theorem given_eq (settlement : Settlement) : settlement.given = settlement.outcomes.map fun x => (x.1.place, x.2) := by
  simp only [given, outcomes, List.map_append, List.map_flatMap, List.map_map]
  rfl

end Settlement

theorem settle_of_isEmpty {bound : Bound} {budget : Int} {pool : List Entrant}
    (h : (missing bound (shareOut budget pool)).isEmpty = true) :
    settle bound budget pool = ⟨[], shareOut budget pool⟩ := by
  rw [settle, if_pos h]

theorem settle_of_not_isEmpty {bound : Bound} {budget : Int} {pool : List Entrant}
    (h : ¬(missing bound (shareOut budget pool)).isEmpty = true) :
    settle bound budget pool =
      { settle bound (bound.spendAll budget (missing bound (shareOut budget pool)))
          (keeping bound (shareOut budget pool)) with
        rounds := ⟨budget, missing bound (shareOut budget pool)⟩ ::
          (settle bound (bound.spendAll budget (missing bound (shareOut budget pool)))
            (keeping bound (shareOut budget pool))).rounds } := by
  rw [settle, if_neg h]

theorem outcomes_settle_of_isEmpty {bound : Bound} {budget : Int} {pool : List Entrant}
    (h : (missing bound (shareOut budget pool)).isEmpty = true) :
    (settle bound budget pool).outcomes = (shareOut budget pool).map fun s => (s.1, Cells.nearest s.2) := by
  rw [settle_of_isEmpty h]
  rfl

theorem outcomes_settle_of_not_isEmpty {bound : Bound} {budget : Int} {pool : List Entrant}
    (h : ¬(missing bound (shareOut budget pool)).isEmpty = true) :
    (settle bound budget pool).outcomes =
      (missing bound (shareOut budget pool)).map (fun entrant => (entrant, entrant.limit)) ++
        (settle bound (bound.spendAll budget (missing bound (shareOut budget pool)))
          (keeping bound (shareOut budget pool))).outcomes := by
  rw [settle_of_not_isEmpty h]
  simp only [Settlement.outcomes, List.flatMap_cons, List.append_assoc]

/-- The last round gives every slot its share. -/
theorem mem_shareOut_of_mem_outcomes {bound : Bound} {budget : Int} {pool : List Entrant}
    (h : (missing bound (shareOut budget pool)).isEmpty = true)
    (hshares : ∀ s ∈ shareOut budget pool, 0 ≤ s.2 ∧ s.2 ≤ Cells.most) {x : Entrant × Cells}
    (hx : x ∈ (settle bound budget pool).outcomes) : (x.1, (x.2.toNat : Int)) ∈ shareOut budget pool := by
  rw [outcomes_settle_of_isEmpty h] at hx
  obtain ⟨s, hs, rfl⟩ := List.mem_map.mp hx
  obtain ⟨hnonneg, hmost⟩ := hshares s hs
  rwa [Cells.nearest_of_mem hnonneg hmost]

/-- A round before it gives a slot its bound, or leaves it to the rounds after. -/
theorem mem_missing_or_later {bound : Bound} {budget : Int} {pool : List Entrant}
    (h : ¬(missing bound (shareOut budget pool)).isEmpty = true) {x : Entrant × Cells}
    (hx : x ∈ (settle bound budget pool).outcomes) :
    (∃ entrant ∈ missing bound (shareOut budget pool), x = (entrant, entrant.limit)) ∨
      x ∈ (settle bound (bound.spendAll budget (missing bound (shareOut budget pool)))
        (keeping bound (shareOut budget pool))).outcomes := by
  rw [outcomes_settle_of_not_isEmpty h] at hx
  rcases List.mem_append.mp hx with hx | hx
  · obtain ⟨entrant, hmem, rfl⟩ := List.mem_map.mp hx
    exact Or.inl ⟨entrant, hmem, rfl⟩
  · exact Or.inr hx

/-- Every slot of the pool ends with one size. -/
theorem perm_map_fst_outcomes (bound : Bound) (budget : Int) (pool : List Entrant) :
    ((settle bound budget pool).outcomes.map (·.1)).Perm pool := by
  induction budget, pool using settle.induct bound with
  | case1 budget pool shared pinned hnone =>
    rw [outcomes_settle_of_isEmpty hnone, List.map_map]
    exact List.Perm.of_eq (map_fst_shareOut budget pool)
  | case2 budget pool shared pinned hsome ih =>
    have hperm := perm_missing_keeping bound shared
    rw [map_fst_shareOut] at hperm
    rw [outcomes_settle_of_not_isEmpty hsome, List.map_append, List.map_map]
    refine List.Perm.trans ?_ hperm
    exact List.Perm.append (List.Perm.of_eq (List.map_id _)) ih

theorem mem_pool_of_mem_outcomes {bound : Bound} {budget : Int} {pool : List Entrant} {x : Entrant × Cells}
    (hx : x ∈ (settle bound budget pool).outcomes) : x.1 ∈ pool :=
  (perm_map_fst_outcomes bound budget pool).mem_iff.mp (List.mem_map_of_mem hx)

/-! ### Sizes by their places -/

section Places
variable {bound : Bound} {budget : Int} {pool : List Entrant} {others : List Cells}

theorem getElem?_foldl_set_of_not_mem {given : List (Nat × Cells)} {sizes : List Cells} {i : Nat}
    (h : i ∉ given.map (·.1)) :
    (given.foldl (fun sizes (place, size) => sizes.set place size) sizes)[i]? = sizes[i]? := by
  induction given generalizing sizes with
  | nil => rfl
  | cons first given ih =>
    rw [List.map_cons, List.mem_cons, not_or] at h
    rw [List.foldl_cons, ih h.2, List.getElem?_set_ne (Ne.symm h.1)]

theorem getElem?_foldl_set_of_mem {given : List (Nat × Cells)} (hnodup : (given.map (·.1)).Nodup)
    {sizes : List Cells} {i : Nat} {size : Cells} (h : (i, size) ∈ given) (hi : i < sizes.length) :
    (given.foldl (fun sizes (place, size) => sizes.set place size) sizes)[i]? = some size := by
  induction given generalizing sizes with
  | nil => cases h
  | cons first given ih =>
    rw [List.map_cons, List.nodup_cons] at hnodup
    rw [List.foldl_cons]
    rcases List.mem_cons.mp h with rfl | h
    -- No later slot stands at the same place.
    · rw [getElem?_foldl_set_of_not_mem hnodup.1, List.getElem?_set_self hi]
    · exact ih hnodup.2 h (by rwa [List.length_set])

theorem perm_map_place_given (bound : Bound) (budget : Int) (pool : List Entrant) :
    ((settle bound budget pool).given.map (·.1)).Perm (pool.map (·.place)) := by
  have hperm := (perm_map_fst_outcomes bound budget pool).map (·.place)
  rw [List.map_map] at hperm
  rw [Settlement.given_eq, List.map_map]
  exact hperm

/-- A slot of the pool finds its size at its place. -/
theorem getElem?_sizes (hplaces : (pool.map (·.place)).Nodup) {entrant : Entrant} {size : Cells}
    (h : (entrant, size) ∈ (settle bound budget pool).outcomes) (hlt : entrant.place < others.length) :
    ((settle bound budget pool).sizes others)[entrant.place]? = some size := by
  refine getElem?_foldl_set_of_mem ((perm_map_place_given bound budget pool).nodup_iff.mpr hplaces) ?_ hlt
  rw [Settlement.given_eq]
  exact List.mem_map.mpr ⟨(entrant, size), h, rfl⟩

/-- Every slot of the pool has an outcome, which is the size at its place. -/
theorem exists_outcome (bound : Bound) (budget : Int) (hplaces : (pool.map (·.place)).Nodup) {entrant : Entrant}
    (h : entrant ∈ pool) (hlt : entrant.place < others.length) :
    ∃ size, (entrant, size) ∈ (settle bound budget pool).outcomes ∧
      ((settle bound budget pool).sizes others)[entrant.place]? = some size := by
  obtain ⟨⟨first, size⟩, hmem, rfl⟩ := List.mem_map.mp ((perm_map_fst_outcomes bound budget pool).mem_iff.mpr h)
  exact ⟨size, hmem, getElem?_sizes hplaces hmem hlt⟩

/-- Where no slot of the pool stands the size is as before. -/
theorem getElem?_sizes_of_not_mem {i : Nat} (h : i ∉ pool.map (·.place)) :
    ((settle bound budget pool).sizes others)[i]? = others[i]? :=
  getElem?_foldl_set_of_not_mem fun hmem => h ((perm_map_place_given bound budget pool).mem_iff.mp hmem)

/-- The sizes at the places of a pool add up to what its slots end with. -/
theorem total_sizes (hplaces : (pool.map (·.place)).Nodup) (hlt : ∀ entrant ∈ pool, entrant.place < others.length) :
    Cells.total (pool.map fun entrant => ((settle bound budget pool).sizes others).getD entrant.place 0) =
      sizeTotal (settle bound budget pool).outcomes := by
  have hperm := perm_map_fst_outcomes bound budget pool
  rw [← Cells.total_perm (hperm.map _), List.map_map, sizeTotal]
  congr 1
  refine List.map_congr_left fun x hx => ?_
  have hplace := hlt x.1 (mem_pool_of_mem_outcomes hx)
  rw [Function.comp_apply, List.getD_eq_getElem?_getD, getElem?_sizes hplaces hx hplace, Option.getD_some]

end Places

section Entrants
variable {ratios limits : List Cells}

theorem length_entrants (h : limits.length = ratios.length) : (entrants ratios limits).length = ratios.length := by
  rw [entrants, List.length_mapIdx, List.length_zip, h, min_self]

theorem map_place_entrants (h : limits.length = ratios.length) :
    (entrants ratios limits).map (·.place) = List.range ratios.length := by
  apply List.ext_getElem
  · rw [List.length_map, length_entrants h, List.length_range]
  · intro i _ _
    simp [entrants]

theorem map_ratio_entrants (h : limits.length = ratios.length) : (entrants ratios limits).map (·.ratio) = ratios := by
  apply List.ext_getElem
  · rw [List.length_map, length_entrants h]
  · intro i _ _
    simp [entrants]

theorem map_limit_entrants (h : limits.length = ratios.length) : (entrants ratios limits).map (·.limit) = limits := by
  apply List.ext_getElem
  · rw [List.length_map, length_entrants h, h]
  · intro i _ _
    simp [entrants]

theorem mem_entrants {entrant : Entrant} :
    entrant ∈ entrants ratios limits ↔ (ratios.zip limits)[entrant.place]? = some (entrant.ratio, entrant.limit) := by
  rw [entrants, List.mem_mapIdx]
  constructor
  · rintro ⟨i, hi, rfl⟩
    exact List.getElem?_eq_getElem hi
  · intro h
    obtain ⟨hi, heq⟩ := List.getElem?_eq_some_iff.mp h
    exact ⟨entrant.place, hi, by rw [heq]⟩

theorem nodup_place_entrants (h : limits.length = ratios.length) : ((entrants ratios limits).map (·.place)).Nodup := by
  rw [map_place_entrants h]
  exact List.nodup_range

theorem place_lt_of_mem_entrants (h : limits.length = ratios.length) {entrant : Entrant}
    (hmem : entrant ∈ entrants ratios limits) : entrant.place < ratios.length := by
  have hplace := List.mem_map_of_mem (f := (·.place)) hmem
  rwa [map_place_entrants h, List.mem_range] at hplace

end Entrants

end Allotment
