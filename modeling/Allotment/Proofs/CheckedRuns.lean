import Allotment.Proofs.CapFilling
import Allotment.Proofs.CheckedParts
import Allotment.Proofs.FlexibleSlots

/-! Runs with every number checked, and every look into a list. Budgets have to stay signed numbers under floors and
    counts under caps, a share has to be a count before it is written, and what is read or written at a place has to be
    there. Every run that succeeds passes all of these checks, through as many rounds as it takes: the deficits of
    floors grow only by floors that are then gone. -/

namespace Allotment.Checked

/-! ### Rounds -/

/-- The sizes with another one at `place`. -/
def write (sizes : List Cells) (place : Nat) (size : Cells) : Option (List Cells) :=
  if place < sizes.length then some (sizes.set place size) else none

/-- What a slot pinned at `limit` leaves of the budget: a signed number under a floor, a count under a cap. -/
def spend (bound : Bound) (budget : Int) (limit : Cells) : Option Int :=
  match bound with
  | .floor => signed (budget - limit.toNat)
  | .cap => (count (budget - limit.toNat)).map fun left => (left.toNat : Int)

/-- Takes the bound of the slot at `place` out of the budget, and writes it as the size of the slot. -/
def pin (bound : Bound) (limitAt : Nat → Option Cells) (left : Int × List Cells) (place : Nat) :
    Option (Int × List Cells) := do
  let limit ← limitAt place
  return (← spend bound left.1 limit, ← write left.2 place limit)

/-- Writes a share as the size of its slot. -/
def give (sizes : List Cells) (shared : Nat × Int) : Option (List Cells) := do
  write sizes shared.1 (← count shared.2)

/-- The places whose share misses their bound. -/
def missed (bound : Bound) (places : List Nat) (limits : List Cells) (shares : List Int) : List Nat :=
  (((places.zip limits).zip shares).filter fun s => bound.missedBy s.1.2 s.2).map (·.1.1)

theorem mem_of_mem_missed {bound : Bound} {places : List Nat} {limits : List Cells} {shares : List Int} {place : Nat}
    (h : place ∈ missed bound places limits shares) : place ∈ places := by
  obtain ⟨s, hs, rfl⟩ := List.mem_map.mp h
  exact (List.of_mem_zip (List.of_mem_zip (List.mem_of_mem_filter hs)).1).1

/-- The places that stay where `pinned` are taken out. -/
def staying (pinned active : List Nat) : List Nat := active.filter fun place => !pinned.contains place

/-- Shares a budget among the slots at the places `active`, and writes what they end with among `sizes`. -/
def settle (bound : Bound) (ratios : List Cells) (limitAt : Nat → Option Cells) (budget : Int) (active : List Nat)
    (sizes : List Cells) : Option (List Cells) := do
  let weights ← active.mapM fun place => ratios[place]?
  let limits ← active.mapM limitAt
  let shares ← parts budget weights
  let pinned := missed bound active limits shares
  if _hnone : pinned = [] then (active.zip shares).foldlM give sizes
  else do
    let (budget, sizes) ← pinned.foldlM (pin bound limitAt) (budget, sizes)
    settle bound ratios limitAt budget (staying pinned active) sizes
termination_by active.length
decreasing_by
  obtain ⟨place, hmem⟩ := List.exists_mem_of_ne_nil _ _hnone
  refine List.length_filter_lt_length_iff_exists.mpr ⟨place, mem_of_mem_missed hmem, ?_⟩
  simpa using hmem

section Settle
variable {bound : Bound} {budget : Int} {pool : List Entrant} {ratios sizes : List Cells}
  {limitAt : Nat → Option Cells}

theorem write_of_lt {place : Nat} (h : place < sizes.length) (size : Cells) :
    write sizes place size = some (sizes.set place size) := if_pos h

/-- Each slot of the pool finds its ratio, its bound and its size at its place. -/
structure Seated (ratios : List Cells) (limitAt : Nat → Option Cells) (length : Nat) (pool : List Entrant) :
    Prop where
  places : (pool.map (·.place)).Nodup
  ratio : ∀ entrant ∈ pool, ratios[entrant.place]? = some entrant.ratio
  limit : ∀ entrant ∈ pool, limitAt entrant.place = some entrant.limit
  place_lt : ∀ entrant ∈ pool, entrant.place < length

theorem Seated.sublist {length : Nat} {part : List Entrant} (h : Seated ratios limitAt length pool)
    (hsub : part.Sublist pool) : Seated ratios limitAt length part where
  places := h.places.sublist (hsub.map _)
  ratio _ hmem := h.ratio _ (hsub.subset hmem)
  limit _ hmem := h.limit _ (hsub.subset hmem)
  place_lt _ hmem := h.place_lt _ (hsub.subset hmem)

/-- What keeps a round in range, and every round after it. -/
structure Safe (bound : Bound) (holds : Int → List Entrant → Prop) : Prop where
  ratios : ∀ {budget pool}, holds budget pool → (ratioTotal pool : Int) ≤ Wide.greatest
  inRange : ∀ {budget pool}, holds budget pool → 0 < ratioTotal pool →
    LargestRemainder.InRange budget (ratioTotal pool)
  spend : ∀ {budget pool}, holds budget pool → ¬(missing bound (shareOut budget pool)).isEmpty = true →
    (missing bound (shareOut budget pool)).foldlM (fun left entrant => spend bound left entrant.limit) budget =
      some (bound.spendAll budget (missing bound (shareOut budget pool)))
  next : ∀ {budget pool}, holds budget pool → ¬(missing bound (shareOut budget pool)).isEmpty = true →
    holds (bound.spendAll budget (missing bound (shareOut budget pool))) (keeping bound (shareOut budget pool))
  last : ∀ {budget pool}, holds budget pool → (missing bound (shareOut budget pool)).isEmpty = true →
    ∀ s ∈ shareOut budget pool, 0 ≤ s.2 ∧ s.2 ≤ Cells.most

theorem missed_eq (bound : Bound) (budget : Int) (pool : List Entrant) :
    missed bound (pool.map (·.place)) (pool.map (·.limit)) (LargestRemainder.parts budget (pool.map (·.ratio))) =
      (missing bound (shareOut budget pool)).map (·.place) := by
  rw [missed, List.zip_map', List.zip_map_left, ← shareOut, List.filter_map, missing, List.map_map, List.map_map]
  rfl

/-- The places that stay are those of the slots that keep to their bounds. -/
theorem staying_eq {shared : List (Entrant × Int)} (hplaces : (shared.map fun s => s.1.place).Nodup) :
    staying ((missing bound shared).map (·.place)) (shared.map fun s => s.1.place) =
      (keeping bound shared).map (·.place) := by
  rw [staying, missing, keeping, List.map_map, List.map_map, List.filter_map]
  refine congrArg _ (List.filter_congr fun s hs => ?_)
  -- No two slots have one place, so that the place of a slot is pinned only if the slot is.
  have hiff : s.1.place ∈ (shared.filter fun s => bound.missedBy s.1.limit s.2).map (fun s => s.1.place) ↔
      bound.missedBy s.1.limit s.2 = true := by
    rw [List.mem_map]
    constructor
    · rintro ⟨t, ht, heq⟩
      obtain ⟨htmem, hmissed⟩ := List.mem_filter.mp ht
      rwa [List.inj_on_of_nodup_map hplaces htmem hs heq] at hmissed
    · exact fun hmissed => ⟨s, List.mem_filter.mpr ⟨hs, hmissed⟩, rfl⟩
  refine congrArg (!·) (Bool.eq_iff_iff.mpr ?_)
  rw [List.contains_iff_mem]
  exact hiff

theorem foldlM_pin {pinned : List Entrant} {left : Int} (h : Seated ratios limitAt sizes.length pinned)
    (hspend : pinned.foldlM (fun left entrant => spend bound left entrant.limit) budget = some left) :
    (pinned.map (·.place)).foldlM (pin bound limitAt) (budget, sizes) =
      some (left, pinned.foldl (fun sizes entrant => sizes.set entrant.place entrant.limit) sizes) := by
  induction pinned generalizing budget sizes with
  | nil =>
    cases hspend
    rfl
  | cons entrant pinned ih =>
    rw [List.foldlM_cons, Option.bind_eq_bind, Option.bind_eq_some_iff] at hspend
    obtain ⟨budget', hfirst, hrest⟩ := hspend
    have hpin : pin bound limitAt (budget, sizes) entrant.place =
        some (budget', sizes.set entrant.place entrant.limit) := by
      simp only [pin, h.limit entrant List.mem_cons_self, hfirst, write_of_lt (h.place_lt entrant List.mem_cons_self),
        Option.bind_eq_bind, Option.bind_some]
      rfl
    have hlater : Seated ratios limitAt (sizes.set entrant.place entrant.limit).length pinned := by
      rw [List.length_set]
      exact h.sublist (List.sublist_cons_self entrant pinned)
    rw [List.map_cons, List.foldlM_cons, hpin, Option.bind_eq_bind, Option.bind_some, ih hlater hrest]
    rfl

theorem foldlM_give {shared : List (Entrant × Int)} (hlt : ∀ s ∈ shared, s.1.place < sizes.length)
    (hcount : ∀ s ∈ shared, 0 ≤ s.2 ∧ s.2 ≤ Cells.most) :
    (shared.map fun s => (s.1.place, s.2)).foldlM give sizes =
      some (shared.foldl (fun sizes s => sizes.set s.1.place (Cells.nearest s.2)) sizes) := by
  induction shared generalizing sizes with
  | nil => rfl
  | cons s shared ih =>
    obtain ⟨h0, hmost⟩ := hcount s List.mem_cons_self
    have hgive : give sizes (s.1.place, s.2) = some (sizes.set s.1.place (Cells.nearest s.2)) := by
      simp only [give, count_of_mem h0 hmost, write_of_lt (hlt s List.mem_cons_self), Option.bind_eq_bind,
        Option.bind_some]
    rw [List.map_cons, List.foldlM_cons, hgive, Option.bind_eq_bind, Option.bind_some, ih ?_ ?_]
    · rfl
    · intro t ht
      rw [List.length_set]
      exact hlt t (List.mem_cons_of_mem s ht)
    · exact fun t ht => hcount t (List.mem_cons_of_mem s ht)

/-- What a round does whose numbers are in range. -/
theorem settle_round (hsum : (ratioTotal pool : Int) ≤ Wide.greatest)
    (hrange : 0 < ratioTotal pool → LargestRemainder.InRange budget (ratioTotal pool))
    (h : Seated ratios limitAt sizes.length pool) :
    settle bound ratios limitAt budget (pool.map (·.place)) sizes =
      if (missing bound (shareOut budget pool)).isEmpty then
        ((shareOut budget pool).map fun s => (s.1.place, s.2)).foldlM give sizes
      else
        (((missing bound (shareOut budget pool)).map (·.place)).foldlM (pin bound limitAt) (budget, sizes)).bind
          fun left => settle bound ratios limitAt left.1 ((keeping bound (shareOut budget pool)).map (·.place))
            left.2 := by
  have hratios : (pool.map (·.place)).mapM (fun place => ratios[place]?) = some (pool.map (·.ratio)) := by
    rw [List.mapM_map]
    exact mapM_some h.ratio
  have hlimits : (pool.map (·.place)).mapM limitAt = some (pool.map (·.limit)) := by
    rw [List.mapM_map]
    exact mapM_some h.limit
  have hplaces : pool.map (·.place) = (shareOut budget pool).map fun s => s.1.place := by
    conv_lhs => rw [← map_fst_shareOut budget pool, List.map_map]
    rfl
  have hstaying : staying ((missing bound (shareOut budget pool)).map (·.place)) (pool.map (·.place)) =
      (keeping bound (shareOut budget pool)).map (·.place) := by
    rw [hplaces]
    exact staying_eq (hplaces ▸ h.places)
  have hzip : (pool.map (·.place)).zip (LargestRemainder.parts budget (pool.map (·.ratio))) =
      (shareOut budget pool).map fun s => (s.1.place, s.2) := List.zip_map_left
  rw [settle, hratios, hlimits]
  simp only [Option.bind_eq_bind, Option.bind_some, parts_eq hsum hrange, missed_eq, hstaying, hzip,
    List.map_eq_nil_iff, List.isEmpty_iff]
  split <;> rfl

end Settle

theorem sizes_settle_of_isEmpty {bound : Bound} {budget : Int} {pool : List Entrant}
    (h : (missing bound (shareOut budget pool)).isEmpty = true) (sizes : List Cells) :
    (Allotment.settle bound budget pool).sizes sizes =
      (shareOut budget pool).foldl (fun sizes s => sizes.set s.1.place (Cells.nearest s.2)) sizes := by
  rw [settle_of_isEmpty h, Settlement.sizes, Settlement.given, List.flatMap_nil, List.nil_append, List.foldl_map]

theorem sizes_settle_of_not_isEmpty {bound : Bound} {budget : Int} {pool : List Entrant}
    (h : ¬(missing bound (shareOut budget pool)).isEmpty = true) (sizes : List Cells) :
    (Allotment.settle bound budget pool).sizes sizes =
      (Allotment.settle bound (bound.spendAll budget (missing bound (shareOut budget pool)))
        (keeping bound (shareOut budget pool))).sizes
          ((missing bound (shareOut budget pool)).foldl
            (fun sizes entrant => sizes.set entrant.place entrant.limit) sizes) := by
  rw [settle_of_not_isEmpty h]
  simp only [Settlement.sizes, Settlement.given, List.flatMap_cons, List.append_assoc, List.foldl_append,
    List.foldl_map]

theorem length_foldl_set (pinned : List Entrant) (sizes : List Cells) :
    (pinned.foldl (fun sizes entrant => sizes.set entrant.place entrant.limit) sizes).length = sizes.length := by
  induction pinned generalizing sizes with
  | nil => rfl
  | cons entrant pinned ih => rw [List.foldl_cons, ih, List.length_set]

/-- Rounds that keep in range settle as without checks. -/
theorem settle_eq {bound : Bound} {holds : Int → List Entrant → Prop} (hsafe : Safe bound holds) {ratios : List Cells}
    {limitAt : Nat → Option Cells} {budget : Int} {pool : List Entrant} (h : holds budget pool) (sizes : List Cells)
    (hseated : Seated ratios limitAt sizes.length pool) :
    settle bound ratios limitAt budget (pool.map (·.place)) sizes =
      some ((Allotment.settle bound budget pool).sizes sizes) := by
  induction budget, pool using Allotment.settle.induct bound generalizing sizes with
  | case1 budget pool shared pinned hnone =>
    rw [settle_round (hsafe.ratios h) (hsafe.inRange h) hseated, if_pos hnone, sizes_settle_of_isEmpty hnone]
    exact foldlM_give (fun s hs => hseated.place_lt _ (mem_pool_of_mem_shareOut hs)) (hsafe.last h hnone)
  | case2 budget pool shared pinned hsome ih =>
    rw [settle_round (hsafe.ratios h) (hsafe.inRange h) hseated, if_neg hsome, sizes_settle_of_not_isEmpty hsome,
      foldlM_pin (hseated.sublist (missing_sublist bound budget pool)) (hsafe.spend h hsome), Option.bind_some]
    refine ih (hsafe.next h hsome) _ ?_
    rw [length_foldl_set]
    exact hseated.sublist (keeping_sublist bound budget pool)

/-! ### Under floors and under caps -/

theorem spend_floor {left : Int} {limit : Cells} (hlow : Wide.least ≤ left - limit.toNat) (hhigh : left ≤ Wide.greatest) :
    spend .floor left limit = some (left - limit.toNat) := by
  rw [spend]
  exact signed_of_mem hlow (by omega)

theorem spend_cap {left : Int} {limit : Cells} (hlow : 0 ≤ left - limit.toNat) (hhigh : left ≤ Cells.most) :
    spend .cap left limit = some (left - limit.toNat) := by
  have hmost : left - limit.toNat ≤ Cells.most := by omega
  rw [spend, count_of_mem hlow hmost, Option.map_some, Cells.nearest_of_mem hlow hmost]

/-- Bounds that leave a budget in its range at the end leave it there all the way. -/
theorem foldlM_spend {bound : Bound} {low high : Int}
    (hspend : ∀ (left : Int) (limit : Cells), low ≤ left - limit.toNat → left ≤ high →
      spend bound left limit = some (left - limit.toNat)) {budget : Int} {pinned : List Entrant}
    (hlow : low + limitTotal pinned ≤ budget) (hhigh : budget ≤ high) :
    pinned.foldlM (fun left entrant => spend bound left entrant.limit) budget =
      some (budget - limitTotal pinned) := by
  induction pinned generalizing budget with
  | nil =>
    rw [limitTotal_nil, Nat.cast_zero, Int.sub_zero]
    rfl
  | cons entrant pinned ih =>
    rw [limitTotal_cons, Nat.cast_add] at hlow ⊢
    rw [List.foldlM_cons, hspend budget entrant.limit (by omega) hhigh, Option.bind_eq_bind, Option.bind_some,
      ih (by omega) (by omega), Int.sub_sub]

/-- All floors together leave the budget a signed number. -/
structure RoomForFloors (budget : Int) (pool : List Entrant) : Prop where
  under : UnderFloors budget pool
  room : Wide.least + limitTotal pool ≤ budget

theorem safe_floor : Safe .floor RoomForFloors where
  ratios h := h.under.ratios
  inRange h := h.under.inRange
  spend {budget pool} h hsome := by
    have hlimits := limitTotal_missing_add_keeping .floor budget pool
    have hroom := h.room
    have hmost : (Cells.most : Int) ≤ Wide.greatest := by decide
    rw [spendAll_floor]
    exact foldlM_spend (fun _ _ => spend_floor) (by omega) (h.under.high.trans hmost)
  next {budget pool} h hsome := by
    have hlimits := limitTotal_missing_add_keeping .floor budget pool
    have hroom := h.room
    refine ⟨h.under.next hsome, ?_⟩
    rw [spendAll_floor]
    omega
  last h hnone _ hs := h.under.share_mem hnone hs

theorem safe_cap : Safe .cap UnderCaps where
  ratios h := h.ratios
  inRange h := h.inRange
  spend h hsome := by
    have hleft := h.sub_limitTotal_nonneg hsome
    rw [h.spendAll_eq hsome]
    exact foldlM_spend (fun _ _ => spend_cap) (by omega) h.high
  next h hsome := h.next hsome
  last h hnone _ hs := h.share_mem hnone hs

/-! ### Allotments -/

/-- Shares `total` out with no slot below its minimum, which is 0 where none are given. -/
def allotAtLeast (total : Cells) (ratios : List Cells) (minimums : Option (List Cells)) : Option (List Cells) :=
  let minimumAt (place : Nat) : Option Cells := match minimums with
    | none => some 0
    | some minimums => minimums[place]?
  settle .floor ratios minimumAt total.toNat (List.range ratios.length) (ratios.map fun _ => 0)

/-- Shares `total` out among the slots of a positive ratio with none above its maximum. -/
def allotAtMost (total : Cells) (ratios maximums values : List Cells) : Option (List Cells) := do
  let slots ← (List.range ratios.length).mapM fun place => (ratios[place]?).map fun ratio => (place, ratio)
  let active := (slots.filter fun slot => 0 < slot.2).map (·.1)
  settle .cap ratios (fun place => maximums[place]?) total.toNat active values

section Allot
variable {budget : Int} {total : Cells} {ratios limits minimums maximums values : List Cells} {limitAt : Nat → Option Cells}

theorem seated_entrants (hlength : limits.length = ratios.length)
    (hlimit : ∀ (i : Nat) (limit : Cells), limits[i]? = some limit → limitAt i = some limit) :
    Seated ratios limitAt ratios.length (entrants ratios limits) where
  places := nodup_place_entrants hlength
  ratio _ hmem := (List.getElem?_zip_eq_some.mp (mem_entrants.mp hmem)).1
  limit _ hmem := hlimit _ _ (List.getElem?_zip_eq_some.mp (mem_entrants.mp hmem)).2
  place_lt _ hmem := place_lt_of_mem_entrants hlength hmem

theorem roomForFloors_entrants (hlength : minimums.length = ratios.length) (hentries : ratios.length ≤ mostEntries)
    (hpos : ∃ ratio ∈ ratios, 0 < ratio) (hlow : -(Cells.most * mostEntries : Nat) ≤ budget)
    (hhigh : budget ≤ Cells.most) : RoomForFloors budget (entrants ratios minimums) := by
  have hminimums := Cells.total_le_of_length (hlength ▸ hentries)
  have hroom : Wide.least + (2 * (Cells.most * mostEntries) : Nat) ≤ 0 := by decide
  refine ⟨underFloors_entrants hlength hentries hpos hlow hhigh, ?_⟩
  rw [limitTotal_entrants hlength]
  omega

/-- What is shared out under floors is within range. -/
theorem settle_floor_eq (hlength : minimums.length = ratios.length) (hentries : ratios.length ≤ mostEntries)
    (hpos : ∃ ratio ∈ ratios, 0 < ratio) (hlow : -(Cells.most * mostEntries : Nat) ≤ budget)
    (hhigh : budget ≤ Cells.most)
    (hlimit : ∀ (i : Nat) (limit : Cells), minimums[i]? = some limit → limitAt i = some limit) :
    settle .floor ratios limitAt budget (List.range ratios.length) (ratios.map fun _ => 0) =
      some (flooredSizes budget ratios minimums).value := by
  rw [← map_place_entrants hlength]
  refine settle_eq safe_floor (roomForFloors_entrants hlength hentries hpos hlow hhigh) _ ?_
  rw [List.length_map]
  exact seated_entrants hlength hlimit

theorem allotAtLeast_eq {allotted : Traced (List Cells)} {minimums : Option (List Cells)}
    (h : Allotment.allotAtLeast total ratios minimums = .ok allotted) (hentries : ratios.length ≤ mostEntries) :
    allotAtLeast total ratios minimums = some allotted.value := by
  obtain ⟨hlength, hpos, rfl⟩ := allotAtLeast_eq_ok_iff.mp h
  have hmost := Cells.toNat_le_most total
  refine settle_floor_eq hlength hentries hpos (by omega) (by omega) fun i limit hlimit => ?_
  cases minimums with
  | none =>
    rw [floorsOf, Option.getD_none, List.getElem?_map, Option.map_eq_some_iff] at hlimit
    obtain ⟨-, -, rfl⟩ := hlimit
    rfl
  | some minimums => exact hlimit

theorem mapM_ratio (hlength : maximums.length = ratios.length) :
    ((List.range ratios.length).mapM fun place => (ratios[place]?).map fun ratio => (place, ratio)) =
      some ((entrants ratios maximums).map fun entrant => (entrant.place, entrant.ratio)) := by
  rw [← map_place_entrants hlength, List.mapM_map]
  refine mapM_some fun entrant hmem => ?_
  rw [Function.comp_apply, (List.getElem?_zip_eq_some.mp (mem_entrants.mp hmem)).1, Option.map_some]

theorem allotAtMost_eq {allotted : Traced (List Cells)}
    (h : Allotment.allotAtMost total ratios maximums values = .ok allotted) (hentries : ratios.length ≤ mostEntries) :
    allotAtMost total ratios maximums values = some allotted.value := by
  obtain ⟨hmaximums, hvalues, rfl⟩ := allotAtMost_eq_ok_iff.mp h
  have hseated : Seated ratios (fun place => maximums[place]?) values.length (takers ratios maximums) := by
    rw [hvalues]
    exact (seated_entrants hmaximums fun _ _ hlimit => hlimit).sublist List.filter_sublist
  have hactive : (((entrants ratios maximums).map fun entrant => (entrant.place, entrant.ratio)).filter
      fun slot => 0 < slot.2).map (·.1) = (takers ratios maximums).map (·.place) := by
    rw [List.filter_map, List.map_map]
    rfl
  rw [allotAtMost, mapM_ratio hmaximums, Option.bind_eq_bind, Option.bind_some]
  dsimp only
  rw [hactive]
  exact settle_eq safe_cap (underCaps_total total hmaximums hentries) values hseated

end Allot

/-! ### Slots -/

/-- The places of the flexible slots. -/
def flexiblePlaces (slots : List Slot) : List Nat := (slots.zipIdx.filter fun x => !x.1.isFixed).map (·.2)

/-- The minimum of a flexible slot, by its position among the flexible ones. -/
def minimumAt (slots : List Slot) (position : Nat) : Option Cells := do
  let place ← (flexiblePlaces slots)[position]?
  let slot ← slots[place]?
  return slot.minimumSize

/-- Fills `total` cells with `slots`: what the fixed ones leave is shared out among the others, and written at their
    places. -/
def fill (total : Cells) (slots : List Slot) : Option (List Cells) :=
  let sizes := slots.map fun slot => slot.size.getD 0
  let flexible := flexiblePlaces slots
  if flexible.isEmpty then some sizes
  else do
    let ratios ← flexible.mapM fun place => (slots[place]?).map (·.ratio)
    let fixed ← sum ((slots.filterMap (·.size)).map fun size => (size.toNat : Int))
    let budget ← signed (total.toNat - fixed)
    let shared ← settle .floor ratios (minimumAt slots) budget (List.range ratios.length) (ratios.map fun _ => 0)
    (flexible.zip shared).foldlM (fun sizes given => write sizes given.1 given.2) sizes

section Slots
variable {total : Cells} {slots : List Slot} {shared : List Cells}

theorem write_append (before : List Cells) (old : Cells) (after : List Cells) (size : Cells) :
    write (before ++ old :: after) before.length size = some (before ++ size :: after) := by
  rw [write_of_lt (by simp), List.set_append_right _ _ (Nat.le_refl _), Nat.sub_self, List.set_cons_zero]

/-- Writing sizes at the places of the flexible slots weaves them in. -/
theorem foldlM_write_weave (hlength : shared.length = (Slot.sharing slots).length) (before : List Cells) :
    ((((slots.zipIdx before.length).filter fun x => !x.1.isFixed).map (·.2)).zip shared).foldlM
        (fun sizes given => write sizes given.1 given.2) (before ++ slots.map fun slot => slot.size.getD 0) =
      some (before ++ Slot.weave slots shared) := by
  induction slots generalizing shared before with
  | nil => rfl
  | cons slot slots ih =>
    cases hslot : slot.size with
    | some fixed =>
      rw [Slot.sharing_cons_of_fixed hslot] at hlength
      have hrest := ih hlength (before ++ [fixed])
      rw [List.length_append, List.length_singleton] at hrest
      simpa [Slot.weave_cons_of_fixed hslot, Slot.isFixed, hslot] using hrest
    | none =>
      rw [Slot.sharing_cons_of_flexible hslot] at hlength
      cases shared with
      | nil => cases hlength
      | cons size shared =>
        have hrest := ih (Nat.succ.inj hlength) (before ++ [size])
        rw [List.length_append, List.length_singleton] at hrest
        simpa [Slot.weave_cons_of_flexible hslot, Slot.isFixed, hslot, write_append] using hrest

theorem map_fst_flexible (slots : List Slot) :
    (slots.zipIdx.filter fun x => !x.1.isFixed).map (·.1) = Slot.sharing slots := by
  conv_rhs => rw [← List.zipIdx_map_fst 0 slots, Slot.sharing, List.filter_map]
  rfl

theorem flexiblePlaces_isEmpty (slots : List Slot) : (flexiblePlaces slots).isEmpty = (Slot.sharing slots).isEmpty := by
  rw [flexiblePlaces, ← map_fst_flexible, List.isEmpty_map, List.isEmpty_map]

/-- A flexible slot stands at its place. -/
theorem getElem?_of_flexible {x : Slot × Nat} (h : x ∈ slots.zipIdx.filter fun x => !x.1.isFixed) :
    slots[x.2]? = some x.1 :=
  List.mem_zipIdx_iff_getElem?.mp (List.mem_of_mem_filter h)

theorem mapM_flexible {α : Type} (f : Slot → α) (slots : List Slot) :
    ((flexiblePlaces slots).mapM fun place => (slots[place]?).map f) = some ((Slot.sharing slots).map f) := by
  rw [flexiblePlaces, List.mapM_map, ← map_fst_flexible, List.map_map]
  refine mapM_some fun x hx => ?_
  rw [Function.comp_apply, getElem?_of_flexible hx, Option.map_some, Function.comp_apply]

/-- The minimum that is looked up by way of the place of a slot is its own. -/
theorem minimumAt_eq {i : Nat} {minimum : Cells}
    (h : ((Slot.sharing slots).map (·.minimumSize))[i]? = some minimum) : minimumAt slots i = some minimum := by
  rw [← map_fst_flexible, List.map_map, List.getElem?_map, Option.map_eq_some_iff] at h
  obtain ⟨x, hx, rfl⟩ := h
  have hplace : (flexiblePlaces slots)[i]? = some x.2 := by rw [flexiblePlaces, List.getElem?_map, hx, Option.map_some]
  simp only [minimumAt, hplace, getElem?_of_flexible (List.mem_of_getElem? hx), Option.bind_eq_bind, Option.bind_some]
  rfl

/-- What the fixed slots leave, be it a deficit, is shared out within range. -/
theorem settle_flexible (total : Cells) (hentries : slots.length ≤ mostEntries)
    (hpos : ∃ slot ∈ Slot.sharing slots, 0 < slot.ratio) :
    settle .floor ((Slot.sharing slots).map (·.ratio)) (minimumAt slots) (total.toNat - Slot.fixedTotal slots)
        (List.range ((Slot.sharing slots).map (·.ratio)).length)
        (((Slot.sharing slots).map (·.ratio)).map fun _ => 0) =
      some (flooredSizes (total.toNat - Slot.fixedTotal slots) ((Slot.sharing slots).map (·.ratio))
        ((Slot.sharing slots).map (·.minimumSize))).value := by
  obtain ⟨slot, hslot, hratio⟩ := hpos
  have hmost := Cells.toNat_le_most total
  have hfixed := Slot.fixedTotal_le hentries
  refine settle_floor_eq ?_ ?_ ⟨slot.ratio, List.mem_map_of_mem hslot, hratio⟩ (by omega) (by omega) fun _ _ hminimum =>
    minimumAt_eq hminimum
  · rw [List.length_map, List.length_map]
  · rw [List.length_map]
    exact (Slot.length_sharing_le slots).trans hentries

theorem fill_eq {filled : Traced (List Cells)} (h : Slot.fill total slots = .ok filled)
    (hentries : slots.length ≤ mostEntries) : fill total slots = some filled.value := by
  rw [fill, flexiblePlaces_isEmpty]
  by_cases hne : Slot.sharing slots = []
  · have hlength : ([] : List Cells).length = (Slot.sharing slots).length := by rw [hne, List.length_nil, List.length_nil]
    have hwritten := foldlM_write_weave hlength []
    rw [List.zip_nil_right] at hwritten
    rw [Slot.fill_of_fixed total hne] at h
    cases h
    rw [if_pos (List.isEmpty_iff.mpr hne)]
    exact hwritten
  · have hpos := Slot.exists_ratio_pos h hne
    have hmost := Cells.toNat_le_most total
    have hfixed := Slot.fixedTotal_le hentries
    have hroom : Wide.least + (Cells.most * mostEntries : Nat) ≤ 0 := by decide
    have hroom' : ((Cells.most * mostEntries : Nat) : Int) ≤ Wide.greatest := by decide
    have hsum : sum ((slots.filterMap (·.size)).map fun size => (size.toNat : Int)) =
        some (Slot.fixedTotal slots : Int) := sum_toNat ((Int.ofNat_le.mpr hfixed).trans hroom')
    have hlength : (flooredSizes (total.toNat - Slot.fixedTotal slots) ((Slot.sharing slots).map (·.ratio))
        ((Slot.sharing slots).map (·.minimumSize))).value.length = (Slot.sharing slots).length := by
      rw [length_flooredSizes, List.length_map]
    have hwritten := foldlM_write_weave hlength []
    have hgreatest : (Cells.most : Int) ≤ Wide.greatest := by decide
    have hbudget : signed (total.toNat - Slot.fixedTotal slots) =
        some (total.toNat - Slot.fixedTotal slots : Int) := signed_of_mem (by omega) (by omega)
    rw [if_neg (mt List.isEmpty_iff.mp hne), mapM_flexible (·.ratio), hsum, Slot.eq_of_fill h hne]
    simp only [Option.bind_eq_bind, Option.bind_some, hbudget, settle_flexible total hentries hpos]
    exact hwritten

end Slots

/-- Every run that succeeds, on lists that fit in memory, computes what it would compute in unbounded numbers, and
    every number on the way fits its type: no sum, product or difference is cut off, nothing is left over but fewer
    units than there are shares to take one, every share that is written is a count, and every place is there. -/
theorem runs_in_range :
    (∀ (total : Cells) (ratios : List Cells) (minimums : Option (List Cells)) (allotted : Traced (List Cells)),
      Allotment.allotAtLeast total ratios minimums = .ok allotted → ratios.length ≤ mostEntries →
        allotAtLeast total ratios minimums = some allotted.value) ∧
    (∀ (total : Cells) (ratios maximums values : List Cells) (allotted : Traced (List Cells)),
      Allotment.allotAtMost total ratios maximums values = .ok allotted → ratios.length ≤ mostEntries →
        allotAtMost total ratios maximums values = some allotted.value) ∧
    ∀ (total : Cells) (slots : List Slot) (filled : Traced (List Cells)),
      Slot.fill total slots = .ok filled → slots.length ≤ mostEntries → fill total slots = some filled.value :=
  ⟨fun _ _ _ _ => allotAtLeast_eq, fun _ _ _ _ _ => allotAtMost_eq, fun _ _ _ => fill_eq⟩

theorem exists_ok_of_map {run : Except AllotError (Traced (List Cells))} {sizes : List Cells}
    (h : run.map (·.value) = .ok sizes) : ∃ allotted, run = .ok allotted ∧ allotted.value = sizes := by
  cases run with
  | error e => cases h
  | ok allotted => exact ⟨allotted, rfl, Except.ok.inj h⟩

/-- Weights whose sum needs more than 64 bits, a floor that leaves a deficit, caps in two rounds, and fixed slots that
    overflow the row many times over. -/
theorem runs_in_range_deficits :
    allotAtLeast 0xffffffffffffffff [0xffffffffffffffff, 1, 0xffffffffffffffff]
        (some [0, 0xffffffffffffffff, 0xffffffffffffffff]) = some [0, 0xffffffffffffffff, 0xffffffffffffffff] ∧
      allotAtMost 0xffffffffffffffff [0xffffffffffffffff, 1, 0, 0xffffffffffffffff] [5, 0xfffffffffffffff0, 3, 7]
        [0, 0, 9, 0] = some [5, 0xfffffffffffffff0, 9, 7] ∧
      fill 20 [Slot.fixed 0xffffffffffffffff, Slot.withMinimum (Slot.flexible 0xffffffffffffffff) 0,
          Slot.fixed 0xffffffffffffffff, Slot.withMinimum (Slot.flexible 1) 2] =
        some [0xffffffffffffffff, 0, 0xffffffffffffffff, 2] := by
  obtain ⟨hleast, hmost, hfill⟩ := runs_in_range
  refine ⟨?_, ?_, ?_⟩
  · have hsizes : (Allotment.allotAtLeast 0xffffffffffffffff [0xffffffffffffffff, 1, 0xffffffffffffffff]
        (some [0, 0xffffffffffffffff, 0xffffffffffffffff])).map (·.value) =
          .ok [0, 0xffffffffffffffff, 0xffffffffffffffff] := by cbv
    obtain ⟨allotted, hok, hvalue⟩ := exists_ok_of_map hsizes
    rw [hleast _ _ _ allotted hok (by decide), hvalue]
  · have hsizes : (Allotment.allotAtMost 0xffffffffffffffff [0xffffffffffffffff, 1, 0, 0xffffffffffffffff]
        [5, 0xfffffffffffffff0, 3, 7] [0, 0, 9, 0]).map (·.value) = .ok [5, 0xfffffffffffffff0, 9, 7] := by cbv
    obtain ⟨allotted, hok, hvalue⟩ := exists_ok_of_map hsizes
    rw [hmost _ _ _ _ allotted hok (by decide), hvalue]
  · have hsizes : (Slot.fill 20 [Slot.fixed 0xffffffffffffffff, Slot.withMinimum (Slot.flexible 0xffffffffffffffff) 0,
        Slot.fixed 0xffffffffffffffff, Slot.withMinimum (Slot.flexible 1) 2]).map (·.value) =
          .ok [0xffffffffffffffff, 0, 0xffffffffffffffff, 2] := by cbv
    obtain ⟨filled, hok, hvalue⟩ := exists_ok_of_map hsizes
    rw [hfill _ _ filled hok (by decide), hvalue]

end Allotment.Checked
