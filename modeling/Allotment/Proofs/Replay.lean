import Allotment.Proofs.CapRates
import Allotment.Proofs.FlexibleSlots

/-! The events of an allotment tell how its sizes came about. Each round that pins slots tells the budget that it shared
    out and the places that it pinned; the bounds at these places are gone from the budget of the next. Whoever reads
    the events gives each pinned place its bound, and the other places their parts of what all bounds leave of the
    first budget, and has the sizes. -/

namespace Allotment

/-! ### Rounds in their accounts -/

/-- What keeps the accounts of all rounds: bounds that are missed are taken from the budget in full, and the shares of
    the last round are counts. -/
structure Steady (bound : Bound) (holds : Int → List Entrant → Prop) : Prop where
  spend : ∀ {budget pool}, holds budget pool → ¬(missing bound (shareOut budget pool)).isEmpty = true →
    bound.spendAll budget (missing bound (shareOut budget pool)) =
      budget - limitTotal (missing bound (shareOut budget pool))
  next : ∀ {budget pool}, holds budget pool → ¬(missing bound (shareOut budget pool)).isEmpty = true →
    holds (bound.spendAll budget (missing bound (shareOut budget pool))) (keeping bound (shareOut budget pool))
  last : ∀ {budget pool}, holds budget pool → (missing bound (shareOut budget pool)).isEmpty = true →
    ∀ s ∈ shareOut budget pool, 0 ≤ s.2 ∧ s.2 ≤ Cells.most

theorem steady_floor : Steady .floor UnderFloors where
  spend _ _ := spendAll_floor _ _
  next h hsome := h.next hsome
  last h hnone _ hs := h.share_mem hnone hs

theorem steady_cap : Steady .cap UnderCaps where
  spend h hsome := h.spendAll_eq hsome
  next h hsome := h.next hsome
  last h hnone _ hs := h.share_mem hnone hs

/-- All slots that were pinned, round after round. -/
def Settlement.pinned (settlement : Settlement) : List Entrant := settlement.rounds.flatMap (·.pinned)

/-- The slots that shared the last budget. -/
def Settlement.rest (settlement : Settlement) : List Entrant := settlement.shared.map (·.1)

/-- A settlement whose rounds account for the whole budget and for every slot of the pool. -/
structure Accounted (budget : Int) (pool : List Entrant) (settlement : Settlement) : Prop where
  first : ∀ round ∈ settlement.rounds.head?, round.budget = budget
  chain : settlement.rounds.IsChain fun (round next : Round) => next.budget = round.budget - limitTotal round.pinned
  pinned_ne_nil : ∀ round ∈ settlement.rounds, round.pinned ≠ []
  pinned_sublist : ∀ round ∈ settlement.rounds, round.pinned.Sublist pool
  rest_sublist : settlement.rest.Sublist pool
  perm : (settlement.pinned ++ settlement.rest).Perm pool
  shared : settlement.shared = shareOut (budget - limitTotal settlement.pinned) settlement.rest
  counts : ∀ s ∈ settlement.shared, 0 ≤ s.2 ∧ s.2 ≤ Cells.most

section Accounts
variable {bound : Bound} {budget : Int} {pool : List Entrant}

theorem Accounted.last (hcounts : ∀ s ∈ shareOut budget pool, 0 ≤ s.2 ∧ s.2 ≤ Cells.most) :
    Accounted budget pool ⟨[], shareOut budget pool⟩ where
  first _ hround := nomatch hround
  chain := List.IsChain.nil
  pinned_ne_nil _ hround := nomatch hround
  pinned_sublist _ hround := nomatch hround
  rest_sublist := by
    rw [Settlement.rest, map_fst_shareOut]
  perm := by
    rw [Settlement.rest, map_fst_shareOut]
    exact List.Perm.refl pool
  shared := by
    rw [Settlement.rest, map_fst_shareOut, Settlement.pinned, List.flatMap_nil, limitTotal_nil, Nat.cast_zero,
      Int.sub_zero]
  counts := hcounts

theorem Accounted.pin {later : Settlement} (hsome : ¬(missing bound (shareOut budget pool)).isEmpty = true)
    (h : Accounted (budget - limitTotal (missing bound (shareOut budget pool)))
      (keeping bound (shareOut budget pool)) later) :
    Accounted budget pool { later with rounds := ⟨budget, missing bound (shareOut budget pool)⟩ :: later.rounds } where
  first round hround := by
    cases hround
    rfl
  chain := List.isChain_cons.mpr ⟨h.first, h.chain⟩
  pinned_ne_nil round hround := by
    rcases List.mem_cons.mp hround with rfl | hround
    · exact mt List.isEmpty_iff.mpr hsome
    · exact h.pinned_ne_nil round hround
  pinned_sublist round hround := by
    rcases List.mem_cons.mp hround with rfl | hround
    · exact missing_sublist bound budget pool
    · exact (h.pinned_sublist round hround).trans (keeping_sublist bound budget pool)
  rest_sublist := h.rest_sublist.trans (keeping_sublist bound budget pool)
  perm := by
    have hparts := perm_missing_keeping bound (shareOut budget pool)
    rw [map_fst_shareOut] at hparts
    rw [Settlement.pinned, List.flatMap_cons, List.append_assoc]
    exact (h.perm.append_left _).trans hparts
  shared := by
    have hpinned : budget - limitTotal (missing bound (shareOut budget pool)) - limitTotal later.pinned =
        budget - limitTotal (missing bound (shareOut budget pool) ++ later.pinned) := by
      rw [limitTotal_append]
      omega
    rw [Settlement.pinned, List.flatMap_cons]
    exact hpinned ▸ h.shared
  counts := h.counts

/-- Every settlement accounts for its budget and its pool. -/
theorem Steady.accounted {holds : Int → List Entrant → Prop} (hsteady : Steady bound holds) (h : holds budget pool) :
    Accounted budget pool (settle bound budget pool) := by
  induction budget, pool using settle.induct bound with
  | case1 budget pool shared pinned hnone =>
    rw [settle_of_isEmpty hnone]
    exact Accounted.last (hsteady.last h hnone)
  | case2 budget pool shared pinned hsome ih =>
    have hlater := ih (hsteady.next h hsome)
    rw [settle_of_not_isEmpty hsome]
    rw [hsteady.spend h hsome] at hlater ⊢
    exact hlater.pin hsome

end Accounts

/-! ### Events read back -/

/-- What the event of a round tells: the budget that it shared out, and the places that it pinned. -/
structure Pin where
  budget : Int
  places : List Nat
  deriving DecidableEq, Repr

def Pin.event (bound : Bound) (pin : Pin) : Event := .pinned bound pin.budget pin.places

/-- What the event of a round tells. -/
def Round.pin (round : Round) : Pin := ⟨round.budget, round.pinned.map (·.place)⟩

/-- The counts at some places. -/
def countsAt (counts : List Cells) (places : List Nat) : List Cells := places.map fun place => counts.getD place 0

/-- All places that some events tell of. -/
def pinnedPlaces (pins : List Pin) : List Nat := pins.flatMap (·.places)

/-- The places of which no event tells. -/
def sharingPlaces (pins : List Pin) (places : List Nat) : List Nat :=
  places.filter fun place => place ∉ pinnedPlaces pins

/-- The events `pins` tell how a budget, shared out among the slots at `places`, comes to `sizes`. -/
structure Replays (budget : Int) (ratios limits : List Cells) (places : List Nat) (pins : List Pin)
    (sizes : List Cells) : Prop where
  length_le : pins.length ≤ places.length
  ne_nil : ∀ pin ∈ pins, pin.places ≠ []
  ascending : ∀ pin ∈ pins, pin.places.Pairwise (· < ·)
  disjoint : pins.Pairwise fun pin later => pin.places.Disjoint later.places
  within : ∀ pin ∈ pins, pin.places ⊆ places
  first : ∀ pin ∈ pins.head?, pin.budget = budget
  chain : pins.IsChain fun (pin next : Pin) => next.budget = pin.budget - Cells.total (countsAt limits pin.places)
  pinned : ∀ pin ∈ pins, ∀ place ∈ pin.places, sizes[place]? = limits[place]?
  shared : (sharingPlaces pins places).map (fun place => sizes[place]?.map fun size => (size.toNat : Int)) =
    (LargestRemainder.parts (budget - Cells.total (countsAt limits (pinnedPlaces pins)))
      (countsAt ratios (sharingPlaces pins places))).map some

/-- The slots of a pool stand in order, each beside its ratio and its bound. -/
structure Placed (ratios limits : List Cells) (length : Nat) (pool : List Entrant) : Prop where
  ascending : (pool.map (·.place)).Pairwise (· < ·)
  ratio : ∀ entrant ∈ pool, ratios[entrant.place]? = some entrant.ratio
  limit : ∀ entrant ∈ pool, limits[entrant.place]? = some entrant.limit
  place_lt : ∀ entrant ∈ pool, entrant.place < length

section Replay
variable {bound : Bound} {budget : Int} {pool : List Entrant} {ratios limits others : List Cells}
  {settlement : Settlement}

theorem Placed.nodup {length : Nat} (h : Placed ratios limits length pool) : (pool.map (·.place)).Nodup :=
  h.ascending.imp Nat.ne_of_lt

theorem countsAt_map_place {counts : List Cells} {part : List Entrant} {f : Entrant → Cells}
    (h : ∀ entrant ∈ part, counts[entrant.place]? = some (f entrant)) :
    countsAt counts (part.map (·.place)) = part.map f := by
  rw [countsAt, List.map_map]
  refine List.map_congr_left fun entrant hmem => ?_
  rw [Function.comp_apply, List.getD_eq_getElem?_getD, h entrant hmem, Option.getD_some]

theorem Placed.total_limits {length : Nat} (h : Placed ratios limits length pool) {part : List Entrant}
    (hpart : part ⊆ pool) : Cells.total (countsAt limits (part.map (·.place))) = limitTotal part := by
  rw [countsAt_map_place fun entrant hmem => h.limit entrant (hpart hmem), limitTotal]

theorem map_event_pins (bound : Bound) (settlement : Settlement) :
    (settlement.rounds.map Round.pin).map (Pin.event bound) = settlement.events bound := List.map_map

theorem pinnedPlaces_pins (settlement : Settlement) :
    pinnedPlaces (settlement.rounds.map Round.pin) = settlement.pinned.map (·.place) := by
  rw [pinnedPlaces, Settlement.pinned, List.flatMap_map, List.map_flatMap]
  rfl

namespace Accounted

theorem pinned_subset (h : Accounted budget pool settlement) : settlement.pinned ⊆ pool := fun _ hmem =>
  h.perm.subset (List.mem_append_left _ hmem)

theorem length_rounds_le (h : Accounted budget pool settlement) : settlement.rounds.length ≤ pool.length := by
  have hpinned : settlement.rounds.length ≤ settlement.pinned.length := by
    have hone : ∀ n ∈ settlement.rounds.map (·.pinned.length), 1 ≤ n := by
      intro n hn
      obtain ⟨round, hround, rfl⟩ := List.mem_map.mp hn
      exact List.length_pos_iff.mpr (h.pinned_ne_nil round hround)
    have hsum := List.length_le_sum_of_one_le _ hone
    rwa [List.length_map, ← List.length_flatMap] at hsum
  have hall := h.perm.length_eq
  rw [List.length_append] at hall
  omega

theorem nodup_places {length : Nat} (h : Accounted budget pool settlement)
    (hplaced : Placed ratios limits length pool) :
    (settlement.pinned.map (·.place) ++ settlement.rest.map (·.place)).Nodup := by
  rw [← List.map_append]
  exact (h.perm.map _).nodup_iff.mpr hplaced.nodup

/-- Whoever was not pinned shares the last budget, in order. -/
theorem sharingPlaces_eq {length : Nat} (h : Accounted budget pool settlement)
    (hplaced : Placed ratios limits length pool) :
    sharingPlaces (settlement.rounds.map Round.pin) (pool.map (·.place)) = settlement.rest.map (·.place) := by
  have hnodup := h.nodup_places hplaced
  refine List.Perm.eq_of_pairwise ?_ (hplaced.ascending.sublist List.filter_sublist)
    (hplaced.ascending.sublist (h.rest_sublist.map _)) ?_
  · exact fun a b _ _ hab hba => absurd hab (Nat.lt_asymm hba)
  rw [sharingPlaces, List.perm_ext_iff_of_nodup (hplaced.nodup.filter _) (List.nodup_append.mp hnodup).2.1]
  intro place
  have hmem := (h.perm.map (·.place)).mem_iff (a := place)
  rw [List.map_append, List.mem_append] at hmem
  rw [pinnedPlaces_pins, List.mem_filter, decide_eq_true_eq, ← hmem]
  constructor
  · rintro ⟨hpinned | hrest, hnot⟩
    · exact absurd hpinned hnot
    · exact hrest
  · intro hrest
    exact ⟨Or.inr hrest, fun hpinned => (List.nodup_append.mp hnodup).2.2 place hpinned place hrest rfl⟩

theorem getElem?_sizes_of_pinned (h : Accounted budget pool (settle bound budget pool))
    (hplaced : Placed ratios limits others.length pool) {round : Round}
    (hround : round ∈ (settle bound budget pool).rounds)
    {entrant : Entrant} (hmem : entrant ∈ round.pinned) :
    ((settle bound budget pool).sizes others)[entrant.place]? = some entrant.limit := by
  have hpool := (h.pinned_sublist round hround).subset hmem
  refine getElem?_sizes hplaced.nodup ?_ (hplaced.place_lt entrant hpool)
  refine List.mem_append_left _ (List.mem_flatMap.mpr ⟨round, hround, ?_⟩)
  exact List.mem_map.mpr ⟨entrant, hmem, rfl⟩

theorem getElem?_sizes_of_shared (h : Accounted budget pool (settle bound budget pool))
    (hplaced : Placed ratios limits others.length pool) {s : Entrant × Int}
    (hs : s ∈ (settle bound budget pool).shared) :
    (((settle bound budget pool).sizes others)[s.1.place]?.map fun size => (size.toNat : Int)) = some s.2 := by
  have hpool := h.rest_sublist.subset (List.mem_map_of_mem hs)
  have houtcome : (s.1, Cells.nearest s.2) ∈ (settle bound budget pool).outcomes :=
    List.mem_append_right _ (List.mem_map.mpr ⟨s, hs, rfl⟩)
  rw [getElem?_sizes hplaced.nodup houtcome (hplaced.place_lt _ hpool), Option.map_some]
  exact congrArg some (Cells.nearest_of_mem (h.counts s hs).1 (h.counts s hs).2)

/-- The shares of the last round are the sizes of those who have them. -/
theorem map_shared (h : Accounted budget pool settlement) (hplaced : Placed ratios limits others.length pool) :
    settlement.shared.map (·.2) =
      LargestRemainder.parts (budget - Cells.total (countsAt limits (settlement.pinned.map (·.place))))
        (countsAt ratios (settlement.rest.map (·.place))) := by
  rw [hplaced.total_limits h.pinned_subset,
    countsAt_map_place fun entrant hmem => hplaced.ratio entrant (h.rest_sublist.subset hmem)]
  conv_lhs => rw [h.shared, shareOut]
  rw [List.map_snd_zip]
  rw [LargestRemainder.length_parts, List.length_map]

/-- The events of a settlement that accounts for its budget and its pool replay to its sizes. -/
theorem replays (h : Accounted budget pool (settle bound budget pool))
    (hplaced : Placed ratios limits others.length pool) :
    Replays budget ratios limits (pool.map (·.place)) ((settle bound budget pool).rounds.map Round.pin)
      ((settle bound budget pool).sizes others) where
  length_le := by
    rw [List.length_map, List.length_map]
    exact h.length_rounds_le
  ne_nil pin hpin := by
    obtain ⟨round, hround, rfl⟩ := List.mem_map.mp hpin
    exact mt List.map_eq_nil_iff.mp (h.pinned_ne_nil round hround)
  ascending pin hpin := by
    obtain ⟨round, hround, rfl⟩ := List.mem_map.mp hpin
    exact hplaced.ascending.sublist ((h.pinned_sublist round hround).map _)
  disjoint := by
    have hnodup := (List.nodup_append.mp (h.nodup_places hplaced)).1
    rw [← pinnedPlaces_pins] at hnodup
    exact (List.nodup_flatMap.mp hnodup).2
  within pin hpin := by
    obtain ⟨round, hround, rfl⟩ := List.mem_map.mp hpin
    exact ((h.pinned_sublist round hround).map _).subset
  first pin hpin := by
    rw [List.head?_map] at hpin
    obtain ⟨round, hround, rfl⟩ := Option.map_eq_some_iff.mp hpin
    exact h.first round hround
  chain := by
    rw [List.isChain_map]
    refine h.chain.imp_of_mem_imp fun round next hround _ hnext => ?_
    have hlimits : Cells.total (countsAt limits round.pin.places) = limitTotal round.pinned :=
      hplaced.total_limits (h.pinned_sublist round hround).subset
    rw [hlimits]
    exact hnext
  pinned pin hpin place hplace := by
    obtain ⟨round, hround, rfl⟩ := List.mem_map.mp hpin
    obtain ⟨entrant, hmem, rfl⟩ := List.mem_map.mp hplace
    rw [h.getElem?_sizes_of_pinned hplaced hround hmem]
    exact (hplaced.limit entrant ((h.pinned_sublist round hround).subset hmem)).symm
  shared := by
    rw [h.sharingPlaces_eq hplaced, pinnedPlaces_pins, ← h.map_shared hplaced, Settlement.rest, List.map_map,
      List.map_map, List.map_map]
    exact List.map_congr_left fun s hs => h.getElem?_sizes_of_shared hplaced hs

end Accounted

/-! ### Allotments -/

theorem placed_entrants (h : limits.length = ratios.length) :
    Placed ratios limits ratios.length (entrants ratios limits) where
  ascending := by
    rw [map_place_entrants h]
    exact List.pairwise_lt_range
  ratio _ hmem := (List.getElem?_zip_eq_some.mp (mem_entrants.mp hmem)).1
  limit _ hmem := (List.getElem?_zip_eq_some.mp (mem_entrants.mp hmem)).2
  place_lt _ hmem := place_lt_of_mem_entrants h hmem

theorem placed_takers (h : limits.length = ratios.length) :
    Placed ratios limits ratios.length (takers ratios limits) where
  ascending := (placed_entrants h).ascending.sublist (List.filter_sublist.map _)
  ratio _ hmem := (placed_entrants h).ratio _ (List.mem_of_mem_filter hmem)
  limit _ hmem := (placed_entrants h).limit _ (List.mem_of_mem_filter hmem)
  place_lt _ hmem := place_lt_of_mem_takers h hmem

/-- The places of a positive ratio. -/
def positivePlaces (ratios : List Cells) : List Nat :=
  (List.range ratios.length).filter fun place => 0 < ratios.getD place 0

theorem map_place_takers (h : limits.length = ratios.length) :
    (takers ratios limits).map (·.place) = positivePlaces ratios := by
  rw [positivePlaces, ← map_place_entrants h, List.filter_map, takers]
  congr 1
  refine List.filter_congr fun entrant hmem => ?_
  rw [Function.comp_apply, List.getD_eq_getElem?_getD, (placed_entrants h).ratio entrant hmem, Option.getD_some]

theorem replays_flooredSizes (h : limits.length = ratios.length)
    (hunder : UnderFloors budget (entrants ratios limits)) :
    ∃ pins : List Pin, (flooredSizes budget ratios limits).events = pins.map (Pin.event .floor) ∧
      Replays budget ratios limits (List.range ratios.length) pins (flooredSizes budget ratios limits).value := by
  have hplaced : Placed ratios limits (ratios.map fun _ => (0 : Cells)).length (entrants ratios limits) := by
    rw [List.length_map]
    exact placed_entrants h
  have hreplays := (steady_floor.accounted hunder).replays hplaced
  rw [map_place_entrants h] at hreplays
  exact ⟨_, (map_event_pins _ _).symm, hreplays⟩

theorem replays_cappedSizes {budget : Nat} (hlimits : limits.length = ratios.length)
    (hothers : others.length = ratios.length) (hunder : UnderCaps budget (takers ratios limits)) :
    ∃ pins : List Pin, (cappedSizes budget ratios limits others).events = pins.map (Pin.event .cap) ∧
      Replays budget ratios limits (positivePlaces ratios) pins (cappedSizes budget ratios limits others).value := by
  have hplaced : Placed ratios limits others.length (takers ratios limits) := hothers ▸ placed_takers hlimits
  have hreplays := (steady_cap.accounted hunder).replays hplaced
  rw [map_place_takers hlimits] at hreplays
  exact ⟨_, (map_event_pins _ _).symm, hreplays⟩

end Replay

/-- The events of every allotment replay to its sizes: with least sizes, of the flexible slots of a row, and with
    greatest sizes. -/
theorem events_replay :
    (∀ (total : Cells) (ratios : List Cells) (minimums : Option (List Cells)) (allotted : Traced (List Cells)),
      ratios.length ≤ mostEntries → allotAtLeast total ratios minimums = .ok allotted →
      ∃ pins : List Pin, allotted.events = pins.map (Pin.event .floor) ∧
        Replays total.toNat ratios (floorsOf ratios minimums) (List.range ratios.length) pins allotted.value) ∧
    (∀ (total : Cells) (slots : List Slot) (filled : Traced (List Cells)), slots.length ≤ mostEntries →
      Slot.fill total slots = .ok filled → Slot.sharing slots ≠ [] →
      ∃ pins : List Pin, filled.events = pins.map (Pin.event .floor) ∧
        Replays (total.toNat - Slot.fixedTotal slots) ((Slot.sharing slots).map (·.ratio))
          ((Slot.sharing slots).map (·.minimumSize)) (List.range (Slot.sharing slots).length) pins
          (Slot.flexibleSizes slots filled.value)) ∧
    ∀ (total : Cells) (ratios maximums values : List Cells) (allotted : Traced (List Cells)),
      ratios.length ≤ mostEntries → allotAtMost total ratios maximums values = .ok allotted →
      ∃ pins : List Pin, allotted.events = pins.map (Pin.event .cap) ∧
        Replays total.toNat ratios maximums (positivePlaces ratios) pins allotted.value := by
  refine ⟨fun total ratios minimums allotted hentries hallot => ?_, fun total slots filled hentries hfill hne => ?_,
    fun total ratios maximums values allotted hentries hallot => ?_⟩
  · obtain ⟨hlength, hpos, rfl⟩ := allotAtLeast_eq_ok_iff.mp hallot
    exact replays_flooredSizes hlength (underFloors_total total hlength hentries hpos)
  · have hunder := Slot.underFloors_fill total hentries (Slot.exists_ratio_pos hfill hne)
    rw [Slot.flexibleSizes_of_fill hfill hne, Slot.eq_of_fill hfill hne, Traced.events_map]
    have hreplays := replays_flooredSizes (Slot.length_minimums (Slot.sharing slots)) hunder
    rwa [List.length_map] at hreplays
  · obtain ⟨hmaximums, hvalues, rfl⟩ := allotAtMost_eq_ok_iff.mp hallot
    exact replays_cappedSizes hmaximums hvalues (underCaps_total total hmaximums hentries)

/-- Two rounds pin a slot each before the third slot has what is left, in an allotment and beside a fixed slot in a row;
    under a cap one round pins the first slot, and the slot of ratio 0 is in none. -/
theorem events_replay_repinned :
    ([1, 1, 1].length ≤ mostEntries ∧ ∃ allotted, allotAtLeast 10 [1, 1, 1] (some [4, 4, 0]) = .ok allotted ∧
      allotted.events = [.pinned .floor 10 [1], .pinned .floor 6 [0]] ∧ allotted.value = [4, 4, 2] ∧
      ∃ pins : List Pin, allotted.events = pins.map (Pin.event .floor) ∧
        Replays 10 [1, 1, 1] [4, 4, 0] (List.range 3) pins allotted.value) ∧
    (∃ filled, Slot.fill 13 [Slot.withMinimum (Slot.flexible 1) 4, Slot.fixed 3, Slot.withMinimum (Slot.flexible 1) 4,
        Slot.withMinimum (Slot.flexible 1) 0] = .ok filled ∧
      ∃ pins : List Pin, filled.events = pins.map (Pin.event .floor) ∧
        Replays 10 [1, 1, 1] [4, 4, 0] (List.range 3) pins
          (Slot.flexibleSizes [Slot.withMinimum (Slot.flexible 1) 4, Slot.fixed 3,
            Slot.withMinimum (Slot.flexible 1) 4, Slot.withMinimum (Slot.flexible 1) 0] filled.value)) ∧
    ∃ allotted, allotAtMost 10 [1, 1, 0] [2, 100, 0] [0, 0, 7] = .ok allotted ∧
      allotted.events = [.pinned .cap 10 [0]] ∧ allotted.value = [2, 8, 7] ∧
      ∃ pins : List Pin, allotted.events = pins.map (Pin.event .cap) ∧
        Replays 10 [1, 1, 0] [2, 100, 0] (positivePlaces [1, 1, 0]) pins allotted.value := by
  obtain ⟨hfloors, hrows, hcaps⟩ := events_replay
  refine ⟨⟨by decide, _, rfl, by cbv, by cbv, hfloors 10 [1, 1, 1] (some [4, 4, 0]) _ (by decide) rfl⟩,
    ⟨_, rfl, hrows 13 [Slot.withMinimum (Slot.flexible 1) 4, Slot.fixed 3, Slot.withMinimum (Slot.flexible 1) 4,
      Slot.withMinimum (Slot.flexible 1) 0] _ (by decide) rfl (by decide)⟩, ?_⟩
  exact ⟨_, rfl, by cbv, by cbv, hcaps 10 [1, 1, 0] [2, 100, 0] [0, 0, 7] _ (by decide) rfl⟩

end Allotment
