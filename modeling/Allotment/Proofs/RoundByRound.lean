import Allotment.Proofs.CapRates

/-! The rounds of an allotment one by one. A round opens with a budget and a pool of slots, and shares the budget out at
    a rate: so many cells for each unit of ratio. From one round to the next the rate moves one way. Under floors it
    falls, since the floors that were missed take more than their ratios had a claim to; under caps it rises, since the
    caps take less. So a slot that was pinned in any round misses its bound at the rate of the last round as well. -/

namespace Allotment

/-! ### Openings -/

/-- What a round opens with: the budget that it shares out, and the slots of its pool. -/
structure Opening where
  budget : Int
  pool : List Entrant
  deriving DecidableEq, Repr

namespace Opening
variable {bound : Bound} {opening : Opening}

/-- The sum of the ratios of the pool, by which the rate of the round divides its budget. -/
def ratios (opening : Opening) : Nat := ratioTotal opening.pool

/-- The slots that the round pins. -/
def pinned (bound : Bound) (opening : Opening) : List Entrant := missing bound (shareOut opening.budget opening.pool)

/-- What is left of the budget and of the pool after the round. -/
def next (bound : Bound) (opening : Opening) : Opening where
  budget := bound.spendAll opening.budget (opening.pinned bound)
  pool := keeping bound (shareOut opening.budget opening.pool)

/-- The round as a settlement keeps it, if it pins slots. -/
def round? (bound : Bound) (opening : Opening) : Option Round :=
  if opening.pinned bound = [] then none else some ⟨opening.budget, opening.pinned bound⟩

/-- The shares that the round gives out, if it pins no slots. -/
def shared (bound : Bound) (opening : Opening) : List (Entrant × Int) :=
  if opening.pinned bound = [] then shareOut opening.budget opening.pool else []

theorem pinned_eq_nil_iff :
    opening.pinned bound = [] ↔ (missing bound (shareOut opening.budget opening.pool)).isEmpty = true :=
  List.isEmpty_iff.symm

theorem length_next_lt (h : opening.pinned bound ≠ []) : (opening.next bound).pool.length < opening.pool.length := by
  have hsome : 0 < (missing bound (shareOut opening.budget opening.pool)).length := List.length_pos_iff.mpr h
  have hparts := length_missing_add_length_keeping bound (shareOut opening.budget opening.pool)
  rw [length_shareOut] at hparts
  show (keeping bound (shareOut opening.budget opening.pool)).length < opening.pool.length
  omega

theorem ratios_next_le (bound : Bound) (opening : Opening) : (opening.next bound).ratios ≤ opening.ratios := by
  have hparts := ratioTotal_missing_add_keeping bound opening.budget opening.pool
  show ratioTotal (keeping bound (shareOut opening.budget opening.pool)) ≤ ratioTotal opening.pool
  omega

end Opening

/-- The openings of the rounds, one after another. There is a round as long as slots are left, but none after a round
    that pins no slot. -/
def openings (bound : Bound) (opening : Opening) : List Opening :=
  if opening.pool = [] then []
  else if opening.pinned bound = [] then [opening]
  else opening :: openings bound (opening.next bound)
termination_by opening.pool.length
decreasing_by
  rename_i hsome
  exact Opening.length_next_lt hsome

section Openings
variable {bound : Bound} {opening start : Opening}

theorem openings_of_nil (h : opening.pool = []) : openings bound opening = [] := by
  rw [openings, if_pos h]

theorem openings_of_last (hne : opening.pool ≠ []) (hnone : opening.pinned bound = []) :
    openings bound opening = [opening] := by
  rw [openings, if_neg hne, if_pos hnone]

theorem openings_of_pinned (hne : opening.pool ≠ []) (hsome : opening.pinned bound ≠ []) :
    openings bound opening = opening :: openings bound (opening.next bound) := by
  rw [openings, if_neg hne, if_neg hsome]

/-- How rounds end: those that pinned slots, and the shares of the last if it pinned none. -/
def settlementOf (bound : Bound) (rounds : List Opening) : Settlement where
  rounds := rounds.filterMap (Opening.round? bound)
  shared := rounds.getLast?.elim [] (Opening.shared bound)

theorem settlementOf_cons (hsome : opening.pinned bound ≠ []) (rounds : List Opening) :
    settlementOf bound (opening :: rounds) =
      { settlementOf bound rounds with
        rounds := ⟨opening.budget, opening.pinned bound⟩ :: (settlementOf bound rounds).rounds } := by
  rw [settlementOf, settlementOf, List.filterMap_cons, Opening.round?, if_neg hsome, List.getLast?_cons]
  cases rounds.getLast? with
  | none => simp only [Option.getD_none, Option.elim_some, Option.elim_none, Opening.shared, if_neg hsome]
  | some last => rfl

/-- A settlement is how its rounds end. -/
theorem settle_eq_settlementOf (bound : Bound) (start : Opening) :
    settle bound start.budget start.pool = settlementOf bound (openings bound start) := by
  induction start using openings.induct bound with
  | case1 start hnil =>
    rw [openings_of_nil hnil, hnil, settle_of_isEmpty rfl]
    rfl
  | case2 start hne hnone =>
    rw [openings_of_last hne hnone, settle_of_isEmpty (Opening.pinned_eq_nil_iff.mp hnone), settlementOf,
      List.filterMap_cons, Opening.round?, if_pos hnone, List.getLast?_singleton, Option.elim_some, Opening.shared,
      if_pos hnone, List.filterMap_nil]
  | case3 start hne hsome ih =>
    rw [openings_of_pinned hne hsome, settlementOf_cons hsome, ← ih,
      settle_of_not_isEmpty (mt Opening.pinned_eq_nil_iff.mpr hsome)]
    rfl

/-- What rounds that pin slots keep holds of every round, and no round is without slots. -/
theorem forall_mem_openings {holds : Opening → Prop} (hstart : holds start)
    (hnext : ∀ {opening}, holds opening → opening.pinned bound ≠ [] → holds (opening.next bound)) :
    ∀ opening ∈ openings bound start, holds opening ∧ opening.pool ≠ [] := by
  induction start using openings.induct bound with
  | case1 start hnil =>
    rw [openings_of_nil hnil]
    exact fun _ hmem => nomatch hmem
  | case2 start hne hnone =>
    rw [openings_of_last hne hnone]
    exact fun opening hmem => List.mem_singleton.mp hmem ▸ ⟨hstart, hne⟩
  | case3 start hne hsome ih =>
    rw [openings_of_pinned hne hsome]
    intro opening hmem
    rcases List.mem_cons.mp hmem with rfl | hmem
    · exact ⟨hstart, hne⟩
    · exact ih (hnext hstart hsome) opening hmem

theorem ratios_le_of_mem_openings (h : opening ∈ openings bound start) : opening.ratios ≤ start.ratios := by
  have hkept : ∀ later ∈ openings bound start, later.ratios ≤ start.ratios ∧ later.pool ≠ [] :=
    forall_mem_openings (Nat.le_refl _) fun {later} hle _ => (later.ratios_next_le bound).trans hle
  exact (hkept opening h).1

end Openings

/-! ### The way that a rate moves -/

/-- A value misses a limit on the side that its bound forbids. -/
def Bound.Misses (bound : Bound) (value limit : Int) : Prop :=
  match bound with
  | .floor => value < limit
  | .cap => limit < value

/-- What misses at one rate misses at every rate further on. -/
theorem Bound.Misses.of_rate {bound : Bound} {n ratio budget total budget' total' : Int} (htotal : 0 < total)
    (htotal' : 0 < total') (hratio : 0 ≤ ratio) (hrate : bound.Misses (budget' * total) (budget * total'))
    (h : bound.Misses (budget * ratio) (n * total)) : bound.Misses (budget' * ratio) (n * total') := by
  cases bound with
  | floor => exact lt_mul_of_rate_le htotal' htotal hratio (le_of_lt hrate) h
  | cap => exact mul_lt_of_rate_le htotal' htotal hratio (le_of_lt hrate) h

/-- Rounds whose rate moves one way: a round that pins slots keeps what it finds, the slots miss their bounds at its
    rate, and the rate that it leaves is further on. -/
structure OneWay (bound : Bound) (holds : Opening → Prop) : Prop where
  next : ∀ {opening}, holds opening → opening.pinned bound ≠ [] → holds (opening.next bound)
  misses : ∀ {opening}, holds opening → 0 < opening.ratios → ∀ entrant ∈ opening.pinned bound,
    bound.Misses (opening.budget * entrant.ratio.toNat) (entrant.limit.toNat * opening.ratios)
  moves : ∀ {opening}, holds opening → 0 < opening.ratios → opening.pinned bound ≠ [] →
    bound.Misses ((opening.next bound).budget * opening.ratios) (opening.budget * (opening.next bound).ratios)

theorem oneWay_floor : OneWay .floor fun opening => InWords opening.budget opening.pool where
  next h _ := h.next
  misses h hpos _ hmem := h.mul_ratio_lt hpos hmem
  moves h hpos hsome := h.rate_lt hpos (mt Opening.pinned_eq_nil_iff.mpr hsome)

theorem oneWay_cap : OneWay .cap fun opening => UnderCaps opening.budget opening.pool where
  next h hsome := h.next (mt Opening.pinned_eq_nil_iff.mpr hsome)
  misses h _ _ hmem := h.limit_mul_lt hmem
  moves h _ hsome := h.rate_lt (mt Opening.pinned_eq_nil_iff.mpr hsome)

namespace OneWay
variable {bound : Bound} {holds : Opening → Prop} {start opening last : Opening} {entrant : Entrant}

/-- Each round that pins slots moves the rate, if it leaves one. -/
theorem moves_of_mem (h : OneWay bound holds) (hstart : holds start) (hmem : opening ∈ openings bound start)
    (hsome : opening.pinned bound ≠ []) (hpos : 0 < (opening.next bound).ratios) :
    bound.Misses ((opening.next bound).budget * opening.ratios) (opening.budget * (opening.next bound).ratios) :=
  h.moves (forall_mem_openings hstart h.next opening hmem).1 (Nat.lt_of_lt_of_le hpos (opening.ratios_next_le bound))
    hsome

/-- What misses at the rate of the first round misses at that of the last. -/
theorem misses_last (h : OneWay bound holds) (hstart : holds start) {n ratio : Int} (hratio : 0 ≤ ratio)
    (hmisses : bound.Misses (start.budget * ratio) (n * start.ratios))
    (hlast : last ∈ (openings bound start).getLast?) (hpos : 0 < last.ratios) :
    bound.Misses (last.budget * ratio) (n * last.ratios) := by
  induction start using openings.induct bound with
  | case1 start hnil =>
    rw [openings_of_nil hnil] at hlast
    cases hlast
  | case2 start hne hnone =>
    rw [openings_of_last hne hnone] at hlast
    cases hlast
    exact hmisses
  | case3 start hne hsome ih =>
    rw [openings_of_pinned hne hsome, List.getLast?_cons] at hlast
    cases hlater : (openings bound (start.next bound)).getLast? with
    | none =>
      rw [hlater] at hlast
      cases hlast
      exact hmisses
    | some later =>
      rw [hlater] at hlast
      cases hlast
      have hnext : 0 < (start.next bound).ratios :=
        Nat.lt_of_lt_of_le hpos (ratios_le_of_mem_openings (List.mem_of_getLast? hlater))
      have hfirst : 0 < start.ratios := Nat.lt_of_lt_of_le hnext (start.ratios_next_le bound)
      refine ih (h.next hstart hsome) ?_ hlater
      exact Bound.Misses.of_rate (by exact_mod_cast hfirst) (by exact_mod_cast hnext) hratio
        (h.moves hstart hfirst hsome) hmisses

theorem misses_last_of_pinned (h : OneWay bound holds) (hstart : holds start)
    (hlast : last ∈ (openings bound start).getLast?) (hpos : 0 < last.ratios) (hmem : entrant ∈ start.pinned bound) :
    bound.Misses (last.budget * entrant.ratio.toNat) (entrant.limit.toNat * last.ratios) := by
  have hratios := Nat.lt_of_lt_of_le hpos (ratios_le_of_mem_openings (List.mem_of_getLast? hlast))
  exact h.misses_last hstart (Int.natCast_nonneg _) (h.misses hstart hratios entrant hmem) hlast hpos

/-- A slot that any round pins misses its bound at the rate of the last. -/
theorem misses_last_of_mem (h : OneWay bound holds) (hstart : holds start)
    (hlast : last ∈ (openings bound start).getLast?) (hpos : 0 < last.ratios)
    (hopening : opening ∈ openings bound start) (hmem : entrant ∈ opening.pinned bound) :
    bound.Misses (last.budget * entrant.ratio.toNat) (entrant.limit.toNat * last.ratios) := by
  induction start using openings.induct bound with
  | case1 start hnil =>
    rw [openings_of_nil hnil] at hopening
    cases hopening
  | case2 start hne hnone =>
    rw [openings_of_last hne hnone, List.mem_singleton] at hopening
    rw [hopening] at hmem
    exact h.misses_last_of_pinned hstart hlast hpos hmem
  | case3 start hne hsome ih =>
    have hopening' := hopening
    rw [openings_of_pinned hne hsome] at hopening'
    rcases List.mem_cons.mp hopening' with rfl | hlater
    · exact h.misses_last_of_pinned hstart hlast hpos hmem
    -- The last round is that of the rounds after this one.
    · rw [openings_of_pinned hne hsome, List.getLast?_cons_of_ne_nil (List.ne_nil_of_mem hlater)] at hlast
      exact ih (h.next hstart hsome) hlast hlater

end OneWay

/-! ### Caps in their turn -/

/-- No cap takes more than those pinned before it in its round leave. -/
theorem UnderCaps.limit_le_spendAll {budget : Int} {pool before after : List Entrant} {entrant : Entrant}
    (h : UnderCaps budget pool) (hpinned : missing .cap (shareOut budget pool) = before ++ entrant :: after) :
    (entrant.limit.toNat : Int) ≤ Bound.cap.spendAll budget before := by
  have hsome : ¬(missing .cap (shareOut budget pool)).isEmpty = true := by
    rw [hpinned, List.isEmpty_iff]
    exact List.append_ne_nil_of_right_ne_nil _ (List.cons_ne_nil _ _)
  have hleft := h.sub_limitTotal_nonneg hsome
  rw [hpinned, limitTotal_append, limitTotal_cons] at hleft
  rw [spendAll_cap h.low]
  omega

/-! ### Allotments -/

/-- Rounds under floors whose rate falls. -/
structure Falling (rounds : List Opening) : Prop where
  rate : ∀ round ∈ rounds, round.pinned .floor ≠ [] → 0 < (round.next .floor).ratios →
    (round.next .floor).budget * round.ratios < round.budget * (round.next .floor).ratios
  pinned : ∀ last ∈ rounds.getLast?, 0 < last.ratios → ∀ round ∈ rounds, ∀ entrant ∈ round.pinned .floor,
    last.budget * entrant.ratio.toNat < entrant.limit.toNat * last.ratios

/-- Rounds under caps whose rate rises, and of which none takes more than there is. -/
structure Rising (rounds : List Opening) : Prop where
  rate : ∀ round ∈ rounds, round.pinned .cap ≠ [] → (round.next .cap).pool ≠ [] →
    round.budget * (round.next .cap).ratios < (round.next .cap).budget * round.ratios
  spends : ∀ round ∈ rounds, ∀ before entrant after, round.pinned .cap = before ++ entrant :: after →
    (entrant.limit.toNat : Int) ≤ Bound.cap.spendAll round.budget before
  pinned : ∀ last ∈ rounds.getLast?, ∀ round ∈ rounds, ∀ entrant ∈ round.pinned .cap,
    entrant.limit.toNat * last.ratios < last.budget * entrant.ratio.toNat

theorem falling_openings {start : Opening} (h : InWords start.budget start.pool) : Falling (openings .floor start) where
  rate _ hround hsome hpos := oneWay_floor.moves_of_mem h hround hsome hpos
  pinned _ hlast hpos _ hround _ hmem := oneWay_floor.misses_last_of_mem h hlast hpos hround hmem

theorem rising_openings {start : Opening} (h : UnderCaps start.budget start.pool) : Rising (openings .cap start) where
  rate round hround hsome hne := by
    obtain ⟨hround', -⟩ := forall_mem_openings h oneWay_cap.next round hround
    exact oneWay_cap.moves_of_mem h hround hsome (ratioTotal_pos (oneWay_cap.next hround' hsome).positive hne)
  spends round hround before entrant after hpinned :=
    (forall_mem_openings h oneWay_cap.next round hround).1.limit_le_spendAll hpinned
  pinned last hlast round hround entrant hmem := by
    obtain ⟨hlast', hne⟩ := forall_mem_openings h oneWay_cap.next last (List.mem_of_getLast? hlast)
    exact oneWay_cap.misses_last_of_mem h hlast (ratioTotal_pos hlast'.positive hne) hround hmem

theorem inWords_entrants {budget : Int} {ratios limits : List Cells} (hlength : limits.length = ratios.length)
    (hentries : ratios.length ≤ mostEntries) (hbudget : budget ≤ Wide.greatest) :
    InWords budget (entrants ratios limits) where
  ratios := by
    have hratios : (Cells.total ratios : Int) ≤ (Cells.most * mostEntries : Nat) :=
      Int.ofNat_le.mpr (Cells.total_le_of_length hentries)
    rw [ratioTotal_entrants hlength]
    exact hratios.trans (by decide)
  high := hbudget

/-- The rate moves one way in every allotment: under floors it falls from round to round, for a deficit as for any other
    budget, and under caps it rises, and no cap takes more than there is. -/
theorem rates_move_one_way :
    (∀ (budget : Int) (ratios minimums : List Cells), budget ≤ Wide.greatest → ratios.length ≤ mostEntries →
      minimums.length = ratios.length → ∃ rounds, rounds = openings .floor ⟨budget, entrants ratios minimums⟩ ∧
        flooredSizes budget ratios minimums =
          ⟨(settlementOf .floor rounds).sizes (ratios.map fun _ => 0), (settlementOf .floor rounds).events .floor⟩ ∧
        Falling rounds) ∧
    ∀ (total : Cells) (ratios maximums values : List Cells) (allotted : Traced (List Cells)),
      ratios.length ≤ mostEntries → allotAtMost total ratios maximums values = .ok allotted →
      ∃ rounds, rounds = openings .cap ⟨total.toNat, takers ratios maximums⟩ ∧
        allotted = ⟨(settlementOf .cap rounds).sizes values, (settlementOf .cap rounds).events .cap⟩ ∧
        Rising rounds := by
  refine ⟨fun budget ratios minimums hbudget hentries hlength => ⟨_, rfl, ?_, ?_⟩,
    fun total ratios maximums values allotted hentries hallot => ⟨_, rfl, ?_, ?_⟩⟩
  · rw [← settle_eq_settlementOf]
    rfl
  · exact falling_openings (inWords_entrants hlength hentries hbudget)
  · rw [← settle_eq_settlementOf]
    exact (allotAtMost_eq_ok_iff.mp hallot).2.2
  · exact rising_openings (underCaps_total total (allotAtMost_eq_ok_iff.mp hallot).1 hentries)

/-- Three rounds each way. For each unit of ratio there are 10 cells in 3, then 3, then 2 under floors; under caps there
    are 3, then 10 in 3, then 4. -/
theorem rates_move_one_way_thrice :
    ((10 : Int) ≤ Wide.greatest ∧ [1, 1, 1].length ≤ mostEntries ∧
      (openings .floor ⟨10, entrants [1, 1, 1] [4, 4, 0]⟩).map (fun round => (round.budget, round.ratios)) =
        [(10, 3), (6, 2), (2, 1)] ∧
      Falling (openings .floor ⟨10, entrants [1, 1, 1] [4, 4, 0]⟩)) ∧
    ∃ allotted, allotAtMost 12 [1, 2, 1] [2, 6, 100] [0, 0, 0] = .ok allotted ∧
      (openings .cap ⟨12, takers [1, 2, 1] [2, 6, 100]⟩).map (fun round => (round.budget, round.ratios)) =
        [(12, 4), (10, 3), (4, 1)] ∧
      Rising (openings .cap ⟨12, takers [1, 2, 1] [2, 6, 100]⟩) := by
  obtain ⟨hfloors, hcaps⟩ := rates_move_one_way
  refine ⟨⟨by decide, by decide, by cbv, ?_⟩, _, rfl, by cbv, ?_⟩
  · obtain ⟨rounds, rfl, -, hfalling⟩ := hfloors 10 [1, 1, 1] [4, 4, 0] (by decide) (by decide) rfl
    exact hfalling
  · obtain ⟨rounds, rfl, -, hrising⟩ := hcaps 12 [1, 2, 1] [2, 6, 100] [0, 0, 0] _ (by decide) rfl
    exact hrising

end Allotment
