import Allotment.Event
import Allotment.LargestRemainder

/-! Sharing under bounds, in rounds. Each round shares the budget among the slots of the pool in proportion to their
    ratios. Slots whose share misses their bound are pinned at it: they leave the pool, and what they take leaves the
    budget. The first round in which no share misses its bound gives the others their shares. Every other round takes
    a slot out of the pool, so there are at most as many rounds as slots, and one more. -/

namespace Allotment

/-- A slot in the pool: where it stands among the slots that share, its ratio, and its bound. -/
structure Entrant where
  place : Nat
  ratio : Cells
  limit : Cells
  deriving DecidableEq, Repr

namespace Bound

/-- A share misses a floor from below and a cap from above. -/
def missedBy (bound : Bound) (limit : Cells) (share : Int) : Bool :=
  match bound with
  | .floor => share < limit.toNat
  | .cap => limit.toNat < share

/-- What a slot pinned at `limit` leaves of the budget. Floors may take more than there is; caps take what there is
    at most. -/
def spend (bound : Bound) (budget : Int) (limit : Cells) : Int :=
  match bound with
  | .floor => budget - limit.toNat
  | .cap => max 0 (budget - limit.toNat)

/-- What slots pinned one after another leave of the budget. -/
def spendAll (bound : Bound) (budget : Int) (pinned : List Entrant) : Int :=
  pinned.foldl (fun left entrant => bound.spend left entrant.limit) budget

end Bound

/-- A round that pinned slots, with the budget it had shared out. -/
structure Round where
  budget : Int
  pinned : List Entrant
  deriving DecidableEq, Repr

/-- The event of a round. -/
def Round.event (bound : Bound) (round : Round) : Event :=
  .pinned bound round.budget (round.pinned.map (·.place))

/-- How the rounds ended: the rounds that pinned slots, and the shares of the others in the last round. -/
structure Settlement where
  rounds : List Round
  shared : List (Entrant × Int)
  deriving DecidableEq, Repr

/-- The slots of a pool beside their shares of the budget. -/
def shareOut (budget : Int) (pool : List Entrant) : List (Entrant × Int) :=
  pool.zip (LargestRemainder.parts budget (pool.map (·.ratio)))

/-- The slots whose share misses their bound. -/
def missing (bound : Bound) (shared : List (Entrant × Int)) : List Entrant :=
  (shared.filter fun s => bound.missedBy s.1.limit s.2).map (·.1)

/-- The slots whose share keeps to their bound. -/
def keeping (bound : Bound) (shared : List (Entrant × Int)) : List Entrant :=
  (shared.filter fun s => !bound.missedBy s.1.limit s.2).map (·.1)

theorem length_shareOut (budget : Int) (pool : List Entrant) : (shareOut budget pool).length = pool.length := by
  simp [shareOut, LargestRemainder.length_parts]

theorem length_missing_add_length_keeping (bound : Bound) (shared : List (Entrant × Int)) :
    (missing bound shared).length + (keeping bound shared).length = shared.length := by
  simp only [missing, keeping, List.length_map]
  induction shared with
  | nil => rfl
  | cons s rest ih =>
    cases h : bound.missedBy s.1.limit s.2 <;> simp [h] <;> omega

/-- Shares a budget among the slots of a pool under their bounds. -/
def settle (bound : Bound) (budget : Int) (pool : List Entrant) : Settlement :=
  let shared := shareOut budget pool
  let pinned := missing bound shared
  if pinned.isEmpty then ⟨[], shared⟩
  else
    let later := settle bound (bound.spendAll budget pinned) (keeping bound shared)
    { later with rounds := ⟨budget, pinned⟩ :: later.rounds }
termination_by pool.length
decreasing_by
  rename_i hsome
  have hpos : 0 < (missing bound (shareOut budget pool)).length := by
    rw [List.length_pos_iff]
    simpa using hsome
  have hlen := length_missing_add_length_keeping bound (shareOut budget pool)
  have := length_shareOut budget pool
  omega

namespace Settlement

/-- The size that each slot ends with, by its place. -/
def given (settlement : Settlement) : List (Nat × Cells) :=
  (settlement.rounds.flatMap fun round => round.pinned.map fun entrant => (entrant.place, entrant.limit)) ++
    settlement.shared.map fun (entrant, share) => (entrant.place, Cells.nearest share)

/-- The sizes of all slots, where those that do not share have the sizes `others`. -/
def sizes (settlement : Settlement) (others : List Cells) : List Cells :=
  settlement.given.foldl (fun sizes (place, size) => sizes.set place size) others

theorem length_sizes (settlement : Settlement) (others : List Cells) :
    (settlement.sizes others).length = others.length := by
  unfold sizes
  induction settlement.given generalizing others with
  | nil => rfl
  | cons given rest ih => rw [List.foldl_cons, ih, List.length_set]

/-- The events of the rounds. -/
def events (bound : Bound) (settlement : Settlement) : List Event := settlement.rounds.map (Round.event bound)

end Settlement

/-- The slots with given ratios and bounds, in order. -/
def entrants (ratios limits : List Cells) : List Entrant :=
  (ratios.zip limits).mapIdx fun place (ratio, limit) => ⟨place, ratio, limit⟩

end Allotment
