import Allotment.Json.Layout
import Allotment.Log.Routing
import Allotment.Session
import Allotment.Proofs.ExactShares
import Allotment.Proofs.LargestRemainder
import Allotment.Proofs.Settlement
import Allotment.Proofs.FlooredSizes
import Allotment.Proofs.CappedSizes
import Allotment.Proofs.SlotFilling
import Allotment.Proofs.Replay
import Allotment.Proofs.WaterLevel
import Allotment.Proofs.Squeezing
import Allotment.Proofs.Shrinking
import Allotment.Proofs.ShrinkingTwice
import Allotment.Proofs.Sessions
import Allotment.Proofs.Passes
import Allotment.Proofs.Rates
import Allotment.Proofs.CapFilling
import Allotment.Proofs.CapRates
import Allotment.Proofs.RoundByRound
import Allotment.Proofs.ClosestParts
import Allotment.Proofs.CongruentBudgets
import Allotment.Proofs.ZeroWeights
import Allotment.Proofs.Precedence
import Allotment.Proofs.Proportions
import Allotment.Proofs.Tiling
import Allotment.Proofs.Chains
import Allotment.Proofs.FlexibleSlots
import Allotment.Proofs.Pieces
import Allotment.Proofs.Grid
import Allotment.Proofs.LeastBudgets
import Allotment.Proofs.CheckedNumbers
import Allotment.Proofs.ExactDivision
import Allotment.Proofs.CheckedParts
import Allotment.Proofs.CheckedRuns
import Allotment.Proofs.JsonGrammar
import Allotment.Proofs.JsonNumbers
import Allotment.Proofs.JsonTokens
import Allotment.Proofs.JsonValues
import Allotment.Proofs.JsonMembers
import Allotment.Proofs.JsonRecords
import Allotment.Proofs.JsonSlots
import Allotment.Proofs.StoredLayouts
import Allotment.Proofs.LogFiles
import Allotment.Proofs.LogRouting
