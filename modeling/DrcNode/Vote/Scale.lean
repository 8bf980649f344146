import DrcNode.Go
import Mathlib.Data.UInt

/-!
# Thresholds and the estimated size of the network

The right to produce a block and the right to vote for one are decided by a weight below a
threshold that shrinks with the number of nodes in the network. That number is estimated from the
votes and the estimates of the last ten blocks. A candidate is elected with two thirds of the votes
that the estimate lets one expect.

Source: `vote/util.go`; `IsEnough` in `mining/cpuminer/vote.go`. The two computations the source
makes in floating point are done here in integers. For `mean` rounding up gives the integer ceiling.
For `IsEnough` the constant `MinVoteRatio` is the double just below `2 / 3`; its product with a
scale divisible by three rounds to the exact value, and for the others the comparison is not close.
-/

namespace DrcNode

def idealBlockNum : Nat := 50

def idealVoteNum : Nat := 300

/-- `PrevScaleNum`: how many blocks before the best one enter the estimate. -/
def prevScaleNum : Nat := 9

/-! ### Thresholds -/

/-- `VotesVerge`: a node may vote when the weight of its vote is at most this number. -/
def votesVerge (scale : UInt16) : Except Panic Nat :=
  if scale = 0 then .error .divideByZero else .ok (2 ^ 256 * idealVoteNum / scale.toNat)

/-- `BlockVerge`: a node may produce a block when its weight is below this number. -/
def blockVerge (scale : UInt16) : Except Panic Nat :=
  (votesVerge scale).map fun verge => verge * idealBlockNum / idealVoteNum

theorem blockVerge_eq (scale : UInt16) : blockVerge scale = if scale = 0 then .error .divideByZero
    else .ok (2 ^ 256 * idealVoteNum / scale.toNat * idealBlockNum / idealVoteNum) := by
  unfold blockVerge votesVerge
  split_ifs <;> rfl

/-! ### The estimate -/

/-- `mean`: the sum of the values in sixteen bits, divided by their number and rounded up. -/
def mean (values : List UInt16) : UInt16 :=
  let totalValue := values.foldl (· + ·) 0
  UInt16.ofNat ((totalValue.toNat + values.length - 1) / values.length)

/-- A mean with zero replaced by one, as `EstimateScale` does with both of its means. -/
def positiveMean (values : List UInt16) : UInt16 :=
  if mean values = 0 then 1 else mean values

def estimateScale (prevVoteNums prevScales : List UInt16) : UInt16 :=
  let meanScale := positiveMean prevScales
  let meanVoteNum := positiveMean prevVoteNums
  if meanScale.toNat ≤ idealVoteNum then meanVoteNum
  else UInt16.ofNat (meanScale.toNat * meanVoteNum.toNat / idealVoteNum)

/-! ### The quorum -/

/-- `IsEnough`. Up to a scale of ten one vote less is enough. -/
def isEnough (voteNum scale : UInt16) : Bool :=
  if scale.toNat ≤ idealVoteNum then
    (scale.toNat ≤ 10 && 2 * scale.toNat ≤ 3 * (voteNum.toNat + 1)) ||
      2 * scale.toNat ≤ 3 * voteNum.toNat
  else 2 * idealVoteNum ≤ 3 * voteNum.toNat

end DrcNode
