import DrcNode.Chain.SaneChain
import DrcNode.Library.OrderStatistic
import DrcNode.Mining.Miner

/-!
# The median time of the last blocks

A block must be later than the median of the timestamps of the eleven blocks before it. When every
block of a chain is, the median never goes back along the chain, and it never passes the timestamp
of the last block. The miner relies on the second fact: it does not compute the median, but sets the
time of a new block at least one second after the best candidate.

## Main results

* `medianTime_monotone`.

Source: `CalcPastMedianTime` in `blockchain/blockindex.go`, `checkBlockHeaderContext` in
`blockchain/validate.go`, `MinimumMedianTime` and `medianAdjustedTime` in `mining/mining.go`.
-/

namespace DrcNode

open List

namespace BlockNode

variable {node parent : BlockNode} {fields : BlockFields} {time : Int}

/-- The timestamps the median is taken over. -/
def medianTimes (node : BlockNode) : List Int :=
  ((node :: node.ancestors).take medianTimeBlocks).map (·.fields.timestamp)

theorem length_medianTimes : node.medianTimes.length = min medianTimeBlocks (node.height + 1) := by
  rw [medianTimes, length_map, length_take, length_cons, length_ancestors]

theorem medianTimes_child : (child fields parent).medianTimes =
    fields.timestamp :: parent.medianTimes.take (medianTimeBlocks - 1) := by
  rw [medianTimes, medianTimes, ← map_take, take_take]
  rfl

/-- **The median is at most a time just when more than half of the timestamps are.** -/
theorem calcPastMedianTime_le_iff : node.calcPastMedianTime ≤ time ↔
    node.medianTimes.length / 2 < node.medianTimes.countP (· ≤ time) := by
  have hp : 0 < node.medianTimes.length := by
    rw [length_medianTimes, medianTimeBlocks]
    omega
  have hlt : node.medianTimes.length / 2 < (node.medianTimes.insertionSort (· ≤ ·)).length := by
    rw [length_insertionSort]
    omega
  have hm : (node.medianTimes.insertionSort (· ≤ ·))[node.medianTimes.length / 2]? =
      some node.calcPastMedianTime := by
    rw [calcPastMedianTime, ← medianTimes, getElem?_eq_getElem hlt, Option.getD_some]
  exact OrderStatistic.getElem?_insertionSort_le_iff hm

theorem length_medianTimes_le (node : BlockNode) : node.medianTimes.length ≤ 11 := by
  rw [length_medianTimes, medianTimeBlocks]
  omega

theorem length_medianTimes_child : (child fields parent).medianTimes.length =
    min 10 parent.medianTimes.length + 1 := by
  rw [medianTimes_child, length_cons, length_take, medianTimeBlocks]

section

variable (h : parent.calcPastMedianTime < fields.timestamp)
include h

theorem calcPastMedianTime_le_child :
    parent.calcPastMedianTime ≤ (child fields parent).calcPastMedianTime := by
  by_contra hlt
  rw [not_le] at hlt
  -- the new timestamp is not among those up to the new median, and one may have been cut off
  have hc := calcPastMedianTime_le_iff.1 (le_refl (child fields parent).calcPastMedianTime)
  have hp := mt calcPastMedianTime_le_iff.2 hlt.not_ge
  rw [length_medianTimes_child, medianTimes_child,
    countP_cons_of_neg (by simpa using hlt.trans h)] at hc
  have hle := ((take_sublist (medianTimeBlocks - 1) parent.medianTimes).countP_le
    (p := (· ≤ (child fields parent).calcPastMedianTime)))
  have hl := length_medianTimes_le parent
  omega

theorem calcPastMedianTime_child_le :
    (child fields parent).calcPastMedianTime ≤ fields.timestamp := by
  rw [calcPastMedianTime_le_iff, length_medianTimes_child, medianTimes_child,
    countP_cons_of_pos (by simp)]
  have hp := calcPastMedianTime_le_iff.1 h.le
  have hc := OrderStatistic.countP_le_countP_take_add (· ≤ fields.timestamp) parent.medianTimes
    (medianTimeBlocks - 1)
  have hl := length_medianTimes_le parent
  rw [medianTimeBlocks] at hc ⊢
  omega

end

/-- Every block of the chain is later than the median of the blocks before it. -/
def TimesAfterMedian : BlockNode → Prop
  | root _ => True
  | child fields parent =>
      parent.calcPastMedianTime < fields.timestamp ∧ parent.TimesAfterMedian

theorem calcPastMedianTime_le_timestamp (h : node.TimesAfterMedian) :
    node.calcPastMedianTime ≤ node.fields.timestamp := by
  cases node with
  | root fields => exact (calcPastMedianTime_root fields).le
  | child fields parent => exact calcPastMedianTime_child_le h.1

end BlockNode

theorem failsOnly_require {P : Fault → Prop} {p : Prop} [Decidable p] {code : ErrorCode}
    (h : P (.error (.ruleError code))) : Checked.FailsOnly P (require p code) := by
  intro fault hf
  rw [require] at hf
  split_ifs at hf
  exact Except.error.inj hf ▸ h

theorem checkBlockHeaderContext_ne_errTimeTooOld {prim : Primitives} {header : BlockHeader}
    {prevNode : BlockNode} (h : prevNode.calcPastMedianTime < header.timestamp) :
    checkBlockHeaderContext prim header prevNode ≠ ruleError .errTimeTooOld := by
  have hv : Checked.FailsOnly (· ≠ .error (.ruleError .errTimeTooOld))
      (Check.ofPanic (blockVerge (headerContextWindow prevNode).estimate)) := by
    rw [blockVerge_eq]
    split_ifs
    · intro fault hf
      cases hf
      exact Fault.noConfusion
    · exact .ok
  have ht : require (prevNode.calcPastMedianTime < header.timestamp) .errTimeTooOld = .ok () :=
    require_eq_ok.2 h
  have hfa : Checked.FailsOnly (· ≠ .error (.ruleError .errTimeTooOld))
      (checkBlockHeaderContext prim header prevNode) := by
    rw [checkBlockHeaderContext]
    cases prim.parsePubKey header.publicKey with
    | none =>
      intro fault hf
      cases hf
      decide
    | some pubKey =>
      exact (failsOnly_require (by decide)).seq <| hv.bind fun _ _ =>
        (failsOnly_require (by decide)).bind fun _ _ => .of_eq_ok ht
  exact fun heq => hfa _ heq rfl

/-- **The median time of a chain** whose blocks are later than the median before them does not
decrease, and is at most the timestamp of the last block. -/
theorem medianTime_monotone {node : BlockNode} (h : node.TimesAfterMedian) :
    (∀ parent, node.parent = some parent → parent.calcPastMedianTime ≤ node.calcPastMedianTime) ∧
    node.calcPastMedianTime ≤ node.fields.timestamp ∧
    ∀ (best : BestLastCandidate) (adjustedTime : Int),
      best.header.timestamp = node.fields.timestamp →
        node.calcPastMedianTime < medianAdjustedTime best adjustedTime ∧
        ∀ prim (header : BlockHeader), header.timestamp = medianAdjustedTime best adjustedTime →
          checkBlockHeaderContext prim header node ≠ ruleError .errTimeTooOld := by
  have hle := BlockNode.calcPastMedianTime_le_timestamp h
  refine ⟨fun parent hp => ?_, hle, fun best adjustedTime hb => ?_⟩
  · cases node with
    | root fields => cases hp
    | child fields parent' =>
      obtain rfl : parent' = parent := Option.some.inj hp
      exact BlockNode.calcPastMedianTime_le_child h.1
  · have hlt : node.calcPastMedianTime < medianAdjustedTime best adjustedTime :=
      (hb ▸ hle).trans_lt (lt_of_lt_of_le (Int.lt_succ _) (le_max_right _ _))
    exact ⟨hlt, fun prim header hh =>
      checkBlockHeaderContext_ne_errTimeTooOld (hh ▸ hlt)⟩

/-- The genesis block and `sampleBlock` on top of it. -/
theorem medianTime_monotone_sampleBlock :
    let node := newBlockNode sampleEnv.prim sampleBlock.header (some sampleEnv.genesisNode) 0
    sampleEnv.genesisNode.calcPastMedianTime ≤ node.calcPastMedianTime ∧
      node.calcPastMedianTime < medianAdjustedTime node.asBest 0 := by
  have ha : (newBlockNode sampleEnv.prim sampleBlock.header (some sampleEnv.genesisNode)
      0).TimesAfterMedian := ⟨by decide, trivial⟩
  obtain ⟨hm, -, hl⟩ := medianTime_monotone ha
  exact ⟨hm _ rfl, (hl _ 0 rfl).1⟩

end DrcNode
