import DrcNode.Chain.Accept
import DrcNode.Chain.Locator

/-!
# Hashes by height

Two functions list ancestors of a block that is known to be valid: those from a height on, walking
from parent to parent, and those at the multiples of an interval, over the main chain as soon as the
walk meets it.

The number of results is computed in `int32`. From height zero up to the largest height there is one
block more than an `int32` can count, and the slice is made with a negative length.

## Main results

* `hashes_by_height_iff`.

Source: `blockchain/chain.go`, `HeightToHashRange` and `IntervalBlockHashes`. An `int` has 64 bits.
-/

namespace DrcNode

open List Int Int64 BlockNode Nat

/-- The errors, with the values in their texts. -/
inductive RangeError
  | unknownBlock (endHash : Hash)
  | notValidated (endHash : Hash)
  | belowZero (startHeight : Int32)
  | pastEnd (startHeight endHeight : Int32)
  | tooMany (resultsLength maxResults : Int64)

section Ranges

variable (index : BlockIndex) (nodeStatus : BlockNode → BlockStatus) (c : ChainView)

/-- What both functions begin with. -/
def validNode (endHash : Hash) : Except RangeError BlockNode :=
  match index.lookup endHash with
  | none => .error (.unknownBlock endHash)
  | some endNode =>
      if (nodeStatus endNode).valid then .ok endNode else .error (.notValidated endHash)

/-- The loop of `HeightToHashRange`, which fills the slice from its end. -/
def rangeLoop : Nat → Option BlockNode → Except Panic (List Hash)
  | 0, _ => .ok []
  | _ + 1, none => .error .nilPointer
  | n + 1, some node => (rangeLoop n node.parent).map (· ++ [node.hash])

def heightToHashRange (startHeight : Int32) (endHash : Hash) (maxResults : Int64) :
    Except Panic (Except RangeError (List Hash)) :=
  match validNode index nodeStatus endHash with
  | .error e => .ok (.error e)
  | .ok endNode =>
      let endHeight := Int32.ofNat endNode.height
      let resultsLength := (endHeight - startHeight + 1).toInt64
      if startHeight < 0 then .ok (.error (.belowZero startHeight))
      else if endHeight < startHeight then .ok (.error (.pastEnd startHeight endHeight))
      else if maxResults < resultsLength then .ok (.error (.tooMany resultsLength maxResults))
      else if resultsLength < 0 then .error .makeSlice
      else (rangeLoop resultsLength.toNatClampNeg (some endNode)).map .ok

/-- The loop of `IntervalBlockHashes`. -/
def intervalLoop (interval : Int64) : Nat → BlockNode → Except Panic (List Hash)
  | 0, _ => .ok []
  | i + 1, blockNode =>
      let blockHeight := (Int64.ofNat (i + 1) * interval).toInt32.toInt
      match if c.contains blockNode then c.nodeByHeight blockHeight
        else blockNode.ancestor blockHeight with
      | none => .error .nilPointer
      | some node => (intervalLoop interval i node).map (· ++ [node.hash])

def intervalBlockHashes (endHash : Hash) (interval : Int64) :
    Except Panic (Except RangeError (List Hash)) :=
  match validNode index nodeStatus endHash with
  | .error e => .ok (.error e)
  | .ok endNode =>
      let resultsLength := (Int32.ofNat endNode.height).toInt64 / interval
      if interval = 0 then .error .divideByZero
      else if resultsLength < 0 then .error .makeSlice
      else (intervalLoop c interval resultsLength.toNatClampNeg endNode).map .ok

/-- The hashes of the ancestors from the start height on, where they may be returned. -/
def rangeHashes (startHeight : Int32) (endHash : Hash) (maxResults : Int64) : Option (List Hash) :=
  (validNode index nodeStatus endHash).toOption.bind fun endNode =>
    if 0 ≤ startHeight.toInt ∧ startHeight.toInt ≤ endNode.height ∧
        endNode.height - startHeight.toInt + 1 ≤ maxResults.toInt then
      some ((endNode.branch.drop startHeight.toInt.toNat).map hash)
    else none

/-- These hashes are returned, and otherwise an error. -/
def RangeRight (startHeight : Int32) (endHash : Hash) (maxResults : Int64) : Prop :=
  (heightToHashRange index nodeStatus startHeight endHash maxResults).map Except.toOption =
    .ok (rangeHashes index nodeStatus startHeight endHash maxResults)

/-- The hashes of the ancestors at the positive multiples of the interval, or an error. -/
def IntervalRight (endHash : Hash) (interval : Int64) : Prop :=
  ∃ result, intervalBlockHashes index nodeStatus c endHash interval = .ok result ∧
    match validNode index nodeStatus endHash with
    | .error e => result = .error e
    | .ok endNode => ∃ hashes, result = .ok hashes ∧ ∀ i : Nat,
        hashes[i]? = (endNode.ancestor ((i + 1) * interval.toInt)).map hash

/-- There are `2 ^ 31` blocks up to the end block, all of them asked for. -/
def RangeOverflows (startHeight : Int32) (endHash : Hash) (maxResults : Int64) : Prop :=
  ∃ endNode, validNode index nodeStatus endHash = .ok endNode ∧ endNode.height = 2 ^ 31 - 1 ∧
    startHeight = 0 ∧ -2 ^ 31 ≤ maxResults.toInt

end Ranges

variable {index : BlockIndex} {nodeStatus : BlockNode → BlockStatus} {c : ChainView}
  {tip : Option BlockNode} {node : BlockNode} {startHeight : Int32} {endHash : Hash}
  {maxResults interval : Int64}

theorem rangeLoop_eq {n : Nat} (h : n ≤ node.height + 1) : rangeLoop n (some node) =
    .ok ((node.branch.drop (node.height + 1 - n)).map hash) := by
  induction n generalizing node with
  | zero =>
    rw [Nat.sub_zero, drop_of_length_le length_branch.le]
    rfl
  | succ n ih =>
    cases node with
    | root fields =>
      obtain rfl : n = 0 := by
        rw [height] at h
        omega
      rfl
    | child fields parent =>
      rw [height] at h
      have hb : (BlockNode.child fields parent).branch =
          parent.branch ++ [.child fields parent] := reverse_cons
      have hp := @ih parent (by omega)
      rw [rangeLoop, BlockNode.parent, hp, hb, BlockNode.height, Nat.add_sub_add_right,
        drop_append_of_le_length (by rw [length_branch]; omega), map_append]
      rfl

theorem ChainView.Shows.shortcut_eq (h : c.Shows tip) {k : Nat} (hk : k ≤ node.height) :
    (if c.contains node then c.nodeByHeight k else node.ancestor k) = node.ancestor k := by
  split_ifs with hc
  · obtain ⟨t, rfl, hm⟩ := h.contains_iff.1 hc
    rw [h.nodeByHeight_eq]
    exact ancestor_ancestor (ancestor_eq_some_iff.2 ⟨hm, rfl⟩) hk
  · rfl

/-- The loop meets every multiple, whether it is still off the main chain or already on it. -/
theorem exists_intervalLoop (hs : c.Shows tip) {k : Nat} (hk : 1 ≤ k)
    (hin : interval.toInt = k) {n : Nat} (hn : n * k ≤ node.height)
    (hheight : node.height < 2 ^ 31) :
    ∃ hashes, intervalLoop c interval n node = .ok hashes ∧ hashes.length = n ∧
      ∀ i < n, hashes[i]? = (node.ancestor ((i + 1) * k : Nat)).map hash := by
  induction n generalizing node with
  | zero => exact ⟨[], rfl, rfl, fun i hi => by cases hi⟩
  | succ n ih =>
    obtain ⟨a, ha⟩ := exists_ancestor hn
    have hah := (ancestor_eq_some_iff.1 ha).2
    have hle : n + 1 ≤ (n + 1) * k := Nat.le_mul_of_pos_right _ hk
    have hb : (Int64.ofNat (n + 1) * interval).toInt32.toInt = ((n + 1) * k : Nat) := by
      have hm : (Int64.ofNat (n + 1) * interval).toInt = ((n + 1) * k : Nat) := by
        rw [toInt_mul, toInt_ofNat_of_lt (by omega), hin]
        exact bmod_eq_of_le (by omega) (by omega)
      rw [toInt_toInt32, hm]
      exact bmod_eq_of_le (by omega) (by omega)
    obtain ⟨hashes, hlo, hl, hg⟩ := @ih a (hah ▸ mul_le_mul_right k n.le_succ) (by omega)
    refine ⟨hashes ++ [a.hash], ?_, by rw [length_append, hl]; rfl, fun i hi => ?_⟩
    · simp only [intervalLoop, hb, hs.shortcut_eq hn]
      rw [ha]
      exact Checked.map_eq_ok.2 ⟨hashes, hlo, rfl⟩
    · rcases Nat.lt_succ_iff_lt_or_eq.1 hi with hi | rfl
      · rw [getElem?_append_left (by omega), hg i hi,
          ancestor_ancestor ha (Nat.mul_le_mul_right k (by omega))]
      · rw [← hl, getElem?_concat_length, hl, ha]
        rfl

theorem lookup_of_validNode (h : validNode index nodeStatus endHash = .ok node) :
    index.lookup endHash = some node := by
  rw [validNode] at h
  cases hl : index.lookup endHash with
  | none =>
    rw [hl] at h
    cases h
  | some endNode =>
    simp only [hl] at h
    split_ifs at h
    exact congrArg some (Except.ok.inj h)

theorem toInt_resultsLength {height : Nat} (h : height < 2 ^ 31) (h0 : 0 ≤ startHeight.toInt)
    (hle : startHeight.toInt ≤ height) :
    (Int32.ofNat height - startHeight + 1).toInt64.toInt =
      if height - startHeight.toInt + 1 = 2 ^ 31 then -2 ^ 31
      else height - startHeight.toInt + 1 := by
  have hs : (Int32.ofNat height - startHeight).toInt = height - startHeight.toInt := by
    rw [Int32.toInt_sub, Int32.toInt_ofNat_of_lt h]
    exact bmod_eq_of_le (by omega) (by omega)
  rw [Int32.toInt_toInt64, Int32.toInt_add, hs, Int32.toInt_one]
  split_ifs with heq
  · rw [heq]
    rfl
  · exact bmod_eq_of_le (by omega) (by omega)

section Right

variable (hheight : ∀ {hash node}, index.lookup hash = some node → node.height < 2 ^ 31)

include hheight

theorem intervalRight (hs : c.Shows tip) (hin : 1 ≤ interval.toInt) :
    IntervalRight index nodeStatus c endHash interval := by
  rw [IntervalRight, intervalBlockHashes]
  cases hv : validNode index nodeStatus endHash with
  | error e => exact ⟨_, rfl, rfl⟩
  | ok endNode =>
    have hlt := hheight (lookup_of_validNode hv)
    obtain ⟨k, hk⟩ := eq_ofNat_of_zero_le (show 0 ≤ interval.toInt by omega)
    have hne : interval ≠ 0 ∧ interval ≠ -1 := by
      constructor <;> rintro rfl <;> cases hin
    have hl : ((Int32.ofNat endNode.height).toInt64 / interval).toInt =
        (endNode.height / k : Nat) := by
      rw [toInt_div_of_ne_right _ _ hne.2, Int32.toInt_toInt64, Int32.toInt_ofNat_of_lt hlt,
        hk]
      rfl
    obtain ⟨hashes, hlo, hln, hg⟩ := exists_intervalLoop hs (by omega) hk
      (div_mul_le_self endNode.height k) hlt
    refine ⟨.ok hashes, ?_, hashes, rfl, fun i => ?_⟩
    · have hn : ((Int32.ofNat endNode.height).toInt64 / interval).toNatClampNeg =
          endNode.height / k := by rw [Int64.toNatClampNeg, hl, toNat_natCast]
      simp only [if_neg hne.1, lt_iff_toInt_lt, hl, hn, hlo]
      rfl
    · rcases lt_or_ge i (endNode.height / k) with hi | hi
      · rw [hg i hi, hk]
        rfl
      · have hm := (div_lt_iff_lt_mul (by omega)).1 (lt_succ_of_le hi)
        rw [getElem?_eq_none (by omega), ancestor_of_lt (by rw [hk]; exact_mod_cast hm)]
        rfl

theorem rangeRight_iff : RangeRight index nodeStatus startHeight endHash maxResults ↔
    ¬RangeOverflows index nodeStatus startHeight endHash maxResults := by
  rw [RangeRight, heightToHashRange, rangeHashes, RangeOverflows]
  cases hv : validNode index nodeStatus endHash with
  | error e => exact iff_of_true rfl (by simp)
  | ok endNode =>
    have hlt := hheight (lookup_of_validNode hv)
    have hz : startHeight = 0 ↔ startHeight.toInt = 0 := by
      rw [← Int32.toInt_inj, Int32.toInt_zero]
    simp only [Except.ok.injEq, exists_eq_left', Int32.lt_iff_toInt_lt, lt_iff_toInt_lt,
      Int32.toInt_ofNat_of_lt hlt, Int32.toInt_zero, toInt_zero, Int64.toNatClampNeg, hz,
      Except.toOption, Option.bind_some]
    rcases lt_or_ge startHeight.toInt 0 with h0 | h0
    · rw [if_pos h0, if_neg (by omega)]
      exact iff_of_true rfl (by omega)
    rcases lt_or_ge (endNode.height : Int) startHeight.toInt with hle | hle
    · rw [if_neg h0.not_gt, if_pos hle, if_neg (by omega)]
      exact iff_of_true rfl (by omega)
    rw [if_neg h0.not_gt, if_neg hle.not_gt, toInt_resultsLength hlt h0 hle]
    by_cases hl : endNode.height - startHeight.toInt + 1 = 2 ^ 31
    · rw [if_pos hl]
      by_cases hm : maxResults.toInt < -2 ^ 31
      · rw [if_pos hm, if_neg (by omega)]
        exact iff_of_true rfl (by omega)
      · rw [if_neg hm]
        exact iff_of_false (fun h => by cases h) (by omega)
    · rw [if_neg hl]
      by_cases hm : maxResults.toInt < endNode.height - startHeight.toInt + 1
      · rw [if_pos hm, if_neg (by omega)]
        exact iff_of_true rfl (by omega)
      · rw [if_neg hm, if_neg (by omega), if_pos (by omega), rangeLoop_eq (by omega)]
        have hd : endNode.height + 1 - (endNode.height - startHeight.toInt + 1).toNat =
            startHeight.toInt.toNat := by omega
        rw [hd]
        exact iff_of_true rfl (by omega)

end Right

/-- **Hashes by height.** The two functions return the ancestors that are meant, or an error, and do
not panic, exactly if not all of `2 ^ 31` blocks are asked for. -/
theorem hashes_by_height_iff (nodeStatus : BlockNode → BlockStatus)
    (hheight : ∀ {hash node}, index.lookup hash = some node → node.height < 2 ^ 31)
    (hshows : c.Shows tip) (startHeight : Int32) (endHash : Hash) (maxResults : Int64)
    (hinterval : 1 ≤ interval.toInt) :
    RangeRight index nodeStatus startHeight endHash maxResults ∧
        IntervalRight index nodeStatus c endHash interval ↔
      ¬RangeOverflows index nodeStatus startHeight endHash maxResults := by
  rw [rangeRight_iff hheight]
  exact and_iff_left (intervalRight hheight hshows hinterval)

/-- A block of which only the place matters. -/
def bareFields (hash : Hash) : BlockFields := ⟨hash, 1, 0, 0, 0, 0, 0, 0, 0⟩

/-- A block on top of the genesis block. -/
def secondBlock : BlockNode := .child (bareFields 2) (.root (bareFields 1))

theorem hashes_by_height_secondBlock :
    RangeRight (BlockIndex.addNode ∅ secondBlock) (fun _ => { valid := true }) 0 2 2 ∧
      IntervalRight (BlockIndex.addNode ∅ secondBlock) (fun _ => { valid := true })
        (ChainView.empty.setTip (some secondBlock)) 2 1 := by
  have hn : ∀ {hash node}, (BlockIndex.addNode ∅ secondBlock).lookup hash = some node →
      node.height = 1 := by
    intro hash node h
    obtain ⟨-, rfl⟩ | ⟨-, h⟩ := lookup_insert_cases h
    · rfl
    · cases h
  refine (hashes_by_height_iff _ (fun h => (hn h).trans_lt (by decide))
    (ChainView.shows_setTip ChainView.shows_empty _) 0 2 2 (by decide)).2 ?_
  rintro ⟨endNode, hv, hheight, -⟩
  rw [hn (lookup_of_validNode hv)] at hheight
  cases hheight

theorem exists_height_eq (n : Nat) : ∃ node : BlockNode, node.height = n := by
  induction n with
  | zero => exact ⟨.root (bareFields 1), rfl⟩
  | succ n ih =>
    obtain ⟨parent, hp⟩ := ih
    exact ⟨.child (bareFields (BitVec.ofNat 256 (n + 2))) parent, congrArg (· + 1) hp⟩

/-- The slice for all blocks of the highest chain is made with a negative length. -/
theorem heightToHashRange_panics : ∃ endNode : BlockNode, endNode.height = 2 ^ 31 - 1 ∧
    heightToHashRange (BlockIndex.addNode ∅ endNode) (fun _ => { valid := true }) 0 endNode.hash
      2000 = .error .makeSlice := by
  obtain ⟨endNode, hheight⟩ := exists_height_eq (2 ^ 31 - 1)
  refine ⟨endNode, hheight, ?_⟩
  rw [heightToHashRange, validNode, BlockIndex.addNode, Finmap.lookup_insert]
  simp only [if_true, hheight]
  rw [if_neg (by decide), if_neg (by decide), if_neg (by decide), if_pos (by decide)]

end DrcNode
