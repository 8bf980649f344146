import DrcNode.Library.HashTree
import DrcNode.Wire.Encode

/-!
# The Merkle tree of a block

The header of a block commits to its transactions by the root of a binary tree of hashes. The
source stores the tree in a linear array: the hashes of the transactions, padded with nil to a
power of two, then for each pair of entries from the front their parent, appended at the end. An
entry without a right sibling is hashed with itself, and a pair of nil entries has nil as parent.

## Main results

* `merkle_root_commits`: the root determines a list without duplicates.

Source: `blockchain/merkle.go`, `nextPowerOfTwo`, `HashMerkleBranches`, `BuildMerkleTreeStore`.
-/

namespace DrcNode

open List

open HashTree

variable (prim : Primitives) (transactions : List MsgTx)

def nextPowerOfTwo (n : Nat) : Nat := if n &&& (n - 1) = 0 then n else 2 ^ (Nat.log2 n + 1)

def hashMerkleBranches (left right : Hash) : Hash := prim.doubleHash (left.bytes ++ right.bytes)

/-- The parent of two entries of the array. -/
def merkleParent : Option Hash → Option Hash → Option Hash
  | none, _ => none
  | some left, none => some (hashMerkleBranches prim left left)
  | some left, some right => some (hashMerkleBranches prim left right)

/-- The loop of `BuildMerkleTreeStore`: `n` times, the parent of the next two entries is put at the
end. -/
def merkleLoop : Nat → List (Option Hash) → List (Option Hash)
  | n + 1, left :: right :: entries =>
      left :: right :: merkleLoop n (entries ++ [merkleParent prim left right])
  | _, entries => entries

/-- The hashes at the bottom of the tree. With `witness` the coinbase counts as the zero hash. -/
def merkleLeaves (witness : Bool) : List Hash :=
  if witness then 0 :: transactions.tail.map (MsgTx.witnessHash prim)
  else transactions.map (MsgTx.txHash prim)

/-- `BuildMerkleTreeStore`, on at least one transaction. -/
def buildMerkleTreeStore (witness : Bool) : List (Option Hash) :=
  let nextPoT := nextPowerOfTwo transactions.length
  merkleLoop prim (nextPoT - 1) ((merkleLeaves prim transactions witness).map some ++
    List.replicate (nextPoT - transactions.length) none)

/-- The last entry of the array, the root of the tree. -/
def merkleRoot : Option Hash :=
  (buildMerkleTreeStore prim transactions false).getLast?.join

variable {prim}

/-! ### The root of the tree -/

theorem testBit_of_lt {n k : Nat} (hle : 2 ^ k ≤ n) (hlt : n < 2 ^ (k + 1)) : n.testBit k := by
  have hd : n / 2 ^ k = 1 := Nat.div_eq_of_lt_le (by omega) (by rw [pow_succ] at hlt; omega)
  rw [Nat.testBit_eq_decide_div_mod_eq, hd]
  rfl

/-- `nextPowerOfTwo` is the least power of two that is not below its argument. -/
theorem nextPowerOfTwo_eq {n : Nat} (h : 0 < n) : nextPowerOfTwo n = 2 ^ Nat.clog 2 n := by
  have hle := Nat.log2_self_le h.ne'
  have hlt := @Nat.lt_log2_self n
  rw [nextPowerOfTwo]
  rcases hle.eq_or_lt with heq | hgt
  · rw [if_pos, ← heq, Nat.clog_pow 2 _ (by decide)]
    rw [← heq, Nat.and_two_pow_sub_one_eq_mod, Nat.mod_self]
  have ha : n &&& (n - 1) ≠ 0 := by
    intro hz
    have hb : (n &&& (n - 1)).testBit n.log2 = true := by
      rw [Nat.testBit_and, testBit_of_lt hle hlt, testBit_of_lt (by omega) (by omega)]
      rfl
    rw [hz, Nat.zero_testBit] at hb
    cases hb
  have hc : Nat.clog 2 n = n.log2 + 1 := by
    refine le_antisymm ((Nat.clog_le_iff_le_pow (by decide)).2 hlt.le) ?_
    by_contra hco
    exact hgt.not_ge ((Nat.clog_le_iff_le_pow (by decide)).1 (by omega))
  rw [if_neg ha, hc]

/-- A level of the array: the entries, and nil behind them up to a width. -/
def padded (width : Nat) (l : List Hash) : List (Option Hash) :=
  l.map some ++ List.replicate (width - l.length) none

theorem nextLevel_padded {width : Nat} {l : List Hash} (h : l.length ≤ 2 * width) :
    nextLevel (merkleParent prim) (padded (2 * width) l) =
      padded width (nextLevel (hashMerkleBranches prim) l) := by
  have hn : ∀ n, nextLevel (merkleParent prim) (List.replicate (2 * n) none) =
      List.replicate n none := by
    intro n
    induction n with
    | zero => rfl
    | succ n ih =>
      rw [Nat.mul_succ, replicate_succ, replicate_succ, replicate_succ, ← ih]
      rfl
  induction width generalizing l with
  | zero =>
    obtain rfl := eq_nil_of_length_eq_zero (Nat.le_zero.1 h)
    rfl
  | succ width ih =>
    cases l with
    | nil => simpa [padded, nextLevel, levelPairs] using hn (width + 1)
    | cons a l =>
      cases l with
      | nil =>
        change nextLevel _ (some a :: none :: List.replicate (2 * width) none) = _
        simpa [padded, nextLevel, levelPairs, merkleParent] using hn width
      | cons b l =>
        have hp : padded (2 * (width + 1)) (a :: b :: l) =
            some a :: some b :: padded (2 * width) l := by
          simp only [padded, map_cons, length_cons, cons_append]
          rw [show 2 * (width + 1) - (l.length + 1 + 1) = 2 * width - l.length by omega]
        rw [hp, nextLevel_cons_cons, nextLevel_cons_cons,
          ih (by simp only [length_cons] at h; omega)]
        simp [padded, merkleParent]

theorem merkleLoop_level {width : Nat} (n : Nat) : {level : List (Option Hash)} →
    (acc : List (Option Hash)) → level.length = 2 * width →
    merkleLoop prim (width + n) (level ++ acc) =
      level ++ merkleLoop prim n (acc ++ nextLevel (merkleParent prim) level) := by
  induction width with
  | zero =>
    intro level acc h
    obtain rfl := eq_nil_of_length_eq_zero h
    simp [nextLevel, levelPairs]
  | succ width ih =>
    intro level acc h
    obtain ⟨left, tail, rfl⟩ := exists_cons_of_length_pos (by omega : 0 < level.length)
    obtain ⟨right, level, rfl⟩ := exists_cons_of_length_pos
      (by simp only [length_cons] at h; omega : 0 < tail.length)
    have hl := @ih level (acc ++ [merkleParent prim left right]) (by simpa [Nat.mul_add] using h)
    rw [Nat.succ_add, cons_append, cons_append, merkleLoop, append_assoc, hl]
    simp [nextLevel, levelPairs]
/-- **The last entry of the array is the root**, over a level as wide as the next power of two. -/
theorem getLast?_merkleLoop {d : Nat} {l : List Hash} (h : l ≠ []) (hd : d = depth l) :
    (merkleLoop prim (2 ^ d - 1) (padded (2 ^ d) l)).getLast? =
      some (root (hashMerkleBranches prim) l) := by
  induction d generalizing l with
  | zero =>
    have hln : l.length ≤ 1 := by
      have := (Nat.clog_le_iff_le_pow (by decide : 1 < 2)).1 (hd ▸ le_rfl : Nat.clog 2 l.length ≤ 0)
      simpa using this
    obtain ⟨a, rfl⟩ : ∃ a, l = [a] := length_eq_one_iff.1 (by have := length_pos_iff.2 h; omega)
    rw [root]
    rfl
  | succ d ih =>
    have ht : 2 ≤ l.length := by
      by_contra hlt
      rw [depth, Nat.clog_of_right_le_one (by omega)] at hd
      omega
    have hle : l.length ≤ 2 * 2 ^ d := by
      rw [← pow_succ', hd]
      exact Nat.le_pow_clog (by decide) _
    have hn : nextLevel (hashMerkleBranches prim) l ≠ [] :=
      ne_nil_of_length_pos (by rw [length_nextLevel]; omega)
    rw [@depth_nextLevel _ (hashMerkleBranches prim) l ht] at hd
    have hp : 2 ^ (d + 1) - 1 = 2 ^ d + (2 ^ d - 1) := by
      omega
    have hw : (padded (2 * 2 ^ d) l).length = 2 * 2 ^ d := by
      simp [padded]
      omega
    have hl := @merkleLoop_level prim (2 ^ d) (2 ^ d - 1) _ [] hw
    rw [append_nil, nil_append, nextLevel_padded hle] at hl
    have hla := ih hn (by omega)
    rw [hp, pow_succ', hl, getLast?_append, hla, Option.some_or, root_nextLevel ht]

theorem getLast?_buildMerkleTreeStore (prim : Primitives) {transactions : List MsgTx}
    (h : transactions ≠ []) (witness : Bool) :
    (buildMerkleTreeStore prim transactions witness).getLast? =
      some (root (hashMerkleBranches prim) (merkleLeaves prim transactions witness)) := by
  have hp := length_pos_iff.2 h
  have hl : (merkleLeaves prim transactions witness).length = transactions.length := by
    rw [merkleLeaves]
    split_ifs
    · simp
      omega
    · simp
  have hne : merkleLeaves prim transactions witness ≠ [] := ne_nil_of_length_pos (by omega)
  rw [← getLast?_merkleLoop hne rfl, buildMerkleTreeStore, depth, padded, hl, nextPowerOfTwo_eq hp]

/-- The pairs that are hashed for the root of a list of transaction hashes. -/
def merklePairs (prim : Primitives) (txHashes : List Hash) : List (Hash × Hash) :=
  hashed (hashMerkleBranches prim) (depth txHashes) txHashes

/-- **The Merkle tree.** The last element of the array is the root. Lists without duplicates that
have one root have the same hashes, when the pairs that are hashed do not collide. -/
theorem merkle_root_commits (prim : Primitives) : (∀ transactions witness, transactions ≠ [] →
      (buildMerkleTreeStore prim transactions witness).getLast? =
        some (root (hashMerkleBranches prim) (merkleLeaves prim transactions witness))) ∧
    ∀ txs txs' : List MsgTx, txs ≠ [] → txs' ≠ [] →
      let l := txs.map (MsgTx.txHash prim)
      let m := txs'.map (MsgTx.txHash prim)
      let pairs := merklePairs prim l ++ merklePairs prim m
      l.Nodup → m.Nodup → NoCollision (hashMerkleBranches prim) pairs →
      (∀ txHash ∈ l ++ m, ∀ p ∈ pairs, txHash ≠ hashMerkleBranches prim p.1 p.2) →
      merkleRoot prim txs = merkleRoot prim txs' → l = m := by
  refine ⟨fun _ witness h => getLast?_buildMerkleTreeStore prim h witness, ?_⟩
  intro txs txs' hne hne' l m pairs hl hm hc hlf hr
  rw [merkleRoot, merkleRoot, getLast?_buildMerkleTreeStore prim hne,
    getLast?_buildMerkleTreeStore prim hne'] at hr
  exact eq_of_root_eq hl hm (by simpa [l] using hne) (by simpa [m] using hne') hc hlf hr

/-- Two transactions. -/
def twoTxs : List MsgTx := [⟨1, [], [], 0⟩, ⟨1, [], [], 1⟩]

theorem merkle_root_commits_twoTxs :
    (buildMerkleTreeStore .polynomial twoTxs false).getLast? = some (root
      (hashMerkleBranches .polynomial) (merkleLeaves .polynomial twoTxs false)) ∧
    twoTxs.map (MsgTx.txHash .polynomial) = twoTxs.map (MsgTx.txHash .polynomial) := by
  have hpa : merklePairs .polynomial (twoTxs.map (MsgTx.txHash .polynomial)) =
      [(MsgTx.txHash .polynomial ⟨1, [], [], 0⟩, MsgTx.txHash .polynomial ⟨1, [], [], 1⟩)] := by
    decide +kernel
  refine ⟨(merkle_root_commits .polynomial).1 twoTxs false (by simp [twoTxs]),
    (merkle_root_commits .polynomial).2 twoTxs twoTxs (by simp [twoTxs]) (by simp [twoTxs])
      (by decide +kernel) (by decide +kernel) ?_ ?_ rfl⟩
  · intro p hp q hq _
    simp only [hpa, cons_append, nil_append, mem_cons, not_mem_nil, or_false, or_self] at hp hq
    rw [hp, hq]
  · simp only [hpa]
    simp only [twoTxs, map_cons, map_nil, cons_append, nil_append, forall_mem_cons]
    refine ⟨?_, ?_, ?_, ?_, by simp⟩ <;> exact ⟨by decide +kernel, by decide +kernel, by simp⟩

end DrcNode
