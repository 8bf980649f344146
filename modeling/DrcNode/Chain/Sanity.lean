import DrcNode.Chain.Merkle
import DrcNode.Script.Parse
import DrcNode.Vote.Election

/-!
# Context-free checks of transactions and blocks

`checkBlockSanity` and its twin for candidates check what can be checked without the chain: that
the producer signed the seed of the round with a weight below the threshold, and that the
transactions form a block. The second part is the same list of checks in both (`checkBody`), and
`BodySane` states what it is for.

Source: `blockchain/validate.go`, from `isNullOutpoint` to `checkCandidateSanity`. The overflow
check on the number of signature operations is left out, and the one that a timestamp has whole
seconds holds by its type.
-/

namespace DrcNode

open Checked

/-! ### Transactions -/

def maxSatoshi : Int64 := 2100000000000000

def maxBlockBaseSize : Nat := 1000000

def maxBlockSigOpsCost : Nat := 80000

def witnessScaleFactor : Nat := 4

def minCoinbaseScriptLen : Nat := 2

def maxCoinbaseScriptLen : Nat := 100

def isNullOutpoint (outpoint : OutPoint) : Bool :=
  outpoint.index == 0xffffffff && outpoint.hash == 0

def isCoinBaseTx (msgTx : MsgTx) : Bool :=
  match msgTx.txIn with
  | [txIn] => isNullOutpoint txIn.previousOutPoint
  | _ => false

/-- One round of the loop over the outputs in `CheckTransactionSanity`. -/
def addOutput (totalSatoshi : Int64) (txOut : TxOut) : Check Int64 := do
  require (0 ≤ txOut.value) .errBadTxOutValue
  require (txOut.value ≤ maxSatoshi) .errBadTxOutValue
  let totalSatoshi := totalSatoshi + txOut.value
  require (0 ≤ totalSatoshi) .errBadTxOutValue
  require (totalSatoshi ≤ maxSatoshi) .errBadTxOutValue
  pure totalSatoshi

def checkTransactionSanity (msgTx : MsgTx) : Check Unit := do
  require (msgTx.txIn ≠ []) .errNoTxInputs
  require (msgTx.txOut ≠ []) .errNoTxOutputs
  require (msgTx.baseSize ≤ maxBlockBaseSize) .errTxTooBig
  let _ ← msgTx.txOut.foldlM addOutput 0
  require (msgTx.txIn.map TxIn.previousOutPoint).Nodup .errDuplicateTxInputs
  if isCoinBaseTx msgTx then
    require (∀ txIn ∈ msgTx.txIn, minCoinbaseScriptLen ≤ txIn.signatureScript.length ∧
      txIn.signatureScript.length ≤ maxCoinbaseScriptLen) .errBadCoinbaseScriptLen
  else
    require (∀ txIn ∈ msgTx.txIn, isNullOutpoint txIn.previousOutPoint = false) .errBadTxInput

def countSigOps (msgTx : MsgTx) : Nat :=
  (msgTx.txIn.map fun txIn => scriptSigOpCount txIn.signatureScript).sum +
    (msgTx.txOut.map fun txOut => scriptSigOpCount txOut.pkScript).sum

/-! ### The body of a block -/

/-- One round of the loop that counts the signature operations of a block. -/
def addSigOps (totalSigOps : Nat) (msgTx : MsgTx) : Check Nat := do
  let totalSigOps := totalSigOps + countSigOps msgTx * witnessScaleFactor
  require (totalSigOps ≤ maxBlockSigOpsCost) .errTooManySigOps
  pure totalSigOps

/-- The part of `checkBlockSanity` and `checkCandidateSanity` that is about the transactions. -/
def checkBody (prim : Primitives) (msgBlock : MsgBlock) : Check Unit := do
  let transactions := msgBlock.transactions
  require (transactions ≠ []) .errNoTransactions
  require (transactions.length ≤ maxBlockBaseSize) .errBlockTooBig
  require (msgBlock.serializeSizeStripped ≤ maxBlockBaseSize) .errBlockTooBig
  require (∀ tx ∈ transactions.head?, isCoinBaseTx tx = true) .errFirstTxNotCoinbase
  require (∀ tx ∈ transactions.tail, isCoinBaseTx tx = false) .errMultipleCoinbases
  transactions.forM checkTransactionSanity
  require (merkleRoot prim transactions = some msgBlock.header.merkleRoot) .errBadMerkleRoot
  require (transactions.map (MsgTx.txHash prim)).Nodup .errDuplicateTx
  let _ ← transactions.foldlM addSigOps 0

/-- What `checkBody` is for. -/
structure BodySane (prim : Primitives) (msgBlock : MsgBlock) : Prop where
  first_coinbase : ∃ tx txs, msgBlock.transactions = tx :: txs ∧ isCoinBaseTx tx = true ∧
    ∀ tx' ∈ txs, isCoinBaseTx tx' = false
  transaction_sane : ∀ tx ∈ msgBlock.transactions, checkTransactionSanity tx = .ok ()
  merkleRoot_eq : merkleRoot prim msgBlock.transactions = some msgBlock.header.merkleRoot
  txHash_nodup : (msgBlock.transactions.map (MsgTx.txHash prim)).Nodup

variable {prim : Primitives} {msgBlock : MsgBlock}

theorem bodySane_of_checkBody (h : checkBody prim msgBlock = .ok ()) : BodySane prim msgBlock := by
  simp only [checkBody, bind_eq_ok, require_eq_ok, exists_const] at h
  obtain ⟨hne, -, -, hf, ho, ⟨⟨⟩, hs, hm, hn, -⟩⟩ := h
  obtain ⟨tx, txs, ht⟩ := List.exists_cons_of_ne_nil hne
  refine ⟨⟨tx, txs, ht, hf tx ?_, ?_⟩, forM_eq_ok.1 hs, hm, hn⟩
  · rw [ht, List.head?_cons, Option.mem_some_iff]
  · rwa [ht, List.tail_cons] at ho

theorem checkBody_congr {msgBlock' : MsgBlock} (ht : msgBlock.transactions = msgBlock'.transactions)
    (hm : msgBlock.header.merkleRoot = msgBlock'.header.merkleRoot) :
    checkBody prim msgBlock = checkBody prim msgBlock' := by
  obtain ⟨header, transactions⟩ := msgBlock
  obtain ⟨header', transactions'⟩ := msgBlock'
  cases header
  cases header'
  obtain rfl : transactions = transactions' := ht
  obtain rfl := hm
  rfl

/-! ### Headers, blocks and candidates -/

section Headers

variable (prim) (current : CandidatePool)

/-- `checkBlockHeaderSanity`: whether the weight is the smallest of the round so far. -/
def checkBlockHeaderSanity (header : BlockHeader) (seed : Hash) (pi : Nat) : Check Bool :=
  match prim.parsePubKey header.publicKey with
  | none => ruleError .errInvalidTime
  | some pubKey => do
      require (prim.verify (getSignature header.signature) seed pubKey = true) .errInvalidTime
      require (prim.weight header.signature < pi) .errInvalidTime
      pure (decide (prim.weight header.signature < current.minWeight prim))

def checkBlockSanity (msgBlock : MsgBlock) (seed : Hash) (pi : Nat) : Check Unit := do
  let _ ← checkBlockHeaderSanity prim current msgBlock.header seed pi
  checkBody prim msgBlock

def checkCandidateSanity (msgCandidate : MsgCandidate) (seed : Hash) (pi : Nat) : Check Bool := do
  let vb ← checkBlockHeaderSanity prim current msgCandidate.header seed pi
  checkBody prim (msgCandidateToBlock msgCandidate)
  pure vb

end Headers

variable {current : CandidatePool} {seed : Hash} {pi : Nat}

/-- **What a header that passes satisfies.** -/
theorem checkBlockHeaderSanity_eq_ok_iff {header : BlockHeader} {vb : Bool} :
    checkBlockHeaderSanity prim current header seed pi = .ok vb ↔
      (∃ pubKey, prim.parsePubKey header.publicKey = some pubKey ∧
        prim.verify (getSignature header.signature) seed pubKey = true) ∧
      prim.weight header.signature < pi ∧
      vb = decide (prim.weight header.signature < current.minWeight prim) := by
  rw [checkBlockHeaderSanity]
  cases hk : prim.parsePubKey header.publicKey with
  | none =>
    refine ⟨fun h => absurd h ruleError_ne_ok, fun ⟨⟨pubKey, hp, _⟩, _⟩ => ?_⟩
    exact absurd hp (Option.some_ne_none pubKey).symm
  | some pubKey =>
    simp only [bind_eq_ok, require_eq_ok, pure_eq_ok, exists_const,
      Option.some.injEq, exists_eq_left', eq_comm (a := vb)]

theorem checkCandidateSanity_eq_ok_iff {msgCandidate : MsgCandidate} {vb : Bool} :
    checkCandidateSanity prim current msgCandidate seed pi = .ok vb ↔
      checkBlockHeaderSanity prim current msgCandidate.header seed pi = .ok vb ∧
        checkBody prim (msgCandidateToBlock msgCandidate) = .ok () := by
  simp only [checkCandidateSanity, bind_eq_ok, pure_eq_ok]
  constructor
  · rintro ⟨vb', hh, ⟨⟩, hb, rfl⟩
    exact ⟨hh, hb⟩
  · rintro ⟨hh, hb⟩
    exact ⟨vb, hh, (), hb, rfl⟩

/-- **A block that passes has a sane body.** -/
theorem bodySane_of_checkBlockSanity (h : checkBlockSanity prim current msgBlock seed pi = .ok ()) :
    BodySane prim msgBlock := by
  rw [checkBlockSanity, bind_eq_ok] at h
  obtain ⟨-, -, hb⟩ := h
  exact bodySane_of_checkBody hb

/-! ### No check panics -/

theorem noPanic_checkTransactionSanity (msgTx : MsgTx) :
    (checkTransactionSanity msgTx).NoPanic := by
  have ho : ∀ total : Int64, ∀ txOut ∈ msgTx.txOut, (addOutput total txOut).NoPanic :=
    fun _ _ _ => noPanic_require.seq <| noPanic_require.seq <| noPanic_require.seq <|
      noPanic_require.seq .ok
  refine noPanic_require.seq <| noPanic_require.seq <| noPanic_require.seq <|
    (FailsOnly.foldlM ho).seq <| noPanic_require.seq ?_
  split_ifs
  · exact noPanic_require
  · exact noPanic_require

theorem noPanic_checkBody (msgBlock : MsgBlock) : (checkBody prim msgBlock).NoPanic := by
  have hs : ∀ total : Nat, ∀ tx ∈ msgBlock.transactions, (addSigOps total tx).NoPanic :=
    fun _ _ _ => noPanic_require.seq .ok
  exact noPanic_require.seq <| noPanic_require.seq <| noPanic_require.seq <|
    noPanic_require.seq <| noPanic_require.seq <|
    (FailsOnly.forM fun tx _ => noPanic_checkTransactionSanity tx).seq <|
    noPanic_require.seq <| noPanic_require.seq <| (FailsOnly.foldlM hs).seq .ok

theorem noPanic_checkBlockHeaderSanity (header : BlockHeader) :
    (checkBlockHeaderSanity prim current header seed pi).NoPanic := by
  rw [checkBlockHeaderSanity]
  cases prim.parsePubKey header.publicKey with
  | none => exact noPanic_error
  | some pubKey => exact noPanic_require.seq <| noPanic_require.seq .ok

end DrcNode
