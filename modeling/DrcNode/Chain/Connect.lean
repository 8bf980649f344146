import DrcNode.Chain.Utxo
import DrcNode.Chain.Window

/-!
# Checks that depend on the chain

A block is checked against the block it extends (`checkBlockContext`) and against the unspent
outputs (`checkConnectBlock`). The first is made for every block that enters the index, the second
for a block that extends the best chain and, by the miner, for the template of a new candidate.

Source: `blockchain/validate.go`, from `ExtractCoinbaseHeight` to `checkConnectBlock`;
`checkBlockScripts` in `blockchain/scriptval.go`; `GetSigOpCost` in `blockchain/weight.go`;
`calcSequenceLock` in `blockchain/chain.go`. Scripts are checked one after the other; the source
checks them concurrently and returns the error of whichever fails first.
-/

namespace DrcNode

open Checked

/-- The fields of `chaincfg.Params` that the checks read. -/
structure Params where
  genesisBlock : MsgBlock
  bip0034Height : Int
  bip0065Height : Int
  bip0066Height : Int
  coinbaseMaturity : UInt16
  subsidyReductionInterval : Nat

/-- The primitives and the parameters a node runs with. -/
structure Env where
  prim : Primitives
  params : Params

/-- `GenesisHash`: the hash of the header of the genesis block. -/
def Env.genesisHash (env : Env) : Hash := env.params.genesisBlock.header.blockHash env.prim

/-- A panic inside a check. -/
def Check.ofPanic {α : Type} : Except Panic α → Check α
  | .ok a => .ok a
  | .error p => .error (.panic p)

@[simp] theorem Check.ofPanic_eq_ok {α : Type} {x : Except Panic α} {a : α} :
    Check.ofPanic x = .ok a ↔ x = .ok a := by
  cases x <;> simp [Check.ofPanic]

/-! ### The block it extends -/

/-- `ExtractCoinbaseHeight`: the height at the start of the signature script of the coinbase, in 32
bits. -/
def extractCoinbaseHeight (coinbaseTx : MsgTx) : Check Int32 :=
  match coinbaseTx.txIn with
  | [] => .error (.panic .indexOutOfRange)
  | txIn :: _ =>
      match txIn.signatureScript with
      | [] => ruleError .errMissingCoinbaseHeight
      | opcode :: rest =>
          if opcode = 0 then .ok 0
          else if Opcode.op1 ≤ opcode ∧ opcode ≤ Opcode.op16 then
            .ok (Int32.ofNat (opcode.toNat - (Opcode.op1.toNat - 1)))
          else if rest.length < opcode.toNat then ruleError .errMissingCoinbaseHeight
          else .ok (Int32.ofNat (ofLeBytes ((rest.take opcode.toNat).take 8)))

def checkSerializedHeight (coinbaseTx : MsgTx) (wantHeight : Nat) : Check Unit := do
  let serializedHeight ← extractCoinbaseHeight coinbaseTx
  require (serializedHeight.toInt = wantHeight) .errBadCoinbaseHeight

def lockTimeThreshold : UInt32 := 500000000

def isFinalizedTransaction (msgTx : MsgTx) (blockHeight : Nat) (blockTime : Int) : Bool :=
  let blockTimeOrHeight : Int :=
    if msgTx.lockTime < lockTimeThreshold then blockHeight else blockTime
  msgTx.lockTime == 0 || decide (msgTx.lockTime.toNat < blockTimeOrHeight) ||
    msgTx.txIn.all fun txIn => txIn.sequence == 0xffffffff

/-- `checkBlockHeaderContext`: signature, weight and timestamp against the blocks before. -/
def checkBlockHeaderContext (prim : Primitives) (header : BlockHeader) (prevNode : BlockNode) :
    Check Unit :=
  match prim.parsePubKey header.publicKey with
  | none => .error (.error .parsePubKey)
  | some pubKey => do
      require (prim.verify (getSignature header.signature)
        (prim.doubleHash64 prevNode.fields.signature) pubKey = true) .errUnexpectedDifficulty
      let pi ← Check.ofPanic (blockVerge (headerContextWindow prevNode).estimate)
      require (prim.weight header.signature < pi) .errUnexpectedDifficulty
      require (prevNode.calcPastMedianTime < header.timestamp) .errTimeTooOld

def checkBlockContext (prim : Primitives) (block : Block) (prevNode : BlockNode) : Check Unit := do
  checkBlockHeaderContext prim block.msgBlock.header prevNode
  let blockTime := prevNode.calcPastMedianTime
  let blockHeight := prevNode.height + 1
  require (∀ tx ∈ block.msgBlock.transactions,
    isFinalizedTransaction tx blockHeight blockTime = true) .errUnfinalizedTx
  match block.msgBlock.transactions with
  | [] => .error (.panic .indexOutOfRange)
  | coinbaseTx :: _ => checkSerializedHeight coinbaseTx blockHeight

variable {prim : Primitives} {prevNode : BlockNode} {view : UtxoViewpoint} (env : Env)
  (msgTx : MsgTx)

/-- **What the header of a block in the index satisfies.** -/
theorem checkBlockHeaderContext_eq_ok_iff {header : BlockHeader} :
    checkBlockHeaderContext prim header prevNode = .ok () ↔
      (∃ pubKey, prim.parsePubKey header.publicKey = some pubKey ∧
        prim.verify (getSignature header.signature)
          (prim.doubleHash64 prevNode.fields.signature) pubKey = true) ∧
      (∃ pi, blockVerge (headerContextWindow prevNode).estimate = .ok pi ∧
        prim.weight header.signature < pi) ∧
      prevNode.calcPastMedianTime < header.timestamp := by
  rw [checkBlockHeaderContext]
  cases hk : prim.parsePubKey header.publicKey with
  | none =>
    constructor
    · intro h
      cases h
    · rintro ⟨⟨pubKey, hp, -⟩, -⟩
      exact absurd hp (Option.some_ne_none pubKey).symm
  | some pubKey =>
    simp only [bind_eq_ok, require_eq_ok, Check.ofPanic_eq_ok, exists_const,
      Option.some.injEq, exists_eq_left']
    constructor
    · rintro ⟨hv, pi, hpi, hw, ht⟩
      exact ⟨hv, ⟨pi, hpi, hw⟩, ht⟩
    · rintro ⟨hv, ⟨pi, hpi, hw⟩, ht⟩
      exact ⟨hv, pi, hpi, hw, ht⟩

/-! ### The inputs of a transaction -/

/-- One round of the loop over the inputs in `CheckTransactionInputs`. -/
def addInput (txHeight : Nat) (view : UtxoViewpoint) (totalSatoshiIn : Int64)
    (txIn : TxIn) : Check Int64 :=
  match view.lookupEntry txIn.previousOutPoint with
  | none => ruleError .errMissingTxOut
  | some utxo => do
      require (utxo.isSpent = false) .errMissingTxOut
      require (utxo.isCoinBase = true →
        (env.params.coinbaseMaturity.toNat : Int) ≤ txHeight - utxo.blockHeight) .errImmatureSpend
      require (0 ≤ utxo.amount) .errBadTxOutValue
      require (utxo.amount ≤ maxSatoshi) .errBadTxOutValue
      let total := totalSatoshiIn + utxo.amount
      require (totalSatoshiIn ≤ total ∧ total ≤ maxSatoshi) .errBadTxOutValue
      pure total

/-- The sum of the output values, in 64 bits. -/
def totalSatoshiOut : Int64 :=
  msgTx.txOut.foldl (fun total txOut => total + txOut.value) 0

/-- `CheckTransactionInputs`: the fee of the transaction. -/
def checkTransactionInputs (txHeight : Nat) (view : UtxoViewpoint) : Check Int64 :=
  if isCoinBaseTx msgTx then .ok 0
  else do
    let totalSatoshiIn ← msgTx.txIn.foldlM (addInput env txHeight view) 0
    require (totalSatoshiOut msgTx ≤ totalSatoshiIn) .errSpendTooHigh
    pure (totalSatoshiIn - totalSatoshiOut msgTx)

/-! ### Signature operations -/

/-- The operations of one input in `CountP2SHSigOps`, `none` when its output is missing or spent. -/
def inputP2SHSigOps (view : UtxoViewpoint) (txIn : TxIn) : Option Nat :=
  match view.lookupEntry txIn.previousOutPoint with
  | none => none
  | some utxo =>
      if utxo.isSpent then none
      else if isPayToScriptHash utxo.pkScript then
        some (getPreciseSigOpCount txIn.signatureScript utxo.pkScript true)
      else some 0

/-- `CountP2SHSigOps`, `none` for its error. -/
def countP2SHSigOps (isCoinBase : Bool) (view : UtxoViewpoint) : Option Nat :=
  if isCoinBase then some 0 else (msgTx.txIn.mapM (inputP2SHSigOps view)).map List.sum

/-- `GetSigOpCost` without segregated witness, as `checkConnectBlock` calls it. -/
def getSigOpCost (isCoinBase : Bool) (view : UtxoViewpoint) (bip16 : Bool) : Nat :=
  let numSigOps := countSigOps msgTx * witnessScaleFactor
  if bip16 then
    match countP2SHSigOps msgTx isCoinBase view with
    | some numP2SHSigOps => numSigOps + numP2SHSigOps * witnessScaleFactor
    -- the source drops the error, and with it what has been counted so far
    | none => 0
  else numSigOps

/-- One round of the loop over the transactions that adds up the cost. -/
def addSigOpCost (view : UtxoViewpoint) (bip16 : Bool) (totalSigOpCost : Nat)
    (tx : MsgTx × Nat) : Check Nat := do
  let totalSigOpCost := totalSigOpCost + getSigOpCost tx.1 (tx.2 == 0) view bip16
  require (totalSigOpCost ≤ maxBlockSigOpsCost) .errTooManySigOps
  pure totalSigOpCost

/-! ### Connecting a block -/

/-- The two blocks of the chain this code comes from that the rule of BIP0030 leaves out. -/
def block91842Hash : Hash := 0xeccae000e3c8e4e093936360431f3b7603c563c1ff6181390a4d0a0000000000

@[inherit_doc block91842Hash]
def block91880Hash : Hash := 0x21d77ccb4c08386a04ac0196ae10f6a1d2c2a377558ca190f143070000000000

def isBIP0030Node (node : BlockNode) : Bool :=
  (node.height == 91842 && node.hash == block91842Hash) ||
    (node.height == 91880 && node.hash == block91880Hash)

/-- `checkBIP0030`: no output of the block is already there and unspent. -/
def checkBIP0030 (prim : Primitives) (utxoSet : UtxoSet) (block : Block) (view : UtxoViewpoint) :
    Check UtxoViewpoint := do
  let fetchSet : List OutPoint := block.msgBlock.transactions.flatMap fun tx =>
    tx.txOut.zipIdx.map fun out => ⟨tx.txHash prim, UInt32.ofNat out.2⟩
  let view := view.fetchUtxos utxoSet fetchSet.dedup
  require (∀ outpoint ∈ fetchSet, ∀ utxo ∈ view.lookupEntry outpoint, utxo.isSpent = true)
    .errOverwriteTx
  pure view

def baseSubsidy : Nat := 50 * 100000000

/-- `CalcBlockSubsidy`. A negative number of halvings, as an unsigned shift, leaves nothing. -/
def calcBlockSubsidy (height : Int) : Int64 :=
  if env.params.subsidyReductionInterval = 0 then Int64.ofNat baseSubsidy
  else
    let halvings := height.tdiv env.params.subsidyReductionInterval
    if halvings < 0 then 0 else Int64.ofNat (baseSubsidy / 2 ^ halvings.toNat)

def bip16Activation : Int := 1333238400

/-- The flags `checkConnectBlock` runs the scripts with. -/
def scriptFlags (header : BlockHeader) (height : Nat) (bip16 : Bool) : UInt32 :=
  let scriptBip16 : UInt32 := if bip16 then 0x01 else 0
  let derSignatures : UInt32 :=
    if 3 ≤ header.version ∧ env.params.bip0066Height ≤ height then 0x40 else 0
  let checkLockTimeVerify : UInt32 :=
    if 4 ≤ header.version ∧ env.params.bip0065Height ≤ height then 0x08 else 0
  scriptBip16 ||| derSignatures ||| checkLockTimeVerify ||| 0x10

structure SequenceLock where
  seconds : Int
  blockHeight : Int

/-- `calcSequenceLock` for a transaction that is not in the memory pool: always the lock that
permits any height and time. -/
def calcSequenceLock : SequenceLock := ⟨-1, -1⟩

def sequenceLockActive (lock : SequenceLock) (blockHeight : Nat) (medianTimePast : Int) : Bool :=
  decide (lock.seconds < medianTimePast) && decide (lock.blockHeight < blockHeight)

/-- What `validateHandler` does with one input. -/
def checkInputScript (prim : Primitives) (view : UtxoViewpoint) (flags : UInt32) (msgTx : MsgTx)
    (txIn : TxIn × Nat) : Check Unit :=
  if txIn.1.previousOutPoint.index = 0xffffffff then .ok ()
  else
    match view.lookupEntry txIn.1.previousOutPoint with
    | none => ruleError .errMissingTxOut
    | some utxo =>
        match prim.executeScript utxo.pkScript msgTx txIn.2 flags utxo.amount with
        | .success => .ok ()
        | .malformed => ruleError .errScriptMalformed
        | .failed => ruleError .errScriptValidation

def checkBlockScripts (prim : Primitives) (block : Block) (view : UtxoViewpoint)
    (flags : UInt32) : Check Unit :=
  block.msgBlock.transactions.forM fun tx =>
    tx.txIn.zipIdx.forM (checkInputScript prim view flags tx)

/-- What `checkConnectBlock` carries through the loop over the transactions. -/
structure Connecting where
  view : UtxoViewpoint
  stxos : List SpentTxOut := []
  totalFees : Int64 := 0

/-- One round of the loop over the transactions: check the inputs, add the fee, connect. -/
def connectTx (height : Nat) (state : Connecting) (tx : MsgTx) : Check Connecting := do
  let txFee ← checkTransactionInputs env tx height state.view
  let totalFees := state.totalFees + txFee
  require (state.totalFees ≤ totalFees) .errBadFees
  let (view, stxos) ← UtxoViewpoint.connectTransaction env.prim (state.view, state.stxos) tx height
  pure { view, stxos, totalFees }

/-- `checkConnectBlock`: the view with the block connected, and the outputs it spends. -/
def checkConnectBlock (utxoSet : UtxoSet) (node : BlockNode) (block : Block)
    (view : UtxoViewpoint) : Check (UtxoViewpoint × List SpentTxOut) := do
  require (node.hash ≠ env.genesisHash) .errMissingTxOut
  if view.bestHash ≠ block.msgBlock.header.prevBlock then .error (.error .assertError)
  let view ← if !isBIP0030Node node ∧ (node.height : Int) < env.params.bip0034Height
    then checkBIP0030 env.prim utxoSet block view else pure view
  match block.msgBlock.transactions with
  -- `transactions[1:]` in `fetchInputUtxos`
  | [] => .error (.panic .indexOutOfRange)
  | coinbaseTx :: txs =>
      let transactions := coinbaseTx :: txs
      let view := view.fetchInputUtxos env.prim utxoSet transactions block.height
      let enforceBIP0016 := decide (bip16Activation ≤ node.fields.timestamp)
      let _ ← transactions.zipIdx.foldlM (addSigOpCost view enforceBIP0016) 0
      let state ← transactions.foldlM (connectTx env node.height) { view }
      require (totalSatoshiOut coinbaseTx ≤ calcBlockSubsidy env node.height + state.totalFees)
        .errBadCoinbaseValue
      match node.parent with
      | none => .error (.panic .nilPointer)
      | some parent => do
          require (∀ _tx ∈ transactions, sequenceLockActive calcSequenceLock node.height
            parent.calcPastMedianTime = true) .errUnfinalizedTx
          checkBlockScripts env.prim block state.view
            (scriptFlags env block.msgBlock.header node.height enforceBIP0016)
          pure ({ state.view with bestHash := node.hash }, state.stxos)

/-! ### Where the checks panic -/

theorem noPanic_blockVerge {scale : UInt16} (h : scale ≠ 0) :
    (Check.ofPanic (blockVerge scale)).NoPanic := by
  rw [blockVerge_eq, if_neg h]
  exact .ok

theorem noPanic_checkBlockHeaderContext_iff {header : BlockHeader} :
    (checkBlockHeaderContext prim header prevNode).NoPanic ↔
      ¬∃ pubKey, prim.parsePubKey header.publicKey = some pubKey ∧
        prim.verify (getSignature header.signature)
          (prim.doubleHash64 prevNode.fields.signature) pubKey = true ∧
        (headerContextWindow prevNode).estimate = 0 := by
  constructor
  · rintro h ⟨pubKey, hk, hv, he⟩
    refine absurd h (not_noPanic_iff.2 ⟨.divideByZero, ?_⟩)
    rw [checkBlockHeaderContext, hk]
    simp only [hv, require, if_true, he]
    rfl
  · intro h
    rw [checkBlockHeaderContext]
    cases hk : prim.parsePubKey header.publicKey with
    | none => exact noPanic_error
    | some pubKey =>
      refine noPanic_require.bind fun _ hv => ?_
      have he : (headerContextWindow prevNode).estimate ≠ 0 := fun hz =>
        h ⟨pubKey, hk, require_eq_ok.1 hv, hz⟩
      exact (noPanic_blockVerge he).bind fun _ _ =>
        noPanic_require.bind fun _ _ => noPanic_require

theorem noPanic_checkSerializedHeight_iff {coinbaseTx : MsgTx} {wantHeight : Nat} :
    (checkSerializedHeight coinbaseTx wantHeight).NoPanic ↔ coinbaseTx.txIn ≠ [] := by
  constructor
  · intro h hn
    refine absurd h (not_noPanic_iff.2 ⟨.indexOutOfRange, ?_⟩)
    rw [checkSerializedHeight, extractCoinbaseHeight, hn]
    rfl
  · intro h
    obtain ⟨txIn, txIns, hc⟩ := List.exists_cons_of_ne_nil h
    rw [checkSerializedHeight, extractCoinbaseHeight, hc]
    refine .bind ?_ fun _ _ => noPanic_require
    dsimp only
    split
    · exact noPanic_error
    · split_ifs
      · exact .ok
      · exact .ok
      · exact noPanic_error
      · exact .ok

theorem noPanic_checkTransactionInputs {env : Env} {txHeight : Nat} (msgTx : MsgTx) :
    (checkTransactionInputs env msgTx txHeight view).NoPanic := by
  have hi : ∀ total : Int64, ∀ txIn ∈ msgTx.txIn,
      (addInput env txHeight view total txIn).NoPanic := by
    intro total txIn _
    rw [addInput]
    cases view.lookupEntry txIn.previousOutPoint with
    | none => exact noPanic_error
    | some utxo =>
      exact noPanic_require.seq <| noPanic_require.seq <| noPanic_require.seq <|
        noPanic_require.seq <| noPanic_require.seq .ok
  rw [checkTransactionInputs]
  split_ifs
  · exact .ok
  · exact (FailsOnly.foldlM hi).bind fun _ _ => noPanic_require.seq .ok

theorem noPanic_checkBlockScripts {flags : UInt32} (block : Block) :
    (checkBlockScripts prim block view flags).NoPanic := by
  refine .forM fun tx _ => .forM fun txIn _ => ?_
  rw [checkInputScript]
  split_ifs
  · exact .ok
  split
  · exact noPanic_error
  · split
    · exact .ok
    · exact noPanic_error
    · exact noPanic_error

/-- `checkConnectBlock` does not panic on a block with transactions and a parent. -/
theorem noPanic_checkConnectBlock {env : Env} {utxoSet : UtxoSet} {node : BlockNode} {block : Block}
    (ht : block.msgBlock.transactions ≠ []) (hp : node.parent ≠ none) :
    (checkConnectBlock env utxoSet node block view).NoPanic := by
  obtain ⟨coinbaseTx, txs, ht⟩ := List.exists_cons_of_ne_nil ht
  obtain ⟨parent, hp⟩ := Option.ne_none_iff_exists'.1 hp
  have hc : ∀ state, ∀ tx ∈ coinbaseTx :: txs, (connectTx env node.height state tx).NoPanic :=
    fun _ tx _ => (noPanic_checkTransactionInputs tx).bind fun _ _ =>
      noPanic_require.bind fun _ _ =>
      UtxoViewpoint.noPanic_connectTransaction.bind fun _ _ => .ok
  have hs : ∀ view enforceBIP0016 total, ∀ tx ∈ (coinbaseTx :: txs).zipIdx,
      (addSigOpCost view enforceBIP0016 total tx).NoPanic :=
    fun _ _ _ _ _ => noPanic_require.seq .ok
  have hBIP0030 : (checkBIP0030 env.prim utxoSet block view).NoPanic :=
    noPanic_require.seq .ok
  rw [checkConnectBlock, ht, hp]
  refine noPanic_require.seq ?_
  dsimp only
  split_ifs
  · exact noPanic_error.bind fun _ h => by cases h
  · exact noPanic_error.bind fun _ h => by cases h
  -- with and without the check of BIP0030 the rest is the same, on another view
  on_goal 1 => refine hBIP0030.bind fun _ _ => ?_
  on_goal 2 => refine FailsOnly.ok.bind fun _ _ => ?_
  all_goals
    refine (FailsOnly.foldlM (hs _ _)).bind fun _ _ =>
      (FailsOnly.foldlM hc).bind fun _ _ => ?_
    exact noPanic_require.seq <| noPanic_require.seq <|
      (noPanic_checkBlockScripts block).seq .ok

end DrcNode
