import DrcNode.Chain.View
import DrcNode.Library.SliceHeap
import DrcNode.Mining.Miner
import DrcNode.Script.Engine

/-!
# Choosing the transactions of a template

`NewBlockTemplate` goes through the memory pool twice. First it looks up what each transaction
spends in the database. A transaction whose outputs are there goes into a priority queue; one that
spends outputs of other transactions of the pool waits for them. Then it takes the transactions from
the queue, and adds to the block what fits into it and passes the checks on the view it has built;
those that waited for one of them go into the queue once they wait for nothing else. The database is
that of the tip of the best chain, although the template is built on the best candidate.

Source: `mining/mining.go`, the first half of `NewBlockTemplate`, `mergeUtxoView`,
`spendTransaction`, `txPQByPriority` and `txPQByFee`; `mining/policy.go`; `FetchUtxoView` in
`blockchain/utxoviewpoint.go`; `GetTransactionWeight` in `blockchain/weight.go`; `MiningDescs` and
`HaveTransaction` in `mempool/mempool.go`. Priorities are rational numbers, and heights are
integers. The map `dependers` is read off `dependsOn`.
-/

namespace DrcNode

/-! ### The memory pool -/

/-- `Policy`, as far as templates depend on it. -/
structure Policy where
  blockMinWeight : UInt32
  blockMaxWeight : UInt32
  blockPrioritySize : UInt32
  txMinFreeFee : Int64
  deriving DecidableEq, Repr

/-- `TxDesc`, as far as templates depend on it. -/
structure TxDesc where
  tx : MsgTx
  fee : Int64
  feePerKB : Int64
  deriving DecidableEq, Repr

/-- `TxSource`, the memory pool: the transactions as `MiningDescs` lists them, and the hashes of the
orphans. -/
structure TxSource where
  miningDescs : List TxDesc
  orphans : List Hash
  deriving DecidableEq, Repr

def TxSource.haveTransaction (prim : Primitives) (txSource : TxSource) (hash : Hash) : Bool :=
  decide (hash ∈ txSource.miningDescs.map fun txDesc => txDesc.tx.txHash prim) ||
    decide (hash ∈ txSource.orphans)

structure TxPrioItem where
  tx : MsgTx
  fee : Int64 := 0
  priority : ℚ := 0
  feePerKB : Int64 := 0
  dependsOn : List Hash := []
  deriving DecidableEq, Repr

def txPQByPriority (a b : TxPrioItem) : Bool :=
  if a.priority = b.priority then decide (b.feePerKB < a.feePerKB)
  else decide (b.priority < a.priority)

def txPQByFee (a b : TxPrioItem) : Bool :=
  if a.feePerKB = b.feePerKB then decide (b.priority < a.priority)
  else decide (b.feePerKB < a.feePerKB)

/-- The field `lessFunc` of the priority queue. -/
def lessFunc (sortedByFee : Bool) : TxPrioItem → TxPrioItem → Bool :=
  if sortedByFee then txPQByFee else txPQByPriority

/-- The order in which `range` visits the transactions that are released by the one with a given
hash. -/
structure RangeOrder where
  visit : Hash → List TxPrioItem → List TxPrioItem
  perm : ∀ hash items, (visit hash items).Perm items

/-! ### Priorities -/

def unminedHeight : Int := 0x7fffffff

def minHighPriority : ℚ := 100000000 * 144 / 250

/-- One round of the loop of `calcInputValueAge`. The product has 64 bits. -/
def inputValueAge (view : UtxoViewpoint) (nextBlockHeight : Int) (txIn : TxIn) : ℚ :=
  match view.lookupEntry txIn.previousOutPoint with
  | none => 0
  | some entry =>
      if entry.isSpent then 0
      else
        let inputAge := if entry.blockHeight = unminedHeight then 0
          else nextBlockHeight - entry.blockHeight
        (entry.amount * Int64.ofInt inputAge).toInt

def calcPriority (msgTx : MsgTx) (view : UtxoViewpoint) (nextBlockHeight : Int) : ℚ :=
  let overhead := (msgTx.txIn.map fun txIn => 41 + min 110 txIn.signatureScript.length).sum
  if msgTx.serializeSize ≤ overhead then 0
  else (msgTx.txIn.map (inputValueAge view nextBlockHeight)).sum /
    ((msgTx.serializeSize - overhead : ℕ) : ℚ)

/-! ### Gathering the transactions -/

section Gathering

variable (env : Env) (utxoSet : UtxoSet) (txSource : TxSource)

/-- The outpoints that `FetchUtxoView` loads: those of the transaction itself and of its inputs. -/
def viewOutPoints (msgTx : MsgTx) : List OutPoint :=
  (msgTx.txOut.zipIdx.map fun out => ⟨msgTx.txHash env.prim, UInt32.ofNat out.2⟩) ++ msgTx.spends

def fetchUtxoView (msgTx : MsgTx) : UtxoViewpoint :=
  (UtxoViewpoint.new 0).fetchUtxosMain utxoSet (viewOutPoints env msgTx)

/-- The output is in the view and unspent. -/
def availableIn (view : UtxoViewpoint) (outpoint : OutPoint) : Bool :=
  (view.lookupEntry outpoint).any fun entry => !entry.isSpent

/-- `mergeUtxoView`, for a second view with entries for `outpoints`: an entry of the first one stays
when it is unspent. -/
def mergeUtxoView (viewA viewB : UtxoViewpoint) (outpoints : List OutPoint) : UtxoViewpoint :=
  outpoints.foldl (fun view outpoint => if availableIn view outpoint then view
    else view.setEntry outpoint (viewB.lookupEntry outpoint)) viewA

/-- The loop over the inputs of a transaction: the hashes it has to wait for, and whether it got to
the end. -/
def findDependencies (utxos : UtxoViewpoint) : List TxIn → List Hash → List Hash × Bool
  | [], dependsOn => (dependsOn, true)
  | txIn :: inputs, dependsOn =>
      if availableIn utxos txIn.previousOutPoint then findDependencies utxos inputs dependsOn
      else if txSource.haveTransaction env.prim txIn.previousOutPoint.hash then
        findDependencies utxos inputs (dependsOn.insert txIn.previousOutPoint.hash)
      else (dependsOn, false)

/-- What the first loop has built: the priority queue, the transactions that wait for others, and
the view of the block. -/
structure Gathered where
  queue : List TxPrioItem := []
  waiting : List TxPrioItem := []
  blockUtxos : UtxoViewpoint := .new 0

/-- An item goes into the queue or waits. -/
def Gathered.add (sortedByFee : Bool) (state : Gathered) (item : TxPrioItem) : Gathered :=
  if item.dependsOn = [] then
    { state with queue := SliceHeap.push (lessFunc sortedByFee) state.queue item }
  else { state with waiting := state.waiting ++ [item] }

/-- A transaction that may be in a block of the given height. -/
def isEligible (nextBlockHeight : Int32) (adjustedTime : Int) (msgTx : MsgTx) : Bool :=
  !isCoinBaseTx msgTx && isFinalizedTransaction msgTx nextBlockHeight.toNatClampNeg adjustedTime

/-- One round of the first loop. A transaction that is skipped may stay registered where it was
found to depend on another one. -/
def gatherTx (sortedByFee : Bool) (nextBlockHeight : Int32) (adjustedTime : Int) (state : Gathered)
    (txDesc : TxDesc) : Gathered :=
  if isEligible nextBlockHeight adjustedTime txDesc.tx then
    let utxos := fetchUtxoView env utxoSet txDesc.tx
    let (dependsOn, complete) := findDependencies env txSource utxos txDesc.tx.txIn []
    if complete then
      let item : TxPrioItem :=
        { tx := txDesc.tx
          fee := txDesc.fee
          priority := calcPriority txDesc.tx utxos nextBlockHeight.toInt
          feePerKB := txDesc.feePerKB
          dependsOn }
      { state.add sortedByFee item with
        blockUtxos := mergeUtxoView state.blockUtxos utxos (viewOutPoints env txDesc.tx) }
    else if dependsOn = [] then state
    else state.add sortedByFee { tx := txDesc.tx, dependsOn }
  else state

end Gathering

/-! ### Selecting the transactions -/

def getTransactionWeight (msgTx : MsgTx) : Nat :=
  msgTx.baseSize * (witnessScaleFactor - 1) + msgTx.serializeSize

def blockHeaderOverhead : Nat := 12 + 32 * 2 + 64 + 33 + 9

/-- What the second loop carries. -/
structure Selecting extends Gathered where
  sortedByFee : Bool
  blockWeight : UInt32
  blockSigOpCost : Nat
  totalFees : Int64 := 0
  selected : List MsgTx := []
  txFees : List Int64 := []
  txSigOpCosts : List Nat := []

/-- One round of the loop of `spendTransaction`. -/
def spendAvailable (view : UtxoViewpoint) (txIn : TxIn) : UtxoViewpoint :=
  match view.lookupEntry txIn.previousOutPoint with
  | none => view
  | some entry => view.setEntry txIn.previousOutPoint (some entry.spend)

def spendTransaction (prim : Primitives) (view : UtxoViewpoint) (msgTx : MsgTx) (height : Int) :
    UtxoViewpoint :=
  (msgTx.txIn.foldl spendAvailable view).addTxOuts prim msgTx height

section Selecting

variable (env : Env) (policy : Policy) (order : RangeOrder) (nextBlockHeight : Int32)
  (state : Selecting) (item : TxPrioItem)

/-- The transactions that wait, when one with the given hash has been added. -/
def release (hash : Hash) (waiting : List TxPrioItem) : List TxPrioItem × List TxPrioItem :=
  (waiting.map fun item => { item with dependsOn := item.dependsOn.filter (· ≠ hash) }).partition
    fun item => item.dependsOn.isEmpty

/-- The end of a round: the transaction of the item is added to the block. -/
def Selecting.addItem : Selecting :=
  let hash := item.tx.txHash env.prim
  let (released, waiting) := release hash state.waiting
  { state with
    queue := (order.visit hash released).foldl (SliceHeap.push (lessFunc state.sortedByFee))
      state.queue
    waiting
    blockUtxos := spendTransaction env.prim state.blockUtxos item.tx nextBlockHeight.toInt
    blockWeight := state.blockWeight + UInt32.ofNat (getTransactionWeight item.tx)
    blockSigOpCost := state.blockSigOpCost + getSigOpCost item.tx false state.blockUtxos true
    totalFees := state.totalFees + item.fee
    selected := state.selected ++ [item.tx]
    txFees := state.txFees ++ [item.fee]
    txSigOpCosts :=
      state.txSigOpCosts ++ [getSigOpCost item.tx false state.blockUtxos true] }

/-- `CheckTransactionInputs` and `ValidateTransactionScripts` on the view of the block. -/
def passesChecks (view : UtxoViewpoint) (msgTx : MsgTx) : Bool :=
  (checkTransactionInputs env msgTx nextBlockHeight.toNatClampNeg view).isOk &&
    (msgTx.txIn.zipIdx.forM (checkInputScript env.prim view standardVerifyFlags msgTx)).isOk

/-- From now on the transactions are taken by fee. -/
def Selecting.switchToFee : Selecting :=
  { state with sortedByFee := true, queue := SliceHeap.init txPQByFee state.queue }

/-- The item does not fit into the block, or is free and the block large enough. -/
def Selecting.skips : Bool :=
  let blockPlusTxWeight := state.blockWeight + UInt32.ofNat (getTransactionWeight item.tx)
  decide (blockPlusTxWeight < state.blockWeight) ||
    decide (policy.blockMaxWeight ≤ blockPlusTxWeight) ||
    decide (maxBlockSigOpsCost <
      state.blockSigOpCost + getSigOpCost item.tx false state.blockUtxos true) ||
    (state.sortedByFee && decide (item.feePerKB < policy.txMinFreeFee) &&
      decide (policy.blockMinWeight ≤ blockPlusTxWeight))

/-- The item is the last one to be taken by priority. -/
def Selecting.endsPriority : Bool :=
  let blockPlusTxWeight := state.blockWeight + UInt32.ofNat (getTransactionWeight item.tx)
  !state.sortedByFee && (decide (policy.blockPrioritySize ≤ blockPlusTxWeight) ||
    decide (item.priority ≤ minHighPriority))

/-- Such an item is put back when it is not at the limit exactly. -/
def Selecting.putsBack : Bool :=
  let blockPlusTxWeight := state.blockWeight + UInt32.ofNat (getTransactionWeight item.tx)
  decide (policy.blockPrioritySize < blockPlusTxWeight) || decide (item.priority < minHighPriority)

/-- The item is added if it passes the checks. -/
def Selecting.tryItem : Selecting :=
  if passesChecks env nextBlockHeight state.blockUtxos item.tx then
    state.addItem env order nextBlockHeight item
  else state

/-- One round of the second loop, for an item that has been taken from the queue. -/
def Selecting.selectItem : Selecting :=
  if state.skips policy item then state
  else if state.endsPriority policy item then
    if state.putsBack policy item then
      { state.switchToFee with queue := SliceHeap.push txPQByFee state.switchToFee.queue item }
    else state.switchToFee.tryItem env order nextBlockHeight item
  else state.tryItem env order nextBlockHeight item

/-- The second loop. -/
def selectLoop : Nat → Selecting → Selecting
  | 0, state => state
  | rounds + 1, state =>
      match SliceHeap.pop (lessFunc state.sortedByFee) state.queue with
      | none => state
      | some (item, queue) =>
          selectLoop rounds (Selecting.selectItem env policy order nextBlockHeight
            { state with queue } item)

end Selecting

section Template

variable (env : Env) (utxoSet : UtxoSet) (txSource : TxSource) (policy : Policy)
  (order : RangeOrder)
  (nextBlockHeight : Int32) (adjustedTime : Int) (pkScript : List UInt8)

/-- The state after the first loop, with the counters of the block for its header and coinbase. -/
def gatherAll : Selecting :=
  let sortedByFee := policy.blockPrioritySize == 0
  let coinbaseTx := createCoinbaseTx env nextBlockHeight pkScript 0
  { txSource.miningDescs.foldl
      (gatherTx env utxoSet txSource sortedByFee nextBlockHeight adjustedTime) {} with
    sortedByFee
    blockWeight := UInt32.ofNat
      (blockHeaderOverhead * witnessScaleFactor + getTransactionWeight coinbaseTx)
    blockSigOpCost := countSigOps coinbaseTx * witnessScaleFactor }

/-- The state after the second loop. There is a round for every transaction, and one for the item
that is put back. -/
def selectAll : Selecting :=
  selectLoop env policy order nextBlockHeight (txSource.miningDescs.length + 1)
    (gatherAll env utxoSet txSource policy nextBlockHeight adjustedTime pkScript)

/-- **What `NewBlockTemplate` takes from the memory pool.** -/
def selectInput : TemplateInput :=
  let state := selectAll env utxoSet txSource policy order nextBlockHeight adjustedTime pkScript
  { pkScript, selected := state.selected, totalFees := state.totalFees, adjustedTime }

end Template

end DrcNode
