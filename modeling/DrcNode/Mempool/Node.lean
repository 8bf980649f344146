import DrcNode.Mempool.Process
import DrcNode.Net.Acceptance

/-!
# The memory pool of a running node

When a block is connected, `handleBlockchainNotification` is to remove its transactions from the
pool, and those that spend an output that the block spends, with whatever depends on them. The chain
does not tell it: in `connectBlock` the call of `sendNotification` stands in a comment.

## Main definitions

* `FullNode`: a node with its pool.

## Main results

* `FullNode.cleanedUp_iff`: when there was nothing to remove.

Source: `connectBlock` in `blockchain/chain.go`; `handleTxMsg` and `handleBlockchainNotification` in
`netsync/manager.go`; `handleSendRawTransaction` in `rpcserver.go`; `peerDoneHandler` and the
configuration of the pool, which has no `IsDeploymentActive`, in `server.go`. Transactions that have
been rejected before are dropped and are no events.
-/

namespace DrcNode

open Checked List

/-- A node with its memory pool. -/
structure FullNode (prim : Primitives) where
  node : Node prim
  txPool : TxPool

/-- What can happen. -/
inductive FullEvent
  | consensus (event : Event)
  | tx (tx : MsgTx) (peer : UInt64) (now : Int) (order : MapOrder)
  | sendRawTransaction (tx : MsgTx) (now : Int) (order : MapOrder)
  | donePeer (peer : UInt64) (order : MapOrder)

/-- The orders that an event of the rest of the node carries are possible. -/
def FullNode.Possible {prim : Primitives} (full : FullNode prim) : FullEvent → Prop
  | .consensus event => DrcNode.Possible full.node event
  | _ => True

instance {prim : Primitives} (full : FullNode prim) (event : FullEvent) :
    Decidable (full.Possible event) :=
  match event with
  | .consensus event => inferInstanceAs (Decidable (DrcNode.Possible full.node event))
  | .tx .. => isTrue trivial
  | .sendRawTransaction .. => isTrue trivial
  | .donePeer .. => isTrue trivial

namespace FullNode

/-- The node when it starts. -/
def start (env : Env) (startup : Startup) (now : Int) : FullNode env.prim where
  node := Node.start env startup
  txPool := .new now

/-- What the pool reads of the chain. -/
def context {prim : Primitives} (full : FullNode prim) (now : Int) : PoolContext where
  tip := full.node.chain.tip
  utxoSet := full.node.chain.utxoSet
  isDeploymentActive := none
  now := now

variable (env : Env) (policy : TxPolicy) (privKey : PrivateKey)

def handleTxMsg (ctx : PoolContext) (order : MapOrder) (tx : MsgTx) (peer : UInt64)
    (pool : TxPool) : Except PoolStop TxPool :=
  (TxPool.processTransaction env policy ctx order tx true true peer pool).map Prod.fst

/-- The safeguard of `handleSendRawTransaction`: a transaction that is not the first of the accepted
ones is removed. -/
def safeguard (tx : MsgTx) (result : TxPool × Except TxError (List PoolTxDesc)) :
    Except PoolStop TxPool :=
  match result.2 with
  | .error _ => .ok result.1
  | .ok acceptedTxs =>
      if acceptedTxs.head?.any fun txDesc => txDesc.tx.txHash env.prim == tx.txHash env.prim then
        .ok result.1
      else TxPool.removeTransaction env.prim tx true result.1

def handleSendRawTransaction (ctx : PoolContext) (order : MapOrder) (tx : MsgTx)
    (pool : TxPool) : Except PoolStop TxPool := do
  let result ← TxPool.processTransaction env policy ctx order tx false false 0 pool
  safeguard env tx result

/-- The node after an event. Nothing happens to the pool when the chain changes. -/
def step (full : FullNode env.prim) : FullEvent → Except PoolStop (FullNode env.prim)
  | .consensus event =>
      match DrcNode.step env privKey full.node event with
      | .error p => .error (.panic p)
      | .ok node => .ok { full with node }
  | .tx tx peer now order =>
      (handleTxMsg env policy (full.context now) order tx peer full.txPool).map fun txPool =>
        { full with txPool }
  | .sendRawTransaction tx now order =>
      (handleSendRawTransaction env policy (full.context now) order tx full.txPool).map
        fun txPool => { full with txPool }
  | .donePeer peer order =>
      .ok { full with txPool := (TxPool.removeOrphansByTag env.prim order peer full.txPool).1 }

end FullNode

/-! ### A block is connected -/

/-- **A block is connected**: it is the block of a node that is new in the best chain. -/
def ConnectsBlock {prim : Primitives} (chain chain' : BlockChain prim) (msgBlock : MsgBlock) :
    Prop :=
  ∃ node ∈ chain'.bestChain, node ∉ chain.bestChain ∧ chain'.blocks.lookup node.hash = some msgBlock

/-- A transaction spends an output that the block spends, and is none of its transactions. -/
def Conflicts (prim : Primitives) (msgBlock : MsgBlock) (tx : MsgTx) : Prop :=
  (∀ blockTx ∈ msgBlock.transactions, blockTx.txHash prim ≠ tx.txHash prim) ∧
    ∃ blockTx ∈ msgBlock.transactions, ∃ outpoint ∈ blockTx.spends, outpoint ∈ tx.inputs

/-- **The pool after a block has been connected, as it should be.** -/
structure CleanedUp (prim : Primitives) (msgBlock : MsgBlock) (pool pool' : TxPool) : Prop where
  transactions : ∀ tx ∈ msgBlock.transactions, tx.txHash prim ∉ pool'.pool
  conflicts : ∀ hash txDesc, pool'.pool.lookup hash = some txDesc →
    ¬Conflicts prim msgBlock txDesc.tx
  descendants : ∀ hash txDesc, pool.pool.lookup hash = some txDesc →
    Conflicts prim msgBlock txDesc.tx →
      ∀ other, TxPool.Descends prim pool txDesc.tx other → other ∉ pool'.pool

/-- **There is nothing to remove**: no transaction of the block waits in the pool, and none that
conflicts with it. -/
def NothingToRemove (prim : Primitives) (msgBlock : MsgBlock) (pool : TxPool) : Prop :=
  (∀ tx ∈ msgBlock.transactions, tx.txHash prim ∉ pool.pool) ∧
    ∀ hash txDesc, pool.pool.lookup hash = some txDesc → ¬Conflicts prim msgBlock txDesc.tx

variable {env : Env} {policy : TxPolicy} {privKey : PrivateKey} {full full' : FullNode env.prim}
  {event : FullEvent} {msgBlock : MsgBlock}

/-- Calls of the pool do not move the chain, and events that move the chain do not touch the
pool. -/
theorem FullNode.step_cases (h : full.step env policy privKey event = .ok full') :
    full'.txPool = full.txPool ∨ full'.node = full.node := by
  cases event with
  | consensus event =>
    rw [step] at h
    split at h
    · cases h
    · rename_i node hs
      cases h
      exact .inl rfl
  | tx tx peer now order =>
    obtain ⟨_, -, rfl⟩ := map_eq_ok.1 h
    exact .inr rfl
  | sendRawTransaction tx now order =>
    obtain ⟨_, -, rfl⟩ := map_eq_ok.1 h
    exact .inr rfl
  | donePeer peer order =>
    cases h
    exact .inr rfl

/-- **When the pool is as it should be after a block has been connected**: when there was nothing to
remove. -/
theorem FullNode.cleanedUp_iff (hstep : full.step env policy privKey event = .ok full')
    (hconnects : ConnectsBlock full.node.chain full'.node.chain msgBlock) :
    CleanedUp env.prim msgBlock full.txPool full'.txPool ↔
      NothingToRemove env.prim msgBlock full.txPool := by
  obtain hp | hn := step_cases hstep
  · rw [hp]
    constructor
    · exact fun h => ⟨h.transactions, h.conflicts⟩
    · rintro ⟨ht, hc⟩
      exact ⟨ht, hc, fun hash txDesc htx hco =>
        absurd hco (hc hash txDesc htx)⟩
  · obtain ⟨node, hnw, hno, -⟩ := hconnects
    rw [hn] at hnw
    exact absurd hnw hno

/-! ### A transaction that stays -/

/-- The network of the chain tests, where coinbases mature in the next block. -/
def quickEnv : Env := { sampleEnv with params := { sampleEnv.params with coinbaseMaturity := 1 } }

/-- A coinbase that pays to anybody. -/
def openCoinbase (height : UInt8) : MsgTx :=
  { sampleCoinbase height with txOut := [{ value := 50000, pkScript := [Opcode.op1] }] }

/-- A block with the given parent and transactions. -/
def openBlock (prevBlock : Hash) (height : UInt8) (transactions : List MsgTx) : MsgBlock where
  header := sampleHeader prevBlock
    ((merkleRoot quickEnv.prim (openCoinbase height :: transactions)).getD 0) height.toNat
  transactions := openCoinbase height :: transactions

/-- A block that is sent to a node that catches up. -/
def sendBlock (msgBlock : MsgBlock) : FullEvent :=
  .consensus (.syncBlock
    { typeParameter := 1
      msgCandidate :=
        { header := msgBlock.header, transactions := msgBlock.transactions, sigwit := ⟨0⟩ } })

/-- A block on top of the genesis block. -/
def coinBlock : MsgBlock := openBlock quickEnv.genesisHash 1 []

/-- A transaction that spends the coinbase of the block. -/
def coinTx : MsgTx := openTx [⟨(openCoinbase 1).txHash quickEnv.prim, 0⟩] [40000]

/-- A block with the transaction. -/
def confirmingBlock : MsgBlock :=
  openBlock (coinBlock.header.blockHash quickEnv.prim) 2 [coinTx]

theorem connectsBlock_tip {prim : Primitives} {chain chain' : BlockChain prim}
    (hh : chain.tip.height < chain'.tip.height)
    (hb : chain'.blocks.lookup chain'.tip.hash = some msgBlock) :
    ConnectsBlock chain chain' msgBlock := by
  refine ⟨chain'.tip, mem_cons_self, fun hm => ?_, hb⟩
  obtain heq | ha := mem_cons.1 hm
  · rw [heq] at hh
    exact lt_irrefl _ hh
  · exact lt_asymm hh (BlockNode.height_lt_of_mem_ancestors ha)

/-- **A transaction stays in the pool when a block that contains it is connected.** -/
theorem confirmed_transaction_stays :
    ∃ full full', Runs.Run (FullNode.step quickEnv freePolicy sampleKey) FullNode.Possible
        (.start quickEnv {} 0) [sendBlock coinBlock, .tx coinTx 1 0 .increasing] full ∧
      full.step quickEnv freePolicy sampleKey (sendBlock confirmingBlock) = .ok full' ∧
      ConnectsBlock full.node.chain full'.node.chain confirmingBlock ∧
      ¬CleanedUp quickEnv.prim confirmingBlock full.txPool full'.txPool := by
  obtain ⟨full, hr, hn⟩ : ∃ full, Runs.Run (FullNode.step quickEnv freePolicy sampleKey)
      FullNode.Possible (.start quickEnv {} 0)
      [sendBlock coinBlock, .tx coinTx 1 0 .increasing] full ∧
      (full.step quickEnv freePolicy sampleKey (sendBlock confirmingBlock)).toOption.any
        (fun full' =>
        decide (full.node.chain.tip.height < full'.node.chain.tip.height ∧
          full'.node.chain.blocks.lookup full'.node.chain.tip.hash = some confirmingBlock ∧
            coinTx.txHash quickEnv.prim ∈ full'.txPool.pool)) = true :=
    Runs.exists_run (by decide +kernel)
  obtain ⟨full', hs, ha⟩ := (Option.any_eq_true ..).1 hn
  obtain ⟨hh, hb, hm⟩ := of_decide_eq_true ha
  refine ⟨full, full', hr, toOption_eq_some.1 hs, connectsBlock_tip hh hb, fun hc => ?_⟩
  exact hc.transactions coinTx (mem_cons_of_mem _ mem_cons_self) hm

/-- A block without the transaction. -/
def emptyBlock : MsgBlock := openBlock (coinBlock.header.blockHash quickEnv.prim) 2 []

/-- When the block has a coinbase only there is nothing to remove. -/
theorem cleanedUp_emptyBlock :
    ∃ full, Runs.Run (FullNode.step quickEnv freePolicy sampleKey) FullNode.Possible
        (.start quickEnv {} 0) [sendBlock coinBlock, .tx coinTx 1 0 .increasing] full ∧
      coinTx.txHash quickEnv.prim ∈ full.txPool.pool ∧
      ∃ full', full.step quickEnv freePolicy sampleKey (sendBlock emptyBlock) = .ok full' ∧
        ConnectsBlock full.node.chain full'.node.chain emptyBlock ∧
        CleanedUp quickEnv.prim emptyBlock full.txPool full'.txPool := by
  refine Runs.exists_run_of (P := fun full => coinTx.txHash quickEnv.prim ∈ full.txPool.pool ∧
    (∀ tx ∈ emptyBlock.transactions, tx.txHash quickEnv.prim ∉ full.txPool.pool) ∧
    (full.step quickEnv freePolicy sampleKey (sendBlock emptyBlock)).toOption.any (fun full' =>
      decide (full.node.chain.tip.height < full'.node.chain.tip.height ∧
        full'.node.chain.blocks.lookup full'.node.chain.tip.hash = some emptyBlock)) = true)
    (by decide +kernel) ?_
  rintro full - ⟨hm, hn, hs⟩
  obtain ⟨full', hs, ha⟩ := (Option.any_eq_true ..).1 hs
  obtain ⟨hh, hb⟩ := of_decide_eq_true ha
  have hs := toOption_eq_some.1 hs
  have hc := connectsBlock_tip hh hb
  refine ⟨hm, full', hs, hc, (FullNode.cleanedUp_iff hs hc).2 ⟨hn, ?_⟩⟩
  -- the coinbase spends nothing
  rintro _ _ - ⟨-, blockTx, htx, outpoint, ho, -⟩
  rw [mem_singleton.1 htx] at ho
  cases ho

end DrcNode
