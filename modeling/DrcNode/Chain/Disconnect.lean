import DrcNode.Chain.Restart

/-!
# Disconnecting the block at the tip

`disconnectBlock` is to undo `connectBlock`: the snapshot of the best chain and the row that is
stored for it become those of the previous block again. The sizes, the number of transactions, the
hash, the height and the median time are taken from the previous block and its node; the signature,
the public key, the scale, the reserved field and the votes are taken from the block that is
removed.

## Main results

* `disconnect_restores_iff`.

Source: `disconnectBlock` in `blockchain/chain.go`. The notification of the callers and the call of
the index manager are left out. The spend journal is kept as the list of outputs.
-/

namespace DrcNode

open BlockChain

/-- The errors of `disconnectBlock`. -/
inductive DisconnectError
  | notTip
  | fetchPrevBlock
  | fetchSpendJournal
  deriving DecidableEq, Repr

namespace BlockChain

variable {prim : Primitives} (chain : BlockChain prim)

/-- `dbFetchSpendJournalEntry`: a block that spends nothing needs no entry. -/
def fetchSpendJournalEntry (block : Block) : Except DisconnectError (List SpentTxOut) :=
  match chain.spendJournal.lookup (block.hash prim) with
  | some stxos => .ok stxos
  | none => if countSpentOutputs block = 0 then .ok [] else .error .fetchSpendJournal

/-- What `disconnectBlock` does once the previous block is loaded and the index is written. -/
def retract (prevNode : BlockNode) (prevBlock : MsgBlock) (block : Block) (view : UtxoViewpoint) :
    BlockChain prim :=
  let header := block.msgBlock.header
  let state := newBestState prevNode prevBlock.serializeSize prevBlock
    (chain.stateSnapshot.totalTxns - UInt64.ofNat block.msgBlock.transactions.length)
    header.signature header.publicKey header.scale header.reserved prevNode.calcPastMedianTime
    block.votes
  { chain with
    tip := prevNode
    stateSnapshot := state
    hashIndex := chain.hashIndex.erase (block.hash prim)
    utxoSet := chain.utxoSet.putUtxoView view
    spendJournal := chain.spendJournal.erase (block.hash prim)
    chainState := putBestState state }

/-- `disconnectBlock`. -/
def disconnectBlock (node : BlockNode) (block : Block) (view : UtxoViewpoint) :
    Except Panic (BlockChain prim × Except DisconnectError Unit) :=
  if node.hash ≠ chain.tip.hash then .ok (chain, .error .notTip)
  else
    match node.parent with
    | none => .error .nilPointer
    | some prevNode =>
        match chain.fetchBlockByNode prevNode with
        | none => .ok (chain, .error .fetchPrevBlock)
        | some prevBlock =>
            let chain := chain.flushToDB
            match chain.fetchSpendJournalEntry block with
            | .error e => .ok (chain, .error e)
            | .ok _ => .ok (chain.retract prevNode prevBlock block view, .ok ())

end BlockChain

variable {env : Env} {chain connected : BlockChain env.prim} {node : BlockNode} {block : Block}
  {view view' : UtxoViewpoint} {stxos : List SpentTxOut}

/-- The snapshot and the row that is stored for it belong to the tip. -/
structure Described {prim : Primitives} (chain : BlockChain prim) : Prop where
  hash_eq : chain.stateSnapshot.hash = chain.tip.hash
  height_eq : chain.stateSnapshot.height = chain.tip.height
  medianTime_eq : chain.stateSnapshot.medianTime = chain.tip.calcPastMedianTime
  chainState_eq : chain.chainState = putBestState chain.stateSnapshot

theorem Synced.described (h : Synced chain) : Described chain := by
  obtain ⟨msgBlock, -, -, hs⟩ := h.tip_stored
  exact
    { hash_eq := congrArg (fun s => s.hash) hs
      height_eq := congrArg (fun s => s.height) hs
      medianTime_eq := congrArg (fun s => s.medianTime) hs
      chainState_eq := h.chainState_eq }

/-- The block repeats what the snapshot has of the block before it, which is read back. -/
structure CarriesOver (chain : BlockChain env.prim) (block : Block) : Prop where
  prevBlock : ∃ prevBlock, chain.fetchBlockByNode chain.tip = some prevBlock ∧
    UInt64.ofNat prevBlock.serializeSize = chain.stateSnapshot.blockSize ∧
    UInt64.ofNat (getBlockWeight prevBlock) = chain.stateSnapshot.blockWeight ∧
    UInt64.ofNat prevBlock.transactions.length = chain.stateSnapshot.numTxns
  signature_eq : block.msgBlock.header.signature = chain.stateSnapshot.signature
  pubKey_eq : block.msgBlock.header.publicKey = chain.stateSnapshot.pubKey
  scale_eq : block.msgBlock.header.scale = chain.stateSnapshot.scale
  reserved_eq : block.msgBlock.header.reserved = chain.stateSnapshot.reserved
  votes_eq : block.votes = chain.stateSnapshot.votes

theorem BlockChain.eq_extend_of_connectBlock
    (hc : connectBlock env chain node block view stxos = .ok (connected, .ok ())) :
    connected = chain.flushToDB.extend node block view stxos := by
  rw [connectBlock] at hc
  split_ifs at hc
  · cases hc
  · cases hc
  · exact (congrArg Prod.fst (Except.ok.inj hc)).symm

/-- **What is left of a block that is connected and disconnected.** -/
theorem BlockChain.disconnectBlock_connectBlock (hp : node.parent = some chain.tip)
    (hc : connectBlock env chain node block view stxos = .ok (connected, .ok ())) :
    connected.disconnectBlock node block view' =
      match chain.fetchBlockByNode chain.tip with
      | none => .ok (connected, .error .fetchPrevBlock)
      | some prevBlock =>
          .ok (connected.flushToDB.retract chain.tip prevBlock block view', .ok ()) := by
  obtain rfl := eq_extend_of_connectBlock hc
  have hj : BlockChain.fetchSpendJournalEntry
      (chain.flushToDB.extend node block view stxos).flushToDB block = .ok stxos := by
    have hl : Finmap.lookup (block.hash env.prim)
        (chain.flushToDB.extend node block view stxos).flushToDB.spendJournal =
          some stxos := Finmap.lookup_insert _
    rw [BlockChain.fetchSpendJournalEntry, hl]
  have hf : (chain.flushToDB.extend node block view stxos).fetchBlockByNode
      chain.tip = chain.fetchBlockByNode chain.tip := rfl
  have ht : ¬node.hash ≠ (chain.flushToDB.extend node block view stxos).tip.hash :=
    not_not.2 rfl
  rw [disconnectBlock, if_neg ht, hp]
  dsimp only
  rw [hf]
  cases chain.fetchBlockByNode chain.tip with
  | none => rfl
  | some prevBlock =>
    rw [hj]

theorem BlockChain.stateSnapshot_retract_iff (hd : Described chain) {prevBlock : MsgBlock}
    (hc : connectBlock env chain node block view stxos = .ok (connected, .ok ())) :
    (connected.flushToDB.retract chain.tip prevBlock block view').stateSnapshot =
        chain.stateSnapshot ↔
      (UInt64.ofNat prevBlock.serializeSize = chain.stateSnapshot.blockSize ∧
        UInt64.ofNat (getBlockWeight prevBlock) = chain.stateSnapshot.blockWeight ∧
        UInt64.ofNat prevBlock.transactions.length = chain.stateSnapshot.numTxns) ∧
      block.msgBlock.header.signature = chain.stateSnapshot.signature ∧
      block.msgBlock.header.publicKey = chain.stateSnapshot.pubKey ∧
      block.msgBlock.header.scale = chain.stateSnapshot.scale ∧
      block.msgBlock.header.reserved = chain.stateSnapshot.reserved ∧
      block.votes = chain.stateSnapshot.votes := by
  obtain rfl := eq_extend_of_connectBlock hc
  -- the transactions of the block have been added and are subtracted again
  have ht : chain.stateSnapshot.totalTxns + UInt64.ofNat block.msgBlock.transactions.length -
        UInt64.ofNat block.msgBlock.transactions.length = chain.stateSnapshot.totalTxns :=
    UInt64.add_sub_cancel _ _
  change newBestState chain.tip prevBlock.serializeSize prevBlock
    (chain.stateSnapshot.totalTxns + UInt64.ofNat block.msgBlock.transactions.length -
      UInt64.ofNat block.msgBlock.transactions.length) _ _ _ _ _ _ = _ ↔ _
  rw [ht, newBestState, ← hd.hash_eq, ← hd.height_eq, ← hd.medianTime_eq]
  generalize chain.stateSnapshot = snapshot
  constructor
  · intro h
    exact ⟨⟨congrArg (fun s => s.blockSize) h, congrArg (fun s => s.blockWeight) h,
      congrArg (fun s => s.numTxns) h⟩, congrArg (fun s => s.signature) h,
      congrArg (fun s => s.pubKey) h, congrArg (fun s => s.scale) h,
      congrArg (fun s => s.reserved) h, congrArg (fun s => s.votes) h⟩
  · rintro ⟨⟨hsi, hw, hn⟩, hs, hp, hsc, hr, hv⟩
    rw [hsi, hw, hn, hs, hp, hsc, hr, hv]

/-- **Disconnecting a block restores the snapshot and the stored row exactly when the block carries
them over.** -/
theorem disconnect_restores_iff (hdescribed : Described chain)
    (hparent : node.parent = some chain.tip)
    (hconnect : connectBlock env chain node block view stxos = .ok (connected, .ok ())) :
    (∃ disconnected : BlockChain env.prim,
      connected.disconnectBlock node block view' = .ok (disconnected, .ok ()) ∧
        disconnected.stateSnapshot = chain.stateSnapshot ∧
        disconnected.chainState = chain.chainState) ↔ CarriesOver chain block := by
  rw [disconnectBlock_connectBlock hparent hconnect]
  constructor
  · rintro ⟨disconnected, hd, hs, -⟩
    split at hd
    · cases hd
    rename_i prevBlock hp
    obtain rfl : connected.flushToDB.retract chain.tip prevBlock block view' =
        disconnected := congrArg Prod.fst (Except.ok.inj hd)
    obtain ⟨hss, hsi, hpk, hsc, hr, hv⟩ :=
      (stateSnapshot_retract_iff hdescribed hconnect).1 hs
    exact ⟨⟨prevBlock, hp, hss⟩, hsi, hpk, hsc, hr, hv⟩
  · rintro ⟨⟨prevBlock, hp, hss⟩, hsi, hpk, hsc, hr, hv⟩
    have hs : (connected.flushToDB.retract chain.tip prevBlock block
        view').stateSnapshot = chain.stateSnapshot :=
      (stateSnapshot_retract_iff hdescribed hconnect).2 ⟨hss, hsi, hpk, hsc, hr, hv⟩
    rw [hp]
    refine ⟨_, rfl, hs, ?_⟩
    rw [hdescribed.chainState_eq, ← hs]
    rfl

/-- The node of `sampleBlock` with the given number of votes. -/
def sampleNode (votes : UInt16) : BlockNode :=
  newBlockNode sampleEnv.prim sampleBlock.header (some sampleEnv.genesisNode) votes

/-- The chain of the genesis block on which `sampleBlock` has been connected. -/
def sampleConnected (votes : UInt16) : BlockChain sampleEnv.prim :=
  (createChainState sampleEnv).flushToDB.extend (sampleNode votes)
    { msgBlock := sampleBlock, votes } (.new 0) []

theorem connectBlock_sampleBlock (votes : UInt16) :
    connectBlock sampleEnv (createChainState sampleEnv) (sampleNode votes)
      { msgBlock := sampleBlock, votes } (.new 0) [] = .ok (sampleConnected votes, .ok ()) := by
  have hp : ¬sampleBlock.header.prevBlock ≠
      (createChainState sampleEnv).tip.hash := by
    decide +kernel
  exact (if_neg hp).trans rfl

/-- Connecting `sampleBlock` to the genesis block, with one vote as the genesis block has. -/
theorem disconnect_restores_iff_sampleBlock :
    connectBlock sampleEnv (createChainState sampleEnv) (sampleNode 1)
        { msgBlock := sampleBlock, votes := 1 } (.new 0) [] = .ok (sampleConnected 1, .ok ()) ∧
      ((∃ disconnected, (sampleConnected 1).disconnectBlock (sampleNode 1)
          { msgBlock := sampleBlock, votes := 1 } (.new 0) = .ok (disconnected, .ok ()) ∧
        disconnected.stateSnapshot = (createChainState sampleEnv).stateSnapshot ∧
        disconnected.chainState = (createChainState sampleEnv).chainState) ↔
        CarriesOver (createChainState sampleEnv)
          { msgBlock := sampleBlock, votes := 1 }) := by
  have hg : sampleEnv.params.genesisBlock.Encodable :=
    ⟨by decide, by decide, by decide, fun tx htx => by
      obtain rfl := List.mem_singleton.1 htx
      exact encodable_sampleCoinbase 0⟩
  exact ⟨connectBlock_sampleBlock 1,
    disconnect_restores_iff (synced_createChainState rfl hg).described rfl
      (connectBlock_sampleBlock 1)⟩

/-- `sampleBlock` without votes: after it has been disconnected, the snapshot of the genesis block
has no votes any more. -/
theorem disconnect_changes_votes :
    connectBlock sampleEnv (createChainState sampleEnv) (sampleNode 0)
        { msgBlock := sampleBlock, votes := 0 } (.new 0) [] = .ok (sampleConnected 0, .ok ()) ∧
      (createChainState sampleEnv).stateSnapshot.votes = 1 ∧
      ((sampleConnected 0).disconnectBlock (sampleNode 0) { msgBlock := sampleBlock, votes := 0 }
        (.new 0)).map (fun out => (out.1.stateSnapshot.votes, out.2.toOption)) = .ok (0, some ()) :=
  ⟨connectBlock_sampleBlock 0, rfl, by decide +kernel⟩

end DrcNode
