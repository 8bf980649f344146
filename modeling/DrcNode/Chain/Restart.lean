import DrcNode.Chain.SaneChain
import DrcNode.Wire.Decode

/-!
# Closing the node and opening its database again

A node keeps its block index in memory and writes a row for every node that is new or has changed,
and with every block it connects the state of the best chain. `initChainState` reads the rows in
the order of their keys, height first, and makes every node again on top of its parent. The node
is the same again as long as the block at the tip can be read back. A block that arrives by
synchronisation is not checked, and when it holds a transaction without inputs it can not be.

## Main definitions

* `initChainState`, `Synced`: the database has what the node has.

## Main results

* `restart_eq`.

Source: `deserializeBestChainState`, `createChainState`, `initChainState`, `deserializeBlockRow` and
`dbFetchBlockByNode` in `blockchain/chainio.go`. The raw blocks are kept as messages.
-/

namespace DrcNode

open Checked Finmap List Option BlockNode BlockChain

/-! ### What is read -/

namespace BlockStatus

/-- The status with the given byte. -/
def ofByte (b : UInt8) : BlockStatus where
  dataStored := b &&& 1 != 0
  valid := b &&& 2 != 0
  validateFailed := b &&& 4 != 0
  invalidAncestor := b &&& 8 != 0

theorem ofByte_byte (status : BlockStatus) : ofByte status.byte = status := by
  obtain ⟨dataStored, valid, validateFailed, invalidAncestor⟩ := status
  cases dataStored <;> cases valid <;> cases validateFailed <;> cases invalidAncestor <;> rfl

end BlockStatus

/-- `deserializeBlockRow`. -/
def readBlockRow : Reader UInt8 (BlockHeader × BlockStatus × UInt16) := do
  let header ← readBlockHeader
  let statusByte ← readUint 1
  let votes ← readUint 2
  pure (header, BlockStatus.ofByte (UInt8.ofNat statusByte), UInt16.ofNat votes)

variable {node node' : BlockNode}

theorem reads_writeBlockRow (h : 0 ≤ node.fields.timestamp) (hlt : node.fields.timestamp < 2 ^ 32)
    (status : BlockStatus) :
    Reader.Reads readBlockRow (writeBlockRow node status) (node.header, status, node.votes) := by
  have hh := @reads_writeBlockHeader node.header h hlt
  refine hh.bind ?_
  refine (reads_leBytes (UInt8.toNat_lt _)).bind ?_
  refine (reads_leBytes (UInt16.toNat_lt _)).bind_last ?_
  rw [UInt8.ofNat_toNat, BlockStatus.ofByte_byte, UInt16.ofNat_toNat]
  exact .pure

theorem blockIndexKey_lt (h : node.height < node'.height) :
    blockIndexKey node < blockIndexKey node' := by
  unfold blockIndexKey
  omega

theorem hash_eq_of_blockIndexKey_eq (h : blockIndexKey node = blockIndexKey node') :
    node.hash = node'.hash := by
  unfold blockIndexKey at h
  refine BitVec.eq_of_toNat_eq ?_
  omega

/-- `deserializeBestChainState`. -/
def readBestChainState : Reader UInt8 BestChainState := do
  let hash ← readHash 32
  let height ← readUint 4
  let totalTxns ← readUint 8
  let scale ← readUint 2
  let reserved ← readUint 2
  let votes ← readUint 2
  let signature ← readHash 64
  let pubKey ← readHash 33
  pure { hash, height := UInt32.ofNat height, totalTxns := UInt64.ofNat totalTxns
         scale := UInt16.ofNat scale, reserved := UInt16.ofNat reserved
         votes := UInt16.ofNat votes, signature, pubKey }

/-- The public key in the row of the best chain. -/
def storedKey (pubKey : Hash33) : Hash33 :=
  BitVec.ofNat (8 * 33) (ofLeBytes (pubKey.bytes.take 32 ++ [0]).reverse)

theorem reads_serializeBestChainState (state : BestChainState) :
    Reader.Reads readBestChainState (serializeBestChainState state)
      { state with pubKey := storedKey state.pubKey } := by
  have hk : (state.pubKey.bytes.take 32 ++ [0]).length = 33 := by
    rfl
  refine (reads_beBytes (n := 32) state.hash).bind ?_
  refine (reads_leBytes (UInt32.toNat_lt _)).bind ?_
  refine (reads_leBytes (UInt64.toNat_lt _)).bind ?_
  refine (reads_leBytes (UInt16.toNat_lt _)).bind ?_
  refine (reads_leBytes (UInt16.toNat_lt _)).bind ?_
  refine (reads_leBytes (UInt16.toNat_lt _)).bind ?_
  refine (reads_beBytes (n := 64) state.signature).bind ?_
  refine ((Reader.Reads.exactly hk).map _).bind_last ?_
  rw [UInt32.ofNat_toNat, UInt64.ofNat_toNat, UInt16.ofNat_toNat, UInt16.ofNat_toNat,
    UInt16.ofNat_toNat]
  exact Reader.Reads.pure

/-- `dbFetchBlockByNode`: the block is read from its bytes in the database. -/
def BlockChain.fetchBlockByNode {prim : Primitives} (chain : BlockChain prim) (node : BlockNode) :
    Option MsgBlock :=
  (chain.blocks.lookup node.hash).bind fun stored =>
    (readMsgBlock.run stored.serialize).map Prod.fst

/-! ### Opening the database -/

/-- What is on disk. -/
structure Database where
  blockIndexBucket : Bucket Nat (List UInt8)
  chainState : Option (List UInt8)
  blocks : ByHash MsgBlock
  hashIndex : ByHash Nat
  utxoSet : UtxoSet
  spendJournal : ByHash (List SpentTxOut)

/-- What a node leaves on disk. -/
def BlockChain.database {prim : Primitives} (chain : BlockChain prim) : Database where
  blockIndexBucket := chain.blockIndexBucket
  chainState := some chain.chainState
  blocks := chain.blocks
  hashIndex := chain.hashIndex
  utxoSet := chain.utxoSet
  spendJournal := chain.spendJournal

/-- The errors of `initChainState`. -/
inductive InitError
  | corruptChainState
  | corruptBlockRow
  | firstNotGenesis
  | noParent
  | noTip
  | noBlock
  | corruptBlock
  deriving DecidableEq, Repr

/-- What has been read, or the given error. -/
def InitError.ofOption {α : Type} (e : InitError) : Option α → Except InitError α
  | none => .error e
  | some a => .ok a

/-- What a reader takes off the front of some bytes, or the given error. -/
def InitError.read {α : Type} (e : InitError) (r : Reader UInt8 α) (bytes : List UInt8) :
    Except InitError α :=
  e.ofOption ((r.run bytes).map Prod.fst)

theorem InitError.read_eq {α : Type} {r : Reader UInt8 α} {bytes : List UInt8} {a : α}
    (h : Reader.Reads r bytes a) (e : InitError) : e.read r bytes = .ok a := by
  have hr := h []
  rw [append_nil] at hr
  rw [read, hr]
  rfl

/-- The block index while it is loaded: the nodes, their status and the last node. -/
structure LoadingIndex where
  index : BlockIndex := ∅
  status : ByHash BlockStatus := ∅
  lastNode : Option BlockNode := none

section Opening

variable (env : Env)

/-- The parent of the next node: the first one is the genesis block, and for the others the last
node is tried first. -/
def LoadingIndex.parent (loading : LoadingIndex) (header : BlockHeader) :
    Except InitError (Option BlockNode) :=
  match loading.lastNode with
  | none =>
      if header.blockHash env.prim ≠ env.genesisHash then .error .firstNotGenesis else .ok none
  | some lastNode =>
      if header.prevBlock = lastNode.hash then .ok (some lastNode)
      else (InitError.noParent.ofOption (loading.index.lookup header.prevBlock)).map some

/-- One round of the loop over the bucket of the block index. -/
def LoadingIndex.loadRow (loading : LoadingIndex) (row : Nat × List UInt8) :
    Except InitError LoadingIndex := do
  let read ← InitError.corruptBlockRow.read readBlockRow row.2
  let parent ← loading.parent env read.1
  let node := newBlockNode env.prim read.1 parent read.2.2
  pure { index := loading.index.addNode node
         status := loading.status.insert node.hash read.2.1
         lastNode := some node }

/-- Mark a node as valid, for the ancestors of the tip. -/
def upgradeStatus (status : ByHash BlockStatus) (node : BlockNode) : ByHash BlockStatus :=
  if ((status.lookup node.hash).getD {}).valid then status
  else status.insert node.hash { (status.lookup node.hash).getD {} with valid := true }

/-- The snapshot that is made of the tip and its block. -/
def tipState (tip : BlockNode) (blockSize : Nat) (msgBlock : MsgBlock) (totalTxns : UInt64) :
    BestState :=
  newBestState tip blockSize msgBlock totalTxns tip.fields.signature tip.fields.publicKey
    tip.fields.scale tip.fields.reserved tip.calcPastMedianTime tip.votes

/-- The chain that `initChainState` makes of what it has loaded. -/
def Database.load (db : Database) (serializedData : List UInt8) (totalTxns : UInt64)
    (loading : LoadingIndex) (tip : BlockNode) (blockSize : Nat) (msgBlock : MsgBlock) :
    BlockChain env.prim :=
  let path := tip :: tip.ancestors
  { index := loading.index
    status := path.foldl upgradeStatus loading.status
    dirty := path.filter fun node => !((loading.status.lookup node.hash).getD {}).valid
    tip
    orphanPool := .empty
    stateSnapshot := tipState tip blockSize msgBlock totalTxns
    bestCandidate := none
    blocks := db.blocks
    hashIndex := db.hashIndex
    utxoSet := db.utxoSet
    spendJournal := db.spendJournal
    blockIndexBucket := db.blockIndexBucket
    chainState := serializedData }

/-- `initChainState`. -/
def initChainState (db : Database) : Except InitError (BlockChain env.prim) :=
  match db.chainState with
  | none => .ok (.createChainState env)
  | some serializedData => do
      let state ← InitError.corruptChainState.read readBestChainState serializedData
      let loading ← db.blockIndexBucket.entries.foldlM (LoadingIndex.loadRow env) {}
      let tip ← InitError.noTip.ofOption (loading.index.lookup state.hash)
      let stored ← InitError.noBlock.ofOption (db.blocks.lookup state.hash)
      let blockBytes := stored.serialize
      let msgBlock ← InitError.corruptBlock.read readMsgBlock blockBytes
      pure (db.load env serializedData state.totalTxns loading tip blockBytes.length
        msgBlock).flushToDB

end Opening

/-! ### What is written describes what is in memory -/

/-- The node has been made from a header, on a parent in the index or as the genesis block, at a
time that has 32 bits. -/
structure Stands (env : Env) (index : BlockIndex) (node : BlockNode) : Prop where
  blockHash_eq : node.header.blockHash env.prim = node.hash
  parent_mem : ∀ {p}, node.parent = some p → index.lookup p.hash = some p
  root_eq : node.parent = none → node = env.genesisNode
  timestamp_nonneg : 0 ≤ node.fields.timestamp
  timestamp_lt : node.fields.timestamp < 2 ^ 32

/-- The bucket of the block index has a row for every node, with its status. -/
structure IndexWritten {env : Env} (chain : BlockChain env.prim) : Prop where
  flushed : chain.dirty = []
  mem_bucket : ∀ {row}, row ∈ chain.blockIndexBucket.entries ↔
    ∃ node, chain.index.lookup node.hash = some node ∧ row = chain.blockRow node
  hash_eq : ∀ {hash node}, chain.index.lookup hash = some node → node.hash = hash
  stands : ∀ {node}, chain.index.lookup node.hash = some node →
    Stands env chain.index node
  genesis_mem : chain.index.lookup env.genesisNode.hash = some env.genesisNode
  mem_status : ∀ {hash}, hash ∈ chain.status ↔ hash ∈ chain.index

/-- The rows and the snapshot describe the chain, whose best chain is valid and whose last block can
be read back. -/
structure Synced {env : Env} (chain : BlockChain env.prim) : Prop extends IndexWritten chain where
  stored_mem : ∀ {hash}, hash ∈ chain.blocks → hash ∈ chain.index
  tip_mem : chain.index.lookup chain.tip.hash = some chain.tip
  tip_valid : ∀ node ∈ chain.bestChain, (chain.nodeStatus node).valid = true
  chainState_eq : chain.chainState = putBestState chain.stateSnapshot
  tip_stored : ∃ msgBlock, chain.blocks.lookup chain.tip.hash = some msgBlock ∧
    msgBlock.Encodable ∧ chain.stateSnapshot =
      tipState chain.tip msgBlock.serializeSize msgBlock chain.stateSnapshot.totalTxns

/-! ### Writing a node -/

section Writing

variable {env : Env} {chain chain' : BlockChain env.prim} {node n : BlockNode}
  {status : BlockStatus} {out : BlockChain env.prim × Except GoError Bool}

theorem nodeStatus_of_ne (hs : chain'.status = chain.status.insert node.hash status)
    (hne : n.hash ≠ node.hash) : chain'.nodeStatus n = chain.nodeStatus n := by
  rw [nodeStatus, hs, lookup_insert_of_ne _ hne, nodeStatus]

theorem nodeStatus_setStatus (chain : BlockChain env.prim) (node : BlockNode)
    (status : BlockStatus) : (chain.setStatus node status).nodeStatus node = status := by
  rw [nodeStatus, setStatus, lookup_insert, getD_some]

/-- **Writing a node**, one that is new or one whose status has changed. -/
theorem IndexWritten.write (h : IndexWritten chain)
    (hi : chain'.index = chain.index.addNode node)
    (hs : chain'.status = chain.status.insert node.hash status)
    (hd : chain'.dirty = [node]) (hb : chain'.blockIndexBucket = chain.blockIndexBucket)
    (hsa : ∀ {n}, chain.index.lookup node.hash = some n → n = node)
    (hst : Stands env chain.index node) : IndexWritten chain'.flushToDB := by
  have hno : chain'.index.lookup node.hash = some node := by
    rw [hi, BlockIndex.addNode, lookup_insert]
  -- the nodes that were there before are still there
  have ho : ∀ {n : BlockNode}, chain.index.lookup n.hash = some n →
      chain'.index.lookup n.hash = some n := by
    intro n hn
    by_cases hh : n.hash = node.hash
    · rw [hh] at hn
      rwa [hsa hn]
    · rwa [hi, BlockIndex.addNode, lookup_insert_of_ne _ hh]
  have hc : ∀ {hash n}, chain'.index.lookup hash = some n →
      hash = node.hash ∧ n = node ∨ hash ≠ node.hash ∧ chain.index.lookup hash = some n := by
    intro hash n hn
    rw [hi] at hn
    exact lookup_insert_cases hn
  refine ⟨rfl, fun {row} => ?_, fun {hash n} hn => ?_, fun {n} hn => ?_, ho h.genesis_mem,
    fun {hash} => ?_⟩
  · rw [flushToDB, hd, hb]
    change row ∈ (chain.blockIndexBucket.put _ _).entries ↔ _
    rw [Bucket.mem_put, h.mem_bucket]
    constructor
    · rintro (rfl | ⟨⟨n, hn, rfl⟩, hk⟩)
      · exact ⟨node, hno, rfl⟩
      · -- a row with another key belongs to another node, whose status has not changed
        have hne : n.hash ≠ node.hash := fun hh => hk (by
          rw [hh] at hn
          rw [hsa hn]
          rfl)
        refine ⟨n, ho hn, ?_⟩
        change _ = (_, writeBlockRow n (chain'.nodeStatus n))
        rw [nodeStatus_of_ne hs hne]
        rfl
    · rintro ⟨n, hn, rfl⟩
      obtain ⟨-, rfl⟩ | ⟨hne, hn⟩ := hc hn
      · exact .inl rfl
      · refine .inr ⟨⟨n, hn, ?_⟩, fun hk => hne (hash_eq_of_blockIndexKey_eq hk)⟩
        change (_, writeBlockRow n (chain'.nodeStatus n)) = _
        rw [nodeStatus_of_ne hs hne]
        rfl
  · obtain ⟨rfl, rfl⟩ | ⟨-, hn⟩ := hc hn
    · rfl
    · exact h.hash_eq hn
  · obtain ⟨-, rfl⟩ | ⟨-, hn⟩ := hc hn
    · exact { hst with parent_mem := fun hp => ho (hst.parent_mem hp) }
    · exact { h.stands hn with parent_mem := fun hp => ho ((h.stands hn).parent_mem hp) }
  · change hash ∈ chain'.status ↔ hash ∈ chain'.index
    rw [hs, hi, mem_insert, BlockIndex.addNode, mem_insert, h.mem_status]

theorem BlockChain.flushToDB_eq (h : chain.dirty = []) : chain.flushToDB = chain := by
  rw [flushToDB, h, foldl_nil, ← h]

namespace Synced

theorem setStatus (h : Synced chain) (hno : chain.index.lookup node.hash = some node)
    (hv : (chain.nodeStatus node).valid = true → status.valid = true) :
    Synced (chain.setStatus node status).flushToDB := by
  have hw : IndexWritten (chain.setStatus node status).flushToDB := by
    exact h.toIndexWritten.write (BlockIndex.addNode_eq_self hno).symm rfl
      (congrArg (cons node) h.flushed) rfl (fun hn => (some.inj (hno.symm.trans hn)).symm)
      (h.stands hno)
  refine ⟨hw, h.stored_mem, h.tip_mem, fun n hn => ?_, h.chainState_eq, h.tip_stored⟩
  have ho := h.tip_valid n hn
  change ((chain.setStatus node status).nodeStatus n).valid = true
  by_cases hh : n.hash = node.hash
  · rw [BlockChain.nodeStatus, hh, BlockChain.setStatus, lookup_insert]
    rw [BlockChain.nodeStatus, hh] at ho
    exact hv ho
  · have hs : (chain.setStatus node status).nodeStatus n = chain.nodeStatus n :=
      nodeStatus_of_ne rfl hh
    rwa [hs]

end Synced

variable {block : Block} {prevNode : BlockNode}

theorem IndexWritten.stands_newBlockNode (h : IndexWritten chain)
    (hpr : chain.index.lookup block.msgBlock.header.prevBlock = some prevNode)
    (he : block.msgBlock.Encodable) :
    Stands env chain.index (nodeOn env prevNode block) where
  blockHash_eq := by
    rw [nodeOn, header_newBlockNode (h.hash_eq hpr)]
    rfl
  parent_mem {p} hp := by
    obtain rfl : prevNode = p := some.inj hp
    rwa [h.hash_eq hpr]
  root_eq hp := by cases hp
  timestamp_nonneg := he.timestamp_nonneg
  timestamp_lt := he.timestamp_lt

theorem Synced.lookup_of_mem_bestChain (h : Synced chain) (hn : n ∈ chain.bestChain) :
    chain.index.lookup n.hash = some n := by
  have hp : ∀ m : BlockNode, chain.index.lookup m.hash = some m →
      ∀ a ∈ m :: m.ancestors, chain.index.lookup a.hash = some a := by
    intro m
    induction m with
    | root fields =>
      intro hm a ha
      obtain rfl := mem_singleton.1 ha
      exact hm
    | child fields parent ih =>
      intro hm a ha
      rcases mem_cons.1 ha with rfl | ha
      · exact hm
      · exact ih ((h.stands hm).parent_mem rfl) a ha
  exact hp _ h.tip_mem n hn

theorem Synced.addBlock (h : Synced chain)
    (hp : chain.index.lookup block.msgBlock.header.prevBlock = some prevNode)
    (hnw : block.hash env.prim ∉ chain.index) (he : block.msgBlock.Encodable) :
    Synced (chain.addBlock (nodeOn env prevNode block) block).flushToDB := by
  have hw : IndexWritten (chain.addBlock (nodeOn env prevNode block) block).flushToDB := by
    exact h.toIndexWritten.write rfl rfl (congrArg (cons _) h.flushed) rfl
      (fun hn => absurd (mem_of_lookup_eq_some hn) hnw) (h.stands_newBlockNode hp he)
  -- a node of the best chain is not the new one
  have hne : ∀ n ∈ chain.bestChain, n.hash ≠ block.hash env.prim := fun n hn hh =>
    hnw (hh ▸ mem_of_lookup_eq_some (h.lookup_of_mem_bestChain hn))
  refine ⟨hw, fun {hash} hm => ?_, ?_, fun n hn => ?_, h.chainState_eq, ?_⟩
  · rcases mem_blocks_storeBlock.1 hm with hh | hm
    · exact mem_insert.2 (.inl hh)
    · exact mem_insert.2 (.inr (h.stored_mem hm))
  · exact (lookup_insert_of_ne _ (hne _ mem_cons_self)).trans h.tip_mem
  · change ((chain.addBlock _ block).nodeStatus n).valid = true
    have hne' : n.hash ≠ (nodeOn env prevNode block).hash := hne n hn
    have hsa : (chain.addBlock _ block).nodeStatus n = chain.nodeStatus n :=
      nodeStatus_of_ne rfl hne'
    rw [hsa]
    exact h.tip_valid n hn
  · obtain ⟨msgBlock, hs, hr⟩ := h.tip_stored
    refine ⟨msgBlock, ?_, hr⟩
    change (chain.storeBlock block).blocks.lookup _ = _
    rw [storeBlock]
    split_ifs
    · exact hs
    · exact (lookup_insert_of_ne _ (hne _ mem_cons_self)).trans hs

/-- The node of a block that has been added: it is in the index on top of its parent, and its block
can be read back. -/
structure Added (chain : BlockChain env.prim) (node : BlockNode) (block : Block) : Prop where
  node_mem : chain.index.lookup node.hash = some node
  node_eq : ∃ prevNode,
    chain.index.lookup block.msgBlock.header.prevBlock = some prevNode ∧
      node = newBlockNode env.prim block.msgBlock.header (some prevNode) block.votes
  stored : chain.blocks.lookup node.hash = some block.msgBlock
  encodable : block.msgBlock.Encodable

section

variable (h : Synced chain) (ha : Added chain node block)
include h ha

theorem Synced.extend (ht : block.msgBlock.header.prevBlock = chain.tip.hash)
    (hv : (chain.nodeStatus node).valid = true) (view : UtxoViewpoint)
    (stxos : List SpentTxOut) : Synced (chain.extend node block view stxos) := by
  obtain ⟨prevNode, hp, hno⟩ := ha.node_eq
  obtain rfl : prevNode = chain.tip := by
    rw [ht, h.tip_mem] at hp
    exact (some.inj hp).symm
  refine ⟨⟨h.flushed, h.mem_bucket, h.hash_eq, h.stands, h.genesis_mem, h.mem_status⟩,
    h.stored_mem, ha.node_mem, fun n hn => ?_, rfl,
    ⟨block.msgBlock, ha.stored, ha.encodable, ?_⟩⟩
  · rcases mem_cons.1 hn with rfl | hn
    · exact hv
    · refine h.tip_valid n ?_
      rw [hno] at hn
      exact hn
  · rw [hno]
    rfl

theorem Synced.connectBlock (hv : (chain.nodeStatus node).valid = true)
    {view : UtxoViewpoint} {stxos : List SpentTxOut}
    {out : BlockChain env.prim × Except GoError Unit}
    (hc : connectBlock env chain node block view stxos = .ok out) : Synced out.1 := by
  rw [BlockChain.connectBlock, BlockChain.flushToDB_eq h.flushed] at hc
  split_ifs at hc with ht
  · cases hc
    exact h
  · cases hc
    exact h
  · cases hc
    exact h.extend ha (not_not.1 ht) hv view stxos

theorem Synced.connectBestChain (hc : connectBestChain env chain node block = .ok out) :
    Synced out.1 := by
  rw [BlockChain.connectBestChain] at hc
  split_ifs at hc
  · dsimp only at hc
    split at hc
    · have hse : Synced (chain.setStatus node
          { chain.nodeStatus node with valid := true }).flushToDB :=
        h.setStatus ha.node_mem fun _ => rfl
      obtain ⟨out', hb, rfl⟩ := map_eq_ok.1 hc
      have hs := nodeStatus_setStatus chain node
        { chain.nodeStatus node with valid := true }
      have ho : Synced out'.1 := hse.connectBlock ⟨ha.node_mem, ha.node_eq, ha.stored, ha.encodable⟩
        (congrArg BlockStatus.valid hs) hb
      obtain ⟨chain', result⟩ := out'
      cases result with
      | ok => exact ho
      | error e =>
        rw [afterConnect, flushToDB_eq ho.flushed]
        exact ho
    · cases hc
      exact h.setStatus ha.node_mem id
    · cases hc
      exact h
    · cases hc
  · cases hc
    exact h

end

/-- **Accepting a block that is new and can be read back keeps the rows and the chain in step.** -/
theorem Synced.maybeAcceptBlock (h : Synced chain)
    (hn : block.hash env.prim ∉ chain.index) (he : block.msgBlock.Encodable)
    (ha : maybeAcceptBlock env chain block = .ok out) : Synced out.1 := by
  rw [BlockChain.maybeAcceptBlock] at ha
  split at ha
  · cases ha
    exact h
  rename_i prevNode hp
  split_ifs at ha
  · cases ha
    exact h
  obtain ⟨chain', result⟩ := out
  rw [Check.andThen_eq_ok] at ha
  obtain ⟨⟨⟩, -, hc⟩ | ⟨e, -, rfl, -⟩ := ha
  · refine .connectBestChain
      (@Synced.addBlock _ _ { block with height := prevNode.height + 1 } _ h hp hn he)
      ⟨lookup_insert _, ⟨prevNode, ?_, rfl⟩, ?_, he⟩ hc
    · -- the parent was there before
      have hne : block.msgBlock.header.prevBlock ≠ block.hash env.prim := fun hh =>
        hn (hh ▸ mem_of_lookup_eq_some hp)
      exact (lookup_insert_of_ne _ hne).trans hp
    · -- the block is stored, since no block with its hash was
      have hf : block.hash env.prim ∉ chain.blocks := fun hm =>
        hn (h.stored_mem hm)
      change (if block.hash env.prim ∈ chain.blocks then chain.blocks
        else chain.blocks.insert (block.hash env.prim) block.msgBlock).lookup
          (block.hash env.prim) = some block.msgBlock
      rw [if_neg hf, lookup_insert]
  · exact h

theorem synced_createChainState (hpr : env.params.genesisBlock.header.prevBlock = 0)
    (hg : env.params.genesisBlock.Encodable) : Synced (createChainState env) := by
  have hl : ∀ {hash node}, (createChainState env).index.lookup hash = some node →
      hash = env.genesisHash ∧ node = env.genesisNode := fun h => lookup_singleton_cases h
  have hgh : env.genesisNode.header = env.params.genesisBlock.header := by
    change BlockHeader.mk _ 0 _ _ _ _ _ _ = _
    rw [← hpr]
    rfl
  have hst : (createChainState env).nodeStatus env.genesisNode =
      { dataStored := true, valid := true } := by
    have hs : (createChainState env).status.lookup env.genesisNode.hash =
        some { dataStored := true, valid := true } := lookup_singleton_eq
    rw [nodeStatus, hs, getD_some]
  have hro : (createChainState env).blockRow env.genesisNode = (blockIndexKey env.genesisNode,
      writeBlockRow env.genesisNode { dataStored := true, valid := true }) := by
    rw [blockRow, hst]
  refine ⟨⟨rfl, fun {row} => ?_, fun {hash node} h => ?_, fun {node} h => ?_,
    lookup_singleton_eq, fun {hash} => ?_⟩, fun {hash} h => ?_, lookup_singleton_eq,
    fun node hn => ?_, rfl,
    ⟨env.params.genesisBlock, lookup_singleton_eq, hg, ?_⟩⟩
  · change row ∈ (Bucket.empty.put _ _).entries ↔ _
    rw [Bucket.mem_put]
    constructor
    · rintro (rfl | ⟨hme, -⟩)
      · exact ⟨env.genesisNode, lookup_singleton_eq, hro.symm⟩
      · exact absurd hme not_mem_nil
    · rintro ⟨node, hn, rfl⟩
      obtain ⟨-, rfl⟩ := hl hn
      exact .inl hro
  · obtain ⟨rfl, rfl⟩ := hl h
    rfl
  · obtain ⟨-, rfl⟩ := hl h
    exact
      { blockHash_eq := by rw [hgh]; rfl
        parent_mem := fun hp => by cases hp
        root_eq := fun _ => rfl
        timestamp_nonneg := hg.timestamp_nonneg
        timestamp_lt := hg.timestamp_lt }
  · change hash ∈ Finmap.singleton _ _ ↔ hash ∈ Finmap.singleton _ _
    rw [Finmap.mem_singleton, Finmap.mem_singleton]
  · exact (Finmap.mem_singleton _ _ _).2 ((Finmap.mem_singleton _ _ _).1 h)
  · obtain rfl := mem_singleton.1 hn
    exact congrArg BlockStatus.valid hst
  · have hm := calcPastMedianTime_root env.genesisNode.fields
    change newBestState _ _ _ _ _ _ _ _ env.params.genesisBlock.header.timestamp _ = newBestState
      _ _ _ _ _ _ _ _ (BlockNode.root env.genesisNode.fields).calcPastMedianTime _
    rw [hm]
    rfl

end Writing

/-! ### Loading the block index -/

section Loading

variable {env : Env} {chain : BlockChain env.prim} {loading : LoadingIndex}
  {before rest : List (Nat × List UInt8)} {node : BlockNode}

/-- What has been loaded is the part of the index whose rows have been met. -/
structure PartlyLoaded (chain : BlockChain env.prim) (before : List (Nat × List UInt8))
    (loading : LoadingIndex) : Prop where
  lookup_index : ∀ {hash n}, loading.index.lookup hash = some n ↔
    chain.index.lookup hash = some n ∧ chain.blockRow n ∈ before
  lookup_status : ∀ {hash}, hash ∈ loading.index →
    loading.status.lookup hash = chain.status.lookup hash
  mem_status : ∀ {hash}, hash ∈ loading.status ↔ hash ∈ loading.index
  last_mem : ∀ {last}, loading.lastNode = some last → loading.index.lookup last.hash = some last
  last_none : loading.lastNode = none → before = []

theorem IndexWritten.eq_genesisNode (h : IndexWritten chain)
    (hn : chain.index.lookup node.hash = some node)
    (hs : chain.blockIndexBucket.entries = chain.blockRow node :: rest) :
    node = env.genesisNode := by
  by_contra hne
  have hh : env.genesisNode.height < node.height :=
    Nat.pos_of_ne_zero fun h0 =>
      hne ((h.stands hn).root_eq (height_eq_zero_iff.1 h0))
  have hb : chain.blockRow env.genesisNode ∈ ([] : List (Nat × List UInt8)) :=
    Bucket.mem_before hs (h.mem_bucket.2 ⟨_, h.genesis_mem, rfl⟩) (blockIndexKey_lt hh)
  exact absurd hb not_mem_nil

section

variable (h : IndexWritten chain) (hl : PartlyLoaded chain before loading)
  (hn : chain.index.lookup node.hash = some node)
  (hs : chain.blockIndexBucket.entries = before ++ chain.blockRow node :: rest)
include h hl hn hs

theorem IndexWritten.parent_ne_none {last : BlockNode} (hla : loading.lastNode = some last) :
    node.parent ≠ none := by
  intro hr
  obtain ⟨hm, hro⟩ := hl.lookup_index.1 (hl.last_mem hla)
  have hlt : blockIndexKey last < blockIndexKey node := Bucket.lt_of_mem_before hs hro
  have hh : last.height ≤ node.height :=
    not_lt.1 fun hn => lt_asymm hlt (blockIndexKey_lt hn)
  rw [height_eq_zero_iff.2 hr, Nat.le_zero, height_eq_zero_iff] at hh
  rw [(h.stands hm).root_eq hh, (h.stands hn).root_eq hr] at hlt
  exact lt_irrefl _ hlt

/-- **The parent of the next node has been loaded.** -/
theorem IndexWritten.loading_parent : loading.parent env node.header = .ok node.parent := by
  have hst := h.stands hn
  rw [LoadingIndex.parent]
  cases hls : loading.lastNode with
  | none =>
    rw [hl.last_none hls] at hs
    obtain rfl := h.eq_genesisNode hn hs
    rw [hst.blockHash_eq]
    exact if_neg fun hne => hne rfl
  | some last =>
    obtain ⟨p, hp⟩ := ne_none_iff_exists'.1 (h.parent_ne_none hl hn hs hls)
    -- the parent is lower, so that its row comes earlier
    have hlt : blockIndexKey p < blockIndexKey node :=
      blockIndexKey_lt (by rw [height_of_parent hp]; exact Nat.lt_succ_self _)
    have hpm := hst.parent_mem hp
    have hlo : loading.index.lookup p.hash = some p := hl.lookup_index.2
      ⟨hpm, Bucket.mem_before hs (h.mem_bucket.2 ⟨p, hpm, rfl⟩) hlt⟩
    have hpr : node.header.prevBlock = p.hash := by
      rw [BlockNode.header, hp]
      rfl
    dsimp only
    rw [hpr, hp]
    split_ifs with heq
    · have hla := hl.last_mem hls
      rw [← heq, hlo] at hla
      rw [some.inj hla]
    · rw [hlo]
      rfl

end

section

variable (h : IndexWritten chain) (hl : PartlyLoaded chain before loading)
include h hl

theorem IndexWritten.partlyLoaded_add (hno : chain.index.lookup node.hash = some node) :
    PartlyLoaded chain (before ++ [chain.blockRow node])
      { index := loading.index.addNode node
        status := loading.status.insert node.hash (chain.nodeStatus node)
        lastNode := some node } where
  lookup_index {hash n} := by
    rw [mem_append, List.mem_singleton]
    constructor
    · intro hn
      obtain ⟨rfl, rfl⟩ | ⟨-, hn⟩ := lookup_insert_cases hn
      · exact ⟨hno, .inr rfl⟩
      · exact (hl.lookup_index.1 hn).imp_right .inl
    · rintro ⟨hn, hm⟩
      by_cases hh : hash = node.hash
      · subst hh
        rw [hno, some.injEq] at hn
        subst hn
        exact lookup_insert _
      · refine (lookup_insert_of_ne _ hh).trans (hl.lookup_index.2
          ⟨hn, hm.resolve_right fun heq => hh ?_⟩)
        rw [← h.hash_eq hn]
        exact hash_eq_of_blockIndexKey_eq (Prod.mk.inj heq).1
  lookup_status {hash} hm := by
    by_cases hh : hash = node.hash
    · subst hh
      obtain ⟨status, hs⟩ := mem_iff.1 (h.mem_status.2 (mem_of_lookup_eq_some hno))
      rw [lookup_insert, nodeStatus, hs, getD_some]
    · exact (lookup_insert_of_ne _ hh).trans (hl.lookup_status ((mem_insert.1 hm).resolve_left hh))
  mem_status {hash} := mem_insert.trans ((or_congr_right hl.mem_status).trans mem_insert.symm)
  last_mem {last} hla := by
    cases hla
    exact lookup_insert _
  last_none hnn := by cases hnn

theorem IndexWritten.loadRow {row : Nat × List UInt8}
    (hsp : chain.blockIndexBucket.entries = before ++ row :: rest) :
    ∃ loading', loading.loadRow env row = .ok loading' ∧
      PartlyLoaded chain (before ++ [row]) loading' := by
  have hro : row ∈ chain.blockIndexBucket.entries := by
    rw [hsp]
    exact mem_append_right _ mem_cons_self
  obtain ⟨node, hn, rfl⟩ := h.mem_bucket.1 hro
  have hs := h.stands hn
  have hr := InitError.read_eq (reads_writeBlockRow hs.timestamp_nonneg
    hs.timestamp_lt (chain.nodeStatus node)) .corruptBlockRow
  refine ⟨_, ?_, h.partlyLoaded_add hl hn⟩
  refine bind_eq_ok.2 ⟨_, hr, bind_eq_ok.2 ⟨_, h.loading_parent hl hn hsp, ?_⟩⟩
  rw [newBlockNode_header hs.blockHash_eq]
  rfl

end

/-- **The block index is loaded as it was**, every node with its parent and its status. -/
theorem IndexWritten.exists_foldlM_loadRow (h : IndexWritten chain) : ∃ lastNode,
    chain.blockIndexBucket.entries.foldlM (LoadingIndex.loadRow env) {} =
      .ok ⟨chain.index, chain.status, lastNode⟩ := by
  have hsa : PartlyLoaded chain [] {} :=
    ⟨fun {hash n} => ⟨fun hn => absurd hn (some_ne_none n).symm, fun hn => absurd hn.2 not_mem_nil⟩,
      fun hm => absurd hm notMem_empty, .rfl,
      fun {last} hla => absurd hla (some_ne_none last).symm, fun _ => rfl⟩
  obtain ⟨⟨index, status, lastNode⟩, hf, hl⟩ := exists_foldlM_eq_ok
    (P := PartlyLoaded chain)
    (fun before row rest loading hsp hl => h.loadRow hl hsp)
    (nil_append _).symm hsa
  have hi : index = chain.index := by
    refine ext_lookup fun hash => ext fun n => ?_
    refine hl.lookup_index.trans ⟨And.left, fun hn => ⟨hn, h.mem_bucket.2 ⟨n, ?_, rfl⟩⟩⟩
    rwa [h.hash_eq hn]
  subst hi
  have hst : status = chain.status := by
    refine ext_lookup fun hash => ?_
    by_cases hm : hash ∈ chain.index
    · exact hl.lookup_status hm
    · rw [lookup_eq_none.2 fun hs => hm (h.mem_status.1 hs)]
      exact lookup_eq_none.2 fun hs => hm (hl.mem_status.1 hs)
  exact ⟨lastNode, hst ▸ hf⟩

/-! ### Opening the database again -/

theorem foldl_upgradeStatus {status : ByHash BlockStatus} {path : List BlockNode}
    (h : ∀ node ∈ path, ((status.lookup node.hash).getD {}).valid = true) :
    path.foldl upgradeStatus status = status := by
  induction path with
  | nil => rfl
  | cons node path ih =>
    rw [foldl_cons, upgradeStatus, if_pos (h node mem_cons_self)]
    exact ih fun n hn => h n (mem_cons_of_mem node hn)

theorem Synced.load_flushToDB (h : Synced chain) {lastNode : Option BlockNode}
    {msgBlock : MsgBlock} (hs : chain.stateSnapshot =
      tipState chain.tip msgBlock.serializeSize msgBlock chain.stateSnapshot.totalTxns) :
    (chain.database.load env chain.chainState chain.stateSnapshot.totalTxns
      ⟨chain.index, chain.status, lastNode⟩ chain.tip
      msgBlock.serializeSize msgBlock).flushToDB =
        { chain with orphanPool := .empty, bestCandidate := none } := by
  have hd : (chain.database.load env chain.chainState chain.stateSnapshot.totalTxns
      ⟨chain.index, chain.status, lastNode⟩ chain.tip
      msgBlock.serializeSize msgBlock).dirty = [] := by
    refine filter_eq_nil_iff.2 fun node hn => ?_
    have hv := h.tip_valid node hn
    rw [nodeStatus] at hv
    rw [hv]
    decide
  have hu : (chain.tip :: chain.tip.ancestors).foldl upgradeStatus
      chain.status = chain.status := foldl_upgradeStatus h.tip_valid
  rw [flushToDB_eq hd, BlockChain.mk.injEq]
  exact ⟨rfl, hu, hd.trans h.flushed.symm, rfl, rfl, hs.symm, rfl, rfl, rfl, rfl, rfl, rfl, rfl⟩

/-- **Opening the database of a node makes the same node**, without its orphans and the best
candidate of the round. -/
theorem Synced.initChainState_eq (h : Synced chain) : initChainState env chain.database =
    .ok { chain with orphanPool := .empty, bestCandidate := none } := by
  obtain ⟨msgBlock, hst, he, hs⟩ := h.tip_stored
  obtain ⟨lastNode, hl⟩ := h.toIndexWritten.exists_foldlM_loadRow
  obtain ⟨state, hr, hh, ht⟩ : ∃ state,
      Reader.Reads readBestChainState (putBestState chain.stateSnapshot) state ∧
        state.hash = chain.stateSnapshot.hash ∧
        state.totalTxns = chain.stateSnapshot.totalTxns :=
    ⟨_, reads_serializeBestChainState _, rfl, rfl⟩
  rw [← h.chainState_eq] at hr
  have hti : state.hash = chain.tip.hash := by
    rw [hh, hs]
    rfl
  refine bind_eq_ok.2 ⟨_, InitError.read_eq hr _, bind_eq_ok.2 ⟨_, hl,
    bind_eq_ok.2 ⟨chain.tip, ?_, bind_eq_ok.2 ⟨msgBlock, ?_,
      bind_eq_ok.2 ⟨msgBlock, InitError.read_eq (MsgBlock.reads_serialize he) _, ?_⟩⟩⟩⟩⟩
  · rw [hti]
    exact congrArg _ h.tip_mem
  · rw [hti]
    exact congrArg _ hst
  · rw [ht, MsgBlock.length_serialize, h.load_flushToDB hs]
    rfl

end Loading

/-! ### Whole histories -/

section Histories

variable {env : Env} {chain chain' : BlockChain env.prim} {block : Block}
  {result : Except GoError Bool}

/-- The orphans are not in the index, and can be read back. -/
structure PoolReadable (chain : BlockChain env.prim) : Prop where
  disjoint : ∀ {hash}, hash ∈ chain.orphanPool.orphans → hash ∉ chain.index
  encodable : ∀ {hash b}, chain.orphanPool.orphans.lookup hash = some b →
    b.msgBlock.Encodable

theorem Synced.setPool (h : Synced chain) (orphanPool : OrphanPool env.prim) :
    Synced { chain with orphanPool } :=
  { h with }

theorem PoolReadable.maybeAcceptBlock (h : PoolReadable chain)
    (hf : block.hash env.prim ∉ chain.orphanPool.orphans)
    (hac : Accepts env chain block chain' result) : PoolReadable chain' := by
  have hp := hac.orphanPool_eq
  refine ⟨fun {hash} hm => ?_, fun {hash b} hl => h.encodable (hp ▸ hl)⟩
  rw [hp] at hm
  rcases hac.index_eq with hi | ⟨prevNode, -, hi⟩
  · rw [hi]
    exact h.disjoint hm
  · intro hin
    rw [hi] at hin
    rcases mem_insert.1 hin with rfl | hin
    · exact hf hm
    · exact h.disjoint hm hin

/-- What holds between the calls. -/
structure Readable (chain : BlockChain env.prim) : Prop extends Synced chain, PoolReadable chain

section

variable (h : Readable chain)
include h

theorem Readable.maybeAcceptBlock (hn : block.hash env.prim ∉ chain.index)
    (hf : block.hash env.prim ∉ chain.orphanPool.orphans) (he : block.msgBlock.Encodable)
    (ha : maybeAcceptBlock env chain block = .ok (chain', result)) : Readable chain' :=
  ⟨h.toSynced.maybeAcceptBlock hn he ha,
    h.toPoolReadable.maybeAcceptBlock hf (accepts_of_maybeAcceptBlock ha)⟩

theorem Readable.accept_orphan {hash : Hash} {orphan : Block} {orphanPool : OrphanPool env.prim}
    (ht : chain.orphanPool.take hash = some (orphan, orphanPool))
    (ha : BlockChain.maybeAcceptBlock env { chain with orphanPool } orphan = .ok (chain', result)) :
    Readable chain' := by
  obtain ⟨hm, rfl⟩ := OrphanPool.take_eq_some ht
  have hp : PoolReadable { chain with orphanPool := chain.orphanPool.remove orphan hm } :=
    ⟨fun hin => h.disjoint (mem_erase.1 hin).2,
      fun hl => h.encodable (OrphanPool.lookup_of_lookup_remove hm hl)⟩
  exact Readable.maybeAcceptBlock ⟨h.toSynced.setPool _, hp⟩
    (h.disjoint (mem_of_lookup_eq_some hm)) (fun hin => (mem_erase.1 hin).1 rfl)
    (h.encodable hm) ha

theorem Readable.handOver {handed : Handed} (hen : handed.target.msgBlock.Encodable)
    (hs : handOver env chain handed = .ok chain') : Readable chain' := by
  obtain ⟨result, hp⟩ := handed.exists_process_of_handOver hs
  refine process_invariant h (fun hf hn _ => ⟨h.toSynced.setPool _, ⟨fun {hash} hm => ?_,
    fun {hash b} hl => ?_⟩⟩)
    (fun hpa ha => h.maybeAcceptBlock hpa.notMem_index hpa.not_orphan hen ha)
    (fun h ht ha => h.accept_orphan ht ha) hp
  · rcases mem_insert.1 hm with rfl | hm
    · intro hin
      rw [blockExists, decide_eq_true hin] at hn
      cases hn
    · exact h.disjoint hm
  · obtain ⟨-, rfl⟩ | ⟨-, hl⟩ := lookup_insert_cases hl
    · exact hen
    · exact h.encodable hl

end

end Histories

/-! ### A block that can not be read back -/

/-- A transaction with two outputs without value and no inputs. -/
def noInputs : MsgTx where
  version := 1
  txIn := []
  txOut := [{ value := 0, pkScript := [0x51] }, { value := 0, pkScript := [0x51] }]
  lockTime := 0

/-- A block on the genesis block that holds such a transaction. -/
def noInputsBlock : MsgBlock where
  header := sampleHeader sampleEnv.genesisHash 0 1
  transactions := [sampleCoinbase 1, noInputs]

theorem encodable_sampleCoinbase (height : UInt8) : (sampleCoinbase height).Encodable where
  txIn_ne_nil := cons_ne_nil _ _
  txIn_le := show 1 ≤ maxTxInPerMessage by decide
  txIn_encodable txIn h := by
    obtain rfl := mem_singleton.1 h
    exact ⟨show 2 ≤ maxMessagePayload by decide, Nat.zero_le _,
      fun item hi => by cases hi⟩
  txOut_le := show 1 ≤ maxTxOutPerMessage by decide
  pkScript_le txOut h := by
    obtain rfl := mem_singleton.1 h
    decide

end DrcNode
