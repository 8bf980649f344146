import DrcNode.Chain.Rows
import DrcNode.Library.Bucket

/-!
# The chain state, and accepting a block into it

The state of the chain is what `BlockChain` holds in memory, together with what it keeps in the
database. A block whose parent is known is stored, gets a node in the index and, when it extends the
tip, is connected. There is no reorganisation: a block that extends another node stays in the index
and is reported as an error. Nodes that are new or have changed are written to the database before
anything else is done, and with every block that is connected the state of the best chain.

Source: `blockchain/accept.go`; `removeOrphanBlock`, `addOrphanBlock`, `connectBlock`,
`countSpentOutputs` and `connectBestChain` in `blockchain/chain.go`; `createChainState` and
`dbStoreBlock` in `blockchain/chainio.go`; `SetStatusFlags` and `flushToDB` in
`blockchain/blockindex.go`. The database never fails, its blocks are kept as messages, and the
warnings about unknown rules and versions are left out.
-/

namespace DrcNode

open Finmap List Option

/-! ### The orphan pool -/

/-- The maps `orphans` and `prevOrphans`, which describe the same blocks. -/
structure OrphanPool (prim : Primitives) where
  orphans : ByHash Block
  prevOrphans : ByHash (List Block)
  linked : ∀ {prevHash blocks block}, prevOrphans.lookup prevHash = some blocks →
    block ∈ blocks → orphans.lookup (block.hash prim) = some block ∧
      block.msgBlock.header.prevBlock = prevHash

namespace OrphanPool

variable {prim : Primitives} {pool : OrphanPool prim} {prevHash hash : Hash} {block : Block}
  {prevOrphans : ByHash (List Block)} {blocks : List Block}

/-- The pool without orphans. -/
def empty : OrphanPool prim where
  orphans := ∅
  prevOrphans := ∅
  linked {_ blocks _} h := absurd h (some_ne_none blocks).symm

/-- The orphans that wait for a block. -/
def waiting (pool : OrphanPool prim) (prevHash : Hash) : List Block :=
  (pool.prevOrphans.lookup prevHash).getD []

theorem linked_of_mem_waiting (h : block ∈ pool.waiting prevHash) :
    pool.orphans.lookup (block.hash prim) = some block ∧
      block.msgBlock.header.prevBlock = prevHash := by
  rw [waiting] at h
  cases hl : pool.prevOrphans.lookup prevHash with
  | none => rw [hl] at h; exact absurd h not_mem_nil
  | some blocks => rw [hl] at h; exact pool.linked hl h

/-- `addOrphanBlock`, for a block that is not in the pool. -/
def add (pool : OrphanPool prim) (block : Block) (hfresh : block.hash prim ∉ pool.orphans) :
    OrphanPool prim where
  orphans := pool.orphans.insert (block.hash prim) block
  prevOrphans := pool.prevOrphans.insert block.msgBlock.header.prevBlock
    (pool.waiting block.msgBlock.header.prevBlock ++ [block])
  linked {prevHash blocks other} hblocks hother := by
    -- an orphan that was there before keeps its entry, since the hash of the new one is fresh
    have hold : ∀ {p}, other ∈ pool.waiting p →
        (pool.orphans.insert (block.hash prim) block).lookup (other.hash prim) = some other ∧
          other.msgBlock.header.prevBlock = p := by
      intro p hmem
      obtain ⟨hlookup, hprev⟩ := linked_of_mem_waiting hmem
      have hne : other.hash prim ≠ block.hash prim := fun heq =>
        hfresh (heq ▸ mem_of_lookup_eq_some hlookup)
      exact ⟨(lookup_insert_of_ne _ hne).trans hlookup, hprev⟩
    obtain ⟨rfl, rfl⟩ | ⟨-, hblocks⟩ := lookup_insert_cases hblocks
    · rcases mem_append.1 hother with hmem | hmem
      · exact hold hmem
      · rw [List.mem_singleton] at hmem
        subst hmem
        exact ⟨lookup_insert _, rfl⟩
    · refine hold ?_
      rw [waiting, hblocks]
      exact hother

/-- Replace the list of the orphans that wait for a block, and drop it when nothing is left. -/
def setWaiting (prevOrphans : ByHash (List Block)) (prevHash : Hash) (blocks : List Block) :
    ByHash (List Block) :=
  if blocks.isEmpty then prevOrphans.erase prevHash else prevOrphans.insert prevHash blocks

theorem eq_of_lookup_setWaiting {blocks' : List Block}
    (h : (setWaiting prevOrphans prevHash blocks).lookup prevHash = some blocks') :
    blocks' = blocks := by
  unfold setWaiting at h
  split_ifs at h
  · rw [lookup_erase] at h
    exact absurd h (some_ne_none blocks').symm
  · rw [lookup_insert, Option.some.injEq] at h
    exact h.symm

theorem lookup_setWaiting_of_ne (h : hash ≠ prevHash) :
    (setWaiting prevOrphans prevHash blocks).lookup hash = prevOrphans.lookup hash := by
  unfold setWaiting
  split_ifs
  · exact lookup_erase_ne h
  · exact lookup_insert_of_ne _ h

/-- `removeOrphanBlock`, for an orphan of the pool. -/
def remove (pool : OrphanPool prim) (block : Block)
    (hmem : pool.orphans.lookup (block.hash prim) = some block) : OrphanPool prim where
  orphans := pool.orphans.erase (block.hash prim)
  prevOrphans := setWaiting pool.prevOrphans block.msgBlock.header.prevBlock
    ((pool.waiting block.msgBlock.header.prevBlock).filter
      fun other => other.hash prim ≠ block.hash prim)
  linked {prevHash blocks other} hblocks hother := by
    have hfilter : other ∈ pool.waiting prevHash ∧ other.hash prim ≠ block.hash prim := by
      by_cases hp : prevHash = block.msgBlock.header.prevBlock
      · subst hp
        rwa [eq_of_lookup_setWaiting hblocks, mem_filter, decide_eq_true_eq] at hother
      have hwaiting : other ∈ pool.waiting prevHash := by
        rw [waiting, ← lookup_setWaiting_of_ne hp, hblocks]
        exact hother
      -- an orphan with the same hash would be the same block, and wait for the same one
      refine ⟨hwaiting, fun heq => hp ?_⟩
      obtain ⟨hlookup, hprev⟩ := linked_of_mem_waiting hwaiting
      rw [heq, hmem, Option.some.injEq] at hlookup
      rw [← hprev, hlookup]
    obtain ⟨hlookup, hprev⟩ := linked_of_mem_waiting hfilter.1
    exact ⟨(lookup_erase_ne hfilter.2).trans hlookup, hprev⟩

theorem lookup_of_lookup_remove {other : Block}
    (hm : pool.orphans.lookup (block.hash prim) = some block)
    (h : (pool.remove block hm).orphans.lookup hash = some other) :
    pool.orphans.lookup hash = some other := by
  by_cases hh : hash = block.hash prim
  · subst hh
    rw [remove, lookup_erase] at h
    exact absurd h (some_ne_none other).symm
  · rwa [remove, lookup_erase_ne hh] at h

end OrphanPool

/-! ### The state of the chain -/

/-- `BlockChain`: what is held in memory, and then what is in the database. -/
structure BlockChain (prim : Primitives) where
  index : BlockIndex
  status : ByHash BlockStatus
  /-- The nodes that are not written yet. -/
  dirty : List BlockNode
  tip : BlockNode
  orphanPool : OrphanPool prim
  stateSnapshot : BestState
  bestCandidate : Option BestLastCandidate
  blocks : ByHash MsgBlock
  hashIndex : ByHash Nat
  utxoSet : UtxoSet
  spendJournal : ByHash (List SpentTxOut)
  blockIndexBucket : Bucket Nat (List UInt8)
  /-- The row of the best chain. -/
  chainState : List UInt8

namespace Env

variable (env : Env)

/-- The node of the genesis block, which counts as having one vote. -/
def genesisNode : BlockNode := newBlockNode env.prim env.params.genesisBlock.header none 1

/-- The snapshot of the genesis block. -/
def genesisState : BestState :=
  let genesisBlock := env.params.genesisBlock
  let header := genesisBlock.header
  newBestState env.genesisNode genesisBlock.serializeSize genesisBlock
    (UInt64.ofNat genesisBlock.transactions.length) header.signature header.publicKey header.scale
    header.reserved header.timestamp 1

end Env

namespace BlockChain

/-- `createChainState`: the chain of the genesis block. -/
def createChainState (env : Env) : BlockChain env.prim where
  index := singleton env.genesisHash env.genesisNode
  status := singleton env.genesisHash { dataStored := true, valid := true }
  dirty := []
  tip := env.genesisNode
  orphanPool := .empty
  stateSnapshot := env.genesisState
  bestCandidate := none
  blocks := singleton env.genesisHash env.params.genesisBlock
  hashIndex := singleton env.genesisHash 0
  utxoSet := ∅
  spendJournal := ∅
  blockIndexBucket := Bucket.empty.put (blockIndexKey env.genesisNode)
    (writeBlockRow env.genesisNode { dataStored := true, valid := true })
  chainState := putBestState env.genesisState

section Updates

variable {prim : Primitives} (chain : BlockChain prim) (node : BlockNode)

/-- The nodes of the best chain, the tip first. -/
def bestChain : List BlockNode := chain.tip :: chain.tip.ancestors

/-- The status of a node. -/
def nodeStatus : BlockStatus := (chain.status.lookup node.hash).getD {}

/-- The row of a node in the bucket of the block index. -/
def blockRow : Nat × List UInt8 := (blockIndexKey node, writeBlockRow node (chain.nodeStatus node))

/-- `SetStatusFlags`: the status of a node has changed and has to be written. -/
def setStatus (status : BlockStatus) : BlockChain prim :=
  { chain with status := chain.status.insert node.hash status, dirty := node :: chain.dirty }

/-- `flushToDB`. -/
def flushToDB : BlockChain prim :=
  { chain with
    dirty := []
    blockIndexBucket := chain.dirty.foldl
      (fun bucket node => bucket.put (chain.blockRow node).1 (chain.blockRow node).2)
      chain.blockIndexBucket }

/-- `dbStoreBlock`: a block that is already there is not overwritten. -/
def storeBlock (block : Block) : BlockChain prim :=
  { chain with
    blocks := if block.hash prim ∈ chain.blocks then chain.blocks
      else chain.blocks.insert (block.hash prim) block.msgBlock }

/-- What `maybeAcceptBlock` does before it connects: the block is stored and its node is added. -/
def addBlock (block : Block) : BlockChain prim :=
  { (chain.storeBlock block).setStatus node { dataStored := true } with
    index := chain.index.addNode node }

/-- `SetBestCandidate`. -/
def setBestCandidate (best : BestLastCandidate) : BlockChain prim :=
  { chain with bestCandidate := some best }

/-- What `connectBlock` does once its two checks have passed and the index is written. -/
def extend (block : Block) (view : UtxoViewpoint) (stxos : List SpentTxOut) : BlockChain prim :=
  let header := block.msgBlock.header
  let state := newBestState node block.msgBlock.serializeSize block.msgBlock
    (chain.stateSnapshot.totalTxns + UInt64.ofNat block.msgBlock.transactions.length)
    header.signature header.publicKey header.scale header.reserved node.calcPastMedianTime
    block.votes
  { chain with
    tip := node
    stateSnapshot := state
    hashIndex := chain.hashIndex.insert (block.hash prim) node.height
    utxoSet := chain.utxoSet.putUtxoView view
    spendJournal := chain.spendJournal.insert (block.hash prim) stxos
    chainState := putBestState state }

variable {chain} {block : Block} {hash : Hash}

theorem mem_blocks_storeBlock :
    hash ∈ (chain.storeBlock block).blocks ↔ hash = block.hash prim ∨ hash ∈ chain.blocks := by
  rw [storeBlock]
  split_ifs with h
  · exact ⟨.inr, fun h' => h'.elim (fun heq => heq ▸ h) id⟩
  · exact mem_insert

theorem lookup_blocks_storeBlock {msgBlock : MsgBlock}
    (h : (chain.storeBlock block).blocks.lookup hash = some msgBlock) :
    chain.blocks.lookup hash = some msgBlock ∨
      hash = block.hash prim ∧ msgBlock = block.msgBlock := by
  rw [storeBlock] at h
  split_ifs at h
  · exact .inl h
  · exact (lookup_insert_cases h).symm.imp_left And.right

end Updates

/-- `countSpentOutputs`. A block without transactions has already panicked in `checkBlockContext`.
-/
def countSpentOutputs (block : Block) : Nat :=
  (block.msgBlock.transactions.tail.map fun tx => tx.txIn.length).sum

section Accepting

variable (env : Env) (chain : BlockChain env.prim)

/-- `connectBlock`. -/
def connectBlock (node : BlockNode) (block : Block) (view : UtxoViewpoint)
    (stxos : List SpentTxOut) : Call (BlockChain env.prim) Unit :=
  if block.msgBlock.header.prevBlock ≠ chain.tip.hash then .ok (chain, .error .assertError)
  else if stxos.length ≠ countSpentOutputs block then .ok (chain, .error .assertError)
  else .ok (chain.flushToDB.extend node block view stxos, .ok ())

/-- What `connectBestChain` does after `connectBlock`: the index is written after an error. -/
def afterConnect {prim : Primitives} :
    BlockChain prim × Except GoError Unit → BlockChain prim × Except GoError Bool
  | (chain, .ok ()) => (chain, .ok true)
  | (chain, .error e) => (chain.flushToDB, .error e)

/-- `connectBestChain`: whether the block has become the tip. -/
def connectBestChain (node : BlockNode) (block : Block) : Call (BlockChain env.prim) Bool :=
  let parentHash := block.msgBlock.header.prevBlock
  if parentHash = chain.tip.hash then
    match checkConnectBlock env chain.utxoSet node block (.new parentHash) with
    | .ok (view, stxos) =>
        let chain := (chain.setStatus node { chain.nodeStatus node with valid := true }).flushToDB
        (connectBlock env chain node block view stxos).map afterConnect
    | .error (.error (.ruleError code)) =>
        .ok ((chain.setStatus node { chain.nodeStatus node with validateFailed := true }).flushToDB,
          .error (.ruleError code))
    | .error (.error e) => .ok (chain, .error e)
    | .error (.panic p) => .error p
  else .ok (chain, .error .assertError)

/-- `maybeAcceptBlock`. -/
def maybeAcceptBlock (block : Block) : Call (BlockChain env.prim) Bool :=
  match chain.index.lookup block.msgBlock.header.prevBlock with
  | none => .ok (chain, .error (.ruleError .errPreviousBlockUnknown))
  | some prevNode =>
      if (chain.nodeStatus prevNode).knownInvalid then
        .ok (chain, .error (.ruleError .errInvalidAncestorBlock))
      else
        let block := { block with height := prevNode.height + 1 }
        (checkBlockContext env.prim block prevNode).andThen chain fun _ =>
          let newNode := newBlockNode env.prim block.msgBlock.header (some prevNode) block.votes
          connectBestChain env (chain.addBlock newNode block).flushToDB newNode block

/-- The node a block gets on top of another one. -/
def nodeOn (tip : BlockNode) (block : Block) : BlockNode :=
  newBlockNode env.prim block.msgBlock.header (some tip) block.votes

end Accepting

/-! ### What accepting a block can do -/

/-- **The ways in which accepting a block can end.** -/
inductive Accepts (env : Env) (chain : BlockChain env.prim) (block : Block) :
    BlockChain env.prim → Except GoError Bool → Prop
  | rejected (e : GoError) : Accepts env chain block chain (.error e)
  | added {prevNode : BlockNode} {status : ByHash BlockStatus} {dirty : List BlockNode}
      {blockIndexBucket : Bucket Nat (List UInt8)} (e : GoError)
      (hprev : chain.index.lookup block.msgBlock.header.prevBlock = some prevNode)
      (hcontext : checkBlockContext env.prim { block with height := prevNode.height + 1 }
        prevNode = .ok ()) :
      Accepts env chain block
        { chain.addBlock (newBlockNode env.prim block.msgBlock.header (some prevNode) block.votes)
            { block with height := prevNode.height + 1 } with status, dirty, blockIndexBucket }
        (.error e)
  | connected {prevNode : BlockNode} {status : ByHash BlockStatus} {dirty : List BlockNode}
      {blockIndexBucket : Bucket Nat (List UInt8)} {view : UtxoViewpoint} {stxos : List SpentTxOut}
      (hprev : chain.index.lookup block.msgBlock.header.prevBlock = some prevNode)
      (hcontext : checkBlockContext env.prim { block with height := prevNode.height + 1 }
        prevNode = .ok ())
      (htip : block.msgBlock.header.prevBlock = chain.tip.hash)
      (hconnect : checkConnectBlock env chain.utxoSet
        (newBlockNode env.prim block.msgBlock.header (some prevNode) block.votes)
        { block with height := prevNode.height + 1 } (.new block.msgBlock.header.prevBlock) =
          .ok (view, stxos)) :
      Accepts env chain block
        (extend { chain.addBlock
            (newBlockNode env.prim block.msgBlock.header (some prevNode) block.votes)
            { block with height := prevNode.height + 1 } with status, dirty, blockIndexBucket }
          (newBlockNode env.prim block.msgBlock.header (some prevNode) block.votes)
          { block with height := prevNode.height + 1 } view stxos) (.ok true)

variable {env : Env} {chain chain' : BlockChain env.prim} {block : Block}
  {result : Except GoError Bool}

section

variable (h : Accepts env chain block chain' result)
include h

theorem Accepts.orphanPool_eq : chain'.orphanPool = chain.orphanPool := by
  cases h <;> rfl

theorem Accepts.bestCandidate_eq : chain'.bestCandidate = chain.bestCandidate := by
  cases h <;> rfl

theorem Accepts.index_eq :
    chain'.index = chain.index ∨ ∃ prevNode,
      chain.index.lookup block.msgBlock.header.prevBlock = some prevNode ∧
      chain'.index = chain.index.addNode (nodeOn env prevNode block) := by
  cases h with
  | rejected => exact .inl rfl
  | added _ hp => exact .inr ⟨_, hp, rfl⟩
  | connected hp => exact .inr ⟨_, hp, rfl⟩

theorem Accepts.mem_index {hash : Hash} (hm : hash ∈ chain.index) : hash ∈ chain'.index := by
  rcases h.index_eq with heq | ⟨prevNode, -, heq⟩
  · rwa [heq]
  · rw [heq]
    exact mem_insert.2 (.inr hm)

theorem Accepts.hashIndex_subset (hs : ∀ hash ∈ chain.hashIndex, hash ∈ chain.index) :
    ∀ hash ∈ chain'.hashIndex, hash ∈ chain'.index := by
  cases h with
  | rejected => exact hs
  | added => exact fun hash hm => mem_insert.2 (.inr (hs hash hm))
  | connected =>
    intro hash hm
    rcases mem_insert.1 hm with heq | hm
    · exact mem_insert.2 (.inl heq)
    · exact mem_insert.2 (.inr (hs hash hm))

end

theorem connectBlock_cases (node : BlockNode) (view : UtxoViewpoint) (stxos : List SpentTxOut) :
    connectBlock env chain node block view stxos = .ok (chain, .error .assertError) ∨
      connectBlock env chain node block view stxos =
        .ok (chain.flushToDB.extend node block view stxos, .ok ()) := by
  rw [connectBlock]
  split_ifs
  · exact .inl rfl
  · exact .inl rfl
  · exact .inr rfl

theorem accepts_of_maybeAcceptBlock (h : maybeAcceptBlock env chain block = .ok (chain', result)) :
    Accepts env chain block chain' result := by
  rw [maybeAcceptBlock] at h
  split at h
  · cases h
    exact .rejected _
  rename_i prevNode hp
  split_ifs at h
  · cases h
    exact .rejected _
  rw [Check.andThen_eq_ok] at h
  obtain ⟨⟨⟩, hco, h⟩ | ⟨e, -, rfl, rfl⟩ := h
  · rw [connectBestChain] at h
    split_ifs at h with ht
    · split at h
      · rename_i view stxos hct
        simp only at h
        rcases connectBlock_cases _ view stxos with hc | hc
        · rw [hc] at h
          cases h
          exact .added _ hp hco
        · rw [hc] at h
          cases h
          exact .connected hp hco ht hct
      · cases h
        exact .added _ hp hco
      · cases h
        exact .added _ hp hco
      · cases h
    · cases h
      exact .added _ hp hco
  · exact .rejected _

theorem exists_connectBestChain_eq_ok {node : BlockNode}
    (ht : block.msgBlock.transactions ≠ []) (hp : node.parent ≠ none) :
    ∃ out, connectBestChain env chain node block = .ok out := by
  rw [connectBestChain]
  split_ifs
  · have hn : (checkConnectBlock env chain.utxoSet node block
        (.new block.msgBlock.header.prevBlock)).NoPanic :=
      noPanic_checkConnectBlock ht hp
    match hc : checkConnectBlock env chain.utxoSet node block
      (.new block.msgBlock.header.prevBlock) with
    | .ok (view, stxos) =>
      dsimp only
      generalize (chain.setStatus node
        { chain.nodeStatus node with valid := true }).flushToDB = chain'
      rcases connectBlock_cases node view stxos with h | h
      · exact ⟨_, by rw [h]; rfl⟩
      · exact ⟨_, by rw [h]; rfl⟩
    | .error (.error (.ruleError code)) => exact ⟨_, rfl⟩
    | .error (.error .assertError) => exact ⟨_, rfl⟩
    | .error (.error .parsePubKey) => exact ⟨_, rfl⟩
    | .error (.panic p) =>
      obtain ⟨e, he⟩ := hn _ hc
      cases he
  · exact ⟨_, rfl⟩

end BlockChain

end DrcNode
