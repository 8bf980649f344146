import DrcNode.Chain.Process
import DrcNode.Library.Runs

/-!
# Sane blocks in the best chain

`checkBlockSanity` is made at one place only, in `ProcessBlock` on a block whose parent is known. A
block that arrives before its parent goes into the orphan pool unchecked and is later accepted from
there, and `ProcessSyncBlock` makes no check at all.

## Main definitions

* `Handed`: the calls on the chain.

## Main results

* `bestChain_sane`: the best chain is sane when the blocks of these two ways are.
-/

namespace DrcNode

open Checked Finmap

namespace BlockChain

/-- A call of one of the entrances to the chain. -/
inductive Handed
  | block (current : CandidatePool) (block : Block)
  | syncBlock (block : Block)

/-- The chain after a call. The caller only logs the error the call may return. -/
def handOver (env : Env) (chain : BlockChain env.prim) :
    Handed → Except Panic (BlockChain env.prim)
  | .block current block => (processBlock env current block chain).map Prod.fst
  | .syncBlock block => (processSyncBlock env block chain).map Prod.fst

namespace Handed

/-- The block of a call. -/
def target : Handed → Block
  | .block _ b => b
  | .syncBlock b => b

/-- The check a call makes on a block with a known parent. -/
def check (env : Env) (chain : BlockChain env.prim) : Handed → Check Unit
  | .block current b => processBlockCheck env current b chain
  | .syncBlock _ => .ok ()

/-- A call, with what it returns. -/
def call (env : Env) (chain : BlockChain env.prim) : Handed → Call (BlockChain env.prim) Outcome
  | .block current b => processBlock env current b chain
  | .syncBlock b => processSyncBlock env b chain

theorem call_eq {env : Env} {chain : BlockChain env.prim} (handed : Handed) :
    handed.call env chain = process env (handed.check env chain) handed.target chain := by
  cases handed <;> rfl

theorem exists_process_of_handOver {env : Env} {chain chain' : BlockChain env.prim}
    (handed : Handed) (h : handOver env chain handed = .ok chain') :
    ∃ result, process env (handed.check env chain) handed.target chain = .ok (chain', result) := by
  cases handed with
  | block current block =>
    rw [handOver, map_eq_ok] at h
    obtain ⟨⟨_, result⟩, hp, rfl⟩ := h
    exact ⟨result, hp⟩
  | syncBlock block =>
    rw [handOver, map_eq_ok] at h
    obtain ⟨⟨_, result⟩, hp, rfl⟩ := h
    exact ⟨result, hp⟩

end Handed

/-- The call checks the body of the block, or the body is sane without a check. -/
def CheckedOrSane (env : Env) (chain : BlockChain env.prim) : Handed → Prop
  | .block _ block => chain.blockExists block.msgBlock.header.prevBlock = true ∨
      BodySane env.prim block.msgBlock
  | .syncBlock block => BodySane env.prim block.msgBlock

variable {env : Env} {chain chain' : BlockChain env.prim} {block : Block}

/-- The node and its ancestors, the genesis block apart, are in the database. -/
def PathStored (chain : BlockChain env.prim) (node : BlockNode) : Prop :=
  ∀ a ∈ node :: node.ancestors, a.height ≠ 0 → a.hash ≠ env.genesisHash ∧ a.hash ∈ chain.blocks

/-- What every call keeps: the stored blocks and the orphans are sane, and every node stands on
stored blocks. -/
structure SaneState (env : Env) (chain : BlockChain env.prim) : Prop where
  genesis_mem : env.genesisHash ∈ chain.index
  stored_sane : ∀ {hash msgBlock}, chain.blocks.lookup hash = some msgBlock →
    hash ≠ env.genesisHash → BodySane env.prim msgBlock
  orphan_sane : ∀ {hash block}, chain.orphanPool.orphans.lookup hash = some block →
    BodySane env.prim block.msgBlock ∧ block.hash env.prim ≠ env.genesisHash
  index_stored : ∀ {hash node}, chain.index.lookup hash = some node → PathStored chain node
  tip_stored : PathStored chain chain.tip

namespace SaneState

theorem createChainState (env : Env) : SaneState env (createChainState env) where
  genesis_mem := (mem_singleton _ _ _).2 rfl
  stored_sane {hash msgBlock} h hne := by
    have hm : hash ∈ (BlockChain.createChainState env).blocks := mem_of_lookup_eq_some h
    exact absurd ((mem_singleton _ _ _).1 hm) hne
  orphan_sane h := by cases h
  index_stored {hash node} h := by
    obtain ⟨rfl, rfl⟩ := lookup_singleton_cases h
    exact fun a ha hh => absurd (List.mem_singleton.1 ha ▸ rfl) hh
  tip_stored a ha hh := absurd (List.mem_singleton.1 ha ▸ rfl) hh

theorem pathStored_mono {node : BlockNode} (h : PathStored chain node)
    (hs : ∀ {hash}, hash ∈ chain.blocks → hash ∈ chain'.blocks) : PathStored chain' node :=
  fun a ha hh => (h a ha hh).imp id hs

section

variable (h : SaneState env chain)
include h

theorem addBlock (block : Block)
    (hs : BodySane env.prim block.msgBlock) (hg : block.hash env.prim ≠ env.genesisHash)
    {prevNode : BlockNode}
    (hp : chain.index.lookup block.msgBlock.header.prevBlock = some prevNode) :
    SaneState env (chain.addBlock (nodeOn env prevNode block) block) where
  genesis_mem := mem_insert.2 (Or.inr h.genesis_mem)
  stored_sane {hash msgBlock} hl hne := by
    rcases lookup_blocks_storeBlock hl with ho | ⟨-, rfl⟩
    · exact h.stored_sane ho hne
    · exact hs
  orphan_sane := h.orphan_sane
  index_stored {hash node} hl := by
    obtain ⟨-, rfl⟩ | ⟨-, ho⟩ := lookup_insert_cases hl
    · intro a ha hh
      rcases List.mem_cons.1 ha with rfl | ha
      · exact ⟨hg, mem_blocks_storeBlock.2 (.inl rfl)⟩
      · exact pathStored_mono (h.index_stored hp) (mem_blocks_storeBlock.2 ∘ .inr) a ha hh
    · exact pathStored_mono (h.index_stored ho) (mem_blocks_storeBlock.2 ∘ .inr)
  tip_stored := pathStored_mono h.tip_stored (mem_blocks_storeBlock.2 ∘ .inr)

theorem accepts {result : Except GoError Bool} (hs : BodySane env.prim block.msgBlock)
    (hg : block.hash env.prim ≠ env.genesisHash)
    (hac : Accepts env chain block chain' result) : SaneState env chain' := by
  cases hac with
  | rejected => exact h
  | @added prevNode _ _ _ _ hp =>
    exact { h.addBlock { block with height := prevNode.height + 1 } hs hg hp with }
  | @connected prevNode _ _ _ _ _ hp =>
    have ha := h.addBlock { block with height := prevNode.height + 1 } hs hg hp
    exact { ha with tip_stored := ha.index_stored (lookup_insert _) }

theorem take {hash : Hash} {orphan : Block} {orphanPool : OrphanPool env.prim}
    (ht : chain.orphanPool.take hash = some (orphan, orphanPool)) :
    SaneState env { chain with orphanPool } ∧ BodySane env.prim orphan.msgBlock ∧
      orphan.hash env.prim ≠ env.genesisHash := by
  obtain ⟨hm, rfl⟩ := OrphanPool.take_eq_some ht
  exact ⟨{ h with
    orphan_sane := fun hl => h.orphan_sane (OrphanPool.lookup_of_lookup_remove hm hl) },
    h.orphan_sane hm⟩

/-- A call whose check passes only sane blocks, on a block that is sane or has a known parent. -/
theorem process {check : Check Unit} {result : Except GoError Outcome} (hc : check = .ok
    () → BodySane env.prim block.msgBlock)
    (hs : chain.blockExists block.msgBlock.header.prevBlock = true ∨
      BodySane env.prim block.msgBlock)
    (hpr : BlockChain.process env check block chain = .ok (chain', result)) :
    SaneState env chain' := by
  -- the genesis block is in the index, so that a block with its hash is turned away
  have hg : chain.blockExists (block.hash env.prim) = false →
      block.hash env.prim ≠ env.genesisHash := by
    intro he heq
    rw [heq, blockExists, decide_eq_true h.genesis_mem] at he
    cases he
  refine process_invariant h ?_ ?_ ?_ hpr
  · intro hf he hpa
    have hb : BodySane env.prim block.msgBlock := hs.resolve_left (by rw [hpa]; decide)
    refine { h with orphan_sane := ?_ }
    intro hash other hl
    obtain ⟨-, rfl⟩ | ⟨-, hl⟩ := lookup_insert_cases hl
    · exact ⟨hb, hg he⟩
    · exact h.orphan_sane hl
  · exact fun hp ha =>
      h.accepts (hc hp.checked) (hg hp.new) (accepts_of_maybeAcceptBlock ha)
  · intro chain chain' hash orphan orphanPool result h hta ha
    obtain ⟨ht, hb, hne⟩ := h.take hta
    exact ht.accepts hb hne (accepts_of_maybeAcceptBlock ha)

theorem handOver {call : Handed} (hok : CheckedOrSane env chain call)
    (hst : BlockChain.handOver env chain call = .ok chain') : SaneState env chain' := by
  obtain ⟨result, hp⟩ := call.exists_process_of_handOver hst
  cases call with
  | block current block =>
    refine h.process (fun hc => ?_) hok hp
    obtain ⟨seed, pi, hs⟩ := exists_checkBlockSanity_of_processBlockCheck hc
    exact bodySane_of_checkBlockSanity hs
  | syncBlock block => exact h.process (fun _ => hok) (.inr hok) hp

end

end SaneState

/-! ### The best chain -/

/-- Every block of the best chain but the genesis block is stored with a sane body. -/
def BestChainSane (env : Env) (chain : BlockChain env.prim) : Prop :=
  ∀ node ∈ chain.bestChain, node.height ≠ 0 →
    ∃ msgBlock, chain.blocks.lookup node.hash = some msgBlock ∧ BodySane env.prim msgBlock

theorem SaneState.bestChainSane (h : SaneState env chain) : BestChainSane env chain := by
  intro node hn hh
  obtain ⟨hne, hm⟩ := h.tip_stored node hn hh
  obtain ⟨msgBlock, hl⟩ := mem_iff.1 hm
  exact ⟨msgBlock, hl, h.stored_sane hl hne⟩

/-- **The best chain is sane** after any calls in which every block that is not checked is sane by
itself. -/
theorem bestChain_sane {calls : List Handed}
    (hrun : Runs.Run (BlockChain.handOver env) (CheckedOrSane env) (createChainState env) calls
      chain) : BestChainSane env chain := by
  refine (hrun.invariant (SaneState.createChainState env) ?_).bestChainSane
  exact fun _ _ _ h hok hs => h.handOver hok hs

end BlockChain

/-! ### Blocks that are connected unchecked -/

/-- A coinbase for a block of the given height. -/
def sampleCoinbase (height : UInt8) : MsgTx where
  version := 1
  txIn := [{ previousOutPoint := ⟨0, 0xffffffff⟩, signatureScript := [0x50 + height, 0]
             witness := [], sequence := 0xffffffff }]
  txOut := [{ value := 0, pkScript := [0x51] }]
  lockTime := 0

/-- A header with the given parent, Merkle root and time. -/
def sampleHeader (prevBlock merkleRoot : Hash) (timestamp : Int) : BlockHeader where
  version := 1
  prevBlock := prevBlock
  merkleRoot := merkleRoot
  timestamp := timestamp
  signature := 0
  publicKey := 0
  scale := 1
  reserved := 0

/-- The parameters of the main network on top of a small genesis block. -/
def sampleEnv : Env where
  prim := .polynomial
  params :=
    { genesisBlock := ⟨sampleHeader 0 0 0, [sampleCoinbase 0]⟩
      bip0034Height := 0
      bip0065Height := 0
      bip0066Height := 0
      coinbaseMaturity := 100
      subsidyReductionInterval := 210000 }

/-- A sane block on top of the genesis block. -/
def sampleBlock : MsgBlock where
  header := sampleHeader sampleEnv.genesisHash
    ((sampleCoinbase 1).txHash sampleEnv.prim) 1
  transactions := [sampleCoinbase 1]

/-- A block whose transactions do not have the Merkle root of its header. -/
def wrongMerkleRoot (prevBlock : Hash) (height : UInt8) : MsgBlock where
  header := sampleHeader prevBlock 0 height.toNat
  transactions := [sampleCoinbase height]

open BlockChain in
theorem bestChain_sane_sampleBlock : ∃ chain,
    handOver sampleEnv (createChainState sampleEnv) (.block ∅ { msgBlock := sampleBlock }) =
      .ok chain ∧ chain.tip.height = 1 ∧ BestChainSane sampleEnv chain := by
  have ht : (handOver sampleEnv (createChainState sampleEnv)
      (.block ∅ { msgBlock := sampleBlock })).map (fun chain => chain.tip.height) = .ok 1 := by
    decide +kernel
  obtain ⟨chain, hs, hh⟩ := map_eq_ok.1 ht
  have hc : CheckedOrSane sampleEnv (createChainState sampleEnv)
      (.block ∅ { msgBlock := sampleBlock }) := Or.inl (by decide +kernel)
  exact ⟨chain, hs, hh, bestChain_sane (.snoc .nil hc hs)⟩

open BlockChain in
/-- Calls that end with a tip whose block has the wrong Merkle root leave a chain that is not
sane. -/
theorem exec_not_sane {calls : List Handed} {prevBlock : Hash} {height : UInt8}
    (he : (Runs.exec (handOver sampleEnv) (createChainState sampleEnv) calls).map
        (fun chain => (chain.tip.height, chain.blocks.lookup chain.tip.hash)) =
      .ok (height.toNat, some (wrongMerkleRoot prevBlock height))) (hh : height ≠ 0)
    (hr : merkleRoot sampleEnv.prim [sampleCoinbase height] ≠ some 0) :
    ∃ chain, Runs.exec (handOver sampleEnv) (createChainState sampleEnv) calls = .ok chain ∧
      ¬BestChainSane sampleEnv chain := by
  obtain ⟨chain, he, ht⟩ := map_eq_ok.1 he
  obtain ⟨ht, hs⟩ := Prod.mk.inj ht
  refine ⟨chain, he, fun hsa => ?_⟩
  have ht0 : chain.tip.height ≠ 0 := fun h0 => hh (UInt8.toNat_inj.1 (ht.symm.trans h0))
  obtain ⟨msgBlock, hl, hb⟩ := hsa chain.tip List.mem_cons_self ht0
  rw [hs, Option.some.injEq] at hl
  subst hl
  exact hr hb.merkleRoot_eq

open BlockChain in
/-- Both ways around the check connect a block with a wrong Merkle root. -/
theorem wrongMerkleRoot_connected :
    (∃ chain, Runs.exec (handOver sampleEnv) (createChainState sampleEnv)
        [.syncBlock { msgBlock := wrongMerkleRoot sampleEnv.genesisHash 1 }] = .ok chain ∧
      ¬BestChainSane sampleEnv chain) ∧
    ∃ chain, Runs.exec (handOver sampleEnv) (createChainState sampleEnv)
        [.block ∅ { msgBlock := wrongMerkleRoot (sampleBlock.header.blockHash sampleEnv.prim) 2 },
          .block ∅ { msgBlock := sampleBlock }] = .ok chain ∧
      ¬BestChainSane sampleEnv chain :=
  ⟨@exec_not_sane _ sampleEnv.genesisHash 1 (by decide +kernel) (by decide) (by decide +kernel),
    @exec_not_sane _ (sampleBlock.header.blockHash sampleEnv.prim) 2 (by decide +kernel)
      (by decide) (by decide +kernel)⟩

end DrcNode
