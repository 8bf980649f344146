import DrcNode.Chain.Coins
import DrcNode.Chain.SaneChain

/-!
# Chains of connected blocks

A block that passes `checkBlockSanity` and `checkConnectBlock` does to the unspent outputs what the
ledger says. A chain of such blocks, from the genesis block on, is a history of the ledger, which
starts empty: the outputs of the genesis block are never stored.

## Main results

* `exists_connectedChain`: the best chain of a node is such a chain.
-/

namespace DrcNode

open Checked Finmap List Option

open Ledger

variable {env : Env} {height : Nat} {view view' : UtxoViewpoint} {tx : MsgTx}

/-! ### What a connected block satisfies -/

section Connected

variable {utxoSet : UtxoSet} {node : BlockNode} {block : Block} {stxos : List SpentTxOut}
  {state state' : Connecting}

theorem spendable_of_foldlM_addInput {inputs : List TxIn} {total total' : Int64}
    (h : inputs.foldlM (addInput env height view) total = .ok total') :
    ∀ o ∈ inputs.map TxIn.previousOutPoint, Spendable env height view o := by
  induction inputs generalizing total with
  | nil =>
    intro o ho
    cases ho
  | cons txIn inputs ih =>
    rw [foldlM_cons, bind_eq_ok] at h
    obtain ⟨total₁, hi, h⟩ := h
    rw [map_cons, forall_mem_cons]
    refine ⟨?_, ih h⟩
    rw [addInput] at hi
    split at hi
    · cases hi
    · rename_i utxo hu
      simp only [bind_eq_ok, require_eq_ok, exists_const] at hi
      exact ⟨utxo, hu, hi.1, matured_eq_true_iff.2 hi.2.1⟩

theorem spendable_of_checkTransactionInputs {fee : Int64}
    (h : checkTransactionInputs env tx height view = .ok fee) :
    ∀ o ∈ tx.spends, Spendable env height view o := by
  rw [checkTransactionInputs] at h
  rw [MsgTx.spends]
  split_ifs at h ⊢
  · intro o ho
    cases ho
  · rw [bind_eq_ok] at h
    obtain ⟨total, ht, -⟩ := h
    exact spendable_of_foldlM_addInput ht

theorem connectTx_eq_ok_iff : connectTx env height state tx = .ok state' ↔
    ∃ fee, checkTransactionInputs env tx height state.view = .ok fee ∧
      state.totalFees ≤ state.totalFees + fee ∧ ∃ spent,
        UtxoViewpoint.connectTransaction env.prim (state.view, state.stxos) tx height = .ok spent ∧
        ⟨spent.1, spent.2, state.totalFees + fee⟩ = state' := by
  simp only [connectTx, bind_eq_ok, require_eq_ok, exists_const, pure_eq_ok]

/-- What `connectTx` does with the view is what the rules on unspent outputs do. -/
theorem connectUtxos_of_connectTx (h : connectTx env height state tx = .ok state') :
    connectUtxos env height state.view tx = .ok state'.view := by
  obtain ⟨fee, hf, -, ⟨view₁, stxos₁⟩, hc, rfl⟩ := connectTx_eq_ok_iff.1 h
  rw [UtxoViewpoint.connectTransaction_stxos, map_eq_ok] at hc
  obtain ⟨⟨view₂, stxos₂⟩, hc, heq⟩ := hc
  cases heq
  refine bind_eq_ok.2 ⟨(), forM_eq_ok.2 fun o ho => ?_, bind_eq_ok.2 ⟨_, hc, rfl⟩⟩
  exact checkUnspent_eq_ok_iff.2 (spendable_of_checkTransactionInputs hf o ho)

/-- The view after the check of BIP0030, which is made below the height of BIP0034 only. -/
def viewAfterBIP0030 (env : Env) (utxoSet : UtxoSet) (node : BlockNode) (block : Block)
    (view : UtxoViewpoint) : Check UtxoViewpoint :=
  if !isBIP0030Node node ∧ (node.height : Int) < env.params.bip0034Height
    then checkBIP0030 env.prim utxoSet block view else pure view

/-- What `checkConnectBlock` asks for once the outputs of `view` are there and the transactions have
led to `state`. -/
structure Connects (env : Env) (utxoSet : UtxoSet) (node parent : BlockNode) (block : Block)
    (view : UtxoViewpoint) (coinbaseTx : MsgTx) (txs : List MsgTx) (state : Connecting) : Prop where
  transactions_eq : block.msgBlock.transactions = coinbaseTx :: txs
  parent_eq : node.parent = some parent
  sigOps : ∃ total, (coinbaseTx :: txs).zipIdx.foldlM (addSigOpCost
    (view.fetchInputUtxos env.prim utxoSet (coinbaseTx :: txs) block.height)
    (decide (bip16Activation ≤ node.fields.timestamp))) 0 = .ok total
  connected : (coinbaseTx :: txs).foldlM (connectTx env node.height)
    { view := view.fetchInputUtxos env.prim utxoSet (coinbaseTx :: txs) block.height } = .ok state
  value_le : totalSatoshiOut coinbaseTx ≤ calcBlockSubsidy env node.height + state.totalFees
  locks : sequenceLockActive calcSequenceLock node.height parent.calcPastMedianTime = true
  scripts : checkBlockScripts env.prim block state.view (scriptFlags env block.msgBlock.header
    node.height (decide (bip16Activation ≤ node.fields.timestamp))) = .ok ()

/-- **What `checkConnectBlock` asks for**, and what it returns. -/
theorem checkConnectBlock_eq_ok_iff :
    checkConnectBlock env utxoSet node block view = .ok (view', stxos) ↔
      node.hash ≠ env.genesisHash ∧ view.bestHash = block.msgBlock.header.prevBlock ∧
      ∃ view₁, viewAfterBIP0030 env utxoSet node block view = .ok view₁ ∧
        ∃ coinbaseTx txs parent state,
          Connects env utxoSet node parent block view₁ coinbaseTx txs state ∧
          view' = { state.view with bestHash := node.hash } ∧ stxos = state.stxos := by
  -- all transactions have the lock that does not depend on them
  have hl : ∀ {coinbaseTx : MsgTx} {txs : List MsgTx} {p : Prop},
      (∀ _tx ∈ coinbaseTx :: txs, p) ↔ p := fun {coinbaseTx _ _} =>
    ⟨fun h => h coinbaseTx mem_cons_self, fun h _ _ => h⟩
  rw [checkConnectBlock, bind_eq_ok]
  constructor
  · rintro ⟨⟨⟩, hg, h⟩
    rw [require_eq_ok] at hg
    by_cases hb : view.bestHash ≠ block.msgBlock.header.prevBlock
    · rw [if_pos hb] at h
      cases h
    refine ⟨hg, not_not.1 hb, ?_⟩
    unfold viewAfterBIP0030
    split_ifs at h ⊢ with hbi
    all_goals
      rw [bind_eq_ok] at h
      obtain ⟨view₁, hv₁, h⟩ := h
      refine ⟨view₁, hv₁, ?_⟩
      split at h
      · cases h
      rename_i coinbaseTx txs ht
      simp only [bind_eq_ok] at h
      obtain ⟨total, hs, state, hst, ⟨⟩, hva, h⟩ := h
      split at h
      · cases h
      rename_i parent hp
      simp only [bind_eq_ok, require_eq_ok] at h
      obtain ⟨⟨⟩, hse, ⟨⟩, hsc, h⟩ := h
      cases h
      exact ⟨coinbaseTx, txs, parent, state, ⟨ht, hp, ⟨total, hs⟩, hst,
        require_eq_ok.1 hva, hl.1 hse, hsc⟩, rfl, rfl⟩
  · rintro ⟨hg, hb, view₁, hv₁, coinbaseTx, txs, parent, state, h, rfl, rfl⟩
    obtain ⟨total, hs⟩ := h.sigOps
    refine ⟨(), require_eq_ok.2 hg, ?_⟩
    rw [if_neg (not_not.2 hb)]
    unfold viewAfterBIP0030 at hv₁
    split_ifs at hv₁ ⊢ with hbi
    all_goals
      refine bind_eq_ok.2 ⟨view₁, hv₁, ?_⟩
      rw [h.transactions_eq]
      refine bind_eq_ok.2 ⟨total, hs, bind_eq_ok.2 ⟨state, h.connected, ?_⟩⟩
      refine bind_eq_ok.2 ⟨(), require_eq_ok.2 h.value_le, ?_⟩
      rw [h.parent_eq]
      refine bind_eq_ok.2 ⟨(), require_eq_ok.2 (hl.2 h.locks), ?_⟩
      exact bind_eq_ok.2 ⟨(), h.scripts, rfl⟩

theorem viewAfterBIP0030_eq (hb : env.params.bip0034Height ≤ node.height) :
    viewAfterBIP0030 env utxoSet node block view = .ok view := by
  rw [viewAfterBIP0030, if_neg (fun h => absurd h.2 (not_lt.2 hb))]
  rfl

/-- **What a connected block satisfies**, when the check of BIP0030 is not made. -/
theorem checkConnectBlock_eq_ok (hbi : env.params.bip0034Height ≤ node.height)
    (h : checkConnectBlock env utxoSet node block view = .ok (view', stxos)) :
    node.hash ≠ env.genesisHash ∧ view.bestHash = block.msgBlock.header.prevBlock ∧
    ∃ coinbaseTx txs parent state, block.msgBlock.transactions = coinbaseTx :: txs ∧
      node.parent = some parent ∧
      (coinbaseTx :: txs).foldlM (connectTx env node.height)
        { view := view.fetchInputUtxos env.prim utxoSet (coinbaseTx :: txs) block.height } =
          .ok state ∧
      totalSatoshiOut coinbaseTx ≤ calcBlockSubsidy env node.height + state.totalFees ∧
      checkBlockScripts env.prim block state.view (scriptFlags env block.msgBlock.header node.height
        (decide (bip16Activation ≤ node.fields.timestamp))) = .ok () ∧
      view' = { state.view with bestHash := node.hash } ∧ stxos = state.stxos := by
  obtain ⟨hg, hb, view₁, hv₁, coinbaseTx, txs, parent, state, h, hv', hs⟩ :=
    checkConnectBlock_eq_ok_iff.1 h
  rw [viewAfterBIP0030_eq hbi] at hv₁
  cases hv₁
  exact ⟨hg, hb, coinbaseTx, txs, parent, state, h.transactions_eq, h.parent_eq,
    h.connected, h.value_le, h.scripts, hv', hs⟩

end Connected

/-! ### What a block does to an output -/

section Outputs

variable {prim : Primitives} {transactions : List MsgTx} {outpoint : OutPoint} {blockHeight : Int}
  {state state' : Connecting} {coin entry : UtxoEntry}

/-- The outputs that the transactions create. -/
def createdOutPoints (prim : Primitives) (transactions : List MsgTx) : List OutPoint :=
  transactions.flatMap fun tx => (tx.coins prim 0).map Prod.fst

theorem createdOutPoints_cons : createdOutPoints prim (tx :: transactions) =
    (tx.coins prim blockHeight).map Prod.fst ++ createdOutPoints prim transactions := by
  rw [createdOutPoints, flatMap_cons, MsgTx.map_fst_coins prim tx 0 blockHeight, createdOutPoints]

theorem mem_createdOutPoints (htx : tx ∈ transactions)
    (h : (outpoint, coin) ∈ tx.coins prim blockHeight) :
    outpoint ∈ createdOutPoints prim transactions := by
  refine mem_flatMap.2 ⟨tx, htx, ?_⟩
  rw [MsgTx.map_fst_coins prim tx 0 blockHeight]
  exact mem_map_of_mem h

theorem blockHeight_of_mem_coins (h : (outpoint, coin) ∈ tx.coins prim blockHeight) :
    coin.blockHeight = blockHeight := by
  obtain ⟨out, -, ho⟩ := mem_filterMap.1 h
  split_ifs at ho
  cases ho
  rfl

theorem blockHeight_spend (entry : UtxoEntry) : entry.spend.blockHeight = entry.blockHeight := by
  rw [UtxoEntry.spend]
  split_ifs <;> rfl

section

variable (h : transactions.foldlM (connectTx env height) state = .ok state')
include h

/-- **An output that no transaction creates** stays as it is, or is marked as spent. -/
theorem lookupEntry_foldlM_connectTx (ho : outpoint ∉ createdOutPoints env.prim transactions) :
    state'.view.lookupEntry outpoint = if outpoint ∈ transactions.flatMap MsgTx.spends
        then (state.view.lookupEntry outpoint).map UtxoEntry.spend
        else state.view.lookupEntry outpoint := by
  induction transactions generalizing state with
  | nil =>
    cases h
    exact (if_neg not_mem_nil).symm
  | cons tx transactions ih =>
    rw [foldlM_cons, bind_eq_ok] at h
    obtain ⟨state₁, hc, h⟩ := h
    rw [@createdOutPoints_cons tx env.prim transactions height, mem_append, not_or] at ho
    have hf := (connectUtxos_eq_ok (connectUtxos_of_connectTx hc)).2 outpoint
    rw [created_eq_none_iff.2 ho.1] at hf
    rw [ih h ho.2, hf]
    -- spending twice is spending once
    have hs : UtxoEntry.spend ∘ UtxoEntry.spend = UtxoEntry.spend :=
      funext UtxoViewpoint.spend_spend
    by_cases htx : outpoint ∈ tx.spends <;>
      by_cases hl : outpoint ∈ transactions.flatMap MsgTx.spends <;>
      simp [htx, hl, hs]

theorem exists_lookupEntry_foldlM_connectTx
    (ho : (∃ entry, state.view.lookupEntry outpoint = some entry) ∨
      outpoint ∈ transactions.flatMap MsgTx.spends) :
    ∃ entry, state'.view.lookupEntry outpoint = some entry := by
  induction transactions generalizing state with
  | nil =>
    cases h
    exact ho.resolve_right not_mem_nil
  | cons tx transactions ih =>
    rw [foldlM_cons, bind_eq_ok] at h
    obtain ⟨state₁, hc, h⟩ := h
    obtain ⟨hs, hl⟩ := connectUtxos_eq_ok (connectUtxos_of_connectTx hc)
    -- an entry before the transaction is an entry after it
    have hk : (∃ entry, state.view.lookupEntry outpoint = some entry) →
        ∃ entry, state₁.view.lookupEntry outpoint = some entry := by
      rintro ⟨entry, he⟩
      rw [hl, he]
      cases created (tx.coins env.prim height) outpoint with
      | some coin => exact ⟨_, rfl⟩
      | none =>
        split_ifs
        · exact ⟨_, rfl⟩
        · exact ⟨_, rfl⟩
    refine ih h ?_
    rw [flatMap_cons, mem_append] at ho
    obtain ht | hsp | hla := ho
    · exact .inl (hk ht)
    · exact .inl (hk ((hs outpoint hsp).imp fun _ => And.left))
    · exact .inr hla

theorem blockHeight_of_foldlM_connectTx (ho : outpoint ∈ createdOutPoints env.prim transactions)
    (he : state'.view.lookupEntry outpoint = some entry) : entry.blockHeight = height := by
  induction transactions generalizing state with
  | nil => cases ho
  | cons tx transactions ih =>
    rw [foldlM_cons, bind_eq_ok] at h
    obtain ⟨state₁, hco, h⟩ := h
    by_cases hl : outpoint ∈ createdOutPoints env.prim transactions
    · exact ih h hl
    -- the last to create it is the first transaction
    rw [@createdOutPoints_cons tx env.prim transactions height, mem_append] at ho
    obtain ⟨coin, hc⟩ := ne_none_iff_exists'.1
      (mt created_eq_none_iff.1 (not_not.2 (ho.resolve_right hl)))
    have hf := (connectUtxos_eq_ok (connectUtxos_of_connectTx hco)).2 outpoint
    rw [hc, map_some, some_or] at hf
    have hh := blockHeight_of_mem_coins (mem_of_created hc)
    rw [lookupEntry_foldlM_connectTx h hl, hf] at he
    split_ifs at he
    · cases he
      rw [blockHeight_spend, UtxoEntry.fresh, hh]
    · cases he
      exact hh

end

end Outputs

/-! ### Sane blocks -/

section Sane

variable {utxoSet coins : UtxoSet} {node tip : BlockNode} {block : Block} {stxos : List SpentTxOut}

theorem nodup_of_checkTransactionSanity (h : checkTransactionSanity tx = .ok ()) :
    (tx.txIn.map TxIn.previousOutPoint).Nodup := by
  simp only [checkTransactionSanity, bind_eq_ok, require_eq_ok, exists_const] at h
  obtain ⟨-, -, -, -, -, hn, -⟩ := h
  exact hn

theorem nodup_spends (h : (tx.txIn.map TxIn.previousOutPoint).Nodup) : tx.spends.Nodup := by
  rw [MsgTx.spends]
  split_ifs
  · exact nodup_nil
  · exact h

theorem exists_tracks {coinbaseTx : MsgTx} {txs : List MsgTx} (hs : utxoSet.Stored)
    (hsa : BodySane env.prim block.msgBlock)
    (ht : block.msgBlock.transactions = coinbaseTx :: txs) (bestHash : Hash) :
    ∃ needed, Covered env.prim needed (coinbaseTx :: txs) ∧
      Tracks env.prim utxoSet needed (coinbaseTx :: txs)
        ((UtxoViewpoint.new bestHash).fetchInputUtxos env.prim utxoSet (coinbaseTx :: txs)
          block.height) utxoSet := by
  obtain ⟨tx, txs', ht', hc, -⟩ := hsa.first_coinbase
  obtain ⟨rfl, rfl⟩ := List.cons.inj (ht.symm.trans ht')
  have hl := loaded_fetchInputUtxos env.prim block.height utxoSet coinbaseTx txs bestHash
  exact ⟨_, covered_of_loaded hc hl, tracks_of_loaded hs hl⟩

/-- The state of `checkConnectBlock` after the transactions `before` of the block. -/
def connecting (env : Env) (utxoSet : UtxoSet) (tip node : BlockNode) (block : Block)
    (before : List MsgTx) : Check Connecting :=
  before.foldlM (connectTx env node.height)
    { view := (UtxoViewpoint.new tip.hash).fetchInputUtxos env.prim utxoSet
        block.msgBlock.transactions block.height }

/-- **The transactions of a sane block that have been connected are made in the ledger.** -/
theorem exists_tracks_connecting (hst : utxoSet.Stored) (hs : BodySane env.prim block.msgBlock) :
    ∃ needed, Covered env.prim needed block.msgBlock.transactions ∧
      ∀ before rest state, block.msgBlock.transactions = before ++ rest →
        connecting env utxoSet tip node block before = .ok state →
        ∃ coins, applyBlock env node.height utxoSet before = some coins ∧
          Tracks env.prim utxoSet needed rest state.view coins := by
  obtain ⟨coinbaseTx, txs, ht, -⟩ := hs.first_coinbase
  obtain ⟨needed, hc, htr⟩ := exists_tracks hst hs ht tip.hash
  rw [← ht] at hc htr
  have hi : ∀ tx ∈ block.msgBlock.transactions, tx.spends.Nodup := fun tx htx =>
    nodup_spends (nodup_of_checkTransactionSanity (hs.transaction_sane tx htx))
  refine ⟨needed, hc, fun before rest state hsp h => ?_⟩
  exact Tracks.applyAll_of_foldlM hs.txHash_nodup hc hi htr hsp
    (foldlM_simulates Connecting.view (fun _ _ _ _ => connectUtxos_of_connectTx) h)

/-- **A sane block that is connected is made in the ledger**, and leaves its coins. -/
theorem applyBlock_of_checkConnectBlock (hb : env.params.bip0034Height ≤ node.height)
    (hs : utxoSet.Stored) (hsa : BodySane env.prim block.msgBlock)
    (h : checkConnectBlock env utxoSet node block (.new tip.hash) = .ok (view', stxos)) :
    applyBlock env node.height utxoSet block.msgBlock.transactions =
      some (utxoSet.putUtxoView view') := by
  obtain ⟨-, -, coinbaseTx, txs, parent, state, htr, -, hf, -, -, rfl, -⟩ :=
    checkConnectBlock_eq_ok hb h
  obtain ⟨needed, -, ht⟩ := exists_tracks_connecting hs hsa
  obtain ⟨coins, ha, ht'⟩ := ht block.msgBlock.transactions [] state
    (append_nil _).symm (by rw [connecting, htr]; exact hf)
  rw [ha]
  exact congrArg some (ht'.putUtxoView_eq hs).symm

theorem stored_putUtxoView (h : utxoSet.Stored) : (utxoSet.putUtxoView view).Stored := by
  intro o coin hc
  rw [UtxoSet.lookup_putUtxoView] at hc
  cases he : view.lookupEntry o with
  | none =>
    rw [he] at hc
    exact h o coin hc
  | some entry =>
    rw [he, UtxoSet.putEntry] at hc
    split_ifs at hc with hm hs
    · exact h o coin hc
    · rw [lookup_erase] at hc
      cases hc
    · rw [lookup_insert, Option.some.injEq] at hc
      rw [← hc]
      exact ⟨Bool.eq_false_of_not_eq_true hs, rfl⟩

end Sane

/-! ### Chains -/

/-- **A chain of connected blocks**, its tip and the unspent outputs. The parameter `also` stands
for further conditions on a block and the one it extends. -/
inductive ConnectedChain (env : Env) (also : Block → BlockNode → Prop) :
    List Block → BlockNode → UtxoSet → Prop
  | genesis : ConnectedChain env also [] env.genesisNode ∅
  | connect {blocks : List Block} {tip : BlockNode} {utxoSet : UtxoSet} {block : Block}
      {current : CandidatePool} {seed : Hash} {pi : Nat} {votes : UInt16} {view : UtxoViewpoint}
      {stxos : List SpentTxOut} (hchain : ConnectedChain env also blocks tip utxoSet)
      (halso : also block tip)
      (hsane : checkBlockSanity env.prim current block.msgBlock seed pi = .ok ())
      (hconnect : checkConnectBlock env utxoSet
        (newBlockNode env.prim block.msgBlock.header (some tip) votes) block (.new tip.hash) =
          .ok (view, stxos)) :
      ConnectedChain env also (blocks ++ [block])
        (newBlockNode env.prim block.msgBlock.header (some tip) votes) (utxoSet.putUtxoView view)

namespace ConnectedChain

variable {also : Block → BlockNode → Prop} {blocks : List Block} {tip : BlockNode}
  {utxoSet : UtxoSet}

theorem stored (h : ConnectedChain env also blocks tip utxoSet) : utxoSet.Stored := by
  induction h with
  | genesis =>
    intro o coin hc
    cases hc
  | connect _ _ _ _ ih => exact stored_putUtxoView ih

end ConnectedChain

/-- The further condition on the blocks of a chain: `checkBlockContext`. -/
def PassesContext (prim : Primitives) (block : Block) (tip : BlockNode) : Prop :=
  checkBlockContext prim block tip = .ok ()

/-! ### The chain of a node -/

namespace BlockChain

variable {chain chain' : BlockChain env.prim} {block : Block}

/-- A call of `ProcessBlock` with a block whose parent is known, so that the block is checked. -/
def InOrder (chain : BlockChain env.prim) : Handed → Prop
  | .block _ block => chain.blockExists block.msgBlock.header.prevBlock = true
  | .syncBlock _ => False

/-- What such calls keep. -/
structure Chained (env : Env) (chain : BlockChain env.prim) : Prop where
  connected : ∃ blocks, ConnectedChain env (PassesContext env.prim) blocks chain.tip chain.utxoSet
  lookup_tip : chain.index.lookup chain.tip.hash = some chain.tip
  waiting_eq : ∀ hash, chain.orphanPool.waiting hash = []

namespace Chained

theorem createChainState (env : Env) : Chained env (createChainState env) where
  connected := ⟨[], .genesis⟩
  lookup_tip := lookup_singleton_eq
  waiting_eq _ := rfl

theorem accepts {current : CandidatePool} {seed : Hash} {pi : Nat} {result : Except GoError Bool}
    (h : Chained env chain) (hn : block.hash env.prim ∉ chain.index)
    (hs : checkBlockSanity env.prim current block.msgBlock seed pi = .ok ())
    (ha : Accepts env chain block chain' result) : Chained env chain' := by
  cases ha with
  | rejected => exact h
  | added _ hp hco =>
    refine { h with lookup_tip := ?_ }
    have hne : chain.tip.hash ≠ block.hash env.prim := fun heq =>
      hn (heq ▸ mem_of_lookup_eq_some h.lookup_tip)
    exact (lookup_insert_of_ne _ hne).trans h.lookup_tip
  | connected hp hco ht hc =>
    obtain ⟨blocks, hch⟩ := h.connected
    rw [ht] at hp hc
    cases h.lookup_tip.symm.trans hp
    refine ⟨⟨blocks ++ [{ block with height := chain.tip.height + 1 }], ?_⟩, lookup_insert _,
      h.waiting_eq⟩
    exact .connect hch hco hs hc

theorem handOver {call : Handed} (h : Chained env chain) (hok : InOrder chain call)
    (hs : BlockChain.handOver env chain call = .ok chain') : Chained env chain' := by
  cases call with
  | syncBlock block => cases hok
  | block current block =>
    rw [BlockChain.handOver, map_eq_ok] at hs
    obtain ⟨⟨_, result⟩, hpr, rfl⟩ := hs
    refine process_invariant h (fun _ _ hpa => ?_) (fun hp ha => ?_) (fun h ht _ => ?_) hpr
    · cases hok.symm.trans hpa
    · obtain ⟨seed, pi, hsa⟩ := exists_checkBlockSanity_of_processBlockCheck hp.checked
      exact h.accepts hp.notMem_index hsa (accepts_of_maybeAcceptBlock ha)
    · rw [OrphanPool.take_eq_none (h.waiting_eq _)] at ht
      cases ht

end Chained

/-- **The best chain of a node that has checked every block** is a chain of connected blocks. -/
theorem exists_connectedChain {calls : List Handed}
    (hr : Runs.Run (handOver env) InOrder (createChainState env) calls chain) :
    ∃ blocks, ConnectedChain env (PassesContext env.prim) blocks chain.tip chain.utxoSet := by
  refine (hr.invariant (Chained.createChainState env) ?_).connected
  exact fun _ _ _ h hok hs => h.handOver hok hs

instance (chain : BlockChain env.prim) : ∀ handed, Decidable (InOrder chain handed)
  | .block _ _ => inferInstanceAs (Decidable (_ = true))
  | .syncBlock _ => instDecidableFalse

theorem exists_connectedChain_sampleBlock : ∃ chain, Runs.Run (handOver sampleEnv) InOrder
      (createChainState sampleEnv) [.block ∅ { msgBlock := sampleBlock }] chain ∧
    chain.tip.height = 1 ∧ ∃ blocks,
      ConnectedChain sampleEnv (PassesContext sampleEnv.prim) blocks chain.tip chain.utxoSet :=
  Runs.exists_run_and (by decide +kernel) fun _ hr _ => exists_connectedChain hr

end BlockChain

/-- A block whose coinbase pays the subsidy. -/
def payingBlock (prevBlock : Hash) (height : UInt8) : Block :=
  let coinbase : MsgTx :=
    { sampleCoinbase height with txOut := [{ value := 5000000000, pkScript := [0x51] }] }
  { msgBlock :=
      { header := sampleHeader prevBlock (coinbase.txHash sampleEnv.prim) height.toNat
        transactions := [coinbase] }
    height := height.toNat }

/-- The node of such a block. -/
def payingNode (parent : BlockNode) (height : UInt8) : BlockNode :=
  newBlockNode sampleEnv.prim (payingBlock parent.hash height).msgBlock.header (some parent) 0

/-- Two blocks that pay the subsidy are connected one after the other. -/
def payTwice : Check UtxoSet := do
  let first := payingNode sampleEnv.genesisNode 1
  let (view, _) ← checkConnectBlock sampleEnv ∅ first (payingBlock sampleEnv.genesisNode.hash 1)
    (.new sampleEnv.genesisNode.hash)
  let utxoSet := UtxoSet.putUtxoView ∅ view
  let (view, _) ← checkConnectBlock sampleEnv utxoSet (payingNode first 2)
    (payingBlock first.hash 2) (.new first.hash)
  pure (utxoSet.putUtxoView view)

theorem connectedChain_payTwice {also : Block → BlockNode → Prop} {utxoSet : UtxoSet}
    (ha : also (payingBlock sampleEnv.genesisNode.hash 1) sampleEnv.genesisNode)
    (ha' : also (payingBlock (payingNode sampleEnv.genesisNode 1).hash 2)
      (payingNode sampleEnv.genesisNode 1)) (h : payTwice = .ok utxoSet) :
    ConnectedChain sampleEnv also [payingBlock sampleEnv.genesisNode.hash 1,
        payingBlock (payingNode sampleEnv.genesisNode 1).hash 2]
      (payingNode (payingNode sampleEnv.genesisNode 1) 2) utxoSet := by
  obtain ⟨⟨view, stxos⟩, hc, h⟩ := bind_eq_ok.1 h
  obtain ⟨⟨view', stxos'⟩, hc', h⟩ := bind_eq_ok.1 h
  obtain rfl := pure_eq_ok.1 h
  have hs : checkBlockSanity sampleEnv.prim ∅ (payingBlock sampleEnv.genesisNode.hash 1).msgBlock
      0 (2 ^ 256) = .ok () := by
    decide +kernel
  have hs' : checkBlockSanity sampleEnv.prim ∅
      (payingBlock (payingNode sampleEnv.genesisNode 1).hash 2).msgBlock 0 (2 ^ 256) = .ok () := by
    decide +kernel
  exact .connect (.connect .genesis ha hs hc) ha' hs' hc'

end DrcNode
