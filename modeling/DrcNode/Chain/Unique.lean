import DrcNode.Chain.Connected

/-!
# Transaction hashes are unique

`checkBIP0030` is never run on the main network, and it is not needed there. A transaction that
spends something cannot be in the chain twice, because its inputs are gone. A coinbase spends
nothing, but the script of its input starts with the height of its block. So no hash is used twice,
and no output that is added is one that exists already.

The hash is taken to be injective on the transactions of the chain, up to their witnesses.

## Main results

* `txHash_unique`.
-/

namespace DrcNode

open List MsgTx

open Ledger

/-- The transaction without its witnesses. -/
def MsgTx.withoutWitness (msgTx : MsgTx) : MsgTx :=
  { msgTx with txIn := msgTx.txIn.map fun txIn => { txIn with witness := [] } }

/-- The hash tells the transactions apart, up to their witnesses. -/
def HashInjective (prim : Primitives) (transactions : List MsgTx) : Prop :=
  ∀ tx ∈ transactions, ∀ tx' ∈ transactions, tx.txHash prim = tx'.txHash prim →
    tx.withoutWitness = tx'.withoutWitness

/-- The transactions of a chain, in order. -/
def history (blocks : List Block) : List MsgTx :=
  blocks.flatMap fun block => block.msgBlock.transactions

/-! ### What does not depend on the witnesses -/

section Witness

variable (tx : MsgTx)

theorem isCoinBaseTx_withoutWitness : isCoinBaseTx tx.withoutWitness = isCoinBaseTx tx := by
  rw [isCoinBaseTx, isCoinBaseTx, withoutWitness]
  rcases tx.txIn with _ | ⟨txIn, _ | ⟨txIn', rest⟩⟩ <;> rfl

theorem spends_withoutWitness : tx.withoutWitness.spends = tx.spends := by
  rw [spends, isCoinBaseTx_withoutWitness, withoutWitness, map_map]
  rfl

theorem extractCoinbaseHeight_withoutWitness :
    extractCoinbaseHeight tx.withoutWitness = extractCoinbaseHeight tx := by
  rw [extractCoinbaseHeight, extractCoinbaseHeight, withoutWitness]
  cases tx.txIn <;> rfl

end Witness

/-! ### Transactions with the same hash -/

variable {env : Env} {prim : Primitives} {transactions : List MsgTx} {tx tx' : MsgTx}
  {blocks : List Block} {block : Block} {tip node : BlockNode} {utxoSet : UtxoSet}

/-- If the two have the same hash, the second one spends what the first one has spent. -/
def Respends (prim : Primitives) (tx tx' : MsgTx) : Prop :=
  tx.txHash prim = tx'.txHash prim → tx.spends = tx'.spends ∧ tx'.spends ≠ []

theorem HashInjective.mono {transactions' : List MsgTx} (h : HashInjective prim transactions')
    (hs : transactions ⊆ transactions') : HashInjective prim transactions :=
  fun tx htx tx' htx' => h tx (hs htx) tx' (hs htx')

theorem spends_ne_nil (hsane : checkTransactionSanity tx = .ok ())
    (hc : isCoinBaseTx tx = false) : tx.spends ≠ [] := by
  rw [checkTransactionSanity, Checked.bind_eq_ok] at hsane
  obtain ⟨⟨⟩, hi, -⟩ := hsane
  rw [spends, hc]
  exact fun hn => require_eq_ok.1 hi (map_eq_nil_iff.1 hn)

theorem respends_of_isCoinBaseTx_eq_false (hinj : HashInjective prim transactions)
    (htx : tx ∈ transactions) (htx' : tx' ∈ transactions)
    (hsane : checkTransactionSanity tx' = .ok ()) (hc : isCoinBaseTx tx' = false) :
    Respends prim tx tx' := by
  intro hh
  have hs := hinj tx htx tx' htx' hh
  refine ⟨?_, spends_ne_nil hsane hc⟩
  rw [← spends_withoutWitness tx, hs, spends_withoutWitness]

theorem extractCoinbaseHeight_of_passesContext (hsane : BodySane prim block.msgBlock)
    (hc : PassesContext prim block tip) (htx : tx ∈ block.msgBlock.transactions)
    (hco : isCoinBaseTx tx = true) :
    ∃ height, extractCoinbaseHeight tx = .ok height ∧ height.toInt = tip.height + 1 := by
  obtain ⟨coinbaseTx, txs, ht, -, ho⟩ := hsane.first_coinbase
  have hf : tx = coinbaseTx := by
    rw [ht] at htx
    obtain hf | hot := mem_cons.1 htx
    · exact hf
    · exact absurd ((ho tx hot).symm.trans hco) Bool.false_ne_true
  rw [PassesContext, checkBlockContext, ht] at hc
  simp only [Checked.bind_eq_ok, require_eq_ok, exists_const, checkSerializedHeight] at hc
  obtain ⟨-, -, -, height, hh, heq⟩ := hc
  exact ⟨height, hf ▸ hh, heq⟩

theorem pairwise_respends (hsane : BodySane prim block.msgBlock)
    (hinj : HashInjective prim block.msgBlock.transactions) :
    block.msgBlock.transactions.Pairwise (Respends prim) := by
  obtain ⟨coinbaseTx, txs, ht, -, ho⟩ := hsane.first_coinbase
  have hl : ∀ tx ∈ coinbaseTx :: txs, ∀ tx' ∈ txs, Respends prim tx tx' := by
    intro tx htx tx' htx'
    have hm : tx' ∈ block.msgBlock.transactions := ht ▸ mem_cons_of_mem _ htx'
    exact respends_of_isCoinBaseTx_eq_false hinj (ht ▸ htx) hm
      (hsane.transaction_sane tx' hm) (ho tx' htx')
  rw [ht, pairwise_cons]
  exact ⟨hl coinbaseTx mem_cons_self, pairwise_of_forall_mem_list fun tx htx =>
    hl tx (mem_cons_of_mem _ htx)⟩

/-! ### Chains -/

section Chain

theorem history_append_singleton :
    history (blocks ++ [block]) = history blocks ++ block.msgBlock.transactions := by
  rw [history, flatMap_append, flatMap_singleton, ← history]

/-- Transactions that are made after others, and are repeated only with their inputs, keep the
outputs accounted for. -/
theorem traced_applyBlock {done txs : List MsgTx} {height : Nat} {coins coins' : UtxoSet}
    (h : Traced OutPoint.hash (done.map fun tx => (tx.txHash env.prim, tx.spends)) coins)
    (ha : applyBlock env height coins txs = some coins')
    (hp : (done ++ txs).Pairwise (Respends env.prim)) :
    Traced OutPoint.hash ((done ++ txs).map fun tx => (tx.txHash env.prim, tx.spends)) coins' := by
  have hn : txs.map (fun tx => (tx.txHash env.prim, tx.spends)) =
      (txs.map fun tx => (tx.txHash env.prim, tx.transfer env height)).map
        fun new => (new.1, new.2.inputs) := by
    rw [map_map]
    rfl
  rw [map_append, hn]
  refine h.applyAll (by rw [map_map]; exact ha) ?_ ?_
  · intro new hnw out ho
    obtain ⟨tx, -, rfl⟩ := mem_map.1 hnw
    exact (mem_coins ho).1
  · rw [← hn, ← map_append]
    exact pairwise_map.2 hp

namespace ConnectedChain

section

variable (h : ConnectedChain env (PassesContext env.prim) blocks tip utxoSet)
include h

theorem coinbase_height_le :
    ∀ tx ∈ history blocks, isCoinBaseTx tx = true →
      ∃ height, extractCoinbaseHeight tx = .ok height ∧ height.toInt ≤ tip.height := by
  induction h with
  | genesis =>
    intro tx htx
    cases htx
  | @connect blocks tip utxoSet block _ _ _ votes _ _ _ hco hsane _ ih =>
    intro tx htx hc
    have hn : (newBlockNode env.prim block.msgBlock.header (some tip) votes).height =
        tip.height + 1 := rfl
    rw [history_append_singleton] at htx
    obtain ho | hnw := mem_append.1 htx
    · obtain ⟨height, hh, hle⟩ := ih tx ho hc
      exact ⟨height, hh, by omega⟩
    · obtain ⟨height, hh, heq⟩ := extractCoinbaseHeight_of_passesContext
        (bodySane_of_checkBlockSanity hsane) hco hnw hc
      exact ⟨height, hh, by omega⟩

theorem txHash_coinbase_ne (hinj : HashInjective env.prim
    (history blocks ++ block.msgBlock.transactions))
    (hsane : BodySane env.prim block.msgBlock) (hco : PassesContext env.prim block tip)
    (htx : tx ∈ history blocks) (htx' : tx' ∈ block.msgBlock.transactions)
    (hc : isCoinBaseTx tx' = true) : tx.txHash env.prim ≠ tx'.txHash env.prim := by
  intro hha
  have hs := hinj tx (mem_append_left _ htx) tx' (mem_append_right _ htx') hha
  have hc' : isCoinBaseTx tx = true := by
    rw [← isCoinBaseTx_withoutWitness, hs, isCoinBaseTx_withoutWitness, hc]
  obtain ⟨height, hh, hle⟩ := h.coinbase_height_le tx htx hc'
  obtain ⟨height', hh', heq⟩ := extractCoinbaseHeight_of_passesContext hsane hco htx' hc
  rw [← extractCoinbaseHeight_withoutWitness, hs, extractCoinbaseHeight_withoutWitness, hh'] at hh
  cases hh
  omega

/-- **Transactions of a chain that have the same hash spend the same outputs.** -/
theorem pairwise_history (hinj : HashInjective env.prim (history blocks)) :
    (history blocks).Pairwise (Respends env.prim) := by
  induction h with
  | genesis => exact List.Pairwise.nil
  | connect hch hco hsane _ ih =>
    have hb := bodySane_of_checkBlockSanity hsane
    rw [history_append_singleton] at hinj ⊢
    refine pairwise_append.2 ⟨ih (hinj.mono (subset_append_left _ _)),
      pairwise_respends hb (hinj.mono (subset_append_right _ _)), ?_⟩
    intro tx htx tx' htx'
    cases hc : isCoinBaseTx tx' with
    | true =>
      intro hh
      exact absurd hh (hch.txHash_coinbase_ne hinj hb hco htx htx' hc)
    | false =>
      exact respends_of_isCoinBaseTx_eq_false hinj (mem_append_left _ htx)
        (mem_append_right _ htx') (hb.transaction_sane tx' htx') hc

end

section

variable (hbip : env.params.bip0034Height ≤ 0) (h : ConnectedChain env
  (PassesContext env.prim) blocks tip utxoSet) (hinj : HashInjective env.prim (history blocks))
include hbip h hinj

/-- **The unspent outputs are accounted for** by the transactions of the chain. -/
theorem traced :
    Traced OutPoint.hash ((history blocks).map fun tx => (tx.txHash env.prim, tx.spends))
      utxoSet := by
  have hp := h.pairwise_history hinj
  clear hinj
  induction h with
  | genesis => exact Traced.empty OutPoint.hash
  | connect hch _ hsane hc ih =>
    rw [history_append_singleton] at hp ⊢
    exact traced_applyBlock (ih (pairwise_append.1 hp).1)
      (applyBlock_of_checkConnectBlock (hbip.trans (Int.natCast_nonneg _)) hch.stored
        (bodySane_of_checkBlockSanity hsane) hc) hp

theorem nodup_history : ((history blocks).map (txHash env.prim)).Nodup := by
  have hn := (h.traced hbip hinj).nodup
  rwa [map_map] at hn

end

end ConnectedChain

/-! ### Nothing is overwritten -/

/-- **Nothing is overwritten** when a block is connected, but for entries that `fetchInputUtxos` has
put into the view in advance. -/
structure NoOverwrite (env : Env) (utxoSet : UtxoSet) (tip node : BlockNode) (block : Block) :
    Prop where
  stored : ∀ outpoint ∈ utxoSet,
    outpoint.hash ∉ block.msgBlock.transactions.map (txHash env.prim)
  view : ∀ before tx after state, block.msgBlock.transactions = before ++ tx :: after →
    connecting env utxoSet tip node block before = .ok state →
    ∀ outpoint entry, outpoint.hash = tx.txHash env.prim →
      state.view.lookupEntry outpoint = some entry → entry.isSpent = false →
      ∃ blockHeight, (outpoint, entry.clean) ∈ tx.coins env.prim blockHeight
  outputs : ∀ tx ∈ block.msgBlock.transactions, ∀ blockHeight,
    ((tx.coins env.prim blockHeight).map Prod.fst).Nodup

theorem length_txOut_lt (h : checkTransactionSanity tx = .ok ()) : tx.txOut.length < 2 ^ 32 := by
  simp only [checkTransactionSanity, Checked.bind_eq_ok, require_eq_ok, exists_const] at h
  obtain ⟨-, -, hs, -⟩ := h
  have hl : (tx.txOut.map fun txOut => txOut.serializeSize).length ≤
      (tx.txOut.map fun txOut => txOut.serializeSize).sum := by
    refine length_le_sum_of_one_le _ fun size hs => ?_
    obtain ⟨txOut, -, rfl⟩ := mem_map.1 hs
    rw [TxOut.serializeSize]
    omega
  have hm : maxBlockBaseSize < 2 ^ 32 := by decide
  rw [length_map] at hl
  rw [baseSize] at hs
  omega

theorem nodup_fst_coins (blockHeight : Int) (h : checkTransactionSanity tx = .ok ()) :
    ((tx.coins prim blockHeight).map Prod.fst).Nodup := by
  have hi : tx.txOut.zipIdx.Pairwise fun out out' => out.2 ≠ out'.2 := by
    rw [← pairwise_map (f := Prod.snd), zipIdx_map_snd]
    exact nodup_range'
  rw [List.Nodup, pairwise_map, coins, pairwise_filterMap]
  refine hi.imp_of_mem fun {out out'} ho ho' hne coin hc coin' hc' heq => hne ?_
  split_ifs at hc hc'
  cases hc
  cases hc'
  have hlt : tx.txOut.length < UInt32.size := length_txOut_lt h
  have ho := snd_lt_of_mem_zipIdx ho
  have ho' := snd_lt_of_mem_zipIdx ho'
  have hin : (UInt32.ofNat out.2).toNat = (UInt32.ofNat out'.2).toNat :=
    congrArg (fun o : OutPoint => o.index.toNat) heq
  rwa [UInt32.toNat_ofNat_of_lt' (by omega), UInt32.toNat_ofNat_of_lt' (by omega)] at hin

variable (hbip : env.params.bip0034Height ≤ 0)
  (h : ConnectedChain env (PassesContext env.prim) blocks tip utxoSet)
  (hinj : HashInjective env.prim (history blocks ++ block.msgBlock.transactions))
  (hsane : BodySane env.prim block.msgBlock)

include hbip h hinj hsane in
theorem noOverwrite_of_nodup
    (hn : ((history blocks ++ block.msgBlock.transactions).map (txHash env.prim)).Nodup) :
    NoOverwrite env utxoSet tip node block := by
  have htr := h.traced hbip (hinj.mono (subset_append_left _ _))
  have hst : ∀ outpoint ∈ utxoSet,
      outpoint.hash ∉ block.msgBlock.transactions.map (txHash env.prim) := by
    intro o ho hme
    have hor := htr.origin_mem o ho
    rw [map_map] at hor
    rw [map_append] at hn
    exact disjoint_of_nodup_append hn hor hme
  refine ⟨hst, ?view, fun tx htx height => nodup_fst_coins height (hsane.transaction_sane tx htx)⟩
  case view =>
    intro before tx after state hs hse o entry hh he hu
    obtain ⟨needed, -, ht⟩ := exists_tracks_connecting h.stored hsane
    obtain ⟨coins, hap, ht⟩ := ht before (tx :: after) state hs hse
    have hd := hsane.txHash_nodup
    rw [hs, map_append] at hd
    have ha : tx.txHash env.prim ∉ after.map (txHash env.prim) :=
      (nodup_cons.1 hd.of_append_right).1
    have hnm : o ∉ needed := by
      intro hnd
      have hc := ht.settled he (.inr hnd)
      rw [hu] at hc
      refine hash_notMem_rest hs hsane.txHash_nodup hst hap (Finmap.mem_of_lookup_eq_some hc) ?_
      exact hh ▸ mem_cons_self
    obtain ⟨tx', htx', height, coin, hc, rfl⟩ := ht.early hnm (hh ▸ mem_cons_self) he
    obtain ⟨hh', -, hm⟩ := mem_coins hc
    obtain rfl | hl := mem_cons.1 htx'
    · have hcl : coin.fresh.clean = coin := UtxoEntry.clean_eq_self hm
      exact ⟨height, hcl ▸ hc⟩
    · refine absurd ?_ ha
      rw [← hh, hh']
      exact mem_map_of_mem hl

end Chain

/-- **Transaction hashes are unique**, although `checkBIP0030` is not run, and a further block
overwrites no unspent output. -/
theorem txHash_unique {prim : Primitives} {genesisBlock : MsgBlock} {blocks : List Block}
    {tip : BlockNode} {utxoSet : UtxoSet}
    (h : ConnectedChain (.mainNet prim genesisBlock) (PassesContext prim) blocks tip utxoSet)
    (hinj : HashInjective prim (history blocks)) :
    ((history blocks).map (txHash prim)).Nodup ∧
    ∀ block current seed pi votes view stxos,
      checkBlockSanity prim current block.msgBlock seed pi = .ok () →
      checkBlockContext prim block tip = .ok () →
      checkConnectBlock (.mainNet prim genesisBlock) utxoSet
        (newBlockNode prim block.msgBlock.header (some tip) votes) block (.new tip.hash) =
          .ok (view, stxos) →
      HashInjective prim (history (blocks ++ [block])) →
      NoOverwrite (.mainNet prim genesisBlock) utxoSet tip
        (newBlockNode prim block.msgBlock.header (some tip) votes) block := by
  have hbip : (Env.mainNet prim genesisBlock).params.bip0034Height ≤ 0 := le_rfl
  refine ⟨h.nodup_history hbip hinj, ?_⟩
  intro block current seed pi votes view stxos hsane hco hc hinj'
  have hn := (ConnectedChain.connect h hco hsane hc).nodup_history hbip hinj'
  rw [history_append_singleton] at hinj' hn
  exact noOverwrite_of_nodup hbip h hinj' (bodySane_of_checkBlockSanity hsane) hn

theorem txHash_unique_payTwice : ∃ blocks tip utxoSet,
    ConnectedChain (.mainNet .polynomial sampleEnv.params.genesisBlock) (PassesContext .polynomial)
      blocks tip utxoSet ∧ (history blocks).length = 2 ∧
    ((history blocks).map (txHash .polynomial)).Nodup := by
  have hp : payTwice.map (fun _ => ()) = .ok () := by
    decide +kernel
  obtain ⟨utxoSet, hu, -⟩ := Checked.map_eq_ok.1 hp
  have hc := @connectedChain_payTwice (PassesContext .polynomial) utxoSet
    (by rw [PassesContext]; decide +kernel) (by rw [PassesContext]; decide +kernel) hu
  refine ⟨_, _, utxoSet, hc, rfl, (txHash_unique hc ?_).1⟩
  rw [HashInjective]
  decide +kernel

end DrcNode
