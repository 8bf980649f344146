import DrcNode.Chain.Connected

/-!
# Connecting a block refines the ledger

Leaving its rules on amounts, lock times, signature operations and scripts aside,
`checkConnectBlock` accepts a block exactly when the reference does, and the view that is written
back is the set the reference leaves. Two things are left to `checkBlockSanity`: an output which one
transaction lists twice is spent once and counted twice, and the inputs of the first transaction are
not loaded.

## Main results

* `checkConnectBlock_refines`.
-/

namespace DrcNode

open Checked List Option MsgTx

open Ledger

/-! ### The rules that are left aside -/

/-- The errors of the rules on amounts, lock times, signature operations and scripts. -/
def ErrorCode.isAside : ErrorCode → Bool
  | .errBadTxOutValue | .errSpendTooHigh | .errBadFees | .errBadCoinbaseValue
  | .errUnfinalizedTx | .errTooManySigOps | .errScriptMalformed | .errScriptValidation => true
  | _ => false

/-- The check fails only by one of these rules. -/
abbrev FailsAside {α : Type} (c : Check α) : Prop :=
  FailsOnly (fun fault => ∃ code : ErrorCode, code.isAside = true ∧
    fault = .error (.ruleError code)) c

variable {code : ErrorCode}

theorem failsAside_ruleError {α : Type} (h : code.isAside = true) :
    FailsAside (ruleError code : Check α) :=
  fun _ heq => ⟨code, h, (Except.error.inj heq).symm⟩

theorem failsAside_require {p : Prop} [Decidable p] (h : code.isAside = true) :
    FailsAside (require p code) := by
  unfold require
  split_ifs
  · exact .ok
  · exact failsAside_ruleError h

theorem failsAside_require_of {p : Prop} [Decidable p] (h : p) : FailsAside (require p code) :=
  .of_eq_ok (a := ()) (require_eq_ok.2 h)

section Aside

variable {env : Env} {height : Nat} {view view' : UtxoViewpoint} {tx : MsgTx} {state : Connecting}
  {txs : List MsgTx}

theorem failsAside_checkTransactionInputs (h : ∀ o ∈ tx.spends, Spendable env height view o) :
    FailsAside (checkTransactionInputs env tx height view) := by
  rw [checkTransactionInputs]
  rw [spends] at h
  split_ifs at h ⊢
  · exact .ok
  refine (FailsOnly.foldlM fun total txIn hme => ?_).bind fun _ _ =>
    (failsAside_require rfl).bind fun _ _ => .ok
  obtain ⟨entry, he, hs, hm⟩ := h _ (mem_map_of_mem hme)
  rw [addInput, he]
  exact (failsAside_require_of hs).seq <|
    (failsAside_require_of (matured_eq_true_iff.1 hm)).seq <|
      (failsAside_require rfl).seq <| (failsAside_require rfl).seq <|
        (failsAside_require rfl).seq .ok

theorem failsAside_connectTx (h : connectUtxos env height state.view tx = .ok view') :
    FailsAside (connectTx env height state tx) := by
  have hs := (connectUtxos_eq_ok h).1
  obtain ⟨out, hou⟩ := UtxoViewpoint.exists_connectTransaction env.prim height
    (state.view, state.stxos) fun o ho => (hs o ho).imp fun _ => And.left
  exact (failsAside_checkTransactionInputs hs).bind fun _ _ =>
    (failsAside_require rfl).bind fun _ _ => (FailsOnly.of_eq_ok hou).bind fun _ _ => .ok

theorem failsAside_foldlM_connectTx
    (h : txs.foldlM (connectUtxos env height) state.view = .ok view') :
    FailsAside (txs.foldlM (connectTx env height) state) := by
  induction txs generalizing state with
  | nil => exact .ok
  | cons tx txs ih =>
    rw [foldlM_cons, bind_eq_ok] at h
    obtain ⟨view₁, hc, h⟩ := h
    refine (failsAside_connectTx hc).bind fun state' hs' => ih ?_
    cases (connectUtxos_of_connectTx hs').symm.trans hc
    exact h

theorem failsAside_checkBlockScripts {prim : Primitives} {block : Block} {flags : UInt32}
    (h : ∀ tx ∈ block.msgBlock.transactions, ∀ o ∈ tx.spends, view.lookupEntry o ≠ none) :
    FailsAside (checkBlockScripts prim block view flags) := by
  refine .forM fun tx htx => .forM fun txIn ht => ?_
  have hm : txIn.1 ∈ tx.txIn := fst_mem_of_mem_zipIdx ht
  rw [checkInputScript]
  split_ifs with hi
  · exact .ok
  have hc : isCoinBaseTx tx = false := by
    rw [isCoinBaseTx]
    split
    · rename_i txIn' ht'
      rw [ht', mem_singleton] at hm
      rw [← hm, isNullOutpoint, Bool.and_eq_false_iff]
      exact .inl (beq_false_of_ne hi)
    · rfl
  have hp := h tx htx txIn.1.previousOutPoint (by
    rw [spends, hc]
    exact mem_map_of_mem hm)
  split
  · rename_i hn
    exact absurd hn hp
  · split
    · exact .ok
    · exact failsAside_ruleError rfl
    · exact failsAside_ruleError rfl

end Aside

/-! ### The rules on unspent outputs and the reference -/

section Refinement

variable {env : Env} {utxoSet utxoSet' : UtxoSet} {node : BlockNode} {block : Block}
  {view view' : UtxoViewpoint} {coinbaseTx : MsgTx} {txs : List MsgTx}

/-- A block that is connected obeys the rules on unspent outputs, and the view is the same. -/
theorem checkConnectUtxos_of_checkConnectBlock {stxos : List SpentTxOut}
    (hb : env.params.bip0034Height ≤ node.height)
    (h : checkConnectBlock env utxoSet node block view = .ok (view', stxos)) :
    checkConnectUtxos env utxoSet node block view = .ok view' := by
  obtain ⟨-, -, coinbaseTx, txs, parent, state, ht, -, hf, -, -, rfl, -⟩ :=
    checkConnectBlock_eq_ok hb h
  rw [checkConnectUtxos, ht]
  exact bind_eq_ok.2 ⟨state.view, foldlM_simulates Connecting.view
    (fun _ _ _ _ => connectUtxos_of_connectTx) hf, rfl⟩

/-- **What can be wrong with a block that obeys the rules on unspent outputs** is one of the rules
that are left aside. -/
theorem failsAside_checkConnectBlock {parent : BlockNode}
    (hbi : env.params.bip0034Height ≤ node.height) (hg : node.hash ≠ env.genesisHash)
    (hb : view.bestHash = block.msgBlock.header.prevBlock) (hpa : node.parent = some parent)
    (h : checkConnectUtxos env utxoSet node block view = .ok view') :
    FailsAside (checkConnectBlock env utxoSet node block view) := by
  rw [checkConnectUtxos] at h
  split at h
  · cases h
  rename_i coinbaseTx txs ht
  rw [bind_eq_ok] at h
  obtain ⟨view₁, hf, -⟩ := h
  rw [checkConnectBlock, ht, hpa]
  refine (failsAside_require_of hg).seq ?_
  rw [if_neg (not_not.2 hb), if_neg fun ha => absurd ha.2 (not_lt.2 hbi)]
  refine FailsOnly.ok.bind fun _ hpu => ?_
  cases hpu
  refine (FailsOnly.foldlM fun _ _ _ => (failsAside_require rfl).seq .ok).bind
    fun _ _ => (failsAside_foldlM_connectTx hf).bind fun state hs => ?_
  refine (failsAside_require rfl).seq <| (failsAside_require rfl).seq <|
    (failsAside_checkBlockScripts ?_).seq .ok
  rw [ht]
  intro tx htx o ho
  obtain ⟨entry, he⟩ := exists_lookupEntry_foldlM_connectTx hs (.inr (mem_flatMap.2 ⟨tx, htx,
    ho⟩))
  exact he ▸ some_ne_none entry

/-- **The rules on unspent outputs are the reference.** -/
theorem checkConnectUtxos_iff {bestHash : Hash} (hs : utxoSet.Stored)
    (htr : block.msgBlock.transactions = coinbaseTx :: txs) (hc : isCoinBaseTx coinbaseTx = true)
    (hi : ∀ tx ∈ txs, (tx.txIn.map TxIn.previousOutPoint).Nodup)
    (hn : ((coinbaseTx :: txs).map (txHash env.prim)).Nodup)
    (hfr : ∀ o ∈ utxoSet, o.hash ∉ (coinbaseTx :: txs).map (txHash env.prim)) :
    (∃ view', checkConnectUtxos env utxoSet node block (.new bestHash) = .ok view' ∧
        utxoSet.putUtxoView view' = utxoSet') ↔
      applyBlock env node.height utxoSet (coinbaseTx :: txs) = some utxoSet' := by
  have hl := loaded_fetchInputUtxos env.prim block.height utxoSet coinbaseTx txs bestHash
  have ht := tracks_of_loaded hs hl
  have hco := covered_of_loaded hc hl
  have hsp : ∀ tx ∈ coinbaseTx :: txs, tx.spends.Nodup := by
    refine forall_mem_cons.2 ⟨?_, fun tx htx => ?_⟩
    · rw [spends, if_pos hc]
      exact nodup_nil
    · rw [spends]
      split_ifs
      · exact nodup_nil
      · exact hi tx htx
  have hu : ∀ view', checkConnectUtxos env utxoSet node block (.new bestHash) = .ok view' ↔
      ∃ view₁, (coinbaseTx :: txs).foldlM (connectUtxos env node.height)
          ((UtxoViewpoint.new bestHash).fetchInputUtxos env.prim utxoSet (coinbaseTx :: txs)
            block.height) = .ok view₁ ∧ { view₁ with bestHash := node.hash } = view' := by
    intro view'
    rw [checkConnectUtxos, htr]
    simp only [bind_eq_ok, pure_eq_ok]
  -- the fold in the view gives the fold in the ledger, with the same set in the end
  have hfo : ∀ view₁, (coinbaseTx :: txs).foldlM (connectUtxos env node.height)
      ((UtxoViewpoint.new bestHash).fetchInputUtxos env.prim utxoSet (coinbaseTx :: txs)
        block.height) = .ok view₁ →
      applyBlock env node.height utxoSet (coinbaseTx :: txs) =
        some (utxoSet.putUtxoView view₁) := by
    intro view₁ hf
    obtain ⟨coins, hal, ht'⟩ := Tracks.applyAll_of_foldlM hn hco hsp ht (append_nil _).symm hf
    rw [ht'.putUtxoView_eq hs]
    exact hal
  constructor
  · rintro ⟨view', hut, rfl⟩
    obtain ⟨view₁, hf, rfl⟩ := (hu view').1 hut
    exact hfo view₁ hf
  · intro ha
    obtain ⟨view₁, hf⟩ := ht.foldlM_of_applyAll hn hco hfr (nil_append _).symm ha
    refine ⟨_, (hu _).2 ⟨view₁, hf, rfl⟩, ?_⟩
    exact Option.some.inj ((hfo view₁ hf).symm.trans ha)

/-! ### Forward references and double spends -/

/-- A transaction spends an output of itself or of a later one. -/
def ForwardReference (prim : Primitives) (transactions : List MsgTx) : Prop :=
  ∃ before tx after, transactions = before ++ tx :: after ∧
    ∃ o ∈ tx.spends, o.hash ∈ (tx :: after).map (txHash prim)

/-- Two transactions spend the same output. -/
def DoubleSpend (transactions : List MsgTx) : Prop :=
  ∃ before tx after, transactions = before ++ tx :: after ∧
    ∃ o ∈ tx.spends, ∃ tx' ∈ after, o ∈ tx'.spends

variable {height : Nat} {coins : UtxoSet} {before : List MsgTx}

/-- **The reference rejects forward references and double spends.** -/
theorem applyBlock_eq_none {transactions : List MsgTx}
    (hno : (transactions.map (txHash env.prim)).Nodup)
    (hfr : ∀ o ∈ utxoSet, o.hash ∉ transactions.map (txHash env.prim))
    (h : ForwardReference env.prim transactions ∨ DoubleSpend transactions) :
    applyBlock env height utxoSet transactions = none := by
  -- in both cases one of the transactions is looked at with the coins before it
  have hca : ∀ before tx after, transactions = before ++ tx :: after →
      (∀ coins coins', applyAll utxoSet (before.map (transfer env height)) = some coins →
        (tx.transfer env height).apply coins = some coins' →
        applyAll coins' (after.map (transfer env height)) = none) →
      applyBlock env height utxoSet transactions = none := by
    intro before tx after ht hnn
    rw [applyBlock, ht, map_append, applyAll_append]
    cases hb : applyAll utxoSet (before.map (transfer env height)) with
    | none => rfl
    | some coins =>
      rw [bind_some, map_cons, applyAll_cons]
      cases hf : (tx.transfer env height).apply coins with
      | none => rfl
      | some coins' => exact hnn coins coins' hb hf
  obtain ⟨before, tx, after, ht, o, ho, hl⟩ | ⟨before, tx, after, ht, o, ho, tx', htx', ho'⟩ := h
  all_goals
    refine hca before tx after ht fun coins coins' hb hf => ?_
    obtain ⟨coin, hco, -⟩ := (Transfer.apply_eq_some_iff.1 hf).2.1 o ho
    have hn := hash_notMem_rest ht hno hfr hb (Finmap.mem_of_lookup_eq_some hco)
  · exact absurd hl hn
  · -- the output is gone, and nobody creates it again
    have hc : ∀ tx'' ∈ tx :: after, o ∉ (tx''.transfer env height).outputs.map Prod.fst := by
      intro tx'' htx'' hou
      obtain ⟨⟨_, coin'⟩, hco', rfl⟩ := mem_map.1 hou
      exact hn ((mem_coins hco').1 ▸ mem_map_of_mem htx'')
    have hg : o ∉ coins' := by
      rw [← Finmap.lookup_eq_none, Transfer.lookup_of_apply hf,
        created_eq_none_iff.2 (hc tx mem_cons_self)]
      exact if_pos ho
    refine applyAll_eq_none hg (fun transfer htr => ?_) ⟨_, mem_map_of_mem htx', ho'⟩
    obtain ⟨tx'', htx'', rfl⟩ := mem_map.1 htr
    exact hc tx'' (mem_cons_of_mem tx htx'')

/-! ### Both together -/

theorem utxoSet_connectBestChain {chain chain' : BlockChain env.prim} {result : Except GoError Bool}
    (hr : ∀ out, checkConnectBlock env chain.utxoSet node block
      (.new block.msgBlock.header.prevBlock) ≠ .ok out)
    (h : BlockChain.connectBestChain env chain node block = .ok (chain', result)) :
    chain'.utxoSet = chain.utxoSet := by
  rw [BlockChain.connectBestChain] at h
  split_ifs at h
  · split at h
    · rename_i out ho
      exact absurd ho (hr _)
    · cases h
      rfl
    · cases h
      rfl
    · cases h
  · cases h
    rfl

end Refinement

/-- An output in the database. -/
def storedOutPoint : OutPoint := ⟨77, 0⟩

/-- The output is worth five. -/
def storedUtxos : UtxoSet :=
  Finmap.singleton storedOutPoint
    { amount := 5, pkScript := [0x51], blockHeight := 0, isCoinBase := false }

/-- A transaction with the given inputs and one output. -/
def samplePayment (inputs : List OutPoint) (value : Int64) : MsgTx where
  version := 1
  txIn := inputs.map fun outpoint => ⟨outpoint, [], [], 0xffffffff⟩
  txOut := [⟨value, [0x51]⟩]
  lockTime := 0

/-- A block on top of the genesis block with the given transactions. -/
def paymentBlock (transactions : List MsgTx) : Block where
  msgBlock := { header := sampleHeader sampleEnv.genesisHash 0 1, transactions }
  height := 1

/-- The node of such a block. -/
def paymentNode : BlockNode :=
  newBlockNode sampleEnv.prim (sampleHeader sampleEnv.genesisHash 0 1)
    (some sampleEnv.genesisNode) 0

theorem lookup_storedUtxos {o : OutPoint} {coin : UtxoEntry}
    (h : storedUtxos.lookup o = some coin) : o = storedOutPoint ∧ coin =
      { amount := 5, pkScript := [0x51], blockHeight := 0, isCoinBase := false } :=
  lookup_singleton_cases h

theorem stored_storedUtxos : storedUtxos.Stored := by
  intro o coin h
  obtain ⟨-, rfl⟩ := lookup_storedUtxos h
  exact ⟨rfl, rfl⟩

end DrcNode
