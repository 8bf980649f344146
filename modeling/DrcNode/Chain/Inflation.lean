import DrcNode.Chain.Connected
import DrcNode.Library.Sums

/-!
# No inflation

The unspent outputs of a chain are worth at most the subsidies of its blocks. In a block, what the
transactions spend is worth what they create and the fees, and the coinbase creates at most the
subsidy and the fees. The subsidy halves every 210000 blocks, so that the sum stays below
`MaxSatoshi`. All of this is computed in 64 bits, and nothing wraps: the amounts are bounded one by
one, and the fees are bounded because they are paid with outputs that exist.

## Main definitions

* `issued`: the subsidies up to a height.

## Main results

* `no_inflation`.
-/

namespace DrcNode

open Checked List Int64 UtxoEntry Nat

open Ledger Sums

/-- The amount of an entry. -/
def UtxoEntry.value (entry : UtxoEntry) : Nat := entry.amount.toNatClampNeg

/-- What the outputs of a transaction are worth. -/
def MsgTx.outputValue (msgTx : MsgTx) : Nat :=
  (msgTx.txOut.map fun txOut => txOut.value.toNatClampNeg).sum

/-- The amount of an output, as the view has it. -/
def UtxoViewpoint.amountAt (view : UtxoViewpoint) (outpoint : OutPoint) : Int64 :=
  ((view.lookupEntry outpoint).map amount).getD 0

/-- The subsidies of the first `n` blocks after the genesis block. -/
def issued (env : Env) (n : Nat) : Nat :=
  ∑ i ∈ Finset.range n, (calcBlockSubsidy env (i + 1)).toNatClampNeg

/-! ### The subsidy -/

section Subsidy

variable {prim : Primitives} {genesisBlock : MsgBlock}

theorem calcBlockSubsidy_mainNet (height : Nat) :
    0 ≤ calcBlockSubsidy (.mainNet prim genesisBlock) height ∧
      (calcBlockSubsidy (.mainNet prim genesisBlock) height).toNatClampNeg =
        baseSubsidy / 2 ^ (height / 210000) := by
  have hi : (Env.mainNet prim genesisBlock).params.subsidyReductionInterval = 210000 := rfl
  have hh : (height : Int).tdiv ((210000 : Nat) : Int) = (height / 210000 : Nat) := rfl
  have hlt : baseSubsidy / 2 ^ (height / 210000) < 2 ^ 63 :=
    (div_le_self _ _).trans_lt (by decide)
  have heq : calcBlockSubsidy (.mainNet prim genesisBlock) height =
      Int64.ofNat (baseSubsidy / 2 ^ (height / 210000)) := by
    rw [calcBlockSubsidy, hi, if_neg (by decide)]
    rw [hh, if_neg (by omega), Int.toNat_natCast]
  rw [heq]
  refine ⟨?_, toNatClampNeg_ofNat_of_lt hlt⟩
  rw [nonneg_iff, toInt_ofNat_of_lt hlt]
  exact Int.natCast_nonneg _

/-- **All subsidies together are at most `MaxSatoshi`.** -/
theorem issued_le (n : Nat) : issued (.mainNet prim genesisBlock) n ≤ maxSatoshi.toNatClampNeg := by
  have hs : issued (.mainNet prim genesisBlock) n =
      ∑ i ∈ Finset.range n, baseSubsidy / 2 ^ ((i + 1) / 210000) :=
    Finset.sum_congr rfl fun i _ => (calcBlockSubsidy_mainNet (i + 1)).2
  have hh := sum_halving_le (q := 210000) (by decide) baseSubsidy (n + 1)
  rw [Finset.sum_range_succ'] at hh
  rw [hs]
  exact (le_add_right _ _).trans (hh.trans (by decide))

end Subsidy

/-! ### The sums of a transaction -/

section Transaction

variable {env : Env} {height : Nat} {view : UtxoViewpoint} {tx : MsgTx} {total total' fee : Int64}

theorem maxSatoshi_fits : 2 * maxSatoshi.toNatClampNeg < 2 ^ 63 := by decide

theorem adds_of_foldlM_addOutput {outs : List TxOut}
    (h : outs.foldlM addOutput total = .ok total') :
    Adds maxSatoshi total (outs.map TxOut.value) total' := by
  induction outs generalizing total with
  | nil =>
    cases h
    exact .nil
  | cons out outs ih =>
    rw [foldlM_cons, bind_eq_ok] at h
    obtain ⟨total₁, ha, h⟩ := h
    simp only [addOutput, bind_eq_ok, require_eq_ok, exists_const, pure_eq_ok] at ha
    obtain ⟨hn, hm, -, ht, rfl⟩ := ha
    exact .cons hn hm ht (ih h)

theorem adds_of_foldlM_addInput {inputs : List TxIn}
    (h : inputs.foldlM (addInput env height view) total = .ok total') :
    Adds maxSatoshi total ((inputs.map TxIn.previousOutPoint).map view.amountAt) total' := by
  induction inputs generalizing total with
  | nil =>
    cases h
    exact .nil
  | cons txIn inputs ih =>
    rw [foldlM_cons, bind_eq_ok] at h
    obtain ⟨total₁, had, h⟩ := h
    rw [addInput] at had
    split at had
    · cases had
    rename_i utxo hu
    simp only [bind_eq_ok, require_eq_ok, exists_const, pure_eq_ok] at had
    obtain ⟨-, -, hn, hm, ⟨-, ht⟩, rfl⟩ := had
    have ha : view.amountAt txIn.previousOutPoint = utxo.amount := by
      rw [UtxoViewpoint.amountAt, hu, Option.map_some, Option.getD_some]
    rw [map_cons, map_cons, ha]
    exact .cons hn hm ht (ih h)

/-- The outputs of a sane transaction are added up without wrapping, and are not negative. -/
theorem outputs_of_checkTransactionSanity (h : checkTransactionSanity tx = .ok ()) :
    AddsExactly 0 (tx.txOut.map TxOut.value) ∧ (∀ txOut ∈ tx.txOut, 0 ≤ txOut.value) ∧
      0 ≤ totalSatoshiOut tx ∧ totalSatoshiOut tx ≤ maxSatoshi ∧
      (totalSatoshiOut tx).toNatClampNeg = tx.outputValue := by
  simp only [checkTransactionSanity, bind_eq_ok, require_eq_ok, exists_const] at h
  obtain ⟨-, -, -, total, ht, -⟩ := h
  have ha := adds_of_foldlM_addOutput ht
  have hs : totalSatoshiOut tx = total := by
    rw [totalSatoshiOut, ← ha.foldl_eq, foldl_map]
  obtain ⟨he, hn, hv⟩ := ha.spec maxSatoshi_fits (by decide) (by decide)
  rw [hs]
  refine ⟨he, fun txOut hm => ha.nonneg _ (mem_map_of_mem hm), hn, ha.le_bound (by decide), ?_⟩
  rw [hv, map_map]
  exact zero_add _

/-- **The fee of a transaction** is what its inputs are worth, less what its outputs are worth. -/
theorem fee_of_checkTransactionInputs (hsane : checkTransactionSanity tx = .ok ())
    (h : checkTransactionInputs env tx height view = .ok fee) :
    AddsExactly 0 (tx.spends.map view.amountAt) ∧ 0 ≤ fee ∧
      fee.toNatClampNeg ≤ maxSatoshi.toNatClampNeg ∧
      (isCoinBaseTx tx = false → fee.toInt =
        ((tx.spends.map view.amountAt).foldl (· + ·) 0).toInt - (totalSatoshiOut tx).toInt) ∧
      fee.toNatClampNeg + (if isCoinBaseTx tx then 0 else tx.outputValue) =
        (tx.spends.map fun o => (view.amountAt o).toNatClampNeg).sum := by
  rw [checkTransactionInputs] at h
  rw [MsgTx.spends]
  split_ifs at h ⊢ with hc
  · cases h
    exact ⟨trivial, by decide, by decide, fun hf => absurd hc (by simp [hf]), rfl⟩
  obtain ⟨-, -, ho, -, hv⟩ := outputs_of_checkTransactionSanity hsane
  simp only [bind_eq_ok, require_eq_ok, exists_const, pure_eq_ok] at h
  obtain ⟨total, ht, hle, rfl⟩ := h
  have ha := adds_of_foldlM_addInput ht
  obtain ⟨he, hn, hin⟩ := ha.spec maxSatoshi_fits (by decide) (by decide)
  have hs := toInt_sub_of_le total (totalSatoshiOut tx) ho hle
  have hfe : 0 ≤ total - totalSatoshiOut tx := by
    rw [nonneg_iff, hs]
    exact Int.sub_nonneg_of_le (le_iff_toInt_le.1 hle)
  have hm := Adds.toNatClampNeg_le hn (ha.le_bound (by decide))
  have h₁ := cast_toNatClampNeg total hn
  have h₂ := cast_toNatClampNeg _ ho
  have h₃ := cast_toNatClampNeg _ hfe
  refine ⟨he, hfe, by omega, fun _ => by rw [hs, ha.foldl_eq], ?_⟩
  have hsu : ((tx.txIn.map TxIn.previousOutPoint).map fun o =>
      (view.amountAt o).toNatClampNeg).sum = total.toNatClampNeg := by
    rw [hin, map_map, map_map, map_map]
    exact (zero_add _).symm
  omega

end Transaction

/-! ### Connecting the transactions of a block -/

section Block

variable {env : Env} {height : Nat} {utxoSet coins coins' : UtxoSet} {needed : List OutPoint}
  {before rest txs transactions : List MsgTx} {tx coinbaseTx : MsgTx} {state state' : Connecting}
  {fee : Int64} {node tip : BlockNode} {block : Block}

/-- What the coinbases of the transactions create. -/
def minted (transactions : List MsgTx) : Nat :=
  ((transactions.filter isCoinBaseTx).map MsgTx.outputValue).sum

theorem minted_append_singleton : minted (before ++ [tx]) =
    minted before + if isCoinBaseTx tx then tx.outputValue else 0 := by
  rw [minted, filter_append, map_append, List.sum_append, ← minted]
  cases hc : isCoinBaseTx tx <;> simp [hc]

theorem minted_le (hf : ∀ tx ∈ txs, isCoinBaseTx tx = false)
    (hsplit : coinbaseTx :: txs = before ++ rest) : minted before ≤ coinbaseTx.outputValue := by
  cases before with
  | nil => exact zero_le _
  | cons tx before =>
    obtain ⟨rfl, rfl⟩ := List.cons.inj hsplit
    have hn : before.filter isCoinBaseTx = [] :=
      filter_eq_nil_iff.2 fun tx htx =>
        Bool.not_eq_true _ ▸ hf tx (mem_append_left rest htx)
    rw [minted, filter_cons, hn]
    split_ifs
    · exact le_rfl
    · exact zero_le _

theorem sum_coins_le (prim : Primitives) (tx : MsgTx) (blockHeight : Int) :
    ((tx.coins prim blockHeight).map fun out => out.2.value).sum ≤ tx.outputValue := by
  have hs : ∀ n, (((tx.txOut.zipIdx n).filterMap fun out =>
      if isUnspendable out.1.pkScript then none
      else some ((⟨tx.txHash prim, UInt32.ofNat out.2⟩ : OutPoint),
        ({ amount := out.1.value, pkScript := out.1.pkScript, blockHeight
           isCoinBase := isCoinBaseTx tx } : UtxoEntry))).map fun out => out.2.value).sum ≤
      (tx.txOut.map fun txOut => txOut.value.toNatClampNeg).sum := by
    generalize isCoinBaseTx tx = coinbase
    generalize tx.txHash prim = hash
    induction tx.txOut with
    | nil => exact fun _ => le_rfl
    | cons out outs ih =>
      intro n
      have hr := ih (n + 1)
      rw [zipIdx_cons, filterMap_cons, map_cons]
      split_ifs
      · exact hr.trans (Nat.le_add_left _ _)
      · exact Nat.add_le_add_left hr _
  exact hs 0

/-- **The balance while a block is connected.** -/
structure Balanced (env : Env) (utxoSet : UtxoSet) (needed : List OutPoint)
    (before rest : List MsgTx) (state : Connecting) (coins : UtxoSet) : Prop where
  tracks : Tracks env.prim utxoSet needed rest state.view coins
  fees_nonneg : 0 ≤ state.totalFees
  balance : total value coins + state.totalFees.toNatClampNeg ≤
    total value utxoSet + minted before

section Step

variable (hsplit : transactions = before ++ tx :: rest)
  (hnodup : (transactions.map (MsgTx.txHash env.prim)).Nodup)
  (hcovered : Covered env.prim needed transactions)
  (hsane : checkTransactionSanity tx = .ok ())
  (hcoins : total value utxoSet ≤ maxSatoshi.toNatClampNeg)
  (hminted : minted before ≤ maxSatoshi.toNatClampNeg)
  (hbalanced : Balanced env utxoSet needed before (tx :: rest) state coins)

include hcoins hminted hbalanced hsane in
theorem Balanced.fees_exact (h : checkTransactionInputs env tx height state.view = .ok fee) :
    (state.totalFees + fee).toInt = state.totalFees.toInt + fee.toInt ∧
      0 ≤ state.totalFees + fee ∧ (state.totalFees + fee).toNatClampNeg =
        state.totalFees.toNatClampNeg + fee.toNatClampNeg := by
  obtain ⟨-, hn, hm, -⟩ := fee_of_checkTransactionInputs hsane h
  have hb := hbalanced.balance
  have hf : 3 * maxSatoshi.toNatClampNeg < 2 ^ 63 := by decide
  exact toNatClampNeg_add hbalanced.fees_nonneg hn (by omega)

include hsplit hnodup hcovered hbalanced in
theorem Balanced.worth_eq (h : checkTransactionInputs env tx height state.view = .ok fee) :
    tx.spends.map (worth value coins) =
      tx.spends.map fun o => (state.view.amountAt o).toNatClampNeg := by
  refine map_congr_left fun o ho => ?_
  obtain ⟨entry, he, hc, -⟩ := hbalanced.tracks.coin_of_spendable hsplit hnodup hcovered ho
    (spendable_of_checkTransactionInputs h o ho)
  rw [worth, hc, Option.elim_some, UtxoViewpoint.amountAt, he, Option.map_some, Option.getD_some]
  rfl

include hsplit hnodup hcovered hsane hcoins hminted hbalanced in
/-- **Connecting a transaction keeps the balance.** -/
theorem Balanced.connectTx (h : connectTx env height state tx = .ok state') :
    ∃ coins', Balanced env utxoSet needed (before ++ [tx]) rest state' coins' := by
  obtain ⟨fee, hfe, -, spent, -, rfl⟩ := connectTx_eq_ok_iff.1 h
  obtain ⟨coins', ha, htr⟩ := hbalanced.tracks.apply_of_connectUtxos hsplit hnodup hcovered
    (nodup_spends (nodup_of_checkTransactionSanity hsane)) rfl (connectUtxos_of_connectTx h)
  obtain ⟨-, hn, hs⟩ := hbalanced.fees_exact hsane hcoins hminted hfe
  refine ⟨coins', htr, hn, ?_⟩
  dsimp only
  have ht : total value coins' + (tx.spends.map (worth value coins)).sum ≤
      total value coins + ((tx.coins env.prim height).map fun out => out.2.value).sum :=
    Transfer.total_apply_le ha
  rw [hbalanced.worth_eq hsplit hnodup hcovered hfe,
    ← (fee_of_checkTransactionInputs hsane hfe).2.2.2.2] at ht
  have hc := sum_coins_le env.prim tx height
  have hb := hbalanced.balance
  rw [minted_append_singleton]
  split_ifs at ht ⊢ <;> omega

end Step

/-- **No sum of the checks wraps.** -/
structure NoWrap (env : Env) (utxoSet : UtxoSet) (tip node : BlockNode) (block : Block) : Prop where
  outputs : ∀ tx ∈ block.msgBlock.transactions, AddsExactly 0 (tx.txOut.map TxOut.value)
  inputs : ∀ before tx after state fee, block.msgBlock.transactions = before ++ tx :: after →
    connecting env utxoSet tip node block before = .ok state →
    checkTransactionInputs env tx node.height state.view = .ok fee →
    AddsExactly 0 (tx.spends.map state.view.amountAt) ∧
      (isCoinBaseTx tx = false → fee.toInt =
        ((tx.spends.map state.view.amountAt).foldl (· + ·) 0).toInt - (totalSatoshiOut tx).toInt)
  fees : ∀ before tx after state fee, block.msgBlock.transactions = before ++ tx :: after →
    connecting env utxoSet tip node block before = .ok state →
    checkTransactionInputs env tx node.height state.view = .ok fee →
    (state.totalFees + fee).toInt = state.totalFees.toInt + fee.toInt
  reward : ∀ state, connecting env utxoSet tip node block block.msgBlock.transactions = .ok state →
    (calcBlockSubsidy env node.height + state.totalFees).toInt =
      (calcBlockSubsidy env node.height).toInt + state.totalFees.toInt

/-- A sane block creates at most `MaxSatoshi` new coins. -/
theorem minted_le_maxSatoshi {prim : Primitives} (hsane : BodySane prim block.msgBlock)
    (hsplit : block.msgBlock.transactions = before ++ rest) :
    minted before ≤ maxSatoshi.toNatClampNeg := by
  obtain ⟨coinbaseTx, txs, ht, -, hf⟩ := hsane.first_coinbase
  obtain ⟨-, -, hn, hm, hv⟩ := outputs_of_checkTransactionSanity
    (hsane.transaction_sane coinbaseTx (ht ▸ mem_cons_self))
  rw [ht] at hsplit
  exact (minted_le hf hsplit).trans (hv ▸ Adds.toNatClampNeg_le hn hm)

/-- **The balance holds after every transaction of a sane block.** -/
theorem balanced_of_connecting (hsane : BodySane env.prim block.msgBlock) (hs : utxoSet.Stored)
    (hcoins : total value utxoSet ≤ maxSatoshi.toNatClampNeg) :
    ∃ needed, Covered env.prim needed block.msgBlock.transactions ∧
    ∀ before rest state, block.msgBlock.transactions = before ++ rest →
      connecting env utxoSet tip node block before = .ok state →
      ∃ coins, Balanced env utxoSet needed before rest state coins := by
  obtain ⟨coinbaseTx, txs, ht, -⟩ := hsane.first_coinbase
  obtain ⟨needed, hcovered, htr⟩ := exists_tracks hs hsane ht tip.hash
  rw [← ht] at hcovered htr
  refine ⟨needed, hcovered, fun before rest state hsplit h => ?_⟩
  refine foldlM_invariant (P := fun before rest state => ∃ coins,
    Balanced env utxoSet needed before rest state coins) ?_ ?_ hsplit h
  · rintro before tx rest state state' hsplit ⟨coins, hbalanced⟩ hc
    exact hbalanced.connectTx hsplit hsane.txHash_nodup hcovered
      (hsane.transaction_sane tx (hsplit ▸ mem_append_right before mem_cons_self)) hcoins
      (minted_le_maxSatoshi hsane hsplit) hc
  · exact ⟨utxoSet, htr, Int64.le_refl 0, le_refl _⟩

end Block

/-! ### Chains -/

section Chain

variable {prim : Primitives} {genesisBlock : MsgBlock} {also : Block → BlockNode → Prop}
  {blocks : List Block} {utxoSet : UtxoSet} {tip node : BlockNode} {block : Block}
  {view : UtxoViewpoint} {stxos : List SpentTxOut} {tx : MsgTx} {state : Connecting}

theorem reward_exact {needed : List OutPoint} {before rest : List MsgTx} {coins : UtxoSet}
    (height : Nat) (hcoins : total value utxoSet ≤ maxSatoshi.toNatClampNeg)
    (hminted : minted before ≤ maxSatoshi.toNatClampNeg)
    (h : Balanced (.mainNet prim genesisBlock) utxoSet needed before rest state coins) :
    (calcBlockSubsidy (.mainNet prim genesisBlock) height + state.totalFees).toInt =
        (calcBlockSubsidy (.mainNet prim genesisBlock) height).toInt + state.totalFees.toInt ∧
      0 ≤ calcBlockSubsidy (.mainNet prim genesisBlock) height + state.totalFees ∧
      (calcBlockSubsidy (.mainNet prim genesisBlock) height + state.totalFees).toNatClampNeg =
        (calcBlockSubsidy (.mainNet prim genesisBlock) height).toNatClampNeg +
          state.totalFees.toNatClampNeg := by
  obtain ⟨hn, hv⟩ := @calcBlockSubsidy_mainNet prim genesisBlock height
  have hba : baseSubsidy / 2 ^ (height / 210000) ≤ baseSubsidy := div_le_self _ _
  have hb := h.balance
  have hf : baseSubsidy + 2 * maxSatoshi.toNatClampNeg < 2 ^ 63 := by decide
  exact toNatClampNeg_add hn h.fees_nonneg (by omega)

/-- **No sum wraps** when a sane block is checked on top of coins that are worth at most
`MaxSatoshi`. -/
theorem noWrap_of_bodySane (hsane : BodySane prim block.msgBlock) (hst : utxoSet.Stored)
    (hcoins : total value utxoSet ≤ maxSatoshi.toNatClampNeg) :
    NoWrap (.mainNet prim genesisBlock) utxoSet tip node block := by
  obtain ⟨needed, -, hbalanced⟩ := @balanced_of_connecting (.mainNet prim genesisBlock) utxoSet node
    tip block hsane hst hcoins
  have htx : ∀ {before tx after}, block.msgBlock.transactions = before ++ tx :: after →
      checkTransactionSanity tx = .ok () := fun hsplit =>
    hsane.transaction_sane _ (hsplit ▸ mem_append_right _ mem_cons_self)
  refine ⟨?outputs, ?inputs, ?fees, ?reward⟩
  case outputs =>
    exact fun tx htx => (outputs_of_checkTransactionSanity (hsane.transaction_sane tx htx)).1
  case inputs =>
    intro before tx after state fee hsplit _ hf
    obtain ⟨he, -, -, hd, -⟩ := fee_of_checkTransactionInputs (htx hsplit) hf
    exact ⟨he, hd⟩
  case fees =>
    intro before tx after state fee hsplit hs hf
    obtain ⟨coins, hcoins'⟩ := hbalanced before (tx :: after) state hsplit hs
    exact (hcoins'.fees_exact (htx hsplit) hcoins (minted_le_maxSatoshi hsane hsplit) hf).1
  case reward =>
    intro state hs
    have hsplit := (append_nil block.msgBlock.transactions).symm
    obtain ⟨coins, hcoins'⟩ := hbalanced block.msgBlock.transactions [] state hsplit hs
    exact (reward_exact node.height hcoins (minted_le_maxSatoshi hsane hsplit) hcoins').1

/-- **A connected block adds at most its subsidy.** -/
theorem total_putUtxoView_le (hsane : BodySane prim block.msgBlock) (hs : utxoSet.Stored)
    (hcoins : total value utxoSet ≤ maxSatoshi.toNatClampNeg)
    (h : checkConnectBlock (.mainNet prim genesisBlock) utxoSet node block (.new tip.hash) =
      .ok (view, stxos)) :
    total value (utxoSet.putUtxoView view) ≤ total value utxoSet +
      (calcBlockSubsidy (.mainNet prim genesisBlock) node.height).toNatClampNeg := by
  obtain ⟨-, -, coinbaseTx, txs, _, state, ht, -, hst, hr, -, rfl, -⟩ :=
    checkConnectBlock_eq_ok (Int.natCast_nonneg node.height) h
  obtain ⟨coinbaseTx', txs', ht', -, hf⟩ := hsane.first_coinbase
  obtain ⟨rfl, rfl⟩ := List.cons.inj (ht.symm.trans ht')
  obtain ⟨needed, -, hbalanced⟩ := @balanced_of_connecting (.mainNet prim genesisBlock) utxoSet node
    tip block hsane hs hcoins
  have hsplit := (append_nil block.msgBlock.transactions).symm
  obtain ⟨coins, hcoins'⟩ := hbalanced block.msgBlock.transactions [] state hsplit
    (by rw [connecting, ht]; exact hst)
  obtain ⟨-, -, hsu⟩ := reward_exact node.height hcoins (minted_le_maxSatoshi hsane hsplit) hcoins'
  obtain ⟨-, -, hn, -, hv⟩ := outputs_of_checkTransactionSanity
    (hsane.transaction_sane coinbaseTx (ht ▸ mem_cons_self))
  have hp := Adds.toNatClampNeg_le hn hr
  have hminted := minted_le hf (ht.symm.trans hsplit)
  have hb := hcoins'.balance
  -- the hash of the view is not written to the database
  have hpu : utxoSet.putUtxoView { state.view with bestHash := node.hash } =
      utxoSet.putUtxoView state.view := rfl
  rw [hpu, hcoins'.tracks.putUtxoView_eq hs]
  omega

theorem amount_of_mem_coins {blockHeight : Int} {outpoint : OutPoint} {coin : UtxoEntry}
    (h : (outpoint, coin) ∈ tx.coins prim blockHeight) :
    ∃ txOut ∈ tx.txOut, coin.amount = txOut.value := by
  obtain ⟨⟨txOut, i⟩, hm, ho⟩ := mem_filterMap.1 h
  split_ifs at ho
  cases ho
  exact ⟨txOut, fst_mem_of_mem_zipIdx hm, rfl⟩

section

variable (h : ConnectedChain (.mainNet prim genesisBlock) also blocks tip utxoSet)
include h

theorem ConnectedChain.amount_nonneg :
    ∀ outpoint coin, utxoSet.lookup outpoint = some coin → 0 ≤ coin.amount := by
  induction h with
  | genesis =>
    intro o coin hc
    cases hc
  | connect hch _ hsane hco ih =>
    intro o coin hc
    have hb := bodySane_of_checkBlockSanity hsane
    have hap := applyBlock_of_checkConnectBlock (Int.natCast_nonneg _) hch.stored hb hco
    obtain ho | ⟨transfer, ht, hou⟩ := lookup_of_applyAll hap hc
    · exact ih o coin ho
    · obtain ⟨tx, htx, rfl⟩ := mem_map.1 ht
      obtain ⟨txOut, hto, ha⟩ := amount_of_mem_coins hou
      obtain ⟨-, hn, -⟩ := outputs_of_checkTransactionSanity (hb.transaction_sane tx htx)
      exact ha ▸ hn txOut hto

theorem ConnectedChain.total_le :
    total value utxoSet ≤ issued (.mainNet prim genesisBlock) tip.height := by
  induction h with
  | genesis => exact zero_le _
  | connect hch _ hsane hc ih =>
    have hb := total_putUtxoView_le (bodySane_of_checkBlockSanity hsane) hch.stored
      (ih.trans (issued_le _)) hc
    exact (hb.trans (Nat.add_le_add_right ih _)).trans (Finset.sum_range_succ _ _).ge

end

/-- **No inflation**: the unspent outputs are worth at most the subsidies, which are at most
`MaxSatoshi`, and no sum wraps in a further block. -/
theorem no_inflation (h : ConnectedChain (.mainNet prim genesisBlock) also blocks tip utxoSet) :
    (∀ outpoint coin, utxoSet.lookup outpoint = some coin → 0 ≤ coin.amount) ∧
    total value utxoSet ≤ issued (.mainNet prim genesisBlock) tip.height ∧
    (∀ height, issued (.mainNet prim genesisBlock) height ≤ maxSatoshi.toNatClampNeg) ∧
    ∀ block current seed pi votes view stxos,
      checkBlockSanity prim current block.msgBlock seed pi = .ok () →
      checkConnectBlock (.mainNet prim genesisBlock) utxoSet
        (newBlockNode prim block.msgBlock.header (some tip) votes) block (.new tip.hash) =
          .ok (view, stxos) →
      NoWrap (.mainNet prim genesisBlock) utxoSet tip
        (newBlockNode prim block.msgBlock.header (some tip) votes) block := by
  refine ⟨h.amount_nonneg, h.total_le, issued_le, ?_⟩
  intro block current seed pi votes view stxos hsane _
  exact noWrap_of_bodySane (bodySane_of_checkBlockSanity hsane) h.stored
    (h.total_le.trans (issued_le _))

end Chain

theorem no_inflation_payTwice : ∃ blocks tip utxoSet,
    ConnectedChain (.mainNet .polynomial sampleEnv.params.genesisBlock) (fun _ _ => True) blocks tip
      utxoSet ∧ tip.height = 2 ∧ total value utxoSet = 10000000000 ∧
    total value utxoSet ≤
      issued (.mainNet .polynomial sampleEnv.params.genesisBlock) tip.height := by
  have ht : payTwice.map (total value) = .ok 10000000000 := by
    decide +kernel
  obtain ⟨utxoSet, hu, ht⟩ := map_eq_ok.1 ht
  have hc := @connectedChain_payTwice (fun _ _ => True) utxoSet trivial trivial hu
  exact ⟨_, _, utxoSet, hc, rfl, ht, (no_inflation hc).2.1⟩

end DrcNode
