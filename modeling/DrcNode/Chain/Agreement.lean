import DrcNode.Chain.Connected

/-!
# A block against two databases

What `checkConnectBlock` asks of a block depends on the database through the outputs that it loads
from there: the inputs whose transactions are not before them in the block. When a block has been
accepted against one database, it is accepted against every other one in which these outputs are the
same. The height that is set in the block does not matter: it is that of outputs of the block itself
that are put into the view in advance, and they are written again before they are looked at.
-/

namespace DrcNode

open Checked Finmap List Option MsgTx

open Ledger UtxoViewpoint

variable {env : Env} {prim : Primitives} {height : Nat} {utxoSet utxoSet' : UtxoSet}
  {view view' : UtxoViewpoint} {transactions txs : List MsgTx} {coinbaseTx tx : MsgTx}
  {outpoint : OutPoint} {needed : List OutPoint} {blockHeight blockHeight' : Int}
  {state state' : UtxoViewpoint × List OutPoint} {coins : UtxoSet} {rest : List MsgTx}

/-! ### The outputs that a block loads -/

/-- An input of a block whose transaction is not before it in the block. -/
def FromOutside (prim : Primitives) (transactions : List MsgTx) (outpoint : OutPoint) : Prop :=
  ∃ before tx after, transactions = before ++ tx :: after ∧ outpoint ∈ tx.spends ∧
    outpoint.hash ∉ before.map (txHash prim)

/-- **`fetchInputUtxos` loads the inputs whose transactions are not before them.** -/
theorem mem_needed_iff (hc : isCoinBaseTx coinbaseTx = true)
    (hot : ∀ tx ∈ txs, isCoinBaseTx tx = false) (hn : ((coinbaseTx :: txs).map (txHash prim)).Nodup)
    (h : Loaded prim blockHeight utxoSet (coinbaseTx :: txs) needed view) :
    outpoint ∈ needed ↔ FromOutside prim (coinbaseTx :: txs) outpoint := by
  constructor
  · intro hm
    obtain ⟨before, tx, after, hne, hs, hi, hh⟩ := h.needed_input outpoint hm
    obtain ⟨first, before, rfl⟩ := exists_cons_of_ne_nil hne
    have htx : tx ∈ txs := by
      rw [(List.cons.inj hs).2]
      exact mem_append_right before mem_cons_self
    refine ⟨first :: before, tx, after, hs, ?_, hh hn⟩
    rw [spends, hot tx htx]
    exact hi
  · rintro ⟨before, tx, after, hs, ho, hh⟩
    exact (covered_of_loaded hc h before tx after hs outpoint ho).resolve_right hh

/-- What a transaction spends was there before the block, or an earlier one has created it. -/
theorem exists_coin_of_applyBlock {before after : List MsgTx}
    (ha : applyBlock env height utxoSet (before ++ tx :: after) = some coins)
    (ho : outpoint ∈ tx.spends) : ∃ coin, coin.matured env height = true ∧
      (utxoSet.lookup outpoint = some coin ∨
        ∃ tx' ∈ before, (outpoint, coin) ∈ tx'.coins env.prim height) := by
  rw [applyBlock, map_append, applyAll_append, bind_eq_some_iff] at ha
  obtain ⟨coins₁, hb, ha⟩ := ha
  rw [map_cons, applyAll_cons, bind_eq_some_iff] at ha
  obtain ⟨coins₂, htx, -⟩ := ha
  obtain ⟨coin, hc, hm⟩ := (Transfer.apply_eq_some_iff.1 htx).2.1 outpoint ho
  refine ⟨coin, hm, (lookup_of_applyAll hb hc).imp_right ?_⟩
  rintro ⟨transfer, ht, hou⟩
  obtain ⟨tx', htx', rfl⟩ := mem_map.1 ht
  exact ⟨tx', htx', hou⟩

/-- **The outputs that an accepted block loads are in the database.** -/
theorem mem_of_fromOutside (ha : applyBlock env height utxoSet transactions = some coins)
    (ho : FromOutside env.prim transactions outpoint) : outpoint ∈ utxoSet := by
  obtain ⟨before, tx, after, rfl, hs, hh⟩ := ho
  obtain ⟨coin, -, hc | ⟨tx', htx', hc⟩⟩ := exists_coin_of_applyBlock ha hs
  · exact mem_of_lookup_eq_some hc
  · rw [(mem_coins hc).1] at hh
    exact absurd (mem_map_of_mem htx') hh

/-! ### The height of a block -/

/-- The entry with another height. -/
def UtxoEntry.atHeight (blockHeight : Int) (entry : UtxoEntry) : UtxoEntry :=
  { entry with blockHeight }

theorem MsgTx.coins_eq_map_atHeight : tx.coins prim blockHeight' =
    (tx.coins prim blockHeight).map fun out => (out.1, out.2.atHeight blockHeight') := by
  rw [coins, coins, map_filterMap]
  refine filterMap_congr fun out _ => ?_
  split_ifs <;> rfl

/-- The second view has the entries of the first one, with another height. -/
def SameEntries (blockHeight' : Int) (view view' : UtxoViewpoint) : Prop :=
  ∀ o, view'.entries.lookup o =
    (view.entries.lookup o).map (Option.map (UtxoEntry.atHeight blockHeight'))

theorem SameEntries.mem_iff (h : SameEntries blockHeight' view view') :
    outpoint ∈ view'.entries ↔ outpoint ∈ view.entries := by
  rw [← lookup_isSome, ← lookup_isSome, h, isSome_map]

theorem SameEntries.addTxOuts (h : SameEntries blockHeight' view view') (tx : MsgTx) :
    SameEntries blockHeight' (view.addTxOuts prim tx blockHeight)
      (view'.addTxOuts prim tx blockHeight') := by
  intro o
  rw [entries_addTxOuts, entries_addTxOuts, lookup_create, lookup_create,
    created_map fun coin : UtxoEntry => some coin.fresh,
    created_map fun coin : UtxoEntry => some coin.fresh,
    @MsgTx.coins_eq_map_atHeight prim tx blockHeight blockHeight',
    created_map (UtxoEntry.atHeight blockHeight'), h, map_or, Option.map_map, Option.map_map]
  rfl

/-- Filling the view does the same with both heights. -/
structure SameFilling (blockHeight' : Int) (state state' : UtxoViewpoint × List OutPoint) :
    Prop where
  entries : SameEntries blockHeight' state.1 state'.1
  needed_eq : state'.2 = state.2

theorem SameFilling.fetchInput {i : Nat} (h : SameFilling blockHeight' state state') (txIn : TxIn) :
    SameFilling blockHeight' (fetchInput prim transactions blockHeight i state txIn)
      (fetchInput prim transactions blockHeight' i state' txIn) := by
  -- the branch for an output that is not in flight
  have hn : SameFilling blockHeight' (if txIn.previousOutPoint ∈ state.1.entries then state
        else (state.1, state.2 ++ [txIn.previousOutPoint]))
      (if txIn.previousOutPoint ∈ state'.1.entries then state'
        else (state'.1, state'.2 ++ [txIn.previousOutPoint])) := by
    simp only [h.entries.mem_iff]
    split_ifs
    · exact h
    · exact ⟨h.entries, by rw [h.needed_eq]⟩
  rw [UtxoViewpoint.fetchInput, UtxoViewpoint.fetchInput]
  cases inFlightIndex prim transactions txIn.previousOutPoint.hash with
  | none => exact hn
  | some index =>
    by_cases hle : index ≤ i
    · dsimp only
      rw [if_pos hle, if_pos hle]
      cases transactions[index]? with
      | none => exact hn
      | some originTx => exact ⟨h.entries.addTxOuts originTx, h.needed_eq⟩
    · dsimp only
      rw [if_neg hle, if_neg hle]
      exact hn

theorem sameFilling_prefetch (bestHash : Hash) :
    SameFilling blockHeight' ((new bestHash).prefetch prim transactions blockHeight)
      ((new bestHash).prefetch prim transactions blockHeight') :=
  foldl_rel ⟨fun _ => rfl, rfl⟩ fun _ _ _ _ h =>
    foldl_rel h fun txIn _ _ _ h => h.fetchInput txIn

/-! ### Two runs -/

/-- **How the views of two runs agree** before the transactions `rest`: they are the same but for
the heights of outputs put there in advance. -/
def Agree (prim : Primitives) (blockHeight' : Int) (needed : List OutPoint) (rest : List MsgTx)
    (view view' : UtxoViewpoint) : Prop :=
  ∀ o, view'.lookupEntry o = view.lookupEntry o ∨
    o ∉ needed ∧ o ∈ createdOutPoints prim rest ∧
      view'.lookupEntry o = (view.lookupEntry o).map (UtxoEntry.atHeight blockHeight')

theorem agree_fetchInputUtxos (bestHash : Hash)
    (hld : ∀ o ∈ ((new bestHash).prefetch prim (coinbaseTx :: txs) blockHeight).2,
      utxoSet'.lookup o = utxoSet.lookup o) :
    Agree prim blockHeight'
      ((new bestHash).prefetch prim (coinbaseTx :: txs) blockHeight).2
      (coinbaseTx :: txs)
      ((new bestHash).fetchInputUtxos prim utxoSet (coinbaseTx :: txs) blockHeight)
      ((new bestHash).fetchInputUtxos prim utxoSet' (coinbaseTx :: txs)
        blockHeight') := by
  intro o
  have hl := loaded_fetchInputUtxos prim blockHeight utxoSet coinbaseTx txs bestHash
  have hs := @sameFilling_prefetch prim (coinbaseTx :: txs) blockHeight blockHeight' bestHash
  have hlo : ((new bestHash).fetchInputUtxos prim utxoSet' (coinbaseTx :: txs)
      blockHeight').lookupEntry o =
        if o ∈ ((new bestHash).prefetch prim (coinbaseTx :: txs) blockHeight).2
          then utxoSet'.lookup o
          else (((new bestHash).prefetch prim (coinbaseTx :: txs)
            blockHeight).1.lookupEntry o).map (UtxoEntry.atHeight blockHeight') := by
    rw [fetchInputUtxos_eq, lookupEntry_fetchUtxosMain, hs.needed_eq, lookupEntry, lookupEntry,
      hs.entries]
    cases ((new bestHash).prefetch prim (coinbaseTx :: txs)
      blockHeight).1.entries.lookup o <;> rfl
  rw [hlo]
  by_cases hm : o ∈ ((new bestHash).prefetch prim (coinbaseTx :: txs) blockHeight).2
  · rw [if_pos hm, hl.lookup_needed o hm]
    exact .inl (hld o hm)
  rw [if_neg hm]
  have hf : ((new bestHash).fetchInputUtxos prim utxoSet (coinbaseTx :: txs)
      blockHeight).lookupEntry o = ((new bestHash).prefetch prim (coinbaseTx :: txs)
        blockHeight).1.lookupEntry o := by
    rw [fetchInputUtxos_eq, lookupEntry_fetchUtxosMain, if_neg hm]
  cases he : ((new bestHash).fetchInputUtxos prim utxoSet (coinbaseTx :: txs)
      blockHeight).lookupEntry o with
  | none =>
    rw [← hf, he]
    exact .inl rfl
  | some entry =>
    obtain ⟨tx, htx, coin, hc, -⟩ := hl.lookup_other o hm entry he
    rw [← hf, he]
    exact .inr ⟨hm, mem_createdOutPoints htx hc, rfl⟩

section

variable (h : Agree prim blockHeight' needed rest view view')
include h

theorem inputP2SHSigOps_of_agree : inputP2SHSigOps view' = inputP2SHSigOps view := by
  funext txIn
  rw [inputP2SHSigOps, inputP2SHSigOps]
  obtain heq | ⟨-, -, heq⟩ := h txIn.previousOutPoint
  · rw [heq]
  · rw [heq]
    cases view.lookupEntry txIn.previousOutPoint <;> rfl

theorem addSigOpCost_of_agree {bip16 : Bool} :
    addSigOpCost view' bip16 = addSigOpCost view bip16 := by
  funext total tx
  rw [addSigOpCost, addSigOpCost, getSigOpCost, getSigOpCost, countP2SHSigOps, countP2SHSigOps,
    inputP2SHSigOps_of_agree h]

end

theorem checkTransactionInputs_congr
    (h : ∀ o ∈ tx.spends, view'.lookupEntry o = view.lookupEntry o) :
    checkTransactionInputs env tx height view' = checkTransactionInputs env tx height view := by
  rw [checkTransactionInputs, checkTransactionInputs]
  split_ifs with hc
  · rfl
  have hf : ∀ {inputs : List TxIn} {total : Int64}, (∀ txIn ∈ inputs,
      view'.lookupEntry txIn.previousOutPoint = view.lookupEntry txIn.previousOutPoint) →
      inputs.foldlM (addInput env height view') total =
        inputs.foldlM (addInput env height view) total := by
    intro inputs total hi
    induction inputs generalizing total with
    | nil => rfl
    | cons txIn inputs ih =>
      rw [forall_mem_cons] at hi
      rw [foldlM_cons, foldlM_cons, addInput, hi.1]
      exact congrArg _ (funext fun _ => ih hi.2)
  rw [hf fun txIn ht => h _ ?_]
  rw [spends, if_neg hc]
  exact mem_map_of_mem ht

section Step

variable {before rest : List MsgTx} {state₁ state₂ : Connecting} {state state' : Connecting}

theorem Agree.lookupEntry_eq (h : Agree prim blockHeight' needed (tx :: rest) view view')
    (hs : transactions = before ++ tx :: rest) (hno : (transactions.map (txHash prim)).Nodup)
    (hc : Covered prim needed transactions) (ho : outpoint ∈ tx.spends) :
    view'.lookupEntry outpoint = view.lookupEntry outpoint := by
  refine (h outpoint).resolve_right fun ⟨hnm, hcr, _⟩ => ?_
  obtain hh | hn := needed_or_notMem hs hno hc ho
  · -- an output that is still to come has the hash of a transaction that is still to come
    obtain ⟨tx', htx', hou⟩ := mem_flatMap.1 hcr
    obtain ⟨⟨_, coin⟩, hco, rfl⟩ := mem_map.1 hou
    rw [(mem_coins hco).1] at hh
    exact hh (mem_map_of_mem htx')
  · exact hnm hn

/-- **One transaction in both runs.** -/
theorem Agree.connectTx (h : Agree env.prim blockHeight' needed (tx :: rest) state.view state'.view)
    (hf : state'.totalFees = state.totalFees) (hsp : transactions = before ++ tx :: rest)
    (hno : (transactions.map (txHash env.prim)).Nodup)
    (hco : Covered env.prim needed transactions) (hc : connectTx env height state tx = .ok state₁) :
    ∃ state₁', connectTx env height state' tx = .ok state₁' ∧ state₁'.totalFees = state₁.totalFees ∧
      Agree env.prim blockHeight' needed rest state₁.view state₁'.view := by
  have hi : ∀ o ∈ tx.spends, state'.view.lookupEntry o = state.view.lookupEntry o :=
    fun o ho => h.lookupEntry_eq hsp hno hco ho
  obtain ⟨hs, hl⟩ := connectUtxos_eq_ok (connectUtxos_of_connectTx hc)
  obtain ⟨fee, hfe, hle, ⟨view₁, stxos₁⟩, -, rfl⟩ := connectTx_eq_ok_iff.1 hc
  obtain ⟨⟨view₁', stxos₁'⟩, hc'⟩ := exists_connectTransaction env.prim height
    (state'.view, state'.stxos) fun o ho => by
      rw [hi o ho]
      exact (hs o ho).imp fun _ => And.left
  refine ⟨⟨view₁', stxos₁', state'.totalFees + fee⟩, ?_, by rw [hf], fun o => ?_⟩
  · rw [connectTx_eq_ok_iff, checkTransactionInputs_congr hi]
    exact ⟨fee, hfe, by rw [hf]; exact hle, _, hc', rfl⟩
  · have hl' := (connectTransaction_eq_ok hc').2 o
    rw [hl', hl]
    cases hcr : created (tx.coins env.prim height) o with
    | some coin => exact .inl rfl
    | none =>
      by_cases ho : o ∈ tx.spends
      · rw [if_pos ho, if_pos ho, hi o ho]
        exact .inl rfl
      · rw [if_neg ho, if_neg ho]
        refine (h o).imp_right fun ⟨hn, hm, heq⟩ => ⟨hn, ?_, heq⟩
        rw [@createdOutPoints_cons tx env.prim rest height, mem_append] at hm
        exact hm.resolve_left (created_eq_none_iff.1 hcr)

/-- **All transactions in both runs.** -/
theorem Agree.foldlM_connectTx (h : Agree env.prim blockHeight' needed rest state.view state'.view)
    (hfe : state'.totalFees = state.totalFees) (hs : transactions = before ++ rest)
    (hn : (transactions.map (txHash env.prim)).Nodup) (hco : Covered env.prim needed transactions)
    (hf : rest.foldlM (DrcNode.connectTx env height) state = .ok state₁) :
    ∃ state₁', rest.foldlM (DrcNode.connectTx env height) state' = .ok state₁' ∧
      state₁'.totalFees = state₁.totalFees ∧
      ∀ o, state₁'.view.lookupEntry o = state₁.view.lookupEntry o := by
  induction rest generalizing before state state' with
  | nil =>
    cases hf
    exact ⟨state', rfl, hfe, fun o => (h o).resolve_right fun hm => by cases hm.2.1⟩
  | cons tx rest ih =>
    rw [foldlM_cons, bind_eq_ok] at hf
    obtain ⟨state₂, hc, hf⟩ := hf
    obtain ⟨state₂', hc', hfe', h'⟩ := h.connectTx hfe hs hn hco hc
    have hs' : transactions = (before ++ [tx]) ++ rest := by
      rw [hs, append_assoc, singleton_append]
    obtain ⟨state₁', hf', hsa⟩ := ih h' hfe' hs' hf
    refine ⟨state₁', ?_, hsa⟩
    rw [foldlM_cons, hc']
    exact hf'

end Step

/-! ### Accepting a block against another database -/

section Blocks

variable {node node' : BlockNode} {block block' : Block} {bestHash : Hash}
  {out : UtxoViewpoint × List SpentTxOut}

/-- The nodes differ in nothing that `checkConnectBlock` looks at. -/
structure SameNode (node node' : BlockNode) : Prop where
  hash_eq : node'.hash = node.hash
  height_eq : node'.height = node.height
  timestamp_eq : node'.fields.timestamp = node.fields.timestamp
  parent : ∀ parent, node.parent = some parent → ∃ parent', node'.parent = some parent' ∧
    parent'.calcPastMedianTime = parent.calcPastMedianTime

theorem checkBlockScripts_congr {flags : UInt32} (hb : block'.msgBlock = block.msgBlock)
    (h : ∀ o, view'.lookupEntry o = view.lookupEntry o) :
    checkBlockScripts prim block' view' flags = checkBlockScripts prim block view flags := by
  have hi : checkInputScript prim view' flags = checkInputScript prim view flags := by
    funext tx txIn
    rw [checkInputScript, checkInputScript, h]
  rw [checkBlockScripts, checkBlockScripts, hb, hi]

section

variable (h : checkConnectBlock env utxoSet node block (.new bestHash) = .ok out)
include h

/-- **A sane block that is accepted against one database is accepted against another one** in which
the outputs that it loads are the same. -/
theorem exists_checkConnectBlock_of_agree (hbi : env.params.bip0034Height ≤ node.height)
    (hs : BodySane env.prim block.msgBlock)
    (hn : SameNode node node') (hb : block'.msgBlock = block.msgBlock)
    (hlo : ∀ o, FromOutside env.prim block.msgBlock.transactions o →
      utxoSet'.lookup o = utxoSet.lookup o) :
    ∃ out', checkConnectBlock env utxoSet' node' block' (.new bestHash) = .ok out' := by
  obtain ⟨hg, hbe, view₁, hv₁, coinbaseTx, txs, parent, state, h, -, -⟩ :=
    checkConnectBlock_eq_ok_iff.1 h
  rw [viewAfterBIP0030_eq hbi] at hv₁
  cases hv₁
  obtain ⟨tx, txs', ht, hc, hot⟩ := hs.first_coinbase
  obtain ⟨rfl, rfl⟩ := List.cons.inj (h.transactions_eq.symm.trans ht)
  have hno := hs.txHash_nodup
  rw [h.transactions_eq] at hno hlo
  have hl := loaded_fetchInputUtxos env.prim block.height utxoSet coinbaseTx txs bestHash
  have ha := @agree_fetchInputUtxos env.prim utxoSet utxoSet' txs coinbaseTx block.height
    block'.height bestHash
    fun o ho => hlo o ((mem_needed_iff hc hot hno hl).1 ho)
  have hst : Agree env.prim block'.height _ (coinbaseTx :: txs) (Connecting.mk _ [] 0).view
    (Connecting.mk _ [] 0).view := ha
  obtain ⟨state', hco, hf, hlp⟩ := hst.foldlM_connectTx rfl
    (nil_append _).symm hno (covered_of_loaded hc hl) h.connected
  obtain ⟨parent', hp', hm⟩ := hn.parent parent h.parent_eq
  refine ⟨_, checkConnectBlock_eq_ok_iff.2 ⟨?_, ?_, .new bestHash, ?_, coinbaseTx, txs, parent',
    state', ?_, rfl, rfl⟩⟩
  · rw [hn.hash_eq]
    exact hg
  · rw [hb]
    exact hbe
  · exact viewAfterBIP0030_eq (by rw [hn.height_eq]; exact hbi)
  · refine ⟨by rw [hb]; exact h.transactions_eq, hp', ?_, ?_, ?_, ?_, ?_⟩
    · rw [hn.timestamp_eq, addSigOpCost_of_agree ha]
      exact h.sigOps
    · rw [hn.height_eq]
      exact hco
    · rw [hn.height_eq, hf]
      exact h.value_le
    · rw [hm]
      exact h.locks
    · rw [hn.height_eq, hn.timestamp_eq, hb, checkBlockScripts_congr hb hlp]
      exact h.scripts

/-- **What is left of the database after a block** of the outputs that it does not create. -/
theorem lookup_putUtxoView_of_checkConnectBlock (hb : env.params.bip0034Height ≤ node.height)
    (hsd : utxoSet.Stored) (hme : outpoint ∈ utxoSet)
    (ho : outpoint ∉ createdOutPoints env.prim block.msgBlock.transactions) :
    (utxoSet.putUtxoView out.1).lookup outpoint =
      if outpoint ∈ block.msgBlock.transactions.flatMap spends then none
      else utxoSet.lookup outpoint := by
  obtain ⟨view', stxos⟩ := out
  obtain ⟨-, -, view₁, hv₁, coinbaseTx, txs, parent, state, h, rfl, -⟩ :=
    checkConnectBlock_eq_ok_iff.1 h
  rw [viewAfterBIP0030_eq hb] at hv₁
  cases hv₁
  rw [h.transactions_eq] at ho ⊢
  obtain ⟨coin, hc⟩ := Finmap.mem_iff.1 hme
  obtain ⟨hsp, hm⟩ := hsd outpoint coin hc
  have hl := loaded_fetchInputUtxos env.prim block.height utxoSet coinbaseTx txs bestHash
  -- the view has nothing, or what the database has
  have hst : ∀ entry, ((new bestHash).fetchInputUtxos env.prim utxoSet
      (coinbaseTx :: txs) block.height).lookupEntry outpoint = some entry → entry = coin := by
    intro entry he
    by_cases hn : outpoint ∈ ((new bestHash).prefetch env.prim
        (coinbaseTx :: txs) block.height).2
    · rw [hl.lookup_needed outpoint hn, hc] at he
      exact (Option.some.inj he).symm
    · obtain ⟨tx, htx, coin', hc', -⟩ := hl.lookup_other outpoint hn entry he
      exact absurd (mem_createdOutPoints htx hc') ho
  have hlo := lookupEntry_foldlM_connectTx h.connected ho
  have hv : ({ state.view with bestHash := node.hash } : UtxoViewpoint).lookupEntry outpoint =
    state.view.lookupEntry outpoint := rfl
  rw [UtxoSet.lookup_putUtxoView, hv]
  by_cases hs : outpoint ∈ (coinbaseTx :: txs).flatMap spends
  · obtain ⟨entry, he⟩ := exists_lookupEntry_foldlM_connectTx h.connected (.inr hs)
    rw [if_pos hs] at hlo ⊢
    obtain ⟨loaded, hl', rfl⟩ := map_eq_some_iff.1 (hlo.symm.trans he)
    obtain rfl := hst loaded hl'
    rw [he, UtxoEntry.spend, hsp]
    exact lookup_erase _ _
  · rw [if_neg hs] at hlo ⊢
    rw [hlo]
    cases he : ((new bestHash).fetchInputUtxos env.prim utxoSet
        (coinbaseTx :: txs) block.height).lookupEntry outpoint with
    | none => rfl
    | some entry =>
      obtain rfl := hst entry he
      rw [UtxoSet.putEntry, hm]
      rfl

end

end Blocks

end DrcNode
