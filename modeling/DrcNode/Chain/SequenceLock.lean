import DrcNode.Chain.Refinement
import DrcNode.Script.Engine

/-!
# Relative lock times

The sequence number of an input can ask that the output it spends has a certain age, counted in
blocks or in steps of 512 seconds of median time. `calcSequenceLock` turns the numbers of all inputs
into one height and one time. It does so for the memory pool only: for a block it returns the lock
that is always met, since what activated the rule for blocks is commented out.

## Main results

* `relativeLocksMet_iff`.

Source: `calcSequenceLock` in `blockchain/chain.go`, and its use in `mempool/mempool.go`. Heights
are integers here and have 32 bits in the source.
-/

namespace DrcNode

open Checked List Option

/-! ### The lock of a transaction -/

/-- The height that stands for the memory pool. -/
def mempoolHeight : Int := 0x7fffffff

/-- `inputHeight`: an output in the memory pool is taken to be in the next block. -/
def inputHeight (node : BlockNode) (blockHeight : Int) : Int :=
  if blockHeight = mempoolHeight then node.height + 1 else blockHeight

def relativeLock (txIn : TxIn) : Int := (txIn.sequence &&& sequenceLockTimeMask).toNat

/-- One round of the loop over the inputs in `calcSequenceLock`. -/
def raiseLock (node : BlockNode) (view : UtxoViewpoint) (lock : SequenceLock) (txIn : TxIn) :
    Check SequenceLock :=
  match view.lookupEntry txIn.previousOutPoint with
  | none => ruleError .errMissingTxOut
  | some utxo =>
      let height := inputHeight node utxo.blockHeight
      if hasFlag txIn.sequence sequenceLockTimeDisabled then .ok lock
      else if hasFlag txIn.sequence sequenceLockTimeIsSeconds then
        match node.ancestor (if height - 1 < 0 then 0 else height - 1) with
        | none => .error (.panic .indexOutOfRange)
        | some blockNode =>
            let timeLock := blockNode.calcPastMedianTime + (relativeLock txIn * 2 ^ 9 - 1)
            .ok { lock with seconds := if lock.seconds < timeLock then timeLock else lock.seconds }
      else
        let blockHeight := height + (relativeLock txIn - 1)
        .ok { lock with
          blockHeight := if lock.blockHeight < blockHeight then blockHeight else lock.blockHeight }

/-- `calcSequenceLock`, on top of `node`. -/
def calcSequenceLockFor (node : BlockNode) (msgTx : MsgTx) (view : UtxoViewpoint) (mempool : Bool) :
    Check SequenceLock :=
  if ¬(2 ≤ msgTx.version ∧ mempool = true) ∨ isCoinBaseTx msgTx = true then .ok ⟨-1, -1⟩
  else msgTx.txIn.foldlM (raiseLock node view) ⟨-1, -1⟩

/-- For a block the lock is the one that `checkConnectBlock` uses. -/
theorem calcSequenceLockFor_false (node : BlockNode) (msgTx : MsgTx) (view : UtxoViewpoint) :
    calcSequenceLockFor node msgTx view false = .ok calcSequenceLock :=
  if_pos (.inl fun h => Bool.false_ne_true h.2)

/-! ### Locks that are met -/

/-- **What the sequence number of an input asks for**, in a block on top of `node`: 512 seconds of
median time, or a block, for each step. -/
def InputLockMet (node : BlockNode) (txIn : TxIn) (height : Int) : Prop :=
  if hasFlag txIn.sequence sequenceLockTimeDisabled then True
  else if hasFlag txIn.sequence sequenceLockTimeIsSeconds then
    ∃ blockNode, node.ancestor (max (inputHeight node height - 1) 0) = some blockNode ∧
      blockNode.calcPastMedianTime + relativeLock txIn * 512 ≤ node.calcPastMedianTime
  else inputHeight node height + relativeLock txIn ≤ node.height + 1

section Locks

variable {node : BlockNode} {view : UtxoViewpoint} {lock : SequenceLock} {txIn : TxIn}

/-- The lock is met in a block on top of the node. -/
def LockMet (node : BlockNode) (lock : SequenceLock) : Prop :=
  sequenceLockActive lock (node.height + 1) node.calcPastMedianTime = true

theorem lockMet_iff : LockMet node lock ↔
    lock.seconds < node.calcPastMedianTime ∧ lock.blockHeight < node.height + 1 := by
  rw [LockMet, sequenceLockActive, Bool.and_eq_true, decide_eq_true_eq, decide_eq_true_eq,
    Nat.cast_add, Nat.cast_one]

theorem ite_neg_eq_max {i : Int} : (if i < 0 then 0 else i) = max i 0 := by
  split_ifs <;> omega

/-- The lock after an input is met when it was met before and the input asks for no more. -/
theorem exists_raiseLock_iff :
    (∃ lock', raiseLock node view lock txIn = .ok lock' ∧ LockMet node lock') ↔
      LockMet node lock ∧ ∃ utxo, view.lookupEntry txIn.previousOutPoint = some utxo ∧
        InputLockMet node txIn utxo.blockHeight := by
  rw [raiseLock]
  cases view.lookupEntry txIn.previousOutPoint with
  | none =>
    constructor
    · rintro ⟨_, h, -⟩
      cases h
    · rintro ⟨-, _, h, -⟩
      cases h
  | some utxo =>
    simp only [some.injEq, exists_eq_left', InputLockMet, ite_neg_eq_max]
    by_cases hd : hasFlag txIn.sequence sequenceLockTimeDisabled = true
    · simp [hd]
    by_cases hs : hasFlag txIn.sequence sequenceLockTimeIsSeconds = true
    · simp only [hd, hs, if_true, if_false, Bool.false_eq_true]
      cases node.ancestor (max (inputHeight node utxo.blockHeight - 1) 0) with
      | none =>
        constructor
        · rintro ⟨_, h, -⟩
          cases h
        · rintro ⟨-, _, h, -⟩
          cases h
      | some blockNode =>
        simp only [Except.ok.injEq, some.injEq, exists_eq_left', lockMet_iff]
        split_ifs <;> omega
    · simp only [hd, hs, if_false, Bool.false_eq_true, Except.ok.injEq,
        exists_eq_left', lockMet_iff]
      split_ifs <;> omega

/-- **The lock of a transaction is met if and only if that of every input is.** -/
theorem exists_foldlM_raiseLock_iff {inputs : List TxIn} :
    (∃ lock', inputs.foldlM (raiseLock node view) lock = .ok lock' ∧ LockMet node lock') ↔
      LockMet node lock ∧ ∀ txIn ∈ inputs, ∃ utxo,
        view.lookupEntry txIn.previousOutPoint = some utxo ∧
          InputLockMet node txIn utxo.blockHeight := by
  induction inputs generalizing lock with
  | nil =>
    simp
  | cons txIn inputs ih =>
    rw [forall_mem_cons, ← and_assoc, ← exists_raiseLock_iff]
    constructor
    · rintro ⟨lock', h, hm⟩
      rw [foldlM_cons, bind_eq_ok] at h
      obtain ⟨lock₁, hr, h⟩ := h
      obtain ⟨hm₁, hi⟩ := ih.1 ⟨lock', h, hm⟩
      exact ⟨⟨lock₁, hr, hm₁⟩, hi⟩
    · rintro ⟨⟨lock₁, hr, hm₁⟩, hi⟩
      obtain ⟨lock', h, hm⟩ := ih.2 ⟨hm₁, hi⟩
      exact ⟨lock', by rw [foldlM_cons, hr]; exact h, hm⟩

/-! ### Where the lock panics -/

/-- **The time lock of an input refers to a block above the node.** -/
def TimeLockAhead (node : BlockNode) (view : UtxoViewpoint) (txIn : TxIn) : Prop :=
  hasFlag txIn.sequence sequenceLockTimeDisabled = false ∧
    hasFlag txIn.sequence sequenceLockTimeIsSeconds = true ∧
      ∃ utxo, view.lookupEntry txIn.previousOutPoint = some utxo ∧
        node.ancestor (max (inputHeight node utxo.blockHeight - 1) 0) = none

theorem raiseLock_cases :
    TimeLockAhead node view txIn ∧
        raiseLock node view lock txIn = .error (.panic .indexOutOfRange) ∨
      ¬TimeLockAhead node view txIn ∧ (view.lookupEntry txIn.previousOutPoint = none ∧
          raiseLock node view lock txIn = ruleError .errMissingTxOut ∨
        (∃ utxo, view.lookupEntry txIn.previousOutPoint = some utxo) ∧
          ∃ lock', raiseLock node view lock txIn = .ok lock') := by
  rw [raiseLock, TimeLockAhead]
  cases view.lookupEntry txIn.previousOutPoint with
  | none =>
    refine .inr ⟨fun h => ?_, .inl ⟨rfl, rfl⟩⟩
    obtain ⟨-, -, _, h, -⟩ := h
    cases h
  | some utxo =>
    simp only [some.injEq, exists_eq_left', ite_neg_eq_max]
    cases hasFlag txIn.sequence sequenceLockTimeDisabled with
    | true => simp
    | false =>
      cases hasFlag txIn.sequence sequenceLockTimeIsSeconds with
      | false => simp
      | true =>
        cases node.ancestor (max (inputHeight node utxo.blockHeight - 1) 0) with
        | none => exact .inl ⟨⟨rfl, rfl, rfl⟩, rfl⟩
        | some blockNode => simp

/-- **The loop over the inputs panics** at the first input that refers to a block above the node. -/
theorem noPanic_foldlM_raiseLock_iff {inputs : List TxIn} :
    Check.NoPanic (inputs.foldlM (raiseLock node view) lock) ↔
      ∀ before txIn after, inputs = before ++ txIn :: after →
        (∀ earlier ∈ before, ∃ utxo, view.lookupEntry earlier.previousOutPoint = some utxo) →
          ¬TimeLockAhead node view txIn := by
  induction inputs generalizing lock with
  | nil =>
    refine iff_of_true .ok fun before txIn after h => ?_
    exact absurd h.symm (append_ne_nil_of_right_ne_nil before (cons_ne_nil txIn after))
  | cons first inputs ih =>
    rw [foldlM_cons]
    obtain ⟨ha, hp⟩ | ⟨hno, ⟨hn, he⟩ | ⟨hso, lock', hok⟩⟩ := @raiseLock_cases node view lock first
    · rw [hp]
      refine iff_of_false not_noPanic_panic fun h => ?_
      exact h [] first inputs rfl (fun _ hm => absurd hm not_mem_nil) ha
    · rw [he]
      refine iff_of_true noPanic_error fun before txIn after hs hb => ?_
      cases before with
      | nil =>
        cases hs
        exact hno
      | cons earlier before =>
        cases hs
        obtain ⟨utxo, hu⟩ := hb first mem_cons_self
        rw [hn] at hu
        cases hu
    · rw [hok]
      refine (@ih lock').trans ⟨fun h before txIn after hs hb => ?_,
        fun h before txIn after hs hb => ?_⟩
      · cases before with
        | nil =>
          cases hs
          exact hno
        | cons earlier before =>
          cases hs
          exact h before txIn after rfl fun t ht => hb t (mem_cons_of_mem first ht)
      · exact h (first :: before) txIn after (congrArg (first :: ·) hs)
          (forall_mem_cons.2 ⟨hso, hb⟩)

/-- The same for the function, which makes no lock for a transaction of version one. -/
theorem noPanic_calcSequenceLockFor_iff {msgTx : MsgTx} (hc : isCoinBaseTx msgTx = false) :
    (calcSequenceLockFor node msgTx view true).NoPanic ↔
      (2 ≤ msgTx.version → ∀ before txIn after, msgTx.txIn = before ++ txIn :: after →
        (∀ earlier ∈ before, ∃ utxo, view.lookupEntry earlier.previousOutPoint = some utxo) →
          ¬TimeLockAhead node view txIn) := by
  rw [calcSequenceLockFor, hc]
  by_cases hv : 2 ≤ msgTx.version
  · rw [if_neg (by simp [hv]), noPanic_foldlM_raiseLock_iff]
    exact ⟨fun h _ => h, fun h => h hv⟩
  · rw [if_pos (.inl fun h => hv h.1)]
    exact iff_of_true .ok fun h => absurd h hv

end Locks

/-! ### The heights of the outputs that a block spends -/

section Heights

open Ledger UtxoViewpoint

/-- An output as it is before a block: what the view has, or else what the database has. -/
def baseEntry (utxoSet : UtxoSet) (view : UtxoViewpoint) (outpoint : OutPoint) : Option UtxoEntry :=
  (view.entries.lookup outpoint).getD (utxoSet.lookup outpoint)

/-- **The height of the output that an input of a block spends**: that of the block for an output of
the block itself. -/
def spentHeight (prim : Primitives) (utxoSet : UtxoSet) (view : UtxoViewpoint) (node : BlockNode)
    (block : Block) (outpoint : OutPoint) : Option Int :=
  if outpoint ∈ createdOutPoints prim block.msgBlock.transactions then some node.height
  else (baseEntry utxoSet view outpoint).map UtxoEntry.blockHeight

variable {env : Env} {prim : Primitives} {utxoSet : UtxoSet} {view view' : UtxoViewpoint}
  {transactions : List MsgTx} {tx : MsgTx} {outpoint : OutPoint} {entry : UtxoEntry}
  {blockHeight : Int} {node : BlockNode} {block : Block} {stxos : List SpentTxOut}
  {state : UtxoViewpoint × List OutPoint}

theorem created_eq_none (htx : tx ∈ transactions)
    (h : outpoint ∉ createdOutPoints prim transactions) :
    created (tx.coins prim blockHeight) outpoint = none := by
  cases hc : created (tx.coins prim blockHeight) outpoint with
  | none => rfl
  | some coin => exact absurd (mem_createdOutPoints htx (mem_of_created hc)) h

/-- While the view is filled, outputs from outside of the block stay as they are, and those that are
needed were not there. -/
structure Untouched (prim : Primitives) (transactions : List MsgTx) (view : UtxoViewpoint)
    (state : UtxoViewpoint × List OutPoint) : Prop where
  lookup_eq : ∀ o ∉ createdOutPoints prim transactions,
    state.1.entries.lookup o = view.entries.lookup o
  needed : ∀ o ∉ createdOutPoints prim transactions, o ∈ state.2 → view.entries.lookup o = none

theorem Untouched.fetchInput {i : Nat} (h : Untouched prim transactions view state) (txIn : TxIn) :
    Untouched prim transactions view (fetchInput prim transactions blockHeight i state txIn) := by
  -- the branch for an output that is not in flight
  have hn : Untouched prim transactions view (if txIn.previousOutPoint ∈ state.1.entries then state
        else (state.1, state.2 ++ [txIn.previousOutPoint])) := by
    split_ifs with hm
    · exact h
    refine ⟨h.lookup_eq, fun o ho hn => ?_⟩
    obtain hol | hnw := mem_append.1 hn
    · exact h.needed o ho hol
    · obtain rfl := mem_singleton.1 hnw
      rw [← h.lookup_eq _ ho]
      exact Finmap.lookup_eq_none.2 hm
  rw [UtxoViewpoint.fetchInput]
  cases hi : inFlightIndex prim transactions txIn.previousOutPoint.hash with
  | none => exact hn
  | some index =>
    obtain ⟨tx, htx, -⟩ := getElem?_inFlightIndex hi
    by_cases hle : index ≤ i
    · dsimp only
      rw [if_pos hle, htx]
      refine ⟨fun o ho => ?_, h.needed⟩
      have hno : created ((tx.coins prim blockHeight).map fun out =>
          (out.1, some out.2.fresh)) o = none := by
        rw [created_map fun coin : UtxoEntry => some coin.fresh,
          created_eq_none (mem_of_getElem? htx) ho]
        rfl
      rw [entries_addTxOuts, lookup_create, hno, none_or]
      exact h.lookup_eq o ho
    · dsimp only
      rw [if_neg hle]
      exact hn

theorem untouched_prefetch :
    Untouched prim transactions view (view.prefetch prim transactions blockHeight) :=
  List.foldlRecOn _ _ ⟨fun _ _ => rfl, fun _ _ hm => by cases hm⟩ fun _ h tx _ =>
    List.foldlRecOn _ _ h fun _ h txIn _ => h.fetchInput txIn

theorem baseEntry_of_fetchInputUtxos (ho : outpoint ∉ createdOutPoints prim transactions)
    (h : (view.fetchInputUtxos prim utxoSet transactions blockHeight).lookupEntry outpoint =
      some entry) : baseEntry utxoSet view outpoint = some entry := by
  have hu := @untouched_prefetch prim view transactions blockHeight
  rw [fetchInputUtxos_eq, lookupEntry_fetchUtxosMain] at h
  rw [baseEntry]
  split_ifs at h with hn
  · rw [hu.needed outpoint ho hn]
    exact h
  · rw [lookupEntry, hu.lookup_eq outpoint ho, join_eq_some_iff] at h
    rw [h]
    rfl

theorem baseEntry_of_viewAfterBIP0030
    (h : viewAfterBIP0030 env utxoSet node block view = .ok view') :
    baseEntry utxoSet view' outpoint = baseEntry utxoSet view outpoint := by
  rw [viewAfterBIP0030] at h
  split_ifs at h
  · rw [checkBIP0030, bind_eq_ok] at h
    obtain ⟨-, -, h⟩ := h
    cases h
    rw [baseEntry, baseEntry, fetchUtxos, entries_fetchUtxosMain, lookup_create]
    cases hc : created _ outpoint with
    | none => rw [none_or]
    | some loaded =>
      -- what is loaded was not there before
      obtain ⟨o, ho, heq⟩ := mem_map.1 (mem_of_created hc)
      cases heq
      have hn := of_decide_eq_true (mem_filter.1 ho).2
      rw [Finmap.lookup_eq_none.2 hn]
      rfl
  · cases h
    rfl

/-- **The heights in the view of a connected block.** -/
theorem exists_blockHeight_of_checkConnectBlock
    (h : checkConnectBlock env utxoSet node block view = .ok (view', stxos))
    (htx : tx ∈ block.msgBlock.transactions) (ho : outpoint ∈ tx.spends) :
    ∃ entry, view'.lookupEntry outpoint = some entry ∧
      spentHeight env.prim utxoSet view node block outpoint = some entry.blockHeight := by
  obtain ⟨-, -, view₁, hv₁, coinbaseTx, txs, parent, state, hc, rfl, -⟩ :=
    checkConnectBlock_eq_ok_iff.1 h
  rw [hc.transactions_eq] at htx
  obtain ⟨entry, he⟩ := exists_lookupEntry_foldlM_connectTx hc.connected
    (.inr (mem_flatMap.2 ⟨tx, htx, ho⟩))
  refine ⟨entry, he, ?_⟩
  rw [spentHeight, hc.transactions_eq]
  split_ifs with hcr
  · rw [blockHeight_of_foldlM_connectTx hc.connected hcr he]
  · -- an output from outside has been spent, and nothing else has happened to it
    rw [lookupEntry_foldlM_connectTx hc.connected hcr, if_pos (mem_flatMap.2 ⟨tx, htx, ho⟩)] at he
    obtain ⟨loaded, hl, rfl⟩ := map_eq_some_iff.1 he
    rw [← baseEntry_of_viewAfterBIP0030 hv₁, baseEntry_of_fetchInputUtxos hcr hl, blockHeight_spend]
    rfl

end Heights

/-! ### The locks of a connected block -/

/-- **The memory pool would let the transactions of a block pass** when the chain ends in `parent`.
-/
def RelativeLocksMet (parent node : BlockNode) (block : Block) (view : UtxoViewpoint) : Prop :=
  ∀ msgTx ∈ block.msgBlock.transactions, isCoinBaseTx msgTx = false → 2 ≤ msgTx.version →
    ∃ lock, calcSequenceLockFor parent msgTx view true = .ok lock ∧
      sequenceLockActive lock node.height parent.calcPastMedianTime = true

section Blocks

variable {env : Env} {utxoSet : UtxoSet} {view view' : UtxoViewpoint} {parent node : BlockNode}
  {block : Block} {stxos : List SpentTxOut} {tx : MsgTx}

theorem MsgTx.spends_of_not_isCoinBaseTx (h : isCoinBaseTx tx = false) :
    tx.spends = tx.txIn.map TxIn.previousOutPoint := by
  rw [MsgTx.spends, h]
  rfl

/-- **The connected blocks whose locks are met**: those that happen to meet them. -/
theorem relativeLocksMet_iff
    (hconnect : checkConnectBlock env utxoSet node block view = .ok (view', stxos))
    (hparent : node.parent = some parent) :
    RelativeLocksMet parent node block view' ↔
      ∀ msgTx ∈ block.msgBlock.transactions, isCoinBaseTx msgTx = false → 2 ≤ msgTx.version →
        ∀ txIn ∈ msgTx.txIn, ∀ height,
          spentHeight env.prim utxoSet view node block txIn.previousOutPoint = some height →
            InputLockMet parent txIn height := by
  -- the lock that all transactions of a block have is met
  have hst : sequenceLockActive ⟨-1, -1⟩ node.height parent.calcPastMedianTime = true := by
    obtain ⟨-, -, view₁, -, coinbaseTx, txs, parent', state, hco, -⟩ :=
      checkConnectBlock_eq_ok_iff.1 hconnect
    cases hparent.symm.trans hco.parent_eq
    exact hco.locks
  refine forall₄_congr fun msgTx hm hc hv => ?_
  have hl : calcSequenceLockFor parent msgTx view' true =
      msgTx.txIn.foldlM (raiseLock parent view') ⟨-1, -1⟩ := by
    rw [calcSequenceLockFor, hc, if_neg]
    rintro (hn | hcn)
    · exact hn ⟨hv, rfl⟩
    · cases hcn
  have hi := @exists_foldlM_raiseLock_iff parent view' ⟨-1, -1⟩ msgTx.txIn
  simp only [LockMet, ← BlockNode.height_of_parent hparent] at hi
  rw [hl, hi, and_iff_right hst]
  refine forall₂_congr fun txIn ht => ?_
  -- what the input spends is in the view, with the height it had before
  have hs : txIn.previousOutPoint ∈ msgTx.spends := by
    rw [MsgTx.spends_of_not_isCoinBaseTx hc]
    exact mem_map_of_mem ht
  obtain ⟨entry, he, hh⟩ := exists_blockHeight_of_checkConnectBlock hconnect hm hs
  simp [he, hh]

end Blocks

/-- A payment of version 2 from the output of the database, with the given sequence number. -/
def lockedPayment (sequence : UInt32) : MsgTx where
  version := 2
  txIn := [⟨storedOutPoint, [], [], sequence⟩]
  txOut := [⟨5, [0x51]⟩]
  lockTime := 0

/-- A payment that asks for ten blocks is connected in the first one. -/
theorem lockedPayment_not_relativeLocksMet :
    ∃ view' stxos, checkConnectBlock sampleEnv storedUtxos paymentNode
        (paymentBlock [sampleCoinbase 1, lockedPayment 10]) (.new sampleEnv.genesisHash) =
          .ok (view', stxos) ∧
      paymentNode.parent = some sampleEnv.genesisNode ∧
      ¬RelativeLocksMet sampleEnv.genesisNode paymentNode
        (paymentBlock [sampleCoinbase 1, lockedPayment 10]) view' := by
  have hch : (checkConnectBlock sampleEnv storedUtxos paymentNode
      (paymentBlock [sampleCoinbase 1, lockedPayment 10]) (.new sampleEnv.genesisHash)).map
        (fun out => (calcSequenceLockFor sampleEnv.genesisNode (lockedPayment 10) out.1 true).map
          fun lock => sequenceLockActive lock paymentNode.height
            sampleEnv.genesisNode.calcPastMedianTime) = .ok (.ok false) := by
    decide +kernel
  obtain ⟨⟨view', stxos⟩, hc, hl⟩ := map_eq_ok.1 hch
  refine ⟨view', stxos, hc, rfl, fun hm => ?_⟩
  obtain ⟨lock, heq, ha⟩ := hm (lockedPayment 10)
    (mem_cons_of_mem _ mem_cons_self) (by decide) (by decide)
  rw [heq] at hl
  cases ha.symm.trans (Except.ok.inj hl)

/-- A payment that asks for one block. -/
theorem relativeLocksMet_lockedPayment :
    ∃ view' stxos, checkConnectBlock sampleEnv storedUtxos paymentNode
        (paymentBlock [sampleCoinbase 1, lockedPayment 1]) (.new sampleEnv.genesisHash) =
          .ok (view', stxos) ∧
      RelativeLocksMet sampleEnv.genesisNode paymentNode
        (paymentBlock [sampleCoinbase 1, lockedPayment 1]) view' := by
  have hch : (checkConnectBlock sampleEnv storedUtxos paymentNode
      (paymentBlock [sampleCoinbase 1, lockedPayment 1]) (.new sampleEnv.genesisHash)).map
        (fun _ => ()) = .ok () := by
    decide +kernel
  have hh : spentHeight sampleEnv.prim storedUtxos (.new sampleEnv.genesisHash) paymentNode
      (paymentBlock [sampleCoinbase 1, lockedPayment 1]) storedOutPoint = some 0 := by
    decide +kernel
  obtain ⟨⟨view', stxos⟩, hc, -⟩ := map_eq_ok.1 hch
  refine ⟨view', stxos, hc, (relativeLocksMet_iff hc rfl).2 ?_⟩
  refine forall_mem_cons.2 ⟨fun hco => ?_, forall_mem_singleton.2 ?_⟩
  · exact absurd hco (by decide)
  · intro _ _
    refine forall_mem_singleton.2 fun height hs => ?_
    cases hh.symm.trans hs
    rw [InputLockMet]
    decide +kernel

end DrcNode
