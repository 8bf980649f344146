import DrcNode.Mempool.TxPool

/-!
# Accepting a transaction into the memory pool

`maybeAcceptTransaction` looks a transaction up, checks it, and adds it to the pool when all its
inputs are there and the checks pass. Two of these checks can panic on what a peer sends. A
transaction with a witness makes the pool call a function that the server leaves out of the
configuration, and a pay-to-script-hash output that is spent with an empty signature script makes
the count of signature operations slice the empty script.

## Main results

* `noPanic_preScriptChecks_iff`.

Source: `fetchInputUtxos`, `maybeAcceptTransaction` and `addTransaction` in `mempool/mempool.go`;
the configuration of the pool in `server.go`. What the pool asks of the chain and the clock does not
change during a call.
-/

namespace DrcNode

open Checked List TxCheck

/-- What the memory pool reads from outside during a call. -/
structure PoolContext where
  tip : BlockNode
  utxoSet : UtxoSet
  isDeploymentActive : Option (Except GoError Bool)
  now : Int

/-- What `maybeAcceptTransaction` returns without an error. The missing parents come in the order of
a loop over a map. -/
inductive Acceptance
  | missingParents (hashes : Multiset Hash)
  | accepted (txDesc : PoolTxDesc)
  deriving DecidableEq

def UtxoViewpoint.removeEntry (view : UtxoViewpoint) (outpoint : OutPoint) : UtxoViewpoint :=
  { view with entries := view.entries.erase outpoint }

namespace TxPool

variable (env : Env) (policy : TxPolicy) (ctx : PoolContext) (tx : MsgTx) (view : UtxoViewpoint)

/-! ### The checks -/

/-- A transaction with a witness needs segregated witness to be active. -/
def checkWitness : TxCheck Unit :=
  if tx.hasWitness then
    match ctx.isDeploymentActive with
    | none => .error (.panic .nilPointer)
    | some (.error e) => .error (.error (.chainError e))
    | some (.ok segwitActive) => requireTx (segwitActive = true) .rejectNonstandard
  else .ok ()

/-- The check for standard transactions, unless others are accepted too. -/
def checkStandard : TxCheck Unit :=
  if policy.acceptNonStd then .ok ()
  else checkTransactionStandard tx (ctx.tip.height + 1) ctx.tip.calcPastMedianTime
    policy.minRelayTxFee policy.maxTxVersion

/-- The checks of `maybeAcceptTransaction` before the inputs are looked up. -/
def checkNew (rejectDupOrphans : Bool) (pool : TxPool) : TxCheck Unit := do
  checkWitness ctx tx
  requireTx (tx.txHash env.prim ∉ pool.pool ∧
    (rejectDupOrphans = true → tx.txHash env.prim ∉ pool.orphans)) .rejectDuplicate
  TxCheck.ofCheck (checkTransactionSanity tx)
  requireTx (isCoinBaseTx tx = false) .rejectInvalid
  checkStandard policy ctx tx
  pool.checkPoolDoubleSpend tx

/-- One round of the loop of `fetchInputUtxos`. -/
def fetchInput (pool : TxPool) (view : UtxoViewpoint) (prevOut : OutPoint) : UtxoViewpoint :=
  if availableIn view prevOut then view
  else
    match pool.pool.lookup prevOut.hash with
    | none => view
    | some poolTxDesc =>
        match poolTxDesc.tx.txOut[prevOut.index.toNat]? with
        | none => view
        | some txOut =>
            view.addTxOut ⟨poolTxDesc.tx.txHash env.prim, prevOut.index⟩ txOut
              (isCoinBaseTx poolTxDesc.tx) unminedHeight

def fetchInputUtxos (pool : TxPool) : UtxoViewpoint :=
  tx.inputs.foldl (fetchInput env pool) (fetchUtxoView env ctx.utxoSet tx)

/-- One round of the loop over the outputs of the transaction itself. -/
def checkOwnOutput (outpoint : OutPoint) : TxCheck UtxoViewpoint := do
  requireTx (availableIn view outpoint = false) .rejectDuplicate
  pure (view.removeEntry outpoint)

/-- The transaction must not have unspent outputs already; the view without them. -/
def checkOwnOutputs : TxCheck UtxoViewpoint :=
  (tx.outputs env.prim).foldlM checkOwnOutput view

/-- The hashes of the outputs that are missing or spent. -/
def missingParents : Multiset Hash :=
  (view.entries.keys.val.filter fun outpoint => availableIn view outpoint = false).map OutPoint.hash

/-- The check for standard inputs, unless others are accepted too. -/
def checkStandardInputs : TxCheck Unit :=
  if policy.acceptNonStd then .ok () else checkInputsStandard tx view

/-- The limit on the cost of the signature operations. -/
def checkSigOps : TxCheck Unit := do
  let sigOpCost ← TxCheck.ofCheck (getSigOpCostFor tx false view true true)
  requireTx (sigOpCost ≤ policy.maxSigOpCostPerTx) .rejectNonstandard

/-- The checks on the inputs, with the fee of the transaction. -/
def checkInputs : TxCheck Int64 := do
  let sequenceLock ← TxCheck.ofCheck (calcSequenceLockFor ctx.tip tx view true)
  requireTx (sequenceLockActive sequenceLock (ctx.tip.height + 1) ctx.tip.calcPastMedianTime = true)
    .rejectNonstandard
  let txFee ← TxCheck.ofCheck (checkTransactionInputs env tx (ctx.tip.height + 1) view)
  checkStandardInputs policy tx view
  checkSigOps policy tx view
  pure txFee

def minFee : Int64 := calcMinRequiredTxRelayFee (getTxVirtualSize tx) policy.minRelayTxFee

/-- The checks on the fee. -/
def checkFee (isNew : Bool) (txFee : Int64) : TxCheck Unit := do
  requireTx (¬(defaultBlockPrioritySize - 1000 ≤ getTxVirtualSize tx ∧ txFee < minFee policy tx))
    .rejectInsufficientFee
  requireTx (¬(isNew = true ∧ policy.disableRelayPriority = false ∧ txFee < minFee policy tx ∧
    calcPriority tx view (ctx.tip.height + 1) ≤ minHighPriority)) .rejectInsufficientFee

/-- The end of the checks before the scripts: the missing parents, or the view and the fee. -/
def checkFound (isNew : Bool) (view : UtxoViewpoint) :
    TxCheck (Multiset Hash ⊕ (UtxoViewpoint × Int64)) :=
  if missingParents view ≠ 0 then .ok (.inl (missingParents view))
  else do
    let txFee ← checkInputs env policy ctx tx view
    checkFee policy ctx tx view isNew txFee
    pure (.inr (view, txFee))

/-- **All checks that are made before the scripts are run.** -/
def preScriptChecks (isNew rejectDupOrphans : Bool) (pool : TxPool) :
    TxCheck (Multiset Hash ⊕ (UtxoViewpoint × Int64)) := do
  checkNew env policy ctx tx rejectDupOrphans pool
  let view ← checkOwnOutputs env tx (fetchInputUtxos env ctx tx pool)
  checkFound env policy ctx tx isNew view

/-! ### The end of the function -/

/-- The rate limit for free transactions. The counter decays by a factor for every second. -/
def limitRate (pool : TxPool) : TxPool × Except TxError Unit :=
  let nowUnix := ctx.now / 1000000000
  let pennyTotal := pool.pennyTotal * (1 - 1 / 600) ^ (nowUnix - pool.lastPennyUnix)
  if policy.freeTxRelayLimit * 10 * 1000 ≤ pennyTotal then
    ({ pool with pennyTotal, lastPennyUnix := nowUnix },
      .error (.txRuleError .rejectInsufficientFee))
  else
    ({ pool with
        pennyTotal := pennyTotal + (getTxVirtualSize tx).toInt, lastPennyUnix := nowUnix },
      .ok ())

/-- Free transactions are limited when `rateLimit` is set. -/
def limitFree (rateLimit : Bool) (txFee : Int64) (pool : TxPool) : TxPool × Except TxError Unit :=
  if rateLimit && decide (txFee < minFee policy tx) then limitRate policy ctx tx pool
  else (pool, .ok ())

def validateTransactionScripts : Check Unit :=
  tx.txIn.zipIdx.forM (checkInputScript env.prim view standardVerifyFlags tx)

/-- The descriptor that `addTransaction` creates. The virtual size is never zero. -/
def newTxDesc (fee : Int64) : PoolTxDesc where
  tx := tx
  fee := fee
  feePerKB := fee * 1000 / getTxVirtualSize tx
  added := ctx.now
  height := ctx.tip.height
  startingPriority := calcPriority tx view ctx.tip.height

def addTransaction (txDesc : PoolTxDesc) (pool : TxPool) : TxPool :=
  { pool with
    pool := pool.pool.insert (txDesc.tx.txHash env.prim) txDesc
    outpoints := txDesc.tx.inputs.foldl
      (fun outpoints outpoint => outpoints.insert outpoint txDesc.tx) pool.outpoints }

/-- The scripts are run, and the transaction is added. -/
def finishAccept (txFee : Int64) (pool : TxPool) :
    Except PoolStop (TxPool × Except TxError Acceptance) :=
  match validateTransactionScripts env tx view with
  | .error (.panic p) => .error (.panic p)
  | .error (.error e) => .ok (pool, .error (.chainError e))
  | .ok _ =>
      .ok (pool.addTransaction env (newTxDesc ctx tx view txFee),
        .ok (.accepted (newTxDesc ctx tx view txFee)))

def maybeAcceptTransaction (isNew rateLimit rejectDupOrphans : Bool) (pool : TxPool) :
    Except PoolStop (TxPool × Except TxError Acceptance) :=
  match preScriptChecks env policy ctx tx isNew rejectDupOrphans pool with
  | .error (.panic p) => .error (.panic p)
  | .error (.error e) => .ok (pool, .error e)
  | .ok (.inl hashes) => .ok (pool, .ok (.missingParents hashes))
  | .ok (.inr found) =>
      match (limitFree policy ctx tx rateLimit found.2 pool).2 with
      | .error e => .ok ((limitFree policy ctx tx rateLimit found.2 pool).1, .error e)
      | .ok _ =>
          finishAccept env ctx tx found.1 found.2
            (limitFree policy ctx tx rateLimit found.2 pool).1

/-! ### Where the checks panic -/

/-- The checks before the lookup pass, all inputs are found, and `view` has them. -/
def FindsInputs (rejectDupOrphans : Bool) (pool : TxPool) (view : UtxoViewpoint) : Prop :=
  checkNew env policy ctx tx rejectDupOrphans pool = .ok () ∧
    checkOwnOutputs env tx (fetchInputUtxos env ctx tx pool) = .ok view ∧ missingParents view = 0

/-- The checks on the inputs pass up to the count of the signature operations. -/
def ReachesSigOps : Prop :=
  (∃ sequenceLock, calcSequenceLockFor ctx.tip tx view true = .ok sequenceLock ∧
    sequenceLockActive sequenceLock (ctx.tip.height + 1) ctx.tip.calcPastMedianTime = true) ∧
  (∃ txFee, checkTransactionInputs env tx (ctx.tip.height + 1) view = .ok txFee) ∧
  checkStandardInputs policy tx view = .ok ()

/-- **The transactions on which the checks return.** -/
structure PanicFree (rejectDupOrphans : Bool) (pool : TxPool) : Prop where
  deployment : tx.hasWitness = true → ctx.isDeploymentActive ≠ none
  locks : ∀ view, FindsInputs env policy ctx tx rejectDupOrphans pool view → 2 ≤ tx.version →
    ∀ before txIn after, tx.txIn = before ++ txIn :: after →
      (∀ earlier ∈ before, ∃ utxo, view.lookupEntry earlier.previousOutPoint = some utxo) →
        ¬TimeLockAhead ctx.tip view txIn
  scripts : ∀ view, FindsInputs env policy ctx tx rejectDupOrphans pool view →
    ReachesSigOps env policy ctx tx view → ∀ txIn ∈ tx.txIn, ¬EmptyScriptHashInput view txIn

variable {env policy ctx tx} {view : UtxoViewpoint} {pool pool' : TxPool}
  {isNew rateLimit rejectDupOrphans : Bool}

theorem noPanic_checkWitness_iff :
    (checkWitness ctx tx).NoPanic ↔ (tx.hasWitness = true → ctx.isDeploymentActive ≠ none) := by
  rw [checkWitness]
  split_ifs with hw
  · rw [forall_prop_of_true hw]
    cases ctx.isDeploymentActive with
    | none =>
      refine iff_of_false (fun h => ?_) fun h => h rfl
      obtain ⟨e, he⟩ := h _ rfl
      cases he
    | some active =>
      cases active with
      | error e =>
        exact iff_of_true (fun _ h => ⟨.chainError e, (Except.error.inj h).symm⟩)
          (Option.some_ne_none _)
      | ok segwitActive =>
        exact iff_of_true noPanic_requireTx (Option.some_ne_none _)
  · exact iff_of_true .ok fun h => absurd h hw

theorem noPanic_checkNew_iff : (checkNew env policy ctx tx rejectDupOrphans pool).NoPanic ↔
    (tx.hasWitness = true → ctx.isDeploymentActive ≠ none) := by
  rw [checkNew, noPanic_bind_iff, noPanic_checkWitness_iff, and_iff_left]
  have hs : (checkStandard policy ctx tx).NoPanic := by
    rw [checkStandard]
    split_ifs
    · exact .ok
    · exact noPanic_checkTransactionStandard
  refine fun _ _ => noPanic_requireTx.seq ?_
  refine (noPanic_ofCheck_iff.2 (noPanic_checkTransactionSanity tx)).seq ?_
  exact noPanic_requireTx.seq <| hs.seq noPanic_requireTx

theorem noPanic_checkOwnOutputs : (checkOwnOutputs env tx view).NoPanic :=
  Checked.FailsOnly.foldlM fun _ _ _ => noPanic_requireTx.seq .ok

theorem isCoinBaseTx_of_checkNew
    (h : checkNew env policy ctx tx rejectDupOrphans pool = .ok ()) : isCoinBaseTx tx = false := by
  simp only [checkNew, bind_eq_ok, requireTx_eq_ok] at h
  obtain ⟨_, -, _, -, _, -, _, hc, -⟩ := h
  exact hc

theorem available_of_checkTransactionInputs {txFee : Int64} {txHeight : Nat}
    (hc : isCoinBaseTx tx = false) (h : checkTransactionInputs env tx txHeight view = .ok txFee) :
    ∀ txIn ∈ tx.txIn, availableIn view txIn.previousOutPoint = true := by
  intro txIn ht
  have hm : txIn.previousOutPoint ∈ tx.spends := by
    rw [MsgTx.spends, hc]
    exact mem_map_of_mem ht
  obtain ⟨utxo, hu, hsp, -⟩ := spendable_of_checkTransactionInputs h _ hm
  exact availableIn_eq_true_iff.2 ⟨utxo, hu, hsp⟩

theorem noPanic_checkSigOps_iff : (checkSigOps policy tx view).NoPanic ↔
    ((∀ txIn ∈ tx.txIn, availableIn view txIn.previousOutPoint = true) →
      ∀ txIn ∈ tx.txIn, ¬EmptyScriptHashInput view txIn) := by
  rw [checkSigOps, noPanic_bind_iff, noPanic_ofCheck_iff,
    noPanic_getSigOpCostFor_iff]
  exact and_iff_left fun _ _ => noPanic_requireTx

theorem noPanic_checkStandardInputs
    (h : ∀ txIn ∈ tx.txIn, availableIn view txIn.previousOutPoint = true) :
    (checkStandardInputs policy tx view).NoPanic := by
  rw [checkStandardInputs]
  split_ifs
  · exact .ok
  · refine noPanic_checkInputsStandard fun txIn ht => ?_
    obtain ⟨entry, he, -⟩ := availableIn_eq_true_iff.1 (h txIn ht)
    exact ⟨entry, he⟩

theorem noPanic_checkInputs_iff (hc : isCoinBaseTx tx = false) :
    (checkInputs env policy ctx tx view).NoPanic ↔
      (calcSequenceLockFor ctx.tip tx view true).NoPanic ∧ (ReachesSigOps env policy ctx tx view →
          ∀ txIn ∈ tx.txIn, ¬EmptyScriptHashInput view txIn) := by
  rw [checkInputs, noPanic_bind_iff, noPanic_ofCheck_iff]
  refine and_congr_right fun _ => ⟨fun h hre => ?_, fun h sequenceLock hl => ?_⟩
  · obtain ⟨⟨sequenceLock, hl, ha⟩, ⟨txFee, hf⟩, hs⟩ := hre
    have hr := (noPanic_bind_iff.1 (h sequenceLock (ofCheck_eq_ok.2 hl))).2
      () (requireTx_eq_ok.2 ha)
    have hr := (noPanic_bind_iff.1 hr).2 txFee (ofCheck_eq_ok.2 hf)
    have hr := (noPanic_bind_iff.1 hr).2 () hs
    exact noPanic_checkSigOps_iff.1 (noPanic_bind_iff.1 hr).1
      (available_of_checkTransactionInputs hc hf)
  · refine noPanic_requireTx.bind fun _ ha => ?_
    refine (noPanic_ofCheck_iff.2 (noPanic_checkTransactionInputs tx)).bind
      fun txFee hf => ?_
    have hf := ofCheck_eq_ok.1 hf
    have hav := available_of_checkTransactionInputs hc hf
    refine (noPanic_checkStandardInputs hav).bind fun _ hs => ?_
    refine (noPanic_checkSigOps_iff.2 fun _ => h ⟨⟨sequenceLock, ?_, ?_⟩, ⟨txFee, hf⟩,
      hs⟩).seq .ok
    · exact ofCheck_eq_ok.1 hl
    · exact requireTx_eq_ok.1 ha

theorem noPanic_checkFound_iff (hc : isCoinBaseTx tx = false) :
    (checkFound env policy ctx tx isNew view).NoPanic ↔
      (missingParents view = 0 → (calcSequenceLockFor ctx.tip tx view true).NoPanic ∧
        (ReachesSigOps env policy ctx tx view →
          ∀ txIn ∈ tx.txIn, ¬EmptyScriptHashInput view txIn)) := by
  rw [checkFound]
  split_ifs with hm
  · exact iff_of_true .ok fun h => absurd h hm
  · rw [noPanic_bind_iff, noPanic_checkInputs_iff hc]
    refine ⟨fun h _ => h.1, fun h => ⟨h (not_not.1 hm), fun _ _ => ?_⟩⟩
    exact (noPanic_requireTx.seq noPanic_requireTx).seq .ok

/-- **The checks before the scripts return just on these transactions.** -/
theorem noPanic_preScriptChecks_iff :
    (preScriptChecks env policy ctx tx isNew rejectDupOrphans pool).NoPanic ↔
      PanicFree env policy ctx tx rejectDupOrphans pool := by
  have ha : ∀ view, checkNew env policy ctx tx rejectDupOrphans pool = .ok () →
      ((checkFound env policy ctx tx isNew view).NoPanic ↔
        (missingParents view = 0 → (2 ≤ tx.version → ∀ before txIn after,
            tx.txIn = before ++ txIn :: after →
              (∀ earlier ∈ before, ∃ utxo, view.lookupEntry earlier.previousOutPoint = some utxo) →
                ¬TimeLockAhead ctx.tip view txIn) ∧
          (ReachesSigOps env policy ctx tx view →
            ∀ txIn ∈ tx.txIn, ¬EmptyScriptHashInput view txIn))) := by
    intro view hn
    have hc := isCoinBaseTx_of_checkNew hn
    rw [noPanic_checkFound_iff hc, noPanic_calcSequenceLockFor_iff hc]
  rw [preScriptChecks, noPanic_bind_iff, noPanic_checkNew_iff]
  constructor
  · rintro ⟨hd, hr⟩
    have hv : ∀ view, FindsInputs env policy ctx tx rejectDupOrphans pool view →
        (checkFound env policy ctx tx isNew view).NoPanic := by
      rintro view ⟨hn, ho, -⟩
      exact (noPanic_bind_iff.1 (hr () hn)).2 view ho
    exact ⟨hd, fun view hf => ((ha view hf.1).1 (hv view hf) hf.2.2).1,
      fun view hf => ((ha view hf.1).1 (hv view hf) hf.2.2).2⟩
  · intro h
    refine ⟨h.deployment, fun _ hn => noPanic_checkOwnOutputs.bind fun view ho => ?_⟩
    refine (ha view hn).2 fun hm => ⟨?_, ?_⟩
    · exact h.locks view ⟨hn, ho, hm⟩
    · exact h.scripts view ⟨hn, ho, hm⟩

/-! ### What the function does to the pool -/

/-- The four maps are the same. -/
structure SameMaps (pool pool' : TxPool) : Prop where
  pool_eq : pool'.pool = pool.pool
  orphans_eq : pool'.orphans = pool.orphans
  orphansByPrev_eq : pool'.orphansByPrev = pool.orphansByPrev
  outpoints_eq : pool'.outpoints = pool.outpoints

theorem SameMaps.refl : SameMaps pool pool := ⟨rfl, rfl, rfl, rfl⟩

theorem sameMaps_limitFree {txFee : Int64} :
    SameMaps pool (limitFree policy ctx tx rateLimit txFee pool).1 := by
  rw [limitFree]
  split_ifs
  · rw [limitRate]
    split_ifs <;> exact ⟨rfl, rfl, rfl, rfl⟩
  · exact .refl

/-- What has been checked of a transaction that is accepted. -/
structure Fresh (prim : Primitives) (rejectDupOrphans : Bool) (tx : MsgTx) (pool : TxPool) :
    Prop where
  notMem_pool : tx.txHash prim ∉ pool.pool
  notMem_orphans : rejectDupOrphans = true → tx.txHash prim ∉ pool.orphans
  notMem_outpoints : ∀ outpoint ∈ tx.inputs, outpoint ∉ pool.outpoints

theorem fresh_of_checkNew (h : checkNew env policy ctx tx rejectDupOrphans pool = .ok ()) :
    Fresh env.prim rejectDupOrphans tx pool := by
  simp only [checkNew, checkPoolDoubleSpend, bind_eq_ok, requireTx_eq_ok] at h
  obtain ⟨_, -, _, hn, _, -, _, -, _, -, hs⟩ := h
  exact ⟨hn.1, hn.2, hs⟩

theorem preScriptChecks_eq_ok {r : Multiset Hash ⊕ (UtxoViewpoint × Int64)}
    (h : preScriptChecks env policy ctx tx isNew rejectDupOrphans pool = .ok r) :
    checkNew env policy ctx tx rejectDupOrphans pool = .ok () ∧
      ∃ view, checkOwnOutputs env tx (fetchInputUtxos env ctx tx pool) = .ok view ∧
        checkFound env policy ctx tx isNew view = .ok r := by
  rw [preScriptChecks, bind_eq_ok] at h
  obtain ⟨_, hn, h⟩ := h
  rw [bind_eq_ok] at h
  exact ⟨hn, h⟩

/-- The hashes that the checks return are those of missing parents, and there are some. -/
theorem missingParents_of_checkFound {hashes : Multiset Hash}
    (h : checkFound env policy ctx tx isNew view = .ok (.inl hashes)) :
    missingParents view ≠ 0 ∧ hashes = missingParents view := by
  rw [checkFound] at h
  split_ifs at h with hm
  · exact ⟨hm, (Sum.inl.inj (Except.ok.inj h)).symm⟩
  · simp only [bind_eq_ok, pure_eq_ok, reduceCtorEq, and_false, exists_false] at h

/-- **What `maybeAcceptTransaction` can do to the pool.** -/
theorem maybeAccept_cases {result : Except TxError Acceptance}
    (h : maybeAcceptTransaction env policy ctx tx isNew rateLimit rejectDupOrphans pool =
      .ok (pool', result)) :
    (∃ e, result = .error e ∧ SameMaps pool pool') ∨
      (∃ view, result = .ok (.missingParents (missingParents view)) ∧ pool' = pool ∧
        checkNew env policy ctx tx rejectDupOrphans pool = .ok () ∧
        checkOwnOutputs env tx (fetchInputUtxos env ctx tx pool) = .ok view ∧
          missingParents view ≠ 0) ∨
      ∃ txDesc limited, result = .ok (.accepted txDesc) ∧ txDesc.tx = tx ∧ SameMaps pool limited ∧
        pool' = limited.addTransaction env txDesc ∧ Fresh env.prim rejectDupOrphans tx pool := by
  rw [maybeAcceptTransaction] at h
  match hc : preScriptChecks env policy ctx tx isNew rejectDupOrphans pool with
  | .error (.panic p) =>
    rw [hc] at h
    cases h
  | .error (.error e) =>
    rw [hc] at h
    cases h
    exact .inl ⟨e, rfl, .refl⟩
  | .ok (.inl hashes) =>
    rw [hc] at h
    cases h
    obtain ⟨hn, view, hv, hf⟩ := preScriptChecks_eq_ok hc
    obtain ⟨hm, rfl⟩ := missingParents_of_checkFound hf
    exact .inr (.inl ⟨view, rfl, rfl, hn, hv, hm⟩)
  | .ok (.inr found) =>
    have hfr := fresh_of_checkNew (preScriptChecks_eq_ok hc).1
    rw [hc] at h
    dsimp only at h
    split at h
    · cases h
      exact .inl ⟨_, rfl, sameMaps_limitFree⟩
    rw [finishAccept] at h
    match hs : validateTransactionScripts env tx found.1 with
    | .error (.panic p) =>
      rw [hs] at h
      cases h
    | .error (.error e) =>
      rw [hs] at h
      cases h
      exact .inl ⟨.chainError e, rfl, sameMaps_limitFree⟩
    | .ok u =>
      rw [hs] at h
      cases h
      exact .inr (.inr ⟨_, _, rfl, rfl, sameMaps_limitFree, rfl, hfr⟩)

theorem sameMaps_of_error {e : TxError}
    (h : maybeAcceptTransaction env policy ctx tx isNew rateLimit rejectDupOrphans pool =
      .ok (pool', .error e)) : SameMaps pool pool' := by
  obtain ⟨_, -, hs⟩ | ⟨_, h', -⟩ | ⟨_, _, h', -⟩ := maybeAccept_cases h
  · exact hs
  · cases h'
  · cases h'

end TxPool

/-! ### A transaction that panics -/

/-- The policy of a node with the default configuration. -/
def defaultPolicy : TxPolicy where
  maxTxVersion := 2
  disableRelayPriority := false
  acceptNonStd := false
  freeTxRelayLimit := 15
  maxOrphanTxs := 100
  maxOrphanTxSize := 100000
  maxSigOpCostPerTx := 20000
  minRelayTxFee := 1000

/-- A pay-to-script-hash script. -/
def sampleScriptHash : List UInt8 :=
  [Opcode.hash160, Opcode.data20] ++ List.replicate 20 0 ++ [Opcode.equal]

/-- A transaction that spends an output of the given scripts and pays to a public key hash. -/
def sampleSpend (prevOut : OutPoint) (signatureScript : List UInt8) (value : Int64) : MsgTx where
  version := 1
  txIn := [{ previousOutPoint := prevOut, signatureScript, witness := [], sequence := 0xffffffff }]
  txOut := [{ value, pkScript := Engine.payToPubKeyHashScript (List.replicate 20 0) }]
  lockTime := 0

/-- The chain has a genesis block and one more output, which has the given script. -/
def sampleContext (prevOut : OutPoint) (pkScript : List UInt8) : PoolContext where
  tip := (BlockChain.createChainState sampleEnv).tip
  utxoSet := (∅ : UtxoSet).insert prevOut
    { amount := 100000, pkScript, blockHeight := 0, isCoinBase := false }
  isDeploymentActive := none
  now := 0

/-- **A peer crashes the node**: it spends a pay-to-script-hash output with an empty signature
script. -/
theorem preScriptChecks_panics :
    let tx := sampleSpend ⟨1, 0⟩ [] 90000
    let ctx := sampleContext ⟨1, 0⟩ sampleScriptHash
    readMsgTx tx.serialize = some (tx, []) ∧
      TxPool.preScriptChecks sampleEnv defaultPolicy ctx tx true true (.new 0) =
          .error (.panic .indexOutOfRange) ∧
        TxPool.preScriptChecks sampleEnv { defaultPolicy with acceptNonStd := true } ctx tx true
          true (.new 0) = .error (.panic .indexOutOfRange) := by
  refine ⟨?_, ?_, ?_⟩ <;> decide +kernel

end DrcNode
