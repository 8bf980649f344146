import DrcNode.Mempool.Process

/-!
# Orphans that have all their inputs

When a transaction is accepted, `processOrphans` visits its outputs, and tries the orphans that
spend them until one of them is accepted or refused. When one has been accepted the others are
double spends. But when one has been refused they are not, and the visit still ends there: an orphan
that the pool refuses hides the others that spend the same output, if it comes before them.

## Main results

* `processOrphans_complete`.

Source: `processOrphans` in `mempool/mempool.go`, whose comment says that several orphans are kept
for an output so that nobody can make it unspendable with an orphan of their own.
-/

namespace DrcNode

open Checked Finmap List Option UtxoViewpoint TxPool Processing Runs Opcode

namespace TxPool

variable {env : Env} {policy : TxPolicy} {ctx : PoolContext} {order : MapOrder}
  {pool pool' : TxPool} {tx : MsgTx} {outpoint : OutPoint} {view view' : UtxoViewpoint}
  {txOut : TxOut} {prevOut : OutPoint} {outpoints : List OutPoint} {txDesc : PoolTxDesc}

/-! ### What the pool knows -/

/-- An output is unspent in the chain, or it is an output of a transaction of the pool. -/
def Available (ctx : PoolContext) (pool : TxPool) (outpoint : OutPoint) : Prop :=
  (∃ entry ∈ ctx.utxoSet.lookup outpoint, entry.isSpent = false) ∨
    ∃ txDesc ∈ pool.pool.lookup outpoint.hash,
      ∃ txOut ∈ txDesc.tx.txOut[outpoint.index.toNat]?, isUnspendable txOut.pkScript = false
  deriving Decidable

/-- A transaction has an input that the pool does not know. -/
def MissingInput (ctx : PoolContext) (pool : TxPool) (tx : MsgTx) : Prop :=
  ∃ outpoint ∈ tx.inputs, ¬Available ctx pool outpoint

/-- Whether an input is missing depends on the chain and on the transactions of the pool. -/
theorem MissingInput.congr (h : MissingInput ctx pool tx) (hp : pool'.pool = pool.pool) :
    MissingInput ctx pool' tx := by
  obtain ⟨outpoint, hm, hn⟩ := h
  refine ⟨outpoint, hm, ?_⟩
  rw [Available, hp]
  exact hn

theorem availableIn_addTxOut {o : OutPoint} {isCoinBase : Bool} {height : Int}
    (h : availableIn view outpoint = true ∨ outpoint = o ∧ isUnspendable txOut.pkScript = false) :
    availableIn (view.addTxOut o txOut isCoinBase height) outpoint = true := by
  rw [addTxOut]
  split_ifs with hu
  · obtain h | h := h
    · exact h
    · rw [h.2] at hu
      cases hu
  · rw [availableIn, lookupEntry_setEntry]
    split_ifs with ho
    · rfl
    · exact h.resolve_right fun h => ho h.1

theorem availableIn_fetchInput (h : availableIn view outpoint = true) :
    availableIn (fetchInput env pool view prevOut) outpoint = true := by
  rw [fetchInput]
  split_ifs
  · exact h
  · split
    · exact h
    · split
      · exact h
      · exact availableIn_addTxOut (.inl h)

theorem availableIn_foldl_fetchInput (h : availableIn view outpoint = true) :
    availableIn (outpoints.foldl (fetchInput env pool) view) outpoint = true := by
  induction outpoints generalizing view with
  | nil => exact h
  | cons _ outpoints ih => exact ih (availableIn_fetchInput h)

theorem availableIn_fetchInput_self (hsp : SpentExact env.prim pool)
    (htx : pool.pool.lookup outpoint.hash = some txDesc)
    (ht : txDesc.tx.txOut[outpoint.index.toNat]? = some txOut)
    (hs : isUnspendable txOut.pkScript = false) :
    availableIn (fetchInput env pool view outpoint) outpoint = true := by
  rw [fetchInput]
  split_ifs with h
  · exact h
  · simp only [htx, ht, hsp.hash_eq htx]
    exact availableIn_addTxOut (.inr ⟨rfl, hs⟩)

/-- **The inputs that the pool knows are found.** -/
theorem availableIn_fetchInputUtxos (hsp : SpentExact env.prim pool)
    (hc : isCoinBaseTx tx = false) (hm : outpoint ∈ tx.inputs) (h : Available ctx pool outpoint) :
    availableIn (fetchInputUtxos env ctx tx pool) outpoint = true := by
  rw [fetchInputUtxos]
  obtain ⟨entry, he, hu⟩ | ⟨txDesc, htx, txOut, ht, hs⟩ := h
  · refine availableIn_foldl_fetchInput (availableIn_eq_true_iff.2 ⟨entry, ?_, hu⟩)
    rw [fetchUtxoView, lookupEntry_fetchUtxosMain, if_pos]
    · exact he
    · rw [viewOutPoints, MsgTx.spends_of_not_isCoinBaseTx hc]
      exact mem_append_right _ hm
  · obtain ⟨before, after, hst⟩ := append_of_mem hm
    rw [hst, foldl_append, foldl_cons]
    exact availableIn_foldl_fetchInput (availableIn_fetchInput_self hsp htx ht hs)

theorem mem_entries_fetchInput (hs : SpentExact env.prim pool)
    (h : outpoint ∈ (fetchInput env pool view prevOut).entries) :
    outpoint ∈ view.entries ∨ outpoint = prevOut := by
  rw [fetchInput] at h
  split_ifs at h
  · exact .inl h
  cases htx : pool.pool.lookup prevOut.hash with
  | none =>
    rw [htx] at h
    exact .inl h
  | some txDesc =>
    simp only [htx, hs.hash_eq htx] at h
    cases ht : txDesc.tx.txOut[prevOut.index.toNat]? with
    | none =>
      rw [ht] at h
      exact .inl h
    | some txOut =>
      simp only [ht, addTxOut] at h
      split_ifs at h
      · exact .inl h
      · exact (mem_insert.1 h).symm

theorem mem_entries_foldl_fetchInput (hs : SpentExact env.prim pool)
    (h : outpoint ∈ (outpoints.foldl (fetchInput env pool) view).entries) :
    outpoint ∈ view.entries ∨ outpoint ∈ outpoints := by
  induction outpoints generalizing view with
  | nil => exact .inl h
  | cons prevOut outpoints ih =>
    obtain h | h := ih h
    · obtain h | rfl := mem_entries_fetchInput hs h
      · exact .inl h
      · exact .inr mem_cons_self
    · exact .inr (mem_cons_of_mem prevOut h)

theorem mem_viewOutPoints_of_mem_fetchUtxoView {utxoSet : UtxoSet}
    (h : outpoint ∈ (fetchUtxoView env utxoSet tx).entries) : outpoint ∈ viewOutPoints env tx := by
  rw [fetchUtxoView, entries_fetchUtxosMain] at h
  by_contra hn
  refine lookup_eq_none.1 ?_ h
  rw [Ledger.lookup_create, Ledger.created_eq_none_iff.2]
  · exact lookup_empty outpoint
  · rwa [List.map_map, Function.comp_def, List.map_id']

theorem mem_entries_fetchInputUtxos (hs : SpentExact env.prim pool) (hc : isCoinBaseTx tx = false)
    (h : outpoint ∈ (fetchInputUtxos env ctx tx pool).entries) :
    outpoint ∈ tx.outputs env.prim ∨ outpoint ∈ tx.inputs := by
  obtain h | h := mem_entries_foldl_fetchInput hs h
  · have hm := mem_viewOutPoints_of_mem_fetchUtxoView h
    rw [viewOutPoints, MsgTx.spends_of_not_isCoinBaseTx hc] at hm
    exact mem_append.1 hm
  · exact .inr h

theorem entries_of_checkOwnOutputs (h : checkOwnOutputs env tx view = .ok view')
    (outpoint : OutPoint) :
    view'.entries.lookup outpoint =
      if outpoint ∈ tx.outputs env.prim then none else view.entries.lookup outpoint := by
  refine foldlM_invariant (P := fun done _ v => v.entries.lookup outpoint =
      if outpoint ∈ done then none else view.entries.lookup outpoint)
    (fun before o rest v v' _ hv hs => ?_) (if_neg not_mem_nil).symm
    (append_nil (tx.outputs env.prim)).symm h
  obtain ⟨_, -, hs⟩ := bind_eq_ok.1 hs
  cases hs
  rw [removeEntry]
  by_cases ho : outpoint = o
  · subst ho
    rw [lookup_erase, if_pos (mem_append_right before (mem_singleton_self outpoint))]
  · rw [lookup_erase_ne ho, hv]
    refine if_congr ?_ rfl rfl
    rw [mem_append, List.mem_singleton, or_iff_left ho]

/-- **Where `maybeAcceptTransaction` reports missing parents, an input is missing.** -/
theorem missingInput_of_missingParents (hs : SpentExact env.prim pool)
    (hc : isCoinBaseTx tx = false)
    (hv : checkOwnOutputs env tx (fetchInputUtxos env ctx tx pool) = .ok view)
    (hm : missingParents view ≠ 0) : MissingInput ctx pool tx := by
  obtain ⟨_, hh⟩ := Multiset.exists_mem_of_ne_zero hm
  obtain ⟨outpoint, hme, -⟩ := Multiset.mem_map.1 hh
  obtain ⟨hme, hu⟩ := Multiset.mem_filter.1 hme
  obtain ⟨entry, he⟩ := mem_iff.1 (Finmap.mem_keys.1 hme)
  have hl := entries_of_checkOwnOutputs hv outpoint
  rw [he] at hl
  split_ifs at hl with ho
  have hen := mem_of_lookup_eq_some hl.symm
  have hi := (mem_entries_fetchInputUtxos hs hc hen).resolve_left ho
  refine ⟨outpoint, hi, fun ha => ?_⟩
  have hf := availableIn_fetchInputUtxos hs hc hi ha
  rw [availableIn, lookupEntry, ← hl, ← he] at hf
  rw [availableIn, lookupEntry, hf] at hu
  cases hu

theorem StillMissing.missingInput (hs : SpentExact env.prim pool)
    (h : StillMissing env policy ctx pool tx) : MissingInput ctx pool tx := by
  obtain ⟨hashes, ha⟩ := h
  obtain ⟨_, h, -⟩ | ⟨view, -, -, hn, hv, hm⟩ | ⟨_, _, h, -⟩ := maybeAccept_cases ha
  · cases h
  · exact missingInput_of_missingParents hs (isCoinBaseTx_of_checkNew hn) hv hm
  · cases h

/-! ### A visit of an output -/

/-- The pool refuses a transaction. -/
def Refused (env : Env) (policy : TxPolicy) (ctx : PoolContext) (pool : TxPool) (tx : MsgTx) :
    Prop :=
  ∃ pool' e, maybeAcceptTransaction env policy ctx tx true true false pool = .ok (pool', .error e)

/-- **No orphan that is refused hides another one** that has all its inputs. -/
def Unblocked (env : Env) (policy : TxPolicy) (ctx : PoolContext) (pool : TxPool)
    (outpoint : OutPoint) : Prop :=
  ∀ hash otx other otx', pool.orphans.lookup hash = some otx → outpoint ∈ otx.tx.inputs →
    Refused env policy ctx pool otx.tx → pool.orphans.lookup other = some otx' →
      outpoint ∈ otx'.tx.inputs →
        ¬Relation.ReflTransGen (Redeems env.prim pool.orphanTxs) hash other →
          MissingInput ctx pool otx'.tx

/-- An input is missing to all orphans that spend an output. -/
def NoneReady (ctx : PoolContext) (pool : TxPool) (outpoint : OutPoint) : Prop :=
  ∀ hash otx, pool.orphans.lookup hash = some otx → outpoint ∈ otx.tx.inputs →
    MissingInput ctx pool otx.tx

/-- A visit that accepts nothing leaves no orphan that has all its inputs, when none is hidden. -/
theorem Unblocked.noneReady (hu : Unblocked env policy ctx pool outpoint)
    (h : Consistent env.prim policy pool) {tried : TxPool × Option PoolTxDesc}
    (hok : tryOrphans env policy ctx order (waitingFor order pool outpoint) pool = .ok tried)
    (hn : tried.2 = none) : NoneReady ctx tried.1 outpoint := by
  intro hash otx ho hi
  obtain ⟨rfl, hal⟩ | ⟨before, t, after, hsp, -, hla⟩ := tryOrphans_cases hok
  · have hw : otx.tx ∈ waitingFor order pool outpoint :=
      (mem_waitingFor_iff h.orphans).2 ⟨otx, by rw [h.orphans.hash_eq ho, ho], rfl, hi⟩
    exact (hal otx.tx hw).missingInput h.spent
  obtain ⟨pool₁, e, ha, rfl⟩ | ⟨_, _, _, rfl⟩ := hla
  · have hm : t ∈ waitingFor order pool outpoint := by
      rw [hsp]
      exact mem_append_right before mem_cons_self
    obtain ⟨refused, hr, rfl, hi'⟩ := (mem_waitingFor_iff h.orphans).1 hm
    have hs := sameMaps_of_error ha
    obtain ⟨ht, hl⟩ := h.refuse order hr hs
    obtain ⟨hb, hno⟩ := hl.1 ho
    exact (hu _ refused hash otx hr hi' ⟨pool₁, e, ha⟩ hb hi
      hno).congr (ht.pool_eq.trans hs.pool_eq)
  · cases hn

/-- Loops that visit one hash before the others. -/
noncomputable def visitFirst (hash : Hash) : MapOrder where
  range _ _ keys := if hash ∈ keys then hash :: (keys.erase hash).toList else keys.toList
  nodup_range _ _ keys := by
    split_ifs
    · refine nodup_cons.2 ⟨fun h => ?_, Finset.nodup_toList _⟩
      exact Finset.notMem_erase hash keys (Finset.mem_toList.1 h)
    · exact Finset.nodup_toList keys
  mem_range _ _ keys other := by
    split_ifs with hmem
    · rw [mem_cons, Finset.mem_toList, ← Finset.mem_insert, Finset.insert_erase hmem]
    · exact Finset.mem_toList

theorem tryOrphans_visitFirst (h : OrphansExact env.prim ∅ pool) {hash : Hash} {otx : OrphanTx}
    {e : TxError} (ho : pool.orphans.lookup hash = some otx) (hi : outpoint ∈ otx.tx.inputs)
    (ha : maybeAcceptTransaction env policy ctx otx.tx true true false pool =
      .ok (pool', .error e)) :
    tryOrphans env policy ctx (visitFirst hash) (waitingFor (visitFirst hash) pool outpoint) pool =
      .ok (removeOrphan env.prim (visitFirst hash) otx.tx true pool', none) := by
  have hr := (h.indexes.lookup_iff outpoint hash otx.tx).2
    ⟨orphanRows_eq_some_iff.2 ⟨Finset.notMem_empty hash, otx, ho, rfl⟩, hi⟩
  have hm : hash ∈ (pool.orphansByPrev.rowsAt outpoint).keys :=
    Finmap.mem_keys.2 (mem_of_lookup_eq_some hr)
  have hf : (visitFirst hash).range pool (some outpoint) (pool.orphansByPrev.rowsAt outpoint).keys =
        hash :: ((pool.orphansByPrev.rowsAt outpoint).keys.erase hash).toList := if_pos hm
  rw [waitingFor, hf, filterMap_cons, hr, tryOrphans, ha]

/-- **What a visit leaves, in every order**, unless it accepts an orphan. -/
theorem visit_leaves_none_iff (h : Consistent env.prim policy pool) :
    (∀ order tried,
      tryOrphans env policy ctx order (waitingFor order pool outpoint) pool = .ok tried →
        tried.2 = none → NoneReady ctx tried.1 outpoint) ↔
      Unblocked env policy ctx pool outpoint := by
  refine ⟨fun hl hash refused other otx hr hi hre ho hi' hno => ?_,
    fun hu order tried hok hn => hu.noneReady h hok hn⟩
  obtain ⟨pool₁, e, ha⟩ := hre
  have hn := hl (visitFirst hash) _ (tryOrphans_visitFirst h.orphans hr hi ha) rfl
  have hs := sameMaps_of_error ha
  obtain rfl := h.orphans.hash_eq hr
  obtain ⟨ht, hlo⟩ := h.refuse (visitFirst _) hr hs
  exact (hn other otx (hlo.2 ⟨ho, hno⟩) hi').congr (ht.pool_eq.trans hs.pool_eq).symm

/-! ### The visits of `processOrphans` -/

/-- **The visits of `processOrphans`**, each meeting a condition where it is made. -/
inductive ProcessRun (env : Env) (policy : TxPolicy) (ctx : PoolContext) (order : MapOrder)
    (ok : TxPool → OutPoint → Prop) : Processing → Processing → Prop
  | done {state : Processing} (hlist : state.processList = []) :
      ProcessRun env policy ctx order ok state state
  | item {state visited last : Processing} {tx : MsgTx} {processList : List MsgTx}
      (hlist : state.processList = tx :: processList)
      (hvisits : Run (processOutput env policy ctx order) (fun s o => ok s.pool o)
        { state with processList } (tx.outputs env.prim) visited)
      (hrest : ProcessRun env policy ctx order ok visited last) :
      ProcessRun env policy ctx order ok state last

namespace ProcessRun

variable {ok ok' : TxPool → OutPoint → Prop} {state last : Processing} {rounds : Nat}

theorem mono (h : ProcessRun env policy ctx order ok state last)
    (hok : ∀ pool outpoint, ok pool outpoint → ok' pool outpoint) :
    ProcessRun env policy ctx order ok' state last := by
  induction h with
  | done hl => exact .done hl
  | item hl hv _ ih => exact .item hl (hv.mono fun _ _ => hok _ _) ih

theorem consistent_visits {visited : Processing} {outpoints : List OutPoint}
    (h : Consistent env.prim policy state.pool)
    (hv : Run (processOutput env policy ctx order) (fun s o => ok s.pool o) state outpoints
      visited) : Consistent env.prim policy visited.pool ∧ visited.left ≤ state.left :=
  hv.invariant (P := fun s => Consistent env.prim policy s.pool ∧ s.left ≤ state.left)
    ⟨h, le_rfl⟩ fun _ _ _ hs _ hst =>
      ⟨(hs.1.processOutput hst).1, (hs.1.processOutput hst).2.trans hs.2⟩

theorem processLoop_eq (h : ProcessRun env policy ctx order ok state last)
    (hc : Consistent env.prim policy state.pool) (hr : state.left ≤ rounds) :
    processLoop env policy ctx order rounds state = .ok last := by
  induction h generalizing rounds with
  | done hl =>
    cases rounds with
    | zero => rfl
    | succ rounds => rw [processLoop, hl]
  | @item state visited last tx processList hl hv _ ih =>
    have hlf : state.left = state.pool.orphans.keys.card + processList.length + 1 := by
      rw [left, hl, length_cons, Nat.add_assoc]
    have hp : Consistent env.prim policy { state with processList }.pool := hc
    obtain ⟨hvi, hle⟩ := consistent_visits hp hv
    have hle : visited.left ≤ state.pool.orphans.keys.card + processList.length := hle
    obtain ⟨rounds, rfl⟩ := Nat.exists_eq_add_one_of_ne_zero (n := rounds) (by omega)
    have hf := run_iff_exec.1 (hv.mono fun _ _ _ => trivial)
    rw [processLoop, hl]
    exact bind_eq_ok.2 ⟨visited, hf, ih hvi (by omega)⟩

theorem of_processLoop (hc : Consistent env.prim policy state.pool) (hr : state.left ≤ rounds)
    (hl : processLoop env policy ctx order rounds state = .ok last) :
    ProcessRun env policy ctx order (fun _ _ => True) state last := by
  induction rounds generalizing state with
  | zero =>
    cases hl
    refine .done (eq_nil_of_length_eq_zero ?_)
    rw [left] at hr
    omega
  | succ rounds ih =>
    rw [processLoop] at hl
    split at hl
    · rename_i hli
      cases hl
      exact .done hli
    rename_i tx processList hli
    obtain ⟨visited, hf, hl⟩ := bind_eq_ok.1 hl
    have hp : Consistent env.prim policy { state with processList }.pool := hc
    obtain ⟨hv, hle⟩ := hp.processOutputs hf
    have hle : visited.left ≤ state.pool.orphans.keys.card + processList.length := hle
    rw [left, hli, length_cons] at hr
    exact .item hli (run_iff_exec.2 hf) (ih hv (by omega) hl)

/-- What every visit keeps and what implies the condition makes a run one under the condition. -/
theorem of_invariant {P : TxPool → Prop}
    (h : ProcessRun env policy ctx order (fun _ _ => True) state last)
    (hc : Consistent env.prim policy state.pool) (hse : P state.pool)
    (hsu : ∀ pool pool' : TxPool, P pool → (∀ {hash otx}, pool'.orphans.lookup hash = some otx →
      pool.orphans.lookup hash = some otx) → P pool')
    (hok : ∀ pool outpoint, P pool → ok pool outpoint) :
    ProcessRun env policy ctx order ok state last := by
  have hvi : ∀ {s t : Processing} {outpoints : List OutPoint},
      Consistent env.prim policy s.pool → P s.pool →
      Run (processOutput env policy ctx order) (fun _ _ => True) s outpoints t →
        Run (processOutput env policy ctx order) (fun s o => ok s.pool o) s outpoints t ∧
          Consistent env.prim policy t.pool ∧ P t.pool := by
    intro s t outpoints hs hP hr
    induction hr with
    | nil => exact ⟨.nil, hs, hP⟩
    | snoc _ _ hst ih =>
      obtain ⟨hr, ht, hPt⟩ := ih
      refine ⟨hr.snoc (hok _ _ hPt) hst, (ht.processOutput hst).1, ?_⟩
      obtain ⟨tried, htr, hst⟩ := bind_eq_ok.1 hst
      cases hst
      exact hsu _ _ hPt (ht.tryOrphans htr).2.sub
  induction h with
  | done hl => exact .done hl
  | @item state visited last tx processList hl hr _ ih =>
    have hp : Consistent env.prim policy { state with processList }.pool := hc
    obtain ⟨hr, hv, hP⟩ := hvi hp hse hr
    exact .item hl hr (ih hv hP)

end ProcessRun

/-- What `processOrphans` starts with. -/
def Processing.start (acceptedTx : MsgTx) (pool : TxPool) : Processing where
  pool := pool
  processList := [acceptedTx]
  acceptedTxns := []

/-- **`processOrphans` makes these visits**, and removes the double spends. -/
theorem processOrphans_eq_ok_iff (h : Consistent env.prim policy pool) {acceptedTx : MsgTx}
    {processed : TxPool × List PoolTxDesc} :
    processOrphans env policy ctx order acceptedTx pool = .ok processed ↔
      ∃ last, ProcessRun env policy ctx order (fun _ _ => True) (.start acceptedTx pool) last ∧
        processed = (removeDoubleSpenders env order acceptedTx last, last.acceptedTxns) := by
  have hs : Consistent env.prim policy (start acceptedTx pool).pool := h
  rw [processOrphans, bind_eq_ok]
  constructor
  · rintro ⟨last, hl, hok⟩
    cases hok
    exact ⟨last, .of_processLoop hs le_rfl hl, rfl⟩
  · rintro ⟨last, hr, rfl⟩
    exact ⟨last, hr.processLoop_eq hs le_rfl, rfl⟩

/-! ### What is left in the end -/

/-- A transaction spends an output of one of the others. -/
def SpendsOf (prim : Primitives) (txs : List MsgTx) (tx : MsgTx) : Prop :=
  ∃ t ∈ txs, ∃ outpoint ∈ t.outputs prim, outpoint ∈ tx.inputs

/-- **An input is missing to every orphan that spends an output of one of the transactions.** -/
def Complete (prim : Primitives) (ctx : PoolContext) (pool : TxPool) (txs : List MsgTx) : Prop :=
  ∀ hash otx, pool.orphans.lookup hash = some otx → SpendsOf prim txs otx.tx →
    MissingInput ctx pool otx.tx

/-- The transactions that have been accepted. -/
def Processing.accepted (acceptedTx : MsgTx) (state : Processing) : List MsgTx :=
  acceptedTx :: state.acceptedTxns.map fun txDesc => txDesc.tx

/-- **What holds between the visits** of an orphan that spends an output of an accepted transaction.
-/
def Settled (prim : Primitives) (ctx : PoolContext) (acceptedTx : MsgTx) (state : Processing)
    (rest : List OutPoint) : Prop :=
  ∀ hash otx, state.pool.orphans.lookup hash = some otx →
    SpendsOf prim (state.accepted acceptedTx) otx.tx →
      MissingInput ctx state.pool otx.tx ∨
        ((∃ outpoint ∈ rest, outpoint ∈ otx.tx.inputs) ∨ SpendsOf prim state.processList otx.tx) ∨
        ∃ t ∈ state.accepted acceptedTx, ∃ outpoint ∈ t.inputs, outpoint ∈ otx.tx.inputs

/-- An output that is known when a transaction has been added is one of its outputs, or it has been
known before. -/
theorem Available.of_insert (hp : pool'.pool = pool.pool.insert (txDesc.tx.txHash env.prim) txDesc)
    (h : Available ctx pool' outpoint) :
    Available ctx pool outpoint ∨ outpoint ∈ txDesc.tx.outputs env.prim := by
  obtain h | ⟨d, hd, txOut, ht, hs⟩ := h
  · exact .inl (.inl h)
  rw [hp] at hd
  obtain ⟨hh, rfl⟩ | ⟨-, hd⟩ := lookup_insert_cases hd
  · refine .inr (List.mem_map.2 ⟨(txOut, outpoint.index.toNat), ?_, ?_⟩)
    · exact mk_mem_zipIdx_iff_getElem?.2 ht
    · rw [← hh, UInt32.ofNat_toNat]
  · exact .inl (.inr ⟨d, hd, txOut, ht, hs⟩)

section Settled

variable {acceptedTx : MsgTx} {state state' last : Processing} {rest : List OutPoint}
  {tried : TxPool × Option PoolTxDesc}

section

variable (h : Settled env.prim ctx acceptedTx state (outpoint :: rest))
include h

theorem Settled.visit_none (hv : Visited env.prim outpoint state.pool tried) (hn : tried.2 = none)
    (hr : NoneReady ctx tried.1 outpoint) :
    Settled env.prim ctx acceptedTx { state with pool := tried.1 } rest := by
  intro hash otx hot hsp
  have hpo : tried.1.pool = state.pool.pool := by rw [hv.pool_eq, hn, elim_none]
  by_cases hi : outpoint ∈ otx.tx.inputs
  · exact .inl (hr hash otx hot hi)
  obtain hm | (⟨o, ho, hs⟩ | hp) | hri := h hash otx (hv.sub hot) hsp
  · exact .inl (hm.congr hpo)
  · obtain rfl | ho := mem_cons.1 ho
    · exact absurd hs hi
    · exact .inr (.inl (.inl ⟨o, ho, hs⟩))
  · exact .inr (.inl (.inr hp))
  · exact .inr (.inr hri)

/-- A visit that accepts an orphan makes double spends of the others that spend the output. -/
theorem Settled.visit_some {txDesc : PoolTxDesc} (hv : Visited env.prim outpoint state.pool tried)
    (hso : tried.2 = some txDesc) :
    Settled env.prim ctx acceptedTx {
        pool := tried.1
        processList := state.processList ++ [txDesc.tx]
        acceptedTxns := state.acceptedTxns ++ [txDesc] } rest := by
  intro hash otx hot hs
  have ha : ∀ t, t ∈ accepted acceptedTx {
        pool := tried.1
        processList := state.processList ++ [txDesc.tx]
        acceptedTxns := state.acceptedTxns ++ [txDesc] } ↔
      t ∈ state.accepted acceptedTx ∨ t = txDesc.tx := by
    intro t
    rw [accepted, accepted, map_append, map_singleton,
      ← cons_append, mem_append, List.mem_singleton]
  have hp : tried.1.pool = state.pool.pool.insert (txDesc.tx.txHash env.prim) txDesc := by
    rw [hv.pool_eq, hso, elim_some]
  by_cases hi : outpoint ∈ otx.tx.inputs
  · exact .inr (.inr ⟨txDesc.tx, (ha _).2 (.inr rfl), outpoint, hv.input txDesc hso, hi⟩)
  by_cases hc : ∃ o ∈ txDesc.tx.outputs env.prim, o ∈ otx.tx.inputs
  · exact .inr (.inl (.inr ⟨txDesc.tx, mem_append_right _ (mem_singleton_self _), hc⟩))
  have hs : SpendsOf env.prim (state.accepted acceptedTx) otx.tx := by
    obtain ⟨t, ht, hou⟩ := hs
    obtain ht | rfl := (ha t).1 ht
    · exact ⟨t, ht, hou⟩
    · exact absurd hou hc
  obtain ⟨o, ho, hu⟩ | (⟨o, ho, hsp⟩ | ⟨t, ht, hou⟩) | ⟨t, ht, hsh⟩ := h hash otx (hv.sub hot) hs
  · refine .inl ⟨o, ho, fun hk => ?_⟩
    obtain hk | hou := Available.of_insert hp hk
    · exact hu hk
    · exact hc ⟨o, hou, ho⟩
  · obtain rfl | ho := mem_cons.1 ho
    · exact absurd hsp hi
    · exact .inr (.inl (.inl ⟨o, ho, hsp⟩))
  · exact .inr (.inl (.inr ⟨t, mem_append_left _ ht, hou⟩))
  · exact .inr (.inr ⟨t, (ha t).2 (.inl ht), hsh⟩)

/-- **A visit keeps the orphans settled**, when no orphan is hidden. -/
theorem Settled.processOutput (hc : Consistent env.prim policy state.pool)
    (hu : Unblocked env policy ctx state.pool outpoint)
    (hok : processOutput env policy ctx order state outpoint = .ok state') :
    Settled env.prim ctx acceptedTx state' rest := by
  obtain ⟨tried, ht, hok⟩ := bind_eq_ok.1 hok
  have hv := (hc.tryOrphans ht).2
  cases hs : tried.2 with
  | none =>
    have hr := hu.noneReady hc ht hs
    rw [hs, map_none, toList_none, append_nil, toList_none, append_nil] at hok
    cases hok
    exact h.visit_none hv hs hr
  | some txDesc =>
    rw [hs] at hok
    cases hok
    exact h.visit_some hv hs

end

theorem Settled.processOutputs {outpoints : List OutPoint}
    (h : Settled env.prim ctx acceptedTx state outpoints)
    (hc : Consistent env.prim policy state.pool)
    (hv : Run (TxPool.processOutput env policy ctx order)
      (fun s o => Unblocked env policy ctx s.pool o) state outpoints state') :
    Settled env.prim ctx acceptedTx state' [] := by
  -- the run grows at its end, so the outputs that are left are carried along
  have hr : ∀ (done : List OutPoint) (s : Processing),
      Run (TxPool.processOutput env policy ctx order)
        (fun s o => Unblocked env policy ctx s.pool o) state done s →
      ∀ left, outpoints = done ++ left →
        Consistent env.prim policy s.pool ∧ Settled env.prim ctx acceptedTx s left := by
    intro done s hr
    induction hr with
    | nil =>
      rintro left rfl
      exact ⟨hc, h⟩
    | @snoc done s s' o _ hu hst ih =>
      intro left hsp
      rw [append_assoc] at hsp
      obtain ⟨hs, hse⟩ := ih (o :: left) hsp
      exact ⟨(hs.processOutput hst).1, hse.processOutput hs hu hst⟩
  exact (hr outpoints state' hv [] (append_nil outpoints).symm).2

/-- **The run leaves the orphans settled.** -/
theorem ProcessRun.settled
    (hru : ProcessRun env policy ctx order (Unblocked env policy ctx) state last)
    (hc : Consistent env.prim policy state.pool) (h : Settled env.prim ctx acceptedTx state []) :
    Consistent env.prim policy last.pool ∧ Settled env.prim ctx acceptedTx last [] ∧
      last.processList = [] := by
  induction hru with
  | done hl => exact ⟨hc, h, hl⟩
  | @item state visited last tx processList hl hv _ ih =>
    have hp : Consistent env.prim policy { state with processList }.pool := hc
    refine ih (consistent_visits hp hv).1 (.processOutputs ?_ hp hv)
    intro hash otx hot hsp
    obtain hm | (⟨o, ho, -⟩ | ⟨t, ht, o, ho, hs⟩) | hr := h hash otx hot hsp
    · exact .inl hm
    · exact absurd ho not_mem_nil
    · rw [hl] at ht
      obtain rfl | ht := mem_cons.1 ht
      · exact .inr (.inl (.inl ⟨o, ho, hs⟩))
      · exact .inr (.inl (.inr ⟨t, ht, o, ho, hs⟩))
    · exact .inr (.inr hr)

theorem notMem_inputs_of_removeDoubleSpenders (order : MapOrder)
    (he : OrphansExact env.prim ∅ state.pool) {hash : Hash} {otx : OrphanTx}
    (ho : (removeDoubleSpenders env order acceptedTx state).orphans.lookup hash = some otx) :
    ∀ t ∈ state.accepted acceptedTx, ∀ outpoint ∈ t.inputs, outpoint ∉ otx.tx.inputs := by
  have hl : ∀ (txs : List MsgTx) (pool : TxPool), OrphansExact env.prim ∅ pool →
      (txs.foldl (fun pool tx => removeOrphanDoubleSpends env.prim order tx pool)
        pool).orphans.lookup hash = some otx →
      pool.orphans.lookup hash = some otx ∧
        ∀ t ∈ txs, ∀ outpoint ∈ t.inputs, outpoint ∉ otx.tx.inputs := by
    intro txs
    induction txs with
    | nil => exact fun pool _ h => ⟨h, fun _ hm => by cases hm⟩
    | cons tx txs ih =>
      intro pool hp h
      obtain ⟨ht, hg⟩ := thinned_removeOrphanDoubleSpends order hp tx
      obtain ⟨hf, hr⟩ := ih _ ht.exact h
      exact ⟨ht.sub hf, forall_mem_cons.2 ⟨hg hf, hr⟩⟩
  exact (hl _ state.pool he ho).2

end Settled

/-- **Orphan processing is complete when no orphan is hidden**: the visit of an output leaves none
with all its inputs just then, and so does `processOrphans`. -/
theorem processOrphans_complete (h : Consistent env.prim policy pool) :
    (∀ outpoint, (∀ order tried, tryOrphans env policy ctx order (waitingFor order pool outpoint)
        pool = .ok tried → tried.2 = none → NoneReady ctx tried.1 outpoint) ↔
      Unblocked env policy ctx pool outpoint) ∧
    ∀ order acceptedTx last, ProcessRun env policy ctx order (Unblocked env policy ctx)
        (.start acceptedTx pool) last →
      ∃ pool' acceptedTxns,
        processOrphans env policy ctx order acceptedTx pool = .ok (pool', acceptedTxns) ∧
          Complete env.prim ctx pool' (acceptedTx :: acceptedTxns.map fun txDesc => txDesc.tx) := by
  refine ⟨fun outpoint => visit_leaves_none_iff h, fun order acceptedTx last hr => ?_⟩
  have hst : Consistent env.prim policy (start acceptedTx pool).pool := h
  refine ⟨_, _, (processOrphans_eq_ok_iff h).2 ⟨last, hr.mono fun _ _ _ => trivial, rfl⟩, ?_⟩
  obtain ⟨hl, hse, hli⟩ := hr.settled hst fun hash otx hot hs => .inr (.inl (.inr hs))
  have hth := thinned_removeDoubleSpenders order acceptedTx hl.orphans
  intro hash otx hot hs
  obtain hm | (⟨_, hme, -⟩ | ⟨_, hme, -⟩) | ⟨t, ht, o, ho, hsp⟩ := hse hash otx (hth.sub hot) hs
  · exact hm.congr hth.pool_eq
  · exact absurd hme not_mem_nil
  · rw [hli] at hme
    exact absurd hme not_mem_nil
  · exact absurd hsp (notMem_inputs_of_removeDoubleSpenders order hl.orphans hot t ht o ho)

/-- No two orphans spend the same output. -/
def NoRivals (pool : TxPool) : Prop :=
  ∀ hash otx other otx' outpoint, pool.orphans.lookup hash = some otx →
    pool.orphans.lookup other = some otx' → outpoint ∈ otx.tx.inputs → outpoint ∈ otx'.tx.inputs →
      hash = other

theorem ProcessRun.of_noRivals {state last : Processing}
    (h : ProcessRun env policy ctx order (fun _ _ => True) state last)
    (hc : Consistent env.prim policy state.pool) (hr : NoRivals state.pool) :
    ProcessRun env policy ctx order (Unblocked env policy ctx) state last := by
  refine h.of_invariant hc hr (fun pool pool' hp hs => ?_)
    fun pool outpoint hp hash otx other otx' ho hi _ ho' hi' hn => ?_
  · exact fun hash otx other otx' outpoint ho ho' =>
      hp hash otx other otx' outpoint (hs ho) (hs ho')
  · obtain rfl := hp hash otx other otx' outpoint ho ho' hi hi'
    exact absurd .refl hn

end TxPool

/-! ### An orphan that hides another one -/

/-- The pool with a transaction that has just been accepted, after some orphans have arrived. -/
def arrivals (values : List Int64) : List PoolEvent :=
  (values.map fun value => openEvent (.processTransaction (childTx value) true false 0)) ++
    [openEvent (.maybeAcceptTransaction parentTx true false)]

theorem not_complete_of_lookup {prim : Primitives} {ctx : PoolContext} {pool : TxPool}
    {txs : List MsgTx} {tx : MsgTx} {outpoint : OutPoint}
    (hot : (pool.orphans.lookup (tx.txHash prim)).any fun otx => decide (otx.tx = tx))
    (hi : tx.inputs = [outpoint]) (hs : ∃ t ∈ txs, outpoint ∈ t.outputs prim)
    (ha : TxPool.Available ctx pool outpoint) : ¬TxPool.Complete prim ctx pool txs := by
  intro hc
  obtain ⟨otx, hot, htx⟩ := (Option.any_eq_true ..).1 hot
  obtain rfl := of_decide_eq_true htx
  obtain ⟨t, ht, hou⟩ := hs
  obtain ⟨o, ho, hu⟩ := hc _ otx hot ⟨t, ht, outpoint, hou, by
    rw [hi]
    exact mem_singleton_self outpoint⟩
  rw [hi, List.mem_singleton] at ho
  exact hu (ho ▸ ha)

/-- **An orphan is left waiting that has all its inputs.** -/
theorem processOrphans_not_complete :
    ∃ pool, Run (TxPool.step sampleEnv freePolicy) (fun _ _ => True) (.new 0)
        (arrivals [30000, 65536]) pool ∧
      ∃ pool' acceptedTxns,
        processOrphans sampleEnv freePolicy (sampleContext ⟨1, 0⟩ [op1]) .increasing
            parentTx pool = .ok (pool', acceptedTxns) ∧
          ¬TxPool.Complete sampleEnv.prim (sampleContext ⟨1, 0⟩ [op1]) pool'
            (parentTx :: acceptedTxns.map fun txDesc => txDesc.tx) := by
  refine exists_run_of (P := fun pool =>
      (processOrphans sampleEnv freePolicy (sampleContext ⟨1, 0⟩ [op1]) .increasing
        parentTx pool).toOption.any (fun processed =>
          ((processed.1.orphans.lookup ((childTx 30000).txHash sampleEnv.prim)).any fun otx =>
            decide (otx.tx = childTx 30000)) &&
          decide (TxPool.Available (sampleContext ⟨1, 0⟩ [op1]) processed.1
            ⟨parentTx.txHash sampleEnv.prim, 0⟩)) = true) (by decide +kernel) ?_
  intro pool _ hp
  obtain ⟨processed, hok, hl⟩ := (Option.any_eq_true ..).1 hp
  rw [Bool.and_eq_true] at hl
  refine ⟨processed.1, processed.2, ?_, not_complete_of_lookup hl.1 rfl
    ⟨parentTx, mem_cons_self, ?_⟩ (of_decide_eq_true hl.2)⟩
  · exact toOption_eq_some.1 hok
  · exact mem_cons_self

/-- An orphan that has no rival is accepted with its parent. -/
theorem processOrphans_complete_child :
    ∃ pool, Run (TxPool.step sampleEnv freePolicy) (fun _ _ => True) (.new 0)
        (arrivals [30000]) pool ∧
      pool.orphans.keys = {(childTx 30000).txHash sampleEnv.prim} ∧
      ∃ pool' acceptedTxns,
        processOrphans sampleEnv freePolicy (sampleContext ⟨1, 0⟩ [op1]) .increasing
            parentTx pool = .ok (pool', acceptedTxns) ∧
          TxPool.Complete sampleEnv.prim (sampleContext ⟨1, 0⟩ [op1]) pool'
            (parentTx :: acceptedTxns.map fun txDesc => txDesc.tx) := by
  refine exists_run_of (P := fun pool =>
      pool.orphans.keys = {(childTx 30000).txHash sampleEnv.prim} ∧
        (processOrphans sampleEnv freePolicy (sampleContext ⟨1, 0⟩ [op1]) .increasing
          parentTx pool).toOption.isSome = true) (by decide +kernel) ?_
  rintro pool hru ⟨hk, hp⟩
  have hc := consistent_of_run hru
  obtain ⟨processed, hok⟩ := isSome_iff_exists.1 hp
  obtain ⟨last, hv, -⟩ := (processOrphans_eq_ok_iff hc).1 (toOption_eq_some.1 hok)
  have hr : pool.NoRivals := by
    intro hash otx other otx' _ ho ho' _ _
    have hm : ∀ {hash otx}, pool.orphans.lookup hash = some otx →
        hash = (childTx 30000).txHash sampleEnv.prim := fun hl => by
      rw [← Finset.mem_singleton, ← hk, Finmap.mem_keys]
      exact mem_of_lookup_eq_some hl
    rw [hm ho, hm ho']
  exact ⟨hk, (processOrphans_complete hc).2 .increasing parentTx last (hv.of_noRivals hc hr)⟩

end DrcNode
