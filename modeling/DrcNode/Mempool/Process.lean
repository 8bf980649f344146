import DrcNode.Mempool.Accept
import DrcNode.Mempool.Removal

/-!
# The calls of the memory pool

A transaction that is accepted may be what orphans have waited for. `processOrphans` tries the
orphans that spend its outputs, and goes on with the outputs of those that are accepted.
`ProcessTransaction` accepts a transaction, processes its orphans, or makes it an orphan itself. In
every state that the calls lead to, the maps describe the same transactions, and a call that returns
an error leaves them as they are.

## Main results

* `represents_of_run`.

Source: `processOrphans` and `ProcessTransaction` in `mempool/mempool.go`, with the exported
functions that take the lock around the others.
-/

namespace DrcNode

open Checked Finmap Finset TxPool

namespace TxPool

variable (env : Env) (policy : TxPolicy) (ctx : PoolContext) (order : MapOrder)

/-! ### Processing orphans -/

/-- The orphans that spend an output, in the order in which a loop visits them. -/
def waitingFor (pool : TxPool) (outpoint : OutPoint) : List MsgTx :=
  (order.range pool (some outpoint) (pool.orphansByPrev.rowsAt outpoint).keys).filterMap
    fun hash => (pool.orphansByPrev.rowsAt outpoint).lookup hash

/-- The loop over the orphans that spend an output. -/
def tryOrphans : List MsgTx → TxPool → Except PoolStop (TxPool × Option PoolTxDesc)
  | [], pool => .ok (pool, none)
  | tx :: txs, pool =>
      match maybeAcceptTransaction env policy ctx tx true true false pool with
      | .error stop => .error stop
      | .ok (pool', .error _) => .ok (removeOrphan env.prim order tx true pool', none)
      | .ok (pool', .ok (.missingParents _)) => tryOrphans txs pool'
      | .ok (pool', .ok (.accepted txDesc)) =>
          .ok (removeOrphan env.prim order tx false pool', some txDesc)

/-- What `processOrphans` carries through its loops. -/
structure Processing where
  pool : TxPool
  processList : List MsgTx
  acceptedTxns : List PoolTxDesc

/-- One round of the loop over the outputs. -/
def processOutput (state : Processing) (outpoint : OutPoint) : Except PoolStop Processing := do
  let tried ← tryOrphans env policy ctx order (waitingFor order state.pool outpoint) state.pool
  pure
    { pool := tried.1
      processList := state.processList ++ (tried.2.map fun txDesc => txDesc.tx).toList
      acceptedTxns := state.acceptedTxns ++ tried.2.toList }

/-- The loop over the transactions to process. The first argument bounds the number of rounds. -/
def processLoop : Nat → Processing → Except PoolStop Processing
  | 0, state => .ok state
  | rounds + 1, state =>
      match state.processList with
      | [] => .ok state
      | item :: processList => do
          let state ← (item.outputs env.prim).foldlM (processOutput env policy ctx order)
            { state with processList }
          processLoop rounds state

/-- The double spends of the accepted transactions are removed at the end. -/
def removeDoubleSpenders (acceptedTx : MsgTx) (state : Processing) : TxPool :=
  (acceptedTx :: state.acceptedTxns.map fun txDesc => txDesc.tx).foldl
    (fun pool tx => removeOrphanDoubleSpends env.prim order tx pool) state.pool

/-- `processOrphans`. There is a round for the transaction and one for every orphan. -/
def processOrphans (acceptedTx : MsgTx) (pool : TxPool) :
    Except PoolStop (TxPool × List PoolTxDesc) := do
  let state ← processLoop env policy ctx order (pool.orphans.keys.card + 1)
    { pool, processList := [acceptedTx], acceptedTxns := [] }
  pure (removeDoubleSpenders env order acceptedTx state, state.acceptedTxns)

/-- What `ProcessTransaction` does with a transaction whose parents are missing. -/
def processMissing (tx : MsgTx) (allowOrphan : Bool) (tag : UInt64) (pool : TxPool) :
    TxPool × Except TxError (List PoolTxDesc) :=
  if allowOrphan then
    ((maybeAddOrphan env.prim order policy ctx.now tx tag pool).1,
      (maybeAddOrphan env.prim order policy ctx.now tx tag pool).2.map fun _ => [])
  else (pool, .error (.txRuleError .rejectDuplicate))

def processTransaction (tx : MsgTx) (allowOrphan rateLimit : Bool) (tag : UInt64) (pool : TxPool) :
    Except PoolStop (TxPool × Except TxError (List PoolTxDesc)) :=
  match maybeAcceptTransaction env policy ctx tx true rateLimit true pool with
  | .error stop => .error stop
  | .ok (pool', .error e) => .ok (pool', .error e)
  | .ok (pool', .ok (.missingParents _)) =>
      .ok (processMissing env policy ctx order tx allowOrphan tag pool')
  | .ok (pool', .ok (.accepted txDesc)) => do
      let processed ← processOrphans env policy ctx order tx pool'
      pure (processed.1, .ok (txDesc :: processed.2))

end TxPool

/-! ### Calls -/

/-- The calls of the memory pool. -/
inductive PoolCall
  | processTransaction (tx : MsgTx) (allowOrphan rateLimit : Bool) (tag : UInt64)
  | maybeAcceptTransaction (tx : MsgTx) (isNew rateLimit : Bool)
  | removeTransaction (tx : MsgTx) (redeemers : Bool)
  | removeDoubleSpends (tx : MsgTx)
  | processOrphans (acceptedTx : MsgTx)
  | removeOrphan (tx : MsgTx)
  | removeOrphansByTag (tag : UInt64)
  deriving DecidableEq

/-- A call with what it reads from outside and the order of its loops over maps. -/
structure PoolEvent where
  call : PoolCall
  ctx : PoolContext
  order : MapOrder

/-- The error that a call returns, when it returns one. -/
def errorOf {α : Type} : Except TxError α → Option TxError
  | .ok _ => none
  | .error e => some e

namespace TxPool

variable (env : Env) (policy : TxPolicy)

/-- **What a call does**: the pool after it and the error it returns. -/
def perform (pool : TxPool) (event : PoolEvent) : Except PoolStop (TxPool × Option TxError) :=
  match event.call with
  | .processTransaction tx allowOrphan rateLimit tag => do
      let result ← processTransaction env policy event.ctx event.order tx allowOrphan rateLimit tag
        pool
      pure (result.1, errorOf result.2)
  | .maybeAcceptTransaction tx isNew rateLimit => do
      let result ← maybeAcceptTransaction env policy event.ctx tx isNew rateLimit true pool
      pure (result.1, errorOf result.2)
  | .removeTransaction tx redeemers => do
      let pool ← removeTransaction env.prim tx redeemers pool
      pure (pool, none)
  | .removeDoubleSpends tx => do
      let pool ← removeDoubleSpends env.prim tx pool
      pure (pool, none)
  | .processOrphans acceptedTx => do
      let processed ← processOrphans env policy event.ctx event.order acceptedTx pool
      pure (processed.1, none)
  | .removeOrphan tx => .ok (removeOrphan env.prim event.order tx false pool, none)
  | .removeOrphansByTag tag => .ok ((removeOrphansByTag env.prim event.order tag pool).1, none)

/-- The pool after a call. -/
def step (pool : TxPool) (event : PoolEvent) : Except PoolStop TxPool :=
  (perform env policy pool event).map Prod.fst

/-! ### Consistent maps -/

/-- **The maps describe the same transactions**, and there are not too many orphans. -/
structure Consistent (prim : Primitives) (policy : TxPolicy) (pool : TxPool) : Prop where
  spent : SpentExact prim pool
  orphans : OrphansExact prim ∅ pool
  disjoint : ∀ hash, hash ∈ pool.pool → hash ∉ pool.orphans
  limit : pool.orphans.keys.card ≤ policy.maxOrphanTxs

variable {env policy} {ctx : PoolContext} {order : MapOrder} {prim : Primitives}
  {pool pool' : TxPool} {tx : MsgTx} {txDesc : PoolTxDesc} {outpoint : OutPoint}
  {state state' : Processing} {now : Int} {outpoints : List OutPoint} {limited : TxPool}
  {rateLimit : Bool} {tried : TxPool × Option PoolTxDesc} {event : PoolEvent}

theorem consistent_new : Consistent prim policy (new now) where
  spent := ⟨fun h => (by cases h), fun _ _ => iff_of_false (fun h => (by cases h))
    fun ⟨_, _, h, _⟩ => (by cases h)⟩
  orphans := by
    refine ⟨fun h => (by cases h), ?_⟩
    exact InvertedIndex.indexes_empty
  disjoint _ h := by cases h
  limit := Nat.zero_le _

theorem SpentExact.congr (h : SpentExact prim pool) (hp : pool'.pool = pool.pool)
    (ho : pool'.outpoints = pool.outpoints) : SpentExact prim pool' := by
  refine ⟨fun hl => h.hash_eq (hp ▸ hl), ?_⟩
  rw [hp, ho]
  exact h.lookup_iff

theorem OrphansExact.congr (h : OrphansExact prim ∅ pool) (ho : pool'.orphans = pool.orphans)
    (hi : pool'.orphansByPrev = pool.orphansByPrev) : OrphansExact prim ∅ pool' := by
  refine ⟨fun hl => h.hash_eq (ho ▸ hl), ?_⟩
  rw [ho, hi]
  exact h.indexes

section

variable (h : Consistent prim policy pool)
include h

theorem Consistent.sameMaps (hs : SameMaps pool pool') : Consistent prim policy pool' where
  spent := h.spent.congr hs.pool_eq hs.outpoints_eq
  orphans := h.orphans.congr hs.orphans_eq hs.orphansByPrev_eq
  disjoint := by
    rw [hs.pool_eq, hs.orphans_eq]
    exact h.disjoint
  limit := by
    rw [hs.orphans_eq]
    exact h.limit

theorem Consistent.thinned (ht : Thinned prim ∅ pool pool') : Consistent prim policy pool' where
  spent := h.spent.congr ht.pool_eq ht.outpoints_eq
  orphans := ht.exact
  disjoint hash hm ho := by
    rw [ht.pool_eq] at hm
    exact h.disjoint hash hm (mem_keys.1 (ht.keys_subset (mem_keys.2 ho)))
  limit := (card_le_card ht.keys_subset).trans h.limit

theorem Consistent.reduced (hr : Reduced prim pool pool') : Consistent prim policy pool' where
  spent := hr.exact
  orphans := h.orphans.congr (by rw [hr.frame]) (by rw [hr.frame])
  disjoint hash hm := by
    have ho : pool'.orphans = pool.orphans := by rw [hr.frame]
    rw [ho]
    exact h.disjoint hash (mem_keys.1 (hr.keys_subset (mem_keys.2 hm)))
  limit := by
    have ho : pool'.orphans = pool.orphans := by rw [hr.frame]
    rw [ho]
    exact h.limit

end

/-! ### Adding a transaction -/

theorem lookup_insert_eq_ite {m : ByOutPoint MsgTx} {first : OutPoint} :
    (m.insert first tx).lookup outpoint =
      if outpoint = first then some tx else m.lookup outpoint := by
  split_ifs with h
  · rw [h, lookup_insert]
  · exact lookup_insert_of_ne _ h

/-- A transaction that is new and spends nothing that is spent keeps the map of spent outputs
exact. -/
theorem SpentExact.addTransaction (h : SpentExact env.prim pool)
    (hn : txDesc.tx.txHash env.prim ∉ pool.pool)
    (hsp : ∀ outpoint ∈ txDesc.tx.inputs, outpoint ∉ pool.outpoints) :
    SpentExact env.prim (pool.addTransaction env txDesc) := by
  refine ⟨fun hl => ?_, fun outpoint spender => ?_⟩
  · obtain ⟨rfl, rfl⟩ | ⟨-, hl⟩ := lookup_insert_cases hl
    · rfl
    · exact h.hash_eq hl
  · rw [TxPool.addTransaction,
      InvertedIndex.foldl_eq_ite (lookup outpoint) (fun m o => m.insert o txDesc.tx) fun _ _ =>
        lookup_insert_eq_ite]
    simp only [exists_eq_right']
    constructor
    · intro hs
      split_ifs at hs with hi
      · cases hs
        exact ⟨_, txDesc, lookup_insert _, rfl, hi⟩
      · obtain ⟨hash, other, ho, rfl, hm⟩ := (h.lookup_iff outpoint spender).1 hs
        have hne : hash ≠ txDesc.tx.txHash env.prim := by
          rintro rfl
          exact hn (mem_of_lookup_eq_some ho)
        exact ⟨hash, other, by rw [lookup_insert_of_ne _ hne, ho], rfl, hm⟩
    · rintro ⟨hash, other, hl, rfl, hm⟩
      obtain ⟨rfl, rfl⟩ | ⟨-, hl⟩ := lookup_insert_cases hl
      · rw [if_pos hm]
      · have hs := (h.lookup_iff outpoint other.tx).2 ⟨hash, other, hl, rfl, hm⟩
        rw [if_neg fun hi => hsp outpoint hi (mem_of_lookup_eq_some hs), hs]

theorem Consistent.addTransaction (h : Consistent env.prim policy pool) {rejectDupOrphans : Bool}
    (hf : Fresh env.prim rejectDupOrphans txDesc.tx pool) (hs : SameMaps pool limited) :
    SpentExact env.prim (limited.addTransaction env txDesc) ∧
      OrphansExact env.prim ∅ (limited.addTransaction env txDesc) ∧
      (∀ hash, hash ∈ (limited.addTransaction env txDesc).pool →
        hash = txDesc.tx.txHash env.prim ∨ hash ∉ pool.orphans) ∧
      (limited.addTransaction env txDesc).orphans = pool.orphans := by
  have hl := h.sameMaps hs
  refine ⟨hl.spent.addTransaction ?_ ?_, hl.orphans.congr rfl rfl, fun hash hm => ?_, hs.orphans_eq⟩
  · rw [hs.pool_eq]
    exact hf.notMem_pool
  · rw [hs.outpoints_eq]
    exact hf.notMem_outpoints
  · obtain hm | hm := mem_insert.1 hm
    · exact .inl hm
    · rw [hs.pool_eq] at hm
      exact .inr (h.disjoint hash hm)

/-- `maybeAcceptTransaction` keeps the maps consistent when it rejects what is an orphan. -/
theorem Consistent.maybeAccept (h : Consistent env.prim policy pool) {isNew : Bool}
    {result : Except TxError Acceptance}
    (hok : maybeAcceptTransaction env policy ctx tx isNew rateLimit true pool =
      .ok (pool', result)) :
    Consistent env.prim policy pool' ∧ (errorOf result ≠ none → SameMaps pool pool') := by
  obtain ⟨e, rfl, hs⟩ | ⟨view, rfl, rfl, -⟩ | ⟨txDesc, limited, rfl, rfl, hs, rfl, hf⟩ :=
    maybeAccept_cases hok
  · exact ⟨h.sameMaps hs, fun _ => hs⟩
  · exact ⟨h, absurd rfl⟩
  obtain ⟨hsp, ho, hd, heq⟩ := h.addTransaction hf hs
  refine ⟨⟨hsp, ho, fun hash hm => ?_, heq ▸ h.limit⟩, absurd rfl⟩
  rw [heq]
  obtain rfl | hn := hd hash hm
  · exact hf.notMem_orphans rfl
  · exact hn

/-! ### The loops of `processOrphans` -/

theorem mem_waitingFor_iff (h : OrphansExact prim ∅ pool) : tx ∈ waitingFor order pool outpoint ↔
      ∃ otx, pool.orphans.lookup (tx.txHash prim) = some otx ∧ otx.tx = tx ∧
        outpoint ∈ tx.inputs := by
  rw [waitingFor, List.mem_filterMap]
  constructor
  · rintro ⟨hash, -, hro⟩
    obtain ⟨hr, hm⟩ := (h.indexes.lookup_iff outpoint hash tx).1 hro
    obtain ⟨-, otx, ho, rfl⟩ := orphanRows_eq_some_iff.1 hr
    exact ⟨otx, by rw [h.hash_eq ho, ho], rfl, hm⟩
  · rintro ⟨otx, ho, rfl, hm⟩
    have hro := (h.indexes.lookup_iff outpoint (otx.tx.txHash prim) otx.tx).2
      ⟨orphanRows_eq_some_iff.2 ⟨notMem_empty _, otx, ho, rfl⟩, hm⟩
    refine ⟨otx.tx.txHash prim, ?_, hro⟩
    rw [order.mem_range]
    exact mem_of_lookup_eq_some hro

/-- The pool has been asked about an orphan, and it still misses an input. -/
def StillMissing (env : Env) (policy : TxPolicy) (ctx : PoolContext) (pool : TxPool) (tx : MsgTx) :
    Prop :=
  ∃ hashes, maybeAcceptTransaction env policy ctx tx true true false pool =
    .ok (pool, .ok (.missingParents hashes))

/-- **What the loop over the orphans of an output can do.** -/
theorem tryOrphans_cases {txs : List MsgTx}
    (hok : tryOrphans env policy ctx order txs pool = .ok tried) :
    (tried = (pool, none) ∧ ∀ t ∈ txs, StillMissing env policy ctx pool t) ∨
      ∃ before t after, txs = before ++ t :: after ∧
        (∀ t' ∈ before, StillMissing env policy ctx pool t') ∧
        ((∃ pool₁ e, maybeAcceptTransaction env policy ctx t true true false pool =
            .ok (pool₁, .error e) ∧ tried = (removeOrphan env.prim order t true pool₁, none)) ∨
          ∃ pool₁ txDesc, maybeAcceptTransaction env policy ctx t true true false pool =
            .ok (pool₁, .ok (.accepted txDesc)) ∧
              tried = (removeOrphan env.prim order t false pool₁, some txDesc)) := by
  induction txs with
  | nil =>
    cases hok
    exact .inl ⟨rfl, fun _ hme => by cases hme⟩
  | cons t txs ih =>
    rw [tryOrphans] at hok
    match ha : maybeAcceptTransaction env policy ctx t true true false pool with
    | .error stop =>
      rw [ha] at hok
      cases hok
    | .ok (pool₁, .error e) =>
      rw [ha] at hok
      cases hok
      exact .inr ⟨[], t, txs, rfl, fun _ hme => absurd hme List.not_mem_nil,
        .inl ⟨pool₁, e, ha, rfl⟩⟩
    | .ok (pool₁, .ok (.accepted txDesc)) =>
      rw [ha] at hok
      cases hok
      exact .inr ⟨[], t, txs, rfl, fun _ hme => absurd hme List.not_mem_nil,
        .inr ⟨pool₁, txDesc, ha, rfl⟩⟩
    | .ok (pool₁, .ok (.missingParents hashes)) =>
      have hs : pool₁ = pool := by
        obtain ⟨_, h, -⟩ | ⟨_, -, h, -⟩ | ⟨_, _, h, -⟩ := maybeAccept_cases ha
        · cases h
        · exact h
        · cases h
      subst hs
      have hm : StillMissing env policy ctx pool₁ t := ⟨hashes, ha⟩
      rw [ha] at hok
      obtain ⟨ht, hal⟩ | ⟨before, t', after, rfl, hb, hl⟩ := ih hok
      · exact .inl ⟨ht, List.forall_mem_cons.2 ⟨hm, hal⟩⟩
      · exact .inr ⟨t :: before, t', after, rfl, List.forall_mem_cons.2 ⟨hm, hb⟩, hl⟩

/-- What a visit of an output does: orphans are removed, and one that spends the output may have
been added to the pool. -/
structure Visited (prim : Primitives) (outpoint : OutPoint) (pool : TxPool)
    (tried : TxPool × Option PoolTxDesc) : Prop where
  pool_eq : tried.1.pool = tried.2.elim pool.pool fun txDesc =>
    pool.pool.insert (txDesc.tx.txHash prim) txDesc
  sub : ∀ {hash otx}, tried.1.orphans.lookup hash = some otx → pool.orphans.lookup hash = some otx
  card_le : tried.1.orphans.keys.card + tried.2.toList.length ≤ pool.orphans.keys.card
  input : ∀ txDesc ∈ tried.2, outpoint ∈ txDesc.tx.inputs

theorem SameMaps.orphanTxs_eq (h : SameMaps pool pool') : pool'.orphanTxs = pool.orphanTxs := by
  funext hash
  rw [orphanTxs, orphanTxs, h.orphans_eq]

section

variable (h : Consistent env.prim policy pool)
include h

/-- An orphan that is refused is removed with its descendants, and nothing else changes. -/
theorem Consistent.refuse (order : MapOrder) {otx : OrphanTx}
    (ho : pool.orphans.lookup (otx.tx.txHash env.prim) = some otx) (hs : SameMaps pool pool') :
    Thinned env.prim ∅ pool' (removeOrphan env.prim order otx.tx true pool') ∧ ∀ {hash otx'},
        (removeOrphan env.prim order otx.tx true pool').orphans.lookup hash = some otx' ↔
          pool.orphans.lookup hash = some otx' ∧ ¬Relation.ReflTransGen
            (Redeems env.prim pool.orphanTxs) (otx.tx.txHash env.prim) hash := by
  have he := (h.sameMaps hs).orphans
  have ho' : pool'.orphans.lookup (otx.tx.txHash env.prim) = some otx := by
    rw [hs.orphans_eq, ho]
  have ht := (thinned_removeOrphan order otx.tx he true
    fun otx₁ ho₁ _ => by rw [Option.some.inj (ho₁.symm.trans ho')]).1
  refine ⟨ht, fun {hash otx'} => ?_⟩
  have hm : hash ∈ (removeOrphan env.prim order otx.tx true pool').orphans ↔ _ :=
    mem_removeOrphan_iff order he ho'
  rw [hs.orphanTxs_eq] at hm
  constructor
  · intro hl
    refine ⟨hs.orphans_eq ▸ ht.sub hl, ?_⟩
    exact (hm.1 (mem_of_lookup_eq_some hl)).2
  · rintro ⟨hl, hn⟩
    rw [← hs.orphans_eq] at hl
    obtain ⟨otx₁, ho₁⟩ := mem_iff.1 (hm.2 ⟨mem_of_lookup_eq_some hl, hn⟩)
    rw [ho₁, ← ht.sub ho₁, hl]

theorem Consistent.accept (order : MapOrder)
    (hfr : Fresh env.prim false txDesc.tx pool) (hsa : SameMaps pool limited)
    (hot : txDesc.tx.txHash env.prim ∈ pool.orphans) :
    Thinned env.prim ∅ (limited.addTransaction env txDesc) (removeOrphan env.prim order txDesc.tx
        false (limited.addTransaction env txDesc)) ∧
      Consistent env.prim policy (removeOrphan env.prim order txDesc.tx false
        (limited.addTransaction env txDesc)) ∧
      (removeOrphan env.prim order txDesc.tx false
        (limited.addTransaction env txDesc)).orphans.keys.card < pool.orphans.keys.card := by
  obtain ⟨hsp, hor, hd, heq⟩ := h.addTransaction hfr hsa
  obtain ⟨ht, hg⟩ := thinned_removeOrphan order txDesc.tx hor false
    fun _ _ hf => by cases hf
  have hs := ht.keys_subset
  rw [heq] at hs
  have hlt := card_lt_card (ssubset_iff_of_subset hs |>.2
    ⟨txDesc.tx.txHash env.prim, mem_keys.2 hot, fun hm => hg (mem_keys.1 hm)⟩)
  refine ⟨ht, ⟨hsp.congr ht.pool_eq ht.outpoints_eq, ht.exact,
    fun hash hm ho => ?_, hlt.le.trans h.limit⟩, hlt⟩
  rw [ht.pool_eq] at hm
  obtain rfl | hn := hd hash hm
  · exact hg ho
  · exact hn (mem_keys.1 (hs (mem_keys.2 ho)))

/-- **What a visit of an output leaves.** -/
theorem Consistent.tryOrphans (hok : tryOrphans env policy ctx order
    (waitingFor order pool outpoint) pool = .ok tried) :
    Consistent env.prim policy tried.1 ∧ Visited env.prim outpoint pool tried := by
  obtain ⟨rfl, -⟩ | ⟨before, t, after, hsp, -, hla⟩ := tryOrphans_cases hok
  · exact ⟨h, rfl, fun hl => hl, le_rfl, fun _ hm => by cases hm⟩
  have hm : t ∈ waitingFor order pool outpoint := by
    rw [hsp]
    exact List.mem_append_right before List.mem_cons_self
  obtain ⟨otx, ho, rfl, hi⟩ := (mem_waitingFor_iff h.orphans).1 hm
  obtain ⟨pool₁, e, ha, rfl⟩ | ⟨pool₁, txDesc, ha, rfl⟩ := hla
  · have hs := sameMaps_of_error ha
    obtain ⟨ht, hl⟩ := h.refuse order ho hs
    refine ⟨(h.sameMaps hs).thinned ht, ht.pool_eq.trans hs.pool_eq,
      fun haf => (hl.1 haf).1, ?_, fun _ hm => by cases hm⟩
    rw [← hs.orphans_eq]
    exact card_le_card ht.keys_subset
  · obtain ⟨_, h', -⟩ | ⟨_, h', -⟩ | ⟨_, limited, h', htx, hs, rfl, hf⟩ :=
      maybeAccept_cases ha
    · cases h'
    · cases h'
    · cases h'
      rw [← htx] at hf ho hi ⊢
      obtain ⟨ht, hc, hlt⟩ := h.accept order hf hs (mem_of_lookup_eq_some ho)
      refine ⟨hc, ht.pool_eq.trans ?_, fun haf => ?_, hlt, fun _ hm => ?_⟩
      · rw [TxPool.addTransaction, hs.pool_eq]
        rfl
      · exact hs.orphans_eq ▸ ht.sub haf
      · cases hm
        exact hi

end

/-- What is left to do: the transactions to process, and the orphans that may become such. -/
def Processing.left (state : Processing) : Nat :=
  state.pool.orphans.keys.card + state.processList.length

section

variable (h : Consistent env.prim policy state.pool)
include h

theorem Consistent.processOutput
    (hok : processOutput env policy ctx order state outpoint = .ok state') :
    Consistent env.prim policy state'.pool ∧ state'.left ≤ state.left := by
  obtain ⟨tried, ht, hok⟩ := bind_eq_ok.1 hok
  cases hok
  obtain ⟨hc, hv⟩ := h.tryOrphans ht
  have hca := hv.card_le
  refine ⟨hc, ?_⟩
  have hl : (tried.2.map fun txDesc => txDesc.tx).toList.length = tried.2.toList.length := by
    cases tried.2 <;> rfl
  rw [Processing.left, Processing.left, List.length_append, hl]
  dsimp only
  omega

theorem Consistent.processOutputs (hok : outpoints.foldlM
    (TxPool.processOutput env policy ctx order) state = .ok state') :
    Consistent env.prim policy state'.pool ∧ state'.left ≤ state.left := by
  refine foldlM_invariant
    (P := fun _ _ s => Consistent env.prim policy s.pool ∧ s.left ≤ state.left)
    (fun before outpoint rest s s' _ hs hst => ?_) ⟨h, le_rfl⟩ (List.append_nil outpoints).symm hok
  obtain ⟨hc, hl⟩ := hs.1.processOutput hst
  exact ⟨hc, hl.trans hs.2⟩

/-- The loop keeps the maps consistent. -/
theorem Consistent.processLoop {rounds : Nat}
    (hok : processLoop env policy ctx order rounds state = .ok state') :
    Consistent env.prim policy state'.pool := by
  induction rounds generalizing state with
  | zero =>
    cases hok
    exact h
  | succ rounds ih =>
    rw [processLoop] at hok
    split at hok
    · cases hok
      exact h
    · rename_i item processList hli
      obtain ⟨state₁, ho, hok⟩ := bind_eq_ok.1 hok
      have hp : Consistent env.prim policy { state with processList }.pool := h
      exact ih (hp.processOutputs ho).1 hok

end

theorem thinned_removeDoubleSpenders (order : MapOrder) (acceptedTx : MsgTx)
    (he : OrphansExact env.prim ∅ state.pool) :
    Thinned env.prim ∅ state.pool (removeDoubleSpenders env order acceptedTx state) := by
  have hl : ∀ (txs : List MsgTx) (pool : TxPool), OrphansExact env.prim ∅ pool →
      Thinned env.prim ∅ pool
        (txs.foldl (fun pool tx => removeOrphanDoubleSpends env.prim order tx pool) pool) := by
    intro txs
    induction txs with
    | nil => exact fun pool h => .refl h
    | cons tx txs ih =>
      intro pool h
      have hf := (thinned_removeOrphanDoubleSpends order h tx).1
      exact hf.trans (ih _ hf.exact)
  exact hl _ state.pool he

theorem Consistent.processOrphans {acceptedTx : MsgTx} {processed : TxPool × List PoolTxDesc}
    (h : Consistent env.prim policy pool)
    (hok : processOrphans env policy ctx order acceptedTx pool = .ok processed) :
    Consistent env.prim policy processed.1 := by
  obtain ⟨state, hl, hok⟩ := bind_eq_ok.1 hok
  cases hok
  have hs := Consistent.processLoop h hl
  exact hs.thinned (thinned_removeDoubleSpenders order acceptedTx hs.orphans)

/-! ### Adding an orphan -/

/-- An orphan that is new is added, and another one is evicted when there are too many. -/
theorem Consistent.addOrphan (h : Consistent prim policy pool) (hp : tx.txHash prim ∉ pool.pool)
    (hor : tx.txHash prim ∉ pool.orphans) (now : Int) (tag : UInt64) :
    Consistent prim policy (pool.addOrphan prim order policy now tx tag) := by
  rw [TxPool.addOrphan]
  split_ifs with hz
  · exact h
  obtain ⟨ht, hr⟩ := thinned_limitNumOrphans order h.orphans now hz h.limit
  have hl := h.thinned ht
  have hn : tx.txHash prim ∉ (pool.limitNumOrphans prim order policy now).orphans := fun hm =>
    hor (mem_keys.1 (ht.keys_subset (mem_keys.2 hm)))
  refine ⟨hl.spent.congr rfl rfl, ht.exact.insertOrphan hn tag now, fun hash hm hi => ?_, ?_⟩
  · obtain rfl | ho := mem_insert.1 hi
    · exact hp (ht.pool_eq ▸ hm)
    · exact hl.disjoint hash hm ho
  · refine (card_le_card fun hash hm => ?_).trans ((card_insert_le (tx.txHash prim) _).trans hr)
    obtain hn | ho := mem_insert.1 (mem_keys.1 hm)
    · exact mem_insert.2 (.inl hn)
    · exact mem_insert_of_mem (mem_keys.2 ho)

/-- A transaction whose parents are missing becomes an orphan, or the maps stay as they are. -/
theorem Consistent.processMissing (h : Consistent env.prim policy pool)
    (hf : Fresh env.prim true tx pool) (allowOrphan : Bool) (tag : UInt64) :
    Consistent env.prim policy (processMissing env policy ctx order tx allowOrphan tag pool).1 ∧
      (errorOf (processMissing env policy ctx order tx allowOrphan tag pool).2 ≠ none →
        SameMaps pool (processMissing env policy ctx order tx allowOrphan tag pool).1) := by
  rw [TxPool.processMissing]
  split_ifs
  · rw [maybeAddOrphan]
    split_ifs
    · exact ⟨h, fun _ => .refl⟩
    · exact ⟨h.addOrphan hf.notMem_pool (hf.notMem_orphans rfl) ctx.now tag,
        absurd rfl⟩
  · exact ⟨h, fun _ => .refl⟩

/-! ### All calls -/

theorem Consistent.processTransaction (h : Consistent env.prim policy pool) {allowOrphan : Bool}
    {tag : UInt64} {result : TxPool × Except TxError (List PoolTxDesc)}
    (hok : processTransaction env policy ctx order tx allowOrphan rateLimit tag pool = .ok result) :
    Consistent env.prim policy result.1 ∧ (errorOf result.2 ≠ none → SameMaps pool result.1) := by
  rw [TxPool.processTransaction] at hok
  match ha : maybeAcceptTransaction env policy ctx tx true rateLimit true pool with
  | .error stop =>
    rw [ha] at hok
    cases hok
  | .ok (pool₁, .error e) =>
    rw [ha] at hok
    cases hok
    obtain ⟨hc, hs⟩ := h.maybeAccept ha
    exact ⟨hc, fun _ => hs (Option.some_ne_none e)⟩
  | .ok (pool₁, .ok (.missingParents hashes)) =>
    rw [ha] at hok
    cases hok
    obtain ⟨_, h', -⟩ | ⟨_, -, rfl, hn, -⟩ | ⟨_, _, h', -⟩ := maybeAccept_cases ha
    · cases h'
    · exact h.processMissing (fresh_of_checkNew hn) allowOrphan tag
    · cases h'
  | .ok (pool₁, .ok (.accepted txDesc)) =>
    rw [ha] at hok
    obtain ⟨processed, hp, hok⟩ := bind_eq_ok.1 hok
    cases hok
    exact ⟨(h.maybeAccept ha).1.processOrphans hp, absurd rfl⟩

/-- **Every call keeps the maps consistent, and a call that returns an error leaves them as they
are.** -/
theorem consistent_perform {error : Option TxError} (h : Consistent env.prim policy pool)
    (hok : perform env policy pool event = .ok (pool', error)) :
    Consistent env.prim policy pool' ∧ (error ≠ none → SameMaps pool pool') := by
  obtain ⟨call, ctx, order⟩ := event
  cases call with
  | processTransaction tx allowOrphan rateLimit tag =>
    obtain ⟨result, hr, hok⟩ := bind_eq_ok.1 hok
    cases hok
    exact h.processTransaction hr
  | maybeAcceptTransaction tx isNew rateLimit =>
    obtain ⟨result, hr, hok⟩ := bind_eq_ok.1 hok
    cases hok
    exact h.maybeAccept hr
  | removeTransaction tx redeemers =>
    obtain ⟨result, hr, hok⟩ := bind_eq_ok.1 hok
    cases hok
    exact ⟨h.reduced (reduced_removeTransaction h.spent hr).1, absurd rfl⟩
  | removeDoubleSpends tx =>
    obtain ⟨result, hr, hok⟩ := bind_eq_ok.1 hok
    cases hok
    exact ⟨h.reduced (reduced_removeDoubleSpends h.spent hr), absurd rfl⟩
  | processOrphans acceptedTx =>
    obtain ⟨processed, hp, hok⟩ := bind_eq_ok.1 hok
    cases hok
    exact ⟨h.processOrphans hp, absurd rfl⟩
  | removeOrphan tx =>
    cases hok
    have ht := (thinned_removeOrphan order tx h.orphans false
      fun _ _ hf => by cases hf).1
    exact ⟨h.thinned ht, absurd rfl⟩
  | removeOrphansByTag tag =>
    cases hok
    exact ⟨h.thinned (thinned_removeOrphansIf order h.orphans _), absurd rfl⟩

theorem step_eq_ok : step env policy pool event = .ok pool' ↔
      ∃ error, perform env policy pool event = .ok (pool', error) := by
  rw [step]
  cases hp : perform env policy pool event with
  | error stop => exact iff_of_false (fun h => by cases h) fun ⟨_, h⟩ => by cases h
  | ok result =>
    obtain ⟨after, error⟩ := result
    constructor
    · intro h
      cases h
      exact ⟨error, rfl⟩
    · rintro ⟨_, h⟩
      cases h
      rfl

theorem consistent_of_run {events : List PoolEvent}
    (hr : Runs.Run (step env policy) (fun _ _ => True) (new now) events pool) :
    Consistent env.prim policy pool :=
  hr.invariant consistent_new fun _ _ _ h _ hs => by
    obtain ⟨_, hp⟩ := step_eq_ok.1 hs
    exact (consistent_perform h hp).1

/-! ### What holds after every run -/

/-- **What the maps of the pool stand for**: the spent outputs are the inputs of the transactions,
and the index has the orphans under their inputs. -/
structure Represents (prim : Primitives) (policy : TxPolicy) (pool : TxPool) : Prop where
  outpoints_iff : ∀ outpoint tx, pool.outpoints.lookup outpoint = some tx ↔
    (∃ txDesc, pool.pool.lookup (tx.txHash prim) = some txDesc ∧ txDesc.tx = tx) ∧
      outpoint ∈ tx.inputs
  eq_of_mem_inputs : ∀ hash hash' txDesc txDesc' outpoint, pool.pool.lookup hash = some txDesc →
    pool.pool.lookup hash' = some txDesc' → outpoint ∈ txDesc.tx.inputs →
      outpoint ∈ txDesc'.tx.inputs → hash = hash'
  orphansByPrev_iff : ∀ outpoint hash tx,
    (∃ rows, pool.orphansByPrev.lookup outpoint = some rows ∧ rows.lookup hash = some tx) ↔
      (∃ otx, pool.orphans.lookup hash = some otx ∧ otx.tx = tx) ∧ outpoint ∈ tx.inputs
  rows_ne_empty : ∀ outpoint rows, pool.orphansByPrev.lookup outpoint = some rows → rows ≠ ∅
  hash_eq : (∀ hash txDesc, pool.pool.lookup hash = some txDesc → txDesc.tx.txHash prim = hash) ∧
    ∀ hash otx, pool.orphans.lookup hash = some otx → otx.tx.txHash prim = hash
  disjoint : ∀ hash, hash ∈ pool.pool → hash ∉ pool.orphans
  limit : pool.orphans.keys.card ≤ policy.maxOrphanTxs

theorem Consistent.represents (h : Consistent prim policy pool) : Represents prim policy pool where
  outpoints_iff outpoint tx := by
    rw [h.spent.lookup_iff]
    constructor
    · rintro ⟨hash, txDesc, htx, rfl, hm⟩
      exact ⟨⟨txDesc, by rw [h.spent.hash_eq htx, htx], rfl⟩, hm⟩
    · rintro ⟨⟨txDesc, htx, rfl⟩, hm⟩
      exact ⟨_, txDesc, htx, rfl, hm⟩
  eq_of_mem_inputs _ _ _ _ _ htx htx' hm hm' := h.spent.eq_of_mem_inputs htx htx' hm hm'
  orphansByPrev_iff outpoint hash tx := by
    have hr : (∃ rows, pool.orphansByPrev.lookup outpoint = some rows ∧
        rows.lookup hash = some tx) ↔
          (pool.orphansByPrev.rowsAt outpoint).lookup hash = some tx := by
      rw [InvertedIndex.rowsAt]
      cases pool.orphansByPrev.lookup outpoint with
      | none =>
        refine iff_of_false ?_ fun h' => ?_
        · rintro ⟨_, h', -⟩
          cases h'
        · rw [Option.getD_none] at h'
          cases h'
      | some rows =>
        constructor
        · rintro ⟨_, h', hl⟩
          cases h'
          exact hl
        · exact fun hl => ⟨rows, rfl, hl⟩
    rw [hr, h.orphans.indexes.lookup_iff, orphanRows_eq_some_iff,
      and_iff_right (notMem_empty hash)]
  rows_ne_empty outpoint _ hr he := h.orphans.indexes.noneEmpty outpoint (he ▸ hr)
  hash_eq := ⟨fun _ _ htx => h.spent.hash_eq htx, fun _ _ ho => h.orphans.hash_eq ho⟩
  disjoint := h.disjoint
  limit := h.limit

/-- **The representation invariant of the memory pool** after every sequence of calls. -/
theorem represents_of_run {now : Int} {events : List PoolEvent}
    (hrun : Runs.Run (step env policy) (fun _ _ => True) (new now) events pool) :
    Represents env.prim policy pool ∧
      (∀ event pool' e, perform env policy pool event = .ok (pool', some e) → SameMaps pool pool') ∧
      ∀ tx, (Acyclic env.prim pool → ∃ pool', removeTransaction env.prim tx true pool = .ok pool') ∧
        ∀ pool', removeTransaction env.prim tx true pool = .ok pool' →
          tx.txHash env.prim ∉ pool'.pool ∧
            ∀ hash, Descends env.prim pool tx hash → hash ∉ pool'.pool := by
  have h := consistent_of_run hrun
  refine ⟨h.represents, fun event pool' e hp => ?_, fun tx => ⟨fun ha => ?_, fun pool' hok => ?_⟩⟩
  · exact (consistent_perform h hp).2 (Option.some_ne_none e)
  · exact exists_removeTransaction h.spent ha tx true
  · obtain ⟨-, hg, hl⟩ := reduced_removeTransaction h.spent hok
    exact ⟨hg, hl rfl⟩

end TxPool

/-! ### A run -/

/-- The hashes in increasing order. -/
def sortHashes (hashes : List Hash) : List Hash :=
  hashes.insertionSort fun a b => a.toNat ≤ b.toNat

theorem sortHashes_eq_of_perm {hashes hashes' : List Hash} (h : hashes.Perm hashes') :
    sortHashes hashes = sortHashes hashes' := by
  let r : Hash → Hash → Prop := fun a b => a.toNat ≤ b.toNat
  refine List.Perm.eq_of_pairwise (fun a b _ _ hab hba => BitVec.eq_of_toNat_eq (hab.antisymm hba))
    (List.pairwise_insertionSort r hashes) (List.pairwise_insertionSort r hashes') ?_
  exact (List.perm_insertionSort r hashes).trans (h.trans (List.perm_insertionSort r hashes').symm)

/-- Loops that visit hashes in increasing order. -/
def MapOrder.increasing : MapOrder where
  range _ _ keys := Quot.liftOn keys.val sortHashes fun _ _ => sortHashes_eq_of_perm
  nodup_range _ _ keys := by
    obtain ⟨⟨hashes⟩, hnodup⟩ := keys
    exact (List.perm_insertionSort _ hashes).nodup_iff.2 hnodup
  mem_range _ _ keys hash := by
    obtain ⟨⟨hashes⟩, hnodup⟩ := keys
    exact List.mem_insertionSort _

/-- A policy without fees, for transactions of any form. -/
def freePolicy : TxPolicy := { defaultPolicy with acceptNonStd := true, minRelayTxFee := 0 }

/-- A transaction whose outputs anybody can spend. -/
def openTx (prevOuts : List OutPoint) (values : List Int64) : MsgTx where
  version := 1
  txIn := prevOuts.map fun previousOutPoint =>
    { previousOutPoint, signatureScript := [], witness := [], sequence := 0xffffffff }
  txOut := values.map fun value => { value, pkScript := [Opcode.op1] }
  lockTime := 0

/-- Calls in the chain that has one output, which anybody can spend. -/
def openEvent (call : PoolCall) : PoolEvent :=
  ⟨call, sampleContext ⟨1, 0⟩ [Opcode.op1], .increasing⟩

/-- A transaction with two outputs. -/
def parentTx : MsgTx := openTx [⟨1, 0⟩] [40000, 50000]

/-- A transaction that spends the first output of the other one. -/
def childTx (value : Int64) : MsgTx := openTx [⟨parentTx.txHash sampleEnv.prim, 0⟩] [value]

/-- **A run**: a transaction arrives before its parent, and is accepted with it. -/
theorem represents_parent_and_child :
    ∃ pool, Runs.Run (TxPool.step sampleEnv freePolicy) (fun _ _ => True) (.new 0)
        [openEvent (.processTransaction (childTx 30000) true false 0),
          openEvent (.processTransaction parentTx true false 0)] pool ∧
      (pool.pool.keys.card = 2 ∧
        pool.outpoints.lookup ⟨parentTx.txHash sampleEnv.prim, 0⟩ = some (childTx 30000)) ∧
      pool.Represents sampleEnv.prim freePolicy :=
  Runs.exists_run_and (by decide +kernel) fun _ hr _ => (represents_of_run hr).1

end DrcNode
