import DrcNode.Mempool.TxPool

/-!
# Removing transactions from the memory pool

`removeTransaction` with redeemers goes from the outputs of a transaction to the transactions of the
pool that spend them, by the map of spent outputs, and removes these in the same way before the
transaction itself. Nothing that depends on the transaction is left when it returns. It returns
whenever no transaction of the pool depends on itself, which takes a cycle of hashes.

Source: `removeTransaction` and `RemoveDoubleSpends` in `mempool/mempool.go`.
-/

namespace DrcNode

open Checked Finmap Finset Option Relation

namespace TxPool

variable {prim : Primitives} {pool pool' pool'' : TxPool} {hash : Hash} {tx : MsgTx}
  {txDesc : PoolTxDesc} {outpoint : OutPoint} {txs : Hash → Option MsgTx} {P : Hash → Prop}

/-! ### The map of spent outputs -/

/-- **The map of spent outputs is exact.** -/
structure SpentExact (prim : Primitives) (pool : TxPool) : Prop where
  hash_eq : ∀ {hash txDesc}, pool.pool.lookup hash = some txDesc → txDesc.tx.txHash prim = hash
  lookup_iff : ∀ outpoint tx, pool.outpoints.lookup outpoint = some tx ↔
    ∃ hash txDesc, pool.pool.lookup hash = some txDesc ∧ txDesc.tx = tx ∧ outpoint ∈ tx.inputs

/-- The transactions of the pool are among those of a table. -/
def PoolIn (txs : Hash → Option MsgTx) (pool : TxPool) : Prop :=
  ∀ hash txDesc, pool.pool.lookup hash = some txDesc → txs hash = some txDesc.tx

/-- The transactions of the pool as a table. -/
def poolTxs (pool : TxPool) (hash : Hash) : Option MsgTx :=
  (pool.pool.lookup hash).map fun txDesc => txDesc.tx

theorem poolIn_poolTxs (pool : TxPool) : PoolIn pool.poolTxs pool :=
  fun _ _ ht => map_eq_some_iff.2 ⟨_, ht, rfl⟩

theorem SpentExact.eq_of_mem_inputs (h : SpentExact prim pool) {hash' : Hash} {txDesc' : PoolTxDesc}
    (htx : pool.pool.lookup hash = some txDesc) (htx' : pool.pool.lookup hash' = some txDesc')
    (hi : outpoint ∈ txDesc.tx.inputs) (hi' : outpoint ∈ txDesc'.tx.inputs) : hash = hash' := by
  have hs := (h.lookup_iff outpoint txDesc.tx).2 ⟨hash, txDesc, htx, rfl, hi⟩
  have hs' := (h.lookup_iff outpoint txDesc'.tx).2 ⟨hash', txDesc', htx', rfl, hi'⟩
  rw [hs] at hs'
  rw [← h.hash_eq htx, ← h.hash_eq htx', some.inj hs']

theorem lookup_erase_eq_ite {m : ByOutPoint MsgTx} {first : OutPoint} :
    (m.erase first).lookup outpoint = if outpoint = first then none else m.lookup outpoint := by
  split_ifs with h
  · rw [h, lookup_erase]
  · exact lookup_erase_ne h

theorem SpentExact.removeOnly (h : SpentExact prim pool) (tx : MsgTx) :
    SpentExact prim (pool.removeOnly prim tx) := by
  rw [TxPool.removeOnly]
  cases hr : pool.pool.lookup (tx.txHash prim) with
  | none => exact h
  | some removed =>
    refine ⟨fun hl => h.hash_eq (lookup_erase_cases hl).2, fun outpoint spender => ?_⟩
    rw [InvertedIndex.foldl_eq_ite (lookup outpoint) (fun m o => m.erase o) fun _ _ =>
      lookup_erase_eq_ite]
    simp only [exists_eq_right']
    constructor
    · intro hs
      split_ifs at hs with hi
      obtain ⟨hash, txDesc, htx, rfl, hm⟩ := (h.lookup_iff outpoint spender).1 hs
      have hne : hash ≠ tx.txHash prim := by
        rintro rfl
        rw [hr] at htx
        cases htx
        exact hi hm
      exact ⟨hash, txDesc, by rw [lookup_erase_ne hne, htx], rfl, hm⟩
    · rintro ⟨hash, txDesc, hl, rfl, hm⟩
      obtain ⟨hne, htx⟩ := lookup_erase_cases hl
      rw [if_neg fun hi => hne (h.eq_of_mem_inputs htx hr hm hi)]
      exact (h.lookup_iff outpoint txDesc.tx).2 ⟨hash, txDesc, htx, rfl, hm⟩

theorem notMem_removeOnly : tx.txHash prim ∉ (pool.removeOnly prim tx).pool := by
  rw [removeOnly]
  cases hr : pool.pool.lookup (tx.txHash prim) with
  | none => exact lookup_eq_none.1 hr
  | some removed => exact notMem_erase_self

/-! ### What is left when transactions are removed -/

/-- Transactions of the pool have been removed and nothing else, and the map of spent outputs is
exact again. -/
structure Reduced (prim : Primitives) (pool pool' : TxPool) : Prop where
  frame : pool' = { pool with pool := pool'.pool, outpoints := pool'.outpoints }
  exact : SpentExact prim pool'
  sub : ∀ {hash txDesc}, pool'.pool.lookup hash = some txDesc → pool.pool.lookup hash = some txDesc

namespace Reduced

theorem refl (h : SpentExact prim pool) : Reduced prim pool pool where
  frame := rfl
  exact := h
  sub h := h

section

variable (h : Reduced prim pool pool')
include h

theorem trans (h' : Reduced prim pool' pool'') : Reduced prim pool pool'' where
  frame := by
    rw [h'.frame, h.frame]
  exact := h'.exact
  sub hl := h.sub (h'.sub hl)

theorem poolIn (hin : PoolIn txs pool) : PoolIn txs pool' :=
  fun hash txDesc htx => hin hash txDesc (h.sub htx)

theorem keys_subset : pool'.pool.keys ⊆ pool.pool.keys := by
  intro hash hm
  obtain ⟨txDesc, htx⟩ := mem_iff.1 (mem_keys.1 hm)
  exact mem_keys.2 (mem_of_lookup_eq_some (h.sub htx))

theorem outpoints_eq_none (he : SpentExact prim pool)
    (hn : pool.outpoints.lookup outpoint = none) : pool'.outpoints.lookup outpoint = none := by
  by_contra hs
  obtain ⟨tx, htx⟩ := ne_none_iff_exists'.1 hs
  obtain ⟨hash, txDesc, hl, rfl, hm⟩ := (h.exact.lookup_iff outpoint tx).1 htx
  rw [(he.lookup_iff outpoint txDesc.tx).2 ⟨hash, txDesc, h.sub hl, rfl, hm⟩] at hn
  cases hn

end

end Reduced

/-- **What has been removed**: transactions with the property `P` and those that spend their
outputs. -/
structure Withdraws (prim : Primitives) (txs : Hash → Option MsgTx) (P : Hash → Prop)
    (pool pool' : TxPool) : Prop extends Reduced prim pool pool' where
  cascade : Cascade (Redeems prim txs) ∅ P pool.pool.keys pool'.pool.keys

namespace Withdraws

theorem refl (h : SpentExact prim pool) : Withdraws prim txs P pool pool := ⟨.refl h, .refl⟩

theorem trans (h : Withdraws prim txs P pool pool') (h' : Withdraws prim txs P pool' pool'') :
    Withdraws prim txs P pool pool'' :=
  ⟨h.toReduced.trans h'.toReduced, h.cascade.trans h'.cascade⟩

theorem mono {Q : Hash → Prop} (h : Withdraws prim txs P pool pool') (hPQ : ∀ a, P a → Q a) :
    Withdraws prim txs Q pool pool' :=
  ⟨h.toReduced, h.cascade.mono fun a _ => hPQ a⟩

end Withdraws

/-- What a function that removes transactions with redeemers does to one of the pool. -/
def RemovesTx (prim : Primitives) (txs : Hash → Option MsgTx)
    (remove : MsgTx → TxPool → Except PoolStop TxPool) : Prop :=
  ∀ ⦃pool pool' : TxPool⦄ ⦃hash : Hash⦄ ⦃txDesc : PoolTxDesc⦄, SpentExact prim pool →
    PoolIn txs pool → pool.pool.lookup hash = some txDesc → remove txDesc.tx pool = .ok pool' →
      Withdraws prim txs (ReflTransGen (Redeems prim txs) hash) pool pool' ∧
        hash ∉ pool'.pool

section Spenders

variable {remove : MsgTx → TxPool → Except PoolStop TxPool}

theorem withdraws_removeSpender (hr : RemovesTx prim txs remove)
    (he : SpentExact prim pool) (hin : PoolIn txs pool) (hP : SpendersAll prim txs P outpoint)
    (hok : removeSpender remove pool outpoint = .ok pool') :
    Withdraws prim txs P pool pool' ∧ pool'.outpoints.lookup outpoint = none := by
  rw [removeSpender] at hok
  split at hok
  · rename_i hs
    cases hok
    exact ⟨.refl he, hs⟩
  rename_i spender hs
  obtain ⟨hash, txDesc, htx, rfl, hm⟩ := (he.lookup_iff outpoint spender).1 hs
  obtain ⟨hw, hg⟩ := hr he hin htx hok
  refine ⟨hw.mono (hP hash txDesc.tx (hin hash txDesc htx) hm), ?_⟩
  by_contra hso
  obtain ⟨other, ho⟩ := ne_none_iff_exists'.1 hso
  obtain ⟨hash', txDesc', htx', rfl, hm'⟩ := (hw.exact.lookup_iff outpoint other).1 ho
  obtain rfl := he.eq_of_mem_inputs htx (hw.sub htx') hm hm'
  exact hg (mem_of_lookup_eq_some htx')

theorem withdraws_foldlM_removeSpender (hre : RemovesTx prim txs remove)
    {outpoints : List OutPoint} (he : SpentExact prim pool) (hin : PoolIn txs pool)
    (hP : ∀ outpoint ∈ outpoints, SpendersAll prim txs P outpoint)
    (hok : outpoints.foldlM (removeSpender remove) pool = .ok pool') :
    Withdraws prim txs P pool pool' ∧
      ∀ outpoint ∈ outpoints, pool'.outpoints.lookup outpoint = none := by
  induction outpoints generalizing pool with
  | nil =>
    cases hok
    exact ⟨.refl he, fun _ h => by cases h⟩
  | cons first outpoints ih =>
    rw [List.foldlM_cons, bind_eq_ok] at hok
    obtain ⟨pool₁, hf, hok⟩ := hok
    obtain ⟨hw, hno⟩ := withdraws_removeSpender hre he hin (hP first List.mem_cons_self) hf
    obtain ⟨hr, hn⟩ := ih hw.exact (hw.poolIn hin)
      (fun outpoint hm => hP outpoint (List.mem_cons_of_mem first hm)) hok
    refine ⟨hw.trans hr, fun outpoint hm => ?_⟩
    obtain rfl | hm := List.mem_cons.1 hm
    · exact hr.outpoints_eq_none hw.exact hno
    · exact hn outpoint hm

end Spenders

theorem sub_removeOnly (h : (pool.removeOnly prim tx).pool.lookup hash = some txDesc) :
    pool.pool.lookup hash = some txDesc := by
  rw [removeOnly] at h
  cases hr : pool.pool.lookup (tx.txHash prim) with
  | none => rwa [hr] at h
  | some removed =>
    rw [hr] at h
    exact (lookup_erase_cases h).2

theorem reduced_removeOnly (he : SpentExact prim pool) (tx : MsgTx) :
    Reduced prim pool (pool.removeOnly prim tx) where
  frame := by
    rw [removeOnly]
    cases pool.pool.lookup (tx.txHash prim) <;> rfl
  exact := he.removeOnly tx
  sub := sub_removeOnly

theorem withdraws_removeOnly (he : SpentExact prim pool) (hin : PoolIn txs pool)
    (htx : pool.pool.lookup hash = some txDesc)
    (hn : ∀ outpoint ∈ txDesc.tx.outputs prim, pool.outpoints.lookup outpoint = none)
    (hP : P hash) : Withdraws prim txs P pool (pool.removeOnly prim txDesc.tx) := by
  refine ⟨reduced_removeOnly he txDesc.tx, ?_⟩
  have hk : (pool.removeOnly prim txDesc.tx).pool.keys = pool.pool.keys.erase hash := by
    rw [removeOnly, he.hash_eq htx, htx]
    exact keys_erase hash pool.pool
  rw [hk]
  refine .erase .refl (fun other hot hr => ?_) hP
  obtain ⟨x, y, hx, hy, outpoint, ho, hi⟩ := hr
  cases (hin hash txDesc htx).symm.trans hx
  obtain ⟨txDesc', htx'⟩ := mem_iff.1 (mem_keys.1 hot)
  cases (hin other txDesc' htx').symm.trans hy
  have hs := (he.lookup_iff outpoint txDesc'.tx).2 ⟨other, txDesc', htx', rfl, hi⟩
  rw [hn outpoint ho] at hs
  cases hs

/-- **What `removeTransaction` removes**: the transaction and what depends on it. -/
theorem removesTx_loop (depth : Nat) : RemovesTx prim txs (removeTransactionLoop prim depth) := by
  induction depth with
  | zero =>
    intro pool pool' hash txDesc _ _ _ hok
    cases hok
  | succ depth ih =>
    intro pool pool' hash txDesc he hin htx hok
    rw [removeTransactionLoop, bind_eq_ok] at hok
    obtain ⟨pool₁, hlo, hok⟩ := hok
    cases hok
    obtain ⟨hw, hn⟩ := withdraws_foldlM_removeSpender ih he hin
      (spendersAll_outputs (hin hash txDesc htx)) hlo
    have hg : hash ∉ (pool₁.removeOnly prim txDesc.tx).pool := by
      rw [← he.hash_eq htx]
      exact notMem_removeOnly
    refine ⟨hw.trans ?_, hg⟩
    -- the transaction is still there, unless it has been removed as one that depends on itself
    cases htx₁ : pool₁.pool.lookup hash with
    | none =>
      have hsa : pool₁.removeOnly prim txDesc.tx = pool₁ := by
        rw [removeOnly, he.hash_eq htx, htx₁]
      rw [hsa]
      exact .refl hw.exact
    | some txDesc₁ =>
      cases htx.symm.trans (hw.sub htx₁)
      exact withdraws_removeOnly hw.exact (hw.poolIn hin) htx₁ hn .refl

/-! ### Nothing that depends on the transaction is left -/

/-- **A transaction of the pool depends on another transaction**, which need not be in the pool. -/
inductive Descends (prim : Primitives) (pool : TxPool) (tx : MsgTx) : Hash → Prop
  | spends {hash : Hash} {txDesc : PoolTxDesc} {outpoint : OutPoint}
      (htx : pool.pool.lookup hash = some txDesc) (houtput : outpoint ∈ tx.outputs prim)
      (hinput : outpoint ∈ txDesc.tx.inputs) : Descends prim pool tx hash
  | next {hash hash' : Hash} (h : Descends prim pool tx hash)
      (hredeems : Redeems prim pool.poolTxs hash hash') : Descends prim pool tx hash'

theorem Redeems.mem_pool {hash' : Hash} (h : Redeems prim pool.poolTxs hash hash') :
    hash' ∈ pool.pool := by
  obtain ⟨_, _, -, hy, -⟩ := h
  obtain ⟨txDesc, htx, -⟩ := map_eq_some_iff.1 hy
  exact mem_of_lookup_eq_some htx

section

variable (he : SpentExact prim pool)
include he

theorem reduced_foldlM_removeSpender {depth : Nat} (hok : (tx.outputs prim).foldlM (removeSpender
    (removeTransactionLoop prim depth)) pool =
      .ok pool') :
    Reduced prim pool pool' ∧ ∀ hash, Descends prim pool tx hash → hash ∉ pool'.pool := by
  obtain ⟨hw, hn⟩ := withdraws_foldlM_removeSpender (P := fun _ => True)
    (removesTx_loop depth) he (poolIn_poolTxs pool) (fun _ _ _ _ _ _ _ _ => trivial) hok
  have hl : ∀ hash, Descends prim pool tx hash → hash ∈ pool.pool.keys ∧ hash ∉ pool'.pool := by
    intro hash hd
    induction hd with
    | @spends hash txDesc outpoint htx ho hi =>
      refine ⟨mem_keys.2 (mem_of_lookup_eq_some htx), fun hm => ?_⟩
      obtain ⟨txDesc', htx'⟩ := mem_iff.1 hm
      cases htx.symm.trans (hw.sub htx')
      have hs := (hw.exact.lookup_iff outpoint txDesc.tx).2 ⟨hash, txDesc, htx', rfl, hi⟩
      rw [hn outpoint ho] at hs
      cases hs
    | @next hash hash' _ hr ih =>
      refine ⟨mem_keys.2 hr.mem_pool, fun hm => ?_⟩
      exact Finset.notMem_empty hash' (hw.cascade.closed hash ih.1
        (fun h => ih.2 (mem_keys.1 h)) hash' (mem_keys.2 hm) hr)
  exact ⟨hw.toReduced, fun hash hd => (hl hash hd).2⟩

/-- **What `removeTransaction` leaves**: not the transaction and, with redeemers, nothing that
depends on it. -/
theorem reduced_removeTransaction {redeemers : Bool}
    (hok : removeTransaction prim tx redeemers pool = .ok pool') :
    Reduced prim pool pool' ∧ tx.txHash prim ∉ pool'.pool ∧
      (redeemers = true → ∀ hash, Descends prim pool tx hash → hash ∉ pool'.pool) := by
  rw [removeTransaction] at hok
  split_ifs at hok with hre
  · rw [removeTransactionLoop, bind_eq_ok] at hok
    obtain ⟨pool₁, hlo, hok⟩ := hok
    cases hok
    obtain ⟨hr, hlf⟩ := reduced_foldlM_removeSpender he hlo
    have hl := reduced_removeOnly hr.exact tx
    refine ⟨hr.trans hl, notMem_removeOnly, fun _ hash hd hm => ?_⟩
    exact hlf hash hd (mem_keys.1 (hl.keys_subset (mem_keys.2 hm)))
  · cases hok
    exact ⟨reduced_removeOnly he tx, notMem_removeOnly, fun h => absurd h hre⟩

theorem reduced_removeDoubleSpends (hok : removeDoubleSpends prim tx pool = .ok pool') :
    Reduced prim pool pool' := by
  refine foldlM_invariant (P := fun _ _ state => Reduced prim pool state)
    (fun before outpoint rest state state' _ hst hs => ?_) (.refl he)
    (List.append_nil tx.inputs).symm hok
  rw [removeDoubleSpend, removeSpender] at hs
  split at hs
  · cases hs
    exact hst
  · split_ifs at hs
    · cases hs
      exact hst
    · exact hst.trans (reduced_removeTransaction hst.exact hs).1

end

/-! ### The recursion ends -/

/-- **No transaction of the pool depends on itself.** -/
def Acyclic (prim : Primitives) (pool : TxPool) : Prop :=
  ∀ hash, ¬TransGen (Redeems prim pool.poolTxs) hash hash

open Classical in
/-- The transactions of the pool that depend on one of them, in a table with all of them. -/
noncomputable def dependents (prim : Primitives) (txs : Hash → Option MsgTx) (pool : TxPool)
    (hash : Hash) : Finset Hash :=
  pool.pool.keys.filter fun other => TransGen (Redeems prim txs) hash other

open Classical in
theorem mem_dependents {other : Hash} : other ∈ dependents prim txs pool hash ↔
    other ∈ pool.pool ∧ TransGen (Redeems prim txs) hash other := by
  rw [dependents, mem_filter, mem_keys]

theorem Reduced.card_dependents_le (h : Reduced prim pool pool') :
    (dependents prim txs pool' hash).card ≤ (dependents prim txs pool hash).card := by
  refine card_le_card fun other ho => ?_
  obtain ⟨hm, hp⟩ := mem_dependents.1 ho
  exact mem_dependents.2 ⟨mem_keys.1 (h.keys_subset (mem_keys.2 hm)), hp⟩

theorem card_dependents_lt (ha : ∀ hash, ¬TransGen (Redeems prim txs) hash hash)
    {spender : Hash} (hm : spender ∈ pool.pool) (hr : Redeems prim txs hash spender) :
    (dependents prim txs pool spender).card < (dependents prim txs pool hash).card := by
  refine card_lt_card (ssubset_iff_of_subset ?_ |>.2 ⟨spender, ?_, ?_⟩)
  · intro other ho
    obtain ⟨ho, hp⟩ := mem_dependents.1 ho
    exact mem_dependents.2 ⟨ho, .head hr hp⟩
  · exact mem_dependents.2 ⟨hm, .single hr⟩
  · exact fun h => ha spender (mem_dependents.1 h).2

section Ends

variable {depth : Nat}

/-- A function that removes a transaction of the pool, when less depends on it than `depth`. -/
def EndsBelow (prim : Primitives) (txs : Hash → Option MsgTx) (depth : Nat)
    (remove : MsgTx → TxPool → Except PoolStop TxPool) : Prop :=
  ∀ ⦃pool : TxPool⦄ ⦃hash : Hash⦄ ⦃txDesc : PoolTxDesc⦄, SpentExact prim pool → PoolIn txs pool →
    pool.pool.lookup hash = some txDesc → (dependents prim txs pool hash).card < depth →
      ∃ pool', remove txDesc.tx pool = .ok pool'

/-- The loop over the outputs ends when the recursion does for everybody who spends one of them. -/
theorem exists_foldlM_removeSpender
    (hen : EndsBelow prim txs depth (removeTransactionLoop prim depth))
    {outpoints : List OutPoint} (he : SpentExact prim pool) (hin : PoolIn txs pool)
    (hsp : ∀ outpoint ∈ outpoints, ∀ hash txDesc, pool.pool.lookup hash = some txDesc →
      outpoint ∈ txDesc.tx.inputs → (dependents prim txs pool hash).card < depth) :
    ∃ pool', outpoints.foldlM (removeSpender (removeTransactionLoop prim depth)) pool =
      .ok pool' := by
  have hse : ∀ before outpoint rest state, outpoints = before ++ outpoint :: rest →
      Reduced prim pool state → ∃ state', removeSpender (removeTransactionLoop prim depth) state
        outpoint = .ok state' ∧ Reduced prim pool state' := by
    intro before outpoint rest state hsl hs
    have hm : outpoint ∈ outpoints := hsl ▸ List.mem_append_right before List.mem_cons_self
    rw [removeSpender]
    cases hst : state.outpoints.lookup outpoint with
    | none => exact ⟨state, rfl, hs⟩
    | some spender =>
      obtain ⟨hash, txDesc, htx, rfl, hi⟩ := (hs.exact.lookup_iff outpoint spender).1 hst
      have hf := (hsp outpoint hm hash txDesc (hs.sub htx) hi).trans_le' hs.card_dependents_le
      obtain ⟨state', hok⟩ := hen hs.exact (hs.poolIn hin) htx hf
      exact ⟨state', hok, hs.trans
        (removesTx_loop depth hs.exact (hs.poolIn hin) htx hok).1.toReduced⟩
  obtain ⟨pool', hok, -⟩ := exists_foldlM_eq_ok hse (List.nil_append outpoints).symm
    (.refl he)
  exact ⟨pool', hok⟩

theorem endsBelow_loop (ha : ∀ hash, ¬TransGen (Redeems prim txs) hash hash)
    (depth : Nat) : EndsBelow prim txs depth (removeTransactionLoop prim depth) := by
  induction depth with
  | zero => exact fun pool hash txDesc _ _ _ hf => by cases hf
  | succ depth ih =>
    intro pool hash txDesc he hin htx hf
    obtain ⟨pool₁, hl⟩ := exists_foldlM_removeSpender ih he hin
      fun outpoint (ho : outpoint ∈ txDesc.tx.outputs prim) spender txDesc' htx' hi => by
        have hr : Redeems prim txs hash spender :=
          ⟨txDesc.tx, txDesc'.tx, hin hash txDesc htx, hin spender txDesc' htx', outpoint, ho, hi⟩
        have := card_dependents_lt ha (mem_of_lookup_eq_some htx') hr
        omega
    refine ⟨pool₁.removeOnly prim txDesc.tx, ?_⟩
    rw [removeTransactionLoop, hl]
    rfl

/-- **The recursion ends**, for any transaction, when no transaction of the pool depends on
itself. -/
theorem exists_removeTransaction (he : SpentExact prim pool) (ha : Acyclic prim pool)
    (tx : MsgTx) (redeemers : Bool) :
    ∃ pool', removeTransaction prim tx redeemers pool = .ok pool' := by
  rw [removeTransaction]
  split_ifs
  · obtain ⟨pool₁, hl⟩ := exists_foldlM_removeSpender
      (endsBelow_loop ha pool.pool.keys.card) he (poolIn_poolTxs pool)
      fun outpoint (_ : outpoint ∈ tx.outputs prim) hash txDesc htx _ => by
        refine card_lt_card (ssubset_iff_of_subset ?_ |>.2 ⟨hash, ?_, ?_⟩)
        · exact fun other ho => mem_keys.2 (mem_dependents.1 ho).1
        · exact mem_keys.2 (mem_of_lookup_eq_some htx)
        · exact fun h => ha hash (mem_dependents.1 h).2
    refine ⟨pool₁.removeOnly prim tx, ?_⟩
    rw [removeTransactionLoop, hl]
    rfl
  · exact ⟨_, rfl⟩

end Ends

end TxPool

end DrcNode
