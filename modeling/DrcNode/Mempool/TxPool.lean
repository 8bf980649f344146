import DrcNode.Library.Cascade
import DrcNode.Library.InvertedIndex
import DrcNode.Mempool.Policy

/-!
# The memory pool

The memory pool keeps the transactions that wait to be mined, and for every output that one of them
spends the transaction that spends it. Transactions with an input that is not known yet wait as
orphans; a second map finds the orphans by the outputs they spend. A transaction is removed with all
that depend on it by recursion through these maps, which change meanwhile. Every orphan is entered
once, even if hashes form a cycle; in the pool a cycle would be followed for ever.

Source: `mempool/mempool.go`, the type `TxPool` and its functions from `removeOrphan` to
`checkPoolDoubleSpend`. The order in which a loop visits a map is a parameter, and so is the time.
The optional indexes and `lastUpdated` are left out. Rates are floating point numbers in the source
and rational numbers here.
-/

namespace DrcNode

open Finmap Finset Function Option Relation

/-- The outputs that the inputs of a transaction refer to. -/
def MsgTx.inputs (tx : MsgTx) : List OutPoint := tx.txIn.map TxIn.previousOutPoint

/-- The outputs of a transaction. -/
def MsgTx.outputs (prim : Primitives) (tx : MsgTx) : List OutPoint :=
  tx.txOut.zipIdx.map fun out => ⟨tx.txHash prim, UInt32.ofNat out.2⟩

/-! ### The state -/

/-- `TxDesc` of the memory pool. -/
structure PoolTxDesc extends TxDesc where
  added : Int
  height : Int
  startingPriority : ℚ
  deriving DecidableEq, Repr

structure OrphanTx where
  tx : MsgTx
  tag : UInt64
  expiration : Int
  deriving DecidableEq, Repr

/-- `TxPool`. Times are in nanoseconds, `lastPennyUnix` in seconds. -/
structure TxPool where
  pool : ByHash PoolTxDesc
  orphans : ByHash OrphanTx
  orphansByPrev : InvertedIndex OutPoint Hash MsgTx
  outpoints : ByOutPoint MsgTx
  pennyTotal : ℚ
  lastPennyUnix : Int
  nextExpireScan : Int
  deriving DecidableEq

/-- The order in which `range` visits the keys of a map: that of the orphans, or of the orphans that
spend an output. -/
structure MapOrder where
  range : TxPool → Option OutPoint → Finset Hash → List Hash
  nodup_range : ∀ pool outpoint keys, (range pool outpoint keys).Nodup
  mem_range : ∀ pool outpoint keys hash, hash ∈ range pool outpoint keys ↔ hash ∈ keys

/-- `orphanTTL`, in nanoseconds. -/
def orphanTTL : Int := 15 * 60 * 1000000000

/-- `orphanExpireScanInterval`, in nanoseconds. -/
def orphanExpireScanInterval : Int := 5 * 60 * 1000000000

/-- How a call ends that does not return: with a panic, or never. -/
inductive PoolStop
  | panic (p : Panic)
  | diverges
  deriving DecidableEq, Repr

namespace TxPool

def new (now : Int) : TxPool where
  pool := ∅
  orphans := ∅
  orphansByPrev := ∅
  outpoints := ∅
  pennyTotal := 0
  lastPennyUnix := 0
  nextExpireScan := now + orphanExpireScanInterval

variable (prim : Primitives) (order : MapOrder) (policy : TxPolicy)

/-! ### Removing orphans -/

/-- Remove the references to an orphan from the index. -/
def unindex (hash : Hash) (tx : MsgTx) (pool : TxPool) : TxPool :=
  { pool with orphansByPrev := pool.orphansByPrev.dropAll hash tx.inputs }

/-- Remove an orphan that is no longer in the index. -/
def eraseOrphan (hash : Hash) (pool : TxPool) : TxPool :=
  { pool with orphans := pool.orphans.erase hash }

/-- `removeOrphan`, with what it does about the redeemers in between. -/
def removeOrphanWith (redeemers : TxPool → TxPool) (tx : MsgTx) (pool : TxPool) : TxPool :=
  match pool.orphans.lookup (tx.txHash prim) with
  | none => pool
  | some otx =>
      (redeemers (pool.unindex (tx.txHash prim) otx.tx)).eraseOrphan (tx.txHash prim)

/-- An orphan that the loop over those that spend an output comes to, if it is still there. -/
def removeRedeemer (remove : MsgTx → TxPool → TxPool) (outpoint : OutPoint) (pool : TxPool)
    (hash : Hash) : TxPool :=
  match (pool.orphansByPrev.rowsAt outpoint).lookup hash with
  | none => pool
  | some orphan => remove orphan pool

/-- The loop over the orphans that spend an output. -/
def removeRedeemers (remove : MsgTx → TxPool → TxPool) (pool : TxPool) (outpoint : OutPoint) :
    TxPool :=
  (order.range pool (some outpoint) (pool.orphansByPrev.rowsAt outpoint).keys).foldl
    (removeRedeemer remove outpoint) pool

/-- `removeOrphan` with redeemers. The first argument bounds the depth of the recursion. -/
def removeOrphanLoop : Nat → MsgTx → TxPool → TxPool
  | 0, _, pool => pool
  | depth + 1, tx, pool =>
      removeOrphanWith prim (fun pool =>
        (tx.outputs prim).foldl (removeRedeemers order (removeOrphanLoop depth)) pool) tx pool

/-- `removeOrphan`. The recursion is never deeper than there are orphans. -/
def removeOrphan (tx : MsgTx) (redeemers : Bool) (pool : TxPool) : TxPool :=
  if redeemers then removeOrphanLoop prim order pool.orphans.keys.card tx pool
  else removeOrphanWith prim id tx pool

/-- One round of a loop over all orphans that removes those with a property and counts them. -/
def removeOrphanIf (p : OrphanTx → Bool) (state : TxPool × Nat) (hash : Hash) : TxPool × Nat :=
  match state.1.orphans.lookup hash with
  | none => state
  | some otx =>
      if p otx then (removeOrphan prim order otx.tx true state.1, state.2 + 1) else state

/-- The orphans with a property are removed, with their redeemers. -/
def removeOrphansIf (p : OrphanTx → Bool) (pool : TxPool) : TxPool × Nat :=
  (order.range pool none pool.orphans.keys).foldl (removeOrphanIf prim order p) (pool, 0)

/-- `RemoveOrphansByTag`, with the number of orphans it returns. -/
def removeOrphansByTag (tag : UInt64) (pool : TxPool) : TxPool × Nat :=
  removeOrphansIf prim order (fun otx => otx.tag == tag) pool

def removeOrphanDoubleSpends (tx : MsgTx) (pool : TxPool) : TxPool :=
  tx.inputs.foldl
    (removeRedeemers order fun orphan pool => removeOrphan prim order orphan true pool) pool

/-! ### Adding orphans -/

/-- The scan for expired orphans in `limitNumOrphans`. -/
def expireOrphans (now : Int) (pool : TxPool) : TxPool :=
  if pool.nextExpireScan < now then
    { (removeOrphansIf prim order (fun otx => decide (otx.expiration < now)) pool).1 with
      nextExpireScan := now + orphanExpireScanInterval }
  else pool

/-- The eviction of a random orphan in `limitNumOrphans`. -/
def evictOrphan (pool : TxPool) : TxPool :=
  match (order.range pool none pool.orphans.keys).head?.bind fun hash =>
      pool.orphans.lookup hash with
  | none => pool
  | some otx => removeOrphan prim order otx.tx false pool

def limitNumOrphans (now : Int) (pool : TxPool) : TxPool :=
  let pool := pool.expireOrphans prim order now
  if pool.orphans.keys.card + 1 ≤ policy.maxOrphanTxs then pool else pool.evictOrphan prim order

/-- The end of `addOrphan`. -/
def insertOrphan (tx : MsgTx) (tag : UInt64) (now : Int) (pool : TxPool) : TxPool :=
  { pool with
    orphans := pool.orphans.insert (tx.txHash prim) { tx, tag, expiration := now + orphanTTL }
    orphansByPrev := pool.orphansByPrev.enterAll (tx.txHash prim) tx tx.inputs }

def addOrphan (now : Int) (tx : MsgTx) (tag : UInt64) (pool : TxPool) : TxPool :=
  if policy.maxOrphanTxs = 0 then pool
  else (pool.limitNumOrphans prim order policy now).insertOrphan prim tx tag now

def maybeAddOrphan (now : Int) (tx : MsgTx) (tag : UInt64) (pool : TxPool) :
    TxPool × Except TxError Unit :=
  if policy.maxOrphanTxSize < tx.serializeSize then
    (pool, .error (.txRuleError .rejectNonstandard))
  else (pool.addOrphan prim order policy now tx tag, .ok ())

/-! ### Removing transactions -/

/-- The end of `removeTransaction`. -/
def removeOnly (tx : MsgTx) (pool : TxPool) : TxPool :=
  match pool.pool.lookup (tx.txHash prim) with
  | none => pool
  | some txDesc =>
      { pool with
        pool := pool.pool.erase (tx.txHash prim)
        outpoints := txDesc.tx.inputs.foldl (fun outpoints outpoint => outpoints.erase outpoint)
          pool.outpoints }

/-- One round of the loop over the outputs in `removeTransaction`. -/
def removeSpender (remove : MsgTx → TxPool → Except PoolStop TxPool) (pool : TxPool)
    (outpoint : OutPoint) : Except PoolStop TxPool :=
  match pool.outpoints.lookup outpoint with
  | none => .ok pool
  | some txRedeemer => remove txRedeemer pool

/-- `removeTransaction` with redeemers. The first argument bounds the depth of the recursion. -/
def removeTransactionLoop : Nat → MsgTx → TxPool → Except PoolStop TxPool
  | 0, _, _ => .error .diverges
  | depth + 1, tx, pool => do
      let pool ← (tx.outputs prim).foldlM (removeSpender (removeTransactionLoop depth)) pool
      pure (pool.removeOnly prim tx)

/-- `removeTransaction`. A recursion that gets deeper than there are transactions goes on for ever.
-/
def removeTransaction (tx : MsgTx) (redeemers : Bool) (pool : TxPool) : Except PoolStop TxPool :=
  if redeemers then removeTransactionLoop prim (pool.pool.keys.card + 1) tx pool
  else .ok (pool.removeOnly prim tx)

/-- One round of the loop of `RemoveDoubleSpends`. -/
def removeDoubleSpend (tx : MsgTx) (pool : TxPool) (outpoint : OutPoint) : Except PoolStop TxPool :=
  removeSpender (fun txRedeemer pool =>
    if txRedeemer.txHash prim = tx.txHash prim then .ok pool
    else removeTransaction prim txRedeemer true pool) pool outpoint

def removeDoubleSpends (tx : MsgTx) (pool : TxPool) : Except PoolStop TxPool :=
  tx.inputs.foldlM (removeDoubleSpend prim tx) pool

def checkPoolDoubleSpend (tx : MsgTx) (pool : TxPool) : TxCheck Unit :=
  requireTx (∀ outpoint ∈ tx.inputs, outpoint ∉ pool.outpoints) .rejectDuplicate

/-! ### What is left when orphans are removed -/

/-- The orphans in the index: all but those that are on their way out. -/
def orphanRows (held : Finset Hash) (orphans : ByHash OrphanTx) (hash : Hash) : Option MsgTx :=
  if hash ∈ held then none else (orphans.lookup hash).map OrphanTx.tx

/-- **The index of the orphans is exact**, but for those that are held. -/
structure OrphansExact (held : Finset Hash) (pool : TxPool) : Prop where
  hash_eq : ∀ {hash otx}, pool.orphans.lookup hash = some otx → otx.tx.txHash prim = hash
  indexes : pool.orphansByPrev.Indexes MsgTx.inputs (orphanRows held pool.orphans)

/-- The transaction `b` spends an output of `a`, in a table of transactions by their hashes. -/
def Redeems (txs : Hash → Option MsgTx) (a b : Hash) : Prop :=
  ∃ x y, txs a = some x ∧ txs b = some y ∧ ∃ outpoint ∈ x.outputs prim, outpoint ∈ y.inputs

/-- The orphans are among those of a table. -/
def OrphansIn (txs : Hash → Option MsgTx) (pool : TxPool) : Prop :=
  ∀ hash otx, pool.orphans.lookup hash = some otx → txs hash = some otx.tx

variable {prim order} {held : Finset Hash} {pool pool' pool'' : TxPool} {hash : Hash} {tx : MsgTx}
  {otx : OrphanTx} {outpoint : OutPoint} {txs : Hash → Option MsgTx} {P : Hash → Prop}
  {orphans : ByHash OrphanTx}

theorem orphanRows_eq_some_iff : orphanRows held orphans hash = some tx ↔
      hash ∉ held ∧ ∃ otx, orphans.lookup hash = some otx ∧ otx.tx = tx := by
  rw [orphanRows]
  split_ifs with h
  · exact iff_of_false (fun h' => by cases h') fun h' => h'.1 h
  · rw [map_eq_some_iff, and_iff_right h]

theorem orphanRows_insert :
    orphanRows (insert hash held) orphans =
      Function.update (orphanRows held orphans) hash none := by
  funext other
  by_cases h : other = hash
  · subst h
    rw [update_self, orphanRows, if_pos (mem_insert_self other held)]
  · rw [update_of_ne h]
    exact if_congr (mem_insert.trans (or_iff_right h)) rfl rfl

theorem orphanRows_erase (h : hash ∉ held) :
    orphanRows held (orphans.erase hash) = orphanRows (insert hash held) orphans := by
  rw [orphanRows_insert]
  funext other
  by_cases ho : other = hash
  · subst ho
    rw [update_self, orphanRows, if_neg h, lookup_erase]
    rfl
  · rw [update_of_ne ho, orphanRows, orphanRows, lookup_erase_ne ho]

/-- Orphans have been removed and nothing else, and the index is exact again. -/
structure Thinned (prim : Primitives) (held : Finset Hash) (pool pool' : TxPool) : Prop where
  pool_eq : pool'.pool = pool.pool
  outpoints_eq : pool'.outpoints = pool.outpoints
  exact : OrphansExact prim held pool'
  sub : ∀ {hash otx}, pool'.orphans.lookup hash = some otx → pool.orphans.lookup hash = some otx

namespace Thinned

theorem refl (h : OrphansExact prim held pool) : Thinned prim held pool pool where
  pool_eq := rfl
  outpoints_eq := rfl
  exact := h
  sub h := h

section

variable (h : Thinned prim held pool pool')
include h

theorem trans (h' : Thinned prim held pool' pool'') : Thinned prim held pool pool'' where
  pool_eq := h'.pool_eq.trans h.pool_eq
  outpoints_eq := h'.outpoints_eq.trans h.outpoints_eq
  exact := h'.exact
  sub hl := h.sub (h'.sub hl)

theorem keys_subset : pool'.orphans.keys ⊆ pool.orphans.keys := by
  intro hash hm
  obtain ⟨otx, ho⟩ := mem_iff.1 (mem_keys.1 hm)
  exact mem_keys.2 (mem_of_lookup_eq_some (h.sub ho))

theorem rowsAt_eq_none (he : OrphansExact prim held pool)
    (hn : (pool.orphansByPrev.rowsAt outpoint).lookup hash = none) :
    (pool'.orphansByPrev.rowsAt outpoint).lookup hash = none := by
  by_contra hs
  obtain ⟨tx, htx⟩ := ne_none_iff_exists'.1 hs
  obtain ⟨hr, hm⟩ := (h.exact.indexes.lookup_iff outpoint hash tx).1 htx
  obtain ⟨hh, otx, ho, rfl⟩ := orphanRows_eq_some_iff.1 hr
  have hb := (he.indexes.lookup_iff outpoint hash otx.tx).2
    ⟨orphanRows_eq_some_iff.2 ⟨hh, otx, h.sub ho, rfl⟩, hm⟩
  rw [hn] at hb
  cases hb

theorem orphansIn (hin : OrphansIn txs pool) :
    OrphansIn txs pool' := fun hash otx ho => hin hash otx (h.sub ho)

end

end Thinned

/-- **What has been removed**: orphans with the property `P` and those that spend their outputs,
unless held. -/
structure Removes (prim : Primitives) (txs : Hash → Option MsgTx) (held : Finset Hash)
    (P : Hash → Prop) (pool pool' : TxPool) : Prop extends Thinned prim held pool pool' where
  cascade : Cascade (Redeems prim txs) held P pool.orphans.keys pool'.orphans.keys

namespace Removes

theorem refl (h : OrphansExact prim held pool) : Removes prim txs held P pool pool :=
  ⟨.refl h, .refl⟩

theorem trans (h : Removes prim txs held P pool pool') (h' : Removes prim txs held P pool' pool'') :
    Removes prim txs held P pool pool'' :=
  ⟨h.toThinned.trans h'.toThinned, h.cascade.trans h'.cascade⟩

theorem mono {Q : Hash → Prop} (h : Removes prim txs held P pool pool') (hPQ : ∀ a, P a → Q a) :
    Removes prim txs held Q pool pool' :=
  ⟨h.toThinned, h.cascade.mono fun a _ => hPQ a⟩

end Removes

/-- What a function that removes orphans does to one that is not held, while others are. -/
def RemovesOrphan (prim : Primitives) (txs : Hash → Option MsgTx) (held : Finset Hash)
    (depth : Nat) (remove : MsgTx → TxPool → TxPool) : Prop :=
  ∀ ⦃pool : TxPool⦄ ⦃hash : Hash⦄ ⦃otx : OrphanTx⦄, OrphansExact prim held pool →
    OrphansIn txs pool → (pool.orphans.keys \ held).card ≤ depth →
    pool.orphans.lookup hash = some otx → hash ∉ held →
      Removes prim txs held (ReflTransGen (Redeems prim txs) hash) pool
        (remove otx.tx pool) ∧ hash ∉ (remove otx.tx pool).orphans

/-- All that spend the output have the property, with all that depend on them. -/
def SpendersAll (prim : Primitives) (txs : Hash → Option MsgTx) (P : Hash → Prop)
    (outpoint : OutPoint) : Prop :=
  ∀ hash spender, txs hash = some spender → outpoint ∈ spender.inputs →
    ∀ other, ReflTransGen (Redeems prim txs) hash other → P other

theorem spendersAll_outputs {hash : Hash} {tx : MsgTx} (h : txs hash = some tx) :
    ∀ outpoint ∈ tx.outputs prim,
      SpendersAll prim txs (ReflTransGen (Redeems prim txs) hash) outpoint :=
  fun outpoint ho _ spender hs hi _ hl => .head ⟨tx, spender, h, hs, outpoint, ho, hi⟩ hl

section Redeemers

variable {depth : Nat} {remove : MsgTx → TxPool → TxPool}

theorem Thinned.card_le (h : Thinned prim held pool pool')
    (hc : (pool.orphans.keys \ held).card ≤ depth) : (pool'.orphans.keys \ held).card ≤ depth :=
  (card_le_card (sdiff_subset_sdiff h.keys_subset (Finset.Subset.refl held))).trans hc

variable (hre : RemovesOrphan prim txs held depth remove) (he : OrphansExact prim held pool)
  (hin : OrphansIn txs pool) (hc : (pool.orphans.keys \ held).card ≤ depth)
include hre he hin hc

theorem removes_removeRedeemer (hash : Hash) (hP : SpendersAll prim txs P outpoint) :
    Removes prim txs held P pool (removeRedeemer remove outpoint pool hash) ∧
      ((removeRedeemer remove outpoint pool hash).orphansByPrev.rowsAt outpoint).lookup hash =
        none := by
  rw [removeRedeemer]
  cases hrw : (pool.orphansByPrev.rowsAt outpoint).lookup hash with
  | none => exact ⟨.refl he, hrw⟩
  | some orphan =>
    obtain ⟨hro, hm⟩ := (he.indexes.lookup_iff outpoint hash orphan).1 hrw
    obtain ⟨hh, otx, hot, rfl⟩ := orphanRows_eq_some_iff.1 hro
    obtain ⟨hr, hg⟩ := hre he hin hc hot hh
    refine ⟨hr.mono (hP hash otx.tx (hin hash otx hot) hm), ?_⟩
    by_contra hs
    obtain ⟨orphan, ho⟩ := ne_none_iff_exists'.1 hs
    obtain ⟨hro, -⟩ := (hr.exact.indexes.lookup_iff outpoint hash orphan).1 ho
    obtain ⟨-, otx', hot', -⟩ := orphanRows_eq_some_iff.1 hro
    exact hg (mem_of_lookup_eq_some hot')

theorem removes_removeRedeemers (order : MapOrder) (hP : SpendersAll prim txs P outpoint) :
    Removes prim txs held P pool (removeRedeemers order remove pool outpoint) ∧
      (removeRedeemers order remove pool outpoint).orphansByPrev.rowsAt outpoint = ∅ := by
  -- all hashes of a list are visited, and stay away once they are gone
  have hl : ∀ (hashes : List Hash) (pool : TxPool), OrphansExact prim held pool →
      OrphansIn txs pool → (pool.orphans.keys \ held).card ≤ depth →
      Removes prim txs held P pool (hashes.foldl (removeRedeemer remove outpoint) pool) ∧
        ∀ hash, (hash ∈ hashes ∨ (pool.orphansByPrev.rowsAt outpoint).lookup hash = none) →
          ((hashes.foldl (removeRedeemer remove outpoint) pool).orphansByPrev.rowsAt
            outpoint).lookup hash = none := by
    intro hashes
    induction hashes with
    | nil =>
      intro pool he _ _
      exact ⟨.refl he, fun hash h => h.resolve_left List.not_mem_nil⟩
    | cons first hashes ih =>
      intro pool he hin hc
      obtain ⟨hf, hg⟩ := removes_removeRedeemer hre he hin hc first hP
      obtain ⟨hrt, hn⟩ := ih _ hf.exact (hf.orphansIn hin) (hf.card_le hc)
      refine ⟨hf.trans hrt, fun hash h => hn hash ?_⟩
      obtain hm | hb := h
      · obtain rfl | hm := List.mem_cons.1 hm
        · exact .inr hg
        · exact .inl hm
      · exact .inr (hf.rowsAt_eq_none he hb)
  obtain ⟨hr, hn⟩ := hl (order.range pool (some outpoint)
    (pool.orphansByPrev.rowsAt outpoint).keys) pool he hin hc
  refine ⟨hr, ext_lookup fun hash => ?_⟩
  refine hn hash ?_
  rw [order.mem_range, lookup_eq_none]
  exact em _

theorem removes_foldl_removeRedeemers (order : MapOrder) {outpoints : List OutPoint}
    (hP : ∀ outpoint ∈ outpoints, SpendersAll prim txs P outpoint) :
    Removes prim txs held P pool (outpoints.foldl (removeRedeemers order remove) pool) ∧
      ∀ outpoint ∈ outpoints,
        (outpoints.foldl (removeRedeemers order remove) pool).orphansByPrev.rowsAt outpoint =
          ∅ := by
  induction outpoints generalizing pool with
  | nil => exact ⟨.refl he, fun _ h => by cases h⟩
  | cons first outpoints ih =>
    obtain ⟨hf, hem⟩ := removes_removeRedeemers hre he hin hc order (hP first List.mem_cons_self)
    obtain ⟨hr, hn⟩ := ih hf.exact (hf.orphansIn hin) (hf.card_le hc)
      fun outpoint hm => hP outpoint (List.mem_cons_of_mem first hm)
    refine ⟨hf.trans hr, fun outpoint hm => ?_⟩
    obtain rfl | hm := List.mem_cons.1 hm
    · refine ext_lookup fun hash => ?_
      refine hr.rowsAt_eq_none hf.exact ?_
      rw [hem]
      rfl
    · exact hn outpoint hm

end Redeemers

theorem OrphansExact.unindex (h : OrphansExact prim held pool)
    (ho : pool.orphans.lookup hash = some otx) (hh : hash ∉ held) :
    OrphansExact prim (insert hash held) (pool.unindex hash otx.tx) where
  hash_eq hl := h.hash_eq hl
  indexes := by
    rw [orphanRows_insert]
    exact h.indexes.dropAll (orphanRows_eq_some_iff.2 ⟨hh, otx, ho, rfl⟩)

theorem OrphansExact.eraseOrphan (h : OrphansExact prim (insert hash held) pool)
    (hh : hash ∉ held) : OrphansExact prim held (pool.eraseOrphan hash) where
  hash_eq hl := h.hash_eq (lookup_erase_cases hl).2
  indexes := by
    rw [TxPool.eraseOrphan, orphanRows_erase hh]
    exact h.indexes

theorem Removes.eraseOrphan (hox : pool.orphans.lookup hash = some otx) (hh : hash ∉ held)
    (hin : OrphansIn txs pool)
    (h : Removes prim txs (insert hash held) P (pool.unindex hash otx.tx) pool')
    (he : ∀ outpoint ∈ otx.tx.outputs prim, pool'.orphansByPrev.rowsAt outpoint = ∅)
    (hP : P hash) : Removes prim txs held P pool (pool'.eraseOrphan hash) where
  pool_eq := h.pool_eq
  outpoints_eq := h.outpoints_eq
  exact := h.exact.eraseOrphan hh
  sub hl := h.sub (lookup_erase_cases hl).2
  cascade := by
    rw [TxPool.eraseOrphan, keys_erase]
    refine h.cascade.erase (fun other hot hr => ?_) hP
    obtain ⟨x, y, hx, hy, outpoint, ho, hi⟩ := hr
    cases (hin hash otx hox).symm.trans hx
    obtain ⟨otx', hox'⟩ := mem_iff.1 (mem_keys.1 hot)
    cases (hin other otx' (h.sub hox')).symm.trans hy
    by_contra hf
    exact h.exact.indexes.notMem_keysOf (he outpoint ho)
      (orphanRows_eq_some_iff.2 ⟨hf, otx', hox', rfl⟩) hi

/-- **What `removeOrphan` does while other orphans are on their way out.** -/
theorem removesOrphan_loop (order : MapOrder) (depth : Nat) (held : Finset Hash) :
    RemovesOrphan prim txs held depth (removeOrphanLoop prim order depth) := by
  induction depth generalizing held with
  | zero =>
    intro pool hash otx _ _ hc hot hh
    have hm : hash ∈ pool.orphans.keys \ held :=
      mem_sdiff.2 ⟨mem_keys.2 (mem_of_lookup_eq_some hot), hh⟩
    rw [card_eq_zero.1 (Nat.le_zero.1 hc)] at hm
    exact absurd hm (notMem_empty hash)
  | succ depth ih =>
    intro pool hash otx he hin hc hot hh
    have hha : otx.tx.txHash prim = hash := he.hash_eq hot
    have hc' : ((pool.unindex hash otx.tx).orphans.keys \ insert hash held).card ≤ depth := by
      have hm : hash ∈ pool.orphans.keys \ held :=
        mem_sdiff.2 ⟨mem_keys.2 (mem_of_lookup_eq_some hot), hh⟩
      rw [sdiff_insert]
      change ((pool.orphans.keys \ held).erase hash).card ≤ depth
      rw [card_erase_of_mem hm]
      omega
    obtain ⟨hre, hem⟩ := removes_foldl_removeRedeemers (ih (insert hash held))
      (he.unindex hot hh) hin hc' order (spendersAll_outputs (hin hash otx hot))
    have hs : removeOrphanLoop prim order (depth + 1) otx.tx pool =
        ((otx.tx.outputs prim).foldl (removeRedeemers order (removeOrphanLoop prim order depth))
          (pool.unindex hash otx.tx)).eraseOrphan hash := by
      rw [removeOrphanLoop, removeOrphanWith, hha, hot]
    rw [hs]
    exact ⟨hre.eraseOrphan hot hh hin hem .refl, notMem_erase_self⟩

/-! ### The functions on orphans -/

/-- The orphans as a table of transactions. -/
def orphanTxs (pool : TxPool) (hash : Hash) : Option MsgTx :=
  (pool.orphans.lookup hash).map OrphanTx.tx

theorem orphansIn_orphanTxs (pool : TxPool) : OrphansIn pool.orphanTxs pool :=
  fun _ _ ho => map_eq_some_iff.2 ⟨_, ho, rfl⟩

theorem removesOrphan_removeOrphan (order : MapOrder) (depth : Nat) :
    RemovesOrphan prim txs ∅ depth fun orphan pool => removeOrphan prim order orphan true pool := by
  intro pool hash otx he hin _ ho hh
  have hc : (pool.orphans.keys \ ∅).card ≤ pool.orphans.keys.card := card_le_card sdiff_subset
  exact removesOrphan_loop order pool.orphans.keys.card ∅ he hin hc ho hh

/-- **With redeemers, an orphan is removed with its descendants and nothing else.** -/
theorem mem_removeOrphan_iff (order : MapOrder) (he : OrphansExact prim ∅ pool)
    (hot : pool.orphans.lookup hash = some otx) {other : Hash} :
    other ∈ (removeOrphan prim order otx.tx true pool).orphans ↔ other ∈ pool.orphans ∧
        ¬ReflTransGen (Redeems prim pool.orphanTxs) hash other := by
  obtain ⟨hr, hg⟩ := removesOrphan_removeOrphan order _ he (orphansIn_orphanTxs pool)
    le_rfl hot (notMem_empty hash)
  have hm : hash ∈ pool.orphans.keys := mem_keys.2 (mem_of_lookup_eq_some hot)
  constructor
  · intro ho
    refine ⟨mem_keys.1 (hr.keys_subset (mem_keys.2 ho)), fun hp => ?_⟩
    obtain rfl | hp := reflTransGen_iff_eq_or_transGen.1 hp
    · exact hg ho
    have hi : TransGen
        (fun x y => Redeems prim pool.orphanTxs x y ∧ y ∈ pool.orphans.keys) hash other := by
      refine hp.lift id fun x y hxy => ⟨hxy, ?_⟩
      obtain ⟨_, _, -, hy, -⟩ := hxy
      obtain ⟨otx, hot, -⟩ := map_eq_some_iff.1 hy
      exact mem_keys.2 (mem_of_lookup_eq_some hot)
    have hro : ∀ b ∈ (removeOrphan prim order otx.tx true pool).orphans.keys,
        ¬Redeems prim pool.orphanTxs hash b := fun b hb hed =>
      notMem_empty b (hr.cascade.closed hash hm (fun h => hg (mem_keys.1 h)) b hb hed)
    exact (hr.cascade.notMem_of_reaches hro hi).2 (mem_keys.2 ho)
  · rintro ⟨ho, hp⟩
    by_contra hn
    exact hp (hr.cascade.reached other (mem_keys.2 ho) fun h => hn (mem_keys.1 h))

/-- `removeOrphan` for a transaction that is the orphan under its hash, if there is one. -/
theorem thinned_removeOrphan (order : MapOrder) (tx : MsgTx) (he : OrphansExact prim ∅ pool)
    (redeemers : Bool)
    (htx : ∀ otx,
      pool.orphans.lookup (tx.txHash prim) = some otx → redeemers = true → otx.tx = tx) :
    Thinned prim ∅ pool (removeOrphan prim order tx redeemers pool) ∧
      tx.txHash prim ∉ (removeOrphan prim order tx redeemers pool).orphans := by
  cases ho : pool.orphans.lookup (tx.txHash prim) with
  | none =>
    have hs : removeOrphan prim order tx redeemers pool = pool := by
      have hw : ∀ redeemers, removeOrphanWith prim redeemers tx pool = pool := fun redeemers => by
        rw [removeOrphanWith, ho]
      rw [removeOrphan]
      split_ifs
      · cases pool.orphans.keys.card with
        | zero => rfl
        | succ depth => exact hw _
      · exact hw id
    rw [hs]
    exact ⟨.refl he, lookup_eq_none.1 ho⟩
  | some otx =>
    cases redeemers with
    | true =>
      obtain rfl := htx otx ho rfl
      obtain ⟨hr, hg⟩ := removesOrphan_removeOrphan order _ he
        (orphansIn_orphanTxs pool) le_rfl ho (notMem_empty _)
      exact ⟨hr.toThinned, hg⟩
    | false =>
      have hst : removeOrphan prim order tx false pool =
          (pool.unindex (tx.txHash prim) otx.tx).eraseOrphan (tx.txHash prim) := by
        rw [removeOrphan, removeOrphanWith, ho]
        rfl
      rw [hst]
      refine ⟨⟨rfl, rfl, ?_, fun hl => (lookup_erase_cases hl).2⟩, notMem_erase_self⟩
      exact (he.unindex ho (notMem_empty _)).eraseOrphan (notMem_empty _)

theorem OrphansExact.eq_of_lookup (h : OrphansExact prim held pool)
    (ho : pool.orphans.lookup hash = some otx) {otx' : OrphanTx}
    (ho' : pool.orphans.lookup (otx.tx.txHash prim) = some otx') : otx' = otx := by
  rw [h.hash_eq ho, ho] at ho'
  exact (some.inj ho').symm

section

variable (order : MapOrder)

theorem thinned_removeOrphansIf (he : OrphansExact prim ∅ pool)
    (p : OrphanTx → Bool) : Thinned prim ∅ pool (removeOrphansIf prim order p pool).1 := by
  have hl : ∀ (hashes : List Hash) (state : TxPool × Nat), OrphansExact prim ∅ state.1 →
      Thinned prim ∅ state.1 (hashes.foldl (removeOrphanIf prim order p) state).1 := by
    intro hashes
    induction hashes with
    | nil => exact fun state h => .refl h
    | cons hash hashes ih =>
      intro state h
      have hr : Thinned prim ∅ state.1 (removeOrphanIf prim order p state hash).1 := by
        rw [removeOrphanIf]
        cases ho : state.1.orphans.lookup hash with
        | none => exact .refl h
        | some otx =>
          dsimp only
          split_ifs
          · exact (thinned_removeOrphan order otx.tx h true fun otx' ho' _ =>
              congrArg OrphanTx.tx (h.eq_of_lookup ho ho')).1
          · exact .refl h
      exact hr.trans (ih _ hr.exact)
  exact hl _ (pool, 0) he

theorem thinned_removeOrphanDoubleSpends (het : OrphansExact prim ∅ pool)
    (tx : MsgTx) :
    Thinned prim ∅ pool (removeOrphanDoubleSpends prim order tx pool) ∧
      ∀ {hash otx}, (removeOrphanDoubleSpends prim order tx pool).orphans.lookup hash = some otx →
        ∀ outpoint ∈ tx.inputs, outpoint ∉ otx.tx.inputs := by
  have hre : RemovesOrphan prim pool.orphanTxs ∅ pool.orphans.keys.card
      fun orphan pool => removeOrphan prim order orphan true pool :=
    removesOrphan_removeOrphan order pool.orphans.keys.card
  obtain ⟨hr, he⟩ := removes_foldl_removeRedeemers (P := fun _ => True) hre
    het (orphansIn_orphanTxs pool) (card_le_card sdiff_subset) order
    (fun (outpoint : OutPoint) (_ : outpoint ∈ tx.inputs) _ _ _ _ _ _ => trivial)
  refine ⟨hr.toThinned, fun {hash otx} hot outpoint ho => ?_⟩
  exact hr.exact.indexes.notMem_keysOf (he outpoint ho)
    (orphanRows_eq_some_iff.2 ⟨notMem_empty hash, otx, hot, rfl⟩)

/-! ### The limit on the orphans -/

theorem thinned_expireOrphans (he : OrphansExact prim ∅ pool) (now : Int) :
    Thinned prim ∅ pool (pool.expireOrphans prim order now) := by
  rw [expireOrphans]
  split_ifs
  · have h := thinned_removeOrphansIf order he fun otx => decide (otx.expiration < now)
    exact ⟨h.pool_eq, h.outpoints_eq, ⟨h.exact.hash_eq, h.exact.indexes⟩, h.sub⟩
  · exact .refl he

theorem thinned_evictOrphan (he : OrphansExact prim ∅ pool) :
    Thinned prim ∅ pool (pool.evictOrphan prim order) ∧ (pool.orphans.keys ≠ ∅ →
        (pool.evictOrphan prim order).orphans.keys.card < pool.orphans.keys.card) := by
  rw [evictOrphan]
  cases hhe : (order.range pool none pool.orphans.keys).head? with
  | none =>
    refine ⟨.refl he, fun hne => ?_⟩
    obtain ⟨hash, hh⟩ := nonempty_iff_ne_empty.2 hne
    rw [← order.mem_range pool none, List.head?_eq_none_iff.1 hhe] at hh
    exact absurd hh List.not_mem_nil
  | some hash =>
    have hm : hash ∈ pool.orphans.keys :=
      (order.mem_range pool none _ hash).1 (List.mem_of_mem_head? hhe)
    obtain ⟨otx, ho⟩ := mem_iff.1 (mem_keys.1 hm)
    rw [bind_some, ho]
    obtain ⟨ht, hg⟩ := thinned_removeOrphan order otx.tx he false
      fun _ _ h => by cases h
    rw [he.hash_eq ho] at hg
    refine ⟨ht, fun _ => card_lt_card ?_⟩
    exact Finset.ssubset_iff_subset_ne.2 ⟨ht.keys_subset, fun heq =>
      hg (mem_keys.1 (heq ▸ hm))⟩

theorem thinned_limitNumOrphans {policy : TxPolicy}
    (het : OrphansExact prim ∅ pool) (now : Int)
    (hp : policy.maxOrphanTxs ≠ 0) (hc : pool.orphans.keys.card ≤ policy.maxOrphanTxs) :
    Thinned prim ∅ pool (pool.limitNumOrphans prim order policy now) ∧
      (pool.limitNumOrphans prim order policy now).orphans.keys.card + 1 ≤ policy.maxOrphanTxs := by
  have he := thinned_expireOrphans order het now
  have hle := (card_le_card he.keys_subset).trans hc
  rw [limitNumOrphans]
  split_ifs with hr
  · exact ⟨he, hr⟩
  obtain ⟨hev, hlt⟩ := thinned_evictOrphan order he.exact
  refine ⟨he.trans hev, ?_⟩
  have hne : (pool.expireOrphans prim order now).orphans.keys ≠ ∅ := by
    intro hem
    rw [hem, card_empty] at hr
    omega
  have := hlt hne
  omega

end

theorem OrphansExact.insertOrphan (he : OrphansExact prim ∅ pool)
    (hn : tx.txHash prim ∉ pool.orphans) (tag : UInt64) (now : Int) :
    OrphansExact prim ∅ (pool.insertOrphan prim tx tag now) where
  hash_eq hl := by
    obtain ⟨rfl, rfl⟩ | ⟨-, hl⟩ := lookup_insert_cases hl
    · rfl
    · exact he.hash_eq hl
  indexes := by
    have hr : orphanRows ∅ (pool.insertOrphan prim tx tag now).orphans =
        Function.update (orphanRows ∅ pool.orphans) (tx.txHash prim) (some tx) := by
      funext hash
      rw [TxPool.insertOrphan, orphanRows]
      by_cases h : hash = tx.txHash prim
      · subst h
        rw [lookup_insert, update_self]
        rfl
      · rw [lookup_insert_of_ne _ h, update_of_ne h, orphanRows, if_neg (notMem_empty hash)]
    rw [hr]
    refine he.indexes.enterAll ?_ tx
    rw [orphanRows, lookup_eq_none.2 hn]
    rfl

end TxPool

end DrcNode
