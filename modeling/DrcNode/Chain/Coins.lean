import DrcNode.Chain.Accept
import DrcNode.Chain.View

/-!
# The unspent outputs after a block

What a block does to the unspent outputs is said by a ledger: the transactions are made one after
the other, each spends outputs that are unspent at that moment and creates new ones. The node loads
a view, checks every transaction against the view before it spends anything, and writes back what
has been modified. The two agree on a block with a coinbase in front, whose transactions have
different hashes, none of which is in the database, and do not list an output twice.
-/

namespace DrcNode

open Checked Finmap List Option MsgTx UtxoEntry Bool

open Ledger

/-- `chaincfg.MainNetParams`. The heights of BIP0034, BIP0065 and BIP0066 are commented out there,
and are zero. -/
def Env.mainNet (prim : Primitives) (genesisBlock : MsgBlock) : Env where
  prim
  params :=
    { genesisBlock
      bip0034Height := 0
      bip0065Height := 0
      bip0066Height := 0
      coinbaseMaturity := 100
      subsidyReductionInterval := 210000 }

/-! ### The reference -/

/-- An output of a coinbase is spent only when it is old enough. -/
def UtxoEntry.matured (env : Env) (height : Nat) (coin : UtxoEntry) : Bool :=
  !coin.isCoinBase ||
    decide ((env.params.coinbaseMaturity.toNat : Int) ≤ height - coin.blockHeight)

/-- A transaction as a transfer of coins. -/
def MsgTx.transfer (env : Env) (height : Nat) (msgTx : MsgTx) : Transfer OutPoint UtxoEntry where
  inputs := msgTx.spends
  accepts := matured env height
  outputs := msgTx.coins env.prim height

/-- **The reference**: the unspent outputs after the transactions of a block, one after the
other. -/
def applyBlock (env : Env) (height : Nat) (utxoSet : UtxoSet) (transactions : List MsgTx) :
    Option UtxoSet :=
  applyAll utxoSet (transactions.map (transfer env height))

/-- The entries of the database are unspent, and not marked as modified. -/
def UtxoSet.Stored (utxoSet : UtxoSet) : Prop :=
  ∀ outpoint coin, utxoSet.lookup outpoint = some coin →
    coin.isSpent = false ∧ coin.isModified = false

/-! ### The rules on unspent outputs -/

section Rules

variable (env : Env) (utxoSet : UtxoSet)

/-- The output of an input is there, unspent and old enough. -/
def checkUnspent (txHeight : Nat) (view : UtxoViewpoint) (outpoint : OutPoint) : Check Unit :=
  match view.lookupEntry outpoint with
  | none => ruleError .errMissingTxOut
  | some utxo => do
      require (utxo.isSpent = false) .errMissingTxOut
      require (utxo.isCoinBase = true →
        (env.params.coinbaseMaturity.toNat : Int) ≤ txHeight - utxo.blockHeight) .errImmatureSpend

/-- One transaction of `checkConnectUtxos`. -/
def connectUtxos (height : Nat) (view : UtxoViewpoint) (tx : MsgTx) : Check UtxoViewpoint := do
  tx.spends.forM (checkUnspent env height view)
  let (view, _) ← UtxoViewpoint.connectTransaction env.prim (view, []) tx height
  pure view

/-- `checkConnectBlock` on the main network with the rules on unspent outputs only. -/
def checkConnectUtxos (node : BlockNode) (block : Block) (view : UtxoViewpoint) :
    Check UtxoViewpoint :=
  match block.msgBlock.transactions with
  | [] => .error (.panic .indexOutOfRange)
  | coinbaseTx :: txs => do
      let transactions := coinbaseTx :: txs
      let view := view.fetchInputUtxos env.prim utxoSet transactions block.height
      let view ← transactions.foldlM (connectUtxos env node.height) view
      pure { view with bestHash := node.hash }

end Rules

variable {env : Env} {height : Nat} {view view' : UtxoViewpoint} {outpoint : OutPoint} {tx : MsgTx}

/-- The output can be spent at this height, as far as the view knows. -/
def Spendable (env : Env) (height : Nat) (view : UtxoViewpoint) (outpoint : OutPoint) : Prop :=
  ∃ entry, view.lookupEntry outpoint = some entry ∧ entry.isSpent = false ∧
    entry.matured env height = true

theorem matured_eq_true_iff {coin : UtxoEntry} : coin.matured env height = true ↔
    (coin.isCoinBase = true →
      (env.params.coinbaseMaturity.toNat : Int) ≤ height - coin.blockHeight) := by
  rw [matured, or_eq_true, decide_eq_true_eq, not_eq_true', ← not_eq_true]
  exact imp_iff_not_or.symm

theorem checkUnspent_eq_ok_iff :
    checkUnspent env height view outpoint = .ok () ↔ Spendable env height view outpoint := by
  rw [checkUnspent, Spendable]
  cases view.lookupEntry outpoint with
  | none =>
    constructor
    · intro h
      cases h
    · rintro ⟨entry, h, -⟩
      cases h
  | some entry =>
    simp [matured_eq_true_iff]

theorem connectUtxos_eq_ok (h : connectUtxos env height view tx = .ok view') :
    (∀ o ∈ tx.spends, Spendable env height view o) ∧
      ∀ o, view'.lookupEntry o = ((created (tx.coins env.prim height) o).map fresh).or
        (if o ∈ tx.spends then (view.lookupEntry o).map spend
          else view.lookupEntry o) := by
  rw [connectUtxos, bind_eq_ok] at h
  obtain ⟨⟨⟩, hs, h⟩ := h
  rw [bind_eq_ok] at h
  obtain ⟨⟨view₁, stxos⟩, hc, h⟩ := h
  cases h
  exact ⟨fun o ho => checkUnspent_eq_ok_iff.1 (forM_eq_ok.1 hs o ho),
    (UtxoViewpoint.connectTransaction_eq_ok hc).2⟩

theorem exists_connectUtxos (h : ∀ o ∈ tx.spends, Spendable env height view o) :
    ∃ view', connectUtxos env height view tx = .ok view' := by
  have hch : tx.spends.forM (checkUnspent env height view) = .ok () :=
    forM_eq_ok.2 fun o ho => checkUnspent_eq_ok_iff.2 (h o ho)
  obtain ⟨⟨view₁, stxos⟩, hc⟩ :=
    UtxoViewpoint.exists_connectTransaction env.prim height (view, []) fun o ho =>
      (h o ho).imp fun _ => And.left
  exact ⟨view₁, bind_eq_ok.2 ⟨(), hch, bind_eq_ok.2 ⟨_, hc, rfl⟩⟩⟩

/-! ### The view and the ledger -/

section Tracks

variable {prim : Primitives} {utxoSet coins coins' : UtxoSet} {needed : List OutPoint}
  {before rest transactions : List MsgTx} {blockHeight : Int} {txs : List MsgTx}

/-- **How the view stands for the ledger** before the transactions `rest`: an entry is the coin of
the ledger, or a spent one, or an output of `rest` put there in advance. -/
structure Tracks (prim : Primitives) (utxoSet : UtxoSet) (needed : List OutPoint)
    (rest : List MsgTx) (view : UtxoViewpoint) (coins : UtxoSet) : Prop where
  settled : ∀ {o entry}, view.lookupEntry o = some entry →
    o.hash ∉ rest.map (txHash prim) ∨ o ∈ needed →
    coins.lookup o = if entry.isSpent then none else some entry.clean
  absent : ∀ {o}, view.lookupEntry o = none → coins.lookup o = utxoSet.lookup o
  unmodified : ∀ {o entry}, view.lookupEntry o = some entry → entry.isModified = false →
    utxoSet.lookup o = some entry
  early : ∀ {o entry}, o ∉ needed → o.hash ∈ rest.map (txHash prim) →
    view.lookupEntry o = some entry → ∃ tx ∈ rest, ∃ blockHeight coin,
      (o, coin) ∈ tx.coins prim blockHeight ∧ entry = coin.fresh
  present : ∀ {o}, o ∈ needed → view.lookupEntry o = none → utxoSet.lookup o = none

theorem tracks_of_loaded (hs : utxoSet.Stored)
    (h : Loaded prim blockHeight utxoSet transactions needed view) :
    Tracks prim utxoSet needed transactions view utxoSet where
  settled {o entry} he hca := by
    have hme : o ∈ needed := by
      by_contra hn
      obtain ⟨tx, htx, coin, hc, -⟩ := h.lookup_other o hn entry he
      refine hca.elim (fun hh => hh ?_) hn
      rw [(mem_coins hc).1]
      exact List.mem_map_of_mem htx
    rw [h.lookup_needed o hme] at he
    obtain ⟨hsp, hm⟩ := hs o entry he
    rw [he, hsp, clean_eq_self hm]
    rfl
  absent _ := rfl
  unmodified {o entry} he hm := by
    by_cases hme : o ∈ needed
    · rw [← h.lookup_needed o hme, he]
    · obtain ⟨tx, -, coin, -, rfl⟩ := h.lookup_other o hme entry he
      cases hm
  early {o entry} hn _ he := by
    obtain ⟨tx, htx, coin, hc, hf⟩ := h.lookup_other o hn entry he
    exact ⟨tx, htx, blockHeight, coin, hc, hf⟩
  present {o} hme hno := by rw [← h.lookup_needed o hme, hno]

/-- Every output that is spent is needed from the database, or belongs to an earlier transaction. -/
def Covered (prim : Primitives) (needed : List OutPoint) (transactions : List MsgTx) : Prop :=
  ∀ before tx after, transactions = before ++ tx :: after → ∀ o ∈ tx.spends,
    o ∈ needed ∨ o.hash ∈ before.map (txHash prim)

theorem covered_of_loaded {coinbaseTx : MsgTx} (hc : isCoinBaseTx coinbaseTx = true)
    (h : Loaded prim blockHeight utxoSet (coinbaseTx :: txs) needed view) :
    Covered prim needed (coinbaseTx :: txs) := by
  intro before tx after ht o ho
  cases before with
  | nil =>
    -- the first transaction is a coinbase, and spends nothing
    obtain rfl : coinbaseTx = tx := (List.cons.inj ht).1
    rw [spends, if_pos hc] at ho
    cases ho
  | cons tx' before =>
    rw [spends] at ho
    split_ifs at ho
    · cases ho
    · exact h.covered (tx' :: before) tx after (cons_ne_nil tx' before) ht o ho

section Step

variable (hsplit : transactions = before ++ tx :: rest)
  (hnodup : (transactions.map (txHash prim)).Nodup)
  (hcovered : Covered prim needed transactions)
  (htracks : Tracks prim utxoSet needed (tx :: rest) view coins) {blockHeight : Int}

include hsplit hnodup in
theorem notMem_of_mem_before {hash : Hash} (h : hash ∈ before.map (txHash prim)) :
    hash ∉ (tx :: rest).map (txHash prim) := by
  rw [hsplit, map_append] at hnodup
  exact fun hm => (disjoint_of_nodup_append hnodup) h hm

include hsplit hnodup hcovered in
theorem needed_or_notMem (ho : outpoint ∈ tx.spends) :
    outpoint.hash ∉ (tx :: rest).map (txHash prim) ∨ outpoint ∈ needed :=
  (hcovered before tx rest hsplit outpoint ho).symm.imp_left (notMem_of_mem_before hsplit hnodup)

include hsplit hnodup hcovered htracks in
theorem Tracks.coin_of_spendable (ho : outpoint ∈ tx.spends)
    (h : Spendable env height view outpoint) : ∃ entry, view.lookupEntry outpoint = some entry ∧
      coins.lookup outpoint = some entry.clean ∧ entry.clean.matured env height = true := by
  obtain ⟨entry, he, hs, hm⟩ := h
  refine ⟨entry, he, ?_, hm⟩
  rw [htracks.settled he (needed_or_notMem hsplit hnodup hcovered ho), hs]
  rfl

include hsplit hnodup hcovered htracks in
/-- An input that is a coin of the ledger can be spent according to the view. -/
theorem Tracks.spendable_of_coin (hf : ∀ o ∈ utxoSet, o.hash ∉ transactions.map (txHash prim))
    (ho : outpoint ∈ tx.spends) {coin : UtxoEntry} (hc : coins.lookup outpoint = some coin)
    (hm : coin.matured env height = true) : Spendable env height view outpoint := by
  cases he : view.lookupEntry outpoint with
  | none =>
    have hse : utxoSet.lookup outpoint = some coin := (htracks.absent he).symm.trans hc
    obtain hme | hme := hcovered before tx rest hsplit outpoint ho
    · exact absurd (hse.symm.trans (htracks.present hme he)) (some_ne_none coin)
    · refine absurd ?_ (hf outpoint (mem_of_lookup_eq_some hse))
      rw [hsplit, map_append]
      exact mem_append_left _ hme
  | some entry =>
    rw [htracks.settled he (needed_or_notMem hsplit hnodup hcovered ho)] at hc
    split_ifs at hc with hs
    cases hc
    exact ⟨entry, he, eq_false_of_not_eq_true hs, hm⟩

/-- What connecting a transaction does at one outpoint, in the view and in the ledger. -/
inductive Touched (prim : Primitives) (tx : MsgTx) (blockHeight : Int) (view view' : UtxoViewpoint)
    (coins coins' : UtxoSet) (o : OutPoint) : Prop
  | created {new : UtxoEntry} (hcreated : created (tx.coins prim blockHeight) o = some new)
      (hentry : view'.lookupEntry o = some new.fresh) (hcoin : coins'.lookup o = some new)
  | spent {old : UtxoEntry} (hspent : o ∈ tx.spends)
      (hentry : view'.lookupEntry o = some { old with isSpent := true, isModified := true })
      (hcoin : coins'.lookup o = none)
  | untouched (hcreated : Ledger.created (tx.coins prim blockHeight) o = none)
      (hentry : view'.lookupEntry o = view.lookupEntry o) (hcoin : coins'.lookup o = coins.lookup o)

theorem touched (hv : ∀ o, view'.lookupEntry o = ((created (tx.coins prim blockHeight) o).map
      fresh).or (if o ∈ tx.spends then (view.lookupEntry o).map spend
        else view.lookupEntry o))
    (hcs : ∀ o, coins'.lookup o = (created (tx.coins prim blockHeight) o).or
      (if o ∈ tx.spends then none else coins.lookup o))
    (hsp : ∀ o ∈ tx.spends, ∃ entry, view.lookupEntry o = some entry ∧
      entry.isSpent = false) (o : OutPoint) :
    Touched prim tx blockHeight view view' coins coins' o := by
  have he := hv o
  have hco := hcs o
  cases hc : created (tx.coins prim blockHeight) o with
  | some new =>
    rw [hc] at he hco
    exact .created hc he hco
  | none =>
    rw [hc] at he
    rw [hc] at hco
    by_cases hs : o ∈ tx.spends
    · obtain ⟨entry, ho, hu⟩ := hsp o hs
      rw [if_pos hs, ho, map_some, UtxoEntry.spend, hu] at he
      rw [if_pos hs] at hco
      exact .spent hs he hco
    · rw [if_neg hs] at he hco
      exact .untouched hc he hco

include hsplit hnodup hcovered htracks in
/-- **Connecting a transaction keeps the view in step with the ledger.** -/
theorem Tracks.connect (ht : ∀ o, Touched prim tx blockHeight view view' coins coins' o) :
    Tracks prim utxoSet needed rest view' coins' := by
  have hd : ((tx :: rest).map (txHash prim)).Nodup := by
    rw [hsplit, map_append] at hnodup
    exact hnodup.of_append_right
  have hh : tx.txHash prim ∉ rest.map (txHash prim) := (nodup_cons.1 hd).1
  -- an output that is spent now is not one that was put into the view in advance
  have hs : ∀ {o}, o ∈ tx.spends → o ∉ needed → o.hash ∉ rest.map (txHash prim) := by
    intro o ho hn hme
    exact (needed_or_notMem hsplit hnodup hcovered ho).elim
      (fun hnt => hnt (mem_cons_of_mem _ hme)) hn
  refine ⟨?settled, ?absent, ?unmodified, ?early, ?present⟩
  case settled =>
    intro o entry he hca
    cases ht o with
    | @created new hcr he' hc =>
      obtain ⟨-, hu, hm⟩ := mem_coins (mem_of_created hcr)
      cases he.symm.trans he'
      have hu' : new.fresh.isSpent = false := hu
      rw [hc, hu']
      exact congrArg some (clean_eq_self hm).symm
    | spent _ he' hc =>
      cases he.symm.trans he'
      exact hc
    | untouched hcr he' hc =>
      rw [hc]
      rw [he'] at he
      refine htracks.settled he (or_iff_not_imp_right.2 fun hn hme => ?_)
      -- the output would be one of this transaction, and would have been created
      obtain ⟨tx', htx', height', coin, hc', -⟩ := htracks.early hn hme he
      have hh' := (mem_coins hc').1
      obtain rfl | htx' := mem_cons.1 htx'
      · rw [created_eq_none_iff, map_fst_coins prim tx' blockHeight height'] at hcr
        exact hcr (List.mem_map_of_mem (f := Prod.fst) hc')
      · exact (hca.resolve_right hn) (hh' ▸ List.mem_map_of_mem htx')
  case absent =>
    intro o hno
    cases ht o with
    | created _ he _ => cases hno.symm.trans he
    | spent _ he _ => cases hno.symm.trans he
    | untouched _ he hc => exact hc.trans (htracks.absent (he.symm.trans hno))
  case unmodified =>
    intro o entry he hm
    cases ht o with
    | created _ he' _ | spent _ he' _ =>
      cases he.symm.trans he'
      cases hm
    | untouched _ he' _ => exact htracks.unmodified (he'.symm.trans he) hm
  case early =>
    intro o entry hn hme he
    cases ht o with
    | created hcr _ _ =>
      rw [(mem_coins (mem_of_created hcr)).1] at hme
      exact absurd hme hh
    | spent ho _ _ => exact absurd hme (hs ho hn)
    | untouched _ he' _ =>
      obtain ⟨tx', htx', height', coin, hc, hf⟩ :=
        htracks.early hn (mem_cons_of_mem _ hme) (he'.symm.trans he)
      obtain rfl | htx' := mem_cons.1 htx'
      · rw [(mem_coins hc).1] at hme
        exact absurd hme hh
      · exact ⟨tx', htx', height', coin, hc, hf⟩
  case present =>
    intro o hme hno
    cases ht o with
    | created _ he _ => cases hno.symm.trans he
    | spent _ he _ => cases hno.symm.trans he
    | untouched _ he _ => exact htracks.present hme (he.symm.trans hno)

include hsplit hnodup hcovered htracks in
theorem Tracks.apply_of_connectUtxos (hi : tx.spends.Nodup)
    (hp : env.prim = prim) (h : connectUtxos env height view tx = .ok view') :
    ∃ coins', (tx.transfer env height).apply coins = some coins' ∧
      Tracks prim utxoSet needed rest view' coins' := by
  subst hp
  obtain ⟨hs, hv⟩ := connectUtxos_eq_ok h
  obtain ⟨coins', ha⟩ : ∃ coins', (tx.transfer env height).apply coins = some coins' := by
    refine ⟨_, Transfer.apply_eq_some_iff.2 ⟨hi, fun o ho => ?_, rfl⟩⟩
    obtain ⟨entry, -, hc, hm⟩ := htracks.coin_of_spendable hsplit hnodup hcovered ho (hs o ho)
    exact ⟨entry.clean, hc, hm⟩
  refine ⟨coins', ha, htracks.connect hsplit hnodup hcovered (touched hv
    (Transfer.lookup_of_apply ha) fun o ho => ?_)⟩
  exact (hs o ho).imp fun _ he => ⟨he.1, he.2.1⟩

include hsplit hnodup hcovered htracks in
theorem Tracks.connectUtxos_of_apply (hp : env.prim = prim)
    (hf : ∀ o ∈ utxoSet, o.hash ∉ transactions.map (txHash prim))
    (h : (tx.transfer env height).apply coins = some coins') :
    ∃ view', connectUtxos env height view tx = .ok view' ∧
      Tracks prim utxoSet needed rest view' coins' := by
  subst hp
  obtain ⟨-, hi, -⟩ := Transfer.apply_eq_some_iff.1 h
  have hs : ∀ o ∈ tx.spends, Spendable env height view o := by
    intro o ho
    obtain ⟨coin, hco, hm⟩ := hi o ho
    exact htracks.spendable_of_coin hsplit hnodup hcovered hf ho hco hm
  obtain ⟨view', hc⟩ := exists_connectUtxos hs
  refine ⟨view', hc, htracks.connect hsplit hnodup hcovered (touched
    (connectUtxos_eq_ok hc).2 (Transfer.lookup_of_apply h) fun o ho => ?_)⟩
  exact (hs o ho).imp fun _ he => ⟨he.1, he.2.1⟩

end Step

section

variable (hnodup : (transactions.map (txHash env.prim)).Nodup)
  (hcovered : Covered env.prim needed transactions)
include hnodup hcovered

/-- **Several transactions**: what is connected in the view is made in the ledger. -/
theorem Tracks.applyAll_of_foldlM (hi : ∀ tx ∈ transactions, tx.spends.Nodup)
    (htracks : Tracks env.prim utxoSet needed transactions view coins)
    (hsplit : transactions = txs ++ rest)
    (h : txs.foldlM (connectUtxos env height) view = .ok view') :
    ∃ coins', applyAll coins (txs.map (transfer env height)) = some coins' ∧
      Tracks env.prim utxoSet needed rest view' coins' := by
  refine foldlM_invariant (P := fun done rest view => ∃ coins',
    applyAll coins (done.map (transfer env height)) = some coins' ∧
      Tracks env.prim utxoSet needed rest view coins') ?_ ⟨coins, rfl, htracks⟩ hsplit h
  rintro before tx rest view₁ view₂ hsplit ⟨coins₁, ha, htracks₁⟩ hc
  have hm : tx ∈ transactions := hsplit ▸ mem_append_right _ mem_cons_self
  obtain ⟨coins₂, ha₂, htracks₂⟩ := htracks₁.apply_of_connectUtxos hsplit hnodup hcovered
    (hi tx hm) rfl hc
  refine ⟨coins₂, ?_, htracks₂⟩
  rw [map_append, applyAll_append, ha, bind_some, map_singleton, applyAll_cons, ha₂]
  rfl

theorem Tracks.foldlM_of_applyAll (hf : ∀ o ∈ utxoSet, o.hash ∉ transactions.map
    (txHash env.prim)) (hsplit : transactions = before ++ rest)
    (htracks : Tracks env.prim utxoSet needed rest view coins)
    (h : applyAll coins (rest.map (transfer env height)) = some coins') :
    ∃ view', rest.foldlM (connectUtxos env height) view = .ok view' := by
  induction rest generalizing before view coins with
  | nil => exact ⟨view, rfl⟩
  | cons tx rest ih =>
    rw [map_cons, applyAll_cons, bind_eq_some_iff] at h
    obtain ⟨coins₁, ha, h⟩ := h
    obtain ⟨view₁, hc, htracks₁⟩ := htracks.connectUtxos_of_apply hsplit hnodup hcovered rfl hf ha
    have hsplit' : transactions = (before ++ [tx]) ++ rest := by
      rw [hsplit, append_assoc, singleton_append]
    obtain ⟨view', hfo⟩ := ih hsplit' htracks₁ h
    exact ⟨view', by rw [foldlM_cons, hc]; exact hfo⟩

end

theorem Tracks.putUtxoView_eq (hs : utxoSet.Stored)
    (htracks : Tracks prim utxoSet needed [] view coins) : utxoSet.putUtxoView view = coins := by
  refine ext_lookup fun o => ?_
  rw [UtxoSet.lookup_putUtxoView]
  cases he : view.lookupEntry o with
  | none => exact (htracks.absent he).symm
  | some entry =>
    rw [htracks.settled he (Or.inl not_mem_nil), UtxoSet.putEntry]
    by_cases hm : entry.isModified = true
    · rw [if_neg (by rw [hm]; exact false_ne_true)]
      split_ifs with hsp
      · exact lookup_erase o utxoSet
      · exact lookup_insert utxoSet
    · have hu := eq_false_of_not_eq_true hm
      have hse := htracks.unmodified he hu
      rw [if_pos (by rw [hu]; rfl), (hs o entry hse).1, clean_eq_self hu]
      exact hse

theorem mem_or_hash_mem (ha : applyAll utxoSet (txs.map (transfer env height)) = some coins)
    (ho : outpoint ∈ coins) : outpoint ∈ utxoSet ∨ outpoint.hash ∈ txs.map (txHash env.prim) := by
  obtain ho | ⟨_, ht, hou⟩ := mem_of_applyAll ha ho
  · exact .inl ho
  · obtain ⟨tx, htx, rfl⟩ := mem_map.1 ht
    obtain ⟨⟨_, coin⟩, hc, rfl⟩ := mem_map.1 hou
    exact .inr ((mem_coins hc).1 ▸ mem_map_of_mem htx)

/-- The outputs of a ledger after some transactions of a block are not named after a later one. -/
theorem hash_notMem_rest (hs : transactions = before ++ rest)
    (hn : (transactions.map (txHash env.prim)).Nodup)
    (hf : ∀ o ∈ utxoSet, o.hash ∉ transactions.map (txHash env.prim))
    (ha : applyBlock env height utxoSet before = some coins) (ho : outpoint ∈ coins) :
    outpoint.hash ∉ rest.map (txHash env.prim) := by
  rw [hs, map_append] at hn hf
  obtain hol | hb := mem_or_hash_mem ha ho
  · exact fun hm => hf outpoint hol (mem_append_right _ hm)
  · exact disjoint_of_nodup_append hn hb

end Tracks

end DrcNode
