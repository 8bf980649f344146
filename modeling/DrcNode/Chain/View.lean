import DrcNode.Chain.Connect
import DrcNode.Library.Ledger

/-!
# What a view holds while a block is connected

`fetchInputUtxos` fills the view before the first transaction is connected: with what the database
has for the inputs, and with the outputs of transactions of the block itself whose children come
later in the block. Such an output is in the view, unspent, before the transaction that creates it
has been connected. The lemmas here describe the view at each stage by what is looked up in it.
-/

namespace DrcNode

open List Option TxIn UtxoViewpoint MsgTx

open Ledger

/-! ### What a transaction spends and creates -/

/-- The outputs that a transaction spends. The input of a coinbase refers to none. -/
def MsgTx.spends (msgTx : MsgTx) : List OutPoint :=
  if isCoinBaseTx msgTx then [] else msgTx.txIn.map previousOutPoint

/-- The outputs that a transaction creates, without those that are provably unspendable. -/
def MsgTx.coins (prim : Primitives) (msgTx : MsgTx) (blockHeight : Int) :
    List (OutPoint × UtxoEntry) :=
  msgTx.txOut.zipIdx.filterMap fun out =>
    if isUnspendable out.1.pkScript then none
    else some (⟨msgTx.txHash prim, UInt32.ofNat out.2⟩,
      { amount := out.1.value, pkScript := out.1.pkScript, blockHeight
        isCoinBase := isCoinBaseTx msgTx })

/-- The entry as a view has it after it was created there. -/
def UtxoEntry.fresh (entry : UtxoEntry) : UtxoEntry := { entry with isModified := true }

/-- The entry as the database has it. -/
def UtxoEntry.clean (entry : UtxoEntry) : UtxoEntry := { entry with isModified := false }

theorem UtxoEntry.clean_eq_self {entry : UtxoEntry} (h : entry.isModified = false) :
    entry.clean = entry := by
  rw [clean, ← h]

variable {prim : Primitives} {msgTx : MsgTx} {blockHeight : Int} {outpoint : OutPoint}
  {coin : UtxoEntry}

theorem MsgTx.mem_coins (h : (outpoint, coin) ∈ msgTx.coins prim blockHeight) :
    outpoint.hash = msgTx.txHash prim ∧ coin.isSpent = false ∧ coin.isModified = false := by
  obtain ⟨out, -, ho⟩ := mem_filterMap.1 h
  split_ifs at ho
  cases ho
  exact ⟨rfl, rfl, rfl⟩

theorem MsgTx.map_fst_coins (prim : Primitives) (msgTx : MsgTx) (height height' : Int) :
    (msgTx.coins prim height).map Prod.fst = (msgTx.coins prim height').map Prod.fst := by
  rw [coins, coins, map_filterMap, map_filterMap]
  refine filterMap_congr fun out _ => ?_
  split_ifs <;> rfl

namespace UtxoViewpoint

variable {view : UtxoViewpoint} {utxoSet : UtxoSet} {outpoints : List OutPoint}
  {transactions : List MsgTx} {txs : List MsgTx} {hash : Hash}

theorem entries_addTxOuts : (view.addTxOuts prim msgTx blockHeight).entries = create view.entries
      ((msgTx.coins prim blockHeight).map fun out => (out.1, some out.2.fresh)) := by
  rw [addTxOuts, coins]
  generalize msgTx.txOut.zipIdx = outs
  induction outs generalizing view with
  | nil => rfl
  | cons out outs ih =>
    rw [foldl_cons, ih, addTxOut, filterMap_cons]
    split_ifs <;> rfl

theorem lookupEntry_addTxOuts : (view.addTxOuts prim msgTx blockHeight).lookupEntry outpoint =
    ((created (msgTx.coins prim blockHeight) outpoint).map UtxoEntry.fresh).or
      (view.lookupEntry outpoint) := by
  rw [lookupEntry, entries_addTxOuts, lookup_create,
    created_map fun coin : UtxoEntry => some coin.fresh]
  cases created (msgTx.coins prim blockHeight) outpoint <;> rfl

theorem entries_fetchUtxosMain : (view.fetchUtxosMain utxoSet outpoints).entries =
    create view.entries (outpoints.map fun outpoint => (outpoint, utxoSet.lookup outpoint)) := by
  rw [fetchUtxosMain]
  induction outpoints generalizing view with
  | nil => rfl
  | cons outpoint outpoints ih =>
    rw [foldl_cons, ih]
    rfl

theorem lookupEntry_fetchUtxosMain : (view.fetchUtxosMain utxoSet outpoints).lookupEntry outpoint =
      if outpoint ∈ outpoints then utxoSet.lookup outpoint else view.lookupEntry outpoint := by
  rw [lookupEntry, entries_fetchUtxosMain, lookup_create]
  cases hc : created (outpoints.map fun o => (o, utxoSet.lookup o)) outpoint with
  | none =>
    have hn : outpoint ∉ outpoints := by
      simpa only [List.map_map, Function.comp_def, List.map_id'] using
        created_eq_none_iff.1 hc
    rw [if_neg hn, none_or, lookupEntry]
  | some entry =>
    obtain ⟨o, hm, heq⟩ := List.mem_map.1 (mem_of_created hc)
    cases heq
    rw [if_pos hm]
    rfl

/-! ### Filling the view -/

/-- The first half of `fetchInputUtxos`. -/
def prefetch (prim : Primitives) (view : UtxoViewpoint) (transactions : List MsgTx)
    (blockHeight : Int) : UtxoViewpoint × List OutPoint :=
  transactions.tail.zipIdx.foldl (fun state tx =>
    tx.1.txIn.foldl (fetchInput prim transactions blockHeight tx.2) state) (view, [])

theorem fetchInputUtxos_eq : view.fetchInputUtxos prim utxoSet transactions blockHeight =
      (view.prefetch prim transactions blockHeight).1.fetchUtxosMain utxoSet
        (view.prefetch prim transactions blockHeight).2 := rfl

/-- Every entry of the view is an output of one of the transactions. -/
def InFlight (prim : Primitives) (blockHeight : Int) (txs : List MsgTx) (view : UtxoViewpoint) :
    Prop :=
  ∀ outpoint entry, view.entries.lookup outpoint = some entry →
    ∃ tx ∈ txs, ∃ coin, (outpoint, coin) ∈ tx.coins prim blockHeight ∧ entry = some coin.fresh

section

variable (h : InFlight prim blockHeight txs view)
include h

theorem InFlight.hash_mem (hm : outpoint ∈ view.entries) : outpoint.hash ∈ txs.map
    (txHash prim) := by
  obtain ⟨entry, he⟩ := Finmap.mem_iff.1 hm
  obtain ⟨tx, htx, coin, hc, -⟩ := h outpoint entry he
  rw [(mem_coins hc).1]
  exact mem_map_of_mem htx

theorem InFlight.mono {txs' : List MsgTx} (hs : txs ⊆ txs') :
    InFlight prim blockHeight txs' view := by
  intro outpoint entry he
  obtain ⟨tx, htx, hc⟩ := h outpoint entry he
  exact ⟨tx, hs htx, hc⟩

theorem InFlight.addTxOuts (hm : msgTx ∈ txs) :
    InFlight prim blockHeight txs (view.addTxOuts prim msgTx blockHeight) := by
  intro outpoint entry he
  rw [entries_addTxOuts, lookup_create, or_eq_some_iff] at he
  obtain hn | ⟨-, ho⟩ := he
  · obtain ⟨⟨o, coin⟩, hc, heq⟩ := mem_map.1 (mem_of_created hn)
    cases heq
    exact ⟨msgTx, hm, coin, hc, rfl⟩
  · exact h outpoint entry ho

end

theorem getElem?_inFlightIndex {index : Nat}
    (h : inFlightIndex prim transactions hash = some index) :
    ∃ tx, transactions[index]? = some tx ∧ tx.txHash prim = hash := by
  rw [inFlightIndex, map_eq_some_iff] at h
  obtain ⟨⟨tx, index⟩, hf, rfl⟩ := h
  have hm := mem_reverse.1 (mem_of_find?_eq_some hf)
  have hh := find?_some hf
  exact ⟨tx, mem_zipIdx_iff_getElem?.1 hm, of_decide_eq_true hh⟩

/-- If the hashes are different, then the position of a transaction that is done is before the
others. -/
theorem exists_inFlightIndex_lt {done rest : List MsgTx} (ht : transactions = done ++ rest)
    (hn : (transactions.map (txHash prim)).Nodup) (hm : hash ∈ done.map (txHash prim)) :
    ∃ index, inFlightIndex prim transactions hash = some index ∧ index < done.length := by
  obtain ⟨tx, htx, hh⟩ := mem_map.1 hm
  obtain ⟨k, hk⟩ := getElem?_of_mem htx
  have hlt : k < done.length := (List.getElem?_eq_some_iff.1 hk).1
  have hk' : transactions[k]? = some tx := by
    rw [ht, getElem?_append_left hlt]
    exact hk
  cases hi : inFlightIndex prim transactions hash with
  | none =>
    rw [inFlightIndex, map_eq_none_iff, find?_eq_none] at hi
    exact absurd (decide_eq_true hh) (hi (tx, k) (mem_reverse.2 (mem_zipIdx_iff_getElem?.2 hk')))
  | some index =>
    obtain ⟨tx', htx', hh'⟩ := getElem?_inFlightIndex hi
    refine ⟨index, rfl, ?_⟩
    -- both positions have the same hash
    have hil : index < (transactions.map (txHash prim)).length := by
      rw [length_map]
      exact (List.getElem?_eq_some_iff.1 htx').1
    have heq : index = k := by
      rw [← getElem?_inj hil hn, getElem?_map, getElem?_map, htx', hk', map_some, map_some, hh, hh']
    rw [heq]
    exact hlt

section Prefetch

variable {transactions : List MsgTx} {done rest : List MsgTx} {i : Nat}
  {state : UtxoViewpoint × List OutPoint}

section

variable (ht : transactions = done ++ rest) (hi : i + 1 = done.length)
  (h : InFlight prim blockHeight done state.1)
include ht hi h

/-- An input refers to an earlier transaction, or is needed from the database. -/
theorem fetchInput_spec (txIn : TxIn) :
    InFlight prim blockHeight done (fetchInput prim transactions blockHeight i state txIn).1 ∧
      ((fetchInput prim transactions blockHeight i state txIn).2 = state.2 ∧
          txIn.previousOutPoint.hash ∈ done.map (txHash prim) ∨
        (fetchInput prim transactions blockHeight i state txIn).2 =
            state.2 ++ [txIn.previousOutPoint] ∧
          ((transactions.map (txHash prim)).Nodup →
            txIn.previousOutPoint.hash ∉ done.map (txHash prim))) := by
  -- the branch for an output that is not in flight
  have hn : ∀ state' : UtxoViewpoint × List OutPoint,
      state' = (if txIn.previousOutPoint ∈ state.1.entries then state
        else (state.1, state.2 ++ [txIn.previousOutPoint])) →
      (∀ index, inFlightIndex prim transactions txIn.previousOutPoint.hash = some index →
        done.length ≤ index) →
      InFlight prim blockHeight done state'.1 ∧
        (state'.2 = state.2 ∧ txIn.previousOutPoint.hash ∈ done.map (txHash prim) ∨
          state'.2 = state.2 ++ [txIn.previousOutPoint] ∧
            ((transactions.map (txHash prim)).Nodup →
              txIn.previousOutPoint.hash ∉ done.map (txHash prim))) := by
    rintro state' rfl hin
    split_ifs with hm
    · exact ⟨h, .inl ⟨rfl, h.hash_mem hm⟩⟩
    · refine ⟨h, .inr ⟨rfl, fun hno hd => ?_⟩⟩
      obtain ⟨index, hs, hlt⟩ := exists_inFlightIndex_lt ht hno hd
      exact absurd (hin index hs) (not_le.2 hlt)
  rw [fetchInput]
  cases hin : inFlightIndex prim transactions txIn.previousOutPoint.hash with
  | none =>
    refine hn _ rfl fun index hs => ?_
    rw [hin] at hs
    cases hs
  | some index =>
    obtain ⟨tx, htx, hh⟩ := getElem?_inFlightIndex hin
    by_cases hle : index ≤ i
    · dsimp only
      rw [if_pos hle, htx]
      have hm : tx ∈ done := by
        rw [ht, getElem?_append_left (by omega)] at htx
        exact mem_of_getElem? htx
      exact ⟨h.addTxOuts hm, .inl ⟨rfl, hh ▸ mem_map_of_mem hm⟩⟩
    · dsimp only
      rw [if_neg hle]
      refine hn _ rfl fun index' hs => ?_
      cases hin.symm.trans hs
      omega

theorem foldl_fetchInput_spec (inputs : List TxIn) :
    ∃ state', inputs.foldl (fetchInput prim transactions blockHeight i) state = state' ∧
      InFlight prim blockHeight done state'.1 ∧ state.2 ⊆ state'.2 ∧
      (∀ outpoint ∈ state'.2, outpoint ∈ state.2 ∨ outpoint ∈ inputs.map previousOutPoint ∧
        ((transactions.map (txHash prim)).Nodup →
          outpoint.hash ∉ done.map (txHash prim))) ∧
      ∀ outpoint ∈ inputs.map previousOutPoint,
        outpoint ∈ state'.2 ∨ outpoint.hash ∈ done.map (txHash prim) := by
  induction inputs generalizing state with
  | nil => exact ⟨state, rfl, h, List.Subset.refl _, fun _ => .inl, fun _ hm => by cases hm⟩
  | cons txIn inputs ih =>
    obtain ⟨hin, hca⟩ := fetchInput_spec ht hi h txIn
    obtain ⟨state', hf, hin', hsu, hn, hc⟩ := ih hin
    refine ⟨state', hf, hin', ?_⟩
    rw [map_cons, forall_mem_cons]
    simp only [mem_cons]
    obtain ⟨hs, hh⟩ | ⟨ha, hnw⟩ := hca
    · rw [hs] at hsu hn
      refine ⟨hsu, fun o ho => ?_, .inr hh, hc⟩
      exact (hn o ho).imp_right fun hip => ⟨.inr hip.1, hip.2⟩
    rw [ha] at hsu hn
    have hm : txIn.previousOutPoint ∈ state'.2 := hsu (mem_append_right _ mem_cons_self)
    refine ⟨fun o ho => hsu (mem_append_left _ ho), fun o ho => ?_, .inl hm, hc⟩
    obtain hol | hip := hn o ho
    · rw [mem_append, mem_singleton] at hol
      exact hol.imp_right fun heq => ⟨.inl heq, heq ▸ hnw⟩
    · exact .inr ⟨.inr hip.1, hip.2⟩

theorem foldl_prefetch_spec :
    ∃ state', (rest.zipIdx i).foldl (fun state tx =>
        tx.1.txIn.foldl (fetchInput prim transactions blockHeight tx.2) state) state = state' ∧
      InFlight prim blockHeight transactions state'.1 ∧ state.2 ⊆ state'.2 ∧
      (∀ outpoint ∈ state'.2, outpoint ∈ state.2 ∨ ∃ before tx after, rest = before ++ tx :: after ∧
        outpoint ∈ tx.txIn.map previousOutPoint ∧
        ((transactions.map (txHash prim)).Nodup →
          outpoint.hash ∉ (done ++ before).map (txHash prim))) ∧
      ∀ before tx after, rest = before ++ tx :: after →
        ∀ outpoint ∈ tx.txIn.map previousOutPoint,
          outpoint ∈ state'.2 ∨ outpoint.hash ∈ (done ++ before).map (txHash prim) := by
  induction rest generalizing done i state with
  | nil =>
    refine ⟨state, rfl, ?_, List.Subset.refl _, fun _ => .inl, fun before tx after hr => ?_⟩
    · exact h.mono (ht ▸ subset_append_left done [])
    · exact absurd hr.symm (append_ne_nil_of_right_ne_nil before (cons_ne_nil tx after))
  | cons tx rest ih =>
    obtain ⟨state₁, hf₁, hin₁, hs₁, hn₁, hc₁⟩ := foldl_fetchInput_spec ht hi h tx.txIn
    have ht' : transactions = (done ++ [tx]) ++ rest := by
      rw [ht, append_assoc, singleton_append]
    obtain ⟨state', hf, hin, hs, hn, hc⟩ :=
      @ih (done ++ [tx]) (i + 1) state₁ ht' (by rw [length_append, length_singleton, hi])
        (hin₁.mono (subset_append_left done [tx]))
    refine ⟨state', ?_, hin, List.Subset.trans hs₁ hs, fun o ho => ?_, ?_⟩
    · rw [zipIdx_cons, foldl_cons, hf₁, hf]
    · obtain hol | ⟨before, tx', after, hr, hip⟩ := hn o ho
      · obtain hol | hip := hn₁ o hol
        · exact .inl hol
        · refine .inr ⟨[], tx, rest, rfl, ?_⟩
          rw [append_nil]
          exact hip
      · refine .inr ⟨tx :: before, tx', after, by rw [hr, cons_append], ?_⟩
        rw [append_assoc] at hip
        exact hip
    · intro before tx' after hr o ho
      cases before with
      | nil =>
        cases hr
        rw [append_nil]
        exact (hc₁ o ho).imp_left fun hm => hs hm
      | cons tx'' before =>
        cases hr
        have := hc before tx' after rfl o ho
        rwa [append_assoc, singleton_append] at this

end

end Prefetch

end UtxoViewpoint

/-- **What is known of the view once it has been filled**: the outpoints in `needed` are those of
the database, and every input is needed or refers to an earlier transaction. -/
structure Loaded (prim : Primitives) (blockHeight : Int) (utxoSet : UtxoSet)
    (transactions : List MsgTx) (needed : List OutPoint) (view : UtxoViewpoint) : Prop where
  lookup_needed : ∀ outpoint ∈ needed, view.lookupEntry outpoint = utxoSet.lookup outpoint
  lookup_other : ∀ outpoint ∉ needed, ∀ entry, view.lookupEntry outpoint = some entry →
    ∃ tx ∈ transactions, ∃ coin, (outpoint, coin) ∈ tx.coins prim blockHeight ∧ entry = coin.fresh
  covered : ∀ before tx after, before ≠ [] → transactions = before ++ tx :: after →
    ∀ outpoint ∈ tx.txIn.map previousOutPoint,
      outpoint ∈ needed ∨ outpoint.hash ∈ before.map (txHash prim)
  needed_input : ∀ outpoint ∈ needed, ∃ before tx after, before ≠ [] ∧
    transactions = before ++ tx :: after ∧ outpoint ∈ tx.txIn.map previousOutPoint ∧
    ((transactions.map (txHash prim)).Nodup →
      outpoint.hash ∉ before.map (txHash prim))

/-- **The view is filled as described.** -/
theorem loaded_fetchInputUtxos (prim : Primitives) (blockHeight : Int) (utxoSet : UtxoSet)
    (coinbaseTx : MsgTx) (txs : List MsgTx) (bestHash : Hash) :
    Loaded prim blockHeight utxoSet (coinbaseTx :: txs)
      ((UtxoViewpoint.new bestHash).prefetch prim (coinbaseTx :: txs) blockHeight).2
      ((UtxoViewpoint.new bestHash).fetchInputUtxos prim utxoSet (coinbaseTx :: txs)
        blockHeight) := by
  have hem : UtxoViewpoint.InFlight prim blockHeight [coinbaseTx] (.new bestHash) := by
    intro outpoint entry he
    cases he
  obtain ⟨state, hf, hi, -, hn, hc⟩ :=
    @UtxoViewpoint.foldl_prefetch_spec prim blockHeight (coinbaseTx :: txs) [coinbaseTx] txs 0
      (.new bestHash, []) rfl rfl hem
  have hs : (UtxoViewpoint.new bestHash).prefetch prim (coinbaseTx :: txs) blockHeight = state := hf
  rw [fetchInputUtxos_eq, hs]
  refine ⟨fun o ho => ?_, fun o ho entry he => ?_, fun before tx after hne ht o ho => ?_,
    fun o ho => ?_⟩
  · rw [lookupEntry_fetchUtxosMain, if_pos ho]
  · rw [lookupEntry_fetchUtxosMain, if_neg ho, lookupEntry,
      join_eq_some_iff] at he
    obtain ⟨tx, htx, coin, hco, heq⟩ := hi o _ he
    exact ⟨tx, htx, coin, hco, Option.some.inj heq⟩
  · cases before with
    | nil => exact absurd rfl hne
    | cons tx' before =>
      cases ht
      exact hc before tx after rfl o ho
  · obtain hni | ⟨before, tx, after, ht, hin⟩ := hn o ho
    · cases hni
    · exact ⟨coinbaseTx :: before, tx, after, cons_ne_nil coinbaseTx before,
        by rw [ht, cons_append], hin⟩

/-! ### Connecting a transaction -/

namespace UtxoViewpoint

variable {view : UtxoViewpoint} {stxos : List SpentTxOut}
  {state state' : UtxoViewpoint × List SpentTxOut} {txIn : TxIn} {inputs : List TxIn}

theorem lookupEntry_setEntry {o : OutPoint} {entry : Option UtxoEntry} :
    (view.setEntry o entry).lookupEntry outpoint =
      if outpoint = o then entry else view.lookupEntry outpoint := by
  rw [lookupEntry, setEntry]
  split_ifs with h
  · rw [h, Finmap.lookup_insert]
    rfl
  · rw [Finmap.lookup_insert_of_ne _ h, lookupEntry]

theorem spendInput_eq_ok (h : spendInput state txIn = .ok state') :
    ∃ entry, state.1.lookupEntry txIn.previousOutPoint = some entry ∧
      state'.1 = state.1.setEntry txIn.previousOutPoint (some entry.spend) := by
  rw [spendInput] at h
  split at h
  · cases h
  · rename_i entry he
    cases h
    exact ⟨entry, he, rfl⟩

theorem spend_spend (entry : UtxoEntry) : entry.spend.spend = entry.spend := by
  rw [UtxoEntry.spend, if_pos]
  rw [UtxoEntry.spend]
  split_ifs with h
  · exact h
  · rfl

theorem foldlM_spendInput_eq_ok (h : inputs.foldlM spendInput state = .ok state') :
    (∀ o ∈ inputs.map previousOutPoint, ∃ entry, state.1.lookupEntry o = some entry) ∧
      ∀ o, state'.1.lookupEntry o = if o ∈ inputs.map previousOutPoint
        then (state.1.lookupEntry o).map UtxoEntry.spend else state.1.lookupEntry o := by
  induction inputs generalizing state with
  | nil =>
    cases h
    exact ⟨fun o ho => (by cases ho), fun o => (if_neg not_mem_nil).symm⟩
  | cons txIn inputs ih =>
    rw [foldlM_cons, Checked.bind_eq_ok] at h
    obtain ⟨state₁, hs, h⟩ := h
    obtain ⟨entry, he, hv⟩ := spendInput_eq_ok hs
    obtain ⟨hp, hl⟩ := ih h
    rw [map_cons, forall_mem_cons]
    refine ⟨⟨⟨entry, he⟩, fun o ho => ?_⟩, fun o => ?_⟩
    · by_cases heq : o = txIn.previousOutPoint
      · exact ⟨entry, heq ▸ he⟩
      · obtain ⟨entry', he'⟩ := hp o ho
        rw [hv, lookupEntry_setEntry, if_neg heq] at he'
        exact ⟨entry', he'⟩
    · rw [hl o, hv, lookupEntry_setEntry]
      by_cases heq : o = txIn.previousOutPoint
      · rw [heq, if_pos rfl, if_pos mem_cons_self, he, map_some, map_some, spend_spend, ite_self]
      · rw [if_neg heq]
        simp [heq]

theorem exists_foldlM_spendInput
    (h : ∀ o ∈ inputs.map previousOutPoint, ∃ entry, state.1.lookupEntry o = some entry) :
    ∃ state', inputs.foldlM spendInput state = .ok state' := by
  induction inputs generalizing state with
  | nil => exact ⟨state, rfl⟩
  | cons txIn inputs ih =>
    rw [map_cons, forall_mem_cons] at h
    obtain ⟨⟨entry, he⟩, hr⟩ := h
    rw [foldlM_cons, spendInput, he]
    refine ih fun o ho => ?_
    rw [lookupEntry_setEntry]
    split_ifs
    · exact ⟨_, rfl⟩
    · exact hr o ho

theorem foldlM_spendInput_stxos : inputs.foldlM spendInput (view, stxos) =
    (inputs.foldlM spendInput (view, [])).map fun out => (out.1, stxos ++ out.2) := by
  induction inputs generalizing view stxos with
  | nil => exact congrArg Except.ok (Prod.ext rfl (append_nil stxos).symm)
  | cons txIn inputs ih =>
    rw [foldlM_cons, foldlM_cons, spendInput, spendInput]
    cases view.lookupEntry txIn.previousOutPoint with
    | none => rfl
    | some entry =>
      change inputs.foldlM spendInput (_, _) = (inputs.foldlM spendInput (_, _)).map _
      rw [ih, @ih _ ([] ++ _)]
      cases inputs.foldlM spendInput (view.setEntry txIn.previousOutPoint (some entry.spend), [])
      · rfl
      · exact congrArg Except.ok (Prod.ext rfl (append_assoc _ _ _))

theorem connectTransaction_stxos : connectTransaction prim (view, stxos) msgTx blockHeight =
    (connectTransaction prim (view, []) msgTx blockHeight).map fun out =>
      (out.1, stxos ++ out.2) := by
  rw [connectTransaction, connectTransaction]
  split_ifs
  · exact congrArg Except.ok (Prod.ext rfl (append_nil stxos).symm)
  · rw [foldlM_spendInput_stxos]
    cases msgTx.txIn.foldlM spendInput (view, []) <;> rfl

/-- **The view after a transaction has been connected.** -/
theorem connectTransaction_eq_ok
    (h : connectTransaction prim state msgTx blockHeight = .ok state') :
    (∀ o ∈ msgTx.spends, ∃ entry, state.1.lookupEntry o = some entry) ∧
      ∀ o, state'.1.lookupEntry o =
        ((created (msgTx.coins prim blockHeight) o).map UtxoEntry.fresh).or
          (if o ∈ msgTx.spends then (state.1.lookupEntry o).map UtxoEntry.spend
            else state.1.lookupEntry o) := by
  rw [connectTransaction] at h
  rw [spends]
  split_ifs at h ⊢
  · cases h
    refine ⟨fun o ho => (by cases ho), fun o => ?_⟩
    rw [lookupEntry_addTxOuts, if_neg not_mem_nil]
  · rw [Checked.bind_eq_ok] at h
    obtain ⟨state₁, hs, h⟩ := h
    cases h
    obtain ⟨hp, hl⟩ := foldlM_spendInput_eq_ok hs
    exact ⟨hp, fun o => by rw [lookupEntry_addTxOuts, hl o]⟩

theorem exists_connectTransaction (prim : Primitives) (blockHeight : Int)
    (state : UtxoViewpoint × List SpentTxOut)
    (h : ∀ o ∈ msgTx.spends, ∃ entry, state.1.lookupEntry o = some entry) :
    ∃ state', connectTransaction prim state msgTx blockHeight = .ok state' := by
  rw [connectTransaction]
  rw [spends] at h
  split_ifs at h ⊢
  · exact ⟨_, rfl⟩
  · obtain ⟨⟨view, stxos⟩, hs⟩ := exists_foldlM_spendInput h
    exact ⟨_, by rw [hs]; rfl⟩

end UtxoViewpoint

end DrcNode
