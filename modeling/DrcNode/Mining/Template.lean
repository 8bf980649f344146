import DrcNode.Chain.Agreement
import DrcNode.Chain.Refinement
import DrcNode.Chain.Unique
import DrcNode.Mining.Selection

/-!
# Templates on a candidate that is not in the chain yet

A template is built on top of the best candidate, which is connected in the round after. Before it
is returned, `CheckConnectBlockTemplate` runs `checkConnectBlock` on it, with a view that is
labelled with the hash of the best candidate, but loads from the database of the block below. So
neither the check nor the choice of the transactions sees what the best candidate spends.

## Main results

* `templateConnects_iff`: a template connects when it loads none of these outputs.
-/

namespace DrcNode

open Checked Finmap List BlockChain MsgTx

open Ledger

variable {env : Env} {prim : Primitives} {height : Nat} {utxoSet coins coins' : UtxoSet}
  {first second transactions : List MsgTx} {tx : MsgTx} {outpoint : OutPoint}

/-! ### Two blocks, one after the other -/

/-- **The hashes do not collide**, up to witnesses. -/
structure NoCollision (prim : Primitives) (utxoSet : UtxoSet)
    (transactions : List MsgTx) : Prop where
  fresh : ∀ o ∈ utxoSet, o.hash ∉ transactions.map (txHash prim)
  injective : HashInjective prim transactions

theorem NoCollision.fresh_left (h : NoCollision prim utxoSet (first ++ second)) :
    ∀ o ∈ utxoSet, o.hash ∉ first.map (txHash prim) := by
  intro o ho hm
  refine h.fresh o ho ?_
  rw [map_append]
  exact mem_append_left _ hm

/-- **What a block spends is not there after it**, and was there before it or is an output of the
block itself. -/
theorem notMem_of_applyBlock (happly : applyBlock env height utxoSet transactions = some coins)
    (hn : (transactions.map (txHash env.prim)).Nodup)
    (hfr : ∀ o ∈ utxoSet, o.hash ∉ transactions.map (txHash env.prim))
    (htx : tx ∈ transactions) (ho : outpoint ∈ tx.spends) :
    outpoint ∉ coins ∧
      (outpoint ∈ utxoSet ∨ outpoint.hash ∈ transactions.map (txHash env.prim)) := by
  obtain ⟨before, after, rfl⟩ := append_of_mem htx
  -- an output of an earlier transaction, or of none
  have hor : outpoint ∈ utxoSet ∨ outpoint.hash ∈ before.map (txHash env.prim) := by
    obtain ⟨coin, -, hc | ⟨tx', htx', hc⟩⟩ := exists_coin_of_applyBlock happly ho
    · exact .inl (mem_of_lookup_eq_some hc)
    · refine .inr ?_
      rw [(mem_coins hc).1]
      exact mem_map_of_mem htx'
  -- so this transaction and the later ones do not create it
  have hl : outpoint.hash ∉ (tx :: after).map (txHash env.prim) := by
    obtain hol | hb := hor
    · intro hm
      refine hfr outpoint hol ?_
      rw [map_append]
      exact mem_append_right _ hm
    · exact notMem_of_mem_before rfl hn hb
  constructor
  · intro hm
    rw [applyBlock, map_append, applyAll_append, Option.bind_eq_some_iff] at happly
    obtain ⟨coins₁, -, happly⟩ := happly
    rw [map_cons, applyAll_cons, Option.bind_eq_some_iff] at happly
    obtain ⟨coins₂, hf, happly⟩ := happly
    obtain hm₂ | ht := mem_or_hash_mem happly hm
    · obtain ⟨coin, hc⟩ := mem_iff.1 hm₂
      rw [Transfer.lookup_of_apply hf, Option.or_eq_some_iff] at hc
      obtain hcr | ⟨-, hol⟩ := hc
      · rw [(mem_coins (mem_of_created hcr)).1] at hl
        exact hl mem_cons_self
      · rw [transfer, if_pos ho] at hol
        cases hol
    · exact hl (mem_cons_of_mem _ ht)
  · refine hor.imp_right fun hb => ?_
    rw [map_append]
    exact mem_append_left _ hb

/-- **What the earlier transactions have spent is gone.** -/
def Spent (prim : Primitives) (earlier later : List MsgTx) (coins : UtxoSet) : Prop :=
  ∀ tx ∈ earlier, ∀ o ∈ tx.spends, o ∉ coins ∧
    (o.hash ∈ later.map (txHash prim) → o.hash ∈ earlier.map (txHash prim))

theorem spent_of_applyBlock (hc : NoCollision env.prim utxoSet (first ++ second))
    (hn : (first.map (txHash env.prim)).Nodup)
    (happly : applyBlock env height utxoSet first = some coins) :
    Spent env.prim first second coins := by
  intro tx htx o ho
  obtain ⟨hg, hor⟩ := notMem_of_applyBlock happly hn hc.fresh_left htx ho
  refine ⟨hg, fun hm => hor.resolve_left fun hol => hc.fresh o hol ?_⟩
  rw [map_append]
  exact mem_append_right _ hm

section Later

variable {coinbaseTx : MsgTx} (hmaturity : 0 < env.params.coinbaseMaturity.toNat)
  (hspent : Spent env.prim first second coins)
  (happly : applyBlock env height coins (coinbaseTx :: second) = some coins')
  (hcoinbase : isCoinBaseTx coinbaseTx = true)

include hmaturity hspent happly hcoinbase in
/-- A transaction of a block that spends what an earlier one has spent comes after another one that
is repeated. -/
theorem exists_repeated_of_respent {before after : List MsgTx} {tx' : MsgTx}
    (hs : coinbaseTx :: second = before ++ tx :: after) (ho : outpoint ∈ tx.spends)
    (htx' : tx' ∈ first) (ho' : outpoint ∈ tx'.spends) :
    ∃ repeated ∈ before, repeated ∈ second ∧
      repeated.txHash env.prim ∈ first.map (txHash env.prim) := by
  obtain ⟨hg, hor⟩ := hspent tx' htx' outpoint ho'
  rw [hs] at happly
  obtain ⟨coin, hm, hc | ⟨repeated, hr, hc⟩⟩ := exists_coin_of_applyBlock happly ho
  · exact absurd (mem_of_lookup_eq_some hc) hg
  have hh := (mem_coins hc).1
  -- the output of a coinbase is not old enough in the block of the coinbase
  have hme : repeated ∈ second := by
    have ha : repeated ∈ coinbaseTx :: second := by
      rw [hs]
      exact mem_append_left _ hr
    refine (mem_cons.1 ha).resolve_left ?_
    rintro rfl
    have hhe := blockHeight_of_mem_coins hc
    have hi : coin.isCoinBase = true := by
      obtain ⟨out, -, hou⟩ := mem_filterMap.1 hc
      split_ifs at hou
      cases hou
      exact hcoinbase
    have hle := matured_eq_true_iff.1 hm hi
    omega
  refine ⟨repeated, hr, hme, ?_⟩
  rw [← hh]
  refine hor ?_
  rw [hh]
  exact mem_map_of_mem hme

include hmaturity hspent happly hcoinbase in
/-- **No transaction of a block but the coinbase is repeated.** -/
theorem txHash_notMem_of_applyBlock (hi : HashInjective env.prim (first ++ second))
    (hot : ∀ tx ∈ second, isCoinBaseTx tx = false)
    (hsa : ∀ tx ∈ second, checkTransactionSanity tx = .ok ()) :
    ∀ tx ∈ second, tx.txHash env.prim ∉ first.map (txHash env.prim) := by
  -- the first one that is repeated would need an earlier one
  have hb : ∀ n before tx after, before.length = n → coinbaseTx :: second = before ++ tx :: after →
      tx ∈ second → tx.txHash env.prim ∉ first.map (txHash env.prim) := by
    intro n
    induction n using Nat.strong_induction_on with
    | _ n ih =>
      intro before tx after hl hs htx hm
      obtain ⟨tx', htx', hh⟩ := mem_map.1 hm
      obtain ⟨hsp, hne⟩ := respends_of_isCoinBaseTx_eq_false hi (mem_append_left _ htx')
        (mem_append_right _ htx) (hsa tx htx) (hot tx htx) hh
      obtain ⟨o, ho⟩ := exists_mem_of_ne_nil _ hne
      obtain ⟨repeated, hr, hla, ha⟩ := exists_repeated_of_respent hmaturity hspent
        happly hcoinbase hs ho htx' (hsp ▸ ho)
      obtain ⟨before₁, before₂, rfl⟩ := append_of_mem hr
      refine ih before₁.length ?_ before₁ repeated (before₂ ++ tx :: after) rfl ?_ hla ha
      · rw [← hl, length_append, length_cons]
        omega
      · rw [hs, append_assoc, cons_append]
  intro tx htx
  obtain ⟨before, after, hs⟩ := append_of_mem (mem_cons_of_mem coinbaseTx htx)
  exact hb _ before tx after rfl hs htx

end Later

/-! ### Templates -/

section Templates

variable {chain chain' : BlockChain env.prim} {current : CandidatePool} {best : BestLastCandidate}
  {block : Block} {publicKey : Hash33} {signature : Hash64} {scale votes : UInt16}
  {input : TemplateInput} {template : MsgCandidate}

/-- The block is the best candidate of the node, and has passed the checks on its body as every
candidate has. -/
structure IsBestCandidate (env : Env) (chain : BlockChain env.prim) (best : BestLastCandidate)
    (block : Block) : Prop where
  best_eq : chain.bestCandidate = some best
  hash_eq : best.hash = block.hash env.prim
  header_eq : best.header = block.msgBlock.header
  body : checkBody env.prim block.msgBlock = .ok ()

/-- The template as the block that `maybeAcceptBlock` makes of it on top of a node. -/
def templateBlock (template : MsgCandidate) (parent : BlockNode) : Block where
  msgBlock := msgCandidateToBlock template
  height := parent.height + 1

/-- **What a template is for**, when `chain` is the chain with the block it was built on. -/
structure TemplateConnects (env : Env) (chain : BlockChain env.prim) (block : Block)
    (template : MsgCandidate) (votes : UInt16) : Prop where
  accepted : ∃ out, checkConnectBlock env chain.utxoSet
    (newBlockNode env.prim template.header (some chain.tip) votes)
    (templateBlock template chain.tip) (.new chain.tip.hash) = .ok out
  no_respend : ∀ tx ∈ template.transactions, ∀ o ∈ tx.spends,
    ∀ tx' ∈ block.msgBlock.transactions, o ∉ tx'.spends
  no_repeat : ∀ tx ∈ template.transactions, isCoinBaseTx tx = false →
    tx.txHash env.prim ∉ block.msgBlock.transactions.map (txHash env.prim)

theorem checkConnectBlock_of_newBlockTemplate (h : newBlockTemplate env chain current best publicKey
      signature scale input = .ok template) :
    template.transactions = createCoinbaseTx env (best.height + 1) input.pkScript input.totalFees ::
        input.selected ∧
      checkBody env.prim (msgCandidateToBlock template) = .ok () ∧
      ∃ out, checkConnectBlock env chain.utxoSet
        (newBlockNode env.prim template.header (some (newBlockNode env.prim best.header
          (chain.index.lookup best.header.prevBlock) 0)) 0)
        { msgBlock := msgCandidateToBlock template, height := (best.height + 1).toInt }
        (.new best.hash) = .ok out := by
  simp only [newBlockTemplate] at h
  split at h
  · cases h
  · rename_i root hr
    simp only [checkConnectBlockTemplate, bind_eq_ok, pure_eq_ok] at h
    obtain ⟨pi, -, -, ⟨-, -, vb, hs, out, hc, -⟩, rfl⟩ := h
    exact ⟨rfl, (checkCandidateSanity_eq_ok_iff.1 hs).2, out, hc⟩

/-- The node of the template that was checked differs from the one it gets in nothing that
matters. -/
theorem sameNode_newBlockNode (header header' : BlockHeader) (prevNode : BlockNode)
    (votes votes₁ votes₂ votes₃ : UInt16) :
    SameNode
      (newBlockNode prim header (some (newBlockNode prim header' (some prevNode) votes)) votes₁)
      (newBlockNode prim header (some (newBlockNode prim header' (some prevNode) votes₂))
        votes₃) where
  hash_eq := rfl
  height_eq := rfl
  timestamp_eq := rfl
  parent _ hp := by
    cases hp
    exact ⟨_, rfl, rfl⟩

theorem connected_of_maybeAcceptBlock
    (h : maybeAcceptBlock env chain block = .ok (chain', .ok true)) :
    ∃ prevNode out, chain.index.lookup block.msgBlock.header.prevBlock = some prevNode ∧
      checkConnectBlock env chain.utxoSet (nodeOn env prevNode block)
        { block with height := prevNode.height + 1 } (.new chain.tip.hash) = .ok out ∧
      chain'.utxoSet = chain.utxoSet.putUtxoView out.1 ∧
      chain'.tip = nodeOn env prevNode block := by
  cases accepts_of_maybeAcceptBlock h with
  | connected hp _ ht hc =>
    rw [ht] at hc
    exact ⟨_, _, hp, hc, rfl, rfl⟩

section Accepted

variable (hbip : env.params.bip0034Height ≤ 0) (hbest : IsBestCandidate env chain best block)
  (htemplate : newBlockTemplate env chain current best publicKey signature scale input =
    .ok template)
  (haccept : maybeAcceptBlock env chain block = .ok (chain', .ok true))
  (hstored : chain.utxoSet.Stored)

include hbip hbest haccept hstored in
theorem exists_applyBlock_of_maybeAcceptBlock :
    ∃ height, applyBlock env height chain.utxoSet block.msgBlock.transactions =
      some chain'.utxoSet := by
  obtain ⟨prevNode, ⟨view, stxos⟩, -, hc, hu, -⟩ := connected_of_maybeAcceptBlock haccept
  have hs : BodySane env.prim ({ block with height := prevNode.height + 1 } : Block).msgBlock :=
    bodySane_of_checkBody hbest.body
  have happly := applyBlock_of_checkConnectBlock (hbip.trans (Int.natCast_nonneg _)) hstored hs hc
  rw [hu]
  exact ⟨_, happly⟩

include hbip htemplate in
theorem applyBlock_template {utxoSet' : UtxoSet} {node tip : BlockNode} {blockHeight : Int}
    {out : UtxoViewpoint × List SpentTxOut} (hs' : utxoSet'.Stored)
    (h : checkConnectBlock env utxoSet' node
      { msgBlock := msgCandidateToBlock template, height := blockHeight } (.new tip.hash) =
        .ok out) :
    applyBlock env node.height utxoSet' template.transactions =
      some (utxoSet'.putUtxoView out.1) := by
  have hsa : BodySane env.prim
      ({ msgBlock := msgCandidateToBlock template, height := blockHeight } : Block).msgBlock :=
    bodySane_of_checkBody (checkConnectBlock_of_newBlockTemplate htemplate).2.1
  exact applyBlock_of_checkConnectBlock (hbip.trans (Int.natCast_nonneg _)) hs' hsa h

include hbip hbest htemplate haccept hstored in
/-- **When a template is accepted** on top of the best candidate. -/
theorem accepted_iff (hfr : ∀ o ∈ chain.utxoSet,
      o.hash ∉ block.msgBlock.transactions.map (txHash env.prim)) :
    (∃ out, checkConnectBlock env chain'.utxoSet
      (newBlockNode env.prim template.header (some chain'.tip) votes)
      (templateBlock template chain'.tip) (.new chain'.tip.hash) = .ok out) ↔
    ∀ o, FromOutside env.prim template.transactions o →
      ∀ tx ∈ block.msgBlock.transactions, o ∉ tx.spends := by
  obtain ⟨-, hb, out, hc⟩ := checkConnectBlock_of_newBlockTemplate htemplate
  obtain ⟨prevNode, ⟨view, stxos⟩, hp, hco, hu, ht⟩ := connected_of_maybeAcceptBlock haccept
  have hh : chain'.tip.hash = best.hash := by
    rw [ht, hbest.hash_eq]
    rfl
  have hsa := bodySane_of_checkBody hb
  rw [hbest.header_eq, hp] at hc
  constructor
  · rintro ⟨⟨view', stxos'⟩, ha⟩ o hf tx htx ho
    -- what the template loads is there after the candidate, so the candidate does not spend it
    obtain ⟨height, happly⟩ := exists_applyBlock_of_maybeAcceptBlock hbip hbest haccept hstored
    have hstored' : chain'.utxoSet.Stored := by
      rw [hu]
      exact stored_putUtxoView hstored
    have hm := mem_of_fromOutside (applyBlock_template hbip htemplate hstored' ha) hf
    exact (notMem_of_applyBlock happly (bodySane_of_checkBody hbest.body).txHash_nodup hfr htx
      ho).1 hm
  · intro hs
    rw [hh, ht, hu]
    refine exists_checkConnectBlock_of_agree hc (hbip.trans (Int.natCast_nonneg _)) hsa
      (sameNode_newBlockNode _ _ prevNode 0 0 block.votes votes) rfl fun o hf => ?_
    -- the template was accepted against the database before the candidate
    have hm : o ∈ chain.utxoSet := by
      obtain ⟨view', stxos'⟩ := out
      rw [← hh] at hc
      exact mem_of_fromOutside (applyBlock_template hbip htemplate hstored hc) hf
    rw [lookup_putUtxoView_of_checkConnectBlock hco (hbip.trans (Int.natCast_nonneg _)) hstored
      hm ?_, if_neg ?_]
    · intro hm'
      obtain ⟨tx, htx, ho⟩ := mem_flatMap.1 hm'
      exact hs o hf tx htx ho
    · intro hcr
      obtain ⟨tx, htx, hou⟩ := mem_flatMap.1 hcr
      obtain ⟨⟨_, coin⟩, hcn, rfl⟩ := mem_map.1 hou
      refine hfr _ hm ?_
      rw [(mem_coins hcn).1]
      exact mem_map_of_mem htx

include hbip hbest htemplate haccept hstored in
theorem templateConnects_of_accepted (hmaturity : 0 < env.params.coinbaseMaturity.toNat)
    (hc : NoCollision env.prim chain.utxoSet
      (block.msgBlock.transactions ++ template.transactions.tail))
    (ha : ∃ out, checkConnectBlock env chain'.utxoSet
      (newBlockNode env.prim template.header (some chain'.tip) votes)
      (templateBlock template chain'.tip) (.new chain'.tip.hash) = .ok out) :
    TemplateConnects env chain' block template votes := by
  obtain ⟨-, hb, -⟩ := checkConnectBlock_of_newBlockTemplate htemplate
  obtain ⟨prevNode, out, -, -, hu, -⟩ := connected_of_maybeAcceptBlock haccept
  obtain ⟨height, hf⟩ := exists_applyBlock_of_maybeAcceptBlock hbip hbest haccept hstored
  have hn := (bodySane_of_checkBody hbest.body).txHash_nodup
  have hsa := bodySane_of_checkBody hb
  obtain ⟨coinbaseTx, txs, htr, hcoinbase, hot⟩ := hsa.first_coinbase
  have ht : template.transactions = coinbaseTx :: txs := htr
  rw [ht, tail_cons] at hc
  have hstored' : chain'.utxoSet.Stored := by
    rw [hu]
    exact stored_putUtxoView hstored
  obtain ⟨⟨view', stxos'⟩, ha'⟩ := ha
  have hs := applyBlock_template hbip htemplate hstored' ha'
  rw [ht] at hs
  have hspent := spent_of_applyBlock hc hn hf
  have hr := txHash_notMem_of_applyBlock hmaturity hspent hs hcoinbase hc.injective
    hot fun tx htx => hsa.transaction_sane tx (htr ▸ mem_cons_of_mem _ htx)
  refine ⟨⟨_, ha'⟩, fun tx htx o ho tx' htx' ho' => ?_, fun tx htx hor => ?_⟩
  · rw [ht] at htx
    obtain ⟨before, after, hsp⟩ := append_of_mem htx
    obtain ⟨repeated, -, hm, hag⟩ := exists_repeated_of_respent hmaturity hspent hs
      hcoinbase hsp ho htx' ho'
    exact hr repeated hm hag
  · rw [ht] at htx
    refine hr tx ((mem_cons.1 htx).resolve_left ?_)
    rintro rfl
    exact absurd (hcoinbase.symm.trans hor) Bool.true_eq_false.mp

include hbip hbest htemplate haccept hstored in
/-- A template connects if and only if the best candidate spends nothing that the template loads. -/
theorem TemplateConnects.iff_fromOutside (hmaturity : 0 < env.params.coinbaseMaturity.toNat)
    (hc : NoCollision env.prim chain.utxoSet
      (block.msgBlock.transactions ++ template.transactions.tail)) :
    TemplateConnects env chain' block template votes ↔
      ∀ o, FromOutside env.prim template.transactions o →
        ∀ tx ∈ block.msgBlock.transactions, o ∉ tx.spends := by
  have ha := @accepted_iff env chain chain' current best block publicKey signature scale
    votes input template hbip hbest htemplate haccept hstored
    hc.fresh_left
  constructor
  · intro h
    exact ha.1 h.accepted
  · intro h
    exact templateConnects_of_accepted hbip hbest htemplate haccept hstored hmaturity hc (ha.2 h)

end Accepted

end Templates

/-- **Which templates connect**: those that load none of the outputs that the best candidate spends.
-/
theorem templateConnects_iff {prim : Primitives} {genesisBlock : MsgBlock}
    {chain chain' : BlockChain prim} {current : CandidatePool} {best : BestLastCandidate}
    {block : Block} {publicKey : Hash33} {signature : Hash64} {scale votes : UInt16}
    {input : TemplateInput} {template : MsgCandidate}
    (hbest : IsBestCandidate (.mainNet prim genesisBlock) chain best block)
    (htemplate : newBlockTemplate (.mainNet prim genesisBlock) chain current best publicKey
      signature scale input = .ok template)
    (haccept : maybeAcceptBlock (.mainNet prim genesisBlock) chain block =
      .ok (chain', .ok true)) (hstored : chain.utxoSet.Stored)
    (hcollision : NoCollision prim chain.utxoSet
      (block.msgBlock.transactions ++ template.transactions.tail)) :
    TemplateConnects (.mainNet prim genesisBlock) chain' block template votes ↔
      ∀ o, FromOutside prim template.transactions o →
        ∀ tx ∈ block.msgBlock.transactions, o ∉ tx.spends := by
  have hmaturity : 0 < (Env.mainNet prim genesisBlock).params.coinbaseMaturity.toNat := by
    change 0 < (100 : UInt16).toNat
    decide
  exact TemplateConnects.iff_fromOutside le_rfl hbest htemplate haccept hstored hmaturity hcollision

/-! ### A transaction that is included again -/

/-- A block on top of the genesis block with the given transactions after the coinbase. -/
def candidateBlock (transactions : List MsgTx) : Block where
  msgBlock :=
    { header := sampleHeader sampleEnv.genesisHash
        ((merkleRoot sampleEnv.prim (sampleCoinbase 1 :: transactions)).getD 0) 1
      transactions := sampleCoinbase 1 :: transactions }

/-- The block as the best candidate of the last round. -/
def candidateBest (transactions : List MsgTx) : BestLastCandidate where
  hash := (candidateBlock transactions).hash sampleEnv.prim
  height := 1
  header := (candidateBlock transactions).msgBlock.header
  votes := 1

/-- The chain with the genesis block, in the round after. -/
def candidateChain (transactions : List MsgTx) : BlockChain sampleEnv.prim :=
  { createChainState sampleEnv with
    utxoSet := storedUtxos
    bestCandidate := some (candidateBest transactions) }

/-- What a template takes from a memory pool with one transaction, a payment from the output of the
database without a fee. -/
def candidateInput : TemplateInput :=
  selectInput sampleEnv storedUtxos ⟨[⟨samplePayment [storedOutPoint] 5, 0, 0⟩], []⟩
    ⟨10000, 3000000, 50000, 1000⟩ ⟨fun _ items => items, fun _ _ => List.Perm.refl _⟩ 2 10 [0x51]

/-- The template includes a transaction of the best candidate again, and is rejected. -/
theorem candidateTemplate_not_connects :
    IsBestCandidate sampleEnv (candidateChain [samplePayment [storedOutPoint] 5])
      (candidateBest [samplePayment [storedOutPoint] 5])
      (candidateBlock [samplePayment [storedOutPoint] 5]) ∧
    ∃ template chain',
      newBlockTemplate sampleEnv (candidateChain [samplePayment [storedOutPoint] 5]) ∅
        (candidateBest [samplePayment [storedOutPoint] 5]) 0 0 1 candidateInput = .ok template ∧
      maybeAcceptBlock sampleEnv (candidateChain [samplePayment [storedOutPoint] 5])
        (candidateBlock [samplePayment [storedOutPoint] 5]) = .ok (chain', .ok true) ∧
      samplePayment [storedOutPoint] 5 ∈ template.transactions ∧
      ¬TemplateConnects sampleEnv chain' (candidateBlock [samplePayment [storedOutPoint] 5])
        template 0 := by
  have hc : (newBlockTemplate sampleEnv (candidateChain [samplePayment [storedOutPoint] 5]) ∅
      (candidateBest [samplePayment [storedOutPoint] 5]) 0 0 1 candidateInput).map (fun template =>
        (maybeAcceptBlock sampleEnv (candidateChain [samplePayment [storedOutPoint] 5])
          (candidateBlock [samplePayment [storedOutPoint] 5])).map fun accepted =>
          (accepted.2, (checkConnectBlock sampleEnv accepted.1.utxoSet
            (newBlockNode sampleEnv.prim template.header (some accepted.1.tip) 0)
            (templateBlock template accepted.1.tip) (.new accepted.1.tip.hash)).map fun _ => ())) =
      .ok (.ok (.ok true, .error (.error (.ruleError .errMissingTxOut)))) := by
    decide +kernel
  have hs : candidateInput.selected = [samplePayment [storedOutPoint] 5] := by
    decide +kernel
  obtain ⟨template, htemplate, hc⟩ := map_eq_ok.1 hc
  obtain ⟨⟨chain', result⟩, haccept, hc⟩ := map_eq_ok.1 hc
  obtain ⟨rfl, hr⟩ := Prod.mk.inj hc
  refine ⟨⟨rfl, rfl, rfl, by decide +kernel⟩, template, chain', htemplate, haccept, ?_, ?_⟩
  · rw [(checkConnectBlock_of_newBlockTemplate htemplate).1, hs]
    exact mem_cons_of_mem _ mem_cons_self
  · intro hco
    obtain ⟨out, ho⟩ := hco.accepted
    rw [ho] at hr
    cases hr

/-- The best candidate has no transaction but the coinbase, and the template has the payment. -/
theorem templateConnects_candidateBlock : ∃ template chain',
      newBlockTemplate sampleEnv (candidateChain []) ∅ (candidateBest []) 0 0 1 candidateInput =
        .ok template ∧
      maybeAcceptBlock sampleEnv (candidateChain []) (candidateBlock []) =
        .ok (chain', .ok true) ∧
      samplePayment [storedOutPoint] 5 ∈ template.transactions ∧
      TemplateConnects sampleEnv chain' (candidateBlock []) template 0 := by
  have hch : (newBlockTemplate sampleEnv (candidateChain []) ∅ (candidateBest []) 0 0 1
      candidateInput).map (fun _ => ()) = .ok () := by
    decide +kernel
  have ha : (maybeAcceptBlock sampleEnv (candidateChain [])
      (candidateBlock [])).map Prod.snd = .ok (.ok true) := by
    decide +kernel
  have hs : candidateInput.selected = [samplePayment [storedOutPoint] 5] := by
    decide +kernel
  obtain ⟨template, htemplate, -⟩ := map_eq_ok.1 hch
  obtain ⟨⟨chain', result⟩, haccept, rfl⟩ := map_eq_ok.1 ha
  have ht := (checkConnectBlock_of_newBlockTemplate htemplate).1
  rw [hs] at ht
  have hne : (sampleCoinbase 1).txHash .polynomial ≠
      (samplePayment [storedOutPoint] 5).txHash .polynomial := by
    decide +kernel
  have hc : NoCollision .polynomial storedUtxos ((candidateBlock []).msgBlock.transactions ++
      template.transactions.tail) := by
    rw [ht, tail_cons]
    constructor
    · intro o ho
      obtain ⟨coin, hco⟩ := mem_iff.1 ho
      rw [(lookup_storedUtxos hco).1]
      simp only [candidateBlock, cons_append, nil_append, map_cons, map_nil,
        mem_cons, not_mem_nil, or_false, not_or]
      decide +kernel
    · rintro tx (- | ⟨-, (- | ⟨-, ⟨⟩⟩)⟩) tx' (- | ⟨-, (- | ⟨-, ⟨⟩⟩)⟩) hh
      · rfl
      · exact absurd hh hne
      · exact absurd hh.symm hne
      · rfl
  refine ⟨template, chain', htemplate, haccept, ?_, (@templateConnects_iff .polynomial
    sampleEnv.params.genesisBlock _ _ _ _ _ _ _ _ _ _ _ ⟨rfl, rfl, rfl, by decide +kernel⟩ htemplate
    haccept stored_storedUtxos hc).2 ?_⟩
  · rw [ht]
    exact mem_cons_of_mem _ mem_cons_self
  · intro o _ tx htx ho
    rw [List.mem_singleton.1 htx] at ho
    cases ho

end DrcNode
