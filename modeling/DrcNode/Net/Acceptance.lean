import DrcNode.Chain.SaneChain
import DrcNode.Net.Manager

/-!
# Which candidates and blocks are accepted

A candidate is made by the miner of one node and checked by `ProcessCandidate` on the others. Both
compute the threshold from the same window, so a candidate that is made passes all checks on a node
in the same state but one: it has to extend a block in the pool of the last round. In a round on top
of the genesis block the best candidate is not there, and nobody accepts what is produced. The scale
in the header is not compared with anything: whoever makes a candidate chooses the scale that later
decides about the votes for it.

## Main results

* `processCandidate_accepts_produced_iff`.
* `accepted_weight_lt`: what is compared with what.
-/

namespace DrcNode

open BlockChain

variable {env : Env} {privKey : PrivateKey}
  {node : Node env.prim} {chain chain' : BlockChain env.prim} {current : CandidatePool}
  {votes : UInt16} {best : BestLastCandidate} {check : Check Unit} {block : Block} {pools : Pools}
  {isMainChain : Bool}

/-! ### The best candidate -/

/-- The best candidate that an election leaves: the genesis block, or a candidate of the pool with
enough votes. -/
theorem elect_cases {hash : Hash} (h : elect env current hash votes = .ok best) :
    (best.hash = env.genesisHash ∧ best.header = env.params.genesisBlock.header) ∨
      ∃ msgCandidate, current.lookup hash = some msgCandidate ∧
        isEnough votes msgCandidate.header.scale = true ∧
        best = electedCandidate msgCandidate hash votes := by
  rw [elect] at h
  split_ifs at h with hem
  · cases h
    exact .inl ⟨rfl, rfl⟩
  split at h
  · cases h
  rename_i msgCandidate hl
  split_ifs at h with he
  · cases h
    exact .inr ⟨msgCandidate, hl, he, rfl⟩
  · cases h
    exact .inl ⟨rfl, rfl⟩

theorem bestCandidate_process {result : Except GoError Outcome}
    (h : BlockChain.process env check block chain = .ok (chain', result)) :
    chain'.bestCandidate = chain.bestCandidate := by
  refine process_invariant (P := fun c => c.bestCandidate = chain.bestCandidate) rfl
    (fun _ _ _ => rfl) (fun _ ha => (accepts_of_maybeAcceptBlock ha).bestCandidate_eq) ?_ h
  exact fun hP _ ha => (accepts_of_maybeAcceptBlock ha).bestCandidate_eq.trans hP

theorem bestCandidate_commit {pointOrder : Order (List MsgCandidate)}
    (h : commit env chain pools votes pointOrder = .ok chain') :
    chain'.bestCandidate = chain.bestCandidate := by
  obtain rfl | ⟨prevCandidate, result, -, hp⟩ := commit_cases h
  · rfl
  · exact bestCandidate_process hp

theorem Moves.bestCandidate_eq {event : Event} {node' : Node env.prim}
    (h : Moves env privKey node event node') (he : event.isRoundEnd = false) :
    node'.chain.bestCandidate = node.chain.bestCandidate := by
  cases h with
  | handed hp => exact bestCandidate_process hp
  | synced _ hp => exact bestCandidate_process hp
  | ended => cases he
  | _ => rfl

/-! ### Candidates of the miner -/

/-- **When a candidate that is produced is accepted** by a node in the same state: when the best
candidate is in the pool of the last round. -/
theorem processCandidate_accepts_produced_iff (hsign : env.prim.SignVerifies)
    {sender receiver : Node env.prim} {best : BestLastCandidate} {input : GenerateInput}
    {bestHash : Hash} {msgCandidate : MsgCandidate}
    (hsender : sender.chain.bestCandidate = some best)
    (hreceiver : receiver.chain.bestCandidate = some best)
    (hindex : receiver.chain.index = sender.chain.index)
    (hprev : receiver.pools.prev = sender.pools.prev)
    (hgenerated : generateBlocks env sender.chain sender.pools.current privKey input =
      .ok (.candidate bestHash msgCandidate))
    (hcurrent : msgCandidate.blockHash env.prim ∉ receiver.pools.current)
    (horphan : msgCandidate.blockHash env.prim ∉ receiver.chain.orphanPool.orphans) :
    (∃ pools vb, processCandidate env receiver.chain receiver.pools msgCandidate =
        .ok (pools, .ok vb)) ↔ best.hash ∈ sender.pools.prev := by
  obtain ⟨best', -, hp⟩ := produced_of_generateBlocks hgenerated
  obtain rfl : best = best' := Option.some.inj (hsender.symm.trans hp.best_eq)
  refine ⟨?_, fun hm => ?_⟩
  · rintro ⟨pools, vb, hpr⟩
    obtain ⟨_, ha, -⟩ := processCandidate_eq_ok_iff.1 hpr
    rw [← hprev, ← hp.prevBlock_eq]
    exact ha.prev_mem
  · -- the window, the seed and the threshold are those the miner has used
    obtain ⟨pi, hpi, hw⟩ := hp.weight_lt
    obtain ⟨pubKey, hpk, hv⟩ :=
      hsign privKey input.rand (env.prim.doubleHash64 best.header.signature)
    rw [← hp.publicKey_eq] at hpk
    rw [← hp.signature_eq] at hv
    obtain ⟨vb, hh⟩ : ∃ vb, checkBlockHeaderSanity env.prim receiver.pools.current
        msgCandidate.header (env.prim.doubleHash64 best.header.signature) pi = .ok vb :=
      ⟨_, checkBlockHeaderSanity_eq_ok_iff.2 ⟨⟨pubKey, hpk, hv⟩, hw, rfl⟩⟩
    have hs := checkCandidateSanity_eq_ok_iff.2 ⟨hh, hp.body⟩
    refine ⟨_, vb, processCandidate_eq_ok_iff.2
      ⟨best, ⟨hreceiver, hcurrent, horphan, ⟨pi, ?_, hs⟩, ?_⟩, rfl⟩⟩
    · rw [hindex]
      exact hpi
    · rw [hp.prevBlock_eq, hprev]
      exact hm

/-! ### The scale of what is accepted -/

/-- A candidate with another scale in its header. -/
def MsgCandidate.withScale (msgCandidate : MsgCandidate) (scale : UInt16) : MsgCandidate :=
  { msgCandidate with header := { msgCandidate.header with scale } }

/-- The checks on a candidate do not read its scale. -/
theorem BlockChain.CandidateAccepted.withScale {msgCandidate : MsgCandidate} {vb : Bool}
    (h : CandidateAccepted env chain pools msgCandidate best vb) {scale : UInt16}
    (hf : (msgCandidate.withScale scale).blockHash env.prim ∉ pools.current)
    (ho : (msgCandidate.withScale scale).blockHash env.prim ∉ chain.orphanPool.orphans) :
    CandidateAccepted env chain pools (msgCandidate.withScale scale) best vb := by
  obtain ⟨pi, hpi, hs⟩ := h.sane
  obtain ⟨hh, hb⟩ := checkCandidateSanity_eq_ok_iff.1 hs
  refine ⟨h.best_eq, hf, ho, ⟨pi, hpi, checkCandidateSanity_eq_ok_iff.2 ⟨?_, ?_⟩⟩, h.prev_mem⟩
  · exact checkBlockHeaderSanity_eq_ok_iff.2 (checkBlockHeaderSanity_eq_ok_iff.1 hh)
  · exact (checkBody_congr rfl rfl).trans hb

theorem process_accepted
    (h : BlockChain.process env check block chain = .ok (chain', .ok (.accepted isMainChain))) :
    check = .ok () ∧ ∃ prevNode,
      chain.index.lookup block.msgBlock.header.prevBlock = some prevNode ∧
      checkBlockContext env.prim { block with height := prevNode.height + 1 } prevNode =
        .ok () := by
  generalize hr : Except.ok (Outcome.accepted isMainChain) = result at h
  cases processes_of_process h with
  | rejected | orphaned | failed => cases hr
  | accepted hp ha =>
    refine ⟨hp.checked, ?_⟩
    cases accepts_of_maybeAcceptBlock ha with
    | connected hpr hc => exact ⟨_, hpr, hc⟩

/-- The threshold of a block is that of the scale it declares, and that of the window of its
parent. -/
theorem processBlock_accepted
    (h : processBlock env current block chain = .ok (chain', .ok (.accepted isMainChain))) :
    ∃ prevNode, chain.index.lookup block.msgBlock.header.prevBlock = some prevNode ∧
      (∃ pi, blockVerge (headerContextWindow prevNode).estimate = .ok pi ∧
        env.prim.weight block.msgBlock.header.signature < pi) ∧
      ∃ pi, blockVerge block.msgBlock.header.scale = .ok pi ∧
        env.prim.weight block.msgBlock.header.signature < pi := by
  obtain ⟨hch, prevNode, hp, hc⟩ := process_accepted h
  refine ⟨prevNode, hp, ?_, ?_⟩
  · rw [checkBlockContext, Checked.bind_eq_ok] at hc
    obtain ⟨⟨⟩, hh, -⟩ := hc
    exact (checkBlockHeaderContext_eq_ok_iff.1 hh).2.1
  · simp only [processBlockCheck, hp, Checked.bind_eq_ok, Check.ofPanic_eq_ok,
      checkBlockSanity] at hch
    obtain ⟨pi, hpi, vb, hh, -⟩ := hch
    exact ⟨pi, hpi, (checkBlockHeaderSanity_eq_ok_iff.1 hh).2.1⟩

/-- **What acceptance says about the weight and the scale.** A weight is compared with the threshold
that the node computes itself, and for a block also with that of the scale it declares; the scale of
a candidate is not looked at. -/
theorem accepted_weight_lt (chain : BlockChain env.prim) (pools : Pools) :
    (∀ msgCandidate pools' vb,
        processCandidate env chain pools msgCandidate = .ok (pools', .ok vb) →
        (∃ best pi, chain.bestCandidate = some best ∧
          blockVerge (processCandidateWindow chain.index best).estimate = .ok pi ∧
          env.prim.weight msgCandidate.header.signature < pi) ∧
        ∀ scale, (msgCandidate.withScale scale).blockHash env.prim ∉ pools.current →
          (msgCandidate.withScale scale).blockHash env.prim ∉ chain.orphanPool.orphans →
          ∃ pools'', processCandidate env chain pools (msgCandidate.withScale scale) =
            .ok (pools'', .ok vb)) ∧
      ∀ block chain' isMainChain,
        processBlock env pools.current block chain = .ok (chain', .ok (.accepted isMainChain)) →
        ∃ prevNode, chain.index.lookup block.msgBlock.header.prevBlock = some prevNode ∧
          (∃ pi, blockVerge (headerContextWindow prevNode).estimate = .ok pi ∧
            env.prim.weight block.msgBlock.header.signature < pi) ∧
          ∃ pi, blockVerge block.msgBlock.header.scale = .ok pi ∧
            env.prim.weight block.msgBlock.header.signature < pi := by
  refine ⟨fun msgCandidate pools' vb h => ?_, fun _ _ _ h => processBlock_accepted h⟩
  obtain ⟨best, ha, -⟩ := processCandidate_eq_ok_iff.1 h
  obtain ⟨pi, hpi, hs⟩ := ha.sane
  obtain ⟨hh, -⟩ := checkCandidateSanity_eq_ok_iff.1 hs
  refine ⟨⟨best, pi, ha.best_eq, hpi, (checkBlockHeaderSanity_eq_ok_iff.1 hh).2.1⟩,
    fun scale hf ho => ?_⟩
  exact ⟨_, processCandidate_eq_ok_iff.2 ⟨best, ha.withScale hf ho, rfl⟩⟩

/-! ### A node that mines alone -/

/-- The key of the node. -/
def sampleKey : PrivateKey := 7

/-- A round of the worker at the given time, without transactions. -/
def sampleInput (time : Int) : GenerateInput where
  rand := 0
  isCurrent := true
  template := { pkScript := [0x51], selected := [], totalFees := 0, adjustedTime := time }
  solvedTime := time

/-- The candidate that the node makes on top of the best one, with the given scale. -/
def sampleCandidate (best : BestLastCandidate) (scale : UInt16) (time : Int) : MsgCandidate :=
  let coinbaseTx := createCoinbaseTx sampleEnv (best.height + 1) [0x51] 0
  { header :=
      { version := nextBlockVersion
        prevBlock := best.hash
        merkleRoot := coinbaseTx.txHash sampleEnv.prim
        timestamp := time
        signature := sampleEnv.prim.sign64 sampleKey 0
          (sampleEnv.prim.doubleHash64 best.header.signature)
        publicKey := sampleEnv.prim.pubKey sampleKey
        scale
        reserved := 0 }
    transactions := [coinbaseTx]
    sigwit := ⟨best.height + 1⟩ }

/-- The first candidate of the network. -/
def firstCandidate : MsgCandidate := sampleCandidate (genesisCandidate sampleEnv) 1 10

def firstHash : Hash := firstCandidate.blockHash sampleEnv.prim

/-- A ticket for a block, with the given key. -/
def sampleTicket (key : PrivateKey) (hash : Hash) : SignAndKey :=
  ⟨sampleEnv.prim.sign64 key 0 hash, sampleEnv.prim.pubKey key⟩

/-- The tickets for a block with one key and others. -/
def sampleTickets (hash : Hash) (key : PrivateKey) (others : List PrivateKey) :
    Sigma fun _ : Hash => Tickets :=
  ⟨hash, ⟨sampleTicket key hash :: others.map (sampleTicket · hash), List.cons_ne_nil _ _⟩⟩

/-- The first candidate as the best one, elected with the vote of its producer. -/
def firstBest : BestLastCandidate := electedCandidate firstCandidate firstHash 1

/-- The candidate that the node makes in the next round. -/
def secondCandidate : MsgCandidate := sampleCandidate firstBest 1 20

/-- An empty round, and a round in which the node makes the first candidate and votes for it. -/
def firstRounds : List Event :=
  [.roundEnd [] [], .generate (sampleInput 10), .submit [] 0,
    .roundEnd [sampleTickets firstHash sampleKey []] [⟨sampleEnv.genesisHash, [firstCandidate]⟩]]

/-- Two nodes after an empty round: one makes the first candidate, and the other rejects it. -/
theorem firstCandidate_rejected : ∃ node, Reachable sampleEnv sampleKey {} [.roundEnd [] []] node ∧
    node.chain.bestCandidate = some (genesisCandidate sampleEnv) ∧
    generateBlocks sampleEnv node.chain node.pools.current sampleKey (sampleInput 10) =
      .ok (.candidate sampleEnv.genesisHash firstCandidate) ∧
    firstHash ∉ node.pools.current ∧ firstHash ∉ node.chain.orphanPool.orphans ∧
    processCandidate sampleEnv node.chain node.pools firstCandidate =
      .ok (node.pools, .error (.ruleError .errDuplicateBlock)) :=
  Runs.exists_run (by decide +kernel)

/-- After a round that has elected the first candidate, the next one is accepted. -/
theorem secondCandidate_accepted : ∃ node, Reachable sampleEnv sampleKey {} firstRounds node ∧
    node.chain.bestCandidate = some firstBest ∧ firstBest.hash ∈ node.pools.prev ∧
    generateBlocks sampleEnv node.chain node.pools.current sampleKey (sampleInput 20) =
      .ok (.candidate firstHash secondCandidate) ∧
    ∃ pools vb, processCandidate sampleEnv node.chain node.pools secondCandidate =
      .ok (pools, .ok vb) := by
  refine Runs.exists_run_of (P := fun node =>
    node.chain.bestCandidate = some firstBest ∧ firstBest.hash ∈ node.pools.prev ∧
    generateBlocks sampleEnv node.chain node.pools.current sampleKey (sampleInput 20) =
      .ok (.candidate firstHash secondCandidate) ∧
    secondCandidate.blockHash sampleEnv.prim ∉ node.pools.current ∧
    secondCandidate.blockHash sampleEnv.prim ∉ node.chain.orphanPool.orphans)
    (by decide +kernel) ?_
  rintro node - ⟨hb, hm, hg, hc, ho⟩
  exact ⟨hb, hm, hg,
    (processCandidate_accepts_produced_iff Primitives.polynomial_signVerifies hb hb rfl rfl
      hg hc ho).2 hm⟩

/-- A block on top of the genesis block that declares a scale of five. -/
def fiveScaleBlock : MsgBlock :=
  { sampleBlock with header := { sampleBlock.header with scale := 5 } }

/-- A node that estimates a scale of one accepts a candidate with a scale of 500, and a block with a
scale of five. -/
theorem declaredScale_accepted : (∃ node, Reachable sampleEnv sampleKey {} firstRounds node ∧
      node.chain.bestCandidate = some firstBest ∧
      (processCandidateWindow node.chain.index firstBest).estimate = 1 ∧
      processCandidate sampleEnv node.chain node.pools (secondCandidate.withScale 500) =
        .ok (node.pools.addCandidate sampleEnv.prim firstHash (secondCandidate.withScale 500),
          .ok true)) ∧
    ∃ node, Reachable sampleEnv sampleKey {} [] node ∧
      node.chain.index.lookup fiveScaleBlock.header.prevBlock = some node.chain.tip ∧
      (headerContextWindow node.chain.tip).estimate = 1 ∧
      (processBlock sampleEnv node.pools.current { msgBlock := fiveScaleBlock } node.chain).map
        Prod.snd = .ok (.ok (.accepted true)) :=
  ⟨Runs.exists_run (by decide +kernel), Runs.exists_run (by decide +kernel)⟩

/-- What is known of the second candidate and of a block on top of the genesis block once they are
accepted. -/
theorem sample_accepted_weight_lt : (∃ node, Reachable sampleEnv sampleKey {} firstRounds node ∧
      (∃ best pi, node.chain.bestCandidate = some best ∧
        blockVerge (processCandidateWindow node.chain.index best).estimate = .ok pi ∧
        sampleEnv.prim.weight secondCandidate.header.signature < pi) ∧
      ∃ pools, processCandidate sampleEnv node.chain node.pools (secondCandidate.withScale 500) =
        .ok (pools, .ok true)) ∧
    ∃ prevNode, (createChainState sampleEnv).index.lookup fiveScaleBlock.header.prevBlock =
        some prevNode ∧
      (∃ pi, blockVerge (headerContextWindow prevNode).estimate = .ok pi ∧
        sampleEnv.prim.weight fiveScaleBlock.header.signature < pi) ∧
      ∃ pi, blockVerge fiveScaleBlock.header.scale = .ok pi ∧
        sampleEnv.prim.weight fiveScaleBlock.header.signature < pi := by
  constructor
  · refine Runs.exists_run_of (P := fun node =>
      processCandidate sampleEnv node.chain node.pools secondCandidate =
        .ok (node.pools.addCandidate sampleEnv.prim firstHash secondCandidate, .ok true) ∧
      (secondCandidate.withScale 500).blockHash sampleEnv.prim ∉ node.pools.current ∧
      (secondCandidate.withScale 500).blockHash sampleEnv.prim ∉ node.chain.orphanPool.orphans)
      (by decide +kernel) ?_
    rintro node - ⟨ha, hf, ho⟩
    obtain ⟨hw, hs⟩ := (accepted_weight_lt node.chain node.pools).1 _ _ _ ha
    exact ⟨hw, hs 500 hf ho⟩
  · have ha : (processBlock sampleEnv ∅ { msgBlock := fiveScaleBlock }
        (createChainState sampleEnv)).map Prod.snd = .ok (.ok (.accepted true)) := by
      decide +kernel
    obtain ⟨⟨chain, result⟩, hp, hr⟩ := Checked.map_eq_ok.1 ha
    cases hr
    exact (accepted_weight_lt (createChainState sampleEnv) ⟨∅, ∅, ∅⟩).2
      { msgBlock := fiveScaleBlock } chain true hp

end DrcNode
