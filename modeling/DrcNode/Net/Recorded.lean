import DrcNode.Net.Tickets

/-!
# The votes recorded with a block

The estimate of the size of the network is taken over the votes of the last blocks. These are not in
the headers: they are set on a block when it is handed to the chain. A block that arrives by
synchronisation or in a block message is handed over with no votes, and one that is committed at the
end of a round with those of the candidate that leads in that round, which is one on top of it. So
two nodes with the same best chain agree about the estimate when they have handed each of its blocks
over with the same count.

## Main results

* `committed_votes`, `thresholds_agree`.
-/

namespace DrcNode

open List Runs BlockNode

open BlockChain

variable {env : Env} {privKey : PrivateKey} {startup : Startup} {events : List Event}
  {node node' : Node env.prim}

/-! ### The blocks handed to the chain -/

/-- The block that an event hands to the chain, with the votes set on it. -/
def handedBlock (env : Env) (node : Node env.prim) : Event → Option (Hash × UInt16)
  | .block msgBlock => some (msgBlock.header.blockHash env.prim, 0)
  | .syncBlock msg =>
      if msg.typeParameter = 1 then some (msg.msgCandidate.blockHash env.prim, 0) else none
  | .roundEnd order pointOrder =>
      match getMaxVotes env.prim node.pools.current order with
      | .ok (_, votes) => (roundBlock node.pools.prev pointOrder).map fun prevCandidate =>
          (prevCandidate.blockHash env.prim, votes)
      | .error _ => none
  | _ => none

/-- The blocks that are handed to the chain along the events, with their votes. -/
def handings (env : Env) (privKey : PrivateKey) (startup : Startup) (events : List Event) :
    List (Hash × UInt16) :=
  outputs (step env privKey) (handedBlock env) (Node.start env startup) events

/-- The node and its ancestors carry votes of the given list, and the path ends in the genesis
block. -/
def PathRecorded (env : Env) (handed : List (Hash × UInt16)) (node : BlockNode) : Prop :=
  ∀ a ∈ node :: node.ancestors,
    if a.height = 0 then a = env.genesisNode else (a.hash, a.votes) ∈ handed

/-- The nodes of the index and the orphans carry votes of the given list. -/
structure RecordedIn (env : Env) (handed : List (Hash × UInt16)) (chain : BlockChain env.prim) :
    Prop where
  index_recorded : ∀ {hash blockNode}, chain.index.lookup hash = some blockNode →
    PathRecorded env handed blockNode
  tip_recorded : PathRecorded env handed chain.tip
  orphan_recorded : ∀ {hash block}, chain.orphanPool.orphans.lookup hash = some block →
    (block.hash env.prim, block.votes) ∈ handed

namespace RecordedIn

variable {handed handed' : List (Hash × UInt16)} {chain chain' : BlockChain env.prim}
  {block : Block}

theorem createChainState : RecordedIn env handed (createChainState env) where
  index_recorded {hash blockNode} h := by
    obtain ⟨rfl, rfl⟩ := lookup_singleton_cases h
    intro a ha
    rw [mem_singleton.1 ha]
    exact if_pos rfl |>.mpr rfl
  tip_recorded a ha := by
    rw [mem_singleton.1 ha]
    exact if_pos rfl |>.mpr rfl
  orphan_recorded h := by cases h

section

variable (h : RecordedIn env handed chain)
include h

theorem mono (hs : ∀ x ∈ handed, x ∈ handed') : RecordedIn env handed' chain := by
  have hp : ∀ {blockNode}, PathRecorded env handed blockNode →
      PathRecorded env handed' blockNode := by
    intro blockNode hr a ha
    have hr := hr a ha
    split_ifs at hr ⊢ with hh
    · exact hr
    · exact hs _ hr
  exact ⟨fun hl => hp (h.index_recorded hl), hp h.tip_recorded,
    fun hl => hs _ (h.orphan_recorded hl)⟩

theorem pathRecorded_newBlockNode {prevNode : BlockNode}
    (hp : chain.index.lookup block.msgBlock.header.prevBlock = some prevNode)
    (hb : (block.hash env.prim, block.votes) ∈ handed) :
    PathRecorded env handed (nodeOn env prevNode block) := by
  intro a ha
  rcases mem_cons.1 ha with rfl | ha
  · exact (if_neg (Nat.succ_ne_zero _)).mpr hb
  · exact h.index_recorded hp a ha

theorem accepts {result : Except GoError Bool} (hb : (block.hash env.prim, block.votes) ∈ handed)
    (ha : Accepts env chain block chain' result) : RecordedIn env handed chain' := by
  have had : ∀ {prevNode : BlockNode},
      chain.index.lookup block.msgBlock.header.prevBlock = some prevNode →
      ∀ {hash blockNode}, (chain.index.addNode (nodeOn env prevNode block)).lookup hash =
        some blockNode → PathRecorded env handed blockNode := by
    intro prevNode hp hash blockNode hl
    obtain ⟨-, rfl⟩ | ⟨-, hl⟩ := lookup_insert_cases hl
    · exact h.pathRecorded_newBlockNode hp hb
    · exact h.index_recorded hl
  cases ha with
  | rejected => exact h
  | added _ hp => exact ⟨had hp, h.tip_recorded, h.orphan_recorded⟩
  | connected hp =>
    exact ⟨had hp, h.pathRecorded_newBlockNode hp hb, h.orphan_recorded⟩

theorem process {check : Check Unit} {result : Except GoError Outcome}
    (hp : BlockChain.process env check block chain = .ok (chain', result))
    (hb : (block.hash env.prim, block.votes) ∈ handed) : RecordedIn env handed chain' := by
  refine process_invariant h ?_
    (fun _ ha => h.accepts hb (accepts_of_maybeAcceptBlock ha)) ?_ hp
  · intro hf _ _
    refine { h with orphan_recorded := ?_ }
    intro hash orphan hl
    obtain ⟨-, rfl⟩ | ⟨-, hl⟩ := lookup_insert_cases hl
    · exact hb
    · exact h.orphan_recorded hl
  · intro chain chain' hash orphan orphanPool result h hta ha
    obtain ⟨hm, rfl⟩ := OrphanPool.take_eq_some hta
    have ht : RecordedIn env handed
        { chain with orphanPool := (chain.orphanPool.remove orphan hm) } :=
      { h with orphan_recorded := fun hl =>
          h.orphan_recorded (OrphanPool.lookup_of_lookup_remove hm hl) }
    exact ht.accepts (h.orphan_recorded hm) (accepts_of_maybeAcceptBlock ha)

end

theorem step {event : Event} (h : RecordedIn env handed node.chain)
    (hs : DrcNode.step env privKey node event = .ok node')
    (he : ∀ x, handedBlock env node event = some x → x ∈ handed) :
    RecordedIn env handed node'.chain := by
  cases moves_of_step hs with
  | handed hp => exact h.process hp (he _ rfl)
  | synced ht hp => exact h.process hp (he _ (if_pos ht))
  | @ended order pointOrder hash votes best chain hm hel hc =>
    have hb : RecordedIn env handed (node.chain.setBestCandidate best) :=
      ⟨h.index_recorded, h.tip_recorded, h.orphan_recorded⟩
    obtain rfl | ⟨prevCandidate, result, hr, hp⟩ := commit_cases hc
    · exact hb
    · refine hb.process hp (he _ ?_)
      rw [handedBlock, hm]
      dsimp only
      rw [hr]
      rfl
  | _ => exact h

end RecordedIn

/-- **Every block in the chain carries votes with which it was handed over**, in every state that is
reached. -/
theorem recordedIn_handings (hr : Reachable env privKey startup events node) :
    RecordedIn env (handings env privKey startup events) node.chain := by
  induction hr with
  | nil => exact .createChainState
  | @snoc es t u e hru hok he ih =>
    refine (ih.mono fun x hx => ?_).step he fun x hx => ?_
    · exact hru.mem_outputs_snoc.2 (.inl hx)
    · exact hru.mem_outputs_snoc.2 (.inr hx)

/-! ### The votes of a committed block -/

theorem genesisHash_mem_index (hr : Reachable env privKey startup events node) :
    env.genesisHash ∈ node.chain.index := by
  refine chain_invariant (P := fun chain => env.genesisHash ∈ chain.index) hr
    ((Finmap.mem_singleton _ _ _).2 rfl) (fun _ _ h => h) ?_
  exact fun hm h => mem_index_process h hm

theorem exists_roundEnd {best : BestLastCandidate} (hr : Reachable env privKey startup events node)
    (hb : node.chain.bestCandidate = some best) :
    ∃ before order pointOrder after elected start,
      events = before ++ .roundEnd order pointOrder :: after ∧
      Reachable env privKey startup before elected ∧
      Possible elected (.roundEnd order pointOrder) ∧
      voteProcess env elected order pointOrder = .ok start ∧
      Run (step env privKey) (fun node event => Possible node event ∧ event.isRoundEnd = false)
        start after node ∧
      start.chain.bestCandidate = some best := by
  have hk : ∀ {start : Node env.prim} {after : List Event},
      Run (step env privKey) (fun node event => Possible node event ∧ event.isRoundEnd = false)
        start after node → start.chain.bestCandidate = some best := by
    intro start after hru
    rw [← hb]
    exact (hru.invariant (P := fun node => node.chain.bestCandidate = start.chain.bestCandidate)
      rfl fun _ _ _ h hok hs =>
        ((moves_of_step hs).bestCandidate_eq hok.2).trans h).symm
  rcases hr.split_last Event.isRoundEnd with
    hn | ⟨before, event, after, elected, start, rfl, he, hru, hok, hs, ha⟩
  · cases hk hn
  · cases event with
    | roundEnd order pointOrder =>
      exact ⟨before, order, pointOrder, after, elected, start, rfl, hru, hok, hs, ha, hk ha⟩
    | _ => cases he

/-- The round end commits the best candidate, with as many votes as it was elected with. -/
def CommitsBest (env : Env) (node : Node env.prim) (pointOrder : Order (List MsgCandidate)) :
    Prop :=
  ∀ prevCandidate ∈ roundBlock node.pools.prev pointOrder, ∃ best,
    node.chain.bestCandidate = some best ∧ prevCandidate.blockHash env.prim = best.hash ∧
    node.tickets.maxVotes = best.votes ∧ node.chain.orphanPool.waiting best.hash = []

/-- **The votes of a block that a round end adds** are those it was elected with, when the round end
commits the best candidate and its leader has as many. -/
theorem committed_votes {order : Order Tickets} {pointOrder : Order (List MsgCandidate)}
    {hash : Hash} {blockNode : BlockNode} (hreach : Reachable env privKey startup events node)
    (hpossible : Possible node (.roundEnd order pointOrder))
    (hcommits : CommitsBest env node pointOrder)
    (hend : voteProcess env node order pointOrder = .ok node')
    (hnew : node'.chain.index.lookup hash = some blockNode)
    (hold : node.chain.index.lookup hash ≠ some blockNode) :
    ∃ before order₁ pointOrder₁ after elected start best,
      events = before ++ .roundEnd order₁ pointOrder₁ :: after ∧
      Reachable env privKey startup before elected ∧
      voteProcess env elected order₁ pointOrder₁ = .ok start ∧
      Run (step env privKey) (fun node event => Possible node event ∧ event.isRoundEnd = false)
        start after node ∧
      start.chain.bestCandidate = some best ∧ best.hash = hash ∧
      hash ∈ elected.pools.current ∧ blockNode.votes = best.votes ∧
      blockNode.votes = elected.tickets.getVotes hash := by
  obtain ⟨leader, votes, nextBest, chain, hma, -, hc, rfl⟩ := voteProcess_eq_ok_iff.1 hend
  obtain rfl | ⟨prevCandidate, result, hr, hpr⟩ := commit_cases hc
  · exact absurd hnew hold
  obtain ⟨best, hbt, hh, hm, hw⟩ := hcommits prevCandidate hr
  have hl : votes = best.votes := (getMaxVotes_votes hpossible.1 hma).2.trans hm
  rw [← hh] at hw
  have hp := lookup_index_process hpr hw hnew
  obtain ⟨hbl, hv, hn⟩ := hp.resolve_left hold
  have hb : best.hash = hash := hh.symm.trans hbl.symm
  obtain ⟨before, order₁, pointOrder₁, after, elected, start, he, hbe, hpossible₁,
    hr₁, ha, hs⟩ := exists_roundEnd hreach hbt
  refine ⟨before, order₁, pointOrder₁, after, elected, start, best, he, hbe, hr₁, ha, hs, hb, ?_⟩
  obtain ⟨hash₁, votes₁, best₁, chain₁, hma₁, hel₁, hc₁, rfl⟩ := voteProcess_eq_ok_iff.1 hr₁
  obtain rfl : best₁ = best := Option.some.inj ((bestCandidate_commit hc₁).symm.trans hs)
  obtain ⟨hg, -⟩ | ⟨msgCandidate, hlo, -, rfl⟩ := elect_cases hel₁
  · -- the genesis block is in the index, and not added again
    exact absurd (hg ▸ genesisHash_mem_index hreach) (hb ▸ hn)
  · obtain rfl : hash₁ = hash := hb
    have hbv : blockNode.votes = votes₁ := hv.trans hl
    exact ⟨Finmap.mem_of_lookup_eq_some hlo, hbv,
      hbv.trans (getMaxVotes_votes hpossible₁.1 hma₁).1⟩

/-! ### Agreement about the thresholds -/

/-- **The thresholds of two nodes with the same best chain** agree when the blocks of the chain have
been handed over with the same votes. -/
theorem thresholds_agree {privKey' : PrivateKey} {startup' : Startup} {events' : List Event}
    (hreach : Reachable env privKey startup events node)
    (hreach' : Reachable env privKey' startup' events' node')
    (hblocks : node.chain.bestChain.map block = node'.chain.bestChain.map block)
    (hvotes : ∀ x ∈ handings env privKey startup events,
      ∀ y ∈ handings env privKey' startup' events', x.1 = y.1 →
        x.1 ∈ node.chain.bestChain.map hash → x.2 = y.2) :
    (headerContextWindow node.chain.tip).estimate = (headerContextWindow node'.chain.tip).estimate ∧
      blockVerge (headerContextWindow node.chain.tip).estimate =
        blockVerge (headerContextWindow node'.chain.tip).estimate ∧
      votesVerge (headerContextWindow node.chain.tip).estimate =
        votesVerge (headerContextWindow node'.chain.tip).estimate := by
  have hr := (recordedIn_handings hreach).tip_recorded
  have hr' := (recordedIn_handings hreach').tip_recorded
  have ht : node.chain.tip = node'.chain.tip := by
    refine eq_of_path_eq hblocks fun a ha b hb hha hh => ?_
    have hre := hr a ha
    have hre' := hr' b hb
    split_ifs at hre hre' with h0 h0' h0'
    · rw [hre, hre']
    · exact absurd (hh ▸ h0) h0'
    · exact absurd (hh.trans h0') h0
    · exact hvotes _ hre _ hre' hha (mem_map_of_mem ha)
  rw [ht]
  exact ⟨rfl, rfl, rfl⟩

/-! ### Votes of another block -/

variable (others : List PrivateKey)

/-- The second round up to its end, with the votes of other nodes for the second candidate. -/
def voteRound : List Event :=
  secondVote ++ others.map fun key => .sign (sampleSign key secondHash)

/-- The tickets for the second candidate at the end of the round. -/
def voteOrder : Order Tickets :=
  [sampleTickets secondHash sampleKey others]

/-- The second round with its end, which commits the first candidate. -/
def commitRound : List Event :=
  voteRound others ++ [.roundEnd (voteOrder others) secondPoints]

/-- The first candidate is elected with one ticket, and committed with two votes. -/
theorem firstCandidate_other_votes : (∃ elected, Reachable sampleEnv sampleKey {}
        [.roundEnd [] [], .generate (sampleInput 10), .submit [] 0] elected ∧
      elected.tickets.getVotes firstHash = 1) ∧
    (∃ start, Reachable sampleEnv sampleKey {} firstRounds start ∧
      start.chain.bestCandidate = some firstBest ∧ firstBest.hash = firstHash ∧
      firstBest.votes = 1) ∧
    (∃ node, Reachable sampleEnv sampleKey {} (voteRound [9]) node ∧ firstHash ∉ node.chain.index) ∧
    ∃ node, Reachable sampleEnv sampleKey {} (commitRound [9]) node ∧
      (node.chain.index.lookup firstHash).map votes = some 2 :=
  ⟨exists_run (by decide +kernel), exists_run (by decide +kernel),
    exists_run (by decide +kernel), exists_run (by decide +kernel)⟩

/-- The first candidate is committed with the one vote it was elected with, when the second has one
ticket as well. -/
theorem firstCandidate_own_votes : ∃ node node' blockNode,
    Reachable sampleEnv sampleKey {} (voteRound []) node ∧
    voteProcess sampleEnv node (voteOrder []) secondPoints = .ok node' ∧
    node'.chain.index.lookup firstHash = some blockNode ∧
    ∃ before order₁ pointOrder₁ after elected start best,
      voteRound [] = before ++ .roundEnd order₁ pointOrder₁ :: after ∧
      Reachable sampleEnv sampleKey {} before elected ∧
      voteProcess sampleEnv elected order₁ pointOrder₁ = .ok start ∧
      Run (step sampleEnv sampleKey)
        (fun node event => Possible node event ∧ event.isRoundEnd = false) start after node ∧
      start.chain.bestCandidate = some best ∧ best.hash = firstHash ∧
      firstHash ∈ elected.pools.current ∧ blockNode.votes = best.votes ∧
      blockNode.votes = elected.tickets.getVotes firstHash := by
  obtain ⟨node, hr, hp, hb, hro, hv, hw, hn, he⟩ : ∃ node,
      Reachable sampleEnv sampleKey {} (voteRound []) node ∧
      Possible node (.roundEnd (voteOrder []) secondPoints) ∧
      node.chain.bestCandidate = some firstBest ∧
      roundBlock node.pools.prev secondPoints = some firstCandidate ∧
      node.tickets.maxVotes = firstBest.votes ∧
      node.chain.orphanPool.waiting firstBest.hash = [] ∧
      node.chain.index.lookup firstHash = none ∧
      ((voteProcess sampleEnv node (voteOrder []) secondPoints).map fun node' =>
        decide (firstHash ∈ node'.chain.index)) = .ok true :=
    exists_run (by decide +kernel)
  obtain ⟨node', he, hm⟩ := Checked.map_eq_ok.1 he
  obtain ⟨blockNode, hnw⟩ := Finmap.mem_iff.1 (of_decide_eq_true hm)
  have hc : CommitsBest sampleEnv node secondPoints := by
    intro prevCandidate hpr
    obtain rfl : firstCandidate = prevCandidate := Option.some.inj (hro.symm.trans hpr)
    exact ⟨firstBest, hb, rfl, hv, hw⟩
  refine ⟨node, node', blockNode, hr, he, hnw, committed_votes hr hp hc he hnw ?_⟩
  rw [hn]
  exact (Option.some_ne_none _).symm

/-- The best chain of the nodes below. -/
def sampleChain : List (Hash × BlockHeader) :=
  [(firstHash, firstCandidate.header), sampleEnv.genesisNode.block]

/-- Three nodes with one best chain, whose first block has two votes, one and none. -/
theorem thresholds_disagree : ∃ node₁ node₂ node₃,
    Reachable sampleEnv sampleKey {} (commitRound [9]) node₁ ∧
    Reachable sampleEnv sampleKey {} (commitRound []) node₂ ∧
    Reachable sampleEnv sampleKey {} [.syncBlock ⟨1, firstCandidate⟩] node₃ ∧
    node₁.chain.bestChain.map block = sampleChain ∧
    node₂.chain.bestChain.map block = sampleChain ∧
    node₃.chain.bestChain.map block = sampleChain ∧
    (headerContextWindow node₁.chain.tip).estimate = 2 ∧
    (headerContextWindow node₂.chain.tip).estimate = 1 ∧
    (headerContextWindow node₃.chain.tip).estimate = 1 ∧
    blockVerge 2 ≠ blockVerge 1 ∧ votesVerge 2 ≠ votesVerge 1 := by
  obtain ⟨node₁, hr₁, hc₁, he₁⟩ : ∃ node, Reachable sampleEnv sampleKey {} (commitRound [9]) node ∧
      node.chain.bestChain.map block = sampleChain ∧
      (headerContextWindow node.chain.tip).estimate = 2 := exists_run (by decide +kernel)
  obtain ⟨node₂, hr₂, hc₂, he₂⟩ : ∃ node, Reachable sampleEnv sampleKey {} (commitRound []) node ∧
      node.chain.bestChain.map block = sampleChain ∧
      (headerContextWindow node.chain.tip).estimate = 1 := exists_run (by decide +kernel)
  obtain ⟨node₃, hr₃, hc₃, he₃⟩ : ∃ node,
      Reachable sampleEnv sampleKey {} [.syncBlock ⟨1, firstCandidate⟩] node ∧
      node.chain.bestChain.map block = sampleChain ∧
      (headerContextWindow node.chain.tip).estimate = 1 := exists_run (by decide +kernel)
  exact ⟨node₁, node₂, node₃, hr₁, hr₂, hr₃, hc₁, hc₂, hc₃, he₁,
    he₂, he₃, by decide +kernel, by decide +kernel⟩

/-- Two nodes that have counted two tickets each, but not the same ones, agree. -/
theorem thresholds_agree_otherTickets : ∃ node₁ node₂,
    Reachable sampleEnv sampleKey {} (commitRound [9]) node₁ ∧
    Reachable sampleEnv sampleKey {} (commitRound [11]) node₂ ∧
    node₁.chain.bestChain.map block = sampleChain ∧
    (headerContextWindow node₁.chain.tip).estimate =
        (headerContextWindow node₂.chain.tip).estimate ∧
      blockVerge (headerContextWindow node₁.chain.tip).estimate =
        blockVerge (headerContextWindow node₂.chain.tip).estimate ∧
      votesVerge (headerContextWindow node₁.chain.tip).estimate =
        votesVerge (headerContextWindow node₂.chain.tip).estimate := by
  obtain ⟨node₁, hr₁, hc₁⟩ : ∃ node, Reachable sampleEnv sampleKey {} (commitRound [9]) node ∧
      node.chain.bestChain.map block = sampleChain := exists_run (by decide +kernel)
  obtain ⟨node₂, hr₂, hc₂⟩ : ∃ node, Reachable sampleEnv sampleKey {} (commitRound [11]) node ∧
      node.chain.bestChain.map block = sampleChain := exists_run (by decide +kernel)
  have hh₁ : handings sampleEnv sampleKey {} (commitRound [9]) = [(firstHash, 2)] := by
    decide +kernel
  have hh₂ : handings sampleEnv sampleKey {} (commitRound [11]) = [(firstHash, 2)] := by
    decide +kernel
  refine ⟨node₁, node₂, hr₁, hr₂, hc₁,
    thresholds_agree hr₁ hr₂ (hc₁.trans hc₂.symm) fun x hx y hy _ _ => ?_⟩
  rw [hh₁] at hx
  rw [hh₂] at hy
  rw [mem_singleton.1 hx, mem_singleton.1 hy]

end DrcNode
