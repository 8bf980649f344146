import DrcNode.Library.Runs
import DrcNode.Mining.Miner

/-!
# A node

A node is a state machine that is driven by messages of its peers, by its own miner and by the
clock that ends a round every ten seconds. Each of these runs in a goroutine of its own; here they
are the events of one machine, taken one after the other in any order. An event carries what the
node does not determine. The miner works in two events: `generate` puts a new candidate into the
pools; `submit`, three seconds later, sends it and votes for it.

Source: `handleBlockMsg`, `handleCandidateMsg`, `handleSignMsg`, `CollectVotes`,
`preventRepeatSign`, `handleSyncBlockMsg`, `VoteHandler` and `voteProcess` in `netsync/manager.go`;
`generateBlocks` and `submitBlock` in `mining/cpuminer/cpuminer.go`. Messages of unknown peers are
dropped and are no events. What a node sends is left out: sending a block or a vote succeeds always.
-/

namespace DrcNode

open Checked BlockChain

/-- The times that decide how a node starts, in seconds. -/
structure Startup where
  firstBlockTime : Int64 := 0
  startupTime : Int64 := 0

/-- `vote.StartHeight`, as `(*server).Start` sets it. -/
def Startup.startHeight (startup : Startup) : Int32 :=
  if startup.firstBlockTime ≠ 0 then
    (startup.startupTime - startup.firstBlockTime).toInt32 / 10000 + 1
  else 1

/-- The state of a node: the chain, the pools, the tickets, the variables of the packages, and the
candidate of the worker that is waiting to be sent. -/
structure Node (prim : Primitives) where
  chain : BlockChain prim
  pools : Pools
  tickets : TicketPool
  incrementBlock : Finset Int32
  startHeight : Int32
  work : Bool
  voteBool : Bool
  submitBlockLock : Bool
  pending : Option MsgCandidate

/-- The node when `VoteHandler` starts, with the chain of the genesis block. -/
def Node.start (env : Env) (startup : Startup) : Node env.prim where
  chain := .createChainState env
  pools := ⟨∅, ∅, ∅⟩
  tickets := ∅
  incrementBlock := ∅
  startHeight := startup.startHeight
  work := false
  voteBool := decide (startup.firstBlockTime = 0)
  submitBlockLock := false
  pending := none

/-- What happens to a node. -/
inductive Event
  | candidate (msgCandidate : MsgCandidate) (order : Order Tickets) (rand : BitVec 256)
  | sign (msgSign : MsgSign)
  | block (msgBlock : MsgBlock)
  | syncBlock (msgSyncBlock : MsgSyncBlock)
  | generate (input : GenerateInput)
  | submit (order : Order Tickets) (rand : BitVec 256)
  | roundEnd (order : Order Tickets) (pointOrder : Order (List MsgCandidate))

/-- The event is the end of a round. -/
def Event.isRoundEnd : Event → Bool
  | .roundEnd _ _ => true
  | _ => false

/-- The orders an event carries are orders in which the maps of the node may be visited. -/
def Possible {prim : Primitives} (node : Node prim) : Event → Prop
  | .candidate _ order _ => Visits order node.tickets
  | .submit order _ => Visits order node.tickets
  | .roundEnd order pointOrder => Visits order node.tickets ∧ Visits pointOrder node.pools.points
  | _ => True

instance {prim : Primitives} (node : Node prim) (event : Event) : Decidable (Possible node event) :=
  match event with
  | .candidate _ _ _ => inferInstanceAs (Decidable (Visits ..))
  | .submit _ _ => inferInstanceAs (Decidable (Visits ..))
  | .roundEnd _ _ => inferInstanceAs (Decidable (Visits .. ∧ Visits ..))
  | .sign _ | .block _ | .syncBlock _ | .generate _ => inferInstanceAs (Decidable True)

section Handlers

variable (env : Env) (privKey : PrivateKey) (node : Node env.prim)

/-! ### Candidates -/

/-- `handleCandidateMsg`. From a candidate more than two blocks above the tip the node concludes
that it is behind, and puts the first one of its height into the pools unchecked. -/
def handleCandidateMsg (msgCandidate : MsgCandidate) (order : Order Tickets)
    (rand : BitVec 256) : Except Panic (Node env.prim) := do
  let height := msgCandidate.sigwit.height
  let ahead := height - Int32.ofNat node.chain.stateSnapshot.height
  if ahead = 2 then
    match ← processCandidate env node.chain node.pools msgCandidate with
    | (pools, .error _) => return { node with pools }
    | (pools, .ok vb) =>
        if vb && node.voteBool then
          let tickets ← blockVote env pools.current privKey node.tickets order rand msgCandidate
          return { node with pools, tickets }
        else return { node with pools }
  else if 2 < ahead then
    if height = node.startHeight ∨ height ∈ node.incrementBlock then return node
    else
      return { node with
        pools := node.pools.addCandidate env.prim msgCandidate.header.prevBlock msgCandidate
        incrementBlock := insert height node.incrementBlock }
  else return node

/-! ### Votes -/

/-- `preventRepeatSign`: the key has no ticket for the block yet. -/
def preventRepeatSign (tickets : TicketPool) (blockHeaderHash : Hash) (publicKey : Hash33) : Bool :=
  (tickets.tickets blockHeaderHash).all fun signAndKey => publicKey ≠ signAndKey.publicKey

/-- `CollectVotes`. The error of `ParsePubKey` is only logged, and the nil key then dereferenced. -/
def collectVotes (tickets : TicketPool) (sign : MsgSign) (msgCandidate : MsgCandidate) :
    Except Panic TicketPool :=
  if preventRepeatSign tickets sign.blockHeaderHash sign.publicKey then
    match env.prim.parsePubKey sign.publicKey with
    | none => .error .nilPointer
    | some pubKey =>
        if env.prim.verify (getSignature sign.signature) sign.blockHeaderHash pubKey then
          (votesVerge msgCandidate.header.scale).map fun voteVerge =>
            if env.prim.weight sign.signature ≤ voteVerge then
              tickets.updateTicketPool sign.blockHeaderHash ⟨sign.signature, sign.publicKey⟩
            else tickets
        else .ok tickets
  else .ok tickets

/-- `handleSignMsg`: votes for blocks that are not in the pool of the round are dropped. -/
def handleSignMsg (sign : MsgSign) : Except Panic (Node env.prim) :=
  match node.pools.current.lookup sign.blockHeaderHash with
  | none => .ok node
  | some msgCandidate =>
      (collectVotes env node.tickets sign msgCandidate).map fun tickets => { node with tickets }

/-! ### Blocks -/

/-- `handleBlockMsg`. The error is only logged. -/
def handleBlockMsg (msgBlock : MsgBlock) : Except Panic (Node env.prim) :=
  (processBlock env node.pools.current { msgBlock } node.chain).map fun out =>
    { node with chain := out.1 }

/-- `handleSyncBlockMsg`: a block of the chain, or a candidate of the last round. -/
def handleSyncBlockMsg (msg : MsgSyncBlock) : Except Panic (Node env.prim) :=
  if msg.typeParameter = 1 then
    (processSyncBlock env { msgBlock := msgCandidateToBlock msg.msgCandidate }
      node.chain).map fun out => { node with chain := out.1 }
  else if msg.typeParameter = 2 then
    .ok { node with
      pools := { node.pools with
        prev := node.pools.prev.insert (msg.msgCandidate.blockHash env.prim) msg.msgCandidate } }
  else .ok node

/-! ### The miner -/

/-- A round of the worker up to the candidate in the pools. When the weight is not below the
threshold the worker leaves `submitBlockLock` locked, and never gets past it again. -/
def generate (input : GenerateInput) : Except Panic (Node env.prim) :=
  if node.submitBlockLock || !node.work || node.pending.isSome then .ok node
  else
    (generateBlocks env node.chain node.pools.current privKey input).map fun
      | .waiting => node
      | .overweight => { node with work := false, submitBlockLock := true }
      | .failed => { node with work := false }
      | .candidate bestHash msgCandidate =>
          { node with
            pools := node.pools.addCandidate env.prim bestHash msgCandidate
            pending := some msgCandidate }

/-- `submitBlock` and the own vote: a candidate whose previous block is no longer the best candidate
is dropped. -/
def submit (order : Order Tickets) (rand : BitVec 256) : Except Panic (Node env.prim) :=
  match node.pending with
  | none => .ok node
  | some msgCandidate =>
      match node.chain.bestCandidate with
      | none => .error .nilPointer
      | some best =>
          if msgCandidate.header.prevBlock ≠ best.hash then .ok { node with pending := none }
          else
            (blockVote env node.pools.current privKey node.tickets order rand msgCandidate).map
              fun tickets => { node with pending := none, work := false, tickets }

/-! ### The end of a round -/

/-- The best candidate of a round without candidates: the genesis block, at height zero with one
vote. -/
def genesisCandidate : BestLastCandidate where
  hash := env.genesisHash
  height := 0
  header := env.params.genesisBlock.header
  votes := 1

/-- The best candidate of a round without a quorum: the genesis block again. -/
def emptyCandidate (msgCandidate : MsgCandidate) (votes : UInt16) : BestLastCandidate where
  hash := env.genesisHash
  height := msgCandidate.sigwit.height
  header := env.params.genesisBlock.header
  votes := votes

/-- A candidate as the best one of its round. -/
def electedCandidate (msgCandidate : MsgCandidate) (hash : Hash) (votes : UInt16) :
    BestLastCandidate where
  hash := hash
  height := msgCandidate.sigwit.height
  header := msgCandidate.header
  votes := votes

/-- The first part of `voteProcess`, up to `SetBestCandidate`. -/
def elect (current : CandidatePool) (hash : Hash) (votes : UInt16) :
    Except Panic BestLastCandidate :=
  if current = ∅ then .ok (genesisCandidate env)
  else
    match current.lookup hash with
    | none => .error .nilPointer
    | some msgCandidate =>
        if isEnough votes msgCandidate.header.scale then
          .ok (electedCandidate msgCandidate hash votes)
        else .ok (emptyCandidate env msgCandidate votes)

/-- The second part of `voteProcess`: a block is handed to `ProcessBlock`, with the votes of this
round's election. -/
def commit (chain : BlockChain env.prim) (pools : Pools) (votes : UInt16)
    (pointOrder : Order (List MsgCandidate)) : Except Panic (BlockChain env.prim) :=
  match roundBlock pools.prev pointOrder with
  | none => .ok chain
  | some prevCandidate =>
      (processBlock env pools.current
        { msgBlock := msgCandidateToBlock prevCandidate, votes } chain).map Prod.fst

/-- The node at the start of the next round. -/
def Node.nextRound {prim : Primitives} (node : Node prim) (chain : BlockChain prim) : Node prim :=
  { node with
    chain
    pools := ⟨node.pools.current, ∅, ∅⟩
    tickets := ∅
    work := true
    voteBool := true }

/-- `voteProcess`, after the first of which `VoteHandler` sets `VoteBool`. -/
def voteProcess (order : Order Tickets) (pointOrder : Order (List MsgCandidate)) :
    Except Panic (Node env.prim) := do
  let (hash, votes) ← getMaxVotes env.prim node.pools.current order
  let best ← elect env node.pools.current hash votes
  let chain ← commit env (node.chain.setBestCandidate best) node.pools votes pointOrder
  return node.nextRound chain

/-- The node after an event. -/
def step : Event → Except Panic (Node env.prim)
  | .candidate msgCandidate order rand =>
      handleCandidateMsg env privKey node msgCandidate order rand
  | .sign msgSign => handleSignMsg env node msgSign
  | .block msgBlock => handleBlockMsg env node msgBlock
  | .syncBlock msgSyncBlock => handleSyncBlockMsg env node msgSyncBlock
  | .generate input => generate env privKey node input
  | .submit order rand => submit env privKey node order rand
  | .roundEnd order pointOrder => voteProcess env node order pointOrder

end Handlers

/-! ### What an event can do -/

section Moves

/-- What the own vote does to the tickets: nothing, or it adds a ticket whose weight gives the right
to vote. -/
inductive Voted (env : Env) (privKey : PrivateKey) (rand : BitVec 256)
    (msgCandidate : MsgCandidate) (tickets : TicketPool) : TicketPool → Prop
  | abstained : Voted env privKey rand msgCandidate tickets tickets
  | voted {voteVerge : Nat} (hverge : votesVerge msgCandidate.header.scale = .ok voteVerge)
      (hweight : env.prim.weight
        (env.prim.sign64 privKey rand (msgCandidate.blockHash env.prim)) ≤ voteVerge) :
      Voted env privKey rand msgCandidate tickets
        (tickets.updateTicketPool (msgCandidate.blockHash env.prim)
          ⟨env.prim.sign64 privKey rand (msgCandidate.blockHash env.prim),
            env.prim.pubKey privKey⟩)

/-- **The ways in which an event can change a node.** -/
inductive Moves (env : Env) (privKey : PrivateKey) (node : Node env.prim) :
    Event → Node env.prim → Prop
  /-- Nothing happens: a message is dropped, or the worker waits. -/
  | ignored {event : Event} (hevent : event.isRoundEnd = false) :
      Moves env privKey node event node
  /-- A candidate has passed `ProcessCandidate`. -/
  | admitted {msgCandidate : MsgCandidate} {order : Order Tickets} {rand : BitVec 256}
      {best : BestLastCandidate} {vb : Bool} {tickets : TicketPool}
      (haccepted : BlockChain.CandidateAccepted env node.chain node.pools msgCandidate best vb)
      (hvoted : Voted env privKey rand msgCandidate node.tickets tickets) :
      Moves env privKey node (.candidate msgCandidate order rand)
        { node with
          pools := node.pools.addCandidate env.prim best.hash msgCandidate
          tickets }
  /-- A candidate from far above the tip goes into the pools unchecked. -/
  | incremented {msgCandidate : MsgCandidate} {order : Order Tickets} {rand : BitVec 256}
      (hahead : 2 < msgCandidate.sigwit.height - Int32.ofNat node.chain.stateSnapshot.height) :
      Moves env privKey node (.candidate msgCandidate order rand)
        { node with
          pools := node.pools.addCandidate env.prim msgCandidate.header.prevBlock msgCandidate
          incrementBlock := insert msgCandidate.sigwit.height node.incrementBlock }
  /-- A vote is counted. -/
  | collected {sign : MsgSign} {msgCandidate : MsgCandidate} {pubKey : PublicKey}
      {voteVerge : Nat}
      (hcandidate : node.pools.current.lookup sign.blockHeaderHash = some msgCandidate)
      (hnew : preventRepeatSign node.tickets sign.blockHeaderHash sign.publicKey = true)
      (hkey : env.prim.parsePubKey sign.publicKey = some pubKey)
      (hverify : env.prim.verify (getSignature sign.signature) sign.blockHeaderHash pubKey = true)
      (hverge : votesVerge msgCandidate.header.scale = .ok voteVerge)
      (hweight : env.prim.weight sign.signature ≤ voteVerge) :
      Moves env privKey node (.sign sign)
        { node with
          tickets := node.tickets.updateTicketPool sign.blockHeaderHash
            ⟨sign.signature, sign.publicKey⟩ }
  /-- A block is handed to `ProcessBlock`. -/
  | handed {msgBlock : MsgBlock} {chain : BlockChain env.prim}
      {result : Except GoError BlockChain.Outcome}
      (hprocess : processBlock env node.pools.current { msgBlock } node.chain =
        .ok (chain, result)) :
      Moves env privKey node (.block msgBlock) { node with chain }
  /-- A block is handed to `ProcessSyncBlock`. -/
  | synced {msg : MsgSyncBlock} {chain : BlockChain env.prim}
      {result : Except GoError BlockChain.Outcome} (htype : msg.typeParameter = 1)
      (hprocess : processSyncBlock env
        { msgBlock := msgCandidateToBlock msg.msgCandidate } node.chain = .ok (chain, result)) :
      Moves env privKey node (.syncBlock msg) { node with chain }
  /-- A candidate of the last round is added to its pool. -/
  | softState {msg : MsgSyncBlock} (htype : msg.typeParameter = 2) :
      Moves env privKey node (.syncBlock msg)
        { node with
          pools := { node.pools with
            prev := node.pools.prev.insert (msg.msgCandidate.blockHash env.prim)
              msg.msgCandidate } }
  /-- The worker gives up for this round. -/
  | rested {input : GenerateInput} (submitBlockLock : Bool) :
      Moves env privKey node (.generate input) { node with work := false, submitBlockLock }
  /-- The worker has made a candidate. -/
  | generated {input : GenerateInput} {bestHash : Hash} {msgCandidate : MsgCandidate}
      (hgenerated : generateBlocks env node.chain node.pools.current privKey input =
        .ok (.candidate bestHash msgCandidate)) :
      Moves env privKey node (.generate input)
        { node with
          pools := node.pools.addCandidate env.prim bestHash msgCandidate
          pending := some msgCandidate }
  /-- The candidate of the worker is stale. -/
  | dropped {order : Order Tickets} {rand : BitVec 256} :
      Moves env privKey node (.submit order rand) { node with pending := none }
  /-- The candidate of the worker is sent. -/
  | submitted {order : Order Tickets} {rand : BitVec 256} {msgCandidate : MsgCandidate}
      {best : BestLastCandidate} {tickets : TicketPool}
      (hpending : node.pending = some msgCandidate)
      (hbest : node.chain.bestCandidate = some best)
      (hprev : msgCandidate.header.prevBlock = best.hash)
      (hvoted : Voted env privKey rand msgCandidate node.tickets tickets) :
      Moves env privKey node (.submit order rand)
        { node with pending := none, work := false, tickets }
  /-- The round ends. -/
  | ended {order : Order Tickets} {pointOrder : Order (List MsgCandidate)} {hash : Hash}
      {votes : UInt16} {best : BestLastCandidate} {chain : BlockChain env.prim}
      (hmax : getMaxVotes env.prim node.pools.current order = .ok (hash, votes))
      (helect : elect env node.pools.current hash votes = .ok best)
      (hcommit : commit env (node.chain.setBestCandidate best) node.pools votes pointOrder =
        .ok chain) :
      Moves env privKey node (.roundEnd order pointOrder) (node.nextRound chain)

variable {env : Env} {privKey : PrivateKey} {node node' : Node env.prim} {order : Order Tickets}
  {rand : BitVec 256} {msgCandidate : MsgCandidate} {pointOrder : Order (List MsgCandidate)}

theorem voted_of_blockVote {current : CandidatePool} {tickets tickets' : TicketPool}
    (h : blockVote env current privKey tickets order rand msgCandidate = .ok tickets') :
    Voted env privKey rand msgCandidate tickets tickets' := by
  rw [blockVote, bind_eq_ok] at h
  obtain ⟨advantage, -, h⟩ := h
  split_ifs at h
  · rw [bind_eq_ok] at h
    obtain ⟨voteVerge, hv, h⟩ := h
    split_ifs at h with hw
    · cases h
      exact .voted hv hw
    · cases h
      exact .abstained
  · cases h
    exact .abstained

theorem moves_of_handleCandidateMsg
    (h : handleCandidateMsg env privKey node msgCandidate order rand = .ok node') :
    Moves env privKey node (.candidate msgCandidate order rand) node' := by
  simp only [handleCandidateMsg] at h
  by_cases ht : msgCandidate.sigwit.height - Int32.ofNat node.chain.stateSnapshot.height = 2
  · rw [if_pos ht, bind_eq_ok] at h
    obtain ⟨⟨pools, result⟩, hp, h⟩ := h
    obtain ⟨best, vb, rfl, ha, rfl⟩ | ⟨e, rfl, rfl⟩ := processCandidate_cases hp
    · simp only at h
      split_ifs at h
      · rw [bind_eq_ok] at h
        obtain ⟨tickets, hv, h⟩ := h
        cases h
        exact .admitted ha (voted_of_blockVote hv)
      · cases h
        exact .admitted ha .abstained
    · cases h
      exact .ignored rfl
  · rw [if_neg ht] at h
    split_ifs at h with hah hk
    · cases h
      exact .ignored rfl
    · cases h
      exact .incremented hah
    · cases h
      exact .ignored rfl

theorem moves_of_handleSignMsg {sign : MsgSign} (h : handleSignMsg env node sign = .ok node') :
    Moves env privKey node (.sign sign) node' := by
  have hi : Moves env privKey node (.sign sign) node := .ignored rfl
  rw [handleSignMsg] at h
  split at h
  · cases h
    exact hi
  rename_i msgCandidate hca
  rw [map_eq_ok] at h
  obtain ⟨tickets, hc, rfl⟩ := h
  rw [collectVotes] at hc
  split_ifs at hc with hn
  · split at hc
    · cases hc
    · rename_i pubKey hk
      split_ifs at hc with hv
      · rw [map_eq_ok] at hc
        obtain ⟨voteVerge, hve, rfl⟩ := hc
        split_ifs with hw
        · exact .collected hca hn hk hv hve hw
        · exact hi
      · cases hc
        exact hi
  · cases hc
    exact hi

theorem moves_of_handleSyncBlockMsg {msg : MsgSyncBlock}
    (h : handleSyncBlockMsg env node msg = .ok node') :
    Moves env privKey node (.syncBlock msg) node' := by
  rw [handleSyncBlockMsg] at h
  split_ifs at h with ho ht
  · rw [map_eq_ok] at h
    obtain ⟨⟨chain, result⟩, hp, rfl⟩ := h
    exact .synced ho hp
  · cases h
    exact .softState ht
  · cases h
    exact .ignored rfl

theorem moves_of_generate {input : GenerateInput}
    (h : generate env privKey node input = .ok node') :
    Moves env privKey node (.generate input) node' := by
  have hi : Moves env privKey node (.generate input) node := .ignored rfl
  rw [generate] at h
  split_ifs at h
  · cases h
    exact hi
  rw [map_eq_ok] at h
  obtain ⟨generated, hg, rfl⟩ := h
  cases generated with
  | waiting => exact hi
  | overweight => exact .rested true
  | failed => exact .rested node.submitBlockLock
  | candidate bestHash msgCandidate => exact .generated hg

theorem moves_of_submit (h : submit env privKey node order rand = .ok node') :
    Moves env privKey node (.submit order rand) node' := by
  rw [submit] at h
  split at h
  · cases h
    exact .ignored rfl
  rename_i msgCandidate hpe
  split at h
  · cases h
  rename_i best hb
  by_cases hp : msgCandidate.header.prevBlock = best.hash
  · rw [if_neg (not_not.2 hp), map_eq_ok] at h
    obtain ⟨tickets, hv, rfl⟩ := h
    exact .submitted hpe hb hp (voted_of_blockVote hv)
  · rw [if_pos hp] at h
    cases h
    exact .dropped

/-- The second part of the round end does nothing, or hands a block to `ProcessBlock`. -/
theorem commit_cases {chain chain' : BlockChain env.prim} {pools : Pools} {votes : UInt16}
    (h : commit env chain pools votes pointOrder = .ok chain') :
    chain' = chain ∨ ∃ prevCandidate result, roundBlock pools.prev pointOrder = some prevCandidate ∧
      processBlock env pools.current
        { msgBlock := msgCandidateToBlock prevCandidate, votes } chain = .ok (chain', result) := by
  rw [commit] at h
  split at h
  · cases h
    exact .inl rfl
  · rename_i prevCandidate hr
    rw [map_eq_ok] at h
    obtain ⟨⟨_, result⟩, hp, rfl⟩ := h
    exact .inr ⟨prevCandidate, result, hr, hp⟩

theorem voteProcess_eq_ok_iff :
    voteProcess env node order pointOrder = .ok node' ↔ ∃ hash votes best chain,
      getMaxVotes env.prim node.pools.current order = .ok (hash, votes) ∧
      elect env node.pools.current hash votes = .ok best ∧
      commit env (node.chain.setBestCandidate best) node.pools votes pointOrder = .ok chain ∧
      node' = node.nextRound chain := by
  simp only [voteProcess, bind_eq_ok, pure_eq_ok]
  constructor
  · rintro ⟨⟨hash, votes⟩, hm, best, he, chain, hc, rfl⟩
    exact ⟨hash, votes, best, chain, hm, he, hc, rfl⟩
  · rintro ⟨hash, votes, best, chain, hm, he, hc, rfl⟩
    exact ⟨(hash, votes), hm, best, he, chain, hc, rfl⟩

/-- **Every step is one of the moves.** -/
theorem moves_of_step {event : Event} (h : step env privKey node event = .ok node') :
    Moves env privKey node event node' := by
  cases event with
  | candidate msgCandidate order rand => exact moves_of_handleCandidateMsg h
  | sign msgSign => exact moves_of_handleSignMsg h
  | block msgBlock =>
    rw [step, handleBlockMsg, map_eq_ok] at h
    obtain ⟨⟨chain, result⟩, hp, rfl⟩ := h
    exact .handed hp
  | syncBlock msg => exact moves_of_handleSyncBlockMsg h
  | generate input => exact moves_of_generate h
  | submit order rand => exact moves_of_submit h
  | roundEnd order pointOrder =>
    obtain ⟨hash, votes, best, chain, hm, he, hc, rfl⟩ := voteProcess_eq_ok_iff.1 h
    exact .ended hm he hc

end Moves

/-- The node is reached from its start by the events. -/
def Reachable (env : Env) (privKey : PrivateKey) (startup : Startup) (events : List Event)
    (node : Node env.prim) : Prop :=
  Runs.Run (step env privKey) Possible (Node.start env startup) events node

variable {env : Env} {privKey : PrivateKey} {startup : Startup} {events : List Event}
  {node : Node env.prim} {ok : Node env.prim → Event → Prop}

section

variable (hr : Runs.Run (step env privKey) ok (Node.start env startup) events node)
include hr

/-- **Invariant rule for the chain.** -/
theorem chain_invariant {P : BlockChain env.prim → Prop} (hs : P (.createChainState env))
    (hb : ∀ chain best, P chain → P (chain.setBestCandidate best))
    (hp : ∀ {check block chain chain' result}, P chain →
      BlockChain.process env check block chain = .ok (chain', result) → P chain') :
    P node.chain := by
  refine hr.invariant (P := fun node => P node.chain) hs ?_
  intro node event node' hP _ hst
  cases moves_of_step hst with
  | handed h => exact hp hP h
  | synced _ h => exact hp hP h
  | ended _ _ hc =>
    obtain rfl | ⟨_, _, -, h⟩ := commit_cases hc
    · exact hb _ _ hP
    · exact hp (hb _ _ hP) h
  | _ => exact hP

theorem hashIndex_subset_index : ∀ hash ∈ node.chain.hashIndex, hash ∈ node.chain.index := by
  refine chain_invariant (P := fun chain => ∀ hash ∈ chain.hashIndex, hash ∈ chain.index) hr ?_
    (fun _ _ h => h) fun hs h => hashIndex_subset_process h hs
  intro hash hm
  exact (Finmap.mem_singleton _ _ _).2 ((Finmap.mem_singleton _ _ _).1 hm)

end

end DrcNode
