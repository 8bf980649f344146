import DrcNode.Chain.Crash
import DrcNode.Net.Acceptance

/-!
# The tickets of a round

`CollectVotes` counts a vote only for a candidate in the pool and only once for each key, and
`BlockVote` checks neither. The own candidate is voted for three seconds after it was put into the
pool, and then a round may have ended: the node has a ticket for a block that is in no pool any
more. The round end relies on the pools. It panics when there are candidates and no tickets, and
when the block it commits declares the scale zero.

## Main results

* `tickets_valid`, `voteProcess_completes_iff`.
-/

namespace DrcNode

open List SignAndKey TicketPool Runs

open BlockChain

/-! ### Valid tickets -/

/-- The signature of the ticket verifies for the hash, with a weight that gives the right to vote
under the scale. -/
structure ValidTicket (prim : Primitives) (hash : Hash) (scale : UInt16) (ticket : SignAndKey) :
    Prop where
  verifies : ∃ pubKey, prim.parsePubKey ticket.publicKey = some pubKey ∧
    prim.verify (getSignature ticket.signature) hash pubKey = true
  weight_le : ∃ voteVerge, votesVerge scale = .ok voteVerge ∧
    prim.weight ticket.signature ≤ voteVerge

/-- **What the tickets of a round are meant to satisfy.** -/
structure TicketsValid (prim : Primitives) (current : CandidatePool) (tickets : TicketPool) :
    Prop where
  present : ∀ hash ∈ tickets, hash ∈ current
  nodup : ∀ hash, ((tickets.tickets hash).map publicKey).Nodup
  valid : ∀ {hash msgCandidate}, current.lookup hash = some msgCandidate →
    ∀ ticket ∈ tickets.tickets hash, ValidTicket prim hash msgCandidate.header.scale ticket

variable {hash : Hash} {best : BestLastCandidate} {votes : UInt16} {current : CandidatePool}

theorem preventRepeatSign_eq_true_iff {tickets : TicketPool} {publicKey : Hash33} :
    preventRepeatSign tickets hash publicKey = true ↔
      publicKey ∉ (tickets.tickets hash).map SignAndKey.publicKey := by
  simp only [preventRepeatSign, all_eq_true, decide_eq_true_eq, mem_map, not_exists, not_and]
  exact ⟨fun h ticket hm heq => h ticket hm heq.symm, fun h ticket hm heq => h ticket hm heq.symm⟩

namespace TicketsValid

variable {prim : Primitives} {current : CandidatePool} {tickets : TicketPool} {hash : Hash}
  {msgCandidate : MsgCandidate} {ticket : SignAndKey}

theorem empty : TicketsValid prim current ∅ where
  present _ hm := absurd hm Finmap.notMem_empty
  nodup _ := nodup_nil
  valid _ _ hm := absurd hm not_mem_nil

section

variable (h : TicketsValid prim current tickets)
include h

theorem tickets_eq_nil (hash : Hash)
    (hf : hash ∉ current) : tickets.tickets hash = [] := by
  by_contra hne
  exact hf (h.present hash (mem_iff_tickets_ne_nil.2 hne))

/-- A candidate goes into the pool: a new one, or one with the scale of the candidate it
replaces. -/
theorem insert (hs : ∀ old ∈ current.lookup hash, old.header.scale = msgCandidate.header.scale) :
    TicketsValid prim (current.insert hash msgCandidate) tickets where
  present hash' hm := Finmap.mem_insert.2 (Or.inr (h.present hash' hm))
  nodup := h.nodup
  valid {hash' c} hl t ht := by
    obtain ⟨rfl, rfl⟩ | ⟨-, hl⟩ := lookup_insert_cases hl
    · have hm : hash' ∈ current :=
        h.present hash' (mem_iff_tickets_ne_nil.2 (ne_nil_of_mem ht))
      obtain ⟨old, ho⟩ := Finmap.mem_iff.1 hm
      exact hs old ho ▸ h.valid ho t ht
    · exact h.valid hl t ht

theorem updateTicketPool (hl : current.lookup hash = some msgCandidate)
    (hti : ValidTicket prim hash msgCandidate.header.scale ticket)
    (hn : ticket.publicKey ∉ (tickets.tickets hash).map publicKey) :
    TicketsValid prim current (tickets.updateTicketPool hash ticket) where
  present hash' hm := by
    rcases mem_updateTicketPool.1 hm with rfl | hm
    · exact Finmap.mem_of_lookup_eq_some hl
    · exact h.present hash' hm
  nodup hash' := by
    by_cases hh : hash' = hash
    · subst hh
      rw [tickets_updateTicketPool, map_append, map_singleton,
        nodup_append_comm, singleton_append, nodup_cons]
      exact ⟨hn, h.nodup hash'⟩
    · rw [tickets_updateTicketPool_of_ne hh]
      exact h.nodup hash'
  valid {hash' c} hc t ht := by
    by_cases hh : hash' = hash
    · subst hh
      obtain rfl : msgCandidate = c := Option.some.inj (hl.symm.trans hc)
      rw [tickets_updateTicketPool, mem_append, mem_singleton] at ht
      rcases ht with ht | rfl
      · exact h.valid hl t ht
      · exact hti
    · rw [tickets_updateTicketPool_of_ne hh] at ht
      exact h.valid hc t ht

end

theorem voted {env : Env} {privKey : PrivateKey} {rand : BitVec 256} {tickets' : TicketPool}
    {old : MsgCandidate} (hsi : env.prim.SignVerifies) (h : TicketsValid env.prim current tickets)
    (hl : current.lookup (msgCandidate.blockHash env.prim) = some old)
    (hs : old.header.scale = msgCandidate.header.scale)
    (hn : env.prim.pubKey privKey ∉
      (tickets.tickets (msgCandidate.blockHash env.prim)).map publicKey)
    (hvo : Voted env privKey rand msgCandidate tickets tickets') :
    TicketsValid env.prim current tickets' := by
  cases hvo with
  | abstained => exact h
  | voted hv hw =>
    exact h.updateTicketPool hl
      ⟨hsi privKey rand (msgCandidate.blockHash env.prim), _, hs ▸ hv, hw⟩ hn

end TicketsValid

/-! ### Runs that keep the tickets valid -/

section Runs

variable (env : Env) (privKey : PrivateKey) (node : Node env.prim)

/-- A candidate of the pool with the hash of the given one has the same scale. -/
def SameScale (msgCandidate : MsgCandidate) : Prop :=
  ∀ old ∈ node.pools.current.lookup (msgCandidate.blockHash env.prim),
    old.header.scale = msgCandidate.header.scale
  deriving Decidable

/-- The own candidate may be voted for: it is still in the pool, without an own ticket. -/
def MaySubmit : Prop :=
  ∀ msgCandidate ∈ node.pending, ∀ best ∈ node.chain.bestCandidate,
    msgCandidate.header.prevBlock = best.hash →
      msgCandidate.blockHash env.prim ∈ node.pools.current ∧ SameScale env node msgCandidate ∧
        preventRepeatSign node.tickets (msgCandidate.blockHash env.prim)
          (env.prim.pubKey privKey) = true
  deriving Decidable

/-- A candidate that the worker produces does not collide with one of the pool. -/
def MayGenerate : Except Panic Generated → Prop
  | .ok (.candidate _ msgCandidate) => SameScale env node msgCandidate
  | _ => True

instance (result : Except Panic Generated) : Decidable (MayGenerate env node result) :=
  match result with
  | .ok (.candidate _ _) => inferInstanceAs (Decidable (SameScale ..))
  | .ok .waiting | .ok .overweight | .ok .failed | .error _ => inferInstanceAs (Decidable True)

/-- The condition under which an event keeps the tickets valid. -/
def KeepsTickets : Event → Prop
  | .candidate msgCandidate _ _ => SameScale env node msgCandidate
  | .generate input =>
      MayGenerate env node (generateBlocks env node.chain node.pools.current privKey input)
  | .submit _ _ => MaySubmit env privKey node
  | _ => True

instance (event : Event) : Decidable (KeepsTickets env privKey node event) :=
  match event with
  | .candidate _ _ _ => inferInstanceAs (Decidable (SameScale ..))
  | .generate _ => inferInstanceAs (Decidable (MayGenerate ..))
  | .submit _ _ => inferInstanceAs (Decidable (MaySubmit ..))
  | .sign _ | .block _ | .syncBlock _ | .roundEnd _ _ => inferInstanceAs (Decidable True)

end Runs

variable {env : Env} {privKey : PrivateKey} {startup : Startup} {events : List Event}
  {node node' : Node env.prim} {event : Event}

/-- **One step keeps the tickets valid.** -/
theorem TicketsValid.step (hs : env.prim.SignVerifies)
    (h : TicketsValid env.prim node.pools.current node.tickets)
    (hk : KeepsTickets env privKey node event)
    (hst : DrcNode.step env privKey node event = .ok node') :
    TicketsValid env.prim node'.pools.current node'.tickets := by
  cases moves_of_step hst with
  | @admitted msgCandidate _ _ _ _ _ ha hv =>
    -- the candidate is new, so that there is no ticket for it yet
    refine (h.insert hk).voted hs (Finmap.lookup_insert _) rfl ?_ hv
    rw [h.tickets_eq_nil _ ha.fresh]
    exact not_mem_nil
  | incremented => exact h.insert hk
  | collected hc hn hke hve hvr hw =>
    exact h.updateTicketPool hc ⟨⟨_, hke, hve⟩, _, hvr, hw⟩ (preventRepeatSign_eq_true_iff.1 hn)
  | generated hg =>
    rw [KeepsTickets, hg] at hk
    exact h.insert hk
  | @submitted _ _ msgCandidate best _ hp hb hpr hv =>
    obtain ⟨hm, hsc, hn⟩ := hk msgCandidate hp best hb hpr
    obtain ⟨old, ho⟩ := Finmap.mem_iff.1 hm
    exact h.voted hs ho (hsc old ho) (preventRepeatSign_eq_true_iff.1 hn) hv
  | ended => exact .empty
  | _ => exact h

/-- **The tickets of a round are valid** when every own candidate that is sent is still in the pool
of the round and has no own ticket. -/
theorem tickets_valid (hsign : env.prim.SignVerifies)
    (hrun : Run (step env privKey) (KeepsTickets env privKey) (Node.start env startup) events
      node) : TicketsValid env.prim node.pools.current node.tickets := by
  refine hrun.invariant (P := fun node => TicketsValid env.prim node.pools.current node.tickets)
    TicketsValid.empty ?_
  exact fun _ _ _ h hk hs => h.step hsign hk hs

/-! ### The end of a round -/

section RoundEnd

variable (env : Env) (node : Node env.prim)

/-- What the best candidate is meant to be after a round: the genesis block, or a candidate of the
pool with enough votes. -/
def IsRoundBest (current : CandidatePool) (best : BestLastCandidate) : Prop :=
  (best.hash = env.genesisHash ∧ best.header = env.params.genesisBlock.header) ∨
    ∃ msgCandidate, current.lookup best.hash = some msgCandidate ∧
      isEnough best.votes msgCandidate.header.scale = true ∧
      best = electedCandidate msgCandidate best.hash best.votes

/-- The round can end, in whichever order its maps are visited. -/
def RoundCompletes : Prop :=
  ∀ order pointOrder, Possible node (.roundEnd order pointOrder) →
    ∃ node' best, voteProcess env node order pointOrder = .ok node' ∧
      node'.chain.bestCandidate = some best ∧ IsRoundBest env node.pools.current best

/-- The blocks that the round may commit do not crash the node. -/
def CommitReady : Prop :=
  ∀ pointOrder, Visits pointOrder node.pools.points →
    ∀ prevCandidate ∈ roundBlock node.pools.prev pointOrder,
      prevCandidate.header.scale ≠ 0 ∧
      (∀ prevNode ∈ node.chain.index.lookup prevCandidate.header.prevBlock,
        (headerContextWindow prevNode).estimate ≠ 0) ∧
      node.chain.orphanPool.waiting (prevCandidate.blockHash env.prim) = []

end RoundEnd

theorem exists_commit_eq_ok {ok : Node env.prim → Event → Prop}
    {pointOrder : Order (List MsgCandidate)}
    (hru : Run (step env privKey) ok (Node.start env startup) events node)
    (hr : CommitReady env node) (hv : Visits pointOrder node.pools.points) :
    ∃ chain, commit env (node.chain.setBestCandidate best) node.pools votes pointOrder =
      .ok chain := by
  rw [commit]
  cases hro : roundBlock node.pools.prev pointOrder with
  | none => exact ⟨_, rfl⟩
  | some prevCandidate =>
    obtain ⟨hs, he, hw⟩ := hr pointOrder hv prevCandidate hro
    obtain ⟨out, ho⟩ : ∃ out, processBlock env node.pools.current
        { msgBlock := msgCandidateToBlock prevCandidate, votes }
        (node.chain.setBestCandidate best) = .ok out :=
      exists_processBlock_eq_ok (hashIndex_subset_index hru) hs he hw
    exact ⟨out.1, Checked.map_eq_ok.2 ⟨out, ho, rfl⟩⟩

theorem isRoundBest_of_elect (h : elect env current hash votes = .ok best) :
    IsRoundBest env current best := by
  obtain hg | ⟨msgCandidate, hl, he, rfl⟩ := elect_cases h
  · exact .inl hg
  · exact .inr ⟨msgCandidate, hl, he, rfl⟩

theorem elect_completes_iff :
    (∃ best, elect env current hash votes = .ok best) ↔ current = ∅ ∨ hash ∈ current := by
  rw [elect]
  split_ifs with he
  · exact ⟨fun _ => .inl he, fun _ => ⟨_, rfl⟩⟩
  rw [Finmap.mem_iff]
  cases hl : current.lookup hash with
  | none =>
    constructor
    · rintro ⟨_, h⟩
      cases h
    · intro h
      obtain ⟨_, h⟩ := h.resolve_left he
      cases h
  | some msgCandidate =>
    refine ⟨fun _ => .inr ⟨msgCandidate, rfl⟩, fun _ => ?_⟩
    dsimp only
    split_ifs
    · exact ⟨_, rfl⟩
    · exact ⟨_, rfl⟩

/-- **When a round can end**: when the pool of candidates is empty, or there is a ticket, or a
candidate has the zero hash. -/
theorem voteProcess_completes_iff (hsign : env.prim.SignVerifies)
    (hrun : Run (step env privKey) (KeepsTickets env privKey) (Node.start env startup) events
      node) (hready : CommitReady env node) :
    RoundCompletes env node ↔
      node.pools.current = ∅ ∨ node.tickets ≠ ∅ ∨ 0 ∈ node.pools.current := by
  have hva : TicketsValid env.prim node.pools.current node.tickets :=
    hrun.invariant (P := fun node => TicketsValid env.prim node.pools.current node.tickets)
      TicketsValid.empty fun _ _ _ h hk hst => h.step hsign hk hst
  refine ⟨fun hco => ?_, fun hpo => ?_⟩
  · obtain ⟨order, hv⟩ := exists_visits node.tickets
    obtain ⟨pointOrder, hpv⟩ := exists_visits node.pools.points
    obtain ⟨node', -, hvo, -⟩ := hco order pointOrder ⟨hv, hpv⟩
    obtain ⟨hash, votes, best, chain, hm, hel, -⟩ := voteProcess_eq_ok_iff.1 hvo
    obtain ⟨hash', hm', hs⟩ := @getMaxVotes_spec env.prim _ _ order hva.present hv
    obtain ⟨rfl, -⟩ := Prod.mk.inj (Except.ok.inj (hm.symm.trans hm'))
    have hr := elect_completes_iff.1 ⟨best, hel⟩
    -- without a ticket the zero hash is read
    rcases hs with ⟨-, rfl⟩ | he
    · exact hr.imp_right Or.inr
    · exact Or.inr (Or.inl fun hem => Finmap.notMem_empty (hem ▸ he.1))
  · intro order pointOrder hp
    obtain ⟨hash, hm, hs⟩ := @getMaxVotes_spec env.prim _ _ order hva.present hp.1
    have hr : node.pools.current = ∅ ∨ hash ∈ node.pools.current := by
      rcases hs with ⟨hem, rfl⟩ | he
      · exact hpo.imp_right fun h => h.resolve_left (not_not.2 hem)
      · exact Or.inr (hva.present hash he.1)
    obtain ⟨best, hel⟩ := elect_completes_iff.2 hr
    obtain ⟨chain, hc⟩ := exists_commit_eq_ok hrun hready hp.2
    refine ⟨node.nextRound chain, best,
      voteProcess_eq_ok_iff.2 ⟨hash, _, best, chain, hm, hel, hc, rfl⟩, ?_,
      isRoundBest_of_elect hel⟩
    exact bestCandidate_commit hc

/-! ### Rounds that go wrong -/

/-- A candidate from far above the tip, with a scale of three hundred. -/
def strayCandidate : MsgCandidate :=
  { secondCandidate.withScale 300 with sigwit := ⟨3⟩ }

def strayHash : Hash := strayCandidate.blockHash sampleEnv.prim

/-- A vote for a block, with the given key. -/
def sampleSign (key : PrivateKey) (hash : Hash) : MsgSign :=
  ⟨hash, sampleEnv.prim.sign64 key 0 hash, sampleEnv.prim.pubKey key⟩

/-- Before the first candidate is sent, the round ends without a quorum. -/
def lateSubmit : List Event :=
  [.roundEnd [] [], .generate (sampleInput 10), .candidate strayCandidate [] 0,
    .sign (sampleSign 9 strayHash),
    .roundEnd [sampleTickets strayHash 9 []]
      [⟨sampleEnv.genesisHash, [firstCandidate]⟩, ⟨firstHash, [strayCandidate]⟩],
    .submit [] 0]

/-- The node makes the first candidate. Before it is sent, a vote for it with the key of the node
arrives. -/
def repeatedVote : List Event :=
  [.roundEnd [] [], .generate (sampleInput 10), .sign (sampleSign sampleKey firstHash),
    .submit [sampleTickets firstHash sampleKey []] 0]

/-- The own vote leaves a ticket for a block that is not in the pool, or a second ticket with one
key. -/
theorem submit_invalidates_tickets : (∃ node, Reachable sampleEnv sampleKey {} lateSubmit node ∧
      firstHash ∈ node.tickets ∧ firstHash ∉ node.pools.current) ∧
    ∃ node, Reachable sampleEnv sampleKey {} repeatedVote node ∧
      ¬((node.tickets.tickets firstHash).map publicKey).Nodup :=
  ⟨exists_run (by decide +kernel), exists_run (by decide +kernel)⟩

/-- The node votes for the first candidate, and so does another one. -/
theorem tickets_valid_firstCandidate : ∃ node,
    Run (step sampleEnv sampleKey) (KeepsTickets sampleEnv sampleKey) (Node.start sampleEnv {})
      [.roundEnd [] [], .generate (sampleInput 10), .submit [] 0, .sign (sampleSign 9 firstHash)]
      node ∧
    node.tickets.tickets firstHash = [sampleTicket sampleKey firstHash, sampleTicket 9 firstHash] ∧
    TicketsValid sampleEnv.prim node.pools.current node.tickets :=
  exists_run_and (by decide +kernel) fun _ hr _ =>
    tickets_valid Primitives.polynomial_signVerifies hr

def secondHash : Hash := secondCandidate.blockHash sampleEnv.prim

/-- The rounds up to the vote for the second candidate. -/
def secondVote : List Event := firstRounds ++ [.generate (sampleInput 20), .submit [] 0]

/-- The second candidate points to the first. -/
def secondPoints : Order (List MsgCandidate) := [⟨firstHash, [secondCandidate]⟩]

/-- The second candidate with the scale zero. -/
def zeroScale : MsgCandidate := secondCandidate.withScale 0

def zeroScaleHash : Hash := zeroScale.blockHash sampleEnv.prim

/-- A candidate from far above the tip that points to it. -/
def zeroPointer : MsgCandidate :=
  { strayCandidate with
    header := { strayCandidate.header with prevBlock := zeroScaleHash }
    sigwit := ⟨5⟩ }

def zeroPointerHash : Hash := zeroPointer.blockHash sampleEnv.prim

/-- A candidate points to one with the scale zero, and gets a vote. -/
def zeroScaleRounds : List Event :=
  secondVote ++
    [.candidate zeroScale [sampleTickets secondHash sampleKey []] 0,
      .roundEnd [sampleTickets secondHash sampleKey []]
        [⟨firstHash, [secondCandidate, zeroScale]⟩],
      .candidate zeroPointer [] 0, .sign (sampleSign 9 zeroPointerHash)]

/-- A round without votes panics, and so does one that commits a candidate with the scale zero. -/
theorem voteProcess_panics :
    (∃ node, Reachable sampleEnv sampleKey {} [.roundEnd [] [], .generate (sampleInput 10)] node ∧
      Possible node (.roundEnd [] [⟨sampleEnv.genesisHash, [firstCandidate]⟩]) ∧
      voteProcess sampleEnv node [] [⟨sampleEnv.genesisHash, [firstCandidate]⟩] =
        .error .nilPointer) ∧
    ∃ node, Reachable sampleEnv sampleKey {} zeroScaleRounds node ∧ Possible node
        (.roundEnd [sampleTickets zeroPointerHash 9 []] [⟨zeroScaleHash, [zeroPointer]⟩]) ∧
      voteProcess sampleEnv node [sampleTickets zeroPointerHash 9 []]
        [⟨zeroScaleHash, [zeroPointer]⟩] = .error .divideByZero :=
  ⟨exists_run (by decide +kernel), exists_run (by decide +kernel)⟩

/-- After the vote the round can end, and commits the first candidate. -/
theorem voteProcess_completes_secondVote : ∃ node,
    Run (step sampleEnv sampleKey) (KeepsTickets sampleEnv sampleKey)
      (Node.start sampleEnv {}) secondVote node ∧
    node.tickets ≠ ∅ ∧ roundBlock node.pools.prev secondPoints = some firstCandidate ∧
    RoundCompletes sampleEnv node := by
  refine exists_run_of (P := fun node => node.tickets ≠ ∅ ∧
    roundBlock node.pools.prev secondPoints = some firstCandidate ∧
    Visits secondPoints node.pools.points ∧
    (∀ prevNode ∈ node.chain.index.lookup firstCandidate.header.prevBlock,
      (headerContextWindow prevNode).estimate ≠ 0) ∧
    node.chain.orphanPool.waiting (firstCandidate.blockHash sampleEnv.prim) = [])
    (by decide +kernel) ?_
  rintro node hr ⟨hne, hb, hpv, he, hw⟩
  refine ⟨hne, hb, (voteProcess_completes_iff Primitives.polynomial_signVerifies hr ?_).2
    (Or.inr (Or.inl hne))⟩
  intro pointOrder hpv' prevCandidate hp
  -- the map has one entry, so that there is one order
  obtain rfl : pointOrder = secondPoints := perm_singleton.1 (hpv'.perm hpv)
  obtain rfl : firstCandidate = prevCandidate := Option.some.inj (hb.symm.trans hp)
  exact ⟨by decide +kernel, he, hw⟩

end DrcNode
