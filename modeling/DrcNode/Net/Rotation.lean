import DrcNode.Net.Tickets

/-!
# The rotation of the pools at the end of a round

At the end of a round the current pools are to become the previous ones, and the current ones are
emptied. For the candidates this is so. For the tickets it is not: `SetPrevTicketPool` assigns the
variable of the current pool, so that the previous pool keeps what it had. As nothing else writes
it, it is empty for as long as the node runs.

## Main results

* `rotated_iff`.

Source: `voteProcess` in `netsync/manager.go`; `GetTicketPool`, `GetPrevTicketPool`,
`SetTicketPool` and `SetPrevTicketPool` in `vote/util.go`.
-/

namespace DrcNode

open Checked

/-! ### The ticket pools -/

/-- `ticketPool` and `prevTicketPool`. -/
structure TicketPools where
  ticketPool : TicketPool
  prevTicketPool : TicketPool

namespace TicketPools

def setTicketPool (pools : TicketPools) (pool : TicketPool) : TicketPools :=
  { pools with ticketPool := pool }

/-- `SetPrevTicketPool`. It assigns the same variable as `SetTicketPool`. -/
def setPrevTicketPool (pools : TicketPools) (pool : TicketPool) : TicketPools :=
  { pools with ticketPool := pool }

/-- The end of `voteProcess`: the current tickets are handed to `SetPrevTicketPool`, and an empty
pool to `SetTicketPool`. -/
def rotate (pools : TicketPools) : TicketPools :=
  (pools.setPrevTicketPool pools.ticketPool).setTicketPool ∅

end TicketPools

/-! ### A node with both ticket pools -/

/-- A node, with the tickets of the last round besides those of the current one. -/
structure VotingNode (prim : Primitives) where
  node : Node prim
  prevTicketPool : TicketPool

namespace VotingNode

section Steps

variable (env : Env) (privKey : PrivateKey)

def ticketPools {prim : Primitives} (state : VotingNode prim) : TicketPools :=
  ⟨state.node.tickets, state.prevTicketPool⟩

/-- A node that has just been started. -/
def start (startup : Startup) : VotingNode env.prim := ⟨.start env startup, ∅⟩

/-- `voteProcess`, with both ticket pools. -/
def voteProcess (state : VotingNode env.prim) (order : Order Tickets)
    (pointOrder : Order (List MsgCandidate)) : Except Panic (VotingNode env.prim) :=
  (DrcNode.voteProcess env state.node order pointOrder).map fun node =>
    let pools := state.ticketPools.rotate
    ⟨{ node with tickets := pools.ticketPool }, pools.prevTicketPool⟩

/-- The node after an event. Only the end of a round touches the previous tickets. -/
def step (state : VotingNode env.prim) : Event → Except Panic (VotingNode env.prim)
  | .roundEnd order pointOrder => state.voteProcess env order pointOrder
  | event => (DrcNode.step env privKey state.node event).map fun node => { state with node }

end Steps

variable {env : Env} {privKey : PrivateKey} {startup : Startup} {state state' : VotingNode env.prim}

/-- What the end of a round is to do. -/
structure Rotated (state state' : VotingNode env.prim) : Prop where
  prevTickets : state'.prevTicketPool = state.node.tickets
  prevCandidates : state'.node.pools.prev = state.node.pools.current
  tickets : state'.node.tickets = ∅
  candidates : state'.node.pools.current = ∅
  points : state'.node.pools.points = ∅

theorem voteProcess_spec {order : Order Tickets} {pointOrder : Order (List MsgCandidate)}
    (h : state.voteProcess env order pointOrder = .ok state') :
    state'.prevTicketPool = state.prevTicketPool ∧
      state'.node.pools = ⟨state.node.pools.current, ∅, ∅⟩ ∧ state'.node.tickets = ∅ := by
  obtain ⟨node', hp, rfl⟩ := map_eq_ok.1 h
  obtain ⟨_, _, _, _, _, _, _, rfl⟩ := voteProcess_eq_ok_iff.1 hp
  exact ⟨rfl, rfl, rfl⟩

/-- **When the pools are rotated**: when the previous tickets were already equal to the current
ones. -/
theorem rotated_iff {order : Order Tickets} {pointOrder : Order (List MsgCandidate)}
    (h : state.voteProcess env order pointOrder = .ok state') :
    Rotated state state' ↔ state.prevTicketPool = state.node.tickets := by
  obtain ⟨hp, hpo, ht⟩ := voteProcess_spec h
  constructor
  · intro hr
    rw [← hp]
    exact hr.prevTickets
  · intro heq
    refine ⟨hp.trans heq, ?_, ht, ?_, ?_⟩ <;> rw [hpo]

theorem step_eq_ok {event : Event} (h : state.step env privKey event = .ok state') :
    DrcNode.step env privKey state.node event = .ok state'.node ∧
      state'.prevTicketPool = state.prevTicketPool := by
  cases event with
  | roundEnd order pointOrder =>
    obtain ⟨node', hp, rfl⟩ := map_eq_ok.1 h
    refine ⟨hp.trans (congrArg _ ?_), rfl⟩
    obtain ⟨_, _, _, _, _, _, _, rfl⟩ := voteProcess_eq_ok_iff.1 hp
    rfl
  | _ =>
    obtain ⟨node', hs, rfl⟩ := map_eq_ok.1 h
    exact ⟨hs, rfl⟩

/-- **The previous tickets are never set**: in every state a node reaches there are none. -/
theorem prevTicketPool_of_run {ok : VotingNode env.prim → Event → Prop} {events : List Event}
    (hr : Runs.Run (step env privKey) ok (start env startup) events state) :
    state.prevTicketPool = ∅ := by
  refine hr.invariant (P := fun state => state.prevTicketPool = ∅) rfl ?_
  intro state event state' he _ hs
  exact (step_eq_ok hs).2.trans he

end VotingNode

open VotingNode

/-- A round with a vote, in a state that has the same tickets as the previous ones. -/
theorem rotated_sameTickets : ∃ state : VotingNode sampleEnv.prim,
    state.node.tickets.tickets firstHash = [sampleTicket sampleKey firstHash] ∧
    firstHash ∈ state.node.pools.current ∧
    ∃ state', state.voteProcess sampleEnv [sampleTickets firstHash sampleKey []]
        [⟨sampleEnv.genesisHash, [firstCandidate]⟩] = .ok state' ∧ Rotated state state' := by
  obtain ⟨state, -, ht, hc, hs⟩ : ∃ state, Runs.Run (VotingNode.step sampleEnv sampleKey)
      (fun _ _ => True) (start sampleEnv {})
      [.roundEnd [] [], .generate (sampleInput 10), .submit [] 0] state ∧
      state.node.tickets.tickets firstHash = [sampleTicket sampleKey firstHash] ∧
      firstHash ∈ state.node.pools.current ∧
      (({ state with prevTicketPool := state.node.tickets } : VotingNode sampleEnv.prim).voteProcess
        sampleEnv [sampleTickets firstHash sampleKey []]
        [⟨sampleEnv.genesisHash, [firstCandidate]⟩]).toOption.isSome = true :=
    Runs.exists_run (by decide +kernel)
  obtain ⟨state', hs⟩ := Option.isSome_iff_exists.1 hs
  have hp := toOption_eq_some.1 hs
  exact ⟨⟨state.node, state.node.tickets⟩, ht, hc, state', hp, (rotated_iff hp).2 rfl⟩

/-- After a round with a vote the previous tickets are empty. -/
theorem votes_not_rotated : ∃ state,
    Runs.Run (VotingNode.step sampleEnv sampleKey) (fun _ _ => True) (start sampleEnv {})
      [.roundEnd [] [], .generate (sampleInput 10), .submit [] 0] state ∧
    state.node.tickets.tickets firstHash = [sampleTicket sampleKey firstHash] ∧
    ∃ state', state.voteProcess sampleEnv [sampleTickets firstHash sampleKey []]
        [⟨sampleEnv.genesisHash, [firstCandidate]⟩] = .ok state' ∧
      state'.prevTicketPool = ∅ ∧ ¬Rotated state state' := by
  refine Runs.exists_run_of (P := fun state =>
    state.node.tickets.tickets firstHash = [sampleTicket sampleKey firstHash] ∧
      (state.voteProcess sampleEnv [sampleTickets firstHash sampleKey []]
        [⟨sampleEnv.genesisHash, [firstCandidate]⟩]).toOption.isSome = true) (by decide +kernel) ?_
  rintro state hru ⟨ht, hso⟩
  obtain ⟨state', hs'⟩ := Option.isSome_iff_exists.1 hso
  have hp := toOption_eq_some.1 hs'
  have hpr := prevTicketPool_of_run hru
  refine ⟨ht, state', hp, (voteProcess_spec hp).1.trans hpr, ?_⟩
  intro hr
  have he : state.node.tickets = ∅ := hr.prevTickets.symm.trans ((voteProcess_spec hp).1.trans hpr)
  rw [he] at ht
  cases ht

end DrcNode
