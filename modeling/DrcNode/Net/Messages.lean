import DrcNode.Chain.Restart
import DrcNode.Net.Tickets

/-!
# Messages that crash a node

For three handlers it is said which messages they return on, exactly. A candidate is compared with
the best candidate, which a node has not before the end of its first round, and the threshold for
the vote divides by the scale that the candidate declares; so does that of a vote, which is verified
with a public key whose parse error is only logged. A peer that asks for a block that is not found
makes the handler read it.

## Main results

* `blocks_and_candidates_return_iff`, `signHandled_iff`, `answered_iff`.

Source: `handleCandidateMsg`, `handleSignMsg`, `CollectVotes` and `handleGetBlockMsg` in
`netsync/manager.go`; `BlockByHeight` and `dbFetchBlockByNode` in `blockchain/chainio.go`;
`BlockVote` in `mining/cpuminer/vote.go`.
-/

namespace DrcNode

open Checked Finmap List BlockChain Option

/-! ### The election with candidates missing -/

section Election

variable {prim : Primitives} {current : CandidatePool} {order : Order Tickets}
  {best : Nat × Hash}

/-- **Two blocks lead with equally many tickets, and one of them has no candidate in the pool.** -/
def UnreadTie (current : CandidatePool) (order : Order Tickets) : Prop :=
  ∃ before entry after, order = before ++ entry :: after ∧
    (∀ other ∈ before, other.2.list.length ≤ entry.2.list.length) ∧
    ∃ other ∈ before, other.2.list.length = entry.2.list.length ∧
      (entry.1 ∉ current ∨ other.1 ∉ current)

theorem getMaxVotesStep_eq_error {entry : Sigma fun _ : Hash => Tickets} {p : Panic} :
    getMaxVotesStep prim current best entry = .error p ↔
      p = .nilPointer ∧ entry.2.list.length = best.1 ∧ (entry.1 ∉ current ∨ best.2 ∉ current) := by
  simp only [getMaxVotesStep, mem_iff]
  by_cases hlt : best.1 < entry.2.list.length
  · rw [if_pos hlt]
    exact iff_of_false (fun h => by cases h) fun h => absurd h.2.1 hlt.ne'
  rw [if_neg hlt]
  by_cases heq : entry.2.list.length = best.1
  · rw [if_pos heq]
    cases he : current.lookup entry.1 with
    | none => simp [eq_comm, heq]
    | some msgCandidate =>
      cases hb : current.lookup best.2 with
      | none => simp [eq_comm, heq]
      | some maxCandidate =>
        dsimp only
        split_ifs <;> simp
  · rw [if_neg heq]
    exact iff_of_false (fun h => by cases h) fun h => heq h.2.1

/-- The loop has read every block with as many tickets as the leader, unless it is the leader. -/
theorem mem_current_of_getMaxVotesLoop {before : Order Tickets}
    (h : before.foldlM (getMaxVotesStep prim current) (0, 0) = .ok best) :
    ∀ other ∈ before, other.2.list.length = best.1 → other.1 ∈ current ∨ other.1 = best.2 := by
  induction before using List.reverseRecOn generalizing best with
  | nil => exact fun _ ho => by cases ho
  | append_singleton before entry ih =>
    rw [foldlM_append, bind_eq_ok] at h
    obtain ⟨best₁, hb, hl⟩ := h
    rw [foldlM_cons, bind_eq_ok] at hl
    obtain ⟨best₂, hs, hl⟩ := hl
    cases hl
    intro other ho hc
    obtain ⟨-, hle, hle'⟩ := getMaxVotesStep_cases hs
    have hbo := (getMaxVotesLoop_spec hb).2
    simp only [getMaxVotesStep] at hs
    rcases mem_append.1 ho with hm | hm
    · have hlh : other.2.list.length ≤ best₁.1 :=
        hbo _ (mem_cons_of_mem _ (mem_map_of_mem (f := ballot) hm))
      have hol := ih hb other hm (by omega)
      split_ifs at hs with hlt heq
      · cases hs
        omega
      · split at hs
        · rename_i he hbe
          refine .inl (hol.elim id fun hlr => ?_)
          rw [hlr]
          exact mem_of_lookup_eq_some hbe
        · cases hs
      · cases hs
        exact hol
    · obtain rfl := List.mem_singleton.1 hm
      split_ifs at hs with hlt heq
      · cases hs
        exact .inr rfl
      · split at hs
        · rename_i he hbe
          exact .inl (mem_of_lookup_eq_some he)
        · cases hs
      · cases hs
        exact absurd hc heq

/-- **When the election returns.** -/
theorem exists_getMaxVotes_eq_ok_iff :
    (∃ best, getMaxVotes prim current order = .ok best) ↔ ¬UnreadTie current order := by
  constructor
  · rintro ⟨best, h⟩ ⟨before, entry, after, rfl, hle, other, ho, hc, hm⟩
    rw [getMaxVotes, map_eq_ok] at h
    obtain ⟨best', hl, -⟩ := h
    rw [foldlM_append, bind_eq_ok] at hl
    obtain ⟨leader, hb, hl⟩ := hl
    obtain ⟨hlr, hbo⟩ := getMaxVotesLoop_spec hb
    -- the leader before the entry has as many tickets as both
    have hge : other.2.list.length ≤ leader.1 :=
      hbo _ (mem_cons_of_mem _ (mem_map_of_mem (f := ballot) ho))
    have hld : leader.1 ≤ entry.2.list.length := by
      rcases mem_cons.1 hlr with rfl | hme
      · exact Nat.zero_le _
      · obtain ⟨g, hg, rfl⟩ := mem_map.1 hme
        exact hle g hg
    have hr := mem_current_of_getMaxVotesLoop hb other ho (by omega)
    have hp : getMaxVotesStep prim current leader entry = .error .nilPointer := by
      refine getMaxVotesStep_eq_error.2 ⟨rfl, by omega, ?_⟩
      rcases hm with he | ho'
      · exact .inl he
      · exact .inr (hr.resolve_left ho' ▸ ho')
    rw [foldlM_cons, hp] at hl
    cases hl
  · intro ht
    have hl := @exists_foldlM_eq_ok _ _ _ (getMaxVotesStep prim current)
      (fun before best => before.foldlM (getMaxVotesStep prim current) (0, 0) = .ok best)
      order [] order (0, 0) ?_ rfl rfl
    · obtain ⟨best, hbe, -⟩ := hl
      exact ⟨_, by rw [getMaxVotes, hbe]; rfl⟩
    · intro before entry after leader hsp hb
      cases hs : getMaxVotesStep prim current leader entry with
      | ok best =>
        refine ⟨best, rfl, ?_⟩
        rw [foldlM_append, hb]
        exact bind_eq_ok.2 ⟨leader, rfl, by rw [foldlM_cons, hs]; rfl⟩
      | error p =>
        obtain ⟨-, hc, hm⟩ := getMaxVotesStep_eq_error.1 hs
        obtain ⟨hlr, hbo⟩ := getMaxVotesLoop_spec hb
        have hpo : 0 < entry.2.list.length := length_pos_iff.2 entry.2.ne_nil
        rcases mem_cons.1 hlr with rfl | hme
        · exact absurd hc hpo.ne'
        · obtain ⟨other, ho, rfl⟩ := mem_map.1 hme
          refine absurd ⟨before, entry, after, hsp, fun g hg => ?_, other, ho, hc.symm, hm⟩ ht
          exact (hbo _ (mem_cons_of_mem _ (mem_map_of_mem hg))).trans hc.ge

end Election

/-! ### Candidates -/

section Candidates

variable {env : Env} {privKey : PrivateKey} {node : Node env.prim} {msgCandidate : MsgCandidate}
  {order : Order Tickets} {rand : BitVec 256} {current : CandidatePool}

/-- The own vote crashes the node. -/
def VotePanics (env : Env) (current : CandidatePool) (tickets : TicketPool) (order : Order Tickets)
    (msgCandidate : MsgCandidate) : Prop :=
  UnreadTie current order ∨ msgCandidate.header.scale = 0 ∧
    tickets.maxVotes - tickets.getVotes (msgCandidate.blockHash env.prim) < 100

theorem exists_votesVerge_eq_ok_iff {scale : UInt16} :
    (∃ verge, votesVerge scale = .ok verge) ↔ scale ≠ 0 := by
  rw [votesVerge]
  split_ifs with h
  · exact iff_of_false (fun ⟨_, h⟩ => by cases h) (not_not.2 h)
  · exact iff_of_true ⟨_, rfl⟩ h

theorem exists_blockVote_eq_ok_iff {tickets : TicketPool} (hv : Visits order tickets) :
    (∃ tickets', blockVote env current privKey tickets order rand msgCandidate = .ok tickets') ↔
      ¬VotePanics env current tickets order msgCandidate := by
  have hm := @exists_getMaxVotes_eq_ok_iff env.prim current order
  rw [VotePanics, not_or, ← hm, not_and, blockVote, exists_bind_eq_ok]
  constructor
  · rintro ⟨advantage, ha, tickets', h⟩
    rw [isAdvantage, map_eq_ok] at ha
    obtain ⟨⟨hash, votes⟩, hm, rfl⟩ := ha
    refine ⟨⟨_, hm⟩, fun hz hlt => ?_⟩
    rw [← (getMaxVotes_votes hv hm).2] at hlt
    rw [if_pos (decide_eq_true hlt), bind_eq_ok] at h
    obtain ⟨verge, hve, -⟩ := h
    exact exists_votesVerge_eq_ok_iff.1 ⟨verge, hve⟩ hz
  · rintro ⟨⟨⟨hash, votes⟩, hm⟩, hs⟩
    rw [← (getMaxVotes_votes hv hm).2] at hs
    refine ⟨_, by rw [isAdvantage, hm]; rfl, ?_⟩
    split_ifs with hlt
    · rw [exists_bind_eq_ok]
      obtain ⟨verge, hve⟩ := exists_votesVerge_eq_ok_iff.2 fun hz =>
        hs hz (of_decide_eq_true hlt)
      refine ⟨verge, hve, ?_⟩
      split_ifs
      · exact ⟨_, rfl⟩
      · exact ⟨_, rfl⟩
    · exact ⟨_, rfl⟩

/-- **A candidate crashes the node.** -/
structure CandidatePanics (env : Env) (node : Node env.prim) (msgCandidate : MsgCandidate)
    (order : Order Tickets) : Prop where
  ahead : msgCandidate.sigwit.height - Int32.ofNat node.chain.stateSnapshot.height = 2
  fresh : msgCandidate.blockHash env.prim ∉ node.pools.current
  not_orphan : msgCandidate.blockHash env.prim ∉ node.chain.orphanPool.orphans
  panics : node.chain.bestCandidate = none ∨
    ∃ best, node.chain.bestCandidate = some best ∧
      ((processCandidateWindow node.chain.index best).estimate = 0 ∨
        BlockChain.CandidateAccepted env node.chain node.pools msgCandidate best true ∧
          node.voteBool = true ∧
          VotePanics env (node.pools.addCandidate env.prim best.hash msgCandidate).current
            node.tickets order msgCandidate)

theorem noPanic_checkCandidateSanity {prim : Primitives} {seed : Hash} {pi : Nat} :
    (checkCandidateSanity prim current msgCandidate seed pi).NoPanic :=
  (noPanic_checkBlockHeaderSanity msgCandidate.header).bind fun _ _ =>
    (noPanic_checkBody (msgCandidateToBlock msgCandidate)).bind fun _ _ => .ok

theorem exists_processCandidate_eq_ok_iff
    (hf : msgCandidate.blockHash env.prim ∉ node.pools.current)
    (ho : msgCandidate.blockHash env.prim ∉ node.chain.orphanPool.orphans) :
    (∃ out, processCandidate env node.chain node.pools msgCandidate = .ok out) ↔
      ∃ best, node.chain.bestCandidate = some best ∧
        (processCandidateWindow node.chain.index best).estimate ≠ 0 := by
  simp only [processCandidate, if_neg hf, if_neg ho]
  cases hb : node.chain.bestCandidate with
  | none =>
    refine iff_of_false ?_ ?_
    · rintro ⟨_, h⟩
      cases h
    · rintro ⟨_, h, -⟩
      cases h
  | some best =>
    by_cases he : (processCandidateWindow node.chain.index best).estimate = 0
    · refine iff_of_false ?_ ?_
      · rintro ⟨out, h⟩
        dsimp only at h
        rw [he] at h
        cases h
      · rintro ⟨best', hb', hne⟩
        cases hb'
        exact hne he
    · refine iff_of_true ?_ ⟨best, rfl, he⟩
      refine (noPanic_blockVerge he).andThen fun pi _ =>
        noPanic_checkCandidateSanity.andThen fun vb _ => ?_
      split_ifs
      · exact ⟨_, rfl⟩
      · exact ⟨_, rfl⟩

/-- **Which candidates a node handles without a panic.** -/
theorem exists_handleCandidateMsg_eq_ok_iff (hv : Visits order node.tickets) :
    (∃ node', handleCandidateMsg env privKey node msgCandidate order rand = .ok node') ↔
      ¬CandidatePanics env node msgCandidate order := by
  by_cases hah : msgCandidate.sigwit.height - Int32.ofNat node.chain.stateSnapshot.height = 2
  swap
  · refine iff_of_true ?_ fun h => hah h.ahead
    simp only [handleCandidateMsg]
    split_ifs
    · exact ⟨_, rfl⟩
    · exact ⟨_, rfl⟩
    · exact ⟨_, rfl⟩
  simp only [handleCandidateMsg, if_pos hah]
  rw [exists_bind_eq_ok]
  by_cases hf : msgCandidate.blockHash env.prim ∈ node.pools.current
  · refine iff_of_true ⟨_, if_pos hf, _, rfl⟩ fun h => h.fresh hf
  by_cases ho : msgCandidate.blockHash env.prim ∈ node.chain.orphanPool.orphans
  · refine iff_of_true ⟨_, (if_neg hf).trans (if_pos ho), _, rfl⟩ fun h =>
      h.not_orphan ho
  have hpr := @exists_processCandidate_eq_ok_iff env node msgCandidate hf ho
  constructor
  · rintro ⟨⟨pools, result⟩, hou, node', hn'⟩ ⟨-, -, -, hp⟩
    obtain ⟨best, hb, he⟩ := hpr.1 ⟨_, hou⟩
    rcases hp with hno | ⟨best', hb', hz | ⟨ha, hvo, hp⟩⟩
    · rw [hb] at hno
      cases hno
    · rw [hb, some.injEq] at hb'
      exact he (hb' ▸ hz)
    -- the candidate is accepted and voted for
    have hok := processCandidate_eq_ok_iff.2 ⟨best', ha, rfl⟩
    rw [hok] at hou
    cases hou
    simp only [Bool.true_and, if_pos hvo] at hn'
    rw [bind_eq_ok] at hn'
    obtain ⟨tickets, hbv, -⟩ := hn'
    exact (exists_blockVote_eq_ok_iff hv).1 ⟨tickets, hbv⟩ hp
  · intro hn
    have hb : ∃ best, node.chain.bestCandidate = some best ∧
        (processCandidateWindow node.chain.index best).estimate ≠ 0 := by
      cases hb : node.chain.bestCandidate with
      | none => exact absurd ⟨hah, hf, ho, .inl hb⟩ hn
      | some best =>
        exact ⟨best, rfl, fun hz =>
          hn ⟨hah, hf, ho, .inr ⟨best, hb, .inl hz⟩⟩⟩
    obtain ⟨⟨pools, result⟩, hou⟩ := hpr.2 hb
    refine ⟨(pools, result), hou, ?_⟩
    obtain ⟨best, vb, rfl, ha, rfl⟩ | ⟨e, rfl, rfl⟩ := processCandidate_cases hou
    · dsimp only
      split_ifs with hvo
      · rw [exists_bind_eq_ok]
        obtain ⟨rfl, hvb⟩ := Bool.and_eq_true_iff.1 hvo
        obtain ⟨tickets, ht⟩ := (exists_blockVote_eq_ok_iff hv).2 fun hp =>
          hn ⟨hah, hf, ho, .inr ⟨best, ha.best_eq, .inr ⟨ha, hvb, hp⟩⟩⟩
        exact ⟨tickets, ht, _, rfl⟩
      · exact ⟨_, rfl⟩
    · exact ⟨_, rfl⟩

/-- **Which blocks and candidates crash a node**, in every state, in every order of the ticket
pool. -/
theorem blocks_and_candidates_return_iff (privKey : PrivateKey) (node : Node env.prim) :
    (∀ handed : BlockChain.Handed,
      (∃ out, handed.call env node.chain = .ok out) ↔ ¬handed.Panics env node.chain) ∧
    ∀ (msgCandidate : MsgCandidate) (order : Order Tickets) (rand : BitVec 256),
      Visits order node.tickets →
        ((∃ node', handleCandidateMsg env privKey node msgCandidate order rand = .ok node') ↔
          ¬CandidatePanics env node msgCandidate order) :=
  ⟨exists_call_eq_ok_iff, fun _ _ _ hv => exists_handleCandidateMsg_eq_ok_iff hv⟩

end Candidates

/-- After the first rounds the second candidate is handled. -/
theorem blocks_and_candidates_return_secondCandidate : ∃ node,
    Reachable sampleEnv sampleKey {} firstRounds node ∧
    ∃ node', handleCandidateMsg sampleEnv sampleKey node secondCandidate [] 0 = .ok node' := by
  refine Runs.exists_run_of (P := fun node => node.chain.bestCandidate = some firstBest ∧
    (processCandidateWindow node.chain.index firstBest).estimate ≠ 0 ∧ Visits [] node.tickets)
    (by decide +kernel) ?_
  rintro node - ⟨hb, he, hv⟩
  refine ((blocks_and_candidates_return_iff sampleKey node).2 _ _ 0 hv).2 ?_
  rintro ⟨-, -, -, hn | ⟨best, hb', hz | ⟨-, -, ht | ⟨hs, -⟩⟩⟩⟩
  · rw [hb] at hn
    cases hn
  · rw [hb, some.injEq] at hb'
    exact he (hb' ▸ hz)
  · obtain ⟨before, entry, after, hsp, -⟩ := ht
    exact absurd hsp (append_ne_nil_of_right_ne_nil _ (cons_ne_nil _ _)).symm
  · exact absurd hs (by decide +kernel)

/-- A node that has just started crashes on a candidate, and on a block that declares the scale
zero; later it crashes on a candidate that does. -/
theorem blocks_and_candidates_panic :
    handleCandidateMsg sampleEnv sampleKey (Node.start sampleEnv {}) secondCandidate [] 0 =
      .error .nilPointer ∧
    BlockChain.Handed.call sampleEnv (.createChainState sampleEnv)
      (.block ∅ { msgBlock := { sampleBlock with
        header := { sampleBlock.header with scale := 0 } } }) = .error .divideByZero ∧
    ∃ node, Reachable sampleEnv sampleKey {} firstRounds node ∧
      handleCandidateMsg sampleEnv sampleKey node zeroScale [] 0 = .error .divideByZero :=
  ⟨by decide +kernel, by decide +kernel, Runs.exists_run (by decide +kernel)⟩

/-! ### Votes -/

section Votes

variable {env : Env} {node : Node env.prim} {sign : MsgSign}

section

variable (env : Env) (node : Node env.prim) (sign : MsgSign)

/-- **A vote that is to be counted.** -/
def Counts : Prop :=
  ∃ msgCandidate pubKey voteVerge,
    node.pools.current.lookup sign.blockHeaderHash = some msgCandidate ∧
    preventRepeatSign node.tickets sign.blockHeaderHash sign.publicKey = true ∧
    env.prim.parsePubKey sign.publicKey = some pubKey ∧
    env.prim.verify (getSignature sign.signature) sign.blockHeaderHash pubKey = true ∧
    votesVerge msgCandidate.header.scale = .ok voteVerge ∧
    env.prim.weight sign.signature ≤ voteVerge

/-- The handler returns; a vote that counts gets its ticket, and any other changes nothing. -/
def SignHandled : Prop :=
  ∃ node', handleSignMsg env node sign = .ok node' ∧
    (Counts env node sign → node' = { node with
      tickets := node.tickets.updateTicketPool sign.blockHeaderHash
        ⟨sign.signature, sign.publicKey⟩ }) ∧
    (¬Counts env node sign → node' = node)

/-- A vote for a candidate of the round with a new key is harmless. -/
def SignSafe : Prop :=
  ∀ msgCandidate, node.pools.current.lookup sign.blockHeaderHash = some msgCandidate →
    preventRepeatSign node.tickets sign.blockHeaderHash sign.publicKey = true →
    ∃ pubKey, env.prim.parsePubKey sign.publicKey = some pubKey ∧
      (env.prim.verify (getSignature sign.signature) sign.blockHeaderHash pubKey = true →
        msgCandidate.header.scale ≠ 0)

end

theorem exists_handleSignMsg_eq_ok_iff :
    (∃ node', handleSignMsg env node sign = .ok node') ↔ SignSafe env node sign := by
  rw [handleSignMsg, SignSafe]
  cases hc : node.pools.current.lookup sign.blockHeaderHash with
  | none => exact iff_of_true ⟨node, rfl⟩ fun _ h => by cases h
  | some msgCandidate =>
    simp only [some.injEq, forall_eq', collectVotes]
    cases hn : preventRepeatSign node.tickets sign.blockHeaderHash sign.publicKey with
    | false => exact iff_of_true ⟨node, rfl⟩ fun h => by cases h
    | true =>
      cases hk : env.prim.parsePubKey sign.publicKey with
      | none =>
        refine iff_of_false ?_ fun h => ?_
        · rintro ⟨_, h⟩
          cases h
        · obtain ⟨_, h, -⟩ := h rfl
          cases h
      | some pubKey =>
        simp only [some.injEq, exists_eq_left', forall_const]
        cases hve : env.prim.verify (getSignature sign.signature) sign.blockHeaderHash pubKey with
        | false => exact iff_of_true ⟨node, rfl⟩ fun h => by cases h
        | true =>
          simp only [if_true, forall_const, map_eq_ok]
          rw [← exists_votesVerge_eq_ok_iff]
          constructor
          · rintro ⟨_, _, ⟨verge, hv, -⟩, -⟩
            exact ⟨verge, hv⟩
          · rintro ⟨verge, hv⟩
            exact ⟨_, _, ⟨verge, hv, rfl⟩, rfl⟩

/-- **Which votes are handled as they should be.** -/
theorem signHandled_iff (env : Env) (node : Node env.prim) (sign : MsgSign) :
    SignHandled env node sign ↔ SignSafe env node sign := by
  rw [← exists_handleSignMsg_eq_ok_iff]
  constructor
  · rintro ⟨node', hh, -⟩
    exact ⟨node', hh⟩
  rintro ⟨node', hh⟩
  refine ⟨node', hh, ?_, ?_⟩
  · rintro ⟨msgCandidate, pubKey, voteVerge, hc, hn, hk, hv, hve, hw⟩
    rw [handleSignMsg, hc] at hh
    simp only [collectVotes, hn, hk, hv, hve, Except.map, if_pos hw]
      at hh
    cases hh
    rfl
  · intro hno
    have hm : Moves env 0 node (.sign sign) node' := moves_of_handleSignMsg hh
    cases hm with
    | ignored => rfl
    | collected hc hn hk hv hve hw =>
      exact absurd ⟨_, _, _, hc, hn, hk, hv, hve, hw⟩ hno

end Votes

/-- Primitives under which the zero key does not parse. -/
def strictPrimitives : Primitives :=
  { Primitives.polynomial with
    parsePubKey := fun key => if key = 0 then none else Primitives.polynomial.parsePubKey key }

/-- `sampleEnv` with a key that does not parse. -/
def strictEnv : Env := { sampleEnv with prim := strictPrimitives }

/-- A vote with the zero key crashes the node, and so does one for a candidate with the scale zero.
-/
theorem sign_not_handled :
    (∃ node, Reachable strictEnv sampleKey {} [.candidate strayCandidate [] 0] node ∧
      ¬SignHandled strictEnv node ⟨strayHash, 2 ^ 256 + 1, 0⟩) ∧
    ∃ node, Reachable sampleEnv sampleKey {} [.candidate (strayCandidate.withScale 0) [] 0] node ∧
      ¬SignHandled sampleEnv node
        (sampleSign 9 ((strayCandidate.withScale 0).blockHash sampleEnv.prim)) := by
  constructor
  · refine Runs.exists_run_of (P := fun node =>
      handleSignMsg strictEnv node ⟨strayHash, 2 ^ 256 + 1, 0⟩ = .error .nilPointer)
      (by decide +kernel) ?_
    rintro node - hn ⟨_, hh, -⟩
    rw [hn] at hh
    cases hh
  · refine Runs.exists_run_of (P := fun node => handleSignMsg sampleEnv node
      (sampleSign 9 ((strayCandidate.withScale 0).blockHash sampleEnv.prim)) =
        .error .divideByZero) (by decide +kernel) ?_
    rintro node - hz ⟨_, hh, -⟩
    rw [hz] at hh
    cases hh

/-! ### Requests of blocks -/

structure MsgGetBlock where
  typeParameter : Int8
  height : Int32
  blockHash : Hash
  deriving DecidableEq, Repr

section Requests

/-- `BlockByHeight`, with `NodeByHeight` of the best chain. -/
def BlockChain.blockByHeight {prim : Primitives} (chain : BlockChain prim) (height : Int32) :
    Option MsgBlock :=
  (chain.tip.ancestor height.toInt).bind chain.fetchBlockByNode

/-- `handleGetBlockMsg`: what is sent back. The error of `BlockByHeight` is dropped. -/
def handleGetBlockMsg {prim : Primitives} (node : Node prim) (getBlock : MsgGetBlock) :
    Except Panic (Option MsgSyncBlock) :=
  if getBlock.typeParameter = 1 then
    match node.chain.blockByHeight getBlock.height with
    | none => .error .nilPointer
    | some block =>
        .ok (some ⟨1, ⟨block.header, block.transactions, ⟨getBlock.height⟩⟩⟩)
  else if getBlock.typeParameter = 2 then
    match node.pools.prev.lookup getBlock.blockHash with
    | none => .error .nilPointer
    | some candidate => .ok (some ⟨2, candidate⟩)
  else .ok none

variable {prim : Primitives} {node : Node prim} {getBlock : MsgGetBlock} {height : Int32}

/-- The block of the main chain at a height. -/
def MainBlock (node : Node prim) (height : Int32) (block : MsgBlock) : Prop :=
  ∃ blockNode, node.chain.tip.ancestor height.toInt = some blockNode ∧
    node.chain.blocks.lookup blockNode.hash = some block

/-- The handler returns, and sends back what was asked for. -/
def Answered (node : Node prim) (getBlock : MsgGetBlock) : Prop :=
  ∃ reply, handleGetBlockMsg node getBlock = .ok reply ∧ ∀ msg ∈ reply,
    (getBlock.typeParameter = 1 ∧ ∃ block, MainBlock node getBlock.height block ∧
      msg.msgCandidate.header = block.header ∧
      msg.msgCandidate.transactions = block.transactions) ∨
    (getBlock.typeParameter = 2 ∧
      node.pools.prev.lookup getBlock.blockHash = some msg.msgCandidate)

/-- The main chain has a block at the height, which can be read back; or the pool of the last round
has the candidate. -/
structure Answerable (node : Node prim) (getBlock : MsgGetBlock) : Prop where
  block : getBlock.typeParameter = 1 → ∃ block, MainBlock node getBlock.height block ∧
    (readMsgBlock.run block.serialize).map Prod.fst = some block
  candidate : getBlock.typeParameter = 2 → getBlock.blockHash ∈ node.pools.prev

theorem blockByHeight_eq_some_iff {msgBlock : MsgBlock} :
    node.chain.blockByHeight height = some msgBlock ↔ ∃ stored, MainBlock node height stored ∧
      (readMsgBlock.run stored.serialize).map Prod.fst = some msgBlock := by
  simp only [blockByHeight, fetchBlockByNode, bind_eq_some_iff]
  constructor
  · rintro ⟨blockNode, hn, stored, hs, hr⟩
    exact ⟨stored, ⟨blockNode, hn, hs⟩, hr⟩
  · rintro ⟨stored, ⟨blockNode, hn, hs⟩, hr⟩
    exact ⟨blockNode, hn, stored, hs, hr⟩

theorem MainBlock.unique {block block' : MsgBlock} (h : MainBlock node height block)
    (h' : MainBlock node height block') : block = block' := by
  obtain ⟨blockNode, hn, hb⟩ := h
  obtain ⟨blockNode', hn', hb'⟩ := h'
  rw [hn, some.injEq] at hn'
  rw [hn', hb', some.injEq] at hb
  exact hb.symm

/-- **Which requests of blocks are answered.** -/
theorem answered_iff (node : Node prim) (getBlock : MsgGetBlock) :
    Answered node getBlock ↔ Answerable node getBlock := by
  by_cases ho : getBlock.typeParameter = 1
  · have hn : getBlock.typeParameter ≠ 2 := fun htw =>
      absurd (ho.symm.trans htw) (by decide)
    constructor
    · rintro ⟨reply, hr, hco⟩
      refine ⟨fun _ => ?_, fun htw => absurd htw hn⟩
      rw [handleGetBlockMsg, if_pos ho] at hr
      split at hr
      · cases hr
      rename_i msgBlock hb
      cases hr
      obtain ⟨stored, hm, hre⟩ := blockByHeight_eq_some_iff.1 hb
      rcases hco _ rfl with ⟨-, block, hm', hh, ht⟩ | ⟨htw, -⟩
      · obtain rfl := hm.unique hm'
        refine ⟨stored, hm, hre.trans (congrArg some ?_)⟩
        obtain ⟨header, transactions⟩ := msgBlock
        obtain rfl : header = _ := hh
        obtain rfl : transactions = _ := ht
        rfl
      · exact absurd htw hn
    · intro h
      obtain ⟨block, hm, hre⟩ := h.block ho
      have hb := blockByHeight_eq_some_iff.2 ⟨block, hm, hre⟩
      refine ⟨_, by rw [handleGetBlockMsg, if_pos ho, hb], ?_⟩
      rintro msg hms
      cases hms
      exact .inl ⟨ho, block, hm, rfl, rfl⟩
  by_cases htw : getBlock.typeParameter = 2
  · constructor
    · rintro ⟨reply, hr, -⟩
      refine ⟨fun h => absurd h ho, fun _ => ?_⟩
      rw [handleGetBlockMsg, if_neg ho, if_pos htw] at hr
      cases hc : node.pools.prev.lookup getBlock.blockHash with
      | none =>
        rw [hc] at hr
        cases hr
      | some candidate => exact mem_of_lookup_eq_some hc
    · intro h
      obtain ⟨candidate, hc⟩ := mem_iff.1 (h.candidate htw)
      refine ⟨_, by rw [handleGetBlockMsg, if_neg ho, if_pos htw, hc], ?_⟩
      rintro msg hms
      cases hms
      exact .inr ⟨htw, hc⟩
  · refine iff_of_true ⟨none, by rw [handleGetBlockMsg, if_neg ho, if_neg htw], ?_⟩
      ⟨fun h => absurd h ho, fun h => absurd h htw⟩
    rintro msg hms
    cases hms

end Requests

/-- A request for what is not there crashes the node. -/
theorem request_not_answered : ¬Answered (Node.start sampleEnv {}) ⟨1, 1, 0⟩ ∧
    ¬Answered (Node.start sampleEnv {}) ⟨1, -1, 0⟩ ∧
    ¬Answered (Node.start sampleEnv {}) ⟨2, 0, 0⟩ := by
  have hp : ∀ getBlock, handleGetBlockMsg (Node.start sampleEnv {}) getBlock =
      .error .nilPointer → ¬Answered (Node.start sampleEnv {}) getBlock := by
    rintro getBlock hp ⟨reply, hr, -⟩
    rw [hp] at hr
    cases hr
  exact ⟨hp _ (by decide +kernel), hp _ (by decide +kernel), hp _ (by decide +kernel)⟩

end DrcNode
