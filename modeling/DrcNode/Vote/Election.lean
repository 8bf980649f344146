import DrcNode.Library.RunningMax
import DrcNode.Vote.Scale
import DrcNode.Wire.Encode
import Mathlib.Data.Prod.Lex
import Mathlib.Order.Lattice.Nat

/-!
# Pools of a round and the choices made from them

During a round a node collects candidate blocks, tickets for them, and, for each block of the
round before, the candidates that point to it. Two choices are made from these pools when the
round ends: `getMaxVotes` elects the candidate with the most tickets, and `getBestPointBlockH`
names the block of the round before that most candidates point to, which is then written to the
chain. Both range over a Go map, so both take the order of the visit.

## Main results

* `getMaxVotes_order_independent_iff`.
* `getBestPointBlockH_order_independent_iff`.

Source: `ticketPool` and `UpdateTicketPool` in `vote/util.go`; `GetMaxVotes`, `GetVotes` and
`isAdvantage` in `mining/cpuminer/vote.go`; the pools, `GetBestPointBlockH` and
`GetMinWeightBlock` in `blockchain/process.go`.
-/

namespace DrcNode

open Finmap List Option

open RunningMax

/-! ### The pools -/

/-- `vote.SignAndKey`: a ticket. -/
structure SignAndKey where
  signature : Hash64
  publicKey : Hash33
  deriving DecidableEq, Repr

/-- The tickets of one block. There is at least one. -/
structure Tickets where
  list : List SignAndKey
  ne_nil : list ≠ []
  deriving DecidableEq, Repr

abbrev TicketPool := ByHash Tickets

/-- `CurrentCandidatePool` and `PrevCandidatePool`. -/
abbrev CandidatePool := ByHash MsgCandidate

/-- `CurrentPointPool`: the candidates that point to a block of the round before. -/
abbrev PointPool := ByHash (List MsgCandidate)

namespace TicketPool

/-- The tickets for a hash, none when the hash is not in the pool. -/
def tickets (pool : TicketPool) (hash : Hash) : List SignAndKey :=
  ((pool.lookup hash).map Tickets.list).getD []

def updateTicketPool (pool : TicketPool) (hash : Hash) (signAndKey : SignAndKey) : TicketPool :=
  pool.insert hash ⟨pool.tickets hash ++ [signAndKey], append_ne_nil_of_right_ne_nil _
    (cons_ne_nil _ _)⟩

variable {pool : TicketPool} {hash hash' : Hash} {signAndKey : SignAndKey}

@[simp] theorem tickets_updateTicketPool :
    (pool.updateTicketPool hash signAndKey).tickets hash = pool.tickets hash ++ [signAndKey] := by
  simp [updateTicketPool, tickets]

theorem tickets_updateTicketPool_of_ne (h : hash' ≠ hash) :
    (pool.updateTicketPool hash signAndKey).tickets hash' = pool.tickets hash' := by
  simp [updateTicketPool, tickets, lookup_insert_of_ne _ h]

theorem mem_updateTicketPool :
    hash' ∈ pool.updateTicketPool hash signAndKey ↔ hash' = hash ∨ hash' ∈ pool :=
  mem_insert

theorem mem_iff_tickets_ne_nil : hash ∈ pool ↔ pool.tickets hash ≠ [] := by
  rw [mem_iff, tickets]
  refine ⟨fun ⟨t, ht⟩ => ?_, fun h => ?_⟩
  · rw [ht]
    exact t.ne_nil
  · cases ht : pool.lookup hash with
    | none => rw [ht] at h; exact absurd rfl h
    | some t => exact ⟨t, rfl⟩

/-- `GetVotes`: the number of tickets in sixteen bits. -/
def getVotes (pool : TicketPool) (hash : Hash) : UInt16 := UInt16.ofNat (pool.tickets hash).length

/-- The largest number of tickets of a block, in sixteen bits. -/
def maxVotes (pool : TicketPool) : UInt16 :=
  UInt16.ofNat (pool.keys.sup fun hash => (pool.tickets hash).length)

end TicketPool

/-! ### The election -/

section Election

variable (prim : Primitives) (current : CandidatePool)

/-- The weight of the candidate with this hash in the pool, zero when there is none. -/
def CandidatePool.weight (hash : Hash) : Nat :=
  ((current.lookup hash).map fun c => prim.weight c.header.signature).getD 0

/-- One round of the loop of `GetMaxVotes`. On equal counts it reads both candidates from the pool.
-/
def getMaxVotesStep (best : Nat × Hash) (entry : Sigma fun _ : Hash => Tickets) :
    Except Panic (Nat × Hash) :=
  let count := entry.2.list.length
  if best.1 < count then .ok (count, entry.1)
  else if count = best.1 then
    match current.lookup entry.1, current.lookup best.2 with
    | some msgCandidate, some maxCandidate =>
      if prim.weight msgCandidate.header.signature < prim.weight maxCandidate.header.signature
      then .ok (best.1, entry.1) else .ok best
    | _, _ => .error .nilPointer
  else .ok best

/-- `GetMaxVotes`, visiting the ticket pool in the given order. -/
def getMaxVotes (order : Order Tickets) : Except Panic (Hash × UInt16) :=
  (order.foldlM (getMaxVotesStep prim current) (0, 0)).map fun best =>
    (best.2, UInt16.ofNat best.1)

/-- `isAdvantage`, with a difference in sixteen bits. -/
def isAdvantage (pool : TicketPool) (order : Order Tickets) (headerHash : Hash) :
    Except Panic Bool :=
  (getMaxVotes prim current order).map fun best =>
    decide (best.2 - pool.getVotes headerHash < 100)

/-- The order of the election: more tickets first, then smaller weight. -/
def electionKey (entry : Nat × Hash) : Nat ×ₗ Natᵒᵈ :=
  toLex (entry.1, OrderDual.toDual (current.weight prim entry.2))

/-- The number of tickets and the hash of an entry of the ticket pool. -/
def ballot (entry : Sigma fun _ : Hash => Tickets) : Nat × Hash :=
  (entry.2.list.length, entry.1)

/-- `hash` has the most tickets and, among the hashes that do, the smallest weight. -/
def IsElected (pool : TicketPool) (hash : Hash) : Prop :=
  hash ∈ pool ∧ ∀ hash' ∈ pool, (pool.tickets hash').length ≤ (pool.tickets hash).length ∧
    ((pool.tickets hash').length = (pool.tickets hash).length →
      current.weight prim hash ≤ current.weight prim hash')

variable {prim current} {pool : TicketPool} {order : Order Tickets} {best : Nat × Hash}
  {hash : Hash} {x y best' : Nat × Hash} {entry : Sigma fun _ : Hash => Tickets}

theorem electionKey_lt_iff : electionKey prim current x < electionKey prim current y ↔
      x.1 < y.1 ∨ x.1 = y.1 ∧ current.weight prim y.2 < current.weight prim x.2 := by
  simp [electionKey, Prod.Lex.toLex_lt_toLex]

theorem electionKey_le_iff : electionKey prim current x ≤ electionKey prim current y ↔
      x.1 < y.1 ∨ x.1 = y.1 ∧ current.weight prim y.2 ≤ current.weight prim x.2 := by
  simp [electionKey, Prod.Lex.toLex_le_toLex]

theorem getMaxVotesStep_eq (he : entry.1 ∈ current) (hb : best.1 = 0 ∨ best.2 ∈ current) :
    getMaxVotesStep prim current best entry =
      .ok (if electionKey prim current best < electionKey prim current (ballot entry)
        then ballot entry else best) := by
  have hp : 0 < entry.2.list.length := length_pos_iff.2 entry.2.ne_nil
  simp only [getMaxVotesStep, electionKey_lt_iff, ballot]
  by_cases hlt : best.1 < entry.2.list.length
  · simp [hlt]
  by_cases heq : entry.2.list.length = best.1
  · obtain ⟨c, hc⟩ := mem_iff.1 he
    obtain ⟨d, hd⟩ := mem_iff.1 (hb.resolve_left (by omega))
    simp only [heq, lt_irrefl, if_false, hc, hd, CandidatePool.weight, map_some, getD_some,
      true_and, false_or]
    split_ifs <;> rfl
  · simp [hlt, heq, Ne.symm heq]

/-- **The election is a running maximum** over the ballots, when every hash with a ticket is in the
candidate pool. -/
theorem getMaxVotes_eq_runningMax (hv : ∀ entry ∈ order, entry.1 ∈ current) :
    order.foldlM (getMaxVotesStep prim current) (0, 0) =
      .ok (runningMax (electionKey prim current) (0, 0) (order.map ballot)) := by
  have hl : ∀ best : Nat × Hash, best.1 = 0 ∨ best.2 ∈ current →
      order.foldlM (getMaxVotesStep prim current) best =
        .ok (runningMax (electionKey prim current) best (order.map ballot)) := by
    -- the accumulator is the empty ballot or the ballot of a candidate in the pool
    induction order with
    | nil => exact fun _ _ => rfl
    | cons entry order ih =>
      intro best hb
      have hen := hv entry mem_cons_self
      rw [foldlM_cons, getMaxVotesStep_eq hen hb]
      refine ih (fun e he => hv e (mem_cons_of_mem entry he)) _ ?_
      split_ifs
      · exact .inr hen
      · exact hb
  exact hl (0, 0) (.inl rfl)

theorem mem_map_ballot (hv : Visits order pool) {n : Nat} :
    (n, hash) ∈ order.map ballot ↔ hash ∈ pool ∧ n = (pool.tickets hash).length := by
  rw [List.mem_map, mem_iff]
  refine ⟨?_, ?_⟩
  · rintro ⟨⟨h, t⟩, hm, heq⟩
    obtain ⟨rfl, rfl⟩ := Prod.mk.inj heq
    have hl := hv.mem_iff.1 hm
    exact ⟨⟨t, hl⟩, by simp [TicketPool.tickets, hl]⟩
  · rintro ⟨⟨t, hl⟩, rfl⟩
    refine ⟨⟨hash, t⟩, hv.mem_iff.2 hl, ?_⟩
    simp [ballot, TicketPool.tickets, hl]

theorem isTop_iff_isElected (hv : Visits order pool) {n : Nat} :
    IsTop (electionKey prim current) (0, 0) (order.map ballot) (n, hash) ↔
      n = (pool.tickets hash).length ∧ IsElected prim current pool hash := by
  refine ⟨fun h => ?_, ?_⟩
  · obtain ⟨hm, rfl⟩ := (mem_map_ballot hv).1 h.mem
    refine ⟨rfl, hm, fun hash' hm' => ?_⟩
    have hle := electionKey_le_iff.1 (h.le _ ((mem_map_ballot hv).2 ⟨hm', rfl⟩))
    exact ⟨by omega, fun heq => (hle.resolve_left (by omega)).2⟩
  · rintro ⟨rfl, hm, hb⟩
    refine ⟨(mem_map_ballot hv).2 ⟨hm, rfl⟩, ?_, ?_⟩
    · exact electionKey_lt_iff.2 (.inl (length_pos_iff.2 (TicketPool.mem_iff_tickets_ne_nil.1 hm)))
    · rintro ⟨n, hash'⟩ hy
      obtain ⟨hm', rfl⟩ := (mem_map_ballot hv).1 hy
      obtain ⟨hle, heq⟩ := hb hash' hm'
      exact electionKey_le_iff.2 (hle.lt_or_eq.imp_right fun h => ⟨h, heq h⟩)

/-- **What the election returns**: the zero hash, or a hash with the most tickets and the smallest
weight among those. -/
theorem getMaxVotes_spec (hp : ∀ hash ∈ pool, hash ∈ current) (hv : Visits order pool) :
    ∃ hash, getMaxVotes prim current order = .ok (hash, pool.getVotes hash) ∧
      (pool = ∅ ∧ hash = 0 ∨ IsElected prim current pool hash) := by
  have hm : ∀ entry ∈ order, entry.1 ∈ current := fun entry he =>
    hp entry.1 (mem_iff.2 ⟨entry.2, hv.mem_iff.1 he⟩)
  rw [getMaxVotes, getMaxVotes_eq_runningMax hm]
  rcases order with _ | ⟨entry, order⟩
  · have hem : pool = ∅ := ext hv
    subst hem
    exact ⟨0, rfl, .inl ⟨rfl, rfl⟩⟩
  have hne : runningMax (electionKey prim current) (0, 0) ((entry :: order).map ballot) ≠
      (0, 0) := by
    intro heq
    have hle : electionKey prim current (ballot entry) ≤ electionKey prim current (0, 0) := by
      rw [← heq]
      exact le_runningMax_of_mem (mem_map_of_mem mem_cons_self)
    have hpo : 0 < (ballot entry).1 := length_pos_iff.2 entry.2.ne_nil
    rcases electionKey_le_iff.1 hle with h | h <;> simp only [] at h <;> omega
  obtain ⟨hl, hel⟩ := (isTop_iff_isElected hv).1 (isTop_runningMax hne)
  refine ⟨_, ?_, .inr hel⟩
  rw [TicketPool.getVotes, ← hl]
  rfl

/-- A round of the loop keeps its ballot or takes the next one, whichever has more tickets. -/
theorem getMaxVotesStep_cases (h : getMaxVotesStep prim current best entry = .ok best') :
    (best' = best ∨ best' = ballot entry) ∧ best.1 ≤ best'.1 ∧ (ballot entry).1 ≤ best'.1 := by
  simp only [getMaxVotesStep] at h
  split_ifs at h with hlt heq
  · cases h
    exact ⟨.inr rfl, hlt.le, le_rfl⟩
  · split at h
    · split_ifs at h
      · cases h
        exact ⟨.inr (by rw [ballot, heq]), le_rfl, heq.le⟩
      · cases h
        exact ⟨.inl rfl, le_rfl, heq.le⟩
    · cases h
  · cases h
    exact ⟨.inl rfl, le_rfl, not_lt.1 hlt⟩

/-- The loop returns its first ballot or one of those it meets, and none of them has more
tickets. -/
theorem getMaxVotesLoop_spec (h : order.foldlM (getMaxVotesStep prim current) best = .ok best') :
    best' ∈ best :: order.map ballot ∧ ∀ b ∈ best :: order.map ballot, b.1 ≤ best'.1 := by
  induction order generalizing best with
  | nil =>
    cases h
    exact ⟨mem_cons_self, fun b hb => (mem_singleton.1 hb ▸ le_rfl)⟩
  | cons entry order ih =>
    rw [foldlM_cons, Checked.bind_eq_ok] at h
    obtain ⟨best₁, hs, h⟩ := h
    obtain ⟨hc, hle, hle'⟩ := getMaxVotesStep_cases hs
    obtain ⟨hm, hma⟩ := ih h
    have hf : best₁.1 ≤ best'.1 := hma best₁ mem_cons_self
    constructor
    · rcases mem_cons.1 hm with rfl | hm
      · rcases hc with rfl | rfl
        · exact mem_cons_self
        · exact mem_cons_of_mem _ mem_cons_self
      · exact mem_cons_of_mem _ (mem_cons_of_mem _ hm)
    · intro b hb
      rcases mem_cons.1 hb with rfl | hb
      · exact hle.trans hf
      · rcases mem_cons.1 hb with rfl | hb
        · exact hle'.trans hf
        · exact hma b (mem_cons_of_mem _ hb)

/-- **The count that is returned** is the largest there is. -/
theorem getMaxVotes_votes {votes : UInt16} (hv : Visits order pool)
    (h : getMaxVotes prim current order = .ok (hash, votes)) :
    votes = pool.getVotes hash ∧ votes = pool.maxVotes := by
  rw [getMaxVotes, Checked.map_eq_ok] at h
  obtain ⟨⟨n, hash'⟩, hlo, hb⟩ := h
  obtain ⟨rfl, rfl⟩ := Prod.mk.inj hb
  obtain ⟨hm, hma⟩ := getMaxVotesLoop_spec hlo
  have hle : ∀ h ∈ pool, (pool.tickets h).length ≤ n := fun h hh =>
    hma _ (mem_cons_of_mem _ ((mem_map_ballot hv).2 ⟨hh, rfl⟩))
  have hl : n = (pool.tickets hash').length := by
    rcases mem_cons.1 hm with hz | hm
    · -- nothing has more than no ticket
      obtain ⟨rfl, rfl⟩ := Prod.mk.inj hz
      by_contra hne
      have hp : 0 < (pool.tickets 0).length := Nat.pos_of_ne_zero (Ne.symm hne)
      have hle0 := hle 0 (TicketPool.mem_iff_tickets_ne_nil.2 (length_pos_iff.1 hp))
      omega
    · exact ((mem_map_ballot hv).1 hm).2
  refine ⟨by rw [TicketPool.getVotes, ← hl], ?_⟩
  have hs : (pool.keys.sup fun h => (pool.tickets h).length) = n := by
    refine le_antisymm (Finset.sup_le fun h hh => hle h (mem_keys.1 hh)) ?_
    rcases Nat.eq_zero_or_pos n with rfl | hp
    · exact Nat.zero_le _
    · have hm' : hash' ∈ pool.keys := mem_keys.2
        (TicketPool.mem_iff_tickets_ne_nil.2 (length_pos_iff.1 (hl ▸ hp)))
      exact hl.le.trans (Finset.le_sup (f := fun h => (pool.tickets h).length) hm')
  rw [TicketPool.maxVotes, hs]

/-- **When the election does not depend on the order of the visit**: when only one hash has the most
tickets and the smallest weight among those. -/
theorem getMaxVotes_order_independent_iff (prim : Primitives) (current : CandidatePool)
    (pool : TicketPool) (hpresent : ∀ hash ∈ pool, hash ∈ current) :
    (∃ best : Hash × UInt16,
        (∀ order, Visits order pool → getMaxVotes prim current order = .ok best) ∧
          (pool ≠ ∅ → IsElected prim current pool best.1)) ↔
      ∀ hash hash', IsElected prim current pool hash → IsElected prim current pool hash' →
        hash = hash' := by
  refine ⟨?_, fun hu => ?_⟩
  · rintro ⟨best, hb, -⟩
    -- a hash that may win does win, in an order that visits it first
    have hw : ∀ hash, IsElected prim current pool hash → hash = best.1 := by
      intro hash hel
      obtain ⟨order, hv⟩ := exists_visits pool
      obtain ⟨order', hp, heq⟩ := exists_perm_runningMax_eq ((isTop_iff_isElected hv).2 ⟨rfl, hel⟩)
      have hv' := hv.of_perm hp
      have hm : ∀ entry ∈ order', entry.1 ∈ current := fun entry he =>
        hpresent entry.1 (mem_iff.2 ⟨entry.2, hv'.mem_iff.1 he⟩)
      have hr := hb order' hv'
      rw [getMaxVotes, getMaxVotes_eq_runningMax hm, heq] at hr
      exact congrArg Prod.fst (Except.ok.inj hr)
    exact fun hash hash' h h' => (hw hash h).trans (hw hash' h').symm
  · obtain ⟨order, hv⟩ := exists_visits pool
    obtain ⟨hash, -, hel⟩ := @getMaxVotes_spec prim current pool order hpresent hv
    refine ⟨(hash, pool.getVotes hash), fun order' hv' => ?_, fun hne => ?_⟩
    · obtain ⟨hash', hr, hel'⟩ := @getMaxVotes_spec prim current pool order' hpresent hv'
      rw [hr]
      rcases hel with ⟨hem, rfl⟩ | hel
      · rcases hel' with ⟨-, rfl⟩ | hel'
        · rfl
        · exact absurd hel'.1 (hem ▸ notMem_empty)
      · rcases hel' with ⟨hem, -⟩ | hel'
        · exact absurd hel.1 (hem ▸ notMem_empty)
        · rw [hu _ _ hel' hel]
    · exact (hel.resolve_left fun h => hne h.1)

end Election

/-- Blocks of one producer in one round: they carry the same signature and differ in their
transactions. -/
def twin (merkleRoot : Hash) : MsgCandidate where
  header :=
    { version := 1, prevBlock := 0, merkleRoot, timestamp := 0, signature := 7, publicKey := 1
      scale := 1, reserved := 0 }
  transactions := []
  sigwit := ⟨2⟩

def twinHash (merkleRoot : Hash) : Hash := (twin merkleRoot).blockHash .polynomial

def twinCandidates : CandidatePool :=
  ((∅ : CandidatePool).insert (twinHash 1) (twin 1)).insert (twinHash 2) (twin 2)

/-- One ticket for each of the two blocks. -/
def twinTickets : TicketPool :=
  ((∅ : TicketPool).updateTicketPool (twinHash 1) ⟨9, 3⟩).updateTicketPool (twinHash 2) ⟨9, 3⟩

def twinOrder : Order Tickets :=
  [⟨twinHash 1, ⟨[⟨9, 3⟩], cons_ne_nil _ _⟩⟩, ⟨twinHash 2, ⟨[⟨9, 3⟩], cons_ne_nil _ _⟩⟩]

theorem twinTickets_present : ∀ hash ∈ twinTickets, hash ∈ twinCandidates := by
  have hk : twinTickets.keys ⊆ twinCandidates.keys := by decide +kernel
  exact fun hash hm => mem_keys.1 (hk (mem_keys.2 hm))

/-- With one ticket for each of two blocks of one producer, the block that is visited first is
elected. -/
theorem getMaxVotes_twins_depends_on_order : (∀ hash ∈ twinTickets, hash ∈ twinCandidates) ∧
      Visits twinOrder twinTickets ∧ Visits twinOrder.reverse twinTickets ∧
      getMaxVotes .polynomial twinCandidates twinOrder = .ok (twinHash 1, 1) ∧
      getMaxVotes .polynomial twinCandidates twinOrder.reverse = .ok (twinHash 2, 1) ∧
      twinHash 1 ≠ twinHash 2 :=
  ⟨twinTickets_present, by decide +kernel, by decide +kernel, by decide +kernel,
    by decide +kernel, by decide +kernel⟩

/-- A second ticket for the first of the two blocks. -/
def majorityTickets : TicketPool := twinTickets.updateTicketPool (twinHash 1) ⟨8, 4⟩

/-- The block with two tickets is elected in every order. -/
theorem getMaxVotes_majority_order_independent :
    ∃ best : Hash × UInt16, (∀ order, Visits order majorityTickets →
        getMaxVotes .polynomial twinCandidates order = .ok best) ∧
      (majorityTickets ≠ ∅ →
        IsElected .polynomial twinCandidates majorityTickets best.1) := by
  have htwo : (majorityTickets.tickets (twinHash 1)).length = 2 := by decide +kernel
  have hone : (majorityTickets.tickets (twinHash 2)).length = 1 := by decide +kernel
  have hm : ∀ {hash}, hash ∈ majorityTickets → hash = twinHash 1 ∨ hash = twinHash 2 := by
    intro hash hm
    simp only [majorityTickets, twinTickets, TicketPool.mem_updateTicketPool, notMem_empty,
      or_false] at hm
    obtain h | h | h := hm
    · exact .inl h
    · exact .inr h
    · exact .inl h
  refine (getMaxVotes_order_independent_iff .polynomial twinCandidates _ fun hash h => ?_).2 ?_
  · obtain rfl | rfl := hm h
    · decide +kernel
    · decide +kernel
  have hu : ∀ hash, IsElected .polynomial twinCandidates majorityTickets hash →
      hash = twinHash 1 := by
    intro hash he
    obtain rfl | rfl := hm he.1
    · rfl
    · have hle := (he.2 (twinHash 1) (TicketPool.mem_updateTicketPool.2 (.inl rfl))).1
      rw [htwo, hone] at hle
      exact absurd hle (by decide)
  exact fun hash hash' he he' => (hu hash he).trans (hu hash' he').symm

/-- `GetMinWeightBlock`, the weight only: the smallest weight in the pool, or `2 ^ 256`. -/
def CandidatePool.minWeight (prim : Primitives) (pool : CandidatePool) : Nat :=
  (pool.entries.map fun entry => prim.weight entry.2.header.signature).fold min (2 ^ 256)

/-! ### The block most candidates point to -/

/-- `GetBestPointBlockH`, visiting the point pool in the given order. -/
def getBestPointBlockH (order : Order (List MsgCandidate)) : Hash :=
  (order.foldl (fun best entry =>
    if best.1 < entry.2.length then (entry.2.length, entry.1) else best) ((0, 0) : Nat × Hash)).2

/-- The block of the round before that `voteProcess` hands to `ProcessBlock`, if there is one. -/
def roundBlock (prev : CandidatePool) (order : Order (List MsgCandidate)) : Option MsgCandidate :=
  prev.lookup (getBestPointBlockH order)

/-- No block has more candidates pointing to it than `hash`, and at least one does. -/
def IsMostPointed (points : PointPool) (hash : Hash) : Prop :=
  ∃ v, points.lookup hash = some v ∧ v ≠ [] ∧
    ∀ hash' v', points.lookup hash' = some v' → v'.length ≤ v.length

section Points

variable {points : PointPool} {order : Order (List MsgCandidate)}

/-- The number of candidates that point to a block, and its hash. -/
def pointers (entry : Sigma fun _ : Hash => List MsgCandidate) : Nat × Hash :=
  (entry.2.length, entry.1)

theorem getBestPointBlockH_eq :
    getBestPointBlockH order = (runningMax Prod.fst (0, 0) (order.map pointers)).2 := by
  rw [runningMax, foldl_map]
  rfl

theorem isTop_pointers_iff (hv : Visits order points) {n : Nat} {hash : Hash} :
    IsTop Prod.fst (0, 0) (order.map pointers) (n, hash) ↔
      ∃ v, points.lookup hash = some v ∧ n = v.length ∧ v ≠ [] ∧
        ∀ hash' v', points.lookup hash' = some v' → v'.length ≤ v.length := by
  refine ⟨fun h => ?_, ?_⟩
  · obtain ⟨⟨k, v⟩, hm, heq⟩ := mem_map.1 h.mem
    obtain ⟨rfl, rfl⟩ := Prod.mk.inj heq
    refine ⟨v, hv.mem_iff.1 hm, rfl, length_pos_iff.1 h.lt, fun hash' v' hl => ?_⟩
    exact h.le _ (mem_map_of_mem (hv.mem_iff.2 hl))
  · rintro ⟨v, hl, rfl, hne, hma⟩
    refine ⟨mem_map.2 ⟨⟨hash, v⟩, hv.mem_iff.2 hl, rfl⟩, length_pos_iff.2 hne, ?_⟩
    rintro y hy
    obtain ⟨⟨hash', v'⟩, hm, rfl⟩ := mem_map.1 hy
    exact hma hash' v' (hv.mem_iff.1 hm)

/-- **When the block a round end commits is determined by the pools**: when at most one block has
the most candidates pointing to it. -/
theorem getBestPointBlockH_order_independent_iff (points : PointPool) :
    (∀ order order', Visits order points → Visits order' points →
        getBestPointBlockH order = getBestPointBlockH order' ∧
          ∀ prev, roundBlock prev order = roundBlock prev order') ↔
      ∀ hash hash', IsMostPointed points hash → IsMostPointed points hash' → hash = hash' := by
  obtain ⟨order₀, hv₀⟩ := exists_visits points
  refine ⟨fun hs hash hash' h h' => ?_, fun hu order order' hv hv' => ?_⟩
  · obtain ⟨v, hl, hne, hm⟩ := h
    obtain ⟨v', hl', hne', hm'⟩ := h'
    obtain ⟨o, ho, heq⟩ :=
      exists_perm_runningMax_eq ((isTop_pointers_iff hv₀).2 ⟨v, hl, rfl, hne, hm⟩)
    obtain ⟨o', ho', heq'⟩ :=
      exists_perm_runningMax_eq ((isTop_pointers_iff hv₀).2 ⟨v', hl', rfl, hne', hm'⟩)
    have hp := (hs o o' (hv₀.of_perm ho) (hv₀.of_perm ho')).1
    rwa [getBestPointBlockH_eq, getBestPointBlockH_eq, heq, heq'] at hp
  · have ht : ∀ x y : Nat × Hash, IsTop Prod.fst (0, 0) (order₀.map pointers) x →
        IsTop Prod.fst (0, 0) (order₀.map pointers) y → x = y := by
      rintro ⟨n, hash⟩ ⟨n', hash'⟩ hx hy
      obtain ⟨v, hl, rfl, hne, hm⟩ := (isTop_pointers_iff hv₀).1 hx
      obtain ⟨v', hl', rfl, hne', hm'⟩ := (isTop_pointers_iff hv₀).1 hy
      have hh := hu hash hash' ⟨v, hl, hne, hm⟩ ⟨v', hl', hne', hm'⟩
      rw [hh, hl'] at hl
      rw [hh, Option.some.inj hl]
    have hm := runningMax_perm_iff.2 ht order order' (hv.perm hv₀) (hv'.perm hv₀)
    have hp : getBestPointBlockH order = getBestPointBlockH order' := by
      rw [getBestPointBlockH_eq, getBestPointBlockH_eq, hm]
    exact ⟨hp, fun prev => by rw [roundBlock, roundBlock, hp]⟩

end Points

/-- One candidate points to each of the two blocks of the round before. -/
def forkPoints : PointPool :=
  ((∅ : PointPool).insert (twinHash 1) [twin 3]).insert (twinHash 2) [twin 4]

def forkOrder : Order (List MsgCandidate) := [⟨twinHash 1, [twin 3]⟩, ⟨twinHash 2, [twin 4]⟩]

/-- When two blocks have one candidate each pointing to them, the one that is visited first is
committed. -/
theorem getBestPointBlockH_fork_depends_on_order :
    Visits forkOrder forkPoints ∧ Visits forkOrder.reverse forkPoints ∧
      getBestPointBlockH forkOrder = twinHash 1 ∧
      getBestPointBlockH forkOrder.reverse = twinHash 2 ∧
      roundBlock twinCandidates forkOrder = some (twin 1) ∧
      roundBlock twinCandidates forkOrder.reverse = some (twin 2) ∧ twin 1 ≠ twin 2 := by
  decide +kernel

end DrcNode
