import DrcNode.Net.Candidates

/-!
# Two quorums in one round

A candidate is elected with the votes of two thirds of the nodes that are expected to vote. But a
node votes for every candidate that has a smaller weight than those before it, and
`preventRepeatSign` looks for the key of a vote only among the tickets for the same block. So the
same keys may give two candidates a quorum. When no key has tickets for two blocks, there is at most
one quorum: the own key may still have two tickets for one block, and one ticket is not enough.

## Main results

* `getVotes_le_voters`, `quorum_unique`.
-/

namespace DrcNode

open Finmap List TicketPool Nat

namespace TicketPool

/-- The keys with a ticket for a block, once for each ticket. -/
def voterKeys (pool : TicketPool) (hash : Hash) : List Hash33 :=
  (pool.tickets hash).map SignAndKey.publicKey

/-- The keys that hold tickets. -/
def voters (pool : TicketPool) : Finset Hash33 :=
  pool.keys.biUnion fun hash => (pool.voterKeys hash).toFinset

variable {pool : TicketPool} {hash hash' : Hash} {key : Hash33}

theorem mem_of_mem_voterKeys (h : key ∈ pool.voterKeys hash) : hash ∈ pool := by
  refine mem_iff_tickets_ne_nil.2 fun hn => ?_
  rw [voterKeys, hn] at h
  exact not_mem_nil h

theorem count_voterKeys_updateTicketPool {ticket : SignAndKey} :
    ((pool.updateTicketPool hash ticket).voterKeys hash').count key =
      (pool.voterKeys hash').count key +
        if hash' = hash ∧ ticket.publicKey = key then 1 else 0 := by
  by_cases hh : hash' = hash
  · subst hh
    rw [voterKeys, tickets_updateTicketPool, map_append, count_append, map_singleton,
      count_singleton, ← voterKeys]
    simp
  · rw [voterKeys, tickets_updateTicketPool_of_ne hh, if_neg fun h => hh h.1]
    rfl

end TicketPool

/-! ### How many tickets a key has -/

section Counts

variable {env : Env} {privKey : PrivateKey} {startup : Startup} {events : List Event}
  {node node' : Node env.prim} {event : Event} {rand : BitVec 256} {msgCandidate : MsgCandidate}
  {tickets : TicketPool} {tickets' : TicketPool} {hash : Hash}

/-- The number of tickets of the own key for a block. -/
def ownCount (env : Env) (privKey : PrivateKey) (tickets : TicketPool) (hash : Hash) : Nat :=
  (tickets.voterKeys hash).count (env.prim.pubKey privKey)

/-- The own key has at most one ticket for the block, and none unless the block is in the pool. -/
def OwnOnce (env : Env) (privKey : PrivateKey) (node : Node env.prim) (hash : Hash) : Prop :=
  ownCount env privKey node.tickets hash ≤ 1 ∧
    (ownCount env privKey node.tickets hash ≠ 0 → hash ∈ node.pools.current)

/-- How often the own key has a ticket: once for each block of the pool, until the own candidate is
voted for, which may give it one more. -/
inductive OwnVotes (env : Env) (privKey : PrivateKey) (node : Node env.prim) : Prop
  | working (honce : ∀ hash, OwnOnce env privKey node hash)
  | resting (own : Hash) (hwork : node.work = false) (hpending : node.pending = none)
      (htwice : ownCount env privKey node.tickets own ≤ 2)
      (habsent : own ∉ node.pools.current → ownCount env privKey node.tickets own ≤ 1)
      (honce : ∀ hash, hash ≠ own → OwnOnce env privKey node hash)

/-- The tickets of the keys: any other key has one ticket for a block at most. -/
structure TicketCounts (env : Env) (privKey : PrivateKey) (node : Node env.prim) : Prop where
  others : ∀ hash key, key ≠ env.prim.pubKey privKey → (node.tickets.voterKeys hash).count key ≤ 1
  own : OwnVotes env privKey node

theorem count_voterKeys_voted (h : Voted env privKey rand msgCandidate tickets tickets')
    (hash : Hash) (key : Hash33) :
    (tickets'.voterKeys hash).count key ≤ (tickets.voterKeys hash).count key +
      if hash = msgCandidate.blockHash env.prim ∧ env.prim.pubKey privKey = key then 1 else 0 := by
  cases h with
  | abstained => exact le_add_right _ _
  | voted => exact count_voterKeys_updateTicketPool.le

theorem ownCount_voted (h : Voted env privKey rand msgCandidate tickets tickets') (hash : Hash) :
    ownCount env privKey tickets' hash ≤ ownCount env privKey tickets hash +
      if hash = msgCandidate.blockHash env.prim then 1 else 0 := by
  have hc := count_voterKeys_voted h hash (env.prim.pubKey privKey)
  simp only [and_true] at hc
  exact hc

theorem others_voted (h : TicketCounts env privKey node)
    (hv : Voted env privKey rand msgCandidate node.tickets tickets) (hash : Hash) (key : Hash33)
    (hk : key ≠ env.prim.pubKey privKey) : (tickets.voterKeys hash).count key ≤ 1 := by
  have hc := count_voterKeys_voted hv hash key
  rw [if_neg fun ha => hk ha.2.symm] at hc
  exact hc.trans (h.others hash key hk)

section

variable (h : OwnOnce env privKey node hash)
include h

theorem OwnOnce.eq_zero (hf : hash ∉ node.pools.current) :
    ownCount env privKey node.tickets hash = 0 := by
  by_contra hne
  exact hf (h.2 hne)

theorem OwnOnce.mono (ht : node'.tickets = node.tickets)
    (hs : ∀ hash ∈ node.pools.current, hash ∈ node'.pools.current) :
    OwnOnce env privKey node' hash := by
  rw [OwnOnce, ht]
  exact ⟨h.1, fun hne => hs hash (h.2 hne)⟩

theorem OwnOnce.voted {pointTo : Hash} (hf : msgCandidate.blockHash env.prim ∉ node.pools.current)
    (hv : Voted env privKey rand msgCandidate node.tickets tickets) :
    OwnOnce env privKey
      { node with pools := node.pools.addCandidate env.prim pointTo msgCandidate, tickets }
      hash := by
  have hc := ownCount_voted hv hash
  by_cases hh : hash = msgCandidate.blockHash env.prim
  · subst hh
    rw [if_pos rfl, h.eq_zero hf] at hc
    exact ⟨hc, fun _ => mem_insert.2 (.inl rfl)⟩
  · rw [if_neg hh] at hc
    refine ⟨hc.trans h.1, fun hne => mem_insert.2 (.inr (h.2 ?_))⟩
    exact fun hz => hne (le_zero.1 (hc.trans hz.le))

end

namespace TicketCounts

section

variable (h : TicketCounts env privKey node)
include h

theorem mono (ht : node'.tickets = node.tickets)
    (hs : ∀ hash ∈ node.pools.current, hash ∈ node'.pools.current)
    (hr : node.work = false → node.pending = none →
      node'.work = false ∧ node'.pending = none) : TicketCounts env privKey node' where
  others := by
    rw [ht]
    exact h.others
  own := by
    cases h.own with
    | working ho => exact .working fun hash => (ho hash).mono ht hs
    | resting own hw hp htw ha ho =>
      obtain ⟨hw', hp'⟩ := hr hw hp
      refine .resting own hw' hp' ?_ ?_ fun hash hne =>
        (ho hash hne).mono ht hs
      · rw [ht]
        exact htw
      · rw [ht]
        exact fun hn => ha fun hm => hn (hs own hm)

theorem admitted {rand : BitVec 256} {msgCandidate : MsgCandidate} {pointTo : Hash}
    {tickets : TicketPool} (hf : msgCandidate.blockHash env.prim ∉ node.pools.current)
    (hv : Voted env privKey rand msgCandidate node.tickets tickets) :
    TicketCounts env privKey
      { node with pools := node.pools.addCandidate env.prim pointTo msgCandidate, tickets } where
  others := others_voted h hv
  own := by
    cases h.own with
    | working ho => exact .working fun hash => (ho hash).voted hf hv
    | resting own hw hp ht ha ho =>
      have hc := ownCount_voted hv own
      -- the own candidate itself may be what comes in, after it has been voted for
      by_cases how : own = msgCandidate.blockHash env.prim
      · have hon := ha (how ▸ hf)
        rw [if_pos how] at hc
        refine .resting own hw hp (by dsimp only; omega) ?_ fun hash hne =>
          (ho hash hne).voted hf hv
        exact fun hn => absurd (mem_insert.2 (.inl how)) hn
      · rw [if_neg how] at hc
        refine .resting own hw hp (hc.trans ht) ?_ fun hash hne =>
          (ho hash hne).voted hf hv
        intro hn
        exact hc.trans (ha fun hm => hn (mem_insert.2 (.inr hm)))

/-- A vote has been counted: for a block of the pool, with a key that has no ticket for it. -/
theorem collected {hash : Hash} {ticket : SignAndKey} (hm : hash ∈ node.pools.current)
    (hnw : ticket.publicKey ∉ node.tickets.voterKeys hash) :
    TicketCounts env privKey
      { node with tickets := node.tickets.updateTicketPool hash ticket } := by
  have hz : (node.tickets.voterKeys hash).count ticket.publicKey = 0 := count_eq_zero.2 hnw
  have ho : ∀ hash', OwnOnce env privKey node hash' → OwnOnce env privKey
      { node with tickets := node.tickets.updateTicketPool hash ticket } hash' := by
    intro hash' h'
    rw [OwnOnce, ownCount, count_voterKeys_updateTicketPool]
    split_ifs with hs
    · obtain ⟨rfl, how⟩ := hs
      rw [← how, hz]
      exact ⟨le_rfl, fun _ => hm⟩
    · exact h'
  constructor
  · intro hash' key hk
    rw [count_voterKeys_updateTicketPool]
    split_ifs with hs
    · obtain ⟨rfl, rfl⟩ := hs
      rw [hz]
    · exact h.others hash' key hk
  · cases h.own with
    | working hal => exact .working fun hash' => ho hash' (hal hash')
    | resting own hw hp ht ha hal =>
      refine .resting own hw hp ?_ ?_ fun hash' hne => ho hash' (hal hash' hne)
      · rw [ownCount, count_voterKeys_updateTicketPool]
        split_ifs with hs
        · obtain ⟨rfl, how⟩ := hs
          rw [← how, hz]
          exact le_succ 1
        · exact ht
      · intro hn
        have hne : own ≠ hash := fun heq => hn (heq ▸ hm)
        rw [ownCount, count_voterKeys_updateTicketPool, if_neg fun hs => hne hs.1]
        exact ha hn

theorem submitted {rand : BitVec 256} {msgCandidate : MsgCandidate} {tickets : TicketPool}
    (hp : node.pending = some msgCandidate)
    (hv : Voted env privKey rand msgCandidate node.tickets tickets) :
    TicketCounts env privKey { node with pending := none, work := false, tickets } where
  others := others_voted h hv
  own := by
    cases h.own with
    | resting _ _ hno => cases hp.symm.trans hno
    | working ho =>
      have hc := ownCount_voted hv
      refine .resting (msgCandidate.blockHash env.prim) rfl rfl ?_ ?_ ?_
      · have hon := (ho (msgCandidate.blockHash env.prim)).1
        have hle := hc (msgCandidate.blockHash env.prim)
        rw [if_pos rfl] at hle
        exact hle.trans (succ_le_succ hon)
      · intro hn
        have hle := hc (msgCandidate.blockHash env.prim)
        rwa [if_pos rfl, (ho _).eq_zero hn] at hle
      · intro hash hne
        have hle := hc hash
        rw [if_neg hne] at hle
        refine ⟨hle.trans (ho hash).1, fun hne' => (ho hash).2 fun hz => hne' ?_⟩
        exact le_zero.1 (hle.trans hz.le)

end

theorem of_empty (h : node.tickets = ∅) : TicketCounts env privKey node where
  others hash key _ := by
    rw [h]
    exact zero_le 1
  own := by
    refine .working fun hash => ?_
    rw [OwnOnce, h]
    exact ⟨zero_le 1, absurd rfl⟩

end TicketCounts

theorem eq_or_work_of_generate {input : GenerateInput}
    (h : generate env privKey node input = .ok node') : node' = node ∨ node.work = true := by
  rw [generate] at h
  split_ifs at h with hi
  · cases h
    exact .inl rfl
  · simp only [Bool.or_eq_true, not_or, Bool.not_eq_true, Bool.not_eq_false'] at hi
    exact .inr hi.1.2

/-- **One step keeps the counts.** -/
theorem ticketCounts_step (h : TicketCounts env privKey node)
    (hs : step env privKey node event = .ok node') : TicketCounts env privKey node' := by
  cases moves_of_step hs with
  | ignored => exact h
  | admitted ha hv => exact h.admitted ha.fresh hv
  | incremented =>
    exact h.mono rfl (fun _ hm => mem_insert.2 (.inr hm)) fun hw hn =>
      ⟨hw, hn⟩
  | collected hc hnw =>
    refine h.collected (mem_of_lookup_eq_some hc) ?_
    exact preventRepeatSign_eq_true_iff.1 hnw
  | handed | synced | softState =>
    exact h.mono rfl (fun _ hm => hm) fun hw hn => ⟨hw, hn⟩
  | rested => exact h.mono rfl (fun _ hm => hm) fun _ hn => ⟨rfl, hn⟩
  | generated =>
    obtain heq | hw := eq_or_work_of_generate hs
    · rwa [heq]
    · refine h.mono rfl (fun _ hm => mem_insert.2 (.inr hm)) fun hf => ?_
      exact absurd (hw.symm.trans hf) Bool.noConfusion
  | dropped => exact h.mono rfl (fun _ hm => hm) fun hw _ => ⟨hw, rfl⟩
  | submitted hp _ _ hv => exact h.submitted hp hv
  | ended => exact .of_empty rfl

/-- **In every state, no other key has two tickets for a block, and the own key has at most one
ticket too many.** -/
theorem ticketCounts (h : Reachable env privKey startup events node) :
    TicketCounts env privKey node :=
  h.invariant (.of_empty rfl) fun _ _ _ hc _ hs => ticketCounts_step hc hs

end Counts

/-! ### Counting the voters -/

/-- A list in which one key may stand twice, and any other key once, is at most one longer than its
set of keys. -/
theorem length_le_card_toFinset_succ {keys : List Hash33} {own : Hash33}
    (ho : ∀ key, key ≠ own → keys.count key ≤ 1) (how : keys.count own ≤ 2) :
    keys.length ≤ keys.toFinset.card + 1 := by
  have hn : (keys.erase own).Nodup := by
    refine nodup_iff_count_le_one.2 fun key => ?_
    by_cases hk : key = own
    · rw [hk, count_erase_self]
      omega
    · rw [count_erase_of_ne hk]
      exact ho key hk
  have hc : (keys.erase own).length ≤ keys.toFinset.card := by
    rw [← toFinset_card_of_nodup hn]
    exact Finset.card_le_card fun key hk =>
      mem_toFinset.2 (mem_of_mem_erase (mem_toFinset.1 hk))
  rw [length_erase] at hc
  split_ifs at hc <;> omega

section Unique

variable {env : Env} {privKey : PrivateKey} {startup : Startup} {events : List Event}
  {node : Node env.prim} {hash₁ hash₂ : Hash}

theorem TicketCounts.length_le (h : TicketCounts env privKey node) :
    ∃ own, ∀ hash, (node.tickets.voterKeys hash).length ≤
      (node.tickets.voterKeys hash).toFinset.card + if hash = own then 1 else 0 := by
  -- a block for which the own key, too, has one ticket at most
  have ho : ∀ hash, OwnOnce env privKey node hash →
      (node.tickets.voterKeys hash).length ≤ (node.tickets.voterKeys hash).toFinset.card := by
    intro hash how
    refine (toFinset_card_of_nodup (nodup_iff_count_le_one.2 fun key => ?_)).ge
    by_cases hk : key = env.prim.pubKey privKey
    · rw [hk]
      exact how.1
    · exact h.others hash key hk
  cases h.own with
  | working ha => exact ⟨0, fun hash => (ho hash (ha hash)).trans (le_add_right _ _)⟩
  | resting own _ _ ht _ ha =>
    refine ⟨own, fun hash => ?_⟩
    split_ifs with how
    · subst how
      exact length_le_card_toFinset_succ (h.others hash) ht
    · exact ho hash (ha hash how)

/-- Two blocks without a common voter have together at most one ticket more than there are
voters. -/
theorem TicketCounts.length_add_length_le (h : TicketCounts env privKey node)
    (hne : hash₁ ≠ hash₂) (hd : ∀ key ∈ node.tickets.voterKeys hash₁,
      key ∉ node.tickets.voterKeys hash₂) :
    (node.tickets.tickets hash₁).length + (node.tickets.tickets hash₂).length ≤
      node.tickets.voters.card + 1 := by
  have hc : (node.tickets.voterKeys hash₁).toFinset.card +
      (node.tickets.voterKeys hash₂).toFinset.card ≤ node.tickets.voters.card := by
    rw [← Finset.card_union_of_disjoint]
    · refine Finset.card_le_card (Finset.union_subset ?_ ?_)
      all_goals
        exact fun key hk =>
      Finset.mem_biUnion.2 ⟨_, mem_keys.2 (mem_of_mem_voterKeys (mem_toFinset.1 hk)), hk⟩
    · refine Finset.disjoint_left.2 fun key hk₁ hk₂ => ?_
      exact hd key (mem_toFinset.1 hk₁) (mem_toFinset.1 hk₂)
  obtain ⟨own, hl⟩ := h.length_le
  have h₁ := hl hash₁
  have h₂ := hl hash₂
  rw [voterKeys, length_map, ← voterKeys] at h₁ h₂
  split_ifs at h₁ h₂ with ho₁ ho₂
  · exact absurd (ho₁.trans ho₂.symm) hne
  all_goals omega

/-- A quorum in a network of more than ten nodes takes two thirds of the expected voters. -/
theorem two_mul_le_of_isEnough {votes s : UInt16} (hs : 10 < s.toNat)
    (h : isEnough votes s = true) : 2 * min s.toNat idealVoteNum ≤ 3 * votes.toNat := by
  unfold isEnough at h
  split_ifs at h with hsc
  · simp only [Bool.or_eq_true, Bool.and_eq_true, decide_eq_true_eq] at h
    omega
  · simp only [decide_eq_true_eq] at h
    omega

theorem getVotes_le_length (tickets : TicketPool) (hash : Hash) :
    (tickets.getVotes hash).toNat ≤ (tickets.tickets hash).length := by
  exact mod_le _ _

/-- **Votes are not stuffed**: no block has more votes than voters, but one block for one vote. -/
theorem getVotes_le_voters (h : Reachable env privKey startup events node) :
    ∃ own, ∀ hash, (node.tickets.getVotes hash).toNat ≤
      (node.tickets.voterKeys hash).toFinset.card + if hash = own then 1 else 0 := by
  obtain ⟨own, hle⟩ := (ticketCounts h).length_le
  refine ⟨own, fun hash => (getVotes_le_length _ _).trans ?_⟩
  exact (length_map _).symm.trans_le (hle hash)

/-- **At most one block has a quorum** in a network of more than ten nodes, when no key holds
tickets for two blocks and not too many keys hold tickets. -/
theorem quorum_unique (hreach : Reachable env privKey startup events node) {s : UInt16}
    (hs : 10 < s.toNat) (hvoters : node.tickets.voters.card ≤ min s.toNat idealVoteNum)
    (honce : ∀ hash hash' key, key ∈ node.tickets.voterKeys hash →
      key ∈ node.tickets.voterKeys hash' → hash = hash')
    (h₁ : isEnough (node.tickets.getVotes hash₁) s = true)
    (h₂ : isEnough (node.tickets.getVotes hash₂) s = true) : hash₁ = hash₂ := by
  by_contra hne
  have ht := (ticketCounts hreach).length_add_length_le hne fun key hk₁ hk₂ =>
    hne (honce hash₁ hash₂ key hk₁ hk₂)
  have he₁ := two_mul_le_of_isEnough hs h₁
  have he₂ := two_mul_le_of_isEnough hs h₂
  have hv₁ := getVotes_le_length node.tickets hash₁
  have hv₂ := getVotes_le_length node.tickets hash₂
  -- twice two thirds of at least eleven voters is more than all of them and one
  have hm : 11 ≤ min s.toNat idealVoteNum := le_min hs (by decide)
  omega

end Unique

/-! ### Two rivals -/

/-- A candidate of another producer on top of the first one, with a scale of eleven. -/
def rivalCandidate (key : PrivateKey) : MsgCandidate :=
  { secondCandidate with
    header := { secondCandidate.header with
      signature := sampleEnv.prim.sign64 key 0
        (sampleEnv.prim.doubleHash64 firstBest.header.signature)
      publicKey := sampleEnv.prim.pubKey key
      scale := 11 } }

def rivalHash (key : PrivateKey) : Hash := (rivalCandidate key).blockHash sampleEnv.prim

/-- Seven other nodes vote for the rival of a key. -/
def rivalVotes (key : PrivateKey) : List Event :=
  [20, 21, 22, 23, 24, 25, 26].map fun voter => .sign (sampleSign voter (rivalHash key))

/-- Two rivals come in one after the other, and the node votes for both. -/
def rivalRound : List Event :=
  firstRounds ++ [.candidate (rivalCandidate 9) [] 0,
    .candidate (rivalCandidate 8) [sampleTickets (rivalHash 9) sampleKey []] 0] ++
    rivalVotes 9 ++ rivalVotes 8

/-- Eight keys give a quorum of eleven to two blocks of one round. -/
theorem two_quorums : ∃ node, Reachable sampleEnv sampleKey {} rivalRound node ∧
    (∀ hash msgCandidate, node.pools.current.lookup hash = some msgCandidate →
      msgCandidate.header.scale = 11) ∧
    node.tickets.voters.card = 8 ∧ rivalHash 8 ≠ rivalHash 9 ∧
    isEnough (node.tickets.getVotes (rivalHash 8)) 11 = true ∧
    isEnough (node.tickets.getVotes (rivalHash 9)) 11 = true := by
  refine Runs.exists_run_of (P := fun node => node.pools.current =
      (singleton (rivalHash 9) (rivalCandidate 9)).insert (rivalHash 8) (rivalCandidate 8) ∧
      node.tickets.voters.card = 8 ∧ rivalHash 8 ≠ rivalHash 9 ∧
      isEnough (node.tickets.getVotes (rivalHash 8)) 11 = true ∧
      isEnough (node.tickets.getVotes (rivalHash 9)) 11 = true) (by decide +kernel) ?_
  rintro node - ⟨hc, hr⟩
  refine ⟨fun hash msgCandidate hl => ?_, hr⟩
  rw [hc] at hl
  obtain ⟨-, rfl⟩ | ⟨-, hl⟩ := lookup_insert_cases hl
  · rfl
  · obtain ⟨-, rfl⟩ | ⟨-, hn⟩ := lookup_insert_cases (m := ∅) hl
    · rfl
    · cases hn

theorem getVotes_le_voters_rivalRound : ∃ node, Reachable sampleEnv sampleKey {} rivalRound node ∧
    node.tickets.voters.card = 8 ∧ ∃ own, ∀ hash, (node.tickets.getVotes hash).toNat ≤
      (node.tickets.voterKeys hash).toFinset.card + if hash = own then 1 else 0 :=
  Runs.exists_run_and (by decide +kernel) fun _ hr _ => getVotes_le_voters hr

/-- When the eight keys vote for one rival only, no other block has a quorum. -/
theorem quorum_unique_rival : ∃ node, Reachable sampleEnv sampleKey {}
      (firstRounds ++ [.candidate (rivalCandidate 8) [] 0,
        .candidate (rivalCandidate 9) [sampleTickets (rivalHash 8) sampleKey []] 0] ++
        rivalVotes 8) node ∧
    isEnough (node.tickets.getVotes (rivalHash 8)) 11 = true ∧
    ∀ hash, isEnough (node.tickets.getVotes hash) 11 = true → hash = rivalHash 8 := by
  refine Runs.exists_run_of (P := fun node => node.tickets.keys = {rivalHash 8} ∧
    node.tickets.voters.card = 8 ∧ isEnough (node.tickets.getVotes (rivalHash 8)) 11 = true)
    (by decide +kernel) ?_
  rintro node hr ⟨hk, hv, he⟩
  have ho : ∀ hash key, key ∈ node.tickets.voterKeys hash → hash = rivalHash 8 := by
    intro hash key hke
    have hm := mem_keys.2 (mem_of_mem_voterKeys hke)
    rw [hk] at hm
    exact Finset.mem_singleton.1 hm
  refine ⟨he, fun hash hh => ?_⟩
  refine quorum_unique hr (by decide) (hv.trans_le (by decide)) ?_ hh he
  exact fun hash₁ hash₂ key hke₁ hke₂ =>
    (ho hash₁ key hke₁).trans (ho hash₂ key hke₂).symm

end DrcNode
