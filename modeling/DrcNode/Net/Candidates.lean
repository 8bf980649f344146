import DrcNode.Net.Tickets

/-!
# What goes into the pools of a round

A candidate is put into the pool of the round and, next to it, among the candidates that point to a
block. `ProcessCandidate` takes the best candidate of the node for this block, although it has only
checked that the previous block is somewhere in the pool of the last round. `handleCandidateMsg` on
a node that is behind takes the previous block, and makes no check at all. The two pools tell the
same story as long as every candidate that is accepted extends the best candidate, and comes in
under a new hash; with another height the same header comes in again.

## Main results

* `handleCandidateMsg_places`, `points_exact`.
-/

namespace DrcNode

open Checked Finmap List Option Runs

open BlockChain

/-! ### The point pool -/

/-- The candidates that are recorded as pointing to a block. -/
def Pools.pointing (pools : Pools) (hash : Hash) : List MsgCandidate :=
  (pools.points.lookup hash).getD []

/-- **What the point pool is meant to be.** -/
def PointsExact (pools : Pools) : Prop :=
  ∀ hash, (pools.pointing hash).Nodup ∧ ∀ msgCandidate, msgCandidate ∈ pools.pointing hash ↔
    msgCandidate.header.prevBlock = hash ∧ ∃ key, pools.current.lookup key = some msgCandidate

/-- Every candidate of the pool stands under its own hash. -/
def KeyedByHash (prim : Primitives) (current : CandidatePool) : Prop :=
  ∀ {key msgCandidate}, current.lookup key = some msgCandidate → msgCandidate.blockHash prim = key

section Pools

variable {prim : Primitives} {pools : Pools} {pointTo hash : Hash} {msgCandidate : MsgCandidate}

theorem pointing_addCandidate : (pools.addCandidate prim pointTo msgCandidate).pointing pointTo =
      pools.pointing pointTo ++ [msgCandidate] := by
  simp [Pools.pointing, Pools.addCandidate]

theorem pointing_addCandidate_of_ne (h : hash ≠ pointTo) :
    (pools.addCandidate prim pointTo msgCandidate).pointing hash = pools.pointing hash := by
  simp [Pools.pointing, Pools.addCandidate, lookup_insert_of_ne _ h]

theorem mem_pointing_addCandidate {other : MsgCandidate} :
    other ∈ (pools.addCandidate prim pointTo msgCandidate).pointing hash ↔
      other ∈ pools.pointing hash ∨ hash = pointTo ∧ other = msgCandidate := by
  by_cases h : hash = pointTo
  · subst h
    rw [pointing_addCandidate, mem_append, List.mem_singleton, eq_self_iff_true, true_and]
  · rw [pointing_addCandidate_of_ne h]
    exact ⟨.inl, fun hor => hor.resolve_right fun ha => h ha.1⟩

theorem KeyedByHash.addCandidate (h : KeyedByHash prim pools.current) :
    KeyedByHash prim (pools.addCandidate prim pointTo msgCandidate).current := by
  intro key other hl
  obtain ⟨rfl, rfl⟩ | ⟨-, ho⟩ := lookup_insert_cases hl
  · rfl
  · exact h ho

/-- **When adding a candidate keeps the point pool exact.** -/
theorem pointsExact_addCandidate_iff (hk : KeyedByHash prim pools.current)
    (he : PointsExact pools) :
    PointsExact (pools.addCandidate prim pointTo msgCandidate) ↔
      msgCandidate.header.prevBlock = pointTo ∧ msgCandidate.blockHash prim ∉ pools.current := by
  constructor
  · intro h
    have hnw : msgCandidate ∈ (pools.addCandidate prim pointTo msgCandidate).pointing pointTo :=
      mem_pointing_addCandidate.2 (.inr ⟨rfl, rfl⟩)
    have hp : msgCandidate.header.prevBlock = pointTo := (((h pointTo).2 _).1 hnw).1
    refine ⟨hp, fun hm => ?_⟩
    obtain ⟨old, ho⟩ := mem_iff.1 hm
    have hpo : old ∈ pools.pointing old.header.prevBlock :=
      ((he old.header.prevBlock).2 old).2 ⟨rfl, _, ho⟩
    -- the candidate that is replaced is still recorded, so that it has to be the new one
    obtain ⟨-, key, hke⟩ :=
      ((h old.header.prevBlock).2 old).1 (mem_pointing_addCandidate.2 (.inl hpo))
    obtain ⟨-, rfl⟩ | ⟨hne, hke⟩ := lookup_insert_cases hke
    · have hn := (h pointTo).1
      rw [pointing_addCandidate, ← hp] at hn
      exact (nodup_append.1 hn).2.2 _ hpo _ (mem_singleton_self _) rfl
    · exact hne ((hk hke).symm.trans (hk ho))
  · rintro ⟨rfl, hf⟩ hash
    have hnm : ∀ key, pools.current.lookup key ≠ some msgCandidate := by
      intro key hke
      exact hf ((hk hke).symm ▸ mem_of_lookup_eq_some hke)
    constructor
    · by_cases hh : hash = msgCandidate.header.prevBlock
      · subst hh
        rw [pointing_addCandidate, nodup_append_comm, singleton_append, nodup_cons]
        refine ⟨fun hm => ?_, (he _).1⟩
        obtain ⟨-, key, hke⟩ := ((he _).2 _).1 hm
        exact hnm key hke
      · rw [pointing_addCandidate_of_ne hh]
        exact (he hash).1
    · intro other
      rw [mem_pointing_addCandidate, (he hash).2]
      constructor
      · rintro (⟨hp, key, hke⟩ | ⟨rfl, rfl⟩)
        · refine ⟨hp, key, ?_⟩
          have hne : key ≠ msgCandidate.blockHash prim := fun heq =>
            hf (heq ▸ mem_of_lookup_eq_some hke)
          exact (lookup_insert_of_ne _ hne).trans hke
        · exact ⟨rfl, _, lookup_insert _⟩
      · rintro ⟨hp, key, hke⟩
        obtain ⟨-, rfl⟩ | ⟨-, ho⟩ := lookup_insert_cases hke
        · exact .inr ⟨hp.symm, rfl⟩
        · exact .inl ⟨hp, key, ho⟩

theorem pointsExact_empty {prev : CandidatePool} : PointsExact ⟨prev, ∅, ∅⟩ := by
  intro hash
  refine ⟨nodup_nil, fun other => ⟨fun h => absurd h not_mem_nil, ?_⟩⟩
  rintro ⟨-, key, hk⟩
  exact absurd hk (some_ne_none other).symm

end Pools

/-! ### Candidates that arrive -/

section

variable {prim : Primitives} (node : Node prim) (msgCandidate : MsgCandidate)

/-- By how much the height claimed for a candidate is above the tip, in 32 bits. -/
def ahead : Int32 :=
  msgCandidate.sigwit.height - Int32.ofNat node.chain.stateSnapshot.height

/-- The node takes the candidate as a sign that it is behind. -/
def CatchesUp : Prop :=
  2 < ahead node msgCandidate ∧ msgCandidate.sigwit.height ≠ node.startHeight ∧
    msgCandidate.sigwit.height ∉ node.incrementBlock
  deriving Decidable

/-- The difference of the two heights has 32 bits. -/
def Comparable : Prop :=
  -2 ^ 31 ≤ msgCandidate.sigwit.height.toInt - node.chain.stateSnapshot.height ∧
    msgCandidate.sigwit.height.toInt - node.chain.stateSnapshot.height < 2 ^ 31
  deriving Decidable

end

section Arrivals

variable {env : Env} {privKey : PrivateKey} {node node' : Node env.prim}
  {msgCandidate : MsgCandidate} {order : Order Tickets} {rand : BitVec 256}

/-- **The two ways in which a message brings a candidate into the pools.** -/
theorem pools_handleCandidateMsg
    (h : handleCandidateMsg env privKey node msgCandidate order rand = .ok node') :
    node'.pools = node.pools ∨ (∃ best vb, ahead node msgCandidate = 2 ∧
        CandidateAccepted env node.chain node.pools msgCandidate best vb ∧
        node'.pools = node.pools.addCandidate env.prim best.hash msgCandidate) ∨
      CatchesUp node msgCandidate ∧
        node'.pools = node.pools.addCandidate env.prim msgCandidate.header.prevBlock
          msgCandidate := by
  simp only [handleCandidateMsg] at h
  by_cases ht : msgCandidate.sigwit.height - Int32.ofNat node.chain.stateSnapshot.height = 2
  · rw [if_pos ht, bind_eq_ok] at h
    obtain ⟨⟨pools, result⟩, hp, h⟩ := h
    obtain ⟨best, vb, rfl, ha, rfl⟩ | ⟨e, rfl, rfl⟩ := processCandidate_cases hp
    · refine .inr (.inl ⟨best, vb, ht, ha, ?_⟩)
      simp only at h
      split_ifs at h
      · rw [bind_eq_ok] at h
        obtain ⟨tickets, -, h⟩ := h
        cases h
        rfl
      · cases h
        rfl
    · cases h
      exact .inl rfl
  · rw [if_neg ht] at h
    split_ifs at h with hah hk
    · cases h
      exact .inl rfl
    · cases h
      exact .inr (.inr ⟨⟨hah, not_or.1 hk⟩, rfl⟩)
    · cases h
      exact .inl rfl

theorem toInt_ahead (h : Comparable node msgCandidate) : (ahead node msgCandidate).toInt =
    msgCandidate.sigwit.height.toInt - node.chain.stateSnapshot.height := by
  obtain ⟨hle, hlt⟩ := h
  have ho : (Int32.ofNat node.chain.stateSnapshot.height).toInt =
      Int.bmod node.chain.stateSnapshot.height (2 ^ 32) := Int32.toInt_ofNat'
  rw [ahead, Int32.toInt_sub, ho, Int.sub_bmod_bmod, Int.bmod_eq_of_le (by omega) (by omega)]

/-- **What is known of a candidate that a message brings into the pool of the round**, when its
height can be compared: it was there, or has passed `checkCandidateSanity` two above the tip, or
comes in unchecked as it is higher. -/
theorem handleCandidateMsg_places {hash : Hash} {placed : MsgCandidate}
    (h : handleCandidateMsg env privKey node msgCandidate order rand = .ok node')
    (hcomparable : Comparable node msgCandidate)
    (hplaced : node'.pools.current.lookup hash = some placed) :
    node.pools.current.lookup hash = some placed ∨
      placed = msgCandidate ∧ hash = placed.blockHash env.prim ∧
        ((placed.sigwit.height.toInt = node.chain.stateSnapshot.height + 2 ∧
          ∃ best pi vb, node.chain.bestCandidate = some best ∧
            blockVerge (processCandidateWindow node.chain.index best).estimate = .ok pi ∧
            checkCandidateSanity env.prim node.pools.current placed
              (env.prim.doubleHash64 best.header.signature) pi = .ok vb) ∨
        node.chain.stateSnapshot.height + 2 < placed.sigwit.height.toInt ∧
          placed.sigwit.height ≠ node.startHeight ∧
          placed.sigwit.height ∉ node.incrementBlock) := by
  have hto := toInt_ahead hcomparable
  have htwo : (2 : Int32).toInt = 2 := by decide
  -- a candidate that is found after an insertion is the new one, or was there before
  have had : ∀ {pointTo}, node'.pools = node.pools.addCandidate env.prim pointTo msgCandidate →
      node.pools.current.lookup hash = some placed ∨
        placed = msgCandidate ∧ hash = placed.blockHash env.prim := by
    intro pointTo hp
    rw [hp] at hplaced
    obtain ⟨rfl, rfl⟩ | ⟨-, ho⟩ := lookup_insert_cases hplaced
    · exact Or.inr ⟨rfl, rfl⟩
    · exact Or.inl ho
  obtain hs | ⟨best, vb, ht, ha, hp⟩ | ⟨hb, hp⟩ := pools_handleCandidateMsg h
  · exact Or.inl (hs ▸ hplaced)
  · refine (had hp).imp_right ?_
    rintro ⟨rfl, hh⟩
    obtain ⟨pi, hpi, hsa⟩ := ha.sane
    rw [ht, htwo] at hto
    exact ⟨rfl, hh, Or.inl ⟨by omega, best, pi, vb, ha.best_eq, hpi, hsa⟩⟩
  · refine (had hp).imp_right ?_
    rintro ⟨rfl, hh⟩
    have hlt := Int32.lt_iff_toInt_lt.1 hb.1
    rw [hto, htwo] at hlt
    exact ⟨rfl, hh, Or.inr ⟨by omega, hb.2⟩⟩

end Arrivals

/-! ### Runs that keep the point pool exact -/

section Runs

variable (env : Env) (privKey : PrivateKey) (node : Node env.prim)

/-- A candidate that arrives extends the best candidate if it is accepted, and is new if it is taken
unchecked. -/
def MayArrive (msgCandidate : MsgCandidate) : Prop :=
  (ahead node msgCandidate = 2 → ∀ best vb,
    CandidateAccepted env node.chain node.pools msgCandidate best vb →
      msgCandidate.header.prevBlock = best.hash) ∧
    (CatchesUp node msgCandidate → msgCandidate.blockHash env.prim ∉ node.pools.current)

/-- A candidate that the worker produces is new. -/
def GeneratesNew : Except Panic Generated → Prop
  | .ok (.candidate _ msgCandidate) => msgCandidate.blockHash env.prim ∉ node.pools.current
  | _ => True

/-- The worker waits, and does not produce a candidate. -/
def idle : Bool := node.submitBlockLock || !node.work || node.pending.isSome

/-- The condition under which an event keeps the point pool exact. -/
def KeepsPoints : Event → Prop
  | .candidate msgCandidate _ _ => MayArrive env node msgCandidate
  | .generate input => idle env node = false →
      GeneratesNew env node (generateBlocks env node.chain node.pools.current privKey input)
  | _ => True

theorem mayArrive_iff (msgCandidate : MsgCandidate) : MayArrive env node msgCandidate ↔
    (ahead node msgCandidate = 2 →
      ((processCandidate env node.chain node.pools msgCandidate).toOption.bind
        fun out => out.2.toOption).isSome = true →
      ∀ best ∈ node.chain.bestCandidate, msgCandidate.header.prevBlock = best.hash) ∧
    (CatchesUp node msgCandidate → msgCandidate.blockHash env.prim ∉ node.pools.current) := by
  refine and_congr (forall_congr' fun _ => ?_) .rfl
  constructor
  · intro h hs best hb
    match hp : processCandidate env node.chain node.pools msgCandidate with
    | .ok (pools, .ok vb) =>
      obtain ⟨best', ha, -⟩ := processCandidate_eq_ok_iff.1 hp
      obtain rfl : best' = best := Option.some.inj (ha.best_eq.symm.trans hb)
      exact h best' vb ha
    | .ok (pools, .error e) =>
      rw [hp] at hs
      cases hs
    | .error p =>
      rw [hp] at hs
      cases hs
  · intro h best vb ha
    have hp := processCandidate_eq_ok_iff.2 ⟨best, ha, rfl⟩
    refine h ?_ best ha.best_eq
    rw [hp]
    rfl

instance (msgCandidate : MsgCandidate) : Decidable (MayArrive env node msgCandidate) :=
  decidable_of_iff _ (mayArrive_iff env node msgCandidate).symm

instance (result : Except Panic Generated) : Decidable (GeneratesNew env node result) :=
  match result with
  | .ok (.candidate _ _) => inferInstanceAs (Decidable (_ ∉ node.pools.current))
  | .ok .waiting | .ok .overweight | .ok .failed | .error _ => inferInstanceAs (Decidable True)

instance (event : Event) : Decidable (KeepsPoints env privKey node event) :=
  match event with
  | .candidate _ _ _ => inferInstanceAs (Decidable (MayArrive ..))
  | .generate _ => inferInstanceAs (Decidable (_ = false → GeneratesNew ..))
  | .sign _ | .block _ | .syncBlock _ | .submit _ _ | .roundEnd _ _ =>
      inferInstanceAs (Decidable True)

end Runs

variable {env : Env} {privKey : PrivateKey} {startup : Startup} {events : List Event}
  {node node' : Node env.prim} {event : Event}

/-- **One step keeps the point pool exact**, and the pool of the round keyed by hash. -/
theorem pointsExact_step (hk : KeyedByHash env.prim node.pools.current)
    (he : PointsExact node.pools) (hke : KeepsPoints env privKey node event)
    (hs : step env privKey node event = .ok node') :
    KeyedByHash env.prim node'.pools.current ∧ PointsExact node'.pools := by
  have had : ∀ {pointTo msgCandidate},
      node'.pools = node.pools.addCandidate env.prim pointTo msgCandidate →
      msgCandidate.header.prevBlock = pointTo →
      msgCandidate.blockHash env.prim ∉ node.pools.current →
      KeyedByHash env.prim node'.pools.current ∧ PointsExact node'.pools := by
    intro pointTo msgCandidate hp hpv hf
    rw [hp]
    exact ⟨hk.addCandidate, (pointsExact_addCandidate_iff hk he).2 ⟨hpv, hf⟩⟩
  cases event with
  | candidate msgCandidate order rand =>
    obtain hsa | ⟨best, vb, ht, ha, hp⟩ | ⟨hb, hp⟩ := pools_handleCandidateMsg hs
    · rw [hsa]
      exact ⟨hk, he⟩
    · exact had hp (hke.1 ht best vb ha) ha.fresh
    · exact had hp rfl (hke.2 hb)
  | generate input =>
    rw [DrcNode.step, generate] at hs
    split_ifs at hs with hi
    · cases hs
      exact ⟨hk, he⟩
    rw [map_eq_ok] at hs
    obtain ⟨generated, hg, rfl⟩ := hs
    cases generated with
    | waiting => exact ⟨hk, he⟩
    | overweight => exact ⟨hk, he⟩
    | failed => exact ⟨hk, he⟩
    | candidate bestHash msgCandidate =>
      have hn := hke (Bool.eq_false_of_not_eq_true hi)
      rw [hg] at hn
      -- the miner records its candidate under the block it has built on
      obtain ⟨best, rfl, hpr⟩ := produced_of_generateBlocks hg
      exact had rfl hpr.prevBlock_eq hn
  | roundEnd order pointOrder =>
    cases moves_of_step hs with
    | ignored hev => cases hev
    | ended =>
      exact ⟨fun {_ c} h => absurd h (some_ne_none c).symm, pointsExact_empty⟩
  | sign msgSign => cases moves_of_step hs <;> exact ⟨hk, he⟩
  | block msgBlock => cases moves_of_step hs <;> exact ⟨hk, he⟩
  | syncBlock msg => cases moves_of_step hs <;> exact ⟨hk, he⟩
  | submit order rand => cases moves_of_step hs <;> exact ⟨hk, he⟩

/-- **The point pool is exact** when every candidate that is accepted extends the best candidate and
comes under a new hash. -/
theorem points_exact
    (hrun : Run (step env privKey) (KeepsPoints env privKey) (Node.start env startup) events
      node) : PointsExact node.pools := by
  refine (hrun.invariant (P := fun node =>
    KeyedByHash env.prim node.pools.current ∧ PointsExact node.pools) ?_ ?_).2
  · exact ⟨fun {_ c} h => absurd h (some_ne_none c).symm, pointsExact_empty⟩
  · exact fun _ _ _ h hk hs => pointsExact_step h.1 h.2 hk hs

/-! ### Pools that come apart -/

/-- The stray candidate with another height. -/
def strayAgain : MsgCandidate := { strayCandidate with sigwit := ⟨4⟩ }

/-- A candidate on top of the stray one. -/
def sideCandidate : MsgCandidate :=
  { secondCandidate with header := { secondCandidate.header with prevBlock := strayHash } }

/-- A stray candidate has come in, and in the next round a candidate on top of it arrives. -/
def sideRounds : List Event :=
  [.roundEnd [] [], .generate (sampleInput 10), .candidate strayCandidate [] 0, .submit [] 0,
    .roundEnd [sampleTickets firstHash sampleKey []]
      [⟨sampleEnv.genesisHash, [firstCandidate]⟩, ⟨firstHash, [strayCandidate]⟩],
    .candidate sideCandidate [] 0]

/-- A candidate is recorded at a block that it does not extend, and another one is no longer in the
pool. -/
theorem points_not_exact : (∃ node, Reachable sampleEnv sampleKey {} sideRounds node ∧
      sideCandidate ∈ node.pools.pointing firstHash ∧
      sideCandidate.header.prevBlock ≠ firstHash ∧ ¬PointsExact node.pools) ∧
    ∃ node, Reachable sampleEnv sampleKey {}
        [.roundEnd [] [], .candidate strayCandidate [] 0, .candidate strayAgain [] 0] node ∧
      node.pools.pointing firstHash = [strayCandidate, strayAgain] ∧
      node.pools.current = Finmap.singleton strayHash strayAgain ∧ ¬PointsExact node.pools := by
  constructor
  · refine exists_run_and (by decide +kernel) fun node _ hm =>
      have hne : sideCandidate.header.prevBlock ≠ firstHash := by decide +kernel
      ⟨hne, fun he => hne (((he firstHash).2 _).1 hm).1⟩
  · refine exists_run_of (P := fun node =>
        node.pools.pointing firstHash = [strayCandidate, strayAgain] ∧
          node.pools.current = Finmap.singleton strayHash strayAgain) (by decide +kernel) ?_
    rintro node - ⟨hp, hc⟩
    refine ⟨hp, hc, fun he => ?_⟩
    have hm : strayCandidate ∈ node.pools.pointing firstHash := hp ▸ mem_cons_self
    obtain ⟨-, key, hk⟩ := ((he firstHash).2 _).1 hm
    rw [hc] at hk
    obtain ⟨-, heq⟩ | ⟨-, hn⟩ := lookup_insert_cases (m := ∅) hk
    · exact absurd heq (by decide +kernel)
    · cases hn

/-- In the round of the second candidate, with a stray one that has come in as well. -/
theorem points_exact_secondCandidate : ∃ node,
    Run (step sampleEnv sampleKey) (KeepsPoints sampleEnv sampleKey) (Node.start sampleEnv {})
      (firstRounds ++ [.candidate secondCandidate [] 0, .candidate strayCandidate [] 0]) node ∧
    node.pools.pointing firstHash = [secondCandidate, strayCandidate] ∧
    PointsExact node.pools :=
  exists_run_and (by decide +kernel) fun _ hr _ => points_exact hr

/-- A candidate without transactions, from far above the tip. -/
def hollowCandidate (height : Int32) : MsgCandidate :=
  { strayCandidate with transactions := [], sigwit := ⟨height⟩ }

def hollowHash : Hash := (hollowCandidate 3).blockHash sampleEnv.prim

/-- A candidate without transactions is brought in with a claimed height of three above the tip, and
with a negative one. -/
theorem hollowCandidate_placed : (∃ node, Reachable sampleEnv sampleKey {} [.roundEnd [] []] node ∧
      node.chain.stateSnapshot.height = 0 ∧
      ((handleCandidateMsg sampleEnv sampleKey node (hollowCandidate 3) [] 0).map fun node' =>
        node'.pools.current.lookup hollowHash) = .ok (some (hollowCandidate 3)) ∧
      ∀ seed pi vb, checkCandidateSanity sampleEnv.prim node.pools.current (hollowCandidate 3)
        seed pi ≠ .ok vb) ∧
    ∃ node, Reachable sampleEnv sampleKey {} [.roundEnd [] [], .block sampleBlock] node ∧
      node.chain.stateSnapshot.height = 1 ∧
      ((handleCandidateMsg sampleEnv sampleKey node (hollowCandidate (-2147483648)) [] 0).map
        fun node' => node'.pools.current.lookup hollowHash) =
          .ok (some (hollowCandidate (-2147483648))) := by
  constructor
  · refine exists_run_of (P := fun node => node.chain.stateSnapshot.height = 0 ∧
        ((handleCandidateMsg sampleEnv sampleKey node (hollowCandidate 3) [] 0).map fun node' =>
          node'.pools.current.lookup hollowHash) = .ok (some (hollowCandidate 3)))
      (by decide +kernel) ?_
    rintro node - ⟨hh, hp⟩
    refine ⟨hh, hp, fun seed pi vb hs => ?_⟩
    obtain ⟨tx, txs, ht, -⟩ :=
      (bodySane_of_checkBody (checkCandidateSanity_eq_ok_iff.1 hs).2).first_coinbase
    exact absurd ht (cons_ne_nil tx txs).symm
  · exact exists_run (by decide +kernel)

/-- The second candidate is brought in after the checks. -/
theorem secondCandidate_placed : ∃ node node', Reachable sampleEnv sampleKey {} firstRounds node ∧
    handleCandidateMsg sampleEnv sampleKey node secondCandidate [] 0 = .ok node' ∧
    node'.pools.current.lookup secondHash = some secondCandidate ∧
    secondCandidate.sigwit.height.toInt = node.chain.stateSnapshot.height + 2 ∧
    ∃ best pi vb, node.chain.bestCandidate = some best ∧
      blockVerge (processCandidateWindow node.chain.index best).estimate = .ok pi ∧
      checkCandidateSanity sampleEnv.prim node.pools.current secondCandidate
        (sampleEnv.prim.doubleHash64 best.header.signature) pi = .ok vb := by
  obtain ⟨node, hr, hf, hhe, hp⟩ : ∃ node, Reachable sampleEnv sampleKey {} firstRounds node ∧
      node.pools.current.lookup secondHash = none ∧ node.chain.stateSnapshot.height = 0 ∧
      ((handleCandidateMsg sampleEnv sampleKey node secondCandidate [] 0).map fun node' =>
        node'.pools.current.lookup secondHash) = .ok (some secondCandidate) :=
    exists_run (by decide +kernel)
  obtain ⟨node', hh, hp⟩ := map_eq_ok.1 hp
  have hc : Comparable node secondCandidate := by
    rw [Comparable, hhe]
    decide
  obtain ho | ⟨-, -, ⟨ht, hs⟩ | ⟨hlt, -⟩⟩ := handleCandidateMsg_places hh hc hp
  · rw [hf] at ho
    cases ho
  · exact ⟨node, node', hr, hh, hp, ht, hs⟩
  · rw [hhe] at hlt
    exact absurd hlt (by decide)

end DrcNode
