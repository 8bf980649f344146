import DrcNode.Chain.Accept

/-!
# Handing blocks and candidates to the chain

`processBlock` and `processSyncBlock` are the two entrances to the chain. Both turn away a block
they already have, put a block whose parent is unknown into the orphan pool, accept any other block
and then the orphans that waited for it. They are one definition, `process`, with the check made
before a block is accepted as a parameter: `checkBlockSanity` in the first, none in the second.

Source: `blockchain/process.go`. The loop of `processOrphans` is bounded by a number of rounds that
is always enough (`processOrphansLoop_eq`).
-/

namespace DrcNode

open Finmap List OrphanPool

variable {prim : Primitives} {pool pool' : OrphanPool prim} {prevHash : Hash} {orphan : Block}

/-- The oldest orphan that waits for a block, with the pool without it. -/
def OrphanPool.take {prim : Primitives} (pool : OrphanPool prim) (prevHash : Hash) :
    Option (Block × OrphanPool prim) :=
  match h : pool.waiting prevHash with
  | [] => none
  | orphan :: _ => some (orphan, pool.remove orphan
      (linked_of_mem_waiting (h ▸ mem_cons_self : orphan ∈ pool.waiting prevHash)).1)

theorem OrphanPool.take_eq_some (h : pool.take prevHash = some (orphan, pool')) :
    ∃ hm : pool.orphans.lookup (orphan.hash prim) = some orphan, pool' = pool.remove orphan hm := by
  rw [take] at h
  split at h
  · exact absurd h (Option.some_ne_none _).symm
  · cases h
    exact ⟨_, rfl⟩

theorem OrphanPool.mem_waiting_of_take (h : pool.take prevHash = some (orphan, pool')) :
    orphan ∈ pool.waiting prevHash := by
  rw [take] at h
  split at h
  · exact absurd h (Option.some_ne_none _).symm
  · rename_i hw
    cases h
    rw [hw]
    exact mem_cons_self

theorem OrphanPool.take_eq_none (h : pool.waiting prevHash = []) : pool.take prevHash = none := by
  rw [take]
  split
  · rfl
  · rename_i heq
    rw [h] at heq
    cases heq

theorem OrphanPool.card_take (h : pool.take prevHash = some (orphan, pool')) :
    pool'.orphans.keys.card + 1 = pool.orphans.keys.card := by
  obtain ⟨hm, rfl⟩ := take_eq_some h
  have hk : orphan.hash prim ∈ pool.orphans.keys := Finmap.mem_keys.2 (mem_of_lookup_eq_some hm)
  rw [remove, keys_erase, Finset.card_erase_add_one hk]

namespace BlockChain

section Processing

variable (env : Env)

/-- `blockExists`: the block is in the index, or in the database and on the best chain. -/
def blockExists {prim : Primitives} (chain : BlockChain prim) (hash : Hash) : Bool :=
  decide (hash ∈ chain.index) || (decide (hash ∈ chain.blocks) && decide (hash ∈ chain.hashIndex))

/-- The loop of `processOrphans`, for at most the given number of rounds. -/
def processOrphansLoop : Nat → List Hash → BlockChain env.prim → Call (BlockChain env.prim) Unit
  | 0, _, chain => .ok (chain, .ok ())
  | _ + 1, [], chain => .ok (chain, .ok ())
  | n + 1, processHash :: processHashes, chain =>
      match chain.orphanPool.take processHash with
      | none => processOrphansLoop n processHashes chain
      | some (orphan, orphanPool) =>
          (maybeAcceptBlock env { chain with orphanPool } orphan).andThen fun chain _ =>
            processOrphansLoop n (processHash :: processHashes ++ [orphan.hash env.prim]) chain

/-- Accept the orphans that waited for a block, and those that waited for these. -/
def processOrphans (hash : Hash) (chain : BlockChain env.prim) : Call (BlockChain env.prim) Unit :=
  processOrphansLoop env (2 * chain.orphanPool.orphans.keys.card + 2) [hash] chain

/-- What happened to a block that was not turned away. -/
inductive Outcome
  | orphan
  | accepted (isMainChain : Bool)
  deriving DecidableEq, Repr

/-- What `ProcessBlock` and `ProcessSyncBlock` share. -/
def process (check : Check Unit) (block : Block) (chain : BlockChain env.prim) :
    Call (BlockChain env.prim) Outcome :=
  if chain.blockExists (block.hash env.prim) then
    .ok (chain, .error (.ruleError .errDuplicateBlock))
  else if hfresh : block.hash env.prim ∈ chain.orphanPool.orphans then
    .ok (chain, .error (.ruleError .errDuplicateBlock))
  else if chain.blockExists block.msgBlock.header.prevBlock = false then
    .ok ({ chain with orphanPool := chain.orphanPool.add block hfresh }, .ok .orphan)
  else
    check.andThen chain fun _ =>
      (maybeAcceptBlock env chain block).andThen fun chain isMainChain =>
        (processOrphans env (block.hash env.prim) chain).andThen fun chain _ =>
          .ok (chain, .ok (.accepted isMainChain))

section

variable (current : CandidatePool) (block : Block) (chain : BlockChain env.prim)

/-- The check `ProcessBlock` makes on a block with a known parent. -/
def processBlockCheck :
    Check Unit :=
  match chain.index.lookup block.msgBlock.header.prevBlock with
  | none => .error (.panic .nilPointer)
  | some node => do
      let pi ← Check.ofPanic (blockVerge block.msgBlock.header.scale)
      checkBlockSanity env.prim current block.msgBlock
        (env.prim.doubleHash64 node.fields.signature) pi

def processBlock :
    Call (BlockChain env.prim) Outcome :=
  process env (processBlockCheck env current block chain) block chain

end

def processSyncBlock (block : Block) (chain : BlockChain env.prim) :
    Call (BlockChain env.prim) Outcome :=
  process env (.ok ()) block chain

end Processing

variable {env : Env} {chain chain' : BlockChain env.prim} {block : Block} {check : Check Unit}
  {result : Except GoError Outcome} {hash : Hash} {current : CandidatePool} {hashes : List Hash}
  {P : BlockChain env.prim → Prop}

theorem exists_checkBlockSanity_of_processBlockCheck
    (h : processBlockCheck env current block chain = .ok ()) :
    ∃ seed pi, checkBlockSanity env.prim current block.msgBlock seed pi = .ok () := by
  rw [processBlockCheck] at h
  split at h
  · cases h
  · rw [Checked.bind_eq_ok] at h
    obtain ⟨pi, -, hs⟩ := h
    exact ⟨_, pi, hs⟩

/-! ### The loop over the orphans -/

/-- **The bound on the number of rounds does not matter.** -/
theorem processOrphansLoop_eq {m n : Nat}
    (hm : 2 * chain.orphanPool.orphans.keys.card + hashes.length < m)
    (hn : 2 * chain.orphanPool.orphans.keys.card + hashes.length < n) :
    processOrphansLoop env m hashes chain = processOrphansLoop env n hashes chain := by
  induction m generalizing n hashes chain with
  | zero => omega
  | succ m ih =>
    obtain ⟨n, rfl⟩ : ∃ k, n = k + 1 := ⟨n - 1, by omega⟩
    cases hashes with
    | nil => rfl
    | cons hash hashes =>
      rw [length_cons] at hm hn
      rw [processOrphansLoop, processOrphansLoop]
      cases ht : chain.orphanPool.take hash with
      | none => exact ih (by omega) (by omega)
      | some taken =>
        obtain ⟨orphan, orphanPool⟩ := taken
        have hc := card_take ht
        simp only
        cases ha : maybeAcceptBlock env { chain with orphanPool } orphan with
        | error p => rfl
        | ok accepted =>
          obtain ⟨chain', result⟩ := accepted
          -- accepting the orphan leaves the pool as it is
          have hp : chain'.orphanPool = orphanPool := (accepts_of_maybeAcceptBlock ha).orphanPool_eq
          cases result with
          | error e => rfl
          | ok isMainChain =>
            refine ih ?_ ?_ <;>
              rw [hp, length_append, length_cons, length_singleton] <;> omega

theorem processOrphansLoop_invariant (hs : ∀ {chain chain' hash orphan orphanPool result}, P chain →
      chain.orphanPool.take hash = some (orphan, orphanPool) →
      maybeAcceptBlock env { chain with orphanPool } orphan = .ok (chain', result) → P chain')
    {n : Nat}
    {result : Except GoError Unit} (hP : P chain)
    (h : processOrphansLoop env n hashes chain = .ok (chain', result)) : P chain' := by
  induction n generalizing hashes chain with
  | zero =>
    cases h
    exact hP
  | succ n ih =>
    cases hashes with
    | nil =>
      cases h
      exact hP
    | cons hash hashes =>
      rw [processOrphansLoop] at h
      cases ht : chain.orphanPool.take hash with
      | none =>
        rw [ht] at h
        exact ih hP h
      | some taken =>
        rw [ht, Call.andThen_eq_ok] at h
        obtain ⟨chain₁, isMainChain, ha, h⟩ | ⟨e, ha, -⟩ := h
        · exact ih (hs hP ht ha) h
        · exact hs hP ht ha

/-! ### What handing over a block can do -/

/-- The block is new, its parent is known, and it has passed the check. -/
structure Passes (env : Env) (check : Check Unit) (block : Block) (chain : BlockChain env.prim) :
    Prop where
  new : chain.blockExists (block.hash env.prim) = false
  not_orphan : block.hash env.prim ∉ chain.orphanPool.orphans
  parent_known : chain.blockExists block.msgBlock.header.prevBlock = true
  checked : check = .ok ()

theorem Passes.notMem_index (h : Passes env check block chain) :
    block.hash env.prim ∉ chain.index := by
  intro hm
  have hn := h.new
  rw [blockExists, decide_eq_true hm] at hn
  cases hn

theorem process_of_passes (h : Passes env check block chain) : process env check block chain =
      (maybeAcceptBlock env chain block).andThen fun chain isMainChain =>
        (processOrphans env (block.hash env.prim) chain).andThen fun chain _ =>
          .ok (chain, .ok (.accepted isMainChain)) := by
  rw [process, h.new, dif_neg h.not_orphan, h.parent_known, if_neg Bool.false_ne_true.symm,
    h.checked]
  rfl

/-- **The ways in which handing over a block can end.** -/
inductive Processes (env : Env) (check : Check Unit) (block : Block) (chain : BlockChain env.prim) :
    BlockChain env.prim → Except GoError Outcome → Prop
  | rejected (e : GoError) : Processes env check block chain chain (.error e)
  | orphaned (hfresh : block.hash env.prim ∉ chain.orphanPool.orphans)
      (hnew : chain.blockExists (block.hash env.prim) = false)
      (hparent : chain.blockExists block.msgBlock.header.prevBlock = false) :
      Processes env check block chain
        { chain with orphanPool := chain.orphanPool.add block hfresh } (.ok .orphan)
  | failed {chain' : BlockChain env.prim} {e : GoError} (hpasses : Passes env check block chain)
      (haccept : maybeAcceptBlock env chain block = .ok (chain', .error e)) :
      Processes env check block chain chain' (.error e)
  | accepted {chain₁ chain' : BlockChain env.prim} {isMainChain : Bool}
      {result : Except GoError Unit}
      (hpasses : Passes env check block chain)
      (haccept : maybeAcceptBlock env chain block = .ok (chain₁, .ok isMainChain))
      (horphans : processOrphans env (block.hash env.prim) chain₁ = .ok (chain', result)) :
      Processes env check block chain chain' (result.map fun _ => .accepted isMainChain)

theorem processes_of_process (h : process env check block chain = .ok (chain', result)) :
    Processes env check block chain chain' result := by
  rw [process] at h
  split_ifs at h with he hf hpa
  · cases h
    exact .rejected _
  · cases h
    exact .rejected _
  · cases h
    exact .orphaned hf (Bool.eq_false_of_not_eq_true he) hpa
  rw [Check.andThen_eq_ok] at h
  obtain ⟨⟨⟩, hc, h⟩ | ⟨e, -, rfl, rfl⟩ := h
  · have hp : Passes env check block chain :=
      ⟨Bool.eq_false_of_not_eq_true he, hf, Bool.eq_true_of_not_eq_false hpa, hc⟩
    rw [Call.andThen_eq_ok] at h
    obtain ⟨chain₁, isMainChain, hm, h⟩ | ⟨e, hm, rfl⟩ := h
    · rw [Call.andThen_eq_ok] at h
      obtain ⟨chain₂, ⟨⟩, ho, h⟩ | ⟨e, ho, rfl⟩ := h
      · cases h
        exact .accepted hp hm ho
      · exact .accepted hp hm ho
    · exact .failed hp hm
  · exact .rejected e

/-- **Invariant rule for the entrances to the chain**: a block is put into the orphan pool, or
accepted after the check, or accepted as an orphan. -/
theorem process_invariant (hP : P chain)
    (hor : ∀ hf : block.hash env.prim ∉ chain.orphanPool.orphans,
      chain.blockExists (block.hash env.prim) = false →
      chain.blockExists block.msgBlock.header.prevBlock = false →
      P { chain with orphanPool := chain.orphanPool.add block hf })
    (hac : ∀ {chain' result}, Passes env check block chain →
      maybeAcceptBlock env chain block = .ok (chain', result) → P chain')
    (hs : ∀ {chain chain' hash orphan orphanPool result}, P chain →
      chain.orphanPool.take hash = some (orphan, orphanPool) →
      maybeAcceptBlock env { chain with orphanPool } orphan = .ok (chain', result) → P chain')
    (h : process env check block chain = .ok (chain', result)) : P chain' := by
  cases processes_of_process h with
  | rejected => exact hP
  | orphaned hf hn hpa => exact hor hf hn hpa
  | failed hp ha => exact hac hp ha
  | accepted hp ha ho =>
    exact processOrphansLoop_invariant hs (hac hp ha) ho

section

variable (h : process env check block chain = .ok (chain', result))
include h

theorem mem_index_process (hm : hash ∈ chain.index) : hash ∈ chain'.index := by
  refine process_invariant (P := fun chain => hash ∈ chain.index) hm (fun _ _ _ => hm) ?_ ?_ h
  · exact fun _ ha => (accepts_of_maybeAcceptBlock ha).mem_index hm
  · exact fun hP _ ha => (accepts_of_maybeAcceptBlock ha).mem_index hP

theorem hashIndex_subset_process (hs : ∀ hash ∈ chain.hashIndex, hash ∈ chain.index) :
    ∀ hash ∈ chain'.hashIndex, hash ∈ chain'.index := by
  refine process_invariant (P := fun chain => ∀ hash ∈ chain.hashIndex, hash ∈ chain.index) hs
    (fun _ _ _ => hs) ?_ ?_ h
  · exact fun _ ha => (accepts_of_maybeAcceptBlock ha).hashIndex_subset hs
  · exact fun hP _ ha => (accepts_of_maybeAcceptBlock ha).hashIndex_subset hP

end

theorem processOrphans_of_take_eq_none (h : chain.orphanPool.take hash = none) :
    processOrphans env hash chain = .ok (chain, .ok ()) := by
  rw [processOrphans, processOrphansLoop, h]
  rfl

/-- **What a block for which no orphan waits does to the index**: it may get its own node, and
nothing else changes. -/
theorem lookup_index_process {node : BlockNode}
    (h : process env check block chain = .ok (chain', result))
    (hw : chain.orphanPool.waiting (block.hash env.prim) = [])
    (hn : chain'.index.lookup hash = some node) :
    chain.index.lookup hash = some node ∨
      hash = block.hash env.prim ∧ node.votes = block.votes ∧ hash ∉ chain.index := by
  have hac : ∀ {result : Except GoError Bool}, Passes env check block chain →
      maybeAcceptBlock env chain block = .ok (chain', result) →
        chain.index.lookup hash = some node ∨
          hash = block.hash env.prim ∧ node.votes = block.votes ∧ hash ∉ chain.index := by
    intro result hp ha
    rcases (accepts_of_maybeAcceptBlock ha).index_eq with heq | ⟨prevNode, -, heq⟩
    · rw [heq] at hn
      exact .inl hn
    · rw [heq] at hn
      obtain ⟨rfl, rfl⟩ | ⟨-, hol⟩ := lookup_insert_cases hn
      · exact .inr ⟨rfl, rfl, hp.notMem_index⟩
      · exact .inl hol
  cases processes_of_process h with
  | rejected => exact .inl hn
  | orphaned => exact .inl hn
  | failed hp ha => exact hac hp ha
  | accepted hp ha ho =>
    have hpo := (accepts_of_maybeAcceptBlock ha).orphanPool_eq
    rw [processOrphans_of_take_eq_none (take_eq_none (hpo ▸ hw))] at ho
    cases ho
    exact hac hp ha

end BlockChain

/-! ### Candidates -/

/-- The package variables: the candidates of the last and of the current round, and those that point
to a block. -/
structure Pools where
  prev : CandidatePool
  current : CandidatePool
  points : PointPool
  deriving DecidableEq

/-- Put a candidate into the pool of the round, and among the candidates that point to a block. -/
def Pools.addCandidate (prim : Primitives) (pools : Pools) (pointTo : Hash)
    (msgCandidate : MsgCandidate) : Pools :=
  { pools with
    current := pools.current.insert (msgCandidate.blockHash prim) msgCandidate
    points := pools.points.insert pointTo
      ((pools.points.lookup pointTo).getD [] ++ [msgCandidate]) }

namespace BlockChain

/-- `ProcessCandidate`: whether the weight is the smallest of the round so far. The previous block
is only looked for in the pool of the last round. -/
def processCandidate (env : Env) (chain : BlockChain env.prim) (pools : Pools)
    (msgCandidate : MsgCandidate) : Call Pools Bool :=
  let blockHash := msgCandidate.blockHash env.prim
  if blockHash ∈ pools.current then .ok (pools, .error (.ruleError .errDuplicateBlock))
  else if blockHash ∈ chain.orphanPool.orphans then
    .ok (pools, .error (.ruleError .errDuplicateBlock))
  else
    match chain.bestCandidate with
    | none => .error .nilPointer
    | some best =>
        (Check.ofPanic (blockVerge (processCandidateWindow chain.index best).estimate)).andThen
          pools fun pi =>
        (checkCandidateSanity env.prim pools.current msgCandidate
          (env.prim.doubleHash64 best.header.signature) pi).andThen pools fun vb =>
        if msgCandidate.header.prevBlock ∈ pools.prev then
          .ok (pools.addCandidate env.prim best.hash msgCandidate, .ok vb)
        else .ok (pools, .error (.ruleError .errDuplicateBlock))

variable {env : Env} {chain : BlockChain env.prim} {pools pools' : Pools}
  {msgCandidate : MsgCandidate}

/-- What a candidate that is accepted has passed. -/
structure CandidateAccepted (env : Env) (chain : BlockChain env.prim) (pools : Pools)
    (msgCandidate : MsgCandidate) (best : BestLastCandidate) (vb : Bool) : Prop where
  best_eq : chain.bestCandidate = some best
  fresh : msgCandidate.blockHash env.prim ∉ pools.current
  not_orphan : msgCandidate.blockHash env.prim ∉ chain.orphanPool.orphans
  sane : ∃ pi, blockVerge (processCandidateWindow chain.index best).estimate = .ok pi ∧
    checkCandidateSanity env.prim pools.current msgCandidate
      (env.prim.doubleHash64 best.header.signature) pi = .ok vb
  prev_mem : msgCandidate.header.prevBlock ∈ pools.prev

theorem processCandidate_cases {result : Except GoError Bool}
    (h : processCandidate env chain pools msgCandidate = .ok (pools', result)) :
    (∃ best vb, result = .ok vb ∧ CandidateAccepted env chain pools msgCandidate best vb ∧
        pools' = pools.addCandidate env.prim best.hash msgCandidate) ∨
      ∃ e, result = .error e ∧ pools' = pools := by
  simp only [processCandidate] at h
  by_cases hf : msgCandidate.blockHash env.prim ∈ pools.current
  · rw [if_pos hf] at h
    cases h
    exact .inr ⟨_, rfl, rfl⟩
  rw [if_neg hf] at h
  by_cases ho : msgCandidate.blockHash env.prim ∈ chain.orphanPool.orphans
  · rw [if_pos ho] at h
    cases h
    exact .inr ⟨_, rfl, rfl⟩
  rw [if_neg ho] at h
  split at h
  · cases h
  rename_i best hb
  simp only [Check.andThen_eq_ok, Check.ofPanic_eq_ok] at h
  obtain ⟨pi, hpi, ⟨vb, hs, h⟩ | ⟨e, -, rfl, rfl⟩⟩ | ⟨e, -, rfl, rfl⟩ := h
  · split_ifs at h with hp
    · cases h
      exact .inl ⟨best, vb, rfl, ⟨hb, hf, ho, ⟨pi, hpi, hs⟩, hp⟩, rfl⟩
    · cases h
      exact .inr ⟨_, rfl, rfl⟩
  · exact .inr ⟨e, rfl, rfl⟩
  · exact .inr ⟨e, rfl, rfl⟩

/-- **Which candidates are accepted**, and what becomes of the pools. -/
theorem processCandidate_eq_ok_iff {vb : Bool} :
    processCandidate env chain pools msgCandidate = .ok (pools', .ok vb) ↔
      ∃ best, CandidateAccepted env chain pools msgCandidate best vb ∧
        pools' = pools.addCandidate env.prim best.hash msgCandidate := by
  constructor
  · intro h
    obtain ⟨best, vb', hvb, ha, hp⟩ | ⟨e, he, -⟩ := processCandidate_cases h
    · cases hvb
      exact ⟨best, ha, hp⟩
    · cases he
  · rintro ⟨best, ⟨hb, hf, ho, ⟨pi, hpi, hs⟩, hpr⟩, rfl⟩
    simp [processCandidate, if_neg hf, if_neg ho, hb, hpi, hs, Check.ofPanic, Check.andThen,
      if_pos hpr]

end BlockChain

end DrcNode
