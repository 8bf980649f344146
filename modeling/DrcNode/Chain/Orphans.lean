import DrcNode.Chain.SaneChain

/-!
# Errors after the chain has moved

A caller of `ProcessBlock` or `ProcessSyncBlock` that gets an error takes it that the block was
rejected. But a block with a known parent is connected first, and then the orphans that waited for
it are accepted; when one of these fails, the call returns its error although the tip has moved. The
orphans are connected as long as exactly one waits for the tip and passes the checks.

## Main results

* `bestChain_suffix_of_run`: the best chain only grows.
* `errors_keep_bestChain_iff`: which errors leave it as it is.

Source: `blockchain/process.go`, `blockchain/accept.go`; `handleBlockMsg` and `handleSyncBLock` in
`netsync/manager.go`.
-/

namespace DrcNode

open Checked Finmap OrphanPool

namespace BlockChain

/-! ### Extending the tip -/

section Extending

variable (env : Env)

/-- The checks of `connectBestChain` and `connectBlock` on a block that is to become the tip. -/
def checkConnects (utxoSet : UtxoSet) (node : BlockNode) (block : Block) : Check UtxoViewpoint := do
  let connected ← checkConnectBlock env utxoSet node block (.new block.msgBlock.header.prevBlock)
  if connected.2.length ≠ countSpentOutputs block then .error (.error .assertError)
  else pure connected.1

/-- All the checks on a block that is to become the tip. -/
def checkExtends (tip : BlockNode) (utxoSet : UtxoSet) (block : Block) : Check UtxoViewpoint := do
  checkBlockContext env.prim { block with height := tip.height + 1 } tip
  checkConnects env utxoSet (nodeOn env tip block) { block with height := tip.height + 1 }

/-- A chain after a block on top of `prevNode` has become its tip. -/
structure ExtendedBy (chain : BlockChain env.prim) (prevNode : BlockNode) (view : UtxoViewpoint)
    (block : Block) (chain' : BlockChain env.prim) : Prop where
  tip_eq : chain'.tip = nodeOn env prevNode block
  utxoSet_eq : chain'.utxoSet = chain.utxoSet.putUtxoView view
  index_eq : chain'.index = chain.index.addNode (nodeOn env prevNode block)
  orphanPool_eq : chain'.orphanPool = chain.orphanPool
  tip_valid : (chain'.nodeStatus chain'.tip).knownInvalid = false
  nodeStatus_eq : ∀ {node}, node.hash ≠ (nodeOn env prevNode block).hash →
    chain'.nodeStatus node = chain.nodeStatus node

end Extending

variable {env : Env} {chain chain' : BlockChain env.prim} {block : Block} {prevNode : BlockNode}
  {view : UtxoViewpoint} {pool : OrphanPool env.prim} {tip : BlockNode} {utxoSet : UtxoSet}
  {e : GoError}

section Connecting

variable {node : BlockNode} {stxos : List SpentTxOut}

theorem connectBlock_eq_ok (ht : block.msgBlock.header.prevBlock = chain.tip.hash)
    (hc : stxos.length = countSpentOutputs block) :
    connectBlock env chain node block view stxos =
      .ok (chain.flushToDB.extend node block view stxos, .ok ()) := by
  rw [connectBlock, if_neg (not_not.2 ht), if_neg (not_not.2 hc)]

theorem connectBlock_eq_error (hc : stxos.length ≠ countSpentOutputs block) :
    connectBlock env chain node block view stxos = .ok (chain, .error .assertError) := by
  rw [connectBlock]
  split_ifs <;> rfl

theorem connectBestChain_of_checkConnects_ok (ht : block.msgBlock.header.prevBlock = chain.tip.hash)
    (h : checkConnects env chain.utxoSet node block = .ok view) :
    ∃ stxos, connectBestChain env chain node block =
      .ok ((chain.setStatus node { chain.nodeStatus node with valid := true }).flushToDB
        |>.flushToDB.extend node block view stxos, .ok true) := by
  rw [checkConnects, bind_eq_ok] at h
  obtain ⟨⟨view', stxos⟩, hc, h⟩ := h
  split_ifs at h with hco
  cases h
  have hs : block.msgBlock.header.prevBlock =
      (chain.setStatus node { chain.nodeStatus node with valid := true }).flushToDB.tip.hash := ht
  have hb := @connectBlock_eq_ok env _ block view' node stxos hs (not_not.1 hco)
  rw [connectBestChain, if_pos ht, hc]
  dsimp only
  exact ⟨stxos, by rw [hb]; rfl⟩

theorem connectBestChain_of_checkConnects_fault {fault : Fault}
    (ht : block.msgBlock.header.prevBlock = chain.tip.hash)
    (h : checkConnects env chain.utxoSet node block = .error fault) :
    ∃ chain', connectBestChain env chain node block = fault.call chain' ∧
      chain'.index = chain.index ∧ chain'.orphanPool = chain.orphanPool := by
  rw [connectBestChain, if_pos ht]
  rw [checkConnects] at h
  cases hc : checkConnectBlock env chain.utxoSet node block
      (.new block.msgBlock.header.prevBlock) with
  | ok connected =>
    obtain ⟨view, stxos⟩ := connected
    rw [hc] at h
    change (if stxos.length ≠ countSpentOutputs block then _ else _) = _ at h
    split_ifs at h with hco
    · cases h
      dsimp only
      rw [connectBlock_eq_error hco]
      exact ⟨_, rfl, rfl, rfl⟩
    · cases h
  | error fault' =>
    rw [hc] at h
    cases h
    cases fault with
    | panic p => exact ⟨chain, rfl, rfl, rfl⟩
    | error e =>
      cases e with
      | ruleError code => exact ⟨_, rfl, rfl, rfl⟩
      | assertError => exact ⟨chain, rfl, rfl, rfl⟩
      | parsePubKey => exact ⟨chain, rfl, rfl, rfl⟩

end Connecting

/-! ### Accepting a block with a valid parent -/

section Accepting

theorem maybeAcceptBlock_eq
    (hprev : chain.index.lookup block.msgBlock.header.prevBlock = some prevNode)
    (hvalid : (chain.nodeStatus prevNode).knownInvalid = false) :
    maybeAcceptBlock env chain block =
      (checkBlockContext env.prim { block with height := prevNode.height + 1 } prevNode).andThen
        chain fun _ => connectBestChain env
          (chain.addBlock (nodeOn env prevNode block)
            { block with height := prevNode.height + 1 }).flushToDB
          (nodeOn env prevNode block) { block with height := prevNode.height + 1 } := by
  rw [maybeAcceptBlock, hprev]
  dsimp only
  rw [hvalid]
  rfl

variable (hprev : chain.index.lookup block.msgBlock.header.prevBlock = some prevNode)
  (hvalid : (chain.nodeStatus prevNode).knownInvalid = false)

include hprev hvalid

theorem exists_maybeAcceptBlock_of_checkExtends
    (ht : block.msgBlock.header.prevBlock = chain.tip.hash)
    (h : checkExtends env prevNode chain.utxoSet block = .ok view) :
    ∃ chain', maybeAcceptBlock env chain block = .ok (chain', .ok true) ∧
      ExtendedBy env chain prevNode view block chain' := by
  rw [checkExtends, bind_eq_ok] at h
  obtain ⟨⟨⟩, hct, hc⟩ := h
  rw [maybeAcceptBlock_eq hprev hvalid, hct]
  obtain ⟨stxos, hco⟩ := @connectBestChain_of_checkConnects_ok env
    (chain.addBlock (nodeOn env prevNode block)
      { block with height := prevNode.height + 1 }).flushToDB
    { block with height := prevNode.height + 1 } view (nodeOn env prevNode block) ht hc
  refine ⟨_, hco, ⟨rfl, rfl, rfl, rfl, ?_, fun {node} hne => ?_⟩⟩
  · simp [extend, flushToDB, addBlock, setStatus, nodeStatus, BlockStatus.knownInvalid]
  · simp [extend, flushToDB, addBlock, setStatus, storeBlock, nodeStatus, lookup_insert_of_ne _ hne]

theorem exists_maybeAcceptBlock_of_checkExtends_fault {fault : Fault}
    (ht : block.msgBlock.header.prevBlock = chain.tip.hash)
    (h : checkExtends env prevNode chain.utxoSet block = .error fault) :
    ∃ chain', maybeAcceptBlock env chain block = fault.call chain' := by
  rw [maybeAcceptBlock_eq hprev hvalid]
  rw [checkExtends] at h
  cases hc : checkBlockContext env.prim { block with height := prevNode.height + 1 } prevNode with
  | ok _ =>
    rw [hc] at h
    obtain ⟨chain', hco, -⟩ := @connectBestChain_of_checkConnects_fault env
      (chain.addBlock (nodeOn env prevNode block)
        { block with height := prevNode.height + 1 }).flushToDB
      { block with height := prevNode.height + 1 } (nodeOn env prevNode block) fault ht h
    exact ⟨chain', hco⟩
  | error fault' =>
    rw [hc] at h
    cases h
    cases fault with
    | error e => exact ⟨chain, rfl⟩
    | panic p => exact ⟨chain, rfl⟩

theorem maybeAcceptBlock_of_ne_tip (ht : block.msgBlock.header.prevBlock ≠ chain.tip.hash) :
    maybeAcceptBlock env chain block =
      (checkBlockContext env.prim { block with height := prevNode.height + 1 } prevNode).andThen
        chain fun _ => .ok ((chain.addBlock (nodeOn env prevNode block)
          { block with height := prevNode.height + 1 }).flushToDB, .error .assertError) := by
  rw [maybeAcceptBlock_eq hprev hvalid]
  refine congrArg _ (funext fun _ => ?_)
  exact if_neg ht

/-- **Which blocks become the tip**, and what becomes of the chain. -/
theorem exists_extendedBy_of_maybeAcceptBlock {isMainChain : Bool}
    (h : maybeAcceptBlock env chain block = .ok (chain', .ok isMainChain)) :
    block.msgBlock.header.prevBlock = chain.tip.hash ∧
      ∃ view, checkExtends env prevNode chain.utxoSet block = .ok view ∧
        ExtendedBy env chain prevNode view block chain' := by
  by_cases ht : block.msgBlock.header.prevBlock = chain.tip.hash
  · refine ⟨ht, ?_⟩
    match he : checkExtends env prevNode chain.utxoSet block with
    | .ok view =>
      obtain ⟨chain₁, haccept, hed⟩ := exists_maybeAcceptBlock_of_checkExtends hprev hvalid ht he
      rw [haccept] at h
      cases h
      exact ⟨view, rfl, hed⟩
    | .error fault =>
      obtain ⟨chain₁, haccept⟩ := exists_maybeAcceptBlock_of_checkExtends_fault hprev hvalid ht he
      rw [haccept] at h
      cases fault with
      | error e => cases h
      | panic p => cases h
  · rw [maybeAcceptBlock_of_ne_tip hprev hvalid ht, Check.andThen_eq_ok] at h
    obtain ⟨⟨⟩, -, h⟩ | ⟨e, -, -, h⟩ := h
    · cases h
    · cases h

end Accepting

/-! ### The orphans that wait for the tip -/

section Orphans

variable {hash : Hash} {orphan other : Block} {pool pool' : OrphanPool env.prim}

theorem processOrphans_of_fault {chain₁ : BlockChain env.prim} {fault : Fault}
    (htake : chain.orphanPool.take hash = some (orphan, pool))
    (haccept : maybeAcceptBlock env { chain with orphanPool := pool } orphan = fault.call chain₁) :
    processOrphans env hash chain = fault.call chain₁ := by
  rw [processOrphans, processOrphansLoop, htake]
  dsimp only
  rw [haccept]
  cases fault with
  | error e => rfl
  | panic p => rfl

section Accepted

variable {chain₁ : BlockChain env.prim} {isMainChain : Bool}
  (htake : chain.orphanPool.take hash = some (orphan, pool))
  (haccept : maybeAcceptBlock env { chain with orphanPool := pool } orphan =
    .ok (chain₁, .ok isMainChain))

include htake haccept

/-- When an orphan is accepted and no other one waited for the same block, the orphans that waited
for it come next. -/
theorem processOrphans_of_accepted (hn : chain₁.orphanPool.take hash = none) :
    processOrphans env hash chain = processOrphans env (orphan.hash env.prim) chain₁ := by
  have hc : chain₁.orphanPool.orphans.keys.card + 1 = chain.orphanPool.orphans.keys.card := by
    rw [(accepts_of_maybeAcceptBlock haccept).orphanPool_eq]
    exact card_take htake
  rw [processOrphans, processOrphansLoop, htake]
  dsimp only
  rw [haccept]
  simp only [Call.andThen]
  rw [List.cons_append, processOrphansLoop, hn, ← hc]
  rfl

theorem processOrphans_of_other (ho : chain₁.orphanPool.take hash = some (other, pool')) :
    processOrphans env hash chain =
      (maybeAcceptBlock env { chain₁ with orphanPool := pool' } other).andThen fun chain₂ _ =>
        processOrphansLoop env (2 * chain.orphanPool.orphans.keys.card)
          (hash :: ([orphan.hash env.prim] ++ [other.hash env.prim])) chain₂ := by
  rw [processOrphans, processOrphansLoop, htake]
  dsimp only
  rw [haccept]
  simp only [Call.andThen]
  rw [List.cons_append, processOrphansLoop, ho]
  rfl

end Accepted

end Orphans

/-- The tip is in the index and is not an orphan. -/
structure TipKnown (chain : BlockChain env.prim) : Prop where
  tip_mem : chain.index.lookup chain.tip.hash = some chain.tip
  tip_fresh : chain.tip.hash ∉ chain.orphanPool.orphans

/-- The tip is moreover valid, as it is after a block has become the tip. -/
structure AtTip (chain : BlockChain env.prim) : Prop extends TipKnown chain where
  tip_valid : (chain.nodeStatus chain.tip).knownInvalid = false

theorem ExtendedBy.atTip (h : ExtendedBy env chain prevNode view block chain')
    (hf : block.hash env.prim ∉ chain.orphanPool.orphans) : AtTip chain' where
  tip_mem := by
    rw [h.index_eq, h.tip_eq]
    exact lookup_insert _
  tip_valid := h.tip_valid
  tip_fresh := by
    rw [h.orphanPool_eq, h.tip_eq]
    exact hf

namespace TipKnown

variable {result : Except GoError Bool}

theorem accepts (h : TipKnown chain) (hf : block.hash env.prim ∉ chain.orphanPool.orphans)
    (hne : block.hash env.prim ≠ chain.tip.hash) (ha : Accepts env chain block chain' result) :
    TipKnown chain' ∧ chain.tip.height ≤ chain'.tip.height := by
  cases ha with
  | rejected => exact ⟨h, le_rfl⟩
  | added =>
    exact ⟨⟨(lookup_insert_of_ne _ hne.symm).trans h.tip_mem, h.tip_fresh⟩, le_rfl⟩
  | connected hprev _ ht =>
    rw [ht, h.tip_mem] at hprev
    cases hprev
    exact ⟨⟨lookup_insert _, hf⟩, Nat.le_succ _⟩

theorem take_accepts {hash : Hash} {orphan : Block} {orphanPool : OrphanPool env.prim}
    (h : TipKnown chain) (htake : chain.orphanPool.take hash = some (orphan, orphanPool))
    (ha : Accepts env { chain with orphanPool } orphan chain' result) :
    TipKnown chain' ∧ chain.tip.height ≤ chain'.tip.height := by
  obtain ⟨hm, rfl⟩ := take_eq_some htake
  have hne : orphan.hash env.prim ≠ chain.tip.hash := fun heq =>
    h.tip_fresh (heq ▸ mem_of_lookup_eq_some hm)
  refine @accepts env { chain with orphanPool := chain.orphanPool.remove orphan hm } chain' orphan
    result ⟨h.tip_mem, fun ht => h.tip_fresh ?_⟩ notMem_erase_self hne ha
  exact (mem_erase.1 ht).2

end TipKnown

namespace AtTip

variable {orphan other : Block} {pool pool' : OrphanPool env.prim} {chain₁ : BlockChain env.prim}

section

variable (h : AtTip chain) (htake : chain.orphanPool.take chain.tip.hash = some (orphan, pool))
include h htake

theorem take :
    orphan.msgBlock.header.prevBlock = chain.tip.hash ∧ orphan.hash env.prim ≠ chain.tip.hash ∧
      orphan.hash env.prim ∉ pool.orphans := by
  obtain ⟨hl, hprev⟩ := linked_of_mem_waiting (mem_waiting_of_take htake)
  refine ⟨hprev, fun heq => h.tip_fresh (heq ▸ mem_of_lookup_eq_some hl), ?_⟩
  obtain ⟨-, rfl⟩ := take_eq_some htake
  exact notMem_erase_self

theorem accept_first (hes : checkExtends env chain.tip chain.utxoSet orphan = .ok view) :
    ∃ chain₁, maybeAcceptBlock env { chain with orphanPool := pool } orphan =
        .ok (chain₁, .ok true) ∧
      ExtendedBy env { chain with orphanPool := pool } chain.tip view orphan chain₁ ∧
      AtTip chain₁ := by
  obtain ⟨hprev, -, hf⟩ := h.take htake
  obtain ⟨chain₁, haccept, he⟩ := @exists_maybeAcceptBlock_of_checkExtends env
    { chain with orphanPool := pool } orphan chain.tip view (hprev ▸ h.tip_mem) h.tip_valid hprev
    hes
  exact ⟨chain₁, haccept, he, he.atTip hf⟩

theorem fail_first {fault : Fault}
    (hf : checkExtends env chain.tip chain.utxoSet orphan = .error fault) :
    ∃ chain₁, maybeAcceptBlock env { chain with orphanPool := pool } orphan = fault.call chain₁ ∧
      processOrphans env chain.tip.hash chain = fault.call chain₁ := by
  obtain ⟨hprev, -, -⟩ := h.take htake
  obtain ⟨chain₁, haccept⟩ := @exists_maybeAcceptBlock_of_checkExtends_fault env
    { chain with orphanPool := pool } orphan chain.tip (hprev ▸ h.tip_mem) h.tip_valid fault hprev
    hf
  exact ⟨chain₁, haccept, processOrphans_of_fault htake haccept⟩

end

section

variable (h : AtTip chain) (htake : chain.orphanPool.take chain.tip.hash = some (orphan, pool))
  (he : ExtendedBy env { chain with orphanPool := pool } chain.tip view orphan chain₁)
  (ho : pool.take chain.tip.hash = some (other, pool'))
include h htake he ho

/-- Another orphan that waited for the same block still has a valid parent, which is no longer the
tip. -/
theorem parent_second :
    chain₁.index.lookup other.msgBlock.header.prevBlock = some chain.tip ∧
      (chain₁.nodeStatus chain.tip).knownInvalid = false ∧
      other.msgBlock.header.prevBlock ≠ chain₁.tip.hash := by
  obtain ⟨-, hne, -⟩ := h.take htake
  obtain ⟨-, hprev⟩ := linked_of_mem_waiting (mem_waiting_of_take ho)
  rw [hprev, he.index_eq, he.tip_eq, he.nodeStatus_eq hne.symm]
  exact ⟨(lookup_insert_of_ne _ hne.symm).trans h.tip_mem, h.tip_valid, hne.symm⟩

theorem accept_second :
    maybeAcceptBlock env { chain₁ with orphanPool := pool' } other =
      (checkBlockContext env.prim { other with height := chain.tip.height + 1 } chain.tip).andThen
        { chain₁ with orphanPool := pool' } fun _ =>
          .ok ((addBlock { chain₁ with orphanPool := pool' } (nodeOn env chain.tip other)
            { other with height := chain.tip.height + 1 }).flushToDB, .error .assertError) := by
  obtain ⟨hprev, hvalid, hne⟩ := h.parent_second htake he ho
  exact @maybeAcceptBlock_of_ne_tip env { chain₁ with orphanPool := pool' } other chain.tip hprev
    hvalid hne

end

/-- **The loop over the orphans that wait for the tip**: there is none, the first one fails, or it
becomes the tip. -/
theorem loop_induction {motive : ∀ chain : BlockChain env.prim, AtTip chain → Prop}
    (none : ∀ {chain} (h : AtTip chain), chain.orphanPool.take chain.tip.hash = none →
      motive chain h)
    (fails : ∀ {chain orphan pool fault} (h : AtTip chain),
      chain.orphanPool.take chain.tip.hash = some (orphan, pool) →
      checkExtends env chain.tip chain.utxoSet orphan = .error fault → motive chain h)
    (accepts : ∀ {chain orphan pool view chain₁} (h : AtTip chain),
      chain.orphanPool.take chain.tip.hash = some (orphan, pool) →
      checkExtends env chain.tip chain.utxoSet orphan = .ok view →
      maybeAcceptBlock env { chain with orphanPool := pool } orphan = .ok (chain₁, .ok true) →
      ExtendedBy env { chain with orphanPool := pool } chain.tip view orphan chain₁ →
      chain₁.orphanPool = pool → ∀ hat : AtTip chain₁, motive chain₁ hat → motive chain h)
    {chain} (h : AtTip chain) : motive chain h := by
  -- every orphan that is accepted has been taken out of the pool
  induction hc : chain.orphanPool.orphans.keys.card using Nat.strongRecOn generalizing chain with
  | ind n ih =>
    cases htake : chain.orphanPool.take chain.tip.hash with
    | none => exact none h htake
    | some taken =>
      obtain ⟨orphan, pool⟩ := taken
      cases hes : checkExtends env chain.tip chain.utxoSet orphan with
      | error fault => exact fails h htake hes
      | ok view =>
        obtain ⟨chain₁, ha, he, hat⟩ := h.accept_first htake hes
        have hp : chain₁.orphanPool = pool := he.orphanPool_eq
        have hlt : chain₁.orphanPool.orphans.keys.card < n := by
          rw [← hc, ← card_take htake, hp]
          exact Nat.lt_succ_self _
        exact accepts h htake hes ha he hp hat (ih _ hlt hat rfl)

end AtTip

/-- **The orphans that wait for the tip end in an error**: the first fails; or there is a second,
which comes too late; or those that wait for the first end in an error. -/
inductive Breaks (env : Env) : OrphanPool env.prim → BlockNode → UtxoSet → Prop
  | first {pool pool' : OrphanPool env.prim} {tip : BlockNode} {utxoSet : UtxoSet} {orphan : Block}
      {e : GoError} (htake : pool.take tip.hash = some (orphan, pool'))
      (hfails : checkExtends env tip utxoSet orphan = .error (.error e)) :
      Breaks env pool tip utxoSet
  | second {pool pool' pool'' : OrphanPool env.prim} {tip : BlockNode} {utxoSet : UtxoSet}
      {orphan other : Block} {view : UtxoViewpoint}
      (htake : pool.take tip.hash = some (orphan, pool'))
      (hextends : checkExtends env tip utxoSet orphan = .ok view)
      (hother : pool'.take tip.hash = some (other, pool''))
      (hnoPanic :
        (checkBlockContext env.prim { other with height := tip.height + 1 } tip).NoPanic) :
      Breaks env pool tip utxoSet
  | later {pool pool' : OrphanPool env.prim} {tip : BlockNode} {utxoSet : UtxoSet} {orphan : Block}
      {view : UtxoViewpoint} (htake : pool.take tip.hash = some (orphan, pool'))
      (hextends : checkExtends env tip utxoSet orphan = .ok view)
      (hnone : pool'.take tip.hash = none)
      (hlater : Breaks env pool' (nodeOn env tip orphan) (utxoSet.putUtxoView view)) :
      Breaks env pool tip utxoSet

theorem exists_processOrphans_error_of_breaks (hb : Breaks env pool tip utxoSet)
    (h : AtTip chain) (hp : chain.orphanPool = pool) (ht : chain.tip = tip)
    (hu : chain.utxoSet = utxoSet) :
    ∃ chain' e, processOrphans env chain.tip.hash chain = .ok (chain', .error e) := by
  induction hb generalizing chain with
  | @first _ _ _ _ _ e htake hf =>
    subst hp ht hu
    obtain ⟨chain₁, -, ho⟩ := h.fail_first htake hf
    exact ⟨chain₁, e, ho⟩
  | @second _ pool' pool'' _ _ orphan other view htake hes ho hn =>
    subst hp ht hu
    obtain ⟨chain₁, haccept, hed, -⟩ := h.accept_first htake hes
    have hp : chain₁.orphanPool = pool' := hed.orphanPool_eq
    rw [processOrphans_of_other htake haccept (hp ▸ ho), h.accept_second htake hed ho]
    match hc : checkBlockContext env.prim { other with height := chain.tip.height + 1 }
        chain.tip with
    | .ok () => exact ⟨_, _, rfl⟩
    | .error (.error e) => exact ⟨_, e, rfl⟩
    | .error (.panic p) =>
      obtain ⟨e, he⟩ := hn _ hc
      cases he
  | @later _ pool' _ _ orphan view htake hes hno _ ih =>
    subst hp ht hu
    obtain ⟨chain₁, haccept, hed, ha⟩ := h.accept_first htake hes
    have hp : chain₁.orphanPool = pool' := hed.orphanPool_eq
    rw [processOrphans_of_accepted htake haccept (hp ▸ hno)]
    have hl := ih ha hp hed.tip_eq hed.utxoSet_eq
    rwa [hed.tip_eq] at hl

theorem breaks_of_processOrphans_error (h : AtTip chain)
    (he : processOrphans env chain.tip.hash chain = .ok (chain', .error e)) :
    Breaks env chain.orphanPool chain.tip chain.utxoSet := by
  induction h using AtTip.loop_induction with
  | none h htake =>
    rw [processOrphans_of_take_eq_none htake] at he
    cases he
  | @fails _ _ _ fault h htake hes =>
    obtain ⟨_, -, ho⟩ := h.fail_first htake hes
    rw [ho] at he
    cases fault with
    | error e => exact .first htake hes
    | panic p => cases he
  | @accepts chain _ pool _ _ h htake hes ha hed hp hat ih =>
    cases ho : pool.take chain.tip.hash with
    | none =>
      rw [processOrphans_of_accepted htake ha (hp ▸ ho)] at he
      have hl := ih (hed.tip_eq ▸ he)
      rw [hed.tip_eq, hed.utxoSet_eq, hp] at hl
      exact .later htake hes ho hl
    | some second =>
      rw [processOrphans_of_other htake ha (hp ▸ ho), h.accept_second htake hed ho] at he
      refine .second htake hes ho fun fault hf => ?_
      rw [hf] at he
      cases fault with
      | error e => exact ⟨e, rfl⟩
      | panic p => cases he

/-- **When the loop over the orphans returns an error.** -/
theorem exists_processOrphans_error_iff (h : AtTip chain) :
    (∃ chain' e, processOrphans env chain.tip.hash chain = .ok (chain', .error e)) ↔
      Breaks env chain.orphanPool chain.tip chain.utxoSet :=
  ⟨fun ⟨_, _, he⟩ => breaks_of_processOrphans_error h he,
    fun hb => exists_processOrphans_error_of_breaks hb h rfl rfl rfl⟩

/-! ### The best chain only grows -/

/-- The tip is known, and the best chain has grown out of `old`. -/
structure Grown (old : List BlockNode) (chain : BlockChain env.prim) : Prop
    extends TipKnown chain where
  suffix : old <:+ chain.bestChain

section Growth

variable {old : List BlockNode} {ok : BlockChain env.prim → Handed → Prop}
  {calls later : List Handed}

theorem Accepts.bestChain_suffix {result : Except GoError Bool}
    (ha : Accepts env chain block chain' result)
    (ht : chain.index.lookup chain.tip.hash = some chain.tip) :
    chain.bestChain <:+ chain'.bestChain := by
  cases ha with
  | rejected => exact List.suffix_rfl
  | added => exact List.suffix_rfl
  | connected hp _ hpt =>
    -- the parent that is found in the index is the tip
    rw [hpt, ht] at hp
    cases hp
    exact List.suffix_cons _ _

theorem Grown.process {check : Check Unit} {result : Except GoError Outcome} (h : Grown old chain)
    (hp : process env check block chain = .ok (chain', result)) : Grown old chain' := by
  have hm : chain.tip.hash ∈ chain.index := mem_of_lookup_eq_some h.tip_mem
  refine process_invariant h (fun _ hn _ => ⟨⟨h.tip_mem, fun ho => ?_⟩, h.suffix⟩)
    (fun hpa ha => ?_) (fun h ht ha => ?_) hp
  · rcases mem_insert.1 ho with heq | ho
    · rw [← heq, blockExists, decide_eq_true hm] at hn
      cases hn
    · exact h.tip_fresh ho
  · have hne : block.hash env.prim ≠ chain.tip.hash := fun heq => hpa.notMem_index (heq ▸ hm)
    have ha := accepts_of_maybeAcceptBlock ha
    exact ⟨(h.accepts hpa.not_orphan hne ha).1, h.suffix.trans (ha.bestChain_suffix h.tip_mem)⟩
  · have ha := accepts_of_maybeAcceptBlock ha
    exact ⟨(h.take_accepts ht ha).1, h.suffix.trans (ha.bestChain_suffix h.tip_mem)⟩

theorem Grown.run (h : Grown old chain)
    (hr : Runs.Run (handOver env) ok chain calls chain') : Grown old chain' := by
  refine hr.invariant h fun _ handed _ h _ hs => ?_
  obtain ⟨_, hp⟩ := handed.exists_process_of_handOver hs
  exact h.process hp

/-- **The best chain only grows**, whatever blocks are handed over. -/
theorem bestChain_suffix_of_run (hr : Runs.Run (handOver env) ok (createChainState env) calls chain)
    (hl : Runs.Run (handOver env) ok chain later chain') :
    chain.bestChain <:+ chain'.bestChain := by
  have hg : Grown [] (createChainState env) :=
    ⟨⟨lookup_singleton_eq, notMem_empty⟩, List.nil_suffix⟩
  exact (Grown.run ⟨(hg.run hr).toTipKnown, List.suffix_rfl⟩ hl).suffix

end Growth

/-- A block and, later, one on top of it. -/
theorem bestChain_suffix_twoBlocks : ∃ chain, Runs.Run (handOver sampleEnv) (fun _ _ => True)
      (createChainState sampleEnv) [.block ∅ { msgBlock := sampleBlock }] chain ∧
    chain.tip.height = 1 ∧ ∃ chain', Runs.Run (handOver sampleEnv) (fun _ _ => True) chain
        [.syncBlock { msgBlock := wrongMerkleRoot chain.tip.hash 2 }] chain' ∧
      chain'.tip.height = 2 ∧ chain.bestChain <:+ chain'.bestChain := by
  refine Runs.exists_run_of (P := fun chain => chain.tip.height = 1 ∧ (handOver sampleEnv chain
    (.syncBlock { msgBlock := wrongMerkleRoot chain.tip.hash 2 })).map
      (fun chain' => chain'.tip.height) = .ok 2) (by decide +kernel) ?_
  rintro chain hr ⟨hh, hm⟩
  obtain ⟨chain', hs, hh'⟩ := map_eq_ok.1 hm
  exact ⟨hh, chain', .cons trivial hs .nil, hh',
    bestChain_suffix_of_run hr (.cons trivial hs .nil)⟩

/-! ### Errors of the entrances to the chain -/

namespace Handed

/-- The block of the call is connected, and then the orphans that waited for it end in an error. -/
structure ConnectsThenBreaks (env : Env) (chain : BlockChain env.prim) (handed : Handed) :
    Prop where
  passes : Passes env (handed.check env chain) handed.target chain
  prevBlock_eq : handed.target.msgBlock.header.prevBlock = chain.tip.hash
  tip_valid : (chain.nodeStatus chain.tip).knownInvalid = false
  breaks : ∃ view, checkExtends env chain.tip chain.utxoSet handed.target = .ok view ∧
    Breaks env chain.orphanPool (nodeOn env chain.tip handed.target)
      (chain.utxoSet.putUtxoView view)

end Handed

/-- What other packages see of the best chain is the same. -/
structure SameBest (chain chain' : BlockChain env.prim) : Prop where
  tip_eq : chain'.tip = chain.tip
  stateSnapshot_eq : chain'.stateSnapshot = chain.stateSnapshot
  utxoSet_eq : chain'.utxoSet = chain.utxoSet

theorem Accepts.sameBest (h : Accepts env chain block chain' (.error e)) :
    SameBest chain chain' := by
  cases h with
  | rejected => exact ⟨rfl, rfl, rfl⟩
  | added => exact ⟨rfl, rfl, rfl⟩

theorem exists_parent_of_maybeAcceptBlock {isMainChain : Bool}
    (h : maybeAcceptBlock env chain block = .ok (chain', .ok isMainChain)) :
    ∃ prevNode, chain.index.lookup block.msgBlock.header.prevBlock = some prevNode ∧
      (chain.nodeStatus prevNode).knownInvalid = false := by
  rw [maybeAcceptBlock] at h
  split at h
  · cases h
  · rename_i prevNode hprev
    split_ifs at h with hi
    · cases h
    · exact ⟨prevNode, hprev, Bool.eq_false_of_not_eq_true hi⟩

/-- A call on a block that is not accepted returns no error, or leaves the chain as it is. -/
theorem sameBest_of_not_passes {check : Check Unit} (hp : ¬Passes env check block chain)
    (h : process env check block chain = .ok (chain', .error e)) : SameBest chain chain' := by
  generalize hr : (.error e : Except GoError Outcome) = result at h
  cases processes_of_process h with
  | rejected => exact ⟨rfl, rfl, rfl⟩
  | orphaned => cases hr
  | failed hp' => exact absurd hp' hp
  | accepted hp' => exact absurd hp' hp

theorem height_le_of_processOrphans {hash : Hash} {result : Except GoError Unit}
    (h : TipKnown chain) (ho : processOrphans env hash chain = .ok (chain', result)) :
    chain.tip.height ≤ chain'.tip.height := by
  refine (processOrphansLoop_invariant
    (P := fun c : BlockChain env.prim => TipKnown c ∧ chain.tip.height ≤ c.tip.height)
    ?_ ⟨h, le_rfl⟩ ho).2
  intro chain₁ chain₂ hash orphan orphanPool result hP htake ha
  obtain ⟨hk, hle⟩ := hP.1.take_accepts htake (accepts_of_maybeAcceptBlock ha)
  exact ⟨hk, hP.2.trans hle⟩

/-- **Which calls leave the best chain as it is whenever they return an error.** -/
theorem errors_keep_bestChain_iff (htip : chain.index.lookup chain.tip.hash = some chain.tip)
    (handed : Handed) :
    (∀ chain' e, handed.call env chain = .ok (chain', .error e) → SameBest chain chain') ↔
      ¬handed.ConnectsThenBreaks env chain := by
  rw [handed.call_eq]
  constructor
  · rintro hs ⟨hp, hprev, hvalid, view, hes, hb⟩
    obtain ⟨chain₁, haccept, he⟩ :=
      exists_maybeAcceptBlock_of_checkExtends (hprev ▸ htip) hvalid hprev hes
    have ha := he.atTip hp.not_orphan
    have hb₁ : Breaks env chain₁.orphanPool chain₁.tip chain₁.utxoSet := by
      rw [he.orphanPool_eq, he.tip_eq, he.utxoSet_eq]
      exact hb
    obtain ⟨chain', e, ho⟩ := (exists_processOrphans_error_iff ha).2 hb₁
    have hh := height_le_of_processOrphans ha.toTipKnown ho
    -- the tip has moved to the block, and not back
    have htip₁ : chain₁.tip.height = chain.tip.height + 1 := by
      rw [he.tip_eq]
      rfl
    rw [he.tip_eq] at ho
    have hc : process env (handed.check env chain) handed.target chain =
        .ok (chain', .error e) := by
      rw [process_of_passes hp]
      refine Call.andThen_eq_ok.2 (Or.inl ⟨chain₁, true, haccept, ?_⟩)
      exact Call.andThen_eq_ok.2 (Or.inr ⟨e, ho, rfl⟩)
    have heq := (hs chain' e hc).tip_eq
    rw [heq] at hh
    omega
  · intro hn chain' e hc
    by_cases hp : Passes env (handed.check env chain) handed.target chain
    · rw [process_of_passes hp, Call.andThen_eq_ok] at hc
      obtain ⟨chain₁, isMainChain, haccept, hc⟩ | ⟨e', haccept, -⟩ := hc
      · -- the block has been connected, so the orphans do not break
        obtain ⟨prevNode, hprev, hvalid⟩ := exists_parent_of_maybeAcceptBlock haccept
        obtain ⟨hpb, view, hes, he⟩ := exists_extendedBy_of_maybeAcceptBlock hprev hvalid haccept
        rw [hpb, htip, Option.some.injEq] at hprev
        subst hprev
        have ha := he.atTip hp.not_orphan
        rw [Call.andThen_eq_ok] at hc
        obtain ⟨chain₂, ⟨⟩, -, hc⟩ | ⟨e', ho, -⟩ := hc
        · cases hc
        · have hb := (exists_processOrphans_error_iff ha).1
            ⟨chain', e', by rw [he.tip_eq]; exact ho⟩
          rw [he.orphanPool_eq, he.tip_eq, he.utxoSet_eq] at hb
          exact absurd ⟨hp, hpb, hvalid, view, hes, hb⟩ hn
      · exact (accepts_of_maybeAcceptBlock haccept).sameBest
    · exact sameBest_of_not_passes hp hc

theorem not_breaks_of_take_eq_none (h : pool.take tip.hash = none) :
    ¬Breaks env pool tip utxoSet := by
  intro hb
  cases hb with
  | first htake => rw [h] at htake; cases htake
  | second htake => rw [h] at htake; cases htake
  | later htake => rw [h] at htake; cases htake

end BlockChain

open BlockChain in
theorem errors_keep_bestChain_wrongMerkleRoot : ∃ chain',
    Handed.call sampleEnv (createChainState sampleEnv)
        (.block ∅ { msgBlock := wrongMerkleRoot sampleEnv.genesisHash 1 }) =
      .ok (chain', .error (.ruleError .errBadMerkleRoot)) ∧
    SameBest (createChainState sampleEnv) chain' := by
  have hm : (Handed.call sampleEnv (createChainState sampleEnv)
      (.block ∅ { msgBlock := wrongMerkleRoot sampleEnv.genesisHash 1 })).map Prod.snd =
        .ok (.error (.ruleError .errBadMerkleRoot)) := by
    decide +kernel
  obtain ⟨⟨chain', _⟩, hc, rfl⟩ := map_eq_ok.1 hm
  refine ⟨chain', hc, (errors_keep_bestChain_iff lookup_singleton_eq _).2 ?_ chain' _ hc⟩
  rintro ⟨-, -, -, view, -, hb⟩
  exact not_breaks_of_take_eq_none (take_eq_none rfl) hb

/-- A block on top of `sampleBlock` that is not later than the blocks before it. -/
def staleBlock : MsgBlock where
  header := sampleHeader (sampleBlock.header.blockHash sampleEnv.prim) 0 0
  transactions := [sampleCoinbase 2]

open BlockChain in
/-- An orphan that fails makes `ProcessBlock` return an error for the block it waited for. -/
theorem errors_move_bestChain : ∃ chain chain' e,
    handOver sampleEnv (createChainState sampleEnv) (.block ∅ { msgBlock := staleBlock }) =
      .ok chain ∧
    Handed.call sampleEnv chain (.block ∅ { msgBlock := sampleBlock }) = .ok (chain', .error e) ∧
    ¬SameBest chain chain' := by
  have hm : (handOver sampleEnv (createChainState sampleEnv)
      (.block ∅ { msgBlock := staleBlock })).map (fun chain => (chain.tip.height,
        (Handed.call sampleEnv chain (.block ∅ { msgBlock := sampleBlock })).map
          fun called => (called.1.tip.height, called.2))) =
      .ok (0, .ok (1, .error (.ruleError .errTimeTooOld))) := by
    decide +kernel
  obtain ⟨chain, hch, hm⟩ := map_eq_ok.1 hm
  obtain ⟨hh, hc⟩ := Prod.mk.inj hm
  obtain ⟨⟨chain', result⟩, hc, hr⟩ := map_eq_ok.1 hc
  obtain ⟨hh', rfl⟩ := Prod.mk.inj hr
  refine ⟨chain, chain', _, hch, hc, fun hs => ?_⟩
  have heq : chain'.tip.height = chain.tip.height := congrArg BlockNode.height hs.tip_eq
  rw [hh] at heq
  exact absurd (hh'.symm.trans heq) Nat.one_ne_zero

end DrcNode
