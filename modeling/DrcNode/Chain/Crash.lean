import DrcNode.Chain.Orphans

/-!
# Blocks that crash a node

The thresholds divide by a scale, and neither the scale that a block declares nor the one estimated
from the last blocks is compared with zero first; the coinbase and its first input are read before
anybody has asked whether the block has them. A block that waited in the orphan pool can crash the
node in the call for the block it waited for. The conditions are on the state before the call, and
they are exact.

Source: `blockchain/process.go`, `blockchain/accept.go`, `blockchain/validate.go`, `vote/util.go`.
-/

namespace DrcNode

open Checked Bool

/-! ### The checks against the block it extends -/

section Context

variable {prim : Primitives} {block : Block} {prevNode : BlockNode}

/-- **A block crashes the checks against the block it extends.** -/
def ContextPanics (prim : Primitives) (msgBlock : MsgBlock) (prevNode : BlockNode) : Prop :=
  (∃ pubKey, prim.parsePubKey msgBlock.header.publicKey = some pubKey ∧
      prim.verify (getSignature msgBlock.header.signature)
        (prim.doubleHash64 prevNode.fields.signature) pubKey = true ∧
      (headerContextWindow prevNode).estimate = 0) ∨
    checkBlockHeaderContext prim msgBlock.header prevNode = .ok () ∧
      (∀ tx ∈ msgBlock.transactions,
        isFinalizedTransaction tx (prevNode.height + 1) prevNode.calcPastMedianTime = true) ∧
      (msgBlock.transactions.head?.map MsgTx.txIn).getD [] = []

/-- **When the checks against the block it extends do not panic.** -/
theorem noPanic_checkBlockContext_iff : (checkBlockContext prim block prevNode).NoPanic ↔
      ¬ContextPanics prim block.msgBlock prevNode := by
  constructor
  · rintro h (hh | ⟨hh, hf, hc⟩)
    · exact noPanic_checkBlockHeaderContext_iff.1 (FailsOnly.bind_iff.1 h).1 hh
    · have hr := (FailsOnly.bind_iff.1 h).2 () hh
      have hhe := (FailsOnly.bind_iff.1 hr).2 () (require_eq_ok.2 hf)
      cases ht : block.msgBlock.transactions with
      | nil =>
        rw [ht] at hhe
        exact not_noPanic_panic hhe
      | cons coinbaseTx txs =>
        rw [ht] at hhe hc
        exact noPanic_checkSerializedHeight_iff.1 hhe hc
  · intro h
    refine (noPanic_checkBlockHeaderContext_iff.2 fun hh => h (.inl hh)).bind
      fun _ hh => noPanic_require.bind fun _ hf => ?_
    have hc := fun hn => h (.inr ⟨hh, require_eq_ok.1 hf, hn⟩)
    cases ht : block.msgBlock.transactions with
    | nil =>
      rw [ht] at hc
      exact absurd rfl hc
    | cons coinbaseTx txs =>
      rw [ht] at hc
      exact noPanic_checkSerializedHeight_iff.2 hc

theorem transactions_ne_nil_of_checkBlockContext
    (h : checkBlockContext prim block prevNode = .ok ()) : block.msgBlock.transactions ≠ [] := by
  intro hn
  rw [checkBlockContext, bind_eq_ok] at h
  obtain ⟨⟨⟩, -, h⟩ := h
  rw [hn, bind_eq_ok] at h
  obtain ⟨⟨⟩, -, h⟩ := h
  cases h

end Context

namespace BlockChain

variable {env : Env} {chain : BlockChain env.prim} {block : Block} {prevNode : BlockNode}

/-! ### Accepting a block -/

/-- **When accepting a block panics**: what follows the checks against the parent does not. -/
theorem exists_maybeAcceptBlock_panic_iff : (∃ p, maybeAcceptBlock env chain block = .error p) ↔
      ∃ prevNode, chain.index.lookup block.msgBlock.header.prevBlock = some prevNode ∧
        (chain.nodeStatus prevNode).knownInvalid = false ∧
        ContextPanics env.prim block.msgBlock prevNode := by
  constructor
  · rintro ⟨p, h⟩
    cases hpr : chain.index.lookup block.msgBlock.header.prevBlock with
    | none =>
      rw [maybeAcceptBlock, hpr] at h
      cases h
    | some prevNode =>
      cases hv : (chain.nodeStatus prevNode).knownInvalid with
      | true =>
        rw [maybeAcceptBlock, hpr] at h
        dsimp only at h
        rw [hv] at h
        cases h
      | false =>
        refine ⟨prevNode, rfl, hv, ?_⟩
        rw [maybeAcceptBlock_eq hpr hv, Check.andThen_eq_error] at h
        rcases h with hc | ⟨⟨⟩, hc, hco⟩
        · by_contra hno
          have hn := (@noPanic_checkBlockContext_iff env.prim
            { block with height := prevNode.height + 1 } prevNode).2 hno
          exact absurd hn (not_noPanic_iff.2 ⟨p, hc⟩)
        · -- a block with transactions is connected without a panic
          have hne := transactions_ne_nil_of_checkBlockContext hc
          have hpt : (nodeOn env prevNode block).parent ≠ none := Option.some_ne_none prevNode
          obtain ⟨out, ho⟩ := exists_connectBestChain_eq_ok hne hpt
          rw [ho] at hco
          cases hco
  · rintro ⟨prevNode, hpr, hv, hpa⟩
    have hi := @noPanic_checkBlockContext_iff env.prim
      { block with height := prevNode.height + 1 } prevNode
    obtain ⟨p, hp⟩ := not_noPanic_iff.1 (mt hi.1 (not_not.2 hpa))
    exact ⟨p, by rw [maybeAcceptBlock_eq hpr hv, Check.andThen_eq_error]; exact .inl hp⟩

/-! ### The orphans that wait for the tip -/

/-- **An orphan that waits for the tip crashes the node**: the first one, another one for the same
block, or one that waits for the first. -/
inductive OrphansPanic (env : Env) : OrphanPool env.prim → BlockNode → UtxoSet → Prop
  | first {pool pool' : OrphanPool env.prim} {tip : BlockNode} {utxoSet : UtxoSet} {orphan : Block}
      (htake : pool.take tip.hash = some (orphan, pool'))
      (hpanics : ContextPanics env.prim orphan.msgBlock tip) : OrphansPanic env pool tip utxoSet
  | second {pool pool' pool'' : OrphanPool env.prim} {tip : BlockNode} {utxoSet : UtxoSet}
      {orphan other : Block} {view : UtxoViewpoint}
      (htake : pool.take tip.hash = some (orphan, pool'))
      (hextends : checkExtends env tip utxoSet orphan = .ok view)
      (hother : pool'.take tip.hash = some (other, pool''))
      (hpanics : ContextPanics env.prim other.msgBlock tip) : OrphansPanic env pool tip utxoSet
  | later {pool pool' : OrphanPool env.prim} {tip : BlockNode} {utxoSet : UtxoSet} {orphan : Block}
      {view : UtxoViewpoint} (htake : pool.take tip.hash = some (orphan, pool'))
      (hextends : checkExtends env tip utxoSet orphan = .ok view)
      (hnone : pool'.take tip.hash = none)
      (hlater : OrphansPanic env pool' (nodeOn env tip orphan) (utxoSet.putUtxoView view)) :
      OrphansPanic env pool tip utxoSet

namespace AtTip

variable {orphan other : Block} {pool pool' : OrphanPool env.prim} {view : UtxoViewpoint}

theorem exists_first_panic_iff (h : AtTip chain)
    (ht : chain.orphanPool.take chain.tip.hash = some (orphan, pool)) :
    (∃ p, maybeAcceptBlock env { chain with orphanPool := pool } orphan = .error p) ↔
      ContextPanics env.prim orphan.msgBlock chain.tip := by
  obtain ⟨hpr, -, -⟩ := h.take ht
  rw [exists_maybeAcceptBlock_panic_iff, hpr]
  constructor
  · rintro ⟨prevNode, hl, -, hp⟩
    rw [h.tip_mem, Option.some.injEq] at hl
    exact hl ▸ hp
  · exact fun hp => ⟨chain.tip, h.tip_mem, h.tip_valid, hp⟩

theorem exists_second_panic_iff {chain₁ : BlockChain env.prim} (h : AtTip chain)
    (ht : chain.orphanPool.take chain.tip.hash = some (orphan, pool))
    (he : ExtendedBy env { chain with orphanPool := pool } chain.tip view orphan chain₁)
    (ho : pool.take chain.tip.hash = some (other, pool')) :
    (∃ p, maybeAcceptBlock env { chain₁ with orphanPool := pool' } other = .error p) ↔
      ContextPanics env.prim other.msgBlock chain.tip := by
  obtain ⟨hpr, hv, -⟩ := h.parent_second ht he ho
  rw [exists_maybeAcceptBlock_panic_iff]
  constructor
  · rintro ⟨prevNode, hl, -, hp⟩
    rw [hpr, Option.some.injEq] at hl
    exact hl ▸ hp
  · exact fun hp => ⟨chain.tip, hpr, hv, hp⟩

end AtTip

theorem exists_processOrphans_panic_of_orphansPanic {pool : OrphanPool env.prim} {tip : BlockNode}
    {utxoSet : UtxoSet} (hpa : OrphansPanic env pool tip utxoSet) (h : AtTip chain)
    (hp : chain.orphanPool = pool) (hti : chain.tip = tip) (hu : chain.utxoSet = utxoSet) :
    ∃ p, processOrphans env chain.tip.hash chain = .error p := by
  induction hpa generalizing chain with
  | first ht hpa =>
    subst hp hti hu
    obtain ⟨p, ha⟩ := (h.exists_first_panic_iff ht).2 hpa
    exact ⟨p, @processOrphans_of_fault env chain _ _ _ chain (.panic p) ht ha⟩
  | @second _ pool' pool'' _ _ orphan other view ht hes ho hpa =>
    subst hp hti hu
    obtain ⟨chain₁, ha, he, -⟩ := h.accept_first ht hes
    have hp : chain₁.orphanPool = pool' := he.orphanPool_eq
    obtain ⟨p, hs⟩ := (h.exists_second_panic_iff ht he ho).2 hpa
    rw [processOrphans_of_other ht ha (hp ▸ ho), hs]
    exact ⟨p, rfl⟩
  | @later _ pool' _ _ orphan view ht hes hn _ ih =>
    subst hp hti hu
    obtain ⟨chain₁, ha, he, hat⟩ := h.accept_first ht hes
    have hp : chain₁.orphanPool = pool' := he.orphanPool_eq
    rw [processOrphans_of_accepted ht ha (hp ▸ hn)]
    have hl := ih hat hp he.tip_eq he.utxoSet_eq
    rwa [he.tip_eq] at hl

theorem orphansPanic_of_processOrphans_panic {p : Panic} (h : AtTip chain)
    (hp : processOrphans env chain.tip.hash chain = .error p) :
    OrphansPanic env chain.orphanPool chain.tip chain.utxoSet := by
  induction h using AtTip.loop_induction with
  | none h ht =>
    rw [processOrphans_of_take_eq_none ht] at hp
    cases hp
  | @fails _ _ _ fault h ht hes =>
    obtain ⟨_, ha, ho⟩ := h.fail_first ht hes
    cases fault with
    | error e =>
      rw [ho] at hp
      cases hp
    | panic p' => exact .first ht ((h.exists_first_panic_iff ht).1 ⟨p', ha⟩)
  | @accepts chain _ pool _ _ h ht hes ha he hpo hat ih =>
    cases ho : pool.take chain.tip.hash with
    | none =>
      rw [processOrphans_of_accepted ht ha (hpo ▸ ho)] at hp
      have hl := ih (he.tip_eq ▸ hp)
      rw [he.tip_eq, he.utxoSet_eq, hpo] at hl
      exact .later ht hes ho hl
    | some second =>
      rw [processOrphans_of_other ht ha (hpo ▸ ho), Call.andThen_eq_error] at hp
      refine .second ht hes ho ((h.exists_second_panic_iff ht he ho).1 ?_)
      rcases hp with hp | ⟨chain₂, isMainChain, hac, -⟩
      · exact ⟨p, hp⟩
      · -- the second one is never accepted
        rw [h.accept_second ht he ho, Check.andThen_eq_ok] at hac
        rcases hac with ⟨⟨⟩, -, had⟩ | ⟨e, -, -, hr⟩
        · cases had
        · cases hr

/-- **When the loop over the orphans panics.** -/
theorem exists_processOrphans_panic_iff (h : AtTip chain) :
    (∃ p, processOrphans env chain.tip.hash chain = .error p) ↔
      OrphansPanic env chain.orphanPool chain.tip chain.utxoSet :=
  ⟨fun ⟨_, hpa⟩ => orphansPanic_of_processOrphans_panic h hpa,
    fun hp => exists_processOrphans_panic_of_orphansPanic hp h rfl rfl rfl⟩

/-! ### The entrances to the chain -/

namespace Handed

/-- The check before a block is accepted crashes the node. -/
def CheckPanics (env : Env) (chain : BlockChain env.prim) : Handed → Prop
  | .block _ block => chain.index.lookup block.msgBlock.header.prevBlock = none ∨
      block.msgBlock.header.scale = 0
  | .syncBlock _ => False

theorem noPanic_check_iff (handed : Handed) :
    (handed.check env chain).NoPanic ↔ ¬handed.CheckPanics env chain := by
  cases handed with
  | syncBlock block => exact iff_of_true .ok not_false
  | block current block =>
    rw [check, processBlockCheck, CheckPanics]
    cases hp : chain.index.lookup block.msgBlock.header.prevBlock with
    | none => exact iff_of_false not_noPanic_panic (not_not.2 (.inl rfl))
    | some prevNode =>
      by_cases hs : block.msgBlock.header.scale = 0
      · refine iff_of_false ?_ (not_not.2 (.inr hs))
        rw [hs]
        exact not_noPanic_panic
      · refine iff_of_true ?_ (not_or.2 ⟨Option.some_ne_none prevNode, hs⟩)
        exact (noPanic_blockVerge hs).bind fun _ _ =>
          (noPanic_checkBlockHeaderSanity _).seq (noPanic_checkBody _)

/-- **A call that crashes the node**, by the check, by the checks against the parent, or by an
orphan. -/
structure Panics (env : Env) (chain : BlockChain env.prim) (handed : Handed) : Prop where
  new : chain.blockExists (handed.target.hash env.prim) = false
  not_orphan : handed.target.hash env.prim ∉ chain.orphanPool.orphans
  parent_known : chain.blockExists handed.target.msgBlock.header.prevBlock = true
  panics : handed.CheckPanics env chain ∨ handed.check env chain = .ok () ∧ ∃ prevNode,
    chain.index.lookup handed.target.msgBlock.header.prevBlock = some prevNode ∧
    (chain.nodeStatus prevNode).knownInvalid = false ∧
    (ContextPanics env.prim handed.target.msgBlock prevNode ∨
      handed.target.msgBlock.header.prevBlock = chain.tip.hash ∧ ∃ view,
        checkExtends env prevNode chain.utxoSet handed.target = .ok view ∧
        OrphansPanic env chain.orphanPool (nodeOn env prevNode handed.target)
          (chain.utxoSet.putUtxoView view))

end Handed

theorem exists_process_panic_of_passes_iff {check : Check Unit}
    (hps : Passes env check block chain) :
    (∃ p, process env check block chain = .error p) ↔ ∃ prevNode,
      chain.index.lookup block.msgBlock.header.prevBlock = some prevNode ∧
      (chain.nodeStatus prevNode).knownInvalid = false ∧
      (ContextPanics env.prim block.msgBlock prevNode ∨
        block.msgBlock.header.prevBlock = chain.tip.hash ∧ ∃ view,
          checkExtends env prevNode chain.utxoSet block = .ok view ∧
          OrphansPanic env chain.orphanPool (nodeOn env prevNode block)
            (chain.utxoSet.putUtxoView view)) := by
  rw [process_of_passes hps]
  constructor
  · rintro ⟨p, hpa⟩
    rw [Call.andThen_eq_error] at hpa
    rcases hpa with ha | ⟨chain₁, isMainChain, ha, hpa⟩
    · obtain ⟨prevNode, hpr, hv, hp⟩ := exists_maybeAcceptBlock_panic_iff.1 ⟨p, ha⟩
      exact ⟨prevNode, hpr, hv, .inl hp⟩
    obtain ⟨prevNode, hpr, hv⟩ := exists_parent_of_maybeAcceptBlock ha
    obtain ⟨ht, view, hes, he⟩ := exists_extendedBy_of_maybeAcceptBlock hpr hv ha
    refine ⟨prevNode, hpr, hv, .inr ⟨ht, view, hes, ?_⟩⟩
    rw [Call.andThen_eq_error] at hpa
    rcases hpa with ho | ⟨chain₂, ⟨⟩, -, hr⟩
    · have hp := (exists_processOrphans_panic_iff (he.atTip hps.not_orphan)).1
        ⟨p, by rw [he.tip_eq]; exact ho⟩
      rwa [he.orphanPool_eq, he.tip_eq, he.utxoSet_eq] at hp
    · cases hr
  · rintro ⟨prevNode, hpr, hv, hp | ⟨ht, view, hes, hp⟩⟩
    · obtain ⟨p, ha⟩ := exists_maybeAcceptBlock_panic_iff.2 ⟨prevNode, hpr, hv, hp⟩
      exact ⟨p, Call.andThen_eq_error.2 (.inl ha)⟩
    · obtain ⟨chain₁, ha, he⟩ :=
        exists_maybeAcceptBlock_of_checkExtends hpr hv ht hes
      have hp₁ : OrphansPanic env chain₁.orphanPool chain₁.tip chain₁.utxoSet := by
        rw [he.orphanPool_eq, he.tip_eq, he.utxoSet_eq]
        exact hp
      obtain ⟨p, ho⟩ := (exists_processOrphans_panic_iff (he.atTip hps.not_orphan)).2 hp₁
      rw [he.tip_eq] at ho
      exact ⟨p, Call.andThen_eq_error.2 (.inr ⟨chain₁, true, ha,
        Call.andThen_eq_error.2 (.inl ho)⟩)⟩

/-- **Which calls crash a node.** -/
theorem exists_call_panic_iff (handed : Handed) :
    (∃ p, handed.call env chain = .error p) ↔ handed.Panics env chain := by
  rw [handed.call_eq]
  by_cases hn : chain.blockExists (handed.target.hash env.prim) = true
  · refine iff_of_false ?_ fun h => false_ne_true (h.new.symm.trans hn)
    rintro ⟨p, hp⟩
    rw [process, if_pos hn] at hp
    cases hp
  by_cases ho : handed.target.hash env.prim ∈ chain.orphanPool.orphans
  · refine iff_of_false ?_ fun h => absurd ho h.not_orphan
    rintro ⟨p, hp⟩
    rw [process, if_neg hn, dif_pos ho] at hp
    cases hp
  by_cases hpa : chain.blockExists handed.target.msgBlock.header.prevBlock = false
  · refine iff_of_false ?_ fun h =>
      false_ne_true (hpa.symm.trans h.parent_known)
    rintro ⟨p, hp⟩
    rw [process, if_neg hn, dif_neg ho, if_pos hpa] at hp
    cases hp
  have hn' := eq_false_of_not_eq_true hn
  have hpa' := eq_true_of_not_eq_false hpa
  cases hc : handed.check env chain with
  | error fault =>
    cases fault with
    | panic p =>
      refine iff_of_true ⟨p, ?_⟩ ⟨hn', ho, hpa', .inl ?_⟩
      · rw [process, if_neg hn, dif_neg ho, if_neg hpa]
        rfl
      · by_contra hno
        exact absurd (handed.noPanic_check_iff.2 hno) (not_noPanic_iff.2 ⟨p, hc⟩)
    | error e =>
      refine iff_of_false ?_ fun h => ?_
      · rintro ⟨p, hp⟩
        rw [process, if_neg hn, dif_neg ho, if_neg hpa] at hp
        cases hp
      · rcases h.panics with hps | ⟨hok, -⟩
        · exact handed.noPanic_check_iff.1 (hc ▸ noPanic_error) hps
        · rw [hc] at hok
          cases hok
  | ok _ =>
    rw [exists_process_panic_of_passes_iff ⟨hn', ho, hpa', rfl⟩]
    constructor
    · exact fun hps => ⟨hn', ho, hpa', .inr ⟨hc, hps⟩⟩
    · intro h
      rcases h.panics with hps | ⟨-, hps⟩
      · exact absurd hps (handed.noPanic_check_iff.1 (hc ▸ .ok))
      · exact hps

/-- **Which calls return.** -/
theorem exists_call_eq_ok_iff (handed : Handed) :
    (∃ out, handed.call env chain = .ok out) ↔ ¬handed.Panics env chain := by
  rw [← exists_call_panic_iff]
  cases handed.call env chain with
  | ok out =>
    refine iff_of_true ⟨out, rfl⟩ ?_
    rintro ⟨_, h⟩
    cases h
  | error p =>
    refine iff_of_false ?_ (not_not.2 ⟨p, rfl⟩)
    rintro ⟨_, h⟩
    cases h

/-- **When `ProcessBlock` does not panic.** -/
theorem exists_processBlock_eq_ok (hsu : ∀ hash ∈ chain.hashIndex, hash ∈ chain.index)
    (hs : block.msgBlock.header.scale ≠ 0)
    (he : ∀ prevNode ∈ chain.index.lookup block.msgBlock.header.prevBlock,
      (headerContextWindow prevNode).estimate ≠ 0)
    (hw : chain.orphanPool.waiting (block.hash env.prim) = []) :
    ∃ out, processBlock env current block chain = .ok out := by
  refine (exists_call_eq_ok_iff (.block current block)).2 fun hp => ?_
  obtain (hn | hz) | ⟨hc, prevNode, hpr, -, hcp | ⟨-, view, -, ho⟩⟩ := hp.panics
  · have hor := hp.parent_known
    rw [blockExists, or_eq_true, and_eq_true, decide_eq_true_eq, decide_eq_true_eq,
      decide_eq_true_eq] at hor
    exact Finmap.lookup_eq_none.1 hn (hor.elim id fun h => hsu _ h.2)
  · exact hs hz
  · obtain ⟨_, _, _, hz⟩ | ⟨-, -, hin⟩ := hcp
    · exact he prevNode hpr hz
    · rw [Handed.target] at hpr hin
      rw [Handed.check, processBlockCheck, hpr, bind_eq_ok] at hc
      obtain ⟨_, -, hc⟩ := hc
      obtain ⟨coinbaseTx, txs, ht, hcb, -⟩ := (bodySane_of_checkBlockSanity hc).first_coinbase
      rw [ht] at hin
      rw [isCoinBaseTx, show coinbaseTx.txIn = [] from hin] at hcb
      cases hcb
  · have hn := OrphanPool.take_eq_none hw
    cases ho with
    | first ht _ => cases hn.symm.trans ht
    | second ht _ _ _ => cases hn.symm.trans ht
    | later ht _ _ _ => cases hn.symm.trans ht

end BlockChain

end DrcNode
