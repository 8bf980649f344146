import DrcNode.Chain.Orphans

/-!
# The orphan pool over whole runs

The two maps of the pool describe the same blocks in every state. That the number of orphans is
limited, and that no block waits for a block the node already has, holds only under conditions on
the calls: the code that keeps the limit is commented out, and the loop over the orphans stops at
the first one that fails. `GetOrphanRoot` would go round for ever in a cycle of hashes.

## Main definitions

* `PoolInvariant`, `KeepsPool`.

## Main results

* `poolInvariant_iff`: which calls keep both.

Source: `GetOrphanRoot`, `removeOrphanBlock` and `addOrphanBlock` in `blockchain/chain.go`;
`blockchain/process.go`.
-/

namespace DrcNode

open Finmap List OrphanPool Option

def maxOrphanBlocks : Nat := 100

namespace OrphanPool

variable {prim : Primitives} {pool pool' : OrphanPool prim} {block orphan : Block}
  {hash prevHash : Hash} (hf : block.hash prim ∉ pool.orphans)
  (hm : pool.orphans.lookup (block.hash prim) = some block)

/-! ### The two maps -/

/-- Every orphan stands under its own hash and, once, in the list of its parent. -/
structure Exact (pool : OrphanPool prim) : Prop where
  hash_eq : ∀ {hash block}, pool.orphans.lookup hash = some block → block.hash prim = hash
  mem_waiting : ∀ {hash block}, pool.orphans.lookup hash = some block →
    block ∈ pool.waiting block.msgBlock.header.prevBlock
  nodup_waiting : ∀ prevHash, (pool.waiting prevHash).Nodup

theorem exact_empty : (empty : OrphanPool prim).Exact where
  hash_eq {_ block} h := absurd h (some_ne_none block).symm
  mem_waiting {_ block} h := absurd h (some_ne_none block).symm
  nodup_waiting _ := nodup_nil

theorem waiting_add : (pool.add block hf).waiting prevHash =
      if prevHash = block.msgBlock.header.prevBlock then pool.waiting prevHash ++ [block]
      else pool.waiting prevHash := by
  rw [waiting, add]
  split_ifs with h
  · subst h
    rw [lookup_insert]
    rfl
  · rw [lookup_insert_of_ne _ h]
    rfl

theorem Exact.add (h : pool.Exact) (hf : block.hash prim ∉ pool.orphans) :
    (pool.add block hf).Exact where
  hash_eq {hash other} hl := by
    obtain ⟨rfl, rfl⟩ | ⟨-, hl⟩ := lookup_insert_cases hl
    · rfl
    · exact h.hash_eq hl
  mem_waiting {hash other} hl := by
    rw [waiting_add]
    obtain ⟨-, rfl⟩ | ⟨-, hl⟩ := lookup_insert_cases hl
    · rw [if_pos rfl]
      exact mem_append_right _ (mem_singleton_self _)
    · split_ifs
      · exact mem_append_left _ (h.mem_waiting hl)
      · exact h.mem_waiting hl
  nodup_waiting prevHash := by
    rw [waiting_add]
    split_ifs
    · refine nodup_append.2 ⟨h.nodup_waiting _, nodup_singleton _, ?_⟩
      intro other ho block' hb' heq
      -- the hash of the new orphan is not in the pool
      rw [List.mem_singleton] at hb'
      subst hb' heq
      exact hf (mem_of_lookup_eq_some (linked_of_mem_waiting ho).1)
    · exact h.nodup_waiting _

theorem waiting_remove : (pool.remove block hm).waiting prevHash =
      (pool.waiting prevHash).filter fun other => other.hash prim ≠ block.hash prim := by
  by_cases hp : prevHash = block.msgBlock.header.prevBlock
  · subst hp
    rw [waiting, remove]
    cases hl : (setWaiting pool.prevOrphans block.msgBlock.header.prevBlock
        ((pool.waiting block.msgBlock.header.prevBlock).filter fun other =>
          other.hash prim ≠ block.hash prim)).lookup block.msgBlock.header.prevBlock with
    | some blocks => exact eq_of_lookup_setWaiting hl
    | none =>
      unfold setWaiting at hl
      split_ifs at hl with he
      · exact (isEmpty_iff.1 he).symm
      · rw [lookup_insert] at hl
        cases hl
  · have hs : (pool.remove block hm).waiting prevHash = pool.waiting prevHash := by
      rw [waiting, remove]
      rw [lookup_setWaiting_of_ne hp]
      rfl
    rw [hs, filter_eq_self.2]
    -- an orphan with the same hash would be the same block, and wait for the same one
    intro other ho
    rw [decide_eq_true_eq]
    intro heq
    obtain ⟨hl, hprev⟩ := linked_of_mem_waiting ho
    rw [heq, hm, some.injEq] at hl
    exact hp (hl ▸ hprev.symm)

theorem Exact.remove (h : pool.Exact) (hm : pool.orphans.lookup (block.hash prim) = some block) :
    (pool.remove block hm).Exact where
  hash_eq hl := h.hash_eq (lookup_of_lookup_remove hm hl)
  mem_waiting {hash other} hl := by
    have ho := lookup_of_lookup_remove hm hl
    rw [waiting_remove, mem_filter, decide_eq_true_eq]
    refine ⟨h.mem_waiting ho, fun heq => ?_⟩
    rw [← h.hash_eq ho, heq, OrphanPool.remove, lookup_erase] at hl
    cases hl
  nodup_waiting prevHash := by
    rw [waiting_remove]
    exact (h.nodup_waiting _).filter _

theorem Exact.take (h : pool.Exact) (htake : pool.take prevHash = some (orphan, pool')) :
    pool'.Exact := by
  obtain ⟨hm, rfl⟩ := take_eq_some htake
  exact h.remove hm

theorem take_eq_none_iff : pool.take prevHash = none ↔ pool.waiting prevHash = [] := by
  refine ⟨fun h => ?_, take_eq_none⟩
  rw [take] at h
  split at h
  · assumption
  · cases h

/-! ### The root of an orphan -/

/-- The loop of `GetOrphanRoot`, for at most the given number of rounds. -/
def getOrphanRootLoop (pool : OrphanPool prim) : Nat → Hash → Hash → Option Hash
  | 0, _, _ => none
  | n + 1, orphanRoot, prevHash =>
      match pool.orphans.lookup prevHash with
      | none => some orphanRoot
      | some orphan => pool.getOrphanRootLoop n prevHash orphan.msgBlock.header.prevBlock

/-- `GetOrphanRoot` terminates on a hash. -/
def FindsRoot (pool : OrphanPool prim) (hash : Hash) : Prop :=
  ∃ n root, pool.getOrphanRootLoop n hash hash = some root

/-- The way through the pool from a hash ends at a hash that is not in the pool. -/
inductive Rooted (pool : OrphanPool prim) : Hash → Prop
  | missing {hash : Hash} (h : pool.orphans.lookup hash = none) : Rooted pool hash
  | step {hash : Hash} {orphan : Block} (h : pool.orphans.lookup hash = some orphan)
      (hprev : Rooted pool orphan.msgBlock.header.prevBlock) : Rooted pool hash

/-- The way through the pool from the first hash comes to the second. -/
inductive Leads (pool : OrphanPool prim) (last : Hash) : Hash → Prop
  | here : Leads pool last last
  | step {hash : Hash} {orphan : Block} (h : pool.orphans.lookup hash = some orphan)
      (hprev : Leads pool last orphan.msgBlock.header.prevBlock) : Leads pool last hash

theorem Leads.eq_of_empty {last : Hash} (h : pool.Leads last hash) (he : pool.orphans = ∅) :
    hash = last := by
  cases h with
  | here => rfl
  | step hl =>
    rw [he] at hl
    cases hl

theorem exists_getOrphanRootLoop (h : pool.Rooted hash) (orphanRoot : Hash) :
    ∃ n root, pool.getOrphanRootLoop n orphanRoot hash = some root := by
  induction h generalizing orphanRoot with
  | missing h => exact ⟨1, orphanRoot, by rw [getOrphanRootLoop, h]⟩
  | @step hash orphan h _ ih =>
    obtain ⟨n, root, hn⟩ := ih hash
    exact ⟨n + 1, root, by rw [getOrphanRootLoop, h]; exact hn⟩

theorem rooted_of_getOrphanRootLoop {n : Nat} {orphanRoot root : Hash}
    (h : pool.getOrphanRootLoop n orphanRoot hash = some root) : pool.Rooted hash := by
  induction n generalizing orphanRoot hash with
  | zero => cases h
  | succ n ih =>
    rw [getOrphanRootLoop] at h
    cases hl : pool.orphans.lookup hash with
    | none => exact .missing hl
    | some orphan =>
      rw [hl] at h
      exact .step hl (ih h)

theorem findsRoot_iff : pool.FindsRoot hash ↔ pool.Rooted hash :=
  ⟨fun ⟨_, _, h⟩ => rooted_of_getOrphanRootLoop h, fun h => exists_getOrphanRootLoop h hash⟩

theorem rooted_remove (h : pool.Rooted hash) : (pool.remove block hm).Rooted hash := by
  induction h with
  | missing h =>
    refine .missing (lookup_eq_none.2 fun hm' => ?_)
    exact lookup_eq_none.1 h (mem_erase.1 hm').2
  | @step hash orphan h _ ih =>
    cases hl : (pool.remove block hm).orphans.lookup hash with
    | none => exact .missing hl
    | some other =>
      have ho := lookup_of_lookup_remove hm hl
      rw [h, some.injEq] at ho
      subst ho
      exact .step hl ih

theorem rooted_add_of_not_leads (h : pool.Rooted hash)
    (hl : ¬pool.Leads (block.hash prim) hash) : (pool.add block hf).Rooted hash := by
  have hne : ∀ {hash}, ¬pool.Leads (block.hash prim) hash → hash ≠ block.hash prim :=
    fun hl heq => hl (heq ▸ .here)
  induction h with
  | missing h =>
    exact .missing ((lookup_insert_of_ne _ (hne hl)).trans h)
  | step h _ ih =>
    exact .step ((lookup_insert_of_ne _ (hne hl)).trans h) (ih fun hprev => hl (.step h hprev))

/-- **When a new orphan closes a cycle**: the way from its parent comes to its own hash. -/
theorem rooted_add_iff (h : ∀ hash, pool.Rooted hash) : (∀ hash, (pool.add block hf).Rooted hash) ↔
      ¬pool.Leads (block.hash prim) block.msgBlock.header.prevBlock := by
  have hlo : (pool.add block hf).orphans.lookup (block.hash prim) = some block := lookup_insert _
  constructor
  · intro hr hl
    -- a way in the old pool that comes to the new hash goes on from there in the new pool
    have hc : ∀ hash, (pool.add block hf).Rooted hash → ¬pool.Leads (block.hash prim) hash := by
      intro hash hr
      induction hr with
      | missing hn =>
        rintro (_ | ⟨ho, -⟩)
        · rw [hlo] at hn
          cases hn
        · exact lookup_eq_none.1 hn (mem_insert.2 (.inr (mem_of_lookup_eq_some ho)))
      | @step hash orphan hs _ ih =>
        rintro (_ | ⟨ho, hprev⟩)
        · rw [hlo, some.injEq] at hs
          subst hs
          exact ih hl
        · have hne : hash ≠ block.hash prim := fun heq =>
            hf (heq ▸ mem_of_lookup_eq_some ho)
          rw [show (pool.add block hf).orphans.lookup hash = pool.orphans.lookup hash from
            lookup_insert_of_ne _ hne, ho, some.injEq] at hs
          subst hs
          exact ih hprev
    exact hc _ (hr _) hl
  · intro hl hash
    have hprev := rooted_add_of_not_leads hf (h _) hl
    have hr := h hash
    induction hr with
    | @missing hash hn =>
      by_cases heq : hash = block.hash prim
      · subst heq
        exact .step hlo hprev
      · exact .missing ((lookup_insert_of_ne _ heq).trans hn)
    | @step hash orphan hs _ ih =>
      have hne : hash ≠ block.hash prim := fun heq =>
        hf (heq ▸ mem_of_lookup_eq_some hs)
      exact .step ((lookup_insert_of_ne _ hne).trans hs) ih

/-! ### What is kept when an orphan is taken out -/

/-- The maps agree, every way through the pool ends, and there are not too many orphans. -/
structure Sound (pool : OrphanPool prim) : Prop where
  exactly : pool.Exact
  findsRoot : ∀ hash, pool.FindsRoot hash
  card_le : pool.orphans.keys.card ≤ maxOrphanBlocks

theorem sound_empty : (empty : OrphanPool prim).Sound where
  exactly := exact_empty
  findsRoot _ := findsRoot_iff.2 (.missing rfl)
  card_le := Nat.zero_le _

theorem Sound.take (h : pool.Sound) (htake : pool.take prevHash = some (orphan, pool')) :
    pool'.Sound := by
  have hc := card_take htake
  have hle := h.card_le
  refine ⟨h.exactly.take htake, fun hash => ?_, by omega⟩
  obtain ⟨hm, rfl⟩ := take_eq_some htake
  exact findsRoot_iff.2 (rooted_remove hm (findsRoot_iff.1 (h.findsRoot hash)))

theorem Sound.add_iff (h : pool.Sound) (hf : block.hash prim ∉ pool.orphans) :
    (pool.add block hf).Sound ↔ pool.orphans.keys.card < maxOrphanBlocks ∧
      ¬pool.Leads (block.hash prim) block.msgBlock.header.prevBlock := by
  have hr := rooted_add_iff hf fun hash => findsRoot_iff.1 (h.findsRoot hash)
  have hc : (pool.add block hf).orphans.keys.card = pool.orphans.keys.card + 1 := by
    have hk : (pool.add block hf).orphans.keys = insert (block.hash prim) pool.orphans.keys := by
      ext hash
      rw [Finset.mem_insert]
      exact mem_insert
    rw [hk, Finset.card_insert_of_notMem fun hm => hf (Finmap.mem_keys.1 hm)]
  constructor
  · intro ha
    have hle := ha.card_le
    refine ⟨by omega, hr.1 fun hash => findsRoot_iff.1 (ha.findsRoot hash)⟩
  · rintro ⟨hlt, hl⟩
    exact ⟨h.exactly.add hf, fun hash => findsRoot_iff.2 (hr.2 hl hash), by omega⟩

end OrphanPool

namespace BlockChain

variable {env : Env} {chain chain' : BlockChain env.prim} {block orphan other : Block}
  {prevNode tip : BlockNode} {utxoSet : UtxoSet} {view : UtxoViewpoint}
  {pool pool' pool'' : OrphanPool env.prim} {hashes : List Hash} {check : Check Unit}
  {result : Except GoError Outcome} {hash : Hash} {node : BlockNode} {e : GoError}

/-! ### Orphans whose parent is in the index -/

/-- No orphan waits for a block in the index. -/
def NoneReady (chain : BlockChain env.prim) : Prop :=
  ∀ {hash block}, chain.orphanPool.orphans.lookup hash = some block →
    block.msgBlock.header.prevBlock ∉ chain.index

/-- The orphans that wait for a block in the index wait for one of the given blocks. -/
def ReadyOnly (chain : BlockChain env.prim) (hashes : List Hash) : Prop :=
  ∀ {hash block}, chain.orphanPool.orphans.lookup hash = some block →
    block.msgBlock.header.prevBlock ∈ chain.index →
    block.msgBlock.header.prevBlock ∈ hashes

theorem noneReady_iff (he : chain.orphanPool.Exact) (hr : ReadyOnly chain hashes)
    (hh : ∀ hash ∈ hashes, hash ∈ chain.index) :
    NoneReady chain ↔ ∀ hash ∈ hashes, chain.orphanPool.waiting hash = [] := by
  constructor
  · intro hn hash hm
    refine eq_nil_iff_forall_not_mem.2 fun other ho => ?_
    obtain ⟨hl, hprev⟩ := linked_of_mem_waiting ho
    exact hn hl (hprev ▸ hh hash hm)
  · intro hw hash block hl hi
    have hm := he.mem_waiting hl
    rw [hw _ (hr hl hi)] at hm
    cases hm

theorem ReadyOnly.take (h : ReadyOnly chain hashes)
    (htake : chain.orphanPool.take hash = some (orphan, pool)) :
    ReadyOnly { chain with orphanPool := pool } hashes := by
  obtain ⟨hm, rfl⟩ := take_eq_some htake
  exact fun hl => h (lookup_of_lookup_remove hm hl)

theorem ReadyOnly.addNode (h : ReadyOnly chain hashes) (hp : chain'.orphanPool = chain.orphanPool)
    (hi : chain'.index = chain.index.addNode node) : ReadyOnly chain' (node.hash :: hashes) := by
  intro hash block hl hm
  rw [hp] at hl
  rw [hi] at hm
  rcases mem_insert.1 hm with heq | hm
  · rw [heq]
    exact mem_cons_self
  · exact mem_cons_of_mem _ (h hl hm)

theorem ReadyOnly.of_waiting_eq_nil (h : ReadyOnly chain (hash :: hashes))
    (he : chain.orphanPool.Exact)
    (hw : ∀ hash ∈ hashes, chain.orphanPool.waiting hash = []) : ReadyOnly chain [hash] := by
  intro hash' block hl hm
  rcases mem_cons.1 (h hl hm) with heq | hm
  · exact mem_singleton.2 heq
  · have hwa := he.mem_waiting hl
    rw [hw _ hm] at hwa
    cases hwa

/-! ### Blocks that are not connected -/

theorem connectBestChain_error
    (h : connectBestChain env chain node block = .ok (chain', .error e)) :
    chain'.index = chain.index ∧ chain'.orphanPool = chain.orphanPool := by
  by_cases ht : block.msgBlock.header.prevBlock = chain.tip.hash
  · match hc : checkConnects env chain.utxoSet node block with
    | .ok view =>
      obtain ⟨stxos, hco⟩ := connectBestChain_of_checkConnects_ok ht hc
      rw [hco] at h
      cases h
    | .error fault =>
      obtain ⟨chain₁, hco, heq⟩ := connectBestChain_of_checkConnects_fault ht hc
      rw [hco] at h
      cases fault with
      | panic p => cases h
      | error e =>
        cases h
        exact heq
  · rw [connectBestChain, if_neg ht] at h
    cases h
    exact ⟨rfl, rfl⟩

/-- The block passes `checkBlockContext` on top of a node. -/
def Fits (env : Env) (prevNode : BlockNode) (block : Block) : Prop :=
  checkBlockContext env.prim { block with height := prevNode.height + 1 } prevNode = .ok ()

section

variable (hprev : chain.index.lookup block.msgBlock.header.prevBlock = some prevNode)
  (hvalid : (chain.nodeStatus prevNode).knownInvalid = false)
  (h : maybeAcceptBlock env chain block = .ok (chain', .error e))
include hprev hvalid h

/-- A block that is not connected has a node in the index just when it fits its parent. -/
theorem index_of_maybeAcceptBlock_error :
    chain'.orphanPool = chain.orphanPool ∧ (Fits env prevNode block ∧
          chain'.index = chain.index.addNode (nodeOn env prevNode block) ∨
        ¬Fits env prevNode block ∧ chain'.index = chain.index) := by
  rw [maybeAcceptBlock_eq hprev hvalid, Check.andThen_eq_ok] at h
  obtain ⟨⟨⟩, hc, h⟩ | ⟨e', hc, rfl, -⟩ := h
  · obtain ⟨hi, hp⟩ := connectBestChain_error h
    exact ⟨hp, .inl ⟨hc, hi⟩⟩
  · refine ⟨rfl, .inr ⟨fun hpasses => ?_, rfl⟩⟩
    rw [Fits, hc] at hpasses
    cases hpasses

/-- **What a block that is not connected leaves ready.** -/
theorem noneReady_maybeAcceptBlock_error_iff (he : chain.orphanPool.Exact)
    (hr : ReadyOnly chain hashes) (hh : ∀ hash ∈ hashes, hash ∈ chain.index) :
    NoneReady chain' ↔ (∀ hash ∈ hashes, chain.orphanPool.waiting hash = []) ∧
      (Fits env prevNode block → chain.orphanPool.waiting (block.hash env.prim) = []) := by
  obtain ⟨hp, ⟨hf, hi⟩ | ⟨hf, hi⟩⟩ := index_of_maybeAcceptBlock_error hprev hvalid h
  · have hm : ∀ hash ∈ (nodeOn env prevNode block).hash :: hashes, hash ∈ chain'.index := by
      rw [hi]
      exact forall_mem_cons.2 ⟨mem_insert.2 (.inl rfl),
        fun hash hha => mem_insert.2 (.inr (hh hash hha))⟩
    rw [noneReady_iff (hp ▸ he) (hr.addNode hp hi) hm, forall_mem_cons, hp, and_comm]
    exact and_congr_right fun _ => ⟨fun h _ => h, fun h => h hf⟩
  · have hr' : ReadyOnly chain' hashes := by
      intro hash other hl hm
      exact hr (hp ▸ hl) (hi ▸ hm)
    rw [noneReady_iff (hp ▸ he) hr' (hi ▸ hh), hp]
    exact ⟨fun h => ⟨h, fun hf' => absurd hf' hf⟩, And.left⟩

end

/-! ### The orphans that wait for the tip -/

/-- **The orphans that wait for the tip leave none behind whose parent is in the index.** -/
inductive Settles (env : Env) : OrphanPool env.prim → BlockNode → UtxoSet → Prop
  | none {pool : OrphanPool env.prim} {tip : BlockNode} {utxoSet : UtxoSet}
      (hnone : pool.take tip.hash = none) : Settles env pool tip utxoSet
  | first {pool pool' : OrphanPool env.prim} {tip : BlockNode} {utxoSet : UtxoSet} {orphan : Block}
      (htake : pool.take tip.hash = some (orphan, pool'))
      (hfails : ∀ view, checkExtends env tip utxoSet orphan ≠ .ok view)
      (halone : pool'.waiting tip.hash = [])
      (hstored : Fits env tip orphan → pool'.waiting (orphan.hash env.prim) = []) :
      Settles env pool tip utxoSet
  | second {pool pool' pool'' : OrphanPool env.prim} {tip : BlockNode} {utxoSet : UtxoSet}
      {orphan other : Block} {view : UtxoViewpoint}
      (htake : pool.take tip.hash = some (orphan, pool'))
      (hextends : checkExtends env tip utxoSet orphan = .ok view)
      (hother : pool'.take tip.hash = some (other, pool'')) (halone : pool''.waiting tip.hash = [])
      (hfirst : pool''.waiting (orphan.hash env.prim) = [])
      (hstored : Fits env tip other → pool''.waiting (other.hash env.prim) = []) :
      Settles env pool tip utxoSet
  | later {pool pool' : OrphanPool env.prim} {tip : BlockNode} {utxoSet : UtxoSet} {orphan : Block}
      {view : UtxoViewpoint} (htake : pool.take tip.hash = some (orphan, pool'))
      (hextends : checkExtends env tip utxoSet orphan = .ok view)
      (hnone : pool'.take tip.hash = none)
      (hlater : Settles env pool' (nodeOn env tip orphan) (utxoSet.putUtxoView view)) :
      Settles env pool tip utxoSet

theorem settles_iff (htake : pool.take tip.hash = some (orphan, pool')) :
    Settles env pool tip utxoSet ↔
      ((∀ view, checkExtends env tip utxoSet orphan ≠ .ok view) ∧ pool'.waiting tip.hash = [] ∧
        (Fits env tip orphan → pool'.waiting (orphan.hash env.prim) = [])) ∨
      ∃ view, checkExtends env tip utxoSet orphan = .ok view ∧
        ((∃ other pool'', pool'.take tip.hash = some (other, pool'') ∧
          pool''.waiting tip.hash = [] ∧ pool''.waiting (orphan.hash env.prim) = [] ∧
          (Fits env tip other → pool''.waiting (other.hash env.prim) = [])) ∨
        (pool'.take tip.hash = none ∧
          Settles env pool' (nodeOn env tip orphan) (utxoSet.putUtxoView view))) := by
  constructor
  · intro h
    cases h with
    | none hn => rw [htake] at hn; cases hn
    | first htake' hf ha hs =>
      rw [htake] at htake'
      cases htake'
      exact .inl ⟨hf, ha, hs⟩
    | second htake' hextends ho ha hfi hs =>
      rw [htake] at htake'
      cases htake'
      exact .inr ⟨_, hextends, .inl ⟨_, _, ho, ha, hfi, hs⟩⟩
    | later htake' hextends hn hl =>
      rw [htake] at htake'
      cases htake'
      exact .inr ⟨_, hextends, .inr ⟨hn, hl⟩⟩
  · rintro (⟨hf, ha, hs⟩ | ⟨view, hextends, ⟨other, pool'', ho, ha, hfi, hs⟩ | ⟨hn, hl⟩⟩)
    · exact .first htake hf ha hs
    · exact .second htake hextends ho ha hfi hs
    · exact .later htake hextends hn hl

/-- **The loop over the orphans leaves none behind** just when the orphans settle. -/
theorem noneReady_processOrphans_iff {result : Except GoError Unit} (h : AtTip chain)
    (het : chain.orphanPool.Exact) (hr : ReadyOnly chain [chain.tip.hash])
    (ho : processOrphans env chain.tip.hash chain = .ok (chain', result)) :
    NoneReady chain' ↔ Settles env chain.orphanPool chain.tip chain.utxoSet := by
  have ht : ∀ hash ∈ [chain.tip.hash], hash ∈ chain.index := by
    intro hash hm
    rw [mem_singleton.1 hm]
    exact mem_of_lookup_eq_some h.tip_mem
  induction h using AtTip.loop_induction with
  | none h htake =>
    rw [processOrphans_of_take_eq_none htake] at ho
    cases ho
    refine ⟨fun _ => .none htake, fun _ => (noneReady_iff het hr ht).2 ?_⟩
    intro hash hm
    rw [mem_singleton.1 hm]
    exact take_eq_none_iff.1 htake
  | @fails chain orphan pool fault h htake hextends =>
    obtain ⟨chain₁, ha, hof⟩ := h.fail_first htake hextends
    rw [hof] at ho
    cases fault with
    | error e =>
      cases ho
      rw [@noneReady_maybeAcceptBlock_error_iff env { chain with orphanPool := pool } chain'
        orphan chain.tip [chain.tip.hash] e ((h.take htake).1 ▸ h.tip_mem) h.tip_valid ha
        (het.take htake) (hr.take htake) ht, settles_iff htake]
      simp [hextends]
    | panic p => cases ho
  | @accepts chain orphan pool _ chain₁ h htake hextends ha he hp hat ih =>
    have het' : pool.Exact := het.take htake
    have hr' : ReadyOnly { chain with orphanPool := pool } [chain.tip.hash] := hr.take htake
    have hr₁ : ReadyOnly chain₁ [orphan.hash env.prim, chain.tip.hash] :=
      hr'.addNode hp he.index_eq
    have hh : ∀ hash ∈ [orphan.hash env.prim, chain.tip.hash], hash ∈ chain₁.index := by
      rw [he.index_eq]
      exact forall_mem_cons.2 ⟨mem_insert.2 (.inl rfl),
        fun hash hm => mem_insert.2 (.inr (ht hash hm))⟩
    cases hot : pool.take chain.tip.hash with
    | none =>
      rw [processOrphans_of_accepted htake ha (hp ▸ hot)] at ho
      have hn : ∀ hash ∈ [chain.tip.hash], chain₁.orphanPool.waiting hash = [] := by
        rw [forall_mem_singleton, hp]
        exact take_eq_none_iff.1 hot
      have ht₁ : chain₁.tip.hash = orphan.hash env.prim := congrArg BlockNode.hash he.tip_eq
      have hl := ih (hp ▸ het') (ht₁ ▸ hr₁.of_waiting_eq_nil (hp ▸ het') hn) (ht₁ ▸ ho)
        (ht₁ ▸ forall_mem_singleton.2 (forall_mem_cons.1 hh).1)
      rw [he.tip_eq, he.utxoSet_eq, hp] at hl
      simpa [settles_iff htake, hextends, hot] using hl
    | some second =>
      obtain ⟨other, pool'⟩ := second
      obtain ⟨hprev₂, hv₂, -⟩ := h.parent_second htake he hot
      rw [processOrphans_of_other htake ha (hp ▸ hot), Call.andThen_eq_ok] at ho
      obtain ⟨chain₂, isMainChain, ha₂, -⟩ | ⟨e, ha₂, -⟩ := ho
      · rw [h.accept_second htake he hot, Check.andThen_eq_ok] at ha₂
        obtain ⟨⟨⟩, -, ha₂⟩ | ⟨e, -, -, ha₂⟩ := ha₂
        · cases ha₂
        · cases ha₂
      · rw [@noneReady_maybeAcceptBlock_error_iff env { chain₁ with orphanPool := pool' }
          chain' other chain.tip [orphan.hash env.prim, chain.tip.hash] e hprev₂ hv₂ ha₂
          (het'.take hot) (hr₁.take (hp ▸ hot)) hh, settles_iff htake, forall_mem_cons, and_assoc,
          and_left_comm]
        simp [hextends, hot]

/-! ### Calls -/

/-- **What one expects of the orphan pool after every call.** -/
structure PoolInvariant (chain : BlockChain env.prim) : Prop where
  sound : chain.orphanPool.Sound
  noneReady : NoneReady chain

/-- **The condition on a call**: a block that waits finds room and closes no cycle, and the orphans
that wait for a block that is stored settle. -/
structure KeepsPool (env : Env) (check : Check Unit) (block : Block) (chain : BlockChain env.prim) :
    Prop where
  room : chain.blockExists (block.hash env.prim) = false →
    block.hash env.prim ∉ chain.orphanPool.orphans →
    chain.blockExists block.msgBlock.header.prevBlock = false →
    chain.orphanPool.orphans.keys.card < maxOrphanBlocks ∧
      ¬chain.orphanPool.Leads (block.hash env.prim) block.msgBlock.header.prevBlock
  settles : ∀ {prevNode view}, Passes env check block chain →
    chain.index.lookup block.msgBlock.header.prevBlock = some prevNode →
    (chain.nodeStatus prevNode).knownInvalid = false →
    block.msgBlock.header.prevBlock = chain.tip.hash →
    checkExtends env prevNode chain.utxoSet block = .ok view →
    Settles env chain.orphanPool (nodeOn env prevNode block) (chain.utxoSet.putUtxoView view)
  stored : ∀ {prevNode}, Passes env check block chain →
    chain.index.lookup block.msgBlock.header.prevBlock = some prevNode →
    (chain.nodeStatus prevNode).knownInvalid = false →
    (block.msgBlock.header.prevBlock = chain.tip.hash →
      ∀ view, checkExtends env prevNode chain.utxoSet block ≠ .ok view) →
    Fits env prevNode block → chain.orphanPool.waiting (block.hash env.prim) = []

theorem keepsPool_of_not_passes (hpasses : ¬Passes env check block chain)
    (hr : chain.blockExists (block.hash env.prim) = false →
      block.hash env.prim ∉ chain.orphanPool.orphans →
      chain.blockExists block.msgBlock.header.prevBlock ≠ false) :
    KeepsPool env check block chain where
  room hn hf hp := absurd hp (hr hn hf)
  settles h := absurd h hpasses
  stored h := absurd h hpasses

section Passing

variable {check : Check Unit} (hpasses : Passes env check block chain)

include hpasses

theorem Passes.parent_ne_false : chain.blockExists block.msgBlock.header.prevBlock ≠ false := by
  rw [hpasses.parent_known]
  exact Bool.false_ne_true.symm

theorem keepsPool_of_no_parent
    (hp : ∀ prevNode, chain.index.lookup block.msgBlock.header.prevBlock = some prevNode →
      (chain.nodeStatus prevNode).knownInvalid = true) : KeepsPool env check block chain where
  room _ _ hu := absurd hu hpasses.parent_ne_false
  settles _ hprev hvalid := absurd (hvalid.symm.trans (hp _ hprev)) Bool.false_ne_true
  stored _ hprev hvalid := absurd (hvalid.symm.trans (hp _ hprev)) Bool.false_ne_true

variable (hprev : chain.index.lookup block.msgBlock.header.prevBlock = some prevNode)
  (hvalid : (chain.nodeStatus prevNode).knownInvalid = false)

include hprev hvalid

theorem keepsPool_iff_of_extends (ht : block.msgBlock.header.prevBlock = chain.tip.hash)
    (hextends : checkExtends env prevNode chain.utxoSet block = .ok view) :
    KeepsPool env check block chain ↔ Settles env chain.orphanPool (nodeOn env prevNode block)
      (chain.utxoSet.putUtxoView view) := by
  refine ⟨fun h => h.settles hpasses hprev hvalid ht hextends, fun h => ⟨?_, ?_, ?_⟩⟩
  · exact fun _ _ hu => absurd hu hpasses.parent_ne_false
  · intro prevNode' view' _ hprev' _ _ hextends'
    rw [hprev, some.injEq] at hprev'
    subst hprev'
    rw [hextends] at hextends'
    cases hextends'
    exact h
  · intro prevNode' _ hprev' _ hn
    rw [hprev, some.injEq] at hprev'
    subst hprev'
    exact absurd hextends (hn ht view)

theorem keepsPool_iff_of_not_extends (hn : block.msgBlock.header.prevBlock = chain.tip.hash →
      ∀ view, checkExtends env prevNode chain.utxoSet block ≠ .ok view) :
    KeepsPool env check block chain ↔
      (Fits env prevNode block → chain.orphanPool.waiting (block.hash env.prim) = []) := by
  refine ⟨fun h => h.stored hpasses hprev hvalid hn, fun h => ⟨?_, ?_, ?_⟩⟩
  · exact fun _ _ hu => absurd hu hpasses.parent_ne_false
  · intro prevNode' view' _ hprev' _ ht hextends
    rw [hprev, some.injEq] at hprev'
    subst hprev'
    exact absurd hextends (hn ht view')
  · intro prevNode' _ hprev' _ _
    rw [hprev, some.injEq] at hprev'
    subst hprev'
    exact h

end Passing

theorem sound_of_passes (hpasses : Passes env check block chain) (h : chain.orphanPool.Sound)
    (hp : process env check block chain = .ok (chain', result)) : chain'.orphanPool.Sound := by
  refine process_invariant (P := fun c : BlockChain env.prim => c.orphanPool.Sound) h ?_ ?_ ?_ hp
  · intro _ _ hpa
    exact absurd (hpa.symm.trans hpasses.parent_known) Bool.false_ne_true
  · intro chain' result _ ha
    rw [(accepts_of_maybeAcceptBlock ha).orphanPool_eq]
    exact h
  · intro chain chain' hash orphan orphanPool result h htake ha
    rw [(accepts_of_maybeAcceptBlock ha).orphanPool_eq]
    exact h.take htake

section

variable (h : PoolInvariant chain) (hpasses : Passes env check block chain)
include h hpasses

/-- A block that becomes the tip leaves no orphan behind just when the orphans settle. -/
theorem noneReady_of_extends_iff
    (hprev : chain.index.lookup block.msgBlock.header.prevBlock = some prevNode)
    (hvalid : (chain.nodeStatus prevNode).knownInvalid = false)
    (ht : block.msgBlock.header.prevBlock = chain.tip.hash)
    (hextends : checkExtends env prevNode chain.utxoSet block = .ok view)
    (hp : process env check block chain = .ok (chain', result)) :
    NoneReady chain' ↔ Settles env chain.orphanPool (nodeOn env prevNode block)
      (chain.utxoSet.putUtxoView view) := by
  obtain ⟨chain₁, ha, he⟩ := exists_maybeAcceptBlock_of_checkExtends hprev hvalid ht hextends
  have hr : ReadyOnly chain₁ [block.hash env.prim] :=
    ReadyOnly.addNode (fun hl hm => absurd hm (h.noneReady hl)) he.orphanPool_eq he.index_eq
  have ht₁ : chain₁.tip.hash = block.hash env.prim := congrArg BlockNode.hash he.tip_eq
  have ho : ∃ result, processOrphans env (block.hash env.prim) chain₁ = .ok (chain', result) := by
    rw [process_of_passes hpasses, ha] at hp
    change (processOrphans env (block.hash env.prim) chain₁).andThen _ = _ at hp
    obtain ⟨chain₂, ⟨⟩, ho, hp⟩ | ⟨e, ho, -⟩ := Call.andThen_eq_ok.1 hp
    · cases hp
      exact ⟨_, ho⟩
    · exact ⟨_, ho⟩
  obtain ⟨result', ho⟩ := ho
  rw [noneReady_processOrphans_iff (he.atTip hpasses.not_orphan)
      (he.orphanPool_eq ▸ h.sound.exactly) (ht₁ ▸ hr) (ht₁ ▸ ho),
    he.orphanPool_eq, he.tip_eq, he.utxoSet_eq]

/-- A block that passes leaves no orphan behind just when the condition on the call is met. -/
theorem noneReady_of_passes_iff (hp : process env check block chain = .ok (chain', result)) :
    NoneReady chain' ↔ KeepsPool env check block chain := by
  have hr := hp
  rw [process_of_passes hpasses] at hr
  cases hprev : chain.index.lookup block.msgBlock.header.prevBlock with
  | none =>
    -- a parent that is in the database only
    rw [maybeAcceptBlock, hprev] at hr
    cases hr
    refine iff_of_true h.noneReady (keepsPool_of_no_parent hpasses fun prevNode hl => ?_)
    rw [hprev] at hl
    cases hl
  | some prevNode =>
    cases hvalid : (chain.nodeStatus prevNode).knownInvalid with
    | true =>
      rw [maybeAcceptBlock, hprev] at hr
      dsimp only at hr
      rw [hvalid] at hr
      cases hr
      refine iff_of_true h.noneReady (keepsPool_of_no_parent hpasses fun prevNode' hl => ?_)
      rw [hprev, some.injEq] at hl
      exact hl ▸ hvalid
    | false =>
      rw [Call.andThen_eq_ok] at hr
      obtain ⟨chain₁, isMainChain, ha, -⟩ | ⟨e, ha, -⟩ := hr
      · obtain ⟨ht, view, hextends, -⟩ :=
          exists_extendedBy_of_maybeAcceptBlock hprev hvalid ha
        rw [keepsPool_iff_of_extends hpasses hprev hvalid ht hextends]
        exact noneReady_of_extends_iff h hpasses hprev hvalid ht hextends hp
      · have hn : block.msgBlock.header.prevBlock = chain.tip.hash →
            ∀ view, checkExtends env prevNode chain.utxoSet block ≠ .ok view := by
          intro ht view hextends
          obtain ⟨chain₁, ha', -⟩ :=
            exists_maybeAcceptBlock_of_checkExtends hprev hvalid ht hextends
          rw [ha] at ha'
          cases ha'
        have hre : ReadyOnly chain [] := fun hl hm => absurd hm (h.noneReady hl)
        rw [keepsPool_iff_of_not_extends hpasses hprev hvalid hn,
          noneReady_maybeAcceptBlock_error_iff hprev hvalid ha h.sound.exactly hre
            (fun _ hm => absurd hm not_mem_nil)]
        exact and_iff_right fun _ hm => absurd hm not_mem_nil

end

/-- **One call keeps the pool as expected just when it meets the condition.** -/
theorem poolInvariant_process_iff (h : PoolInvariant chain)
    (hpr : process env check block chain = .ok (chain', result)) :
    PoolInvariant chain' ↔ KeepsPool env check block chain := by
  by_cases hpasses : Passes env check block chain
  · rw [← noneReady_of_passes_iff h hpasses hpr]
    exact ⟨PoolInvariant.noneReady, fun hn => ⟨sound_of_passes hpasses h.sound hpr, hn⟩⟩
  have hu := hpr
  rw [process] at hu
  split_ifs at hu with he hf hp
  · cases hu
    refine iff_of_true h (keepsPool_of_not_passes hpasses fun hnw => ?_)
    exact absurd (hnw.symm.trans he) Bool.false_ne_true
  · cases hu
    exact iff_of_true h (keepsPool_of_not_passes hpasses fun _ hno => absurd hf hno)
  · cases hu
    constructor
    · intro h'
      exact ⟨fun _ _ _ => (h.sound.add_iff hf).1 h'.sound, fun h => absurd h hpasses,
        fun h => absurd h hpasses⟩
    · intro hk
      have hr := hk.room (Bool.eq_false_of_not_eq_true he) hf hp
      refine ⟨(h.sound.add_iff hf).2 hr, fun hl hm => ?_⟩
      obtain ⟨-, rfl⟩ | ⟨-, hl⟩ := lookup_insert_cases hl
      · rw [blockExists, decide_eq_true hm] at hp
        cases hp
      · exact h.noneReady hl hm
  · have hk := keepsPool_of_not_passes hpasses fun _ _ => hp
    rw [Check.andThen_eq_ok] at hu
    obtain ⟨⟨⟩, hc, -⟩ | ⟨e, -, rfl, -⟩ := hu
    · exact absurd ⟨Bool.eq_false_of_not_eq_true he, hf,
        Bool.eq_true_of_not_eq_false hp, hc⟩ hpasses
    · exact iff_of_true h hk

theorem poolInvariant_createChainState (env : Env) : PoolInvariant (createChainState env) where
  sound := sound_empty
  noneReady h := by cases h

/-- **The orphan pool over whole runs.** It stays as expected just when every call meets the
condition. -/
theorem poolInvariant_iff {calls : List Handed} (hrun : Runs.Run (handOver env)
      (fun chain handed => KeepsPool env (handed.check env chain) handed.target chain)
      (createChainState env) calls chain) :
    PoolInvariant chain ∧ ∀ handed chain', handOver env chain handed = .ok chain' →
      (PoolInvariant chain' ↔ KeepsPool env (handed.check env chain) handed.target chain) := by
  have hi : PoolInvariant chain := by
    refine hrun.invariant (poolInvariant_createChainState env) ?_
    intro chain handed chain' h hk hs
    obtain ⟨result, hp⟩ := handed.exists_process_of_handOver hs
    exact (poolInvariant_process_iff h hp).2 hk
  refine ⟨hi, fun handed chain' hs => ?_⟩
  obtain ⟨result, hp⟩ := handed.exists_process_of_handOver hs
  exact poolInvariant_process_iff hi hp

end BlockChain

open BlockChain in
/-- An orphan whose parent never comes waits while another block is connected. -/
theorem poolInvariant_waiting : ∃ chain chain', handOver sampleEnv (createChainState sampleEnv)
      (.block ∅ { msgBlock := wrongMerkleRoot 7 5 }) = .ok chain ∧
    chain.orphanPool.orphans.keys.card = 1 ∧
    handOver sampleEnv chain (.block ∅ { msgBlock := sampleBlock }) = .ok chain' ∧
    chain'.tip.height = 1 ∧ PoolInvariant chain' := by
  have hm : (handOver sampleEnv (createChainState sampleEnv)
      (.block ∅ { msgBlock := wrongMerkleRoot 7 5 })).map (fun chain =>
        (chain.orphanPool.orphans.keys.card, chain.blockExists sampleBlock.header.prevBlock,
          chain.orphanPool.waiting (sampleBlock.header.blockHash sampleEnv.prim),
          (handOver sampleEnv chain (.block ∅ { msgBlock := sampleBlock })).map
            fun chain => chain.tip.height)) = .ok (1, true, [], .ok 1) := by
    decide +kernel
  obtain ⟨chain, hs, hm⟩ := Checked.map_eq_ok.1 hm
  obtain ⟨hcard, hp, hw, hm⟩ : _ ∧ _ ∧ _ ∧ _ := by simpa only [Prod.mk.injEq] using hm
  obtain ⟨chain', hs', hh⟩ := Checked.map_eq_ok.1 hm
  have hu : (createChainState sampleEnv).blockExists 7 = false := by decide +kernel
  have hne : (7 : Hash) ≠ (wrongMerkleRoot 7 5).header.blockHash sampleEnv.prim := by decide +kernel
  have hk : ∀ check, KeepsPool sampleEnv check { msgBlock := wrongMerkleRoot 7 5 }
      (createChainState sampleEnv) := fun check =>
    ⟨fun _ _ _ => ⟨by decide +kernel, fun h => hne (h.eq_of_empty rfl)⟩,
      fun h => absurd (hu.symm.trans h.parent_known) Bool.false_ne_true,
      fun h => absurd (hu.symm.trans h.parent_known) Bool.false_ne_true⟩
  refine ⟨chain, chain', hs, hcard, hs', hh,
    ((poolInvariant_iff (.cons (hk _) hs .nil)).2 _ chain' hs').2 ⟨?_, ?_, ?_⟩⟩
  · intro _ _ hu
    exact absurd (hu.symm.trans hp) Bool.false_ne_true
  · exact fun _ _ _ _ _ => .none (take_eq_none hw)
  · exact fun _ _ _ _ _ => hw

open BlockChain in
/-- Two orphans wait for `sampleBlock`, and the first one fails: the second waits for a block in the
index. -/
theorem poolInvariant_broken : ∃ chain, Runs.exec (handOver sampleEnv) (createChainState sampleEnv)
        [.block ∅ { msgBlock := staleBlock },
          .block ∅ { msgBlock := wrongMerkleRoot (sampleBlock.header.blockHash sampleEnv.prim) 2 },
          .block ∅ { msgBlock := sampleBlock }] = .ok chain ∧ ¬PoolInvariant chain := by
  have he : (Runs.exec (handOver sampleEnv) (createChainState sampleEnv)
        [.block ∅ { msgBlock := staleBlock },
          .block ∅ { msgBlock := wrongMerkleRoot (sampleBlock.header.blockHash sampleEnv.prim) 2 },
          .block ∅ { msgBlock := sampleBlock }]).map (fun chain =>
      ((chain.orphanPool.waiting (sampleBlock.header.blockHash sampleEnv.prim)).length,
        decide (sampleBlock.header.blockHash sampleEnv.prim ∈ chain.index))) = .ok (1, true) := by
    decide +kernel
  obtain ⟨chain, he, hr⟩ := Checked.map_eq_ok.1 he
  obtain ⟨hl, hm⟩ := Prod.mk.inj hr
  refine ⟨chain, he, fun h => ?_⟩
  obtain ⟨other, ho⟩ := length_eq_one_iff.1 hl
  obtain ⟨hlo, hprev⟩ := linked_of_mem_waiting (ho ▸ mem_singleton_self other)
  exact h.noneReady hlo (hprev ▸ of_decide_eq_true hm)

end DrcNode
