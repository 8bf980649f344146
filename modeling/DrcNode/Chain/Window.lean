import DrcNode.Chain.BlockIndex
import DrcNode.Vote.Scale

/-!
# The window of the last ten blocks

The estimate of the size of the network is taken over a window: the votes and the scales of the best
block and its nine nearest ancestors (`parentWindow`). `ProcessCandidate` and `generateBlocks` look
up the previous hash of each header in the block index (`lookupWindow`), which gives this window.
`checkBlockHeaderContext` calls `Ancestor(1)` nine times, which takes an absolute height, and sees
the block of height one again and again (`headerContextWindow_eq`).

## Main results

* `windows_agree_iff`.

Source: `ProcessCandidate` in `blockchain/process.go`; `generateBlocks` in
`mining/cpuminer/cpuminer.go`; `checkBlockHeaderContext` in `blockchain/validate.go`.
-/

namespace DrcNode

open List BlockNode

/-- The votes and the scales handed to `EstimateScale`, as a list of pairs. -/
abbrev Window := List (UInt16 × UInt16)

/-- `EstimateScale` on a window. -/
def Window.estimate (window : Window) : UInt16 :=
  estimateScale (window.map Prod.fst) (window.map Prod.snd)

/-- What a node contributes to a window. -/
def BlockNode.entry (node : BlockNode) : UInt16 × UInt16 := (node.votes, node.header.scale)

/-- `blockchain.BestLastCandidate`, what `SetBestCandidate` stores at the end of a round. -/
structure BestLastCandidate where
  hash : Hash
  height : Int32
  header : BlockHeader
  votes : UInt16
  deriving DecidableEq, Repr

/-! ### The walks of the source -/

/-- Up to `n` blocks, each found in the index under the previous hash of the one before. -/
def walkIndex (index : BlockIndex) : Nat → Option BlockNode → Window
  | 0, _ => []
  | _ + 1, none => []
  | n + 1, some node => node.entry :: walkIndex index n (index.lookup node.header.prevBlock)

/-- A header with votes, followed by up to nine blocks before it. -/
def lookupWindow (index : BlockIndex) (header : BlockHeader) (votes : UInt16) : Window :=
  (votes, header.scale) :: walkIndex index prevScaleNum (index.lookup header.prevBlock)

/-- The window `ProcessCandidate` builds. -/
def processCandidateWindow (index : BlockIndex) (best : BestLastCandidate) : Window :=
  lookupWindow index best.header best.votes

/-- The window `generateBlocks` builds. -/
def generateBlocksWindow (index : BlockIndex) (best : BestLastCandidate) : Window :=
  lookupWindow index best.header best.votes

/-- Up to `n` blocks, each the ancestor of height one of the one before. -/
def walkAncestor : Nat → Option BlockNode → Window
  | 0, _ => []
  | _ + 1, none => []
  | n + 1, some node => node.entry :: walkAncestor n (node.ancestor 1)

/-- The window `checkBlockHeaderContext` builds for a block on top of `prevNode`. -/
def headerContextWindow (prevNode : BlockNode) : Window :=
  prevNode.entry :: walkAncestor 9 (prevNode.ancestor 1)

/-! ### The window that is meant -/

/-- A block and its up to nine nearest ancestors. -/
def parentWindow (node : BlockNode) : Window :=
  ((node :: node.ancestors).take (prevScaleNum + 1)).map entry

/-- The best candidate that is the block of a node. -/
def BlockNode.asBest (node : BlockNode) : BestLastCandidate where
  hash := node.hash
  height := Int32.ofNat node.height
  header := node.header
  votes := node.votes

theorem parentWindow_eq (node : BlockNode) :
    parentWindow node = node.entry :: (node.ancestors.take prevScaleNum).map entry :=
  rfl

variable {node : BlockNode}

theorem walkIndex_eq {tree : BlockTree} (h : tree.Mem node) (n : Nat) :
    walkIndex tree.index n node.parent = (node.ancestors.take n).map entry := by
  induction n generalizing node with
  | zero => rw [walkIndex, take_zero, map_nil]
  | succ n ih =>
    cases node with
    | root fields => rfl
    | child fields parent =>
      have hp : tree.Mem parent := BlockTree.mem_parent h rfl
      rw [BlockNode.parent, walkIndex, BlockTree.lookup_prevBlock hp, ih hp,
        ancestors, take_succ_cons, map_cons]

/-- **The walks over the index see the nearest ancestors**, in every block tree. -/
theorem lookupWindow_eq_parentWindow {tree : BlockTree} (h : tree.Mem node) :
    lookupWindow tree.index node.header node.votes = parentWindow node := by
  rw [lookupWindow, BlockTree.lookup_prevBlock h, walkIndex_eq h]
  rfl

/-! ### The walk by absolute height -/

theorem ancestor_one_of_height_eq_one (h : node.height = 1) : node.ancestor 1 = some node :=
  ancestor_eq_some_iff.2 ⟨mem_cons_self, h⟩

theorem walkAncestor_of_height_eq_one (h : node.height = 1) (n : Nat) :
    walkAncestor n (some node) = List.replicate n node.entry := by
  induction n with
  | zero => rfl
  | succ n ih => rw [walkAncestor, ancestor_one_of_height_eq_one h, ih, replicate_succ]

theorem headerContextWindow_of_height_eq_zero (h : node.height = 0) :
    headerContextWindow node = [node.entry] := by
  have hn : node.ancestor 1 = none := by
    rw [ancestor, if_pos (Or.inr (by omega))]
  rw [headerContextWindow, hn, walkAncestor]

/-- **The window of `checkBlockHeaderContext`** above the root: the block, and nine times the block
of height one. -/
theorem headerContextWindow_eq {first : BlockNode} (h : node.ancestor 1 = some first) :
    headerContextWindow node = node.entry :: List.replicate 9 first.entry := by
  have hf : first.height = 1 := (ancestor_eq_some_iff.1 h).2
  rw [headerContextWindow, h, walkAncestor_of_height_eq_one hf]

/-- The block is the root, or its nine nearest ancestors repeat the entry of the block of height
one. -/
def RepeatsFirst (node : BlockNode) : Prop :=
  node.height = 0 ∨ 9 ≤ node.height ∧ ∀ first, node.ancestor 1 = some first →
    ∀ a ∈ node.ancestors.take prevScaleNum, a.entry = first.entry

theorem headerContextWindow_eq_parentWindow_iff (node : BlockNode) :
    headerContextWindow node = parentWindow node ↔ RepeatsFirst node := by
  rw [RepeatsFirst]
  rcases Nat.eq_zero_or_pos node.height with h | h
  · have hn : node.ancestors = [] := length_eq_zero_iff.1 (node.length_ancestors.trans h)
    simp [headerContextWindow_of_height_eq_zero h, parentWindow_eq, hn, h]
  obtain ⟨first, hf⟩ : ∃ first, node.ancestor 1 = some first :=
    exists_ancestor (k := 1) h
  have hl : (node.ancestors.take prevScaleNum).length = min 9 node.height := by
    rw [length_take, length_ancestors, prevScaleNum]
  have hr : List.replicate 9 first.entry =
      (node.ancestors.take prevScaleNum).map entry ↔
        9 ≤ node.height ∧ ∀ a ∈ node.ancestors.take prevScaleNum, a.entry = first.entry := by
    rw [eq_comm, eq_replicate_iff, length_map, hl, min_eq_left_iff, forall_mem_map]
  rw [headerContextWindow_eq hf, parentWindow_eq, List.cons.injEq, hr]
  simp [hf, h.ne']

/-- **When the three windows are one**: exactly when `prevNode` is the root or its nine nearest
ancestors repeat the entry of the block of height one. -/
theorem windows_agree_iff (tree : BlockTree) (prevNode : BlockNode) (h : tree.Mem prevNode) :
    (headerContextWindow prevNode = parentWindow prevNode ∧
        processCandidateWindow tree.index prevNode.asBest = parentWindow prevNode ∧
        generateBlocksWindow tree.index prevNode.asBest = parentWindow prevNode ∧
        blockVerge (headerContextWindow prevNode).estimate =
          blockVerge (processCandidateWindow tree.index prevNode.asBest).estimate ∧
        blockVerge (processCandidateWindow tree.index prevNode.asBest).estimate =
          blockVerge (generateBlocksWindow tree.index prevNode.asBest).estimate) ↔
      RepeatsFirst prevNode := by
  have hl : lookupWindow tree.index prevNode.header prevNode.votes = parentWindow prevNode :=
    lookupWindow_eq_parentWindow h
  rw [← headerContextWindow_eq_parentWindow_iff]
  refine ⟨fun ha => ha.1, fun hh => ⟨hh, hl, hl, ?_, rfl⟩⟩
  rw [hh, processCandidateWindow, asBest, hl]

/-- A root block with one vote, in a network of scale one. -/
def shortRoot : BlockNode :=
  newBlockNode .polynomial
    { version := 1, prevBlock := 0, merkleRoot := 0, timestamp := 0, signature := 0, publicKey := 0
      scale := 1, reserved := 0 } none 1

/-- A block with five votes on top of the root. -/
def shortTip : BlockNode :=
  newBlockNode .polynomial
    { version := 1, prevBlock := shortRoot.hash, merkleRoot := 0, timestamp := 1, signature := 0
      publicKey := 0, scale := 1, reserved := 0 } (some shortRoot) 5

/-- The tree of the two blocks. -/
def shortTree : BlockTree :=
  (BlockTree.empty.add shortRoot Finmap.notMem_empty (by decide +kernel)
    (fun {p} h => absurd h (Option.some_ne_none p).symm)).add shortTip (by decide +kernel)
      (by decide +kernel) (fun {p} h => by
        obtain rfl : shortRoot = p := Option.some.inj h
        exact Finmap.lookup_insert _)

/-- Five votes on the first block: `checkBlockHeaderContext` sees them ten times. -/
theorem shortTree_windows_disagree : shortTree.index.lookup shortTip.hash = some shortTip ∧
      processCandidateWindow shortTree.index shortTip.asBest = [(5, 1), (1, 1)] ∧
      headerContextWindow shortTip = List.replicate 10 (5, 1) ∧
      (processCandidateWindow shortTree.index shortTip.asBest).estimate = 3 ∧
      (headerContextWindow shortTip).estimate = 5 ∧
      blockVerge (headerContextWindow shortTip).estimate ≠
        blockVerge (processCandidateWindow shortTree.index shortTip.asBest).estimate := by
  decide +kernel

/-- Blocks with five votes each, one on top of the other. -/
def tallNode : Nat → BlockNode
  | 0 => shortRoot
  | n + 1 =>
      newBlockNode .polynomial
        { version := 1, prevBlock := (tallNode n).hash, merkleRoot := 0, timestamp := n + 1
          signature := 0, publicKey := 0, scale := 1, reserved := 0 } (some (tallNode n)) 5

/-- The index of these blocks. -/
def tallIndex : Nat → BlockIndex
  | 0 => (∅ : BlockIndex).addNode shortRoot
  | n + 1 => (tallIndex n).addNode (tallNode (n + 1))

theorem exists_tallTree {n : Nat} (h : n ≤ 10) :
    ∃ tree : BlockTree, tree.index = tallIndex n ∧ tree.Mem (tallNode n) := by
  have hfresh : ∀ n < 10, (tallNode (n + 1)).hash ∉ tallIndex n := by decide +kernel
  have hzero : ∀ n < 11, (tallNode n).hash ≠ 0 := by decide +kernel
  induction n with
  | zero =>
    exact ⟨BlockTree.empty.add shortRoot Finmap.notMem_empty (hzero 0 (by decide))
      (fun {p} h => absurd h (Option.some_ne_none p).symm), rfl, Finmap.lookup_insert _⟩
  | succ n ih =>
    obtain ⟨tree, hi, hm⟩ := ih (by omega)
    refine ⟨tree.add (tallNode (n + 1)) (hi ▸ hfresh n (by omega)) (hzero (n + 1) (by omega))
      (fun {p} h => ?_), congrArg (BlockIndex.addNode · _) hi, Finmap.lookup_insert _⟩
    obtain rfl : tallNode n = p := Option.some.inj h
    exact hm

/-- With five votes on ten blocks the three windows are one. -/
theorem tallTree_windows_agree : ∃ tree : BlockTree, tree.Mem (tallNode 10) ∧
    headerContextWindow (tallNode 10) = parentWindow (tallNode 10) ∧
    processCandidateWindow tree.index (tallNode 10).asBest = parentWindow (tallNode 10) ∧
    generateBlocksWindow tree.index (tallNode 10).asBest = parentWindow (tallNode 10) := by
  obtain ⟨tree, -, hm⟩ := exists_tallTree le_rfl
  have hf : ((tallNode 10).ancestor 1).map entry = some (5, 1) := by decide +kernel
  have ha : ∀ a ∈ (tallNode 10).ancestors.take prevScaleNum, a.entry = (5, 1) := by decide +kernel
  have hr : RepeatsFirst (tallNode 10) := by
    refine .inr ⟨by decide +kernel, fun first hfirst a hm => ?_⟩
    rw [hfirst] at hf
    rw [ha a hm, Option.some.inj hf]
  obtain ⟨hc, hp, hg, -⟩ := (windows_agree_iff tree (tallNode 10) hm).2 hr
  exact ⟨tree, hm, hc, hp, hg⟩

end DrcNode
