import DrcNode.Wire.Encode
import Mathlib.Data.List.Sort

/-!
# Block nodes and the block index

A node of the block tree holds the fields of a header, the hash of that header, the number of
votes set on its block and a pointer to its parent. The nodes a chain knows are kept in an index by
hash. Two of the walks over the tree follow parent pointers (`ancestor`, `calcPastMedianTime`);
others look up the previous hash of a reconstructed header in the index, which is the same walk in
an index that is a tree (`BlockTree`).

Source: `blockchain/blockindex.go`. The status flags, the only mutable field of a node, are kept
with the chain state. Heights are natural numbers; the source has them in 32 bits.
-/

namespace DrcNode

open Finmap List Option

/-- The fields of `blockNode` that are fixed when a node is made, its parent apart. -/
@[ext] structure BlockFields where
  hash : Hash
  version : Int32
  timestamp : Int
  merkleRoot : Hash
  signature : Hash64
  publicKey : Hash33
  scale : UInt16
  reserved : UInt16
  votes : UInt16
  deriving DecidableEq, Repr

/-- `blockNode`: a node without a parent, or a node with one. -/
inductive BlockNode
  | root (fields : BlockFields)
  | child (fields : BlockFields) (parent : BlockNode)
  deriving DecidableEq, Repr

/-- `initBlockNode` and `newBlockNode`. -/
def newBlockNode (prim : Primitives) (blockHeader : BlockHeader) (parent : Option BlockNode)
    (votes : UInt16) : BlockNode :=
  let fields : BlockFields :=
    { hash := blockHeader.blockHash prim
      version := blockHeader.version
      timestamp := blockHeader.timestamp
      merkleRoot := blockHeader.merkleRoot
      signature := blockHeader.signature
      publicKey := blockHeader.publicKey
      scale := blockHeader.scale
      reserved := blockHeader.reserved
      votes }
  match parent with
  | none => .root fields
  | some parent => .child fields parent

namespace BlockNode

/-- The fields of a node. -/
def fields : BlockNode → BlockFields
  | root fields => fields
  | child fields _ => fields

/-- The parent of a node, `none` for a nil pointer. -/
def parent : BlockNode → Option BlockNode
  | root _ => none
  | child _ parent => some parent

/-- The height of a node, set from its parent when it is made. -/
def height : BlockNode → Nat
  | root _ => 0
  | child _ parent => parent.height + 1

/-- The proper ancestors of a node by parent pointers, nearest first. -/
def ancestors : BlockNode → List BlockNode
  | root _ => []
  | child _ parent => parent :: parent.ancestors

def hash (node : BlockNode) : Hash := node.fields.hash

def votes (node : BlockNode) : UInt16 := node.fields.votes

/-- `(*blockNode).Header`, with the zero hash for a node without a parent. -/
def header (node : BlockNode) : BlockHeader where
  version := node.fields.version
  prevBlock := (node.parent.map hash).getD 0
  merkleRoot := node.fields.merkleRoot
  timestamp := node.fields.timestamp
  signature := node.fields.signature
  publicKey := node.fields.publicKey
  scale := node.fields.scale
  reserved := node.fields.reserved

/-- The loop of `(*blockNode).Ancestor`: follow the parents until the height is `height`. -/
def climb (height : Nat) : BlockNode → Option BlockNode
  | root fields => if (root fields).height = height then some (root fields) else none
  | child fields parent =>
      if (child fields parent).height = height then some (child fields parent)
      else parent.climb height

/-- `(*blockNode).Ancestor`: the ancestor at the absolute height `height`. -/
def ancestor (node : BlockNode) (height : Int) : Option BlockNode :=
  if height < 0 ∨ node.height < height then none else node.climb height.toNat

def medianTimeBlocks : Nat := 11

def calcPastMedianTime (node : BlockNode) : Int :=
  let timestamps := ((node :: node.ancestors).take medianTimeBlocks).map (·.fields.timestamp)
  (timestamps.insertionSort (· ≤ ·))[timestamps.length / 2]?.getD 0

/-! ### Heights and ancestors -/

@[simp] theorem length_ancestors : (node : BlockNode) → node.ancestors.length = node.height
  | root _ => rfl
  | child _ parent => by rw [ancestors, height, length_cons, parent.length_ancestors]

variable {node : BlockNode} {a m n : BlockNode} {k : Nat} {prim : Primitives}

theorem height_eq_zero_iff : node.height = 0 ↔ node.parent = none := by
  cases node with
  | root fields => exact ⟨fun _ => rfl, fun _ => rfl⟩
  | child fields parent =>
    exact ⟨fun h => absurd h (Nat.succ_ne_zero _), fun h => by cases h⟩

theorem height_of_parent {parent : BlockNode} (h : node.parent = some parent) :
    node.height = parent.height + 1 := by
  cases node with
  | root fields => exact absurd h (some_ne_none parent).symm
  | child fields p =>
    cases h
    rfl

theorem height_lt_of_mem_ancestors (h : a ∈ node.ancestors) : a.height < node.height := by
  induction node with
  | root fields => exact absurd h not_mem_nil
  | child fields parent ih =>
    rcases mem_cons.1 h with rfl | h
    · exact Nat.lt_succ_self _
    · exact (ih h).trans (Nat.lt_succ_self _)

theorem climb_eq_some_iff : node.climb k = some a ↔ a ∈ node :: node.ancestors ∧ a.height = k := by
  induction node with
  | root fields =>
    rw [climb, ancestors, List.mem_singleton]
    split_ifs with h
    · rw [some.injEq]
      exact ⟨fun ha => ⟨ha.symm, ha ▸ h⟩, fun ha => ha.1.symm⟩
    · exact ⟨False.elim, fun ha => absurd (ha.1 ▸ ha.2) h⟩
  | child fields parent ih =>
    rw [climb, mem_cons]
    split_ifs with h
    · rw [some.injEq]
      refine ⟨fun ha => ⟨.inl ha.symm, ha ▸ h⟩, fun ⟨hm, hk⟩ => ?_⟩
      rcases hm with rfl | hm
      · rfl
      · -- an ancestor of the same height would be below itself
        have hlt : a.height < (child fields parent).height := height_lt_of_mem_ancestors hm
        omega
    · rw [ih]
      refine ⟨fun ha => ⟨.inr ha.1, ha.2⟩, fun ⟨hm, hk⟩ => ⟨?_, hk⟩⟩
      exact hm.resolve_left fun ha => h (ha ▸ hk)

/-- **`Ancestor` finds the node of the given height on the path to the root.** -/
theorem ancestor_eq_some_iff :
    node.ancestor k = some a ↔ a ∈ node :: node.ancestors ∧ a.height = k := by
  rw [ancestor]
  split_ifs with h
  · refine ⟨False.elim, fun ⟨hm, hk⟩ => ?_⟩
    rcases mem_cons.1 hm with rfl | hm
    · omega
    · have hlt := height_lt_of_mem_ancestors hm
      omega
  · rw [Int.toNat_natCast, climb_eq_some_iff]

theorem exists_ancestor (hk : k ≤ node.height) : ∃ a, node.ancestor k = some a := by
  have hm : ∃ a ∈ node :: node.ancestors, a.height = k := by
    induction node with
    | root fields => exact ⟨_, mem_singleton_self _, (Nat.le_zero.1 hk).symm⟩
    | child fields parent ih =>
      rcases hk.eq_or_lt with hk | hk
      · exact ⟨_, mem_cons_self, hk.symm⟩
      · obtain ⟨a, ha, hak⟩ := ih (Nat.lt_succ_iff.1 hk)
        exact ⟨a, mem_cons_of_mem _ ha, hak⟩
  obtain ⟨a, ha, hak⟩ := hm
  exact ⟨a, ancestor_eq_some_iff.2 ⟨ha, hak⟩⟩

theorem calcPastMedianTime_root (fields : BlockFields) :
    (root fields).calcPastMedianTime = fields.timestamp := by
  simp [calcPastMedianTime, ancestors, medianTimeBlocks, BlockNode.fields]

/-! ### Nodes and headers -/

theorem newBlockNode_header (h : node.header.blockHash prim = node.hash) :
    newBlockNode prim node.header node.parent node.votes = node := by
  cases node with
  | root fields =>
    change root _ = root fields
    rw [h]
    rfl
  | child fields parent =>
    change child _ parent = child fields parent
    rw [h]
    rfl

theorem header_newBlockNode {blockHeader : BlockHeader} {prevNode : BlockNode} {votes : UInt16}
    (h : prevNode.hash = blockHeader.prevBlock) :
    (newBlockNode prim blockHeader (some prevNode) votes).header = blockHeader := by
  change .mk _ prevNode.hash _ _ _ _ _ _ = blockHeader
  rw [h]
  rfl

/-- The block of a node: its hash and its header. -/
def block (node : BlockNode) : Hash × BlockHeader := (node.hash, node.header)

theorem fields_eq (hb : m.block = n.block) (hvo : m.votes = n.votes) : m.fields = n.fields := by
  obtain ⟨hha, hh⟩ := Prod.mk.inj hb
  simp only [header, BlockHeader.mk.injEq] at hh
  obtain ⟨hv, -, hm, ht, hs, hk, hsc, hr⟩ := hh
  exact BlockFields.ext hha hv ht hm hs hk hsc hr hvo

/-- Two nodes are the same when their paths to the root have the same blocks, with the same votes at
every height. -/
theorem eq_of_path_eq (hbs : (m :: m.ancestors).map block = (n :: n.ancestors).map block)
    (hv : ∀ a ∈ m :: m.ancestors, ∀ b ∈ n :: n.ancestors, a.hash = b.hash →
      a.height = b.height → a.votes = b.votes) : m = n := by
  induction m generalizing n with
  | root fields =>
    cases n with
    | root fields' =>
      obtain ⟨hbl, -⟩ := List.cons.inj hbs
      exact congrArg root (fields_eq hbl (hv _ mem_cons_self _ mem_cons_self
        (Prod.mk.inj hbl).1 rfl))
    | child fields' parent' => exact absurd (List.cons.inj hbs).2 (cons_ne_nil _ _).symm
  | child fields parent ih =>
    cases n with
    | root fields' => exact absurd (List.cons.inj hbs).2 (cons_ne_nil _ _)
    | child fields' parent' =>
      obtain ⟨hbl, ht⟩ := List.cons.inj hbs
      obtain rfl : parent = parent' := ih ht fun a ha b hb =>
        hv a (mem_cons_of_mem _ ha) b (mem_cons_of_mem _ hb)
      exact congrArg (child · parent) (fields_eq hbl (hv _ mem_cons_self _
        mem_cons_self (Prod.mk.inj hbl).1 rfl))

end BlockNode

/-! ### The index -/

/-- `blockIndex.index`. -/
abbrev BlockIndex := ByHash BlockNode

def BlockIndex.addNode (index : BlockIndex) (node : BlockNode) : BlockIndex :=
  index.insert node.hash node

theorem BlockIndex.addNode_eq_self {index : BlockIndex} {node : BlockNode}
    (h : index.lookup node.hash = some node) : index.addNode node = index := by
  refine ext_lookup fun hash => ?_
  by_cases hh : hash = node.hash
  · rw [hh, BlockIndex.addNode, lookup_insert, h]
  · rw [BlockIndex.addNode, lookup_insert_of_ne _ hh]

/-- An index that is a tree: nodes stand under their hashes, and parents are in it too. -/
structure BlockTree where
  index : BlockIndex
  hash_eq : ∀ {hash node}, index.lookup hash = some node → node.hash = hash
  parent_mem : ∀ {hash node parent}, index.lookup hash = some node →
    node.parent = some parent → index.lookup parent.hash = some parent
  zero_notMem : (0 : Hash) ∉ index

namespace BlockTree

variable (tree : BlockTree)

/-- The node is in the tree. -/
def Mem (node : BlockNode) : Prop := tree.index.lookup node.hash = some node

variable {tree} {node : BlockNode}

theorem lookup_prevBlock (h : tree.Mem node) :
    tree.index.lookup node.header.prevBlock = node.parent := by
  rw [BlockNode.header]
  cases hp : node.parent with
  | none => exact lookup_eq_none.2 tree.zero_notMem
  | some parent => exact tree.parent_mem h hp

theorem mem_parent (h : tree.Mem node) {parent : BlockNode} (hp : node.parent = some parent) :
    tree.Mem parent :=
  tree.parent_mem h hp

/-- The tree without nodes. -/
def empty : BlockTree where
  index := ∅
  hash_eq {_ n} h := absurd h (some_ne_none n).symm
  parent_mem {_ n _} h := absurd h (some_ne_none n).symm
  zero_notMem := notMem_empty

/-- Adding a new node whose parent is in the tree. -/
def add (tree : BlockTree) (node : BlockNode) (hfresh : node.hash ∉ tree.index)
    (hzero : node.hash ≠ 0) (hparent : ∀ {p}, node.parent = some p → tree.Mem p) : BlockTree where
  index := tree.index.addNode node
  hash_eq {hash n} h := by
    obtain ⟨rfl, rfl⟩ | ⟨-, hold⟩ := lookup_insert_cases h
    · rfl
    · exact tree.hash_eq hold
  parent_mem {hash n p} h hp := by
    -- the parent is an old node, so its hash is not the new one
    have hold : tree.index.lookup p.hash = some p := by
      obtain ⟨-, rfl⟩ | ⟨-, hold⟩ := lookup_insert_cases h
      · exact hparent hp
      · exact tree.parent_mem hold hp
    have hne : p.hash ≠ node.hash := fun heq =>
      hfresh (heq ▸ mem_of_lookup_eq_some hold)
    rw [BlockIndex.addNode, lookup_insert_of_ne _ hne, hold]
  zero_notMem h := (mem_insert.1 h).elim (fun h => hzero h.symm) tree.zero_notMem

end BlockTree

end DrcNode
