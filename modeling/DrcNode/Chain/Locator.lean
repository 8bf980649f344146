import DrcNode.Chain.ChainView
import DrcNode.Go

/-!
# Block locators

A node tells a peer where it stands by a list of block hashes: its own block, ten blocks below it,
and then blocks at distances that double down to the genesis block. The peer answers with the blocks
of its main chain that follow the first block of the list that is on the main chain.

## Main results

* `locator_correct`.

Source: `blockLocator` in `blockchain/chainview.go`; `locateInventory` and `locateBlocks` in
`blockchain/chain.go`. The capacity that is reserved for a locator is left out. The distances are
computed in 32 bits, as in the source; a height is a natural number that has 31 bits where the
results need it.
-/

namespace DrcNode

open List Option UInt32 Int Int32 BlockTree Nat

/-! ### Locators -/

namespace ChainView

/-- The loop of `blockLocator`, with `len` entries so far: the nodes whose hashes are listed. -/
def locatorLoop (c : ChainView) : Nat → BlockNode → Int32 → Nat → Option (List BlockNode)
  | 0, _, _, _ => none
  | rounds + 1, node, step, len =>
      if node.height = 0 then some [node]
      else
        let height := Int32.ofNat node.height - step
        let height := if height < 0 then 0 else height
        let prev :=
          if c.contains node then c.nodes[height.toInt.toNat]?
          else some (node.ancestor height.toInt)
        let step := if 10 < len + 1 then step * 2 else step
        match prev with
        | none => none
        | some none => some [node]
        | some (some prev) => (c.locatorLoop rounds prev step (len + 1)).map (node :: ·)

/-- The nodes that `blockLocator` lists. -/
def locatorNodes (c : ChainView) (node : Option BlockNode) : Option (List BlockNode) :=
  match node.or c.tip with
  | none => some []
  | some node => c.locatorLoop (node.height + 1) node 1 0

def blockLocator (c : ChainView) (node : Option BlockNode) : Option (List Hash) :=
  (c.locatorNodes node).map (List.map BlockNode.hash)

end ChainView

/-! ### Locating blocks -/

section Locate

variable (index : BlockIndex) (c : ChainView)

/-- The loop of `locateInventory` over the locator: the first block that is on the main chain, or
the genesis block. -/
def locateStart : List Hash → Option BlockNode
  | [] => c.genesis
  | hash :: locator =>
      match index.lookup hash with
      | none => locateStart locator
      | some node => if c.contains node then some node else locateStart locator

def locateInventory (locator : List Hash) (hashStop : Hash) (maxEntries : UInt32) :
    Except Panic (Option BlockNode × UInt32) :=
  let stopNode := index.lookup hashStop
  if locator.isEmpty then
    match stopNode with
    | none => .ok (none, 0)
    | some stopNode => .ok (some stopNode, 1)
  else
    match c.next (locateStart index c locator) with
    | none => .ok (none, 0)
    | some startNode =>
        match c.tip with
        | none => .error .nilPointer
        | some tip =>
            let heightOf : BlockNode → Int32 := fun node => Int32.ofNat node.height
            let total := ((heightOf tip - heightOf startNode) + 1).toUInt32
            let total :=
              match stopNode with
              | none => total
              | some stopNode =>
                  if c.contains stopNode ∧ heightOf startNode ≤ heightOf stopNode then
                    ((heightOf stopNode - heightOf startNode) + 1).toUInt32
                  else total
            .ok (some startNode, if maxEntries < total then maxEntries else total)

/-- The loop of `locateBlocks`. -/
def locateLoop : Nat → Option BlockNode → Except Panic (List Hash)
  | 0, _ => .ok []
  | _ + 1, none => .error .nilPointer
  | total + 1, some node => do
      let hashes ← locateLoop total (c.next (some node))
      pure (node.hash :: hashes)

def locateBlocks (locator : List Hash) (hashStop : Hash) (maxHashes : UInt32) :
    Except Panic (List Hash) := do
  let found ← locateInventory index c locator hashStop maxHashes
  if found.2 = 0 then pure [] else locateLoop c found.2.toNat found.1

/-- A peer asks for blocks from `node` on, and again from the last block it has received, until it
receives nothing. In round `i` it builds its locator with the view `views i`. -/
def catchUp (views : Nat → ChainView) (limit : UInt32) : Nat → BlockNode → Option (List Hash)
  | 0, _ => none
  | rounds + 1, node => do
      let locator ← (views rounds).blockLocator (some node)
      let hashes ← (locateBlocks index c locator 0 limit).toOption
      match hashes.getLast? with
      | none => pure []
      | some hash =>
          let last ← index.lookup hash
          let rest ← catchUp views limit rounds last
          pure (hashes ++ rest)

end Locate

/-! ### What a locator lists -/

namespace ChainView

variable {c : ChainView} {tip : Option BlockNode} {node : BlockNode}

theorem Shows.lookup_eq_ancestor (h : c.Shows tip) {k : Nat} (hk : k ≤ node.height) :
    (if c.contains node then c.nodes[k]? else some (node.ancestor k)) = some (node.ancestor k) := by
  split_ifs with hc
  · obtain ⟨t, rfl, hm⟩ := h.contains_iff.1 hc
    have hl : c.len = t.height + 1 := h.len_eq
    have hle : node.height ≤ t.height := BlockNode.height_le_of_mem_path hm
    have hn : t.ancestor node.height = some node := BlockNode.ancestor_eq_some_iff.2 ⟨hm, rfl⟩
    rw [getElem?_nodes (by omega), h.getElem?_eq k (by omega), bind_some,
      BlockNode.ancestor_ancestor hn hk]
  · rfl

/-- Nodes that descend along the path of a node to the root: the heights decrease, and the last one
is the root. -/
structure Descends (node : BlockNode) (l : List BlockNode) : Prop where
  head_eq : l.head? = some node
  decreasing : l.Pairwise fun a b => b.height < a.height
  mem_path : ∀ a ∈ l, a ∈ node :: node.ancestors
  last_root : ∃ root, l.getLast? = some root ∧ root.height = 0

theorem descends_root (h : node.height = 0) : Descends node [node] where
  head_eq := rfl
  decreasing := pairwise_singleton _ _
  mem_path _ ha := mem_singleton.1 ha ▸ mem_cons_self
  last_root := ⟨node, rfl, h⟩

theorem Descends.cons {prev : BlockNode} {l : List BlockNode} (h : Descends prev l)
    (hm : prev ∈ node :: node.ancestors) (hlt : prev.height < node.height) :
    Descends node (node :: l) where
  head_eq := rfl
  decreasing := by
    refine pairwise_cons.2 ⟨fun a ha => ?_, h.decreasing⟩
    exact (BlockNode.height_le_of_mem_path (h.mem_path a ha)).trans_lt hlt
  mem_path := by
    refine forall_mem_cons.2 ⟨mem_cons_self, fun a ha => ?_⟩
    exact BlockNode.mem_path_trans (h.mem_path a ha) hm
  last_root := by
    obtain ⟨root, hl, hr⟩ := h.last_root
    refine ⟨root, ?_, hr⟩
    rw [getLast?_cons, hl]
    rfl

theorem nextHeight_eq {h s : Nat} {step : Int32} (hh : h < 2 ^ 31) (hs : s < 2 ^ 31)
    (hst : step.toInt = s) :
    (if Int32.ofNat h - step < 0 then 0 else Int32.ofNat h - step).toInt = (h - s : Nat) := by
  have hsu : (Int32.ofNat h - step).toInt = (h : Int) - s := by
    rw [toInt_sub, toInt_ofNat_of_lt hh, hst]
    exact bmod_eq_of_le (by omega) (by omega)
  have hn : Int32.ofNat h - step < 0 ↔ (h : Int) - s < 0 := by
    rw [lt_iff_toInt_lt, hsu]
    rfl
  split_ifs with hlt
  · have := hn.1 hlt
    rw [Nat.sub_eq_zero_of_le (by omega)]
    rfl
  · have := mt hn.2 hlt
    omega

theorem toInt_mul_two {s : Nat} {step : Int32} (hs : 2 * s < 2 ^ 31) (hst : step.toInt = s) :
    (step * 2).toInt = (2 * s : Nat) := by
  rw [toInt_mul, hst]
  change ((s : Int) * 2).bmod (2 ^ 32) = _
  rw [bmod_eq_of_le (by omega) (by omega)]
  omega

/-- **The loop of `blockLocator`**: while the step has not outgrown what has been descended from
height `top`, the rest of the locator descends to the root. -/
theorem Shows.exists_locatorLoop (h : c.Shows tip) {top : Nat} (hto : top < 2 ^ 31) {rounds : Nat}
    {step : Int32} {s : Nat} (hs : 1 ≤ s) {len : Nat} (hle : node.height ≤ top)
    (hst : node.height ≠ 0 → step.toInt = s ∧ s + node.height ≤ top + 1)
    (hr : node.height < rounds) :
    ∃ l, c.locatorLoop rounds node step len = some l ∧ Descends node l := by
  induction rounds generalizing node step s len with
  | zero => exact absurd hr (not_lt_zero _)
  | succ rounds ih =>
    rw [locatorLoop]
    by_cases hz : node.height = 0
    · rw [if_pos hz]
      exact ⟨[node], rfl, descends_root hz⟩
    obtain ⟨ht, hb⟩ := hst hz
    have hh := nextHeight_eq (h := node.height) (by omega) (by omega) ht
    obtain ⟨prev, hp⟩ := BlockNode.exists_ancestor (sub_le node.height s)
    obtain ⟨hm, hph⟩ := BlockNode.ancestor_eq_some_iff.1 hp
    have hlo := h.lookup_eq_ancestor (sub_le node.height s)
    rw [hp] at hlo
    simp only [if_neg hz, hh, toNat_natCast, hp, hlo]
    -- the step that is used next is at most twice this one
    obtain ⟨s', hs', hst'⟩ : ∃ s' : Nat, 1 ≤ s' ∧ (prev.height ≠ 0 →
        (if 10 < len + 1 then step * 2 else step).toInt = s' ∧ s' + prev.height ≤ top + 1) := by
      split_ifs with hln
      · exact ⟨2 * s, by omega, fun hne => ⟨toInt_mul_two (by omega) ht, by omega⟩⟩
      · exact ⟨s, hs, fun hne => ⟨ht, by omega⟩⟩
    obtain ⟨l, hl, hd⟩ := @ih prev _ s' hs' (len + 1) (by omega) hst' (by omega)
    refine ⟨node :: l, ?_, hd.cons hm (by omega)⟩
    rw [hl]
    rfl

/-- **What a locator lists**: it starts at the node, descends along its ancestors and ends at the
root. -/
theorem Shows.exists_blockLocator (h : c.Shows tip) (hh : node.height < 2 ^ 31) :
    ∃ l, c.blockLocator (some node) = some (l.map BlockNode.hash) ∧ Descends node l := by
  obtain ⟨l, hl, hd⟩ := @Shows.exists_locatorLoop c tip node h node.height hh
    (node.height + 1) 1 1 (le_refl 1) 0 (le_refl node.height)
    (fun _ => ⟨rfl, by omega⟩) (lt_succ_self _)
  refine ⟨l, ?_, hd⟩
  change (c.locatorLoop (node.height + 1) node 1 0).map _ = _
  rw [hl]
  rfl

end ChainView

/-! ### What is located -/

/-- The nodes from the root to a node, by height. -/
def BlockNode.branch (node : BlockNode) : List BlockNode := (node :: node.ancestors).reverse

/-- The height at which the main chain that ends in `tip` has the block with this hash. -/
def mainHeight (tip : BlockNode) (hash : Hash) : Option Nat :=
  tip.branch.findIdx? fun node => node.hash = hash

/-- The height of the first block of the locator that is on the main chain, or zero. -/
def startHeight (tip : BlockNode) (locator : List Hash) : Nat :=
  (locator.findSome? (mainHeight tip)).getD 0

/-- The height of the last block that may be returned. -/
def stopHeight (tip : BlockNode) (start : Nat) (hashStop : Hash) : Nat :=
  ((mainHeight tip hashStop).filter (start < ·)).getD tip.height

section Located

variable {tree : BlockTree} {c : ChainView} {tip node : BlockNode} {locator : List Hash}
  {hash hashStop : Hash} {limit : UInt32} {k : Nat}

theorem BlockNode.getElem?_branch (i : Nat) : tip.branch[i]? = tip.ancestor i :=
  getElem?_reverse_path

theorem BlockNode.length_branch : tip.branch.length = tip.height + 1 := by
  rw [branch, length_reverse, length_cons, length_ancestors]

theorem BlockTree.mem_of_mem_path (h : tree.Mem tip) (hm : node ∈ tip :: tip.ancestors) :
    tree.Mem node := by
  induction tip with
  | root fields => exact mem_singleton.1 hm ▸ h
  | child fields parent ih =>
    rcases mem_cons.1 hm with rfl | hm
    · exact h
    · exact ih (tree.mem_parent h rfl) hm

/-- A hash is that of a block of the main chain when the index leads from it to a node of the main
chain. -/
theorem mainHeight_eq_some_iff (h : tree.Mem tip) : mainHeight tip hash = some k ↔
    ∃ node, tree.index.lookup hash = some node ∧ node ∈ tip :: tip.ancestors ∧ node.height = k := by
  have hf : ∀ {i}, mainHeight tip hash = some i → ∃ node, tree.index.lookup hash = some node ∧
      node ∈ tip :: tip.ancestors ∧ node.height = i := by
    intro i hi
    obtain ⟨hlt, hha, -⟩ := findIdx?_eq_some_iff_getElem.1 hi
    have hg := getElem?_eq_getElem hlt
    rw [BlockNode.getElem?_branch] at hg
    obtain ⟨hm, hh⟩ := BlockNode.ancestor_eq_some_iff.1 hg
    have hl : tree.index.lookup tip.branch[i].hash = some tip.branch[i] :=
      mem_of_mem_path h hm
    rw [of_decide_eq_true hha] at hl
    exact ⟨_, hl, hm, hh⟩
  constructor
  · exact hf
  · rintro ⟨node, hl, hm, rfl⟩
    cases hh : mainHeight tip hash with
    | none =>
      have hn := findIdx?_eq_none_iff.1 hh node (mem_reverse.2 hm)
      exact absurd (tree.hash_eq hl) (of_decide_eq_false hn)
    | some i =>
      obtain ⟨node', hl', -, rfl⟩ := hf hh
      rw [hl] at hl'
      cases hl'
      rfl

theorem mainHeight_le (h : mainHeight tip hash = some k) : k ≤ tip.height := by
  obtain ⟨hlt, -⟩ := findIdx?_eq_some_iff_getElem.1 h
  rw [BlockNode.length_branch] at hlt
  omega

theorem startHeight_le : startHeight tip locator ≤ tip.height := by
  rw [startHeight]
  cases h : locator.findSome? (mainHeight tip) with
  | none => exact zero_le _
  | some k =>
    obtain ⟨hash, -, hh⟩ := exists_of_findSome?_eq_some h
    exact mainHeight_le hh

theorem stopHeight_le {start : Nat} : stopHeight tip start hashStop ≤ tip.height := by
  rw [stopHeight]
  cases h : mainHeight tip hashStop with
  | none => exact le_refl _
  | some k =>
    rw [filter_some]
    split_ifs
    · exact mainHeight_le h
    · exact le_refl _

section Main

variable (htree : tree.Mem tip) (hshows : c.Shows (some tip)) {l : List BlockNode} {rounds : Nat}

include hshows in
theorem contains_eq_true_iff : c.contains node = true ↔ node ∈ tip :: tip.ancestors := by
  rw [hshows.contains_iff]
  simp

include htree hshows in
/-- The height of a hash is found by the two tests of the code: in the index, and in the view. -/
theorem mainHeight_eq (hash : Hash) :
    mainHeight tip hash = ((tree.index.lookup hash).filter c.contains).map BlockNode.height := by
  refine Option.ext fun k => ?_
  rw [mainHeight_eq_some_iff htree, map_eq_some_iff]
  simp [filter_eq_some_iff, contains_eq_true_iff hshows, and_assoc]

include htree hshows in
theorem locateStart_eq (locator : List Hash) :
    locateStart tree.index c locator = tip.ancestor (startHeight tip locator) := by
  induction locator with
  | nil =>
    rw [locateStart, ChainView.genesis, hshows.nodes_eq, elim_some, head?_map, head?_eq_getElem?]
    change ((tip.branch[0]?).map some).join = tip.ancestor ((0 : Nat) : Int)
    rw [BlockNode.getElem?_branch]
    cases tip.ancestor ((0 : Nat) : Int) <;> rfl
  | cons hash locator ih =>
    rw [locateStart, startHeight, findSome?_cons, mainHeight_eq htree hshows]
    cases tree.index.lookup hash with
    | none => exact ih
    | some node =>
      rw [filter_some]
      dsimp only
      split_ifs with hc
      · have hm := (contains_eq_true_iff hshows).1 hc
        exact (BlockNode.ancestor_eq_some_iff.2 ⟨hm, rfl⟩).symm
      · exact ih

include hshows in
theorem next_ancestor (hk : k ≤ tip.height) :
    c.next (tip.ancestor k) = tip.ancestor (k + 1 : Nat) := by
  obtain ⟨node, hn⟩ := BlockNode.exists_ancestor hk
  obtain ⟨hm, rfl⟩ := BlockNode.ancestor_eq_some_iff.1 hn
  rw [hn, ChainView.next, if_pos ((contains_eq_true_iff hshows).2 hm), hshows.nodeByHeight_eq]
  rfl

include hshows in
theorem locateLoop_eq {total : Nat} (h : k + total ≤ tip.height + 1) :
    locateLoop c total (tip.ancestor k) =
      .ok (((tip.branch.drop k).take total).map BlockNode.hash) := by
  induction total generalizing k with
  | zero => rfl
  | succ total ih =>
    obtain ⟨node, hn⟩ := BlockNode.exists_ancestor (show k ≤ tip.height by omega)
    have hd : tip.branch.drop k = node :: tip.branch.drop (k + 1) := by
      have hg := @BlockNode.getElem?_branch tip k
      rw [hn] at hg
      obtain ⟨hlt, rfl⟩ := List.getElem?_eq_some_iff.1 hg
      exact drop_eq_getElem_cons hlt
    have hr := @ih (k + 1) (by omega)
    rw [← next_ancestor hshows (by omega), hn] at hr
    rw [hn, locateLoop, hr, hd]
    rfl

theorem toNat_blocks {a b : Nat} (ha : a < 2 ^ 31) (hb : 1 ≤ b) (hab : b ≤ a) :
    ((Int32.ofNat a - Int32.ofNat b) + 1).toUInt32.toNat = a - b + 1 := by
  have hs : (Int32.ofNat a - Int32.ofNat b).toInt = (a : Int) - b := by
    rw [toInt_sub, toInt_ofNat_of_lt ha, toInt_ofNat_of_lt (by omega)]
    exact bmod_eq_of_le (by omega) (by omega)
  have had : ((Int32.ofNat a - Int32.ofNat b) + 1).toInt = ((a - b + 1 : Nat) : Int) := by
    rw [toInt_add, hs]
    change ((a : Int) - b + 1).bmod (2 ^ 32) = _
    rw [bmod_eq_of_le (by omega) (by omega)]
    omega
  have heq : (Int32.ofNat a - Int32.ofNat b) + 1 = Int32.ofNat (a - b + 1) := by
    rw [← toInt_inj, had, toInt_ofNat_of_lt (by omega)]
  rw [heq]
  change (UInt32.ofNat (a - b + 1)).toNat = a - b + 1
  rw [toNat_ofNat', mod_eq_of_lt (by omega)]

include htree hshows in
theorem toNat_total {start : Nat} (hti : tip.height < 2 ^ 31) (hlt : start < tip.height)
    {startNode : BlockNode} (hh : startNode.height = start + 1) :
    (match tree.index.lookup hashStop with
      | none => ((Int32.ofNat tip.height - Int32.ofNat startNode.height) + 1).toUInt32
      | some stopNode =>
          if c.contains stopNode = true ∧
              Int32.ofNat startNode.height ≤ Int32.ofNat stopNode.height then
            ((Int32.ofNat stopNode.height - Int32.ofNat startNode.height) + 1).toUInt32
          else ((Int32.ofNat tip.height - Int32.ofNat startNode.height) + 1).toUInt32).toNat =
      stopHeight tip start hashStop - start := by
  have ht : ((Int32.ofNat tip.height - Int32.ofNat startNode.height) + 1).toUInt32.toNat =
      tip.height - start := by
    rw [toNat_blocks hti (by omega) (by omega)]
    omega
  rw [stopHeight, mainHeight_eq htree hshows]
  cases tree.index.lookup hashStop with
  | none => exact ht
  | some stopNode =>
    rw [filter_some]
    dsimp only
    by_cases hc : c.contains stopNode = true
    · have hs := BlockNode.height_le_of_mem_path ((contains_eq_true_iff hshows).1 hc)
      have hle : Int32.ofNat startNode.height ≤ Int32.ofNat stopNode.height ↔
          start < stopNode.height := by
        rw [le_iff_toInt_le, toInt_ofNat_of_lt (by omega),
          toInt_ofNat_of_lt (by omega)]
        omega
      rw [if_pos hc, map_some, filter_some]
      by_cases ha : start < stopNode.height
      · rw [if_pos ⟨hc, hle.2 ha⟩, if_pos (decide_eq_true ha),
          toNat_blocks (by omega) (by omega) (by omega), getD_some]
        omega
      · rw [if_neg fun h => ha (hle.1 h.2), if_neg (by simpa using ha)]
        exact ht
    · rw [if_neg fun h => hc h.1, if_neg hc]
      exact ht

include htree hshows in
theorem exists_locateInventory_eq (hti : tip.height < 2 ^ 31) (hl : locator ≠ []) :
    ∃ total : UInt32, locateInventory tree.index c locator hashStop limit =
        .ok (tip.ancestor (startHeight tip locator + 1 : Nat), total) ∧
      total.toNat = min (stopHeight tip (startHeight tip locator) hashStop -
        startHeight tip locator) limit.toNat := by
  have hs := locateStart_eq htree hshows locator
  have hle := @startHeight_le tip locator
  generalize startHeight tip locator = start at hs hle ⊢
  have he : locator.isEmpty = false := by
    rw [isEmpty_eq_false_iff]
    exact hl
  rw [locateInventory, hs, next_ancestor hshows hle, he, hshows.tip_eq]
  simp only [Bool.false_eq_true, if_false]
  rcases lt_or_ge start tip.height with hlt | hge
  · obtain ⟨startNode, hn⟩ := BlockNode.exists_ancestor hlt
    have ht := @toNat_total tree c tip hashStop htree hshows start hti hlt startNode
      (BlockNode.ancestor_eq_some_iff.1 hn).2
    rw [hn]
    refine ⟨_, rfl, ?_⟩
    rw [← ht]
    split_ifs with hm
    · exact (min_eq_right (lt_iff_toNat_lt.1 hm).le).symm
    · exact (Nat.min_eq_left (le_iff_toNat_le.1 (UInt32.not_lt.1 hm))).symm
  · rw [BlockNode.ancestor_of_lt (by omega)]
    have hst := @stopHeight_le tip hashStop start
    exact ⟨0, rfl, by rw [Nat.sub_eq_zero_of_le (by omega), Nat.zero_min]; rfl⟩

include htree hshows in
/-- **The blocks that are located**: those of the main chain after the start. -/
theorem locateBlocks_eq (hti : tip.height < 2 ^ 31) (hl : locator ≠ []) :
    locateBlocks tree.index c locator hashStop limit =
      .ok (((tip.branch.drop (startHeight tip locator + 1)).take
        (min (stopHeight tip (startHeight tip locator) hashStop - startHeight tip locator)
          limit.toNat)).map BlockNode.hash) := by
  obtain ⟨total, hf, ht⟩ := @exists_locateInventory_eq tree c tip locator hashStop limit
    htree hshows hti hl
  have hs := @stopHeight_le tip hashStop (startHeight tip locator)
  rw [locateBlocks, hf, ← ht]
  change (if total = 0 then _ else locateLoop c total.toNat _) = _
  split_ifs with hz
  · subst hz
    rfl
  · refine locateLoop_eq hshows ?_
    have hp : total.toNat ≠ 0 := fun h => hz (UInt32.toNat_inj.1 h)
    omega

/-! ### A peer that catches up -/

include htree in
theorem stopHeight_zero {start : Nat} : stopHeight tip start 0 = tip.height := by
  have hno : mainHeight tip 0 = none := by
    refine eq_none_iff_forall_ne_some.2 fun k hk => ?_
    obtain ⟨node, hn, -⟩ := (mainHeight_eq_some_iff htree).1 hk
    exact tree.zero_notMem (Finmap.mem_of_lookup_eq_some hn)
  rw [stopHeight, hno]
  rfl

include htree in
theorem mainHeight_hash (hm : node ∈ tip :: tip.ancestors) :
    mainHeight tip node.hash = some node.height :=
  (mainHeight_eq_some_iff htree).2 ⟨node, mem_of_mem_path htree hm, hm, rfl⟩

include htree in
theorem startHeight_of_mem (hl : ChainView.Descends node l) (hm : node ∈ tip :: tip.ancestors) :
    startHeight tip (l.map BlockNode.hash) = node.height := by
  obtain ⟨l, rfl⟩ : ∃ rest, l = node :: rest := by
    cases l with
    | nil => cases hl.head_eq
    | cons a l =>
      cases hl.head_eq
      exact ⟨l, rfl⟩
  rw [startHeight, map_cons, findSome?_cons, mainHeight_hash htree hm]
  rfl

include htree in
/-- A locator built from any block of the tree starts at a common ancestor, or at the genesis
block. -/
theorem startHeight_le_fork (hl : ChainView.Descends node l) (hn : tree.Mem node)
    {fork : BlockNode} (hf : ChainView.DeepestCommon node tip fork) :
    startHeight tip (l.map BlockNode.hash) ≤ fork.height := by
  rw [startHeight]
  cases h : (l.map BlockNode.hash).findSome? (mainHeight tip) with
  | none => exact zero_le _
  | some k =>
    obtain ⟨hash, hh, hk⟩ := exists_of_findSome?_eq_some h
    obtain ⟨a, ha, rfl⟩ := List.mem_map.1 hh
    obtain ⟨b, hb, hbm, rfl⟩ := (mainHeight_eq_some_iff htree).1 hk
    have hp := hl.mem_path a ha
    have hlo : tree.index.lookup a.hash = some a := mem_of_mem_path hn hp
    rw [hlo] at hb
    cases hb
    exact hf.height_le a hp hbm

variable {views : Nat → ChainView} {tips : Nat → Option BlockNode}

include htree hshows in
theorem catchUp_succ (ht : tip.height < 2 ^ 31) (hl : ChainView.Descends node l)
    (hlo : (views rounds).blockLocator (some node) = some (l.map BlockNode.hash))
    (hk : startHeight tip (l.map BlockNode.hash) = k) :
    catchUp tree.index c views limit (rounds + 1) node =
      match ((tip.branch.drop (k + 1)).take limit.toNat).getLast? with
      | none => some []
      | some last => (catchUp tree.index c views limit rounds last).map
          (((tip.branch.drop (k + 1)).take limit.toNat).map BlockNode.hash ++ ·) := by
  have hne : l.map BlockNode.hash ≠ [] := by
    rw [Ne, map_eq_nil_iff]
    rintro rfl
    cases hl.head_eq
  have ha : (tip.branch.drop (k + 1)).take (min (tip.height - k) limit.toNat) =
      (tip.branch.drop (k + 1)).take limit.toNat := by
    rw [← take_take]
    refine take_of_length_le ?_
    rw [length_take, length_drop, BlockNode.length_branch]
    omega
  rw [catchUp, hlo, bind_eq_bind, bind_some,
    locateBlocks_eq htree hshows ht hne, hk, stopHeight_zero htree, ha]
  simp only [Except.toOption, bind_eq_bind, bind_some, getLast?_map]
  cases hla : ((tip.branch.drop (k + 1)).take limit.toNat).getLast? with
  | none => rfl
  | some last =>
    have hm : last ∈ tip :: tip.ancestors :=
      mem_reverse.1 (mem_of_mem_drop (mem_of_mem_take (mem_of_getLast? hla)))
    have hlp : tree.index.lookup last.hash = some last := mem_of_mem_path htree hm
    simp only [map_some, hlp, bind_some]
    cases catchUp tree.index c views limit rounds last <;> rfl

include htree hshows in
/-- The rest of the main chain is obtained when it is from every block above a height. -/
theorem catchUp_of_main (hti : tip.height < 2 ^ 31) (hli : 0 < limit)
    (hl : ChainView.Descends node l)
    (hlo : (views rounds).blockLocator (some node) = some (l.map BlockNode.hash))
    (hk : startHeight tip (l.map BlockNode.hash) = k)
    (hm : ∀ last ∈ tip :: tip.ancestors, k < last.height →
      catchUp tree.index c views limit rounds last =
        some ((tip.branch.drop (last.height + 1)).map BlockNode.hash)) :
    catchUp tree.index c views limit (rounds + 1) node =
      some ((tip.branch.drop (k + 1)).map BlockNode.hash) := by
  have hp : 0 < limit.toNat := lt_iff_toNat_lt.1 hli
  rw [catchUp_succ htree hshows hti hl hlo hk]
  cases hla : ((tip.branch.drop (k + 1)).take limit.toNat).getLast? with
  | none =>
    rw [getLast?_eq_none_iff, take_eq_nil_iff, or_iff_right (by omega)] at hla
    rw [hla]
    rfl
  | some last =>
    -- the last block received stands where the part that is taken ends
    obtain ⟨n, hn⟩ : ∃ n, n = min limit.toNat (tip.branch.drop (k + 1)).length := ⟨_, rfl⟩
    have ht : (tip.branch.drop (k + 1)).take limit.toNat = (tip.branch.drop (k + 1)).take n := by
      rw [hn, ← take_take, take_length]
    have hne : n ≠ 0 := by
      rintro rfl
      rw [ht] at hla
      cases hla
    have hln : ((tip.branch.drop (k + 1)).take n).length = n := by
      rw [length_take]
      omega
    rw [ht, getLast?_eq_getElem?, hln, getElem?_take_of_lt (by omega),
      getElem?_drop, BlockNode.getElem?_branch] at hla
    obtain ⟨hme, hh⟩ := BlockNode.ancestor_eq_some_iff.1 hla
    have hr : tip.branch.drop (last.height + 1) = (tip.branch.drop (k + 1)).drop n := by
      rw [drop_drop]
      congr 1
      omega
    dsimp only
    rw [hm last hme (by omega), map_some, ht, ← map_append, hr, take_append_drop]

include htree hshows in
/-- **From a block of the main chain** a peer obtains all blocks after it. -/
theorem catchUp_of_mem (hv : ∀ i, (views i).Shows (tips i)) (ht : tip.height < 2 ^ 31)
    (hli : 0 < limit) (hm : node ∈ tip :: tip.ancestors) (hr : tip.height - node.height < rounds) :
    catchUp tree.index c views limit rounds node =
      some ((tip.branch.drop (node.height + 1)).map BlockNode.hash) := by
  induction rounds generalizing node with
  | zero => exact absurd hr (not_lt_zero _)
  | succ rounds ih =>
    have hle := BlockNode.height_le_of_mem_path hm
    obtain ⟨l, hlo, hl⟩ := (hv rounds).exists_blockLocator (show node.height < 2 ^ 31 by omega)
    refine catchUp_of_main htree hshows ht hli hl hlo (startHeight_of_mem htree hl hm) ?_
    intro last hla hlt
    have hll := BlockNode.height_le_of_mem_path hla
    exact ih hla (by omega)

include htree hshows in
/-- **From any block of the tree** a peer obtains the blocks of the main chain from some height on
that is not above the fork point. -/
theorem exists_catchUp_eq (hv : ∀ i, (views i).Shows (tips i)) (ht : tip.height < 2 ^ 31)
    (hli : 0 < limit) (hn : tree.Mem node) (hh : node.height < 2 ^ 31) {fork : BlockNode}
    (hf : ChainView.DeepestCommon node tip fork) (hr : tip.height + 1 < rounds) :
    ∃ k ≤ fork.height, catchUp tree.index c views limit rounds node =
      some ((tip.branch.drop (k + 1)).map BlockNode.hash) := by
  obtain ⟨rounds, rfl⟩ : ∃ r, rounds = r + 1 := ⟨rounds - 1, by omega⟩
  obtain ⟨l, hlo, hl⟩ := (hv rounds).exists_blockLocator hh
  refine ⟨_, startHeight_le_fork htree hl hn hf,
    catchUp_of_main htree hshows ht hli hl hlo rfl fun last hla hlt => ?_⟩
  exact catchUp_of_mem htree hshows hv ht hli hla (by omega)

end Main

/-- **Locators** descend from their node to the root. The blocks located are those of the main chain
after the first block of the locator that is on it. A peer that asks again and again obtains all
blocks of the main chain from a height on that is not above the fork point. -/
theorem locator_correct :
    (∀ (c : ChainView) (tip : Option BlockNode), c.Shows tip → ∀ node : BlockNode,
      node.height < 2 ^ 31 → ∃ l, c.blockLocator (some node) = some (l.map BlockNode.hash) ∧
        ChainView.Descends node l) ∧
    ∀ (tree : BlockTree) (c : ChainView) (tip : BlockNode), tree.Mem tip → c.Shows (some tip) →
      tip.height < 2 ^ 31 →
      (∀ (locator : List Hash) (hashStop : Hash) (limit : UInt32), locator ≠ [] →
        locateBlocks tree.index c locator hashStop limit =
          .ok (((tip.branch.drop (startHeight tip locator + 1)).take
            (min (stopHeight tip (startHeight tip locator) hashStop - startHeight tip locator)
              limit.toNat)).map BlockNode.hash)) ∧
      ∀ (views : Nat → ChainView) (tips : Nat → Option BlockNode) (limit : UInt32)
        (node fork : BlockNode), (∀ i, (views i).Shows (tips i)) → 0 < limit → tree.Mem node →
        node.height < 2 ^ 31 → ChainView.DeepestCommon node tip fork →
        ∀ rounds > tip.height + 1, ∃ k ≤ fork.height, catchUp tree.index c views limit rounds node =
            some ((tip.branch.drop (k + 1)).map BlockNode.hash) := by
  refine ⟨fun c tip h node hh => h.exists_blockLocator hh, ?_⟩
  intro tree c tip htree hshows ht
  refine ⟨fun locator hashStop limit hne => locateBlocks_eq htree hshows ht hne, ?_⟩
  intro views tips limit node fork hv hl hn hh hf rounds hr
  exact exists_catchUp_eq htree hshows hv ht hl hn hh hf hr

end Located

end DrcNode
