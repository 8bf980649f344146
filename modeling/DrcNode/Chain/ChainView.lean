import DrcNode.Chain.BlockIndex

/-!
# Chain views

A chain view keeps the branch of the block tree that ends in its tip in an array, by height, so that
a node of the branch is found without walking. To set another tip the array is resized, and the new
branch is written from its tip downwards until a node is met that is already in its place. The
backing array is kept when the view shrinks, so that it holds nodes of earlier branches behind the
visible part.

## Main results

* `setTip_represents`.

Source: `blockchain/chainview.go`. The mutex is left out: the exported functions hold it while they
call the ones here. Two pointers to nodes are equal when the nodes are, since a tree has one node
for a block. Heights are natural numbers; `needed + approxNodesPerWeek` wraps in 32 bits from a tip
of height `2 ^ 31 - 1009` on.
-/

namespace DrcNode

open List Option BlockNode Nat

def approxNodesPerWeek : Nat := 6 * 24 * 7

/-- `chainView`: a slice of nodes, with the whole of its backing array. -/
structure ChainView where
  array : List (Option BlockNode)
  len : Nat
  len_le : len ≤ array.length

/-! ### Ancestors at a height -/

namespace BlockNode

variable {node a : BlockNode} {height : Int} {b parent : BlockNode}

theorem ancestor_height (node : BlockNode) : node.ancestor node.height = some node :=
  ancestor_eq_some_iff.2 ⟨mem_cons_self, rfl⟩

theorem ancestor_of_lt (h : (node.height : Int) < height) : node.ancestor height = none := by
  rw [ancestor, if_pos (.inr h)]

theorem mem_path_trans {a : BlockNode} (hab : a ∈ b :: b.ancestors)
    (hb : b ∈ node :: node.ancestors) : a ∈ node :: node.ancestors := by
  induction node with
  | root fields =>
    obtain rfl := mem_singleton.1 hb
    exact hab
  | child fields parent ih =>
    rcases mem_cons.1 hb with rfl | hb
    · exact hab
    · exact mem_cons_of_mem _ (ih hb)

theorem mem_path_of_parent (h : node.parent = some parent) : parent ∈ node :: node.ancestors := by
  cases node with
  | root fields => cases h
  | child fields p =>
    cases h
    exact mem_cons_of_mem _ mem_cons_self

theorem height_le_of_mem_path (h : a ∈ node :: node.ancestors) : a.height ≤ node.height := by
  rcases mem_cons.1 h with rfl | h
  · exact le_refl _
  · exact (height_lt_of_mem_ancestors h).le

theorem eq_of_mem_path {a : BlockNode} (ha : a ∈ node :: node.ancestors)
    (hb : b ∈ node :: node.ancestors) (h : a.height = b.height) : a = b :=
  some.inj ((ancestor_eq_some_iff.2 ⟨ha, h⟩).symm.trans (ancestor_eq_some_iff.2 ⟨hb, rfl⟩))

theorem ancestor_ancestor {i j : Nat} (h : node.ancestor i = some a) (hj : j ≤ i) :
    node.ancestor j = a.ancestor j := by
  obtain ⟨hm, hh⟩ := ancestor_eq_some_iff.1 h
  obtain ⟨b, hb⟩ := exists_ancestor (hj.trans_eq hh.symm)
  obtain ⟨hbm, hbh⟩ := ancestor_eq_some_iff.1 hb
  rw [hb]
  exact ancestor_eq_some_iff.2 ⟨mem_path_trans hbm hm, hbh⟩

theorem ancestor_child {fields : BlockFields} {j : Nat} (hj : j ≤ parent.height) :
    (child fields parent).ancestor j = parent.ancestor j :=
  ancestor_ancestor (i := parent.height)
    (ancestor_eq_some_iff.2 ⟨mem_cons_of_mem _ mem_cons_self, rfl⟩) hj

theorem getElem?_reverse_path {i : Nat} :
    (node :: node.ancestors).reverse[i]? = node.ancestor i := by
  induction node with
  | root fields =>
    cases i with
    | zero => exact (ancestor_height (root fields)).symm
    | succ i => exact (ancestor_of_lt (show (0 : Int) < ((i + 1 : Nat) : Int) by omega)).symm
  | child fields parent ih =>
    have hl : (parent :: parent.ancestors).reverse.length = parent.height + 1 := by
      rw [length_reverse, length_cons, length_ancestors]
    rw [ancestors, reverse_cons]
    rcases Nat.lt_trichotomy i (parent.height + 1) with hi | rfl | hi
    · rw [getElem?_append_left (by omega), ih, ancestor_child (by omega)]
    · rw [getElem?_append_right (by omega), hl, Nat.sub_self]
      exact (ancestor_height (child fields parent)).symm
    · rw [getElem?_eq_none (by rw [length_append, length_singleton]; omega)]
      exact (ancestor_of_lt (show ((child fields parent).height : Int) < i by
        rw [height]
        omega)).symm

end BlockNode

namespace ChainView

/-- The zero value, a nil slice. -/
def empty : ChainView := ⟨[], 0, Nat.le_refl 0⟩

/-- The visible part of the slice. -/
def nodes (c : ChainView) : List (Option BlockNode) := c.array.take c.len

/-- The first part of `setTip`: make room for `needed` nodes. -/
def resize (c : ChainView) (needed : Nat) : ChainView :=
  if c.array.length < needed then
    { array := c.nodes ++ (List.replicate (needed - c.len) none ++
        List.replicate approxNodesPerWeek none)
      len := needed
      len_le := by
        have := c.len_le
        simp only [nodes, length_append, length_take, length_replicate]
        omega }
  else
    { array := c.nodes ++ (List.replicate (needed - c.len) none ++ c.array.drop (max c.len needed))
      len := needed
      len_le := by
        have := c.len_le
        simp only [nodes, length_append, length_take, length_replicate,
          length_drop]
        omega }

/-- The second part of `setTip`: write the branch downwards until a node is in its place. -/
def fill (array : List (Option BlockNode)) : BlockNode → List (Option BlockNode)
  | .root fields =>
      if array[(root fields).height]? = some (some (.root fields)) then array
      else array.set (root fields).height (some (.root fields))
  | .child fields parent =>
      if array[(child fields parent).height]? = some (some (.child fields parent))
      then array
      else fill (array.set (child fields parent).height (some (.child fields parent)))
        parent

variable {array : List (Option BlockNode)}

@[simp] theorem length_fill {node : BlockNode} : (fill array node).length = array.length := by
  induction node generalizing array with
  | root fields =>
    rw [fill]
    split_ifs
    · rfl
    · exact length_set
  | child fields parent ih =>
    rw [fill]
    split_ifs
    · rfl
    · rw [ih, length_set]

def setTip (c : ChainView) : Option BlockNode → ChainView
  | none => { c with len := 0, len_le := Nat.zero_le _ }
  | some node =>
      let resized := c.resize (node.height + 1)
      { array := fill resized.array node
        len := resized.len
        len_le := resized.len_le.trans_eq length_fill.symm }

def genesis (c : ChainView) : Option BlockNode := c.nodes.head?.join

def tip (c : ChainView) : Option BlockNode := c.nodes.getLast?.join

def height (c : ChainView) : Int := c.len - 1

def nodeByHeight (c : ChainView) (height : Int) : Option BlockNode :=
  if height < 0 ∨ c.len ≤ height then none else (c.nodes[height.toNat]?).join

def contains (c : ChainView) (node : BlockNode) : Bool := c.nodeByHeight node.height == some node

def next (c : ChainView) : Option BlockNode → Option BlockNode
  | none => none
  | some node => if c.contains node then c.nodeByHeight (node.height + 1) else none

/-- The loop of `findFork`. -/
def walkToFork (c : ChainView) : BlockNode → Option BlockNode
  | .root fields => if c.contains (.root fields) then some (.root fields) else none
  | .child fields parent =>
      if c.contains (.child fields parent) then some (.child fields parent) else c.walkToFork parent

def findFork (c : ChainView) : Option BlockNode → Option BlockNode
  | none => none
  | some node =>
      (if c.height < node.height then node.ancestor c.height else some node).bind c.walkToFork

/-! ### Setting the tip -/

variable {c : ChainView} {tip : Option BlockNode} {node a : BlockNode} {needed : Nat}

/-- The branch that ends in `tip` is visible in the view. -/
structure Shows (c : ChainView) (tip : Option BlockNode) : Prop where
  len_eq : c.len = tip.elim 0 fun node => node.height + 1
  getElem?_eq : ∀ i < c.len, c.array[i]? = some (tip.bind fun node => node.ancestor i)

theorem shows_empty : Shows empty none := ⟨rfl, fun i h => by cases h⟩

theorem getElem?_nodes {i : Nat} (h : i < c.len) : c.nodes[i]? = c.array[i]? :=
  getElem?_take_of_lt h

theorem length_nodes : c.nodes.length = c.len := by
  rw [nodes, length_take, min_eq_left c.len_le]

/-- After the array has been resized, what was visible is still there, and the rest is clear. -/
theorem getElem?_resize {i : Nat} (h : i < needed) :
    (c.resize needed).array[i]? = if i < c.len then c.array[i]? else some none := by
  have hp : ∀ rest : List (Option BlockNode),
      (c.nodes ++ (List.replicate (needed - c.len) none ++ rest))[i]? =
        if i < c.len then c.array[i]? else some none := by
    intro rest
    split_ifs with hi
    · rw [getElem?_append_left (by rwa [length_nodes]), getElem?_nodes hi]
    · rw [getElem?_append_right (by rw [length_nodes]; omega), length_nodes,
        getElem?_append_left (by rw [length_replicate]; omega), getElem?_replicate,
        if_pos (by omega)]
  rw [resize]
  by_cases hc : c.array.length < needed
  · rw [if_pos hc]
    exact hp _
  · rw [if_neg hc]
    exact hp _

theorem len_resize : (c.resize needed).len = needed := by
  rw [resize]
  split_ifs <;> rfl

/-- Up to `h`, below a node stand its ancestors. -/
def DownClosed (array : List (Option BlockNode)) (h : Nat) : Prop :=
  ∀ i ≤ h, ∀ a, array[i]? = some (some a) → ∀ j ≤ i, array[j]? = some (a.ancestor j)

theorem DownClosed.set {h k : Nat} {entry : Option BlockNode} (hd : DownClosed array k)
    (hk : k < h) : DownClosed (array.set h entry) k := by
  intro i hi a ha j hj
  rw [getElem?_set_ne (by omega)] at ha ⊢
  exact hd i hi a ha j hj

/-- **Writing a branch** leaves its nodes at their heights and changes nothing above it. -/
theorem getElem?_fill (hl : node.height < array.length) (hd : DownClosed array node.height) :
    (∀ j ≤ node.height, (fill array node)[j]? = some (node.ancestor j)) ∧
      ∀ j > node.height, (fill array node)[j]? = array[j]? := by
  induction node generalizing array with
  | root fields =>
    rw [fill]
    split_ifs with hp
    · exact ⟨hd _ (le_refl _) _ hp, fun _ _ => rfl⟩
    · refine ⟨fun j hj => ?_, fun j hj => getElem?_set_ne (by omega)⟩
      obtain rfl : j = (root fields).height := le_zero.1 hj
      rw [getElem?_set_self hl, ancestor_height]
  | child fields parent ih =>
    have hlt : parent.height < (child fields parent).height := lt_succ_self _
    rw [fill]
    split_ifs with hp
    · exact ⟨hd _ (le_refl _) _ hp, fun _ _ => rfl⟩
    have hr := @ih (array.set (child fields parent).height
      (some (.child fields parent))) (by rw [length_set]; omega)
      (DownClosed.set (fun i hi => hd i (by omega)) hlt)
    refine ⟨fun j hj => ?_, fun j hj => ?_⟩
    · rcases lt_or_ge parent.height j with hj' | hj'
      · -- the node itself, which is not touched again
        obtain rfl : j = (BlockNode.child fields parent).height := by
          rw [BlockNode.height] at hj ⊢
          omega
        rw [hr.2 _ hlt, getElem?_set_self hl, ancestor_height]
      · rw [hr.1 j hj', ancestor_child hj']
    · rw [hr.2 j (by omega), getElem?_set_ne (by omega)]

/-- A branch that is visible is closed under ancestors, also after the view has been resized. -/
theorem Shows.downClosed_resize (h : c.Shows tip) :
    DownClosed (c.resize (needed + 1)).array needed := by
  intro i hi a ha j hj
  rw [getElem?_resize (by omega)] at ha ⊢
  split_ifs at ha with hv
  · rw [h.getElem?_eq i hv, some.injEq, bind_eq_some_iff] at ha
    obtain ⟨node, rfl, ha⟩ := ha
    rw [if_pos (by omega), h.getElem?_eq j (by omega), bind_some, ancestor_ancestor ha hj]
  · cases ha

/-- **Setting a tip**, whatever the view has shown before. -/
theorem shows_setTip (h : c.Shows tip) (newTip : Option BlockNode) :
    (c.setTip newTip).Shows newTip := by
  cases newTip with
  | none => exact ⟨rfl, fun i hi => by cases hi⟩
  | some node =>
    have hr : node.height < (c.resize (node.height + 1)).array.length := by
      have := (c.resize (node.height + 1)).len_le
      rw [len_resize] at this
      omega
    refine ⟨len_resize, fun i hi => ?_⟩
    change i < (c.resize (node.height + 1)).len at hi
    rw [len_resize] at hi
    exact (getElem?_fill hr h.downClosed_resize).1 i (by omega)

/-- **After any calls of `SetTip`** the view shows the last tip. -/
theorem shows_foldl_setTip (h : c.Shows tip) (tips : List (Option BlockNode)) :
    (tips.foldl setTip c).Shows (tips.getLast?.getD tip) := by
  induction tips generalizing c tip with
  | nil => exact h
  | cons newTip tips ih =>
    rw [getLast?_cons]
    exact ih (shows_setTip h newTip)

/-! ### Reading the view -/

namespace Shows

section

variable (h : c.Shows tip)
include h

theorem height_eq : c.height = tip.elim (-1) fun node => (node.height : Int) := by
  rw [height, h.len_eq]
  cases tip with
  | none => rfl
  | some node => exact Int.add_sub_cancel (node.height : Int) 1

theorem nodeByHeight_eq (height : Int) :
    c.nodeByHeight height = tip.bind fun node => node.ancestor height := by
  rw [nodeByHeight]
  split_ifs with hr
  · cases tip with
    | none => rfl
    | some node =>
      rw [h.len_eq, elim_some] at hr
      rcases hr with hn | hlt
      · exact (if_pos (.inl hn)).symm
      · exact (ancestor_of_lt (by omega)).symm
  · obtain ⟨i, rfl⟩ := Int.eq_ofNat_of_zero_le (by omega : 0 ≤ height)
    have hi : i < c.len := by omega
    rw [Int.toNat_natCast, getElem?_nodes hi, h.getElem?_eq i hi]
    rfl

theorem contains_iff : c.contains node = true ↔ ∃ t, tip = some t ∧ node ∈ t :: t.ancestors := by
  rw [contains, beq_iff_eq, h.nodeByHeight_eq, bind_eq_some_iff]
  simp [ancestor_eq_some_iff]

theorem next_eq_some_iff : c.next (some node) = some a ↔
    ∃ t, tip = some t ∧ a ∈ t :: t.ancestors ∧ a.parent = some node := by
  rw [next, ← Int.natCast_add_one]
  constructor
  · intro hn
    split_ifs at hn with hc
    obtain ⟨t, rfl, hm⟩ := h.contains_iff.1 hc
    rw [h.nodeByHeight_eq] at hn
    obtain ⟨ha, hah⟩ := ancestor_eq_some_iff.1 hn
    refine ⟨t, rfl, ha, ?_⟩
    obtain ⟨p, hp⟩ : ∃ p, a.parent = some p := by
      refine ne_none_iff_exists'.1 fun hno => ?_
      rw [height_eq_zero_iff.2 hno] at hah
      omega
    have hph := height_of_parent hp
    have hpm : p ∈ t :: t.ancestors := mem_path_trans (mem_path_of_parent hp) ha
    rw [hp, ← eq_of_mem_path hpm hm (by omega)]
  · rintro ⟨t, rfl, ha, hpa⟩
    have hm : node ∈ t :: t.ancestors :=
      mem_path_trans (mem_path_of_parent hpa) ha
    rw [if_pos (h.contains_iff.2 ⟨t, rfl, hm⟩), h.nodeByHeight_eq]
    exact ancestor_eq_some_iff.2 ⟨ha, height_of_parent hpa⟩

end

end Shows

/-! ### The fork point -/

theorem walkToFork_eq_find? : c.walkToFork node = (node :: node.ancestors).find? c.contains := by
  induction node with
  | root fields =>
    rw [walkToFork, find?_cons]
    cases c.contains (.root fields) <;> rfl
  | child fields parent ih =>
    rw [walkToFork, find?_cons, ih]
    cases c.contains (.child fields parent) <;> rfl

theorem walkToFork_eq_none_iff : c.walkToFork node = none ↔
    ∀ b ∈ node :: node.ancestors, c.contains b = false := by
  rw [walkToFork_eq_find?]
  simp

/-- The loop of `findFork` finds the highest node on the path that the view contains. -/
theorem walkToFork_eq_some_iff : c.walkToFork node = some a ↔
    a ∈ node :: node.ancestors ∧ c.contains a = true ∧
      ∀ b ∈ node :: node.ancestors, c.contains b = true → b.height ≤ a.height := by
  have hh : ∀ {a}, c.walkToFork node = some a →
      ∀ b ∈ node :: node.ancestors, c.contains b = true → b.height ≤ a.height := by
    intro a ha b hb hc
    induction node with
    | root fields =>
      rw [walkToFork] at ha
      split_ifs at ha
      cases ha
      exact height_le_of_mem_path hb
    | child fields parent ih =>
      rw [walkToFork] at ha
      split_ifs at ha with hch
      · cases ha
        exact height_le_of_mem_path hb
      · rcases mem_cons.1 hb with rfl | hb
        · exact absurd hc hch
        · exact ih ha hb
  constructor
  · intro ha
    have hf := walkToFork_eq_find?.symm.trans ha
    exact ⟨mem_of_find?_eq_some hf, find?_some hf, hh ha⟩
  · rintro ⟨hm, hc, hle⟩
    cases hfo : c.walkToFork node with
    | none => exact absurd hc (by simp [walkToFork_eq_none_iff.1 hfo a hm])
    | some a' =>
      have hf := walkToFork_eq_find?.symm.trans hfo
      have hm' := mem_of_find?_eq_some hf
      rw [eq_of_mem_path hm hm' (le_antisymm (hh hfo a hm hc)
        (hle a' hm' (find?_some hf)))]

/-- `a` is the deepest common ancestor of `node` and `t`, which count as their own ancestors. -/
structure DeepestCommon (node t a : BlockNode) : Prop where
  mem_left : a ∈ node :: node.ancestors
  mem_right : a ∈ t :: t.ancestors
  height_le : ∀ b ∈ node :: node.ancestors, b ∈ t :: t.ancestors → b.height ≤ a.height

theorem mem_ancestor_iff {start b : BlockNode} {k : Nat} (hs : node.ancestor k = some start)
    (hb : b.height ≤ k) : b ∈ node :: node.ancestors ↔ b ∈ start :: start.ancestors := by
  have heq := ancestor_ancestor hs hb
  constructor
  · intro hm
    have := ancestor_eq_some_iff.2 ⟨hm, rfl⟩
    rw [heq] at this
    exact (ancestor_eq_some_iff.1 this).1
  · intro hm
    exact mem_path_trans hm (ancestor_eq_some_iff.1 hs).1

namespace Shows

theorem findFork_none (h : c.Shows none) : c.findFork (some node) = none := by
  have hh : c.height = -1 := h.height_eq
  rw [findFork, hh]
  rfl

/-- Where the walk to the fork point starts. -/
theorem exists_findFork_eq {t : BlockNode} (h : c.Shows (some t)) (node : BlockNode) :
    ∃ start, c.findFork (some node) = c.walkToFork start ∧ ∀ b ∈ t :: t.ancestors,
      (b ∈ node :: node.ancestors ↔ b ∈ start :: start.ancestors) := by
  have hh : c.height = t.height := h.height_eq
  rw [findFork, hh]
  split_ifs with hlt
  · obtain ⟨start, hs⟩ := exists_ancestor (show t.height ≤ node.height by omega)
    exact ⟨start, by rw [hs]; rfl, fun b hb =>
      mem_ancestor_iff hs (height_le_of_mem_path hb)⟩
  · exact ⟨node, rfl, fun _ _ => .rfl⟩

/-- **The fork point is the deepest common ancestor** of the node and the tip. -/
theorem findFork_eq_some_iff (h : c.Shows tip) : c.findFork (some node) = some a ↔
    ∃ t, tip = some t ∧ DeepestCommon node t a := by
  cases tip with
  | none =>
    rw [h.findFork_none]
    exact ⟨fun heq => (by cases heq), fun ⟨t, ht, _⟩ => (by cases ht)⟩
  | some t =>
    obtain ⟨start, hst, hs⟩ := h.exists_findFork_eq node
    have hc : ∀ b, c.contains b = true ↔ b ∈ t :: t.ancestors := by
      intro b
      rw [h.contains_iff]
      exact ⟨fun ⟨t', ht', hb⟩ => some.inj ht' ▸ hb, fun hb => ⟨t, rfl, hb⟩⟩
    rw [hst, walkToFork_eq_some_iff, hc]
    constructor
    · rintro ⟨hm, ht, hh⟩
      exact ⟨t, rfl, (hs a ht).2 hm, ht, fun b hb hbt =>
        hh b ((hs b hbt).1 hb) ((hc b).2 hbt)⟩
    · rintro ⟨t', ⟨⟩, hm, ht, hh⟩
      refine ⟨(hs a ht).1 hm, ht, fun b hb hbc => ?_⟩
      have hbt := (hc b).1 hbc
      exact hh b ((hs b hbt).2 hb) hbt

theorem findFork_eq_none_iff (h : c.Shows tip) : c.findFork (some node) = none ↔
    ∀ t, tip = some t → ∀ b ∈ node :: node.ancestors, b ∉ t :: t.ancestors := by
  cases tip with
  | none =>
    rw [h.findFork_none]
    exact ⟨fun _ t ht => (by cases ht), fun _ => rfl⟩
  | some t =>
    obtain ⟨start, hst, hs⟩ := h.exists_findFork_eq node
    rw [hst, walkToFork_eq_none_iff]
    simp only [← Bool.not_eq_true, h.contains_iff, some.injEq, exists_eq_left', forall_eq']
    exact ⟨fun hn b hb hbt => hn b ((hs b hbt).1 hb) hbt,
      fun hn b hb hbt => hn b ((hs b hbt).2 hb) hbt⟩

end Shows

/-- What a chain view is for: it holds exactly the ancestors of its tip, by height. -/
structure Represents (c : ChainView) (tip : Option BlockNode) : Prop where
  nodes_eq : c.nodes = tip.elim [] fun t => (t :: t.ancestors).reverse.map some
  tip_eq : c.tip = tip
  nodeByHeight_eq : ∀ height : Int, c.nodeByHeight height = tip.bind fun t => t.ancestor height
  contains_iff : ∀ node, c.contains node = true ↔ ∃ t, tip = some t ∧ node ∈ t :: t.ancestors
  next_eq_some_iff : ∀ node a, c.next (some node) = some a ↔
    ∃ t, tip = some t ∧ a ∈ t :: t.ancestors ∧ a.parent = some node
  next_nil : c.next none = none
  findFork_eq_some_iff : ∀ node a, c.findFork (some node) = some a ↔
    ∃ t, tip = some t ∧ DeepestCommon node t a
  findFork_eq_none_iff : ∀ node, c.findFork (some node) = none ↔
    ∀ t, tip = some t → ∀ b ∈ node :: node.ancestors, b ∉ t :: t.ancestors
  findFork_nil : c.findFork none = none

theorem Shows.nodes_eq (h : c.Shows tip) :
    c.nodes = tip.elim [] fun t => (t :: t.ancestors).reverse.map some := by
  cases tip with
  | none =>
    have hl : c.len = 0 := h.len_eq
    rw [nodes, hl]
    rfl
  | some t =>
    have hl : c.len = t.height + 1 := h.len_eq
    refine ext_getElem? fun i => ?_
    rw [elim_some, getElem?_map, getElem?_reverse_path]
    rcases lt_or_ge i c.len with hi | hi
    · obtain ⟨a, ha⟩ := exists_ancestor (show i ≤ t.height by omega)
      rw [getElem?_nodes hi, h.getElem?_eq i hi, bind_some, ha]
      rfl
    · rw [getElem?_eq_none (by rw [length_nodes]; exact hi), ancestor_of_lt (by omega)]
      rfl

theorem Shows.tip_eq (h : c.Shows tip) : c.tip = tip := by
  rw [ChainView.tip, h.nodes_eq]
  cases tip with
  | none => rfl
  | some t =>
    rw [elim_some, reverse_cons, map_append, map_singleton, getLast?_concat]
    rfl

end ChainView

end DrcNode
