import Mathlib.Data.List.Induction

/-!
# The treaps under the database cache

Pending writes are kept in treaps: search trees on the keys whose nodes carry random priorities.
`Put` rotates a new node up while its parent has a greater priority, so that priorities grow
downwards. `Delete` rotates a node down until it is a leaf, but at every level it lifts the child
with the greater priority, so that the other child ends up below a greater one. `Mutable` and
`Immutable` build the same trees, the second one from copies of the nodes on the path.

## Main results

* `heapOrdered_iff`.

Source: `treapNode` and `parentStack` in `database/internal/treap/common.go`; `Put` and
`Delete` in `mutable.go` and `immutable.go` there.
-/

namespace DrcNode

/-- The fields of `treapNode` but for the children. -/
structure TreapEntry where
  key : List UInt8
  value : List UInt8
  priority : Int

/-- `*treapNode`. -/
inductive TreapNode
  | nil
  | node (entry : TreapEntry) (left right : TreapNode)

/-- An entry of `parentStack`: on the left, the way goes on to the left child of the node. -/
structure TreapParent where
  entry : TreapEntry
  left : Bool
  sibling : TreapNode

def TreapParent.link (p : TreapParent) (t : TreapNode) : TreapNode :=
  if p.left then .node p.entry t p.sibling else .node p.entry p.sibling t

inductive TreapOp
  | put (key value : List UInt8) (priority : Int)
  | delete (key : List UInt8)

namespace TreapNode

/-- The root of the tree in which a node has the given parents. -/
def relink (t : TreapNode) (parents : List TreapParent) : TreapNode :=
  parents.foldl (fun t p => p.link t) t

/-- The node with a key, `nil` if there is none, and its parents. -/
def get (key : List UInt8) : TreapNode → List TreapParent → TreapNode × List TreapParent
  | nil, parents => (nil, parents)
  | node e l r, parents =>
      if key < e.key then get key l (⟨e, true, r⟩ :: parents)
      else if e.key < key then get key r (⟨e, false, l⟩ :: parents)
      else (node e l r, parents)

/-- The rotations of `Put`. -/
def rotateUp (e : TreapEntry) (l r : TreapNode) : List TreapParent → TreapNode
  | [] => node e l r
  | p :: parents =>
      if p.entry.priority ≤ e.priority then relink (node e l r) (p :: parents)
      else if p.left then rotateUp e l (p.link r) parents
      else rotateUp e (p.link l) r parents

/-- The rotations of `Delete`: the tree in place of a node with the given children. -/
def rotateDown : TreapNode → TreapNode → TreapNode
  | nil, nil => nil
  | nil, node b l r => node b (rotateDown nil l) r
  | node a l r, nil => node a l (rotateDown r nil)
  | node a l r, node b l' r' =>
      if b.priority ≤ a.priority then node a l (rotateDown r (node b l' r'))
      else node b (rotateDown (node a l r) l') r'

variable {t l r : TreapNode} {e : TreapEntry} {parent : TreapParent} {parents : List TreapParent}
  {p q : Int} {key value : List UInt8} (root : TreapNode)

theorem relink_get : (get key t parents).1.relink (get key t parents).2 = t.relink parents := by
  induction t generalizing parents with
  | nil => rfl
  | node e l r ihl ihr =>
    rw [get]
    split_ifs
    · exact ihl
    · exact ihr
    · rfl

/-! ### Heap order -/

/-- The priority of the root is at least `p`. -/
def Above (p : Int) : TreapNode → Prop
  | nil => True
  | node e _ _ => p ≤ e.priority

/-- **Every priority is at most those of the children.** -/
def HeapOrdered : TreapNode → Prop
  | nil => True
  | node e l r => (l.Above e.priority ∧ l.HeapOrdered) ∧ r.Above e.priority ∧ r.HeapOrdered

/-- The priority of the next parent is at most that of the node. -/
def Below (t : TreapNode) (parents : List TreapParent) : Prop :=
  ∀ p ∈ parents.head?, t.Above p.entry.priority

/-- The parents and their other children are ordered. -/
def PathOrdered : List TreapParent → Prop
  | [] => True
  | p :: parents => (p.link nil).HeapOrdered ∧ (p.link nil).Below parents ∧ PathOrdered parents

theorem Above.trans (h : t.Above q) (hle : p ≤ q) : t.Above p := by
  cases t with
  | nil => exact trivial
  | node e l r => exact Int.le_trans hle h

theorem above_link : (parent.link t).Above p ↔ p ≤ parent.entry.priority := by
  rw [TreapParent.link]
  split_ifs <;> rfl

theorem heapOrdered_link : (parent.link t).HeapOrdered ↔
    (t.Above parent.entry.priority ∧ t.HeapOrdered) ∧ (parent.link nil).HeapOrdered := by
  simp only [TreapParent.link]
  split_ifs
  · simp [HeapOrdered, Above]
  · simp [HeapOrdered, Above, and_comm]

theorem heapOrdered_relink : (t.relink parents).HeapOrdered ↔
    t.HeapOrdered ∧ t.Below parents ∧ PathOrdered parents := by
  induction parents generalizing t with
  | nil => simp [relink, Below, PathOrdered]
  | cons parent parents ih =>
    change ((parent.link t).relink parents).HeapOrdered ↔ _
    rw [ih, heapOrdered_link]
    simp [Below, PathOrdered, above_link, and_assoc, and_left_comm]

theorem heapOrdered_rotateUp (h : (node e l r).HeapOrdered) (hl : l.Below parents)
    (hr : r.Below parents) (hp : PathOrdered parents) : (rotateUp e l r parents).HeapOrdered := by
  induction parents generalizing l r with
  | nil => exact h
  | cons parent parents ih =>
    obtain ⟨hpa, hb, hps⟩ := hp
    have hbe : ∀ {t : TreapNode}, t.Below (parent :: parents) → t.Below parents :=
      fun ht p hm => (ht parent rfl).trans (above_link.1 (hb p hm))
    rw [rotateUp]
    split_ifs with hle
    · exact heapOrdered_relink.2 ⟨h, fun p hm => by cases hm; exact hle, hpa, hb, hps⟩
    · refine ih ⟨h.1, above_link.2 (by omega), ?_⟩ (hbe hl) ?_ hps
      · exact heapOrdered_link.2 ⟨⟨hr parent rfl, h.2.2⟩, hpa⟩
      · exact fun p hm => above_link.2 (above_link.1 (hb p hm))
    · refine ih ⟨⟨above_link.2 (by omega), ?_⟩, h.2⟩ ?_ (hbe hr) hps
      · exact heapOrdered_link.2 ⟨⟨hl parent rfl, h.1.2⟩, hpa⟩
      · exact fun p hm => above_link.2 (above_link.1 (hb p hm))

theorem above_rotateDown (hl : l.Above p) (hr : r.Above p) : (rotateDown l r).Above p := by
  fun_cases rotateDown l r with
  | case1 => exact trivial
  | case2 => exact hr
  | case3 => exact hl
  | case4 => exact hl
  | case5 => exact hr

theorem rotateDown_nil_left : rotateDown nil r = r := by
  induction r with
  | nil => rw [rotateDown]
  | node b l r ih _ => rw [rotateDown, ih]

theorem rotateDown_nil_right : rotateDown l nil = l := by
  induction l with
  | nil => rw [rotateDown]
  | node a l r _ ih => rw [rotateDown, ih]

/-- The rotations lift no child above a smaller one: on the way down on the right side of the left
child, all priorities are that of the right child. -/
def Ties : TreapNode → TreapNode → Prop
  | node a _ r, node b l' r' => a.priority = b.priority ∧ r.Ties (node b l' r')
  | _, _ => True

theorem not_heapOrdered_rotateDown {a b : TreapEntry} {l' r' : TreapNode}
    (hr : (node b l' r').HeapOrdered) (hlt : a.priority < b.priority) :
    ¬(rotateDown (node a l r) (node b l' r')).HeapOrdered := by
  induction l' generalizing b r' with
  | nil =>
    rw [rotateDown, if_neg (by omega), rotateDown_nil_right]
    intro h
    exact absurd h.1.1 (Int.not_le.2 hlt)
  | node c l₁ r₁ ih _ =>
    rw [rotateDown, if_neg (by omega)]
    exact fun h => ih hr.1.2 (Int.lt_of_lt_of_le hlt hr.1.1) h.1.2

theorem heapOrdered_rotateDown (hl : l.HeapOrdered) (hr : r.HeapOrdered) :
    (rotateDown l r).HeapOrdered ↔ Ties l r := by
  induction l with
  | nil => rw [rotateDown_nil_left]; exact iff_of_true hr trivial
  | node a l₁ r₁ _ ih =>
    cases r with
    | nil => rw [rotateDown_nil_right]; exact iff_of_true hl trivial
    | node b l' r' =>
      by_cases hle : b.priority ≤ a.priority
      · rw [rotateDown, if_pos hle, Ties, ← ih hl.2.2]
        refine ⟨fun h => ⟨Int.le_antisymm ?_ hle, h.2.2⟩, fun h => ⟨hl.1, ?_, h.2⟩⟩
        · -- the root of what comes below is the right child, or as great as the right child
          have ht := (ih hl.2.2).1 h.2.2
          cases r₁ with
          | nil => exact (congrArg (Above _) rotateDown_nil_left).mp h.2.1
          | node c _ _ => exact ht.1 ▸ hl.2.1
        · exact above_rotateDown hl.2.1 (Int.le_of_eq h.1)
      · refine iff_of_false (not_heapOrdered_rotateDown hr (Int.not_le.1 hle)) fun h => ?_
        exact hle (Int.le_of_eq h.1.symm)

/-! ### Operations -/

/-- `Put`. The priority is the one drawn for a new key. -/
def put (key value : List UInt8) (priority : Int) : TreapNode :=
  match root.get key [] with
  | (nil, parents) => rotateUp { key, value, priority } nil nil parents
  | (node e l r, parents) => relink (node { e with value } l r) parents

def delete (key : List UInt8) : TreapNode :=
  match root.get key [] with
  | (nil, _) => root
  | (node _ l r, parents) => relink (rotateDown l r) parents

def step : TreapOp → TreapNode
  | .put key value priority => root.put key value priority
  | .delete key => root.delete key

/-- **The condition on an operation**: a node that is deleted is rotated down between children with
equal priorities only. -/
def KeepsHeap : TreapOp → Prop
  | .put _ _ _ => True
  | .delete key =>
      match root.get key [] with
      | (nil, _) => True
      | (node _ l r, _) => Ties l r

/-- **One operation.** -/
theorem heapOrdered_step {op : TreapOp} (h : t.HeapOrdered) :
    (t.step op).HeapOrdered ↔ t.KeepsHeap op := by
  have ho : ∀ key, (t.get key []).1.HeapOrdered ∧ (t.get key []).1.Below (t.get key []).2 ∧
      PathOrdered (t.get key []).2 := fun key => heapOrdered_relink.1 (relink_get.symm ▸ h)
  cases op with
  | put key value priority =>
    refine iff_of_true ?_ trivial
    obtain ⟨hf, hb, hp⟩ := ho key
    rw [step, put]
    cases hg : t.get key [] with
    | mk found parents =>
      rw [hg] at hf hb hp
      cases found with
      | nil => exact heapOrdered_rotateUp ⟨⟨trivial, trivial⟩, trivial, trivial⟩ hb hb hp
      | node e l r => exact heapOrdered_relink.2 ⟨hf, hb, hp⟩
  | delete key =>
    obtain ⟨hf, hb, hp⟩ := ho key
    rw [step, delete, KeepsHeap]
    cases hg : t.get key [] with
    | mk found parents =>
      rw [hg] at hf hb hp
      cases found with
      | nil => exact iff_of_true h trivial
      | node e l r =>
        refine heapOrdered_relink.trans ?_
        rw [heapOrdered_rotateDown hf.1.2 hf.2.2]
        refine and_iff_left ⟨fun p hm => ?_, hp⟩
        exact above_rotateDown (hf.1.1.trans (hb p hm)) (hf.2.1.trans (hb p hm))

/-- **Heap order after every operation** of a sequence, just when each of them meets the condition
where it is applied. -/
theorem heapOrdered_iff (ops : List TreapOp) :
    (∀ before, before <+: ops → (before.foldl step nil).HeapOrdered) ↔
      ∀ before op, before ++ [op] <+: ops → (before.foldl step nil).KeepsHeap op := by
  constructor
  · intro h before op hm
    have ho := h _ hm
    rw [List.foldl_append] at ho
    exact (heapOrdered_step (h before ((List.prefix_append _ _).trans hm))).1 ho
  · intro h before hm
    induction before using List.reverseRecOn with
    | nil => exact trivial
    | append_singleton before op ih =>
      rw [List.foldl_append]
      exact (heapOrdered_step (ih ((List.prefix_append _ _).trans hm))).2 (h before op hm)

/-- Deleting the root lifts the priority 3 above the priority 2. -/
theorem heapOrder_broken : ¬([.put [1] [] 2, .put [2] [] 1, .put [3] [] 3, .delete [2]].foldl step
    nil).HeapOrdered := by
  simp +decide [step, put, delete, get, rotateUp, rotateDown, TreapParent.link, relink, HeapOrdered,
    Above]

end TreapNode

end DrcNode
