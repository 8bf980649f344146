import Mathlib.Data.List.Perm.Basic

/-!
# Binary heaps in a slice

A heap is kept in a slice: the children of the item at position `i` are at the positions `2 * i + 1`
and `2 * i + 2`. An item that is pushed moves up while it is less than its parent; when the first
item is popped, the last one takes its place and moves down. This is the package `container/heap`,
for any comparison, of which nothing is assumed.

An item moves through at most as many positions as there are, which bounds the loops.
-/

namespace SliceHeap

variable {α : Type*} (less : α → α → Bool) (items : List α)

/-- Exchange the items at two positions. -/
def swap (i j : ℕ) : List α :=
  if h : i < items.length ∧ j < items.length then (items.set i items[j]).set j items[i] else items

/-- The item at position `i` is less than the one at position `j`. -/
def lessAt (i j : ℕ) : Bool :=
  if h : i < items.length ∧ j < items.length then less items[i] items[j] else false

/-- Move the item at position `j` up. -/
def up : ℕ → List α → ℕ → List α
  | 0, items, _ => items
  | rounds + 1, items, j =>
      let i := (j - 1) / 2
      if i = j ∨ lessAt less items j i = false then items else up rounds (swap items i j) i

/-- The child of the item at position `i` to compare it with, among the first `n` items. -/
def lesserChild (i n : ℕ) : ℕ :=
  if 2 * i + 2 < n ∧ lessAt less items (2 * i + 2) (2 * i + 1) = true then 2 * i + 2 else 2 * i + 1

/-- Move the item at position `i` down, among the first `n` items. -/
def down (n : ℕ) : ℕ → List α → ℕ → List α
  | 0, items, _ => items
  | rounds + 1, items, i =>
      if n ≤ 2 * i + 1 then items
      else
        let j := lesserChild less items i n
        if lessAt less items j i = false then items else down n rounds (swap items i j) j

/-- `heap.Init`. -/
def init : List α :=
  (List.range (items.length / 2)).reverse.foldl (down less items.length items.length) items

/-- `heap.Push`. -/
def push (item : α) : List α :=
  up less items.length (items ++ [item]) items.length

/-- `heap.Pop`, `none` for an empty heap. -/
def pop : Option (α × List α) :=
  let n := items.length - 1
  let moved := down less n n (swap items 0 n) 0
  moved.getLast?.map fun last => (last, moved.dropLast)

end SliceHeap
