import Mathlib.Data.List.Perm.Basic
import Mathlib.Order.Lattice

/-!
# Running maxima over an unordered collection

A loop that keeps the best element met so far visits the elements of a collection in some order
and replaces the element it keeps when the next one is strictly better. When the collection has
no order of its own, as a hash map has none, the result may depend on the order of the visit. It
is a *top* (`IsTop`), or the starting element when there is no top, and every top is the result of
some order. So the result is the same for all orders exactly when there is at most one top.
-/

namespace RunningMax

open List

variable {α β γ : Type*} [LinearOrder β] {f : α → β} {a x y : α} {l l₁ l₂ : List α}

/-- The element kept by a loop over `l` that starts with `a` and replaces what it keeps by every
strictly better element. -/
def runningMax (f : α → β) (a : α) (l : List α) : α :=
  l.foldl (fun b x => if f b < f x then x else b) a

/-- `x` is an element of `l` with the largest value of `f`, and that value is above the one of
`a`. -/
structure IsTop (f : α → β) (a : α) (l : List α) (x : α) : Prop where
  mem : x ∈ l
  lt : f a < f x
  le : ∀ y ∈ l, f y ≤ f x

@[simp] theorem runningMax_cons :
    runningMax f a (x :: l) = runningMax f (if f a < f x then x else a) l := rfl

theorem IsTop.perm (h : IsTop f a l₁ x) (hl : l₁.Perm l₂) : IsTop f a l₂ x where
  mem := hl.mem_iff.1 h.mem
  lt := h.lt
  le y hy := h.le y (hl.mem_iff.2 hy)

theorem le_runningMax : (l : List α) → (a : α) → f a ≤ f (runningMax f a l)
  | [], _ => le_rfl
  | x :: l, a => by
      rw [runningMax_cons]
      split_ifs with h
      · exact le_trans (le_of_lt h) (le_runningMax l x)
      · exact le_runningMax l a

theorem le_runningMax_of_mem (hy : y ∈ l) : f y ≤ f (runningMax f a l) := by
  induction l generalizing a with
  | nil => cases hy
  | cons x l ih =>
    rw [runningMax_cons]
    rcases mem_cons.1 hy with rfl | hy
    · refine le_trans ?_ (le_runningMax l _)
      split_ifs with h
      · exact le_rfl
      · exact not_lt.1 h
    · exact ih hy

theorem runningMax_eq_or_mem : runningMax f a l = a ∨ runningMax f a l ∈ l := by
  induction l generalizing a with
  | nil => exact .inl rfl
  | cons x l ih =>
    rw [runningMax_cons]
    split_ifs with h
    · rcases ih (a := x) with hx | hx
      · exact .inr (mem_cons.2 (.inl hx))
      · exact .inr (mem_cons_of_mem x hx)
    · exact ih.imp_right (mem_cons_of_mem x)

theorem lt_runningMax_of_ne (h : runningMax f a l ≠ a) : f a < f (runningMax f a l) := by
  induction l generalizing a with
  | nil => exact absurd rfl h
  | cons x l ih =>
    rw [runningMax_cons] at h ⊢
    split_ifs at h ⊢ with hx
    · exact lt_of_lt_of_le hx (le_runningMax l x)
    · exact ih h

/-- **The loop ends with a top or with the element it started from.** -/
theorem isTop_runningMax (h : runningMax f a l ≠ a) : IsTop f a l (runningMax f a l) where
  mem := runningMax_eq_or_mem.resolve_left h
  lt := lt_runningMax_of_ne h
  le _ hy := le_runningMax_of_mem hy

/-- A loop that starts with a value no element exceeds keeps the element it started from. -/
theorem runningMax_eq_self (h : ∀ y ∈ l, f y ≤ f a) : runningMax f a l = a := by
  by_contra hne
  have ht := isTop_runningMax hne
  exact absurd ht.lt (not_lt.2 (h _ ht.mem))

/-- A loop over a collection with a top does not keep the element it started from. -/
theorem IsTop.runningMax_ne (h : IsTop f a l x) : runningMax f a l ≠ a := by
  intro heq
  exact absurd (le_runningMax_of_mem (a := a) h.mem) (not_le.2 (heq ▸ h.lt))

/-- **Every top is the result for some order of the visit**: visit it first. -/
theorem exists_perm_runningMax_eq {g : γ → α} {l : List γ} (h : IsTop f a (l.map g) x) :
    ∃ l' : List γ, l'.Perm l ∧ runningMax f a (l'.map g) = x := by
  obtain ⟨e, he, rfl⟩ := mem_map.1 h.mem
  obtain ⟨s, t, rfl⟩ := append_of_mem he
  refine ⟨e :: (s ++ t), perm_middle.symm, ?_⟩
  rw [map_cons, runningMax_cons, if_pos h.lt]
  refine runningMax_eq_self fun y hy => h.le y ?_
  exact (perm_middle.symm.map g).subset (mem_cons_of_mem (g e) hy)

/-- **The result is the same for every order exactly when there is at most one top.** -/
theorem runningMax_perm_iff {g : γ → α} {l : List γ} : (∀ l₁ l₂ : List γ, l₁.Perm l → l₂.Perm l →
        runningMax f a (l₁.map g) = runningMax f a (l₂.map g)) ↔
      ∀ x y, IsTop f a (l.map g) x → IsTop f a (l.map g) y → x = y := by
  constructor
  · intro hp x y hx hy
    obtain ⟨l₁, hl₁, rfl⟩ := exists_perm_runningMax_eq hx
    obtain ⟨l₂, hl₂, rfl⟩ := exists_perm_runningMax_eq hy
    exact hp l₁ l₂ hl₁ hl₂
  · intro hu l₁ l₂ hl₁ hl₂
    by_cases ht : ∃ x, IsTop f a (l.map g) x
    · obtain ⟨x, hx⟩ := ht
      have h₁ := isTop_runningMax (hx.perm (hl₁.symm.map g)).runningMax_ne
      have h₂ := isTop_runningMax (hx.perm (hl₂.symm.map g)).runningMax_ne
      exact hu _ _ (h₁.perm (hl₁.map g)) (h₂.perm (hl₂.map g))
    · have hs : ∀ l' : List γ, l'.Perm l → runningMax f a (l'.map g) = a := fun l' hl' =>
        by_contra fun hne => ht ⟨_, (isTop_runningMax hne).perm (hl'.map g)⟩
      rw [hs l₁ hl₁, hs l₂ hl₂]

end RunningMax
