import Mathlib.Data.Finset.Basic

/-!
# Removing a node with all that depends on it

A node of a graph is removed together with the nodes that its edges lead to, and those that their
edges lead to, and so on. The recursion that does so may hold nodes: they are on their way out, and
are no longer found by the search, but are still there.

`Cascade edge held P s s'` describes what has happened between two sets of nodes: nodes have been
removed, all of them with the property `P`, and where an edge leads from a removed node to one that
is still there, the latter is held. Cascades are composed one after the other, and in the end, when
nothing is held, whatever could be reached from a removed node is gone.
-/

variable {α : Type*} [DecidableEq α]

/-- From `s` to `s'` nodes with `P` have been removed, and what their edges lead to, unless it is
held. -/
structure Cascade (edge : α → α → Prop) (held : Finset α) (P : α → Prop) (s s' : Finset α) :
    Prop where
  subset : s' ⊆ s
  closed : ∀ a ∈ s, a ∉ s' → ∀ b ∈ s', edge a b → b ∈ held
  reached : ∀ a ∈ s, a ∉ s' → P a

namespace Cascade

open Finset

variable {edge : α → α → Prop} {held : Finset α} {P Q : α → Prop} {s s' s'' : Finset α} {a b : α}

omit [DecidableEq α] in
theorem refl : Cascade edge held P s s where
  subset := Finset.Subset.refl s
  closed _ ha hna := absurd ha hna
  reached _ ha hna := absurd ha hna

omit [DecidableEq α] in
theorem mono (h : Cascade edge held P s s') (hPQ : ∀ a ∈ s, P a → Q a) :
    Cascade edge held Q s s' where
  subset := h.subset
  closed := h.closed
  reached a ha hna := hPQ a ha (h.reached a ha hna)

theorem trans (h : Cascade edge held P s s') (h' : Cascade edge held P s' s'') :
    Cascade edge held P s s'' where
  subset := h'.subset.trans h.subset
  closed a ha hna b hb hab := by
    by_cases ha' : a ∈ s'
    · exact h'.closed a ha' hna b hb hab
    · exact h.closed a ha ha' b (h'.subset hb) hab
  reached a ha hna := by
    by_cases ha' : a ∈ s'
    · exact h'.reached a ha' hna
    · exact h.reached a ha ha'

/-- **A held node is let go** once nothing but held nodes depends on it. -/
theorem erase (h : Cascade edge (insert a held) P s s')
    (he : ∀ b ∈ s', edge a b → b ∈ insert a held) (hP : P a) :
    Cascade edge held P s (s'.erase a) where
  subset := (erase_subset a s').trans h.subset
  closed c hc hnc b hb hcb := by
    obtain ⟨hne, hb⟩ := mem_erase.1 hb
    refine mem_of_mem_insert_of_ne (?_ : b ∈ insert a held) hne
    by_cases hca : c = a
    · exact he b hb (hca ▸ hcb)
    · exact h.closed c hc (fun hc' => hnc (mem_erase.2 ⟨hca, hc'⟩)) b hb hcb
  reached c hc hnc := by
    by_cases hca : c = a
    · rw [hca]
      exact hP
    · exact h.reached c hc fun hc' => hnc (mem_erase.2 ⟨hca, hc'⟩)

omit [DecidableEq α] in
/-- **Nothing that a removed node leads to is left**, when no node is held. -/
theorem notMem_of_reaches (h : Cascade edge ∅ P s s') (hr : ∀ b ∈ s', ¬edge a b)
    (hp : Relation.TransGen (fun x y => edge x y ∧ y ∈ s) a b) : b ∈ s ∧ b ∉ s' := by
  induction hp with
  | single hab => exact ⟨hab.2, fun hb => hr _ hb hab.1⟩
  | tail _ hbc ih =>
    exact ⟨hbc.2, fun hc => notMem_empty _ (h.closed _ ih.1 ih.2 _ hc hbc.1)⟩

end Cascade
