import Mathlib.Data.Finmap

/-!
# Two maps that are inverse to each other

A table of keys and a table of values, each entry of one found in the other one. An entry is added
to both when neither its key nor its value is in use, and it is removed from both.
-/

namespace InverseMaps

open Finmap

variable {κ ν : Type} [DecidableEq κ] [DecidableEq ν]

/-- The entries of one map are those of the other one, turned around. -/
def Inverse (m : Finmap fun _ : κ => ν) (m' : Finmap fun _ : ν => κ) : Prop :=
  ∀ k v, m.lookup k = some v ↔ m'.lookup v = some k

variable {m : Finmap fun _ : κ => ν} {m' : Finmap fun _ : ν => κ} {k : κ} {v : ν}

theorem Inverse.empty : Inverse (∅ : Finmap fun _ : κ => ν) ∅ := by
  intro k v
  exact ⟨fun h => (by cases h), fun h => (by cases h)⟩

theorem Inverse.insert (h : Inverse m m') (hk : k ∉ m) (hv : v ∉ m') :
    Inverse (m.insert k v) (m'.insert v k) := by
  have hke : ∀ v', m'.lookup v' ≠ some k := by
    intro v' hl
    exact hk (mem_of_lookup_eq_some ((h k v').2 hl))
  have hva : ∀ k', m.lookup k' ≠ some v := by
    intro k' hl
    exact hv (mem_of_lookup_eq_some ((h k' v).1 hl))
  intro k' v'
  by_cases hk' : k' = k
  · subst hk'
    rw [lookup_insert]
    by_cases hv' : v' = v
    · subst hv'
      simp
    · rw [lookup_insert_of_ne _ hv']
      exact ⟨fun heq => absurd (Option.some.inj heq).symm hv', fun heq => absurd heq (hke v')⟩
  · rw [lookup_insert_of_ne _ hk']
    by_cases hv' : v' = v
    · subst hv'
      rw [lookup_insert]
      exact ⟨fun heq => absurd heq (hva k'), fun heq => absurd (Option.some.inj heq).symm hk'⟩
    · rw [lookup_insert_of_ne _ hv']
      exact h k' v'

theorem Inverse.erase (h : Inverse m m') (hl : m.lookup k = some v) :
    Inverse (m.erase k) (m'.erase v) := by
  intro k' v'
  by_cases hk' : k' = k
  · subst hk'
    rw [lookup_erase]
    refine ⟨fun heq => (by cases heq), fun heq => ?_⟩
    by_cases hv' : v' = v
    · subst hv'
      rw [lookup_erase] at heq
      cases heq
    · rw [lookup_erase_ne hv', ← h, hl] at heq
      exact absurd (Option.some.inj heq).symm hv'
  · rw [lookup_erase_ne hk']
    by_cases hv' : v' = v
    · subst hv'
      rw [lookup_erase, h, (h _ _).1 hl]
      exact ⟨fun heq => absurd (Option.some.inj heq).symm hk', fun heq => (by cases heq)⟩
    · rw [lookup_erase_ne hv']
      exact h k' v'

end InverseMaps
