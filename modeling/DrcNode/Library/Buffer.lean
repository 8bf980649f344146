import DrcNode.Library.Checked

/-!
# Writing into a buffer

A function that serializes into a buffer overwrites the front of it and says how many items it has
written; a buffer that is too short is an error. `Writes put s` says that `put` overwrites as many
items as `s` has with `s`, and leaves the rest of the buffer alone. Two such functions one after the
other write the concatenation, so that what a serializer writes is read off its parts.
-/

namespace Buffer

open List

variable {α ε : Type} {put put' : List α → Except ε (List α × Nat)} {s t : List α}

/-- The function overwrites the front of a buffer that is long enough with `s`. -/
def Writes (put : List α → Except ε (List α × Nat)) (s : List α) : Prop :=
  ∀ pad rest, pad.length = s.length → put (pad ++ rest) = .ok (s ++ rest, s.length)

/-- Copy `s` to the front of the buffer, which fails with `short` when the buffer is too short. -/
def store (short : ε) (s target : List α) : Except ε (List α × Nat) :=
  if target.length < s.length then .error short else .ok (s ++ target.drop s.length, s.length)

/-- Copy as much of `s` to the front of the buffer as there is room for, and count all of it. -/
def copy (s target : List α) : Except ε (List α × Nat) :=
  .ok (s.take target.length ++ target.drop s.length, s.length)

/-- Write with `put`, then with `put'` from where `put` has stopped. -/
def followedBy (put put' : List α → Except ε (List α × Nat)) (target : List α) :
    Except ε (List α × Nat) := do
  let first ← put target
  let second ← put' (first.1.drop first.2)
  pure (first.1.take first.2 ++ second.1, first.2 + second.2)

/-- Write with each of the functions, one behind the other. -/
def inSequence : List (List α → Except ε (List α × Nat)) → List α → Except ε (List α × Nat)
  | [], target => pure (target, 0)
  | put :: puts, target => followedBy put (inSequence puts) target

namespace Writes

theorem store (short : ε) (s : List α) : Writes (store short s) s := by
  intro pad rest hl
  have hs : ¬(pad ++ rest).length < s.length := by
    rw [length_append]
    omega
  rw [Buffer.store, if_neg hs, drop_left' hl]

theorem copy (s : List α) : Writes (copy s : List α → Except ε (List α × Nat)) s := by
  intro pad rest hl
  have hle : s.length ≤ (pad ++ rest).length := by
    rw [length_append]
    omega
  rw [Buffer.copy, take_of_length_le hle, drop_left' hl]

theorem followedBy (h : Writes put s) (h' : Writes put' t) :
    Writes (followedBy put put') (s ++ t) := by
  intro pad rest hl
  rw [length_append] at hl
  obtain ⟨pad₁, pad₂, rfl, h₁, h₂⟩ : ∃ p q, pad = p ++ q ∧ p.length = s.length ∧
      q.length = t.length := by
    refine ⟨pad.take s.length, pad.drop s.length, (take_append_drop _ _).symm, ?_, ?_⟩
    · rw [length_take]
      omega
    · rw [length_drop]
      omega
  rw [Buffer.followedBy, append_assoc, h pad₁ (pad₂ ++ rest) h₁]
  simp only [bind, Except.bind]
  rw [drop_left' rfl, h' pad₂ rest h₂, take_left' rfl]
  simp [pure, Except.pure]

theorem inSequence {ι : Type} {puts : ι → List α → Except ε (List α × Nat)} {s : ι → List α} :
    {l : List ι} → (∀ i ∈ l, Writes (puts i) (s i)) →
      Writes (inSequence (l.map puts)) (l.map s).flatten
  | [], _ => by
      intro pad rest hln
      obtain rfl : pad = [] := length_eq_zero_iff.1 hln
      rfl
  | i :: l, h => by
      have hl := inSequence fun j hj => h j (mem_cons_of_mem i hj)
      exact (h i mem_cons_self).followedBy hl

theorem fill (h : Writes put s) {target : List α} (hl : target.length = s.length) :
    put target = .ok (s, s.length) := by
  simpa using h target [] hl

end Writes

end Buffer
