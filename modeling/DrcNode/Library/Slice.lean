import Mathlib.Data.List.TakeDrop

/-!
# Slices with a capacity

A slice is a window at the front of an array. Its length is what can be indexed; its capacity is
what a slice of it can reach. So `s[lo:hi]` may read behind the end of `s`, as far as the array
goes, and bounds out of order or behind the capacity are an error.
-/

/-- A window of length `len` at the front of an array. -/
structure Slice (α : Type) where
  array : List α
  len : Nat
  len_le : len ≤ array.length

namespace Slice

variable {α : Type} {s t : Slice α} {lo hi : Int}

/-- The elements of the slice. -/
def toList (s : Slice α) : List α := s.array.take s.len

/-- How far a slice of the slice can reach. -/
def cap (s : Slice α) : Nat := s.array.length

/-- The slice of a whole list. -/
def ofList (l : List α) : Slice α := ⟨l, l.length, Nat.le_refl _⟩

/-- The bounds of a slice expression are in order and within the capacity. -/
def InBounds (s : Slice α) (lo hi : Int) : Prop := 0 ≤ lo ∧ lo ≤ hi ∧ hi ≤ s.cap
  deriving Decidable

/-- The slice `s[lo:hi]`. -/
def sub (s : Slice α) (lo hi : Int) : Option (Slice α) :=
  if h : s.InBounds lo hi then
    some ⟨s.array.drop lo.toNat, (hi - lo).toNat, by
      obtain ⟨h0, hle, hcap⟩ := h
      rw [cap] at hcap
      rw [List.length_drop]
      omega⟩
  else none

theorem sub_eq_some_iff : s.sub lo hi = some t ↔
    s.InBounds lo hi ∧ t.array = s.array.drop lo.toNat ∧ t.len = (hi - lo).toNat := by
  rw [sub]
  split_ifs with h
  · constructor
    · intro heq
      cases heq
      exact ⟨h, rfl, rfl⟩
    · rintro ⟨-, ha, hl⟩
      obtain ⟨array, len, hle⟩ := t
      obtain rfl : array = _ := ha
      obtain rfl : len = _ := hl
      rfl
  · exact ⟨fun heq => (by cases heq), fun hs => absurd hs.1 h⟩

theorem sub_eq_none_iff : s.sub lo hi = none ↔ ¬s.InBounds lo hi := by
  rw [sub]
  split_ifs with h
  · exact ⟨fun heq => (by cases heq), fun hn => absurd h hn⟩
  · exact ⟨fun _ => h, fun _ => rfl⟩

theorem exists_sub_add {lo n : Nat} (h : lo + n ≤ s.cap) :
    ∃ t, s.sub lo (lo + n) = some t ∧ t.toList = (s.array.drop lo).take n := by
  have hb : s.InBounds lo (lo + n) := ⟨by omega, by omega, by omega⟩
  refine ⟨_, dif_pos hb, ?_⟩
  have hn : ((lo : Int) + n).toNat - lo = n := by omega
  rw [toList]
  simp [hn]

end Slice
