import Mathlib.Data.List.Sort

/-!
# Order statistics

The element at position `k` of a list after sorting. It is compared with a bound by counting: it is
at most `x` just when more than `k` elements are. Statements about medians then become statements
about numbers of elements, which add up over parts of a list.
-/

namespace OrderStatistic

open List

variable {α : Type*} [LinearOrder α] {x m : α}

theorem getElem?_le_iff_of_sorted {l : List α} (hs : l.Pairwise (· ≤ ·)) {k : Nat}
    (hm : l[k]? = some m) : m ≤ x ↔ k < l.countP (· ≤ x) := by
  induction l generalizing k with
  | nil => cases hm
  | cons a l ih =>
    obtain ⟨hle, hs⟩ := pairwise_cons.1 hs
    by_cases ha : a ≤ x
    · have hc : (a :: l).countP (· ≤ x) = l.countP (· ≤ x) + 1 :=
        countP_cons_of_pos (by simpa using ha)
      rw [hc]
      cases k with
      | zero =>
        obtain rfl : a = m := Option.some.inj hm
        exact ⟨fun _ => Nat.succ_pos _, fun _ => ha⟩
      | succ k => rw [ih hs hm, Nat.add_lt_add_iff_right]
    · -- no element is up to `x`, since none is below the first
      have hn : ∀ b ∈ a :: l, ¬b ≤ x := by
        intro b hb hbx
        rcases mem_cons.1 hb with rfl | hb
        · exact ha hbx
        · exact ha ((hle b hb).trans hbx)
      have hc : (a :: l).countP (· ≤ x) = 0 := countP_eq_zero.2 fun b hb => by simpa using hn b hb
      rw [hc]
      exact ⟨fun hmx => absurd hmx (hn m (mem_of_getElem? hm)),
        fun h => by cases h⟩

/-- **The element at position `k` is at most `x` just when more than `k` elements are.** -/
theorem getElem?_insertionSort_le_iff {l : List α} {k : Nat}
    (hm : (l.insertionSort (· ≤ ·))[k]? = some m) : m ≤ x ↔ k < l.countP (· ≤ x) := by
  rw [getElem?_le_iff_of_sorted (pairwise_insertionSort _ l) hm, (perm_insertionSort _ l).countP_eq]

theorem countP_le_countP_take_add {β : Type*} (p : β → Bool) (l : List β) (n : Nat) :
    l.countP p ≤ (l.take n).countP p + (l.length - n) := by
  have hd : (l.drop n).countP p ≤ l.length - n := by
    rw [← length_drop]
    exact countP_le_length
  calc l.countP p = (l.take n).countP p + (l.drop n).countP p := by
        rw [← countP_append, take_append_drop]
    _ ≤ _ := Nat.add_le_add_left hd _

end OrderStatistic
