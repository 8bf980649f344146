import Mathlib.Data.List.Induction
import Mathlib.Data.List.Lex

/-!
# Numerals in a shifted base

A numeral in base `B` has digits below `B`, and longer numerals have smaller ones with leading
zeros beside them: `07` is `7`. The shifted reading adds one at every digit that another digit
follows. The two-digit numerals then start where the one-digit numerals end, and so on, and every
number has one numeral only, without a rule that forbids leading zeros.
-/

namespace ShiftedBase

open List Nat

variable {B : Nat}

/-- The value of the digits `l`, the most significant first, when the digits before them have the
value `acc`. -/
def valueFrom (B : Nat) : Nat → List Nat → Nat
  | acc, [] => acc
  | acc, [d] => acc * B + d
  | acc, d :: e :: l => valueFrom B (acc * B + d + 1) (e :: l)

theorem valueFrom_cons (acc d : Nat) {l : List Nat} (hl : l ≠ []) :
    valueFrom B acc (d :: l) = valueFrom B (acc * B + d + 1) l := by
  cases l with
  | nil => exact absurd rfl hl
  | cons e l => rfl

theorem valueFrom_concat (d : Nat) : {l : List Nat} → l ≠ [] → (acc : Nat) →
    valueFrom B acc (l ++ [d]) = (valueFrom B acc l + 1) * B + d
  | [], hl, _ => absurd rfl hl
  | [e], _, acc => rfl
  | e :: f :: l, _, acc => by
      rw [cons_append, valueFrom_cons _ _ (by simp), valueFrom_cons _ _ (by simp)]
      exact valueFrom_concat d (by simp) _

theorem valueFrom_concat_lt_iff {l : List Nat} {d : Nat} (hd : d < B) :
    valueFrom B 0 (l ++ [d]) < B ↔ l = [] := by
  by_cases hl : l = []
  · subst hl
    simpa [valueFrom] using hd
  · rw [valueFrom_concat d hl]
    have : B ≤ (valueFrom B 0 l + 1) * B := Nat.le_mul_of_pos_left _ (by omega)
    simp only [hl, iff_false]
    omega

/-- **A number has one numeral.** -/
theorem valueFrom_zero_inj {l l' : List Nat} (hl : l ≠ []) (hl' : l' ≠ []) (h : ∀ d ∈ l, d < B)
    (h' : ∀ d ∈ l', d < B) (hv : valueFrom B 0 l = valueFrom B 0 l') : l = l' := by
  induction l using List.reverseRecOn generalizing l' with
  | nil => exact absurd rfl hl
  | append_singleton l d ih =>
    obtain ⟨l', d', rfl⟩ : ∃ m e, l' = m ++ [e] :=
      ⟨l'.dropLast, l'.getLast hl', (dropLast_append_getLast hl').symm⟩
    have hd : d < B := h d (by simp)
    have hd' : d' < B := h' d' (by simp)
    -- the last digit is the only one exactly when the value is below the base
    have hn : l = [] ↔ l' = [] := by
      rw [← valueFrom_concat_lt_iff hd, ← valueFrom_concat_lt_iff hd', hv]
    by_cases hl₀ : l = []
    · have hl₀' := hn.1 hl₀
      subst hl₀ hl₀'
      simpa [valueFrom] using hv
    have hl₀' : l' ≠ [] := fun h => hl₀ (hn.2 h)
    rw [valueFrom_concat d hl₀, valueFrom_concat d' hl₀'] at hv
    have hm := congrArg (· % B) hv
    have hdi := congrArg (· / B) hv
    simp only [mul_add_mod_self_right, mod_eq_of_lt hd, mod_eq_of_lt hd'] at hm
    have hB : 0 < B := by omega
    simp only [Nat.mul_comm _ B, mul_add_div hB, div_eq_of_lt hd, div_eq_of_lt hd',
      Nat.add_right_cancel_iff] at hdi
    rw [ih hl₀ hl₀' (fun e he => h e (by simp [he])) (fun e he => h' e (by simp [he])) hdi, hm]

/-- A larger value before digits of the same number outweighs the digits. -/
theorem valueFrom_lt_of_lt : {l l' : List Nat} → l.length = l'.length → (∀ d ∈ l, d < B) →
    {acc acc' : Nat} → acc < acc' → valueFrom B acc l < valueFrom B acc' l'
  | [], [], _, _, _, _, ha => ha
  | [], _ :: _, hl, _, _, _, _ => by cases hl
  | _ :: _, [], hl, _, _, _, _ => by cases hl
  | d :: l, d' :: l', hl, h, acc, acc', ha => by
      have hd : d < B := h d (by simp)
      have hs : acc * B + d < acc' * B + d' := by
        calc acc * B + d < (acc + 1) * B := by rw [succ_mul]; omega
          _ ≤ acc' * B := Nat.mul_le_mul_right B ha
          _ ≤ acc' * B + d' := Nat.le_add_right _ _
      rw [length_cons, length_cons, Nat.add_right_cancel_iff] at hl
      cases l with
      | nil =>
        obtain rfl : l' = [] := length_eq_zero_iff.1 hl.symm
        exact hs
      | cons e l =>
        have hne : l' ≠ [] := by
          rintro rfl
          cases hl
        rw [valueFrom_cons _ _ hne]
        exact valueFrom_lt_of_lt hl (fun e he => h e (mem_cons_of_mem _ he)) (by omega)

/-- **Numerals of equal length are ordered as their values.** -/
theorem lt_iff_valueFrom_lt : {l l' : List Nat} → l.length = l'.length → (∀ d ∈ l, d < B) →
    (∀ d ∈ l', d < B) → (acc : Nat) → (l < l' ↔ valueFrom B acc l < valueFrom B acc l')
  | [], [], _, _, _, acc => by simp [valueFrom]
  | [], _ :: _, hln, _, _, _ => by cases hln
  | _ :: _, [], hln, _, _, _ => by cases hln
  | d :: l, d' :: l', hln, h, h', acc => by
      rw [length_cons, length_cons, Nat.add_right_cancel_iff] at hln
      have hl : ∀ e ∈ l, e < B := fun e he => h e (mem_cons_of_mem _ he)
      have hl' : ∀ e ∈ l', e < B := fun e he => h' e (mem_cons_of_mem _ he)
      have ih := lt_iff_valueFrom_lt hln hl hl'
      rw [cons_lt_cons_iff]
      cases l with
      | nil =>
        obtain rfl : l' = [] := length_eq_zero_iff.1 hln.symm
        simp [valueFrom]
      | cons e l =>
        have hne : l' ≠ [] := by
          rintro rfl
          cases hln
        rw [valueFrom_cons _ _ (by simp), valueFrom_cons _ _ hne]
        rcases Nat.lt_trichotomy d d' with hlt | rfl | hgt
        · have hv := valueFrom_lt_of_lt hln hl (show acc * B + d + 1 < acc * B + d' + 1 by omega)
          simp [hlt, hv]
        · simp [ih (acc * B + d + 1)]
        · have hv := valueFrom_lt_of_lt hln.symm hl'
            (show acc * B + d' + 1 < acc * B + d + 1 by omega)
          simp [hgt.not_gt, hgt.ne', hv.le]

end ShiftedBase
