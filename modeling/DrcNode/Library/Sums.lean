import Mathlib.Algebra.BigOperators.Group.Finset.Basic
import Mathlib.Algebra.GroupWithZero.Nat

/-!
# Sums of amounts

Amounts of money are added up in 64 bits, where a sum can wrap. It does not when every amount is
between zero and a bound, and every partial sum has been compared with the bound. The second part is
about amounts that halve at regular intervals: what is paid out in the end is bounded.
-/

namespace Sums

open Int64

/-! ### Sums in 64 bits -/

variable {a b total total' bound : Int64} {amounts : List Int64}

theorem nonneg_iff : 0 ≤ a ↔ 0 ≤ a.toInt := le_iff_toInt_le

/-- **A sum of two amounts that fits is exact.** -/
theorem toNatClampNeg_add (ha : 0 ≤ a) (hb : 0 ≤ b)
    (h : a.toNatClampNeg + b.toNatClampNeg < 2 ^ 63) :
    (a + b).toInt = a.toInt + b.toInt ∧ 0 ≤ a + b ∧
      (a + b).toNatClampNeg = a.toNatClampNeg + b.toNatClampNeg := by
  have ha' := cast_toNatClampNeg a ha
  have hb' := cast_toNatClampNeg b hb
  have hs : (a + b).toInt = a.toInt + b.toInt := by
    rw [toInt_add]
    exact Int.bmod_eq_of_le (by omega) (by omega)
  have hn : 0 ≤ a + b := by
    rw [nonneg_iff]
    omega
  have hc := cast_toNatClampNeg (a + b) hn
  exact ⟨hs, hn, by omega⟩

/-- Adding up the amounts, starting from a total, does not wrap at any step. -/
def AddsExactly : Int64 → List Int64 → Prop
  | _, [] => True
  | total, amount :: amounts =>
      (total + amount).toInt = total.toInt + amount.toInt ∧ AddsExactly (total + amount) amounts

/-- Adding up amounts with checks: each of them, and each total, is at most the bound. -/
inductive Adds (bound : Int64) : Int64 → List Int64 → Int64 → Prop
  | nil {total : Int64} : Adds bound total [] total
  | cons {total amount total' : Int64} {amounts : List Int64} (hamount : 0 ≤ amount)
      (hbound : amount ≤ bound) (htotal : total + amount ≤ bound)
      (hrest : Adds bound (total + amount) amounts total') :
      Adds bound total (amount :: amounts) total'

namespace Adds

section

variable (h : Adds bound total amounts total')
include h

theorem foldl_eq : amounts.foldl (· + ·) total = total' := by
  induction h with
  | nil => rfl
  | cons _ _ _ _ ih => exact ih

theorem nonneg : ∀ amount ∈ amounts, 0 ≤ amount := by
  induction h with
  | nil => simp
  | cons ha _ _ _ ih => exact List.forall_mem_cons.2 ⟨ha, ih⟩

theorem le_bound (ht : total ≤ bound) : total' ≤ bound := by
  induction h with
  | nil => exact ht
  | cons _ _ hs _ ih => exact ih hs

end

variable (hfits : 2 * bound.toNatClampNeg < 2 ^ 63)

theorem toNatClampNeg_le (ha : 0 ≤ a) (h : a ≤ b) : a.toNatClampNeg ≤ b.toNatClampNeg := by
  have ha' := cast_toNatClampNeg a ha
  have hb : 0 ≤ b := by
    rw [nonneg_iff] at ha ⊢
    exact ha.trans (le_iff_toInt_le.1 h)
  have hb' := cast_toNatClampNeg b hb
  have hle := le_iff_toInt_le.1 h
  omega

include hfits in
/-- **A checked sum is exact**: no step wraps, and the total is the sum of the amounts. -/
theorem spec (h : Adds bound total amounts total') (hn : 0 ≤ total) (hb : total ≤ bound) :
    AddsExactly total amounts ∧ 0 ≤ total' ∧
      total'.toNatClampNeg = total.toNatClampNeg + (amounts.map Int64.toNatClampNeg).sum := by
  induction h with
  | nil => exact ⟨trivial, hn, rfl⟩
  | @cons total amount total' amounts ha hle hs _ ih =>
    have ht := toNatClampNeg_le hn hb
    have ha' := toNatClampNeg_le ha hle
    obtain ⟨he, hn', had⟩ := toNatClampNeg_add hn ha (by omega)
    obtain ⟨hr, ht', heq⟩ := ih hn' hs
    refine ⟨⟨he, hr⟩, ht', ?_⟩
    rw [heq, had, List.map_cons, List.sum_cons, Nat.add_assoc]

end Adds

/-! ### Amounts that halve -/

/-- **Amounts that halve after every `q` payments** add up to at most twice the first `q` of them,
however many there are. -/
theorem sum_halving_le {q : ℕ} (hq : 0 < q) (amount n : ℕ) :
    ∑ i ∈ Finset.range n, amount / 2 ^ (i / q) ≤ 2 * q * amount := by
  -- what is still paid out if the amount stays as it is in this interval and in the next one
  have hp : ∑ i ∈ Finset.range n, amount / 2 ^ (i / q) +
      (2 * q - n % q) * (amount / 2 ^ (n / q)) ≤ 2 * q * amount := by
    induction n with
    | zero => simp
    | succ n ih =>
      have hm : n % q < q := Nat.mod_lt n hq
      have hs := Nat.mod_add_div n q
      rw [Finset.sum_range_succ]
      refine le_trans ?_ ih
      rw [Nat.add_assoc, Nat.add_le_add_iff_left]
      by_cases hla : n % q + 1 = q
      · -- the next payment is the first one of the next interval
        obtain ⟨hd, hm'⟩ : (n + 1) / q = n / q + 1 ∧ (n + 1) % q = 0 :=
          (Nat.div_mod_unique hq).2 ⟨by rw [Nat.mul_add]; omega, hq⟩
        have hh : 2 * (amount / 2 ^ (n / q + 1)) ≤ amount / 2 ^ (n / q) := by
          rw [Nat.pow_succ, ← Nat.div_div_eq_div_mul]
          omega
        have hl : 2 * q - n % q = q + 1 := by omega
        rw [hd, hm', hl]
        calc amount / 2 ^ (n / q) + 2 * q * (amount / 2 ^ (n / q + 1))
            = amount / 2 ^ (n / q) + q * (2 * (amount / 2 ^ (n / q + 1))) := by
              rw [Nat.mul_comm 2 q, Nat.mul_assoc]
          _ ≤ amount / 2 ^ (n / q) + q * (amount / 2 ^ (n / q)) :=
              Nat.add_le_add_left (Nat.mul_le_mul_left q hh) _
          _ = (q + 1) * (amount / 2 ^ (n / q)) := by
              rw [Nat.add_mul q 1, Nat.one_mul, Nat.add_comm]
      · obtain ⟨hd, hm'⟩ : (n + 1) / q = n / q ∧ (n + 1) % q = n % q + 1 :=
          (Nat.div_mod_unique hq).2 ⟨by omega, by omega⟩
        have hl : 2 * q - n % q = (2 * q - (n % q + 1)) + 1 := by omega
        rw [hd, hm', hl, Nat.add_mul (2 * q - (n % q + 1)) 1, Nat.one_mul, Nat.add_comm]
  exact (Nat.le_add_right _ _).trans hp

end Sums
