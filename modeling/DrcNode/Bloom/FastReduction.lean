import Mathlib.Tactic.Ring

/-!
# Reduction of a hash to a range

A committed filter maps 64-bit hashes into `[0, N * M)` by taking the high half of a product of 128
bits, which is put together from four products of 32-bit halves.

## Main results

* `fastReduction_spec`.

Source: `fastReduction` in `drcutil/gcs/gcs.go`.
-/

namespace DrcNode

open UInt64

/-- The products and sums of `fastReduction`, in their order, over numbers with the halves `hi` and
`lo`. -/
def reductionSteps {α : Type} [Add α] [Mul α] (hi lo : α → α) (v nHi nLo : α) : List α :=
  let vhi := hi v
  let vlo := lo v
  let vnphi := vhi * nHi
  let vnpmid := vhi * nLo
  let npvmid := nHi * vlo
  let vnplo := vlo * nLo
  let mid := lo vnpmid + lo npvmid
  let sum := mid + hi vnplo
  let high := vnphi + hi vnpmid
  [vnphi, vnpmid, npvmid, vnplo, mid, sum, high, high + hi npvmid, high + hi npvmid + hi sum]

def highBits (v : UInt64) : UInt64 := v >>> 32

def lowBits (v : UInt64) : UInt64 := v.toUInt32.toUInt64

/-- `fastReduction`, which returns the last of its sums. -/
def fastReduction (v nHi nLo : UInt64) : UInt64 :=
  (reductionSteps highBits lowBits v nHi nLo).getLastD 0

variable (v n : UInt64)

theorem toNat_highBits : (highBits v).toNat = v.toNat / 2 ^ 32 := by
  rw [highBits, UInt64.toNat_shiftRight, Nat.shiftRight_eq_div_pow]
  rfl

theorem toNat_lowBits : (lowBits v).toNat = v.toNat % 2 ^ 32 := by
  simp [lowBits]

/-- **No sum or product of `fastReduction` overflows.** -/
theorem map_toNat_reductionSteps :
    (reductionSteps highBits lowBits v (highBits n) (lowBits n)).map toNat =
      reductionSteps (· / 2 ^ 32) (· % 2 ^ 32) v.toNat (n.toNat / 2 ^ 32) (n.toNat % 2 ^ 32) := by
  have hv : v.toNat / 2 ^ 32 < 2 ^ 32 ∧ v.toNat % 2 ^ 32 < 2 ^ 32 := by
    have := v.toNat_lt
    omega
  have hn : n.toNat / 2 ^ 32 < 2 ^ 32 ∧ n.toNat % 2 ^ 32 < 2 ^ 32 := by
    have := n.toNat_lt
    omega
  have hm : ∀ {a b : Nat}, a < 2 ^ 32 → b < 2 ^ 32 → a * b ≤ (2 ^ 32 - 1) * (2 ^ 32 - 1) :=
    fun ha hb => Nat.mul_le_mul (by omega) (by omega)
  have h₁ := hm hv.1 hn.1
  have h₂ := hm hv.1 hn.2
  have h₃ := hm hn.1 hv.2
  have h₄ := hm hv.2 hn.2
  simp only [reductionSteps, List.map_cons, List.map_nil, UInt64.toNat_add, UInt64.toNat_mul,
    toNat_highBits, toNat_lowBits]
  generalize v.toNat / 2 ^ 32 * (n.toNat / 2 ^ 32) = p₁ at *
  generalize v.toNat / 2 ^ 32 * (n.toNat % 2 ^ 32) = p₂ at *
  generalize n.toNat / 2 ^ 32 * (v.toNat % 2 ^ 32) = p₃ at *
  generalize v.toNat % 2 ^ 32 * (n.toNat % 2 ^ 32) = p₄ at *
  simp only [List.cons.injEq, and_true]
  refine ⟨?_, ?_, ?_, ?_, ?_, ?_, ?_, ?_, ?_⟩ <;> omega

theorem toNat_fastReduction :
    (fastReduction v (highBits n) (lowBits n)).toNat = v.toNat * n.toNat / 2 ^ 64 := by
  have hp : v.toNat * n.toNat = v.toNat / 2 ^ 32 * (n.toNat / 2 ^ 32) * 2 ^ 64 +
      (v.toNat / 2 ^ 32 * (n.toNat % 2 ^ 32) + n.toNat / 2 ^ 32 * (v.toNat % 2 ^ 32)) * 2 ^ 32 +
        v.toNat % 2 ^ 32 * (n.toNat % 2 ^ 32) := by
    nth_rewrite 1 [← Nat.div_add_mod v.toNat (2 ^ 32), ← Nat.div_add_mod n.toNat (2 ^ 32)]
    ring
  refine (congrArg (·.getLastD 0) (map_toNat_reductionSteps v n)).trans ?_
  simp only [reductionSteps, List.getLastD_cons, List.getLastD_nil]
  omega

/-- **`fastReduction` is the high half of the product**, without an overflow on the way; so it is
below `n`, and monotone. -/
theorem fastReduction_spec :
    (fastReduction v (highBits n) (lowBits n)).toNat = v.toNat * n.toNat / 2 ^ 64 ∧
    (reductionSteps highBits lowBits v (highBits n) (lowBits n)).map toNat =
      reductionSteps (· / 2 ^ 32) (· % 2 ^ 32) v.toNat (n.toNat / 2 ^ 32) (n.toNat % 2 ^ 32) ∧
    (0 < n → fastReduction v (highBits n) (lowBits n) < n) ∧
    ∀ v', v ≤ v' → fastReduction v (highBits n) (lowBits n) ≤
      fastReduction v' (highBits n) (lowBits n) := by
  refine ⟨toNat_fastReduction v n, map_toNat_reductionSteps v n, fun hn => ?_, fun v' hv => ?_⟩
  · rw [lt_iff_toNat_lt, toNat_fastReduction]
    exact Nat.div_lt_of_lt_mul (Nat.mul_lt_mul_of_pos_right v.toNat_lt (lt_iff_toNat_lt.1 hn))
  · rw [le_iff_toNat_le, toNat_fastReduction, toNat_fastReduction]
    exact Nat.div_le_div_right (Nat.mul_le_mul_right _ (le_iff_toNat_le.1 hv))

end DrcNode
