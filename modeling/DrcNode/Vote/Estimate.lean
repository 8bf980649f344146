import DrcNode.Vote.Scale
import Mathlib.Algebra.Order.Floor.Div

/-!
# When the estimate is exact

`EstimateScale` multiplies the mean of the last scales by the mean of the last votes, both rounded
up, and divides by `IdealVoteNum`. The means are computed from sums in sixteen bits, and the result
is cut to sixteen bits. So the estimate is the number that is meant as long as neither sum leaves
the range and the result fits; beyond that it is off, and it may be zero, on which the thresholds
divide by zero.

## Main results

* `estimateExact_iff`.

Source: `mean` and `EstimateScale` in `vote/util.go`.
-/

namespace DrcNode

open Nat

variable {values prevVoteNums prevScales : List UInt16}

/-! ### Means -/

/-- The sum of the values. -/
def exactTotal (values : List UInt16) : Nat := (values.map UInt16.toNat).sum

/-- The mean of the values, rounded up. -/
def exactMean (values : List UInt16) : Nat := exactTotal values ⌈/⌉ values.length

/-- The accumulator of `mean` holds the sum up to multiples of `2 ^ 16`. -/
theorem toNat_foldl_add (values : List UInt16) (start : UInt16) :
    (values.foldl (· + ·) start).toNat = (start.toNat + exactTotal values) % 2 ^ 16 := by
  induction values generalizing start with
  | nil => exact (mod_eq_of_lt start.toNat_lt).symm
  | cons value values ih =>
    have ht : exactTotal (value :: values) = value.toNat + exactTotal values := List.sum_cons
    rw [List.foldl_cons, ih, UInt16.toNat_add, ht, mod_add_mod, Nat.add_assoc]

theorem length_pos_of_ne_nil (h : values ≠ []) : 0 < values.length := List.length_pos_iff.2 h

theorem toNat_mean (h : values ≠ []) :
    (mean values).toNat = exactTotal values % 2 ^ 16 ⌈/⌉ values.length := by
  have hp := length_pos_of_ne_nil h
  have hc : exactTotal values % 2 ^ 16 ⌈/⌉ values.length < 2 ^ 16 := by
    refine lt_of_le_of_lt ((ceilDiv_le_iff_le_mul hp).2 ?_)
      (mod_lt (exactTotal values) (Nat.two_pow_pos 16))
    exact Nat.le_mul_of_pos_left _ hp
  rw [mean, toNat_foldl_add, UInt16.toNat_zero, Nat.zero_add, ← ceilDiv_eq_add_pred_div,
    UInt16.toNat_ofNat', mod_eq_of_lt hc]

/-- **A mean is exact just when the sum fits into sixteen bits.** -/
theorem toNat_mean_eq_exactMean_iff (h : values ≠ []) (hle : values.length ≤ prevScaleNum + 1) :
    (mean values).toNat = exactMean values ↔ exactTotal values < 2 ^ 16 := by
  have hp := length_pos_of_ne_nil h
  rw [toNat_mean h, exactMean]
  constructor
  · intro heq
    by_contra hl
    have hlo : exactTotal values % 2 ^ 16 + values.length ≤ exactTotal values := by
      rw [prevScaleNum] at hle
      omega
    have hm := (ceilDiv_le_iff_le_mul hp).1 heq.ge
    have hc : values.length * (exactTotal values % 2 ^ 16 ⌈/⌉ values.length) <
        exactTotal values % 2 ^ 16 + values.length := by
      rw [ceilDiv_eq_add_pred_div]
      have := mul_div_le (exactTotal values % 2 ^ 16 + values.length - 1) values.length
      omega
    omega
  · intro hlt
    rw [mod_eq_of_lt hlt]

/-! ### The estimate -/

/-- The estimate that is meant: the mean number of votes, or the mean scale corrected by it. -/
def exactEstimate (prevVoteNums prevScales : List UInt16) : Nat :=
  let meanVoteNum := max 1 (exactMean prevVoteNums)
  if exactMean prevScales ≤ idealVoteNum then meanVoteNum
  else min (2 ^ 16 - 1) (exactMean prevScales * meanVoteNum / idealVoteNum)

/-- The means and the estimate are the numbers that are meant; the estimate is not zero, and both
thresholds exist. -/
structure EstimateExact (prevVoteNums prevScales : List UInt16) : Prop where
  mean_votes : (mean prevVoteNums).toNat = exactMean prevVoteNums
  mean_scales : (mean prevScales).toNat = exactMean prevScales
  estimate_eq : (estimateScale prevVoteNums prevScales).toNat =
    exactEstimate prevVoteNums prevScales
  estimate_ne_zero : estimateScale prevVoteNums prevScales ≠ 0
  verges : (∃ verge, votesVerge (estimateScale prevVoteNums prevScales) = .ok verge) ∧
    ∃ verge, blockVerge (estimateScale prevVoteNums prevScales) = .ok verge

/-- The sums and the result fit into sixteen bits, or the result happens to be the largest number.
-/
def InRange (prevVoteNums prevScales : List UInt16) : Prop :=
  exactTotal prevVoteNums < 2 ^ 16 ∧ exactTotal prevScales < 2 ^ 16 ∧
    (idealVoteNum < exactMean prevScales →
      let result := exactMean prevScales * max 1 (exactMean prevVoteNums) / idealVoteNum
      result < 2 ^ 16 ∨ result % 2 ^ 16 = 2 ^ 16 - 1)

theorem toNat_positiveMean (h : (mean values).toNat = exactMean values) :
    (positiveMean values).toNat = max 1 (exactMean values) := by
  rw [positiveMean]
  split_ifs with hz
  · rw [← h, hz]
    rfl
  · have hp : (mean values).toNat ≠ 0 := fun h0 => hz (UInt16.toNat_inj.1 h0)
    omega

/-- The estimate from exact means: the result in a large network is cut to sixteen bits. -/
theorem toNat_estimateScale (hv : (mean prevVoteNums).toNat = exactMean prevVoteNums)
    (hs : (mean prevScales).toNat = exactMean prevScales) :
    (estimateScale prevVoteNums prevScales).toNat =
      if exactMean prevScales ≤ idealVoteNum then max 1 (exactMean prevVoteNums)
      else exactMean prevScales * max 1 (exactMean prevVoteNums) / idealVoteNum % 2 ^ 16 := by
  rw [estimateScale, toNat_positiveMean hv, toNat_positiveMean hs]
  by_cases hle : exactMean prevScales ≤ idealVoteNum
  · rw [if_pos hle, if_pos (max_le (by decide) hle), toNat_positiveMean hv]
  · have hm : max 1 (exactMean prevScales) = exactMean prevScales := by
      omega
    rw [if_neg hle, hm, if_neg hle, UInt16.toNat_ofNat']

theorem one_le_result {meanScale meanVoteNum : Nat} (hs : idealVoteNum < meanScale)
    (hv : 1 ≤ meanVoteNum) : 1 ≤ meanScale * meanVoteNum / idealVoteNum := by
  rw [Nat.le_div_iff_mul_le (by decide)]
  exact (Nat.mul_comm 1 idealVoteNum).trans_le (Nat.mul_le_mul hs.le hv)

theorem exactEstimate_ne_zero : exactEstimate prevVoteNums prevScales ≠ 0 := by
  rw [exactEstimate]
  split_ifs with hle
  · omega
  · have := one_le_result (not_le.1 hle) (le_max_left 1 (exactMean prevVoteNums))
    omega

theorem exists_verges {scale : UInt16} (h : scale ≠ 0) :
    (∃ verge, votesVerge scale = .ok verge) ∧ ∃ verge, blockVerge scale = .ok verge := by
  rw [votesVerge, blockVerge_eq, if_neg h, if_neg h]
  exact ⟨⟨_, rfl⟩, _, rfl⟩

/-- **When the estimate is exact**: for up to ten votes and ten scales, just when they are in
range. -/
theorem estimateExact_iff (hvotes : prevVoteNums ≠ [])
    (hvotesLen : prevVoteNums.length ≤ prevScaleNum + 1) (hscales : prevScales ≠ [])
    (hscalesLen : prevScales.length ≤ prevScaleNum + 1) :
    EstimateExact prevVoteNums prevScales ↔ InRange prevVoteNums prevScales := by
  constructor
  · intro h
    refine ⟨(toNat_mean_eq_exactMean_iff hvotes hvotesLen).1 h.mean_votes,
      (toNat_mean_eq_exactMean_iff hscales hscalesLen).1 h.mean_scales, fun hl => ?_⟩
    have he := h.estimate_eq
    rw [toNat_estimateScale h.mean_votes h.mean_scales, exactEstimate, if_neg (not_le.2 hl),
      if_neg (not_le.2 hl)] at he
    omega
  · rintro ⟨hv, hs, hr⟩
    have hmv := (toNat_mean_eq_exactMean_iff hvotes hvotesLen).2 hv
    have hm := (toNat_mean_eq_exactMean_iff hscales hscalesLen).2 hs
    have he : (estimateScale prevVoteNums prevScales).toNat =
        exactEstimate prevVoteNums prevScales := by
      rw [toNat_estimateScale hmv hm, exactEstimate]
      split_ifs with hle
      · rfl
      · have := hr (not_le.1 hle)
        generalize exactMean prevScales * max 1 (exactMean prevVoteNums) / idealVoteNum = result
          at this ⊢
        omega
    have hne : estimateScale prevVoteNums prevScales ≠ 0 := by
      intro hz
      rw [hz] at he
      exact exactEstimate_ne_zero he.symm
    exact ⟨hmv, hm, he, hne, exists_verges hne⟩

theorem estimateExact_small : EstimateExact [45, 46, 47, 48, 49] [48, 49, 50, 51, 52] :=
  (estimateExact_iff (List.cons_ne_nil _ _) (by decide) (List.cons_ne_nil _ _) (by decide)).2
    ⟨by decide, by decide, by decide⟩

/-- **Values out of range.** -/
theorem estimate_wraps : mean [40000, 40000] = 7232 ∧ exactMean [40000, 40000] = 40000 ∧
      estimateScale [512] [38400] = 0 ∧ exactEstimate [512] [38400] = 65535 ∧
      votesVerge (estimateScale [512] [38400]) = .error .divideByZero := by
  decide

end DrcNode
