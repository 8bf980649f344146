import Mathlib.FieldTheory.Finite.Basic
import Mathlib.NumberTheory.LucasPrimality

/-!
# Powers modulo a number

`powMod m b e` is `b ^ e % m` by repeated squaring, so that it can be evaluated when `e` has some
hundred bits. With it Lucas's test becomes a certificate that the kernel checks: a number `p` is
prime when some `a` has order `p - 1` modulo `p`, which is seen from the prime factors of
`p - 1`.

Modulo a prime that is three modulo four a square root is a power as well.
-/

namespace ModPow

/-- Square and multiply, the low bit of the exponent first; one round for each bit. -/
def powModLoop (m : ℕ) : ℕ → ℕ → ℕ → ℕ → ℕ
  | 0, _, _, acc => acc
  | rounds + 1, b, e, acc =>
      powModLoop m rounds (b * b % m) (e / 2) (if e % 2 = 1 then acc * b % m else acc)

/-- The power `b ^ e` modulo `m`. -/
def powMod (m b e : ℕ) : ℕ := powModLoop m (Nat.log2 e + 1) (b % m) e (1 % m)

theorem powModLoop_modEq (m : ℕ) {rounds b e acc : ℕ} (h : e < 2 ^ rounds) :
    powModLoop m rounds b e acc ≡ acc * b ^ e [MOD m] := by
  induction rounds generalizing b e acc with
  | zero =>
    obtain rfl : e = 0 := by simpa using h
    rw [powModLoop, pow_zero, mul_one]
  | succ rounds ih =>
    have hh : e / 2 < 2 ^ rounds := by
      omega
    have hs : (b * b % m) ^ (e / 2) ≡ b ^ (2 * (e / 2)) [MOD m] := by
      rw [pow_mul, sq]
      exact (Nat.mod_modEq (b * b) m).pow _
    refine (ih hh).trans ?_
    split_ifs with ho
    · calc acc * b % m * (b * b % m) ^ (e / 2)
          ≡ acc * b * b ^ (2 * (e / 2)) [MOD m] := (Nat.mod_modEq _ _).mul hs
        _ = acc * b ^ e := by
          rw [mul_assoc, ← pow_succ', ← ho, Nat.div_add_mod]
    · have he : 2 * (e / 2) = e := by omega
      calc acc * (b * b % m) ^ (e / 2) ≡ acc * b ^ (2 * (e / 2)) [MOD m] := hs.mul_left acc
        _ = acc * b ^ e := by rw [he]

theorem powModLoop_lt {m rounds b e acc : ℕ} (ha : acc < m) : powModLoop m rounds b e acc < m := by
  induction rounds generalizing b e acc with
  | zero => exact ha
  | succ rounds ih =>
    refine ih ?_
    split_ifs
    · exact Nat.mod_lt _ (Nat.zero_lt_of_lt ha)
    · exact ha

/-- **Repeated squaring computes the power.** -/
theorem powMod_eq {m : ℕ} (hm : 0 < m) (b e : ℕ) : powMod m b e = b ^ e % m := by
  have hmo : powMod m b e ≡ b ^ e [MOD m] := by
    refine (powModLoop_modEq m Nat.lt_log2_self).trans ?_
    calc 1 % m * (b % m) ^ e ≡ 1 * b ^ e [MOD m] :=
          (Nat.mod_modEq 1 m).mul ((Nat.mod_modEq b m).pow e)
      _ = b ^ e := one_mul _
  have hlt : powMod m b e < m := powModLoop_lt (Nat.mod_lt 1 hm)
  rw [← hmo, Nat.mod_eq_of_lt hlt]

theorem cast_pow_eq_one_iff {p : ℕ} (hp : 1 < p) (a e : ℕ) :
    (a : ZMod p) ^ e = 1 ↔ powMod p a e = 1 := by
  rw [powMod_eq (Nat.zero_lt_of_lt hp), ← Nat.cast_pow, ← Nat.cast_one,
    ZMod.natCast_eq_natCast_iff', Nat.mod_eq_of_lt hp]

/-- **Lucas's test**, with the prime factors of `p - 1` as a list. -/
theorem prime_of_primitiveRoot {p : ℕ} (a : ℕ) {factors : List ℕ} (hp : 1 < p)
    (hpd : factors.prod = p - 1) (hpr : ∀ q ∈ factors, q.Prime)
    (ho : powMod p a (p - 1) = 1) (hne : ∀ q ∈ factors, powMod p a ((p - 1) / q) ≠ 1) :
    p.Prime := by
  refine lucas_primality p (a : ZMod p) ((cast_pow_eq_one_iff hp a _).2 ho) ?_
  intro q hq hd
  rw [← hpd] at hd
  obtain ⟨f, hf, hqf⟩ := (Prime.dvd_prod_iff hq.prime).1 hd
  obtain rfl : q = f := (Nat.prime_dvd_prime_iff_eq hq (hpr f hf)).1 hqf
  rw [ne_eq, cast_pow_eq_one_iff hp]
  exact hne q hf

/-- **Square roots modulo a prime that is three modulo four.** A power of a square is one of its two
roots. -/
theorem powMod_square {p y : ℕ} (hp : p.Prime) (h3 : p % 4 = 3) (hy : y < p) :
    powMod p (y * y % p) ((p + 1) / 4) = y ∨ powMod p (y * y % p) ((p + 1) / 4) + y = p := by
  have : Fact p.Prime := ⟨hp⟩
  set root := powMod p (y * y % p) ((p + 1) / 4) with hr
  have hlt : root < p := powModLoop_lt (Nat.mod_lt 1 hp.pos)
  have hc : (root : ZMod p) = (y : ZMod p) ^ ((p + 1) / 2) := by
    have he : 2 * ((p + 1) / 4) = (p + 1) / 2 := by omega
    rw [hr, powMod_eq hp.pos, ZMod.natCast_mod, Nat.cast_pow, ZMod.natCast_mod, Nat.cast_mul,
      ← sq, ← pow_mul, he]
  have hs : (root : ZMod p) ^ 2 = (y : ZMod p) ^ 2 := by
    have he : (p + 1) / 2 * 2 = p + 1 := by omega
    rw [hc, ← pow_mul, he, pow_succ, ZMod.pow_card, sq]
  rcases sq_eq_sq_iff_eq_or_eq_neg.1 hs with heq | hn
  · left
    rw [ZMod.natCast_eq_natCast_iff', Nat.mod_eq_of_lt hlt, Nat.mod_eq_of_lt hy] at heq
    exact heq
  have hd : p ∣ root + y := by
    rw [← ZMod.natCast_eq_zero_iff, Nat.cast_add, hn, neg_add_cancel]
  obtain ⟨k, hk⟩ := hd
  obtain rfl | rfl : k = 0 ∨ k = 1 := by
    have hk2 : k < 2 := by
      by_contra hge
      have hle : p * 2 ≤ p * k := Nat.mul_le_mul_left p (not_lt.1 hge)
      omega
    omega
  · left
    omega
  · right
    omega

end ModPow
