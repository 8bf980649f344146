import DrcNode.Library.Checked
import DrcNode.Library.ModPow
import DrcNode.Wire.Decode
import Mathlib.Tactic.NormNum.Prime

/-!
# Public keys

A public key is a point of the curve `y² = x³ + 7` modulo `P`. It is stored with both coordinates,
or with the first one and the parity of the second; the reader of the short form computes the second
coordinate as a square root. Since `P` is a prime that is three modulo four, the root is a power,
and since `P` is odd the two roots differ in parity.

## Main results

* `pubKey_forms_iff`: which strings are read, and as which key.

Source: `btcec/pubkey.go`; `IsOnCurve` and the constants of the curve in `btcec/btcec.go`. The
arithmetic of `fieldVal` is taken as arithmetic modulo `P`.
-/

namespace DrcNode

open List ModPow

namespace Btcec

/-! ### The field of the curve -/

/-- `secp256k1.P`. -/
def fieldPrime : Nat := 0xFFFFFFFFFFFFFFFFFFFFFFFFFFFFFFFFFFFFFFFFFFFFFFFFFFFFFFFEFFFFFC2F

def qPlus1Div4 : Nat := (fieldPrime + 1) / 4

theorem prime_factor1 : Nat.Prime 173378833005251801 := by
  refine prime_of_primitiveRoot 6 (by norm_num)
    (show [2, 2, 2, 5, 5, 2621, 24809, 13331831].prod = _ by decide) ?_ (by decide +kernel)
    (by decide +kernel)
  norm_num

theorem prime_factor2 : Nat.Prime 22149492674086928081353 := by
  refine prime_of_primitiveRoot 5 (by norm_num)
    (show [173378833005251801, 2, 2, 2, 3, 5323].prod = _ by decide) ?_ (by decide +kernel)
    (by decide +kernel)
  exact forall_mem_cons.2 ⟨prime_factor1, by norm_num⟩

theorem prime_factor3 : Nat.Prime 132896956044521568488119 := by
  refine prime_of_primitiveRoot 6 (by norm_num)
    (show [22149492674086928081353, 2, 3].prod = _ by decide) ?_ (by decide +kernel)
    (by decide +kernel)
  exact forall_mem_cons.2 ⟨prime_factor2, by norm_num⟩

theorem prime_factor4 : Nat.Prime 255515944373312847190720520512484175977 := by
  refine prime_of_primitiveRoot 3 (by norm_num)
    (show [2, 2, 2, 7, 7, 11, 1627, 2657, 4423, 41201, 96557, 7240687, 107590001].prod = _ by
      decide) ?_ (by decide +kernel) (by decide +kernel)
  norm_num

theorem prime_factor5 :
    Nat.Prime 205115282021455665897114700593932402728804164701536103180137503955397371 := by
  refine prime_of_primitiveRoot 10 (by norm_num)
    (show [132896956044521568488119, 255515944373312847190720520512484175977, 2, 3, 5, 29, 29, 31,
      7723].prod = _ by decide) ?_ (by decide +kernel) (by decide +kernel)
  exact forall_mem_cons.2 ⟨prime_factor3, forall_mem_cons.2 ⟨prime_factor4, by norm_num⟩⟩

/-- **The modulus of the field is prime.** -/
theorem prime_fieldPrime : Nat.Prime fieldPrime := by
  rw [fieldPrime]
  refine prime_of_primitiveRoot 3 (by norm_num)
    (show [205115282021455665897114700593932402728804164701536103180137503955397371, 2, 3, 7,
      13441].prod = _ by decide) ?_ (by decide +kernel) (by decide +kernel)
  exact forall_mem_cons.2
    ⟨prime_factor5, by norm_num⟩

theorem fieldPrime_mod_four : fieldPrime % 4 = 3 := by decide

/-! ### Parsing -/

/-- The errors of `ParsePubKey`, in the order of the source. -/
inductive PubKeyError
  | empty
  | invalidMagic (format : UInt8)
  | yBitMismatch
  | invalidMagicCompressed (format : UInt8)
  | invalidSquareRoot
  | invalidLength (length : Nat)
  | xTooLarge
  | yTooLarge
  | notOnCurve
  deriving DecidableEq, Repr

def isOdd (a : Nat) : Bool := a % 2 == 1

def setBytes (bytes : List UInt8) : Nat := ofLeBytes bytes.reverse

/-- The right-hand side of the equation of the curve. -/
def curveValue (x : Nat) : Nat := (x * x * x + 7) % fieldPrime

def decompressPoint (x : Nat) (ybit : Bool) : Except PubKeyError Nat :=
  let x3 := curveValue x
  let root := ModPow.powMod fieldPrime x3 qPlus1Div4
  let y := if ybit ≠ isOdd root then fieldPrime - root else root
  if y * y % fieldPrime ≠ x3 then .error .invalidSquareRoot
  else if ybit ≠ isOdd y then .error .yBitMismatch
  else .ok y

def isOnCurve (key : PublicKey) : Prop := key.Y * key.Y % fieldPrime = curveValue key.X
  deriving Decidable

/-- The `switch` over the length in `ParsePubKey`, for a key whose first byte is `first`. -/
def readPubKey (first : UInt8) (rest : List UInt8) : Except PubKeyError PublicKey :=
  let ybit := first &&& 0x01 == 0x01
  let format := first &&& ~~~0x01
  if rest.length + 1 = 65 then
    if format ≠ 0x04 ∧ format ≠ 0x06 then .error (.invalidMagic first)
    else
      let key := { X := setBytes (rest.take 32), Y := setBytes (rest.drop 32) }
      if format = 0x06 ∧ ybit ≠ isOdd key.Y then .error .yBitMismatch else .ok key
  else if rest.length + 1 = 33 then
    if format ≠ 0x02 then .error (.invalidMagicCompressed first)
    else (decompressPoint (setBytes rest) ybit).map fun y => { X := setBytes rest, Y := y }
  else .error (.invalidLength (rest.length + 1))

/-- The checks at the end of `ParsePubKey`. -/
def checkPubKey (key : PublicKey) : Except PubKeyError PublicKey :=
  if fieldPrime ≤ key.X then .error .xTooLarge
  else if fieldPrime ≤ key.Y then .error .yTooLarge
  else if isOnCurve key then .ok key
  else .error .notOnCurve

def parsePubKey : List UInt8 → Except PubKeyError PublicKey
  | [] => .error .empty
  | first :: rest => readPubKey first rest >>= checkPubKey

/-- `SerializeUncompressed`. The coordinates of a key are below `P`, so that their bytes, padded to
32, are these. -/
def serializeUncompressed (key : PublicKey) : List UInt8 :=
  0x04 :: (beBytes 32 key.X ++ beBytes 32 key.Y)

/-! ### Decompression -/

theorem beBytes_setBytes {bytes : List UInt8} {n : Nat} (h : bytes.length = n) :
    beBytes n (setBytes bytes) = bytes := by
  have hle := leBytes_ofLeBytes bytes.reverse
  rw [length_reverse, h] at hle
  rw [beBytes, setBytes, hle, reverse_reverse]

theorem setBytes_beBytes {val n : Nat} (h : val < 256 ^ n) : setBytes (beBytes n val) = val := by
  rw [setBytes, beBytes, reverse_reverse, ofLeBytes_leBytes, Nat.mod_eq_of_lt h]

theorem isOdd_setBytes_concat (bytes : List UInt8) (last : UInt8) :
    isOdd (setBytes (bytes ++ [last])) = isOdd last.toNat := by
  rw [setBytes, reverse_append, reverse_singleton, singleton_append, ofLeBytes, isOdd]
  congr 1
  omega

theorem isOdd_eq_iff {a b : Nat} : isOdd a = isOdd b ↔ a % 2 = b % 2 := by
  rw [isOdd, isOdd, Bool.eq_iff_iff, beq_iff_eq, beq_iff_eq]
  omega

theorem root_of_parity {root y : Nat} (h : root = y ∨ root + y = fieldPrime) :
    (if isOdd y ≠ isOdd root then fieldPrime - root else root) = y := by
  rcases h with rfl | hs
  · exact if_neg (not_not.2 rfl)
  have ho := fieldPrime_mod_four
  have hne : isOdd y ≠ isOdd root := by
    rw [ne_eq, isOdd_eq_iff]
    omega
  rw [if_pos hne]
  omega

/-- **The second coordinate is found from its parity.** -/
theorem decompressPoint_eq {key : PublicKey} (hc : isOnCurve key) (hY : key.Y < fieldPrime) :
    decompressPoint key.X (isOdd key.Y) = .ok key.Y := by
  have hv : key.Y * key.Y % fieldPrime = curveValue key.X := hc
  have hs := powMod_square prime_fieldPrime fieldPrime_mod_four hY
  rw [hv, show (fieldPrime + 1) / 4 = qPlus1Div4 from rfl] at hs
  rw [decompressPoint]
  simp only [root_of_parity hs]
  rw [if_neg (not_not.2 hv), if_neg (not_not.2 rfl)]

theorem checkPubKey_eq_ok {key key' : PublicKey} : checkPubKey key = .ok key' ↔
    key' = key ∧ key.X < fieldPrime ∧ key.Y < fieldPrime ∧ isOnCurve key := by
  rw [checkPubKey]
  split_ifs with hX hY hc
  · exact ⟨fun h => (by cases h), fun h => absurd h.2.1 (not_lt.2 hX)⟩
  · exact ⟨fun h => (by cases h), fun h => absurd h.2.2.1 (not_lt.2 hY)⟩
  · exact ⟨fun h => ⟨(Except.ok.inj h).symm, not_le.1 hX, not_le.1 hY, hc⟩, fun h => by rw [h.1]⟩
  · exact ⟨fun h => (by cases h), fun h => absurd h.2.2.2 hc⟩

theorem readPubKey_uncompressed {x y : List UInt8} (hx : x.length = 32) (hy : y.length = 32) :
    readPubKey 0x04 (x ++ y) = .ok { X := setBytes x, Y := setBytes y } := by
  have hl : (x ++ y).length + 1 = 65 := by
    rw [length_append]
    omega
  rw [readPubKey]
  simp only [if_pos hl]
  rw [take_left' hx, drop_left' hx]
  rfl

/-- The first byte of the short form of a key. -/
def compressedFormat (odd : Bool) : UInt8 := if odd then 0x03 else 0x02

theorem readPubKey_compressed {x : List UInt8} (hx : x.length = 32) (odd : Bool) :
    readPubKey (compressedFormat odd) x =
      (decompressPoint (setBytes x) odd).map fun y => { X := setBytes x, Y := y } := by
  have hs : ¬x.length + 1 = 65 := by omega
  have hl : x.length + 1 = 33 := by omega
  rw [readPubKey]
  simp only [if_neg hs, if_pos hl]
  cases odd <;> rfl

/-- **A key that is parsed from its long form is parsed from its short form**, and written in the
long form again. -/
theorem parsePubKey_compressed {x y : List UInt8} (hx : x.length = 32) (hy : y.length = 32)
    {key : PublicKey} (h : parsePubKey (0x04 :: (x ++ y)) = .ok key) :
    parsePubKey (compressedFormat (isOdd (setBytes y)) :: x) = .ok key ∧
      serializeUncompressed key = 0x04 :: (x ++ y) := by
  rw [parsePubKey, readPubKey_uncompressed hx hy] at h
  have hc : checkPubKey { X := setBytes x, Y := setBytes y } = .ok key := h
  obtain ⟨rfl, -, hY, hcu⟩ := checkPubKey_eq_ok.1 hc
  constructor
  · have hp := decompressPoint_eq hcu hY
    rw [parsePubKey, readPubKey_compressed hx, hp]
    exact hc
  · rw [serializeUncompressed, beBytes_setBytes hx, beBytes_setBytes hy]

/-! ### The three forms of a key -/

def serializeCompressed (key : PublicKey) : List UInt8 :=
  compressedFormat (isOdd key.Y) :: beBytes 32 key.X

def serializeHybrid (key : PublicKey) : List UInt8 :=
  (if isOdd key.Y then 0x07 else 0x06) :: (beBytes 32 key.X ++ beBytes 32 key.Y)

/-- A point of the curve. -/
def IsPoint (key : PublicKey) : Prop :=
  key.X < fieldPrime ∧ key.Y < fieldPrime ∧ isOnCurve key

variable {key : PublicKey}

theorem setBytes_coordinate {x : Nat} (h : x < fieldPrime) : setBytes (beBytes 32 x) = x :=
  setBytes_beBytes (h.trans (by decide))

/-- **Each form of a point is parsed.** -/
theorem parsePubKey_serialize (h : IsPoint key) : parsePubKey (serializeCompressed key) = .ok key ∧
      parsePubKey (serializeUncompressed key) = .ok key ∧
      parsePubKey (serializeHybrid key) = .ok key := by
  have hc : checkPubKey key = .ok key := checkPubKey_eq_ok.2 ⟨rfl, h⟩
  have hX := setBytes_coordinate h.1
  have hY := setBytes_coordinate h.2.1
  have hl := @length_beBytes 32
  refine ⟨?_, ?_, ?_⟩
  · rw [serializeCompressed, parsePubKey, readPubKey_compressed (hl _), hX,
      decompressPoint_eq h.2.2 h.2.1]
    exact hc
  · rw [serializeUncompressed, parsePubKey, readPubKey_uncompressed (hl _) (hl _), hX, hY]
    exact hc
  · have hr : readPubKey (if isOdd key.Y then 0x07 else 0x06)
        (beBytes 32 key.X ++ beBytes 32 key.Y) = .ok key := by
      rw [readPubKey]
      simp only [length_append, hl, take_left' (hl _), drop_left' (hl _), hX, hY]
      cases isOdd key.Y <;> rfl
    rw [serializeHybrid, parsePubKey, hr]
    exact hc

theorem format_add_ybit (first : UInt8) :
    (first &&& ~~~0x01) + (if first &&& 0x01 == 0x01 then 1 else 0) = first := by
  have hb : ∀ n < 256, (UInt8.ofNat n &&& ~~~0x01) +
      (if UInt8.ofNat n &&& 0x01 == 0x01 then 1 else 0) = UInt8.ofNat n := by
    decide +kernel
  simpa using hb first.toNat first.toNat_lt

theorem isOdd_of_decompressPoint {x y : Nat} {ybit : Bool} (h : decompressPoint x ybit = .ok y) :
    isOdd y = ybit := by
  rw [decompressPoint] at h
  generalize ModPow.powMod fieldPrime (curveValue x) qPlus1Div4 = root at h
  generalize (if ybit ≠ isOdd root then fieldPrime - root else root) = y' at h
  split_ifs at h with _ hp
  cases h
  exact (not_not.1 hp).symm

/-- What is read is one of the three forms, or the long form with the first byte `0x05`. -/
theorem eq_of_readPubKey {first : UInt8} {rest : List UInt8} (h : readPubKey first rest = .ok key) :
    first :: rest = serializeCompressed key ∨ first :: rest = serializeUncompressed key ∨
      first :: rest = serializeHybrid key ∨
      first :: rest = 0x05 :: (beBytes 32 key.X ++ beBytes 32 key.Y) := by
  have hf := format_add_ybit first
  simp only [readPubKey] at h
  generalize first &&& ~~~0x01 = format at *
  generalize (first &&& 0x01 == 0x01) = ybit at *
  split_ifs at h with hl hfo hp hs hfo
  · -- the long form, where the parity is checked for the hybrid format only
    cases h
    have hx : beBytes 32 (setBytes (rest.take 32)) = rest.take 32 :=
      beBytes_setBytes (by rw [length_take]; omega)
    have hy : beBytes 32 (setBytes (rest.drop 32)) = rest.drop 32 :=
      beBytes_setBytes (by rw [length_drop]; omega)
    simp only [serializeUncompressed, serializeHybrid, hx, hy, take_append_drop,
      List.cons.injEq, and_true, ← hf]
    grind
  · obtain ⟨y, hy, rfl⟩ := Checked.map_eq_ok.1 h
    have hx : beBytes 32 (setBytes rest) = rest := beBytes_setBytes (by omega)
    simp only [serializeCompressed, hx, List.cons.injEq, and_true, ← hf,
      isOdd_of_decompressPoint hy, compressedFormat]
    grind

/-- **Public keys**: each form of a point is parsed, and what is parsed is a form of a point, but
for the long form with the first byte `0x05`. -/
theorem pubKey_forms_iff (key : PublicKey) (bytes : List UInt8) :
    (IsPoint key → parsePubKey (serializeCompressed key) = .ok key ∧
      parsePubKey (serializeUncompressed key) = .ok key ∧
      parsePubKey (serializeHybrid key) = .ok key) ∧
    (parsePubKey bytes = .ok key → IsPoint key ∧
      ((bytes = serializeCompressed key ∨ bytes = serializeUncompressed key ∨
        bytes = serializeHybrid key) ↔ bytes.head? ≠ some 0x05)) := by
  refine ⟨parsePubKey_serialize, fun h => ?_⟩
  cases bytes with
  | nil => cases h
  | cons first rest =>
    obtain ⟨key', hr, hc⟩ := Checked.bind_eq_ok.1 h
    obtain ⟨rfl, hp⟩ := checkPubKey_eq_ok.1 hc
    refine ⟨hp, fun hf => ?_, fun hne => ?_⟩
    · rcases hf with hf | hf | hf <;> rw [hf]
      · cases ho : isOdd key.Y <;> simp [serializeCompressed, ho, compressedFormat]
      · simp [serializeUncompressed]
      · cases ho : isOdd key.Y <;> simp [serializeHybrid, ho]
    · rcases eq_of_readPubKey hr with hf | hf | hf | hf
      · exact .inl hf
      · exact .inr (.inl hf)
      · exact .inr (.inr hf)
      · exact absurd (congrArg List.head? hf) hne

/-- The base point of the curve. -/
def basePoint : PublicKey where
  X := 0x79BE667EF9DCBBAC55A06295CE870B07029BFCDB2DCE28D959F2815B16F81798
  Y := 0x483ADA7726A3C4655DA4FBFC0E1108A8FD17B448A68554199C47D08FFB10D4B8

theorem pubKey_forms_basePoint :
    parsePubKey (serializeCompressed basePoint) = .ok basePoint ∧ IsPoint basePoint := by
  have hp : IsPoint basePoint := by
    unfold IsPoint
    decide +kernel
  exact ⟨((pubKey_forms_iff basePoint []).1 hp).1,
    ((pubKey_forms_iff basePoint (serializeCompressed basePoint)).2 (by decide +kernel)).1⟩

/-- The long form of the base point with another first byte. -/
theorem parsePubKey_accepts_0x05 :
    parsePubKey (0x05 :: (beBytes 32 basePoint.X ++ beBytes 32 basePoint.Y)) = .ok basePoint := by
  decide +kernel

end Btcec

end DrcNode
