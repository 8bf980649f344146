import DrcNode.Script.Engine

/-!
# Parsing signatures

A signature in a script is a sequence of two numbers in a variant of DER. `ParseSignature` accepts
numbers that are padded or look negative, `ParseDERSignature` does not; which of them the engine
uses depends on its flags. When flags ask for strict signatures, the engine checks the format itself
before it parses, and on what passes the two parsers agree.

Source: `parseSig` and `canonicalPadding` in `btcec/signature.go`. The curve is given by its order.
-/

namespace DrcNode

open List

/-- `canonicalPadding`: a number is not negative, and not padded without need. -/
def canonicalPadding (b : List UInt8) : Bool :=
  decide (b.getD 0 0 &&& 0x80 ≠ 0x80 ∧
    ¬(1 < b.length ∧ b.getD 0 0 = 0x00 ∧ b.getD 1 0 &&& 0x80 ≠ 0x80))

/-- The end of `parseSig`: the numbers must be below the order of the curve, and not zero. -/
def checkRange (order : Nat) (signature : Signature) : Option Signature :=
  if signature.R = 0 ∨ signature.S = 0 ∨ order ≤ signature.R ∨ order ≤ signature.S then none
  else some signature

section

variable (order : Nat) (sigStr : List UInt8) (der : Bool)

/-- The part of `parseSig` from the second number on, where `R` has been read up to `index`. -/
def parseS (R index : Nat) : Option Signature :=
  let sLen := (sigStr.getD (index + 1) 0).toNat
  let sBytes := (sigStr.drop (index + 2)).take sLen
  if sigStr.getD index 0 ≠ 0x02 then none
  else if sLen = 0 ∨ sigStr.length - (index + 2) < sLen then none
  else if der && !canonicalPadding sBytes then none
  else if index + 2 + sLen ≠ sigStr.length then none
  else checkRange order ⟨R, ofLeBytes sBytes.reverse⟩

/-- The part of `parseSig` from the first number on. -/
def parseR : Option Signature :=
  let rLen := (sigStr.getD 3 0).toNat
  let rBytes := (sigStr.drop 4).take rLen
  if sigStr.getD 2 0 ≠ 0x02 then none
  else if rLen = 0 ∨ sigStr.length - 4 - 3 < rLen then none
  else if der && !canonicalPadding rBytes then none
  else parseS order sigStr der (ofLeBytes rBytes.reverse) (4 + rLen)

/-- `parseSig`. The length in the signature is added to in eight bits. -/
def parseSig : Option Signature :=
  let siglen := (sigStr.getD 1 0 + 2).toNat
  if sigStr.length < 8 then none
  else if sigStr.getD 0 0 ≠ 0x30 then none
  else if sigStr.length < siglen ∨ siglen < 8 then none
  else parseR order (sigStr.take siglen) der

end

/-- The engine uses `ParseSignature` and `ParseDERSignature` for a curve of the given order. -/
structure Crypto.ParsesSignatures (crypto : Crypto) (order : Nat) : Prop where
  parseSignature_eq : ∀ sigStr, crypto.parseSignature sigStr = parseSig order sigStr false
  parseDERSignature_eq : ∀ sigStr, crypto.parseDERSignature sigStr = parseSig order sigStr true

variable {sigStr : List UInt8} {order : Nat}

/-! ### Strict signatures -/

theorem highBit_cases (b : UInt8) : b &&& 0x80 = 0 ∨ b &&& 0x80 = 0x80 := by
  have hb : b.toNat &&& 2 ^ 7 = (b.toNat.testBit 7).toNat * 2 ^ 7 := Nat.and_two_pow _ _
  rw [← UInt8.toNat_inj, ← UInt8.toNat_inj]
  cases ht : b.toNat.testBit 7 with
  | false => exact .inl (by rw [ht] at hb; exact hb)
  | true => exact .inr (by rw [ht] at hb; exact hb)

theorem canonicalPadding_slice {offset len : Nat} (hpo : len ≠ 0)
    (hln : offset + len ≤ sigStr.length) (hs : sigStr.getD offset 0 &&& 0x80 = 0)
    (hp : ¬(1 < len ∧ sigStr.getD offset 0 = 0 ∧ sigStr.getD (offset + 1) 0 &&& 0x80 = 0)) :
    canonicalPadding ((sigStr.drop offset).take len) = true := by
  have hg : ∀ i < len, ((sigStr.drop offset).take len).getD i 0 = sigStr.getD (offset + i) 0 := by
    intro i hi
    rw [getD_eq_getElem?_getD, getD_eq_getElem?_getD, getElem?_take_of_lt hi, getElem?_drop]
  have hl : ((sigStr.drop offset).take len).length = len := by
    rw [length_take, length_drop]
    omega
  have hf := hg 0 (Nat.pos_of_ne_zero hpo)
  rw [Nat.add_zero] at hf
  rw [canonicalPadding, decide_eq_true_eq, hf, hl, hs]
  refine ⟨by decide, ?_⟩
  rintro ⟨ho, hz, hb⟩
  rw [hg 1 ho] at hb
  exact hp ⟨ho, hz, (highBit_cases _).resolve_right hb⟩

/-- **On strict signatures the parsers agree.** -/
theorem parseSig_eq_of_checkDEREncoding {vm : Engine} (h : vm.checkDEREncoding sigStr = .ok ()) :
    parseSig order sigStr true = parseSig order sigStr false := by
  simp only [Engine.checkDEREncoding, Checked.bind_eq_ok, requireScript_eq_ok, exists_const] at h
  obtain ⟨hmi, hm, -, hl, -, -, ht, -, hrl, hrs, hr, -, hsl, hss, hs, -⟩ := h
  have hsi : (sigStr.getD 1 0 + 2).toNat = sigStr.length := by
    rw [UInt8.toNat_add, hl]
    change (sigStr.length - 2 + 2) % 256 = _
    omega
  have hR := canonicalPadding_slice hrl (by omega) hrs hr
  have hS := canonicalPadding_slice hsl (by omega) hss hs
  have hps : ∀ R, parseS order sigStr true R (4 + (sigStr.getD 3 0).toNat) =
      parseS order sigStr false R (4 + (sigStr.getD 3 0).toNat) := by
    intro R
    simp only [parseS, hS, Bool.not_true, Bool.and_false]
  have hp : parseR order sigStr true = parseR order sigStr false := by
    simp only [parseR, hR, hps, Bool.not_true, Bool.and_false]
  simp only [parseSig, hsi, take_length, hp]

end DrcNode
