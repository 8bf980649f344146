import DrcNode.Btcec.PubKey
import DrcNode.Chain.VLQ
import DrcNode.Library.Slice
import DrcNode.Script.SigHash

/-!
# Compressed outputs

The database keeps an output as an amount and a script, both compressed. An amount is split into a
power of ten and the rest, and the script is shortened when it has one of the usual forms: a payment
to the hash of a key, to the hash of a script or to a key. Any other script is kept as it is, behind
its length plus the number of special forms, so that the first number of a record tells its form.

Source: the second part of `blockchain/compress.go`. The numbers are `uint64` and `int` as in the
source; a size that does not fit becomes negative. Slices have the capacity of the slice they are
taken from, which is where `decompressScript` may read to.
-/

namespace DrcNode

open Checked List Option Nat UInt64 Opcode Btcec Slice

namespace Opcode

def data33 : UInt8 := 0x21
def data65 : UInt8 := 0x41

end Opcode

namespace Compress

/-! ### Recognizing scripts -/

/-- The data of a script that is `front`, then `size` bytes, then `back`. -/
def framed (front : List UInt8) (size : Nat) (back script : List UInt8) : Option (List UInt8) :=
  if script.length = front.length + size + back.length ∧ script.take front.length = front ∧
      script.drop (front.length + size) = back then
    some ((script.drop front.length).take size)
  else none

def isPubKeyHash : List UInt8 → Option (List UInt8) :=
  framed [dup, hash160, data20] 20 [equalVerify, checkSig]

def isScriptHash : List UInt8 → Option (List UInt8) :=
  framed [hash160, data20] 20 [equal]

/-- `ParsePubKey` returns no error. -/
def parses (pubKey : List UInt8) : Bool := (parsePubKey pubKey).toBool

/-- `isPubKey`: a short key, or a long one. -/
def isPubKey (script : List UInt8) : Option (List UInt8) :=
  ((framed [data33] 33 [checkSig] script).filter fun pubKey =>
    (pubKey.head? = some 0x02 ∨ pubKey.head? = some 0x03) ∧ parses pubKey).or
  ((framed [data65] 65 [checkSig] script).filter fun pubKey =>
    pubKey.head? = some 0x04 ∧ parses pubKey)

variable {script rest serialized : List UInt8} {s : Slice UInt8} {b : UInt8} {n : UInt64} {e : Nat}

theorem framed_eq_some_iff {front back data : List UInt8} {size : Nat} :
    framed front size back script = some data ↔
      script = front ++ data ++ back ∧ data.length = size := by
  rw [framed]
  split_ifs with h
  · obtain ⟨hl, hf, hb⟩ := h
    rw [some.injEq]
    constructor
    · rintro rfl
      constructor
      · conv_lhs => rw [← take_append_drop front.length script, hf,
          ← take_append_drop size (script.drop front.length), drop_drop, hb]
        rw [append_assoc]
      · rw [length_take, length_drop]
        omega
    · rintro ⟨rfl, rfl⟩
      rw [append_assoc, drop_left' rfl, take_left' rfl]
  · refine ⟨fun h' => (by cases h'), ?_⟩
    rintro ⟨rfl, rfl⟩
    refine absurd ⟨?_, ?_, ?_⟩ h
    · simp only [length_append]
    · rw [append_assoc, take_left' rfl]
    · rw [drop_left' (by simp)]

theorem isPubKey_cases {pubKey : List UInt8} (h : isPubKey script = some pubKey) :
    (∃ odd x, x.length = 32 ∧ pubKey = compressedFormat odd :: x ∧
      script = [data33] ++ pubKey ++ [checkSig]) ∨
    ∃ x y key, x.length = 32 ∧ y.length = 32 ∧ pubKey = 0x04 :: (x ++ y) ∧
      parsePubKey pubKey = .ok key ∧
      script = [data65] ++ pubKey ++ [checkSig] := by
  rw [isPubKey, or_eq_some_iff] at h
  rcases h with h | ⟨-, h⟩
  · rw [filter_eq_some_iff, framed_eq_some_iff, decide_eq_true_eq] at h
    obtain ⟨⟨hs, hl⟩, hh, -⟩ := h
    obtain ⟨first, x, rfl⟩ := exists_cons_of_length_eq_add_one hl
    have hx : x.length = 32 := by simpa using hl
    rw [head?_cons, some.injEq, some.injEq] at hh
    rcases hh with rfl | rfl
    · exact .inl ⟨false, x, hx, rfl, hs⟩
    · exact .inl ⟨true, x, hx, rfl, hs⟩
  · rw [filter_eq_some_iff, framed_eq_some_iff, decide_eq_true_eq] at h
    obtain ⟨⟨hs, hl⟩, hh, hp⟩ := h
    obtain ⟨first, coordinates, rfl⟩ := exists_cons_of_length_eq_add_one hl
    have hl : coordinates.length = 64 := by simpa using hl
    rw [head?_cons, some.injEq] at hh
    subst hh
    obtain ⟨key, hk⟩ : ∃ key, parsePubKey (0x04 :: coordinates) = .ok key := by
      rw [parses] at hp
      cases hk : parsePubKey (0x04 :: coordinates) with
      | ok key => exact ⟨key, rfl⟩
      | error e =>
        rw [hk] at hp
        cases hp
    refine .inr ⟨coordinates.take 32, coordinates.drop 32, key, ?_, ?_, ?_, hk, hs⟩
    · rw [length_take]
      omega
    · rw [length_drop]
      omega
    · rw [take_append_drop]

/-! ### Compressing scripts -/

def cstPayToPubKeyHash : UInt8 := 0
def cstPayToScriptHash : UInt8 := 1
def cstPayToPubKeyComp2 : UInt8 := 2
def cstPayToPubKeyComp3 : UInt8 := 3
def cstPayToPubKeyUncomp4 : UInt8 := 4
def cstPayToPubKeyUncomp5 : UInt8 := 5

def numSpecialScripts : Nat := 6

def compressedScriptSize (pkScript : List UInt8) : Nat :=
  if (isPubKeyHash pkScript).isSome then 21
  else if (isScriptHash pkScript).isSome then 21
  else if (isPubKey pkScript).isSome then 33
  else serializeSizeVLQ (UInt64.ofNat (pkScript.length + numSpecialScripts)) + pkScript.length

/-- The bytes that `putCompressedScript` writes for a script of a special form. -/
def specialForm (pkScript : List UInt8) : Option (List UInt8) :=
  match isPubKeyHash pkScript with
  | some hash => some (cstPayToPubKeyHash :: hash)
  | none =>
      match isScriptHash pkScript with
      | some hash => some (cstPayToScriptHash :: hash)
      | none =>
          match isPubKey pkScript with
          | some (pubKeyFormat :: coordinates) =>
              if pubKeyFormat = 0x02 ∨ pubKeyFormat = 0x03 then
                some (pubKeyFormat :: coordinates.take 32)
              else if pubKeyFormat = 0x04 then
                -- the oddness of the key goes into the type of the script
                some ((pubKeyFormat ||| (coordinates.getD 63 0 &&& 0x01)) :: coordinates.take 32)
              else none
          | _ => none

/-- `putCompressedScript`. The copy of a general script does not notice a target that is too short.
-/
def putCompressedScript (pkScript target : List UInt8) : Except Panic (List UInt8 × Nat) :=
  match specialForm pkScript with
  | some form => Buffer.store .indexOutOfRange form target
  | none =>
      Buffer.followedBy (putVLQ (UInt64.ofNat (pkScript.length + numSpecialScripts)))
        (Buffer.copy pkScript) target

/-- The record of a script. -/
def scriptBytes (pkScript : List UInt8) : List UInt8 :=
  (specialForm pkScript).getD
    (vlqBytes (UInt64.ofNat (pkScript.length + numSpecialScripts)) ++ pkScript)

/-- The type of a script that pays to a long key. -/
def uncompressedType (odd : Bool) : UInt8 :=
  if odd then cstPayToPubKeyUncomp5 else cstPayToPubKeyUncomp4

theorem or_oddness (last : UInt8) :
    0x04 ||| (last &&& 0x01) = uncompressedType (Btcec.isOdd last.toNat) := by
  have ha : (last &&& 0x01).toNat = last.toNat % 2 := by
    exact and_one_is_mod _
  rcases mod_two_eq_zero_or_one last.toNat with h | h
  · have hz : last &&& 0x01 = 0 := UInt8.toNat.inj (ha.trans h)
    rw [hz, Btcec.isOdd, h]
    rfl
  · have ho : last &&& 0x01 = 1 := UInt8.toNat.inj (ha.trans h)
    rw [ho, Btcec.isOdd, h]
    rfl

theorem or_oddness_getD {x y : List UInt8} (hx : x.length = 32) (hy : y.length = 32) :
    0x04 ||| ((x ++ y).getD 63 0 &&& 0x01) = uncompressedType (Btcec.isOdd (setBytes y)) := by
  obtain ⟨init, last, rfl⟩ : ∃ init last, y = init ++ [last] := by
    refine ⟨y.dropLast, y.getLast (ne_nil_of_length_eq_add_one hy), ?_⟩
    exact (dropLast_append_getLast _).symm
  have hi : init.length = 31 := by simpa using hy
  have hg : (x ++ (init ++ [last])).getD 63 0 = last := by
    have hl : (x ++ init).length = 63 := by
      rw [length_append]
      omega
    rw [← append_assoc, getD_eq_getElem?_getD, ← hl, getElem?_concat_length]
    rfl
  rw [hg, or_oddness, isOdd_setBytes_concat]

variable {pkScript form : List UInt8} {c : Slice UInt8} {amount : UInt64}

/-- **The special forms.** -/
theorem specialForm_cases (h : specialForm pkScript = some form) :
    (∃ hash, hash.length = 20 ∧ form = cstPayToPubKeyHash :: hash ∧
      pkScript = [dup, hash160, data20] ++ hash ++
        [equalVerify, checkSig]) ∨
    (∃ hash, hash.length = 20 ∧ form = cstPayToScriptHash :: hash ∧
      pkScript = [hash160, data20] ++ hash ++ [equal]) ∨
    (∃ odd x, x.length = 32 ∧ form = compressedFormat odd :: x ∧
      pkScript = [data33] ++ (compressedFormat odd :: x) ++ [checkSig]) ∨
    ∃ x y key, x.length = 32 ∧ y.length = 32 ∧
      form = uncompressedType (Btcec.isOdd (setBytes y)) :: x ∧
      parsePubKey (0x04 :: (x ++ y)) = .ok key ∧
      pkScript = [data65] ++ (0x04 :: (x ++ y)) ++ [checkSig] := by
  rw [specialForm] at h
  split at h
  · rename_i hash hk
    obtain ⟨hs, hl⟩ := framed_eq_some_iff.1 hk
    exact .inl ⟨hash, hl, (some.inj h).symm, hs⟩
  split at h
  · rename_i hash hsh
    obtain ⟨hs, hl⟩ := framed_eq_some_iff.1 hsh
    exact .inr (.inl ⟨hash, hl, (some.inj h).symm, hs⟩)
  split at h
  · rename_i pubKeyFormat coordinates hke
    rcases isPubKey_cases hke with ⟨odd, x, hx, ⟨⟩, hs⟩ | ⟨x, y, key, hx, hy, ⟨⟩, hp, hs⟩
    · have hf : compressedFormat odd = 0x02 ∨ compressedFormat odd = 0x03 := by
        cases odd <;> decide
      rw [if_pos hf, take_of_length_le hx.le] at h
      exact .inr (.inr (.inl ⟨odd, _, hx, (some.inj h).symm, hs⟩))
    · rw [or_oddness_getD hx hy, take_left' hx] at h
      exact .inr (.inr (.inr ⟨x, y, key, hx, hy, (some.inj h).symm, hp, hs⟩))
  · cases h

theorem compressedScriptSize_eq (pkScript : List UInt8) :
    compressedScriptSize pkScript = ((specialForm pkScript).map List.length).getD
      (serializeSizeVLQ (UInt64.ofNat (pkScript.length + numSpecialScripts)) +
        pkScript.length) := by
  rw [compressedScriptSize, specialForm]
  cases hk : isPubKeyHash pkScript with
  | some hash =>
    have hl := (framed_eq_some_iff.1 hk).2
    simp [hl]
  | none =>
    cases hs : isScriptHash pkScript with
    | some hash =>
      have hl := (framed_eq_some_iff.1 hs).2
      simp [hl]
    | none =>
      cases hke : isPubKey pkScript with
      | none => simp
      | some pubKey =>
        rcases isPubKey_cases hke with ⟨odd, x, hx, rfl, -⟩ | ⟨x, y, key, hx, hy, rfl, -⟩
        · have hf : compressedFormat odd = 0x02 ∨ compressedFormat odd = 0x03 := by
            cases odd <;> decide
          simp [hf, hx]
        · simp [hx, hy]

theorem compressedScriptSize_of_special (h : specialForm pkScript = some form) :
    compressedScriptSize pkScript = form.length := by
  rw [compressedScriptSize_eq, h]
  rfl

theorem compressedScriptSize_of_general (h : specialForm pkScript = none) :
    compressedScriptSize pkScript =
      serializeSizeVLQ (UInt64.ofNat (pkScript.length + numSpecialScripts)) + pkScript.length := by
  rw [compressedScriptSize_eq, h]
  rfl

theorem scriptBytes_of_special (h : specialForm pkScript = some form) :
    scriptBytes pkScript = form := by
  rw [scriptBytes, h, getD_some]

theorem scriptBytes_of_general (h : specialForm pkScript = none) : scriptBytes pkScript =
      vlqBytes (UInt64.ofNat (pkScript.length + numSpecialScripts)) ++ pkScript := by
  rw [scriptBytes, h, getD_none]

theorem length_scriptBytes (pkScript : List UInt8) :
    (scriptBytes pkScript).length = compressedScriptSize pkScript := by
  cases h : specialForm pkScript with
  | some form => rw [scriptBytes_of_special h, compressedScriptSize_of_special h]
  | none =>
    rw [scriptBytes_of_general h, compressedScriptSize_of_general h, length_append, length_vlqBytes]

theorem compressedScriptSize_pos (pkScript : List UInt8) : 0 < compressedScriptSize pkScript := by
  cases h : specialForm pkScript with
  | some form =>
    rw [compressedScriptSize_of_special h]
    rcases specialForm_cases h with ⟨hash, -, rfl, -⟩ | ⟨hash, -, rfl, -⟩ | ⟨odd, x, -, rfl, -⟩ |
      ⟨x, y, key, -, -, rfl, -⟩ <;> exact succ_pos _
  | none =>
    rw [compressedScriptSize_of_general h]
    exact Nat.add_pos_left (serializeSizeVLQ_pos _) _

/-- **What `putCompressedScript` writes.** -/
theorem writes_putCompressedScript (pkScript : List UInt8) :
    Buffer.Writes (putCompressedScript pkScript) (scriptBytes pkScript) := by
  intro pad rest hl
  rw [putCompressedScript]
  cases h : specialForm pkScript with
  | some form =>
    rw [scriptBytes_of_special h] at hl ⊢
    exact Buffer.Writes.store _ form pad rest hl
  | none =>
    rw [scriptBytes_of_general h] at hl ⊢
    exact ((writes_putVLQ _).followedBy (.copy pkScript)) pad rest hl

/-! ### Reading scripts -/

/-- A number `uint64` as an `int`. -/
def toInt (n : UInt64) : Int := n.toInt64.toInt

def decodeCompressedScriptSize (serialized : List UInt8) : Int :=
  let scriptSize := (deserializeVLQ serialized).1
  let bytesRead := (deserializeVLQ serialized).2
  if bytesRead = 0 then 0
  else if scriptSize = cstPayToPubKeyHash.toUInt64 then 21
  else if scriptSize = cstPayToScriptHash.toUInt64 then 21
  else if scriptSize = cstPayToPubKeyComp2.toUInt64 ∨ scriptSize = cstPayToPubKeyComp3.toUInt64 ∨
      scriptSize = cstPayToPubKeyUncomp4.toUInt64 ∨
      scriptSize = cstPayToPubKeyUncomp5.toUInt64 then 33
  else toInt (scriptSize - UInt64.ofNat numSpecialScripts + UInt64.ofNat bytesRead)

/-- The slice expression `s[lo:hi]`. -/
def slice (s : Slice UInt8) (lo hi : Int) : Except Panic (Slice UInt8) :=
  match s.sub lo hi with
  | some t => .ok t
  | none => .error .indexOutOfRange

/-- `decompressScript`; nil is the empty script. -/
def decompressScript (compressedPkScript : Slice UInt8) : Except Panic (List UInt8) :=
  if compressedPkScript.len = 0 then .ok []
  else
    let encodedScriptSize := (deserializeVLQ compressedPkScript.toList).1
    let bytesRead : Int := (deserializeVLQ compressedPkScript.toList).2
    if encodedScriptSize = cstPayToPubKeyHash.toUInt64 then do
      let hash ← slice compressedPkScript bytesRead (bytesRead + 20)
      pure ([dup, hash160, data20] ++ hash.toList ++
        [equalVerify, checkSig])
    else if encodedScriptSize = cstPayToScriptHash.toUInt64 then do
      let hash ← slice compressedPkScript bytesRead (bytesRead + 20)
      pure ([hash160, data20] ++ hash.toList ++ [equal])
    else if encodedScriptSize = cstPayToPubKeyComp2.toUInt64 ∨
        encodedScriptSize = cstPayToPubKeyComp3.toUInt64 then do
      let x ← slice compressedPkScript bytesRead (bytesRead + 32)
      pure ([data33] ++ (encodedScriptSize.toUInt8 :: x.toList) ++ [checkSig])
    else if encodedScriptSize = cstPayToPubKeyUncomp4.toUInt64 ∨
        encodedScriptSize = cstPayToPubKeyUncomp5.toUInt64 then
      -- at most 32 bytes are copied behind the format, and the rest of the key is zero
      let x := (compressedPkScript.toList.drop 1).take 32
      let compressedKey :=
        (encodedScriptSize - 2).toUInt8 :: (x ++ List.replicate (32 - x.length) 0)
      match parsePubKey compressedKey with
      | .error _ => .ok []
      | .ok key =>
          .ok ([data65] ++ serializeUncompressed key ++ [checkSig])
    else do
      let scriptSize := toInt (encodedScriptSize - UInt64.ofNat numSpecialScripts)
      let pkScript ← slice compressedPkScript bytesRead (bytesRead + scriptSize)
      pure pkScript.toList

theorem slice_add {lo n : Nat} (h : lo + n ≤ s.cap) :
    ∃ t, slice s lo (lo + n) = .ok t ∧ t.toList = (s.array.drop lo).take n := by
  obtain ⟨t, ht, hl⟩ := exists_sub_add h
  refine ⟨t, ?_, hl⟩
  rw [slice, ht]

theorem deserializeVLQ_cons (h : b < 0x80) (rest : List UInt8) :
    deserializeVLQ (b :: rest) = (b.toUInt64, 1) := by
  have hc : CompleteVLQ [b] := h
  have hv : vlqValue [b] = b.toNat := by
    rw [vlqValue, map_singleton, ShiftedBase.valueFrom]
    simpa using (toNat_of_lt_0x80 h).symm
  have hr := deserializeVLQ_complete hc rest
  rw [hv] at hr
  rw [← singleton_append, hr, length_singleton, ← UInt8.toNat_toUInt64, UInt64.ofNat_toNat]

theorem toInt_eq (n : UInt64) :
    toInt n = if n.toNat < 2 ^ 63 then (n.toNat : Int) else n.toNat - 2 ^ 64 := by
  have hc : toInt n = if 2 * n.toNat < 2 ^ 64 then (n.toNat : Int) else n.toNat - (2 ^ 64 : Nat) :=
    BitVec.toInt_eq_toNat_cond n.toBitVec
  split_ifs <;> omega

/-- The size of a script field, from its first number and the number of bytes that has. -/
def fieldSize (n : UInt64) (bytesRead : Nat) : Int :=
  if bytesRead = 0 then 0
  else if n.toNat < 2 then 21
  else if n.toNat < 6 then 33
  else toInt (n - 6 + UInt64.ofNat bytesRead)

theorem eq_toUInt64_iff : n = b.toUInt64 ↔ n.toNat = b.toNat := by
  rw [← UInt64.toNat_inj, UInt8.toNat_toUInt64]

theorem decodeCompressedScriptSize_eq (serialized : List UInt8) :
    decodeCompressedScriptSize serialized =
      fieldSize (deserializeVLQ serialized).1 (deserializeVLQ serialized).2 := by
  rw [decodeCompressedScriptSize, fieldSize]
  generalize deserializeVLQ serialized = read
  simp only [eq_toUInt64_iff, cstPayToPubKeyHash, cstPayToScriptHash, cstPayToPubKeyComp2,
    cstPayToPubKeyComp3, cstPayToPubKeyUncomp4, cstPayToPubKeyUncomp5, UInt8.reduceToNat]
  split_ifs <;> first | rfl | omega

theorem toInt_ofNat {m : Nat} (h : m < 2 ^ 63) : toInt (UInt64.ofNat m) = m := by
  have hm : (UInt64.ofNat m).toNat = m := by
    rw [toNat_ofNat']
    omega
  rw [toInt_eq, hm, if_pos h]

/-! ### Every script decompresses to itself -/

theorem ofNat_length_sub (pkScript : List UInt8) :
    UInt64.ofNat (pkScript.length + numSpecialScripts) - 6 = UInt64.ofNat pkScript.length := by
  rw [ofNat_add]
  exact UInt64.add_sub_cancel _ _

theorem toNat_ofNat_length (h : pkScript.length < 2 ^ 63) :
    (UInt64.ofNat (pkScript.length + numSpecialScripts)).toNat = pkScript.length + 6 := by
  rw [toNat_ofNat', numSpecialScripts]
  omega

/-- **The size of the record of a script is read off its front.** -/
theorem decodeCompressedScriptSize_scriptBytes (h : compressedScriptSize pkScript < 2 ^ 63)
    (rest : List UInt8) :
    decodeCompressedScriptSize (scriptBytes pkScript ++ rest) = compressedScriptSize pkScript := by
  rw [decodeCompressedScriptSize_eq]
  cases hf : specialForm pkScript with
  | some form =>
    rw [scriptBytes_of_special hf, compressedScriptSize_of_special hf]
    rcases specialForm_cases hf with ⟨hash, hl, rfl, -⟩ | ⟨hash, hl, rfl, -⟩ |
      ⟨odd, x, hl, rfl, -⟩ | ⟨x, y, key, hl, -, rfl, -⟩
    · rw [length_cons, hl]
      rfl
    · rw [length_cons, hl]
      rfl
    · rw [length_cons, hl]
      cases odd <;> rfl
    · generalize Btcec.isOdd (setBytes y) = odd
      rw [length_cons, hl]
      cases odd <;> rfl
  | none =>
    rw [compressedScriptSize_of_general hf] at h ⊢
    have hl : pkScript.length < 2 ^ 63 := lt_of_le_of_lt (le_add_left _ _) h
    have hn := toNat_ofNat_length hl
    have hp := serializeSizeVLQ_pos (UInt64.ofNat (pkScript.length + numSpecialScripts))
    rw [scriptBytes_of_general hf, append_assoc, deserializeVLQ_vlqBytes_append, fieldSize,
      hn, if_neg hp.ne', if_neg (by omega), if_neg (by omega), ofNat_length_sub,
      ← ofNat_add, add_comm pkScript.length, toInt_ofNat h]

theorem decompressScript_general {bytesRead : Nat} (hne : c.len ≠ 0)
    (hr : deserializeVLQ c.toList = (n, bytesRead)) (h6 : 6 ≤ n.toNat) :
    decompressScript c = (slice c bytesRead (bytesRead + toInt (n - 6))).map Slice.toList := by
  have hs : ∀ b : UInt8, b.toNat < 6 → n ≠ b.toUInt64 := by
    intro b hb heq
    rw [eq_toUInt64_iff] at heq
    omega
  rw [decompressScript, if_neg hne, hr]
  rw [if_neg (hs _ (by decide)), if_neg (hs _ (by decide)),
    if_neg (not_or.2 ⟨hs _ (by decide), hs _ (by decide)⟩),
    if_neg (not_or.2 ⟨hs _ (by decide), hs _ (by decide)⟩)]
  rfl

theorem slice_payload {code : UInt8} {payload : List UInt8} {n : Int}
    (ha : c.array = (code :: payload) ++ rest) (hn : payload.length = n) :
    ∃ t, slice c (1 : Nat) ((1 : Nat) + n) = .ok t ∧ t.toList = payload := by
  have hc : 1 + payload.length ≤ c.cap := by
    rw [cap, ha, length_append, length_cons]
    omega
  obtain ⟨t, ht, hl⟩ := slice_add hc
  rw [hn] at ht
  refine ⟨t, ht, hl.trans ?_⟩
  rw [ha, cons_append, drop_succ_cons, drop_zero, take_left' rfl]

/-- **Every script decompresses to itself**, whatever follows its record. -/
theorem decompressScript_scriptBytes (h : compressedScriptSize pkScript < 2 ^ 63)
    (ha : c.array = scriptBytes pkScript ++ rest)
    (hln : c.len = compressedScriptSize pkScript) : decompressScript c = .ok pkScript := by
  have hl : c.toList = scriptBytes pkScript := by
    rw [Slice.toList, ha, hln, take_left' (length_scriptBytes pkScript)]
  have hne : ¬c.len = 0 := by
    rw [hln]
    exact (compressedScriptSize_pos pkScript).ne'
  cases hf : specialForm pkScript with
  | some form =>
    rw [scriptBytes_of_special hf] at ha hl
    rw [decompressScript, if_neg hne, hl]
    rcases specialForm_cases hf with ⟨hash, hh, rfl, rfl⟩ | ⟨hash, hh, rfl, rfl⟩ |
      ⟨odd, x, hx, rfl, rfl⟩ | ⟨x, y, key, hx, hy, rfl, hp, rfl⟩
    · obtain ⟨t, ht, rfl⟩ := slice_payload ha (show (hash.length : Int) = 20 by rw [hh]; rfl)
      rw [deserializeVLQ_cons (by decide)]
      rw [if_pos rfl, ht]
      rfl
    · obtain ⟨t, ht, rfl⟩ := slice_payload ha (show (hash.length : Int) = 20 by rw [hh]; rfl)
      rw [deserializeVLQ_cons (by decide)]
      rw [if_neg (by decide), ht]
      rfl
    · obtain ⟨t, ht, rfl⟩ := slice_payload ha (show (x.length : Int) = 32 by rw [hx]; rfl)
      rw [deserializeVLQ_cons (by cases odd <;> decide)]
      rw [if_neg (by cases odd <;> decide), ht]
      cases odd <;> rfl
    · obtain ⟨hk, hse⟩ := parsePubKey_compressed hx hy hp
      generalize Btcec.isOdd (setBytes y) = odd at hk ⊢
      have hc : ((uncompressedType odd :: x).drop 1).take 32 = x := by
        rw [drop_succ_cons, drop_zero, take_of_length_le hx.le]
      have hfo : ((uncompressedType odd).toUInt64 - 2).toUInt8 = compressedFormat odd := by
        cases odd <;> rfl
      rw [deserializeVLQ_cons (by cases odd <;> decide)]
      dsimp only
      rw [if_neg (by cases odd <;> decide), if_neg (by cases odd <;> decide),
        if_neg (by cases odd <;> decide), if_pos (by cases odd <;> decide), hc, hx, hfo,
        replicate_zero, append_nil, hk]
      dsimp only
      rw [hse]
  | none =>
    rw [compressedScriptSize_of_general hf] at h
    rw [scriptBytes_of_general hf] at ha hl
    have hs : pkScript.length < 2 ^ 63 := lt_of_le_of_lt (le_add_left _ _) h
    have hn := toNat_ofNat_length hs
    have hr : deserializeVLQ c.toList = (UInt64.ofNat (pkScript.length + numSpecialScripts),
          serializeSizeVLQ (UInt64.ofNat (pkScript.length + numSpecialScripts))) := by
      rw [hl, deserializeVLQ_vlqBytes_append]
    have hca : serializeSizeVLQ (UInt64.ofNat (pkScript.length + numSpecialScripts)) +
        pkScript.length ≤ c.cap := by
      rw [Slice.cap, ha, length_append, length_append, length_vlqBytes]
      exact le_add_right _ _
    obtain ⟨t, ht, hd⟩ := slice_add hca
    rw [decompressScript_general hne hr (by omega), ofNat_length_sub, toInt_ofNat hs, ht]
    change Except.ok t.toList = _
    rw [hd, ha, append_assoc, drop_left' (length_vlqBytes _), take_left' rfl]

/-! ### When reading a script panics -/

/-- The data that a script field with the first number `n` says it has are there. -/
def ContentsFit (n : UInt64) (bytesRead cap : Nat) : Prop :=
  if n.toNat < 2 then bytesRead + 20 ≤ cap
  else if n.toNat < 4 then bytesRead + 32 ≤ cap
  else if n.toNat < 6 then True
  else n.toNat < 2 ^ 63 + 6 ∧ bytesRead + (n.toNat - 6) ≤ cap

theorem slice_ok_iff {lo hi : Int} : (∃ t, slice s lo hi = .ok t) ↔ s.InBounds lo hi := by
  rw [slice]
  cases h : s.sub lo hi with
  | some t => exact ⟨fun _ => (sub_eq_some_iff.1 h).1, fun _ => ⟨t, rfl⟩⟩
  | none =>
    refine ⟨?_, fun hb => absurd hb (sub_eq_none_iff.1 h)⟩
    rintro ⟨t, ht⟩
    cases ht

theorem slice_bind_ok_iff {lo : Nat} {n : Int} {f : Slice UInt8 → List UInt8} :
    (∃ script, slice s lo (lo + n) >>= (fun t => pure (f t)) = .ok script) ↔
      0 ≤ n ∧ lo + n ≤ s.cap := by
  have hb : s.InBounds lo (lo + n) ↔ 0 ≤ n ∧ lo + n ≤ s.cap := by
    rw [Slice.InBounds]
    omega
  rw [exists_bind_eq_ok, ← hb, ← slice_ok_iff]
  exact exists_congr fun t => and_iff_left ⟨f t, rfl⟩

/-- **When `decompressScript` returns.** -/
theorem decompressScript_ok_iff (hne : c.len ≠ 0) : (∃ script, decompressScript c = .ok script) ↔
      ContentsFit (deserializeVLQ c.toList).1 (deserializeVLQ c.toList).2 c.cap := by
  obtain ⟨n, bytesRead, hr⟩ : ∃ n bytesRead, deserializeVLQ c.toList = (n, bytesRead) := ⟨_, _, rfl⟩
  rw [hr, ContentsFit]
  dsimp only
  rcases lt_or_ge n.toNat 6 with h6 | h6
  · rw [decompressScript, if_neg hne, hr]
    simp only [eq_toUInt64_iff, cstPayToPubKeyHash, cstPayToScriptHash, cstPayToPubKeyComp2,
      cstPayToPubKeyComp3, cstPayToPubKeyUncomp4, cstPayToPubKeyUncomp5, UInt8.reduceToNat]
    by_cases h0 : n.toNat = 0
    · rw [if_pos h0, if_pos (by omega), slice_bind_ok_iff]
      omega
    rw [if_neg h0]
    by_cases h1 : n.toNat = 1
    · rw [if_pos h1, if_pos (by omega), slice_bind_ok_iff]
      omega
    have h2 : ¬n.toNat < 2 := by omega
    rw [if_neg h1, if_neg h2]
    by_cases h3 : n.toNat = 2 ∨ n.toNat = 3
    · have h4 : n.toNat < 4 := by omega
      rw [if_pos h3, if_pos h4, slice_bind_ok_iff]
      omega
    have h4 : ¬n.toNat < 4 := by omega
    have h5 : n.toNat = 4 ∨ n.toNat = 5 := by omega
    rw [if_neg h3, if_pos h5, if_neg h4, if_pos h6]
    -- the key is taken from what there is, and any key that does not parse is left out
    refine iff_of_true ?_ trivial
    split
    · exact ⟨_, rfl⟩
    · exact ⟨_, rfl⟩
  · have hs : (n - 6).toNat = n.toNat - 6 := UInt64.toNat_sub_of_le _ _
      (le_iff_toNat_le.2 h6)
    have hm := @slice_bind_ok_iff c bytesRead (toInt (n - 6)) Slice.toList
    rw [decompressScript_general hne hr h6, if_neg (by omega)]
    refine hm.trans ?_
    have hlt := n.toNat_lt
    rw [toInt_eq, hs]
    split_ifs <;> omega

/-! ### Amounts -/

/-- The loop of `compressTxOutAmount`: divide by ten while that leaves no rest, as often as there
are rounds left. -/
def stripZeros : Nat → UInt64 → UInt64 → UInt64 × UInt64
  | 0, amount, exponent => (amount, exponent)
  | rounds + 1, amount, exponent =>
      if amount % 10 = 0 then stripZeros rounds (amount / 10) (exponent + 1)
      else (amount, exponent)

def compressTxOutAmount (amount : UInt64) : UInt64 :=
  if amount = 0 then 0
  else
    let stripped := stripZeros 9 amount 0
    if stripped.2 < 9 then
      1 + 10 * (9 * (stripped.1 / 10) + stripped.1 % 10 - 1) + stripped.2
    else 10 + 10 * (stripped.1 - 1)

def decompressTxOutAmount (amount : UInt64) : UInt64 :=
  if amount = 0 then 0
  else
    let amount := amount - 1
    let exponent := amount % 10
    let amount := amount / 10
    let n := if exponent < 9 then amount / 9 * 10 + (amount % 9 + 1) else amount + 1
    (fun n => n * 10)^[exponent.toNat] n

theorem toNat_mod_ten (amount : UInt64) : (amount % 10).toNat = amount.toNat % 10 :=
  UInt64.toNat_mod amount 10

theorem toNat_div_ten (amount : UInt64) : (amount / 10).toNat = amount.toNat / 10 :=
  UInt64.toNat_div amount 10

theorem exists_stripZeros (rounds : Nat) (exponent : Nat) (h : amount ≠ 0) :
    ∃ (m : UInt64) (e : Nat),
      stripZeros rounds amount (UInt64.ofNat exponent) = (m, UInt64.ofNat (exponent + e)) ∧
        amount.toNat = m.toNat * 10 ^ e ∧ e ≤ rounds ∧ (e < rounds → m.toNat % 10 ≠ 0) := by
  induction rounds generalizing amount exponent with
  | zero => exact ⟨amount, 0, rfl, (Nat.mul_one _).symm, le_rfl, fun h => absurd h (lt_irrefl 0)⟩
  | succ rounds ih =>
    rw [stripZeros]
    split_ifs with ht
    · have hm : amount.toNat % 10 = 0 := by
        rw [← toNat_mod_ten, ht]
        rfl
      have hne : amount / 10 ≠ 0 := by
        intro hz
        have hd := toNat_div_ten amount
        rw [hz] at hd
        have h0 : amount.toNat ≠ 0 := fun h0 => h (UInt64.toNat.inj h0)
        have : amount.toNat / 10 = 0 := hd.symm
        omega
      obtain ⟨m, e, heq, ha, hle, hl⟩ := ih (exponent + 1) hne
      refine ⟨m, e + 1, ?_, ?_, succ_le_succ hle, fun hlt => hl (lt_of_succ_lt_succ hlt)⟩
      · have hs : UInt64.ofNat exponent + 1 = UInt64.ofNat (exponent + 1) := by
          rw [ofNat_add]
          rfl
        rw [hs, heq, add_right_comm exponent 1 e, add_assoc]
      · rw [toNat_div_ten] at ha
        rw [pow_succ, ← mul_assoc]
        omega
    · refine ⟨amount, 0, rfl, (Nat.mul_one _).symm, Nat.zero_le _, fun _ hm => ht ?_⟩
      exact UInt64.toNat.inj ((toNat_mod_ten amount).trans hm)

/-- The number that stands for `m * 10 ^ e`. -/
def compressedValue (m e : Nat) : Nat :=
  if e < 9 then 1 + 10 * (9 * (m / 10) + (m % 10 - 1)) + e else 10 + 10 * (m - 1)

theorem toNat_iterate_mul_ten (h : n.toNat * 10 ^ e < 2 ^ 64) :
    ((fun n => n * 10)^[e] n).toNat = n.toNat * 10 ^ e := by
  induction e generalizing n with
  | zero => exact (Nat.mul_one _).symm
  | succ e ih =>
    have hp : n.toNat * 10 ^ (e + 1) = n.toNat * 10 * 10 ^ e := by ring
    have ht : n.toNat * 10 < 2 ^ 64 :=
      lt_of_le_of_lt (Nat.le_mul_of_pos_right _ (by positivity)) (hp ▸ h)
    have hm : (n * 10).toNat = n.toNat * 10 := by
      exact Nat.mod_eq_of_lt ht
    rw [Function.iterate_succ_apply, ih (by rw [hm, ← hp]; exact h), hm, hp]

theorem toNat_compressTxOutAmount {m : UInt64} (h : amount ≠ 0)
    (hs : stripZeros 9 amount 0 = (m, UInt64.ofNat e)) (he : e ≤ 9)
    (hl : e < 9 → m.toNat % 10 ≠ 0) (hp : 0 < m.toNat) (hm : m.toNat < 2 ^ 60) :
    (compressTxOutAmount amount).toNat = compressedValue m.toNat e := by
  have hep : (UInt64.ofNat e).toNat = e := by
    rw [toNat_ofNat']
    omega
  have hn : UInt64.ofNat e < 9 ↔ e < 9 := by
    rw [lt_iff_toNat_lt, hep]
    rfl
  rw [compressTxOutAmount, if_neg h, hs, compressedValue]
  simp only [hn]
  split_ifs with hlt
  · have hd := hl hlt
    simp only [UInt64.toNat_add, UInt64.toNat_mul, UInt64.toNat_sub, toNat_div_ten, toNat_mod_ten,
      UInt64.reduceToNat]
    omega
  · simp only [UInt64.toNat_add, UInt64.toNat_mul, UInt64.toNat_sub, UInt64.reduceToNat]
    omega

theorem toNat_decompressTxOutAmount {x : UInt64} {m : Nat} (hx : x.toNat = compressedValue m e)
    (he : e ≤ 9) (hl : e < 9 → m % 10 ≠ 0) (hpo : 0 < m) (hm : m * 10 ^ e < 2 ^ 64) :
    (decompressTxOutAmount x).toNat = m * 10 ^ e := by
  have hml : m ≤ m * 10 ^ e := Nat.le_mul_of_pos_right _ (by positivity)
  have hv : 1 ≤ compressedValue m e := by
    rw [compressedValue]
    split_ifs <;> omega
  have hne : x ≠ 0 := by
    rintro rfl
    rw [← hx] at hv
    exact absurd hv (by decide)
  have hp : (x - 1).toNat = compressedValue m e - 1 := by
    rw [UInt64.toNat_sub_of_le _ _ (le_iff_toNat_le.2 (hx ▸ hv)), hx]
    rfl
  have hep : ((x - 1) % 10).toNat = e := by
    rw [toNat_mod_ten, hp, compressedValue]
    split_ifs <;> omega
  have hn : (x - 1) % 10 < 9 ↔ e < 9 := by
    rw [lt_iff_toNat_lt, hep]
    rfl
  have hr : (if (x - 1) % 10 < 9 then (x - 1) / 10 / 9 * 10 + ((x - 1) / 10 % 9 + 1)
      else (x - 1) / 10 + 1).toNat = m := by
    simp only [hn]
    split_ifs with hlt
    · have hd := hl hlt
      have hdi : ((x - 1) / 10).toNat = 9 * (m / 10) + (m % 10 - 1) := by
        rw [toNat_div_ten, hp, compressedValue, if_pos hlt]
        omega
      simp only [UInt64.toNat_add, UInt64.toNat_mul, UInt64.toNat_div ((x - 1) / 10),
        UInt64.toNat_mod ((x - 1) / 10), UInt64.reduceToNat]
      omega
    · have hdi : ((x - 1) / 10).toNat = m - 1 := by
        rw [toNat_div_ten, hp, compressedValue, if_neg hlt]
        omega
      rw [UInt64.toNat_add, show (1 : UInt64).toNat = 1 from rfl]
      omega
  rw [decompressTxOutAmount, if_neg hne]
  dsimp only
  rw [hep, toNat_iterate_mul_ten (by rw [hr]; exact hm), hr]

/-- **Every amount decompresses to itself.** -/
theorem decompressTxOutAmount_compress (h : amount.toNat < 2 ^ 60) :
    decompressTxOutAmount (compressTxOutAmount amount) = amount := by
  by_cases h0 : amount = 0
  · subst h0
    rfl
  obtain ⟨m, e, hs, ha, he, hl⟩ := exists_stripZeros 9 0 h0
  rw [Nat.zero_add] at hs
  have hp : 0 < m.toNat := by
    refine Nat.pos_of_ne_zero fun hm => h0 (UInt64.toNat.inj ?_)
    rw [ha, hm, Nat.zero_mul]
    rfl
  have hle : m.toNat ≤ amount.toNat := by
    rw [ha]
    exact Nat.le_mul_of_pos_right _ (by positivity)
  apply UInt64.toNat.inj
  rw [toNat_decompressTxOutAmount (toNat_compressTxOutAmount h0 hs he hl hp
    (lt_of_le_of_lt hle h)) he hl hp (by omega), ha]

/-! ### Outputs -/

/-- The errors of the readers, by their text; one that is passed on is kept as the cause. -/
inductive DeserializeError
  /-- "unexpected end of data after compressed amount" -/
  | endAfterAmount
  /-- "unexpected end of data after script size" -/
  | endAfterScriptSize
  /-- "unexpected end of data after header" -/
  | endAfterHeader
  /-- "unable to decode utxo" -/
  | utxo (cause : DeserializeError)
  /-- "no serialized bytes" -/
  | noBytes
  /-- "unexpected end of data after header code" -/
  | endAfterHeaderCode
  /-- "unexpected end of data after reserved" -/
  | endAfterReserved
  /-- "unable to decode txout" -/
  | txOut (cause : DeserializeError)
  /-- "mismatched spend journal serialization - no serialization for expected stxos" -/
  | noSerialization (numStxos : Nat)
  /-- "unable to decode stxo" -/
  | stxo (previousOutPoint : OutPoint) (cause : DeserializeError)
  deriving DecidableEq, Repr

/-- How a reader ends when it does not return a value. -/
inductive ReadFault
  | panic (p : Panic)
  | error (e : DeserializeError)
  deriving DecidableEq, Repr

/-- A reader goes on after a function that can panic. -/
def orPanic {α : Type} : Except Panic α → Except ReadFault α
  | .ok a => .ok a
  | .error p => .error (.panic p)

def compressedTxOutSize (amount : UInt64) (pkScript : List UInt8) : Nat :=
  serializeSizeVLQ (compressTxOutAmount amount) + compressedScriptSize pkScript

def putCompressedTxOut (amount : UInt64) (pkScript target : List UInt8) :
    Except Panic (List UInt8 × Nat) :=
  Buffer.followedBy (putVLQ (compressTxOutAmount amount)) (putCompressedScript pkScript) target

/-- `decodeCompressedScriptSize` with `decompressScript`: the script and the size of its record. -/
def decodeCompressedScript (serialized : List UInt8) : Except ReadFault (List UInt8 × Nat) :=
  let scriptSize := decodeCompressedScriptSize serialized
  if (serialized.length : Int) < scriptSize then .error (.error .endAfterScriptSize)
  else do
    let compressedPkScript ← orPanic (slice (.ofList serialized) 0 scriptSize)
    let script ← orPanic (decompressScript compressedPkScript)
    -- the slice expression has shown that the size is not negative
    pure (script, scriptSize.toNat)

/-- `decodeCompressedTxOut`: the amount, the script, and the number of bytes read. -/
def decodeCompressedTxOut (serialized : List UInt8) :
    Except ReadFault (UInt64 × List UInt8 × Nat) :=
  let compressedAmount := (deserializeVLQ serialized).1
  let bytesRead := (deserializeVLQ serialized).2
  if serialized.length ≤ bytesRead then .error (.error .endAfterAmount)
  else do
    let script ← decodeCompressedScript (serialized.drop bytesRead)
    pure (decompressTxOutAmount compressedAmount, script.1, bytesRead + script.2)

section

variable (amount : UInt64) (pkScript : List UInt8)

/-- The record of an output. -/
def txOutBytes : List UInt8 :=
  vlqBytes (compressTxOutAmount amount) ++ scriptBytes pkScript

theorem length_txOutBytes :
    (txOutBytes amount pkScript).length = compressedTxOutSize amount pkScript := by
  rw [txOutBytes, length_append, length_vlqBytes, length_scriptBytes, compressedTxOutSize]

/-- **What `putCompressedTxOut` writes.** -/
theorem writes_putCompressedTxOut :
    Buffer.Writes (putCompressedTxOut amount pkScript) (txOutBytes amount pkScript) :=
  (writes_putVLQ _).followedBy (writes_putCompressedScript pkScript)

end

theorem slice_front {s : List UInt8} {n : Nat} (h : n ≤ s.length) :
    slice (.ofList s) 0 n = .ok ⟨s, n, h⟩ := by
  have hb : (ofList s).InBounds 0 n := ⟨le_rfl, Int.natCast_nonneg n, Int.ofNat_le.2 h⟩
  have hl : n = ((n : Int) - 0).toNat := by omega
  have hs : (ofList s).sub 0 n = some ⟨s, n, h⟩ := sub_eq_some_iff.2 ⟨hb, rfl, hl⟩
  rw [slice, hs]

theorem decodeCompressedScript_scriptBytes (h : compressedScriptSize pkScript < 2 ^ 63)
    (rest : List UInt8) :
    decodeCompressedScript (scriptBytes pkScript ++ rest) =
      .ok (pkScript, compressedScriptSize pkScript) := by
  have hl : compressedScriptSize pkScript ≤ (scriptBytes pkScript ++ rest).length := by
    rw [length_append, length_scriptBytes]
    exact le_add_right _ _
  have hd : decompressScript ⟨scriptBytes pkScript ++ rest, compressedScriptSize pkScript,
      hl⟩ = .ok pkScript := decompressScript_scriptBytes h rfl rfl
  rw [decodeCompressedScript, decodeCompressedScriptSize_scriptBytes h]
  rw [if_neg (by omega), slice_front hl]
  change (orPanic (decompressScript _) >>= fun script => pure (script, _)) = _
  rw [hd]
  rfl

/-- **An output is read back**, whatever follows its record. -/
theorem decodeCompressedTxOut_txOutBytes (ha : amount.toNat < 2 ^ 60)
    (hs : compressedScriptSize pkScript < 2 ^ 63) (rest : List UInt8) :
    decodeCompressedTxOut (txOutBytes amount pkScript ++ rest) =
      .ok (amount, pkScript, compressedTxOutSize amount pkScript) := by
  have hr := deserializeVLQ_vlqBytes_append (compressTxOutAmount amount)
    (scriptBytes pkScript ++ rest)
  have hp := compressedScriptSize_pos pkScript
  have hl : ¬(vlqBytes (compressTxOutAmount amount) ++ (scriptBytes pkScript ++ rest)).length ≤
      serializeSizeVLQ (compressTxOutAmount amount) := by
    rw [length_append, length_append, length_vlqBytes, length_scriptBytes]
    omega
  rw [txOutBytes, append_assoc, decodeCompressedTxOut, hr]
  rw [if_neg hl, drop_left' (length_vlqBytes _), decodeCompressedScript_scriptBytes hs,
    decompressTxOutAmount_compress ha]
  rfl

/-! ### Readers that return -/

/-- A reader returns a value or an error. -/
def Returns {α : Type} (result : Except ReadFault α) : Prop := ∀ p, result ≠ .error (.panic p)

/-- A script can be read from the field, or the field is seen to be too short. -/
def ScriptReadable (serialized : List UInt8) : Prop :=
  let size := fieldSize (deserializeVLQ serialized).1 (deserializeVLQ serialized).2
  serialized.length < size ∨ size = 0 ∨
    0 < size ∧ ContentsFit (deserializeVLQ (serialized.take size.toNat)).1
      (deserializeVLQ (serialized.take size.toNat)).2 serialized.length

section Returns

variable {α β : Type} {f : α → β}

theorem returns_ok {a : α} : Returns (.ok a) := fun _ h => by cases h

theorem returns_error {e : DeserializeError} : Returns (.error (.error e) : Except ReadFault α) :=
  fun _ h => by cases h

theorem returns_orPanic_iff {r : Except Panic α} :
    Returns (orPanic r >>= fun a => pure (f a)) ↔ ∃ a, r = .ok a := by
  cases r with
  | ok a => exact iff_of_true returns_ok ⟨a, rfl⟩
  | error p => exact iff_of_false (fun h => h p rfl) fun ⟨_, h⟩ => by cases h

theorem returns_bind_pure_iff {r : Except ReadFault α} :
    Returns (r >>= fun a => pure (f a)) ↔ Returns r := by
  cases r with
  | ok a => exact iff_of_true returns_ok returns_ok
  | error fault =>
    cases fault with
    | panic p => exact iff_of_false (fun h => h p rfl) fun h => h p rfl
    | error e => exact iff_of_true returns_error returns_error

end Returns

/-- **When a script is read without a panic.** -/
theorem returns_decodeCompressedScript_iff (serialized : List UInt8) :
    Returns (decodeCompressedScript serialized) ↔ ScriptReadable serialized := by
  rw [decodeCompressedScript, ScriptReadable, decodeCompressedScriptSize_eq]
  generalize fieldSize (deserializeVLQ serialized).1 (deserializeVLQ serialized).2 = size
  by_cases hs : (serialized.length : Int) < size
  · rw [if_pos hs]
    exact iff_of_true returns_error (.inl hs)
  rw [if_neg hs]
  by_cases hng : size < 0
  · have hsl : slice (.ofList serialized) 0 size = .error .indexOutOfRange := by
      have hb : ¬(ofList serialized).InBounds 0 size := fun h => absurd h.2.1 (by omega)
      rw [slice, sub_eq_none_iff.2 hb]
    rw [hsl]
    exact iff_of_false (fun h => h _ rfl) (by omega)
  · obtain ⟨n, rfl⟩ := Int.eq_ofNat_of_zero_le (not_lt.1 hng)
    have hn : n ≤ serialized.length := by omega
    rw [slice_front hn]
    refine returns_orPanic_iff.trans ?_
    by_cases h0 : n = 0
    · subst h0
      exact iff_of_true ⟨[], rfl⟩ (.inr (.inl rfl))
    refine (decompressScript_ok_iff h0).trans ?_
    constructor
    · exact fun h => .inr (.inr ⟨by omega, h⟩)
    · rintro (h | h | h)
      · omega
      · omega
      · exact h.2

/-- An output from which the script can be read, if there is anything behind the amount. -/
def TxOutReadable (serialized : List UInt8) : Prop :=
  (deserializeVLQ serialized).2 < serialized.length →
    ScriptReadable (serialized.drop (deserializeVLQ serialized).2)

/-- **When an output is read without a panic.** -/
theorem returns_decodeCompressedTxOut_iff (serialized : List UInt8) :
    Returns (decodeCompressedTxOut serialized) ↔ TxOutReadable serialized := by
  rw [decodeCompressedTxOut, TxOutReadable]
  generalize (deserializeVLQ serialized).2 = bytesRead
  by_cases hs : serialized.length ≤ bytesRead
  · rw [if_pos hs]
    exact iff_of_true returns_error fun h => absurd h (not_lt.2 hs)
  · rw [if_neg hs, forall_prop_of_true (not_le.1 hs)]
    exact returns_bind_pure_iff.trans (returns_decodeCompressedScript_iff _)

theorem decodeCompressedScript_le {out : List UInt8 × Nat}
    (h : decodeCompressedScript serialized = .ok out) : out.2 ≤ serialized.length := by
  rw [decodeCompressedScript] at h
  split_ifs at h with hs
  obtain ⟨c, -, h⟩ := bind_eq_ok.1 h
  obtain ⟨script, -, h⟩ := bind_eq_ok.1 h
  rw [← pure_eq_ok.1 h]
  omega

theorem decodeCompressedTxOut_le {out : UInt64 × List UInt8 × Nat}
    (h : decodeCompressedTxOut serialized = .ok out) : out.2.2 ≤ serialized.length := by
  rw [decodeCompressedTxOut] at h
  split_ifs at h with hsh
  obtain ⟨script, hs, h⟩ := bind_eq_ok.1 h
  have hle := decodeCompressedScript_le hs
  rw [length_drop] at hle
  rw [← pure_eq_ok.1 h]
  dsimp only
  omega

end Compress

end DrcNode
