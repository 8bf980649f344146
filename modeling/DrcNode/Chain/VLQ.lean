import DrcNode.Go
import DrcNode.Library.Buffer
import DrcNode.Library.ShiftedBase
import DrcNode.Wire.Decode

/-!
# Variable length quantities

The stored records of the chain keep numbers in seven-bit groups, the most significant group first,
with the high bit set in every byte that another byte follows. One is subtracted at each
continuation, so that the numerals are those of a shifted base: no number has two of them. This is
the first part of `blockchain/compress.go`, with the database keys of the unspent outputs that
`blockchain/chainio.go` makes from it.

The loops of the source work on `uint64` and are translated on `UInt64`. `vlqBytes` is the list of
bytes the writer leaves in its buffer, and `vlqValue` is the number that bytes stand for without the
limit of 64 bits; neither is a function of the source.

## Main results

* `vlq_exact`.
-/

namespace DrcNode

open List UInt64 ShiftedBase

/-! ### The writer -/

/-- The next group: `(n >> 7) - 1`. -/
def vlqNext (n : UInt64) : UInt64 := (n >>> 7) - 1

variable {n m : UInt64} {val : UInt8} (first : Bool)

theorem toNat_vlqNext (h : 0x7f < n) : (vlqNext n).toNat = n.toNat / 128 - 1 := by
  have hlt : 127 < n.toNat := UInt64.lt_iff_toNat_lt.1 h
  have hs : (n >>> 7).toNat = n.toNat / 128 := by
    rw [UInt64.toNat_shiftRight, show (7 : UInt64).toNat % 64 = 7 from rfl,
      Nat.shiftRight_eq_div_pow]
  have ho : (1 : UInt64) ≤ n >>> 7 := by
    rw [UInt64.le_iff_toNat_le, hs, show (1 : UInt64).toNat = 1 from rfl]
    omega
  rw [vlqNext, UInt64.toNat_sub_of_le _ _ ho, hs]
  rfl

theorem vlqNext_lt (h : 0x7f < n) : (vlqNext n).toNat < n.toNat := by
  have hlt : 127 < n.toNat := lt_iff_toNat_lt.1 h
  rw [toNat_vlqNext h]
  omega

/-- `serializeSizeVLQ`: the number of bytes of the encoding. -/
def serializeSizeVLQ (n : UInt64) : Nat :=
  if 0x7f < n then serializeSizeVLQ (vlqNext n) + 1 else 1
termination_by n.toNat
decreasing_by exact vlqNext_lt ‹_›

/-- The byte with the low group of `n`. The group written first ends the encoding, and the others
have the high bit set. -/
def vlqByte (n : UInt64) : UInt8 :=
  (n &&& 0x7f).toUInt8 ||| (if first then 0x00 else 0x80)

/-- The loop of `putVLQ`: the bytes written, the low group first, and what is left of the target. -/
def putVLQLoop (first : Bool) (n : UInt64) : List UInt8 → Except Panic (List UInt8 × List UInt8)
  | [] => .error .indexOutOfRange
  | _ :: target =>
      if n ≤ 0x7f then .ok ([vlqByte first n], target)
      else do
        let written ← putVLQLoop false (vlqNext n) target
        pure (vlqByte first n :: written.1, written.2)

/-- `putVLQ`: write the groups, then turn the written bytes round. -/
def putVLQ (n : UInt64) (target : List UInt8) : Except Panic (List UInt8 × Nat) := do
  let written ← putVLQLoop true n target
  pure (written.1.reverse ++ written.2, written.1.length)

/-- The groups of `n`, the low one first. -/
def vlqGroups (first : Bool) (n : UInt64) : List UInt8 :=
  if 0x7f < n then vlqByte first n :: vlqGroups false (vlqNext n) else [vlqByte first n]
termination_by n.toNat
decreasing_by exact vlqNext_lt ‹_›

/-- The encoding of `n`. -/
def vlqBytes (n : UInt64) : List UInt8 := (vlqGroups true n).reverse

theorem length_vlqGroups (n : UInt64) : (vlqGroups first n).length = serializeSizeVLQ n := by
  fun_induction vlqGroups first n with
  | case1 first n h ih =>
    conv_rhs => rw [serializeSizeVLQ, if_pos h]
    rw [length_cons, ih]
  | case2 first n h =>
    rw [serializeSizeVLQ, if_neg h]
    rfl

@[simp] theorem length_vlqBytes (n : UInt64) : (vlqBytes n).length = serializeSizeVLQ n := by
  rw [vlqBytes, length_reverse, length_vlqGroups]

theorem serializeSizeVLQ_pos (n : UInt64) : 0 < serializeSizeVLQ n := by
  unfold serializeSizeVLQ
  split <;> omega

theorem putVLQLoop_eq (n : UInt64) {pad : List UInt8} (rest : List UInt8)
    (hl : pad.length = serializeSizeVLQ n) :
    putVLQLoop first n (pad ++ rest) = .ok (vlqGroups first n, rest) := by
  fun_induction vlqGroups first n generalizing pad with
  | case1 first n h ih =>
    rw [serializeSizeVLQ, if_pos h] at hl
    obtain ⟨b, pad, rfl⟩ := exists_cons_of_length_eq_add_one hl
    rw [length_cons, Nat.add_right_cancel_iff] at hl
    rw [cons_append, putVLQLoop, if_neg (UInt64.not_le.2 h), ih hl]
    rfl
  | case2 first n h =>
    rw [serializeSizeVLQ, if_neg h] at hl
    obtain ⟨b, pad, rfl⟩ := exists_cons_of_length_eq_add_one hl
    obtain rfl : pad = [] := by simpa using hl
    rw [cons_append, putVLQLoop, if_pos (UInt64.not_lt.1 h)]
    rfl

/-- **What `putVLQ` writes.** -/
theorem writes_putVLQ (n : UInt64) : Buffer.Writes (putVLQ n) (vlqBytes n) := by
  intro pad rest hl
  rw [length_vlqBytes] at hl
  rw [putVLQ, putVLQLoop_eq true n rest hl]
  simp [bind, Except.bind, pure, Except.pure, vlqBytes]

/-! ### The reader -/

/-- The loop of `deserializeVLQ`. -/
def deserializeVLQLoop (n : UInt64) (size : Nat) : List UInt8 → UInt64 × Nat
  | [] => (n, size)
  | val :: serialized =>
      let n := (n <<< 7) ||| (val &&& 0x7f).toUInt64
      if val &&& 0x80 ≠ 0x80 then (n, size + 1)
      else deserializeVLQLoop (n + 1) (size + 1) serialized

/-- `deserializeVLQ`: the number, modulo `2 ^ 64`, and how many bytes were read. -/
def deserializeVLQ (serialized : List UInt8) : UInt64 × Nat := deserializeVLQLoop 0 0 serialized

/-- An encoding with all its bytes: the last byte, and no other, has the high bit clear. -/
def CompleteVLQ : List UInt8 → Prop
  | [] => False
  | [val] => val < 0x80
  | val :: val' :: bytes => 0x80 ≤ val ∧ CompleteVLQ (val' :: bytes)

/-- The seven bits of a byte that count. -/
def vlqDigit (val : UInt8) : Nat := val.toNat % 128

/-- The exact value of an encoding. -/
def vlqValue (bytes : List UInt8) : Nat := valueFrom 128 0 (bytes.map vlqDigit)

/-! ### Bytes and groups -/

theorem toNat_and_127 (n : Nat) : n &&& 127 = n % 128 := Nat.and_two_pow_sub_one_eq_mod n 7

theorem toNat_vlqByte (n : UInt64) :
    (vlqByte first n).toNat = n.toNat % 128 + if first then 0 else 128 := by
  have hl : ((n &&& 0x7f).toUInt8).toNat = n.toNat % 128 := by
    rw [UInt64.toNat_toUInt8, UInt64.toNat_and, show (0x7f : UInt64).toNat = 127 from rfl,
      toNat_and_127]
    omega
  cases first with
  | true =>
    rw [vlqByte, UInt8.toNat_or, hl]
    exact Nat.or_zero _
  | false =>
    have hor := Nat.two_pow_add_eq_or_of_lt (show n.toNat % 128 < 2 ^ 7 by omega) 1
    rw [vlqByte, UInt8.toNat_or, hl, Nat.or_comm]
    exact hor.symm.trans (Nat.add_comm _ _)

theorem toNat_low_group (val : UInt8) : ((val &&& 0x7f).toUInt64).toNat = vlqDigit val := by
  rw [UInt8.toNat_toUInt64, UInt8.toNat_and, show (0x7f : UInt8).toNat = 127 from rfl,
    toNat_and_127, vlqDigit]

theorem vlqDigit_lt (val : UInt8) : vlqDigit val < 128 := Nat.mod_lt _ (by decide)

theorem shiftLeft_or_group (acc : Nat) (val : UInt8) :
    (UInt64.ofNat acc <<< 7) ||| (val &&& 0x7f).toUInt64 =
      UInt64.ofNat (acc * 128 + vlqDigit val) := by
  apply UInt64.toNat.inj
  have hd := vlqDigit_lt val
  have hor := Nat.two_pow_add_eq_or_of_lt (show vlqDigit val < 2 ^ 7 by omega) (acc % 2 ^ 57)
  have hs : acc % 2 ^ 64 * 2 ^ 7 % 2 ^ 64 = 2 ^ 7 * (acc % 2 ^ 57) := by omega
  rw [UInt64.toNat_or, toNat_low_group, UInt64.toNat_shiftLeft,
    show (7 : UInt64).toNat % 64 = 7 from rfl, toNat_ofNat', toNat_ofNat', Nat.shiftLeft_eq, hs]
  omega

theorem deserializeVLQLoop_complete : {bytes : List UInt8} → CompleteVLQ bytes →
    (acc size : Nat) → (rest : List UInt8) →
    deserializeVLQLoop (UInt64.ofNat acc) size (bytes ++ rest) =
      (UInt64.ofNat (ShiftedBase.valueFrom 128 acc (bytes.map vlqDigit)), size + bytes.length)
  | [], h, _, _, _ => h.elim
  | [val], h, acc, size, rest => by
      rw [singleton_append, deserializeVLQLoop, if_pos (and_0x80_ne_iff.2 h), shiftLeft_or_group]
      rfl
  | val :: val' :: bytes, h, acc, size, rest => by
      have hc : ¬val &&& 0x80 ≠ 0x80 := by
        rw [and_0x80_ne_iff]
        exact UInt8.not_lt.2 h.1
      have ih := deserializeVLQLoop_complete h.2 (acc * 128 + vlqDigit val + 1) (size + 1) rest
      rw [cons_append, deserializeVLQLoop, if_neg hc, shiftLeft_or_group]
      have ha : UInt64.ofNat (acc * 128 + vlqDigit val) + 1 =
          UInt64.ofNat (acc * 128 + vlqDigit val + 1) := by
        rw [ofNat_add (acc * 128 + vlqDigit val)]
        rfl
      rw [ha, ih]
      refine Prod.ext rfl ?_
      simp only [length_cons]
      omega

variable {bytes : List UInt8}

/-- **Reading a complete encoding**, whatever follows it. -/
theorem deserializeVLQ_complete (h : CompleteVLQ bytes) (rest : List UInt8) :
    deserializeVLQ (bytes ++ rest) = (UInt64.ofNat (vlqValue bytes), bytes.length) := by
  simpa [deserializeVLQ, vlqValue] using deserializeVLQLoop_complete h 0 0 rest

/-! ### Round trip and order -/

theorem CompleteVLQ.ne_nil (h : CompleteVLQ bytes) : bytes ≠ [] := by
  rintro rfl
  exact h

theorem completeVLQ_append (h : CompleteVLQ bytes) : {high : List UInt8} →
    (∀ val ∈ high, 0x80 ≤ val) → CompleteVLQ (high ++ bytes)
  | [], _ => h
  | val :: high, hh => by
      have ih := completeVLQ_append h fun v hv => hh v (mem_cons_of_mem val hv)
      obtain ⟨val', rest, hr⟩ := exists_cons_of_ne_nil ih.ne_nil
      rw [cons_append, hr]
      rw [hr] at ih
      exact ⟨hh val mem_cons_self, ih⟩

theorem le_of_mem_vlqGroups (n : UInt64) : ∀ val ∈ vlqGroups false n, 0x80 ≤ val := by
  have hb : ∀ n, (0x80 : UInt8) ≤ vlqByte false n := by
    intro n
    rw [UInt8.le_iff_toNat_le, toNat_vlqByte]
    exact Nat.le_add_left _ _
  generalize hf : false = first
  fun_induction vlqGroups first n with
  | case1 first n h ih =>
    subst hf
    exact forall_mem_cons.2 ⟨hb n, ih rfl⟩
  | case2 first n h =>
    subst hf
    exact forall_mem_singleton.2 (hb n)

theorem completeVLQ_vlqBytes (n : UInt64) : CompleteVLQ (vlqBytes n) := by
  have hl : CompleteVLQ [vlqByte true n] := by
    change vlqByte true n < 0x80
    rw [UInt8.lt_iff_toNat_lt, toNat_vlqByte]
    exact Nat.mod_lt _ (by decide)
  rw [vlqBytes, vlqGroups]
  split
  · rw [reverse_cons]
    refine completeVLQ_append hl fun val hv => ?_
    exact le_of_mem_vlqGroups _ val (mem_reverse.1 hv)
  · exact hl

theorem vlqDigit_vlqByte (first : Bool) (n : UInt64) :
    vlqDigit (vlqByte first n) = n.toNat % 128 := by
  rw [vlqDigit, toNat_vlqByte]
  cases first
  · exact (Nat.add_mod_right _ _).trans (Nat.mod_mod _ _)
  · exact Nat.mod_mod _ _

theorem valueFrom_vlqGroups (first : Bool) (n : UInt64) :
    vlqValue (vlqGroups first n).reverse = n.toNat := by
  fun_induction vlqGroups first n with
  | case1 first n h ih =>
    have hlt : 127 < n.toNat := lt_iff_toNat_lt.1 h
    have hne : (vlqGroups false (vlqNext n)).reverse.map vlqDigit ≠ [] := by
      have hp := serializeSizeVLQ_pos (vlqNext n)
      rw [← length_vlqGroups false] at hp
      simpa using ne_nil_of_length_pos hp
    rw [vlqValue] at ih
    rw [vlqValue, reverse_cons, map_append, map_singleton,
      valueFrom_concat _ hne, ih, toNat_vlqNext h, vlqDigit_vlqByte]
    omega
  | case2 first n h =>
    have hle : n.toNat ≤ 127 := UInt64.le_iff_toNat_le.1 (UInt64.not_lt.1 h)
    rw [vlqValue, reverse_singleton, map_singleton, valueFrom, vlqDigit_vlqByte]
    omega

theorem vlqValue_vlqBytes (n : UInt64) : vlqValue (vlqBytes n) = n.toNat :=
  valueFrom_vlqGroups true n

/-- **What was written is read back**, whatever follows it. -/
theorem deserializeVLQ_vlqBytes_append (n : UInt64) (rest : List UInt8) :
    deserializeVLQ (vlqBytes n ++ rest) = (n, serializeSizeVLQ n) := by
  rw [deserializeVLQ_complete (completeVLQ_vlqBytes n), vlqValue_vlqBytes, UInt64.ofNat_toNat,
    length_vlqBytes]

theorem toNat_of_lt_0x80 (h : val < 0x80) : val.toNat = vlqDigit val :=
  (Nat.mod_eq_of_lt (UInt8.lt_iff_toNat_lt.1 h)).symm

theorem toNat_of_0x80_le (h : 0x80 ≤ val) : val.toNat = vlqDigit val + 128 := by
  have hle : 128 ≤ val.toNat := UInt8.le_iff_toNat_le.1 h
  have hlt : val.toNat < 256 := val.toNat_lt
  rw [vlqDigit]
  omega

theorem CompleteVLQ.lt_iff_map_vlqDigit_lt : {l l' : List UInt8} → CompleteVLQ l →
    CompleteVLQ l' → l.length = l'.length → (l < l' ↔ l.map vlqDigit < l'.map vlqDigit)
  | [], _, h, _, _ => h.elim
  | _ :: _, [], _, h', _ => h'.elim
  | [val], [val'], h, h', _ => by
      simp [cons_lt_cons_iff, UInt8.lt_iff_toNat_lt, toNat_of_lt_0x80 h, toNat_of_lt_0x80 h',
        not_lt_nil]
  | [_], _ :: _ :: _, _, _, hl => by simp at hl
  | _ :: _ :: _, [_], _, _, hl => by simp at hl
  | val :: w :: l, val' :: w' :: l', h, h', hl => by
      have ih := lt_iff_map_vlqDigit_lt h.2 h'.2 (by simpa using hl)
      have hv : val = val' ↔ vlqDigit val = vlqDigit val' := by
        rw [← UInt8.toNat_inj, toNat_of_0x80_le h.1, toNat_of_0x80_le h'.1,
          Nat.add_right_cancel_iff]
      rw [map_cons, map_cons (l := w' :: l'), cons_lt_cons_iff (a := val),
        cons_lt_cons_iff (a := vlqDigit val), ih, hv, UInt8.lt_iff_toNat_lt, toNat_of_0x80_le h.1,
        toNat_of_0x80_le h'.1, Nat.add_lt_add_iff_right]

theorem CompleteVLQ.eq_of_map_vlqDigit {l l' : List UInt8} (h : CompleteVLQ l)
    (h' : CompleteVLQ l') (heq : l.map vlqDigit = l'.map vlqDigit) : l = l' := by
  have hl : l.length = l'.length := by simpa using congrArg length heq
  refine List.le_antisymm (List.not_lt.1 fun hlt => ?_) (List.not_lt.1 fun hlt => ?_)
  · exact List.lt_irrefl _ (heq ▸ (h'.lt_iff_map_vlqDigit_lt h hl.symm).1 hlt)
  · exact List.lt_irrefl _ (heq ▸ (h.lt_iff_map_vlqDigit_lt h' hl).1 hlt)

theorem vlqDigit_lt_of_mem : ∀ d ∈ bytes.map vlqDigit, d < 128 := by
  intro d hd
  obtain ⟨val, -, rfl⟩ := mem_map.1 hd
  exact vlqDigit_lt val

/-- **A complete encoding is the one the writer makes** of its value, when that has 64 bits. -/
theorem eq_vlqBytes_of_complete (h : CompleteVLQ bytes) (hv : vlqValue bytes < 2 ^ 64) :
    bytes = vlqBytes (UInt64.ofNat (vlqValue bytes)) := by
  have hc := completeVLQ_vlqBytes (UInt64.ofNat (vlqValue bytes))
  have hva : vlqValue bytes = vlqValue (vlqBytes (UInt64.ofNat (vlqValue bytes))) := by
    rw [vlqValue_vlqBytes, toNat_ofNat', Nat.mod_eq_of_lt hv]
  refine h.eq_of_map_vlqDigit hc ?_
  exact valueFrom_zero_inj (by simpa using h.ne_nil) (by simpa using hc.ne_nil)
    vlqDigit_lt_of_mem vlqDigit_lt_of_mem hva

/-- **Encodings of equal length are ordered as the numbers.** -/
theorem vlqBytes_lt_vlqBytes_iff (h : serializeSizeVLQ n = serializeSizeVLQ m) :
    vlqBytes n < vlqBytes m ↔ n < m := by
  have hl : (vlqBytes n).length = (vlqBytes m).length := by
    rw [length_vlqBytes, length_vlqBytes, h]
  rw [(completeVLQ_vlqBytes n).lt_iff_map_vlqDigit_lt (completeVLQ_vlqBytes m) hl,
    lt_iff_valueFrom_lt (by simpa using h) vlqDigit_lt_of_mem vlqDigit_lt_of_mem 0,
    lt_iff_toNat_lt, ← vlqValue_vlqBytes n, ← vlqValue_vlqBytes m]
  rfl

/-! ### Keys of outputs -/

def maxUint32VLQSerializeSize : Nat := serializeSizeVLQ 0xffffffff

theorem serializeSizeVLQ_mono (h : n ≤ m) : serializeSizeVLQ n ≤ serializeSizeVLQ m := by
  fun_induction serializeSizeVLQ n generalizing m with
  | case1 n hn ih =>
    have hm : 0x7f < m := UInt64.lt_of_lt_of_le hn h
    have hnt : vlqNext n ≤ vlqNext m := by
      rw [le_iff_toNat_le] at h ⊢
      rw [toNat_vlqNext hn, toNat_vlqNext hm]
      omega
    rw [serializeSizeVLQ.eq_def m, if_pos hm]
    exact Nat.succ_le_succ (ih hnt)
  | case2 n hn => exact serializeSizeVLQ_pos m

/-- `outpointKey`, with a buffer from the free list: the hash of the transaction, then the index of
the output. -/
def outpointKey (pooled : List UInt8) (outpoint : OutPoint) : Except Panic (List UInt8) :=
  let idx := outpoint.index.toUInt64
  let len := outpoint.hash.bytes.length + serializeSizeVLQ idx
  if pooled.length < len then .error .indexOutOfRange
  else (Buffer.followedBy (Buffer.store .indexOutOfRange outpoint.hash.bytes) (putVLQ idx)
    (pooled.take len)).map Prod.fst

/-- The buffers of the free list: `outpointKeyPool`. -/
def Pooled (pooled : List UInt8) : Prop := pooled.length = 32 + maxUint32VLQSerializeSize

theorem Hash.length_bytes (h : Hash) : h.bytes.length = 32 := length_beBytes 32 h.toNat

/-- **The key of an output**, whatever the buffer held before. -/
theorem outpointKey_eq {pooled : List UInt8} (hp : Pooled pooled) (outpoint : OutPoint) :
    outpointKey pooled outpoint =
      .ok (outpoint.hash.bytes ++ vlqBytes outpoint.index.toUInt64) := by
  have hle : outpoint.index.toUInt64 ≤ 0xffffffff := by
    rw [le_iff_toNat_le, UInt32.toNat_toUInt64,
      show (0xffffffff : UInt64).toNat = 2 ^ 32 - 1 from rfl]
    have := outpoint.index.toNat_lt
    omega
  have hs := serializeSizeVLQ_mono hle
  rw [Pooled, maxUint32VLQSerializeSize] at hp
  have hl : ¬pooled.length <
      outpoint.hash.bytes.length + serializeSizeVLQ outpoint.index.toUInt64 := by
    rw [Hash.length_bytes]
    omega
  have hw := (Buffer.Writes.store Panic.indexOutOfRange outpoint.hash.bytes).followedBy
    (writes_putVLQ outpoint.index.toUInt64)
  rw [outpointKey]
  simp only [if_neg hl]
  rw [hw.fill (by
    rw [length_take, length_append, length_vlqBytes]
    omega)]
  rfl

theorem eq_of_key_isPrefix {o o' : OutPoint}
    (h : o.hash.bytes ++ vlqBytes o.index.toUInt64 <+:
      o'.hash.bytes ++ vlqBytes o'.index.toUInt64) :
    o = o' := by
  obtain ⟨rest, hre⟩ := h
  rw [append_assoc] at hre
  have hh := reads_beBytes (n := 32) o.hash (vlqBytes o.index.toUInt64 ++ rest)
  rw [show beBytes 32 o.hash.toNat = o.hash.bytes from rfl, hre] at hh
  have hh' := reads_beBytes (n := 32) o'.hash (vlqBytes o'.index.toUInt64)
  obtain ⟨heq, hid⟩ := Prod.mk.inj (Option.some.inj (hh.symm.trans hh'))
  have hr := deserializeVLQ_vlqBytes_append o.index.toUInt64 rest
  have hr' := deserializeVLQ_vlqBytes_append o'.index.toUInt64 []
  rw [append_nil, ← hid, hr] at hr'
  have hi : o.index = o'.index := UInt32.toUInt64_inj.1 (Prod.mk.inj hr').1
  cases o
  cases o'
  cases heq
  cases hi
  rfl

/-- **The codec of variable length quantities is exact**: numbers are read back, have one encoding,
and are ordered as their encodings of equal length; the keys are injective and prefix-free. -/
theorem vlq_exact : (∀ (n : UInt64) (pad rest : List UInt8), pad.length = serializeSizeVLQ n →
      putVLQ n (pad ++ rest) = .ok (vlqBytes n ++ rest, serializeSizeVLQ n) ∧
        (vlqBytes n).length = serializeSizeVLQ n ∧
          deserializeVLQ (vlqBytes n ++ rest) = (n, serializeSizeVLQ n)) ∧
    (∀ bytes : List UInt8, CompleteVLQ bytes → vlqValue bytes < 2 ^ 64 →
      ∀ pad rest : List UInt8, pad.length = bytes.length →
        putVLQ (UInt64.ofNat (vlqValue bytes)) (pad ++ rest) = .ok (bytes ++ rest, bytes.length)) ∧
    (∀ n m : UInt64, serializeSizeVLQ n = serializeSizeVLQ m → (vlqBytes n < vlqBytes m ↔ n < m)) ∧
    ∀ pooled pooled' : List UInt8, Pooled pooled → Pooled pooled' → ∀ o o' : OutPoint,
      ∃ key key', outpointKey pooled o = .ok key ∧ outpointKey pooled' o' = .ok key' ∧
        (key <+: key' → o = o') := by
  refine ⟨?_, ?_, fun n m h => vlqBytes_lt_vlqBytes_iff h, ?_⟩
  · intro n pad rest hl
    have hl' := length_vlqBytes n
    refine ⟨?_, hl', deserializeVLQ_vlqBytes_append n rest⟩
    rw [writes_putVLQ n pad rest (hl.trans hl'.symm), hl']
  · intro bytes hc hv pad rest hl
    have heq := eq_vlqBytes_of_complete hc hv
    have hw := writes_putVLQ (UInt64.ofNat (vlqValue bytes))
    rw [← heq] at hw
    exact hw pad rest hl
  · intro pooled pooled' h h' o o'
    exact ⟨_, _, outpointKey_eq h o, outpointKey_eq h' o', eq_of_key_isPrefix⟩

end DrcNode
