import DrcNode.Mining.Miner
import DrcNode.Script.Engine

/-!
# The height in the coinbase

A block carries its height at the start of the signature script of its coinbase. The miner writes it
with the script builder, as a script number in the shortest form; a block is checked by reading a
small integer, or a number of bytes and as many bytes, least significant first. The reader is more
liberal than the writer. The writer fails on one extra nonce, the least `int64`.

## Main results

* `coinbaseHeight_readBack`.

Source: `AddData`, `AddInt64` in `txscript/scriptbuilder.go`; `standardCoinbaseScript` in
`mining/mining.go`. The reader is in `Chain/Connect`.
-/

namespace DrcNode

open List UInt8 Opcode

/-! ### The script builder -/

/-- `ErrScriptNotCanonical`: what a push would exceed. -/
inductive ErrScriptNotCanonical
  | scriptLength (dataSize : Nat)
  | elementSize (dataLen : Nat)
  | integerScriptLength
  | opcodeScriptLength
  deriving DecidableEq, Repr

structure ScriptBuilder where
  script : List UInt8 := []
  err : Option ErrScriptNotCanonical := none
  deriving DecidableEq, Repr

def canonicalDataSize : List UInt8 → Nat
  | [] => 1
  | [value] => if value ≤ 16 ∨ value = 0x81 then 1 else 2
  | data =>
      if data.length < pushData1.toNat then 1 + data.length
      else if data.length ≤ 0xff then 2 + data.length
      else if data.length ≤ 0xffff then 3 + data.length
      else 5 + data.length

namespace ScriptBuilder

def addData (b : ScriptBuilder) (data : List UInt8) : ScriptBuilder :=
  if b.err.isSome then b
  else if maxScriptSize < b.script.length + canonicalDataSize data then
    { b with err := some (.scriptLength (canonicalDataSize data)) }
  else if maxScriptElementSize < data.length then { b with err := some (.elementSize data.length) }
  else { b with script := b.script ++ DrcNode.addData data }

def addInt64 (b : ScriptBuilder) (val : Int64) : ScriptCheck ScriptBuilder :=
  if b.err.isSome then .ok b
  else if maxScriptSize < b.script.length + 1 then
    .ok { b with err := some .integerScriptLength }
  else if val = 0 then .ok { b with script := b.script ++ [0] }
  else if val = -1 ∨ (1 ≤ val ∧ val ≤ 16) then
    .ok { b with script := b.script ++ [UInt8.ofNat (0x50 + val.toInt).toNat] }
  else do
    let bytes ← ScriptNum.bytes val
    pure (b.addData bytes)

/-- `Script`: the script, or the first error. -/
def build (b : ScriptBuilder) : Except ErrScriptNotCanonical (List UInt8) :=
  match b.err with
  | none => .ok b.script
  | some e => .error e

end ScriptBuilder

/-- `standardCoinbaseScript`, with any extra nonce. -/
def coinbaseScript (nextBlockHeight : Int32) (extraNonce : UInt64) :
    ScriptCheck (Except ErrScriptNotCanonical (List UInt8)) := do
  let b ← ScriptBuilder.addInt64 {} nextBlockHeight.toInt64
  let b ← b.addInt64 extraNonce.toInt64
  pure (b.addData coinbaseFlags).build

/-! ### What the builder writes -/

theorem canonicalDataSize_le (data : List UInt8) : canonicalDataSize data ≤ 5 + data.length := by
  unfold canonicalDataSize
  split
  · simp
  · split_ifs <;> simp
  · split_ifs <;> omega

variable {v : Nat} {coinbaseTx : MsgTx} {others : List TxIn} {bytes : List UInt8} {last : UInt8}
  {txIn : TxIn}

theorem getLast_scriptNumBytes (h : (scriptNumBytes v).getLast? = some last) :
    last &&& 0x80 = 0 := by
  obtain ⟨init, hi⟩ := getLast?_eq_some_iff.1 h
  have hv := (scriptNumValue_scriptNumBytes v).1
  rw [hi] at hv
  by_contra hs
  have hp : scriptNumMagnitude init last ≠ 0 := by
    rw [← natAbs_scriptNumValue_concat, hv]
    rintro rfl
    exact absurd (congrArg List.length hi) (by simp [scriptNumBytes])
  have hn := (scriptNumValue_neg_iff hp).2 (and_0x80_ne_zero_iff.1 hs)
  omega

theorem ofLeBytes_scriptNumBytes (hv : v ≠ 0) : ofLeBytes (scriptNumBytes v) = v := by
  have hva := (scriptNumValue_scriptNumBytes v).1
  cases hl : (scriptNumBytes v).getLast? with
  | none =>
    simp only [scriptNumValue, hl] at hva
    omega
  | some last =>
    rw [scriptNumValue_of_sign hl (getLast_scriptNumBytes hl)] at hva
    omega

theorem length_addData_le (data : List UInt8) : (addData data).length ≤ 5 + data.length := by
  unfold addData
  split
  · simp
  · simp
  · split_ifs <;> simp
  · split_ifs <;> simp

theorem length_addInt64_le (val : Int64) : (addInt64 val.toInt).length ≤ 14 := by
  have hle := length_scriptNumBytes_toInt_le val
  have hd := length_addData_le (scriptNumBytes val.toInt)
  rw [addInt64]
  split_ifs
  · simp
  · simp
  · omega

theorem addInt64_toInt (val : Int64) : addInt64 val.toInt =
    if val = 0 then [0]
    else if val = -1 ∨ (1 ≤ val ∧ val ≤ 16) then [UInt8.ofNat (0x50 + val.toInt).toNat]
    else addData (scriptNumBytes val.toInt) := by
  have hz : val = 0 ↔ val.toInt = 0 := Int64.toInt_inj.symm
  have hn : val = -1 ↔ val.toInt = -1 := Int64.toInt_inj.symm
  have ho : 1 ≤ val ↔ 1 ≤ val.toInt := Int64.le_iff_toInt_le
  have hs : val ≤ 16 ↔ val.toInt ≤ 16 := Int64.le_iff_toInt_le
  rw [addInt64]
  simp [hz, hn, ho, hs]

namespace ScriptBuilder

variable {b : ScriptBuilder} {val : Int64}

/-- **What the builder appends for a number**, when the script stays short. -/
theorem addInt64_eq (her : b.err = none) (hl : b.script.length + 20 ≤ maxScriptSize)
    (hv : val ≠ Int64.minValue) :
    b.addInt64 val = .ok { b with script := b.script ++ DrcNode.addInt64 val.toInt } := by
  have hsh : ¬maxScriptSize < b.script.length + 1 := by omega
  rw [addInt64, addInt64_toInt, her]
  simp only [Option.isSome_none, Bool.false_eq_true, if_false]
  split_ifs with h0 hsm
  · rfl
  · rfl
  have hle := length_scriptNumBytes_toInt_le val
  have hc := canonicalDataSize_le (scriptNumBytes val.toInt)
  have hsi : ¬maxScriptSize < b.script.length + canonicalDataSize (scriptNumBytes val.toInt) := by
    omega
  have he : ¬maxScriptElementSize < (scriptNumBytes val.toInt).length := by
    rw [maxScriptElementSize]
    omega
  rw [ScriptNum.bytes_eq_scriptNumBytes hv]
  simp [bind, Except.bind, pure, Except.pure, addData, her, hsi, he]

end ScriptBuilder

/-! ### What is read back -/

theorem addInt64_of_seventeen_le (h : 17 ≤ v) (hlt : v < 2 ^ 31) :
    addInt64 v = UInt8.ofNat (scriptNumBytes v).length :: scriptNumBytes v := by
  have hv := ofLeBytes_scriptNumBytes (show v ≠ 0 by omega)
  have hln : (scriptNumBytes v).length ≤ 5 := length_scriptNumBytes_le (k := 4) (by omega)
  have hs := @getLast_scriptNumBytes v
  rw [addInt64, if_neg (by omega), if_neg (by omega)]
  generalize scriptNumBytes v = bytes at hv hln hs
  unfold addData
  split
  · rw [ofLeBytes] at hv
    omega
  · exact absurd (hs rfl) (by decide)
  · next value _ =>
    have hl : ¬value ≤ 16 := by
      intro hle
      have := le_iff_toNat_le.1 hle
      rw [ofLeBytes, ofLeBytes] at hv
      have h16 : (16 : UInt8).toNat = 16 := rfl
      omega
    rw [if_neg hl]
    rfl
  · rw [if_pos]
    exact Nat.lt_of_le_of_lt hln (by decide)

theorem extractCoinbaseHeight_cons (ht : coinbaseTx.txIn = txIn :: others) {opcode : UInt8}
    {rest : List UInt8} (hs : txIn.signatureScript = opcode :: rest) :
    extractCoinbaseHeight coinbaseTx = if opcode = 0 then .ok 0
      else if op1 ≤ opcode ∧ opcode ≤ op16 then
        .ok (Int32.ofNat (opcode.toNat - (op1.toNat - 1)))
      else if rest.length < opcode.toNat then ruleError .errMissingCoinbaseHeight
      else .ok (Int32.ofNat (ofLeBytes ((rest.take opcode.toNat).take 8))) := by
  rw [extractCoinbaseHeight, ht]
  simp [hs]

/-- **A height that the builder has written is read back**, whatever follows it. -/
theorem extractCoinbaseHeight_addInt64 (hti : coinbaseTx.txIn = txIn :: others) (hlt : v < 2 ^ 31)
    (h : addInt64 v <+: txIn.signatureScript) :
    extractCoinbaseHeight coinbaseTx = .ok (Int32.ofNat v) := by
  obtain ⟨rest, hr⟩ := h
  by_cases hs : v ≤ 16
  · -- the numbers with opcodes of their own, one by one
    by_cases hz : v = 0
    · subst hz
      exact extractCoinbaseHeight_cons hti hr.symm
    have ho : addInt64 v = [UInt8.ofNat (0x50 + v)] := by
      rw [addInt64, if_neg (by omega), if_pos (by omega)]
      congr
    have ht : (UInt8.ofNat (0x50 + v)).toNat = 0x50 + v := by
      rw [toNat_ofNat', Nat.mod_eq_of_lt (by omega)]
    rw [ho] at hr
    rw [extractCoinbaseHeight_cons hti hr.symm, if_neg, if_pos, ht]
    · congr
      exact Nat.add_sub_cancel_left 0x50 v
    · rw [le_iff_toNat_le, le_iff_toNat_le, ht]
      exact ⟨show 0x51 ≤ 0x50 + v by omega, show 0x50 + v ≤ 0x60 by omega⟩
    · intro heq
      rw [heq] at ht
      exact absurd ht (show 0 ≠ 0x50 + v by omega)
  · have hl : (scriptNumBytes v).length ≤ 5 := length_scriptNumBytes_le (k := 4) (by omega)
    have hv := ofLeBytes_scriptNumBytes (show v ≠ 0 by omega)
    have hp : 0 < (scriptNumBytes v).length := by
      refine length_pos_iff.2 fun hn => ?_
      rw [hn, ofLeBytes] at hv
      omega
    have ht : (UInt8.ofNat (scriptNumBytes v).length).toNat = (scriptNumBytes v).length := by
      rw [toNat_ofNat', Nat.mod_eq_of_lt (by omega)]
    rw [addInt64_of_seventeen_le (by omega) hlt, cons_append] at hr
    rw [extractCoinbaseHeight_cons hti hr.symm, if_neg, if_neg, if_neg, ht]
    · rw [take_left' rfl, take_of_length_le (by omega), hv]
    · rw [length_append, ht]
      omega
    · rw [le_iff_toNat_le, ht]
      exact fun hop => absurd hop.1 (show ¬0x51 ≤ (scriptNumBytes v).length by omega)
    · intro heq
      rw [heq] at ht
      exact absurd ht (show 0 ≠ (scriptNumBytes v).length by omega)

/-! ### The shortest form -/

/-- The script starts with a small integer, or with a push of a number in the shortest form. -/
def ShortestHeight : List UInt8 → Prop
  | [] => False
  | opcode :: rest =>
      opcode = 0 ∨ (op1 ≤ opcode ∧ opcode ≤ op16) ∨
        ((rest.take opcode.toNat).length ≤ defaultScriptNumLen ∧
          checkMinimalDataEncoding (rest.take opcode.toNat) = .ok () ∧
          (∀ last ∈ (rest.take opcode.toNat).getLast?, last &&& 0x80 = 0) ∧
          17 ≤ ofLeBytes (rest.take opcode.toNat))

theorem ofLeBytes_lt_of_sign (hln : bytes.length ≤ 4)
    (hsi : ∀ last ∈ bytes.getLast?, last &&& 0x80 = 0) : ofLeBytes bytes < 2 ^ 31 := by
  cases hl : bytes.getLast? with
  | none =>
    rw [getLast?_eq_none_iff.1 hl]
    decide
  | some last =>
    obtain ⟨init, rfl⟩ := getLast?_eq_some_iff.1 hl
    have hc := hsi last (by rw [hl]; rfl)
    have hs : last.toNat < 128 := by
      have hlt : last < 0x80 := by
        rw [← and_0x80_ne_iff, hc]
        decide
      exact lt_iff_toNat_lt.1 hlt
    have hi : init.length ≤ 3 := by
      rw [length_append, length_singleton] at hln
      omega
    rw [ofLeBytes_concat]
    calc ofLeBytes init + 256 ^ init.length * last.toNat
        < 256 ^ init.length + 256 ^ init.length * last.toNat :=
          Nat.add_lt_add_right (ofLeBytes_lt init) _
      _ = 256 ^ init.length * (last.toNat + 1) := by ring
      _ ≤ 256 ^ 3 * 128 := Nat.mul_le_mul (Nat.pow_le_pow_right (by decide) hi) hs
      _ = 2 ^ 31 := by norm_num

/-- **A script that is accepted and starts with the shortest form starts as the builder would
write it.** -/
theorem addInt64_isPrefix (hti : coinbaseTx.txIn = txIn :: others) (hlt : v < 2 ^ 31)
    (hs : ShortestHeight txIn.signatureScript)
    (h : extractCoinbaseHeight coinbaseTx = .ok (Int32.ofNat v)) :
    addInt64 v <+: txIn.signatureScript := by
  cases hsc : txIn.signatureScript with
  | nil =>
    rw [hsc] at hs
    exact hs.elim
  | cons opcode rest =>
    rw [hsc] at hs
    rw [extractCoinbaseHeight_cons hti hsc] at h
    have hi : ∀ {w : Nat}, w < 2 ^ 31 → Int32.ofNat w = Int32.ofNat v → w = v := by
      intro w hw heq
      have ht := congrArg Int32.toInt heq
      rw [Int32.toInt_ofNat_of_lt hw, Int32.toInt_ofNat_of_lt hlt] at ht
      omega
    split_ifs at h with hz hop hln
    · obtain rfl : 0 = v := hi (by decide) (Except.ok.inj h)
      exact ⟨rest, by rw [hz]; rfl⟩
    · rw [le_iff_toNat_le, le_iff_toNat_le, show op1.toNat = 0x51 from rfl,
        show op16.toNat = 0x60 from rfl] at hop
      have hv : opcode.toNat - 0x50 = v := hi (by omega) (Except.ok.inj h)
      rw [addInt64, if_neg (by omega), if_pos (by omega)]
      refine ⟨rest, ?_⟩
      rw [show (0x50 + (v : Int)).toNat = opcode.toNat by omega, UInt8.ofNat_toNat]
      rfl
    · exact absurd h ruleError_ne_ok
    · obtain ⟨hf, hm, hsi, hl⟩ := (hs.resolve_left hz).resolve_left hop
      have hp : (rest.take opcode.toNat).length = opcode.toNat := by
        rw [length_take]
        omega
      rw [defaultScriptNumLen] at hf
      rw [take_of_length_le (by omega)] at h
      have hv := hi (ofLeBytes_lt_of_sign hf hsi) (Except.ok.inj h)
      obtain ⟨last, hla⟩ : ∃ last, (rest.take opcode.toNat).getLast? = some last := by
        refine Option.ne_none_iff_exists'.1 fun hn => ?_
        rw [getLast?_eq_none_iff.1 hn, ofLeBytes] at hl
        omega
      have hb := scriptNumBytes_scriptNumValue hm
      rw [scriptNumValue_of_sign hla (hsi last hla), hv] at hb
      rw [hv] at hl
      rw [addInt64_of_seventeen_le hl hlt, hb, hp, UInt8.ofNat_toNat]
      refine ⟨rest.drop opcode.toNat, ?_⟩
      rw [cons_append, take_append_drop]

theorem toInt_of_nonneg {h : Int32} (hp : 0 ≤ h) : h.toInt = h.toNatClampNeg := by
  have := Int32.le_iff_toInt_le.1 hp
  exact (Int.toNat_of_nonneg this).symm

theorem toNatClampNeg_lt (h : Int32) : h.toNatClampNeg < 2 ^ 31 := by
  have := h.toInt_lt
  rw [Int32.toNatClampNeg]
  omega

theorem ofNat_toNatClampNeg {h : Int32} (hp : 0 ≤ h) : Int32.ofNat h.toNatClampNeg = h := by
  rw [← Int32.toInt_inj, Int32.toInt_ofNat_of_lt (toNatClampNeg_lt h), toInt_of_nonneg hp]

theorem addInt64_empty {h : Int32} (hp : 0 ≤ h) :
    ScriptBuilder.addInt64 {} h.toInt64 = .ok { script := addInt64 h.toNatClampNeg } := by
  have ht : h.toInt64.toInt = h.toNatClampNeg := by
    rw [Int32.toInt_toInt64, toInt_of_nonneg hp]
  have hv : h.toInt64 ≠ Int64.minValue := by
    intro heq
    rw [heq] at ht
    exact absurd ht (show (-2 ^ 63 : Int) ≠ h.toNatClampNeg by omega)
  rw [ScriptBuilder.addInt64_eq rfl (by decide) hv, ht]
  rfl

theorem coinbaseScript_eq {h : Int32} {extraNonce : UInt64} (hp : 0 ≤ h)
    (hv : extraNonce.toInt64 ≠ Int64.minValue) :
    coinbaseScript h extraNonce = .ok (.ok (addInt64 h.toNatClampNeg ++
      addInt64 extraNonce.toInt64.toInt ++ addData coinbaseFlags)) := by
  have hh := length_addInt64_le h.toInt64
  rw [Int32.toInt_toInt64, toInt_of_nonneg hp] at hh
  have hn := length_addInt64_le extraNonce.toInt64
  rw [coinbaseScript, addInt64_empty hp]
  simp only [bind, Except.bind]
  have hr : (addInt64 h.toNatClampNeg).length + 20 ≤ maxScriptSize := by
    rw [maxScriptSize]
    omega
  rw [ScriptBuilder.addInt64_eq rfl hr hv]
  simp only [pure]
  rw [ScriptBuilder.addData, if_neg (by simp), if_neg]
  · rfl
  · rw [length_append, maxScriptSize, show canonicalDataSize coinbaseFlags = 12 from rfl]
    omega

theorem checkSerializedHeight_eq_ok_iff (hlt : v < 2 ^ 31) :
    checkSerializedHeight coinbaseTx v = .ok () ↔
      extractCoinbaseHeight coinbaseTx = .ok (Int32.ofNat v) := by
  have ht : ∀ h : Int32, h.toInt = (v : Int) ↔ h = Int32.ofNat v := by
    intro h
    rw [← Int32.toInt_inj, Int32.toInt_ofNat_of_lt hlt]
  simp only [checkSerializedHeight, Checked.bind_eq_ok, require_eq_ok, ht]
  constructor
  · rintro ⟨h, he, rfl⟩
    exact he
  · exact fun he => ⟨_, he, rfl⟩

/-- **The height in the coinbase** is read back for every extra nonce but the least `int64`, and a
script that is accepted and starts with a shortest number starts with what the builder writes. -/
theorem coinbaseHeight_readBack :
    (∀ (h : Int32) (extraNonce : UInt64), 0 ≤ h → extraNonce ≠ 0x8000000000000000 →
      ∃ script, coinbaseScript h extraNonce = .ok (.ok script) ∧
        ∀ coinbaseTx txIn others, coinbaseTx.txIn = txIn :: others →
          txIn.signatureScript = script → extractCoinbaseHeight coinbaseTx = .ok h) ∧
    ∀ h : Int32, 0 ≤ h →
      ∃ written, ScriptBuilder.addInt64 {} h.toInt64 = .ok { script := written } ∧
        ∀ coinbaseTx txIn others, coinbaseTx.txIn = txIn :: others →
          (written <+: txIn.signatureScript →
            checkSerializedHeight coinbaseTx h.toNatClampNeg = .ok ()) ∧
          (checkSerializedHeight coinbaseTx h.toNatClampNeg = .ok () →
            ShortestHeight txIn.signatureScript → written <+: txIn.signatureScript) := by
  constructor
  · intro h extraNonce hp hn
    have hv : extraNonce.toInt64 ≠ Int64.minValue := by
      intro heq
      exact hn (congrArg Int64.toUInt64 heq)
    have hsc := coinbaseScript_eq hp hv
    refine ⟨_, hsc, fun coinbaseTx txIn others ht hsi => ?_⟩
    rw [← ofNat_toNatClampNeg hp]
    refine extractCoinbaseHeight_addInt64 ht (toNatClampNeg_lt h) ?_
    rw [hsi, append_assoc]
    exact prefix_append _ _
  · intro h hp
    refine ⟨_, addInt64_empty hp, fun coinbaseTx txIn others ht => ?_⟩
    rw [checkSerializedHeight_eq_ok_iff (toNatClampNeg_lt h)]
    exact ⟨extractCoinbaseHeight_addInt64 ht (toNatClampNeg_lt h),
      fun he hs => addInt64_isPrefix ht (toNatClampNeg_lt h) hs he⟩

/-- A coinbase with the given signature script. -/
def coinbaseWith (signatureScript : List UInt8) : MsgTx where
  version := 1
  txIn := [{ previousOutPoint := ⟨0, 0xffffffff⟩, signatureScript, witness := [],
             sequence := 0xffffffff }]
  txOut := []
  lockTime := 0

/-- The height 1 pushed in two bytes is accepted; for the extra nonce `2 ^ 63` there is no script.
-/
theorem coinbaseHeight_notShortest :
    checkSerializedHeight (coinbaseWith [0x02, 0x01, 0x00]) 1 = .ok () ∧
      ScriptBuilder.addInt64 {} 1 = .ok { script := [0x51] } ∧
      ¬[0x51] <+: ([0x02, 0x01, 0x00] : List UInt8) ∧
      coinbaseScript 1 0x8000000000000000 = .error (.panic .indexOutOfRange) := by
  refine ⟨rfl, rfl, ?_, by decide +kernel⟩
  rintro ⟨rest, h⟩
  cases h

end DrcNode
