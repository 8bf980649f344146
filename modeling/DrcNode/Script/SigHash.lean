import DrcNode.Script.Stack
import DrcNode.Wire.Decode

/-!
# Signature hashes

The opcodes of a script are put together to the bytes they were parsed from: `parseScriptTemplate`,
here with its offsets, never leaves the script and loses nothing of it. A signature in a script
signs the transaction with the scripts of its inputs blanked out, and parts of it left out as the
hash type says. Inputs that spend a witness program sign a digest of their own, which also commits
to the amount.

## Main definitions

* `calcSignatureHash`, `calcWitnessSignatureHash`.

## Main results

* `parseScript_lossless`.

Source: `txscript/script.go`, `parseScriptTemplate` and `unparseScript`, and from `canonicalPush` to
`calcSignatureHash`; `bytes` in `opcode.go`; `hashcache.go`. The hash functions and the curve are
outside of the repository or of this development, and are the fields of `Crypto`.
-/

namespace DrcNode

open Opcode

/-- What the script engine uses from `crypto`, `golang.org/x/crypto` and `btcec`. -/
structure Crypto where
  sha1 : List UInt8 → List UInt8
  sha256 : List UInt8 → List UInt8
  ripemd160 : List UInt8 → List UInt8
  parsePubKey : List UInt8 → Option PublicKey
  parseSignature : List UInt8 → Option Signature
  parseDERSignature : List UInt8 → Option Signature
  verify : Signature → List UInt8 → PublicKey → Bool

/-- Hashes that are the text itself, and signatures that always verify. -/
def Crypto.trivial : Crypto where
  sha1 := id
  sha256 := id
  ripemd160 := id
  parsePubKey _ := some ⟨0, 0⟩
  parseSignature _ := some ⟨0, 0⟩
  parseDERSignature _ := some ⟨0, 0⟩
  verify _ _ _ := true

def Crypto.doubleHashB (crypto : Crypto) (b : List UInt8) : List UInt8 :=
  crypto.sha256 (crypto.sha256 b)

namespace Opcode

def op0 : UInt8 := 0x00
def dup : UInt8 := 0x76
def equalVerify : UInt8 := 0x88
def codeSeparator : UInt8 := 0xab

end Opcode

/-! ### Opcodes and their bytes -/

/-- `(*parsedOpcode).bytes`: `none` when the data does not have the length the opcode says. -/
def ParsedOpcode.bytes (pop : ParsedOpcode) : Option (List UInt8) :=
  let encoded := leBytes (lengthBytes pop.value) pop.data.length
  if pop.data.length = dataLength pop.value encoded then some (pop.value :: encoded ++ pop.data)
  else none

def unparseScript : List ParsedOpcode → Option (List UInt8)
  | [] => some []
  | pop :: pops => do
      let b ← pop.bytes
      let script ← unparseScript pops
      pure (b ++ script)

/-! ### Parsing loses nothing -/

section Lossless

open List

/-- `script[lo:hi]`. -/
def sliceScript (script : List UInt8) (lo hi : Nat) : Except Panic (List UInt8) :=
  if lo ≤ hi ∧ hi ≤ script.length then .ok ((script.drop lo).take (hi - lo))
  else .error .indexOutOfRange

/-- One round of the loop of `parseScriptTemplate`: the opcode at an offset and the next offset. An
opcode that says itself how much it pushes has no bytes for the length. -/
def parseOpcodeAt (script : List UInt8) (i : Nat) : Except Panic (Option (ParsedOpcode × Nat)) :=
  match script[i]? with
  | none => .error .indexOutOfRange
  | some value => do
      let off := i + 1
      let rest ← sliceScript script off script.length
      if rest.length < lengthBytes value then return none
      let encoded ← sliceScript script off (off + lengthBytes value)
      let off := off + lengthBytes value
      let rest ← sliceScript script off script.length
      if rest.length < dataLength value encoded then return none
      let data ← sliceScript script off (off + dataLength value encoded)
      return some (⟨value, data⟩, off + dataLength value encoded)

/-- The loop of `parseScriptTemplate`. The first argument bounds the number of opcodes. -/
def parseScriptTemplate (script : List UInt8) : Nat → Nat → Except Panic (List ParsedOpcode × Bool)
  | 0, i => .ok ([], script.length ≤ i)
  | n + 1, i => do
      if script.length ≤ i then return ([], true)
      let some (pop, i) ← parseOpcodeAt script i | return ([], false)
      let (pops, ok) ← parseScriptTemplate script n i
      return (pop :: pops, ok)

variable {script rest rest' : List UInt8} {value : UInt8} {pop : ParsedOpcode} {i n : Nat}

theorem dataLength_take :
    dataLength value (rest.take (lengthBytes value)) = dataLength value rest := by
  rw [dataLength, dataLength, take_take, Nat.min_self]

theorem bytes_of_parseOpcode (h : parseOpcode value rest = some (pop, rest')) :
    ∃ b, pop.bytes = some b ∧ value :: rest = b ++ rest' := by
  rw [parseOpcode] at h
  split_ifs at h with hlt
  obtain ⟨rfl, rfl⟩ := Prod.mk.inj (Option.some.inj h)
  have hd : ((rest.drop (lengthBytes value)).take (dataLength value rest)).length =
      dataLength value rest := by
    rw [length_take, length_drop]
    omega
  have hn : (rest.take (lengthBytes value)).length = lengthBytes value := by
    rw [length_take]
    omega
  -- the bytes of the length are those in the script
  have he : leBytes (lengthBytes value) (dataLength value rest) =
      rest.take (lengthBytes value) := by
    by_cases h0 : lengthBytes value = 0
    · rw [h0]
      rfl
    · rw [dataLength, if_neg h0]
      nth_rewrite 1 [← hn]
      exact leBytes_ofLeBytes _
  rw [ParsedOpcode.bytes]
  rw [hd, he, dataLength_take, if_pos rfl]
  refine ⟨_, rfl, ?_⟩
  rw [cons_append, cons_append, append_assoc, take_append_drop, take_append_drop]

theorem length_of_drop_eq_cons (h : script.drop i = value :: rest) :
    script.length = i + 1 + rest.length := by
  have hd := congrArg length h
  rw [length_drop, length_cons] at hd
  omega

/-- **One round stays in the script**, and finds what `parseOpcode` finds. -/
theorem parseOpcodeAt_eq (h : script.drop i = value :: rest) : parseOpcodeAt script i =
    .ok ((parseOpcode value rest).map fun r => (r.1, script.length - r.2.length)) := by
  have hl := length_of_drop_eq_cons h
  have hv : script[i]? = some value := by
    rw [← head?_drop, h]
    rfl
  have hs : ∀ k m, k + m ≤ rest.length →
      sliceScript script (i + 1 + k) (i + 1 + k + m) = .ok ((rest.drop k).take m) := by
    intro k m hle
    rw [sliceScript, if_pos ⟨Nat.le_add_right _ _, by omega⟩, ← drop_drop, ← drop_drop, h,
      Nat.add_sub_cancel_left]
    rfl
  have hr : ∀ k, k ≤ rest.length →
      sliceScript script (i + 1 + k) script.length = .ok (rest.drop k) := by
    intro k hk
    rw [show script.length = i + 1 + k + (rest.length - k) by omega, hs k _ (by omega),
      take_of_length_le (by rw [length_drop])]
  have hr0 : sliceScript script (i + 1) script.length = .ok rest := hr 0 (Nat.zero_le _)
  rw [parseOpcodeAt, hv, parseOpcode]
  dsimp only
  rw [hr0]
  simp only [bind, Except.bind]
  by_cases hk : rest.length < lengthBytes value
  · rw [if_pos hk, if_pos (by omega)]
    rfl
  have hs0 : sliceScript script (i + 1) (i + 1 + lengthBytes value) =
      .ok (rest.take (lengthBytes value)) := hs 0 _ (by omega)
  rw [if_neg hk, hs0, hr _ (by omega)]
  dsimp only
  rw [dataLength_take, length_drop]
  by_cases hd : rest.length - lengthBytes value < dataLength value rest
  · rw [if_pos hd, if_pos (by omega)]
    rfl
  · rw [if_neg hd, if_neg (by omega), hs _ _ (by omega), Option.map_some, length_drop,
      length_drop,
      show script.length - (rest.length - lengthBytes value - dataLength value rest) =
        i + 1 + lengthBytes value + dataLength value rest by omega]
    rfl

theorem parseScriptTemplate_eq (h : script.length ≤ n + i) (hi : i ≤ script.length) :
    parseScriptTemplate script n i = .ok (parseScript (script.drop i)) := by
  induction n generalizing i with
  | zero =>
    rw [drop_eq_nil_of_le (by omega), parseScriptTemplate, decide_eq_true (by omega)]
    rfl
  | succ n ih =>
    rw [parseScriptTemplate]
    cases hs : script.drop i with
    | nil =>
      rw [if_pos (drop_eq_nil_iff.1 hs)]
      rfl
    | cons value rest =>
      have hl := length_of_drop_eq_cons hs
      rw [if_neg (by omega), parseOpcodeAt_eq hs, parseScript, length_cons, parseScriptLoop]
      cases hp : parseOpcode value rest with
      | none => rfl
      | some r =>
        obtain ⟨pop, rest'⟩ := r
        have hle := length_le_of_parseOpcode hp
        obtain ⟨b, -, hb⟩ := bytes_of_parseOpcode hp
        have hd : script.drop (script.length - rest'.length) = rest' := by
          have hlb := congrArg length hb
          rw [length_append, length_cons] at hlb
          rw [show script.length - rest'.length = i + b.length by omega, ← drop_drop, hs, hb,
            drop_left]
        simp only [Option.map_some, bind, Except.bind]
        rw [ih (by omega) (by omega), hd, parseScriptLoop_eq_parseScript hle]
        rfl

theorem unparseScript_parseScript (h : (parseScript script).2 = true) :
    unparseScript (parseScript script).1 = some script := by
  unfold parseScript at *
  generalize script.length = n at *
  induction n generalizing script with
  | zero => rw [isEmpty_iff.1 h]; rfl
  | succ n ih =>
    cases script with
    | nil => rfl
    | cons value rest =>
      rw [parseScriptLoop] at h ⊢
      cases hp : parseOpcode value rest with
      | none =>
        rw [hp] at h
        cases h
      | some r =>
        obtain ⟨pop, rest'⟩ := r
        rw [hp] at h
        obtain ⟨b, hb, heq⟩ := bytes_of_parseOpcode hp
        rw [unparseScript, hb, ih h, heq]
        rfl

/-- **Parsing is lossless.** The offsets stay in the script, a script that is parsed is put together
again from its opcodes, and the bytes of its opcodes are parsed to the same opcodes. -/
theorem parseScript_lossless (script : List UInt8) :
    parseScriptTemplate script script.length 0 = .ok (parseScript script) ∧
      ∀ pops, parseScript script = (pops, true) → unparseScript pops = some script ∧
        ∀ bytes, unparseScript pops = some bytes → parseScript bytes = (pops, true) := by
  refine ⟨parseScriptTemplate_eq le_rfl (Nat.zero_le _), fun pops h => ?_⟩
  have hu : unparseScript pops = some script := by
    have hp := @unparseScript_parseScript script (by rw [h])
    rwa [h] at hp
  refine ⟨hu, fun bytes hb => ?_⟩
  rw [hu] at hb
  cases hb
  exact h

end Lossless

/-! ### Signature hashes -/

def removeOpcode (pkscript : List ParsedOpcode) (opcode : UInt8) : List ParsedOpcode :=
  pkscript.filter fun pop => pop.value != opcode

def canonicalPush (pop : ParsedOpcode) : Bool :=
  if op16 < pop.value then true
  else if pop.value < pushData1 ∧ op0 < pop.value ∧
      (pop.data.length = 1 ∧ pop.data.headD 0 ≤ 16) then false
  else if pop.value = pushData1 ∧ pop.data.length < pushData1.toNat then false
  else if pop.value = pushData2 ∧ pop.data.length ≤ 0xff then false
  else if pop.value = pushData4 ∧ pop.data.length ≤ 0xffff then false
  else true

/-- `bytes.Contains`. -/
def containsBytes (b subslice : List UInt8) : Bool :=
  b.tails.any fun tail => subslice.isPrefixOf tail

def removeOpcodeByData (pkscript : List ParsedOpcode) (data : List UInt8) : List ParsedOpcode :=
  pkscript.filter fun pop => !canonicalPush pop || !containsBytes pop.data data

/-- `SigHashAll`, `SigHashNone`, `SigHashSingle` and `SigHashAnyOneCanPay`. -/
def sigHashAll : UInt8 := 0x1
def sigHashNone : UInt8 := 0x2
def sigHashSingle : UInt8 := 0x3
def sigHashAnyOneCanPay : UInt8 := 0x80

def sigHashMask : UInt8 := 0x1f

/-- The inputs of `txCopy`: the script is kept for the input that is signed only. -/
def blankScripts (sigScript : List UInt8) (idx : Nat) (txIn : List TxIn) : List TxIn :=
  txIn.mapIdx fun i input =>
    { input with signatureScript := if i = idx then sigScript else [] }

/-- All sequences but that of the input that is signed are zero. -/
def zeroSequences (idx : Nat) (txIn : List TxIn) : List TxIn :=
  txIn.mapIdx fun i input => if i = idx then input else { input with sequence := 0 }

/-- The transaction that `calcSignatureHash` serializes. -/
def sigHashTx (sigScript : List UInt8) (hashType : UInt8) (tx : MsgTx) (idx : Nat) : MsgTx :=
  let txCopy := { tx with txIn := blankScripts sigScript idx tx.txIn }
  let txCopy :=
    if hashType &&& sigHashMask = sigHashNone then
      { txCopy with txOut := [], txIn := zeroSequences idx txCopy.txIn }
    else if hashType &&& sigHashMask = sigHashSingle then
      { txCopy with
        txOut := (txCopy.txOut.take (idx + 1)).mapIdx fun i txOut =>
          if i < idx then { value := -1, pkScript := [] } else txOut
        txIn := zeroSequences idx txCopy.txIn }
    else txCopy
  if hashType &&& sigHashAnyOneCanPay ≠ 0 then
    { txCopy with txIn := (txCopy.txIn.drop idx).take 1 }
  else txCopy

variable (crypto : Crypto)

def calcSignatureHash (script : List ParsedOpcode) (hashType : UInt8) (tx : MsgTx)
    (idx : Nat) : List UInt8 :=
  if hashType &&& sigHashMask = sigHashSingle ∧ tx.txOut.length ≤ idx then
    0x01 :: List.replicate 31 0
  else
    let sigScript := (unparseScript (removeOpcode script codeSeparator)).getD []
    crypto.doubleHashB ((sigHashTx sigScript hashType tx idx).serializeNoWitness ++
      leBytes 4 hashType.toNat)

def calcHashPrevOuts (tx : MsgTx) : List UInt8 :=
  crypto.doubleHashB (tx.txIn.flatMap fun txIn =>
    txIn.previousOutPoint.hash.bytes ++ leBytes 4 txIn.previousOutPoint.index.toNat)

def calcHashSequence (tx : MsgTx) : List UInt8 :=
  crypto.doubleHashB (tx.txIn.flatMap fun txIn => leBytes 4 txIn.sequence.toNat)

def calcHashOutputs (tx : MsgTx) : List UInt8 :=
  crypto.doubleHashB (tx.txOut.flatMap writeTxOut)

def isWitnessPubKeyHash (pops : List ParsedOpcode) : Bool :=
  pops.map ParsedOpcode.value == [op0, data20]

/-- The script code that `calcWitnessSignatureHash` writes. -/
def witnessScriptCode (subScript : List ParsedOpcode) : List UInt8 :=
  if isWitnessPubKeyHash subScript then
    [0x19, dup, hash160, data20] ++
      (subScript.getLast?.map ParsedOpcode.data).getD [] ++ [equalVerify, checkSig]
  else writeVarBytes ((unparseScript subScript).getD [])

/-- The digest of the outputs in `calcWitnessSignatureHash`. The first test is without
`sigHashMask`. -/
def witnessHashOutputs (hashType : UInt8) (tx : MsgTx) (idx : Nat) : List UInt8 :=
  if hashType &&& sigHashSingle ≠ sigHashSingle ∧ hashType &&& sigHashNone ≠ sigHashNone then
    calcHashOutputs crypto tx
  else if hashType &&& sigHashMask = sigHashSingle then
    match tx.txOut[idx]? with
    | some txOut => crypto.doubleHashB (writeTxOut txOut)
    | none => List.replicate 32 0
  else List.replicate 32 0

/-- `calcWitnessSignatureHash`, with the digests of `NewTxSigHashes`. -/
def calcWitnessSignatureHash (subScript : List ParsedOpcode) (hashType : UInt8)
    (tx : MsgTx) (idx : Nat) (amt : Int64) : ScriptCheck (List UInt8) :=
  match tx.txIn[idx]? with
  | none => .error .other
  | some txIn =>
      let hashPrevOuts :=
        if hashType &&& sigHashAnyOneCanPay = 0 then calcHashPrevOuts crypto tx
        else List.replicate 32 0
      let hashSequence :=
        if hashType &&& sigHashAnyOneCanPay = 0 ∧ hashType &&& sigHashMask ≠ sigHashSingle ∧
            hashType &&& sigHashMask ≠ sigHashNone then calcHashSequence crypto tx
        else List.replicate 32 0
      .ok (crypto.doubleHashB (leBytes 4 (tx.version.toInt % 2 ^ 32).toNat ++ hashPrevOuts ++
        hashSequence ++ txIn.previousOutPoint.hash.bytes ++
        leBytes 4 txIn.previousOutPoint.index.toNat ++ witnessScriptCode subScript ++
        leBytes 8 amt.toUInt64.toNat ++ leBytes 4 txIn.sequence.toNat ++
        witnessHashOutputs crypto hashType tx idx ++ leBytes 4 tx.lockTime.toNat ++
        leBytes 4 hashType.toNat))

end DrcNode
