import DrcNode.Script.Engine

/-!
# Standard scripts and signature operations with witnesses

The memory pool takes only scripts of a few known forms, and counts the signature operations of a
transaction more precisely than the block checks do. `GetWitnessSigOpCount` looks for a witness
program behind the first byte of the signature script of a pay-to-script-hash input, and panics when
there is no first byte. `CalcScriptInfo`, which nothing calls, has the same slice and is left out.

Source: `txscript/standard.go`, `isPubkey` to `CalcMultiSigStats`; `isWitnessScriptHash`,
`IsPushOnlyScript`, `GetWitnessSigOpCount` and `getWitnessSigOps` in `txscript/script.go`.
-/

namespace DrcNode

/-! ### Classes of scripts -/

inductive ScriptClass
  | nonStandardTy
  | pubKeyTy
  | pubKeyHashTy
  | witnessV0PubKeyHashTy
  | scriptHashTy
  | witnessV0ScriptHashTy
  | multiSigTy
  | nullDataTy
  deriving DecidableEq, Repr

/-- `OP_DATA_32`. -/
def Opcode.data32 : UInt8 := 0x20

def maxDataCarrierSize : Nat := 80

/-- The length of the data is that of a compressed or of a full public key. -/
def hasPubKeyLength (pop : ParsedOpcode) : Bool := pop.data.length == 33 || pop.data.length == 65

def isPubkey : List ParsedOpcode → Bool
  | [key, op] => hasPubKeyLength key && op.value == Opcode.checkSig
  | _ => false

variable (pops : List ParsedOpcode) (script : List UInt8)

def isPubkeyHash : Bool :=
  pops.map ParsedOpcode.value ==
    [Opcode.dup, Opcode.hash160, Opcode.data20, Opcode.equalVerify, Opcode.checkSig]

def isWitnessScriptHash : Bool :=
  pops.map ParsedOpcode.value == [Opcode.op0, Opcode.data32]

/-- `isMultiSig`: a number of signatures, the keys, their number and the opcode. -/
def isMultiSig : Bool :=
  let l := pops.length
  decide (4 ≤ l) && pops[0]?.any (fun pop => isSmallInt pop.value) &&
    pops[l - 2]?.any (fun pop => isSmallInt pop.value && l - 2 - 1 == asSmallInt pop.value) &&
    pops[l - 1]?.any (fun pop => pop.value == Opcode.checkMultiSig) &&
    ((pops.take (l - 2)).drop 1).all hasPubKeyLength

def isNullData : List ParsedOpcode → Bool
  | [op] => op.value == Opcode.opReturn
  | [op, pop] =>
      op.value == Opcode.opReturn &&
        (isSmallInt pop.value || decide (pop.value ≤ Opcode.pushData4)) &&
        decide (pop.data.length ≤ maxDataCarrierSize)
  | _ => false

def typeOfScript : ScriptClass :=
  if isPubkey pops then .pubKeyTy
  else if isPubkeyHash pops then .pubKeyHashTy
  else if isWitnessPubKeyHash pops then .witnessV0PubKeyHashTy
  else if isScriptHash pops then .scriptHashTy
  else if isWitnessScriptHash pops then .witnessV0ScriptHashTy
  else if isMultiSig pops then .multiSigTy
  else if isNullData pops then .nullDataTy
  else .nonStandardTy

def getScriptClass : ScriptClass :=
  if (parseScript script).2 then typeOfScript (parseScript script).1 else .nonStandardTy

def isPushOnlyScript : Bool :=
  (parseScript script).2 && isPushOnly (parseScript script).1

/-- `CalcMultiSigStats`: the numbers of keys and of signatures, `none` for its error. -/
def calcMultiSigStats : Option (Nat × Nat) :=
  let pops := (parseScript script).1
  if !(parseScript script).2 || decide (pops.length < 4) then none
  else do
    let numSigs ← pops[0]?
    let numPubKeys ← pops[pops.length - 2]?
    pure (asSmallInt numPubKeys.value, asSmallInt numSigs.value)

/-! ### Signature operations with witnesses -/

/-- A slice of a byte string from its second byte on. -/
def sliceFrom1 : List UInt8 → Except Panic (List UInt8)
  | [] => .error .indexOutOfRange
  | _ :: rest => .ok rest

def getWitnessSigOps (pkScript : List UInt8) (witness : List (List UInt8)) : Nat :=
  match extractWitnessProgramInfo pkScript with
  | .error _ => 0
  | .ok (witnessVersion, witnessProgram) =>
      if witnessVersion = 0 then
        if witnessProgram.length = payToWitnessPubKeyHashDataSize then 1
        else if witnessProgram.length = payToWitnessScriptHashDataSize then
          match witness.getLast? with
          | none => 0
          | some witnessScript => getSigOpCount (parseScript witnessScript).1 true
        else 0
      else 0

/-- `GetWitnessSigOpCount`. The conditions are tested from left to right. -/
def getWitnessSigOpCount (sigScript pkScript : List UInt8) (witness : List (List UInt8)) :
    Except Panic Nat :=
  if isWitnessProgramScript pkScript then .ok (getWitnessSigOps pkScript witness)
  else if (parseScript sigScript).2 = false then .ok 0
  else if isPayToScriptHash pkScript && isPushOnly (parseScript sigScript).1 then do
    let program ← sliceFrom1 sigScript
    pure (if isWitnessProgramScript program then getWitnessSigOps program witness else 0)
  else .ok 0

theorem length_of_isWitnessProgram {pops : List ParsedOpcode} (h : isWitnessProgram pops = true) :
    pops.length = 2 := by
  match pops, h with
  | [_, _], _ => rfl

variable {pkScript : List UInt8} {witness : List (List UInt8)}

theorem not_isWitnessProgramScript (h : isPayToScriptHash pkScript = true) :
    isWitnessProgramScript pkScript = false := by
  rw [isPayToScriptHash, Bool.and_eq_true] at h
  have hl := congrArg List.length (beq_iff_eq.1 h.2)
  rw [List.length_map] at hl
  have hp : isWitnessProgram (parseScript pkScript).1 = false := by
    refine Bool.eq_false_of_not_eq_true fun hp => ?_
    rw [length_of_isWitnessProgram hp] at hl
    exact absurd hl (by decide)
  rw [isWitnessProgramScript]
  split_ifs
  · rfl
  · exact (Bool.and_eq_false_iff).2 (.inr hp)

/-- **The operations are counted** unless a pay-to-script-hash output is spent with an empty
signature script. -/
theorem exists_getWitnessSigOpCount_iff {sigScript : List UInt8} :
    (∃ n, getWitnessSigOpCount sigScript pkScript witness = .ok n) ↔
      (isPayToScriptHash pkScript = true → sigScript ≠ []) := by
  rw [getWitnessSigOpCount]
  cases hs : isPayToScriptHash pkScript with
  | false =>
    refine iff_of_true ?_ fun h => by cases h
    simp only [Bool.false_and, Bool.false_eq_true, if_false]
    split_ifs
    · exact ⟨_, rfl⟩
    · exact ⟨_, rfl⟩
    · exact ⟨_, rfl⟩
  | true =>
    rw [not_isWitnessProgramScript hs, forall_prop_of_true rfl]
    cases sigScript with
    | nil => exact ⟨fun ⟨_, h⟩ => (by cases h), absurd rfl⟩
    | cons b rest =>
      refine iff_of_true ?_ (List.cons_ne_nil b rest)
      simp only [Bool.false_eq_true, if_false]
      split_ifs
      · exact ⟨_, rfl⟩
      · exact ⟨_, rfl⟩
      · exact ⟨_, rfl⟩

theorem getWitnessSigOpCount_nil (h : isPayToScriptHash pkScript = true) :
    getWitnessSigOpCount [] pkScript witness = .error .indexOutOfRange := by
  rw [getWitnessSigOpCount, not_isWitnessProgramScript h, h]
  rfl

end DrcNode
