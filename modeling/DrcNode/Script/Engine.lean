import DrcNode.Script.SigHash

/-!
# The script engine

The engine runs the signature script of an input and then the script of the output that it spends,
on one stack. Flags switch rules on: with `ScriptBip16` the last item of the signature script of a
pay-to-script-hash input is run as a third script, with `ScriptVerifyWitness` a script of the
witness is run, and two opcodes check the lock time and the sequence of the input.

## Main definitions

* `Engine`, `Engine.execute`, `runScript`.

Source: `txscript/engine.go` and `txscript/opcode.go`. The engine is a value that every opcode maps
to the next one, and how a signature is verified is a parameter. In `opcodeCheckMultiSig` a
signature is parsed again for every key it is tried with, which gives the result that the source
remembers.
-/

namespace DrcNode

open Opcode

/-! ### Flags and limits -/

def scriptBip16 : UInt32 := 0x0001
def scriptStrictMultiSig : UInt32 := 0x0002
def scriptDiscourageUpgradableNops : UInt32 := 0x0004
def scriptVerifyCheckLockTimeVerify : UInt32 := 0x0008
def scriptVerifyCheckSequenceVerify : UInt32 := 0x0010
def scriptVerifyCleanStack : UInt32 := 0x0020
def scriptVerifyDERSignatures : UInt32 := 0x0040
def scriptVerifyLowS : UInt32 := 0x0080
def scriptVerifyMinimalData : UInt32 := 0x0100
def scriptVerifyNullFail : UInt32 := 0x0200
def scriptVerifySigPushOnly : UInt32 := 0x0400
def scriptVerifyStrictEncoding : UInt32 := 0x0800
def scriptVerifyWitness : UInt32 := 0x1000
def scriptVerifyDiscourageUpgradeableWitnessProgram : UInt32 := 0x2000
def scriptVerifyMinimalIf : UInt32 := 0x4000
def scriptVerifyWitnessPubKeyType : UInt32 := 0x8000

/-- `StandardVerifyFlags`, `txscript/standard.go`. -/
def standardVerifyFlags : UInt32 :=
  scriptBip16 ||| scriptVerifyDERSignatures ||| scriptVerifyStrictEncoding |||
    scriptVerifyMinimalData ||| scriptStrictMultiSig ||| scriptDiscourageUpgradableNops |||
    scriptVerifyCleanStack ||| scriptVerifyNullFail ||| scriptVerifyCheckLockTimeVerify |||
    scriptVerifyCheckSequenceVerify ||| scriptVerifyLowS ||| scriptVerifyWitness |||
    scriptVerifyDiscourageUpgradeableWitnessProgram ||| scriptVerifyMinimalIf |||
    scriptVerifyWitnessPubKeyType

def maxStackSize : Nat := 1000
def maxScriptSize : Nat := 10000
def maxOpsPerScript : Nat := 201
def maxScriptElementSize : Nat := 520
def payToWitnessPubKeyHashDataSize : Nat := 20
def payToWitnessScriptHashDataSize : Nat := 32
/-- `halfOrder`: half of the order of the curve. -/
def halfOrder : Nat := 0x7FFFFFFFFFFFFFFFFFFFFFFFFFFFFFFF5D576E7357A4501DDFE92F46681B20A0

def sequenceLockTimeDisabled : UInt32 := 0x80000000
def sequenceLockTimeIsSeconds : UInt32 := 0x00400000
def sequenceLockTimeMask : UInt32 := 0x0000ffff
def maxTxInSequenceNum : UInt32 := 0xffffffff

/-- All bits of `flag` are set. -/
def hasFlag (flags flag : UInt32) : Bool := flags &&& flag == flag

/-! ### The state of the engine -/

/-- `OpCondFalse`, `OpCondTrue` and `OpCondSkip`. -/
inductive OpCond
  | condFalse
  | condTrue
  | condSkip
  deriving DecidableEq, Repr

/-- `Engine`. The innermost condition comes first in `condStack`. -/
structure Engine where
  scripts : List (List ParsedOpcode)
  scriptIdx : Nat := 0
  scriptOff : Nat := 0
  lastCodeSep : Nat := 0
  dstack : Stack := {}
  astack : Stack := {}
  tx : MsgTx
  txIdx : Nat
  condStack : List OpCond := []
  numOps : Nat := 0
  flags : UInt32
  bip16 : Bool := false
  savedFirstStack : List (List UInt8) := []
  witnessVersion : Nat := 0
  witnessProgram : Option (List UInt8) := none
  inputAmount : Int64
  deriving DecidableEq, Repr

/-- The functions of `opcodeArray`. -/
abbrev OpcodeFunc := ParsedOpcode → Engine → ScriptCheck Engine

@[simp] theorem liftM_scriptCheck {α : Type} (x : ScriptCheck α) :
    (liftM x : ScriptCheck α) = x := rfl

namespace Engine

variable (vm : Engine)

def hasFlag (flag : UInt32) : Bool := DrcNode.hasFlag vm.flags flag

def isBranchExecuting : Bool := vm.condStack.head?.all (· == .condTrue)

def isWitnessVersionActive (version : Nat) : Bool :=
  vm.witnessProgram.isSome && vm.witnessVersion == version

def subScript : List ParsedOpcode := ((vm.scripts[vm.scriptIdx]?).getD []).drop vm.lastCodeSep

/-- The input that is validated. -/
def txIn : ScriptCheck TxIn :=
  match vm.tx.txIn[vm.txIdx]? with
  | none => .error (.panic .indexOutOfRange)
  | some txIn => .ok txIn

end Engine

/-- Run an operation on the data stack. -/
def onStack (f : Stack → ScriptCheck Stack) : OpcodeFunc := fun _ vm => do
  let dstack ← f vm.dstack
  pure { vm with dstack }

/-! ### Pushing data -/

def opcodeDisabled : OpcodeFunc := fun _ _ => scriptError .errDisabledOpcode

def opcodeReserved : OpcodeFunc := fun _ _ => scriptError .errReservedOpcode

def opcodeInvalid : OpcodeFunc := fun _ _ => scriptError .errReservedOpcode

def opcodeFalse : OpcodeFunc := onStack fun s => pure (s.pushByteArray [])

def opcodePushData : OpcodeFunc := fun op vm =>
  onStack (fun s => pure (s.pushByteArray op.data)) op vm

def opcode1Negate : OpcodeFunc := onStack fun s => s.pushInt (-1)

def opcodeN : OpcodeFunc := fun op vm =>
  onStack (fun s => s.pushInt (Int64.ofNat (op.value - (op1 - 1)).toNat)) op vm

/-- `opcodeNop`: only `OP_NOP` itself is not reserved for upgrades. -/
def opcodeNop : OpcodeFunc := fun op vm => do
  requireScript (op.value = 0x61 ∨ vm.hasFlag scriptDiscourageUpgradableNops = false)
    .errDiscourageUpgradableNOPs
  pure vm

/-! ### Control flow -/

def popIfBool (vm : Engine) : ScriptCheck (Bool × Stack) :=
  if !vm.isWitnessVersionActive 0 || !vm.hasFlag scriptVerifyMinimalIf then vm.dstack.popBool
  else do
    let (so, s) ← vm.dstack.popByteArray
    requireScript (so.length ≤ 1) .errMinimalIf
    requireScript (so.length = 1 → so = [0x01]) .errMinimalIf
    pure (asBool so, s)

/-- `opcodeIf` and `opcodeNotIf`: the branch is taken when the item is `taken`. -/
def conditional (taken : Bool) : OpcodeFunc := fun _ vm =>
  if vm.isBranchExecuting then do
    let (ok, dstack) ← popIfBool vm
    let condVal := if ok = taken then OpCond.condTrue else .condFalse
    pure { vm with dstack, condStack := condVal :: vm.condStack }
  else pure { vm with condStack := .condSkip :: vm.condStack }

def opcodeIf : OpcodeFunc := conditional true

def opcodeNotIf : OpcodeFunc := conditional false

def opcodeElse : OpcodeFunc := fun _ vm =>
  match vm.condStack with
  | [] => scriptError .errUnbalancedConditional
  | .condTrue :: conds => pure { vm with condStack := .condFalse :: conds }
  | .condFalse :: conds => pure { vm with condStack := .condTrue :: conds }
  | .condSkip :: _ => pure vm

def opcodeEndif : OpcodeFunc := fun _ vm =>
  match vm.condStack with
  | [] => scriptError .errUnbalancedConditional
  | _ :: conds => pure { vm with condStack := conds }

def abstractVerify (c : ScriptErrorCode) : OpcodeFunc := onStack fun s => do
  let (verified, s) ← s.popBool
  requireScript (verified = true) c
  pure s

/-- An opcode followed by `abstractVerify`. -/
def thenVerify {m : Type → Type} [Monad m] [MonadLiftT ScriptCheck m]
    (opfunc : ParsedOpcode → Engine → m Engine) (c : ScriptErrorCode) (op : ParsedOpcode)
    (vm : Engine) : m Engine := do
  let vm ← opfunc op vm
  abstractVerify c op vm

def opcodeVerify : OpcodeFunc := abstractVerify .errVerify

def opcodeReturn : OpcodeFunc := fun _ _ => scriptError .errEarlyReturn

/-! ### Lock times -/

def verifyLockTime (txLockTime threshold lockTime : Int) : ScriptCheck Unit := do
  requireScript ((txLockTime < threshold ∧ lockTime < threshold) ∨
    (threshold ≤ txLockTime ∧ threshold ≤ lockTime)) .errUnsatisfiedLockTime
  requireScript (lockTime ≤ txLockTime) .errUnsatisfiedLockTime

/-- What `OP_CHECKLOCKTIMEVERIFY` and `OP_CHECKSEQUENCEVERIFY` do when their flag is not set. -/
def upgradableNop (vm : Engine) : ScriptCheck Engine := do
  requireScript (vm.hasFlag scriptDiscourageUpgradableNops = false) .errDiscourageUpgradableNOPs
  pure vm

/-- The number on top of the stack, of up to five bytes, that the two opcodes read. -/
def peekLockTime (vm : Engine) : ScriptCheck Int64 := do
  let so ← vm.dstack.peekByteArray 0
  let lockTime ← makeScriptNum so vm.dstack.verifyMinimalData 5
  requireScript (0 ≤ lockTime) .errNegativeLockTime
  pure lockTime

/-- `txscript.LockTimeThreshold`. -/
def scriptLockTimeThreshold : Int := 500000000

def opcodeCheckLockTimeVerify : OpcodeFunc := fun _ vm =>
  if !vm.hasFlag scriptVerifyCheckLockTimeVerify then upgradableNop vm
  else do
    let lockTime ← peekLockTime vm
    verifyLockTime vm.tx.lockTime.toNat scriptLockTimeThreshold lockTime.toInt
    let txIn ← vm.txIn
    requireScript (txIn.sequence ≠ maxTxInSequenceNum) .errUnsatisfiedLockTime
    pure vm

def opcodeCheckSequenceVerify : OpcodeFunc := fun _ vm =>
  if !vm.hasFlag scriptVerifyCheckSequenceVerify then upgradableNop vm
  else do
    let sequence ← peekLockTime vm
    if sequence &&& Int64.ofNat sequenceLockTimeDisabled.toNat ≠ 0 then pure vm
    else do
      requireScript (2 ≤ vm.tx.version) .errUnsatisfiedLockTime
      let txIn ← vm.txIn
      requireScript (txIn.sequence &&& sequenceLockTimeDisabled = 0) .errUnsatisfiedLockTime
      let lockTimeMask := sequenceLockTimeIsSeconds ||| sequenceLockTimeMask
      verifyLockTime (txIn.sequence &&& lockTimeMask).toNat sequenceLockTimeIsSeconds.toNat
        (sequence &&& Int64.ofNat lockTimeMask.toNat).toInt
      pure vm

/-! ### Moving items -/

def opcodeToAltStack : OpcodeFunc := fun _ vm => do
  let (so, dstack) ← vm.dstack.popByteArray
  pure { vm with dstack, astack := vm.astack.pushByteArray so }

def opcodeFromAltStack : OpcodeFunc := fun _ vm => do
  let (so, astack) ← vm.astack.popByteArray
  pure { vm with astack, dstack := vm.dstack.pushByteArray so }

def opcode2Drop : OpcodeFunc := onStack fun s => s.dropN 2
def opcode2Dup : OpcodeFunc := onStack fun s => s.dupN 2
def opcode3Dup : OpcodeFunc := onStack fun s => s.dupN 3
def opcode2Over : OpcodeFunc := onStack fun s => s.overN 2
def opcode2Rot : OpcodeFunc := onStack fun s => s.rotN 2
def opcode2Swap : OpcodeFunc := onStack fun s => s.swapN 2

def opcodeIfDup : OpcodeFunc := onStack fun s => do
  let so ← s.peekByteArray 0
  pure (if asBool so then s.pushByteArray so else s)

def opcodeDepth : OpcodeFunc := onStack fun s => s.pushInt (Int64.ofNat s.depth)
def opcodeDrop : OpcodeFunc := onStack fun s => s.dropN 1
def opcodeDup : OpcodeFunc := onStack fun s => s.dupN 1
def opcodeNip : OpcodeFunc := onStack fun s => s.nip 1
def opcodeOver : OpcodeFunc := onStack fun s => s.overN 1

def opcodePick : OpcodeFunc := onStack fun s => do
  let (val, s) ← s.popInt
  s.pickN (scriptNumInt32 val)

def opcodeRoll : OpcodeFunc := onStack fun s => do
  let (val, s) ← s.popInt
  s.rollN (scriptNumInt32 val)

def opcodeRot : OpcodeFunc := onStack fun s => s.rotN 1
def opcodeSwap : OpcodeFunc := onStack fun s => s.swapN 1
def opcodeTuck : OpcodeFunc := onStack fun s => s.tuck

def opcodeSize : OpcodeFunc := onStack fun s => do
  let so ← s.peekByteArray 0
  s.pushInt (Int64.ofNat so.length)

def opcodeEqual : OpcodeFunc := onStack fun s => do
  let (a, s) ← s.popByteArray
  let (b, s) ← s.popByteArray
  pure (s.pushBool (a == b))

def opcodeEqualVerify : OpcodeFunc := thenVerify opcodeEqual .errEqualVerify

/-! ### Arithmetic -/

/-- The opcodes that replace the number on top of the stack. -/
def numericUnary (f : Int64 → Int64) : OpcodeFunc := onStack fun s => do
  let (m, s) ← s.popInt
  s.pushInt (f m)

/-- The opcodes that replace the two numbers on top of the stack, where `v0` is the top one. -/
def numericBinary (f : Int64 → Int64 → Int64) : OpcodeFunc := onStack fun s => do
  let (v0, s) ← s.popInt
  let (v1, s) ← s.popInt
  s.pushInt (f v0 v1)

/-- The number that stands for a truth value. -/
def numOfProp (p : Prop) [Decidable p] : Int64 := if p then 1 else 0

def opcode1Add : OpcodeFunc := numericUnary fun m => m + 1
def opcode1Sub : OpcodeFunc := numericUnary fun m => m - 1
def opcodeNegate : OpcodeFunc := numericUnary fun m => -m
def opcodeAbs : OpcodeFunc := numericUnary fun m => if m < 0 then -m else m
def opcodeNot : OpcodeFunc := numericUnary fun m => numOfProp (m = 0)
def opcode0NotEqual : OpcodeFunc := numericUnary fun m => numOfProp (m ≠ 0)
def opcodeAdd : OpcodeFunc := numericBinary fun v0 v1 => v0 + v1
def opcodeSub : OpcodeFunc := numericBinary fun v0 v1 => v1 - v0
def opcodeBoolAnd : OpcodeFunc := numericBinary fun v0 v1 => numOfProp (v0 ≠ 0 ∧ v1 ≠ 0)
def opcodeBoolOr : OpcodeFunc := numericBinary fun v0 v1 => numOfProp (v0 ≠ 0 ∨ v1 ≠ 0)
def opcodeNumEqual : OpcodeFunc := numericBinary fun v0 v1 => numOfProp (v0 = v1)
def opcodeNumEqualVerify : OpcodeFunc := thenVerify opcodeNumEqual .errNumEqualVerify
def opcodeNumNotEqual : OpcodeFunc := numericBinary fun v0 v1 => numOfProp (v0 ≠ v1)
def opcodeLessThan : OpcodeFunc := numericBinary fun v0 v1 => numOfProp (v1 < v0)
def opcodeGreaterThan : OpcodeFunc := numericBinary fun v0 v1 => numOfProp (v0 < v1)
def opcodeLessThanOrEqual : OpcodeFunc := numericBinary fun v0 v1 => numOfProp (v1 ≤ v0)
def opcodeGreaterThanOrEqual : OpcodeFunc := numericBinary fun v0 v1 => numOfProp (v0 ≤ v1)
def opcodeMin : OpcodeFunc := numericBinary fun v0 v1 => if v1 < v0 then v1 else v0
def opcodeMax : OpcodeFunc := numericBinary fun v0 v1 => if v0 < v1 then v1 else v0

def opcodeWithin : OpcodeFunc := onStack fun s => do
  let (maxVal, s) ← s.popInt
  let (minVal, s) ← s.popInt
  let (x, s) ← s.popInt
  s.pushInt (numOfProp (minVal ≤ x ∧ x < maxVal))

/-! ### Hashes and signatures -/

section Crypto

variable (crypto : Crypto)

/-- The opcodes that replace the top item by its hash. -/
def hashTop (hash : List UInt8 → List UInt8) : OpcodeFunc := onStack fun s => do
  let (buf, s) ← s.popByteArray
  pure (s.pushByteArray (hash buf))

def opcodeRipemd160 : OpcodeFunc := hashTop crypto.ripemd160
def opcodeSha1 : OpcodeFunc := hashTop crypto.sha1
def opcodeSha256 : OpcodeFunc := hashTop crypto.sha256
def opcodeHash160 : OpcodeFunc := hashTop fun buf => crypto.ripemd160 (crypto.sha256 buf)
def opcodeHash256 : OpcodeFunc := hashTop crypto.doubleHashB

def opcodeCodeSeparator : OpcodeFunc := fun _ vm => pure { vm with lastCodeSep := vm.scriptOff }

namespace Engine

variable (vm : Engine)

def checkHashTypeEncoding (hashType : UInt8) : ScriptCheck Unit :=
  if !vm.hasFlag scriptVerifyStrictEncoding then .ok ()
  else
    let sigHashType := hashType &&& ~~~sigHashAnyOneCanPay
    requireScript (sigHashAll ≤ sigHashType ∧ sigHashType ≤ sigHashSingle) .errInvalidSigHashType

def isCompressedPubKey (pubKey : List UInt8) : Bool :=
  pubKey.length == 33 && (pubKey.headD 0 &&& ~~~0x1) == 0x2

def checkPubKeyEncoding (pubKey : List UInt8) : ScriptCheck Unit := do
  requireScript (vm.hasFlag scriptVerifyWitnessPubKeyType = true →
    vm.isWitnessVersionActive 0 = true → isCompressedPubKey pubKey = true) .errWitnessPubKeyType
  requireScript (vm.hasFlag scriptVerifyStrictEncoding = false ∨
    (pubKey.length = 33 ∧ (pubKey.headD 0 = 0x02 ∨ pubKey.headD 0 = 0x03)) ∨
    (pubKey.length = 65 ∧ pubKey.headD 0 = 0x04)) .errPubKeyType

/-- The format that `checkSignatureEncoding` enforces. -/
def checkDEREncoding (sig : List UInt8) : ScriptCheck Unit := do
  let byte := fun i => sig.getD i 0
  let sigLen := sig.length
  requireScript (8 ≤ sigLen) .errSigTooShort
  requireScript (sigLen ≤ 72) .errSigTooLong
  requireScript (byte 0 = 0x30) .errSigInvalidSeqID
  requireScript ((byte 1).toNat = sigLen - 2) .errSigInvalidDataLen
  let rLen := (byte 3).toNat
  let sTypeOffset := 4 + rLen
  let sLenOffset := sTypeOffset + 1
  requireScript (sTypeOffset < sigLen) .errSigMissingSTypeID
  requireScript (sLenOffset < sigLen) .errSigMissingSLen
  let sOffset := sLenOffset + 1
  let sLen := (byte sLenOffset).toNat
  requireScript (sOffset + sLen = sigLen) .errSigInvalidSLen
  requireScript (byte 2 = 0x02) .errSigInvalidRIntID
  requireScript (rLen ≠ 0) .errSigZeroRLen
  requireScript (byte 4 &&& 0x80 = 0) .errSigNegativeR
  requireScript (¬(1 < rLen ∧ byte 4 = 0x00 ∧ byte 5 &&& 0x80 = 0)) .errSigTooMuchRPadding
  requireScript (byte sTypeOffset = 0x02) .errSigInvalidSIntID
  requireScript (sLen ≠ 0) .errSigZeroSLen
  requireScript (byte sOffset &&& 0x80 = 0) .errSigNegativeS
  requireScript (¬(1 < sLen ∧ byte sOffset = 0x00 ∧ byte (sOffset + 1) &&& 0x80 = 0))
    .errSigTooMuchSPadding
  requireScript (vm.hasFlag scriptVerifyLowS = true →
    ofLeBytes ((sig.drop sOffset).take sLen).reverse ≤ halfOrder) .errSigHighS

def checkSignatureEncoding (sig : List UInt8) : ScriptCheck Unit :=
  if !vm.hasFlag scriptVerifyDERSignatures && !vm.hasFlag scriptVerifyLowS &&
      !vm.hasFlag scriptVerifyStrictEncoding then .ok ()
  else vm.checkDEREncoding sig

/-- The parser that the flags choose. -/
def parseSig (sigBytes : List UInt8) : Option Signature :=
  if vm.hasFlag scriptVerifyStrictEncoding || vm.hasFlag scriptVerifyDERSignatures then
    crypto.parseDERSignature sigBytes
  else crypto.parseSignature sigBytes

/-- The hash that a signature signs. -/
def signatureHash (script : List ParsedOpcode) (hashType : UInt8) : ScriptCheck (List UInt8) :=
  if vm.isWitnessVersionActive 0 then
    calcWitnessSignatureHash crypto script hashType vm.tx vm.txIdx vm.inputAmount
  else .ok (calcSignatureHash crypto script hashType vm.tx vm.txIdx)

end Engine

section

-- how a signature is verified is a parameter: directly, or with a cache in between
variable {m : Type → Type} [Monad m] [MonadLiftT ScriptCheck m]
  (verify : Signature → List UInt8 → PublicKey → m Bool)

/-- What `opcodeCheckSig` pushes for a key and a signature. -/
def checkSigBy (vm : Engine) (pkBytes fullSigBytes : List UInt8) : m Bool :=
  match fullSigBytes.getLast? with
  | none => pure false
  | some hashType => do
      let sigBytes := fullSigBytes.dropLast
      vm.checkHashTypeEncoding hashType
      vm.checkSignatureEncoding sigBytes
      vm.checkPubKeyEncoding pkBytes
      let subScript := if vm.isWitnessVersionActive 0 then vm.subScript
        else removeOpcodeByData vm.subScript fullSigBytes
      let hash ← vm.signatureHash crypto subScript hashType
      match crypto.parsePubKey pkBytes, vm.parseSig crypto sigBytes with
      | some pubKey, some signature => do
          let valid ← verify signature hash pubKey
          requireScript (valid = true ∨ vm.hasFlag scriptVerifyNullFail = false ∨ sigBytes = [])
            .errNullFail
          pure valid
      | _, _ => pure false

/-- `opcodeCheckSig`. -/
def opcodeCheckSigBy (_ : ParsedOpcode) (vm : Engine) : m Engine := do
  let (pkBytes, dstack) ← vm.dstack.popByteArray
  let (fullSigBytes, dstack) ← dstack.popByteArray
  let valid ← checkSigBy crypto verify vm pkBytes fullSigBytes
  pure { vm with dstack := dstack.pushBool valid }

/-- The loop of `opcodeCheckMultiSig` over the keys and signatures that remain. -/
def checkMultiSigLoopBy (vm : Engine) (script : List ParsedOpcode) :
    List (List UInt8) → List (List UInt8) → m Bool
  | _, [] => pure true
  | [], _ :: _ => pure false
  | pubKey :: pubKeys, rawSig :: signatures =>
      if pubKeys.length + 1 < signatures.length + 1 then pure false
      else
        match rawSig.getLast? with
        | none => checkMultiSigLoopBy vm script pubKeys (rawSig :: signatures)
        | some hashType => do
            let signature := rawSig.dropLast
            vm.checkHashTypeEncoding hashType
            vm.checkSignatureEncoding signature
            match vm.parseSig crypto signature with
            | none => checkMultiSigLoopBy vm script pubKeys (rawSig :: signatures)
            | some parsedSig => do
                vm.checkPubKeyEncoding pubKey
                match crypto.parsePubKey pubKey with
                | none => checkMultiSigLoopBy vm script pubKeys (rawSig :: signatures)
                | some parsedPubKey => do
                    let hash ← vm.signatureHash crypto script hashType
                    if ← verify parsedSig hash parsedPubKey then
                      checkMultiSigLoopBy vm script pubKeys signatures
                    else checkMultiSigLoopBy vm script pubKeys (rawSig :: signatures)

/-- Pop several items, the top one first. -/
def popMany : Nat → Stack → ScriptCheck (List (List UInt8) × Stack)
  | 0, s => .ok ([], s)
  | n + 1, s => do
      let (so, s) ← s.popByteArray
      let (rest, s) ← popMany n s
      pure (so :: rest, s)

/-- `opcodeCheckMultiSig`. -/
def opcodeCheckMultiSigBy (_ : ParsedOpcode) (vm : Engine) : m Engine := do
  let (numKeys, dstack) ← vm.dstack.popInt
  let numPubKeys := scriptNumInt32 numKeys
  requireScript (0 ≤ numPubKeys ∧ numPubKeys ≤ maxPubKeysPerMultiSig) .errInvalidPubKeyCount
  let vm := { vm with numOps := vm.numOps + numPubKeys.toNat }
  requireScript (vm.numOps ≤ maxOpsPerScript) .errTooManyOperations
  let (pubKeys, dstack) ← popMany numPubKeys.toNat dstack
  let (numSigs, dstack) ← dstack.popInt
  let numSignatures := scriptNumInt32 numSigs
  requireScript (0 ≤ numSignatures ∧ numSignatures ≤ numPubKeys) .errInvalidSignatureCount
  let (signatures, dstack) ← popMany numSignatures.toNat dstack
  let (dummy, dstack) ← dstack.popByteArray
  requireScript (vm.hasFlag scriptStrictMultiSig = false ∨ dummy = []) .errSigNullDummy
  let script := if vm.isWitnessVersionActive 0 then vm.subScript
    else signatures.foldl removeOpcodeByData vm.subScript
  let success ← checkMultiSigLoopBy crypto verify vm script pubKeys signatures
  requireScript (success = true ∨ vm.hasFlag scriptVerifyNullFail = false ∨
    ∀ sig ∈ signatures, sig = []) .errNullFail
  pure { vm with dstack := dstack.pushBool success }

end

/-- A signature is verified directly. -/
def verifyDirectly (signature : Signature) (hash : List UInt8) (pubKey : PublicKey) :
    ScriptCheck Bool := .ok (crypto.verify signature hash pubKey)

abbrev checkSig := checkSigBy crypto (verifyDirectly crypto)

abbrev checkMultiSigLoop := checkMultiSigLoopBy crypto (verifyDirectly crypto)

def opcodeCheckSig : OpcodeFunc := opcodeCheckSigBy crypto (verifyDirectly crypto)

def opcodeCheckMultiSig : OpcodeFunc := opcodeCheckMultiSigBy crypto (verifyDirectly crypto)

def opcodeCheckSigVerify : OpcodeFunc := thenVerify (opcodeCheckSig crypto) .errCheckSigVerify

def opcodeCheckMultiSigVerify : OpcodeFunc :=
  thenVerify (opcodeCheckMultiSig crypto) .errCheckMultiSigVerify

/-! ### The table of opcodes -/

/-- The entries of `opcodeArray` from `OP_NOP` on. The opcodes that are not listed are invalid. -/
def opcodeArray : List (UInt8 × OpcodeFunc) :=
  [(0x61, opcodeNop), (0x62, opcodeReserved), (0x63, opcodeIf), (0x64, opcodeNotIf),
    (0x65, opcodeReserved), (0x66, opcodeReserved), (0x67, opcodeElse), (0x68, opcodeEndif),
    (0x69, opcodeVerify), (0x6a, opcodeReturn), (0x6b, opcodeToAltStack),
    (0x6c, opcodeFromAltStack), (0x6d, opcode2Drop), (0x6e, opcode2Dup), (0x6f, opcode3Dup),
    (0x70, opcode2Over), (0x71, opcode2Rot), (0x72, opcode2Swap), (0x73, opcodeIfDup),
    (0x74, opcodeDepth), (0x75, opcodeDrop), (0x76, opcodeDup), (0x77, opcodeNip),
    (0x78, opcodeOver), (0x79, opcodePick), (0x7a, opcodeRoll), (0x7b, opcodeRot),
    (0x7c, opcodeSwap), (0x7d, opcodeTuck), (0x7e, opcodeDisabled), (0x7f, opcodeDisabled),
    (0x80, opcodeDisabled), (0x81, opcodeDisabled), (0x82, opcodeSize), (0x83, opcodeDisabled),
    (0x84, opcodeDisabled), (0x85, opcodeDisabled), (0x86, opcodeDisabled), (0x87, opcodeEqual),
    (0x88, opcodeEqualVerify), (0x89, opcodeReserved), (0x8a, opcodeReserved),
    (0x8b, opcode1Add), (0x8c, opcode1Sub), (0x8d, opcodeDisabled), (0x8e, opcodeDisabled),
    (0x8f, opcodeNegate), (0x90, opcodeAbs), (0x91, opcodeNot), (0x92, opcode0NotEqual),
    (0x93, opcodeAdd), (0x94, opcodeSub), (0x95, opcodeDisabled), (0x96, opcodeDisabled),
    (0x97, opcodeDisabled), (0x98, opcodeDisabled), (0x99, opcodeDisabled),
    (0x9a, opcodeBoolAnd), (0x9b, opcodeBoolOr), (0x9c, opcodeNumEqual),
    (0x9d, opcodeNumEqualVerify), (0x9e, opcodeNumNotEqual), (0x9f, opcodeLessThan),
    (0xa0, opcodeGreaterThan), (0xa1, opcodeLessThanOrEqual), (0xa2, opcodeGreaterThanOrEqual),
    (0xa3, opcodeMin), (0xa4, opcodeMax), (0xa5, opcodeWithin), (0xa6, opcodeRipemd160 crypto),
    (0xa7, opcodeSha1 crypto), (0xa8, opcodeSha256 crypto), (0xa9, opcodeHash160 crypto),
    (0xaa, opcodeHash256 crypto), (0xab, opcodeCodeSeparator), (0xac, opcodeCheckSig crypto),
    (0xad, opcodeCheckSigVerify crypto), (0xae, opcodeCheckMultiSig crypto),
    (0xaf, opcodeCheckMultiSigVerify crypto), (0xb0, opcodeNop),
    (0xb1, opcodeCheckLockTimeVerify), (0xb2, opcodeCheckSequenceVerify), (0xb3, opcodeNop),
    (0xb4, opcodeNop), (0xb5, opcodeNop), (0xb6, opcodeNop), (0xb7, opcodeNop), (0xb8, opcodeNop),
    (0xb9, opcodeNop)]

/-- The function of an opcode. -/
def opfunc (value : UInt8) : OpcodeFunc :=
  if value = 0x00 then opcodeFalse
  else if value ≤ pushData4 then opcodePushData
  else if value = 0x4f then opcode1Negate
  else if value = 0x50 then opcodeReserved
  else if value ≤ op16 then opcodeN
  else ((opcodeArray crypto).lookup value).getD opcodeInvalid

def isDisabled (value : UInt8) : Bool :=
  [0x7e, 0x7f, 0x80, 0x81, 0x83, 0x84, 0x85, 0x86, 0x8d, 0x8e, 0x95, 0x96, 0x97, 0x98,
    0x99].contains
    value

def alwaysIllegal (value : UInt8) : Bool := value == 0x65 || value == 0x66

def isConditional (value : UInt8) : Bool :=
  value == 0x63 || value == 0x64 || value == 0x67 || value == 0x68

/-- The opcode that `checkMinimalDataPush` wants for the data. -/
def minimalOpcode (data : List UInt8) (value : UInt8) : UInt8 :=
  match data with
  | [] => 0x00
  | [b] => if 1 ≤ b ∧ b ≤ 16 then op1 + b - 1 else if b = 0x81 then 0x4f else 0x01
  | _ =>
      if data.length ≤ 75 then UInt8.ofNat data.length
      else if data.length ≤ 255 then pushData1
      else if data.length ≤ 65535 then pushData2
      else value

def checkMinimalDataPush (pop : ParsedOpcode) : ScriptCheck Unit :=
  requireScript (pop.value = minimalOpcode pop.data pop.value) .errMinimalData

namespace Engine

section

variable (vm : Engine) (pop : ParsedOpcode)

/-- The limits of `executeOpcode`: on the number of operations, and on the size of what is
pushed. -/
def checkLimits : ScriptCheck Engine :=
  if op16 < pop.value then do
    requireScript (vm.numOps + 1 ≤ maxOpsPerScript) .errTooManyOperations
    pure { vm with numOps := vm.numOps + 1 }
  else do
    requireScript (pop.data.length ≤ maxScriptElementSize) .errElementTooBig
    pure vm

/-- Whether `executeOpcode` checks that a push is minimal. -/
def checkPush : ScriptCheck Unit :=
  if vm.dstack.verifyMinimalData && vm.isBranchExecuting && pop.value ≤ pushData4 then
    checkMinimalDataPush pop
  else .ok ()

/-- `executeOpcode`, with the functions of the opcodes. -/
def executeOpcodeBy {m : Type → Type} [Monad m] [MonadLiftT ScriptCheck m]
    (opfunc : UInt8 → ParsedOpcode → Engine → m Engine) : m Engine := do
  requireScript (isDisabled pop.value = false) .errDisabledOpcode
  requireScript (alwaysIllegal pop.value = false) .errReservedOpcode
  let vm ← vm.checkLimits pop
  if !vm.isBranchExecuting && !isConditional pop.value then pure vm
  else do
    vm.checkPush pop
    opfunc pop.value pop vm

def executeOpcode : ScriptCheck Engine := executeOpcodeBy vm pop (opfunc crypto)

end

def checkErrorCondition (vm : Engine) (finalScript : Bool) : ScriptCheck Engine := do
  requireScript (vm.scripts.length ≤ vm.scriptIdx) .errScriptUnfinished
  requireScript (finalScript = true → vm.isWitnessVersionActive 0 = true → vm.dstack.depth = 1)
    .errEvalFalse
  requireScript (finalScript = true → vm.hasFlag scriptVerifyCleanStack = true →
    vm.dstack.depth = 1) .errCleanStack
  requireScript (1 ≤ vm.dstack.depth) .errEmptyStack
  let (v, dstack) ← vm.dstack.popBool
  requireScript (v = true) .errEvalFalse
  pure { vm with dstack }

/-- `parseScript`, with the error of the source. -/
def parse (script : List UInt8) : ScriptCheck (List ParsedOpcode) :=
  let (pops, ok) := parseScript script
  if ok then .ok pops else scriptError .errMalformedPush

def payToPubKeyHashScript (pubKeyHash : List UInt8) : List UInt8 :=
  [Opcode.dup, Opcode.hash160, Opcode.data20] ++ pubKeyHash ++ [Opcode.equalVerify, Opcode.checkSig]

/-- The script that a witness program of version zero stands for, and the items it is run on. -/
def witnessScript (program : List UInt8) (witness : List (List UInt8)) :
    ScriptCheck (List ParsedOpcode × List (List UInt8)) :=
  if program.length = payToWitnessPubKeyHashDataSize then do
    requireScript (witness.length = 2) .errWitnessProgramMismatch
    let pops ← parse (payToPubKeyHashScript program)
    pure (pops, witness)
  else if program.length = payToWitnessScriptHashDataSize then do
    requireScript (witness ≠ []) .errWitnessProgramEmpty
    let script := witness.getLastD []
    requireScript (script.length ≤ maxScriptSize) .errScriptTooBig
    requireScript (crypto.sha256 script = program) .errWitnessProgramMismatch
    let pops ← parse script
    pure (pops, witness.dropLast)
  else scriptError .errWitnessProgramWrongLength

def verifyWitnessProgram (vm : Engine) (witness : List (List UInt8)) : ScriptCheck Engine :=
  if vm.isWitnessVersionActive 0 then do
    let (pops, items) ← witnessScript crypto (vm.witnessProgram.getD []) witness
    requireScript (∀ witElement ∈ items, witElement.length ≤ maxScriptElementSize) .errElementTooBig
    pure { vm with scripts := vm.scripts ++ [pops], dstack := vm.dstack.setItems items }
  else do
    requireScript (vm.hasFlag scriptVerifyDiscourageUpgradeableWitnessProgram = false)
      .errDiscourageUpgradableWitnessProgram
    pure { vm with witnessProgram := none }

/-- What `Step` does at the end of a script: find the next one. -/
def nextScript (vm : Engine) : ScriptCheck Engine :=
  if vm.scriptIdx = 0 ∧ vm.bip16 = true then
    pure { vm with scriptIdx := vm.scriptIdx + 1, savedFirstStack := vm.dstack.items }
  else if vm.scriptIdx = 1 ∧ vm.bip16 = true then do
    let vm ← checkErrorCondition { vm with scriptIdx := vm.scriptIdx + 1 } false
    match vm.savedFirstStack.getLast? with
    | none => .error (.panic .indexOutOfRange)
    | some script => do
        let pops ← parse script
        pure { vm with
          scripts := vm.scripts ++ [pops]
          dstack := vm.dstack.setItems vm.savedFirstStack.dropLast }
  else if (vm.scriptIdx = 1 ∧ vm.witnessProgram.isSome = true) ∨
      (vm.scriptIdx = 2 ∧ vm.witnessProgram.isSome = true ∧ vm.bip16 = true) then do
    let txIn ← vm.txIn
    verifyWitnessProgram crypto { vm with scriptIdx := vm.scriptIdx + 1 } txIn.witness
  else pure { vm with scriptIdx := vm.scriptIdx + 1 }

/-- An empty script is passed over. -/
def skipEmpty (vm : Engine) : Engine :=
  match vm.scripts[vm.scriptIdx]? with
  | some [] => { vm with scriptIdx := vm.scriptIdx + 1 }
  | _ => vm

section

variable {m : Type → Type} [Monad m] [MonadLiftT ScriptCheck m]
  (opfunc : UInt8 → ParsedOpcode → Engine → m Engine)

/-- `Step`: whether the last script has ended, and the engine after the opcode. -/
def stepBy (vm : Engine) : m (Bool × Engine) :=
  match (vm.scripts[vm.scriptIdx]?).bind (·[vm.scriptOff]?) with
  | none => liftM (scriptError .errInvalidProgramCounter : ScriptCheck (Bool × Engine))
  | some pop => do
      let vm ← executeOpcodeBy { vm with scriptOff := vm.scriptOff + 1 } pop opfunc
      requireScript (vm.dstack.depth + vm.astack.depth ≤ maxStackSize) .errStackOverflow
      if vm.scriptOff < ((vm.scripts[vm.scriptIdx]?).getD []).length then pure (false, vm)
      else do
        requireScript (vm.condStack = []) .errUnbalancedConditional
        let vm ← nextScript crypto
          { vm with astack := vm.astack.setItems [], numOps := 0, scriptOff := 0 }
        let vm := { skipEmpty vm with lastCodeSep := 0 }
        pure (decide (vm.scripts.length ≤ vm.scriptIdx), vm)

/-- The loop of `Execute`. -/
def executeLoopBy : Nat → Engine → m Engine
  | 0, _ => liftM (.error .unfinished : ScriptCheck Engine)
  | rounds + 1, vm => do
      let (done, vm) ← stepBy crypto opfunc vm
      if done then pure vm else executeLoopBy rounds vm

/-- A bound on the number of opcodes that are executed. -/
def maxSteps (vm : Engine) : Nat :=
  (vm.scripts.map List.length).sum + maxScriptElementSize + maxScriptSize

/-- `Execute`. -/
def executeBy (vm : Engine) : m Unit := do
  let vm ← executeLoopBy crypto opfunc (maxSteps vm) vm
  let _ ← checkErrorCondition vm true
  pure ()

end

def step : Engine → ScriptCheck (Bool × Engine) := stepBy crypto (opfunc crypto)

def executeLoop : Nat → Engine → ScriptCheck Engine := executeLoopBy crypto (opfunc crypto)

def execute : Engine → ScriptCheck Unit := executeBy crypto (opfunc crypto)

end Engine

/-! ### Creating an engine -/

def isSmallInt (value : UInt8) : Bool :=
  value == op0 || (op1 ≤ value && value ≤ op16)

def asSmallInt (value : UInt8) : Nat :=
  if value = op0 then 0 else (value - (op1 - 1)).toNat

def isWitnessProgram : List ParsedOpcode → Bool
  | [version, program] =>
      isSmallInt version.value && canonicalPush program &&
        (2 ≤ program.data.length && program.data.length ≤ 40)
  | _ => false

/-- `IsWitnessProgram`, on a script that is not parsed yet. -/
def isWitnessProgramScript (script : List UInt8) : Bool :=
  if script.length < 4 || 42 < script.length then false
  else
    let (pops, ok) := parseScript script
    ok && isWitnessProgram pops

/-- `ExtractWitnessProgramInfo`: the version and the program. -/
def extractWitnessProgramInfo (script : List UInt8) : ScriptCheck (Nat × List UInt8) := do
  let pops ← Engine.parse script
  match pops with
  | [version, program] =>
      if isWitnessProgram pops then pure (asSmallInt version.value, program.data)
      else .error .other
  | _ => .error .other

variable (scriptPubKey : List UInt8)

/-- `witProgram` of `NewEngine`. -/
def findWitnessProgram (pkPops sigPops : List ParsedOpcode)
    (txIn : TxIn) (bip16 : Bool) : ScriptCheck (Option (List UInt8)) :=
  if isWitnessProgram pkPops then do
    requireScript (txIn.signatureScript = []) .errWitnessMalleated
    pure (some scriptPubKey)
  else if txIn.witness ≠ [] ∧ bip16 = true then
    match sigPops with
    | [pop] => do
        requireScript (canonicalPush pop = true ∧ isWitnessProgramScript pop.data = true)
          .errWitnessMalleatedP2SH
        pure (some pop.data)
    | _ => scriptError .errWitnessMalleatedP2SH
  else pure none

/-- The witness mode of `NewEngine`: the version and the program, when there is one. -/
def witnessMode (flags : UInt32) (scriptPubKey : List UInt8) (pkPops sigPops : List ParsedOpcode)
    (txIn : TxIn) (bip16 : Bool) : ScriptCheck (Option (Nat × List UInt8)) :=
  if !hasFlag flags scriptVerifyWitness then .ok none
  else do
    requireScript (hasFlag flags scriptBip16 = true) .errInvalidFlags
    let witProgram ← findWitnessProgram scriptPubKey pkPops sigPops txIn bip16
    match witProgram with
    | some script => do
        let info ← extractWitnessProgramInfo script
        pure (some info)
    | none => do
        requireScript (txIn.witness = []) .errWitnessUnexpected
        pure none

def newEngine (tx : MsgTx) (txIdx : Nat) (flags : UInt32)
    (inputAmount : Int64) : ScriptCheck Engine :=
  match tx.txIn[txIdx]? with
  | none => scriptError .errInvalidIndex
  | some txIn => do
      let scriptSig := txIn.signatureScript
      requireScript (scriptSig ≠ [] ∨ scriptPubKey ≠ []) .errEvalFalse
      requireScript (hasFlag flags scriptVerifyCleanStack = true →
        hasFlag flags scriptBip16 = true ∨ hasFlag flags scriptVerifyWitness = true)
          .errInvalidFlags
      requireScript (hasFlag flags scriptVerifySigPushOnly = true →
        (parseScript scriptSig).2 = true ∧ isPushOnly (parseScript scriptSig).1 = true)
        .errNotPushOnly
      requireScript (scriptSig.length ≤ maxScriptSize) .errScriptTooBig
      let sigPops ← Engine.parse scriptSig
      requireScript (scriptPubKey.length ≤ maxScriptSize) .errScriptTooBig
      let pkPops ← Engine.parse scriptPubKey
      let bip16 := hasFlag flags scriptBip16 && isScriptHash pkPops
      requireScript (bip16 = true → isPushOnly sigPops = true) .errNotPushOnly
      let stack : Stack := { verifyMinimalData := hasFlag flags scriptVerifyMinimalData }
      let program ← witnessMode flags scriptPubKey pkPops sigPops txIn bip16
      pure
        { scripts := [sigPops, pkPops]
          scriptIdx := if scriptSig = [] then 1 else 0
          dstack := stack
          astack := stack
          tx
          txIdx
          flags
          bip16
          witnessVersion := (program.map Prod.fst).getD 0
          witnessProgram := program.map Prod.snd
          inputAmount }

/-- How validation uses the engine. -/
def runScript (tx : MsgTx) (txIdx : Nat) (flags : UInt32) (inputAmount : Int64) : ScriptResult :=
  match newEngine scriptPubKey tx txIdx flags inputAmount with
  | .error _ => .malformed
  | .ok vm =>
      match Engine.execute crypto vm with
      | .error _ => .failed
      | .ok _ => .success

end Crypto

end DrcNode
