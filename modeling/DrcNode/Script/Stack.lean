import DrcNode.Go
import DrcNode.Script.Parse

/-!
# Numbers and stacks of the script engine

The items on the stacks of the script engine are byte strings. Some opcodes read them as booleans,
others as numbers: little-endian with a sign bit, of four bytes at most unless an opcode allows
more. The numbers themselves are 64-bit integers, since a sum of two of them may not fit into four
bytes.

Source: `txscript/error.go`, `txscript/scriptnum.go` and `txscript/stack.go`. A stack is kept with
its top item first.
-/

namespace DrcNode

/-- The codes of `txscript.Error` that the modelled functions return. -/
inductive ScriptErrorCode
  | errInvalidFlags
  | errInvalidIndex
  | errEarlyReturn
  | errEmptyStack
  | errEvalFalse
  | errScriptUnfinished
  | errInvalidProgramCounter
  | errScriptTooBig
  | errElementTooBig
  | errTooManyOperations
  | errStackOverflow
  | errInvalidPubKeyCount
  | errInvalidSignatureCount
  | errNumberTooBig
  | errVerify
  | errEqualVerify
  | errNumEqualVerify
  | errCheckSigVerify
  | errCheckMultiSigVerify
  | errDisabledOpcode
  | errReservedOpcode
  | errMalformedPush
  | errInvalidStackOperation
  | errUnbalancedConditional
  | errMinimalData
  | errInvalidSigHashType
  | errSigTooShort
  | errSigTooLong
  | errSigInvalidSeqID
  | errSigInvalidDataLen
  | errSigMissingSTypeID
  | errSigMissingSLen
  | errSigInvalidSLen
  | errSigInvalidRIntID
  | errSigZeroRLen
  | errSigNegativeR
  | errSigTooMuchRPadding
  | errSigInvalidSIntID
  | errSigZeroSLen
  | errSigNegativeS
  | errSigTooMuchSPadding
  | errSigHighS
  | errNotPushOnly
  | errSigNullDummy
  | errPubKeyType
  | errCleanStack
  | errNullFail
  | errDiscourageUpgradableNOPs
  | errNegativeLockTime
  | errUnsatisfiedLockTime
  | errMinimalIf
  | errDiscourageUpgradableWitnessProgram
  | errWitnessProgramEmpty
  | errWitnessProgramMismatch
  | errWitnessProgramWrongLength
  | errWitnessMalleated
  | errWitnessMalleatedP2SH
  | errWitnessUnexpected
  | errWitnessPubKeyType
  deriving DecidableEq, Repr

/-- How the engine ends when it does not succeed. The last case stands for a loop that has not ended
after the number of rounds it was given. -/
inductive ScriptFault
  | error (code : ScriptErrorCode)
  | other
  | panic (p : Panic)
  | unfinished
  deriving DecidableEq, Repr

/-- A step of the script engine. -/
abbrev ScriptCheck (α : Type) := Except ScriptFault α

def scriptError {α : Type} (code : ScriptErrorCode) : ScriptCheck α := .error (.error code)

/-- Return a script error unless `p` holds. -/
def requireScript (p : Prop) [Decidable p] (code : ScriptErrorCode) : ScriptCheck Unit :=
  if p then .ok () else scriptError code

@[simp] theorem requireScript_eq_ok {p : Prop} [Decidable p] {code : ScriptErrorCode} {u : Unit} :
    requireScript p code = .ok u ↔ p := Checked.ite_eq_ok_iff

/-! ### Booleans and numbers -/

/-- `asBool`: a byte string is false when all its bytes are zero, but for the sign of the last. -/
def asBool : List UInt8 → Bool
  | [] => false
  | [b] => b != 0 && b != 0x80
  | b :: bs => b != 0 || asBool bs

def fromBool (v : Bool) : List UInt8 := if v then [1] else []

def defaultScriptNumLen : Nat := 4

def checkMinimalDataEncoding (v : List UInt8) : ScriptCheck Unit :=
  match v.reverse with
  | [] => .ok ()
  | [last] => requireScript (last &&& 0x7f ≠ 0) .errMinimalData
  | last :: before :: _ =>
      requireScript (last &&& 0x7f ≠ 0 ∨ before &&& 0x80 ≠ 0) .errMinimalData

/-- A shift to the left as in the source, where shifting out all bits gives zero. -/
def shiftLeft64 (x : Int64) (n : Nat) : Int64 := if n < 64 then x <<< Int64.ofNat n else 0

/-- The loop of `makeScriptNum`. The shift is computed in eight bits. -/
def scriptNumLoop : Nat → Int64 → List UInt8 → Int64
  | _, result, [] => result
  | i, result, val :: v =>
      scriptNumLoop (i + 1) (result ||| shiftLeft64 (Int64.ofNat val.toNat) (8 * i % 256)) v

def makeScriptNum (v : List UInt8) (requireMinimal : Bool) (scriptNumLen : Nat) :
    ScriptCheck Int64 := do
  requireScript (v.length ≤ scriptNumLen) .errNumberTooBig
  if requireMinimal then checkMinimalDataEncoding v
  match v.getLast? with
  | none => pure 0
  | some last =>
      let result := scriptNumLoop 0 0 v
      if last &&& 0x80 ≠ 0 then
        pure (-(result &&& ~~~shiftLeft64 0x80 (8 * (v.length - 1) % 256)))
      else pure result

/-- The loop of `scriptNum.Bytes`. A positive number has eight bytes at most. -/
def scriptNumDigits : Nat → Int64 → List UInt8
  | 0, _ => []
  | rounds + 1, n =>
      if 0 < n then UInt8.ofNat (n.toNatClampNeg % 256) :: scriptNumDigits rounds (n >>> 8) else []

/-- `scriptNum.Bytes`. The negation of the least number is the number itself. -/
def ScriptNum.bytes (n : Int64) : ScriptCheck (List UInt8) :=
  if n = 0 then .ok []
  else
    let isNegative : Bool := n < 0
    let digits := scriptNumDigits 8 (if isNegative then -n else n)
    match digits.getLast? with
    | none => .error (.panic .indexOutOfRange)
    | some last =>
        if last &&& 0x80 ≠ 0 then .ok (digits ++ [if isNegative then 0x80 else 0x00])
        else if isNegative then .ok (digits.dropLast ++ [last ||| 0x80])
        else .ok digits

/-- `scriptNum.Int32`: clamped to 32 bits. -/
def scriptNumInt32 (n : Int64) : Int :=
  if 2 ^ 31 - 1 < n.toInt then 2 ^ 31 - 1 else if n.toInt < -2 ^ 31 then -2 ^ 31 else n.toInt

/-! ### Stacks -/

/-- `stack`, with the top item first. -/
structure Stack where
  stk : List (List UInt8) := []
  verifyMinimalData : Bool := false
  deriving DecidableEq, Repr

namespace Stack

variable (s : Stack) (n : Nat)

def depth : Nat := s.stk.length

def pushByteArray (so : List UInt8) : Stack := { s with stk := so :: s.stk }

def pushInt (val : Int64) : ScriptCheck Stack := do
  let so ← ScriptNum.bytes val
  pure (s.pushByteArray so)

def pushBool (val : Bool) : Stack := s.pushByteArray (fromBool val)

def peekByteArray (idx : Int) : ScriptCheck (List UInt8) :=
  if idx < 0 then scriptError .errInvalidStackOperation
  else
    match s.stk[idx.toNat]? with
    | none => scriptError .errInvalidStackOperation
    | some so => .ok so

/-- `nipN`: the item and the stack without it. -/
def nipN (idx : Int) : ScriptCheck (List UInt8 × Stack) := do
  let so ← s.peekByteArray idx
  pure (so, { s with stk := s.stk.eraseIdx idx.toNat })

def popByteArray : ScriptCheck (List UInt8 × Stack) := s.nipN 0

def popInt : ScriptCheck (Int64 × Stack) := do
  let (so, s) ← s.popByteArray
  let val ← makeScriptNum so s.verifyMinimalData defaultScriptNumLen
  pure (val, s)

def popBool : ScriptCheck (Bool × Stack) := do
  let (so, s) ← s.popByteArray
  pure (asBool so, s)

/-- `NipN`. -/
def nip (idx : Int) : ScriptCheck Stack := do
  let (_, s) ← s.nipN idx
  pure s

def tuck : ScriptCheck Stack := do
  let (so2, s) ← s.popByteArray
  let (so1, s) ← s.popByteArray
  pure (((s.pushByteArray so2).pushByteArray so1).pushByteArray so2)

/-- Repeat an operation on the stack. -/
def iterate (f : Stack → ScriptCheck Stack) : Nat → Stack → ScriptCheck Stack
  | 0, s => .ok s
  | n + 1, s => do
      let s ← f s
      iterate f n s

/-- `RollN`: nip an item to the top. -/
def rollN (n : Int) : ScriptCheck Stack := do
  let (so, s) ← s.nipN n
  pure (s.pushByteArray so)

/-- `PickN`: copy an item to the top. -/
def pickN (n : Int) : ScriptCheck Stack := do
  let so ← s.peekByteArray n
  pure (s.pushByteArray so)

/-- `DropN`, `DupN`, `RotN`, `SwapN` and `OverN` do one thing `n` times, at least once. -/
def repeatN (f : Stack → ScriptCheck Stack) : ScriptCheck Stack := do
  requireScript (1 ≤ n) .errInvalidStackOperation
  iterate f n s

def dropN : ScriptCheck Stack := s.repeatN n fun s => s.nip 0

def dupN : ScriptCheck Stack := s.repeatN n fun s => s.pickN (n - 1)

def rotN : ScriptCheck Stack := s.repeatN n fun s => s.rollN (3 * n - 1)

def swapN : ScriptCheck Stack := s.repeatN n fun s => s.rollN (2 * n - 1)

def overN : ScriptCheck Stack := s.repeatN n fun s => s.pickN (2 * n - 1)

/-- The items of `getStack` and `setStack`, where the top one comes last. -/
def items : List (List UInt8) := s.stk.reverse

/-- `setStack`. -/
def setItems (data : List (List UInt8)) : Stack := { s with stk := data.reverse }

end Stack

end DrcNode
