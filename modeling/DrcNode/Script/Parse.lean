import DrcNode.Wire.Encode

/-!
# Parsing scripts and counting signature operations

A script is a list of bytes that is cut into opcodes with their data. The block checks do not run
scripts; they count the signature operations in them, and the unspent output set leaves out outputs
whose script can never be satisfied. Both work on the opcodes parsed up to the first error.

Source: `parseScriptTemplate`, `getSigOpCount`, `GetSigOpCount`, `GetPreciseSigOpCount`,
`isScriptHash`, `isPushOnly`, `IsPayToScriptHash` and `IsUnspendable` in `txscript/script.go`;
the lengths of the opcodes in `txscript/opcode.go`.
-/

namespace DrcNode

/-- `parsedOpcode`: an opcode and the data it pushes. -/
structure ParsedOpcode where
  value : UInt8
  data : List UInt8
  deriving DecidableEq, Repr

namespace Opcode

def pushData1 : UInt8 := 0x4c
def pushData2 : UInt8 := 0x4d
def pushData4 : UInt8 := 0x4e
def op1 : UInt8 := 0x51
def op16 : UInt8 := 0x60
def opReturn : UInt8 := 0x6a
def equal : UInt8 := 0x87
def hash160 : UInt8 := 0xa9
def checkSig : UInt8 := 0xac
def checkSigVerify : UInt8 := 0xad
def checkMultiSig : UInt8 := 0xae
def checkMultiSigVerify : UInt8 := 0xaf
def data20 : UInt8 := 0x14

end Opcode

/-- The number of bytes that give the length of the data an opcode pushes. -/
def lengthBytes (value : UInt8) : Nat :=
  if value = Opcode.pushData1 then 1
  else if value = Opcode.pushData2 then 2
  else if value = Opcode.pushData4 then 4
  else 0

/-- The number of bytes an opcode pushes, given the bytes after it. -/
def dataLength (value : UInt8) (rest : List UInt8) : Nat :=
  if lengthBytes value = 0 then (if value.toNat ≤ 75 then value.toNat else 0)
  else ofLeBytes (rest.take (lengthBytes value))

/-- The first opcode of a script and the rest, `none` when its data is cut off. -/
def parseOpcode (value : UInt8) (rest : List UInt8) : Option (ParsedOpcode × List UInt8) :=
  if rest.length < lengthBytes value + dataLength value rest then none
  else
    let pushed := rest.drop (lengthBytes value)
    some (⟨value, pushed.take (dataLength value rest)⟩, pushed.drop (dataLength value rest))

/-- The loop of `parseScriptTemplate`. The first argument bounds the number of opcodes. -/
def parseScriptLoop : Nat → List UInt8 → List ParsedOpcode × Bool
  | 0, script => ([], script.isEmpty)
  | _ + 1, [] => ([], true)
  | n + 1, value :: rest =>
      match parseOpcode value rest with
      | none => ([], false)
      | some (pop, rest) =>
          let (pops, ok) := parseScriptLoop n rest
          (pop :: pops, ok)

variable (pops : List ParsedOpcode) (script : List UInt8)

/-- `parseScript`: the opcodes up to the first error, and whether there was none. -/
def parseScript : List ParsedOpcode × Bool :=
  parseScriptLoop script.length script

theorem length_le_of_parseOpcode {value : UInt8} {rest rest' : List UInt8} {pop : ParsedOpcode}
    (h : parseOpcode value rest = some (pop, rest')) : rest'.length ≤ rest.length := by
  rw [parseOpcode] at h
  split_ifs at h
  obtain ⟨-, rfl⟩ := Prod.mk.inj (Option.some.inj h)
  rw [List.length_drop, List.length_drop]
  omega

/-- **The bound on the number of opcodes is never what ends the loop.** -/
theorem parseScriptLoop_eq_parseScript {n : Nat} {script : List UInt8} (h : script.length ≤ n) :
    parseScriptLoop n script = parseScript script := by
  -- any two bounds that are long enough give the same result
  have hb : ∀ m k : Nat, ∀ script : List UInt8, script.length ≤ m → script.length ≤ k →
      parseScriptLoop m script = parseScriptLoop k script := by
    intro m
    induction m with
    | zero =>
      intro k script hm _
      rw [List.length_eq_zero_iff.1 (Nat.le_zero.1 hm)]
      cases k <;> rfl
    | succ m ih =>
      intro k script hm hk
      match script, k with
      | [], 0 => rfl
      | [], _ + 1 => rfl
      | value :: rest, k + 1 =>
        simp only [parseScriptLoop]
        cases hp : parseOpcode value rest with
        | none => rfl
        | some popRest =>
          have hle := length_le_of_parseOpcode hp
          simp only [List.length_cons] at hm hk
          simp [ih k popRest.2 (by omega) (by omega)]
  exact hb n script.length script h le_rfl

/-! ### Patterns -/

def isScriptHash : Bool :=
  pops.map ParsedOpcode.value == [Opcode.hash160, Opcode.data20, Opcode.equal]

def isPayToScriptHash : Bool :=
  let (pops, ok) := parseScript script
  ok && isScriptHash pops

def isPushOnly : Bool := pops.all fun pop => pop.value ≤ Opcode.op16

def isUnspendable (pkScript : List UInt8) : Bool :=
  let (pops, ok) := parseScript pkScript
  !ok || (pops.head?.map ParsedOpcode.value == some Opcode.opReturn)

/-! ### Signature operations -/

def maxPubKeysPerMultiSig : Nat := 20

/-- The signature operations of one opcode, given the opcode before it. -/
def sigOps (precise : Bool) (before : Option UInt8) (value : UInt8) : Nat :=
  if value = Opcode.checkSig ∨ value = Opcode.checkSigVerify then 1
  else if value = Opcode.checkMultiSig ∨ value = Opcode.checkMultiSigVerify then
    match before with
    | some op =>
        if precise ∧ Opcode.op1 ≤ op ∧ op ≤ Opcode.op16 then op.toNat - (Opcode.op1.toNat - 1)
        else maxPubKeysPerMultiSig
    | none => maxPubKeysPerMultiSig
  else 0

/-- The loop of `getSigOpCount`, with the opcode before the current one. -/
def sigOpLoop (precise : Bool) : Option UInt8 → List ParsedOpcode → Nat
  | _, [] => 0
  | before, pop :: pops =>
      sigOps precise before pop.value + sigOpLoop precise (some pop.value) pops

/-- `getSigOpCount` on parsed opcodes. -/
def getSigOpCount (precise : Bool) : Nat := sigOpLoop precise none pops

/-- `GetSigOpCount` on a script: counted up to the first parse error. -/
def scriptSigOpCount : Nat := getSigOpCount (parseScript script).1 false

/-- `GetPreciseSigOpCount`, with the script that the signature script pushes last. -/
def getPreciseSigOpCount (scriptSig scriptPubKey : List UInt8) (bip16 : Bool) : Nat :=
  let pops := (parseScript scriptPubKey).1
  if !(bip16 && isScriptHash pops) then getSigOpCount pops true
  else
    let (sigPops, ok) := parseScript scriptSig
    if !ok || !isPushOnly sigPops then 0
    else
      match sigPops.getLast? with
      | none => 0
      | some last => getSigOpCount (parseScript last.data).1 true

end DrcNode
