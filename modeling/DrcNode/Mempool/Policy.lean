import DrcNode.Chain.SequenceLock
import DrcNode.Mining.Selection
import DrcNode.Script.Standard

/-!
# What the memory pool asks of a transaction

A transaction that a peer has sent is checked against the rules of blocks and against a policy: it
has to be of a standard form, to pay for being relayed and to cost few signature operations. The
checks of the policy are made before any script is run.

Source: `mempool/policy.go`; `mempool/error.go`; the fields of `Policy` in `mempool/mempool.go`;
`GetSigOpCost` in `blockchain/weight.go`. An error is a reject code or an error of the chain; the
texts are left out. Where the source takes the code out of an error and puts it into a new one, the
error is passed on.
-/

namespace DrcNode

open List Checked

/-! ### Errors -/

/-- `wire.RejectCode`, as far as the memory pool uses it. -/
inductive RejectCode
  | rejectInvalid
  | rejectDuplicate
  | rejectNonstandard
  | rejectDust
  | rejectInsufficientFee
  deriving DecidableEq, Repr

/-- An error of the memory pool: a `TxRuleError`, or an error of the chain. -/
inductive TxError
  | txRuleError (code : RejectCode)
  | chainError (e : GoError)
  deriving DecidableEq, Repr

/-- How a check of the memory pool ends when it does not succeed. -/
inductive TxFault
  | panic (p : Panic)
  | error (e : TxError)
  deriving DecidableEq, Repr

/-- A check of the memory pool. -/
abbrev TxCheck (α : Type) := Except TxFault α

/-- Return a `TxRuleError`. -/
def txRuleError {α : Type} (code : RejectCode) : TxCheck α := .error (.error (.txRuleError code))

/-- Return a `TxRuleError` unless `p` holds. -/
def requireTx (p : Prop) [Decidable p] (code : RejectCode) : TxCheck Unit :=
  if p then .ok () else txRuleError code

/-- A fault of the chain, as the memory pool passes it on. -/
def TxFault.ofFault : Fault → TxFault
  | .panic p => .panic p
  | .error e => .error (.chainError e)

/-- A check of the chain. -/
def TxCheck.ofCheck {α : Type} (c : Check α) : TxCheck α := c.mapError TxFault.ofFault

/-- The check returns a value or an error, but does not panic. -/
abbrev TxCheck.NoPanic {α : Type} (c : TxCheck α) : Prop :=
  FailsOnly (fun fault => ∃ e, fault = .error e) c

@[simp] theorem requireTx_eq_ok {p : Prop} [Decidable p] {code : RejectCode} {u : Unit} :
    requireTx p code = .ok u ↔ p := ite_eq_ok_iff

@[simp] theorem TxCheck.ofCheck_eq_ok {α : Type} {c : Check α} {a : α} :
    ofCheck c = .ok a ↔ c = .ok a := mapError_eq_ok

namespace TxCheck

variable {α β : Type} {code : RejectCode}

theorem noPanic_txRuleError : (txRuleError code : TxCheck α).NoPanic :=
  fun _ h => ⟨.txRuleError code, (Except.error.inj h).symm⟩

theorem noPanic_requireTx {p : Prop} [Decidable p] : (requireTx p code).NoPanic := by
  unfold requireTx
  split_ifs
  · exact .ok
  · exact noPanic_txRuleError

theorem noPanic_ofCheck_iff {c : Check α} : (ofCheck c).NoPanic ↔ c.NoPanic := by
  match c with
  | .ok a => exact iff_of_true .ok .ok
  | .error (.error e) =>
    exact iff_of_true (fun _ h => ⟨.chainError e, (Except.error.inj h).symm⟩) noPanic_error
  | .error (.panic p) =>
    refine iff_of_false (fun h => ?_) not_noPanic_panic
    obtain ⟨e, he⟩ := h _ rfl
    cases he

theorem noPanic_bind_iff {c : TxCheck α} {f : α → TxCheck β} :
    (c >>= f).NoPanic ↔ c.NoPanic ∧ ∀ a, c = .ok a → (f a).NoPanic := by
  refine ⟨fun h => ?_, fun h => h.1.bind h.2⟩
  cases c with
  | ok a => exact ⟨.ok, fun b hb => Except.ok.inj hb ▸ h⟩
  | error fault =>
    exact ⟨fun fault' hf => h fault' (by cases hf; rfl), fun _ hb => by cases hb⟩

end TxCheck

/-! ### The policy -/

/-- `Policy` of the memory pool. -/
structure TxPolicy where
  maxTxVersion : Int32
  disableRelayPriority : Bool
  acceptNonStd : Bool
  freeTxRelayLimit : ℚ
  maxOrphanTxs : Nat
  maxOrphanTxSize : Nat
  maxSigOpCostPerTx : Nat
  minRelayTxFee : Int64
  deriving DecidableEq, Repr

def maxStandardP2SHSigOps : Nat := 15

def maxStandardTxWeight : Nat := 400000

def maxStandardSigScriptSize : Nat := 1650

def maxStandardMultiSigKeys : Nat := 3

def defaultBlockPrioritySize : Int64 := 50000

/-- `calcMinRequiredTxRelayFee`, in 64 bits. -/
def calcMinRequiredTxRelayFee (serializedSize minRelayTxFee : Int64) : Int64 :=
  let scaled := serializedSize * minRelayTxFee / 1000
  let minFee := if scaled = 0 ∧ 0 < minRelayTxFee then minRelayTxFee else scaled
  if minFee < 0 ∨ maxSatoshi < minFee then maxSatoshi else minFee

def getTxVirtualSize (msgTx : MsgTx) : Int64 :=
  Int64.ofNat ((getTransactionWeight msgTx + (witnessScaleFactor - 1)) / witnessScaleFactor)

/-! ### Standard transactions -/

def checkPkScriptStandard (pkScript : List UInt8) (scriptClass : ScriptClass) : TxCheck Unit :=
  match scriptClass with
  | .multiSigTy =>
      match calcMultiSigStats pkScript with
      | none => txRuleError .rejectNonstandard
      | some stats => do
          requireTx (1 ≤ stats.1) .rejectNonstandard
          requireTx (stats.1 ≤ maxStandardMultiSigKeys) .rejectNonstandard
          requireTx (1 ≤ stats.2) .rejectNonstandard
          requireTx (stats.2 ≤ stats.1) .rejectNonstandard
  | .nonStandardTy => txRuleError .rejectNonstandard
  | _ => .ok ()

/-- The size of an output with the input that spends it. -/
def dustSize (txOut : TxOut) : Nat :=
  txOut.serializeSize + 41 +
    (if isWitnessProgramScript txOut.pkScript then 107 / witnessScaleFactor else 107)

/-- `isDust`, in 64 bits. -/
def isDust (txOut : TxOut) (minRelayTxFee : Int64) : Bool :=
  isUnspendable txOut.pkScript ||
    decide (txOut.value * 1000 / (3 * Int64.ofNat (dustSize txOut)) < minRelayTxFee)

/-- One round of the loop over the inputs in `checkTransactionStandard`. -/
def checkSigScriptStandard (txIn : TxIn) : TxCheck Unit := do
  requireTx (txIn.signatureScript.length ≤ maxStandardSigScriptSize) .rejectNonstandard
  requireTx (isPushOnlyScript txIn.signatureScript = true) .rejectNonstandard

/-- One round of the loop over the outputs, which counts those that only carry data. -/
def checkTxOutStandard (minRelayTxFee : Int64) (numNullDataOutputs : Nat) (txOut : TxOut) :
    TxCheck Nat := do
  checkPkScriptStandard txOut.pkScript (getScriptClass txOut.pkScript)
  if getScriptClass txOut.pkScript = .nullDataTy then pure (numNullDataOutputs + 1)
  else do
    requireTx (isDust txOut minRelayTxFee = false) .rejectDust
    pure numNullDataOutputs

def checkTransactionStandard (msgTx : MsgTx) (height : Nat) (medianTimePast : Int)
    (minRelayTxFee : Int64) (maxTxVersion : Int32) : TxCheck Unit := do
  requireTx (msgTx.version ≤ maxTxVersion ∧ 1 ≤ msgTx.version) .rejectNonstandard
  requireTx (isFinalizedTransaction msgTx height medianTimePast = true) .rejectNonstandard
  requireTx (getTransactionWeight msgTx ≤ maxStandardTxWeight) .rejectNonstandard
  msgTx.txIn.forM checkSigScriptStandard
  let numNullDataOutputs ← msgTx.txOut.foldlM (checkTxOutStandard minRelayTxFee) 0
  requireTx (numNullDataOutputs ≤ 1) .rejectNonstandard

/-- One round of the loop of `checkInputsStandard`. -/
def checkInputStandard (view : UtxoViewpoint) (txIn : TxIn) : TxCheck Unit :=
  match view.lookupEntry txIn.previousOutPoint with
  | none => .error (.panic .nilPointer)
  | some entry =>
      match getScriptClass entry.pkScript with
      | .scriptHashTy =>
          requireTx (getPreciseSigOpCount txIn.signatureScript entry.pkScript true ≤
            maxStandardP2SHSigOps) .rejectNonstandard
      | .nonStandardTy => txRuleError .rejectNonstandard
      | _ => .ok ()

def checkInputsStandard (msgTx : MsgTx) (view : UtxoViewpoint) : TxCheck Unit :=
  msgTx.txIn.forM (checkInputStandard view)

theorem noPanic_checkPkScriptStandard {pkScript : List UInt8} {scriptClass : ScriptClass} :
    (checkPkScriptStandard pkScript scriptClass).NoPanic := by
  unfold checkPkScriptStandard
  split
  · split
    · exact TxCheck.noPanic_txRuleError
    · refine TxCheck.noPanic_requireTx.seq <| TxCheck.noPanic_requireTx.seq ?_
      exact TxCheck.noPanic_requireTx.seq TxCheck.noPanic_requireTx
  · exact TxCheck.noPanic_txRuleError
  · exact .ok

variable {msgTx : MsgTx} {view : UtxoViewpoint}

/-- **The check for standard transactions does not panic**, whatever the scripts are. -/
theorem noPanic_checkTransactionStandard {height : Nat} {medianTimePast : Int}
    {minRelayTxFee : Int64} {maxTxVersion : Int32} :
    (checkTransactionStandard msgTx height medianTimePast minRelayTxFee maxTxVersion).NoPanic := by
  have hi : ∀ txIn ∈ msgTx.txIn, (checkSigScriptStandard txIn).NoPanic := fun _ _ =>
    TxCheck.noPanic_requireTx.seq TxCheck.noPanic_requireTx
  have ho : ∀ n, ∀ txOut ∈ msgTx.txOut, (checkTxOutStandard minRelayTxFee n txOut).NoPanic := by
    intro n txOut _
    refine noPanic_checkPkScriptStandard.seq ?_
    split_ifs
    · exact .ok
    · exact TxCheck.noPanic_requireTx.seq .ok
  refine TxCheck.noPanic_requireTx.seq <| TxCheck.noPanic_requireTx.seq ?_
  refine TxCheck.noPanic_requireTx.seq <| (FailsOnly.forM hi).seq ?_
  exact (FailsOnly.foldlM ho).bind fun _ _ => TxCheck.noPanic_requireTx

/-- **The check for standard inputs does not panic** when every input has its output in the view. -/
theorem noPanic_checkInputsStandard
    (h : ∀ txIn ∈ msgTx.txIn, ∃ entry, view.lookupEntry txIn.previousOutPoint = some entry) :
    (checkInputsStandard msgTx view).NoPanic := by
  refine .forM fun txIn ht => ?_
  obtain ⟨entry, he⟩ := h txIn ht
  rw [checkInputStandard, he]
  dsimp only
  split
  · exact TxCheck.noPanic_requireTx
  · exact TxCheck.noPanic_txRuleError
  · exact .ok

/-! ### The cost of the signature operations -/

/-- One round of the loop over the inputs in `GetSigOpCost`. -/
def addWitnessSigOps (view : UtxoViewpoint) (numSigOps : Nat) (txIn : TxIn) : Check Nat :=
  match view.lookupEntry txIn.previousOutPoint with
  | none => ruleError .errMissingTxOut
  | some utxo => do
      require (utxo.isSpent = false) .errMissingTxOut
      let count ← Check.ofPanic
        (getWitnessSigOpCount txIn.signatureScript utxo.pkScript txIn.witness)
      pure (numSigOps + count)

/-- `GetSigOpCost`. The error of `CountP2SHSigOps` is dropped, with what has been counted so far. -/
def getSigOpCostFor (msgTx : MsgTx) (isCoinBase : Bool) (view : UtxoViewpoint)
    (bip16 segWit : Bool) : Check Nat :=
  match (if bip16 then countP2SHSigOps msgTx isCoinBase view else some 0) with
  | none => .ok 0
  | some numP2SHSigOps =>
      let numSigOps := countSigOps msgTx * witnessScaleFactor + numP2SHSigOps * witnessScaleFactor
      if segWit && !isCoinBase then msgTx.txIn.foldlM (addWitnessSigOps view) numSigOps
      else .ok numSigOps

/-- The input spends a pay-to-script-hash output and has an empty signature script. -/
def EmptyScriptHashInput (view : UtxoViewpoint) (txIn : TxIn) : Prop :=
  txIn.signatureScript = [] ∧
    ∃ utxo, view.lookupEntry txIn.previousOutPoint = some utxo ∧
      isPayToScriptHash utxo.pkScript = true

theorem availableIn_eq_true_iff {outpoint : OutPoint} : availableIn view outpoint = true ↔
      ∃ entry, view.lookupEntry outpoint = some entry ∧ entry.isSpent = false := by
  rw [availableIn, Option.any_eq_true]
  simp

section SigOpCost

variable {view : UtxoViewpoint} {numSigOps : Nat} {txIn : TxIn} {msgTx : MsgTx}

section

variable (h : availableIn view txIn.previousOutPoint = true)
include h

theorem addWitnessSigOps_eq_panic (he : EmptyScriptHashInput view txIn) :
    addWitnessSigOps view numSigOps txIn = .error (.panic .indexOutOfRange) := by
  obtain ⟨utxo, hu, hun⟩ := availableIn_eq_true_iff.1 h
  obtain ⟨hss, utxo', hu', hs⟩ := he
  cases hu.symm.trans hu'
  simp only [addWitnessSigOps, hu, require, hun, if_true, hss, getWitnessSigOpCount_nil hs]
  rfl

theorem exists_addWitnessSigOps (he : ¬EmptyScriptHashInput view txIn) :
    ∃ n, addWitnessSigOps view numSigOps txIn = .ok n := by
  obtain ⟨utxo, hut, hu⟩ := availableIn_eq_true_iff.1 h
  have hc : ∃ n, getWitnessSigOpCount txIn.signatureScript utxo.pkScript txIn.witness = .ok n :=
    exists_getWitnessSigOpCount_iff.2 fun hs hss => he ⟨hss, utxo, hut, hs⟩
  obtain ⟨n, hn⟩ := hc
  refine ⟨numSigOps + n, ?_⟩
  simp only [addWitnessSigOps, hut, require, hu, if_true, hn]
  rfl

end

theorem noPanic_foldlM_addWitnessSigOps_iff {inputs : List TxIn}
    (h : ∀ txIn ∈ inputs, availableIn view txIn.previousOutPoint = true) :
    Check.NoPanic (inputs.foldlM (addWitnessSigOps view) numSigOps) ↔
      ∀ txIn ∈ inputs, ¬EmptyScriptHashInput view txIn := by
  induction inputs generalizing numSigOps with
  | nil => exact iff_of_true .ok fun _ hm => by cases hm
  | cons txIn inputs ih =>
    obtain ⟨hf, hr⟩ := forall_mem_cons.1 h
    rw [foldlM_cons, forall_mem_cons]
    by_cases he : EmptyScriptHashInput view txIn
    · rw [addWitnessSigOps_eq_panic hf he]
      exact iff_of_false not_noPanic_panic fun ha => ha.1 he
    · obtain ⟨n, hn⟩ := @exists_addWitnessSigOps view numSigOps txIn hf he
      rw [hn, and_iff_right he]
      exact ih hr

theorem inputP2SHSigOps_eq_none_iff :
    inputP2SHSigOps view txIn = none ↔ availableIn view txIn.previousOutPoint = false := by
  rw [inputP2SHSigOps, availableIn]
  cases view.lookupEntry txIn.previousOutPoint with
  | none => exact iff_of_true rfl rfl
  | some utxo =>
    cases hs : utxo.isSpent with
    | true => simp [hs]
    | false =>
      simp only [Bool.false_eq_true, if_false, Option.any_some, hs, Bool.not_false,
        Bool.true_eq_false, iff_false]
      split_ifs <;> exact not_false

theorem countP2SHSigOps_eq_none_iff : countP2SHSigOps msgTx false view = none ↔
      ∃ txIn ∈ msgTx.txIn, availableIn view txIn.previousOutPoint = false := by
  rw [countP2SHSigOps]
  induction msgTx.txIn with
  | nil => exact iff_of_false (by simp) (by simp)
  | cons txIn inputs ih =>
    rw [exists_mem_cons_iff, ← ih, ← inputP2SHSigOps_eq_none_iff, mapM_cons]
    cases inputP2SHSigOps view txIn with
    | none => exact iff_of_true rfl (.inl rfl)
    | some n => cases inputs.mapM (inputP2SHSigOps view) <;> simp

/-- **The transactions whose signature operations are counted without a panic.** -/
theorem noPanic_getSigOpCostFor_iff : (getSigOpCostFor msgTx false view true true).NoPanic ↔
      ((∀ txIn ∈ msgTx.txIn, availableIn view txIn.previousOutPoint = true) →
        ∀ txIn ∈ msgTx.txIn, ¬EmptyScriptHashInput view txIn) := by
  rw [getSigOpCostFor]
  cases hc : countP2SHSigOps msgTx false view with
  | none =>
    obtain ⟨txIn, hme, hm⟩ := countP2SHSigOps_eq_none_iff.1 hc
    refine iff_of_true .ok fun ha => absurd (ha txIn hme) ?_
    rw [hm]
    exact Bool.false_ne_true
  | some numP2SHSigOps =>
    have ha : ∀ txIn ∈ msgTx.txIn, availableIn view txIn.previousOutPoint = true := by
      intro txIn hme
      by_contra hm
      rw [countP2SHSigOps_eq_none_iff.2 ⟨txIn, hme, Bool.eq_false_of_not_eq_true hm⟩] at hc
      cases hc
    exact (noPanic_foldlM_addWitnessSigOps_iff ha).trans ⟨fun h _ => h, fun h => h ha⟩

end SigOpCost

end DrcNode
