import DrcNode.Library.Checked

/-!
# Panics and errors

A Go function can end in three ways: with a value, with an error it returns, or with a run-time
panic. A returned error leaves the caller running with whatever the function has already written;
a panic that nobody recovers, and nobody does in the modelled packages, ends the process.

* `Panic` lists the run-time panics the modelled code can run into.
* `ErrorCode` and `GoError` are the errors of `blockchain/error.go`; the texts of the errors, which
  are only logged, are left out.
* A pure check is a `Check`: it yields a value or one of the two faults. A function that changes
  the state `σ` yields `Call σ α`: a panic, or the new state with a value or an error.
-/

namespace DrcNode

/-- A run-time panic. -/
inductive Panic
  | nilPointer
  | divideByZero
  | indexOutOfRange
  | makeSlice
  deriving DecidableEq, Repr

/-- The codes of `RuleError`, `blockchain/error.go`, that the modelled functions return. -/
inductive ErrorCode
  | errDuplicateBlock
  | errBlockTooBig
  | errInvalidTime
  | errTimeTooOld
  | errUnexpectedDifficulty
  | errBadMerkleRoot
  | errNoTransactions
  | errNoTxInputs
  | errNoTxOutputs
  | errTxTooBig
  | errBadTxOutValue
  | errDuplicateTxInputs
  | errBadTxInput
  | errMissingTxOut
  | errUnfinalizedTx
  | errDuplicateTx
  | errOverwriteTx
  | errImmatureSpend
  | errSpendTooHigh
  | errBadFees
  | errTooManySigOps
  | errFirstTxNotCoinbase
  | errMultipleCoinbases
  | errBadCoinbaseScriptLen
  | errBadCoinbaseValue
  | errMissingCoinbaseHeight
  | errBadCoinbaseHeight
  | errScriptMalformed
  | errScriptValidation
  | errPreviousBlockUnknown
  | errInvalidAncestorBlock
  | errPrevBlockNotBest
  deriving DecidableEq, Repr

/-- An error value: a `RuleError`, an `AssertError`, or an error passed on from `btcec`. -/
inductive GoError
  | ruleError (code : ErrorCode)
  | assertError
  | parsePubKey
  deriving DecidableEq, Repr

/-- How a check ends when it does not succeed. -/
inductive Fault
  | panic (p : Panic)
  | error (e : GoError)
  deriving DecidableEq, Repr

/-- A check that reads the state and changes nothing. -/
abbrev Check (α : Type) := Except Fault α

/-- A call that changes a state: a panic, or the state after the call with its result. -/
abbrev Call (σ α : Type) := Except Panic (σ × Except GoError α)

/-- What a call returns when a check in it has failed. -/
def Fault.call {σ α : Type} (s : σ) : Fault → Call σ α
  | .error e => .ok (s, .error e)
  | .panic p => .error p

/-- Return a rule error. -/
def ruleError {α : Type} (code : ErrorCode) : Check α := .error (.error (.ruleError code))

/-- Return a rule error unless `p` holds. -/
def require (p : Prop) [Decidable p] (code : ErrorCode) : Check Unit :=
  if p then .ok () else ruleError code

@[simp] theorem require_eq_ok {p : Prop} [Decidable p] {code : ErrorCode} {u : Unit} :
    require p code = .ok u ↔ p := Checked.ite_eq_ok_iff

@[simp] theorem ruleError_ne_ok {α : Type} {code : ErrorCode} {a : α} :
    (ruleError code : Check α) ≠ .ok a := by
  intro h; cases h

variable {σ α β : Type}

/-- Run a check inside a call: an error is returned with the state as it is. -/
def Check.andThen (c : Check α) (s : σ) (k : α → Call σ β) : Call σ β :=
  match c with
  | .ok a => k a
  | .error (.error e) => .ok (s, .error e)
  | .error (.panic p) => .error p

theorem Check.andThen_eq_ok {c : Check α} {s s' : σ} {k : α → Call σ β}
    {r : Except GoError β} : c.andThen s k = .ok (s', r) ↔ (∃ a, c = .ok a ∧ k a = .ok (s', r)) ∨
        ∃ e, c = .error (.error e) ∧ s' = s ∧ r = .error e := by
  match c with
  | .ok a => simp [Check.andThen]
  | .error (.error e) => simp [Check.andThen, eq_comm]
  | .error (.panic p) => simp [Check.andThen]

/-- The check returns a value or an error, but does not panic. -/
abbrev Check.NoPanic {α : Type} (c : Check α) : Prop :=
  Checked.FailsOnly (fun fault => ∃ e, fault = .error e) c

theorem noPanic_error {α : Type} {e : GoError} : Check.NoPanic (.error (.error e) : Check α) :=
  fun _ h => ⟨e, (Except.error.inj h).symm⟩

theorem not_noPanic_panic {α : Type} {p : Panic} :
    ¬Check.NoPanic (.error (.panic p) : Check α) := by
  intro h
  obtain ⟨e, he⟩ := h _ rfl
  cases he

theorem noPanic_require {p : Prop} [Decidable p] {code : ErrorCode} : (require p code).NoPanic := by
  unfold require
  split_ifs
  · exact .ok
  · exact noPanic_error

theorem Check.NoPanic.andThen {c : Check α} {s : σ} {k : α → Call σ β}
    (hc : c.NoPanic) (hk : ∀ a, c = .ok a → ∃ out, k a = .ok out) :
    ∃ out, c.andThen s k = .ok out := by
  match c with
  | .ok a => exact hk a rfl
  | .error (.error e) => exact ⟨_, rfl⟩
  | .error (.panic p) =>
    obtain ⟨e, he⟩ := hc _ rfl
    cases he

/-- Run a call after a call: a panic or an error of the first ends both. -/
def Call.andThen (c : Call σ α) (k : σ → α → Call σ β) : Call σ β :=
  match c with
  | .ok (s, .ok a) => k s a
  | .ok (s, .error e) => .ok (s, .error e)
  | .error p => .error p

theorem Call.andThen_eq_ok {c : Call σ α} {s' : σ} {k : σ → α → Call σ β}
    {r : Except GoError β} : c.andThen k = .ok (s', r) ↔
      (∃ s a, c = .ok (s, .ok a) ∧ k s a = .ok (s', r)) ∨
        ∃ e, c = .ok (s', .error e) ∧ r = .error e := by
  match c with
  | .ok (s, .ok a) => simp [Call.andThen]
  | .ok (s, .error e) => simp [Call.andThen, eq_comm]
  | .error p => simp [Call.andThen]

/-! ### Calls that panic -/

theorem Check.andThen_eq_error {c : Check α} {s : σ} {k : α → Call σ β} {p : Panic} :
    c.andThen s k = .error p ↔ c = .error (.panic p) ∨ ∃ a, c = .ok a ∧ k a = .error p := by
  match c with
  | .ok a => simp [Check.andThen]
  | .error (.error e) => simp [Check.andThen]
  | .error (.panic p') => simp [Check.andThen]

theorem Call.andThen_eq_error {c : Call σ α} {k : σ → α → Call σ β} {p : Panic} :
    c.andThen k = .error p ↔ c = .error p ∨ ∃ s a, c = .ok (s, .ok a) ∧ k s a = .error p := by
  match c with
  | .ok (s, .ok a) => simp [Call.andThen]
  | .ok (s, .error e) => simp [Call.andThen]
  | .error p' => simp [Call.andThen]

theorem not_noPanic_iff {α : Type} {c : Check α} : ¬c.NoPanic ↔ ∃ p, c = .error (.panic p) := by
  constructor
  · intro h
    match c with
    | .ok a => exact absurd .ok h
    | .error (.error e) => exact absurd noPanic_error h
    | .error (.panic p) => exact ⟨p, rfl⟩
  · rintro ⟨p, rfl⟩
    exact not_noPanic_panic

end DrcNode
