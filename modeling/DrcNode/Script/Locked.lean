import DrcNode.Script.Engine

/-!
# Runs of scripts

When a run of the script engine succeeds, in terms of its steps and of what is left on the stack.

Source: `Execute` in `txscript/engine.go`.
-/

namespace DrcNode

open Checked

variable {crypto : Crypto} {tx : MsgTx} {idx : Nat} {flags : UInt32} {amount : Int64}

/-- `OP_CHECKLOCKTIMEVERIFY`. -/
def Opcode.checkLockTimeVerify : UInt8 := 0xb1

/-! ### Steps and runs -/

namespace Engine

variable {vm vm' : Engine}

theorem isBranchExecuting_of_nil (h : vm.condStack = []) : vm.isBranchExecuting = true := by
  rw [isBranchExecuting, h]
  rfl

/-- The engine at the end of a script. -/
def atEnd (vm : Engine) : Engine :=
  { vm with astack := vm.astack.setItems [], numOps := 0, scriptOff := 0 }

/-- A run goes through its first step. -/
theorem executeLoop_succ_eq_ok_iff {rounds : Nat} : executeLoop crypto (rounds + 1) vm = .ok vm' ↔
      step crypto vm = .ok (true, vm') ∨
        ∃ next, step crypto vm = .ok (false, next) ∧ executeLoop crypto rounds next = .ok vm' := by
  refine bind_eq_ok.trans ?_
  constructor
  · rintro ⟨⟨done, next⟩, hs, h⟩
    cases done with
    | true =>
      obtain rfl : next = vm' := pure_eq_ok.1 h
      exact .inl hs
    | false => exact .inr ⟨next, hs, h⟩
  · rintro (hs | ⟨next, hs, h⟩)
    · exact ⟨(true, vm'), hs, rfl⟩
    · exact ⟨(false, next), hs, h⟩

end Engine

/-! ### Scripts that start at the output -/

theorem isScriptHash_pair (pop pop' : ParsedOpcode) : isScriptHash [pop, pop'] = false := by
  rw [Bool.eq_false_iff]
  intro h
  exact absurd (congrArg List.length (beq_iff_eq.1 h)) (show 2 ≠ 3 by decide)

theorem runScript_eq_success_iff {pkScript : List UInt8} :
    runScript crypto pkScript tx idx flags amount = .success ↔
      ∃ vm, newEngine pkScript tx idx flags amount = .ok vm ∧
        Engine.execute crypto vm = .ok () := by
  rw [runScript]
  cases newEngine pkScript tx idx flags amount with
  | error e => exact ⟨fun h => (by cases h), fun ⟨_, h, _⟩ => (by cases h)⟩
  | ok vm =>
    simp only [Except.ok.injEq, exists_eq_left']
    cases Engine.execute crypto vm with
    | error e => exact ⟨fun h => (by cases h), fun h => (by cases h)⟩
    | ok u => exact ⟨fun _ => rfl, fun _ => rfl⟩

/-! ### Lock times -/

/-- A script that pushes a number and checks it as a lock time. -/
def lockScript (lock : List UInt8) : List UInt8 :=
  UInt8.ofNat lock.length :: lock ++ [Opcode.checkLockTimeVerify]

/-- How a run with an item on top of the stack ends. -/
theorem checkErrorCondition_eq_ok_iff {vm : Engine} {item : List UInt8}
    {stk : List (List UInt8)} {minimal : Bool} (hdo : vm.scripts.length ≤ vm.scriptIdx)
    (hp : vm.witnessProgram = none) (hs : vm.dstack = ⟨item :: stk, minimal⟩)
    (hc : vm.hasFlag scriptVerifyCleanStack = false) :
    (∃ vm', vm.checkErrorCondition true = .ok vm') ↔ asBool item = true := by
  have hv : vm.isWitnessVersionActive 0 = false := by
    rw [Engine.isWitnessVersionActive, hp]
    rfl
  have hd : 1 ≤ vm.dstack.depth := by
    rw [hs]
    exact Nat.succ_le_succ (Nat.zero_le _)
  have hpo : vm.dstack.popBool = .ok (asBool item, ⟨stk, minimal⟩) := by
    rw [hs]
    rfl
  simp only [Engine.checkErrorCondition, hv, hc, hpo, hdo, hd,
    bind_eq_ok, requireScript_eq_ok, pure_eq_ok, Except.ok.injEq, exists_eq_left',
    exists_const, Bool.false_eq_true, false_implies, implies_true, true_and, exists_and_left,
    exists_eq', and_true]

/-! ### Witness programs -/

/-- An output that pays to a witness program of version zero. -/
def witnessProgramScript (program : List UInt8) : List UInt8 :=
  Opcode.op0 :: UInt8.ofNat program.length :: program

end DrcNode
