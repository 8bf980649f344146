import DrcNode.Script.Locked
import DrcNode.Script.Weaken

/-!
# Policy implies consensus

The memory pool runs scripts with `StandardVerifyFlags`, a block runs them with fewer flags. The
weakened engine (`Engine.weaken`) follows the engine step by step, but without `ScriptBip16` it has
nothing to run after the output script, and without `ScriptVerifyWitness` nothing after the script
that names the witness program. There it ends, and is content with the item on top of its stack. In
the first case the engine has just checked that item. In the second it is the program itself, and
programs that read as false have to be excluded.
-/

namespace DrcNode

open Checked List Option Engine Opcode

/-! ### Opcodes that push data -/

/-- The opcodes from `OP_DATA_1` to `OP_PUSHDATA4`. -/
structure ParsedOpcode.PushesData (pop : ParsedOpcode) : Prop where
  ne_zero : pop.value ≠ 0x00
  le : pop.value ≤ pushData4

theorem pushesData_of_parseOpcode {value : UInt8} {rest rest' : List UInt8} {pop : ParsedOpcode}
    (h : parseOpcode value rest = some (pop, rest')) (hd : pop.data ≠ []) : pop.PushesData := by
  rw [parseOpcode] at h
  split_ifs at h
  obtain ⟨rfl, -⟩ := Prod.mk.inj (some.inj h)
  have hl : dataLength value rest ≠ 0 := by
    intro hz
    exact hd (by rw [hz, take_zero])
  refine ⟨fun hv => hl ?_, UInt8.not_lt.1 fun hv => hl ?_⟩
  · change value = 0x00 at hv
    subst hv
    rfl
  · change pushData4 < value at hv
    have hlt : 78 < value.toNat := UInt8.lt_iff_toNat_lt.1 hv
    have hne : ∀ value' : UInt8, value'.toNat ≤ 78 → value ≠ value' := by
      rintro value' hle rfl
      omega
    rw [dataLength, lengthBytes, if_neg (hne _ (by decide)), if_neg (hne _ (by decide)),
      if_neg (hne _ (by decide)), if_pos rfl, if_neg (by omega)]

theorem pushesData_of_mem_parseScript {script : List UInt8} {pop : ParsedOpcode}
    (hm : pop ∈ (parseScript script).1) (hd : pop.data ≠ []) : pop.PushesData := by
  rw [parseScript] at hm
  -- the loop takes one opcode in every round
  generalize script.length = rounds at hm
  induction rounds generalizing script with
  | zero => cases hm
  | succ rounds ih =>
    cases script with
    | nil => cases hm
    | cons value rest =>
      rw [parseScriptLoop] at hm
      split at hm
      · cases hm
      · rename_i popRest hp
        obtain rfl | hm := mem_cons.1 hm
        · exact pushesData_of_parseOpcode hp hd
        · exact ih hm

namespace Engine

variable {crypto : Crypto} {order : Nat} {flags : UInt32} {vm vm' next last : Engine}
  {pop : ParsedOpcode} {pops : List ParsedOpcode} {done : Bool}

theorem head_dstack_of_pushesData (hp : pop.PushesData)
    (h : executeOpcode crypto vm pop = .ok vm') (hco : vm'.condStack = []) :
    vm'.dstack.stk.head? = some pop.data := by
  obtain ⟨-, -, h⟩ := bind_eq_ok.1 h
  obtain ⟨-, -, h⟩ := bind_eq_ok.1 h
  obtain ⟨vm₁, -, h⟩ := bind_eq_ok.1 h
  by_cases he : vm₁.isBranchExecuting = true
  · rw [he, Bool.not_true] at h
    obtain ⟨-, -, h⟩ := bind_eq_ok.1 h
    rw [opfunc, if_neg hp.ne_zero, if_pos hp.le] at h
    obtain ⟨s, hs, h⟩ := bind_eq_ok.1 h
    obtain rfl := pure_eq_ok.1 hs
    obtain rfl := pure_eq_ok.1 h
    rfl
  · -- a skipped push leaves a condition
    have hc : isConditional pop.value = false := by
      have hne : ∀ value : UInt8, 78 < value.toNat → (pop.value == value) = false := by
        intro value hv
        have hle : pop.value.toNat ≤ 78 := UInt8.le_iff_toNat_le.1 hp.le
        rw [beq_eq_false_iff_ne]
        rintro rfl
        omega
      rw [isConditional, hne _ (by decide), hne _ (by decide), hne _ (by decide), hne _ (by decide)]
      rfl
    rw [Bool.not_eq_true] at he
    rw [he, hc] at h
    obtain rfl := pure_eq_ok.1 h
    rw [isBranchExecuting_of_nil hco] at he
    cases he

/-! ### One step -/

theorem step_eq_ok_iff : step crypto vm = .ok (done, vm') ↔
    ∃ pop, (vm.scripts[vm.scriptIdx]?).bind (·[vm.scriptOff]?) = some pop ∧
      ∃ vm₁, executeOpcode crypto { vm with scriptOff := vm.scriptOff + 1 } pop = .ok vm₁ ∧
        vm₁.dstack.depth + vm₁.astack.depth ≤ maxStackSize ∧
        ((vm₁.scriptOff < ((vm₁.scripts[vm₁.scriptIdx]?).getD []).length ∧
            done = false ∧ vm' = vm₁) ∨
          (¬vm₁.scriptOff < ((vm₁.scripts[vm₁.scriptIdx]?).getD []).length ∧
            vm₁.condStack = [] ∧ ∃ next, nextScript crypto vm₁.atEnd = .ok next ∧
              vm' = { skipEmpty next with lastCodeSep := 0 } ∧
              done = decide (vm'.scripts.length ≤ vm'.scriptIdx))) := by
  rw [step, stepBy]
  cases (vm.scripts[vm.scriptIdx]?).bind (·[vm.scriptOff]?) with
  | none =>
    refine iff_of_false (fun h => (by cases h)) ?_
    rintro ⟨_, h, -⟩
    cases h
  | some pop =>
    simp only [liftM_scriptCheck, bind_eq_ok, some.injEq, exists_eq_left', requireScript_eq_ok,
      exists_const]
    refine exists_congr fun vm₁ => and_congr_right fun _ => and_congr_right fun _ => ?_
    split_ifs with ho
    · simp only [ho, pure_eq_ok, Prod.mk.injEq, true_and, not_true_eq_false, false_and, or_false]
      exact and_congr eq_comm eq_comm
    simp only [ho, bind_eq_ok, requireScript_eq_ok, pure_eq_ok, Prod.mk.injEq,
      exists_const, false_and, false_or, not_false_eq_true, true_and]
    refine and_congr_right fun _ => exists_congr fun next => and_congr_right fun _ => ?_
    constructor
    · rintro ⟨rfl, rfl⟩
      exact ⟨rfl, rfl⟩
    · rintro ⟨rfl, rfl⟩
      exact ⟨rfl, rfl⟩

/-! ### The end of a script -/

theorem witnessProgram_weaken : (vm.weaken flags).witnessProgram =
    if DrcNode.hasFlag flags scriptVerifyWitness then vm.witnessProgram else none := rfl

theorem bip16_weaken :
    (vm.weaken flags).bip16 = (vm.bip16 && DrcNode.hasFlag flags scriptBip16) := rfl

theorem isSome_witnessProgram_of_weaken (h : (vm.weaken flags).witnessProgram.isSome = true) :
    DrcNode.hasFlag flags scriptVerifyWitness = true ∧ vm.witnessProgram.isSome = true := by
  rw [witnessProgram_weaken] at h
  split_ifs at h with hf
  · exact ⟨hf, h⟩
  · cases h

theorem isWitnessVersionActive_of_weaken {version : Nat}
    (h : (vm.weaken flags).isWitnessVersionActive version = true) :
    vm.isWitnessVersionActive version = true := by
  obtain ⟨hf, -⟩ := isSome_witnessProgram_of_weaken (Bool.and_eq_true_iff.1 h).1
  rwa [isWitnessVersionActive_weaken (.inl hf)] at h

theorem relaxes_checkErrorCondition (hfl : ConsensusFlags flags) (finalScript : Bool) :
    Relaxes (weaken flags) (vm.checkErrorCondition finalScript)
      ((vm.weaken flags).checkErrorCondition finalScript) := by
  refine .bind_id .refl fun _ _ => ?_
  refine .bind_id (relaxes_requireScript fun h hf ha =>
    h hf (isWitnessVersionActive_of_weaken ha)) fun _ _ => ?_
  refine .bind_id (relaxes_requireScript fun _ _ hc => ?_) fun _ _ => ?_
  · rw [hasFlag, weaken, hfl.cleanStack] at hc
    cases hc
  refine .bind_id .refl fun _ _ => ?_
  refine Stack.relaxes_popBool.bind_state fun v s => ?_
  exact Relaxes.bind_id Relaxes.refl fun _ _ => Relaxes.pure

theorem exists_of_checkErrorCondition {finalScript : Bool}
    (h : vm.checkErrorCondition finalScript = .ok vm') :
    ∃ item stk, vm.dstack.stk = item :: stk ∧ asBool item = true ∧
      vm' = { vm with dstack := { vm.dstack with stk } } := by
  obtain ⟨-, -, h⟩ := bind_eq_ok.1 h
  obtain ⟨-, -, h⟩ := bind_eq_ok.1 h
  obtain ⟨-, -, h⟩ := bind_eq_ok.1 h
  obtain ⟨-, -, h⟩ := bind_eq_ok.1 h
  obtain ⟨⟨v, dstack⟩, hp, h⟩ := bind_eq_ok.1 h
  obtain ⟨_, hv, h⟩ := bind_eq_ok.1 h
  obtain rfl := pure_eq_ok.1 h
  cases hs : vm.dstack with
  | mk stk minimal =>
    rw [hs] at hp
    cases stk with
    | nil => cases hp
    | cons item stk =>
      obtain ⟨hi, rfl⟩ := Prod.mk.inj (Except.ok.inj hp)
      exact ⟨item, stk, rfl, hi.trans (requireScript_eq_ok.1 hv), rfl⟩

theorem relaxes_verifyWitnessProgram (hs : vm.flags = standardVerifyFlags)
    (hw : vm.SameWitness flags) (witness : List (List UInt8)) :
    Relaxes (weaken flags) (verifyWitnessProgram crypto vm witness)
      (verifyWitnessProgram crypto (vm.weaken flags) witness) := by
  rw [verifyWitnessProgram, verifyWitnessProgram, isWitnessVersionActive_weaken hw]
  refine .ite .rfl (fun ha => ?_) fun _ => ?_
  · have hp : (vm.weaken flags).witnessProgram.getD [] = vm.witnessProgram.getD [] := by
      obtain hf | hn := hw
      · rw [witnessProgram_weaken, if_pos hf]
      · rw [isWitnessVersionActive, hn] at ha
        cases ha
    rw [hp]
    refine .bind_id .refl fun script _ => ?_
    exact .bind_id .refl fun _ _ => .pure
  · intro vm' hok
    obtain ⟨_, hd, -⟩ := bind_eq_ok.1 hok
    rw [hasFlag_of_standard hs (by decide)] at hd
    cases hd

/-- Without pay-to-script-hash and a witness program there is nothing to do at the end of a script.
-/
theorem nextScript_of_plain (hb16 : vm.scriptIdx ≤ 1 → vm.bip16 = false)
    (hp : vm.scriptIdx = 0 ∨ vm.witnessProgram = none) :
    nextScript crypto vm = .ok { vm with scriptIdx := vm.scriptIdx + 1 } := by
  have hw : ¬(vm.scriptIdx ≠ 0 ∧ vm.witnessProgram.isSome = true) := by
    rintro ⟨hi, hs⟩
    rw [hp.resolve_left hi] at hs
    cases hs
  rw [nextScript, if_neg, if_neg, if_neg]
  · rfl
  · rintro (⟨hi, hs⟩ | ⟨hi, hs, -⟩)
    · exact hw ⟨by omega, hs⟩
    · exact hw ⟨by omega, hs⟩
  · rintro ⟨hi, ht⟩
    exact Bool.false_ne_true ((hb16 hi.le).symm.trans ht)
  · rintro ⟨hi, ht⟩
    exact Bool.false_ne_true ((hb16 (by omega)).symm.trans ht)

theorem bip16_eq_false (hf : ¬(vm.scriptIdx = 0 ∧ vm.bip16 = true))
    (hs : ¬(vm.scriptIdx = 1 ∧ vm.bip16 = true)) (hid : vm.scriptIdx ≤ 1) : vm.bip16 = false := by
  rw [Bool.eq_false_iff]
  intro ht
  obtain hz | ho := Nat.le_one_iff_eq_zero_or_eq_one.1 hid
  · exact hf ⟨hz, ht⟩
  · exact hs ⟨ho, ht⟩

/-- The weakened engine finds the next script as the engine does, where the missing flags do not
matter. -/
theorem relaxes_nextScript (hfl : ConsensusFlags flags) (hst : vm.flags = standardVerifyFlags)
    (hw : vm.SameWitness flags ∨ (vm.scriptIdx ≤ 1 ∧ vm.bip16 = true))
    (hb16 : vm.scriptIdx = 1 → vm.bip16 = true → DrcNode.hasFlag flags scriptBip16 = true) :
    Relaxes (weaken flags) (nextScript crypto vm) (nextScript crypto (vm.weaken flags)) := by
  have hbip16_of : (vm.weaken flags).bip16 = true → vm.bip16 = true :=
    fun h => (Bool.and_eq_true_iff.1 h).1
  by_cases hfi : vm.scriptIdx = 0 ∧ vm.bip16 = true
  · -- the signature script of a pay-to-script-hash input
    rw [nextScript, if_pos hfi]
    intro vm' hok
    obtain rfl := pure_eq_ok.1 hok
    by_cases hf : DrcNode.hasFlag flags scriptBip16 = true
    · rw [nextScript, if_pos ⟨hfi.1, by rw [bip16_weaken, hfi.2, hf]; rfl⟩]
      simp only [weaken, hf]
      rfl
    have hno : (vm.weaken flags).bip16 = false := by
      rw [bip16_weaken, Bool.eq_false_iff.2 hf, Bool.and_false]
    have hp : nextScript crypto (vm.weaken flags) =
        .ok { vm.weaken flags with scriptIdx := vm.scriptIdx + 1 } :=
      nextScript_of_plain (fun _ => hno) (.inl hfi.1)
    rw [hp]
    simp [weaken, if_neg hf]
  have hi : (vm.weaken flags).scriptIdx = vm.scriptIdx := rfl
  rw [nextScript, nextScript, hi, if_neg hfi, if_neg (mt (And.imp_right hbip16_of) hfi)]
  by_cases hs : vm.scriptIdx = 1 ∧ vm.bip16 = true
  · -- its output script
    have hf := hb16 hs.1 hs.2
    rw [if_pos hs, if_pos ⟨hs.1, by rw [bip16_weaken, hs.2, hf]; rfl⟩]
    refine (relaxes_checkErrorCondition hfl false).bind fun vm' _ => ?_
    have hsa : (vm'.weaken flags).savedFirstStack = vm'.savedFirstStack := if_pos hf
    rw [hsa]
    cases vm'.savedFirstStack.getLast? with
    | none => exact .error
    | some script =>
      refine .bind_id .refl fun pops _ => ?_
      intro vm'' hok
      obtain rfl := pure_eq_ok.1 hok
      simp only [weaken, hf]
      rfl
  rw [if_neg hs, if_neg (mt (And.imp_right hbip16_of) hs)]
  have hw : vm.SameWitness flags := by
    refine hw.resolve_right fun h => Bool.false_ne_true ?_
    exact (bip16_eq_false hfi hs h.1).symm.trans h.2
  refine .ite ?_ (fun _ => ?_) fun _ => .pure
  · -- a witness program is due for both or for none
    obtain hf | hn := hw
    · rw [witnessProgram_weaken, if_pos hf, bip16_weaken, hfl.bip16 hf, Bool.and_true]
    · rw [witnessProgram_weaken, hn]
      simp
  · exact .bind_id .refl fun txIn _ =>
      @relaxes_verifyWitnessProgram crypto flags { vm with scriptIdx := vm.scriptIdx + 1 } hst
        hw txIn.witness

theorem skipEmpty_weaken : skipEmpty (vm.weaken flags) = (skipEmpty vm).weaken flags := by
  have hs : (vm.weaken flags).scripts[(vm.weaken flags).scriptIdx]? =
      vm.scripts[vm.scriptIdx]? := rfl
  rw [skipEmpty, skipEmpty, hs]
  split
  · rfl
  · rfl

theorem nextScript_cases (h : nextScript crypto vm = .ok next) :
    (vm.scriptIdx = 0 ∧ vm.bip16 = true ∧
      next = { vm with scriptIdx := vm.scriptIdx + 1, savedFirstStack := vm.dstack.items }) ∨
    (vm.scriptIdx = 1 ∧ vm.bip16 = true ∧ ∃ item script pops dstack,
      vm.dstack.stk.head? = some item ∧ asBool item = true ∧
      vm.savedFirstStack.getLast? = some script ∧ parse script = .ok pops ∧
      next = { vm with
        scriptIdx := vm.scriptIdx + 1
        scripts := vm.scripts ++ [pops]
        dstack }) ∨
    (vm.scriptIdx ≠ 0 ∧ (vm.scriptIdx ≤ 1 → vm.bip16 = false) ∧ ∃ scripts dstack witnessProgram,
        (witnessProgram = vm.witnessProgram ∨ witnessProgram = none) ∧
        next = { vm with scriptIdx := vm.scriptIdx + 1, scripts, dstack, witnessProgram }) ∨
    ((vm.scriptIdx ≤ 1 → vm.bip16 = false) ∧
      next = { vm with scriptIdx := vm.scriptIdx + 1 }) := by
  rw [nextScript] at h
  split_ifs at h with hf hs hw
  · obtain rfl := pure_eq_ok.1 h
    exact .inl ⟨hf.1, hf.2, rfl⟩
  · obtain ⟨vm', hc, h⟩ := bind_eq_ok.1 h
    obtain ⟨item, stk, hst, hi, rfl⟩ := exists_of_checkErrorCondition hc
    cases hl : vm.savedFirstStack.getLast? with
    | none =>
      simp only [hl] at h
      cases h
    | some script =>
      simp only [hl] at h
      obtain ⟨pops, hpo, h⟩ := bind_eq_ok.1 h
      obtain rfl := pure_eq_ok.1 h
      have hh : vm.dstack.stk.head? = some item := by
        rw [show vm.dstack.stk = item :: stk from hst, head?_cons]
      exact .inr (.inl ⟨hs.1, hs.2, item, script, pops, _, hh, hi, rfl, hpo, rfl⟩)
  · obtain ⟨txIn, -, h⟩ := bind_eq_ok.1 h
    have hid : vm.scriptIdx ≠ 0 := by omega
    refine .inr (.inr (.inl ⟨hid, bip16_eq_false hf hs, ?_⟩))
    rw [verifyWitnessProgram] at h
    split_ifs at h
    · obtain ⟨script, -, h⟩ := bind_eq_ok.1 h
      obtain ⟨-, -, h⟩ := bind_eq_ok.1 h
      obtain rfl := pure_eq_ok.1 h
      exact ⟨_, _, _, .inl rfl, rfl⟩
    · obtain ⟨-, -, h⟩ := bind_eq_ok.1 h
      obtain rfl := pure_eq_ok.1 h
      exact ⟨_, _, _, .inr rfl, rfl⟩
  · obtain rfl := pure_eq_ok.1 h
    exact .inr (.inr (.inr ⟨bip16_eq_false hf hs, rfl⟩))

/-! ### Before the witness program -/

/-- A script that leaves an item on the stack that reads as true, without reading the witness
version. -/
structure LeavesTrue (pops : List ParsedOpcode) : Prop where
  insensitive : ∀ pop ∈ pops, Insensitive pop.value
  last : ∃ pop, pops.getLast? = some pop ∧ pop.PushesData ∧ asBool pop.data = true

theorem LeavesTrue.ne_nil (h : LeavesTrue pops) : pops ≠ [] := by
  rintro rfl
  obtain ⟨pop, hl, -⟩ := h.last
  cases hl

/-- The engine has yet to reach the end of the script that names its witness program. -/
inductive BeforeProgram (vm : Engine) : Prop
  | signature (sigPops pkPops redeem : List ParsedOpcode) (pop : ParsedOpcode)
      (hidx : vm.scriptIdx = 0) (hbip16 : vm.bip16 = true) (hscripts : vm.scripts = [sigPops,
        pkPops]) (hsig : ∀ pop ∈ sigPops, Insensitive pop.value)
      (hpk : ∀ pop ∈ pkPops, Insensitive pop.value) (hnil : pkPops ≠ [])
      (hlast : sigPops.getLast? = some pop) (hpush : pop.PushesData)
      (hparse : parse pop.data = .ok redeem) (hredeem : LeavesTrue redeem)
  | hash (sigPops pkPops redeem : List ParsedOpcode) (script : List UInt8)
      (hidx : vm.scriptIdx = 1) (hbip16 : vm.bip16 = true) (hscripts : vm.scripts = [sigPops,
        pkPops]) (hpk : ∀ pop ∈ pkPops, Insensitive pop.value) (hnil : pkPops ≠ [])
      (hsaved : vm.savedFirstStack.getLast? = some script)
      (hparse : parse script = .ok redeem) (hredeem : LeavesTrue redeem)
  | program (pops : List ParsedOpcode) (hidx : vm.scriptIdx ≠ 0)
      (hbip16 : vm.scriptIdx = 1 → vm.bip16 = false)
      (hscript : vm.scripts[vm.scriptIdx]? = some pops)
      (hlength : vm.scripts.length = vm.scriptIdx + 1) (hpops : LeavesTrue pops)

namespace BeforeProgram

section

variable (h : vm.BeforeProgram)
include h

theorem exists_script :
    ∃ pops, vm.scripts[vm.scriptIdx]? = some pops ∧ pops ≠ [] ∧
      ∀ pop ∈ pops, Insensitive pop.value := by
  cases h with
  | signature sigPops pkPops redeem pop hi hb16 hs hsi hpk hn hl =>
    refine ⟨sigPops, by rw [hs, hi]; rfl, ?_, hsi⟩
    rintro rfl
    cases hl
  | hash sigPops pkPops redeem script hi hb16 hs hpk hn =>
    exact ⟨pkPops, by rw [hs, hi]; rfl, hn, hpk⟩
  | program pops hi hb16 hsc hlh hp =>
    exact ⟨pops, hsc, hp.ne_nil, hp.insensitive⟩

theorem insensitive (hpo : (vm.scripts[vm.scriptIdx]?).bind (·[vm.scriptOff]?) = some pop) :
    Insensitive pop.value := by
  obtain ⟨pops, hp, -, hi⟩ := h.exists_script
  rw [hp] at hpo
  exact hi pop (mem_of_getElem? hpo)

theorem skipEmpty_eq : skipEmpty vm = vm := by
  obtain ⟨pops, hp, hn, -⟩ := h.exists_script
  rw [skipEmpty, hp]
  cases pops with
  | nil => exact absurd rfl hn
  | cons pop pops => rfl

theorem moved (scriptOff lastCodeSep numOps : Nat) (dstack astack : Stack)
    (condStack : List OpCond) :
    BeforeProgram { vm with scriptOff, lastCodeSep, numOps, dstack, astack, condStack } := by
  cases h with
  | signature sigPops pkPops redeem pop hi hb16 hs hsi hpk hn hla hpu hp
      hr =>
    exact .signature sigPops pkPops redeem pop hi hb16 hs hsi hpk hn hla hpu hp hr
  | hash sigPops pkPops redeem script hi hb16 hs hpk hn hsa hp hr =>
    exact .hash sigPops pkPops redeem script hi hb16 hs hpk hn hsa hp hr
  | program pops hi hb16 hsc hl hpo =>
    exact .program pops hi hb16 hsc hl hpo

end

end BeforeProgram

/-! ### Following the engine -/

/-- What holds of the engine at every step, so that the weakened one can follow. -/
structure Tracked (flags : UInt32) (vm : Engine) : Prop where
  standard : vm.flags = standardVerifyFlags
  length_scripts : vm.scriptIdx ≤ 1 → vm.scripts.length = 2
  witness : vm.SameWitness flags ∨
    (DrcNode.hasFlag flags scriptVerifyWitness = false ∧ vm.BeforeProgram)

/-- The scripts end here, and the result is accepted. -/
def Finishes (crypto : Crypto) (vm : Engine) : Prop :=
  ∃ next last, nextScript crypto vm = .ok next ∧ next.scripts.length ≤ next.scriptIdx ∧
    checkErrorCondition { next with lastCodeSep := 0 } true = .ok last

/-- The weakened engine ends at the last script it knows of when an item that reads as true is on
top of the stack. -/
theorem finishes_weaken (hf : ConsensusFlags flags)
    (hw : DrcNode.hasFlag flags scriptVerifyWitness = false)
    (hb16 : vm.scriptIdx ≤ 1 → (vm.weaken flags).bip16 = false)
    (hl : vm.scripts.length = vm.scriptIdx + 1) {item : List UInt8}
    (hh : vm.dstack.stk.head? = some item) (hi : asBool item = true) :
    Finishes crypto (vm.weaken flags) := by
  have hp : (vm.weaken flags).witnessProgram = none := by
    rw [witnessProgram_weaken, if_neg (Bool.eq_false_iff.1 hw)]
  have hn : nextScript crypto (vm.weaken flags) =
      .ok { vm.weaken flags with scriptIdx := vm.scriptIdx + 1 } :=
    nextScript_of_plain hb16 (.inr hp)
  obtain ⟨stk, hs⟩ : ∃ stk, vm.dstack.stk = item :: stk := head?_eq_some_iff.1 hh
  have hd : (vm.weaken flags).dstack =
      ⟨item :: stk, (vm.weaken flags).dstack.verifyMinimalData⟩ := by
    rw [← hs]
    rfl
  obtain ⟨last, hla⟩ := (@checkErrorCondition_eq_ok_iff
    { vm.weaken flags with scriptIdx := vm.scriptIdx + 1, lastCodeSep := 0 } item stk _ hl.le
    hp hd hf.cleanStack).2 hi
  exact ⟨_, last, hn, hl.le, hla⟩

namespace Tracked

theorem moved (h : Tracked flags vm) (scriptOff lastCodeSep numOps : Nat) (dstack astack : Stack)
    (condStack : List OpCond) :
    Tracked flags { vm with scriptOff, lastCodeSep, numOps, dstack, astack, condStack } :=
  ⟨h.standard, h.length_scripts, h.witness.imp_right fun h =>
    ⟨h.1, h.2.moved scriptOff lastCodeSep numOps dstack astack condStack⟩⟩

theorem skipEmpty (h : Tracked flags vm) : Tracked flags (skipEmpty vm) := by
  obtain hs | ⟨-, hb⟩ := id h.witness
  · rw [Engine.skipEmpty]
    split
    · refine ⟨h.standard, fun hi => h.length_scripts ?_, .inl hs⟩
      exact (Nat.le_succ _).trans hi
    · exact h
  · rw [hb.skipEmpty_eq]
    exact h

theorem nextScript_of_same (h : Tracked flags vm) (hs : vm.SameWitness flags)
    (hn : nextScript crypto vm = .ok next) : Tracked flags next := by
  obtain ⟨hi, -, rfl⟩ | ⟨hi, -, item, script, pops, dstack, -, -, -, -, rfl⟩ |
    ⟨hi, -, scripts, dstack, witnessProgram, hp, rfl⟩ | ⟨-, rfl⟩ := nextScript_cases hn
  · exact ⟨h.standard, fun _ => h.length_scripts (by omega), .inl hs⟩
  · exact ⟨h.standard, fun hle => absurd hle (by simp only [hi]; omega), .inl hs⟩
  · refine ⟨h.standard, fun hle => absurd hle (by simp only; omega), .inl ?_⟩
    obtain rfl | rfl := hp
    · exact hs
    · exact hs.imp_right fun _ => rfl
  · exact ⟨h.standard, fun hle => h.length_scripts (by simp only at hle; omega), .inl hs⟩

/-- **The end of a script.** The weakened engine goes on to the same script, or it ends here. -/
theorem nextScript (hf : ConsensusFlags flags) (h : Tracked flags vm)
    (hl : ∀ pops pop, vm.scripts[vm.scriptIdx]? = some pops → pops.getLast? = some pop →
      pop.PushesData → vm.dstack.stk.head? = some pop.data) (hn : nextScript crypto vm = .ok next) :
    (nextScript crypto (vm.weaken flags) = .ok (next.weaken flags) ∧ Tracked flags next) ∨
      Finishes crypto (vm.weaken flags) := by
  by_cases hc : vm.scriptIdx = 1 ∧ vm.bip16 = true ∧ DrcNode.hasFlag flags scriptBip16 = false
  · -- the weakened engine does not know pay-to-script-hash, and ends at the output script
    obtain ⟨hid, hbi16, hfl⟩ := hc
    have hw : DrcNode.hasFlag flags scriptVerifyWitness = false := by
      rw [Bool.eq_false_iff]
      intro hw
      exact Bool.false_ne_true (hfl.symm.trans (hf.bip16 hw))
    obtain ⟨hz, -⟩ | ⟨-, -, item, -, -, -, hh, hi, -⟩ | ⟨-, hp, -⟩ | ⟨hp, -⟩ := nextScript_cases hn
    · omega
    · refine .inr (finishes_weaken hf hw (fun _ => ?_) ?_ hh hi)
      · rw [bip16_weaken, hfl, Bool.and_false]
      · rw [h.length_scripts hid.le, hid]
    · cases hbi16.symm.trans (hp hid.le)
    · cases hbi16.symm.trans (hp hid.le)
  have hbi16 : vm.scriptIdx = 1 → vm.bip16 = true → DrcNode.hasFlag flags scriptBip16 = true := by
    intro hid hbi16
    rw [← Bool.not_eq_false]
    exact fun hfl => hc ⟨hid, hbi16, hfl⟩
  obtain hse | ⟨hw, hb⟩ := id h.witness
  · exact .inl ⟨relaxes_nextScript hf h.standard (.inl hse) hbi16 next hn,
      h.nextScript_of_same hse hn⟩
  cases hb with
  | signature sigPops pkPops redeem pop hid ht hs hsi hpk hni hsl hpu hpa
      hr =>
    refine .inl ⟨relaxes_nextScript hf h.standard (.inr ⟨by omega, ht⟩) hbi16 next hn, ?_⟩
    have hh : vm.dstack.stk.head? = some pop.data := hl sigPops pop (by rw [hs, hid]; rfl) hsl hpu
    rw [Engine.nextScript, if_pos ⟨hid, ht⟩] at hn
    obtain rfl := pure_eq_ok.1 hn
    refine ⟨h.standard, fun _ => h.length_scripts (by omega), .inr ⟨hw, ?_⟩⟩
    refine .hash sigPops pkPops redeem pop.data ?_ ht hs hpk hni ?_ hpa hr
    · simp [hid]
    · simp [Stack.items, getLast?_reverse, hh]
  | hash sigPops pkPops redeem script hid ht hs hpk hni hsa hpa hr =>
    refine .inl ⟨relaxes_nextScript hf h.standard (.inr ⟨by omega, ht⟩) hbi16 next hn, ?_⟩
    obtain ⟨hz, -⟩ | ⟨-, -, item, script', pops, dstack, -, -, hsa', hpa', rfl⟩ |
      ⟨-, hp, -⟩ | ⟨hp, -⟩ := nextScript_cases hn
    · omega
    · cases hsa.symm.trans hsa'
      cases hpa.symm.trans hpa'
      refine ⟨h.standard, fun hle => absurd hle (by simp only; omega), .inr ⟨hw, ?_⟩⟩
      refine .program redeem (Nat.succ_ne_zero _) (fun ho => ?_) ?_ ?_ hr
      · simp only at ho
        omega
      · simp only [hs, hid]
        rfl
      · simp only [hs, hid]
        rfl
    · cases ht.symm.trans (hp hid.le)
    · cases ht.symm.trans (hp hid.le)
  | program pops hid hfa hsc hlh hpo =>
    -- the weakened engine has nothing to run after the script that names the program
    obtain ⟨pop, hpp, hpu, ht⟩ := hpo.last
    refine .inr (finishes_weaken hf hw (fun hle => ?_) hlh (hl pops pop hsc hpp hpu) ht)
    rw [bip16_weaken, hfa (by omega), Bool.false_and]

section

variable (hcr : crypto.ParsesSignatures order) (hf : ConsensusFlags flags)
include hcr hf

/-- **One step.** The weakened engine does the same step, or it ends and its result is accepted. -/
theorem step (h : Tracked flags vm) (hst : step crypto vm = .ok (done, vm')) :
    (step crypto (vm.weaken flags) = .ok (done, vm'.weaken flags) ∧ Tracked flags vm') ∨
      ∃ last last', step crypto (vm.weaken flags) = .ok (true, last) ∧
        last.checkErrorCondition true = .ok last' := by
  obtain ⟨pop, hpo, vm₁, he, hd, hca⟩ := step_eq_ok_iff.1 hst
  have hw : Weakens flags { vm with scriptOff := vm.scriptOff + 1 } _ _ :=
    weakens_executeOpcode hcr hf h.standard (h.witness.imp_right fun h => h.2.insensitive hpo)
  have he' := hw.relaxes vm₁ he
  obtain ⟨dstack, astack, condStack, numOps, lastCodeSep, hvm₁⟩ := hw.same vm₁ he
  have ht : Tracked flags vm₁ := by
    rw [hvm₁]
    exact h.moved _ _ _ _ _ _
  obtain ⟨ho, rfl, rfl⟩ | ⟨ho, hc, next, hn, rfl, rfl⟩ := hca
  · exact .inl ⟨step_eq_ok_iff.2 ⟨pop, hpo, _, he', hd, .inl ⟨ho, rfl, rfl⟩⟩, ht⟩
  have hla : ∀ pops pop', vm₁.atEnd.scripts[vm₁.atEnd.scriptIdx]? = some pops →
      pops.getLast? = some pop' → pop'.PushesData →
      vm₁.atEnd.dstack.stk.head? = some pop'.data := by
    intro pops pop' hp hpo' hpu
    have hp₁ : vm₁.scripts[vm₁.scriptIdx]? = some pops := hp
    have hp₀ : vm.scripts[vm.scriptIdx]? = some pops := by
      rw [← hp₁, hvm₁]
    have hs : vm₁.scriptOff = vm.scriptOff + 1 := by rw [hvm₁]
    rw [hp₁, getD_some, hs] at ho
    rw [hp₀, bind_some] at hpo
    obtain ⟨hlt, -⟩ := List.getElem?_eq_some_iff.1 hpo
    obtain rfl : pop' = pop := by
      rw [getLast?_eq_getElem?, show pops.length - 1 = vm.scriptOff by omega] at hpo'
      exact some.inj (hpo'.symm.trans hpo)
    have hh : vm₁.dstack.stk.head? = some pop'.data := head_dstack_of_pushesData hpu he hc
    exact hh
  have ha : Tracked flags vm₁.atEnd := ht.moved _ _ _ _ _ _
  obtain ⟨hn', ht'⟩ | ⟨next', last, hn', hl, hch⟩ := Tracked.nextScript hf ha hla hn
  · refine .inl ⟨step_eq_ok_iff.2 ⟨pop, hpo, _, he', hd, .inr ⟨ho, hc, _, hn', ?_,
      rfl⟩⟩, ht'.skipEmpty.moved _ _ _ _ _ _⟩
    rw [skipEmpty_weaken]
    rfl
  · refine .inr ⟨{ next' with lastCodeSep := 0 }, last, ?_, hch⟩
    refine step_eq_ok_iff.2 ⟨pop, hpo, _, he', hd, .inr ⟨ho, hc, next', hn', ?_, ?_⟩⟩
    · rw [Engine.skipEmpty, getElem?_eq_none hl]
    · exact (decide_eq_true hl).symm

/-- **Whole runs.** When the run of the engine ends and is accepted, so is that of the weakened
engine. -/
theorem executeLoop {rounds : Nat} (h : Tracked flags vm)
    (hr : executeLoop crypto rounds vm = .ok last) (hc : last.checkErrorCondition true = .ok vm') :
    ∃ last' vm'', executeLoop crypto rounds (vm.weaken flags) = .ok last' ∧
      last'.checkErrorCondition true = .ok vm'' := by
  induction rounds generalizing vm with
  | zero => cases hr
  | succ rounds ih =>
    obtain hs | ⟨next, hs, hr⟩ := executeLoop_succ_eq_ok_iff.1 hr
    · obtain ⟨hs', -⟩ | ⟨last', vm'', hs', hc'⟩ := h.step hcr hf hs
      · exact ⟨_, _, executeLoop_succ_eq_ok_iff.2 (.inl hs'),
          relaxes_checkErrorCondition hf true vm' hc⟩
      · exact ⟨last', vm'', executeLoop_succ_eq_ok_iff.2 (.inl hs'), hc'⟩
    · obtain ⟨hs', hn⟩ | ⟨last', vm'', hs', hc'⟩ := h.step hcr hf hs
      · obtain ⟨last', vm'', hr', hc'⟩ := ih hn hr
        exact ⟨last', vm'', executeLoop_succ_eq_ok_iff.2 (.inr ⟨_, hs', hr'⟩), hc'⟩
      · exact ⟨last', vm'', executeLoop_succ_eq_ok_iff.2 (.inl hs'), hc'⟩

theorem execute (h : Tracked flags vm) (hr : execute crypto vm = .ok ()) :
    execute crypto (vm.weaken flags) = .ok () := by
  obtain ⟨last, hl, hr⟩ := bind_eq_ok.1 hr
  obtain ⟨vm', hc, -⟩ := bind_eq_ok.1 hr
  obtain ⟨last', vm'', hl', hc'⟩ := h.executeLoop hcr hf hl hc
  -- the weakened engine has the same scripts, so its run has the same bound
  exact bind_eq_ok.2 ⟨last', hl', bind_eq_ok.2 ⟨vm'', hc', rfl⟩⟩

end

end Tracked

end Engine

/-! ### Creating the engine -/

variable {crypto : Crypto} {order : Nat} {flags : UInt32} {scriptPubKey script : List UInt8}
  {pkPops sigPops : List ParsedOpcode} {tx : MsgTx} {idx : Nat} {txIn : TxIn} {amount : Int64}
  {vm : Engine}

theorem ConsensusFlags.hasFlag_standard (hfl : ConsensusFlags flags) {flag : UInt32}
    (h : hasFlag flags flag = true) : hasFlag standardVerifyFlags flag = true := by
  have hf : flags &&& flag = flag := beq_iff_eq.1 h
  refine beq_iff_eq.2 ?_
  calc
    standardVerifyFlags &&& flag = flags &&& standardVerifyFlags &&& flag := by
      rw [UInt32.and_comm flags, UInt32.and_assoc, hf]
    _ = flag := by rw [hfl.sub, hf]

/-- The witness program of an input. -/
inductive NamesProgram (scriptPubKey : List UInt8) (txIn : TxIn) (program : List UInt8) : Prop
  | bare (version : Nat) (h : extractWitnessProgramInfo scriptPubKey = .ok (version, program))
  | nested (pop : ParsedOpcode) (version : Nat) (hhash : isPayToScriptHash scriptPubKey = true)
      (hsig : parseScript txIn.signatureScript = ([pop], true))
      (h : extractWitnessProgramInfo pop.data = .ok (version, program))

theorem parseScript_of_parse {pops : List ParsedOpcode} (h : parse script = .ok pops) :
    parseScript script = (pops, true) := by
  rw [parse] at h
  cases hp : parseScript script with
  | mk pops' ok =>
    simp only [hp] at h
    cases ok with
    | true => rw [Except.ok.inj h]
    | false => cases h

theorem insensitive_of_pushesData {pop : ParsedOpcode} (h : pop.PushesData) :
    Engine.Insensitive pop.value :=
  .inl (UInt8.le_trans h.le (by decide))

theorem isSmallInt_le {value : UInt8} (h : isSmallInt value = true) : value ≤ op16 := by
  rw [isSmallInt, Bool.or_eq_true, Bool.and_eq_true] at h
  obtain hz | ⟨-, hle⟩ := h
  · rw [beq_iff_eq.1 hz]
    decide
  · exact of_decide_eq_true hle

theorem leavesTrue_of_extract {version : Nat} {program : List UInt8}
    (h : extractWitnessProgramInfo script = .ok (version, program)) (ht : asBool program = true) :
    ∃ pops, parse script = .ok pops ∧ Engine.LeavesTrue pops := by
  obtain ⟨pops, hp, h⟩ := bind_eq_ok.1 h
  refine ⟨pops, hp, ?_⟩
  match pops, h with
  | [versionPop, programPop], h =>
    split_ifs at h with hw
    obtain ⟨-, rfl⟩ := Prod.mk.inj (pure_eq_ok.1 h)
    rw [isWitnessProgram, Bool.and_eq_true, Bool.and_eq_true, Bool.and_eq_true] at hw
    have hl : 2 ≤ programPop.data.length := of_decide_eq_true hw.2.1
    have hd : programPop.data ≠ [] := by
      intro hn
      rw [hn] at hl
      cases hl
    have hpu : programPop.PushesData := by
      refine @pushesData_of_mem_parseScript script programPop ?_ hd
      rw [parseScript_of_parse hp]
      exact mem_cons_of_mem _ mem_cons_self
    refine ⟨?_, programPop, rfl, hpu, ht⟩
    rintro pop hm
    obtain rfl | hm := mem_cons.1 hm
    · exact .inl (isSmallInt_le hw.1.1)
    · obtain rfl := mem_singleton.1 hm
      exact insensitive_of_pushesData hpu

theorem relaxes_witnessMode (hf : ConsensusFlags flags) :
    Relaxes (fun mode => if hasFlag flags scriptVerifyWitness then mode else none)
      (witnessMode standardVerifyFlags scriptPubKey pkPops sigPops txIn
        (hasFlag standardVerifyFlags scriptBip16 && isScriptHash pkPops))
      (witnessMode flags scriptPubKey pkPops sigPops txIn
        (hasFlag flags scriptBip16 && isScriptHash pkPops)) := by
  by_cases hw : hasFlag flags scriptVerifyWitness = true
  · have hs : hasFlag standardVerifyFlags scriptVerifyWitness = true := by decide
    have hs' : hasFlag standardVerifyFlags scriptBip16 = true := by decide
    simp only [witnessMode, hw, hf.bip16 hw, hs, hs']
    exact .refl
  · intro mode _
    rw [witnessMode, if_pos (by rw [Bool.eq_false_iff.2 hw]; rfl)]
    simp [if_neg hw]

/-- **`NewEngine` gives the weakened engine.** -/
theorem relaxes_newEngine (hf : ConsensusFlags flags) :
    Relaxes (weaken flags) (newEngine scriptPubKey tx idx standardVerifyFlags amount)
      (newEngine scriptPubKey tx idx flags amount) := by
  rw [newEngine, newEngine]
  cases tx.txIn[idx]? with
  | none => exact .error
  | some txIn =>
    refine .bind_id .refl fun _ _ => ?_
    refine .bind_id (relaxes_requireScript fun _ hc => ?_) fun _ _ => ?_
    · exact absurd (hf.cleanStack.symm.trans hc) Bool.false_ne_true
    refine .bind_id (relaxes_requireScript fun h hp => ?_) fun _ _ => ?_
    · exact h (hf.hasFlag_standard hp)
    refine .bind_id .refl fun _ _ => ?_
    refine .bind_id .refl fun sigPops _ => ?_
    refine .bind_id .refl fun _ _ => ?_
    refine .bind_id .refl fun pkPops _ => ?_
    refine .bind_id (relaxes_requireScript fun h hb16 => h ?_) fun _ _ => ?_
    · rw [Bool.and_eq_true] at hb16 ⊢
      exact ⟨hf.hasFlag_standard hb16.1, hb16.2⟩
    refine (relaxes_witnessMode hf).bind fun mode _ => ?_
    intro vm hok
    obtain rfl := pure_eq_ok.1 hok
    have hm : hasFlag standardVerifyFlags scriptVerifyMinimalData = true := by decide
    have hb16 : hasFlag standardVerifyFlags scriptBip16 = true := by decide
    by_cases hw : hasFlag flags scriptVerifyWitness = true
    · simp only [weaken, hm, hb16, if_pos hw, Bool.true_and, ite_self,
        Bool.and_comm (isScriptHash pkPops)]
      rfl
    · simp only [weaken, hm, hb16, if_neg hw, Bool.true_and, ite_self,
        Bool.and_comm (isScriptHash pkPops)]
      rfl

theorem exists_of_newEngine
    (h : newEngine scriptPubKey tx idx standardVerifyFlags amount = .ok vm) :
    ∃ txIn sigPops pkPops mode, tx.txIn[idx]? = some txIn ∧
      parseScript txIn.signatureScript = (sigPops, true) ∧
      parseScript scriptPubKey = (pkPops, true) ∧
      witnessMode standardVerifyFlags scriptPubKey pkPops sigPops txIn (isScriptHash pkPops) =
        .ok mode ∧
      vm.scripts = [sigPops, pkPops] ∧
      vm.scriptIdx = (if txIn.signatureScript = [] then 1 else 0) ∧
      vm.flags = standardVerifyFlags ∧ vm.bip16 = isScriptHash pkPops ∧
      vm.witnessProgram = mode.map Prod.snd := by
  rw [newEngine] at h
  split at h
  · cases h
  rename_i txIn ht
  obtain ⟨-, -, h⟩ := bind_eq_ok.1 h
  obtain ⟨-, -, h⟩ := bind_eq_ok.1 h
  obtain ⟨-, -, h⟩ := bind_eq_ok.1 h
  obtain ⟨-, -, h⟩ := bind_eq_ok.1 h
  obtain ⟨sigPops, hs, h⟩ := bind_eq_ok.1 h
  obtain ⟨-, -, h⟩ := bind_eq_ok.1 h
  obtain ⟨pkPops, hpk, h⟩ := bind_eq_ok.1 h
  obtain ⟨-, -, h⟩ := bind_eq_ok.1 h
  obtain ⟨mode, hm, h⟩ := bind_eq_ok.1 h
  obtain rfl := pure_eq_ok.1 h
  exact ⟨txIn, sigPops, pkPops, mode, ht, parseScript_of_parse hs, parseScript_of_parse hpk,
    hm, rfl, rfl, rfl, rfl, rfl⟩

theorem witnessMode_eq_some {mode : Nat × List UInt8} {bip16 : Bool}
    (h : witnessMode flags scriptPubKey pkPops sigPops txIn bip16 = .ok (some mode)) :
    (isWitnessProgram pkPops = true ∧ txIn.signatureScript = [] ∧
      extractWitnessProgramInfo scriptPubKey = .ok mode) ∨
    (bip16 = true ∧ ∃ pop, sigPops = [pop] ∧ isWitnessProgramScript pop.data = true ∧
      extractWitnessProgramInfo pop.data = .ok mode) := by
  rw [witnessMode] at h
  split_ifs at h
  · cases h
  obtain ⟨-, -, h⟩ := bind_eq_ok.1 h
  obtain ⟨witProgram, hf, h⟩ := bind_eq_ok.1 h
  cases witProgram with
  | none =>
    obtain ⟨-, -, h⟩ := bind_eq_ok.1 h
    cases h
  | some script =>
    obtain ⟨info, hi, h⟩ := bind_eq_ok.1 h
    cases pure_eq_ok.1 h
    unfold findWitnessProgram at hf
    by_cases hb : isWitnessProgram pkPops = true
    · rw [if_pos hb] at hf
      obtain ⟨_, hs, hf⟩ := bind_eq_ok.1 hf
      cases pure_eq_ok.1 hf
      exact .inl ⟨hb, requireScript_eq_ok.1 hs, hi⟩
    rw [if_neg hb] at hf
    by_cases hn : txIn.witness ≠ [] ∧ bip16 = true
    · rw [if_pos hn] at hf
      cases sigPops with
      | nil => cases hf
      | cons pop rest =>
        cases rest with
        | nil =>
          obtain ⟨_, hp, hf⟩ := bind_eq_ok.1 hf
          cases pure_eq_ok.1 hf
          exact .inr ⟨hn.2, pop, rfl, (requireScript_eq_ok.1 hp).2, hi⟩
        | cons pop' rest => cases hf
    · rw [if_neg hn] at hf
      cases hf

theorem insensitive_of_isScriptHash (h : isScriptHash pkPops = true) :
    pkPops ≠ [] ∧ ∀ pop ∈ pkPops, Engine.Insensitive pop.value := by
  have hva : pkPops.map ParsedOpcode.value =
      [hash160, data20, equal] := beq_iff_eq.1 h
  refine ⟨?_, fun pop hm => ?_⟩
  · rintro rfl
    cases hva
  · have hm : pop.value ∈ pkPops.map ParsedOpcode.value := List.mem_map_of_mem hm
    rw [hva] at hm
    simp only [mem_cons, not_mem_nil, or_false] at hm
    obtain hv | hv | hv := hm
    · exact .inr (.inl hv)
    · exact .inl (by rw [hv]; decide)
    · exact .inr (.inr hv)

/-- **The new engine can be followed**, unless it has a witness program that reads as false. -/
theorem tracked_of_newEngine (ht : tx.txIn[idx]? = some txIn)
    (htr : ∀ program, NamesProgram scriptPubKey txIn program → asBool program = true)
    (h : newEngine scriptPubKey tx idx standardVerifyFlags amount = .ok vm) : vm.Tracked flags := by
  obtain ⟨txIn', sigPops, pkPops, mode, ht', hsi, hpk, hm, hs, hi, hst, hbi16,
    hp⟩ := exists_of_newEngine h
  cases ht.symm.trans ht'
  refine ⟨hst, fun _ => by rw [hs]; rfl, ?_⟩
  by_cases hw : hasFlag flags scriptVerifyWitness = true
  · exact .inl (.inl hw)
  cases mode with
  | none => exact .inl (.inr hp)
  | some mode =>
    refine .inr ⟨Bool.eq_false_iff.2 hw, ?_⟩
    obtain ⟨hb, hn, he⟩ | ⟨hh, pop, rfl, hsc, he⟩ := witnessMode_eq_some hm
    · obtain ⟨pops, hpo, hl⟩ := leavesTrue_of_extract he (htr _ (.bare _ he))
      obtain rfl : pops = pkPops := (Prod.mk.inj ((parseScript_of_parse hpo).symm.trans hpk)).1
      rw [if_pos hn] at hi
      have hf : isScriptHash pops = false := by
        match pops, hb with
        | [version, program], _ => exact isScriptHash_pair version program
      refine .program pops (by omega) (fun _ => hbi16.trans hf) ?_ ?_ hl
      · rw [hs, hi]
        rfl
      · rw [hs, hi]
        rfl
    · have hpt : isPayToScriptHash scriptPubKey = true := by
        rw [isPayToScriptHash, hpk]
        exact hh
      obtain ⟨redeem, hr, hl⟩ := leavesTrue_of_extract he (htr _ (.nested pop _ hpt hsi he))
      have hpu : pop.PushesData := by
        refine @pushesData_of_mem_parseScript txIn.signatureScript pop ?_ fun hn => ?_
        · rw [hsi]
          exact mem_singleton_self pop
        · rw [hn] at hsc
          cases hsc
      have hn : txIn.signatureScript ≠ [] := by
        intro hn
        rw [hn] at hsi
        cases hsi
      rw [if_neg hn] at hi
      obtain ⟨hpn, hpp⟩ := insensitive_of_isScriptHash hh
      refine .signature [pop] pkPops redeem pop hi (hbi16.trans hh) hs ?_ hpp hpn
        rfl hpu hr hl
      exact forall_mem_singleton.2 (insensitive_of_pushesData hpu)

/-- **What passes with `StandardVerifyFlags` passes with fewer flags**, unless it spends a witness
program that reads as false. -/
theorem runScript_of_standard (hc : crypto.ParsesSignatures order) (hf : ConsensusFlags flags)
    (htr : ∀ txIn, tx.txIn[idx]? = some txIn →
      ∀ program, NamesProgram scriptPubKey txIn program → asBool program = true)
    (h : runScript crypto scriptPubKey tx idx standardVerifyFlags amount = .success) :
    runScript crypto scriptPubKey tx idx flags amount = .success := by
  obtain ⟨vm, hn, he⟩ := runScript_eq_success_iff.1 h
  obtain ⟨txIn, -, -, -, hti, -⟩ := exists_of_newEngine hn
  have ht : vm.Tracked flags := tracked_of_newEngine hti (htr txIn hti) hn
  exact runScript_eq_success_iff.2
    ⟨vm.weaken flags, relaxes_newEngine hf vm hn, ht.execute hc hf he⟩

end DrcNode
