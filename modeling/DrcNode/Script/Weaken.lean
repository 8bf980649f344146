import DrcNode.Library.Relaxes
import DrcNode.Script.Signature

/-!
# Fewer flags

A flag of the script engine switches a rule on. This module compares an engine that has the flags
of `StandardVerifyFlags` with one that has fewer, `Engine.weaken`: it must not fail where the first
one succeeds, and its state must stay the weakened one. For opcodes this is so, with one proviso.
Opcodes that read the witness version do something else with a witness program than without, not
only less, so for those the engines have to agree on whether one is active.
-/

namespace DrcNode

open Checked Stack Relaxes Opcode

/-! ### Checks -/

theorem relaxes_requireScript {p q : Prop} [Decidable p] [Decidable q] {c c' : ScriptErrorCode}
    (h : p → q) : Relaxes id (requireScript p c) (requireScript q c') := by
  intro u hp
  exact requireScript_eq_ok.2 (h (requireScript_eq_ok.1 hp))

/-! ### Stacks -/

namespace Stack

variable {s : Stack} {keep : Bool} {idx : Int} {val : Int64} {f : Stack → ScriptCheck Stack}

/-- The stack that checks the encoding of numbers only if `keep` says so. -/
def relax (keep : Bool) (s : Stack) : Stack :=
  { s with verifyMinimalData := s.verifyMinimalData && keep }

/-- An operation that does not depend on how the encoding of numbers is checked. -/
def Relaxable (f : Stack → ScriptCheck Stack) : Prop :=
  ∀ keep s, Relaxes (relax keep) (f s) (f (s.relax keep))

theorem relaxes_nipN : Relaxes (Prod.map id (relax keep)) (s.nipN idx) ((s.relax keep).nipN idx) :=
  .bind_id .refl fun _ _ => .pure

theorem relaxes_popByteArray :
    Relaxes (Prod.map id (relax keep)) s.popByteArray (s.relax keep).popByteArray :=
  relaxes_nipN

theorem relaxes_makeScriptNum {v : List UInt8} {requireMinimal : Bool} {scriptNumLen : Nat} :
    Relaxes id (makeScriptNum v requireMinimal scriptNumLen)
      (makeScriptNum v (requireMinimal && keep) scriptNumLen) := by
  intro n h
  cases requireMinimal with
  | false => exact h
  | true =>
    cases keep with
    | true => exact h
    | false =>
      simp only [makeScriptNum, bind_eq_ok, requireScript_eq_ok, exists_const, if_true] at h
      obtain ⟨hl, -, -, hn⟩ := h
      exact bind_eq_ok.2 ⟨(), requireScript_eq_ok.2 hl, hn⟩

theorem relaxes_popInt : Relaxes (Prod.map id (relax keep)) s.popInt (s.relax keep).popInt :=
  relaxes_popByteArray.bind_state fun _ _ =>
    .bind_id relaxes_makeScriptNum fun _ _ => .pure

theorem relaxes_popBool : Relaxes (Prod.map id (relax keep)) s.popBool (s.relax keep).popBool :=
  relaxes_popByteArray.bind_state fun _ _ => .pure

theorem relaxes_pushInt : Relaxes (relax keep) (s.pushInt val) ((s.relax keep).pushInt val) :=
  .bind_id .refl fun _ _ => .pure

theorem relaxable_nip : Relaxable fun s => s.nip idx :=
  fun _ _ => relaxes_nipN.bind_state fun _ _ => .pure

theorem relaxable_rollN : Relaxable fun s => s.rollN idx :=
  fun _ _ => relaxes_nipN.bind_state fun _ _ => .pure

theorem relaxable_pickN : Relaxable fun s => s.pickN idx :=
  fun _ _ => .bind_id .refl fun _ _ => .pure

theorem relaxable_push {so : List UInt8} : Relaxable fun s => pure (s.pushByteArray so) :=
  fun _ _ => .pure

theorem relaxable_pushInt : Relaxable fun s => s.pushInt val := fun _ _ => relaxes_pushInt

theorem relaxable_tuck : Relaxable tuck :=
  fun _ _ => relaxes_popByteArray.bind_state fun _ _ =>
    relaxes_popByteArray.bind_state fun _ _ => .pure

theorem relaxable_iterate (hf : Relaxable f) (n : Nat) : Relaxable (iterate f n) := by
  induction n with
  | zero => exact fun _ _ => .pure
  | succ n ih => exact fun keep s => (hf keep s).bind fun s _ => ih keep s

end Stack

/-! ### Flags -/

/-- Flags of `StandardVerifyFlags`, without those that only policy has, that `NewEngine` permits. -/
structure ConsensusFlags (flags : UInt32) : Prop where
  sub : flags &&& standardVerifyFlags = flags
  cleanStack : hasFlag flags scriptVerifyCleanStack = false
  upgradableNops : hasFlag flags scriptDiscourageUpgradableNops = false
  upgradableProgram : hasFlag flags scriptVerifyDiscourageUpgradeableWitnessProgram = false
  bip16 : hasFlag flags scriptVerifyWitness = true → hasFlag flags scriptBip16 = true

namespace Engine

/-- The engine with fewer flags, without what the missing flags would have set up. -/
def weaken (flags : UInt32) (vm : Engine) : Engine :=
  { vm with
    flags := flags
    dstack := vm.dstack.relax (DrcNode.hasFlag flags scriptVerifyMinimalData)
    astack := vm.astack.relax (DrcNode.hasFlag flags scriptVerifyMinimalData)
    bip16 := vm.bip16 && DrcNode.hasFlag flags scriptBip16
    savedFirstStack := if DrcNode.hasFlag flags scriptBip16 then vm.savedFirstStack else []
    witnessVersion := if DrcNode.hasFlag flags scriptVerifyWitness then vm.witnessVersion else 0
    witnessProgram :=
      if DrcNode.hasFlag flags scriptVerifyWitness then vm.witnessProgram else none }

/-- Both engines see the same witness version. -/
def SameWitness (flags : UInt32) (vm : Engine) : Prop :=
  DrcNode.hasFlag flags scriptVerifyWitness = true ∨ vm.witnessProgram = none

/-- The engine is at the same place in the same scripts. -/
def SameCode (vm vm' : Engine) : Prop :=
  ∃ dstack astack condStack numOps lastCodeSep,
    vm' = { vm with dstack, astack, condStack, numOps, lastCodeSep }

variable {flags : UInt32} {vm vm' vm'' : Engine} {op : ParsedOpcode} {crypto : Crypto} {α : Type}
  {f : Stack → ScriptCheck Stack}

theorem SameCode.refl (vm : Engine) : vm.SameCode vm := ⟨_, _, _, _, _, rfl⟩

theorem SameCode.trans (h : vm.SameCode vm') (h' : vm'.SameCode vm'') : vm.SameCode vm'' := by
  obtain ⟨_, _, _, _, _, rfl⟩ := h
  obtain ⟨_, _, _, _, _, rfl⟩ := h'
  exact ⟨_, _, _, _, _, rfl⟩

theorem hasFlag_of_standard (h : vm.flags = standardVerifyFlags) {flag : UInt32}
    (hf : DrcNode.hasFlag standardVerifyFlags flag = true) : vm.hasFlag flag = true := by
  rw [hasFlag, h, hf]

theorem isWitnessVersionActive_weaken (h : vm.SameWitness flags) (version : Nat) :
    (vm.weaken flags).isWitnessVersionActive version = vm.isWitnessVersionActive version := by
  simp only [isWitnessVersionActive, weaken]
  obtain hf | hn := h
  · rw [if_pos hf, if_pos hf]
  · rw [hn, ite_self]
    rfl

/-! ### Operations -/

/-- The second check succeeds with the weakened engine when the first one succeeds. -/
structure Weakens (flags : UInt32) (vm : Engine) (x y : ScriptCheck Engine) : Prop where
  relaxes : Relaxes (weaken flags) x y
  same : ∀ vm', x = .ok vm' → vm.SameCode vm'

namespace Weakens

variable {x y : ScriptCheck Engine}

theorem pure (h : vm.SameCode vm') :
    Weakens flags vm (Pure.pure vm' : ScriptCheck Engine) (Pure.pure (vm'.weaken flags)) := by
  refine ⟨.pure, fun vm'' hok => ?_⟩
  obtain rfl := pure_eq_ok.1 hok
  exact h

theorem error {e : ScriptFault} : Weakens flags vm (.error e) y :=
  ⟨.error, fun _ h => by cases h⟩

theorem bind_check {c c' : ScriptCheck α} {f g : α → ScriptCheck Engine} (h : Relaxes id c c')
    (hf : ∀ a, c = .ok a → Weakens flags vm (f a) (g a)) :
    Weakens flags vm (c >>= f) (c' >>= g) := by
  refine ⟨h.bind fun a ha => (hf a ha).relaxes, fun vm' hok => ?_⟩
  obtain ⟨a, ha, hfa⟩ := bind_eq_ok.1 hok
  exact (hf a ha).same vm' hfa

theorem bind_stack {c c' : ScriptCheck (α × Stack)} {f g : α × Stack → ScriptCheck Engine}
    {keep : Bool} (h : Relaxes (Prod.map id (Stack.relax keep)) c c')
    (hf : ∀ a s, Weakens flags vm (f (a, s)) (g (a, s.relax keep))) :
    Weakens flags vm (c >>= f) (c' >>= g) := by
  refine ⟨h.bind fun a _ => (hf a.1 a.2).relaxes, fun vm' hok => ?_⟩
  obtain ⟨a, -, hfa⟩ := bind_eq_ok.1 hok
  exact (hf a.1 a.2).same vm' hfa

theorem bind {f g : Engine → ScriptCheck Engine} (h : Weakens flags vm x y)
    (hf : ∀ vm', vm.SameCode vm' → Weakens flags vm' (f vm') (g (vm'.weaken flags))) :
    Weakens flags vm (x >>= f) (y >>= g) := by
  refine ⟨h.relaxes.bind fun vm' hx => (hf vm' (h.same vm' hx)).relaxes, fun vm'' hok => ?_⟩
  obtain ⟨vm', hx, hfx⟩ := bind_eq_ok.1 hok
  exact (h.same vm' hx).trans ((hf vm' (h.same vm' hx)).same vm'' hfx)

end Weakens

theorem weakens_onStack (hf : Stack.Relaxable f) :
    Weakens flags vm (onStack f op vm) (onStack f op (vm.weaken flags)) := by
  refine ⟨(hf _ vm.dstack).bind fun s _ => .pure, fun vm' hok => ?_⟩
  obtain ⟨s, -, hs⟩ := bind_eq_ok.1 hok
  obtain rfl := pure_eq_ok.1 hs
  exact ⟨_, _, _, _, _, rfl⟩

/-! ### Opcodes on the stack -/

/-- An opcode relaxes when the engines see the same witness version. -/
def Weakening (flags : UInt32) (f : OpcodeFunc) : Prop :=
  ∀ op vm, vm.flags = standardVerifyFlags → vm.SameWitness flags →
    Weakens flags vm (f op vm) (f op (vm.weaken flags))

theorem weakening_onStack (hf : Stack.Relaxable f) :
    Weakening flags (onStack f) := fun _ _ _ _ => weakens_onStack hf

theorem weakening_ifDup : Weakening flags opcodeIfDup := by
  refine weakening_onStack fun keep s => .bind_id .refl fun so _ => ?_
  cases asBool so with
  | true => exact .pure
  | false => exact .pure

theorem weakening_pick : Weakening flags opcodePick :=
  weakening_onStack fun keep _ => relaxes_popInt.bind_state fun _ s =>
    relaxable_pickN keep s

theorem weakening_roll : Weakening flags opcodeRoll :=
  weakening_onStack fun keep _ => relaxes_popInt.bind_state fun _ s =>
    relaxable_rollN keep s

theorem weakening_size : Weakening flags opcodeSize :=
  weakening_onStack fun _ _ => bind_id Relaxes.refl fun _ _ => relaxes_pushInt

theorem weakens_equal : Weakens flags vm (opcodeEqual op vm) (opcodeEqual op (vm.weaken flags)) :=
  weakens_onStack fun _ _ => relaxes_popByteArray.bind_state fun _ _ =>
    relaxes_popByteArray.bind_state fun _ _ => Relaxes.pure

theorem weakening_equal : Weakening flags opcodeEqual := fun _ _ _ _ => weakens_equal

theorem weakening_numericUnary (f : Int64 → Int64) : Weakening flags (numericUnary f) :=
  weakening_onStack fun _ _ => relaxes_popInt.bind_state fun _ _ => relaxes_pushInt

theorem weakening_numericBinary (f : Int64 → Int64 → Int64) : Weakening flags (numericBinary f) :=
  weakening_onStack fun _ _ => relaxes_popInt.bind_state fun _ _ =>
    relaxes_popInt.bind_state fun _ _ => relaxes_pushInt

theorem weakening_within : Weakening flags opcodeWithin :=
  weakening_onStack fun _ _ => relaxes_popInt.bind_state fun _ _ =>
    relaxes_popInt.bind_state fun _ _ =>
      relaxes_popInt.bind_state fun _ _ => relaxes_pushInt

theorem weakens_hashTop (hash : List UInt8 → List UInt8) :
    Weakens flags vm (hashTop hash op vm) (hashTop hash op (vm.weaken flags)) :=
  weakens_onStack fun _ _ => relaxes_popByteArray.bind_state fun _ _ => Relaxes.pure

theorem weakening_hashTop (hash : List UInt8 → List UInt8) : Weakening flags (hashTop hash) :=
  fun _ _ _ _ => weakens_hashTop hash

theorem weakens_abstractVerify (c : ScriptErrorCode) :
    Weakens flags vm (abstractVerify c op vm) (abstractVerify c op (vm.weaken flags)) :=
  weakens_onStack fun _ _ => relaxes_popBool.bind_state fun _ _ =>
    .bind_id .refl fun _ _ => .pure

theorem weakening_thenVerify {f : OpcodeFunc} (hf : Weakening flags f) (c : ScriptErrorCode) :
    Weakening flags (thenVerify f c) :=
  fun op vm hs hw => (hf op vm hs hw).bind fun _ _ =>
    weakens_abstractVerify c

/-! ### Opcodes on the engine -/

theorem weakening_nop (hf : ConsensusFlags flags) : Weakening flags opcodeNop :=
  fun _ vm _ _ => .bind_check
    (relaxes_requireScript fun _ => .inr hf.upgradableNops) fun _ _ => .pure (.refl vm)

theorem relaxes_popIfBool (hs : vm.flags = standardVerifyFlags) (hw : vm.SameWitness flags) :
    Relaxes (Prod.map id (Stack.relax (DrcNode.hasFlag flags scriptVerifyMinimalData)))
      (popIfBool vm) (popIfBool (vm.weaken flags)) := by
  have hm : vm.hasFlag scriptVerifyMinimalIf = true := hasFlag_of_standard hs (by decide)
  rw [popIfBool, popIfBool, isWitnessVersionActive_weaken hw, hm]
  cases vm.isWitnessVersionActive 0 with
  | false => exact relaxes_popBool
  | true =>
    cases hf : (vm.weaken flags).hasFlag scriptVerifyMinimalIf with
    | true =>
      exact relaxes_popByteArray.bind_state fun _ _ => bind_id Relaxes.refl
        fun _ _ => bind_id Relaxes.refl fun _ _ => Relaxes.pure
    | false =>
      -- without the flag the item is read as it is
      refine relaxes_popByteArray.bind_state fun so s => ?_
      intro out ho
      obtain ⟨_, -, ho⟩ := bind_eq_ok.1 ho
      obtain ⟨_, -, ho⟩ := bind_eq_ok.1 ho
      obtain rfl := pure_eq_ok.1 ho
      rfl

theorem weakening_conditional (taken : Bool) : Weakening flags (conditional taken) := by
  intro op vm hs hw
  change Weakens flags vm (if vm.isBranchExecuting then _ else _)
    (if vm.isBranchExecuting then _ else _)
  split_ifs
  · exact .bind_stack (relaxes_popIfBool hs hw) fun _ _ =>
      .pure ⟨_, _, _, _, _, rfl⟩
  · exact .pure ⟨_, _, _, _, _, rfl⟩

theorem weakening_else : Weakening flags opcodeElse := by
  intro op vm _ _
  cases hc : vm.condStack with
  | nil =>
    rw [opcodeElse, hc]
    exact .error
  | cons cond conds =>
    have hc' : (vm.weaken flags).condStack = cond :: conds := hc
    rw [opcodeElse, opcodeElse, hc, hc']
    cases cond with
    | condFalse => exact .pure ⟨_, _, _, _, _, rfl⟩
    | condTrue => exact .pure ⟨_, _, _, _, _, rfl⟩
    | condSkip => exact .pure (.refl vm)

theorem weakening_endif : Weakening flags opcodeEndif := by
  intro op vm _ _
  cases hc : vm.condStack with
  | nil =>
    rw [opcodeEndif, hc]
    exact .error
  | cons cond conds =>
    have hc' : (vm.weaken flags).condStack = cond :: conds := hc
    rw [opcodeEndif, opcodeEndif, hc, hc']
    exact .pure ⟨_, _, _, _, _, rfl⟩

theorem weakening_toAltStack : Weakening flags opcodeToAltStack :=
  fun _ _ _ _ => Weakens.bind_stack relaxes_popByteArray fun _ _ =>
    .pure ⟨_, _, _, _, _, rfl⟩

theorem weakening_fromAltStack : Weakening flags opcodeFromAltStack :=
  fun _ _ _ _ => Weakens.bind_stack relaxes_popByteArray fun _ _ =>
    .pure ⟨_, _, _, _, _, rfl⟩

/-! ### Lock times -/

theorem relaxes_peekLockTime : Relaxes id (peekLockTime vm) (peekLockTime (vm.weaken flags)) :=
  bind_id Relaxes.refl fun _ _ => bind_id relaxes_makeScriptNum fun _ _ =>
    .bind_id .refl fun _ _ => .refl

section

variable (hf : ConsensusFlags flags)
include hf

theorem weakens_upgradableNop {x : ScriptCheck Engine} (hx : ∀ vm', x = .ok vm' → vm' = vm) :
    Weakens flags vm x (upgradableNop (vm.weaken flags)) := by
  have hn : upgradableNop (vm.weaken flags) = .ok (vm.weaken flags) :=
    bind_eq_ok.2 ⟨(), requireScript_eq_ok.2 hf.upgradableNops, rfl⟩
  refine ⟨fun vm' hok => ?_, fun vm' hok => ?_⟩
  · rw [hn, hx vm' hok]
  · rw [hx vm' hok]
    exact .refl vm

theorem weakening_checkLockTimeVerify : Weakening flags opcodeCheckLockTimeVerify := by
  intro op vm hs _
  have hfl : vm.hasFlag scriptVerifyCheckLockTimeVerify = true := hasFlag_of_standard hs (by decide)
  rw [opcodeCheckLockTimeVerify, opcodeCheckLockTimeVerify, hfl]
  cases (vm.weaken flags).hasFlag scriptVerifyCheckLockTimeVerify with
  | true =>
    exact .bind_check relaxes_peekLockTime fun _ _ => .bind_check .refl
      fun _ _ => .bind_check .refl fun _ _ => .bind_check .refl
        fun _ _ => .pure (.refl vm)
  | false =>
    refine weakens_upgradableNop hf fun vm' hok => ?_
    simp only [Bool.not_true, Bool.false_eq_true, if_false, bind_eq_ok, pure_eq_ok] at hok
    obtain ⟨_, -, _, -, _, -, _, -, rfl⟩ := hok
    rfl

theorem weakening_checkSequenceVerify : Weakening flags opcodeCheckSequenceVerify := by
  intro op vm hs _
  have hfl : vm.hasFlag scriptVerifyCheckSequenceVerify = true := hasFlag_of_standard hs (by decide)
  rw [opcodeCheckSequenceVerify, opcodeCheckSequenceVerify, hfl]
  cases (vm.weaken flags).hasFlag scriptVerifyCheckSequenceVerify with
  | true =>
    refine .bind_check relaxes_peekLockTime fun sequence _ => ?_
    split_ifs
    · exact .pure (.refl vm)
    · exact .bind_check .refl fun _ _ => .bind_check .refl
        fun _ _ => .bind_check .refl fun _ _ => .bind_check .refl
          fun _ _ => .pure (.refl vm)
  | false =>
    refine weakens_upgradableNop hf fun vm' hok => ?_
    simp only [Bool.not_true, Bool.false_eq_true, if_false, bind_eq_ok] at hok
    obtain ⟨_, -, hok⟩ := hok
    split_ifs at hok
    · exact (pure_eq_ok.1 hok).symm
    · simp only [bind_eq_ok, pure_eq_ok] at hok
      obtain ⟨_, -, _, -, _, -, _, -, rfl⟩ := hok
      rfl

end

/-! ### Signatures -/

section

variable (hs : vm.flags = standardVerifyFlags)
include hs

theorem relaxes_checkHashTypeEncoding (hashType : UInt8) : Relaxes id
    (vm.checkHashTypeEncoding hashType)
      ((vm.weaken flags).checkHashTypeEncoding hashType) := by
  have hf : vm.hasFlag scriptVerifyStrictEncoding = true := hasFlag_of_standard hs (by decide)
  rw [checkHashTypeEncoding, checkHashTypeEncoding, hf]
  cases (vm.weaken flags).hasFlag scriptVerifyStrictEncoding with
  | true => exact .refl
  | false => exact fun _ _ => rfl

/-- With the flags of `StandardVerifyFlags` the format of signatures is checked. -/
theorem checkSignatureEncoding_eq (sig : List UInt8) :
    vm.checkSignatureEncoding sig = vm.checkDEREncoding sig := by
  have hf : vm.hasFlag scriptVerifyDERSignatures = true := hasFlag_of_standard hs (by decide)
  rw [checkSignatureEncoding, hf]
  rfl

theorem relaxes_checkDEREncoding (sig : List UInt8) :
    Relaxes id (vm.checkDEREncoding sig) ((vm.weaken flags).checkDEREncoding sig) := by
  intro u h
  have hl : vm.hasFlag scriptVerifyLowS = true := hasFlag_of_standard hs (by decide)
  simp only [checkDEREncoding, bind_eq_ok, requireScript_eq_ok, exists_const] at h ⊢
  obtain ⟨h1, h2, h3, h4, h5, h6, h7, h8, h9, h10, h11, h12, h13, h14, h15, hlo⟩ := h
  exact ⟨h1, h2, h3, h4, h5, h6, h7, h8, h9, h10, h11, h12, h13, h14, h15, fun _ => hlo hl⟩

theorem relaxes_checkSignatureEncoding (sig : List UInt8) : Relaxes id
    (vm.checkSignatureEncoding sig)
      ((vm.weaken flags).checkSignatureEncoding sig) := by
  rw [checkSignatureEncoding_eq hs, checkSignatureEncoding]
  split_ifs
  · exact fun _ _ => rfl
  · exact relaxes_checkDEREncoding hs sig

theorem relaxes_checkPubKeyEncoding (hw : vm.SameWitness flags) (pubKey : List UInt8) :
    Relaxes id (vm.checkPubKeyEncoding pubKey) ((vm.weaken flags).checkPubKeyEncoding pubKey) := by
  refine .bind_id (relaxes_requireScript fun h _ => ?_) fun _ _ =>
    relaxes_requireScript fun h => ?_
  · rw [isWitnessVersionActive_weaken hw]
    exact h (hasFlag_of_standard hs (by decide))
  · obtain hf | hk := h
    · rw [hasFlag_of_standard hs (by decide)] at hf
      cases hf
    · exact .inr hk

end

theorem signatureHash_weaken (hw : vm.SameWitness flags) (script : List ParsedOpcode)
    (hashType : UInt8) : (vm.weaken flags).signatureHash crypto script hashType =
      vm.signatureHash crypto script hashType := by
  rw [signatureHash, isWitnessVersionActive_weaken hw]
  rfl

variable {order : Nat}

section

variable (hc : crypto.ParsesSignatures order)
include hc

theorem parseSig_weaken (hs : vm.flags = standardVerifyFlags) {sig : List UInt8}
    (h : vm.checkSignatureEncoding sig = .ok ()) :
    (vm.weaken flags).parseSig crypto sig = vm.parseSig crypto sig := by
  rw [checkSignatureEncoding_eq hs] at h
  have hf : vm.hasFlag scriptVerifyStrictEncoding = true := hasFlag_of_standard hs (by decide)
  rw [Engine.parseSig, Engine.parseSig, hf, Bool.true_or, if_pos rfl,
    hc.parseDERSignature_eq, hc.parseSignature_eq, parseSig_eq_of_checkDEREncoding h,
    ite_self]

theorem relaxes_checkSig (hs : vm.flags = standardVerifyFlags) (hw : vm.SameWitness flags)
    (pkBytes fullSigBytes : List UInt8) :
    Relaxes id (checkSig crypto vm pkBytes fullSigBytes)
      (checkSig crypto (vm.weaken flags) pkBytes fullSigBytes) := by
  rw [checkSig, checkSigBy, checkSigBy]
  cases fullSigBytes.getLast? with
  | none => exact .refl
  | some hashType =>
    refine .bind_id (relaxes_checkHashTypeEncoding hs hashType) fun _ _ => ?_
    refine .bind_id (relaxes_checkSignatureEncoding hs _) fun _ hsi => ?_
    refine .bind_id (relaxes_checkPubKeyEncoding hs hw pkBytes) fun _ _ => ?_
    simp only [isWitnessVersionActive_weaken hw, signatureHash_weaken hw, parseSig_weaken hc hs hsi]
    refine .bind_id .refl fun hash _ => ?_
    cases crypto.parsePubKey pkBytes with
    | none => exact .refl
    | some pubKey =>
      cases vm.parseSig crypto fullSigBytes.dropLast with
      | none => exact .refl
      | some signature =>
        have hfl : vm.hasFlag scriptVerifyNullFail = true := hasFlag_of_standard hs (by decide)
        refine .bind_id .refl fun valid _ => ?_
        refine .bind_id (relaxes_requireScript fun h => ?_) fun _ _ => .refl
        rw [hfl] at h
        obtain hv | hf | hn := h
        · exact .inl hv
        · cases hf
        · exact .inr (.inr hn)

theorem weakening_checkSig : Weakening flags (opcodeCheckSig crypto) :=
  fun _ _ hs hw => Weakens.bind_stack relaxes_popByteArray fun _ _ =>
    Weakens.bind_stack relaxes_popByteArray fun _ _ =>
      .bind_check (relaxes_checkSig hc hs hw _ _) fun _ _ =>
        .pure ⟨_, _, _, _, _, rfl⟩

theorem relaxes_checkMultiSigLoop (hs : vm.flags = standardVerifyFlags) (hw : vm.SameWitness flags)
    (script : List ParsedOpcode) (pubKeys signatures : List (List UInt8)) :
    Relaxes id (checkMultiSigLoop crypto vm script pubKeys signatures)
      (checkMultiSigLoop crypto (vm.weaken flags) script pubKeys signatures) := by
  induction pubKeys generalizing signatures with
  | nil =>
    cases signatures with
    | nil => exact .refl
    | cons _ _ => exact .refl
  | cons pubKey pubKeys ih =>
    cases signatures with
    | nil => exact .refl
    | cons rawSig signatures =>
      rw [checkMultiSigLoop, checkMultiSigLoopBy, checkMultiSigLoopBy]
      split_ifs
      · exact .refl
      cases rawSig.getLast? with
      | none => exact ih (rawSig :: signatures)
      | some hashType =>
        refine .bind_id (relaxes_checkHashTypeEncoding hs hashType) fun _ _ => ?_
        refine .bind_id (relaxes_checkSignatureEncoding hs _) fun _ hsi => ?_
        simp only [parseSig_weaken hc hs hsi, signatureHash_weaken hw]
        cases vm.parseSig crypto rawSig.dropLast with
        | none => exact ih (rawSig :: signatures)
        | some parsedSig =>
          refine .bind_id (relaxes_checkPubKeyEncoding hs hw pubKey) fun _ _ => ?_
          cases crypto.parsePubKey pubKey with
          | none => exact ih (rawSig :: signatures)
          | some parsedPubKey =>
            refine .bind_id .refl fun hash _ => .bind_id .refl fun valid _ => ?_
            cases valid with
            | true => exact ih signatures
            | false => exact ih (rawSig :: signatures)

end

theorem relaxes_popMany {keep : Bool} (n : Nat) (s : Stack) :
    Relaxes (Prod.map id (Stack.relax keep)) (popMany n s) (popMany n (s.relax keep)) := by
  induction n generalizing s with
  | zero => exact .pure
  | succ n ih =>
    exact relaxes_popByteArray.bind_state fun _ s => (ih s).bind_state fun _ _ => Relaxes.pure

theorem weakening_checkMultiSig (hc : crypto.ParsesSignatures order) :
    Weakening flags (opcodeCheckMultiSig crypto) := by
  intro op vm hs hw
  refine Weakens.bind_stack relaxes_popInt fun numKeys s => ?_
  refine Weakens.bind_check Relaxes.refl fun _ _ => ?_
  refine Weakens.bind_check Relaxes.refl fun _ _ => ?_
  refine Weakens.bind_stack (relaxes_popMany _ s) fun pubKeys s => ?_
  refine Weakens.bind_stack relaxes_popInt fun numSigs s => ?_
  refine Weakens.bind_check Relaxes.refl fun _ _ => ?_
  refine Weakens.bind_stack (relaxes_popMany _ s) fun signatures s => ?_
  refine Weakens.bind_stack relaxes_popByteArray fun dummy s => ?_
  -- from here on the number of operations has been counted
  generalize hvm : ({ vm with numOps := vm.numOps + (scriptNumInt32 numKeys).toNat } : Engine) = vm₁
  have hvm' : ({ vm.weaken flags with
      numOps := (vm.weaken flags).numOps + (scriptNumInt32 numKeys).toNat } : Engine) =
      vm₁.weaken flags := by
    rw [← hvm]
    rfl
  have hs : vm₁.flags = standardVerifyFlags := hvm ▸ hs
  have hw : vm₁.SameWitness flags := hvm ▸ hw
  have hst : vm₁.hasFlag scriptStrictMultiSig = true := hasFlag_of_standard hs (by decide)
  have hn : vm₁.hasFlag scriptVerifyNullFail = true := hasFlag_of_standard hs (by decide)
  simp only [hvm', isWitnessVersionActive_weaken hw]
  refine Weakens.bind_check (relaxes_requireScript fun h => ?_) fun _ _ => ?_
  · rw [hst] at h
    exact .inr (h.resolve_left (by decide))
  refine Weakens.bind_check (relaxes_checkMultiSigLoop hc hs hw _ _ _) fun success _ => ?_
  refine Weakens.bind_check (relaxes_requireScript fun h => ?_) fun _ _ => ?_
  · rw [hn] at h
    obtain hsu | hf | hni := h
    · exact .inl hsu
    · cases hf
    · exact .inr (.inr hni)
  · subst hvm
    exact .pure ⟨_, _, _, _, _, rfl⟩

/-! ### The table of opcodes -/

theorem weakening_opcodeArray (hc : crypto.ParsesSignatures order)
    (hfl : ConsensusFlags flags) : ∀ entry ∈ opcodeArray crypto, Weakening flags entry.2 := by
  have hn := weakening_nop hfl
  have hr : ∀ n {f : Stack → ScriptCheck Stack}, Stack.Relaxable f →
      Weakening flags (onStack fun s => s.repeatN n f) := fun n _ hf =>
      weakening_onStack fun keep s => .bind_id .refl fun _ _ => relaxable_iterate hf n keep s
  have hs : Weakening flags (opcodeCheckSig crypto) := weakening_checkSig hc
  have hm : Weakening flags (opcodeCheckMultiSig crypto) := weakening_checkMultiSig hc
  have he : ∀ {c}, Weakening flags fun _ _ => scriptError c :=
    fun _ _ _ _ => .error
  have hu := @weakening_numericUnary flags
  have hb := @weakening_numericBinary flags
  simp only [opcodeArray, List.forall_mem_cons, List.not_mem_nil, false_implies, implies_true,
    and_true]
  exact ⟨hn, he, weakening_conditional _, weakening_conditional _, he, he, weakening_else,
    weakening_endif, fun _ _ _ _ => weakens_abstractVerify _, he, weakening_toAltStack,
    weakening_fromAltStack,
    hr 2 relaxable_nip, hr 2 relaxable_pickN, hr 3 relaxable_pickN,
    hr 2 relaxable_pickN, hr 2 relaxable_rollN, hr 2 relaxable_rollN,
    weakening_ifDup, weakening_onStack fun _ _ => relaxes_pushInt, hr 1 relaxable_nip,
    hr 1 relaxable_pickN,
    weakening_onStack relaxable_nip, hr 1 relaxable_pickN, weakening_pick,
    weakening_roll, hr 1 relaxable_rollN, hr 1 relaxable_rollN,
    weakening_onStack relaxable_tuck, he, he, he, he, weakening_size, he, he, he, he,
    weakening_equal, weakening_thenVerify weakening_equal _, he, he, hu _, hu _, he, he, hu _, hu _,
    hu _, hu _, hb _, hb _, he, he, he, he, he, hb _, hb _, hb _, weakening_thenVerify (hb _) _,
    hb _, hb _, hb _, hb _, hb _, hb _, hb _, weakening_within, weakening_hashTop _,
    weakening_hashTop _, weakening_hashTop _, weakening_hashTop _, weakening_hashTop _,
    fun _ _ _ _ => .pure ⟨_, _, _, _, _, rfl⟩, hs, weakening_thenVerify hs _, hm,
    weakening_thenVerify hm _, hn,
    weakening_checkLockTimeVerify hfl, weakening_checkSequenceVerify hfl, hn, hn, hn, hn, hn, hn,
    hn⟩

/-- The opcodes of patterns that name a witness program, which do not read the witness version. -/
def Insensitive (value : UInt8) : Prop :=
  value ≤ op16 ∨ value = hash160 ∨ value = equal

theorem weakens_opfunc (hc : crypto.ParsesSignatures order) (hf : ConsensusFlags flags)
    (hs : vm.flags = standardVerifyFlags) {value : UInt8}
    (h : vm.SameWitness flags ∨ Insensitive value) :
    Weakens flags vm (opfunc crypto value op vm) (opfunc crypto value op (vm.weaken flags)) := by
  rw [opfunc]
  split_ifs with _ _ _ _ hop16
  · exact weakens_onStack relaxable_push
  · exact weakens_onStack relaxable_push
  · exact weakens_onStack relaxable_pushInt
  · exact .error
  · exact weakens_onStack relaxable_pushInt
  · obtain hw | hle | rfl | rfl := h
    · cases hl : (opcodeArray crypto).lookup value with
      | none => exact .error
      | some f =>
        obtain ⟨before, after, heq, -⟩ := List.lookup_eq_some_iff.1 hl
        refine weakening_opcodeArray hc hf (value, f) ?_ op vm hs hw
        rw [heq]
        exact List.mem_append_right before List.mem_cons_self
    · exact absurd hle hop16
    · have hl : (opcodeArray crypto).lookup hash160 = some (opcodeHash160 crypto) := rfl
      rw [hl, Option.getD_some]
      exact weakens_hashTop _
    · have hl : (opcodeArray crypto).lookup equal = some opcodeEqual := rfl
      exact weakens_equal

theorem weakens_checkLimits :
    Weakens flags vm (vm.checkLimits op) ((vm.weaken flags).checkLimits op) := by
  rw [checkLimits, checkLimits]
  split_ifs
  · exact .bind_check .refl fun _ _ => .pure ⟨_, _, _, _, _, rfl⟩
  · exact .bind_check .refl fun _ _ => .pure (.refl vm)

theorem relaxes_checkPush : Relaxes id (vm.checkPush op) ((vm.weaken flags).checkPush op) := by
  intro u h
  rw [checkPush] at h ⊢
  split_ifs with hc
  · rw [if_pos] at h
    · exact h
    · -- the stack of the weakened engine checks only if this one does
      simp only [Bool.and_eq_true] at hc ⊢
      exact ⟨⟨(Bool.and_eq_true_iff.1 hc.1.1).1, hc.1.2⟩, hc.2⟩
  · rfl

/-- **Every opcode relaxes.** -/
theorem weakens_executeOpcode (hc : crypto.ParsesSignatures order)
    (hf : ConsensusFlags flags) (hs : vm.flags = standardVerifyFlags)
    (h : vm.SameWitness flags ∨ Insensitive op.value) :
    Weakens flags vm (executeOpcode crypto vm op) (executeOpcode crypto (vm.weaken flags) op) := by
  refine .bind_check .refl fun _ _ => .bind_check .refl fun _ _ => ?_
  refine weakens_checkLimits.bind fun vm' hsa => ?_
  obtain ⟨dstack, astack, condStack, numOps, lastCodeSep, rfl⟩ := hsa
  generalize hvm' : ({ vm with dstack, astack, condStack, numOps, lastCodeSep } : Engine) = vm'
  have hs : vm'.flags = standardVerifyFlags := hvm' ▸ hs
  have h : vm'.SameWitness flags ∨ Insensitive op.value := hvm' ▸ h
  change Weakens flags vm' _ (if !vm'.isBranchExecuting && _ then _ else _)
  split_ifs
  · exact .pure (.refl vm')
  · exact .bind_check relaxes_checkPush fun _ _ =>
      weakens_opfunc hc hf hs h

end Engine

end DrcNode
