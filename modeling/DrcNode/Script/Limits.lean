import DrcNode.Library.Runs
import DrcNode.Script.Consensus
import DrcNode.Script.ScriptNum

/-!
# The limits of the script engine

No opcode panics or pushes an item that is too large, the stacks are checked after every opcode and
the operations are counted. A run therefore stays within the limits, and it ends: an opcode is
executed once, and at most two scripts are added to the first two.

## Main results

* `safe_execute_newEngine`.
* `runScript_ne_success_of_isUnspendable`.

Source: `txscript/engine.go`, `txscript/opcode.go` and `txscript/stack.go`.
-/

namespace DrcNode

open Checked List Stack Option Opcode Runs Nat

/-- The engine returned an error. -/
def ScriptFault.Returned : ScriptFault → Prop
  | .error _ => True
  | .other => True
  | .panic _ => False
  | .unfinished => False

/-- The check yields something with a property, or returns an error. -/
abbrev Safe {α : Type} (Q : α → Prop) (x : ScriptCheck α) : Prop :=
  Meets ScriptFault.Returned Q x

/-- The hash functions of the engine have the lengths that they should have. -/
structure Crypto.Digests (crypto : Crypto) : Prop where
  sha1 : ∀ b, (crypto.sha1 b).length = 20
  sha256 : ∀ b, (crypto.sha256 b).length = 32
  ripemd160 : ∀ b, (crypto.ripemd160 b).length = 20

theorem safe_require {p : Prop} [Decidable p] {code : ScriptErrorCode} :
    Safe (fun _ => p) (requireScript p code) := by
  unfold requireScript
  split_ifs with h
  · exact h
  · trivial

theorem safe_makeScriptNum {v : List UInt8} {requireMinimal : Bool} {scriptNumLen : Nat} :
    Safe (fun n => makeScriptNum v requireMinimal scriptNumLen = .ok n)
      (makeScriptNum v requireMinimal scriptNumLen) := by
  have hm : Safe (fun _ => True) (checkMinimalDataEncoding v) := by
    rw [checkMinimalDataEncoding]
    split
    · trivial
    · exact safe_require.mono fun _ _ => trivial
    · exact safe_require.mono fun _ _ => trivial
  have hs : Safe (fun _ => True) (makeScriptNum v requireMinimal scriptNumLen) := by
    refine safe_require.seq ?_
    cases requireMinimal
    case' false => simp
    case' true => refine hm.seq ?_
    all_goals
      split
      · trivial
      · split_ifs <;> trivial
  exact hs.eq_ok.mono fun _ hn => hn.2

/-! ### Stacks -/

/-- No item is too large. -/
def Stack.Bounded (s : Stack) : Prop := ∀ so ∈ s.stk, so.length ≤ maxScriptElementSize

/-- A number of at most 32 bits, as it is read from the stack. -/
def Small (n : Int64) : Prop := -2 ^ 31 < n.toInt ∧ n.toInt < 2 ^ 31
  deriving Decidable

namespace Small

variable {a b : Int64}

theorem lt (h : Small a) : -2 ^ 63 < a.toInt := lt_trans (by decide) h.1

theorem lt_add (ha : Small a) (hb : Small b) : -2 ^ 63 < (a + b).toInt := by
  obtain ⟨ha₁, ha₂⟩ := ha
  obtain ⟨hb₁, hb₂⟩ := hb
  rw [Int64.toInt_add, Int.bmod_eq_of_le (by omega) (by omega)]
  omega

theorem lt_neg (h : Small a) : -2 ^ 63 < (-a).toInt := by
  obtain ⟨h₁, h₂⟩ := h
  rw [Int64.toInt_neg, Int.bmod_eq_of_le (by omega) (by omega)]
  omega

theorem lt_sub (ha : Small a) (hb : Small b) : -2 ^ 63 < (a - b).toInt := by
  obtain ⟨ha₁, ha₂⟩ := ha
  obtain ⟨hb₁, hb₂⟩ := hb
  rw [Int64.toInt_sub, Int.bmod_eq_of_le (by omega) (by omega)]
  omega

end Small

theorem toInt_ofNat_nonneg {n : Nat} (h : n < 2 ^ 63) : -2 ^ 63 < (Int64.ofNat n).toInt := by
  rw [Int64.toInt_ofNat_of_lt h]
  omega

namespace Stack

variable {s : Stack} {so : List UInt8} {idx : Int} {f : Stack → ScriptCheck Stack}

section

variable (h : s.Bounded)
include h

theorem Bounded.push (hso : so.length ≤ maxScriptElementSize) : (s.pushByteArray so).Bounded :=
  forall_mem_cons.2 ⟨hso, h⟩

theorem Bounded.pushBool (val : Bool) : (s.pushBool val).Bounded :=
  h.push (by cases val <;> decide)

theorem safe_peek : Safe (fun so => so.length ≤ maxScriptElementSize) (s.peekByteArray idx) := by
  rw [peekByteArray]
  split_ifs
  · trivial
  · cases hg : s.stk[idx.toNat]? with
    | none => trivial
    | some so => exact h so (mem_of_getElem? hg)

theorem safe_nipN : Safe (fun r => r.1.length ≤ maxScriptElementSize ∧ r.2.Bounded) (s.nipN idx) :=
  (safe_peek h).bind fun _ hso => ⟨hso, fun so hm => h so (mem_of_mem_eraseIdx hm)⟩

theorem safe_pop :
    Safe (fun r => r.1.length ≤ maxScriptElementSize ∧ r.2.Bounded) s.popByteArray := safe_nipN h

theorem safe_popInt : Safe (fun r => Small r.1 ∧ r.2.Bounded) s.popInt :=
  (safe_pop h).bind fun _ hr => safe_makeScriptNum.bind fun _ hn => ⟨abs_toInt_lt hn, hr.2⟩

theorem safe_popBool : Safe (fun r => r.2.Bounded) s.popBool :=
  (safe_pop h).bind fun _ hr => hr.2

theorem safe_pushInt {val : Int64} (hv : -2 ^ 63 < val.toInt) : Safe Bounded (s.pushInt val) := by
  have hne : val ≠ Int64.minValue := by
    rintro rfl
    exact absurd hv (by decide)
  rw [pushInt, ScriptNum.bytes_eq_scriptNumBytes hne]
  exact h.push ((length_scriptNumBytes_toInt_le val).trans (by decide))

theorem safe_nip : Safe Bounded (s.nip idx) := (safe_nipN h).bind fun _ hr => hr.2

theorem safe_rollN : Safe Bounded (s.rollN idx) :=
  (safe_nipN h).bind fun _ hr => hr.2.push hr.1

theorem safe_pickN : Safe Bounded (s.pickN idx) :=
  (safe_peek h).bind fun _ hso => h.push hso

theorem safe_tuck : Safe Bounded s.tuck :=
  (safe_pop h).bind fun _ h₂ => (safe_pop h₂.2).bind fun _ h₁ =>
    ((h₁.2.push h₂.1).push h₁.1).push h₂.1

end

theorem safe_repeatN (hf : ∀ s, s.Bounded → Safe Bounded (f s)) (n : Nat) (h : s.Bounded) :
    Safe Bounded (s.repeatN n f) := by
  have hi : ∀ n s, s.Bounded → Safe Bounded (iterate f n s) := by
    intro n
    induction n with
    | zero => exact fun _ h => h
    | succ n ih => exact fun s h => (hf s h).bind fun s hs => ih s hs
  exact safe_require.seq <| hi n s h

end Stack

/-! ### Opcodes -/

namespace Engine

/-- What holds of the engine before an opcode is executed. -/
structure Bounded (vm : Engine) : Prop where
  dstack : vm.dstack.Bounded
  astack : vm.astack.Bounded
  depth : vm.dstack.depth < 2 ^ 63
  numOps : vm.numOps ≤ maxOpsPerScript
  txIdx : vm.txIdx < vm.tx.txIn.length

/-- What an opcode keeps. -/
structure Kept (vm vm' : Engine) : Prop where
  same : vm.SameCode vm'
  dstack : vm'.dstack.Bounded
  astack : vm'.astack.Bounded
  numOps : vm'.numOps ≤ maxOpsPerScript

/-- The opcode stays within the limits. -/
def Limited (opfunc : OpcodeFunc) : Prop := ∀ op vm, vm.Bounded → Safe vm.Kept (opfunc op vm)

variable {vm vm' : Engine} {op : ParsedOpcode} {crypto : Crypto} {f : Stack → ScriptCheck Stack}
  {c : ScriptErrorCode} {opfunc : OpcodeFunc}

theorem Bounded.kept (h : vm.Bounded) : vm.Kept vm := ⟨.refl vm, h.dstack, h.astack, h.numOps⟩

theorem Kept.update (h : vm.Kept vm') {dstack astack : Stack} (hd : dstack.Bounded)
    (ha : astack.Bounded) (condStack : List OpCond) :
    vm.Kept { vm' with dstack, astack, condStack } :=
  ⟨h.same.trans ⟨_, _, _, _, _, rfl⟩, hd, ha, h.numOps⟩

theorem safe_onStack (h : vm.Kept vm') (hf : Safe Stack.Bounded (f vm'.dstack)) :
    Safe vm.Kept (onStack f op vm') :=
  hf.bind fun _ hs => h.update hs h.astack vm'.condStack

theorem limited_onStack (hf : ∀ s, s.Bounded → Safe Stack.Bounded (f s)) : Limited (onStack f) :=
  fun _ _ h => safe_onStack h.kept (hf _ h.dstack)

theorem limited_repeatN (hf : ∀ s, s.Bounded → Safe Stack.Bounded (f s)) (n : Nat) :
    Limited (onStack fun s => s.repeatN n f) :=
  limited_onStack fun _ h => safe_repeatN hf n h

theorem safe_abstractVerify (h : vm.Kept vm') : Safe vm.Kept (abstractVerify c op vm') :=
  safe_onStack h <| (safe_popBool h.dstack).bind fun _ hs => safe_require.seq hs

theorem limited_thenVerify (hf : Limited opfunc) : Limited (thenVerify opfunc c) :=
  fun op vm h => (hf op vm h).bind fun _ hk => safe_abstractVerify hk

theorem limited_numericUnary {g : Int64 → Int64} (hg : ∀ m, Small m → -2 ^ 63 < (g m).toInt) :
    Limited (numericUnary g) :=
  limited_onStack fun _ h => (safe_popInt h).bind fun r hr =>
    safe_pushInt hr.2 (hg r.1 hr.1)

theorem limited_numericBinary {g : Int64 → Int64 → Int64}
    (hg : ∀ a b, Small a → Small b → -2 ^ 63 < (g a b).toInt) : Limited (numericBinary g) :=
  limited_onStack fun _ h => (safe_popInt h).bind fun r₀ h₀ =>
    (safe_popInt h₀.2).bind fun r₁ h₁ => safe_pushInt h₁.2 (hg r₀.1 r₁.1 h₀.1 h₁.1)

theorem limited_hashTop {hash : List UInt8 → List UInt8} {n : Nat} (hn : n ≤ 32)
    (hh : ∀ b, (hash b).length = n) : Limited (hashTop hash) :=
  limited_onStack fun _ h => (safe_pop h).bind fun r hr => hr.2.push <| by
    rw [hh, maxScriptElementSize]
    omega

theorem limited_nop : Limited opcodeNop := fun _ _ h => safe_require.seq h.kept

theorem limited_conditional (taken : Bool) : Limited (conditional taken) := by
  intro op vm h
  have hp : Safe (fun r => r.2.Bounded) (popIfBool vm) := by
    rw [popIfBool]
    split_ifs
    · exact safe_popBool h.dstack
    · exact (safe_pop h.dstack).bind fun _ hr =>
        safe_require.seq <| safe_require.seq hr.2
  rw [conditional]
  split_ifs
  · exact hp.bind fun _ hs => h.kept.update hs h.astack _
  · exact h.kept.update h.dstack h.astack _

theorem limited_else : Limited opcodeElse := by
  intro op vm h
  rw [opcodeElse]
  split
  · trivial
  · exact h.kept.update h.dstack h.astack _
  · exact h.kept.update h.dstack h.astack _
  · exact h.kept

theorem limited_endif : Limited opcodeEndif := by
  intro op vm h
  rw [opcodeEndif]
  split
  · trivial
  · exact h.kept.update h.dstack h.astack _

theorem limited_toAltStack : Limited opcodeToAltStack := fun _ vm h =>
  (safe_pop h.dstack).bind fun _ hr =>
    h.kept.update hr.2 (h.astack.push hr.1) vm.condStack

theorem limited_fromAltStack : Limited opcodeFromAltStack := fun _ vm h =>
  (safe_pop h.astack).bind fun _ hr =>
    h.kept.update (h.dstack.push hr.1) hr.2 vm.condStack

theorem safe_upgradableNop (h : vm.Bounded) : Safe vm.Kept (upgradableNop vm) :=
  safe_require.seq h.kept

theorem safe_peekLockTime (h : vm.Bounded) : Safe (fun _ => True) (peekLockTime vm) :=
  (safe_peek h.dstack).bind fun _ _ => safe_makeScriptNum.bind fun _ _ =>
    safe_require.bind fun _ _ => trivial

theorem safe_verifyLockTime (txLockTime threshold lockTime : Int) :
    Safe (fun _ => True) (verifyLockTime txLockTime threshold lockTime) :=
  safe_require.seq <| safe_require.mono fun _ _ => trivial

attribute [local irreducible] verifyLockTime

theorem safe_txIn (h : vm.Bounded) : Safe (fun _ => True) vm.txIn := by
  rw [Engine.txIn, getElem?_eq_getElem h.txIdx]
  trivial

theorem limited_checkLockTimeVerify : Limited opcodeCheckLockTimeVerify := by
  intro op vm h
  rw [opcodeCheckLockTimeVerify]
  split_ifs
  · exact safe_upgradableNop h
  · refine (safe_peekLockTime h).bind fun lockTime _ => ?_
    refine (safe_verifyLockTime vm.tx.lockTime.toNat scriptLockTimeThreshold
      lockTime.toInt).seq ?_
    exact (safe_txIn h).bind fun _ _ => safe_require.bind fun _ _ => h.kept

theorem limited_checkSequenceVerify : Limited opcodeCheckSequenceVerify := by
  intro op vm h
  rw [opcodeCheckSequenceVerify]
  split_ifs
  · exact safe_upgradableNop h
  refine (safe_peekLockTime h).bind fun _ _ => ?_
  split_ifs
  · exact h.kept
  · refine safe_require.seq <| (safe_txIn h).bind fun txIn _ =>
      safe_require.seq ?_
    exact (safe_verifyLockTime _ _ _).seq h.kept

theorem safe_checkHashTypeEncoding {hashType : UInt8} :
    Safe (fun _ => True) (vm.checkHashTypeEncoding hashType) := by
  rw [checkHashTypeEncoding]
  split_ifs
  · trivial
  · exact safe_require.mono fun _ _ => trivial

theorem safe_checkPubKeyEncoding {pubKey : List UInt8} :
    Safe (fun _ => True) (vm.checkPubKeyEncoding pubKey) :=
  safe_require.seq <| safe_require.mono fun _ _ => trivial

theorem safe_checkSignatureEncoding {sig : List UInt8} :
    Safe (fun _ => True) (vm.checkSignatureEncoding sig) := by
  rw [checkSignatureEncoding]
  split_ifs
  · trivial
  · rw [checkDEREncoding]
    repeat' first
      | exact safe_require.mono fun _ _ => trivial
      | refine safe_require.seq ?_

theorem safe_signatureHash {script : List ParsedOpcode} {hashType : UInt8} :
    Safe (fun _ => True) (vm.signatureHash crypto script hashType) := by
  rw [signatureHash]
  split_ifs
  · rw [calcWitnessSignatureHash]
    split
    · trivial
    · trivial
  · trivial

theorem safe_verifyDirectly {signature : Signature} {hash : List UInt8} {pubKey : PublicKey} :
    Safe (fun _ => True) (verifyDirectly crypto signature hash pubKey) := trivial

theorem safe_checkSig {pkBytes fullSigBytes : List UInt8} :
    Safe (fun _ => True) (checkSig crypto vm pkBytes fullSigBytes) := by
  rw [checkSig, checkSigBy]
  split
  · trivial
  · refine safe_checkHashTypeEncoding.seq <| safe_checkSignatureEncoding.seq <|
      safe_checkPubKeyEncoding.bind fun _ _ => safe_signatureHash.bind fun _ _ => ?_
    split
    · exact safe_verifyDirectly.bind fun _ _ => safe_require.seq trivial
    · trivial

theorem limited_checkSig : Limited (opcodeCheckSig crypto) := fun _ vm h =>
  (safe_pop h.dstack).bind fun _ h₁ => (safe_pop h₁.2).bind fun _ h₂ =>
    safe_checkSig.bind fun valid _ => h.kept.update (h₂.2.pushBool valid) h.astack vm.condStack

theorem safe_checkMultiSigLoop {script : List ParsedOpcode}
    {pubKeys signatures : List (List UInt8)} :
    Safe (fun _ => True) (checkMultiSigLoop crypto vm script pubKeys signatures) := by
  induction pubKeys generalizing signatures with
  | nil => cases signatures <;> trivial
  | cons pubKey pubKeys ih =>
    cases signatures with
    | nil => trivial
    | cons rawSig signatures =>
      rw [checkMultiSigLoop, checkMultiSigLoopBy]
      split_ifs
      · trivial
      split
      · exact ih
      refine safe_checkHashTypeEncoding.seq <| safe_checkSignatureEncoding.seq ?_
      split
      · exact ih
      refine safe_checkPubKeyEncoding.seq ?_
      split
      · exact ih
      · refine safe_signatureHash.bind fun _ _ => safe_verifyDirectly.bind fun _ _ => ?_
        split_ifs
        · exact ih
        · exact ih

theorem safe_popMany {n : Nat} {s : Stack} (h : s.Bounded) :
    Safe (fun r => r.2.Bounded) (popMany n s) := by
  induction n generalizing s with
  | zero => exact h
  | succ n ih => exact (safe_pop h).bind fun _ hr => (ih hr.2).bind fun _ hr => hr

theorem limited_checkMultiSig : Limited (opcodeCheckMultiSig crypto) := by
  intro op vm h
  refine (safe_popInt h.dstack).bind fun r₁ h₁ => safe_require.seq <|
    safe_require.bind fun _ ho => (safe_popMany h₁.2).bind fun _ h₂ =>
    (safe_popInt h₂).bind fun _ h₃ => safe_require.seq <|
    (safe_popMany h₃.2).bind fun _ h₄ => (safe_pop h₄).bind fun _ h₅ =>
    safe_require.seq <| safe_checkMultiSigLoop.bind fun success _ =>
    safe_require.seq ?_
  exact ⟨⟨_, _, _, _, _, rfl⟩, h₅.2.pushBool success, h.astack, ho⟩

theorem toInt_numOfProp {p : Prop} [Decidable p] : -2 ^ 63 < (numOfProp p).toInt := by
  unfold numOfProp
  split_ifs <;> decide

theorem limited_opcodeArray (hc : crypto.Digests) :
    ∀ entry ∈ opcodeArray crypto, Limited entry.2 := by
  have ho : Small 1 := by decide
  have hab : ∀ m, Small m → -2 ^ 63 < (if m < 0 then -m else m).toInt := by
    intro m hm
    split_ifs
    · exact hm.lt_neg
    · exact hm.lt
  have hch : ∀ {a b : Int64} (p : Prop) [Decidable p], Small a → Small b →
      -2 ^ 63 < (if p then a else b).toInt := by
    intro a b p _ ha hb
    split_ifs
    · exact ha.lt
    · exact hb.lt
  have hel : Limited opcodeEqual := limited_onStack fun _ h => (safe_pop h).bind fun _ h₁ =>
    (safe_pop h₁.2).bind fun _ h₂ => h₂.2.pushBool _
  have hd : Limited opcodeDepth := fun _ vm h =>
    safe_onStack h.kept (safe_pushInt h.dstack (toInt_ofNat_nonneg h.depth))
  have hs : Limited opcodeSize := limited_onStack fun _ h => (safe_peek h).bind fun _ hso =>
    safe_pushInt h (toInt_ofNat_nonneg (by
      rw [maxScriptElementSize] at hso
      omega))
  have hw : Limited opcodeWithin := limited_onStack fun _ h =>
    (safe_popInt h).bind fun _ h₁ => (safe_popInt h₁.2).bind fun _ h₂ =>
      (safe_popInt h₂.2).bind fun _ h₃ => safe_pushInt h₃.2 toInt_numOfProp
  have hi : Limited opcodeIfDup := limited_onStack fun s h => (safe_peek h).bind
    fun so hso => by
      cases asBool so with
      | true => exact h.push hso
      | false => exact h
  have hpi : Limited opcodePick := limited_onStack fun _ h =>
    (safe_popInt h).bind fun _ hr => safe_pickN hr.2
  have hrl : Limited opcodeRoll := limited_onStack fun _ h =>
    (safe_popInt h).bind fun _ hr => safe_rollN hr.2
  have hn : ∀ n idx, Limited (onStack fun s => s.repeatN n fun s => s.nip idx) := fun n _ =>
    limited_repeatN (fun _ => safe_nip) n
  have hp : ∀ n idx, Limited (onStack fun s => s.repeatN n fun s => s.pickN idx) := fun n _ =>
    limited_repeatN (fun _ => safe_pickN) n
  have hro : ∀ n idx, Limited (onStack fun s => s.repeatN n fun s => s.rollN idx) := fun n _ =>
    limited_repeatN (fun _ => safe_rollN) n
  have he : ∀ c, Limited fun _ _ => scriptError c := fun _ _ _ _ => trivial
  have hte : ∀ (p : Int64 → Prop) [∀ m, Decidable (p m)],
      Limited (numericUnary fun m => numOfProp (p m)) := fun _ _ =>
    limited_numericUnary fun _ _ => toInt_numOfProp
  have ht : ∀ (p : Int64 → Int64 → Prop) [∀ a b, Decidable (p a b)],
      Limited (numericBinary fun a b => numOfProp (p a b)) := fun _ _ =>
    limited_numericBinary fun _ _ _ _ => toInt_numOfProp
  simp only [opcodeArray, forall_mem_cons, not_mem_nil, false_implies, implies_true, and_true]
  exact ⟨limited_nop, he _, limited_conditional _, limited_conditional _, he _, he _, limited_else,
    limited_endif, fun _ _ h => safe_abstractVerify h.kept, he _, limited_toAltStack,
    limited_fromAltStack, hn _ _, hp _ _, hp _ _, hp _ _, hro _ _, hro _ _,
    hi, hd, hn _ _, hp _ _, limited_onStack fun _ => safe_nip, hp _ _,
    hpi, hrl, hro _ _, hro _ _, limited_onStack fun _ => safe_tuck, he _, he _,
    he _, he _, hs, he _, he _, he _, he _, hel, limited_thenVerify hel, he _, he _,
    limited_numericUnary fun _ hm => hm.lt_add ho, limited_numericUnary fun _ hm => hm.lt_sub ho,
    he _, he _, limited_numericUnary fun _ hm => hm.lt_neg, limited_numericUnary hab, hte _,
    hte _, limited_numericBinary fun _ _ ha hb => ha.lt_add hb,
    limited_numericBinary fun _ _ ha hb => hb.lt_sub ha, he _, he _, he _, he _, he _, ht _,
    ht _, ht _, limited_thenVerify (ht _), ht _, ht _, ht _, ht _,
    ht _, limited_numericBinary fun _ _ ha hb => hch _ hb ha,
    limited_numericBinary fun _ _ ha hb => hch _ hb ha, hw,
    limited_hashTop (by decide) hc.ripemd160, limited_hashTop (by decide) hc.sha1,
    limited_hashTop (by decide) hc.sha256,
    limited_hashTop (by decide) fun _ => hc.ripemd160 _,
    limited_hashTop (by decide) fun _ => hc.sha256 _, fun _ _ h => ⟨⟨_, _, _, _, _, rfl⟩, h.dstack,
    h.astack, h.numOps⟩, limited_checkSig,
    limited_thenVerify limited_checkSig, limited_checkMultiSig,
    limited_thenVerify limited_checkMultiSig, limited_nop, limited_checkLockTimeVerify,
    limited_checkSequenceVerify, limited_nop, limited_nop, limited_nop, limited_nop, limited_nop,
    limited_nop, limited_nop⟩

theorem Kept.trans {vm'' : Engine} (h : vm.Kept vm') (h' : vm'.Kept vm'') : vm.Kept vm'' :=
  ⟨h.same.trans h'.same, h'.dstack, h'.astack, h'.numOps⟩

theorem safe_opfunc (hc : crypto.Digests) (h : vm.Bounded)
    (hd : op.value ≤ op16 → op.data.length ≤ maxScriptElementSize) :
    Safe vm.Kept (DrcNode.opfunc crypto op.value op vm) := by
  rw [DrcNode.opfunc]
  split_ifs with _ hp _ _ hn
  · exact safe_onStack h.kept (h.dstack.push (zero_le _))
  · exact safe_onStack h.kept (h.dstack.push (hd (UInt8.le_trans hp (by decide))))
  · exact safe_onStack h.kept (safe_pushInt h.dstack (by decide))
  · trivial
  · exact safe_onStack h.kept (safe_pushInt h.dstack (toInt_ofNat_nonneg
      (lt_trans (UInt8.toNat_lt _) (by decide))))
  · cases hl : (opcodeArray crypto).lookup op.value with
    | none => trivial
    | some f =>
      obtain ⟨before, after, heq, -⟩ := lookup_eq_some_iff.1 hl
      refine limited_opcodeArray hc (op.value, f) ?_ op vm h
      rw [heq]
      exact mem_append_right before mem_cons_self

/-- **No opcode panics**, and all of them keep the limits. -/
theorem safe_executeOpcode (hc : crypto.Digests) (h : vm.Bounded) :
    Safe vm.Kept (executeOpcode crypto vm op) := by
  refine safe_require.seq <| safe_require.seq ?_
  have hl : Safe (fun vm' => vm'.Bounded ∧ vm.Kept vm' ∧
      (op.value ≤ op16 → op.data.length ≤ maxScriptElementSize)) (vm.checkLimits op) := by
    rw [checkLimits]
    split_ifs with hop
    · exact safe_require.bind fun _ ho => ⟨⟨h.dstack, h.astack, h.depth, ho, h.txIdx⟩,
        ⟨⟨_, _, _, _, _, rfl⟩, h.dstack, h.astack, ho⟩, fun hle => absurd hop (UInt8.not_lt.2 hle)⟩
    · exact safe_require.bind fun _ hd => ⟨h, h.kept, fun _ => hd⟩
  refine hl.bind fun vm' h' => ?_
  split_ifs
  · exact h'.2.1
  have hp : Safe (fun _ => True) (vm'.checkPush op) := by
    rw [checkPush]
    split_ifs
    · exact safe_require.mono fun _ _ => trivial
    · trivial
  exact hp.seq <| (safe_opfunc hc h'.1 h'.2.2).mono fun _ hk => h'.2.1.trans hk

/-! ### Steps -/

/-- The number of opcodes in scripts. -/
def opcodes (scripts : List (List ParsedOpcode)) : Nat := (scripts.map List.length).sum

/-- The stacks hold at most `MaxStackSize` items, unless a witness has just been put on the stack.
-/
def StackFits (vm : Engine) : Prop :=
  vm.dstack.depth + vm.astack.depth ≤ maxStackSize ∨
    vm.scriptOff = 0 ∧ vm.astack.stk = [] ∧
      ∃ txIn, vm.tx.txIn[vm.txIdx]? = some txIn ∧ vm.dstack.items <+: txIn.witness

/-- What does not change from one script to the next. -/
structure Stable (start vm : Engine) : Prop where
  bounded : vm.Bounded
  witness : ∀ txIn, vm.tx.txIn[vm.txIdx]? = some txIn → txIn.witness.length < 2 ^ 63
  saved : ∀ so ∈ vm.savedFirstStack, so.length ≤ maxScriptElementSize
  savedLength : vm.savedFirstStack.length ≤ maxStackSize
  script : vm.bip16 = true → ∃ data rest, vm.scripts[1]? = some (⟨hash160, data⟩ :: rest)
  first : vm.scriptIdx ≤ 1 → opcodes vm.scripts ≤ opcodes start.scripts
  second : vm.scriptIdx ≤ 2 → vm.bip16 = true →
    opcodes vm.scripts ≤ opcodes start.scripts + maxScriptElementSize
  all : opcodes vm.scripts ≤ maxSteps start
  count : vm.scripts.length ≤ max 2 (vm.scriptIdx + 1)

/-- What holds of the engine after `n` steps. -/
structure After (start : Engine) (n : Nat) (vm : Engine) : Prop extends Stable start vm where
  fits : vm.StackFits
  redeem : vm.bip16 = true → vm.scriptIdx = 1 →
    vm.savedFirstStack ≠ [] ∨ vm.scriptOff = 0 ∧ vm.dstack.stk = [] ∧ vm.condStack = []
  steps : n ≤ opcodes (vm.scripts.take vm.scriptIdx) + vm.scriptOff

/-- There is an opcode to execute, unless the scripts have ended. -/
structure Live (vm : Engine) : Prop where
  opcode : vm.scriptIdx < vm.scripts.length →
    vm.scriptOff < ((vm.scripts[vm.scriptIdx]?).getD []).length
  ended : vm.scripts.length ≤ vm.scriptIdx → vm.scriptOff = 0

variable {start next : Engine} {n : Nat} {pops : List ParsedOpcode}

theorem length_parseScriptLoop_le (rounds : Nat) (script : List UInt8) :
    (parseScriptLoop rounds script).1.length ≤ rounds := by
  induction rounds generalizing script with
  | zero => exact le_rfl
  | succ rounds ih =>
    cases script with
    | nil => exact zero_le _
    | cons value rest =>
      rw [parseScriptLoop]
      split
      · exact zero_le _
      · exact succ_le_succ (ih _)

/-- A script has no more opcodes than bytes. -/
theorem safe_parse {script : List UInt8} :
    Safe (fun pops => pops.length ≤ script.length) (parse script) := by
  have hl := length_parseScriptLoop_le script.length script
  rw [← parseScript] at hl
  rw [parse]
  cases hp : parseScript script with
  | mk pops ok =>
    rw [hp] at hl
    cases ok with
    | false => trivial
    | true => exact hl

theorem opcodes_append (scripts more : List (List ParsedOpcode)) :
    opcodes (scripts ++ more) = opcodes scripts + opcodes more := by
  rw [opcodes, map_append, List.sum_append, opcodes, opcodes]

theorem opcodes_singleton (pops : List ParsedOpcode) : opcodes [pops] = pops.length :=
  add_zero _

/-- An empty script is the last one, and it is passed over. -/
theorem After.skipEmpty (h : After start n vm) (hi : vm.scriptIdx ≠ 0) (ho : vm.scriptOff = 0) :
    After start n { skipEmpty vm with lastCodeSep := 0 } ∧
      Live { skipEmpty vm with lastCodeSep := 0 } := by
  have hc := h.count
  rw [Engine.skipEmpty]
  split
  · next he =>
    have ht : opcodes (vm.scripts.take (vm.scriptIdx + 1)) =
        opcodes (vm.scripts.take vm.scriptIdx) := by
      rw [take_add_one, he]
      exact opcodes_append _ [[]]
    refine ⟨⟨⟨⟨h.bounded.dstack, h.bounded.astack, h.bounded.depth, h.bounded.numOps,
      h.bounded.txIdx⟩, h.witness, h.saved, h.savedLength, h.script,
      fun hle => h.first (le_of_succ_le hle), fun hle => h.second (le_of_succ_le hle),
      h.all, ?_⟩, h.fits, fun _ hon => absurd (Nat.succ.inj hon) hi, ?_⟩, ?_⟩
    · exact hc.trans (max_le_max_left 2 (le_succ _))
    · exact h.steps.trans_eq (congrArg (· + vm.scriptOff) ht.symm)
    · refine ⟨fun hlt => ?_, fun _ => ho⟩
      simp only at hlt
      omega
  · next hne =>
    refine ⟨⟨⟨⟨h.bounded.dstack, h.bounded.astack, h.bounded.depth, h.bounded.numOps,
      h.bounded.txIdx⟩, h.witness, h.saved, h.savedLength, h.script, h.first, h.second, h.all,
      hc⟩, h.fits, h.redeem, h.steps⟩, fun hlt => ?_, fun _ => ho⟩
    rw [ho, getElem?_eq_getElem hlt, getD_some, length_pos_iff]
    intro he
    exact hne (List.getElem?_eq_some_iff.2 ⟨hlt, he⟩)

/-- The engine when a script has ended, up to the choice of the next one. -/
structure AtEnd (start : Engine) (n : Nat) (vm : Engine) : Prop extends Stable start vm where
  fits : vm.dstack.depth ≤ maxStackSize
  astack : vm.astack.stk = []
  cond : vm.condStack = []
  off : vm.scriptOff = 0
  redeem : vm.bip16 = true → vm.scriptIdx = 1 → vm.savedFirstStack ≠ []
  steps : n ≤ opcodes (vm.scripts.take (vm.scriptIdx + 1))

/-- The next script, after more scripts have been added. -/
theorem AtEnd.advance (h : AtEnd start n vm) {dstack : Stack} (more : List (List ParsedOpcode))
    (saved : List (List UInt8)) (witnessProgram : Option (List UInt8))
    (hvm : next = { vm with
      scriptIdx := vm.scriptIdx + 1, scripts := vm.scripts ++ more, dstack
      savedFirstStack := saved, witnessProgram })
    (hd : dstack.Bounded) (hde : dstack.depth < 2 ^ 63) (hfi : next.StackFits)
    (hsa : ∀ so ∈ saved, so.length ≤ maxScriptElementSize)
    (hl : saved.length ≤ maxStackSize)
    (hr : vm.bip16 = true → vm.scriptIdx = 0 → saved ≠ [] ∨ dstack.stk = [])
    (hf : vm.scriptIdx = 0 → opcodes more = 0)
    (hse : vm.scriptIdx ≤ 1 → vm.bip16 = true → opcodes more ≤ maxScriptElementSize)
    (ha : opcodes vm.scripts + opcodes more ≤ maxSteps start)
    (hc : more.length ≤ min 1 vm.scriptIdx) : After start n next := by
  subst hvm
  have ht := opcodes_append vm.scripts more
  refine ⟨⟨⟨hd, h.bounded.astack, hde, h.bounded.numOps, h.bounded.txIdx⟩, h.witness, hsa,
    hl, ?_, ?_, ?_, ?_, ?_⟩, hfi, ?_, ?_⟩
  · intro hb16
    obtain ⟨data, rest, hs⟩ := h.script hb16
    refine ⟨data, rest, ?_⟩
    rw [getElem?_append_left (List.getElem?_eq_some_iff.1 hs).1, hs]
  · intro hi
    have hz : vm.scriptIdx = 0 := le_zero.1 (le_of_succ_le_succ hi)
    have hle := h.first (hz.trans_le (zero_le 1))
    simp only [ht, hf hz]
    exact hle
  · intro hi hb16
    have ho : vm.scriptIdx ≤ 1 := Nat.le_of_succ_le_succ hi
    exact ht.trans_le (Nat.add_le_add (h.first ho) (hse ho hb16))
  · exact ht.trans_le ha
  · have hle := h.count
    simp only [length_append]
    omega
  · intro hb16 hi
    exact (hr hb16 (Nat.succ.inj hi)).imp_right fun hst => ⟨h.off, hst, h.cond⟩
  · have hta : opcodes ((vm.scripts ++ more).take (vm.scriptIdx + 1)) =
        opcodes (vm.scripts.take (vm.scriptIdx + 1)) +
          opcodes (more.take (vm.scriptIdx + 1 - vm.scripts.length)) := by
      rw [take_append, opcodes_append]
    simp only [hta]
    exact h.steps.trans (le_add_right_of_le (le_add_right _ _))

theorem stackFits_of_le (ha : vm.astack.stk = []) (h : vm.dstack.depth ≤ maxStackSize) :
    vm.StackFits := by
  refine .inl ?_
  rw [show vm.astack.depth = 0 from congrArg List.length ha]
  exact h

theorem maxStackSize_lt {n : Nat} (h : n ≤ maxStackSize) : n < 2 ^ 63 := h.trans_lt (by decide)

theorem safe_witnessScript {program : List UInt8} {witness : List (List UInt8)} :
    Safe (fun r => r.1.length ≤ maxScriptSize ∧ r.2 <+: witness)
      (witnessScript crypto program witness) := by
  rw [witnessScript]
  split_ifs with hl
  · refine safe_require.seq <| safe_parse.bind fun pops hp => ⟨?_, prefix_refl _⟩
    refine le_trans hp ?_
    simp only [payToPubKeyHashScript, length_append, hl]
    decide
  · exact safe_require.seq <| safe_require.bind fun _ hs => safe_require.seq <|
      safe_parse.bind fun _ hp => ⟨le_trans hp hs, dropLast_prefix _⟩
  · trivial

theorem safe_verifyWitnessProgram {txIn : TxIn} (h : AtEnd start n vm)
    (ht : vm.tx.txIn[vm.txIdx]? = some txIn) (hid : vm.scriptIdx ≠ 0)
    (hb16 : vm.scriptIdx ≤ 1 → vm.bip16 = false)
    (hro : opcodes vm.scripts ≤ opcodes start.scripts + maxScriptElementSize) :
    Safe (fun next => After start n next ∧ next.scriptIdx ≠ 0 ∧ next.scriptOff = 0)
      (verifyWitnessProgram crypto { vm with scriptIdx := vm.scriptIdx + 1 } txIn.witness) := by
  have ha : ∀ more program {dstack next}, next = { vm with
      scriptIdx := vm.scriptIdx + 1, scripts := vm.scripts ++ more, dstack
      savedFirstStack := vm.savedFirstStack, witnessProgram := program } →
      Stack.Bounded dstack → dstack.depth < 2 ^ 63 → next.StackFits →
      opcodes more ≤ maxScriptSize → more.length ≤ 1 →
      After start n next ∧ next.scriptIdx ≠ 0 ∧ next.scriptOff = 0 := by
    intro more program dstack next hvm hd hde hf hm hc
    refine ⟨h.advance _ _ _ hvm hd hde hf h.saved h.savedLength
      (fun _ hz => absurd hz hid) (fun hz => absurd hz hid)
      (fun ho htr => absurd htr (Bool.eq_false_iff.1 (hb16 ho)))
      (Nat.add_le_add hro hm) (le_min hc (hc.trans (Nat.one_le_iff_ne_zero.2 hid))),
      ?_, ?_⟩
    · rw [hvm]
      exact Nat.succ_ne_zero _
    · rw [hvm]
      exact h.off
  rw [verifyWitnessProgram]
  split_ifs
  · refine safe_witnessScript.bind fun r hr => safe_require.bind fun _ hi =>
      ha _ _ rfl ?_ ?_ ?_ ((opcodes_singleton _).trans_le hr.1) le_rfl
    · intro so hso
      exact hi so (mem_reverse.1 hso)
    · rw [Stack.depth, setItems, length_reverse]
      exact hr.2.length_le.trans_lt (h.witness _ ht)
    · refine .inr ⟨h.off, h.astack, txIn, ht, ?_⟩
      rw [Stack.items, setItems, reverse_reverse]
      exact hr.2
  · refine safe_require.seq <| ha [] none ?_ h.bounded.dstack
      (maxStackSize_lt h.fits) (stackFits_of_le h.astack h.fits) (zero_le _) (zero_le _)
    rw [append_nil]

theorem safe_checkErrorCondition {finalScript : Bool} (h : vm.dstack.Bounded) :
    Safe (fun vm' => vm.checkErrorCondition finalScript = .ok vm')
      (vm.checkErrorCondition finalScript) :=
  have hs : Safe (fun _ => True) (vm.checkErrorCondition finalScript) :=
    safe_require.seq <| safe_require.seq <| safe_require.seq <|
      safe_require.seq <| (safe_popBool h).bind fun _ _ => safe_require.bind fun _ _ =>
        trivial
  hs.eq_ok.mono fun _ hvm => hvm.2

theorem safe_nextScript (h : AtEnd start n vm) :
    Safe (fun next => After start n next ∧ next.scriptIdx ≠ 0 ∧ next.scriptOff = 0)
      (nextScript crypto vm) := by
  have hd := maxStackSize_lt h.fits
  have hfi := stackFits_of_le h.astack h.fits
  rw [nextScript]
  split_ifs with hf hs hw
  · -- the stack is kept for the script that the signature script pushes
    refine ⟨h.advance [] vm.dstack.items vm.witnessProgram ?_ h.bounded.dstack hd hfi
      (fun so hso => h.bounded.dstack so (mem_reverse.1 hso)) ?_ ?_ (fun _ => rfl)
      (fun _ _ => zero_le _) h.all (zero_le _), succ_ne_zero _, h.off⟩
    · rw [append_nil]
    · rw [Stack.items, length_reverse]
      exact h.fits
    · rw [Stack.items, Ne, reverse_eq_nil_iff]
      exact fun _ _ => (em _).symm
  · have hsa := @safe_checkErrorCondition { vm with scriptIdx := vm.scriptIdx + 1 } false
      h.bounded.dstack
    refine hsa.bind fun vm' hc => ?_
    obtain ⟨item, stk, -, -, rfl⟩ := exists_of_checkErrorCondition hc
    have hne := h.redeem hs.2 hs.1
    simp only [getLast?_eq_some_getLast hne]
    refine safe_parse.bind fun pops hp => ?_
    have hm := (opcodes_singleton pops).trans_le (le_trans hp (h.saved _ (getLast_mem hne)))
    have hl : vm.savedFirstStack.dropLast.length ≤ maxStackSize := by
      rw [length_dropLast]
      exact (sub_le _ _).trans h.savedLength
    refine ⟨h.advance [pops] vm.savedFirstStack vm.witnessProgram rfl ?_ ?_ ?_ h.saved
      h.savedLength (fun _ hz => ?_) (fun hz => ?_) (fun _ _ => hm) ?_ ?_,
      succ_ne_zero _, h.off⟩
    · intro so hso
      exact h.saved so (mem_of_mem_dropLast (mem_reverse.1 hso))
    · rw [Stack.depth, setItems, length_reverse]
      exact maxStackSize_lt hl
    · refine stackFits_of_le h.astack ?_
      rw [Stack.depth, setItems, length_reverse]
      exact hl
    · cases hs.1.symm.trans hz
    · cases hs.1.symm.trans hz
    · exact (Nat.add_le_add (h.first hs.1.le) hm).trans (Nat.le_add_right _ _)
    · rw [hs.1]
      exact le_rfl
  · have ht : Safe (fun txIn => vm.tx.txIn[vm.txIdx]? = some txIn) vm.txIn := by
      rw [Engine.txIn, getElem?_eq_getElem h.bounded.txIdx]
      exact rfl
    refine ht.bind fun txIn ht => safe_verifyWitnessProgram h ht ?_ (bip16_eq_false hf hs) ?_
    · omega
    · obtain ho | htw := hw
      · exact (h.first ho.1.le).trans (le_add_right _ _)
      · exact h.second htw.1.le htw.2.2
  · refine ⟨h.advance [] vm.savedFirstStack vm.witnessProgram ?_ h.bounded.dstack hd
      hfi h.saved h.savedLength (fun hb16 hz => absurd ⟨hz, hb16⟩ hf) (fun _ => rfl)
      (fun _ _ => zero_le _) h.all (zero_le _), succ_ne_zero _, h.off⟩
    rw [append_nil]

theorem opfunc_of_executeOpcode (h : executeOpcode crypto vm op = .ok vm')
    (hc : vm.condStack = []) :
    ∃ numOps, DrcNode.opfunc crypto op.value op { vm with numOps } = .ok vm' := by
  obtain ⟨-, -, h⟩ := bind_eq_ok.1 h
  obtain ⟨-, -, h⟩ := bind_eq_ok.1 h
  obtain ⟨vm₁, hl, h⟩ := bind_eq_ok.1 h
  have hvm₁ : ∃ numOps, vm₁ = { vm with numOps } := by
    rw [checkLimits] at hl
    split_ifs at hl
    · obtain ⟨-, -, hl⟩ := bind_eq_ok.1 hl
      exact ⟨_, (pure_eq_ok.1 hl).symm⟩
    · obtain ⟨-, -, hl⟩ := bind_eq_ok.1 hl
      exact ⟨_, (pure_eq_ok.1 hl).symm⟩
  obtain ⟨numOps, rfl⟩ := hvm₁
  have he : isBranchExecuting { vm with numOps } = true := isBranchExecuting_of_nil hc
  rw [he, Bool.not_true, Bool.false_and] at h
  obtain ⟨-, -, h⟩ := bind_eq_ok.1 h
  exact ⟨numOps, h⟩

/-- The first opcode of a pay-to-script-hash script fails on an empty stack. -/
theorem After.savedFirstStack_ne_nil (h : After start n vm) (hb16 : vm.bip16 = true)
    (hi : vm.scriptIdx = 1) (hpo : (vm.scripts[vm.scriptIdx]?).bind (·[vm.scriptOff]?) = some op)
    (he : executeOpcode crypto { vm with scriptOff := vm.scriptOff + 1 } op = .ok vm') :
    vm.savedFirstStack ≠ [] := by
  obtain hsa | ⟨hof, hst, hc⟩ := h.redeem hb16 hi
  · exact hsa
  obtain ⟨data, rest, hsc⟩ := h.script hb16
  rw [hi, hsc, hof] at hpo
  obtain rfl := some.inj hpo
  obtain ⟨numOps, ho⟩ := opfunc_of_executeOpcode he hc
  have hp : DrcNode.opfunc crypto hash160 = opcodeHash160 crypto := rfl
  obtain ⟨s, hs, -⟩ := bind_eq_ok.1 ho
  obtain ⟨r, hr, -⟩ := bind_eq_ok.1 hs
  have hpo : ∀ s : Stack, s.stk = [] →
      s.popByteArray = scriptError .errInvalidStackOperation := by
    rintro ⟨_, _⟩ rfl
    rfl
  cases (hpo _ hst).symm.trans hr

theorem safe_step (hc : crypto.Digests) (h : After start n vm) :
    Safe (fun r => After start (n + 1) r.2 ∧ r.2.Live ∧
      r.1 = decide (r.2.scripts.length ≤ r.2.scriptIdx)) (step crypto vm) := by
  rw [step, stepBy]
  cases hpo : (vm.scripts[vm.scriptIdx]?).bind (·[vm.scriptOff]?) with
  | none => trivial
  | some op =>
    obtain ⟨pops, hp, hop⟩ := bind_eq_some_iff.1 hpo
    have hi : ¬vm.scripts.length ≤ vm.scriptIdx := not_le.2 (List.getElem?_eq_some_iff.1 hp).1
    have hb : Bounded { vm with scriptOff := vm.scriptOff + 1 } :=
      ⟨h.bounded.dstack, h.bounded.astack, h.bounded.depth, h.bounded.numOps, h.bounded.txIdx⟩
    refine (safe_executeOpcode hc hb).eq_ok.bind fun vm₁ hvm₁ => ?_
    have hr := fun hbi16 hi => h.savedFirstStack_ne_nil hbi16 hi hpo hvm₁.2
    obtain ⟨⟨dstack, astack, condStack, numOps, lastCodeSep, rfl⟩, hd, ha, hn⟩ := hvm₁.1
    refine safe_require.bind fun _ hde => ?_
    have hst : dstack.depth ≤ maxStackSize := (le_add_right _ _).trans hde
    split_ifs with ho
    · refine ⟨⟨⟨⟨hd, ha, maxStackSize_lt hst, hn, h.bounded.txIdx⟩, h.witness, h.saved,
        h.savedLength, h.script, h.first, h.second, h.all, h.count⟩, .inl hde,
        fun hbi16 hi => .inl (hr hbi16 hi), succ_le_succ h.steps⟩,
        ⟨fun _ => ho, fun hle => absurd hle hi⟩, (decide_eq_false hi).symm⟩
    · have hl : pops.length = vm.scriptOff + 1 := by
        simp only [hp, getD_some] at ho
        have := (List.getElem?_eq_some_iff.1 hop).1
        omega
      refine safe_require.bind fun _ hco => ?_
      have he : AtEnd start (n + 1) { vm with
          scriptOff := 0, dstack, astack := astack.setItems [], condStack, numOps := 0
          lastCodeSep } := by
        refine ⟨⟨⟨hd, ?_, maxStackSize_lt hst, zero_le _, h.bounded.txIdx⟩, h.witness, h.saved,
          h.savedLength, h.script, h.first, h.second, h.all, h.count⟩, hst, rfl, hco, rfl,
          hr, ?_⟩
        · rintro so ⟨⟩
        · simp only [take_add_one, hp, opcodes_append, toList_some, opcodes_singleton, hl]
          exact succ_le_succ h.steps
      refine (safe_nextScript he).bind fun next hnt => ?_
      have hs := hnt.1.skipEmpty hnt.2.1 hnt.2.2
      exact ⟨hs.1, hs.2, rfl⟩

/-! ### Runs -/

/-- What holds after the steps that a run has completed. -/
structure WithinLimits (n : Nat) (vm : Engine) : Prop where
  steps : n ≤ opcodes vm.scripts
  fits : vm.StackFits
  numOps : vm.numOps ≤ maxOpsPerScript
  dstack : vm.dstack.Bounded
  astack : vm.astack.Bounded

theorem opcodes_take_le (scripts : List (List ParsedOpcode)) (k : Nat) :
    opcodes (scripts.take k) ≤ opcodes scripts := by
  have hs := opcodes_append (scripts.take k) (scripts.drop k)
  rw [take_append_drop] at hs
  exact (le_add_right _ _).trans_eq hs.symm

theorem After.lt_opcodes (h : After start n vm) (hl : vm.Live)
    (hi : vm.scriptIdx < vm.scripts.length) : n < opcodes vm.scripts := by
  have ho := hl.opcode hi
  rw [getElem?_eq_getElem hi] at ho
  calc n ≤ opcodes (vm.scripts.take vm.scriptIdx) + vm.scriptOff := h.steps
    _ < opcodes (vm.scripts.take vm.scriptIdx) + opcodes [vm.scripts[vm.scriptIdx]] :=
      Nat.add_lt_add_left (ho.trans_eq (opcodes_singleton _).symm) _
    _ = opcodes (vm.scripts.take (vm.scriptIdx + 1)) := by
      rw [take_add_one, getElem?_eq_getElem hi, opcodes_append, toList_some]
    _ ≤ opcodes vm.scripts := opcodes_take_le _ _

theorem After.le_opcodes (h : After start n vm) (hl : vm.Live) : n ≤ opcodes vm.scripts := by
  obtain hi | hi := lt_or_ge vm.scriptIdx vm.scripts.length
  · exact (h.lt_opcodes hl hi).le
  · have hs := h.steps
    rw [hl.ended hi] at hs
    exact hs.trans (opcodes_take_le _ _)

theorem safe_executeLoop (hc : crypto.Digests) {rounds : Nat} (h : After start n vm)
    (hl : vm.Live) (hi : vm.scriptIdx < vm.scripts.length) (hro : maxSteps start ≤ n + rounds) :
    Safe (fun vm => vm.dstack.Bounded) (executeLoop crypto rounds vm) := by
  induction rounds generalizing n vm with
  | zero => exact absurd (h.all.trans hro) (not_le.2 (h.lt_opcodes hl hi))
  | succ rounds ih =>
    refine (safe_step hc h).bind fun r hr => ?_
    obtain ⟨done, vm'⟩ := r
    obtain ⟨ha, hl, hd⟩ := hr
    cases done with
    | true => exact ha.bounded.dstack
    | false =>
      exact ih ha hl (not_le.1 (of_decide_eq_false hd.symm))
        (hro.trans_eq (succ_add_eq_add_succ n rounds).symm)

theorem safe_execute (hc : crypto.Digests) (h : After vm 0 vm) (hl : vm.Live)
    (hi : vm.scriptIdx < vm.scripts.length) : Safe (fun _ => True) (execute crypto vm) := by
  refine (safe_executeLoop hc h hl hi (zero_add _).ge).bind fun vm' hvm' => ?_
  exact (safe_checkErrorCondition hvm').seq trivial

/-- `Step`, as a transition of the engine. -/
def stepTo (crypto : Crypto) (vm : Engine) (_ : Unit) : ScriptCheck Engine := do
  let (_, vm) ← step crypto vm
  pure vm

theorem after_of_run (hc : crypto.Digests) (h : After vm 0 vm) (hl : vm.Live)
    {es : List Unit} (hru : Run (stepTo crypto) (fun _ _ => True) vm es vm') :
    After vm es.length vm' ∧ vm'.Live := by
  induction hru with
  | nil => exact ⟨h, hl⟩
  | snoc _ _ hs ih =>
    obtain ⟨r, hr, hvm'⟩ := bind_eq_ok.1 hs
    obtain rfl := pure_eq_ok.1 hvm'
    obtain ⟨ha, hl, -⟩ := (safe_step hc ih.1).of_eq_ok hr
    rw [length_append]
    exact ⟨ha, hl⟩

end Engine

/-! ### New engines -/

section NewEngine

open Engine

variable {crypto : Crypto} {scriptPubKey : List UInt8} {tx : MsgTx} {idx : Nat} {flags : UInt32}
  {amount : Int64}

/-- What holds of a new engine. -/
structure Engine.Created (scriptPubKey : List UInt8) (tx : MsgTx) (idx : Nat) (vm : Engine) :
    Prop where
  tx : vm.tx = tx
  txIdx : vm.txIdx = idx
  txIdx_lt : vm.txIdx < vm.tx.txIn.length
  dstack : vm.dstack.stk = []
  astack : vm.astack.stk = []
  cond : vm.condStack = []
  off : vm.scriptOff = 0
  numOps : vm.numOps = 0
  saved : vm.savedFirstStack = []
  scripts : ∃ sigPops pkPops, vm.scripts = [sigPops, pkPops] ∧
    parseScript scriptPubKey = (pkPops, true) ∧ (vm.bip16 = true → isScriptHash pkPops = true) ∧
    (vm.scriptIdx = 0 ∧ sigPops ≠ [] ∨ vm.scriptIdx = 1 ∧ pkPops ≠ [])

theorem ne_nil_of_parseScript {script : List UInt8} {pops : List ParsedOpcode}
    (h : parseScript script = (pops, true)) (hs : script ≠ []) : pops ≠ [] := by
  rintro rfl
  cases script with
  | nil => exact hs rfl
  | cons value rest =>
    rw [parseScript, length_cons, parseScriptLoop] at h
    split at h
    · cases h
    · cases h

theorem safe_witnessMode {pkPops sigPops : List ParsedOpcode} {txIn : TxIn} {bip16 : Bool} :
    Safe (fun _ => True) (witnessMode flags scriptPubKey pkPops sigPops txIn bip16) := by
  have hf : Safe (fun _ => True) (findWitnessProgram scriptPubKey pkPops sigPops txIn bip16) := by
    unfold findWitnessProgram
    split_ifs
    · exact safe_require.seq trivial
    · split
      · exact safe_require.seq trivial
      · trivial
    · trivial
  rw [witnessMode]
  split_ifs
  · trivial
  refine safe_require.seq <| hf.bind fun program _ => ?_
  cases program with
  | none => exact safe_require.seq trivial
  | some script =>
    have hi : Safe (fun _ => True) (extractWitnessProgramInfo script) := by
      refine Engine.safe_parse.bind fun pops _ => ?_
      split
      · split_ifs <;> trivial
      · trivial
    exact hi.bind fun _ _ => trivial

theorem safe_newEngine :
    Safe (Engine.Created scriptPubKey tx idx) (newEngine scriptPubKey tx idx flags amount) := by
  rw [newEngine]
  cases ht : tx.txIn[idx]? with
  | none => trivial
  | some txIn =>
    refine safe_require.bind fun _ he => safe_require.seq <| safe_require.seq <|
      safe_require.seq <| Engine.safe_parse.eq_ok.bind fun sigPops hsi =>
      safe_require.seq <| Engine.safe_parse.eq_ok.bind fun pkPops hpk =>
      safe_require.seq <| safe_witnessMode.bind fun program _ => ?_
    have hp := parseScript_of_parse hpk.2
    have hs := parseScript_of_parse hsi.2
    refine ⟨rfl, rfl, (List.getElem?_eq_some_iff.1 ht).1, rfl, rfl, rfl, rfl, rfl, rfl, sigPops,
      pkPops, rfl, hp, fun hb16 => (Bool.and_eq_true_iff.1 hb16).2, ?_⟩
    by_cases hn : txIn.signatureScript = []
    · refine .inr ⟨if_pos hn, ne_nil_of_parseScript hp ?_⟩
      exact he.resolve_left (absurd hn)
    · exact .inl ⟨if_neg hn, ne_nil_of_parseScript hs hn⟩

variable {vm vm' : Engine} {op : ParsedOpcode}

theorem Engine.Created.after (h : vm.Created scriptPubKey tx idx)
    (hw : ∀ txIn ∈ tx.txIn, txIn.witness.length < 2 ^ 63) :
    After vm 0 vm ∧ vm.Live ∧ vm.scriptIdx < vm.scripts.length := by
  obtain ⟨rfl, -, ht, hd, ha, hc, ho, hn, hsa, sigPops, pkPops, hs, -, hbi16, hi⟩ := h
  have hb : ∀ s : Stack, s.stk = [] → s.Bounded := by
    rintro ⟨_, _⟩ rfl so ⟨⟩
  have hle : opcodes vm.scripts ≤ maxSteps vm := by
    rw [maxSteps, add_assoc]
    exact le_add_right _ _
  have hlt : vm.scriptIdx < vm.scripts.length := by
    rw [hs]
    obtain hi | hi := hi
    · exact hi.1.trans_lt (show 0 < 2 by decide)
    · exact hi.1.trans_lt (show 1 < 2 by decide)
  have hde : vm.dstack.depth = 0 := congrArg List.length hd
  have hl : vm.scriptOff < ((vm.scripts[vm.scriptIdx]?).getD []).length := by
    rw [hs, ho, length_pos_iff]
    obtain hi | hi := hi
    · rw [hi.1]
      exact hi.2
    · rw [hi.1]
      exact hi.2
  refine ⟨⟨⟨⟨hb _ hd, hb _ ha, ?_, hn.trans_le (zero_le _), ht⟩,
    fun txIn hti => hw txIn (mem_of_getElem? hti), ?_, ?_, ?_, fun _ => le_rfl,
    fun _ _ => le_add_right _ _, hle, ?_⟩, stackFits_of_le ha (hde.trans_le (zero_le _)),
    fun _ _ => .inr ⟨ho, hd, hc⟩, zero_le _⟩,
    ⟨fun _ => hl, fun hle => absurd hle (not_le.2 hlt)⟩, hlt⟩
  · rw [hde]
    decide
  · rw [hsa]
    rintro so ⟨⟩
  · rw [hsa]
    exact zero_le _
  · intro htr
    have hv := eq_of_beq (hbi16 htr)
    cases pkPops with
    | nil => cases hv
    | cons pop rest =>
      obtain ⟨value, data⟩ := pop
      obtain rfl : value = hash160 := (List.cons.inj hv).1
      exact ⟨data, rest, by rw [hs]; rfl⟩
  · rw [hs]
    exact le_max_left _ _

/-- **The engine keeps its limits.** It does not panic, takes at most as many steps as its scripts
have opcodes, and keeps to the limits after every step, but for the number of items after a witness
has been put on the stack. -/
theorem safe_execute_newEngine (hcrypto : crypto.Digests)
    (hwitness : ∀ txIn ∈ tx.txIn, txIn.witness.length < 2 ^ 63) :
    Safe (fun vm => Safe (fun _ => True) (execute crypto vm) ∧
      ∀ es vm', Run (stepTo crypto) (fun _ _ => True) vm es vm' → vm'.WithinLimits es.length)
      (newEngine scriptPubKey tx idx flags amount) := by
  refine safe_newEngine.mono fun vm hvm => ?_
  obtain ⟨ha, hl, hi⟩ := hvm.after hwitness
  refine ⟨safe_execute hcrypto ha hl hi, fun es vm' hr => ?_⟩
  obtain ⟨ha, hl⟩ := after_of_run hcrypto ha hl hr
  exact ⟨ha.le_opcodes hl, ha.fits, ha.bounded.numOps, ha.bounded.dstack, ha.bounded.astack⟩

/-- Hash functions with a constant result. -/
def fixedDigests : Crypto :=
  { Crypto.trivial with
    sha1 := fun _ => List.replicate 20 0
    sha256 := fun _ => List.replicate 32 0
    ripemd160 := fun _ => List.replicate 20 0 }

theorem digests_fixedDigests : fixedDigests.Digests := ⟨fun _ => rfl, fun _ => rfl, fun _ => rfl⟩

/-- A transaction that spends an output with a witness of `n` empty items. -/
def emptyItems (n : Nat) : MsgTx :=
  { version := 1, txOut := [], lockTime := 0
    txIn := [⟨⟨0, 0⟩, [], List.replicate n [], 0⟩] }

/-- A pay-to-witness-script-hash output. -/
def zeroProgram : List UInt8 := [op0, 32] ++ List.replicate 32 0

theorem safe_execute_emptyItems : Safe (fun vm => Safe (fun _ => True) (execute fixedDigests vm) ∧
    ∀ es vm', Run (stepTo fixedDigests) (fun _ _ => True) vm es vm' →
      vm'.WithinLimits es.length)
    (newEngine zeroProgram (emptyItems 1) 0 (scriptBip16 ||| scriptVerifyWitness) 0) :=
  safe_execute_newEngine digests_fixedDigests (by decide)

/-- The items of a witness are not counted when they are put on the stack. -/
theorem depth_of_witness_gt : ∃ vm vm', newEngine zeroProgram (emptyItems 1002) 0
      (scriptBip16 ||| scriptVerifyWitness) 0 = .ok vm ∧
    Run (stepTo fixedDigests) (fun _ _ => True) vm [(), ()] vm' ∧
      maxStackSize < vm'.dstack.depth + vm'.astack.depth := by
  have hd : ((newEngine zeroProgram (emptyItems 1002) 0
      (scriptBip16 ||| scriptVerifyWitness) 0).bind fun vm =>
        (exec (stepTo fixedDigests) vm [(), ()]).map fun vm =>
          vm.dstack.depth + vm.astack.depth).toOption = some 1001 := by decide +kernel
  obtain ⟨vm, hn, hd⟩ := bind_eq_ok.1 (toOption_eq_some.1 hd)
  obtain ⟨vm', he, hd⟩ := map_eq_ok.1 hd
  refine ⟨vm, vm', hn, run_iff_exec.2 he, ?_⟩
  exact (show 1000 < 1001 by decide).trans_eq hd.symm

/-! ### Unspendable scripts -/

/-- The engine is still in the signature script, or at the `OP_RETURN` with which the next script
begins. -/
structure Engine.Returns (vm : Engine) : Prop where
  bounded : vm.Bounded
  bip16 : vm.bip16 = false
  scripts : ∃ sigPops data rest, vm.scripts = [sigPops, ⟨opReturn, data⟩ :: rest]
  idx : vm.scriptIdx = 0 ∨ vm.scriptIdx = 1 ∧ vm.scriptOff = 0 ∧ vm.condStack = []

theorem Engine.skipEmpty_of_cons {rest : List ParsedOpcode}
    (h : vm.scripts[vm.scriptIdx]? = some (op :: rest)) : skipEmpty vm = vm := by
  rw [skipEmpty, h]

theorem Engine.Returns.step (hcr : crypto.Digests) (h : vm.Returns) {done : Bool}
    (hst : step crypto vm = .ok (done, vm')) : done = false ∧ vm'.Returns := by
  obtain ⟨pop, hp, vm₁, he, hde, hnt⟩ := step_eq_ok_iff.1 hst
  obtain ⟨hb, hbi16, ⟨sigPops, data, rest, hs⟩, hi⟩ := h
  obtain hi | ⟨hi, hof, hc⟩ := hi
  · have hbo : Engine.Bounded { vm with scriptOff := vm.scriptOff + 1 } :=
      ⟨hb.dstack, hb.astack, hb.depth, hb.numOps, hb.txIdx⟩
    obtain ⟨⟨dstack, astack, condStack, numOps, lastCodeSep, rfl⟩, hd, ha, hn⟩ :=
      (safe_executeOpcode hcr hbo).of_eq_ok he
    have hlt : dstack.depth < 2 ^ 63 := maxStackSize_lt ((le_add_right _ _).trans hde)
    obtain ⟨-, rfl, rfl⟩ | ⟨-, hc, next, hnt, rfl, rfl⟩ := hnt
    · exact ⟨rfl, ⟨hd, ha, hlt, hn, hb.txIdx⟩, hbi16, ⟨sigPops, data, rest, hs⟩, .inl hi⟩
    obtain ⟨-, ht, -⟩ | ⟨hon, -⟩ | ⟨hne, -⟩ | ⟨-, rfl⟩ := nextScript_cases hnt
    · cases hbi16.symm.trans ht
    · cases hi.symm.trans hon
    · exact absurd hi hne
    · have hg : vm.scripts[vm.scriptIdx + 1]? = some (⟨opReturn, data⟩ :: rest) := by
        rw [hs, hi]
        rfl
      have hon : vm.scriptIdx + 1 = 1 := congrArg (· + 1) hi
      rw [skipEmpty_of_cons hg]
      refine ⟨decide_eq_false (not_le.2 (List.getElem?_eq_some_iff.1 hg).1), ⟨hd, ?_, hlt,
        zero_le _, hb.txIdx⟩, hbi16, ⟨sigPops, data, rest, hs⟩, .inr ⟨hon, rfl, hc⟩⟩
      rintro so ⟨⟩
  · rw [hi, hs, hof] at hp
    obtain rfl := some.inj hp
    obtain ⟨numOps, ho⟩ := opfunc_of_executeOpcode he hc
    cases ho

theorem Engine.Returns.executeLoop_ne_ok (hc : crypto.Digests) (h : vm.Returns) {rounds : Nat} :
    executeLoop crypto rounds vm ≠ .ok vm' := by
  induction rounds generalizing vm with
  | zero => exact nofun
  | succ rounds ih =>
    rw [Ne, executeLoop_succ_eq_ok_iff]
    rintro (hs | ⟨next, hs, hl⟩)
    · cases (h.step hc hs).1
    · exact ih (h.step hc hs).2 hl

/-- **No output is unspendable for `IsUnspendable` only.** -/
theorem runScript_ne_success_of_isUnspendable (hcrypto : crypto.Digests)
    (h : isUnspendable scriptPubKey = true) :
    runScript crypto scriptPubKey tx idx flags amount ≠ .success := by
  rw [Ne, runScript_eq_success_iff]
  rintro ⟨vm, hnw, he⟩
  obtain ⟨rfl, -, ht, hd, ha, hc, ho, hn, hsa, sigPops, pkPops, hs,
    hp, hbi16, hi⟩ := safe_newEngine.of_eq_ok hnw
  rw [isUnspendable, hp] at h
  cases pkPops with
  | nil => cases h
  | cons pop rest =>
    obtain ⟨value, data⟩ := pop
    obtain rfl : value = opReturn := some.inj (eq_of_beq h)
    have hb : ∀ s : Stack, s.stk = [] → s.Bounded := by
      rintro ⟨_, _⟩ rfl so ⟨⟩
    have hde : vm.dstack.depth = 0 := congrArg List.length hd
    have hr : vm.Returns := by
      refine ⟨⟨hb _ hd, hb _ ha, ?_, hn.trans_le (zero_le _), ht⟩,
        ?_, ⟨sigPops, data, rest, hs⟩, ?_⟩
      · rw [hde]
        decide
      · rw [Bool.eq_false_iff]
        intro htr
        cases (List.cons.inj (eq_of_beq (hbi16 htr))).1
      · exact hi.imp (fun hi => hi.1) fun hi => ⟨hi.1, ho, hc⟩
    obtain ⟨vm', hl, -⟩ := bind_eq_ok.1 he
    exact hr.executeLoop_ne_ok hcrypto hl

theorem runScript_opReturn : isUnspendable [opReturn] = true ∧
    runScript fixedDigests [opReturn] (emptyItems 0) 0 0 0 ≠ .success :=
  ⟨by decide, runScript_ne_success_of_isUnspendable digests_fixedDigests (by decide)⟩

end NewEngine

end DrcNode
