import DrcNode.Mining.CoinbaseHeight

/-!
# What the script builder pushes

The builder appends one opcode for each call. It is read back from the script, and executing it
pushes the data or the number of the call. There are two exceptions: the byte zero becomes `OP_0`,
which pushes nothing but the empty string, and an opcode that takes data, given to `AddOp`, takes it
from the calls that follow.

## Main results

* `builtScript_pushes`.

Source: `txscript/scriptbuilder.go`. `AddData` and `AddInt64` are in `Mining/CoinbaseHeight`.
-/

namespace DrcNode

open Checked List Nat UInt8 Opcode

def ScriptBuilder.addOp (b : ScriptBuilder) (opcode : UInt8) : ScriptBuilder :=
  if b.err.isSome then b
  else if maxScriptSize < b.script.length + 1 then { b with err := some .opcodeScriptLength }
  else { b with script := b.script ++ [opcode] }

/-- The calls that add to a script. -/
inductive BuilderCall
  | addOp (opcode : UInt8)
  | addData (data : List UInt8)
  | addInt64 (val : Int64)

def ScriptBuilder.call (b : ScriptBuilder) : BuilderCall → ScriptCheck ScriptBuilder
  | .addOp opcode => .ok (b.addOp opcode)
  | .addData data => .ok (b.addData data)
  | .addInt64 val => b.addInt64 val

/-- `Script` after calls on a new builder. -/
def builtScript (calls : List BuilderCall) :
    ScriptCheck (Except ErrScriptNotCanonical (List UInt8)) := do
  let b ← calls.foldlM ScriptBuilder.call {}
  pure b.build

/-! ### Parsing -/

/-- The bytes are read as the opcode, whatever follows. -/
def ParsesTo (bytes : List UInt8) (op : ParsedOpcode) : Prop :=
  ∀ rest, parseScript (bytes ++ rest) = (op :: (parseScript rest).1, (parseScript rest).2)

variable {data : List UInt8} {value : UInt8} {op : ParsedOpcode} {item : List UInt8}

theorem parsesTo_of_parseOpcode {tail : List UInt8}
    (h : ∀ rest, parseOpcode value (tail ++ rest) = some (op, rest)) :
    ParsesTo (value :: tail) op := by
  intro rest
  have hle : rest.length ≤ (tail ++ rest).length := by
    rw [length_append]
    omega
  rw [parseScript, cons_append, length_cons, parseScriptLoop, h rest]
  simp only [parseScriptLoop_eq_parseScript hle]

/-- An opcode that takes no data. -/
def Bare (value : UInt8) : Prop := value = 0 ∨ pushData4 < value
  deriving Decidable

theorem parsesTo_bare (h : Bare value) : ParsesTo [value] ⟨value, []⟩ := by
  obtain rfl | h := h
  · exact parsesTo_of_parseOpcode fun rest => rfl
  have hn : ∀ v ≤ pushData4, value ≠ v := by
    rintro v hv rfl
    exact UInt8.not_le.2 h hv
  have hl : lengthBytes value = 0 := by
    rw [lengthBytes, if_neg (hn _ (by decide)), if_neg (hn _ (by decide)),
      if_neg (hn _ (by decide))]
  refine parsesTo_of_parseOpcode fun rest => ?_
  have hd : dataLength value rest = 0 := by
    rw [dataLength, if_pos hl, if_neg]
    have hlt : 78 < value.toNat := lt_iff_toNat_lt.1 h
    omega
  simp [parseOpcode, hl, hd]

theorem parsesTo_data (h : data.length ≤ 75) :
    ParsesTo (UInt8.ofNat data.length :: data) ⟨UInt8.ofNat data.length, data⟩ := by
  refine parsesTo_of_parseOpcode fun rest => ?_
  have hb : ∀ n ≤ 75, lengthBytes (UInt8.ofNat n) = 0 ∧ (UInt8.ofNat n).toNat = n := by
    decide +kernel
  obtain ⟨hl, hn⟩ := hb _ h
  have hd : dataLength (UInt8.ofNat data.length) (data ++ rest) = data.length := by
    rw [dataLength, if_pos hl, hn, if_pos h]
  simp [parseOpcode, hl, hd]

theorem parsesTo_pushData {k : Nat} (hk : lengthBytes value = k + 1)
    (h : data.length < 256 ^ (k + 1)) :
    ParsesTo (value :: (leBytes (k + 1) data.length ++ data)) ⟨value, data⟩ := by
  refine parsesTo_of_parseOpcode fun rest => ?_
  have hd : dataLength value (leBytes (k + 1) data.length ++ data ++ rest) = data.length := by
    rw [dataLength, hk, if_neg (succ_ne_zero k), append_assoc,
      take_left' (length_leBytes _ _), ofLeBytes_leBytes, mod_eq_of_lt h]
  rw [parseOpcode, hd, hk]
  simp

/-! ### Executing -/

/-- The opcode passes the check for minimal pushes, and executing it pushes the item. -/
structure ParsedOpcode.Pushes (op : ParsedOpcode) (item : List UInt8) : Prop where
  minimal : op.value ≤ pushData4 → checkMinimalDataPush op = .ok ()
  execute : ∀ crypto vm, Engine.isBranchExecuting vm = true →
    Engine.executeOpcode crypto vm op = .ok { vm with dstack := vm.dstack.pushByteArray item }

theorem pushes_of (hv : op.value ≤ op16) (hd : op.data.length ≤ maxScriptElementSize)
    (hm : op.value ≤ pushData4 → op.value = minimalOpcode op.data op.value)
    (ho : ∀ crypto vm, opfunc crypto op.value op vm =
      .ok { vm with dstack := vm.dstack.pushByteArray item }) : op.Pushes item := by
  have hmin : op.value ≤ pushData4 → checkMinimalDataPush op = .ok () := fun hle => by
    rw [checkMinimalDataPush, requireScript, if_pos (hm hle)]
  refine ⟨hmin, fun crypto vm hx => ?_⟩
  have hlegal : ∀ n ≤ op16.toNat, isDisabled (UInt8.ofNat n) = false ∧
      alwaysIllegal (UInt8.ofNat n) = false := by
    decide +kernel
  have hl := hlegal _ (le_iff_toNat_le.1 hv)
  rw [UInt8.ofNat_toNat] at hl
  have hok : ∀ {α β : Type} (a : α) (f : α → ScriptCheck β), (.ok a >>= f) = f a :=
    fun _ _ => rfl
  have hp : vm.checkPush op = .ok () := by
    rw [Engine.checkPush]
    split_ifs with hc
    · exact hmin (of_decide_eq_true (Bool.and_eq_true_iff.1 hc).2)
    · rfl
  simp only [Engine.executeOpcode, Engine.executeOpcodeBy, liftM_scriptCheck]
  rw [requireScript, if_pos hl.1, hok, requireScript, if_pos hl.2, hok,
    Engine.checkLimits, if_neg (UInt8.not_lt.2 hv), requireScript, if_pos hd, hok]
  change (if (!vm.isBranchExecuting && !isConditional op.value) = true then _ else _) = _
  rw [hx, Bool.not_true, Bool.false_and, if_neg Bool.false_ne_true, hp]
  exact ho crypto vm

theorem pushes_data (hv : op.value ≠ 0) (hle : op.value ≤ pushData4)
    (hd : op.data.length ≤ maxScriptElementSize)
    (hm : op.value = minimalOpcode op.data op.value) : op.Pushes op.data := by
  refine pushes_of (UInt8.le_trans hle (by decide)) hd (fun _ => hm) fun crypto vm => ?_
  rw [opfunc, if_neg hv, if_pos hle]
  rfl

theorem pushes_smallInt {n : Nat} (h : n ≤ 16) (hn : n ≠ 0) :
    ParsedOpcode.Pushes ⟨UInt8.ofNat (0x50 + n), []⟩ [UInt8.ofNat n] := by
  have hsmall : ∀ n ≤ 16, n ≠ 0 → UInt8.ofNat (0x50 + n) ≤ op16 ∧
      ¬UInt8.ofNat (0x50 + n) ≤ 0x50 ∧
      ScriptNum.bytes (Int64.ofNat (UInt8.ofNat (0x50 + n) - (op1 - 1)).toNat) =
        .ok [UInt8.ofNat n] := by
    decide +kernel
  obtain ⟨hle, hgt, hb⟩ := hsmall n h hn
  have hne : ∀ v ≤ 0x50, UInt8.ofNat (0x50 + n) ≠ v := by
    rintro v hv rfl
    exact hgt hv
  have hgp : ¬UInt8.ofNat (0x50 + n) ≤ pushData4 := fun hp =>
    hgt (UInt8.le_trans hp (by decide))
  refine pushes_of hle (zero_le _) (fun hp => absurd hp hgp) fun crypto vm => ?_
  rw [opfunc, if_neg (hne _ (by decide)), if_neg hgp, if_neg (hne _ (by decide)),
    if_neg (hne _ (by decide)), if_pos hle]
  simp only [opcodeN, onStack, Stack.pushInt, hb]
  rfl

theorem pushes_zero : ParsedOpcode.Pushes ⟨0, []⟩ [] :=
  pushes_of (by decide) (zero_le _) (fun _ => rfl) fun _ _ => rfl

/-! ### The builder -/

theorem two_le_length (hn : data ≠ []) (ho : ∀ v, data ≠ [v]) : 2 ≤ data.length := by
  match data, hn, ho with
  | [], hn, _ => exact absurd rfl hn
  | [v], _, ho => exact absurd rfl (ho v)
  | _ :: _ :: _, _, _ => exact le_add_left 2 _

theorem minimalOpcode_of_two_le (h : 2 ≤ data.length) : minimalOpcode data value =
    if data.length ≤ 75 then UInt8.ofNat data.length
    else if data.length ≤ 255 then pushData1
    else if data.length ≤ 65535 then pushData2
    else value := by
  match data with
  | _ :: _ :: _ => rfl

theorem addData_singleton_pushes (hne : value ≠ 0x81) (hz : value ≠ 0) :
    ∃ op, ParsesTo (if value ≤ 16 then [if value = 0 then 0 else 0x50 + value] else [1, value]) op ∧
      op.Pushes [value] := by
  split_ifs with hle
  · have hn : value.toNat ≠ 0 := fun hv => hz (UInt8.toNat_inj.1 hv)
    have hs : 0x50 + value = UInt8.ofNat (0x50 + value.toNat) := by
      rfl
    have hp := pushes_smallInt (le_iff_toNat_le.1 hle) hn
    rw [UInt8.ofNat_toNat] at hp
    refine ⟨_, parsesTo_bare (.inr ?_), hp⟩
    have hv : value.toNat ≤ 16 := le_iff_toNat_le.1 hle
    rw [lt_iff_toNat_lt, UInt8.toNat_add]
    have : (80 + value.toNat) % 2 ^ 8 = 80 + value.toNat := mod_eq_of_lt (by omega)
    exact this.symm ▸ (by
      change 78 < 80 + value.toNat
      omega)
  · refine ⟨_, @parsesTo_data [value] (show 1 ≤ 75 by decide),
      pushes_data (show (1 : UInt8) ≠ 0 by decide) (show 1 ≤ pushData4 by decide)
        (show 1 ≤ maxScriptElementSize by decide) ?_⟩
    rw [minimalOpcode, if_neg fun hv => hle hv.2, if_neg hne]
    rfl

/-- **What is appended for data** pushes the data, but for the byte zero. -/
theorem addData_pushes (h : data.length ≤ maxScriptElementSize) :
    ∃ op, ParsesTo (addData data) op ∧ op.Pushes (if data = [0] then [] else data) := by
  unfold addData
  split
  · exact ⟨_, parsesTo_bare (.inl rfl), pushes_zero⟩
  · exact ⟨_, parsesTo_bare (by decide), pushes_of (by decide) (zero_le _)
      (fun hp => absurd hp (by decide)) fun _ _ => rfl⟩
  · next value hne =>
    by_cases hz : value = 0
    · subst hz
      exact ⟨_, parsesTo_bare (.inl rfl), pushes_zero⟩
    · rw [if_neg fun hv => hz (singleton_inj.1 hv)]
      exact addData_singleton_pushes hne hz
  · next hnil _ hone =>
    have hl := two_le_length hnil hone
    rw [if_neg fun hz => hone 0 hz]
    rw [maxScriptElementSize] at h
    split_ifs with h₁ h₂ h₃
    · have h₁' : data.length ≤ 75 := le_of_lt_succ h₁
      have hb : ∀ n ≤ 75, 2 ≤ n → UInt8.ofNat n ≠ 0 ∧ UInt8.ofNat n ≤ pushData4 := by
        decide +kernel
      obtain ⟨hz, hle⟩ := hb _ h₁' hl
      exact ⟨_, parsesTo_data h₁', pushes_data hz hle h (by
        rw [minimalOpcode_of_two_le hl, if_pos h₁'])⟩
    · have h₁' : ¬data.length ≤ 75 := fun hle => h₁ (lt_succ_of_le hle)
      refine ⟨_, @parsesTo_pushData data pushData1 0 rfl (lt_succ_of_le h₂),
        pushes_data (show pushData1 ≠ 0 by decide)
          (show pushData1 ≤ pushData4 by decide) h ?_⟩
      rw [minimalOpcode_of_two_le hl, if_neg h₁', if_pos h₂]
    · have h₁' : ¬data.length ≤ 75 := fun hle => h₁ (lt_succ_of_le hle)
      refine ⟨_, @parsesTo_pushData data pushData2 1 rfl (lt_succ_of_le h₃),
        pushes_data (show pushData2 ≠ 0 by decide)
          (show pushData2 ≤ pushData4 by decide) h ?_⟩
      rw [minimalOpcode_of_two_le hl, if_neg h₁', if_neg h₂, if_pos h₃]
    · omega

theorem addInt64_eq_addData (val : Int) : addInt64 val = addData (scriptNumBytes val) := by
  have hs : ∀ n : Nat, n ≤ 17 → addInt64 (n - 1) = addData (scriptNumBytes (n - 1)) := by
    decide +kernel
  by_cases hv : -1 ≤ val ∧ val ≤ 16
  · have hn := hs (val + 1).toNat (by omega)
    rwa [show (((val + 1).toNat : Nat) : Int) - 1 = val by omega] at hn
  · rw [addInt64, if_neg (by omega), if_neg (by omega)]

theorem scriptNumBytes_ne_zero (val : Int) : scriptNumBytes val ≠ [0] := by
  intro h
  have hv := (scriptNumValue_scriptNumBytes val).1
  rw [h] at hv
  obtain rfl : 0 = val := hv
  cases h

theorem length_addData (data : List UInt8) : (addData data).length = canonicalDataSize data := by
  unfold addData
  split
  · rfl
  · rfl
  · next value hne =>
    rw [canonicalDataSize]
    by_cases hle : value ≤ 16
    · rw [if_pos hle, if_pos (show value ≤ 16 ∨ value = 0x81 from .inl hle)]
      rfl
    · rw [if_neg hle, if_neg (not_or.2 ⟨hle, hne⟩)]
      rfl
  · next hnil _ hone =>
    have hc : canonicalDataSize data = if data.length < pushData1.toNat then 1 + data.length
        else if data.length ≤ 0xff then 2 + data.length
        else if data.length ≤ 0xffff then 3 + data.length else 5 + data.length := by
      match data, two_le_length hnil hone with
      | _ :: _ :: _, _ => rfl
    rw [hc]
    split_ifs
    · exact add_comm _ _
    · rw [length_append, length_cons, length_leBytes]
    · rw [length_append, length_cons, length_leBytes]
    · rw [length_append, length_cons, length_leBytes]

namespace BuilderCall

/-- What a call appends. -/
def bytes : BuilderCall → List UInt8
  | addOp opcode => [opcode]
  | addData data => DrcNode.addData data
  | addInt64 val => DrcNode.addInt64 val.toInt

/-- The opcode does what the call is for. -/
def Makes : BuilderCall → ParsedOpcode → Prop
  | addOp opcode, op => op = ⟨opcode, []⟩
  | addData data, op => op.Pushes (if data = [0] then [] else data)
  | addInt64 val, op => op.Pushes (scriptNumBytes val.toInt)

/-- A call that does not fail on a builder without an error. -/
def Fits : BuilderCall → Prop
  | addOp _ => True
  | addData data => data.length ≤ maxScriptElementSize
  | addInt64 val => val ≠ Int64.minValue

variable {c : BuilderCall} {b b' : ScriptBuilder}

/-- The builder has no error, and the call has appended its bytes. -/
def Appends (c : BuilderCall) (b b' : ScriptBuilder) : Prop :=
  b.err = none ∧ c.Fits ∧ b'.script = b.script ++ c.bytes ∧ b'.script.length ≤ maxScriptSize

theorem appends_addOp {opcode : UInt8} (h : (b.addOp opcode).err = none) :
    Appends (addOp opcode) b (b.addOp opcode) := by
  unfold ScriptBuilder.addOp at h ⊢
  split_ifs at h ⊢ with he hl
  · rw [h] at he
    cases he
  · refine ⟨h, trivial, rfl, ?_⟩
    rw [length_append]
    exact not_lt.1 hl

theorem appends_addData {data : List UInt8} (h : (b.addData data).err = none) :
    Appends (addData data) b (b.addData data) := by
  unfold ScriptBuilder.addData at h ⊢
  split_ifs at h ⊢ with he hl hd
  · rw [h] at he
    cases he
  · refine ⟨h, not_lt.1 hd, rfl, ?_⟩
    rw [length_append, length_addData]
    exact not_lt.1 hl

theorem appends_addInt64 {val : Int64} (hc : b.addInt64 val = .ok b') (h : b'.err = none) :
    Appends (addInt64 val) b b' := by
  unfold ScriptBuilder.addInt64 at hc
  split_ifs at hc with he hl h₀ h₁
  · cases hc
    rw [h] at he
    cases he
  · cases hc
    cases h
  · cases hc
    refine ⟨h, ?_, ?_, ?_⟩
    · rintro rfl
      exact absurd h₀ (by decide)
    · rw [bytes, addInt64_toInt, if_pos h₀]
    · rw [length_append, length_singleton]
      exact not_lt.1 hl
  · cases hc
    refine ⟨h, ?_, ?_, ?_⟩
    · rintro rfl
      exact absurd h₁ (by decide)
    · rw [bytes, addInt64_toInt, if_neg h₀, if_pos h₁]
    · rw [length_append, length_singleton]
      exact not_lt.1 hl
  · obtain ⟨v, hv, hc⟩ := bind_eq_ok.1 hc
    obtain rfl := pure_eq_ok.1 hc
    have hm : val ≠ Int64.minValue := by
      rintro rfl
      have hp : ScriptNum.bytes Int64.minValue = .error (.panic .indexOutOfRange) := by
        decide +kernel
      cases hp.symm.trans hv
    cases (ScriptNum.bytes_eq_scriptNumBytes hm).symm.trans hv
    obtain ⟨he, -, hs, hl⟩ := appends_addData h
    refine ⟨he, hm, ?_, hl⟩
    rw [hs, bytes, bytes, addInt64_eq_addData]

theorem appends_call (hc : b.call c = .ok b') (h : b'.err = none) : c.Appends b b' := by
  cases c with
  | addOp opcode =>
    cases hc
    exact appends_addOp h
  | addData data =>
    cases hc
    exact appends_addData h
  | addInt64 val => exact appends_addInt64 hc h

theorem exists_op (hf : c.Fits) (ho : ∀ opcode, c = addOp opcode → Bare opcode) :
    ∃ op, ParsesTo c.bytes op ∧ c.Makes op := by
  cases c with
  | addOp opcode => exact ⟨_, parsesTo_bare (ho opcode rfl), rfl⟩
  | addData data => exact addData_pushes hf
  | addInt64 val =>
    have hl : (scriptNumBytes val.toInt).length ≤ maxScriptElementSize :=
      (length_scriptNumBytes_toInt_le val).trans (by decide)
    obtain ⟨op, hp, hx⟩ := addData_pushes hl
    rw [if_neg (scriptNumBytes_ne_zero _)] at hx
    refine ⟨op, ?_, hx⟩
    rw [bytes, addInt64_eq_addData]
    exact hp

theorem calls_eq {calls : List BuilderCall} (h : calls.foldlM ScriptBuilder.call b = .ok b')
    (he : b'.err = none) : b.err = none ∧ (∀ c ∈ calls, c.Fits) ∧
      b'.script = b.script ++ calls.flatMap bytes ∧
      (b.script.length ≤ maxScriptSize → b'.script.length ≤ maxScriptSize) := by
  induction calls generalizing b with
  | nil =>
    obtain rfl := pure_eq_ok.1 h
    exact ⟨he, nofun, (append_nil _).symm, id⟩
  | cons c calls ih =>
    obtain ⟨b₁, hc, h⟩ := bind_eq_ok.1 ((foldlM_cons ..).symm.trans h)
    obtain ⟨he₁, hf, hs, hl⟩ := ih h
    obtain ⟨he₀, hf₀, hs₀, hl₀⟩ := appends_call hc he₁
    refine ⟨he₀, forall_mem_cons.2 ⟨hf₀, hf⟩, ?_, fun _ => hl hl₀⟩
    rw [hs, hs₀, flatMap_cons, append_assoc]

theorem parseScript_flatMap {calls : List BuilderCall}
    (h : ∀ c ∈ calls, ∃ op, ParsesTo c.bytes op ∧ c.Makes op) :
    ∃ ops, parseScript (calls.flatMap bytes) = (ops, true) ∧ List.Forall₂ Makes calls ops := by
  induction calls with
  | nil => exact ⟨[], rfl, .nil⟩
  | cons c calls ih =>
    obtain ⟨⟨op, hp, hm⟩, hc⟩ := forall_mem_cons.1 h
    obtain ⟨ops, hs, hf⟩ := ih hc
    refine ⟨op :: ops, ?_, .cons hm hf⟩
    rw [flatMap_cons, hp, hs]

end BuilderCall

/-- **The script builder.** A script that is built keeps to the limit, and unless an opcode that
takes data is given to `AddOp` it has one opcode for each call, which does what the call is for. -/
theorem builtScript_pushes {calls : List BuilderCall} {script : List UInt8}
    (h : builtScript calls = .ok (.ok script)) :
    script.length ≤ maxScriptSize ∧ ((∀ opcode, .addOp opcode ∈ calls → Bare opcode) →
      ∃ ops, parseScript script = (ops, true) ∧ List.Forall₂ BuilderCall.Makes calls ops) := by
  obtain ⟨b, hc, hb⟩ := bind_eq_ok.1 h
  have hbuild := pure_eq_ok.1 hb
  rw [ScriptBuilder.build] at hbuild
  split at hbuild
  · rename_i he
    cases hbuild
    obtain ⟨-, hf, hs, hl⟩ := BuilderCall.calls_eq hc he
    refine ⟨hl (zero_le _), fun ho => ?_⟩
    rw [hs]
    refine BuilderCall.parseScript_flatMap fun c hc => BuilderCall.exists_op (hf c hc) ?_
    rintro opcode rfl
    exact ho opcode hc
  · cases hbuild

/-- A call of each kind. -/
def sampleCalls : List BuilderCall := [.addOp dup, .addData [0x01, 0x02], .addInt64 1000]

theorem builtScript_sampleCalls : ∃ script ops, builtScript sampleCalls = .ok (.ok script) ∧
    script.length ≤ maxScriptSize ∧ parseScript script = (ops, true) ∧
    List.Forall₂ BuilderCall.Makes sampleCalls ops := by
  have hb : builtScript sampleCalls = .ok (.ok [0x76, 0x02, 0x01, 0x02, 0x02, 0xe8, 0x03]) := by
    decide +kernel
  obtain ⟨hl, hm⟩ := builtScript_pushes hb
  have ho : ∀ opcode, BuilderCall.addOp opcode ∈ sampleCalls → Bare opcode := by
    intro opcode hmem
    simp only [sampleCalls, mem_cons, BuilderCall.addOp.injEq, reduceCtorEq, not_mem_nil,
      or_false] at hmem
    subst hmem
    decide
  obtain ⟨ops, hp, hf⟩ := hm ho
  exact ⟨_, ops, hb, hl, hp, hf⟩

/-- The byte zero is not pushed, and `OP_DATA_1` takes the opcode of the next call as its data. -/
theorem builtScript_not_pushes :
    builtScript [.addData [0]] = .ok (.ok [0]) ∧ ParsedOpcode.Pushes ⟨0, []⟩ [] ∧
    builtScript [.addOp 0x01, .addData []] = .ok (.ok [0x01, 0x00]) ∧
      parseScript [0x01, 0x00] = ([⟨0x01, [0x00]⟩], true) :=
  ⟨rfl, pushes_zero, rfl, rfl⟩

end DrcNode
