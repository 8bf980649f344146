import DrcNode.Library.Runs
import DrcNode.Script.Standard

/-!
# Bloom filters of peers

A peer loads a filter and adds data to it. The node matches transactions with the filter, and adds
the outputs that have matched, so that the transactions that spend them match as well. The bytes of
the filter come from the peer and their number is a modulus; a filter without bytes is accepted.

Source: `drcutil/bloom/filter.go`, for a filter that is loaded; `MsgFilterLoad` in
`wire/msgfilterload.go` and `PushedData` in `txscript/standard.go`. `murmur` stands for
`MurmurHash3`; it is any function.
-/

namespace DrcNode

open List Runs

structure MsgFilterLoad where
  filter : List UInt8
  hashFuncs : UInt32
  tweak : UInt32
  flags : UInt8

def bloomUpdateAll : UInt8 := 1

def bloomUpdateP2PubkeyOnly : UInt8 := 2

def maxFilterLoadHashFuncs : UInt32 := 50

def maxFilterLoadFilterSize : Nat := 36000

def pushedData (script : List UInt8) : Option (List (List UInt8)) :=
  let (pops, ok) := parseScript script
  if ok then some ((pops.filter fun pop => pop.value ≤ Opcode.pushData4).map ParsedOpcode.data)
  else none

/-- The bytes of an output that are added and matched. -/
def OutPoint.filterBytes (outpoint : OutPoint) : List UInt8 :=
  outpoint.hash.bytes ++ leBytes 4 outpoint.index.toNat

namespace MsgFilterLoad

section

variable (murmur : UInt32 → List UInt8 → UInt32) (prim : Primitives) (msg : MsgFilterLoad)

/-- What `BtcDecode` lets through. -/
structure Decodes : Prop where
  filter_le : msg.filter.length ≤ maxFilterLoadFilterSize
  hashFuncs_le : msg.hashFuncs ≤ maxFilterLoadHashFuncs

/-- The number of bits. -/
def size : UInt32 := UInt32.ofNat msg.filter.length <<< 3

def index (hashNum : UInt32) (data : List UInt8) : UInt32 :=
  murmur (hashNum * 0xfba4c795 + msg.tweak) data % msg.size

def hash (hashNum : UInt32) (data : List UInt8) : Except Panic UInt32 :=
  if msg.size = 0 then .error .divideByZero else .ok (msg.index murmur hashNum data)

def bitOf (idx : UInt32) : UInt8 := 1 <<< UInt8.ofNat (idx.toNat % 8)

def isSet (idx : UInt32) : Bool := msg.filter[idx.toNat / 8]?.any fun byte => byte &&& bitOf idx ≠ 0

/-- The bit of a hash function; the access to a byte that is not there panics. -/
def bitIndex (data : List UInt8) (i : Nat) : Except Panic UInt32 := do
  let idx ← msg.hash murmur (UInt32.ofNat i) data
  if idx.toNat / 8 < msg.filter.length then pure idx else .error .indexOutOfRange

/-- `matches`. -/
def matchesData (data : List UInt8) : Except Panic Bool := do
  let lacks ← (range msg.hashFuncs.toNat).anyM fun i => do
    pure !msg.isSet (← msg.bitIndex murmur data i)
  pure !lacks

def setBit (idx : UInt32) : MsgFilterLoad :=
  { msg with filter := msg.filter.modify (idx.toNat / 8) (· ||| bitOf idx) }

/-- A round of the loop of `add`. -/
def addRound (data : List UInt8) (msg : MsgFilterLoad) (i : Nat) : Except Panic MsgFilterLoad := do
  pure (msg.setBit (← msg.bitIndex murmur data i))

def add (data : List UInt8) : Except Panic MsgFilterLoad :=
  (range msg.hashFuncs.toNat).foldlM (addRound murmur data) msg

def maybeAddOutpoint (pkScript : List UInt8) (outpoint : OutPoint) : Except Panic MsgFilterLoad :=
  if msg.flags = bloomUpdateAll then msg.add murmur outpoint.filterBytes
  else if msg.flags = bloomUpdateP2PubkeyOnly ∧
      (getScriptClass pkScript = .pubKeyTy ∨ getScriptClass pkScript = .multiSigTy) then
    msg.add murmur outpoint.filterBytes
  else pure msg

/-- Whether data that a script pushes is matched. -/
def matchesScript (script : List UInt8) : Except Panic Bool :=
  match pushedData script with
  | none => pure false
  | some pushed => pushed.anyM (msg.matchesData murmur)

/-- A round of the loop over the outputs: the filter, and whether there was a match. -/
def matchOutput (txHash : Hash) (state : MsgFilterLoad × Bool) (txOut : TxOut × Nat) :
    Except Panic (MsgFilterLoad × Bool) := do
  if ← state.1.matchesScript murmur txOut.1.pkScript then
    pure (← state.1.maybeAddOutpoint murmur txOut.1.pkScript ⟨txHash, UInt32.ofNat txOut.2⟩, true)
  else pure state

def matchInput (txIn : TxIn) : Except Panic Bool := do
  if ← msg.matchesData murmur txIn.previousOutPoint.filterBytes then pure true
  else msg.matchesScript murmur txIn.signatureScript

def matchTxAndUpdate (tx : MsgTx) : Except Panic (MsgFilterLoad × Bool) := do
  let matched ← msg.matchesData murmur (tx.txHash prim).bytes
  let (msg, matched) ← tx.txOut.zipIdx.foldlM (matchOutput murmur (tx.txHash prim)) (msg, matched)
  if matched then pure (msg, true)
  else pure (msg, ← tx.txIn.anyM (msg.matchInput murmur))

inductive Call
  | add (data : List UInt8)
  | addOutPoint (outpoint : OutPoint)
  | matchesData (data : List UInt8)
  | matchTxAndUpdate (tx : MsgTx)

/-- The data that a call adds. -/
def Call.adds : Call → Option (List UInt8)
  | add data => some data
  | addOutPoint outpoint => some outpoint.filterBytes
  | _ => none

def step : Call → Except Panic MsgFilterLoad
  | .add data => msg.add murmur data
  | .addOutPoint outpoint => msg.add murmur outpoint.filterBytes
  | .matchesData data => (fun _ => msg) <$> msg.matchesData murmur data
  | .matchTxAndUpdate tx => Prod.fst <$> msg.matchTxAndUpdate murmur prim tx

/-- The `i`-th output matches when the loop over the outputs reaches it. -/
def OutputMatches (tx : MsgTx) (i : Nat) : Prop :=
  ∃ matched done txOut rest state, msg.matchesData murmur (tx.txHash prim).bytes = .ok matched ∧
    tx.txOut.zipIdx = done ++ (txOut, i) :: rest ∧
    done.foldlM (matchOutput murmur (tx.txHash prim)) (msg, matched) = .ok state ∧
    state.1.matchesScript murmur txOut.pkScript = .ok true

/-- No call panics and nothing is missed, whatever the calls are. -/
structure Safe : Prop where
  no_panic : ∀ calls, ∃ msg', exec (step murmur prim) msg calls = .ok msg'
  added : ∀ before call data after msg', data ∈ Call.adds call →
    exec (step murmur prim) msg (before ++ call :: after) = .ok msg' →
    msg'.matchesData murmur data = .ok true
  spent : msg.flags = bloomUpdateAll → ∀ before tx i after msg₁ msg₂ tx',
    exec (step murmur prim) msg before = .ok msg₁ → OutputMatches murmur prim msg₁ tx i →
    exec (step murmur prim) msg₁ (.matchTxAndUpdate tx :: after) = .ok msg₂ →
    (∃ txIn ∈ tx'.txIn, txIn.previousOutPoint = ⟨tx.txHash prim, UInt32.ofNat i⟩) →
    ∃ msg₃, msg₂.matchTxAndUpdate murmur prim tx' = .ok (msg₃, true)

/-- The data is in the filter. -/
def has (data : List UInt8) : Bool :=
  !(range msg.hashFuncs.toNat).any fun i => !msg.isSet (msg.index murmur (UInt32.ofNat i) data)

/-- Some data that the script pushes is in the filter. -/
def hasScript (script : List UInt8) : Bool := ((pushedData script).getD []).any (msg.has murmur)

/-- The filter has bits, or they are never looked at. -/
def Usable : Prop :=
  msg.filter.length ≤ maxFilterLoadFilterSize ∧ (msg.filter ≠ [] ∨ msg.hashFuncs = 0)

end

/-! ### Filters only grow -/

variable {murmur : UInt32 → List UInt8 → UInt32} {prim : Primitives}
  {msg msg' msg'' : MsgFilterLoad} {state : MsgFilterLoad × Bool} {data : List UInt8} {idx : UInt32}

/-- The filter that is reached has all bits of the filter at the start. -/
structure Grows (msg msg' : MsgFilterLoad) : Prop where
  length_eq : msg'.filter.length = msg.filter.length
  hashFuncs_eq : msg'.hashFuncs = msg.hashFuncs
  tweak_eq : msg'.tweak = msg.tweak
  flags_eq : msg'.flags = msg.flags
  isSet : ∀ idx, msg.isSet idx → msg'.isSet idx

theorem Grows.refl (msg : MsgFilterLoad) : Grows msg msg := ⟨rfl, rfl, rfl, rfl, fun _ => id⟩

theorem Grows.trans (h : Grows msg msg') (h' : Grows msg' msg'') : Grows msg msg'' :=
  ⟨h'.length_eq.trans h.length_eq, h'.hashFuncs_eq.trans h.hashFuncs_eq,
    h'.tweak_eq.trans h.tweak_eq, h'.flags_eq.trans h.flags_eq,
    fun idx hs => h'.isSet idx (h.isSet idx hs)⟩

theorem Grows.index_eq (h : Grows msg msg') (i : UInt32) (data : List UInt8) :
    msg'.index murmur i data = msg.index murmur i data := by
  rw [index, index, size, size, h.length_eq, h.tweak_eq]

theorem Grows.usable (h : Grows msg msg') (hu : Usable msg) : Usable msg' := by
  refine ⟨h.length_eq ▸ hu.1, ?_⟩
  rw [h.hashFuncs_eq, ← length_pos_iff, h.length_eq, length_pos_iff]
  exact hu.2

theorem has_iff : msg.has murmur data ↔ ∀ i ∈ range msg.hashFuncs.toNat,
    msg.isSet (msg.index murmur (UInt32.ofNat i) data) := by
  simp [has]

theorem Grows.has (h : Grows msg msg') (hh : msg.has murmur data) : msg'.has murmur data := by
  rw [has_iff] at hh ⊢
  intro i hi
  rw [h.hashFuncs_eq] at hi
  rw [h.index_eq]
  exact h.isSet _ (hh i hi)

theorem or_and_ne_zero {a b c : UInt8} : (a ||| b) &&& c ≠ 0 ↔ a &&& c ≠ 0 ∨ b &&& c ≠ 0 := by
  have hd : (a ||| b) &&& c = a &&& c ||| b &&& c :=
    UInt8.toBitVec_inj.1 BitVec.and_or_distrib_right
  rw [hd, ne_eq, UInt8.or_eq_zero_iff, not_and_or]

theorem grows_setBit (idx : UInt32) : Grows msg (msg.setBit idx) := by
  refine ⟨length_modify _ _ _, rfl, rfl, rfl, fun idx' hs => ?_⟩
  obtain ⟨byte, hb, hn⟩ := (Option.any_eq_true _ _).1 hs
  rw [isSet, setBit, getElem?_modify, hb]
  split_ifs
  · exact decide_eq_true (or_and_ne_zero.2 (.inl (of_decide_eq_true hn)))
  · exact hn

theorem isSet_setBit (h : idx.toNat / 8 < msg.filter.length) : (msg.setBit idx).isSet idx := by
  have hb : ∀ n < 8, (1 : UInt8) <<< UInt8.ofNat n ≠ 0 := by decide
  rw [isSet, setBit, getElem?_modify, getElem?_eq_getElem h]
  dsimp only [Option.map_eq_map, Option.map_some]
  rw [if_pos rfl]
  refine decide_eq_true (or_and_ne_zero.2 (.inr ?_))
  rw [UInt8.and_self]
  exact hb _ (Nat.mod_lt _ (by decide))

/-! ### A filter with bits never panics -/

namespace Usable

variable (h : Usable msg)
include h

theorem index_lt {i : Nat} (hi : i ∈ range msg.hashFuncs.toNat) (data : List UInt8) :
    msg.size ≠ 0 ∧ (msg.index murmur (UInt32.ofNat i) data).toNat / 8 < msg.filter.length := by
  obtain ⟨hle, hne | h0⟩ := h
  · have hp := length_pos_iff.2 hne
    rw [maxFilterLoadFilterSize] at hle
    have hs : msg.size.toNat = msg.filter.length * 8 := by
      rw [size, UInt32.toNat_shiftLeft, UInt32.toNat_ofNat', Nat.shiftLeft_eq,
        show 2 ^ ((3 : UInt32).toNat % 32) = 8 from rfl]
      omega
    refine ⟨fun hz => ?_, ?_⟩
    · rw [hz] at hs
      exact absurd hs (by simp; omega)
    · rw [index, UInt32.toNat_mod, hs, Nat.div_lt_iff_lt_mul (by decide)]
      exact Nat.mod_lt _ (by omega)
  · rw [h0] at hi
    exact absurd hi not_mem_nil

theorem bitIndex_eq {i : Nat} (hi : i ∈ range msg.hashFuncs.toNat) (data : List UInt8) :
    msg.bitIndex murmur data i = .ok (msg.index murmur (UInt32.ofNat i) data) := by
  obtain ⟨hs, hlt⟩ := @index_lt murmur _ h _ hi data
  rw [bitIndex, hash, if_neg hs]
  exact if_pos hlt

theorem matchesData_eq (data : List UInt8) :
    msg.matchesData murmur data = .ok (msg.has murmur data) := by
  rw [matchesData, Checked.anyM_eq_ok fun i hi => ?_]
  · rfl
  · rw [h.bitIndex_eq hi]
    rfl

/-- **What is added is in the filter.** -/
theorem exists_add (data : List UInt8) :
    ∃ msg', msg.add murmur data = .ok msg' ∧ Grows msg msg' ∧ msg'.has murmur data := by
  have hf := @Checked.exists_foldlM_eq_ok _ _ _ (addRound murmur data)
    (fun done msg' => Grows msg msg' ∧ ∀ i ∈ done,
      msg'.isSet (msg.index murmur (UInt32.ofNat i) data))
    (range msg.hashFuncs.toNat) [] _ msg ?_ rfl ⟨.refl msg, fun _ h => by cases h⟩
  · obtain ⟨msg', ha, hg, hs⟩ := hf
    refine ⟨msg', ha, hg, has_iff.2 fun i hi => ?_⟩
    rw [hg.index_eq]
    exact hs i (hg.hashFuncs_eq ▸ hi)
  · rintro before i rest msg' hl ⟨hg, hs⟩
    have hi : i ∈ range msg'.hashFuncs.toNat := by
      rw [hg.hashFuncs_eq, hl]
      simp
    have hu := hg.usable h
    have hlt := (@index_lt murmur _ hu _ hi data).2
    rw [hg.index_eq] at hlt
    rw [addRound, hu.bitIndex_eq hi, hg.index_eq]
    refine ⟨_, rfl, hg.trans (grows_setBit _), fun k hk => ?_⟩
    obtain hk | rfl := (mem_append.1 hk).imp_right mem_singleton.1
    · exact (grows_setBit _).isSet _ (hs k hk)
    · exact isSet_setBit hlt

theorem exists_maybeAddOutpoint (pkScript : List UInt8) (outpoint : OutPoint) :
    ∃ msg', msg.maybeAddOutpoint murmur pkScript outpoint = .ok msg' ∧ Grows msg msg' ∧
      (msg.flags = bloomUpdateAll → msg'.has murmur outpoint.filterBytes) := by
  obtain ⟨msg', ha, hg, hh⟩ := h.exists_add outpoint.filterBytes
  rw [maybeAddOutpoint]
  split_ifs with hf
  · exact ⟨msg', ha, hg, fun _ => hh⟩
  · exact ⟨msg', ha, hg, fun _ => hh⟩
  · exact ⟨msg, rfl, .refl msg, fun he => absurd he hf⟩

theorem matchesScript_eq (script : List UInt8) :
    msg.matchesScript murmur script = .ok (msg.hasScript murmur script) := by
  rw [matchesScript, hasScript]
  cases pushedData script with
  | none => rfl
  | some _ => exact Checked.anyM_eq_ok fun data _ => h.matchesData_eq data

theorem matchInput_eq (txIn : TxIn) :
    msg.matchInput murmur txIn = .ok (msg.has murmur txIn.previousOutPoint.filterBytes ||
      msg.hasScript murmur txIn.signatureScript) := by
  rw [matchInput, h.matchesData_eq, h.matchesScript_eq]
  cases msg.has murmur txIn.previousOutPoint.filterBytes <;> rfl

omit h in
theorem exists_matchOutput (h : Usable state.1) (txHash : Hash) (txOut : TxOut × Nat) :
    ∃ state', matchOutput murmur txHash state txOut = .ok state' ∧ Grows state.1 state'.1 ∧
      (state.1.flags = bloomUpdateAll → state.1.hasScript murmur txOut.1.pkScript →
        state'.1.has murmur (OutPoint.filterBytes ⟨txHash, UInt32.ofNat txOut.2⟩)) := by
  rw [matchOutput, h.matchesScript_eq]
  cases state.1.hasScript murmur txOut.1.pkScript with
  | false => exact ⟨state, rfl, .refl _, fun _ hf => by cases hf⟩
  | true =>
    obtain ⟨msg', ha, hg, hh⟩ := h.exists_maybeAddOutpoint txOut.1.pkScript
      ⟨txHash, UInt32.ofNat txOut.2⟩
    refine ⟨(msg', true), ?_, hg, fun hf _ => hh hf⟩
    change (state.1.maybeAddOutpoint murmur _ _ >>= fun msg => pure (msg, true)) = _
    rw [ha]
    rfl

omit h in
theorem exists_matchOutputs (h : Usable state.1) (txHash : Hash) (txOuts : List (TxOut × Nat)) :
    ∃ state', txOuts.foldlM (matchOutput murmur txHash) state = .ok state' ∧
      Grows state.1 state'.1 :=
  @Checked.exists_foldlM_eq_ok _ _ _ _ (fun _ (state' : _ × _) => Grows state.1 state'.1) _ [] _ _
    (fun _ txOut _ _ _ hg => by
      obtain ⟨_, hm, hg', _⟩ := (hg.usable h).exists_matchOutput txHash txOut
      exact ⟨_, hm, hg.trans hg'⟩) rfl (.refl _)

theorem exists_matchTxAndUpdate (prim : Primitives) (tx : MsgTx) :
    ∃ msg' matched, msg.matchTxAndUpdate murmur prim tx = .ok (msg', matched) ∧ Grows msg msg' ∧
      (msg.flags = bloomUpdateAll → ∀ i, OutputMatches murmur prim msg tx i →
        msg'.has murmur (OutPoint.filterBytes ⟨tx.txHash prim, UInt32.ofNat i⟩)) ∧
      ∀ txIn ∈ tx.txIn, msg.has murmur txIn.previousOutPoint.filterBytes → matched := by
  obtain ⟨⟨msg', matched⟩, hf, hg⟩ := @exists_matchOutputs murmur
    (msg, msg.has murmur (tx.txHash prim).bytes) h (tx.txHash prim) tx.txOut.zipIdx
  refine ⟨msg', matched || tx.txIn.any fun txIn =>
    msg'.has murmur txIn.previousOutPoint.filterBytes ||
      msg'.hasScript murmur txIn.signatureScript, ?_, hg, fun hu i hi => ?_, fun txIn hi hh => ?_⟩
  · rw [matchTxAndUpdate, h.matchesData_eq]
    change (tx.txOut.zipIdx.foldlM (matchOutput murmur _) _ >>= _) = _
    rw [hf]
    cases matched
    · change (tx.txIn.anyM (msg'.matchInput murmur) >>= _) = _
      rw [Checked.anyM_eq_ok fun txIn _ => (hg.usable h).matchInput_eq txIn]
      rfl
    · rfl
  · obtain ⟨m, done, txOut, rest, state, hm, hz, hd, hs⟩ := hi
    rw [h.matchesData_eq, Except.ok.injEq] at hm
    obtain ⟨state₁, hd', hg₁⟩ := @exists_matchOutputs murmur (msg, m) h (tx.txHash prim) done
    cases hd.symm.trans hd'
    have hu₁ : Usable state.1 := hg₁.usable h
    obtain ⟨state₂, hm₂, hg₂, hh⟩ := hu₁.exists_matchOutput (tx.txHash prim) (txOut, i)
    obtain ⟨state₃, hm₃, hg₃⟩ := (hg₂.usable hu₁).exists_matchOutputs (tx.txHash prim) rest
    rw [hz, hm, foldlM_append, hd] at hf
    change (matchOutput _ _ _ _ >>= _) = _ at hf
    rw [hm₂] at hf
    cases hm₃.symm.trans hf
    rw [hu₁.matchesScript_eq, Except.ok.injEq] at hs
    exact hg₃.has (hh (hg₁.flags_eq.trans hu) hs)
  · rw [Bool.or_eq_true, any_eq_true]
    exact .inr ⟨txIn, hi, by rw [hg.has hh, Bool.true_or]⟩

theorem exists_step (call : Call) :
    ∃ msg', step murmur prim msg call = .ok msg' ∧ Grows msg msg' ∧
      ∀ data ∈ call.adds, msg'.has murmur data := by
  cases call with
  | add data =>
    obtain ⟨msg', ha, hg, hh⟩ := h.exists_add data
    exact ⟨msg', ha, hg, fun _ hd => Option.some.inj hd ▸ hh⟩
  | addOutPoint outpoint =>
    obtain ⟨msg', ha, hg, hh⟩ := h.exists_add outpoint.filterBytes
    exact ⟨msg', ha, hg, fun _ hd => Option.some.inj hd ▸ hh⟩
  | matchesData data =>
    exact ⟨msg, by rw [step, h.matchesData_eq]; rfl, .refl msg, fun _ hd => by cases hd⟩
  | matchTxAndUpdate tx =>
    obtain ⟨msg', _, hm, hg, _⟩ := h.exists_matchTxAndUpdate prim tx
    exact ⟨msg', by rw [step, hm]; rfl, hg, fun _ hd => by cases hd⟩

theorem exists_exec (calls : List Call) :
    ∃ msg', exec (step murmur prim) msg calls = .ok msg' ∧ Grows msg msg' :=
  @Checked.exists_foldlM_eq_ok _ _ _ _ (fun _ => Grows msg) _ [] _ _
    (fun _ call _ _ _ hg => by
      obtain ⟨_, hs, hg', _⟩ := (hg.usable h).exists_step call
      exact ⟨_, hs, hg.trans hg'⟩) rfl (.refl _)

theorem grows_of_exec {calls : List Call} (he : exec (step murmur prim) msg calls = .ok msg') :
    Grows msg msg' := by
  obtain ⟨_, he', hg⟩ := h.exists_exec calls
  exact Except.ok.inj (he'.symm.trans he) ▸ hg

theorem safe : Safe murmur prim msg where
  no_panic calls := (h.exists_exec calls).imp fun _ he => he.1
  added before call data after msg' hd he := by
    obtain ⟨msg₁, he₁, hg₁⟩ := h.exists_exec before
    obtain ⟨msg₂, hs, hg₂, hh⟩ := (hg₁.usable h).exists_step call
    have hu := hg₂.usable (hg₁.usable h)
    rw [exec, foldlM_append, ← exec, he₁] at he
    change exec _ _ _ = _ at he
    rw [exec_cons, hs] at he
    have hg := hu.grows_of_exec he
    rw [(hg.usable hu).matchesData_eq, hg.has (hh data hd)]
  spent hf before tx i after msg₁ msg₂ tx' he₁ hm he₂ hi := by
    have hg₁ := h.grows_of_exec he₁
    have hu₁ := hg₁.usable h
    obtain ⟨msg', _, hm', hg', hh, _⟩ := hu₁.exists_matchTxAndUpdate prim tx
    rw [exec_cons, step, hm'] at he₂
    have hg := (hg'.usable hu₁).grows_of_exec he₂
    obtain ⟨txIn, hi, ho⟩ := hi
    obtain ⟨msg₃, matched, hm₃, -, -, hs⟩ :=
      (hg.usable (hg'.usable hu₁)).exists_matchTxAndUpdate prim tx'
    have ht := hs txIn hi (ho ▸ hg.has (hh (hg₁.flags_eq.trans hf) i hm))
    exact ⟨msg₃, ht ▸ hm₃⟩

end Usable

theorem add_of_filter_nil (hf : msg.filter = []) (h0 : msg.hashFuncs ≠ 0) (data : List UInt8) :
    msg.add murmur data = .error .divideByZero := by
  obtain ⟨n, hn⟩ := Nat.exists_eq_succ_of_ne_zero fun h => h0 (UInt32.toNat_inj.1 h)
  rw [add, hn, range_succ_eq_map, foldlM_cons, addRound, bitIndex, hash, size, hf]
  rfl

theorem safe_iff (h : msg.Decodes) :
    Safe murmur prim msg ↔ msg.filter ≠ [] ∨ msg.hashFuncs = 0 := by
  refine ⟨fun hs => ?_, fun hu => Usable.safe ⟨h.filter_le, hu⟩⟩
  by_contra hn
  rw [not_or, not_not] at hn
  obtain ⟨_, he⟩ := hs.no_panic [.add []]
  change (add _ _ _ >>= _) = _ at he
  rw [add_of_filter_nil hn.1 hn.2] at he
  cases he

theorem safe_zeros : Safe (fun _ _ => 5) Primitives.polynomial ⟨[0], 1, 0, bloomUpdateAll⟩ :=
  (safe_iff ⟨by decide, by decide⟩).2 (.inl (by decide))

theorem not_safe_empty : Decodes ⟨[], 1, 0, bloomUpdateAll⟩ ∧
    ¬ Safe (fun _ _ => 5) Primitives.polynomial ⟨[], 1, 0, bloomUpdateAll⟩ := by
  refine ⟨⟨by decide, by decide⟩, fun hs => ?_⟩
  obtain ⟨_, he⟩ := hs.no_panic [.add []]
  cases he

end MsgFilterLoad

end DrcNode
