import DrcNode.Script.SigHash

/-!
# The outputs that a signature covers

Both signature hashes are meant to cover all outputs, the output with the index of the input, or
none, as the low bits of the hash type say. The digest for witness programs tests single bits where
the older one compares the type, and covers no output for some types that cover all of them in the
older one.

## Main results

* `commitsAlike_iff`.

Source: `calcWitnessSignatureHash` and `calcSignatureHash` in `txscript/script.go`.
-/

namespace DrcNode

open List Function

/-- The transaction with another output at an index. -/
def MsgTx.setOutput (tx : MsgTx) (j : Nat) (txOut : TxOut) : MsgTx :=
  { tx with txOut := tx.txOut.set j txOut }

/-- Whether a hash type asks for an output to be covered when the input `idx` is signed. -/
def coversOutput (hashType : UInt8) (idx j : Nat) : Prop :=
  hashType &&& sigHashMask ≠ sigHashNone ∧ (hashType &&& sigHashMask = sigHashSingle → j = idx)

/-- A digest of a transaction changes with an output if it should cover it, and does not depend on
it otherwise. -/
structure CommitsTo {δ : Type} (digest : MsgTx → δ) (tx : MsgTx) (j : Nat) (covered : Prop) :
    Prop where
  injective : covered → ∀ txOut, digest (tx.setOutput j txOut) = digest tx →
    tx.txOut[j]? = some txOut
  ignores : ¬covered → ∀ txOut, digest (tx.setOutput j txOut) = digest tx

variable {tx : MsgTx} {txOut : TxOut} {j idx : Nat} {hashType : UInt8} {crypto : Crypto}
  {txOuts : List TxOut}

/-! ### Serialized outputs -/

theorem writeVarBytes_injective : Injective writeVarBytes := by
  intro a b h
  have hl := congrArg List.length h
  have hh := congrArg List.head? h
  have hln : a.length = b.length := by
    simp only [writeVarBytes, length_append, length_writeVarInt, varIntSerializeSize]
      at hl
    simp only [writeVarBytes, writeVarInt, leBytes] at hh
    -- the first byte tells how many bytes the length takes
    split_ifs at hl hh
    all_goals
      simp only [cons_append, head?_cons, Option.some.injEq, ← UInt8.toNat_inj,
        UInt8.reduceToNat] at hh
      omega
  rw [writeVarBytes, hln] at h
  exact append_cancel_left h

theorem writeTxOut_injective : Injective writeTxOut := by
  intro a b h
  obtain ⟨hv, hs⟩ := append_inj h (by simp)
  have hn := congrArg ofLeBytes hv
  rw [ofLeBytes_leBytes, ofLeBytes_leBytes,
    Nat.mod_eq_of_lt (show _ < 256 ^ 8 from UInt64.toNat_lt _),
    Nat.mod_eq_of_lt (show _ < 256 ^ 8 from UInt64.toNat_lt _), UInt64.toNat_inj] at hn
  obtain ⟨value, pkScript⟩ := a
  obtain ⟨value', pkScript'⟩ := b
  obtain rfl : value = value' := by
    rw [← Int64.toInt64_toUInt64 value, hn]
    exact Int64.toInt64_toUInt64 value'
  obtain rfl : pkScript = pkScript' := writeVarBytes_injective hs
  rfl

theorem eq_of_flatMap_set (hj : j < txOuts.length)
    (h : (txOuts.set j txOut).flatMap writeTxOut = txOuts.flatMap writeTxOut) :
    txOuts[j]? = some txOut := by
  have hs : txOuts = txOuts.take j ++ txOuts.get ⟨j, hj⟩ :: txOuts.drop (j + 1) := by simp
  rw [set_eq_take_append_cons_drop, if_pos hj] at h
  conv_rhs at h => rw [hs]
  simp only [flatMap_append, flatMap_cons, append_cancel_left_eq, append_cancel_right_eq] at h
  rw [writeTxOut_injective h, getElem?_eq_getElem hj]
  rfl

/-! ### The older digest -/

/-- The outputs of the transaction that `calcSignatureHash` serializes. -/
def sigHashOutputs (hashType : UInt8) (idx : Nat) (txOuts : List TxOut) : List TxOut :=
  if hashType &&& sigHashMask = sigHashNone then []
  else if hashType &&& sigHashMask = sigHashSingle then
    (txOuts.take (idx + 1)).mapIdx fun i txOut =>
      if i < idx then { value := -1, pkScript := [] } else txOut
  else txOuts

theorem exists_sigHashTx_eq (sigScript : List UInt8) (hashType : UInt8) (tx : MsgTx) (idx : Nat) :
    ∃ txIns, ∀ txOuts, sigHashTx sigScript hashType { tx with txOut := txOuts } idx =
      { tx with txIn := txIns, txOut := sigHashOutputs hashType idx txOuts } := by
  refine ⟨(sigHashTx sigScript hashType tx idx).txIn, fun txOuts => ?_⟩
  rw [sigHashTx, sigHashTx, sigHashOutputs]
  split_ifs <;> rfl

theorem sigHashOutputs_set_of_covers (h : coversOutput hashType idx j) :
    sigHashOutputs hashType idx (txOuts.set j txOut) =
      (sigHashOutputs hashType idx txOuts).set j txOut ∧
    (j < txOuts.length → (sigHashOutputs hashType idx txOuts)[j]? = txOuts[j]?) := by
  simp only [sigHashOutputs, if_neg h.1]
  split_ifs with hs
  · obtain rfl := h.2 hs
    constructor
    · refine ext_getElem? fun i => ?_
      grind
    · intro hj
      grind
  · exact ⟨rfl, fun _ => rfl⟩

theorem sigHashOutputs_set_of_not_covers (h : ¬coversOutput hashType idx j) :
    sigHashOutputs hashType idx (txOuts.set j txOut) = sigHashOutputs hashType idx txOuts := by
  rw [sigHashOutputs, sigHashOutputs]
  split_ifs with hn hs
  · rfl
  · have hne : j ≠ idx := fun heq => h ⟨hn, fun _ => heq⟩
    refine ext_getElem? fun i => ?_
    grind
  · exact absurd ⟨hn, fun hs' => absurd hs' hs⟩ h

theorem commitsTo_calcSignatureHash (hi : Injective crypto.doubleHashB)
    (script : List ParsedOpcode) (hj : j < tx.txOut.length) :
    CommitsTo (fun tx => calcSignatureHash crypto script hashType tx idx) tx j
      (coversOutput hashType idx j) := by
  obtain ⟨txIns, htx⟩ := exists_sigHashTx_eq
    ((unparseScript (removeOpcode script Opcode.codeSeparator)).getD []) hashType tx idx
  constructor
  · intro hc txOut h
    obtain ⟨hse, hg⟩ := @sigHashOutputs_set_of_covers txOut j idx hashType tx.txOut hc
    rw [← hg hj]
    have hco : ¬(hashType &&& sigHashMask = sigHashSingle ∧ tx.txOut.length ≤ idx) := by
      rintro ⟨hs, hle⟩
      have := hc.2 hs
      omega
    simp only [calcSignatureHash, if_neg hco, MsgTx.setOutput, length_set] at h
    have hb := append_cancel_right (hi h)
    rw [htx, htx, hse] at hb
    simp only [MsgTx.serializeNoWitness, length_set, append_cancel_right_eq,
      append_cancel_left_eq] at hb
    refine eq_of_flatMap_set ?_ hb
    exact (List.getElem?_eq_some_iff.1 ((hg hj).trans (getElem?_eq_getElem hj))).1
  · intro hc txOut
    have hse := @sigHashOutputs_set_of_not_covers txOut j idx hashType tx.txOut hc
    simp only [calcSignatureHash, MsgTx.setOutput, length_set]
    rw [htx, hse, ← htx]

/-! ### The digest for witness programs -/

/-- The hash types for which the bits of `witnessHashOutputs` mean the base type. -/
def TestsBaseType (hashType : UInt8) : Prop :=
  hashType &&& 0x2 = 0 ∨ hashType &&& sigHashMask = sigHashNone ∨
    hashType &&& sigHashMask = sigHashSingle
  deriving Decidable

theorem testsBaseType_iff (hashType : UInt8) : TestsBaseType hashType ↔
    ((hashType &&& sigHashSingle ≠ sigHashSingle ∧ hashType &&& sigHashNone ≠ sigHashNone) ↔
      (hashType &&& sigHashMask ≠ sigHashNone ∧ hashType &&& sigHashMask ≠ sigHashSingle)) := by
  obtain ⟨b⟩ := hashType
  revert b
  decide +kernel

theorem commitsTo_witnessHashOutputs (hi : Injective crypto.doubleHashB)
    (h : TestsBaseType hashType) (hj : j < tx.txOut.length) :
    CommitsTo (fun tx => witnessHashOutputs crypto hashType tx idx) tx j
      (coversOutput hashType idx j) := by
  rw [testsBaseType_iff] at h
  simp only [witnessHashOutputs, h]
  by_cases hn : hashType &&& sigHashMask = sigHashNone
  · have hnone_ne : ¬sigHashNone = sigHashSingle := by decide
    refine ⟨fun hc => absurd hn hc.1, fun _ txOut => ?_⟩
    simp [hn, if_neg hnone_ne]
  by_cases hs : hashType &&& sigHashMask = sigHashSingle
  · simp only [hs, ne_eq, not_true_eq_false, and_false, if_false, if_true]
    refine ⟨fun hc txOut heq => ?_, fun hc txOut => ?_⟩
    · obtain rfl := hc.2 hs
      rw [MsgTx.setOutput, getElem?_set_self hj, getElem?_eq_getElem hj] at heq
      rw [getElem?_eq_getElem hj, writeTxOut_injective (hi heq)]
    · rw [MsgTx.setOutput, getElem?_set_ne fun hj => hc ⟨hn, fun _ => hj⟩]
  · refine ⟨fun _ txOut heq => ?_, fun hc => ?_⟩
    · simp only [hn, hs, ne_eq, not_false_eq_true, and_self, if_true] at heq
      exact eq_of_flatMap_set hj (hi heq)
    · exact absurd ⟨hn, fun hs' => absurd hs' hs⟩ hc

theorem commitsTo_calcWitnessSignatureHash_iff (hin : Injective crypto.doubleHashB)
    (subScript : List ParsedOpcode) (amt : Int64) (hid : idx < tx.txIn.length) {covered : Prop} :
    CommitsTo (fun tx => calcWitnessSignatureHash crypto subScript hashType tx idx amt) tx j
      covered ↔ CommitsTo (fun tx => witnessHashOutputs crypto hashType tx idx) tx j covered := by
  have hi : ∀ txOut, calcWitnessSignatureHash crypto subScript hashType (tx.setOutput j txOut) idx
      amt = calcWitnessSignatureHash crypto subScript hashType tx idx amt ↔
      witnessHashOutputs crypto hashType (tx.setOutput j txOut) idx =
        witnessHashOutputs crypto hashType tx idx := by
    intro txOut
    simp only [calcWitnessSignatureHash, MsgTx.setOutput, getElem?_eq_getElem hid,
      Except.ok.injEq, hin.eq_iff, append_cancel_right_eq]
    exact append_right_inj _
  constructor
  · exact fun h => ⟨fun hc txOut heq => h.injective hc txOut ((hi txOut).2 heq),
      fun hc txOut => (hi txOut).1 (h.ignores hc txOut)⟩
  · exact fun h => ⟨fun hc txOut heq => h.injective hc txOut ((hi txOut).1 heq),
      fun hc txOut => (hi txOut).2 (h.ignores hc txOut)⟩

/-- Both digests cover the outputs that the hash type asks for, and no others. -/
def CommitsAlike (crypto : Crypto) (hashType : UInt8) : Prop :=
  ∀ (tx : MsgTx) (idx j : Nat) (script : List ParsedOpcode) (amt : Int64),
    idx < tx.txIn.length → j < tx.txOut.length →
      CommitsTo (fun tx => calcSignatureHash crypto script hashType tx idx) tx j
        (coversOutput hashType idx j) ∧
      CommitsTo (fun tx => calcWitnessSignatureHash crypto script hashType tx idx amt) tx j
        (coversOutput hashType idx j)

/-- A transaction with one input, and one output of the given value. -/
def oneOutput (value : Int64) : MsgTx := ⟨1, [⟨⟨0, 0⟩, [], [], 0⟩], [⟨value, []⟩], 0⟩

/-- **The outputs that a signature covers** are the same for the two digests exactly if the base
type is `SigHashNone` or `SigHashSingle` or has their common bit clear. -/
theorem commitsAlike_iff (hinj : Injective crypto.doubleHashB) (hashType : UInt8) :
    CommitsAlike crypto hashType ↔ TestsBaseType hashType := by
  constructor
  · intro h
    by_contra ht
    have hw := (commitsTo_calcWitnessSignatureHash_iff hinj [] 0 (by decide)).1
      (h (oneOutput 0) 0 0 [] 0 (by decide) (by decide)).2
    have hb : hashType &&& sigHashMask ≠ sigHashNone ∧ hashType &&& sigHashMask ≠ sigHashSingle :=
      ⟨fun hn => ht (.inr (.inl hn)), fun hs => ht (.inr (.inr hs))⟩
    have hbi := fun hif => ht ((testsBaseType_iff hashType).2 hif)
    have hz : ∀ tx, witnessHashOutputs crypto hashType tx 0 = List.replicate 32 0 := by
      intro tx
      rw [witnessHashOutputs, if_neg fun ha => hbi (iff_of_true ha hb), if_neg hb.2]
    have hsa := hw.injective ⟨hb.1, fun _ => rfl⟩ ⟨1, []⟩ ((hz _).trans (hz _).symm)
    exact absurd hsa (by decide)
  · intro h tx idx j script amt hi hj
    exact ⟨commitsTo_calcSignatureHash hinj script hj,
      (commitsTo_calcWitnessSignatureHash_iff hinj script amt hi).2
        (commitsTo_witnessHashOutputs hinj h hj)⟩

theorem commitsAlike_sigHashAll : CommitsAlike .trivial sigHashAll :=
  (@commitsAlike_iff .trivial (fun _ _ h => h) sigHashAll).2 (by decide)

/-- A hash type that covers the outputs in one digest and not in the other. -/
theorem calcWitnessSignatureHash_ignores :
    calcWitnessSignatureHash .trivial [] 0x06 (oneOutput 0) 0 0 =
      calcWitnessSignatureHash .trivial [] 0x06 (oneOutput 1) 0 0 ∧
    calcSignatureHash .trivial [] 0x06 (oneOutput 0) 0 ≠
      calcSignatureHash .trivial [] 0x06 (oneOutput 1) 0 := by
  decide +kernel

end DrcNode
