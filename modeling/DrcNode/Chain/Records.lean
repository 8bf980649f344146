import DrcNode.Chain.Compress
import DrcNode.Chain.Utxo

/-!
# The records of unspent and spent outputs

An unspent output is stored as a header code, which has the height of its block and whether it comes
from a coinbase, and the compressed output. The spend journal has such a record for each output that
a block spends, with a reserved number behind the header code, the last spent output first. The
journal does not say how many records it has; that is known from the block.

## Main results

* `codecs_roundTrip`: what is written is read back.
* `decoders_return_iff`: on which bytes the readers panic.

Source: `serializeUtxoEntry`, `deserializeUtxoEntry`, `serializeSpendJournalEntry` and
`deserializeSpendJournalEntry` in `blockchain/chainio.go`. The count of bytes that a function
returns next to an error is left out: the callers return the error.
-/

namespace DrcNode

open List

open Compress

/-! ### Header codes -/

/-- The height shifted over one bit, and the coinbase flag in the lowest bit. -/
def headerCode (height : Int) (isCoinBase : Bool) : UInt64 :=
  let headerCode := UInt64.ofInt height <<< 1
  if isCoinBase then headerCode ||| 0x01 else headerCode

/-- The height of a header code, as an `int32`. -/
def headerHeight (code : UInt64) : Int := (code >>> 1).toUInt32.toInt32.toInt

/-- The coinbase flag of a header code. -/
def headerIsCoinBase (code : UInt64) : Bool := code &&& 0x01 != 0

/-- The values of an `int32`. -/
def IsInt32 (height : Int) : Prop := -2 ^ 31 ≤ height ∧ height < 2 ^ 31

theorem toNat_headerCode (height : Int) (isCoinBase : Bool) : (headerCode height isCoinBase).toNat =
    2 * (height % 2 ^ 63).toNat + isCoinBase.toNat := by
  have ho : (UInt64.ofInt height).toNat = (height % 2 ^ 64).toNat := by
    rw [UInt64.ofInt, UInt64.toNat_ofNat']
    omega
  have hs : (UInt64.ofInt height <<< 1).toNat = 2 * (height % 2 ^ 63).toNat := by
    rw [UInt64.toNat_shiftLeft, show (1 : UInt64).toNat % 64 = 1 from rfl, ho]
    omega
  cases isCoinBase with
  | false => exact hs
  | true =>
    have hor := Nat.two_pow_add_eq_or_of_lt (show 1 < 2 ^ 1 by decide) (height % 2 ^ 63).toNat
    change (UInt64.ofInt height <<< 1 ||| 0x01).toNat = 2 * (height % 2 ^ 63).toNat + 1
    rw [UInt64.toNat_or, hs]
    exact hor.symm

/-- **The height is read back**, whatever its sign. -/
theorem headerHeight_headerCode {height : Int} (h : IsInt32 height) (isCoinBase : Bool) :
    headerHeight (headerCode height isCoinBase) = height := by
  obtain ⟨hl, hh⟩ := h
  have hf : isCoinBase.toNat ≤ 1 := isCoinBase.toNat_le
  have hs : (headerCode height isCoinBase >>> 1).toNat = (height % 2 ^ 63).toNat := by
    rw [UInt64.toNat_shiftRight, show (1 : UInt64).toNat % 64 = 1 from rfl, toNat_headerCode]
    omega
  have hn : (headerCode height isCoinBase >>> 1).toUInt32.toNat = (height % 2 ^ 32).toNat := by
    rw [UInt64.toNat_toUInt32, hs]
    omega
  have hi : headerHeight (headerCode height isCoinBase) =
      ((headerCode height isCoinBase >>> 1).toUInt32.toNat : Int).bmod (2 ^ 32) :=
    BitVec.toInt_eq_toNat_bmod _
  rw [hi, hn, Int.bmod_def]
  split_ifs <;> omega

theorem headerIsCoinBase_headerCode (height : Int) (isCoinBase : Bool) :
    headerIsCoinBase (headerCode height isCoinBase) = isCoinBase := by
  have ha : (headerCode height isCoinBase &&& 0x01).toNat = isCoinBase.toNat := by
    have hm : (headerCode height isCoinBase &&& 0x01).toNat =
        (headerCode height isCoinBase).toNat % 2 := by
      exact Nat.and_one_is_mod _
    have hf : isCoinBase.toNat ≤ 1 := isCoinBase.toNat_le
    rw [hm, toNat_headerCode]
    omega
  cases isCoinBase with
  | false =>
    have hz : headerCode height false &&& 0x01 = 0 := UInt64.toNat.inj ha
    rw [headerIsCoinBase, hz]
    rfl
  | true =>
    have ho : headerCode height true &&& 0x01 = 1 := UInt64.toNat.inj ha
    rw [headerIsCoinBase, ho]
    rfl

/-! ### Unspent outputs -/

def utxoEntryHeaderCode (entry : UtxoEntry) : Check UInt64 :=
  if entry.isSpent then .error (.error .assertError)
  else .ok (headerCode entry.blockHeight entry.isCoinBase)

/-- `serializeUtxoEntry`; a spent entry has no serialization. -/
def serializeUtxoEntry (entry : UtxoEntry) : Check (List UInt8) :=
  if entry.isSpent then .ok []
  else do
    let headerCode ← utxoEntryHeaderCode entry
    let size := serializeSizeVLQ headerCode +
      compressedTxOutSize entry.amount.toUInt64 entry.pkScript
    let written ← (Buffer.followedBy (putVLQ headerCode)
      (putCompressedTxOut entry.amount.toUInt64 entry.pkScript)
        (List.replicate size 0)).mapError Fault.panic
    pure written.1

/-- An error that is passed on with a text of its own. -/
def ReadFault.passOn (text : DeserializeError → DeserializeError) : ReadFault → ReadFault
  | .panic p => .panic p
  | .error e => .error (text e)

def deserializeUtxoEntry (serialized : List UInt8) : Except ReadFault UtxoEntry :=
  let code := (deserializeVLQ serialized).1
  let offset := (deserializeVLQ serialized).2
  if serialized.length ≤ offset then .error (.error .endAfterHeader)
  else do
    let txOut ← (decodeCompressedTxOut (serialized.drop offset)).mapError
      (ReadFault.passOn .utxo)
    pure
      { amount := txOut.1.toInt64
        pkScript := txOut.2.1
        blockHeight := headerHeight code
        isCoinBase := headerIsCoinBase code }

variable {entry : UtxoEntry} {stxos : List SpentTxOut} {code : UInt64} {offset : Nat}
  {out : SpentTxOut × Nat} (stxo : SpentTxOut)

theorem serializeUtxoEntry_eq (h : entry.isSpent = false) :
    serializeUtxoEntry entry = .ok (vlqBytes (headerCode entry.blockHeight entry.isCoinBase) ++
      txOutBytes entry.amount.toUInt64 entry.pkScript) := by
  have hw := (writes_putVLQ (headerCode entry.blockHeight entry.isCoinBase)).followedBy
    (writes_putCompressedTxOut entry.amount.toUInt64 entry.pkScript)
  have hf := hw.fill (show (List.replicate (serializeSizeVLQ (headerCode entry.blockHeight
    entry.isCoinBase) + compressedTxOutSize entry.amount.toUInt64 entry.pkScript) 0).length = _ by
      rw [length_replicate, length_append, length_vlqBytes, length_txOutBytes])
  rw [serializeUtxoEntry, utxoEntryHeaderCode, h]
  change ((Except.mapError Fault.panic _) >>= fun written => pure (Prod.fst written)) = _
  rw [hf]
  rfl

/-- The amounts of outputs. -/
def IsAmount (amount : Int64) : Prop := 0 ≤ amount ∧ amount ≤ maxSatoshi

theorem IsAmount.toNat_lt {amount : Int64} (h : IsAmount amount) :
    amount.toUInt64.toNat < 2 ^ 60 := by
  obtain ⟨hl, hh⟩ := h
  rw [Int64.le_iff_toInt_le] at hl hh
  have hz : (0 : Int64).toInt = 0 := rfl
  have hm : maxSatoshi.toInt = 2100000000000000 := rfl
  have hlt := amount.toUInt64.toNat_lt
  have hi : amount.toInt = _ := toInt_eq amount.toUInt64
  split_ifs at hi <;> omega

/-- **An unspent output is read back** as it was, without the mark that it is modified. -/
theorem deserializeUtxoEntry_serialize (hs : entry.isSpent = false)
    (ha : IsAmount entry.amount) (hh : IsInt32 entry.blockHeight)
    (hsc : compressedScriptSize entry.pkScript < 2 ^ 63) :
    ∃ serialized, serializeUtxoEntry entry = .ok serialized ∧
      deserializeUtxoEntry serialized = .ok { entry with isModified := false } := by
  refine ⟨_, serializeUtxoEntry_eq hs, ?_⟩
  have hr := decodeCompressedTxOut_txOutBytes ha.toNat_lt hsc []
  rw [append_nil] at hr
  have hl : ¬(vlqBytes (headerCode entry.blockHeight entry.isCoinBase) ++
      txOutBytes entry.amount.toUInt64 entry.pkScript).length ≤
        serializeSizeVLQ (headerCode entry.blockHeight entry.isCoinBase) := by
    have hp := compressedScriptSize_pos entry.pkScript
    rw [length_append, length_vlqBytes, length_txOutBytes, compressedTxOutSize]
    omega
  rw [deserializeUtxoEntry, deserializeVLQ_vlqBytes_append]
  rw [if_neg hl, drop_left' (length_vlqBytes _), hr, headerHeight_headerCode hh,
    headerIsCoinBase_headerCode, ← hs]
  rfl

/-! ### Spent outputs -/

def spentTxOutHeaderCode : UInt64 := headerCode stxo.height stxo.isCoinBase

def spentTxOutSerializeSize : Nat :=
  let size := serializeSizeVLQ (spentTxOutHeaderCode stxo)
  let size := if 0 < stxo.height then size + serializeSizeVLQ 0 else size
  size + compressedTxOutSize stxo.amount.toUInt64 stxo.pkScript

/-- `putSpentTxOut`; the reserved number is zero. -/
def putSpentTxOut (target : List UInt8) : Except Panic (List UInt8 × Nat) :=
  let putHeader := putVLQ (spentTxOutHeaderCode stxo)
  let putHeader := if 0 < stxo.height then Buffer.followedBy putHeader (putVLQ 0) else putHeader
  Buffer.followedBy putHeader (putCompressedTxOut stxo.amount.toUInt64 stxo.pkScript) target

/-- `decodeSpentTxOut` behind the header code and the reserved number. -/
def decodeSpentTxOutAt (serialized : List UInt8) (code : UInt64) (offset : Nat) :
    Except ReadFault (SpentTxOut × Nat) := do
  let txOut ← (decodeCompressedTxOut (serialized.drop offset)).mapError (ReadFault.passOn .txOut)
  pure ({ amount := txOut.1.toInt64, pkScript := txOut.2.1, height := headerHeight code
          isCoinBase := headerIsCoinBase code }, offset + txOut.2.2)

/-- `decodeSpentTxOut`: the spent output and the number of bytes read. -/
def decodeSpentTxOut (serialized : List UInt8) : Except ReadFault (SpentTxOut × Nat) :=
  if serialized.length = 0 then .error (.error .noBytes)
  else
    let code := (deserializeVLQ serialized).1
    let offset := (deserializeVLQ serialized).2
    if serialized.length ≤ offset then .error (.error .endAfterHeaderCode)
    else if 0 < headerHeight code then
      let offset := offset + (deserializeVLQ (serialized.drop offset)).2
      if serialized.length ≤ offset then .error (.error .endAfterReserved)
      else decodeSpentTxOutAt serialized code offset
    else decodeSpentTxOutAt serialized code offset

/-- The header of the record of a spent output. -/
def spentHeaderBytes : List UInt8 :=
  vlqBytes (spentTxOutHeaderCode stxo) ++ if 0 < stxo.height then vlqBytes 0 else []

/-- The record of a spent output. -/
def spentTxOutBytes : List UInt8 :=
  spentHeaderBytes stxo ++ txOutBytes stxo.amount.toUInt64 stxo.pkScript

theorem length_spentTxOutBytes : (spentTxOutBytes stxo).length = spentTxOutSerializeSize stxo := by
  rw [spentTxOutBytes, spentHeaderBytes, spentTxOutSerializeSize]
  split_ifs <;> simp [length_txOutBytes, Nat.add_assoc]

theorem length_spentTxOutBytes_pos : 0 < (spentTxOutBytes stxo).length := by
  have hp := compressedScriptSize_pos stxo.pkScript
  rw [spentTxOutBytes, length_append, length_txOutBytes, compressedTxOutSize]
  omega

/-- **What `putSpentTxOut` writes.** -/
theorem writes_putSpentTxOut : Buffer.Writes (putSpentTxOut stxo) (spentTxOutBytes stxo) := by
  have hh : Buffer.Writes (if 0 < stxo.height then
      Buffer.followedBy (putVLQ (spentTxOutHeaderCode stxo)) (putVLQ 0)
      else putVLQ (spentTxOutHeaderCode stxo)) (spentHeaderBytes stxo) := by
    rw [spentHeaderBytes]
    split_ifs
    · exact (writes_putVLQ _).followedBy (writes_putVLQ 0)
    · rw [append_nil]
      exact writes_putVLQ _
  exact hh.followedBy (writes_putCompressedTxOut _ _)

/-- The spent outputs that the journal can keep. -/
structure Storable (stxo : SpentTxOut) : Prop where
  amount : IsAmount stxo.amount
  height : IsInt32 stxo.height
  script : compressedScriptSize stxo.pkScript < 2 ^ 63

/-- **A spent output is read back**, whatever follows its record. -/
theorem decodeSpentTxOut_spentTxOutBytes {stxo : SpentTxOut} (h : Storable stxo)
    (rest : List UInt8) : decodeSpentTxOut (spentTxOutBytes stxo ++ rest) =
      .ok (stxo, spentTxOutSerializeSize stxo) := by
  have hp := compressedScriptSize_pos stxo.pkScript
  have hat : decodeSpentTxOutAt (spentTxOutBytes stxo ++ rest) (spentTxOutHeaderCode stxo)
      (spentHeaderBytes stxo).length = .ok (stxo, spentTxOutSerializeSize stxo) := by
    rw [decodeSpentTxOutAt, spentTxOutBytes, append_assoc, drop_left' rfl,
      decodeCompressedTxOut_txOutBytes h.amount.toNat_lt h.script, ← length_spentTxOutBytes,
      spentTxOutBytes, length_append, length_txOutBytes, spentTxOutHeaderCode,
      headerHeight_headerCode h.height, headerIsCoinBase_headerCode]
    rfl
  have hr : deserializeVLQ (spentTxOutBytes stxo ++ rest) =
      (spentTxOutHeaderCode stxo, serializeSizeVLQ (spentTxOutHeaderCode stxo)) := by
    simp only [spentTxOutBytes, spentHeaderBytes, append_assoc]
    exact deserializeVLQ_vlqBytes_append _ _
  have hl : (spentHeaderBytes stxo).length < (spentTxOutBytes stxo ++ rest).length := by
    rw [spentTxOutBytes, length_append, length_append, length_txOutBytes, compressedTxOutSize]
    omega
  have hc : serializeSizeVLQ (spentTxOutHeaderCode stxo) ≤ (spentHeaderBytes stxo).length := by
    rw [spentHeaderBytes, length_append, length_vlqBytes]
    exact Nat.le_add_right _ _
  rw [decodeSpentTxOut, if_neg (by omega), hr]
  rw [if_neg (by omega), show headerHeight (spentTxOutHeaderCode stxo) = stxo.height from
    headerHeight_headerCode h.height _]
  by_cases hh : 0 < stxo.height
  · have ho : serializeSizeVLQ (spentTxOutHeaderCode stxo) +
        (deserializeVLQ ((spentTxOutBytes stxo ++ rest).drop
          (serializeSizeVLQ (spentTxOutHeaderCode stxo)))).2 = (spentHeaderBytes stxo).length := by
      rw [spentTxOutBytes, spentHeaderBytes, if_pos hh]
      simp only [append_assoc]
      rw [drop_left' (length_vlqBytes _), deserializeVLQ_vlqBytes_append, length_append,
        length_vlqBytes, length_vlqBytes]
    rw [if_pos hh, ho, if_neg (by omega)]
    exact hat
  · have ho : serializeSizeVLQ (spentTxOutHeaderCode stxo) = (spentHeaderBytes stxo).length := by
      rw [spentHeaderBytes, if_neg hh, append_nil, length_vlqBytes]
    rw [if_neg hh, ho]
    exact hat

/-! ### The spend journal -/

/-- `serializeSpendJournalEntry`: the last spent output first. -/
def serializeSpendJournalEntry (stxos : List SpentTxOut) : Except Panic (List UInt8) :=
  if stxos.length = 0 then .ok []
  else
    let size := (stxos.map spentTxOutSerializeSize).sum
    (Buffer.inSequence (stxos.reverse.map putSpentTxOut) (List.replicate size 0)).map Prod.fst

/-- The loops of `deserializeSpendJournalEntry` over the inputs, the last one first. -/
def decodeStxos : List TxIn → List UInt8 → List SpentTxOut → Except ReadFault (List SpentTxOut)
  | [], _, stxos => .ok stxos
  | txIn :: txIns, serialized, stxos => do
      let decoded ← (decodeSpentTxOut serialized).mapError
        (ReadFault.passOn (.stxo txIn.previousOutPoint))
      decodeStxos txIns (serialized.drop decoded.2) (decoded.1 :: stxos)

def deserializeSpendJournalEntry (serialized : List UInt8) (txns : List MsgTx) :
    Except ReadFault (List SpentTxOut) :=
  let numStxos := (txns.map fun tx => tx.txIn.length).sum
  if serialized.length = 0 then
    if numStxos ≠ 0 then .error (.error (.noSerialization numStxos)) else .ok []
  else decodeStxos (txns.reverse.flatMap fun tx => tx.txIn.reverse) serialized []

theorem serializeSpendJournalEntry_eq (stxos : List SpentTxOut) :
    serializeSpendJournalEntry stxos = .ok (stxos.reverse.map spentTxOutBytes).flatten := by
  rw [serializeSpendJournalEntry]
  split_ifs with hn
  · obtain rfl := length_eq_zero_iff.1 hn
    rfl
  have hw : Buffer.Writes (Buffer.inSequence (stxos.reverse.map putSpentTxOut))
      (stxos.reverse.map spentTxOutBytes).flatten :=
    .inSequence fun stxo _ => writes_putSpentTxOut stxo
  have hl : (List.replicate (stxos.map spentTxOutSerializeSize).sum (0 : UInt8)).length =
      (stxos.reverse.map spentTxOutBytes).flatten.length := by
    rw [length_replicate, length_flatten, map_map, map_reverse, sum_reverse]
    exact congrArg (fun f => (stxos.map f).sum)
      (funext fun stxo => (length_spentTxOutBytes stxo).symm)
  dsimp only
  rw [hw.fill hl]
  rfl

theorem decodeStxos_flatten (h : ∀ stxo ∈ stxos, Storable stxo) {txIns : List TxIn}
    (hl : txIns.length = stxos.length) (acc : List SpentTxOut) :
    decodeStxos txIns (stxos.map spentTxOutBytes).flatten acc = .ok (stxos.reverse ++ acc) := by
  induction stxos generalizing txIns acc with
  | nil =>
    obtain rfl := length_eq_zero_iff.1 hl
    rfl
  | cons stxo stxos ih =>
    obtain ⟨txIn, txIns, rfl⟩ := exists_cons_of_length_eq_add_one hl
    rw [map_cons, flatten_cons, decodeStxos,
      decodeSpentTxOut_spentTxOutBytes (h stxo mem_cons_self)]
    change decodeStxos txIns (List.drop (spentTxOutSerializeSize stxo) _) (stxo :: acc) = _
    rw [drop_left' (length_spentTxOutBytes stxo),
      ih (fun s hs => h s (mem_cons_of_mem _ hs)) (Nat.succ.inj hl), reverse_cons,
      append_assoc]
    rfl

/-- **The spend journal is read back** with the transactions that spend as many outputs. -/
theorem deserializeSpendJournalEntry_serialize {txns : List MsgTx}
    (h : ∀ stxo ∈ stxos, Storable stxo)
    (hc : stxos.length = (txns.map fun tx => tx.txIn.length).sum) :
    ∃ serialized, serializeSpendJournalEntry stxos = .ok serialized ∧
      deserializeSpendJournalEntry serialized txns = .ok stxos := by
  refine ⟨_, serializeSpendJournalEntry_eq stxos, ?_⟩
  have hi : (txns.reverse.flatMap fun tx => tx.txIn.reverse).length = stxos.reverse.length := by
    rw [length_flatMap, length_reverse, hc]
    simp
  have hr := decodeStxos_flatten (fun stxo hs => h stxo (mem_reverse.1 hs)) hi []
  rw [append_nil, reverse_reverse] at hr
  rw [deserializeSpendJournalEntry]
  by_cases hn : stxos = []
  · subst hn
    rw [← hc]
    rfl
  rw [if_neg ?_]
  · exact hr
  · obtain ⟨last, init, hl⟩ := exists_cons_of_ne_nil (mt reverse_eq_nil_iff.1 hn)
    have hp := length_spentTxOutBytes_pos last
    rw [hl, map_cons, flatten_cons, length_append]
    omega

/-- **The codecs of outputs**: what is written is read back, and fits into a slice. -/
theorem codecs_roundTrip : (∀ entry : UtxoEntry, entry.isSpent = false → IsAmount entry.amount →
      IsInt32 entry.blockHeight → compressedScriptSize entry.pkScript < 2 ^ 63 →
      ∃ serialized, serializeUtxoEntry entry = .ok serialized ∧
        deserializeUtxoEntry serialized = .ok { entry with isModified := false }) ∧
    (∀ (stxos : List SpentTxOut) (txns : List MsgTx), (∀ stxo ∈ stxos, Storable stxo) →
      stxos.length = (txns.map fun tx => tx.txIn.length).sum →
      ∃ serialized, serializeSpendJournalEntry stxos = .ok serialized ∧
        deserializeSpendJournalEntry serialized txns = .ok stxos) ∧
    (∀ pkScript target : List UInt8, target.length = compressedScriptSize pkScript →
      target.length < 2 ^ 63 →
      ∃ written, putCompressedScript pkScript target = .ok (written, target.length) ∧
        decodeCompressedScriptSize written = target.length ∧
        decompressScript (.ofList written) = .ok pkScript) ∧
    ∀ amount : Int64, IsAmount amount →
      decompressTxOutAmount (compressTxOutAmount amount.toUInt64) = amount.toUInt64 := by
  refine ⟨fun _ => deserializeUtxoEntry_serialize,
    fun _ _ => deserializeSpendJournalEntry_serialize, ?_,
    fun _ h => decompressTxOutAmount_compress h.toNat_lt⟩
  intro pkScript target ht hlt
  rw [ht] at hlt ⊢
  rw [← length_scriptBytes] at ht ⊢
  have hs := decodeCompressedScriptSize_scriptBytes hlt []
  rw [append_nil, ← length_scriptBytes] at hs
  refine ⟨_, (writes_putCompressedScript pkScript).fill ht, hs, ?_⟩
  exact decompressScript_scriptBytes hlt (append_nil _).symm (length_scriptBytes pkScript)

/-! ### Readers that return -/

/-- What `deserializeUtxoEntry` asks of its input. -/
def UtxoReadable (serialized : List UInt8) : Prop :=
  (deserializeVLQ serialized).2 < serialized.length →
    TxOutReadable (serialized.drop (deserializeVLQ serialized).2)

/-- What `decodeSpentTxOut` asks of its input: the reserved number is there when the height is
positive. -/
def SpentReadable (serialized : List UInt8) : Prop :=
  let code := (deserializeVLQ serialized).1
  let offset := (deserializeVLQ serialized).2
  let offset := if 0 < headerHeight code then
    offset + (deserializeVLQ (serialized.drop offset)).2 else offset
  offset < serialized.length → TxOutReadable (serialized.drop offset)

/-- A reader returns a value, having read no more bytes than there are, or an error. -/
def ReturnsWithin {α : Type} (read : α → Nat) (len : Nat) (result : Except ReadFault α) : Prop :=
  (∃ a, result = .ok a ∧ read a ≤ len) ∨ ∃ e, result = .error (.error e)

theorem returnsWithin_iff {α : Type} {read : α → Nat} {len : Nat} {result : Except ReadFault α}
    (h : ∀ a, result = .ok a → read a ≤ len) : ReturnsWithin read len result ↔ Returns result := by
  cases result with
  | ok a => exact iff_of_true (.inl ⟨a, rfl, h a rfl⟩) returns_ok
  | error fault =>
    cases fault with
    | error e => exact iff_of_true (.inr ⟨e, rfl⟩) returns_error
    | panic p =>
      refine iff_of_false ?_ fun hr => hr p rfl
      rintro (⟨a, ha, -⟩ | ⟨e, he⟩)
      · cases ha
      · cases he

theorem returns_passOn_bind_iff {α β : Type} {r : Except ReadFault α} {f : α → β}
    {text : DeserializeError → DeserializeError} :
    Returns (r.mapError (ReadFault.passOn text) >>= fun a => pure (f a)) ↔ Returns r := by
  cases r with
  | ok a => exact iff_of_true returns_ok returns_ok
  | error fault =>
    cases fault with
    | panic p => exact iff_of_false (fun h => h p rfl) fun h => h p rfl
    | error e => exact iff_of_true returns_error returns_error

theorem returns_deserializeUtxoEntry_iff (serialized : List UInt8) :
    Returns (deserializeUtxoEntry serialized) ↔ UtxoReadable serialized := by
  rw [deserializeUtxoEntry, UtxoReadable]
  generalize (deserializeVLQ serialized).2 = offset
  by_cases hs : serialized.length ≤ offset
  · rw [if_pos hs]
    exact iff_of_true returns_error fun h => absurd h (not_lt.2 hs)
  · rw [if_neg hs, forall_prop_of_true (not_le.1 hs)]
    exact returns_passOn_bind_iff.trans (returns_decodeCompressedTxOut_iff _)

variable {serialized : List UInt8}

theorem returns_decodeSpentTxOutAt_iff :
    Returns (decodeSpentTxOutAt serialized code offset) ↔ TxOutReadable (serialized.drop offset) :=
  returns_passOn_bind_iff.trans (returns_decodeCompressedTxOut_iff _)

theorem returns_decodeSpentTxOut_iff (serialized : List UInt8) :
    Returns (decodeSpentTxOut serialized) ↔ SpentReadable serialized := by
  rw [decodeSpentTxOut, SpentReadable]
  generalize (deserializeVLQ serialized).1 = code
  generalize (deserializeVLQ serialized).2 = offset
  -- where the input is too short, what the condition asks for is not there
  have hs {k : Nat} (hk : serialized.length ≤ k) :
      k < serialized.length → TxOutReadable (serialized.drop k) := fun h => absurd h (not_lt.2 hk)
  by_cases hh : 0 < headerHeight code
  · simp only [if_pos hh]
    split_ifs with hn hc hr
    · exact iff_of_true returns_error (hs (by omega))
    · exact iff_of_true returns_error (hs (by omega))
    · exact iff_of_true returns_error (hs hr)
    · rw [forall_prop_of_true (not_le.1 hr)]
      exact returns_decodeSpentTxOutAt_iff
  · simp only [if_neg hh]
    split_ifs with hn hc
    · exact iff_of_true returns_error (hs (by omega))
    · exact iff_of_true returns_error (hs hc)
    · rw [forall_prop_of_true (not_le.1 hc)]
      exact returns_decodeSpentTxOutAt_iff

theorem decodeSpentTxOutAt_le (ho : offset ≤ serialized.length)
    (h : decodeSpentTxOutAt serialized code offset = .ok out) : out.2 ≤ serialized.length := by
  obtain ⟨txOut, ht, h⟩ := Checked.bind_eq_ok.1 h
  have hle := decodeCompressedTxOut_le (Checked.mapError_eq_ok.1 ht)
  rw [length_drop] at hle
  rw [← Checked.pure_eq_ok.1 h]
  omega

theorem decodeSpentTxOut_le (h : decodeSpentTxOut serialized = .ok out) :
    out.2 ≤ serialized.length := by
  rw [decodeSpentTxOut] at h
  dsimp only at h
  split_ifs at h with hn hc hh hr
  · exact decodeSpentTxOutAt_le (not_le.1 hr).le h
  · exact decodeSpentTxOutAt_le (not_le.1 hc).le h

/-- **On which byte strings the readers return.** -/
theorem decoders_return_iff (serialized : List UInt8) :
    (ReturnsWithin Prod.snd serialized.length (decodeCompressedScript serialized) ↔
      ScriptReadable serialized) ∧
    (ReturnsWithin (fun out => out.2.2) serialized.length (decodeCompressedTxOut serialized) ↔
      TxOutReadable serialized) ∧
    (Returns (deserializeUtxoEntry serialized) ↔ UtxoReadable serialized) ∧
    (ReturnsWithin Prod.snd serialized.length (decodeSpentTxOut serialized) ↔
      SpentReadable serialized) := by
  refine ⟨?_, ?_, returns_deserializeUtxoEntry_iff serialized, ?_⟩
  · rw [returnsWithin_iff fun _ => decodeCompressedScript_le, returns_decodeCompressedScript_iff]
  · rw [returnsWithin_iff fun _ => decodeCompressedTxOut_le, returns_decodeCompressedTxOut_iff]
  · rw [returnsWithin_iff fun _ => decodeSpentTxOut_le, returns_decodeSpentTxOut_iff]

/-- A script field with the size `2 ^ 63 + 6`. -/
def hugeScript : List UInt8 := [0xfe, 0xfe, 0xfe, 0xfe, 0xfe, 0xfe, 0xfe, 0xff, 0x06]

/-- Its size is negative as an `int`, and so not larger than what is there: all readers panic. -/
theorem decoders_panic : decodeCompressedScript hugeScript = .error (.panic .indexOutOfRange) ∧
      decodeCompressedTxOut ([0x00] ++ hugeScript) = .error (.panic .indexOutOfRange) ∧
      deserializeUtxoEntry ([0x02, 0x00] ++ hugeScript) = .error (.panic .indexOutOfRange) ∧
      decodeSpentTxOut ([0x02, 0x00, 0x00] ++ hugeScript) = .error (.panic .indexOutOfRange) := by
  decide +kernel

end DrcNode
