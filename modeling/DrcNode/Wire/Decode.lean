import DrcNode.Library.Reader
import DrcNode.Wire.Encode
import Mathlib.Data.BitVec
import Mathlib.Tactic.Ring
import Mathlib.Data.Nat.Bitwise

/-!
# Reading messages back

The decoder of headers, transactions and blocks, as it is used on stored data: `Deserialize` of
`wire/msgblock.go` is `BtcDecode` with the witness encoding. What `Serialize` writes is read back,
with one exception that the format has from its witness extension: a transaction without inputs
starts like one with a witness, and is not read back.

Source: `wire/common.go`, `readElement` and `ReadVarInt`; `readBlockHeader` in
`wire/blockheader.go`; `BtcDecode` and the readers it uses in `wire/msgtx.go` and
`wire/msgblock.go`.
-/

namespace DrcNode

open List UInt32 Nat

open Reader

/-! ### Numbers and hashes -/

theorem ofLeBytes_leBytes (n v : Nat) : ofLeBytes (leBytes n v) = v % 256 ^ n := by
  induction n generalizing v with
  | zero => rw [leBytes, ofLeBytes, pow_zero, mod_one]
  | succ n ih =>
    rw [leBytes, ofLeBytes, ih, UInt8.toNat_ofNat', pow_succ' 256 n, mod_mul]

theorem leBytes_ofLeBytes : (bytes : List UInt8) → leBytes bytes.length (ofLeBytes bytes) = bytes
  | [] => rfl
  | b :: bytes => by
      have hb : b.toNat < 256 := b.toNat_lt
      have hl : UInt8.ofNat (b.toNat + 256 * ofLeBytes bytes) = b := by
        apply UInt8.toNat.inj
        rw [UInt8.toNat_ofNat']
        omega
      have hh : (b.toNat + 256 * ofLeBytes bytes) / 256 = ofLeBytes bytes := by omega
      rw [length_cons, ofLeBytes, leBytes, hl, hh, leBytes_ofLeBytes bytes]

theorem ofLeBytes_lt (bytes : List UInt8) : ofLeBytes bytes < 256 ^ bytes.length := by
  induction bytes with
  | nil => exact one_pos
  | cons b bytes ih =>
    have := b.toNat_lt
    rw [ofLeBytes, length_cons]
    omega

theorem ofLeBytes_concat (bytes : List UInt8) (last : UInt8) :
    ofLeBytes (bytes ++ [last]) = ofLeBytes bytes + 256 ^ bytes.length * last.toNat := by
  induction bytes with
  | nil => simp [ofLeBytes]
  | cons b bytes ih =>
    rw [cons_append, ofLeBytes, ih, ofLeBytes, length_cons]
    ring

theorem ofNat_ofLeBytes_leBytes (x : UInt32) :
    UInt32.ofNat (ofLeBytes (leBytes 4 x.toNat)) = x := by
  rw [ofLeBytes_leBytes, mod_eq_of_lt (show x.toNat < 256 ^ 4 from x.toNat_lt),
    UInt32.ofNat_toNat]

theorem and_0x80 (val : UInt8) : val &&& 0x80 = if val < 0x80 then 0 else 0x80 := by
  have hv : val.toNat < 256 := val.toNat_lt
  rw [← UInt8.toNat_inj, UInt8.toNat_and, show (0x80 : UInt8).toNat = 2 ^ 7 from rfl,
    and_two_pow, testBit_eq_decide_div_mod_eq]
  simp only [UInt8.lt_iff_toNat_lt, show (0x80 : UInt8).toNat = 2 ^ 7 from rfl]
  by_cases h : val.toNat / 2 ^ 7 % 2 = 1
  · rw [if_neg (by omega), decide_eq_true h]
    rfl
  · rw [if_pos (by omega), decide_eq_false h]
    rfl

theorem and_0x80_ne_iff {val : UInt8} : val &&& 0x80 ≠ 0x80 ↔ val < 0x80 := by
  rw [and_0x80]
  split_ifs with h <;> simp [h]

/-- The `n`-th number of four bytes in a slice. -/
def uint32At (data : List UInt8) (n : Nat) : UInt32 :=
  UInt32.ofNat (ofLeBytes ((data.drop (4 * n)).take 4))

variable {n v : Nat} {txIn : TxIn} {txIns : List TxIn}

theorem uint32At_append (pre post : List UInt8) (x : UInt32) (h : pre.length = 4 * n) :
    uint32At (pre ++ (leBytes 4 x.toNat ++ post)) n = x := by
  rw [uint32At, drop_left' h, take_left' (length_leBytes 4 x.toNat), ofNat_ofLeBytes_leBytes]

/-- An unsigned integer of `n` bytes, little-endian. -/
def readUint (n : Nat) : Reader UInt8 Nat := do
  let bytes ← exactly n
  pure (ofLeBytes bytes)

theorem reads_leBytes (h : v < 256 ^ n) : Reads (readUint n) (leBytes n v) v := by
  have hr := (Reads.exactly (length_leBytes n v)).map ofLeBytes
  rwa [ofLeBytes_leBytes, mod_eq_of_lt h] at hr

/-- A string of `n` bytes as a bit vector. -/
def readHash (n : Nat) : Reader UInt8 (BitVec (8 * n)) := do
  let bytes ← exactly n
  pure (BitVec.ofNat (8 * n) (ofLeBytes bytes.reverse))

theorem reads_beBytes (h : BitVec (8 * n)) : Reads (readHash n) (beBytes n h.toNat) h := by
  have hr := (Reads.exactly (length_beBytes n h.toNat)).map fun bytes =>
    BitVec.ofNat (8 * n) (ofLeBytes bytes.reverse)
  have hlt : h.toNat < 256 ^ n := by
    have := h.isLt
    rwa [pow_mul] at this
  rwa [beBytes, reverse_reverse, ofLeBytes_leBytes, mod_eq_of_lt hlt, BitVec.ofNat_toNat,
    BitVec.setWidth_eq] at hr

/-- An unsigned integer of `n` bytes that is not below `min`, as shorter ones have another code. -/
def readCanonical (n min : Nat) : Reader UInt8 Nat := do
  let rv ← readUint n
  guard (min ≤ rv)
  pure rv

theorem reads_canonical {min : Nat} (h : v < 256 ^ n) (hm : min ≤ v) :
    Reads (readCanonical n min) (leBytes n v) v := by
  exact (reads_leBytes h).bind_last (.bind_guard hm .pure)

/-- What `ReadVarInt` does after the first byte. -/
def readVarIntRest (discriminant : Nat) : Reader UInt8 Nat :=
  if discriminant = 0xff then readCanonical 8 0x100000000
  else if discriminant = 0xfe then readCanonical 4 0x10000
  else if discriminant = 0xfd then readCanonical 2 0xfd
  else pure discriminant

def readVarInt : Reader UInt8 Nat := do
  let discriminant ← readUint 1
  readVarIntRest discriminant

theorem reads_writeVarInt (h : v < 2 ^ 64) : Reads readVarInt (writeVarInt v) v := by
  have ho : ∀ {d : Nat} {t : List UInt8}, d < 256 → Reads (readVarIntRest d) t v →
      Reads readVarInt (leBytes 1 d ++ t) v := fun hd hr => (reads_leBytes hd).bind hr
  rw [writeVarInt]
  split_ifs with h8 h16 h32
  · simpa only [append_nil] using ho (d := v) (t := []) (by omega) (by
      rw [readVarIntRest, if_neg (by omega), if_neg (by omega), if_neg (by omega)]
      exact .pure)
  · exact ho (d := 0xfd) (by decide) (reads_canonical (by omega) (by omega))
  · exact ho (d := 0xfe) (by decide) (reads_canonical (by omega) (by omega))
  · exact ho (d := 0xff) (by decide) (reads_canonical (by omega) (by omega))

def readScript (maxAllowed : Nat) : Reader UInt8 (List UInt8) := do
  let count ← readVarInt
  guard (count ≤ maxAllowed)
  exactly count

theorem reads_writeVarBytes {bytes : List UInt8} {maxAllowed : Nat}
    (h : bytes.length ≤ maxAllowed) (hm : maxAllowed < 2 ^ 64) :
    Reads (readScript maxAllowed) (writeVarBytes bytes) bytes := by
  exact (reads_writeVarInt (h.trans_lt hm)).bind (.bind_guard h (.exactly rfl))

/-! ### Headers -/

def readBlockHeader : Reader UInt8 BlockHeader := do
  let version ← readUint 4
  let prevBlock ← readHash 32
  let merkleRoot ← readHash 32
  let timestamp ← readUint 4
  let signature ← readHash 64
  let publicKey ← readHash 33
  let scale ← readUint 2
  let reserved ← readUint 2
  pure { version := Int32.ofNat version, prevBlock, merkleRoot, timestamp := timestamp, signature,
         publicKey, scale := UInt16.ofNat scale, reserved := UInt16.ofNat reserved }

theorem Int32.ofNat_toInt_emod (x : Int32) : Int32.ofNat (x.toInt % 2 ^ 32).toNat = x := by
  have hn : 0 ≤ x.toInt % 2 ^ 32 := Int.emod_nonneg _ (by decide)
  rw [← Int32.ofInt_eq_ofNat, Int.toNat_of_nonneg hn, Int32.ofInt_eq_iff_bmod_eq_toInt,
    show (2 : Int) ^ 32 = ((2 ^ 32 : ℕ) : Int) from rfl, Int.emod_bmod]
  exact Int32.toInt_bmod x

/-- **A header is read back** when its time has 32 bits. -/
theorem reads_writeBlockHeader {bh : BlockHeader} (h : 0 ≤ bh.timestamp)
    (hlt : bh.timestamp < 2 ^ 32) : Reads readBlockHeader (writeBlockHeader bh) bh := by
  have ht : ((bh.timestamp % 2 ^ 32).toNat : Int) = bh.timestamp := by
    rw [Int.emod_eq_of_lt h hlt, Int.toNat_of_nonneg h]
  refine (reads_leBytes (by omega)).bind ?_
  refine (reads_beBytes (n := 32) bh.prevBlock).bind ?_
  refine (reads_beBytes (n := 32) bh.merkleRoot).bind ?_
  refine (reads_leBytes (by omega)).bind ?_
  refine (reads_beBytes (n := 64) bh.signature).bind ?_
  refine (reads_beBytes (n := 33) bh.publicKey).bind ?_
  refine (reads_leBytes (UInt16.toNat_lt _)).bind ?_
  refine (reads_leBytes (UInt16.toNat_lt _)).bind_last ?_
  rw [Int32.ofNat_toInt_emod, ht, UInt16.ofNat_toNat, UInt16.ofNat_toNat]
  exact .pure

/-! ### Transactions -/

def maxMessagePayload : Nat := 1024 * 1024 * 32

def maxTxInPerMessage : Nat := maxMessagePayload / 41 + 1

def maxTxOutPerMessage : Nat := maxMessagePayload / 9 + 1

def maxWitnessItemsPerInput : Nat := 500000

def maxWitnessItemSize : Nat := 11000

inductive MessageEncoding
  | base
  | witness
  deriving DecidableEq, Repr

def readTxIn : Reader UInt8 TxIn := do
  let hash ← readHash 32
  let index ← readUint 4
  let signatureScript ← readScript maxMessagePayload
  let sequence ← readUint 4
  pure { previousOutPoint := ⟨hash, UInt32.ofNat index⟩, signatureScript, witness := []
         sequence := UInt32.ofNat sequence }

def readTxOut : Reader UInt8 TxOut := do
  let value ← readUint 8
  let pkScript ← readScript maxMessagePayload
  pure { value := (UInt64.ofNat value).toInt64, pkScript }

/-- The number of inputs, and whether the transaction comes with witnesses: a count of zero is read
as the marker of that. -/
def readTxInCount : Reader UInt8 (Nat × Bool) := do
  let count ← readVarInt
  if count = 0 then do
    let flag ← readUint 1
    guard (flag = 0x01)
    let count ← readVarInt
    pure (count, true)
  else pure (count, false)

/-- The witness of an input. -/
def readTxWitness : Reader UInt8 (List (List UInt8)) := do
  let witCount ← readVarInt
  guard (witCount ≤ maxWitnessItemsPerInput)
  times witCount (readScript maxWitnessItemSize)

/-- The witnesses of the inputs, one after the other. -/
def readTxWitnesses : List TxIn → Reader UInt8 (List TxIn)
  | [] => pure []
  | txIn :: rest => do
      let witness ← readTxWitness
      let rest ← readTxWitnesses rest
      pure ({ txIn with witness } :: rest)

/-- `(*MsgTx).BtcDecode` with the witness encoding. -/
def readMsgTx : Reader UInt8 MsgTx := do
  let version ← readUint 4
  let count ← readTxInCount
  guard (count.1 ≤ maxTxInPerMessage)
  let txIn ← times count.1 readTxIn
  let outCount ← readVarInt
  guard (outCount ≤ maxTxOutPerMessage)
  let txOut ← times outCount readTxOut
  let txIn ← if count.2 then readTxWitnesses txIn else pure txIn
  let lockTime ← readUint 4
  pure { version := Int32.ofNat version, txIn, txOut, lockTime := UInt32.ofNat lockTime }

def maxTxPerBlock : Nat := 4000000 / 10 + 1

/-- `(*MsgBlock).Deserialize`. -/
def readMsgBlock : Reader UInt8 MsgBlock := do
  let header ← readBlockHeader
  let txCount ← readVarInt
  guard (txCount ≤ maxTxPerBlock)
  let transactions ← times txCount readMsgTx
  pure { header, transactions }

/-- The limits of the format on an input. -/
structure TxIn.Encodable (txIn : TxIn) : Prop where
  signatureScript_le : txIn.signatureScript.length ≤ maxMessagePayload
  witness_le : txIn.witness.length ≤ maxWitnessItemsPerInput
  item_le : ∀ item ∈ txIn.witness, item.length ≤ maxWitnessItemSize

/-- The limits of the format on a transaction, which has at least one input. -/
structure MsgTx.Encodable (msgTx : MsgTx) : Prop where
  txIn_ne_nil : msgTx.txIn ≠ []
  txIn_le : msgTx.txIn.length ≤ maxTxInPerMessage
  txIn_encodable : ∀ txIn ∈ msgTx.txIn, txIn.Encodable
  txOut_le : msgTx.txOut.length ≤ maxTxOutPerMessage
  pkScript_le : ∀ txOut ∈ msgTx.txOut, txOut.pkScript.length ≤ maxMessagePayload

/-- The limits of the format on a block. -/
structure MsgBlock.Encodable (msgBlock : MsgBlock) : Prop where
  timestamp_nonneg : 0 ≤ msgBlock.header.timestamp
  timestamp_lt : msgBlock.header.timestamp < 2 ^ 32
  transactions_le : msgBlock.transactions.length ≤ maxTxPerBlock
  transactions_encodable : ∀ tx ∈ msgBlock.transactions, tx.Encodable

theorem reads_writeTxIn (h : txIn.Encodable) :
    Reads readTxIn (writeTxIn txIn) { txIn with witness := [] } := by
  refine (reads_beBytes (n := 32) txIn.previousOutPoint.hash).bind ?_
  refine (reads_leBytes (toNat_lt _)).bind ?_
  refine (reads_writeVarBytes h.signatureScript_le (by decide)).bind ?_
  refine (reads_leBytes (toNat_lt _)).bind_last ?_
  rw [UInt32.ofNat_toNat, UInt32.ofNat_toNat]
  exact .pure

theorem reads_writeTxOut {txOut : TxOut} (h : txOut.pkScript.length ≤ maxMessagePayload) :
    Reads readTxOut (writeTxOut txOut) txOut := by
  refine (reads_leBytes (UInt64.toNat_lt _)).bind ?_
  refine (reads_writeVarBytes h (by decide)).bind_last ?_
  rw [UInt64.ofNat_toNat]
  exact .pure

theorem reads_writeTxWitness (h : txIn.Encodable) :
    Reads readTxWitness (MsgTx.writeTxWitness txIn.witness) txIn.witness := by
  refine (reads_writeVarInt (h.witness_le.trans_lt (by decide))).bind
    (.bind_guard h.witness_le (.times fun item hi => ?_))
  exact reads_writeVarBytes (h.item_le item hi) (by decide)

theorem reads_witnesses (h : ∀ txIn ∈ txIns, txIn.Encodable) :
    Reads (readTxWitnesses (txIns.map fun txIn => { txIn with witness := [] }))
      (txIns.flatMap fun txIn => MsgTx.writeTxWitness txIn.witness) txIns := by
  induction txIns with
  | nil => exact .pure
  | cons txIn txIns ih =>
    refine (reads_writeTxWitness (h txIn mem_cons_self)).bind ?_
    exact (ih fun t ht => h t (mem_cons_of_mem txIn ht)).bind_last .pure

theorem reads_count (hn : n ≠ 0) (h : n < 2 ^ 64) :
    Reads readTxInCount (writeVarInt n) (n, false) := by
  refine (reads_writeVarInt h).bind_last ?_
  rw [if_neg hn]
  exact .pure

theorem reads_count_witness (h : n < 2 ^ 64) :
    Reads readTxInCount ([0x00, 0x01] ++ writeVarInt n) (n, true) := by
  refine (reads_writeVarInt (v := 0) (by decide)).bind (t := 0x01 :: writeVarInt n) ?_
  refine (reads_leBytes (n := 1) (v := 1) (by decide)).bind (.bind_guard rfl ?_)
  exact (reads_writeVarInt h).bind_last .pure

theorem reads_txIns (h : ∀ txIn ∈ txIns, txIn.Encodable) :
    Reads (times txIns.length readTxIn) (txIns.flatMap writeTxIn)
      (txIns.map fun txIn => { txIn with witness := [] }) := by
  have ht := Reads.times (l := txIns.map fun txIn => { txIn with witness := [] })
    (w := writeTxIn) (r := readTxIn) ?_
  · rwa [length_map, flatMap_map] at ht
  · intro txIn' hm
    obtain ⟨txIn, hti, rfl⟩ := mem_map.1 hm
    have hr := reads_writeTxIn (h txIn hti)
    exact hr

theorem reads_txOuts {txOuts : List TxOut}
    (h : ∀ txOut ∈ txOuts, txOut.pkScript.length ≤ maxMessagePayload) :
    Reads (times txOuts.length readTxOut) (txOuts.flatMap writeTxOut) txOuts :=
  .times fun txOut ht => reads_writeTxOut (h txOut ht)

namespace MsgTx

variable {msg : MsgTx} (enc : MessageEncoding)

/-- The number of inputs and whether there is a marker, which only the witness encoding has. -/
def readCount : MessageEncoding → Reader UInt8 (Nat × Bool)
  | .base => do
      let count ← readVarInt
      pure (count, false)
  | .witness => readTxInCount

/-- The parts of a transaction, as `BtcDecode` reads them, and whether it comes with witnesses. -/
def readMarked : Reader UInt8 (Bool × MsgTx) := do
  let version ← readUint 4
  let count ← readCount enc
  guard (count.1 ≤ maxTxInPerMessage)
  let txIn ← times count.1 readTxIn
  let outCount ← readVarInt
  guard (outCount ≤ maxTxOutPerMessage)
  let txOut ← times outCount readTxOut
  let txIn ← if count.2 then readTxWitnesses txIn else pure txIn
  let lockTime ← readUint 4
  pure (count.2, { version := Int32.ofNat version, txIn, txOut, lockTime := UInt32.ofNat lockTime })

/-- The parts of a transaction, as `BtcDecode` reads them. -/
def readParts : Reader UInt8 MsgTx := do
  let marked ← readMarked enc
  pure marked.2

theorem readParts_witness : readParts .witness = readMsgTx := by
  simp [readParts, readMarked, readCount, readMsgTx, apply_ite (Functor.map Prod.snd)]

/-- The transaction without its witnesses. -/
def stripped (msg : MsgTx) : MsgTx :=
  { msg with txIn := msg.txIn.map fun txIn => { txIn with witness := [] } }

theorem flatMap_writeTxIn_stripped (msg : MsgTx) :
    msg.stripped.txIn.flatMap writeTxIn = msg.txIn.flatMap writeTxIn := by
  rw [stripped, flatMap_map]
  rfl

theorem serializeNoWitness_stripped (msg : MsgTx) :
    msg.stripped.serializeNoWitness = msg.serializeNoWitness := by
  rw [serializeNoWitness, flatMap_writeTxIn_stripped, serializeNoWitness]
  simp [stripped]

theorem reads_serializeNoWitness (h : msg.stripped.Encodable)
    (hc : Reads (readCount enc) (writeVarInt msg.txIn.length) (msg.txIn.length, false)) :
    Reads (readParts enc) msg.serializeNoWitness msg.stripped := by
  refine .map Prod.snd (a := (false, msg.stripped)) ?_
  have hin : msg.stripped.txIn.length = msg.txIn.length := length_map _
  have ht : Reads (times msg.txIn.length readTxIn) (msg.txIn.flatMap writeTxIn)
      msg.stripped.txIn := by
    have hr := reads_txIns h.txIn_encodable
    rw [hin, flatMap_writeTxIn_stripped, stripped, map_map] at hr
    exact hr
  rw [serializeNoWitness, readMarked]
  simp only [append_assoc]
  refine (reads_leBytes (by omega)).bind ?_
  refine hc.bind (.bind_guard (hin ▸ h.txIn_le) ?_)
  refine ht.bind ?_
  refine (reads_writeVarInt (h.txOut_le.trans_lt (by decide))).bind (.bind_guard h.txOut_le ?_)
  refine (reads_txOuts h.pkScript_le).bind ?_
  simp only [Bool.false_eq_true, if_false, pure_bind]
  refine (reads_leBytes (toNat_lt _)).bind_last ?_
  rw [Int32.ofNat_toInt_emod, UInt32.ofNat_toNat]
  exact .pure

/-- **A transaction with an input is read back.** -/
theorem reads_serialize (h : msg.Encodable) : Reads readMsgTx msg.serialize msg := by
  have hin : msg.txIn.length < 2 ^ 64 := h.txIn_le.trans_lt (by decide)
  have ho : msg.txOut.length < 2 ^ 64 := h.txOut_le.trans_lt (by decide)
  rw [serialize]
  split_ifs with hw
  · simp only [append_assoc]
    refine (reads_leBytes (by omega)).bind ?_
    refine (reads_count_witness hin).bind (.bind_guard h.txIn_le ?_)
    refine (reads_txIns h.txIn_encodable).bind ?_
    refine (reads_writeVarInt ho).bind (.bind_guard h.txOut_le ?_)
    refine (reads_txOuts h.pkScript_le).bind ?_
    refine (reads_witnesses h.txIn_encodable).bind ?_
    refine (reads_leBytes (toNat_lt _)).bind_last ?_
    rw [Int32.ofNat_toInt_emod, UInt32.ofNat_toNat]
    exact .pure
  · -- without a witness the inputs are what has been read of them
    have hn : msg.stripped = msg := by
      have hm : (msg.txIn.map fun txIn => { txIn with witness := [] }) = msg.txIn := by
        conv_rhs => rw [← map_id msg.txIn]
        refine map_congr_left fun txIn ht => ?_
        have he : txIn.witness = [] := by
          rw [hasWitness, any_eq_true] at hw
          by_contra hne
          exact hw ⟨txIn, ht, by rw [Bool.not_eq_true', isEmpty_eq_false_iff]; exact hne⟩
        rw [← he, id]
      rw [stripped, hm]
    have hne : msg.txIn.length ≠ 0 := fun h0 => h.txIn_ne_nil (eq_nil_of_length_eq_zero h0)
    have hr := reads_serializeNoWitness .witness (hn.symm ▸ h) (reads_count hne hin)
    rwa [hn, readParts_witness, readMsgTx] at hr

end MsgTx

/-- **A block is read back** when each of its transactions has an input. -/
theorem MsgBlock.reads_serialize {msgBlock : MsgBlock} (h : msgBlock.Encodable) :
    Reads readMsgBlock msgBlock.serialize msgBlock := by
  refine (reads_writeBlockHeader h.timestamp_nonneg h.timestamp_lt).bind ?_
  refine (reads_writeVarInt (h.transactions_le.trans_lt (by decide))).bind
    (.bind_guard h.transactions_le ?_)
  refine (Reads.times fun tx htx => ?_).bind_last Reads.pure
  exact MsgTx.reads_serialize (h.transactions_encodable tx htx)

end DrcNode
