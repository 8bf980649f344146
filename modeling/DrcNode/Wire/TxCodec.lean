import DrcNode.Wire.Decode

/-!
# The two encodings of a transaction

On the network a transaction is written with its witnesses or without them, and the decoder is told
which of the two it reads. At its end the decoder moves all scripts into one buffer, where each of
them becomes a slice.

## Main results

* `tx_codec`.

Source: `wire/msgtx.go`, `BtcDecode` and `BtcEncode`. A script that is read is a slice of the
buffer, so that what it holds is what the buffer holds at the end.
-/

namespace DrcNode

open List MsgTx

open Reader

/-! ### One buffer for all scripts -/

/-- `copy(buffer[offset:], src)`. -/
def copyAt (buffer : List UInt8) (offset : Nat) (src : List UInt8) : List UInt8 :=
  buffer.take offset ++ src.take (buffer.length - offset) ++ buffer.drop (offset + src.length)

/-- Copy the scripts into the buffer from `offset` on, and note where each of them is. -/
def placeScripts : List UInt8 → Nat → List (List UInt8) → Option (List UInt8 × List (Nat × Nat))
  | buffer, _, [] => some (buffer, [])
  | buffer, offset, script :: rest =>
      if buffer.length < offset + script.length then none
      else (placeScripts (copyAt buffer offset script) (offset + script.length) rest).map fun r =>
        (r.1, (offset, offset + script.length) :: r.2)

/-- What a slice of the buffer holds. -/
def sliceOf (buffer : List UInt8) (range : Nat × Nat) : List UInt8 :=
  (buffer.drop range.1).take (range.2 - range.1)

theorem placeScripts_eq (done : List UInt8) (scripts : List (List UInt8)) {pad : List UInt8}
    (h : pad.length = scripts.flatten.length) :
    ∃ ranges, placeScripts (done ++ pad) done.length scripts =
        some (done ++ scripts.flatten, ranges) ∧
      ranges.map (sliceOf (done ++ scripts.flatten)) = scripts := by
  induction scripts generalizing done pad with
  | nil => simp_all [placeScripts]
  | cons script scripts ih =>
    simp only [flatten_cons, length_append] at h
    -- the front of the padding is overwritten with the first script
    have hc : copyAt (done ++ pad) done.length script =
        (done ++ script) ++ pad.drop script.length := by
      rw [copyAt, take_left, length_append, take_of_length_le (by omega), drop_append,
        drop_of_length_le (by omega), Nat.add_sub_cancel_left, nil_append]
    obtain ⟨ranges, hp, hs⟩ := ih (done ++ script)
      (show (pad.drop script.length).length = _ by rw [length_drop]; omega)
    rw [length_append] at hp
    refine ⟨(done.length, done.length + script.length) :: ranges, ?_, ?_⟩
    · rw [placeScripts, if_neg (by rw [length_append]; omega), hc, hp]
      simp
    · rw [flatten_cons, ← append_assoc, map_cons, hs, sliceOf]
      simp

namespace TxIn

/-- The scripts of an input in the order in which they are moved. -/
def scripts (txIn : TxIn) : List (List UInt8) := txIn.signatureScript :: txIn.witness

/-- The input with these scripts. -/
def withScripts (txIn : TxIn) (scripts : List (List UInt8)) : TxIn :=
  { txIn with signatureScript := scripts.headD [], witness := scripts.tail }

end TxIn

/-- Give each input as many of the scripts as it has. -/
def withInputScripts : List TxIn → List (List UInt8) → List TxIn
  | [], _ => []
  | txIn :: rest, scripts =>
      txIn.withScripts (scripts.take txIn.scripts.length) ::
        withInputScripts rest (scripts.drop txIn.scripts.length)

theorem withInputScripts_self (txIns : List TxIn) (others : List (List UInt8)) :
    withInputScripts txIns (txIns.flatMap TxIn.scripts ++ others) = txIns := by
  induction txIns with
  | nil => rfl
  | cons txIn txIns ih =>
    rw [withInputScripts, flatMap_cons, append_assoc, take_left, drop_left, ih]
    rfl

namespace MsgTx

variable {msg : MsgTx}

/-- The scripts of a transaction in the order in which they are moved. -/
def scripts (msg : MsgTx) : List (List UInt8) :=
  msg.txIn.flatMap TxIn.scripts ++ msg.txOut.map TxOut.pkScript

/-- The end of `BtcDecode`, which moves all scripts into one buffer. -/
def repack (msg : MsgTx) : Option MsgTx :=
  (placeScripts (List.replicate (msg.scripts.map List.length).sum 0) 0 msg.scripts).map fun r =>
    let moved := r.2.map (sliceOf r.1)
    { msg with txIn := withInputScripts msg.txIn moved
               txOut := msg.txOut.zipWith (fun txOut pkScript => { txOut with pkScript })
                 (moved.drop (msg.txIn.flatMap TxIn.scripts).length) }

/-- **The scripts in the buffer are what they were.** -/
theorem repack_eq (msg : MsgTx) : msg.repack = some msg := by
  have hsi : (List.replicate (msg.scripts.map List.length).sum (0 : UInt8)).length =
      msg.scripts.flatten.length := by
    rw [length_replicate, length_flatten]
  obtain ⟨ranges, hp, hs⟩ := placeScripts_eq [] msg.scripts hsi
  have ho : msg.txOut.zipWith (fun txOut pkScript => { txOut with pkScript })
      (msg.txOut.map TxOut.pkScript) = msg.txOut := by
    rw [zipWith_map_right, zipWith_self, map_id'']
    exact fun _ => rfl
  simp only [nil_append, length_nil] at hp hs
  simp only [repack, hp, Option.map_some, hs]
  rw [scripts, withInputScripts_self, drop_left, ho]

/-! ### Encoder and decoder -/

def btcEncode : MessageEncoding → MsgTx → List UInt8
  | .base => serializeNoWitness
  | .witness => serialize

def btcDecode (enc : MessageEncoding) : Reader UInt8 MsgTx := do
  let msg ← readParts enc
  msg.repack

/-- Without the last step the decoder of the witness encoding is the one of stored data. -/
theorem btcDecode_eq (enc : MessageEncoding) : btcDecode enc = readParts enc := by
  have hr : ∀ msg : MsgTx, (liftM msg.repack : Reader UInt8 MsgTx) = pure msg := by
    intro msg
    rw [repack_eq]
    rfl
  rw [btcDecode]
  simp [hr]

end MsgTx

/-- **The transaction codec.** A transaction within the limits of the decoder is read back, without
its witnesses from the base encoding. -/
theorem tx_codec (prim : Primitives) (msg : MsgTx) :
    (msg.Encodable → Reads (btcDecode .witness) (msg.btcEncode .witness) msg) ∧
    (msg.stripped.Encodable → Reads (btcDecode .base) (msg.btcEncode .base) msg.stripped) ∧
    msg.serializeSize = (msg.btcEncode .witness).length ∧
    msg.baseSize = (msg.btcEncode .base).length ∧
    ∀ msg' : MsgTx, msg'.stripped = msg.stripped → msg'.txHash prim = msg.txHash prim := by
  refine ⟨fun h => ?_, fun h => ?_, msg.length_serialize.symm, msg.length_serializeNoWitness.symm,
    fun msg' h => ?_⟩
  · rw [btcDecode_eq, readParts_witness]
    exact reads_serialize h
  · rw [btcDecode_eq]
    have hl : msg.txIn.length < 2 ^ 64 := by
      have hle := h.txIn_le
      rw [stripped, length_map] at hle
      exact hle.trans_lt (by decide)
    exact reads_serializeNoWitness .base h ((reads_writeVarInt hl).map _)
  · rw [MsgTx.txHash, MsgTx.txHash, ← msg'.serializeNoWitness_stripped, h,
      msg.serializeNoWitness_stripped]

/-- A transaction whose second input has a witness. -/
def secondWitnessTx : MsgTx where
  version := 1
  txIn := [⟨⟨0, 0⟩, [], [], 0⟩, ⟨⟨0, 1⟩, [], [[0x51]], 0⟩]
  txOut := [⟨1, [0x51]⟩]
  lockTime := 0

theorem encodable_secondWitnessTx : secondWitnessTx.Encodable := by
  refine ⟨by decide, by decide, ?_, by decide, by decide⟩
  simp only [secondWitnessTx, forall_mem_cons]
  exact ⟨⟨by decide, by decide, by decide⟩, ⟨by decide, by decide, by decide⟩, by simp⟩

theorem tx_codec_secondWitnessTx :
    Reads (btcDecode .witness) (secondWitnessTx.btcEncode .witness) secondWitnessTx :=
  (tx_codec .polynomial secondWitnessTx).1 encodable_secondWitnessTx

end DrcNode
