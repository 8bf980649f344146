import DrcNode.Wire.Message
import Mathlib.Algebra.GroupWithZero.Nat

/-!
# Byte encodings and the hashes taken over them

A block is identified by the hash of its encoded header and a transaction by the hash of its
encoding without witness data. The hash function and the signature scheme come from the standard
library, and the script engine is a world of its own: they are the fields of `Primitives`. The
encodings are spelled out here.

Source: `wire/blockheader.go`, `wire/msgtx.go` and `wire/msgblock.go`, the encoders and the sizes;
`WriteVarInt` and `VarIntSerializeSize` in `wire/common.go`.
-/

namespace DrcNode

open List

/-! ### Integers and hashes as bytes -/

/-- The `n` low bytes of `v`, least significant first. -/
def leBytes : Nat → Nat → List UInt8
  | 0, _ => []
  | n + 1, v => UInt8.ofNat v :: leBytes n (v / 256)

/-- The `n` low bytes of `v`, most significant first. -/
def beBytes (n v : Nat) : List UInt8 := (leBytes n v).reverse

/-- The number with the little-endian bytes `bs`. -/
def ofLeBytes : List UInt8 → Nat
  | [] => 0
  | b :: bs => b.toNat + 256 * ofLeBytes bs

@[simp] theorem length_leBytes : (n v : Nat) → (leBytes n v).length = n
  | 0, _ => rfl
  | n + 1, v => by simp [leBytes, length_leBytes n]

@[simp] theorem length_beBytes (n v : Nat) : (beBytes n v).length = n := by
  simp [beBytes]

def Hash.bytes (h : Hash) : List UInt8 := beBytes 32 h.toNat

def Hash64.bytes (h : Hash64) : List UInt8 := beBytes 64 h.toNat

def Hash33.bytes (h : Hash33) : List UInt8 := beBytes 33 h.toNat

/-! ### Cryptography from outside the repository -/

/-- A point of the curve, `btcec.PublicKey`. -/
structure PublicKey where
  X : Nat
  Y : Nat
  deriving DecidableEq, Repr

structure Signature where
  R : Nat
  S : Nat
  deriving DecidableEq, Repr

/-- The secret scalar of `btcec.PrivateKey`. -/
abbrev PrivateKey := Nat

/-- `btcec.GetSignature`: the first 32 bytes are `R`, the last 32 are `S`. -/
def getSignature (sign : Hash64) : Signature where
  R := sign.toNat / 2 ^ 256
  S := sign.toNat % 2 ^ 256

/-- What the script engine answers. -/
inductive ScriptResult
  | success
  | malformed
  | failed
  deriving DecidableEq, Repr

/-- The functions the node calls and this development does not look into. `sign64` takes the 32
random bytes that `sign` draws, and `executeScript` stands for `txscript.NewEngine` followed by
`Execute`. -/
structure Primitives where
  doubleHash : List UInt8 → Hash
  parsePubKey : Hash33 → Option PublicKey
  verify : Signature → Hash → PublicKey → Bool
  pubKey : PrivateKey → Hash33
  sign64 : PrivateKey → BitVec 256 → Hash → Hash64
  executeScript : List UInt8 → MsgTx → Nat → UInt32 → Int64 → ScriptResult

namespace Primitives

variable (prim : Primitives) (signature : Hash64)

/-- The double hash of a signature, the seed of the next round. -/
def doubleHash64 : Hash := prim.doubleHash signature.bytes

/-- `new(big.Int).SetBytes(chainhash.DoubleHashB(signature))`, the weight of a candidate or of a
vote with this signature. -/
def weight : Nat := (prim.doubleHash64 signature).toNat

/-- A signature made with a key verifies under the encoded public key of that key. -/
def SignVerifies : Prop :=
  ∀ key rand hash, ∃ pubKey, prim.parsePubKey (prim.pubKey key) = some pubKey ∧
    prim.verify (getSignature (prim.sign64 key rand hash)) hash pubKey = true

/-- Primitives to evaluate the model with: every key parses and every signature verifies. -/
def polynomial : Primitives where
  doubleHash bytes := BitVec.ofNat 256
    (bytes.foldl (fun acc b => (acc * 257 + b.toNat + 1) % 2 ^ 256) 0)
  parsePubKey key := some ⟨key.toNat, 0⟩
  verify _ _ _ := true
  pubKey key := BitVec.ofNat 264 key
  sign64 key rand hash := BitVec.ofNat 512 (key + rand.toNat + hash.toNat)
  executeScript _ _ _ _ _ := .success

theorem polynomial_signVerifies : polynomial.SignVerifies := fun key _ _ =>
  ⟨⟨(BitVec.ofNat 264 key).toNat, 0⟩, rfl, rfl⟩

theorem weight_lt : prim.weight signature < 2 ^ 256 :=
  (prim.doubleHash64 signature).isLt

end Primitives

/-! ### Headers -/

/-- `writeBlockHeader`: the 173 bytes of an encoded header. -/
def writeBlockHeader (bh : BlockHeader) : List UInt8 :=
  leBytes 4 (bh.version.toInt % 2 ^ 32).toNat ++ bh.prevBlock.bytes ++ bh.merkleRoot.bytes ++
    leBytes 4 (bh.timestamp % 2 ^ 32).toNat ++ bh.signature.bytes ++ bh.publicKey.bytes ++
    leBytes 2 bh.scale.toNat ++ leBytes 2 bh.reserved.toNat

def blockHeaderLen : Nat := 173

theorem length_writeBlockHeader (bh : BlockHeader) :
    (writeBlockHeader bh).length = blockHeaderLen := by
  simp [writeBlockHeader, Hash.bytes, Hash64.bytes, Hash33.bytes, blockHeaderLen]

def BlockHeader.blockHash (prim : Primitives) (h : BlockHeader) : Hash :=
  prim.doubleHash (writeBlockHeader h)

def Block.hash (prim : Primitives) (block : Block) : Hash :=
  block.msgBlock.header.blockHash prim

/-- `(*MsgCandidate).BlockHash`, which `(*Block).CandidateHash` caches. -/
def MsgCandidate.blockHash (prim : Primitives) (msg : MsgCandidate) : Hash :=
  msg.header.blockHash prim

/-! ### Transactions -/

def writeVarInt (val : Nat) : List UInt8 :=
  if val < 0xfd then leBytes 1 val
  else if val ≤ 0xffff then 0xfd :: leBytes 2 val
  else if val ≤ 0xffffffff then 0xfe :: leBytes 4 val
  else 0xff :: leBytes 8 val

def varIntSerializeSize (val : Nat) : Nat :=
  if val < 0xfd then 1
  else if val ≤ 0xffff then 3
  else if val ≤ 0xffffffff then 5
  else 9

@[simp] theorem length_writeVarInt (val : Nat) :
    (writeVarInt val).length = varIntSerializeSize val := by
  unfold writeVarInt varIntSerializeSize
  split_ifs <;> simp

def writeVarBytes (bytes : List UInt8) : List UInt8 := writeVarInt bytes.length ++ bytes

def writeTxIn (ti : TxIn) : List UInt8 :=
  ti.previousOutPoint.hash.bytes ++ leBytes 4 ti.previousOutPoint.index.toNat ++
    writeVarBytes ti.signatureScript ++ leBytes 4 ti.sequence.toNat

def writeTxOut (txOut : TxOut) : List UInt8 :=
  leBytes 8 txOut.value.toUInt64.toNat ++ writeVarBytes txOut.pkScript

namespace TxIn

def serializeSize (t : TxIn) : Nat :=
  40 + varIntSerializeSize t.signatureScript.length + t.signatureScript.length

/-- `TxWitness.SerializeSize`. -/
def witnessSerializeSize (t : TxIn) : Nat :=
  varIntSerializeSize t.witness.length +
    (t.witness.map fun item => varIntSerializeSize item.length + item.length).sum

end TxIn

def TxOut.serializeSize (t : TxOut) : Nat :=
  8 + varIntSerializeSize t.pkScript.length + t.pkScript.length

namespace MsgTx

variable (msg : MsgTx)

def serializeNoWitness : List UInt8 :=
  leBytes 4 (msg.version.toInt % 2 ^ 32).toNat ++ writeVarInt msg.txIn.length ++
    msg.txIn.flatMap writeTxIn ++ writeVarInt msg.txOut.length ++ msg.txOut.flatMap writeTxOut ++
    leBytes 4 msg.lockTime.toNat

def txHash (prim : Primitives) (msg : MsgTx) : Hash := prim.doubleHash msg.serializeNoWitness

def hasWitness : Bool := msg.txIn.any fun txIn => !txIn.witness.isEmpty

def writeTxWitness (wit : List (List UInt8)) : List UInt8 :=
  writeVarInt wit.length ++ wit.flatMap writeVarBytes

/-- `(*MsgTx).Serialize`: with the marker and the witnesses when there is one. -/
def serialize : List UInt8 :=
  if msg.hasWitness then
    leBytes 4 (msg.version.toInt % 2 ^ 32).toNat ++ [0x00, 0x01] ++ writeVarInt msg.txIn.length ++
      msg.txIn.flatMap writeTxIn ++ writeVarInt msg.txOut.length ++
      msg.txOut.flatMap writeTxOut ++ msg.txIn.flatMap (fun txIn => writeTxWitness txIn.witness) ++
      leBytes 4 msg.lockTime.toNat
  else msg.serializeNoWitness

def witnessHash (prim : Primitives) (msg : MsgTx) : Hash :=
  if msg.hasWitness then prim.doubleHash msg.serialize else msg.txHash prim

/-- `(*MsgTx).baseSize`, which is also `SerializeSizeStripped`. -/
def baseSize : Nat :=
  8 + varIntSerializeSize msg.txIn.length + varIntSerializeSize msg.txOut.length +
    (msg.txIn.map fun txIn => txIn.serializeSize).sum +
    (msg.txOut.map fun txOut => txOut.serializeSize).sum

def serializeSize : Nat :=
  if msg.hasWitness then msg.baseSize + 2 + (msg.txIn.map TxIn.witnessSerializeSize).sum
  else msg.baseSize

theorem length_writeTxIn (ti : TxIn) : (writeTxIn ti).length = ti.serializeSize := by
  simp only [writeTxIn, writeVarBytes, Hash.bytes, length_append, length_beBytes,
    length_leBytes, length_writeVarInt, TxIn.serializeSize]
  omega

theorem length_writeTxOut (txOut : TxOut) : (writeTxOut txOut).length = txOut.serializeSize := by
  simp only [writeTxOut, writeVarBytes, length_append, length_leBytes, length_writeVarInt,
    TxOut.serializeSize]
  omega

/-- The size the checks compare with the block limit is the length of the encoding that is
hashed. -/
theorem length_serializeNoWitness : msg.serializeNoWitness.length = msg.baseSize := by
  simp only [serializeNoWitness, baseSize, length_append, length_leBytes, length_writeVarInt,
    length_flatMap, length_writeTxIn, length_writeTxOut]
  omega

private theorem length_writeTxWitness (ti : TxIn) :
    (writeTxWitness ti.witness).length = ti.witnessSerializeSize := by
  simp [writeTxWitness, writeVarBytes, TxIn.witnessSerializeSize]

theorem length_serialize : msg.serialize.length = msg.serializeSize := by
  rw [serialize, serializeSize]
  split_ifs
  · have hw : (msg.txIn.flatMap fun txIn => writeTxWitness txIn.witness).length =
        (msg.txIn.map TxIn.witnessSerializeSize).sum := by
      simp [length_writeTxWitness]
    simp only [baseSize, length_append, hw, length_cons, length_nil,
      length_leBytes, length_writeVarInt, length_flatMap, length_writeTxIn, length_writeTxOut]
    omega
  · exact msg.length_serializeNoWitness

end MsgTx

def MsgBlock.serializeSizeStripped (msg : MsgBlock) : Nat :=
  blockHeaderLen + varIntSerializeSize msg.transactions.length +
    (msg.transactions.map MsgTx.baseSize).sum

def MsgBlock.serializeSize (msg : MsgBlock) : Nat :=
  blockHeaderLen + varIntSerializeSize msg.transactions.length +
    (msg.transactions.map MsgTx.serializeSize).sum

def MsgBlock.serialize (msg : MsgBlock) : List UInt8 :=
  writeBlockHeader msg.header ++ writeVarInt msg.transactions.length ++
    msg.transactions.flatMap MsgTx.serialize

theorem MsgBlock.length_serialize (msg : MsgBlock) : msg.serialize.length = msg.serializeSize := by
  simp only [serialize, serializeSize, length_append, length_writeBlockHeader,
    length_writeVarInt, length_flatMap, MsgTx.length_serialize]

end DrcNode
