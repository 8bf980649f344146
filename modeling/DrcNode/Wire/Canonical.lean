import DrcNode.Wire.TxCodec

/-!
# What the decoder of blocks accepts

A block read from bytes keeps them, and its `Bytes` are those it was read from. Numbers have one
encoding that is accepted. The marker of a transaction with witnesses is also accepted in front of a
transaction that has none; such a transaction is written without it.

## Main results

* `one_encoding_iff`.

Source: `drcutil/block.go`, `NewBlockFromBytes`, `NewBlockFromReader` and `Bytes`; `BtcDecode` in
`wire/msgtx.go` and `wire/msgblock.go`; `ReadVarInt` in `wire/common.go`.
-/

namespace DrcNode

open List UInt32 Int MsgTx

open Reader

/-! ### Numbers, scripts and headers -/

theorem yields_readUint (n : Nat) :
    Yields (readUint n) fun v s => s = leBytes n v ∧ v < 256 ^ n := by
  refine (Yields.exactly n).bind ?_
  rintro _ s ⟨rfl, rfl⟩
  exact .pure ⟨by rw [append_nil, leBytes_ofLeBytes], ofLeBytes_lt _⟩

theorem yields_readHash (n : Nat) : Yields (readHash n) fun h s => s = beBytes n h.toNat := by
  refine (Yields.exactly n).bind ?_
  rintro s _ ⟨rfl, rfl⟩
  have hlt := ofLeBytes_lt s.reverse
  rw [length_reverse] at hlt
  have hle := leBytes_ofLeBytes s.reverse
  rw [length_reverse] at hle
  refine .pure ?_
  rw [append_nil, BitVec.toNat_ofNat, Nat.mod_eq_of_lt (by rwa [pow_mul]), beBytes, hle,
    reverse_reverse]

theorem yields_readCanonical (n min : Nat) :
    Yields (readCanonical n min) fun v s => s = leBytes n v ∧ v < 256 ^ n ∧ min ≤ v := by
  refine (yields_readUint n).bind ?_
  rintro v s ⟨rfl, hlt⟩
  exact .bind_guard fun hm => .pure ⟨append_nil _, hlt, hm⟩

theorem yields_readVarInt : Yields readVarInt fun v s => s = writeVarInt v := by
  refine (yields_readUint 1).bind ?_
  rintro d s ⟨rfl, hd⟩
  rw [readVarIntRest]
  split_ifs with h8 h4 h2
  · refine (yields_readCanonical 8 _).mono ?_
    rintro v t ⟨rfl, -, hm⟩
    rw [h8, writeVarInt, if_neg (by omega), if_neg (by omega), if_neg (by omega)]
    rfl
  · refine (yields_readCanonical 4 _).mono ?_
    rintro v t ⟨rfl, hlt, hm⟩
    rw [h4, writeVarInt, if_neg (by omega), if_neg (by omega), if_pos (by omega)]
    rfl
  · refine (yields_readCanonical 2 _).mono ?_
    rintro v t ⟨rfl, hlt, hm⟩
    rw [h2, writeVarInt, if_neg (by omega), if_pos (by omega)]
    rfl
  · exact .pure (by rw [writeVarInt, if_pos (by omega), append_nil])

theorem yields_readScript (maxAllowed : Nat) :
    Yields (readScript maxAllowed) fun bytes s => s = writeVarBytes bytes := by
  refine yields_readVarInt.bind ?_
  rintro count s rfl
  refine .bind_guard fun _ => (Yields.exactly count).mono ?_
  rintro _ t ⟨rfl, rfl⟩
  rfl

theorem toInt_ofNat_emod {n : Nat} (h : n < 2 ^ 32) :
    ((Int32.ofNat n).toInt % 2 ^ 32).toNat = n := by
  have hm : ((Int32.ofNat n).toInt % 2 ^ 32) = n := by
    rw [Int32.toInt_ofNat', show (2 : Int) ^ 32 = (Int32.size : ℕ) from rfl, bmod_emod]
    exact emod_eq_of_lt (natCast_nonneg n) (ofNat_lt.2 h)
  rw [hm, toNat_natCast]

theorem yields_readBlockHeader :
    Yields readBlockHeader fun header s => s = writeBlockHeader header := by
  refine (yields_readUint 4).bind ?_
  rintro version _ ⟨rfl, hv⟩
  refine (yields_readHash 32).bind ?_
  rintro prevBlock _ rfl
  refine (yields_readHash 32).bind ?_
  rintro merkleRoot _ rfl
  refine (yields_readUint 4).bind ?_
  rintro timestamp _ ⟨rfl, hti⟩
  refine (yields_readHash 64).bind ?_
  rintro signature _ rfl
  refine (yields_readHash 33).bind ?_
  rintro publicKey _ rfl
  refine (yields_readUint 2).bind ?_
  rintro scale _ ⟨rfl, hs⟩
  refine (yields_readUint 2).bind ?_
  rintro reserved _ ⟨rfl, hr⟩
  refine .pure ?_
  have ht : ((timestamp : Int) % 2 ^ 32).toNat = timestamp := by omega
  simp only [writeBlockHeader, toInt_ofNat_emod hv, ht, Hash.bytes, Hash64.bytes,
    Hash33.bytes, UInt16.toNat_ofNat_of_lt' hs, UInt16.toNat_ofNat_of_lt' hr]
  simp

/-! ### Transactions -/

theorem yields_readTxIn : Yields readTxIn fun txIn s => s = writeTxIn txIn ∧ txIn.witness = [] := by
  refine (yields_readHash 32).bind ?_
  rintro hash _ rfl
  refine (yields_readUint 4).bind ?_
  rintro index _ ⟨rfl, hi⟩
  refine (yields_readScript _).bind ?_
  rintro signatureScript _ rfl
  refine (yields_readUint 4).bind ?_
  rintro sequence _ ⟨rfl, hs⟩
  refine .pure ⟨?_, rfl⟩
  simp [writeTxIn, Hash.bytes, toNat_ofNat_of_lt' hi, toNat_ofNat_of_lt' hs]

theorem yields_readTxOut : Yields readTxOut fun txOut s => s = writeTxOut txOut := by
  refine (yields_readUint 8).bind ?_
  rintro value _ ⟨rfl, hv⟩
  refine (yields_readScript _).bind ?_
  rintro pkScript _ rfl
  refine .pure ?_
  simp [writeTxOut, UInt64.toNat_ofNat_of_lt' hv]

theorem yields_readTxWitness :
    Yields readTxWitness fun witness s => s = writeTxWitness witness := by
  refine yields_readVarInt.bind ?_
  rintro witCount _ rfl
  have hi := (yields_readScript maxWitnessItemSize).mono fun _ _ h => And.intro h trivial
  refine .bind_guard fun _ => (hi.times witCount).mono ?_
  rintro witness _ ⟨rfl, rfl, -⟩
  rfl

theorem yields_readTxWitnesses (txIns : List TxIn) : Yields (readTxWitnesses txIns) fun read s =>
    s = (read.flatMap fun txIn => writeTxWitness txIn.witness) ∧
      read.length = txIns.length ∧ read.flatMap writeTxIn = txIns.flatMap writeTxIn := by
  induction txIns with
  | nil => exact .pure ⟨rfl, rfl, rfl⟩
  | cons txIn txIns ih =>
    refine yields_readTxWitness.bind ?_
    rintro witness _ rfl
    refine ih.bind ?_
    rintro read _ ⟨rfl, hl, hb⟩
    refine .pure ⟨by simp, by simp [hl], ?_⟩
    rw [flatMap_cons, hb]
    rfl

namespace MsgTx

/-- A transaction with the marker and the witnesses of its inputs, which may all be empty. -/
def serializeMarked (msg : MsgTx) : List UInt8 :=
  leBytes 4 (msg.version.toInt % 2 ^ 32).toNat ++ [0x00, 0x01] ++ writeVarInt msg.txIn.length ++
    msg.txIn.flatMap writeTxIn ++ writeVarInt msg.txOut.length ++ msg.txOut.flatMap writeTxOut ++
    msg.txIn.flatMap (fun txIn => writeTxWitness txIn.witness) ++ leBytes 4 msg.lockTime.toNat

/-- The bytes that a transaction is read from. -/
def markedBytes (marked : Bool × MsgTx) : List UInt8 :=
  if marked.1 then marked.2.serializeMarked else marked.2.serializeNoWitness

theorem yields_readTxInCount : Yields readTxInCount fun count s =>
    s = (if count.2 then [0x00, 0x01] else []) ++ writeVarInt count.1 := by
  refine yields_readVarInt.bind ?_
  rintro count _ rfl
  split_ifs with h0
  · refine (yields_readUint 1).bind ?_
    rintro flag _ ⟨rfl, -⟩
    refine .bind_guard fun hf => yields_readVarInt.bind ?_
    rintro count' _ rfl
    refine .pure ?_
    rw [h0, hf]
    simp [writeVarInt, leBytes]
  · exact .pure (by simp)

/-- **What is accepted as a transaction**: its bytes with or without the marker, and without it
there is no witness. -/
theorem yields_readMarked : Yields (readMarked .witness) fun marked s =>
    s = markedBytes marked ∧ (marked.1 = false → marked.2.hasWitness = false) := by
  refine (yields_readUint 4).bind ?_
  rintro version _ ⟨rfl, hv⟩
  refine yields_readTxInCount.bind ?_
  rintro ⟨count, marker⟩ _ rfl
  refine .bind_guard fun _ => (yields_readTxIn.times count).bind ?_
  rintro txIn _ ⟨rfl, rfl, hw⟩
  refine yields_readVarInt.bind ?_
  rintro outCount _ rfl
  have ho := yields_readTxOut.mono fun _ _ h => And.intro h trivial
  refine .bind_guard fun _ => (ho.times outCount).bind ?_
  rintro txOut _ ⟨rfl, rfl, -⟩
  cases marker with
  | true =>
    refine (yields_readTxWitnesses txIn).bind ?_
    rintro read _ ⟨rfl, hlh, hb⟩
    refine (yields_readUint 4).bind ?_
    rintro lockTime _ ⟨rfl, hl⟩
    refine .pure ⟨?_, fun h => by cases h⟩
    simp only [markedBytes, serializeMarked, if_true, toInt_ofNat_emod hv, hlh, hb,
      toNat_ofNat_of_lt' hl]
    simp
  | false =>
    simp only [Bool.false_eq_true, if_false, pure_bind]
    refine (yields_readUint 4).bind ?_
    rintro lockTime _ ⟨rfl, hl⟩
    refine .pure ⟨?_, fun _ => ?_⟩
    · simp only [markedBytes, serializeNoWitness, Bool.false_eq_true, if_false,
        toInt_ofNat_emod hv, toNat_ofNat_of_lt' hl]
      simp
    · simpa [hasWitness] using hw

/-- A transaction is written as it was read, or in fewer bytes when the marker was superfluous. -/
theorem markedBytes_cases {marked : Bool × MsgTx}
    (h : marked.1 = false → marked.2.hasWitness = false) :
    (marked.1 → marked.2.hasWitness) ∧ markedBytes marked = marked.2.serialize ∨
      ¬(marked.1 → marked.2.hasWitness) ∧
        marked.2.serialize.length < (markedBytes marked).length := by
  obtain ⟨marker, msg⟩ := marked
  rw [serialize, markedBytes]
  cases marker with
  | false => simp_all
  | true =>
    cases hw : msg.hasWitness with
    | true => simp [serializeMarked]
    | false =>
      refine .inr ⟨by simp, ?_⟩
      simp only [Bool.false_eq_true, if_false, if_true, length_serializeNoWitness, serializeMarked,
        baseSize, length_append, length_leBytes, length_writeVarInt, length_flatMap,
        length_writeTxIn, length_writeTxOut, length_cons]
      omega

end MsgTx

/-! ### Blocks -/

/-- The transactions of a block, as they are read, each with whether it has the marker. -/
def readMarkedBlock : Reader UInt8 (BlockHeader × List (Bool × MsgTx)) := do
  let header ← readBlockHeader
  let txCount ← readVarInt
  guard (txCount ≤ maxTxPerBlock)
  let transactions ← times txCount (readMarked .witness)
  pure (header, transactions)

/-- The transactions in a string of bytes, each with whether it has the marker. -/
def markedTxs (serializedBlock : List UInt8) : List (Bool × MsgTx) :=
  ((readMarkedBlock.run serializedBlock).map fun r => r.1.2).getD []

theorem times_map {α β : Type} (r : Reader UInt8 α) (f : α → β) (n : Nat) :
    times n (f <$> r) = List.map f <$> times n r := by
  induction n with
  | zero => simp [times]
  | succ n ih => simp [times, ih]

theorem readMsgBlock_eq : readMsgBlock = (fun marked => ⟨marked.1, marked.2.map Prod.snd⟩) <$>
    readMarkedBlock := by
  have hr : readMsgTx = Prod.snd <$> readMarked .witness := by
    rw [← readParts_witness, readParts, bind_pure_comp]
  simp [readMsgBlock, readMarkedBlock, hr, times_map]

theorem yields_readMarkedBlock : Yields readMarkedBlock fun marked s =>
    s = writeBlockHeader marked.1 ++ writeVarInt marked.2.length ++
      marked.2.flatMap markedBytes ∧
    ∀ tx ∈ marked.2, tx.1 = false → tx.2.hasWitness = false := by
  refine yields_readBlockHeader.bind ?_
  rintro header _ rfl
  refine yields_readVarInt.bind ?_
  rintro txCount _ rfl
  refine .bind_guard fun _ => (yields_readMarked.times txCount).bind ?_
  rintro transactions _ ⟨rfl, rfl, hw⟩
  exact .pure ⟨by simp, hw⟩

/-- The marker is only there for transactions with a witness. -/
def MarkersNeeded (marked : List (Bool × MsgTx)) : Prop :=
  ∀ tx ∈ marked, tx.1 → tx.2.hasWitness

/-- The transactions are written as they were read, or in fewer bytes. -/
theorem flatMap_markedBytes_cases {marked : List (Bool × MsgTx)}
    (h : ∀ tx ∈ marked, tx.1 = false → tx.2.hasWitness = false) :
    MarkersNeeded marked ∧
        marked.flatMap markedBytes = marked.flatMap (fun tx => tx.2.serialize) ∨
      ¬MarkersNeeded marked ∧ (marked.flatMap fun tx => tx.2.serialize).length <
        (marked.flatMap markedBytes).length := by
  induction marked with
  | nil => exact .inl ⟨by simp [MarkersNeeded], rfl⟩
  | cons tx marked ih =>
    rw [forall_mem_cons] at h
    have hc : MarkersNeeded (tx :: marked) ↔ (tx.1 → tx.2.hasWitness) ∧ MarkersNeeded marked :=
      forall_mem_cons
    simp only [hc, flatMap_cons, length_append]
    rcases markedBytes_cases h.1 with ⟨htx, heq⟩ | ⟨htx, hlt⟩ <;>
      rcases ih h.2 with ⟨hr, heq'⟩ | ⟨hr, hlt'⟩
    · exact .inl ⟨⟨htx, hr⟩, by rw [heq, heq']⟩
    · exact .inr ⟨fun hb => hr hb.2, by rw [heq]; omega⟩
    · exact .inr ⟨fun hb => htx hb.1, by rw [heq']; omega⟩
    · exact .inr ⟨fun hb => htx hb.1, by omega⟩

/-- `drcutil.Block` with the bytes that it caches, which are empty when there are none. -/
structure SerializedBlock where
  msgBlock : MsgBlock
  serializedBlock : List UInt8

/-- `NewBlockFromBytes`, and the bytes that it leaves. -/
def newBlockFromBytes (serializedBlock : List UInt8) : Option (SerializedBlock × List UInt8) :=
  (readMsgBlock.run serializedBlock).map fun r => (⟨r.1, serializedBlock⟩, r.2)

def SerializedBlock.bytes (b : SerializedBlock) : List UInt8 :=
  if b.serializedBlock.length ≠ 0 then b.serializedBlock else b.msgBlock.serialize

theorem newBlockFromBytes_eq {raw : List UInt8} {block : SerializedBlock}
    (h : newBlockFromBytes raw = some (block, [])) : block.bytes = raw ∧
      (block.msgBlock.serialize = raw ↔ MarkersNeeded (markedTxs raw)) := by
  obtain ⟨⟨msgBlock, _⟩, hr, hb⟩ := Option.map_eq_some_iff.1 h
  obtain ⟨rfl, rfl⟩ := Prod.mk.inj hb
  rw [readMsgBlock_eq, StateT.run_map, Option.map_eq_map, Option.map_eq_some_iff] at hr
  obtain ⟨⟨marked, _⟩, hr, hmarked⟩ := hr
  obtain ⟨rfl, rfl⟩ := Prod.mk.inj hmarked
  obtain ⟨taken, hra, ht, hw⟩ := yields_readMarkedBlock _ _ _ hr
  have htx : markedTxs raw = marked.2 := by rw [markedTxs, hr]; rfl
  rw [append_nil] at hra
  subst hra
  constructor
  · rw [SerializedBlock.bytes]
    simp [ht, length_writeBlockHeader, blockHeaderLen]
  · rw [htx, MsgBlock.serialize, ht, length_map, flatMap_map, append_cancel_left_eq]
    rcases flatMap_markedBytes_cases hw with ⟨hn, heq⟩ | ⟨hn, hlt⟩
    · exact iff_of_true heq.symm hn
    · refine iff_of_false (fun heq => ?_) hn
      rw [heq] at hlt
      exact hlt.false

/-- **One encoding per block**: a block is written as it was read exactly if it has no superfluous
marker. -/
theorem one_encoding_iff {raw : List UInt8} {block : SerializedBlock}
    (h : newBlockFromBytes raw = some (block, [])) :
    (block.bytes = raw ∧ (block.msgBlock.serialize = block.bytes ↔ MarkersNeeded (markedTxs raw))) ∧
    ∀ other block', newBlockFromBytes other = some (block', []) → block'.msgBlock = block.msgBlock →
      MarkersNeeded (markedTxs raw) → MarkersNeeded (markedTxs other) → other = raw := by
  obtain ⟨hb, hi⟩ := newBlockFromBytes_eq h
  refine ⟨⟨hb, by rwa [hb]⟩, fun other block' h' heq hn hn' => ?_⟩
  rw [← hi.2 hn, ← (newBlockFromBytes_eq h').2.2 hn', heq]

/-- A transaction without witnesses in a block, with the marker or without it. -/
def twoEncodings (marker : Bool) : List UInt8 :=
  List.replicate 173 0 ++ [0x01] ++ markedBytes
    (marker, ⟨0, [⟨⟨0, 0⟩, [], [], 0⟩], [], 0⟩)

theorem one_encoding_withoutMarker :
    ∃ block, newBlockFromBytes (twoEncodings false) = some (block, []) ∧
      block.msgBlock.serialize = block.bytes := by
  have hr : (newBlockFromBytes (twoEncodings false)).map Prod.snd = some [] := by decide +kernel
  obtain ⟨⟨block, _⟩, hb, rfl⟩ := Option.map_eq_some_iff.1 hr
  have hm : (markedTxs (twoEncodings false)).all (fun tx => !tx.1) := by decide +kernel
  refine ⟨block, hb, (one_encoding_iff hb).1.2.2 fun tx htx hma => ?_⟩
  have hn := all_eq_true.1 hm tx htx
  rw [hma] at hn
  cases hn

/-- Both are read as the same block. -/
theorem marker_withoutWitness_accepted :
    (newBlockFromBytes (twoEncodings true)).map (fun r => (r.1.msgBlock, r.2)) =
      (newBlockFromBytes (twoEncodings false)).map (fun r => (r.1.msgBlock, r.2)) ∧
    (newBlockFromBytes (twoEncodings true)).map Prod.snd = some [] ∧
    twoEncodings true ≠ twoEncodings false := by
  decide +kernel

end DrcNode
