import DrcNode.Library.Checked
import DrcNode.Library.InverseMaps
import DrcNode.Library.Ledger
import DrcNode.Library.Runs
import DrcNode.Wire.TxCodec

/-!
# The transaction index

Each indexed block has an internal ID of four bytes, held in two tables, from hashes to IDs and
back, and the entry of a transaction is the ID of its block with its place in the bytes of the
block. The tables are changed in the database transaction of the block, which may still be rolled
back. The highest ID in use is only held in memory, and is found again at a start by a search that
takes the IDs in use to be `1, …, n`. A connection that is rolled back leaves the number in memory
one too high, so that the next block leaves an ID out; after a restart the search may then end below
the gap, and the IDs above it are given a second time.

## Main results

* `txIndex_correct`: the steps that keep the index right.
* `offsets_correct_iff`: the places in the bytes.

Source: `blockchain/indexers/txindex.go`; `dbIndexConnectBlock` and `dbIndexDisconnectBlock` in
`blockchain/indexers/manager.go`; `DeserializeTxLoc` in `wire/msgblock.go`, and `PkScriptLocs` in
`wire/msgtx.go`.
-/

namespace DrcNode

open Checked Finmap List Ledger MsgTx Except

open InverseMaps

/-! ### Where the transactions of a block lie -/

/-- `TxLoc`: a transaction in the bytes of its block. -/
structure TxLoc where
  txStart : Nat
  txLen : Nat

/-- The loop of `DeserializeTxLoc`, over a buffer that had `fullLen` bytes at the start. -/
def readTxLocs (fullLen : Nat) : Nat → Reader UInt8 (List TxLoc)
  | 0 => pure []
  | txCount + 1 => do
      let before ← get
      let _ ← readMsgTx
      let after ← get
      let txLocs ← readTxLocs fullLen txCount
      let txStart := fullLen - before.length
      pure ({ txStart, txLen := (fullLen - after.length) - txStart } :: txLocs)

def deserializeTxLoc (fullLen : Nat) : Reader UInt8 (List TxLoc) := do
  let _ ← readBlockHeader
  let txCount ← readVarInt
  guard (txCount ≤ maxTxPerBlock)
  readTxLocs fullLen txCount

def MsgBlock.txLoc (block : MsgBlock) : Option (List TxLoc) :=
  ((deserializeTxLoc block.serialize.length).run block.serialize).map Prod.fst

/-- The bytes of a transaction are found at the location. -/
def TxLoc.Locates (rawMsg : List UInt8) (txLoc : TxLoc) (tx : MsgTx) : Prop :=
  txLoc.txStart + txLoc.txLen ≤ rawMsg.length ∧
    (rawMsg.drop txLoc.txStart).take txLoc.txLen = tx.serialize

theorem run_readTxLocs {transactions : List MsgTx} (h : ∀ tx ∈ transactions, tx.Encodable)
    (done : List UInt8) :
    ∃ txLocs, (readTxLocs (done ++ transactions.flatMap serialize).length
        transactions.length).run (transactions.flatMap serialize) = some (txLocs, []) ∧
      List.Forall₂ (fun tx txLoc => TxLoc.Locates (done ++ transactions.flatMap serialize)
        txLoc tx) transactions txLocs := by
  induction transactions generalizing done with
  | nil => exact ⟨[], rfl, .nil⟩
  | cons tx transactions ih =>
    obtain ⟨txLocs, hr, hl⟩ :=
      ih (fun tx' htx' => h tx' (mem_cons_of_mem tx htx')) (done ++ tx.serialize)
    have htx := reads_serialize (h tx mem_cons_self) (transactions.flatMap serialize)
    rw [append_assoc, ← flatMap_cons] at hr hl
    have hb : (done ++ (tx :: transactions).flatMap serialize).length =
        done.length + (tx.serialize.length + (transactions.flatMap serialize).length) := by
      simp
    refine ⟨⟨done.length, tx.serialize.length⟩ :: txLocs, ?_, .cons ⟨?_, ?_⟩ hl⟩
    · rw [hb] at hr ⊢
      rw [length_cons, readTxLocs, flatMap_cons]
      simp only [StateT.run_bind, StateT.run_get, Option.bind_eq_bind, Option.bind_some,
        Option.pure_def]
      rw [htx, Option.bind_some, hr, Option.bind_some]
      simp only [StateT.run_pure, length_append, Nat.add_sub_cancel]
      congr 4
      omega
    · rw [hb]
      exact Nat.add_le_add_left (Nat.le_add_right _ _) _
    · rw [drop_left, flatMap_cons, take_left]

theorem exists_mem_zip {α β : Type} {R : α → β → Prop} {l : List α} {l' : List β}
    (h : List.Forall₂ R l l') {a : α} (ha : a ∈ l) : ∃ b, (a, b) ∈ l.zip l' ∧ R a b := by
  induction h with
  | nil => cases ha
  | cons hR _ ih =>
    obtain rfl | ha := mem_cons.1 ha
    · exact ⟨_, mem_cons_self, hR⟩
    · obtain ⟨b, hm, hR⟩ := ih ha
      exact ⟨b, mem_cons_of_mem _ hm, hR⟩

/-- **Where the transactions of a block lie** in its bytes. -/
theorem MsgBlock.txLoc_eq {block : MsgBlock} (h : block.Encodable) :
    ∃ txLocs, block.txLoc = some txLocs ∧
      List.Forall₂ (fun tx txLoc => TxLoc.Locates block.serialize txLoc tx) block.transactions
        txLocs := by
  obtain ⟨txLocs, hr, hl⟩ := run_readTxLocs h.transactions_encodable
    (writeBlockHeader block.header ++ writeVarInt block.transactions.length)
  refine ⟨txLocs, ?_, hl⟩
  rw [MsgBlock.txLoc, deserializeTxLoc, MsgBlock.serialize]
  have hh := reads_writeBlockHeader h.timestamp_nonneg h.timestamp_lt
    (writeVarInt block.transactions.length ++ block.transactions.flatMap MsgTx.serialize)
  have hc := reads_writeVarInt (h.transactions_le.trans_lt (by decide))
    (block.transactions.flatMap MsgTx.serialize)
  rw [StateT.run_bind, append_assoc, hh, Option.bind_eq_bind, Option.bind_some, StateT.run_bind,
    hc, Option.bind_eq_bind, Option.bind_some, guard, if_pos h.transactions_le]
  exact congrArg (Option.map Prod.fst) hr

/-! ### Where the output scripts of a transaction lie -/

/-- The loop of `PkScriptLocs`, from the offset `n` of the next output. -/
def pkScriptLocsFrom : Nat → List TxOut → List Nat
  | _, [] => []
  | n, txOut :: rest =>
      let n := n + 8 + varIntSerializeSize txOut.pkScript.length
      n :: pkScriptLocsFrom (n + txOut.pkScript.length) rest

namespace MsgTx

/-- `(*MsgTx).PkScriptLocs`, where `notNil` is whether `TxIn[0].Witness` is not nil. -/
def pkScriptLocs (msg : MsgTx) (notNil : Bool) : List Nat :=
  pkScriptLocsFrom (4 + varIntSerializeSize msg.txIn.length +
    varIntSerializeSize msg.txOut.length + (if 0 < msg.txIn.length ∧ notNil then 2 else 0) +
      (msg.txIn.map fun txIn => txIn.serializeSize).sum) msg.txOut

/-- What a transaction starts with: everything before its outputs. -/
def bytesBeforeOutputs (msg : MsgTx) : List UInt8 :=
  leBytes 4 (msg.version.toInt % 2 ^ 32).toNat ++ (if msg.hasWitness then [0x00, 0x01] else []) ++
    writeVarInt msg.txIn.length ++ msg.txIn.flatMap writeTxIn ++ writeVarInt msg.txOut.length

/-- The bytes of a transaction before the script of its `i`-th output. -/
def bytesBeforeScript (msg : MsgTx) (i : Nat) (txOut : TxOut) : List UInt8 :=
  msg.bytesBeforeOutputs ++ (msg.txOut.take i).flatMap writeTxOut ++
    leBytes 8 txOut.value.toUInt64.toNat ++ writeVarInt txOut.pkScript.length

/-- The offsets are those of the output scripts in the bytes of the transaction. -/
def LocatesScripts (msg : MsgTx) (locs : List Nat) : Prop :=
  locs.length = msg.txOut.length ∧ ∀ i txOut, msg.txOut[i]? = some txOut →
    msg.bytesBeforeScript i txOut ++ txOut.pkScript <+: msg.serialize ∧
      locs[i]? = some (msg.bytesBeforeScript i txOut).length

variable {txOut : TxOut}

theorem bytesBeforeScript_isPrefix {msg : MsgTx} {i : Nat} (h : msg.txOut[i]? = some txOut) :
    msg.bytesBeforeScript i txOut ++ txOut.pkScript <+: msg.serialize := by
  have hs : msg.txOut = msg.txOut.take i ++ txOut :: msg.txOut.drop (i + 1) := by
    obtain ⟨hi, rfl⟩ := List.getElem?_eq_some_iff.1 h
    rw [cons_getElem_drop_succ, take_append_drop]
  have ho : msg.txOut.flatMap writeTxOut = (msg.txOut.take i).flatMap writeTxOut ++
      (writeTxOut txOut ++ (msg.txOut.drop (i + 1)).flatMap writeTxOut) := by
    conv_lhs => rw [hs, flatMap_append, flatMap_cons]
  unfold serialize serializeNoWitness bytesBeforeScript bytesBeforeOutputs
  rw [ho]
  split_ifs <;> simp [writeTxOut, writeVarBytes]

theorem length_pkScriptLocsFrom (n : Nat) (txOuts : List TxOut) :
    (pkScriptLocsFrom n txOuts).length = txOuts.length := by
  induction txOuts generalizing n with
  | nil => rfl
  | cons txOut txOuts ih => simp [pkScriptLocsFrom, ih]

theorem getElem?_pkScriptLocsFrom {n i : Nat} {txOuts : List TxOut} (h : txOuts[i]? = some txOut) :
    (pkScriptLocsFrom n txOuts)[i]? = some (n + ((txOuts.take i).flatMap writeTxOut).length + 8 +
        varIntSerializeSize txOut.pkScript.length) := by
  induction txOuts generalizing n i with
  | nil => cases h
  | cons first txOuts ih =>
    cases i with
    | zero =>
      obtain rfl : first = txOut := by simpa using h
      simp [pkScriptLocsFrom]
    | succ i =>
      rw [pkScriptLocsFrom, getElem?_cons_succ, ih (by simpa using h)]
      simp [writeTxOut, writeVarBytes]
      omega

/-- The offsets are right exactly if the test on the first input agrees with `HasWitness`, or there
is no output. -/
theorem locatesScripts_iff (msg : MsgTx) (notNil : Bool) :
    msg.LocatesScripts (msg.pkScriptLocs notNil) ↔
      msg.txOut = [] ∨ (msg.hasWitness ↔ 0 < msg.txIn.length ∧ notNil) := by
  have hl : ∀ i txOut, msg.txOut[i]? = some txOut →
      ((msg.pkScriptLocs notNil)[i]? = some (msg.bytesBeforeScript i txOut).length ↔
        (msg.hasWitness ↔ 0 < msg.txIn.length ∧ notNil)) := by
    intro i txOut h
    rw [pkScriptLocs, getElem?_pkScriptLocsFrom h, bytesBeforeScript, bytesBeforeOutputs]
    simp only [length_append, length_leBytes, length_flatMap, length_writeTxIn]
    by_cases hw : msg.hasWitness <;> by_cases hn : 0 < msg.txIn.length ∧ notNil <;>
      simp only [hw, hn, if_true, if_false, length_cons, length_nil] <;>
      simp <;> omega
  constructor
  · rintro ⟨-, hs⟩
    cases ho : msg.txOut with
    | nil => exact .inl rfl
    | cons txOut rest =>
      have h0 : msg.txOut[0]? = some txOut := by simp [ho]
      exact .inr ((hl 0 txOut h0).1 (hs 0 txOut h0).2)
  · intro hc
    refine ⟨length_pkScriptLocsFrom _ _, fun i txOut h => ⟨bytesBeforeScript_isPrefix h, ?_⟩⟩
    rcases hc with hni | hi
    · simp [hni] at h
    · exact (hl i txOut h).2 hi

end MsgTx

/-- The ways the index reports that it cannot be changed or read. -/
inductive IndexError
  | assertError
  | messageError
  | nonExistentTx (txHash : Hash)
  | errCorruption (txHash : Hash)

/-- The buckets of the index, and the hash of its tip. -/
structure IndexTables where
  idByHash : ByHash UInt32
  hashByID : Finmap fun _ : UInt32 => Hash
  txIndex : ByHash (List UInt8)
  tip : Hash

/-- The tables, and the highest ID in use, which is in memory. -/
structure TxIndex where
  tables : IndexTables
  curBlockID : UInt32

/-- The entry of a transaction: the ID of its block and its location, in 4 bytes each. -/
def putTxIndexEntry (blockID : UInt32) (txLoc : TxLoc) : List UInt8 :=
  leBytes 4 blockID.toNat ++ leBytes 4 (UInt32.ofNat txLoc.txStart).toNat ++
    leBytes 4 (UInt32.ofNat txLoc.txLen).toNat

structure BlockRegion where
  hash : Hash
  offset : UInt32
  len : UInt32

namespace IndexTables

def dbPutBlockIDIndexEntry (tables : IndexTables) (hash : Hash) (id : UInt32) : IndexTables :=
  { tables with idByHash := tables.idByHash.insert hash id
                hashByID := tables.hashByID.insert id hash }

def dbRemoveBlockIDIndexEntry (tables : IndexTables) (hash : Hash) : IndexTables :=
  match tables.idByHash.lookup hash with
  | none => tables
  | some id => { tables with idByHash := tables.idByHash.erase hash
                             hashByID := tables.hashByID.erase id }

def dbFetchTxIndexEntry (tables : IndexTables) (txHash : Hash) :
    Except IndexError (Option BlockRegion) :=
  match tables.txIndex.lookup txHash with
  | none => .ok none
  | some serializedData =>
      if serializedData.length = 0 then .ok none
      else if serializedData.length < 12 then .error (.errCorruption txHash)
      else
        match tables.hashByID.lookup (uint32At serializedData 0) with
        | none => .error (.errCorruption txHash)
        | some hash =>
            .ok (some { hash, offset := uint32At serializedData 1
                        len := uint32At serializedData 2 })

end IndexTables

def dbAddTxIndexEntries (prim : Primitives) (txIndex : ByHash (List UInt8)) (block : MsgBlock)
    (blockID : UInt32) : Except IndexError (ByHash (List UInt8)) :=
  match block.txLoc with
  | none => .error .messageError
  | some txLocs =>
      .ok ((block.transactions.zip txLocs).foldl (fun txIndex tx =>
        txIndex.insert (tx.1.txHash prim) (putTxIndexEntry blockID tx.2)) txIndex)

def dbRemoveTxIndexEntry (txIndex : ByHash (List UInt8)) (txHash : Hash) :
    Except IndexError (ByHash (List UInt8)) :=
  match txIndex.lookup txHash with
  | none => .error (.nonExistentTx txHash)
  | some serializedData =>
      if serializedData.length = 0 then .error (.nonExistentTx txHash)
      else .ok (txIndex.erase txHash)

def dbRemoveTxIndexEntries (prim : Primitives) (txIndex : ByHash (List UInt8)) (block : MsgBlock) :
    Except IndexError (ByHash (List UInt8)) :=
  block.transactions.foldlM (fun txIndex tx => dbRemoveTxIndexEntry txIndex (tx.txHash prim))
    txIndex

namespace TxIndex

section

variable (prim : Primitives) (idx : TxIndex) (block : MsgBlock)

def connectBlock :
    Except IndexError TxIndex := do
  let newBlockID := idx.curBlockID + 1
  let txIndex ← dbAddTxIndexEntries prim idx.tables.txIndex block newBlockID
  let tables := { idx.tables with txIndex }
  pure { tables := tables.dbPutBlockIDIndexEntry (block.header.blockHash prim) newBlockID
         curBlockID := newBlockID }

def disconnectBlock :
    Except IndexError TxIndex := do
  let txIndex ← dbRemoveTxIndexEntries prim idx.tables.txIndex block
  let tables := { idx.tables with txIndex }
  pure { tables := tables.dbRemoveBlockIDIndexEntry (block.header.blockHash prim)
         curBlockID := idx.curBlockID - 1 }

/-- `dbIndexConnectBlock` with this index. -/
def dbIndexConnectBlock :
    Except IndexError TxIndex :=
  if idx.tables.tip = block.header.prevBlock then do
    let idx ← idx.connectBlock prim block
    pure { idx with tables := { idx.tables with tip := block.header.blockHash prim } }
  else .error .assertError

/-- `dbIndexDisconnectBlock` with this index. -/
def dbIndexDisconnectBlock :
    Except IndexError TxIndex :=
  if idx.tables.tip = block.header.blockHash prim then do
    let idx ← idx.disconnectBlock prim block
    pure { idx with tables := { idx.tables with tip := block.header.prevBlock } }
  else .error .assertError

end

/-! ### The search for the highest ID -/

/-- The first loop of `Init`: the last ID in use that was met, and the first one that is not. -/
def forwardScan (hashByID : Finmap fun _ : UInt32 => Hash) :
    Nat → UInt32 → UInt32 → Option (UInt32 × UInt32)
  | 0, _, _ => none
  | fuel + 1, highestKnown, testBlockID =>
      if testBlockID ∈ hashByID then
        forwardScan hashByID fuel testBlockID (testBlockID + 100000)
      else some (highestKnown, testBlockID)

/-- The bounds after one round of the second loop of `Init`. -/
def bisect (hashByID : Finmap fun _ : UInt32 => Hash) (highestKnown nextUnknown : UInt32) :
    UInt32 × UInt32 :=
  if (highestKnown + nextUnknown) / 2 ∈ hashByID then
    ((highestKnown + nextUnknown) / 2, nextUnknown)
  else (highestKnown, (highestKnown + nextUnknown) / 2)

/-- The second loop of `Init`. -/
def binaryScan (hashByID : Finmap fun _ : UInt32 => Hash) : Nat → UInt32 → UInt32 → Option UInt32
  | 0, _, _ => none
  | fuel + 1, highestKnown, nextUnknown =>
      let bounds := bisect hashByID highestKnown nextUnknown
      if bounds.1 + 1 = bounds.2 then some bounds.1
      else binaryScan hashByID fuel bounds.1 bounds.2

/-- `(*TxIndex).Init` of an index whose ID in memory is still zero: the ID it is set to. -/
def init (hashByID : Finmap fun _ : UInt32 => Hash) : Option UInt32 := do
  let scan ← forwardScan hashByID (2 ^ 32) 0 1
  if scan.2 = 1 then some 0 else binaryScan hashByID (2 ^ 64) scan.1 scan.2

/-- IDs up to this bound do not overflow in the search. -/
def maxBlockID : Nat := 2 ^ 31 - 100000

section Search

variable {hashByID : Finmap fun _ : UInt32 => Hash} {n fuel : Nat}
  {highestKnown nextUnknown : UInt32}

section

variable (hk : ∀ id : UInt32, id ∈ hashByID ↔ 1 ≤ id.toNat ∧ id.toNat ≤ n)
include hk

theorem forwardScan_eq (hn : n ≤ maxBlockID) (highestKnown testBlockID : UInt32)
    (hh : highestKnown.toNat ≤ n) (hp : 1 ≤ testBlockID.toNat) (ht : testBlockID.toNat ≤ n + 100000)
    (hf : n + 100000 < testBlockID.toNat + 100000 * fuel) :
    ∃ scan, forwardScan hashByID fuel highestKnown testBlockID = some scan ∧ scan.1.toNat ≤ n ∧
      n < scan.2.toNat ∧ scan.2.toNat ≤ n + 100000 ∧
      (scan = (highestKnown, testBlockID) ∨ 1 ≤ scan.1.toNat) := by
  rw [maxBlockID] at hn
  induction fuel generalizing highestKnown testBlockID with
  | zero => omega
  | succ fuel ih =>
    rw [forwardScan]
    by_cases hm : testBlockID ∈ hashByID
    · rw [if_pos hm]
      have hle := ((hk testBlockID).1 hm).2
      have hnt : (testBlockID + 100000).toNat = testBlockID.toNat + 100000 := by
        exact Nat.mod_eq_of_lt (show testBlockID.toNat + 100000 < 2 ^ 32 by omega)
      obtain ⟨scan, hs, h1, h2, h3, h4⟩ := ih testBlockID (testBlockID + 100000) hle (by omega)
        (by omega) (by omega)
      refine ⟨scan, hs, h1, h2, h3, .inr ?_⟩
      obtain rfl | h4 := h4
      · exact hp
      · exact h4
    · rw [if_neg hm]
      rw [hk] at hm
      exact ⟨_, rfl, hh, by dsimp only; omega, ht, Or.inl rfl⟩

/-- A round of the second loop keeps the highest ID between its bounds and brings them nearer. -/
theorem bisect_bounds (hp : 1 ≤ highestKnown.toNat) (hh : highestKnown.toNat ≤ n)
    (hn : n < nextUnknown.toNat) (hlt : nextUnknown.toNat ≤ 2 ^ 31) :
    ∃ bounds, bisect hashByID highestKnown nextUnknown = bounds ∧
      highestKnown.toNat ≤ bounds.1.toNat ∧ bounds.1.toNat ≤ n ∧ n < bounds.2.toNat ∧
      bounds.2.toNat ≤ nextUnknown.toNat ∧ (highestKnown.toNat + 1 < nextUnknown.toNat →
        bounds.2.toNat + highestKnown.toNat < nextUnknown.toNat + bounds.1.toNat) := by
  have hm : ((highestKnown + nextUnknown) / 2).toNat =
      (highestKnown.toNat + nextUnknown.toNat) / 2 := by
    rw [UInt32.toNat_div, UInt32.toNat_add, Nat.mod_eq_of_lt (by omega)]
    rfl
  rw [bisect]
  split_ifs with hme
  all_goals
    rw [hk, hm] at hme
    refine ⟨_, rfl, ?_⟩
    dsimp only
    omega

theorem binaryScan_eq (hp : 1 ≤ highestKnown.toNat) (hh : highestKnown.toNat ≤ n)
    (hn : n < nextUnknown.toNat) (hlt : nextUnknown.toNat ≤ 2 ^ 31)
    (hf : nextUnknown.toNat ≤ highestKnown.toNat + fuel) :
    ∃ id, binaryScan hashByID fuel highestKnown nextUnknown = some id ∧ id.toNat = n := by
  induction fuel generalizing highestKnown nextUnknown with
  | zero => omega
  | succ fuel ih =>
    obtain ⟨bounds, hb, h1, h2, h3, h4, h5⟩ := bisect_bounds hk hp hh hn hlt
    rw [binaryScan, hb]
    have hs : (bounds.1 + 1).toNat = bounds.1.toNat + 1 := by
      exact Nat.mod_eq_of_lt (show bounds.1.toNat + 1 < 2 ^ 32 by omega)
    by_cases hd : bounds.1 + 1 = bounds.2
    · refine ⟨bounds.1, if_pos hd, ?_⟩
      rw [← hd, hs] at h3
      omega
    · have hg : bounds.1.toNat + 1 ≠ bounds.2.toNat := by
        rw [← hs]
        exact fun heq => hd (UInt32.toNat_inj.1 heq)
      rw [if_neg hd]
      exact ih (hp.trans h1) h2 h3 (h4.trans hlt) (by omega)

/-- **Without a gap the search finds the highest ID.** -/
theorem init_eq (hn : n ≤ maxBlockID) : ∃ id, init hashByID = some id ∧ id.toNat = n := by
  obtain ⟨scan, hs, h1, h2, h3, h4⟩ := forwardScan_eq hk hn 0 1
    (Nat.zero_le n) (by decide) (show 1 ≤ n + 100000 by omega)
    (show n + 100000 < 1 + 100000 * 2 ^ 32 by rw [maxBlockID] at hn; omega)
  rw [init, hs]
  change ∃ id, (if scan.2 = 1 then some 0 else binaryScan hashByID (2 ^ 64) scan.1 scan.2) =
    some id ∧ id.toNat = n
  by_cases hnw : scan.2 = 1
  · rw [hnw] at h2
    have hz : n = 0 := Nat.lt_one_iff.1 h2
    exact ⟨0, if_pos hnw, hz.symm⟩
  · rw [if_neg hnw]
    rw [maxBlockID] at hn
    have hp : 1 ≤ scan.1.toNat := h4.resolve_left fun heq => hnw (congrArg Prod.snd heq)
    exact binaryScan_eq hk hp h1 h2 (by omega) (by omega)

end

end Search

/-! ### What a connection and a disconnection change -/

/-- The entries that are added for a block. -/
def txEntries (prim : Primitives) (block : MsgBlock) (blockID : UInt32) (txLocs : List TxLoc) :
    List (Hash × List UInt8) :=
  (block.transactions.zip txLocs).map fun tx => (tx.1.txHash prim, putTxIndexEntry blockID tx.2)

variable {prim : Primitives} {block : MsgBlock} {blockID : UInt32}
  {txIndex txIndex' : ByHash (List UInt8)} {idx idx' : TxIndex}

theorem map_fst_txEntries {txLocs : List TxLoc} (h : block.transactions.length ≤ txLocs.length) :
    (txEntries prim block blockID txLocs).map Prod.fst =
      block.transactions.map (txHash prim) := by
  rw [txEntries, map_map]
  conv_rhs => rw [← map_fst_zip h, map_map]
  rfl

theorem eq_of_dbAddTxIndexEntries
    (h : dbAddTxIndexEntries prim txIndex block blockID = .ok txIndex') :
    ∃ txLocs, block.txLoc = some txLocs ∧
      txIndex' = Ledger.create txIndex (txEntries prim block blockID txLocs) := by
  unfold dbAddTxIndexEntries at h
  split at h
  case h_1 => cases h
  case h_2 txLocs hl =>
    refine ⟨txLocs, hl, ?_⟩
    rw [Ledger.create, txEntries, foldl_map]
    exact (ok.inj h).symm

theorem eq_of_dbIndexConnectBlock (h : idx.dbIndexConnectBlock prim block = .ok idx') :
    ∃ txLocs, block.txLoc = some txLocs ∧ idx'.tables.idByHash =
        idx.tables.idByHash.insert (block.header.blockHash prim) (idx.curBlockID + 1) ∧
      idx'.tables.hashByID =
        idx.tables.hashByID.insert (idx.curBlockID + 1) (block.header.blockHash prim) ∧
      idx'.tables.txIndex = Ledger.create idx.tables.txIndex
        (txEntries prim block (idx.curBlockID + 1) txLocs) ∧
      idx'.curBlockID = idx.curBlockID + 1 := by
  rw [dbIndexConnectBlock] at h
  split_ifs at h
  obtain ⟨idx₁, hc, h⟩ := bind_eq_ok.1 h
  cases h
  obtain ⟨txIndex, ha, h⟩ := bind_eq_ok.1 hc
  cases h
  obtain ⟨txLocs, hl, hcr⟩ := eq_of_dbAddTxIndexEntries ha
  exact ⟨txLocs, hl, rfl, rfl, hcr, rfl⟩

theorem eq_of_dbRemoveTxIndexEntries
    (h : dbRemoveTxIndexEntries prim txIndex block = .ok txIndex') :
    txIndex' = Ledger.eraseAll txIndex (block.transactions.map (txHash prim)) := by
  rw [dbRemoveTxIndexEntries] at h
  generalize block.transactions = transactions at h ⊢
  induction transactions generalizing txIndex with
  | nil => exact (ok.inj h).symm
  | cons tx transactions ih =>
    rw [foldlM_cons] at h
    obtain ⟨rest, hr, h⟩ := bind_eq_ok.1 h
    rw [map_cons, Ledger.eraseAll, ih h]
    rw [dbRemoveTxIndexEntry] at hr
    split at hr
    · cases hr
    · rename_i serializedData hl
      split_ifs at hr
      cases hr
      rfl

theorem tip_of_dbIndexDisconnectBlock (h : idx.dbIndexDisconnectBlock prim block = .ok idx') :
    idx.tables.tip = block.header.blockHash prim := by
  rw [dbIndexDisconnectBlock] at h
  split_ifs at h with ht
  exact ht

theorem eq_of_dbIndexDisconnectBlock {id : UInt32}
    (hid : idx.tables.idByHash.lookup (block.header.blockHash prim) = some id)
    (h : idx.dbIndexDisconnectBlock prim block = .ok idx') :
    idx'.tables.idByHash = idx.tables.idByHash.erase (block.header.blockHash prim) ∧
      idx'.tables.hashByID = idx.tables.hashByID.erase id ∧
      idx'.tables.txIndex = Ledger.eraseAll idx.tables.txIndex
        (block.transactions.map (txHash prim)) ∧
      idx'.curBlockID = idx.curBlockID - 1 := by
  rw [dbIndexDisconnectBlock] at h
  split_ifs at h
  obtain ⟨idx₁, hd, h⟩ := bind_eq_ok.1 h
  cases h
  obtain ⟨txIndex, hr, h⟩ := bind_eq_ok.1 hd
  cases h
  rw [← eq_of_dbRemoveTxIndexEntries hr]
  simp [IndexTables.dbRemoveBlockIDIndexEntry, hid]

end TxIndex

/-! ### Runs of the index -/

/-- What happens to the index. -/
inductive IndexEvent
  | connect (block : MsgBlock) (committed : Bool)
  | disconnect (block : MsgBlock) (committed : Bool)
  | restart

/-- The index, with the blocks that it has indexed, the last one first. -/
structure Indexed where
  idx : TxIndex
  blocks : List MsgBlock

/-- The failure of a run: `Init` does not return. -/
inductive InitLoops
  | initLoops

namespace Indexed

/-- The index before the first block. -/
def new : Indexed where
  idx := { tables := { idByHash := ∅, hashByID := ∅, txIndex := ∅, tip := 0 }, curBlockID := 0 }
  blocks := []

/-- The transaction of an update is committed, or rolled back. The ID in memory stays changed. -/
def finish (s : Indexed) (committed : Bool) (idx : TxIndex) (blocks : List MsgBlock) : Indexed :=
  if committed then { idx, blocks }
  else { s with idx := { s.idx with curBlockID := idx.curBlockID } }

/-- One event. A block that is refused changes nothing. -/
def step (prim : Primitives) (s : Indexed) : IndexEvent → Except InitLoops Indexed
  | .connect block committed =>
      match s.idx.dbIndexConnectBlock prim block with
      | .error _ => .ok s
      | .ok idx => .ok (s.finish committed idx (block :: s.blocks))
  | .disconnect block committed =>
      match s.idx.dbIndexDisconnectBlock prim block with
      | .error _ => .ok s
      | .ok idx => .ok (s.finish committed idx s.blocks.tail)
  | .restart =>
      match TxIndex.init s.idx.tables.hashByID with
      | none => .error .initLoops
      | some curBlockID => .ok { s with idx := { s.idx with curBlockID } }

end Indexed

/-! ### What one expects of the index -/

/-- **A correct index.** -/
structure IndexTables.Correct (prim : Primitives) (tables : IndexTables) (blocks : List MsgBlock) :
    Prop where
  indexed : ∀ block ∈ blocks, ∃ id, tables.idByHash.lookup (block.header.blockHash prim) = some id
  distinct : ∀ block ∈ blocks, ∀ block' ∈ blocks, ∀ id,
    tables.idByHash.lookup (block.header.blockHash prim) = some id →
      tables.idByHash.lookup (block'.header.blockHash prim) = some id → block = block'
  inverse : Inverse tables.idByHash tables.hashByID
  region : ∀ block ∈ blocks, ∀ tx ∈ block.transactions, ∃ region,
    tables.dbFetchTxIndexEntry (tx.txHash prim) = .ok (some region) ∧
      region.hash = block.header.blockHash prim ∧
      (block.serialize.drop region.offset.toNat).take region.len.toNat = tx.serialize

/-- The IDs in use are `1, …, n` for some `n`. -/
def IndexTables.NoGap (tables : IndexTables) : Prop :=
  ∀ id ∈ tables.hashByID, id = 1 ∨ id - 1 ∈ tables.hashByID

/-- A block that can be connected. -/
structure TxIndex.Connectable (prim : Primitives) (idx : TxIndex) (block : MsgBlock) : Prop where
  encodable : block.Encodable
  size : block.serialize.length < 2 ^ 32
  hash_notMem : block.header.blockHash prim ∉ idx.tables.idByHash
  nodup : (block.transactions.map (txHash prim)).Nodup
  txHash_notMem : ∀ tx ∈ block.transactions, tx.txHash prim ∉ idx.tables.txIndex
  curBlockID_lt : idx.curBlockID.toNat < TxIndex.maxBlockID

/-- The steps that keep the index correct: a disconnection is only rolled back when no block has the
ID in memory, and a start finds no gap in the IDs. -/
def Indexed.Safe (prim : Primitives) (s : Indexed) : IndexEvent → Prop
  | .connect block _ => s.idx.Connectable prim block
  | .disconnect block committed => s.idx.tables.tip = block.header.blockHash prim →
      s.blocks.head? = some block ∧ (committed = false → s.idx.curBlockID ∉ s.idx.tables.hashByID)
  | .restart => s.idx.tables.NoGap

/-! ### The invariant -/

/-- What holds of the tables along safe steps. -/
structure IndexTables.Holds (prim : Primitives) (tables : IndexTables) (blocks : List MsgBlock) :
    Prop where
  inverse : Inverse tables.idByHash tables.hashByID
  indexed : ∀ hash, hash ∈ tables.idByHash ↔ ∃ block ∈ blocks, block.header.blockHash prim = hash
  one_le : ∀ id ∈ tables.hashByID, 1 ≤ id.toNat
  newest : blocks.Pairwise fun block older => ∀ id id',
    tables.idByHash.lookup (block.header.blockHash prim) = some id →
      tables.idByHash.lookup (older.header.blockHash prim) = some id' → id'.toNat < id.toNat
  entries : ∀ block ∈ blocks, ∀ id,
    tables.idByHash.lookup (block.header.blockHash prim) = some id → ∀ tx ∈ block.transactions,
      ∃ txLoc : TxLoc, txLoc.Locates block.serialize tx ∧
        tables.txIndex.lookup (tx.txHash prim) = some (putTxIndexEntry id txLoc)
  only : ∀ txHash ∈ tables.txIndex, ∃ block ∈ blocks, ∃ tx ∈ block.transactions,
    tx.txHash prim = txHash
  separate : blocks.Pairwise fun block older => ∀ tx ∈ block.transactions,
    ∀ tx' ∈ older.transactions, tx.txHash prim ≠ tx'.txHash prim
  size : ∀ block ∈ blocks, block.serialize.length < 2 ^ 32

/-- No ID in use is above `n`. -/
def IndexTables.Below (tables : IndexTables) (n : Nat) : Prop :=
  ∀ id ∈ tables.hashByID, id.toNat ≤ n

/-- The invariant of the index. -/
structure Indexed.Sound (prim : Primitives) (s : Indexed) : Prop where
  holds : s.idx.tables.Holds prim s.blocks
  below : s.idx.tables.Below s.idx.curBlockID.toNat
  curBlockID_le : s.idx.curBlockID.toNat ≤ TxIndex.maxBlockID

namespace IndexTables.Holds

variable {prim : Primitives} {tables : IndexTables} {block : MsgBlock} {blocks : List MsgBlock}
  {id : UInt32}

section

variable (h : tables.Holds prim blocks)
include h

theorem exists_id (hb : block ∈ blocks) :
    ∃ id, tables.idByHash.lookup (block.header.blockHash prim) = some id :=
  mem_iff.1 ((h.indexed _).2 ⟨block, hb, rfl⟩)

theorem mem_hashByID {hash : Hash}
    (hid : tables.idByHash.lookup hash = some id) : id ∈ tables.hashByID :=
  mem_of_lookup_eq_some ((h.inverse hash id).1 hid)

theorem eq_of_lookup {block' : MsgBlock} (hbl : block ∈ blocks) (hbl' : block' ∈ blocks)
    (hid : tables.idByHash.lookup (block.header.blockHash prim) = some id)
    (hid' : tables.idByHash.lookup (block'.header.blockHash prim) = some id) : block = block' := by
  have hn : (blocks.map fun block =>
      tables.idByHash.lookup (block.header.blockHash prim)).Nodup := by
    refine pairwise_map.2 (h.newest.imp_of_mem fun {b older} hb _ hlt heq => ?_)
    obtain ⟨id, hid⟩ := h.exists_id hb
    exact absurd (hlt id id hid (heq ▸ hid)) (lt_irrefl _)
  exact inj_on_of_nodup_map hn hbl hbl' (hid.trans hid'.symm)

end

end IndexTables.Holds

theorem length_putTxIndexEntry (blockID : UInt32) (txLoc : TxLoc) :
    (putTxIndexEntry blockID txLoc).length = 12 := by
  simp [putTxIndexEntry]

theorem uint32At_putTxIndexEntry (blockID : UInt32) (txLoc : TxLoc) :
    uint32At (putTxIndexEntry blockID txLoc) 0 = blockID ∧
      uint32At (putTxIndexEntry blockID txLoc) 1 = UInt32.ofNat txLoc.txStart ∧
      uint32At (putTxIndexEntry blockID txLoc) 2 = UInt32.ofNat txLoc.txLen := by
  rw [putTxIndexEntry]
  refine ⟨?_, ?_, ?_⟩
  · rw [append_assoc]
    exact uint32At_append [] _ _ rfl
  · rw [append_assoc]
    exact uint32At_append _ _ _ (length_leBytes 4 _)
  · have he := uint32At_append (leBytes 4 blockID.toNat ++
      leBytes 4 (UInt32.ofNat txLoc.txStart).toNat) [] (UInt32.ofNat txLoc.txLen) (n := 2)
      (by simp)
    rwa [append_nil] at he

/-- **The invariant makes the index correct.** -/
theorem IndexTables.Holds.correct {prim : Primitives} {tables : IndexTables}
    {blocks : List MsgBlock} (h : tables.Holds prim blocks) : tables.Correct prim blocks where
  indexed _ hb := h.exists_id hb
  distinct _ hb _ hb' _ hid hid' := h.eq_of_lookup hb hb' hid hid'
  inverse := h.inverse
  region := by
    intro block hb tx htx
    obtain ⟨id, hid⟩ := h.exists_id hb
    obtain ⟨txLoc, ⟨hle, hby⟩, he⟩ := h.entries block hb id hid tx htx
    obtain ⟨hbi, hs, hl⟩ := uint32At_putTxIndexEntry id txLoc
    have hsi := h.size block hb
    refine ⟨⟨block.header.blockHash prim, UInt32.ofNat txLoc.txStart, UInt32.ofNat txLoc.txLen⟩,
      ?_, rfl, ?_⟩
    · rw [dbFetchTxIndexEntry, he]
      dsimp only
      rw [length_putTxIndexEntry, if_neg (by decide), if_neg (by decide), hbi,
        (h.inverse _ _).1 hid, hs, hl]
    · have ht : ∀ {n : Nat}, n ≤ block.serialize.length → (UInt32.ofNat n).toNat = n := by
        intro n hn
        exact Nat.mod_eq_of_lt (hn.trans_lt hsi)
      rw [ht (by omega), ht (by omega), hby]

/-- The index after `block` has been added to `before`. -/
structure TxIndex.Added (prim : Primitives) (before : TxIndex) (block : MsgBlock)
    (idx : TxIndex) : Prop where
  idByHash_eq : idx.tables.idByHash =
    before.tables.idByHash.insert (block.header.blockHash prim) (before.curBlockID + 1)
  hashByID_eq : idx.tables.hashByID =
    before.tables.hashByID.insert (before.curBlockID + 1) (block.header.blockHash prim)
  entry : ∀ tx ∈ block.transactions, ∃ txLoc : TxLoc, txLoc.Locates block.serialize tx ∧
    idx.tables.txIndex.lookup (tx.txHash prim) =
      some (putTxIndexEntry (before.curBlockID + 1) txLoc)
  other : ∀ txHash, txHash ∉ block.transactions.map (MsgTx.txHash prim) →
    idx.tables.txIndex.lookup txHash = before.tables.txIndex.lookup txHash
  curBlockID_eq : idx.curBlockID = before.curBlockID + 1

namespace Indexed

variable {prim : Primitives} {s : Indexed} {block : MsgBlock} {idx : TxIndex} {event : IndexEvent}

theorem sound_new : Sound prim new where
  holds :=
    { inverse := Inverse.empty
      indexed := fun _ => ⟨fun h => absurd h notMem_empty, fun ⟨_, hm, _⟩ => absurd hm not_mem_nil⟩
      one_le := fun _ h => by cases h
      newest := .nil
      entries := fun _ h => absurd h not_mem_nil
      only := fun _ h => absurd h notMem_empty
      separate := .nil
      size := fun _ h => absurd h not_mem_nil }
  below := fun _ h => absurd h notMem_empty
  curBlockID_le := Nat.zero_le _

theorem Sound.setCurBlockID (h : s.Sound prim) {curBlockID : UInt32}
    (hb : s.idx.tables.Below curBlockID.toNat) (hle : curBlockID.toNat ≤ TxIndex.maxBlockID) :
    Sound prim { s with idx := { s.idx with curBlockID } } where
  holds := h.holds
  below := hb
  curBlockID_le := hle

theorem toNat_curBlockID_succ (hb : s.idx.Connectable prim block) :
    (s.idx.curBlockID + 1).toNat = s.idx.curBlockID.toNat + 1 := by
  have hlt := hb.curBlockID_lt
  rw [TxIndex.maxBlockID] at hlt
  exact Nat.mod_eq_of_lt (show s.idx.curBlockID.toNat + 1 < 2 ^ 32 by omega)

/-- **What a connection does**: the block has the next ID, and its transactions have entries. -/
theorem added_of_dbIndexConnectBlock (hb : s.idx.Connectable prim block)
    (hc : s.idx.dbIndexConnectBlock prim block = .ok idx) : TxIndex.Added prim s.idx block idx := by
  obtain ⟨txLocs, hlo, hi, hh, ht, hcu⟩ := TxIndex.eq_of_dbIndexConnectBlock hc
  obtain ⟨txLocs', hlo', hl⟩ := MsgBlock.txLoc_eq hb.encodable
  obtain rfl : txLocs = txLocs' := Option.some.inj (hlo.symm.trans hlo')
  have hk : (TxIndex.txEntries prim block (s.idx.curBlockID + 1) txLocs).map Prod.fst =
      block.transactions.map (txHash prim) :=
    TxIndex.map_fst_txEntries hl.length_eq.le
  refine ⟨hi, hh, fun tx htx => ?_, fun txHash hn => ?_, hcu⟩
  · obtain ⟨txLoc, hm, hl⟩ := exists_mem_zip hl htx
    have he : (tx.txHash prim, putTxIndexEntry (s.idx.curBlockID + 1) txLoc) ∈
        TxIndex.txEntries prim block (s.idx.curBlockID + 1) txLocs :=
      mem_map.2 ⟨(tx, txLoc), hm, rfl⟩
    refine ⟨txLoc, hl, ?_⟩
    rw [ht, lookup_create,
      created_of_mem (by rw [hk]; exact hb.nodup) he, Option.some_or]
  · rw [← hk] at hn
    rw [ht, lookup_create, created_eq_none_iff.2 hn, Option.none_or]

section

variable (h : s.Sound prim)
include h

/-- The transactions of a block that can be connected are not those of an indexed one. -/
theorem Sound.txHash_notMem (hb : s.idx.Connectable prim block)
    {older : MsgBlock} (holder : older ∈ s.blocks) {tx : MsgTx} (htx : tx ∈ older.transactions) :
    tx.txHash prim ∉ block.transactions.map (txHash prim) := by
  intro hm
  obtain ⟨tx', htx', heq⟩ := mem_map.1 hm
  obtain ⟨id, hid⟩ := h.holds.exists_id holder
  obtain ⟨txLoc, -, he⟩ := h.holds.entries older holder id hid tx htx
  exact hb.txHash_notMem tx' htx' (heq ▸ mem_of_lookup_eq_some he)

theorem Sound.connect (hb : s.idx.Connectable prim block)
    (hc : s.idx.dbIndexConnectBlock prim block = .ok idx) :
    Sound prim { idx, blocks := block :: s.blocks } := by
  obtain ⟨hi, hh, he, ho, hcu⟩ := added_of_dbIndexConnectBlock hb hc
  have hs := toNat_curBlockID_succ hb
  have hf : s.idx.curBlockID + 1 ∉ s.idx.tables.hashByID := by
    intro hm
    have := h.below _ hm
    omega
  have hid : idx.tables.idByHash.lookup (block.header.blockHash prim) =
      some (s.idx.curBlockID + 1) := by
    rw [hi, lookup_insert]
  have his : ∀ older ∈ s.blocks, idx.tables.idByHash.lookup (older.header.blockHash prim) =
      s.idx.tables.idByHash.lookup (older.header.blockHash prim) := by
    intro older holder
    rw [hi, lookup_insert_of_ne]
    intro heq
    exact hb.hash_notMem ((h.holds.indexed _).2 ⟨older, holder, heq⟩)
  refine ⟨⟨?_, ?_, ?_, ?_, ?_, ?_, ?_, ?_⟩, ?_, ?_⟩
  · rw [hi, hh]
    exact h.holds.inverse.insert hb.hash_notMem hf
  · intro hash
    rw [hi, mem_insert, h.holds.indexed, eq_comm]
    simp
  · intro id hm
    rw [hh, mem_insert] at hm
    obtain rfl | hm := hm
    · omega
    · exact h.holds.one_le id hm
  · refine .cons (fun older holder id id' hid₁ hid' => ?_) (h.holds.newest.imp_of_mem ?_)
    · rw [his older holder] at hid'
      rw [hid] at hid₁
      have := h.below id' (h.holds.mem_hashByID hid')
      rw [← Option.some.inj hid₁]
      omega
    · intro block' older hb' holder hlt
      rw [his block' hb', his older holder]
      exact hlt
  · intro block' hb' id hid' tx htx
    obtain rfl | hb' := mem_cons.1 hb'
    · rw [hid] at hid'
      rw [← Option.some.inj hid']
      exact he tx htx
    · rw [his block' hb'] at hid'
      rw [ho _ (h.txHash_notMem hb hb' htx)]
      exact h.holds.entries block' hb' id hid' tx htx
  · intro txHash hm
    by_cases hn : txHash ∈ block.transactions.map (MsgTx.txHash prim)
    · exact ⟨block, mem_cons_self, mem_map.1 hn⟩
    · obtain ⟨data, hl⟩ := mem_iff.1 hm
      rw [ho _ hn] at hl
      obtain ⟨older, holder, htx⟩ := h.holds.only txHash (mem_of_lookup_eq_some hl)
      exact ⟨older, mem_cons_of_mem block holder, htx⟩
  · refine .cons (fun older holder tx htx tx' htx' heq => ?_) h.holds.separate
    exact h.txHash_notMem hb holder htx' (heq ▸ mem_map_of_mem htx)
  · exact forall_mem_cons.2 ⟨hb.size, h.holds.size⟩
  · intro id hm
    rw [hh, mem_insert] at hm
    rw [hcu, hs]
    obtain rfl | hm := hm
    · exact hs.le
    · exact (h.below id hm).trans (Nat.le_succ _)
  · have := hb.curBlockID_lt
    rw [hcu, hs]
    omega

theorem Sound.toNat_curBlockID_pred (hb : block ∈ s.blocks) :
    (s.idx.curBlockID - 1).toNat = s.idx.curBlockID.toNat - 1 := by
  obtain ⟨id, hid⟩ := h.holds.exists_id hb
  have hm := h.holds.mem_hashByID hid
  exact UInt32.toNat_sub_of_le _ _ (UInt32.le_iff_toNat_le.2
    ((h.holds.one_le id hm).trans (h.below id hm)))

theorem Sound.disconnect {blocks : List MsgBlock} (hbl : s.blocks = block :: blocks)
    (hd : s.idx.dbIndexDisconnectBlock prim block = .ok idx) : Sound prim { idx, blocks } := by
  have hb : block ∈ s.blocks := hbl ▸ mem_cons_self
  obtain ⟨id, hid⟩ := h.holds.exists_id hb
  obtain ⟨hi, hh, ht, hc⟩ := TxIndex.eq_of_dbIndexDisconnectBlock hid hd
  have hn := h.holds.newest
  have hs := h.holds.separate
  rw [hbl, pairwise_cons] at hn hs
  have holder : ∀ older ∈ blocks, older ∈ s.blocks := by
    intro older holder
    rw [hbl]
    exact mem_cons_of_mem block holder
  have hne : ∀ older ∈ blocks, older.header.blockHash prim ≠ block.header.blockHash prim := by
    intro older holder heq
    exact absurd (hn.1 older holder id id hid (heq ▸ hid)) (lt_irrefl _)
  have his : ∀ older ∈ blocks, idx.tables.idByHash.lookup (older.header.blockHash prim) =
      s.idx.tables.idByHash.lookup (older.header.blockHash prim) := by
    intro older holder
    rw [hi, lookup_erase_ne (hne older holder)]
  have ho : ∀ older ∈ blocks, ∀ tx ∈ older.transactions,
      idx.tables.txIndex.lookup (tx.txHash prim) =
        s.idx.tables.txIndex.lookup (tx.txHash prim) := by
    intro older holder tx htx
    rw [ht, lookup_eraseAll, if_neg]
    intro hm
    obtain ⟨tx', htx', heq⟩ := mem_map.1 hm
    exact hs.1 older holder tx' htx' tx htx heq
  refine ⟨⟨?_, ?_, ?_, ?_, ?_, ?_, hs.2, fun older hm => h.holds.size older
    (holder older hm)⟩, ?_, ?_⟩
  · rw [hi, hh]
    exact h.holds.inverse.erase hid
  · intro hash
    rw [hi, mem_erase, h.holds.indexed, hbl]
    simp only [mem_cons, exists_eq_or_imp]
    constructor
    · rintro ⟨hne', heq | hm⟩
      · exact absurd heq.symm hne'
      · exact hm
    · rintro ⟨older, holder, rfl⟩
      exact ⟨hne older holder, .inr ⟨older, holder, rfl⟩⟩
  · intro id' hm
    rw [hh, mem_erase] at hm
    exact h.holds.one_le id' hm.2
  · refine hn.2.imp_of_mem fun {block' older} hb' holder hlt => ?_
    rw [his block' hb', his older holder]
    exact hlt
  · intro block' hb' id' hid' tx htx
    rw [his block' hb'] at hid'
    rw [ho block' hb' tx htx]
    exact h.holds.entries block' (holder block' hb') id' hid' tx htx
  · intro txHash hm
    obtain ⟨data, hl⟩ := mem_iff.1 hm
    rw [ht, lookup_eraseAll] at hl
    split_ifs at hl with hg
    obtain ⟨older, hin, tx, htx, rfl⟩ := h.holds.only txHash (mem_of_lookup_eq_some hl)
    rw [hbl] at hin
    obtain rfl | hin := mem_cons.1 hin
    · exact absurd (mem_map_of_mem htx) hg
    · exact ⟨older, hin, tx, htx, rfl⟩
  · intro id' hm
    rw [hh, mem_erase] at hm
    obtain ⟨hash, hha⟩ := mem_iff.1 hm.2
    have hid' := (h.holds.inverse hash id').2 hha
    obtain ⟨older, hm', rfl⟩ := (h.holds.indexed hash).1 (mem_of_lookup_eq_some hid')
    rw [hbl] at hm'
    have hlt : id'.toNat < id.toNat := by
      obtain rfl | hm' := mem_cons.1 hm'
      · exact absurd (Option.some.inj (hid'.symm.trans hid)) hm.1
      · exact hn.1 older hm' id id' hid hid'
    have hle := h.below id (h.holds.mem_hashByID hid)
    rw [hc, h.toNat_curBlockID_pred hb]
    omega
  · dsimp only
    rw [hc, h.toNat_curBlockID_pred hb]
    exact (Nat.sub_le _ _).trans h.curBlockID_le

theorem Sound.exists_known_iff (hg : s.idx.tables.NoGap) :
    ∃ n, n ≤ TxIndex.maxBlockID ∧
      ∀ id : UInt32, id ∈ s.idx.tables.hashByID ↔ 1 ≤ id.toNat ∧ id.toNat ≤ n := by
  have hd : ∀ (k : Nat) (id id' : UInt32), id.toNat = id'.toNat + k → 1 ≤ id'.toNat →
      id ∈ s.idx.tables.hashByID → id' ∈ s.idx.tables.hashByID := by
    intro k
    induction k with
    | zero =>
      intro id id' heq _ hm
      rwa [← UInt32.toNat_inj.1 heq]
    | succ k ih =>
      intro id id' heq hpo hm
      obtain rfl | hp := hg id hm
      · change 1 = _ at heq
        omega
      · refine ih (id - 1) id' ?_ hpo hp
        rw [UInt32.toNat_sub_of_le id 1 (UInt32.le_iff_toNat_le.2 (show 1 ≤ id.toNat by omega))]
        change id.toNat - 1 = _
        omega
  refine ⟨s.idx.tables.hashByID.keys.sup UInt32.toNat, Finset.sup_le fun id hm =>
    (h.below id (mem_keys.1 hm)).trans h.curBlockID_le, fun id => ⟨fun hm =>
    ⟨h.holds.one_le id hm, Finset.le_sup (f := UInt32.toNat) (mem_keys.2 hm)⟩, ?_⟩⟩
  rintro ⟨hpo, hle⟩
  have hn : s.idx.tables.hashByID.keys.Nonempty := by
    by_contra he
    rw [Finset.not_nonempty_iff_eq_empty.1 he] at hle
    exact absurd (hpo.trans hle) (by decide)
  obtain ⟨top, ht, ht'⟩ := Finset.exists_mem_eq_sup _ hn UInt32.toNat
  exact hd (top.toNat - id.toNat) top id (by omega) hpo (mem_keys.1 ht)

/-- **A safe step keeps the invariant.** -/
theorem Sound.step {s' : Indexed} (hsa : s.Safe prim event)
    (hs : s.step prim event = .ok s') : s'.Sound prim := by
  cases event with
  | connect block committed =>
    rw [Indexed.step] at hs
    split at hs
    · exact ok.inj hs ▸ h
    rename_i idx hc
    cases hs
    have hso := h.connect hsa hc
    have hcu := (added_of_dbIndexConnectBlock hsa hc).curBlockID_eq
    cases committed with
    | true => exact hso
    | false =>
      -- only the ID in memory has changed, and it has grown
      refine h.setCurBlockID (fun id hm => ?_) hso.curBlockID_le
      rw [hcu, toNat_curBlockID_succ hsa]
      exact (h.below id hm).trans (Nat.le_succ _)
  | disconnect block committed =>
    rw [Indexed.step] at hs
    split at hs
    · exact ok.inj hs ▸ h
    rename_i idx hd
    cases hs
    obtain ⟨hh, hr⟩ := hsa (TxIndex.tip_of_dbIndexDisconnectBlock hd)
    obtain ⟨blocks, hb⟩ : ∃ blocks, s.blocks = block :: blocks := head?_eq_some_iff.1 hh
    have hbl : block ∈ s.blocks := hb ▸ mem_cons_self
    have hso := h.disconnect hb hd
    cases committed with
    | true =>
      rw [finish, hb]
      exact hso
    | false =>
      refine h.setCurBlockID (fun id hm => ?_) hso.curBlockID_le
      obtain ⟨id', hid'⟩ := h.holds.exists_id hbl
      rw [(TxIndex.eq_of_dbIndexDisconnectBlock hid' hd).2.2.2, h.toNat_curBlockID_pred hbl]
      have hle := h.below id hm
      have hne : id.toNat ≠ s.idx.curBlockID.toNat := by
        intro heq
        exact hr rfl (UInt32.toNat_inj.1 heq ▸ hm)
      omega
  | restart =>
    obtain ⟨n, hn, hk⟩ := h.exists_known_iff hsa
    obtain ⟨curBlockID, hi, hcu⟩ := TxIndex.init_eq hk hn
    rw [Indexed.step, hi] at hs
    cases hs
    refine h.setCurBlockID (fun id hm => ?_) (hcu.trans_le hn)
    rw [hcu]
    exact ((hk id).1 hm).2

theorem Sound.exists_step (hs : s.Safe prim event) : ∃ s', s.step prim event = .ok s' := by
  cases event with
  | connect block committed =>
    rw [Indexed.step]
    cases s.idx.dbIndexConnectBlock prim block with
    | error e => exact ⟨s, rfl⟩
    | ok idx => exact ⟨_, rfl⟩
  | disconnect block committed =>
    rw [Indexed.step]
    cases s.idx.dbIndexDisconnectBlock prim block with
    | error e => exact ⟨s, rfl⟩
    | ok idx => exact ⟨_, rfl⟩
  | restart =>
    obtain ⟨n, hn, hk⟩ := h.exists_known_iff hs
    obtain ⟨curBlockID, hi, -⟩ := TxIndex.init_eq hk hn
    rw [Indexed.step, hi]
    exact ⟨_, rfl⟩

end

end Indexed

open Runs in
/-- **The transaction index is correct** along safe steps, and every further safe step returns. -/
theorem txIndex_correct {prim : Primitives} {events : List IndexEvent} {s : Indexed}
    (hrun : Run (Indexed.step prim) (Indexed.Safe prim) Indexed.new events s) :
    s.idx.tables.Correct prim s.blocks ∧
      ∀ event, s.Safe prim event → ∃ s', s.step prim event = .ok s' := by
  have hso : s.Sound prim := hrun.invariant Indexed.sound_new fun _ _ _ h hs hst => h.step hs hst
  exact ⟨hso.holds.correct, fun _ hs => hso.exists_step hs⟩

/-- A block with one transaction. -/
def indexedBlock (prevBlock : Hash) (n : UInt32) : MsgBlock where
  header := { version := 1, prevBlock, merkleRoot := 0, timestamp := n.toNat, signature := 0
              publicKey := 0, scale := 1, reserved := 0 }
  transactions :=
    [{ version := 1
       txIn := [{ previousOutPoint := ⟨0, 0xffffffff⟩, signatureScript := [], witness := []
                  sequence := 0 }]
       txOut := []
       lockTime := n }]

theorem encodable_indexedBlock (prevBlock : Hash) (n : UInt32) :
    (indexedBlock prevBlock n).Encodable where
  timestamp_nonneg := Int.natCast_nonneg _
  timestamp_lt := Int.ofNat_lt.2 (UInt32.toNat_lt n)
  transactions_le := show 1 ≤ maxTxPerBlock by decide
  transactions_encodable := by
    intro tx htx
    obtain rfl := List.mem_singleton.1 htx
    refine ⟨cons_ne_nil _ _, show 1 ≤ maxTxInPerMessage by decide, fun txIn hti => ?_,
      Nat.zero_le _, fun txOut ht => by cases ht⟩
    obtain rfl := List.mem_singleton.1 hti
    exact ⟨Nat.zero_le _, Nat.zero_le _, fun item hi => by cases hi⟩

open Runs in
/-- A block is connected, and the node is started again. -/
theorem txIndex_correct_indexedBlock : ∃ s,
    Run (Indexed.step .polynomial) (Indexed.Safe .polynomial) Indexed.new
      [.connect (indexedBlock 0 1) true, .restart] s ∧ s.blocks = [indexedBlock 0 1] ∧
      s.idx.tables.Correct .polynomial s.blocks := by
  have hb : Indexed.new.idx.Connectable .polynomial (indexedBlock 0 1) :=
    { encodable := encodable_indexedBlock 0 1
      size := by decide +kernel
      hash_notMem := notMem_empty
      nodup := nodup_singleton _
      txHash_notMem := fun _ _ => notMem_empty
      curBlockID_lt := by decide }
  have hok : (Indexed.new.idx.dbIndexConnectBlock .polynomial (indexedBlock 0 1)).isOk = true := by
    decide +kernel
  obtain ⟨idx, hc⟩ : ∃ idx,
      Indexed.new.idx.dbIndexConnectBlock .polynomial (indexedBlock 0 1) = .ok idx := by
    cases hc : Indexed.new.idx.dbIndexConnectBlock .polynomial (indexedBlock 0 1) with
    | error e =>
      rw [hc] at hok
      cases hok
    | ok idx => exact ⟨idx, rfl⟩
  have hf : Indexed.new.step .polynomial (.connect (indexedBlock 0 1) true) =
      .ok ⟨idx, [indexedBlock 0 1]⟩ := by
    rw [Indexed.step, hc]
    rfl
  have hs : Indexed.Safe .polynomial ⟨idx, [indexedBlock 0 1]⟩ .restart := by
    intro id hm
    rw [(Indexed.added_of_dbIndexConnectBlock hb hc).hashByID_eq, mem_insert] at hm
    exact Or.inl (hm.resolve_right notMem_empty)
  have hru : Run (Indexed.step .polynomial) (Indexed.Safe .polynomial) Indexed.new
      [.connect (indexedBlock 0 1) true] ⟨idx, [indexedBlock 0 1]⟩ :=
    Run.snoc .nil hb hf
  obtain ⟨s, hr⟩ := (txIndex_correct hru).2 .restart hs
  have hru' := Run.snoc hru hs hr
  refine ⟨s, hru', ?_, (txIndex_correct hru').1⟩
  rw [Indexed.step] at hr
  split at hr
  · cases hr
  · rename_i curBlockID hi
    cases hr
    rfl

/-- A chain of four blocks. -/
def indexedChain : MsgBlock × MsgBlock × MsgBlock × MsgBlock :=
  let hash := BlockHeader.blockHash .polynomial
  let a := indexedBlock 0 1
  let b := indexedBlock (hash a.header) 2
  let c := indexedBlock (hash b.header) 3
  (a, b, c, indexedBlock (hash c.header) 4)

open Runs in
/-- **Two blocks with one ID**, after a rollback and a restart. -/
theorem txIndex_ids_shared : ∃ s, Run (Indexed.step .polynomial) (fun _ _ => True) Indexed.new
    [.connect indexedChain.1 true, .connect indexedChain.2.1 false,
      .connect indexedChain.2.1 true, .restart, .connect indexedChain.2.2.1 true,
      .connect indexedChain.2.2.2 true] s ∧ ¬ s.idx.tables.Correct .polynomial s.blocks := by
  refine exists_run_of (P := fun s =>
      s.blocks = [indexedChain.2.2.2, indexedChain.2.2.1, indexedChain.2.1, indexedChain.1] ∧
      s.idx.tables.idByHash.lookup (indexedChain.2.1.header.blockHash .polynomial) = some 3 ∧
      s.idx.tables.idByHash.lookup (indexedChain.2.2.2.header.blockHash .polynomial) = some 3)
    (by decide +kernel) ?_
  rintro s - ⟨hb, hs, hf⟩ hc
  rw [hb] at hc
  have heq := hc.distinct _ (.tail _ (.tail _ (.head _))) _ (.head _) 3 hs hf
  exact absurd heq (by decide +kernel)

end DrcNode
