import Mathlib.Data.Finmap

/-!
# Messages and blocks of the wire protocol

The data types that the chain, the vote and the synchronisation code share, under the names of
the package `wire`. A node exchanges candidate blocks, votes for them and, while it catches up,
blocks of earlier rounds; every one of these carries a `BlockHeader` or the hash of one.

* Fixed-size byte strings are bit vectors read big-endian, so that the weight
  `new(big.Int).SetBytes(h)` of a hash `h` is `BitVec.toNat h`, and scripts are lists of bytes.
* `ByHash ν` is the Go map with hashes as keys: a finite map without an order. A function of the
  source that ranges over a map takes the order in which it meets the entries as an argument.
-/

namespace DrcNode

open Finmap

/-- A 32-byte hash. -/
abbrev Hash := BitVec 256

/-- A 64-byte string, the signature in a header or in a vote. -/
abbrev Hash64 := BitVec 512

/-- A 33-byte string, a compressed public key. -/
abbrev Hash33 := BitVec 264

/-- The Go map `map[chainhash.Hash]ν`. -/
abbrev ByHash (ν : Type) := Finmap fun _ : Hash => ν

/-- The entries of a map in the order a `range` loop meets them. -/
abbrev Order (ν : Type) := List (Sigma fun _ : Hash => ν)

/-- `order` is one of the orders in which a `range` loop may visit the map `m`. -/
def Visits {ν : Type} (order : Order ν) (m : ByHash ν) : Prop := m.entries = ↑order

instance {ν : Type} [DecidableEq ν] (order : Order ν) (m : ByHash ν) : Decidable (Visits order m) :=
  inferInstanceAs (Decidable (m.entries = ↑order))

namespace Visits

variable {ν : Type} {m : ByHash ν} {order order' : Order ν} {h : Hash} {v : ν}

theorem mem_iff (hv : Visits order m) : ⟨h, v⟩ ∈ order ↔ m.lookup h = some v := by
  rw [← Multiset.mem_coe, ← show m.entries = ↑order from hv, lookup_eq_some_iff]

theorem perm (hv : Visits order m) (hv' : Visits order' m) : order.Perm order' :=
  Multiset.coe_eq_coe.1 ((show m.entries = ↑order from hv).symm.trans hv')

theorem of_perm (hv : Visits order m) (hp : order'.Perm order) : Visits order' m :=
  (show m.entries = ↑order from hv).trans (Multiset.coe_eq_coe.2 hp.symm)

end Visits

theorem exists_visits {ν : Type} (m : ByHash ν) : ∃ order, Visits order m :=
  (Quot.exists_rep m.entries).imp fun _ h => h.symm

theorem lookup_insert_cases {κ ν : Type} [DecidableEq κ] {m : Finmap fun _ : κ => ν} {key key' : κ}
    {v v' : ν} (h : (m.insert key v).lookup key' = some v') :
    key' = key ∧ v' = v ∨ key' ≠ key ∧ m.lookup key' = some v' := by
  by_cases hk : key' = key
  · subst hk
    exact .inl ⟨rfl, (Option.some.inj ((lookup_insert m).symm.trans h)).symm⟩
  · exact .inr ⟨hk, (lookup_insert_of_ne m hk).symm.trans h⟩

theorem lookup_singleton_cases {κ ν : Type} [DecidableEq κ] {key key' : κ} {v v' : ν}
    (h : (Finmap.singleton key v : Finmap fun _ : κ => ν).lookup key' = some v') :
    key' = key ∧ v' = v := by
  obtain rfl := (mem_singleton _ _ _).1 (mem_of_lookup_eq_some h)
  exact ⟨rfl, (Option.some.inj (lookup_singleton_eq.symm.trans h)).symm⟩

theorem lookup_erase_cases {κ ν : Type} [DecidableEq κ] {m : Finmap fun _ : κ => ν} {key key' : κ}
    {v : ν} (h : (m.erase key).lookup key' = some v) : key' ≠ key ∧ m.lookup key' = some v := by
  have hne : key' ≠ key := by
    rintro rfl
    rw [lookup_erase] at h
    cases h
  exact ⟨hne, (lookup_erase_ne hne).symm.trans h⟩

/-! ### Transactions -/

/-- `wire.OutPoint`: output `index` of the transaction `hash`. -/
structure OutPoint where
  hash : Hash
  index : UInt32
  deriving DecidableEq, Repr

structure TxIn where
  previousOutPoint : OutPoint
  signatureScript : List UInt8
  witness : List (List UInt8)
  sequence : UInt32
  deriving DecidableEq, Repr

structure TxOut where
  value : Int64
  pkScript : List UInt8
  deriving DecidableEq, Repr

structure MsgTx where
  version : Int32
  txIn : List TxIn
  txOut : List TxOut
  lockTime : UInt32
  deriving DecidableEq, Repr

/-! ### Headers, blocks and candidates -/

/-- `wire.BlockHeader`. The time is the number of whole seconds since the epoch. -/
structure BlockHeader where
  version : Int32
  prevBlock : Hash
  merkleRoot : Hash
  timestamp : Int
  signature : Hash64
  publicKey : Hash33
  scale : UInt16
  reserved : UInt16
  deriving DecidableEq, Repr

structure MsgBlock where
  header : BlockHeader
  transactions : List MsgTx
  deriving DecidableEq, Repr

structure MsgSigwit where
  height : Int32
  deriving DecidableEq, Repr

/-- `wire.MsgCandidate`: a block together with the height its producer claims for it. -/
structure MsgCandidate where
  header : BlockHeader
  transactions : List MsgTx
  sigwit : MsgSigwit
  deriving DecidableEq, Repr

/-- `wire.MsgSign`: a vote for the candidate with header hash `blockHeaderHash`. -/
structure MsgSign where
  blockHeaderHash : Hash
  signature : Hash64
  publicKey : Hash33
  deriving DecidableEq, Repr

/-- `wire.MsgSyncBlock`: a block of an earlier round, sent to a node that catches up. -/
structure MsgSyncBlock where
  typeParameter : Int8
  msgCandidate : MsgCandidate
  deriving DecidableEq, Repr

/-- `drcutil.Block`: a message block with the height and the number of votes set on it. -/
structure Block where
  msgBlock : MsgBlock
  height : Int := -1
  votes : UInt16 := 0
  deriving DecidableEq, Repr

def msgCandidateToBlock (msgCandidate : MsgCandidate) : MsgBlock where
  header := msgCandidate.header
  transactions := msgCandidate.transactions

end DrcNode
