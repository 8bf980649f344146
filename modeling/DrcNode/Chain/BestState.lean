import DrcNode.Chain.Restart

/-!
# The row of the best chain

The best chain is stored in a row of fixed length: hash, height, number of transactions, scale,
reserved field, votes, signature and public key of the tip. The row has room for all 33 bytes of the
public key, but `serializeBestChainState` copies only as many as a hash has.

## Main results

* `bestChainState_roundTrip_iff`: the last byte is read as zero, and all else as it was.

Source: `serializeBestChainState` and `deserializeBestChainState` in `blockchain/chainio.go`.
-/

namespace DrcNode

open List

open Reader

/-- The length of the row. -/
def bestChainStateLen : Nat := 32 + 4 + 8 + 2 + 2 + 2 + 64 + 33

theorem takes_readUint (n : Nat) : Takes (readUint n) n :=
  (Takes.exactly n).bind fun _ => Takes.pure _

theorem takes_readHash (n : Nat) : Takes (readHash n) n :=
  (Takes.exactly n).bind fun _ => Takes.pure _

theorem takes_readBestChainState : Takes readBestChainState bestChainStateLen :=
  (takes_readHash 32).bind fun _ => (takes_readUint 4).bind fun _ =>
    (takes_readUint 8).bind fun _ => (takes_readUint 2).bind fun _ =>
    (takes_readUint 2).bind fun _ => (takes_readUint 2).bind fun _ =>
    (takes_readHash 64).bind fun _ => (takes_readHash 33).bind fun _ => .pure _

theorem toNat_storedKey (pubKey : Hash33) :
    (storedKey pubKey).toNat = 256 * (pubKey.toNat / 256) := by
  have hlt : pubKey.toNat / 256 < 256 ^ 32 := by
    omega
  have hb : (pubKey.bytes.take 32 ++ [0]).reverse = 0 :: leBytes 32 (pubKey.toNat / 256) := by
    rw [Hash33.bytes, beBytes, leBytes, reverse_cons, take_left', reverse_append, reverse_reverse]
    · rfl
    · rw [length_reverse, length_leBytes]
  rw [storedKey, hb, ofLeBytes, ofLeBytes_leBytes, Nat.mod_eq_of_lt hlt, BitVec.toNat_ofNat]
  rw [UInt8.toNat_zero, Nat.zero_add]
  exact Nat.mod_eq_of_lt ((Nat.mul_div_le _ _).trans_lt pubKey.isLt)

theorem getLast?_bytes (pubKey : Hash33) :
    pubKey.bytes.getLast? = some (UInt8.ofNat pubKey.toNat) := by
  rfl

/-- **Which public keys are stored**: those that end in a zero byte. -/
theorem storedKey_eq_iff {pubKey : Hash33} :
    storedKey pubKey = pubKey ↔ pubKey.bytes.getLast? = some 0 := by
  rw [getLast?_bytes, Option.some.injEq, ← BitVec.toNat_inj, toNat_storedKey, ← UInt8.toNat_inj,
    UInt8.toNat_ofNat']
  change _ ↔ pubKey.toNat % 256 = 0
  omega

/-- `deserializeBestChainState`, on the bytes of a row. -/
def deserializeBestChainState (serializedData : List UInt8) : Option BestChainState :=
  (readBestChainState.run serializedData).map Prod.fst

theorem deserialize_serializeBestChainState (state : BestChainState) :
    deserializeBestChainState (serializeBestChainState state) =
      some { state with pubKey := storedKey state.pubKey } := by
  have hr := reads_serializeBestChainState state []
  rw [append_nil] at hr
  rw [deserializeBestChainState, hr]
  rfl

/-- **Which states are read back**: those whose public key ends in a zero byte. A row that is too
short is rejected. -/
theorem bestChainState_roundTrip_iff (state : BestChainState) :
    (deserializeBestChainState (serializeBestChainState state) = some state ↔
      state.pubKey.bytes.getLast? = some 0) ∧
    ∀ serializedData : List UInt8, serializedData.length < bestChainStateLen →
      deserializeBestChainState serializedData = none := by
  constructor
  · rw [deserialize_serializeBestChainState, ← storedKey_eq_iff]
    cases state with
    | mk => simp [BestChainState.mk.injEq]
  · intro serializedData hlt
    rw [deserializeBestChainState, takes_readBestChainState.run_eq_none hlt]
    rfl

theorem bestChainState_roundTrip_zero : let state : BestChainState :=
      { hash := 0, height := 0, totalTxns := 1, scale := 1, reserved := 0, votes := 1
        signature := 0, pubKey := 0 }
    deserializeBestChainState (serializeBestChainState state) = some state ∧
      deserializeBestChainState [] = none := by
  intro state
  obtain ⟨hi, hs⟩ := bestChainState_roundTrip_iff state
  exact ⟨hi.2 (by rw [getLast?_bytes]; rfl), hs [] (by decide)⟩

/-- A state whose public key ends in one is read back with another key. -/
theorem bestChainState_not_roundTrip : let state : BestChainState :=
      { hash := 0, height := 0, totalTxns := 1, scale := 1, reserved := 0, votes := 1
        signature := 0, pubKey := 1 }
    deserializeBestChainState (serializeBestChainState state) =
      some { state with pubKey := 0 } := by
  have hk : storedKey 1 = 0 := by
    refine BitVec.eq_of_toNat_eq ((toNat_storedKey 1).trans ?_)
    simp
  intro state
  rw [deserialize_serializeBestChainState, hk]

end DrcNode
