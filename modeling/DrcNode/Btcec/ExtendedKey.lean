import DrcNode.Btcec.Signature
import Mathlib.Data.ZMod.Basic

/-!
# Extended keys

A key of a hierarchical wallet has children, which are derived from its public key and a chain code.
A private key derives private children, by addition modulo the order of the curve, and a public key
public ones, by addition of points. Multiplication of the base point is a homomorphism.

## Main results

* `neuter_child`: the public key of a child is the child of the public key.

Source: `drcutil/hdkeychain/extendedkey.go`. The group of the curve, the hashes, the known versions
and the encoding of texts are parameters.
-/

namespace DrcNode.HDKeychain

open Btcec List

/-- What the keys take from elsewhere. Only the point at infinity has a coordinate that is zero. -/
structure HDEnv (G : Type) [AddCommGroup G] where
  base : G
  nsmul_base_eq_zero_iff : ∀ n : Nat, n • base = 0 ↔ order ∣ n
  serializeCompressed : G → List UInt8
  parsePubKey : List UInt8 → Option G
  parsePubKey_serializeCompressed : ∀ {p}, p ≠ 0 → parsePubKey (serializeCompressed p) = some p
  hmac512 : List UInt8 → List UInt8 → List UInt8
  hash160 : List UInt8 → List UInt8
  doubleHash : List UInt8 → List UInt8
  hdPrivateKeyToPublicKeyID : List UInt8 → Option (List UInt8)
  base58Encode : List UInt8 → String

structure ExtendedKey where
  key : List UInt8
  pubKey : List UInt8 := []
  chainCode : List UInt8
  depth : UInt8
  parentFP : List UInt8
  childNum : UInt32
  version : List UInt8
  isPrivate : Bool

/-- The errors of `Child` and `Neuter`. -/
inductive KeyError
  | deriveBeyondMaxDepth
  | deriveHardFromPublic
  | invalidChild
  | pubKey
  | unknownHDKeyID

def hardenedKeyStart : UInt32 := 0x80000000

namespace ExtendedKey

section

variable {G : Type} [AddCommGroup G] (env : HDEnv G) (k : ExtendedKey)

def scalarBaseMult (bytes : List UInt8) : G := setBytes bytes • env.base

/-- `pubKeyBytes`. For a private key it also sets `pubKey` to what it returns. -/
def pubKeyBytes : List UInt8 :=
  if ¬k.isPrivate then k.key
  else if k.pubKey.length = 0 then env.serializeCompressed (scalarBaseMult env k.key)
  else k.pubKey

/-- The data that `Child` hashes: 33 bytes, into which the key is copied, and the index. -/
def childData (i : UInt32) : List UInt8 :=
  let source := if hardenedKeyStart ≤ i then 0 :: k.key else pubKeyBytes env k
  (source ++ replicate 33 0).take 33 ++ beBytes 4 i.toNat

def neuter : Except KeyError ExtendedKey :=
  if ¬k.isPrivate then .ok k
  else
    match env.hdPrivateKeyToPublicKeyID k.version with
    | none => .error .unknownHDKeyID
    | some version =>
        .ok { k with version, key := pubKeyBytes env k, pubKey := [], isPrivate := false }

/-- `String`. -/
def string : String :=
  if k.key.length = 0 then "zeroed extended key"
  else
    let serializedBytes := k.version ++ [k.depth] ++ k.parentFP ++ beBytes 4 k.childNum.toNat ++
      k.chainCode ++
      if k.isPrivate then 0 :: (replicate (32 - k.key.length) 0 ++ k.key) else pubKeyBytes env k
    env.base58Encode (serializedBytes ++ (env.doubleHash serializedBytes).take 4)

/-- A public key that `pubKeyBytes` may have kept. -/
def Kept (pubKey : List UInt8) : Prop :=
  pubKey = [] ∨ pubKey = env.serializeCompressed (scalarBaseMult env k.key)

variable {env k}

theorem pubKeyBytes_of_kept (hp : k.isPrivate) (h : Kept env k k.pubKey) :
    pubKeyBytes env k = env.serializeCompressed (scalarBaseMult env k.key) := by
  rw [pubKeyBytes]
  split_ifs with hl
  · rfl
  · exact h.resolve_left fun he => hl (he ▸ rfl)

theorem scalarBaseMult_ne_zero {bytes : List UInt8}
    (h : ¬(order ≤ setBytes bytes ∨ setBytes bytes = 0)) : scalarBaseMult env bytes ≠ 0 := by
  rw [not_or, not_le] at h
  exact fun hz => h.1.not_ge
    (Nat.le_of_dvd (Nat.pos_of_ne_zero h.2) ((env.nsmul_base_eq_zero_iff _).1 hz))

end

variable {G : Type} [AddCommGroup G] [DecidableEq G] (env : HDEnv G) (k : ExtendedKey)

/-- The key of a child, from the left half of the hash. -/
def childKey (il : List UInt8) : Except KeyError (List UInt8) :=
  if k.isPrivate then .ok (bytesOf ((setBytes il + setBytes k.key) % order))
  else if scalarBaseMult env il = 0 then .error .invalidChild
  else
    match env.parsePubKey k.key with
    | none => .error .pubKey
    | some pubKey => .ok (env.serializeCompressed (scalarBaseMult env il + pubKey))

def child (i : UInt32) : Except KeyError ExtendedKey :=
  if k.depth = 255 then .error .deriveBeyondMaxDepth
  else if ¬k.isPrivate ∧ hardenedKeyStart ≤ i then .error .deriveHardFromPublic
  else
    let ilr := env.hmac512 k.chainCode (childData env k i)
    let il := ilr.take (ilr.length / 2)
    if order ≤ setBytes il ∨ setBytes il = 0 then .error .invalidChild
    else
      (childKey env k il).map fun key =>
        { key, chainCode := ilr.drop (ilr.length / 2)
          parentFP := (env.hash160 (pubKeyBytes env k)).take 4
          version := k.version, depth := k.depth + 1, childNum := i, isPrivate := k.isPrivate }

variable {env k}

/-- **The public key of a private child** is the child of the public key. -/
theorem childKey_public {n : ExtendedKey} {il : List UInt8} (hn : n.isPrivate = false)
    (hkey : n.key = env.serializeCompressed (scalarBaseMult env k.key))
    (hk : ¬(order ≤ setBytes k.key ∨ setBytes k.key = 0))
    (hil : ¬(order ≤ setBytes il ∨ setBytes il = 0)) :
    childKey env n il = .ok (env.serializeCompressed
      (scalarBaseMult env (bytesOf ((setBytes il + setBytes k.key) % order)))) := by
  rw [childKey, hn, if_neg Bool.false_ne_true, hkey, if_neg (scalarBaseMult_ne_zero hil),
    env.parsePubKey_serializeCompressed (scalarBaseMult_ne_zero hk)]
  simp only [scalarBaseMult]
  have hn : order • env.base = 0 := (env.nsmul_base_eq_zero_iff order).2 dvd_rfl
  rw [setBytes_bytesOf, ← nsmul_eq_mod_nsmul _ hn, add_nsmul]

/-- **Public and private derivation commute.** -/
theorem neuter_child {pubKey : List UInt8} {i : UInt32} {c : ExtendedKey} (hp : k.isPrivate)
    (hpos : 0 < setBytes k.key) (hlt : setBytes k.key < order) (h : Kept env k k.pubKey)
    (h' : Kept env k pubKey) (hi : ¬hardenedKeyStart ≤ i) (hc : child env k i = .ok c) :
    (neuter env c).map (string env) =
      (neuter env { k with pubKey } >>= fun n => child env n i).map (string env) := by
  rw [child] at hc
  dsimp only at hc
  split_ifs at hc with hd hh hil
  rw [childKey, if_pos hp] at hc
  cases hc
  rw [neuter, neuter, if_neg (not_not.2 hp), if_neg (not_not.2 hp)]
  cases hv : env.hdPrivateKeyToPublicKeyID k.version with
  | none => rfl
  | some version =>
    rw [@pubKeyBytes_of_kept _ _ env { k with pubKey } hp h',
      pubKeyBytes_of_kept (by exact hp) (.inl rfl)]
    let n : ExtendedKey := { k with
      version, key := env.serializeCompressed (scalarBaseMult env k.key), pubKey := []
      isPrivate := false }
    have hn : pubKeyBytes env n = pubKeyBytes env k := (pubKeyBytes_of_kept hp h).symm
    -- the child of the public key hashes the same data
    have hdata : childData env n i = childData env k i := by
      rw [childData, childData, if_neg hi, if_neg hi, hn]
    refine congrArg (Except.map (string env)) (Eq.symm ?_)
    change child env n i = _
    rw [child, if_neg hd, if_neg fun hh => hi hh.2]
    rw [hdata, hn, if_neg hil, childKey_public rfl rfl (not_or.2 ⟨hlt.not_ge, hpos.ne'⟩) hil]
    rfl

/-- The group is that of the numbers modulo the order. -/
def sampleHDEnv : HDEnv (ZMod order) where
  base := 1
  nsmul_base_eq_zero_iff n := by rw [nsmul_one, ZMod.natCast_eq_zero_iff]
  serializeCompressed p := beBytes 32 p.val
  parsePubKey bytes := some (setBytes bytes : Nat)
  parsePubKey_serializeCompressed {p} _ := by
    have : NeZero order := ⟨by decide⟩
    rw [setBytes_beBytes (lt_of_lt_order p.val_lt), ZMod.natCast_zmod_val]
  hmac512 _ _ := [1, 2]
  hash160 bytes := bytes
  doubleHash bytes := bytes
  hdPrivateKeyToPublicKeyID := some
  base58Encode bytes := toString (bytes.map UInt8.toNat)

/-- The key whose number is one. -/
def sampleKey : ExtendedKey := ⟨beBytes 32 1, [], [], 0, [], 0, [], true⟩

theorem neuter_child_sampleKey : ∃ c, child sampleHDEnv sampleKey 0 = .ok c ∧
      (neuter sampleHDEnv c).map (string sampleHDEnv) =
        (neuter sampleHDEnv sampleKey >>= fun n => child sampleHDEnv n 0).map
          (string sampleHDEnv) :=
  ⟨_, rfl, neuter_child (k := sampleKey) (i := 0) rfl (by decide) (by decide) (.inl rfl) (.inl rfl)
    (by decide) rfl⟩

end ExtendedKey

end DrcNode.HDKeychain
