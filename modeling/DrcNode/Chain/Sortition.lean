import DrcNode.Chain.Sanity

/-!
# The lottery of the producers

The weight of a candidate is the hash of its signature over the seed of the round. The lottery is
fair when a key has one signature for a seed. But the check of a header does not ask that `S` is at
most half the order of the curve: with `(R, S)` also `(R, N - S)` verifies, and it has another
weight. Anybody who relays a header can make this change.

## Main results

* `signatureUnique_iff`.

Source: `checkBlockHeaderSanity` in `blockchain/validate.go`; `GetSignature` and `generate32Bytes`
in `btcec/signature.go`.
-/

namespace DrcNode

open Primitives

/-- The order of the curve, `secp256k1.N`. -/
def curveOrder : Nat := 0xFFFFFFFFFFFFFFFFFFFFFFFFFFFFFFFEBAAEDCE6AF48A03BBFD25E8CD0364141

/-- A signature verifies exactly when the one with `N - S` does. -/
def Primitives.MirrorVerifies (prim : Primitives) : Prop :=
  ∀ R S hash pubKey, S ≤ curveOrder →
    prim.verify ⟨R, S⟩ hash pubKey = prim.verify ⟨R, curveOrder - S⟩ hash pubKey

/-! ### The bytes of a signature -/

/-- The bytes of a signature, as `sign` joins them. -/
def genSign (signature : Signature) : Hash64 :=
  BitVec.ofNat 512 (signature.R * 2 ^ 256 + signature.S)

theorem R_getSignature_lt (sign : Hash64) : (getSignature sign).R < 2 ^ 256 := by
  dsimp only [getSignature]
  omega

theorem toNat_ofNat_of_lt_of_le {v w n : Nat} (h : n < 2 ^ v) (hle : v ≤ w) :
    (BitVec.ofNat w n).toNat = n := by
  have hlt : n < 2 ^ w := h.trans_le (Nat.pow_le_pow_right Nat.two_pos hle)
  rw [BitVec.toNat_ofNat, Nat.mod_eq_of_lt hlt]

theorem getSignature_genSign {R S : Nat} (hR : R < 2 ^ 256) (hS : S < 2 ^ 256) :
    getSignature (genSign ⟨R, S⟩) = ⟨R, S⟩ := by
  have hlt : R * 2 ^ 256 + S < 2 ^ 512 := by omega
  rw [getSignature, genSign, toNat_ofNat_of_lt_of_le hlt le_rfl, Signature.mk.injEq]
  omega

/-- The bytes of the signature with `N - S`. -/
def mirror (sign : Hash64) : Hash64 :=
  genSign ⟨(getSignature sign).R, curveOrder - (getSignature sign).S⟩

theorem getSignature_mirror (sign : Hash64) :
    getSignature (mirror sign) = ⟨(getSignature sign).R, curveOrder - (getSignature sign).S⟩ :=
  getSignature_genSign (R_getSignature_lt sign) ((Nat.sub_le _ _).trans_lt (by decide))

theorem mirror_ne {sign : Hash64} (h : (getSignature sign).S ≤ curveOrder) :
    mirror sign ≠ sign := by
  intro heq
  have hS : (getSignature (mirror sign)).S = (getSignature sign).S := by rw [heq]
  rw [getSignature_mirror] at hS
  have ho : curveOrder % 2 = 1 := by decide
  dsimp only at hS
  omega

theorem verify_mirror {prim : Primitives} (hm : prim.MirrorVerifies) {sign : Hash64}
    {seed : Hash} {pubKey : PublicKey} (h : (getSignature sign).S ≤ curveOrder) :
    prim.verify (getSignature (mirror sign)) seed pubKey =
      prim.verify (getSignature sign) seed pubKey := by
  rw [getSignature_mirror]
  exact (hm _ _ seed pubKey h).symm

/-! ### How many signatures pass -/

section Unique

variable {prim : Primitives} {seed : Hash} {publicKey : Hash33}

/-- For the seed and the key, at most one signature passes the checks of a header. -/
def SignatureUnique (prim : Primitives) (seed : Hash) (publicKey : Hash33) : Prop :=
  ∀ (current current' : CandidatePool) (pi : Nat) (header header' : BlockHeader) (vb vb' : Bool),
    header.publicKey = publicKey → header'.publicKey = publicKey →
    checkBlockHeaderSanity prim current header seed pi = .ok vb →
    checkBlockHeaderSanity prim current' header' seed pi = .ok vb' →
    header.signature = header'.signature

/-- With the largest threshold, the checks are those of the key and of the signature. -/
theorem signatureUnique_iff_verify : SignatureUnique prim seed publicKey ↔
    ∀ pubKey, prim.parsePubKey publicKey = some pubKey → ∀ sign sign',
      prim.verify (getSignature sign) seed pubKey = true →
      prim.verify (getSignature sign') seed pubKey = true → sign = sign' := by
  constructor
  · intro hu pubKey hk sign sign' hv hv'
    let header (signature : Hash64) : BlockHeader :=
      { version := 0, prevBlock := 0, merkleRoot := 0, timestamp := 0, signature, publicKey,
        scale := 0, reserved := 0 }
    exact hu ∅ ∅ (2 ^ 256) (header sign) (header sign') _ _ rfl rfl
      (checkBlockHeaderSanity_eq_ok_iff.2 ⟨⟨pubKey, hk, hv⟩, prim.weight_lt sign, rfl⟩)
      (checkBlockHeaderSanity_eq_ok_iff.2 ⟨⟨pubKey, hk, hv'⟩, prim.weight_lt sign', rfl⟩)
  · intro hu current current' pi header header' vb vb' rfl hk' hok hok'
    obtain ⟨⟨pubKey, hk, hv⟩, -⟩ := checkBlockHeaderSanity_eq_ok_iff.1 hok
    obtain ⟨⟨pubKey', hp, hv'⟩, -⟩ := checkBlockHeaderSanity_eq_ok_iff.1 hok'
    rw [hk', hk, Option.some.injEq] at hp
    subst hp
    exact hu pubKey hk _ _ hv hv'

/-- **Where a key has one signature**: it does not parse, or no `S` up to the order verifies and at
most one larger `S` does. -/
theorem signatureUnique_iff (hmirror : prim.MirrorVerifies) (seed : Hash) (publicKey : Hash33) :
    SignatureUnique prim seed publicKey ↔ ∀ pubKey, prim.parsePubKey publicKey = some pubKey →
        (∀ sign, (getSignature sign).S ≤ curveOrder →
          prim.verify (getSignature sign) seed pubKey = false) ∧
        ∀ sign sign', curveOrder < (getSignature sign).S → curveOrder < (getSignature sign').S →
          prim.verify (getSignature sign) seed pubKey = true →
          prim.verify (getSignature sign') seed pubKey = true → sign = sign' := by
  rw [signatureUnique_iff_verify]
  refine forall₂_congr fun pubKey _ => ⟨fun hu => ⟨fun sign hS => ?_, ?_⟩, ?_⟩
  · by_contra hv
    rw [Bool.not_eq_false] at hv
    exact mirror_ne hS (hu _ _ ((verify_mirror hmirror hS).trans hv) hv)
  · exact fun sign sign' _ _ => hu sign sign'
  · rintro ⟨hn, hl⟩ sign sign' hv hv'
    have hS : ∀ sign, prim.verify (getSignature sign) seed pubKey = true →
        curveOrder < (getSignature sign).S := by
      intro sign hv
      by_contra hle
      exact Bool.false_ne_true ((hn sign (not_lt.1 hle)).symm.trans hv)
    exact hl sign sign' (hS sign hv) (hS sign' hv') hv hv'

/-- A producer whose signature has an `S` up to the order of the curve has a second one. -/
theorem not_signatureUnique_sign64 (hs : prim.SignVerifies) (hm : prim.MirrorVerifies)
    (key : PrivateKey) (rand : BitVec 256)
    (hS : (getSignature (prim.sign64 key rand seed)).S ≤ curveOrder) :
    ¬SignatureUnique prim seed (prim.pubKey key) := by
  intro hu
  obtain ⟨pubKey, hk, hv⟩ := hs key rand seed
  exact mirror_ne hS (signatureUnique_iff_verify.1 hu pubKey hk _ _
    ((verify_mirror hm hS).trans hv) hv)

end Unique

/-! ### A key with two signatures -/

/-- Primitives under which every key has two signatures for a seed. -/
def Primitives.mirrored : Primitives :=
  { polynomial with
    verify := fun signature _ pubKey =>
      decide (signature.R = pubKey.X ∧ (signature.S = 1 ∨ signature.S = curveOrder - 1))
    pubKey := fun key => BitVec.ofNat 264 (key % 2 ^ 256)
    sign64 := fun key _ _ => genSign ⟨key % 2 ^ 256, 1⟩ }

theorem Primitives.mirrored_signVerifies : mirrored.SignVerifies := by
  intro key rand hash
  refine ⟨_, rfl, ?_⟩
  have hk : key % 2 ^ 256 < 2 ^ 256 := Nat.mod_lt _ (by decide)
  have hr : getSignature (mirrored.sign64 key rand hash) = ⟨key % 2 ^ 256, 1⟩ :=
    getSignature_genSign hk (by decide)
  rw [hr]
  refine decide_eq_true ⟨?_, .inl rfl⟩
  have hX : (BitVec.ofNat 264 (key % 2 ^ 256)).toNat = key % 2 ^ 256 :=
    toNat_ofNat_of_lt_of_le hk (by decide)
  exact hX.symm

theorem Primitives.mirrored_mirrorVerifies : mirrored.MirrorVerifies := by
  intro R S hash pubKey hS
  refine decide_eq_decide.2 (and_congr_right fun _ => ?_)
  dsimp only
  omega

/-- A header of the node with the key seven, with the given signature. -/
def lotteryHeader (signature : Hash64) : BlockHeader where
  version := 1
  prevBlock := 0
  merkleRoot := 0
  timestamp := 0
  signature
  publicKey := mirrored.pubKey 7
  scale := 1
  reserved := 0

/-- The signature of the key seven. -/
def lotterySign : Hash64 := mirrored.sign64 7 0 5

/-- The signature of the producer and its mirror image pass, with different weights. -/
theorem two_signatures_pass :
    mirrored.SignVerifies ∧ mirrored.MirrorVerifies ∧
    checkBlockHeaderSanity mirrored ∅ (lotteryHeader lotterySign) 5 (2 ^ 256) =
      .ok true ∧
    checkBlockHeaderSanity mirrored ∅ (lotteryHeader (mirror lotterySign)) 5 (2 ^ 256) =
      .ok true ∧
    lotterySign ≠ mirror lotterySign ∧
    mirrored.weight lotterySign ≠ mirrored.weight (mirror lotterySign) ∧
    ¬SignatureUnique mirrored 5 (mirrored.pubKey 7) :=
  ⟨mirrored_signVerifies, mirrored_mirrorVerifies, by decide +kernel,
    by decide +kernel, by decide +kernel, by decide +kernel,
    not_signatureUnique_sign64 mirrored_signVerifies mirrored_mirrorVerifies
      7 0 (by decide +kernel)⟩

/-- Nothing verifies under a key that is larger than any `R`. -/
theorem signatureUnique_large : mirrored.MirrorVerifies ∧
    SignatureUnique mirrored 5 (BitVec.ofNat 264 (2 ^ 256)) := by
  refine ⟨mirrored_mirrorVerifies,
    (signatureUnique_iff mirrored_mirrorVerifies 5 _).2 fun pubKey hk => ?_⟩
  have hX : pubKey.X = 2 ^ 256 := by
    cases hk
    decide +kernel
  have hf : ∀ sign, mirrored.verify (getSignature sign) 5 pubKey = false := by
    intro sign
    refine decide_eq_false fun hR => ?_
    exact absurd (hR.1.trans hX) (R_getSignature_lt sign).ne
  refine ⟨fun sign _ => hf sign, fun sign _ _ _ hv => ?_⟩
  exact absurd ((hf sign).symm.trans hv) Bool.false_ne_true

end DrcNode
