import DrcNode.Btcec.PubKey
import DrcNode.Script.Signature

/-!
# Signatures as bytes

The round messages carry a signature as 64 bytes, 32 for each of its two numbers, and scripts carry
it in DER. Both forms start from `(*big.Int).Bytes`, which has no leading zeros. `sign` pads the two
numbers, and `GenSignBytes` does not, so that a number below `2 ^ 248` moves the boundary that
`GetSignature` cuts at. In DER a number has its own length, and is padded only where its first bit
would be read as a sign.

## Main results

* `signature_bytes_readable_iff`: the 64 bytes.
* `der_signature_unique`: DER.

Source: `btcec/signature.go`. `parseSig` is in `DrcNode.Script.Signature`.
-/

namespace DrcNode

open List Nat

namespace Btcec

/-- `S256().N`. -/
def order : Nat := 0xFFFFFFFFFFFFFFFFFFFFFFFFFFFFFFFEBAAEDCE6AF48A03BBFD25E8CD0364141

/-- The number of bytes of a number without leading zeros. -/
def byteLen (val : Nat) : Nat := if val = 0 then 0 else val.log2 / 8 + 1

/-- `(*big.Int).Bytes`. -/
def bytesOf (val : Nat) : List UInt8 := beBytes (byteLen val) val

/-! ### Numbers without leading zeros -/

variable {val n : Nat} {bytes : List UInt8}

theorem setBytes_lt (bytes : List UInt8) : setBytes bytes < 256 ^ bytes.length := by
  simpa [setBytes] using ofLeBytes_lt bytes.reverse

theorem byteLen_le_iff : byteLen val ≤ n ↔ val < 256 ^ n := by
  rw [byteLen, show (256 : Nat) = 2 ^ 8 from rfl, ← pow_mul]
  split_ifs with h
  · simp [h]
  · rw [← log2_lt h]
    omega

@[simp] theorem length_bytesOf : (bytesOf val).length = byteLen val := length_beBytes _ _

theorem setBytes_bytesOf (val : Nat) : setBytes (bytesOf val) = val :=
  setBytes_beBytes (byteLen_le_iff.1 le_rfl)

theorem setBytes_cons (b : UInt8) (bytes : List UInt8) :
    setBytes (b :: bytes) = setBytes bytes + 256 ^ bytes.length * b.toNat := by
  simpa [setBytes] using ofLeBytes_concat bytes.reverse b

@[simp] theorem setBytes_zero_cons : setBytes (0 :: bytes) = setBytes bytes := by
  simp [setBytes_cons]

theorem bytesOf_setBytes {b : UInt8} (hb : b ≠ 0) :
    bytesOf (setBytes (b :: bytes)) = b :: bytes := by
  have hp : 0 < b.toNat := pos_of_ne_zero fun h => hb (UInt8.toNat_inj.1 h)
  have hle : byteLen (setBytes (b :: bytes)) ≤ bytes.length + 1 := byteLen_le_iff.2 (setBytes_lt _)
  have hlt : ¬byteLen (setBytes (b :: bytes)) ≤ bytes.length := by
    rw [byteLen_le_iff, setBytes_cons, not_lt]
    exact (Nat.le_mul_of_pos_right _ hp).trans (Nat.le_add_left _ _)
  exact beBytes_setBytes (by rw [length_cons]; omega)

theorem replicate_append_bytesOf (h : val < 256 ^ n) :
    List.replicate (n - byteLen val) 0 ++ bytesOf val = beBytes n val := by
  have hv : ∀ k, setBytes (List.replicate k 0 ++ bytesOf val) = val := by
    intro k
    induction k with
    | zero => exact setBytes_bytesOf val
    | succ k ih => rw [replicate_succ, cons_append, setBytes_zero_cons, ih]
  have hl : (List.replicate (n - byteLen val) 0 ++ bytesOf val).length = n := by
    have := byteLen_le_iff.2 h
    simp
    omega
  rw [← beBytes_setBytes hl, hv]

/-! ### 64 bytes -/

def generate32Bytes (i : Nat) : List UInt8 :=
  let b := bytesOf i
  if b.length < 32 then List.replicate (32 - b.length) 0 ++ b else b

/-- The bytes that `sign` returns for the signature that `ecdsa.Sign` has made. -/
def signBytes (s : Signature) : List UInt8 := generate32Bytes s.R ++ generate32Bytes s.S

def genSignBytes (s : Signature) : List UInt8 := bytesOf s.R ++ bytesOf s.S

/-- `GetSignature`, on a slice that ends with its array, as those above do. -/
def getSignature (sign : List UInt8) : Except Panic Signature :=
  if sign.length < 64 then .error .indexOutOfRange
  else .ok ⟨setBytes (sign.take 32), setBytes ((sign.drop 32).take 32)⟩

/-- A signature in the range of the curve. -/
def InRange (s : Signature) : Prop := (1 ≤ s.R ∧ s.R < order) ∧ 1 ≤ s.S ∧ s.S < order

theorem lt_of_lt_order (h : val < order) : val < 256 ^ 32 := h.trans (by decide)

theorem generate32Bytes_eq (h : val < 256 ^ 32) : generate32Bytes val = beBytes 32 val := by
  rw [generate32Bytes, length_bytesOf, ← replicate_append_bytesOf h]
  split_ifs with hlt
  · rfl
  · have := byteLen_le_iff.2 h
    rw [show 32 - byteLen val = 0 by omega, replicate_zero, nil_append]

theorem getSignature_append {r s : List UInt8} (hr : r.length = 32) (hs : s.length = 32) :
    getSignature (r ++ s) = .ok ⟨setBytes r, setBytes s⟩ := by
  rw [getSignature, if_neg (by rw [length_append]; omega), take_left' hr,
    drop_left' hr, take_of_length_le hs.le]

variable {sig : Signature}

/-- **What `sign` returns is read back.** -/
theorem getSignature_signBytes (h : InRange sig) : getSignature (signBytes sig) = .ok sig := by
  have hR := lt_of_lt_order h.1.2
  have hS := lt_of_lt_order h.2.2
  rw [signBytes, generate32Bytes_eq hR, generate32Bytes_eq hS,
    getSignature_append (length_beBytes _ _) (length_beBytes _ _), setBytes_beBytes hR,
    setBytes_beBytes hS]

/-- **The 64-byte forms of a signature**: that of `GenSignBytes` is read back exactly when neither
number has a leading zero byte. -/
theorem signature_bytes_readable_iff (h : InRange sig) : getSignature (signBytes sig) = .ok sig ∧
      (getSignature (genSignBytes sig) = .ok sig ↔ 2 ^ 248 ≤ sig.R ∧ 2 ^ 248 ≤ sig.S) := by
  refine ⟨getSignature_signBytes h, ?_⟩
  have hf : ∀ {val}, val < order → (byteLen val = 32 ↔ 2 ^ 248 ≤ val) := by
    intro val hv
    have hle := byteLen_le_iff.2 (lt_of_lt_order hv)
    have hlt := @byteLen_le_iff val 31
    omega
  have hR := byteLen_le_iff.2 (lt_of_lt_order h.1.2)
  have hS := byteLen_le_iff.2 (lt_of_lt_order h.2.2)
  rw [← hf h.1.2, ← hf h.2.2]
  constructor
  · intro hg
    rw [getSignature, genSignBytes, length_append, length_bytesOf, length_bytesOf] at hg
    split_ifs at hg
    omega
  · rintro ⟨hR, hS⟩
    rw [genSignBytes, getSignature_append (length_bytesOf.trans hR) (length_bytesOf.trans hS),
      setBytes_bytesOf, setBytes_bytesOf]

theorem signature_bytes_readable_large : InRange ⟨2 ^ 255, 2 ^ 254⟩ ∧
    getSignature (genSignBytes ⟨2 ^ 255, 2 ^ 254⟩) = .ok ⟨2 ^ 255, 2 ^ 254⟩ :=
  have hr : InRange ⟨2 ^ 255, 2 ^ 254⟩ := by
    unfold InRange
    decide
  ⟨hr, (signature_bytes_readable_iff hr).2.2 (by decide)⟩

/-- A number with a leading zero byte: `GetSignature` slices beyond the 63 bytes it is given. -/
theorem genSignBytes_not_readable : InRange ⟨2 ^ 247, 2 ^ 254⟩ ∧
    getSignature (genSignBytes ⟨2 ^ 247, 2 ^ 254⟩) = .error .indexOutOfRange := by
  unfold InRange
  decide +kernel

/-! ### DER -/

def canonicalizeInt (val : Nat) : List UInt8 :=
  let b := bytesOf val
  let b := if b.length = 0 then [0x00] else b
  if b.getD 0 0 &&& 0x80 ≠ 0 then 0x00 :: b else b

/-- The bytes of `Serialize` for the numbers that are written. -/
def derBytes (s : Signature) : List UInt8 :=
  let rb := canonicalizeInt s.R
  let sb := canonicalizeInt s.S
  let length := 6 + rb.length + sb.length
  0x30 :: UInt8.ofNat (length - 2) :: 0x02 :: UInt8.ofNat rb.length ::
    (rb ++ 0x02 :: UInt8.ofNat sb.length :: sb)

/-- `Serialize`: of the two numbers that `S` may be replaced by, the smaller one is written. -/
def serialize (s : Signature) : List UInt8 :=
  derBytes { s with S := if order / 2 < s.S then order - s.S else s.S }

theorem highBit_eq (b : UInt8) : b &&& 0x80 ≠ 0 ↔ b &&& 0x80 = 0x80 := by
  rcases highBit_cases b with h | h <;> simp [h]

theorem canonicalizeInt_setBytes (hne : bytes ≠ []) (h : canonicalPadding bytes = true) :
    canonicalizeInt (setBytes bytes) = bytes := by
  obtain ⟨b, bytes, rfl⟩ := exists_cons_of_ne_nil hne
  obtain ⟨hs, hp⟩ := of_decide_eq_true h
  by_cases hb : b = 0
  · subst hb
    cases bytes with
    | nil => decide
    | cons c bytes =>
      have hc : c &&& 0x80 = 0x80 := by simpa using hp
      have hc0 : c ≠ 0 := by
        rintro rfl
        exact absurd hc (by decide)
      rw [setBytes_zero_cons, canonicalizeInt, bytesOf_setBytes hc0]
      simp [hc]
  · have hs' : ¬b &&& 0x80 ≠ 0 := fun hbi => hs ((highBit_eq b).1 hbi)
    rw [canonicalizeInt, bytesOf_setBytes hb]
    simp [if_neg hs']

theorem canonicalizeInt_spec (hp : 1 ≤ val) (hlt : val < order) :
    setBytes (canonicalizeInt val) = val ∧ canonicalPadding (canonicalizeInt val) = true ∧
      1 ≤ (canonicalizeInt val).length ∧ (canonicalizeInt val).length ≤ 33 := by
  have hle := byteLen_le_iff.2 (lt_of_lt_order hlt)
  have hv := setBytes_bytesOf val
  have hl := @length_bytesOf val
  rw [canonicalizeInt]
  cases hby : bytesOf val with
  | nil =>
    rw [hby] at hv
    exact absurd hv.symm (show val ≠ 0 by omega)
  | cons b bytes =>
    rw [hby] at hv hl
    have hb : b ≠ 0 := by
      rintro rfl
      -- the bytes after a leading zero would be too many for the number
      have hs := byteLen_le_iff.2 (setBytes_lt bytes)
      rw [← setBytes_zero_cons, hv, ← hl, length_cons] at hs
      omega
    have hb' : ¬(1 < (b :: bytes).length ∧ b = 0 ∧ (b :: bytes).getD 1 0 &&& 0x80 ≠ 0x80) :=
      fun h => hb h.2.1
    simp only [length_cons, succ_ne_zero, if_false] at hl ⊢
    split_ifs with hbi
    · refine ⟨setBytes_zero_cons.trans hv, decide_eq_true ⟨?_, ?_⟩, ?_, ?_⟩
      · rw [getD_cons_zero]
        decide
      · rintro ⟨-, -, hn⟩
        exact hn ((highBit_eq b).1 hbi)
      · exact le_add_left 1 _
      · rw [length_cons, length_cons]
        omega
    · refine ⟨hv, decide_eq_true ⟨fun h => hbi ((highBit_eq b).2 h), hb'⟩, ?_, ?_⟩
      · exact le_add_left 1 _
      · rw [length_cons]
        omega

theorem checkRange_eq_some_iff {s : Signature} :
    checkRange order s = some sig ↔ s = sig ∧ InRange sig := by
  rw [checkRange, InRange]
  split_ifs with h
  · refine ⟨fun hn => (by cases hn), ?_⟩
    rintro ⟨rfl, hr⟩
    omega
  · rw [Option.some.injEq]
    refine ⟨?_, And.left⟩
    rintro rfl
    exact ⟨rfl, by omega⟩

/-- A canonical number of a signature, with its length. -/
def IsNumber (len : UInt8) (bytes : List UInt8) : Prop :=
  len.toNat = bytes.length ∧ bytes ≠ [] ∧ canonicalPadding bytes = true

theorem parseS_eq_some_iff {pre sb : List UInt8} {marker len : UInt8} {R : Nat} :
    parseS order (pre ++ marker :: len :: sb) true R pre.length = some sig ↔
      marker = 0x02 ∧ IsNumber len sb ∧ (⟨R, setBytes sb⟩ : Signature) = sig ∧ InRange sig := by
  have hpa : parseS order (pre ++ marker :: len :: sb) true R pre.length = some sig ↔
      marker = 0x02 ∧ len.toNat ≠ 0 ∧ canonicalPadding (sb.take len.toNat) = true ∧
        len.toNat = sb.length ∧ checkRange order ⟨R, setBytes (sb.take len.toNat)⟩ = some sig := by
    simp only [parseS, setBytes]
    simp
    grind
  rw [hpa, ← checkRange_eq_some_iff, IsNumber, ← length_pos_iff]
  constructor
  · rintro ⟨hm, hpo, hp, hl, hr⟩
    rw [hl, take_length] at hp hr
    exact ⟨hm, ⟨hl, by omega, hp⟩, hr⟩
  · rintro ⟨hm, ⟨hl, hpo, hp⟩, hr⟩
    rw [hl, take_length]
    exact ⟨hm, by omega, hp, rfl, hr⟩

theorem parseR_eq_some_iff {b₀ b₁ marker len : UInt8} {rb rest : List UInt8}
    (hl : len.toNat = rb.length) :
    parseR order (b₀ :: b₁ :: marker :: len :: (rb ++ rest)) true = some sig ↔
      marker = 0x02 ∧ IsNumber len rb ∧ 3 ≤ rest.length ∧
        parseS order ((b₀ :: b₁ :: marker :: len :: rb) ++ rest) true (setBytes rb)
          (b₀ :: b₁ :: marker :: len :: rb).length = some sig := by
  have hp := @length_pos_iff _ rb
  simp [parseR, IsNumber, setBytes, hl]
  grind

theorem parseSig_append {b₀ b₁ b₂ b₃ : UInt8} {tail rest : List UInt8}
    (hl : (b₁ + 2).toNat = tail.length + 4) :
    parseSig order (b₀ :: b₁ :: b₂ :: b₃ :: tail ++ rest) true = some sig ↔
      b₀ = 0x30 ∧ 4 ≤ tail.length ∧
        parseR order (b₀ :: b₁ :: b₂ :: b₃ :: tail) true = some sig := by
  simp [parseSig, hl]
  grind

theorem exists_cons_cons {l : List UInt8} (h : 2 ≤ l.length) : ∃ a b t, l = a :: b :: t := by
  obtain ⟨a, t, rfl⟩ := exists_cons_of_length_pos (lt_of_succ_lt h)
  obtain ⟨b, t, rfl⟩ := exists_cons_of_length_pos (lt_of_succ_lt_succ h)
  exact ⟨a, b, t, rfl⟩

/-- **What is accepted as DER**: the bytes of a signature in range, and any bytes behind them. -/
theorem parseSig_eq_some_iff {sigStr : List UInt8} : parseSig order sigStr true = some sig ↔
    InRange sig ∧ ∃ rest, sigStr = derBytes sig ++ rest := by
  constructor
  · intro h
    obtain ⟨b₀, b₁, b₂, b₃, tail, rest, hl, rfl⟩ : ∃ b₀ b₁ b₂ b₃ tail rest,
        (b₁ + 2).toNat = tail.length + 4 ∧ sigStr = b₀ :: b₁ :: b₂ :: b₃ :: tail ++ rest := by
      rw [parseSig] at h
      split_ifs at h with hsh _ hbo
      obtain ⟨b₀, b₁, t, rfl⟩ := exists_cons_cons (show 2 ≤ sigStr.length by omega)
      simp only [length_cons] at hsh
      obtain ⟨b₂, b₃, t, rfl⟩ := exists_cons_cons (show 2 ≤ t.length by omega)
      refine ⟨b₀, b₁, b₂, b₃, t.take ((b₁ + 2).toNat - 4), t.drop ((b₁ + 2).toNat - 4), ?_, ?_⟩
      · simp only [getD_cons_succ, getD_cons_zero, length_cons] at hbo
        rw [length_take]
        omega
      · simp
    obtain ⟨rfl, -, hp⟩ := (parseSig_append hl).1 h
    obtain ⟨rb, marker, len, sb, hb₃, rfl⟩ : ∃ rb marker len sb,
        b₃.toNat = rb.length ∧ tail = rb ++ marker :: len :: sb := by
      have hro : b₃.toNat ≤ tail.length - 3 ∧ b₃.toNat ≠ 0 := by
        simp [parseR] at hp
        omega
      obtain ⟨marker, len, sb, hd⟩ : ∃ marker len sb, tail.drop b₃.toNat = marker :: len :: sb := by
        apply exists_cons_cons
        rw [length_drop]
        omega
      refine ⟨tail.take b₃.toNat, marker, len, sb, ?_, ?_⟩
      · rw [length_take]
        omega
      · rw [← hd, take_append_drop]
    obtain ⟨rfl, ⟨-, hrb, hrp⟩, -, hps⟩ := (parseR_eq_some_iff hb₃).1 hp
    obtain ⟨rfl, ⟨hsl, hsb, hs⟩, rfl, hr⟩ := parseS_eq_some_iff.1 hps
    have ho : ∀ {b : UInt8} {k : Nat}, b.toNat = k → UInt8.ofNat k = b := by
      rintro b k rfl
      exact UInt8.ofNat_toNat
    have ht : UInt8.ofNat (6 + rb.length + sb.length - 2) = b₁ := by
      apply UInt8.toNat.inj
      have := b₁.toNat_lt
      simp at hl
      rw [UInt8.toNat_ofNat']
      omega
    refine ⟨hr, rest, ?_⟩
    rw [derBytes]
    simp [canonicalizeInt_setBytes hrb hrp, canonicalizeInt_setBytes hsb hs, ht, ho hb₃, ho hsl]
  · rintro ⟨h, rest, rfl⟩
    obtain ⟨hR, hRpad, hRpos, hRle⟩ := canonicalizeInt_spec h.1.1 h.1.2
    obtain ⟨hS, hSpad, hSpos, hSle⟩ := canonicalizeInt_spec h.2.1 h.2.2
    have hb : ∀ {k : Nat}, k ≤ 33 → (UInt8.ofNat k).toNat = k := fun hk =>
      UInt8.toNat_ofNat_of_lt (hk.trans_lt (by decide))
    refine (parseSig_append ?_).2 ⟨rfl, ?_, (parseR_eq_some_iff (hb hRle)).2
      ⟨rfl, ⟨hb hRle, length_pos_iff.1 hRpos, hRpad⟩, ?_, parseS_eq_some_iff.2
        ⟨rfl, ⟨hb hSle, length_pos_iff.1 hSpos, hSpad⟩, ?_, h⟩⟩⟩
    · rw [UInt8.toNat_add]
      simp
      omega
    · simp
      omega
    · simp
      omega
    · rw [hR, hS]

theorem take_derBytes (h : InRange sig) (rest : List UInt8) :
    (derBytes sig ++ rest).take (((derBytes sig ++ rest).getD 1 0).toNat + 2) = derBytes sig := by
  obtain ⟨-, -, -, hRle⟩ := canonicalizeInt_spec h.1.1 h.1.2
  obtain ⟨-, -, -, hSle⟩ := canonicalizeInt_spec h.2.1 h.2.2
  refine take_left' ?_
  simp [derBytes]
  omega

theorem serialize_eq (h : InRange sig) :
    serialize sig = derBytes ⟨sig.R, min sig.S (order - sig.S)⟩ ∧
      InRange ⟨sig.R, min sig.S (order - sig.S)⟩ := by
  obtain ⟨hR, hp, hlt⟩ := h
  have ho : order = 2 * (order / 2) + 1 := by decide
  have hm : (if order / 2 < sig.S then order - sig.S else sig.S) = min sig.S (order - sig.S) := by
    split_ifs <;> omega
  refine ⟨by rw [serialize, hm], hR, ?_⟩
  dsimp only
  omega

/-- What stands behind the end of a string is not looked at. -/
theorem parseSig_append_iff {sigStr : List UInt8}
    (hl : (sigStr.getD 1 0).toNat + 2 ≤ sigStr.length) (rest : List UInt8) :
    parseSig order (sigStr ++ rest) true = some sig ↔ parseSig order sigStr true = some sig := by
  rw [parseSig_eq_some_iff, parseSig_eq_some_iff]
  refine and_congr_right fun hr => ⟨?_, ?_⟩
  · rintro ⟨rest', he⟩
    have ht := take_derBytes hr rest'
    rw [← he, getD_append _ _ _ _ (by omega), take_append_of_le_length hl] at ht
    exact ⟨sigStr.drop ((sigStr.getD 1 0).toNat + 2), by rw [← ht, take_append_drop]⟩
  · rintro ⟨rest', rfl⟩
    exact ⟨rest' ++ rest, append_assoc _ _ _⟩

/-- **DER signatures**: what `Serialize` writes is read back, with the smaller `S`; strings that are
read as one signature are equal up to the end that their second byte gives; and what stands behind
that end is ignored. -/
theorem der_signature_unique (sig : Signature) :
    (InRange sig → parseSig order (serialize sig) true = some ⟨sig.R, min sig.S (order - sig.S)⟩) ∧
    (∀ sigStr sigStr', parseSig order sigStr true = some sig →
      parseSig order sigStr' true = some sig →
        sigStr.take ((sigStr.getD 1 0).toNat + 2) =
          sigStr'.take ((sigStr'.getD 1 0).toNat + 2)) ∧
    ∀ sigStr rest, (sigStr.getD 1 0).toNat + 2 ≤ sigStr.length →
      (parseSig order (sigStr ++ rest) true = some sig ↔
        parseSig order sigStr true = some sig) := by
  refine ⟨?_, ?_, fun sigStr rest hl => parseSig_append_iff hl rest⟩
  · intro h
    obtain ⟨hb, hr⟩ := serialize_eq h
    exact parseSig_eq_some_iff.2 ⟨hr, [], by rw [hb, append_nil]⟩
  · intro sigStr sigStr' h h'
    obtain ⟨hr, rest, rfl⟩ := parseSig_eq_some_iff.1 h
    obtain ⟨-, rest', rfl⟩ := parseSig_eq_some_iff.1 h'
    rw [take_derBytes hr, take_derBytes hr]

/-- The shortest signature. -/
def shortest : List UInt8 := [0x30, 6, 2, 1, 1, 2, 1, 1]

theorem der_signature_unique_highS : parseSig order (serialize ⟨1, order - 1⟩) true = some ⟨1, 1⟩ ∧
      shortest.take ((shortest.getD 1 0).toNat + 2) =
        (shortest ++ [0]).take (((shortest ++ [0]).getD 1 0).toNat + 2) ∧
      parseSig order (shortest ++ [1, 2]) true = some ⟨1, 1⟩ := by
  obtain ⟨-, hu, hb⟩ := der_signature_unique ⟨1, 1⟩
  have hs : parseSig order shortest true = some ⟨1, 1⟩ := by
    decide +kernel
  exact ⟨(der_signature_unique ⟨1, order - 1⟩).1 (by unfold InRange; decide),
    hu shortest (shortest ++ [0]) hs (by decide +kernel), (hb shortest [1, 2] (by decide)).2 hs⟩

/-- A byte behind the signature is not looked at. -/
theorem parseSig_trailing_byte : parseSig order shortest true = some ⟨1, 1⟩ ∧
    parseSig order (shortest ++ [0]) true = some ⟨1, 1⟩ := by
  decide +kernel

end Btcec

end DrcNode
