import DrcNode.Script.Engine
import DrcNode.Script.ScriptNum

/-!
# Multiple signatures

`OP_CHECKMULTISIG` goes through the keys once, with one signature at a time, and gives up when there
are fewer keys left than signatures. On signatures and keys that can be parsed this finds out
whether the signatures can be assigned to keys in their order.

## Main results

* `opcodeCheckMultiSig_eq`.

Source: `opcodeCheckMultiSig` in `txscript/opcode.go`.
-/

namespace DrcNode

open List

section Assignment

variable {α β : Type} {r : α → β → Prop} {s : α} {ss : List α} {k : β} {ks : List β}

/-- Every element of `ss` has a partner in `ks`, in the same order. -/
def Assignable (r : α → β → Prop) (ss : List α) (ks : List β) : Prop :=
  ∃ chosen, chosen.Sublist ks ∧ List.Forall₂ r ss chosen

theorem assignable_nil : Assignable r [] ks := ⟨[], nil_sublist ks, .nil⟩

theorem Assignable.length_le (h : Assignable r ss ks) : ss.length ≤ ks.length := by
  obtain ⟨chosen, hs, ha⟩ := h
  exact ha.length_eq.trans_le hs.length_le

theorem Assignable.cons (h : Assignable r ss ks) : Assignable r ss (k :: ks) := by
  obtain ⟨chosen, hs, ha⟩ := h
  exact ⟨chosen, hs.cons k, ha⟩

/-- Taking the first key that fits loses nothing: what an assignment gives to a later signature it
can still give to it. -/
theorem assignable_cons_cons_of_rel (h : r s k) :
    Assignable r (s :: ss) (k :: ks) ↔ Assignable r ss ks := by
  constructor
  · rintro ⟨_, hs, ha⟩
    cases ha with
    | cons _ ha => exact ⟨_, hs.tail, ha⟩
  · rintro ⟨chosen, hs, ha⟩
    exact ⟨k :: chosen, hs.cons_cons k, .cons h ha⟩

theorem assignable_cons_cons_of_not_rel (h : ¬r s k) :
    Assignable r (s :: ss) (k :: ks) ↔ Assignable r (s :: ss) ks := by
  refine ⟨?_, .cons⟩
  rintro ⟨chosen, hs, ha⟩
  cases hs with
  | cons _ hs => exact ⟨chosen, hs, ha⟩
  | cons_cons _ _ =>
    cases ha with
    | cons hr _ => exact absurd hr h

end Assignment

variable {crypto : Crypto} {vm : Engine} {script : List ParsedOpcode}
  {pubKeys signatures : List (List UInt8)}

/-- The signature verifies under the key, for the script that is signed. -/
def Engine.Verifies (crypto : Crypto) (vm : Engine) (script : List ParsedOpcode)
    (rawSig pubKey : List UInt8) : Prop :=
  ∃ hashType signature key hash, rawSig.getLast? = some hashType ∧
    vm.parseSig crypto rawSig.dropLast = some signature ∧ crypto.parsePubKey pubKey = some key ∧
    vm.signatureHash crypto script hashType = .ok hash ∧ crypto.verify signature hash key = true

/-- The signatures and keys pass the checks of their encoding, and can be parsed. -/
structure Engine.WellEncoded (crypto : Crypto) (vm : Engine)
    (pubKeys signatures : List (List UInt8)) : Prop where
  txIdx_lt : vm.txIdx < vm.tx.txIn.length
  signature : ∀ rawSig ∈ signatures, ∃ hashType, rawSig.getLast? = some hashType ∧
    vm.checkHashTypeEncoding hashType = .ok () ∧
    vm.checkSignatureEncoding rawSig.dropLast = .ok () ∧
    ∃ signature, vm.parseSig crypto rawSig.dropLast = some signature
  pubKey : ∀ pubKey ∈ pubKeys, vm.checkPubKeyEncoding pubKey = .ok () ∧
    ∃ key, crypto.parsePubKey pubKey = some key

theorem exists_signatureHash (h : vm.txIdx < vm.tx.txIn.length) (hashType : UInt8) :
    ∃ hash, vm.signatureHash crypto script hashType = .ok hash := by
  rw [Engine.signatureHash]
  split_ifs
  · rw [calcWitnessSignatureHash, getElem?_eq_getElem h]
    exact ⟨_, rfl⟩
  · exact ⟨_, rfl⟩

theorem exists_checkMultiSigLoop (h : vm.WellEncoded crypto pubKeys signatures) :
    ∃ success, checkMultiSigLoop crypto vm script pubKeys signatures = .ok success ∧
      (success = true ↔ Assignable (vm.Verifies crypto script) signatures pubKeys) := by
  induction pubKeys generalizing signatures with
  | nil =>
    cases signatures with
    | nil => exact ⟨true, rfl, iff_of_true rfl assignable_nil⟩
    | cons rawSig signatures =>
      refine ⟨false, rfl, iff_of_false Bool.false_ne_true fun ha => ?_⟩
      exact absurd ha.length_le (by simp)
  | cons pubKey pubKeys ih =>
    cases signatures with
    | nil => exact ⟨true, rfl, iff_of_true rfl assignable_nil⟩
    | cons rawSig signatures =>
      obtain ⟨hashType, hl, ht, he, signature, hsi⟩ := h.signature rawSig mem_cons_self
      obtain ⟨hp, key, hky⟩ := h.pubKey pubKey mem_cons_self
      obtain ⟨hash, hh⟩ := @exists_signatureHash crypto vm script h.txIdx_lt hashType
      have hke := fun k hk => h.pubKey k (mem_cons_of_mem pubKey hk)
      have hr : vm.Verifies crypto script rawSig pubKey ↔
          crypto.verify signature hash key = true := by
        constructor
        · rintro ⟨_, _, _, _, hl', hsi', hky', hh', hve⟩
          cases hl.symm.trans hl'
          cases hsi.symm.trans hsi'
          cases hky.symm.trans hky'
          cases hh.symm.trans hh'
          exact hve
        · exact fun hve => ⟨_, _, _, _, hl, hsi, hky, hh, hve⟩
      rw [checkMultiSigLoop, checkMultiSigLoopBy]
      split_ifs with hf
      · refine ⟨false, rfl, iff_of_false Bool.false_ne_true fun ha => ?_⟩
        have := ha.length_le
        simp only [length_cons] at this
        omega
      · simp only [hl, liftM_scriptCheck, ht, he, hsi, hp, hky, hh, verifyDirectly, bind,
          Except.bind]
        split_ifs with hve
        · rw [assignable_cons_cons_of_rel (hr.2 hve)]
          exact ih ⟨h.txIdx_lt, fun s hs => h.signature s (mem_cons_of_mem rawSig hs), hke⟩
        · rw [assignable_cons_cons_of_not_rel fun hv => hve (hr.1 hv)]
          exact ih ⟨h.txIdx_lt, h.signature, hke⟩

theorem popMany_append (items rest : List (List UInt8)) (minimal : Bool) :
    popMany items.length ⟨items ++ rest, minimal⟩ = .ok (items, ⟨rest, minimal⟩) := by
  induction items with
  | nil => rfl
  | cons item items ih =>
    have hp : (⟨item :: items ++ rest, minimal⟩ : Stack).popByteArray =
      .ok (item, ⟨items ++ rest, minimal⟩) := rfl
    simp only [length_cons, popMany, hp, ih, bind, Except.bind]
    rfl

theorem popInt_cons {so : List UInt8} {stk : List (List UInt8)} {minimal : Bool} {n : Int64}
    (h : makeScriptNum so minimal defaultScriptNumLen = .ok n) :
    (⟨so :: stk, minimal⟩ : Stack).popInt = .ok (n, ⟨stk, minimal⟩) := by
  change (do
    let val ← makeScriptNum so minimal defaultScriptNumLen
    pure (val, (⟨stk, minimal⟩ : Stack))) = _
  rw [h]
  rfl

theorem requireScript_bind_congr {α : Type} {p q : Prop} [Decidable p] [Decidable q]
    {code : ScriptErrorCode} {f g : Unit → ScriptCheck α} (hpq : p ↔ q) (hfg : p → f () = g ()) :
    (requireScript p code >>= f) = requireScript q code >>= g := by
  unfold requireScript
  simp only [← hpq]
  split_ifs with h
  · exact hfg h
  · rfl

/-- The script that the signatures of `OP_CHECKMULTISIG` sign. -/
def Engine.multiSigScript (vm : Engine) (signatures : List (List UInt8)) : List ParsedOpcode :=
  if vm.isWitnessVersionActive 0 then vm.subScript
  else signatures.foldl removeOpcodeByData vm.subScript

/-- **Multiple signatures.** `OP_CHECKMULTISIG` pushes whether the signatures can be assigned to
keys in their order, unless a limit or a flag makes it fail. -/
theorem opcodeCheckMultiSig_eq {numKeys numSigs dummy : List UInt8} {rest : List (List UInt8)}
    {keys sigs : Int64} (op : ParsedOpcode)
    (hstack : vm.dstack.stk = numKeys :: pubKeys ++ numSigs :: signatures ++ dummy :: rest)
    (hnumKeys : makeScriptNum numKeys vm.dstack.verifyMinimalData defaultScriptNumLen = .ok keys)
    (hkeys : keys.toInt = pubKeys.length)
    (hnumSigs : makeScriptNum numSigs vm.dstack.verifyMinimalData defaultScriptNumLen = .ok sigs)
    (hsigs : sigs.toInt = signatures.length) (hle : signatures.length ≤ pubKeys.length)
    (hwell : vm.WellEncoded crypto pubKeys signatures) :
    ∃ success : Bool, (success = true ↔
        Assignable (vm.Verifies crypto (vm.multiSigScript signatures)) signatures pubKeys) ∧
      opcodeCheckMultiSig crypto op vm = (do
        requireScript (pubKeys.length ≤ maxPubKeysPerMultiSig) .errInvalidPubKeyCount
        requireScript (vm.numOps + pubKeys.length ≤ maxOpsPerScript) .errTooManyOperations
        requireScript (vm.hasFlag scriptStrictMultiSig = false ∨ dummy = []) .errSigNullDummy
        requireScript (success = true ∨ vm.hasFlag scriptVerifyNullFail = false) .errNullFail
        pure { vm with
          numOps := vm.numOps + pubKeys.length
          dstack := (⟨rest, vm.dstack.verifyMinimalData⟩ : Stack).pushBool success }) := by
  obtain ⟨success, hlo, hs⟩ := @exists_checkMultiSigLoop crypto
    { vm with numOps := vm.numOps + pubKeys.length } (vm.multiSigScript signatures) pubKeys
    signatures ⟨hwell.txIdx_lt, hwell.signature, hwell.pubKey⟩
  refine ⟨success, hs, ?_⟩
  have hd : vm.dstack = ⟨numKeys :: pubKeys ++ numSigs :: signatures ++ dummy :: rest,
      vm.dstack.verifyMinimalData⟩ := by
    rw [← hstack]
  have hp : vm.dstack.popInt = .ok (keys,
      ⟨pubKeys ++ (numSigs :: signatures ++ dummy :: rest), vm.dstack.verifyMinimalData⟩) := by
    rw [hd, append_assoc]
    exact popInt_cons hnumKeys
  have hps := @popInt_cons _ (signatures ++ dummy :: rest) _ _ hnumSigs
  have hKeys : scriptNumInt32 keys = pubKeys.length := (scriptNumInt32_eq hnumKeys).trans hkeys
  have hSigs : scriptNumInt32 sigs = signatures.length := (scriptNumInt32_eq hnumSigs).trans hsigs
  have hok : ∀ {α β : Type} (a : α) (f : α → ScriptCheck β), (Except.ok a >>= f) = f a :=
    fun _ _ => rfl
  simp only [opcodeCheckMultiSig, opcodeCheckMultiSigBy, liftM_scriptCheck, hp, hKeys,
    Int.toNat_natCast, popMany_append, cons_append, hps, hSigs, hok]
  refine requireScript_bind_congr (by omega) fun _ => requireScript_bind_congr Iff.rfl fun _ => ?_
  rw [requireScript, if_pos (by omega)]
  change (requireScript (vm.hasFlag scriptStrictMultiSig = false ∨ dummy = []) _ >>= _) = _
  refine requireScript_bind_congr Iff.rfl fun _ => ?_
  change (checkMultiSigLoop crypto { vm with numOps := vm.numOps + pubKeys.length }
    (vm.multiSigScript signatures) pubKeys signatures >>= _) = _
  rw [hlo]
  refine requireScript_bind_congr ?_ fun _ => rfl
  -- a signature that can be parsed is not empty, and no signature is missing when there is none
  have he : (∀ sig ∈ signatures, sig = []) → success = true := fun ha => by
    rw [hs]
    cases signatures with
    | nil => exact assignable_nil
    | cons rawSig _ =>
      obtain ⟨_, hl, -⟩ := hwell.signature rawSig mem_cons_self
      rw [ha rawSig mem_cons_self] at hl
      cases hl
  change success = true ∨ vm.hasFlag scriptVerifyNullFail = false ∨ _ ↔ _
  exact ⟨fun h => h.elim .inl fun h => h.elim .inr fun h => .inl (he h),
    fun h => h.elim .inl fun h => .inr (.inl h)⟩

/-- Keys and signatures that are one byte, which has to be the same. -/
def byteCrypto : Crypto :=
  { Crypto.trivial with
    parsePubKey := fun key => key.head?.map fun b => ⟨b.toNat, 0⟩
    parseSignature := fun sig => sig.head?.map fun b => ⟨b.toNat, 0⟩
    verify := fun sig _ key => sig.R == key.X }

/-- Signatures for the first and the last of three keys. -/
def twoOfThree : Engine where
  scripts := []
  dstack := { stk := [[3], [1], [2], [3], [2], [1, 0x01], [3, 0x01], []] }
  tx := ⟨1, [⟨⟨0, 0⟩, [], [], 0⟩], [], 0⟩
  txIdx := 0
  flags := 0
  inputAmount := 0

/-- The second key is skipped. -/
theorem opcodeCheckMultiSig_twoOfThree :
    opcodeCheckMultiSig byteCrypto ⟨0xae, []⟩ twoOfThree =
      .ok { twoOfThree with numOps := 3, dstack := { stk := [[1]] } } := by
  obtain ⟨success, hi, h⟩ := @opcodeCheckMultiSig_eq byteCrypto twoOfThree [[1], [2], [3]]
    [[1, 0x01], [3, 0x01]] _ _ _ [] 3 2 ⟨0xae, []⟩ rfl rfl rfl rfl rfl (by decide) ⟨by decide,
      forall_mem_cons.2 ⟨⟨0x01, rfl, rfl, rfl, _, rfl⟩,
        forall_mem_singleton.2 ⟨0x01, rfl, rfl, rfl, _, rfl⟩⟩,
      forall_mem_cons.2 ⟨⟨rfl, _, rfl⟩, forall_mem_cons.2 ⟨⟨rfl, _, rfl⟩,
        forall_mem_singleton.2 ⟨rfl, _, rfl⟩⟩⟩⟩
  have ht : success = true := hi.2 ⟨[[1], [3]], by decide,
    .cons ⟨0x01, _, _, _, rfl, rfl, rfl, rfl, rfl⟩
      (.cons ⟨0x01, _, _, _, rfl, rfl, rfl, rfl, rfl⟩ .nil)⟩
  subst ht
  exact h

end DrcNode
