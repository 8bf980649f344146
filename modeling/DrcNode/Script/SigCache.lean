import DrcNode.Script.Limits

/-!
# The signature cache

Signatures that were verified are kept in a cache under the hash that they sign, which the
validations of all inputs share. The engine is run here with the cache: around each of its
signature checks, other validations may have verified and added signatures, and an entry that is
chosen at random is evicted when the cache is full.

## Main results

* `execute_sigCache`.

Source: `txscript/sigcache.go`, and its uses in `opcodeCheckSig` and `opcodeCheckMultiSig`.
-/

namespace DrcNode

open List

/-- `SigCache`, with the entries under their `sigHash`. -/
structure SigCache where
  validSigs : List (List UInt8 × Signature × PublicKey)
  maxEntries : Nat

/-- A signature that another validation finds missing in the cache. -/
structure CacheMiss where
  sig : Signature
  hash : List UInt8
  pubKey : PublicKey
  evict : Nat
  length_hash : hash.length = 32

/-- What happens around a check: the others before `Exists` and between `Exists` and `Add`, and the
position of the entry that `Add` evicts. -/
structure CacheTurn where
  before : List CacheMiss := []
  between : List CacheMiss := []
  evict : Nat := 0

/-- The cache and the turns to come. -/
structure SharedCache where
  cache : SigCache
  turns : Nat → CacheTurn

/-- A step of the engine with the cache. The cache stays when there is an error. -/
abbrev CachedCheck (α : Type) := ExceptT ScriptFault (StateM SharedCache) α

namespace SigCache

def newSigCache (maxEntries : Nat) : SigCache := ⟨[], maxEntries⟩

/-- `copy(sigHash[:], hash)`. -/
def sigHash (hash : List UInt8) : List UInt8 := (hash ++ List.replicate 32 0).take 32

/-- `Exists`. -/
def existsSig (s : SigCache) (sigHash : List UInt8) (sig : Signature) (pubKey : PublicKey) : Bool :=
  s.validSigs.lookup sigHash == some (sig, pubKey)

/-- `Add`. The `range` over a full map starts anywhere, and deletes the first entry. -/
def add (s : SigCache) (sigHash : List UInt8) (sig : Signature) (pubKey : PublicKey) (evict : Nat) :
    SigCache :=
  if s.maxEntries = 0 then s
  else
    let validSigs :=
      if s.maxEntries < s.validSigs.length + 1 then
        s.validSigs.eraseIdx (evict % s.validSigs.length)
      else s.validSigs
    { s with validSigs := (sigHash, sig, pubKey) :: validSigs.filter (·.1 ≠ sigHash) }

variable (crypto : Crypto)

/-- What a validation does that misses a signature. -/
def miss (s : SigCache) (m : CacheMiss) : SigCache :=
  if crypto.verify m.sig m.hash m.pubKey then s.add (sigHash m.hash) m.sig m.pubKey m.evict else s

/-- How the handlers find out whether a signature is valid. -/
def cachedVerify (signature : Signature) (hash : List UInt8) (pubKey : PublicKey) :
    CachedCheck Bool := ExceptT.mk fun shared =>
  let turn := shared.turns 0
  let turns := fun n => shared.turns (n + 1)
  let cache := turn.before.foldl (miss crypto) shared.cache
  if cache.existsSig (sigHash hash) signature pubKey then (.ok true, ⟨cache, turns⟩)
  else
    let cache := turn.between.foldl (miss crypto) cache
    if crypto.verify signature hash pubKey then
      (.ok true, ⟨cache.add (sigHash hash) signature pubKey turn.evict, turns⟩)
    else (.ok false, ⟨cache, turns⟩)

/-! ### The engine with the cache -/

/-- The function of an opcode. Four of them use the cache. -/
def opfunc (value : UInt8) : ParsedOpcode → Engine → CachedCheck Engine :=
  if value = 0xac then opcodeCheckSigBy crypto (cachedVerify crypto)
  else if value = 0xad then
    thenVerify (opcodeCheckSigBy crypto (cachedVerify crypto)) .errCheckSigVerify
  else if value = 0xae then opcodeCheckMultiSigBy crypto (cachedVerify crypto)
  else if value = 0xaf then
    thenVerify (opcodeCheckMultiSigBy crypto (cachedVerify crypto)) .errCheckMultiSigVerify
  else fun op vm => DrcNode.opfunc crypto value op vm

/-- `Execute`, with the cache. -/
def execute : Engine → CachedCheck Unit := Engine.executeBy crypto (opfunc crypto)

/-! ### Transparency -/

/-- All entries are valid signatures, and there are not too many of them. -/
structure Sound (maxEntries : Nat) (s : SigCache) : Prop where
  max : s.maxEntries = maxEntries
  length_le : s.validSigs.length ≤ maxEntries
  verify : ∀ entry ∈ s.validSigs, crypto.verify entry.2.1 entry.1 entry.2.2 = true

variable {crypto} {maxEntries : Nat} {s : SigCache} {hash : List UInt8} {sig : Signature}
  {pubKey : PublicKey}

theorem sigHash_eq (hl : hash.length = 32) : sigHash hash = hash :=
  take_left' hl

section

variable (hs : Sound crypto maxEntries s)
include hs

theorem Sound.insert {validSigs : List (List UInt8 × Signature × PublicKey)}
    (hl : validSigs.length + 1 ≤ maxEntries)
    (hm : validSigs ⊆ s.validSigs) (hv : crypto.verify sig hash pubKey = true) :
    Sound crypto maxEntries
      { s with validSigs := (hash, sig, pubKey) :: validSigs.filter (·.1 ≠ hash) } := by
  refine ⟨hs.max, (Nat.succ_le_succ (length_filter_le _ _)).trans hl, ?_⟩
  exact forall_mem_cons.2 ⟨hv, fun entry he => hs.verify entry (hm (mem_of_mem_filter he))⟩

theorem Sound.add (hv : crypto.verify sig hash pubKey = true) (evict : Nat) :
    Sound crypto maxEntries (s.add hash sig pubKey evict) := by
  have hl := hs.length_le
  have hm := hs.max
  unfold SigCache.add
  split_ifs with hz hf
  · exact hs
  · refine hs.insert ?_ (eraseIdx_subset) hv
    rw [length_eraseIdx_of_lt (Nat.mod_lt evict (by omega))]
    omega
  · exact hs.insert (by omega) (List.Subset.refl _) hv

theorem Sound.foldl_miss (misses : List CacheMiss) :
    Sound crypto maxEntries (misses.foldl (miss crypto) s) := by
  refine List.foldlRecOn misses _ hs fun s hs m _ => ?_
  unfold miss
  split_ifs with hv
  · exact hs.add (by rwa [sigHash_eq m.length_hash]) m.evict
  · exact hs

end

/-- With a sound cache the check gives the result of the check without one, and the cache stays
sound. -/
def Transparent (crypto : Crypto) {α : Type} (m : CachedCheck α) (x : ScriptCheck α) : Prop :=
  ∀ maxEntries (shared : SharedCache), Sound crypto maxEntries shared.cache →
    (m shared).1 = x ∧ Sound crypto maxEntries (m shared).2.cache

namespace Transparent

variable {α β : Type} {vm : Engine}

theorem lift {x : ScriptCheck α} : Transparent crypto (liftM x) x := fun _ _ hs => ⟨rfl, hs⟩

theorem bind {m : CachedCheck α} {x : ScriptCheck α} {f : α → CachedCheck β} {g : α → ScriptCheck β}
    (h : Transparent crypto m x) (hf : ∀ a, x = .ok a → Transparent crypto (f a) (g a)) :
    Transparent crypto (m >>= f) (x >>= g) := by
  intro maxEntries shared hs
  obtain ⟨rfl, hc⟩ := h maxEntries shared hs
  change (ExceptT.bindCont f (m shared).1 (m shared).2).1 = _ ∧
    Sound crypto maxEntries (ExceptT.bindCont f (m shared).1 (m shared).2).2.cache
  cases hr : (m shared).1 with
  | ok a => exact hf a hr maxEntries _ hc
  | error e => exact ⟨rfl, hc⟩

/-- The cache answers as `Verify` does. -/
theorem cachedVerify (hl : hash.length = 32) : Transparent crypto
    (SigCache.cachedVerify crypto sig hash pubKey) (.ok (crypto.verify sig hash pubKey)) := by
  intro maxEntries shared hs
  have hb := hs.foldl_miss (shared.turns 0).before
  have ha := hb.foldl_miss (shared.turns 0).between
  simp only [SigCache.cachedVerify, ExceptT.mk, sigHash_eq hl]
  split_ifs with he hv
  · obtain ⟨l, l', heq, -⟩ := lookup_eq_some_iff.1 (beq_iff_eq.1 he)
    have hv := hb.verify (hash, sig, pubKey) (heq ▸ mem_append_right l mem_cons_self)
    exact ⟨congrArg Except.ok hv.symm, hb⟩
  · exact ⟨congrArg Except.ok hv.symm, ha.add hv _⟩
  · exact ⟨congrArg Except.ok (Bool.not_eq_true _ ▸ hv).symm, ha⟩

section

variable (hd : crypto.Digests)
include hd

theorem length_signatureHash {script : List ParsedOpcode} {hashType : UInt8}
    (h : vm.signatureHash crypto script hashType = .ok hash) : hash.length = 32 := by
  unfold Engine.signatureHash calcWitnessSignatureHash calcSignatureHash at h
  split at h
  · split at h
    · cases h
    · cases h
      exact hd.sha256 _
  · split_ifs at h
    · cases h
      rfl
    · cases h
      exact hd.sha256 _

theorem checkSig (pkBytes fullSigBytes : List UInt8) :
    Transparent crypto (checkSigBy crypto (SigCache.cachedVerify crypto) vm pkBytes fullSigBytes)
      (DrcNode.checkSig crypto vm pkBytes fullSigBytes) := by
  unfold DrcNode.checkSig checkSigBy
  cases fullSigBytes.getLast? with
  | none => exact lift
  | some hashType =>
    refine lift.bind fun _ _ => lift.bind fun _ _ => lift.bind fun _ _ => ?_
    refine lift.bind fun hash hh => ?_
    cases crypto.parsePubKey pkBytes with
    | none => exact lift
    | some pubKey =>
      cases vm.parseSig crypto fullSigBytes.dropLast with
      | none => exact lift
      | some signature =>
        exact (cachedVerify (length_signatureHash hd hh)).bind fun _ _ =>
          lift.bind fun _ _ => lift

theorem checkMultiSigLoop (script : List ParsedOpcode) (pubKeys signatures : List (List UInt8)) :
    Transparent crypto
      (checkMultiSigLoopBy crypto (SigCache.cachedVerify crypto) vm script pubKeys signatures)
      (DrcNode.checkMultiSigLoop crypto vm script pubKeys signatures) := by
  induction pubKeys generalizing signatures with
  | nil =>
    cases signatures with
    | nil => exact lift
    | cons => exact lift
  | cons pubKey pubKeys ih =>
    cases signatures with
    | nil => exact lift
    | cons rawSig signatures =>
      rw [DrcNode.checkMultiSigLoop, checkMultiSigLoopBy, checkMultiSigLoopBy]
      split_ifs
      · exact lift
      cases rawSig.getLast? with
      | none => exact ih _
      | some hashType =>
        refine lift.bind fun _ _ => lift.bind fun _ _ => ?_
        cases vm.parseSig crypto rawSig.dropLast with
        | none => exact ih _
        | some parsedSig =>
          refine lift.bind fun _ _ => ?_
          cases crypto.parsePubKey pubKey with
          | none => exact ih _
          | some parsedPubKey =>
            refine lift.bind fun hash hh => ?_
            refine (cachedVerify (length_signatureHash hd hh)).bind fun valid _ => ?_
            cases valid with
            | true => exact ih _
            | false => exact ih _

theorem opcodeCheckSig (op : ParsedOpcode) :
    Transparent crypto (opcodeCheckSigBy crypto (SigCache.cachedVerify crypto) op vm)
      (DrcNode.opcodeCheckSig crypto op vm) :=
  lift.bind fun _ _ => lift.bind fun _ _ => (checkSig hd _ _).bind fun _ _ => lift

theorem opcodeCheckMultiSig (op : ParsedOpcode) :
    Transparent crypto (opcodeCheckMultiSigBy crypto (SigCache.cachedVerify crypto) op vm)
      (DrcNode.opcodeCheckMultiSig crypto op vm) :=
  lift.bind fun _ _ => lift.bind fun _ _ => lift.bind fun _ _ => lift.bind fun _ _ =>
    lift.bind fun _ _ => lift.bind fun _ _ => lift.bind fun _ _ => lift.bind fun _ _ =>
      lift.bind fun _ _ => (checkMultiSigLoop hd _ _ _).bind fun _ _ => lift.bind fun _ _ => lift

theorem opfunc (value : UInt8) (op : ParsedOpcode) :
    Transparent crypto (SigCache.opfunc crypto value op vm)
      (DrcNode.opfunc crypto value op vm) := by
  unfold SigCache.opfunc
  split_ifs with hcs hcv hms hmv
  · exact hcs ▸ opcodeCheckSig hd op
  · exact hcv ▸ (opcodeCheckSig hd op).bind fun _ _ => lift
  · exact hms ▸ opcodeCheckMultiSig hd op
  · exact hmv ▸ (opcodeCheckMultiSig hd op).bind fun _ _ => lift
  · exact lift

theorem executeOpcode (pop : ParsedOpcode) :
    Transparent crypto (Engine.executeOpcodeBy vm pop (SigCache.opfunc crypto))
      (Engine.executeOpcode crypto vm pop) := by
  refine lift.bind fun _ _ => lift.bind fun _ _ => lift.bind fun vm _ => ?_
  split_ifs
  · exact lift
  · exact lift.bind fun _ _ => opfunc hd pop.value pop

theorem step : Transparent crypto (Engine.stepBy crypto (SigCache.opfunc crypto) vm)
    (Engine.step crypto vm) := by
  unfold Engine.step Engine.stepBy
  cases (vm.scripts[vm.scriptIdx]?).bind (·[vm.scriptOff]?) with
  | none => exact lift
  | some pop =>
    refine (executeOpcode hd pop).bind fun vm _ => lift.bind fun _ _ => ?_
    split_ifs
    · exact lift
    · exact lift.bind fun _ _ => lift.bind fun _ _ => lift

theorem executeLoop (rounds : Nat) :
    Transparent crypto (Engine.executeLoopBy crypto (SigCache.opfunc crypto) rounds vm)
      (Engine.executeLoop crypto rounds vm) := by
  induction rounds generalizing vm with
  | zero => exact lift
  | succ rounds ih =>
    refine (step hd).bind ?_
    rintro ⟨done, vm⟩ -
    cases done with
    | true => exact lift
    | false => exact ih

theorem execute (vm : Engine) :
    Transparent crypto (SigCache.execute crypto vm) (Engine.execute crypto vm) :=
  (executeLoop hd _).bind fun _ _ => lift.bind fun _ _ => lift

end

end Transparent

end SigCache

/-- **The signature cache is transparent**, and keeps to its size: after any history, a script is
executed with the cache as it is without. -/
theorem execute_sigCache {crypto : Crypto} (hcrypto : crypto.Digests) (maxEntries : Nat)
    (history : List CacheMiss) (turns : Nat → CacheTurn) (vm : Engine) :
    let cache := history.foldl (SigCache.miss crypto) (.newSigCache maxEntries)
    let after := SigCache.execute crypto vm ⟨cache, turns⟩
    after.1 = Engine.execute crypto vm ∧ cache.validSigs.length ≤ maxEntries ∧
      after.2.cache.validSigs.length ≤ maxEntries := by
  have hs : (SigCache.newSigCache maxEntries).Sound crypto maxEntries :=
    ⟨rfl, Nat.zero_le _, fun _ h => by cases h⟩
  have hm := hs.foldl_miss history
  obtain ⟨hr, hc⟩ := SigCache.Transparent.execute hcrypto vm maxEntries ⟨_, turns⟩ hm
  exact ⟨hr, hm.length_le, hc.length_le⟩

/-- A signature and its key, for `OP_CHECKSIG`. -/
def checkSigEngine : Engine :=
  { scripts := [[⟨0xac, []⟩]], dstack := { stk := [[1], [1, 1]] }, tx := emptyItems 0, txIdx := 0
    flags := 0, inputAmount := 0 }

theorem execute_sigCache_checkSigEngine :
    let after := SigCache.execute fixedDigests checkSigEngine ⟨.newSigCache 1, fun _ => {}⟩
    after.1 = .ok () ∧ after.2.cache.validSigs.length ≤ 1 := by
  obtain ⟨hr, -, hl⟩ := execute_sigCache digests_fixedDigests 1 [] (fun _ => {}) checkSigEngine
  exact ⟨hr.trans (by decide +kernel), hl⟩

end DrcNode
