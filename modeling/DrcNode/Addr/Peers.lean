import DrcNode.Addr.Calls
import DrcNode.Library.Runs
import Mathlib.Algebra.BigOperators.Ring.Finset
import Mathlib.Data.Set.Card

/-!
# The invariant of the address manager

The counters of the address manager count: the new addresses, the tried ones, and for each address
the new buckets it is in; no address is both new and tried, and no bucket is larger than its size.
Two slips break this. A load of a file that fails after the first entry of a bucket leaves the
counters as they are, although the index and the buckets are emptied, and `GetAddress` then searches
for addresses forever. And `updateAddress` makes room in a new bucket only when the bucket is
already larger than its size.

## Main results

* `addrManager_invariant`: the invariant holds along the calls that avoid the two.
-/

namespace DrcNode

open Finmap Finset List Option AddrManager SerializedAddrManager

/-! ### Files -/

namespace SerializedAddrManager

variable (env : AddrEnv) (sam : SerializedAddrManager)

/-- The file lists an address with this key. -/
def Listed (k : AddrKey) : Prop :=
  ∃ v found, some v ∈ sam.addresses ∧ env.deserializeNetAddress v.addr = some found ∧
    env.netAddressKey found.1 found.2 = k

/-- An address of the file is not read. -/
def Unread : Prop :=
  ∃ v, some v ∈ sam.addresses ∧
    (env.deserializeNetAddress v.addr = none ∨ env.deserializeNetAddress v.src = none)

/-- The first entry of a bucket, if there is one, is not listed. -/
def Uncounted : Prop :=
  ∀ k ∈ (sam.newEntries.map Prod.snd ++ sam.triedEntries.map Prod.snd).head?, ¬ sam.Listed env k

/-- The buckets of the file hold the listed addresses, as an address manager would. -/
@[mk_iff]
structure Consistent : Prop where
  new_listed : ∀ e ∈ sam.newEntries, sam.Listed env e.2
  tried_listed : ∀ e ∈ sam.triedEntries, sam.Listed env e.2
  placed : ∀ k, sam.Listed env k →
    k ∈ sam.newEntries.map Prod.snd ∨ k ∈ sam.triedEntries.map Prod.snd
  separate : ∀ k ∈ sam.newEntries.map Prod.snd, k ∉ sam.triedEntries.map Prod.snd
  new_nodup : ∀ b, (sam.newBuckets b).Nodup
  tried_nodup : (sam.triedEntries.map Prod.snd).Nodup
  new_le : ∀ b, (sam.newBuckets b).length ≤ newBucketSize
  tried_le : ∀ t, (sam.triedBuckets t).length ≤ triedBucketSize

variable {env sam}

theorem listed_iff {k : AddrKey} :
    sam.Listed env k ↔ ∃ o ∈ sam.addresses, ∃ v ∈ o, ∃ found ∈ env.deserializeNetAddress v.addr,
      env.netAddressKey found.1 found.2 = k := by
  constructor
  · rintro ⟨v, found, hv, hf, hk⟩
    exact ⟨some v, hv, v, rfl, found, hf, hk⟩
  · rintro ⟨_, ho, v, rfl, found, hf, hk⟩
    exact ⟨v, found, ho, hf, hk⟩

theorem unread_iff : sam.Unread env ↔ ∃ o ∈ sam.addresses, ∃ v ∈ o,
      env.deserializeNetAddress v.addr = none ∨ env.deserializeNetAddress v.src = none := by
  constructor
  · rintro ⟨v, hv, hn⟩
    exact ⟨some v, hv, v, rfl, hn⟩
  · rintro ⟨_, ho, v, rfl, hn⟩
    exact ⟨v, ho, hn⟩

theorem forall_listed_iff {Q : AddrKey → Prop} :
    (∀ k, sam.Listed env k → Q k) ↔ ∀ o ∈ sam.addresses, ∀ v ∈ o,
      ∀ found ∈ env.deserializeNetAddress v.addr, Q (env.netAddressKey found.1 found.2) := by
  constructor
  · intro h o ho v hv found hf
    exact h _ (listed_iff.2 ⟨o, ho, v, hv, found, hf, rfl⟩)
  · intro h k hk
    obtain ⟨o, ho, v, hv, found, hf, rfl⟩ := listed_iff.1 hk
    exact h o ho v hv found hf

instance (k : AddrKey) : Decidable (sam.Listed env k) := decidable_of_iff _ listed_iff.symm

instance : Decidable (sam.Unread env) := decidable_of_iff _ unread_iff.symm

instance : Decidable (sam.Uncounted env) :=
  inferInstanceAs (Decidable (∀ k ∈ List.head? _, ¬sam.Listed env k))

instance {Q : AddrKey → Prop} [DecidablePred Q] : Decidable (∀ k, sam.Listed env k → Q k) :=
  decidable_of_iff _ forall_listed_iff.symm

instance : Decidable (sam.Consistent env) := decidable_of_iff _ (consistent_iff env sam).symm

end SerializedAddrManager

/-- A file that is consistent, or whose load fails before an entry of a bucket has been counted. -/
def PeersFile.Loadable (env : AddrEnv) : PeersFile → Prop
  | .missing => True
  | .malformed => True
  | .decoded sam => sam.version ≠ serialisationVersion ∨ sam.Unread env ∨ sam.Uncounted env ∨
      sam.Consistent env

instance (env : AddrEnv) (file : PeersFile) : Decidable (file.Loadable env) :=
  match file with
  | .missing => isTrue trivial
  | .malformed => isTrue trivial
  | .decoded _ => inferInstanceAs (Decidable (_ ≠ _ ∨ _ ∨ _ ∨ _))

namespace AddrManager

variable {env : AddrEnv} {pending : AddrKey → Prop} {a a' : AddrManager} {cap : Nat} {now : Int}
  {sam : SerializedAddrManager}

/-! ### Loading -/

/-- A manager whose buckets are empty and whose counters are zero. -/
structure Vacant (a : AddrManager) : Prop where
  new : ∀ b k, k ∉ a.addrNew b
  tried : ∀ t, a.addrTried t = []
  nNew_eq : a.nNew = 0
  nTried_eq : a.nTried = 0

theorem Vacant.buckets_eq (h : a.Vacant) (k : AddrKey) : buckets a.addrNew k = ∅ :=
  eq_empty_of_forall_notMem fun b hb => h.new b k (mem_buckets.1 hb)

theorem Vacant.newKeys_eq (h : a.Vacant) : newKeys a.addrNew = ∅ :=
  eq_empty_of_forall_notMem fun k hk => (mem_newKeys.1 hk).elim fun b => h.new b k

theorem Vacant.sized (h : a.Vacant) : a.Sized cap := by
  refine ⟨fun b => ?_, fun t => ?_⟩
  · have he : (a.addrNew b).keys = ∅ :=
      eq_empty_of_forall_notMem fun k hk => h.new b k (mem_keys.1 hk)
    rw [he]
    exact Nat.zero_le cap
  · rw [h.tried t]
    exact Nat.zero_le _

theorem Vacant.wf (h : a.Vacant) (hi : ∀ k, a.addrIndex.lookup k = none) : a.WF env pending 0 := by
  have hn : ∀ {k p}, a.addrIndex.lookup k ≠ some p := by
    intro k p hk
    rw [hi k] at hk
    cases hk
  refine ⟨fun hk => absurd hk hn, fun hk => absurd (mem_of_lookup_eq_some hk) (h.new _ _),
    fun hp => ?_, fun hk => absurd hk hn, fun hk => absurd hk hn, fun hk => absurd hk hn,
    fun t => ?_, fun hp => ?_, ?_, ?_⟩
  · rw [h.tried] at hp
    cases hp
  · rw [h.tried t]
    exact nodup_nil
  · rw [h.tried] at hp
    cases hp
  · rw [h.nNew_eq, h.newKeys_eq]
    rfl
  · simp [h.nTried_eq, h.tried]

theorem WF.vacant (h : a.Sound env) (hi : ∀ k, a.addrIndex.lookup k = none) : a.Vacant := by
  have hn : ∀ b k, k ∉ a.addrNew b := by
    intro b k hm
    obtain ⟨p, hp⟩ := mem_iff.1 hm
    have := h.new_mem hp
    rw [hi k] at this
    cases this
  have ht : ∀ t, a.addrTried t = [] := by
    intro t
    refine eq_nil_iff_forall_not_mem.2 fun p hp => ?_
    have := (h.tried_mem hp).1
    rw [hi] at this
    cases this
  refine ⟨hn, ht, ?_, ?_⟩
  · have hke : newKeys a.addrNew = ∅ :=
      eq_empty_of_forall_notMem fun k hk => (mem_newKeys.1 hk).elim fun b => hn b k
    rw [h.nNew_eq, hke]
    rfl
  · rw [h.nTried_eq]
    simp [ht]

theorem keyOf_deserializeNetAddress {addr : AddrKey} {na : NetAddress}
    (h : deserializeNetAddress env now addr = some na) :
    ∃ found, env.deserializeNetAddress addr = some found ∧
      env.netAddressKey found.1 found.2 = env.keyOf na := by
  rw [deserializeNetAddress, map_eq_some_iff] at h
  obtain ⟨found, hf, rfl⟩ := h
  exact ⟨found, hf, rfl⟩

/-- A manager in which addresses are listed and none is in a bucket. -/
structure Listing (env : AddrEnv) (a : AddrManager) : Prop where
  wf : a.WF env (fun _ => True) 0
  vacant : a.Vacant

theorem Listing.tried_eq (h : a.Listing env) {k : AddrKey} {p : AddrPtr}
    (hp : a.addrIndex.lookup k = some p) : (a.heap p).tried = false := by
  rw [Bool.eq_false_iff]
  intro hy
  obtain ⟨t, ht⟩ := (h.wf.tried_place hp hy).2
  rw [h.vacant.tried t] at ht
  cases ht

theorem Listing.allocate (h : a.Listing env) (ka : KnownAddress) (hn : ka.tried = false)
    (hr : ka.refs = 0) : (a.allocate env ka).Listing env where
  wf := (h.wf.allocate ka (fun _ hq => h.tried_eq hq) (h.vacant.buckets_eq _) hn hr).mono
    fun _ _ _ _ => trivial
  vacant := ⟨h.vacant.new, h.vacant.tried, h.vacant.nNew_eq, h.vacant.nTried_eq⟩

/-- **The addresses of a file.** When all of them are read, they are those in the index. -/
theorem Listing.readAddresses (h : a.Listing env) {addresses : List (Option SerializedKnownAddress)}
    {read : AddrManager × Option PeersError} (hr : readAddresses env now addresses a = .ok read) :
    read.1.Listing env ∧ (read.2 = none →
      (∀ k, k ∈ read.1.addrIndex ↔ k ∈ a.addrIndex ∨ ∃ v found, some v ∈ addresses ∧
        env.deserializeNetAddress v.addr = some found ∧
        env.netAddressKey found.1 found.2 = k) ∧
      ∀ v, some v ∈ addresses → env.deserializeNetAddress v.addr ≠ none ∧
        env.deserializeNetAddress v.src ≠ none) := by
  induction addresses generalizing a with
  | nil =>
    cases hr
    refine ⟨h, fun _ => ⟨fun k => ?_, fun v hv => by cases hv⟩⟩
    simp
  | cons o addresses ih =>
    cases o with
    | none => cases hr
    | some v =>
      rw [readAddresses] at hr
      cases hna : deserializeNetAddress env now v.addr with
      | none =>
        rw [hna] at hr
        cases hr
        exact ⟨h, fun hn => by cases hn⟩
      | some na =>
        cases hs : deserializeNetAddress env now v.src with
        | none =>
          rw [hna, hs] at hr
          cases hr
          exact ⟨h, fun hn => by cases hn⟩
        | some srcAddr =>
          rw [hna, hs] at hr
          obtain ⟨found, hf, hke⟩ := keyOf_deserializeNetAddress hna
          obtain ⟨found', hf', -⟩ := keyOf_deserializeNetAddress hs
          obtain ⟨hl, ha⟩ := ih (h.allocate _ rfl rfl) hr
          refine ⟨hl, fun hn => ⟨fun k => ?_, ?_⟩⟩
          · rw [(ha hn).1 k, AddrManager.allocate, Finmap.mem_insert]
            simp only [List.mem_cons, some.injEq]
            constructor
            · rintro ((rfl | hk) | ⟨v', found'', hv', hre⟩)
              · exact .inr ⟨v, found, .inl rfl, hf, hke⟩
              · exact .inl hk
              · exact .inr ⟨v', found'', .inr hv', hre⟩
            · rintro (hk | ⟨v', found'', rfl | hv', hre⟩)
              · exact .inl (.inr hk)
              · cases hf.symm.trans hre.1
                exact .inl (.inl (hre.2.symm.trans hke))
              · exact .inr ⟨v', found'', hv', hre⟩
          · intro v' hv'
            obtain heq | hv' := mem_cons.1 hv'
            · cases heq
              rw [hf, hf']
              exact ⟨some_ne_none _, some_ne_none _⟩
            · exact (ha hn).2 v' hv'

/-- **The new buckets of a file**, whose entries are listed and differ. -/
theorem WF.readNewBuckets (h : a.WF env pending 0)
    {entries : List (Fin newBucketCount × AddrKey)} (hn : entries.Nodup)
    (hl : ∀ e ∈ entries, ∃ p, a.addrIndex.lookup e.2 = some p ∧ (a.heap p).tried = false)
    (hnw : ∀ e ∈ entries, e.2 ∉ a.addrNew e.1) :
    ∃ a', readNewBuckets entries a = (a', none) ∧
      a'.WF env (fun k => pending k ∧ k ∉ entries.map Prod.snd) 0 ∧
      a'.addrIndex = a.addrIndex ∧ a'.addrTried = a.addrTried ∧
      (∀ p, (a'.heap p).tried = (a.heap p).tried) ∧
      ∀ b k, k ∈ a'.addrNew b ↔ k ∈ a.addrNew b ∨ (b, k) ∈ entries := by
  induction entries generalizing a pending with
  | nil =>
    refine ⟨a, rfl, h.mono fun k _ _ hk => ⟨hk, not_mem_nil⟩, rfl, rfl, fun _ => rfl, fun b k => ?_⟩
    simp
  | cons e entries ih =>
    rw [nodup_cons] at hn
    obtain ⟨p, hp, hno⟩ := hl e mem_cons_self
    have hnm := hnw e mem_cons_self
    have hre := h.refs_eq hp
    -- the counter goes up exactly when the address is in no new bucket yet
    obtain ⟨a₁, hr, hwf, hi, ha, ht, han⟩ : ∃ a₁,
        readNewBuckets (e :: entries) a = readNewBuckets entries a₁ ∧
        a₁.WF env (fun k => k ≠ e.2 ∧ pending k) 0 ∧ a₁.addrIndex = a.addrIndex ∧
        a₁.addrTried = a.addrTried ∧ (∀ p, (a₁.heap p).tried = (a.heap p).tried) ∧
        a₁.addrNew = (a.putNew e.1 e.2 p).addrNew := by
      rw [readNewBuckets, hp]
      by_cases hz : (a.heap p).refs = 0
      · have he : buckets a.addrNew e.2 = ∅ := by
          rw [hz] at hre
          exact card_eq_zero.1 (Int.natCast_eq_zero.1 hre.symm)
        have hpu := (h.setNNew 1).putNew hp hno hnm
        have hnn : e.2 ∉ newKeys a.addrNew := fun hm =>
          mem_newKeys_iff_buckets.1 hm he
        rw [if_neg hnn] at hpu
        refine ⟨_, if_pos hz, hpu, rfl, rfl, fun q => ?_, rfl⟩
        rw [tried_putNew]
      · have hm : e.2 ∈ newKeys a.addrNew := by
          refine mem_newKeys_iff_buckets.2 fun he => hz ?_
          rw [hre, he]
          rfl
        have hpu := h.putNew hp hno hnm
        rw [if_pos hm] at hpu
        exact ⟨_, if_neg hz, hpu, rfl, rfl, fun q => tried_putNew, rfl⟩
    obtain ⟨a₂, hr₂, hwf₂, hi₂, ha₂, ht₂, hm₂⟩ := ih hwf hn.2 (fun e' he' => by
        obtain ⟨p', hp', hno'⟩ := hl e' (mem_cons_of_mem e he')
        exact ⟨p', hi ▸ hp', (ht p').trans hno'⟩)
      (fun e' he' hm => by
        rw [han, mem_addrNew_putNew] at hm
        obtain ⟨h₁, h₂⟩ | hm := hm
        · exact hn.1 (Prod.ext h₁ h₂ ▸ he')
        · exact hnw e' (List.mem_cons_of_mem e he') hm)
    refine ⟨a₂, hr.trans hr₂, hwf₂.mono fun k _ _ hk => ?_, hi₂.trans hi,
      ha₂.trans ha, fun q => (ht₂ q).trans (ht q), fun b k => ?_⟩
    · rw [List.map_cons, List.mem_cons, not_or]
      exact ⟨hk.1.2, hk.1.1, hk.2⟩
    · rw [hm₂, han, mem_addrNew_putNew, List.mem_cons, Prod.ext_iff]
      tauto

/-- **The tried buckets of a file**, whose entries are listed, are in no other bucket and differ. -/
theorem WF.readTriedBuckets (h : a.WF env pending 0)
    {entries : List (Fin triedBucketCount × AddrKey)} (hn : (entries.map Prod.snd).Nodup)
    (hl : ∀ e ∈ entries, ∃ p, a.addrIndex.lookup e.2 = some p ∧ (a.heap p).tried = false)
    (he : ∀ e ∈ entries, buckets a.addrNew e.2 = ∅) :
    ∃ a', readTriedBuckets entries a = (a', none) ∧
      a'.WF env (fun k => pending k ∧ k ∉ entries.map Prod.snd) 0 ∧
      a'.addrIndex = a.addrIndex ∧ a'.addrNew = a.addrNew ∧
      ∀ t p, p ∈ a'.addrTried t →
        p ∈ a.addrTried t ∨ ∃ k, (t, k) ∈ entries ∧ a.addrIndex.lookup k = some p := by
  induction entries generalizing a pending with
  | nil =>
    exact ⟨a, rfl, h.mono fun k _ _ hk => ⟨hk, not_mem_nil⟩, rfl, rfl, fun t p hp =>
      .inl hp⟩
  | cons e entries ih =>
    rw [List.map_cons, nodup_cons] at hn
    obtain ⟨p, hp, hno⟩ := hl e List.mem_cons_self
    have hpu := h.pushTried hp hno (he e List.mem_cons_self) e.1
    have hr : readTriedBuckets (e :: entries) a =
        readTriedBuckets entries (a.pushTried e.1 p) := by
      rw [readTriedBuckets, hp]
    obtain ⟨a₂, hr₂, hwf₂, hi₂, ha₂, hm₂⟩ := ih hpu hn.2 (fun e' he' => by
        obtain ⟨p', hp', hno'⟩ := hl e' (mem_cons_of_mem e he')
        refine ⟨p', hp', ?_⟩
        have hne : p' ≠ p := by
          rintro rfl
          exact hn.1 (h.key_eq hp hp' ▸ mem_map_of_mem he')
        rw [AddrManager.pushTried, heap_modify, if_neg hne]
        exact hno')
      (fun e' he' => he e' (List.mem_cons_of_mem e he'))
    refine ⟨a₂, hr.trans hr₂, hwf₂.mono fun k _ _ hk => ?_, hi₂, ha₂, fun t q hq => ?_⟩
    · rw [List.map_cons, List.mem_cons, not_or]
      exact ⟨hk.1.2, hk.1.1, hk.2⟩
    · obtain hq | ⟨k, hk, hkq⟩ := hm₂ t q hq
      · obtain ⟨rfl, rfl⟩ | ho := mem_update_append.1 hq
        · exact .inr ⟨e.2, List.mem_cons_self, hp⟩
        · exact .inl ho
      · exact .inr ⟨k, mem_cons_of_mem e hk, hkq⟩

theorem WF.not_insane (h : a.Sound env) (k : AddrKey) : ¬ a.Insane k := by
  rintro ⟨p, hp, ⟨hz, hn⟩ | ⟨hpo, hy⟩⟩
  · rw [h.refs_eq hp] at hz
    exact h.placed hp hn (card_eq_zero.1 (Int.natCast_eq_zero.1 hz))
  · rw [h.refs_eq hp, (h.tried_place hp hy).1] at hpo
    exact absurd hpo (by decide)

/-- **The buckets of a consistent file.** -/
theorem Listing.readBuckets_consistent (h : a.Listing env) (hs : sam.Consistent env)
    (hi : ∀ k, k ∈ a.addrIndex ↔ sam.Listed env k) (hc : newBucketSize ≤ cap) :
    ∃ a', readBuckets sam a = (a', none) ∧ a'.Sound env ∧ a'.Sized cap := by
  have hl : ∀ k, sam.Listed env k → ∃ p, a.addrIndex.lookup k = some p :=
    fun k hk => mem_iff.1 ((hi k).2 hk)
  obtain ⟨a₁, hr₁, hwf₁, hi₁, ha₁, ht₁, hm₁⟩ :=
    h.wf.readNewBuckets (nodup_newEntries hs.new_nodup)
      (fun e he => (hl e.2 (hs.new_listed e he)).imp fun p hp => ⟨hp, h.tried_eq hp⟩)
      (fun e _ => h.vacant.new e.1 e.2)
  have hn₁ : ∀ b k, k ∈ a₁.addrNew b ↔ k ∈ sam.newBuckets b := by
    intro b k
    rw [hm₁, mem_newEntries]
    exact or_iff_right (h.vacant.new b k)
  obtain ⟨a₂, hr₂, hwf₂, hi₂, han₂, hm₂⟩ :=
    hwf₁.readTriedBuckets hs.tried_nodup (fun e he => by
        obtain ⟨p, hp⟩ := hl e.2 (hs.tried_listed e he)
        exact ⟨p, hi₁ ▸ hp, (ht₁ p).trans (h.tried_eq hp)⟩)
      (fun e he => by
        refine eq_empty_of_forall_notMem fun b hb => ?_
        have hen : (b, e.2) ∈ sam.newEntries :=
          mem_newEntries.2 ((hn₁ b e.2).1 (mem_buckets.1 hb))
        exact hs.separate e.2 (mem_map.2 ⟨_, hen, rfl⟩) (mem_map_of_mem he))
  have hwf : a₂.Sound env := by
    refine hwf₂.mono fun k p hp hk => ?_
    have hli : sam.Listed env k := (hi k).1 (mem_of_lookup_eq_some (hi₁ ▸ hi₂ ▸ hp))
    exact (hs.placed k hli).elim hk.1.2 hk.2
  refine ⟨a₂, ?_, hwf, fun b => ?_, fun t => ?_⟩
  · rw [readBuckets, hr₁]
    rw [hr₂]
    dsimp only
    rw [if_neg]
    rintro ⟨k, -, hin⟩
    exact hwf.not_insane k hin
  · have hsu : (a₂.addrNew b).keys ⊆ (sam.newBuckets b).toFinset := by
      intro k hk
      rw [han₂, Finmap.mem_keys, hn₁] at hk
      exact mem_toFinset.2 hk
    exact ((card_le_card hsu).trans (toFinset_card_le _)).trans ((hs.new_le b).trans hc)
  · -- the keys of the records in the bucket are different ones of the bucket of the file
    have hke : ((a₂.addrTried t).map fun p => env.keyOf (a₂.heap p).na).Nodup := by
      refine (hwf.nodup t).map_on fun p hp q hq heq => ?_
      have hp' := (hwf.tried_mem hp).1
      rw [heq, (hwf.tried_mem hq).1] at hp'
      exact (some.inj hp').symm
    have hsu : ((a₂.addrTried t).map fun p => env.keyOf (a₂.heap p).na) ⊆ sam.triedBuckets t := by
      intro k hk
      obtain ⟨p, hp, rfl⟩ := mem_map.1 hk
      obtain ho | ⟨k, hen, hkp⟩ := hm₂ t p hp
      · rw [ha₁, h.vacant.tried t] at ho
        cases ho
      · rw [← hi₂] at hkp
        rw [hwf.key_eq (hwf.tried_mem hp).1 hkp]
        exact mem_triedEntries.1 hen
    have hle := (hke.subperm hsu).length_le
    rw [length_map] at hle
    exact hle.trans (hs.tried_le t)

/-- **The buckets of a file in which nothing is counted**: the load fails, or there is nothing to
load. -/
theorem Listing.readBuckets_uncounted (h : a.Listing env) (hsa : sam.Uncounted env)
    (hin : ∀ k, k ∈ a.addrIndex ↔ sam.Listed env k) :
    (readBuckets sam a).1 = a ∧
      ((readBuckets sam a).2 = none → ∀ k, a.addrIndex.lookup k = none) := by
  have hn : ∀ k, ¬ sam.Listed env k → a.addrIndex.lookup k = none := by
    intro k hk
    rw [← hin] at hk
    exact lookup_eq_none.2 hk
  rw [SerializedAddrManager.Uncounted] at hsa
  rw [readBuckets]
  cases hnw : sam.newEntries with
  | cons e entries =>
    rw [hnw] at hsa
    have hl := hn e.2 (hsa e.2 rfl)
    have hr : readNewBuckets (e :: entries) a = (a, some (.newBucket e.2)) := by
      rw [readNewBuckets, hl]
    rw [hr]
    exact ⟨rfl, fun hok => by cases hok⟩
  | nil =>
    have hr : readNewBuckets [] a = (a, none) := rfl
    rw [hr]
    cases ht : sam.triedEntries with
    | cons e entries =>
      rw [hnw, ht] at hsa
      have hl := hn e.2 (hsa e.2 rfl)
      have hr : readTriedBuckets (e :: entries) a = (a, some (.triedBucket e.2)) := by
        rw [readTriedBuckets, hl]
      rw [hr]
      exact ⟨rfl, fun hok => by cases hok⟩
    | nil =>
      have hr : readTriedBuckets [] a = (a, none) := rfl
      rw [hr]
      dsimp only
      split_ifs with hi
      · exact ⟨rfl, fun hok => by cases hok⟩
      refine ⟨rfl, fun _ k => ?_⟩
      -- a listed address would fail the check
      by_contra hs
      obtain ⟨p, hp⟩ := ne_none_iff_exists'.1 hs
      refine hi ⟨k, mem_keys.2 (mem_of_lookup_eq_some hp), p, hp,
        .inl ⟨?_, h.tried_eq hp⟩⟩
      rw [h.wf.refs_eq hp, h.vacant.buckets_eq k]
      rfl

/-- **The load of a file into an empty manager.** -/
theorem WF.loadPeers (h : a.Sound env) (hi : ∀ k, a.addrIndex.lookup k = none)
    {file : PeersFile} (hf : file.Loadable env) {key : List UInt8}
    (hl : a.loadPeers env now key file = .ok a') (hca : newBucketSize ≤ cap) :
    a'.Sound env ∧ a'.Sized cap := by
  have hva := h.vacant hi
  have hr : ∀ {b : AddrManager}, b.Vacant →
      (b.reset key).Sound env ∧ (b.reset key).Sized cap := by
    intro b hb
    have hva : (b.reset key).Vacant :=
      ⟨fun _ _ => notMem_empty, fun _ => rfl, hb.nNew_eq, hb.nTried_eq⟩
    exact ⟨hva.wf fun _ => lookup_empty _, hva.sized⟩
  rw [AddrManager.loadPeers] at hl
  cases file with
  | missing =>
    cases hl
    exact ⟨h, hva.sized⟩
  | malformed =>
    cases hl
    exact hr hva
  | decoded sam =>
    rw [deserializePeers] at hl
    by_cases hve : sam.version ≠ serialisationVersion
    · rw [if_pos hve] at hl
      cases hl
      exact hr hva
    rw [if_neg hve] at hl
    have hlg : Listing env { a with key := sam.key } := by
      have hva' : Vacant { a with key := sam.key } :=
        ⟨hva.new, hva.tried, hva.nNew_eq, hva.nTried_eq⟩
      exact ⟨hva'.wf hi, hva'⟩
    cases hre : readAddresses env now sam.addresses { a with key := sam.key } with
    | error e =>
      rw [hre] at hl
      cases hl
    | ok read =>
      rw [hre] at hl
      obtain ⟨hli, ha⟩ := hlg.readAddresses hre
      dsimp only at hl
      cases he : read.2 with
      | some e =>
        rw [he] at hl
        cases hl
        exact hr hli.vacant
      | none =>
        rw [he] at hl
        obtain ⟨hk, hpa⟩ := ha he
        have hk' : ∀ k, k ∈ read.1.addrIndex ↔ sam.Listed env k := by
          intro k
          rw [hk k]
          refine or_iff_right fun hm => ?_
          obtain ⟨p, hp⟩ := mem_iff.1 hm
          exact absurd (hp.symm.trans (hi k)) (some_ne_none p)
        obtain hve' | ⟨v, hv, hun⟩ | hu | hc := hf
        · exact absurd hve' hve
        · exact absurd hun (not_or.2 (hpa v hv))
        · obtain ⟨hs, hem⟩ := hli.readBuckets_uncounted hu hk'
          dsimp only at hl
          cases hbu : (readBuckets sam read.1).2 with
          | none =>
            rw [hbu, hs] at hl
            cases hl
            exact ⟨hli.vacant.wf (hem hbu), hli.vacant.sized⟩
          | some e =>
            rw [hbu, hs] at hl
            cases hl
            exact hr hli.vacant
        · obtain ⟨a₂, hbu, hwf, hsi⟩ :=
            hli.readBuckets_consistent hc hk' hca
          rw [hbu] at hl
          cases hl
          exact ⟨hwf, hsi⟩

/-! ### What one expects -/

/-- **The invariant of the address manager.** -/
structure Inv (a : AddrManager) : Prop where
  nNew_eq : a.nNew = {k | k ∈ a.addrIndex ∧ ∃ b, k ∈ a.addrNew b}.ncard
  nTried_eq : a.nTried = {k | ∃ p ∈ a.addrIndex.lookup k, ∃ t, p ∈ a.addrTried t}.ncard
  refs_eq : ∀ k, ∀ p ∈ a.addrIndex.lookup k, (a.heap p).refs = {b | k ∈ a.addrNew b}.ncard
  separate : ∀ k, ∀ p ∈ a.addrIndex.lookup k, (∃ b, k ∈ a.addrNew b) → ∀ t, p ∉ a.addrTried t
  new_le : ∀ b, (a.addrNew b).keys.card ≤ newBucketSize
  tried_le : ∀ t, (a.addrTried t).length ≤ triedBucketSize
  search : 0 < a.numAddresses → ∀ coin,
    if a.searchesTried coin then ∃ t, a.addrTried t ≠ [] else ∃ b k, k ∈ a.addrNew b

theorem WF.ncard_tried (h : a.Sound env) :
    {k | ∃ p ∈ a.addrIndex.lookup k, ∃ t, p ∈ a.addrTried t}.ncard =
      ∑ t, (a.addrTried t).length := by
  have hs : {k | ∃ p ∈ a.addrIndex.lookup k, ∃ t, p ∈ a.addrTried t} =
      ((triedPtrs a.addrTried).image fun p => env.keyOf (a.heap p).na : Finset AddrKey) := by
    ext k
    rw [mem_coe, mem_image]
    constructor
    · rintro ⟨p, hp, ht⟩
      exact ⟨p, mem_triedPtrs.2 ht, (h.index hp).1⟩
    · rintro ⟨p, hp, rfl⟩
      obtain ⟨t, ht⟩ := mem_triedPtrs.1 hp
      exact ⟨p, (h.tried_mem ht).1, t, ht⟩
  rw [hs, Set.ncard_coe_finset, card_image_of_injOn, card_triedPtrs h.nodup h.disjoint]
  intro p hp q hq heq
  obtain ⟨t, ht⟩ := mem_triedPtrs.1 (mem_coe.1 hp)
  obtain ⟨t', ht'⟩ := mem_triedPtrs.1 (mem_coe.1 hq)
  have hp' := (h.tried_mem ht).1
  rw [show env.keyOf (a.heap p).na = env.keyOf (a.heap q).na from heq, (h.tried_mem ht').1] at hp'
  exact (some.inj hp').symm

theorem WF.inv (h : a.Sound env) (hs : a.Sized newBucketSize) : a.Inv := by
  have hnw : {k | k ∈ a.addrIndex ∧ ∃ b, k ∈ a.addrNew b} = (newKeys a.addrNew : Set AddrKey) := by
    ext k
    rw [mem_coe, mem_newKeys]
    refine and_iff_right_of_imp fun ⟨b, hb⟩ => ?_
    obtain ⟨p, hp⟩ := mem_iff.1 hb
    exact mem_of_lookup_eq_some (h.new_mem hp)
  have hnn := h.nNew_eq
  have hn := h.nTried_eq
  refine ⟨?_, ?_, fun k p hp => ?_, fun k p hp hm t ht => ?_, hs.new_le, hs.tried_le,
    fun hpo coin => ?_⟩
  · rw [hnw, Set.ncard_coe_finset, hnn, Int.add_zero]
  · rw [h.ncard_tried, hn, Nat.cast_sum]
  · have hse : {b | k ∈ a.addrNew b} = (buckets a.addrNew k : Set (Fin newBucketCount)) := by
      ext b
      rw [Set.mem_ofPred_eq, mem_coe, mem_buckets]
    rw [hse, Set.ncard_coe_finset, h.refs_eq hp]
  · obtain ⟨b, hb⟩ := hm
    have hm := mem_buckets.2 hb
    rw [(h.tried_place hp (h.tried_mem ht).2).1] at hm
    exact absurd hm (notMem_empty b)
  · have hng : 0 ≤ a.nTried := by
      rw [hn]
      exact sum_nonneg fun _ _ => Int.natCast_nonneg _
    rw [numAddresses] at hpo
    split_ifs with hw
    · rw [searchesTried, Bool.and_eq_true, decide_eq_true_eq] at hw
      by_contra hno
      have he : ∀ t, a.addrTried t = [] := fun t => not_not.1 fun ht => hno ⟨t, ht⟩
      simp only [he, length_nil, Nat.cast_zero, sum_const_zero] at hn
      omega
    · have hnN : 0 < a.nNew := by
        by_contra hle
        refine hw ?_
        have hz : a.nNew = 0 := by omega
        rw [searchesTried, hz, decide_eq_true (by omega : 0 < a.nTried)]
        rfl
      have hc : 0 < (newKeys a.addrNew).card := by omega
      obtain ⟨k, hk⟩ := card_pos.1 hc
      obtain ⟨b, hb⟩ := mem_newKeys.1 hk
      exact ⟨b, k, hb⟩

/-- The calls that keep the invariant. A file is missing or loaded into an empty manager, and no
address is put into a full bucket. -/
def Safe (env : AddrEnv) (a : AddrManager) : AddrEvent → Prop
  | .loadPeers file _ _ => file matches .missing ∨ (∀ k, k ∉ a.addrIndex) ∧ file.Loadable env
  | .addAddress addr srcAddr draw _ => a.Adds env addr draw →
      env.keyOf addr ∉ a.addrNew (a.getNewBucket env addr srcAddr) →
      (a.addrNew (a.getNewBucket env addr srcAddr)).keys.card ≠ newBucketSize
  | _ => True

instance (event : AddrEvent) : Decidable (a.Safe env event) :=
  match event with
  | .loadPeers file _ _ =>
      decidable_of_iff (file matches .missing ∨ a.addrIndex.keys = ∅ ∧ file.Loadable env)
        (or_congr_right (and_congr_left' (by simp [eq_empty_iff_forall_notMem, Finmap.mem_keys])))
  | .addAddress _ _ _ _ => inferInstanceAs (Decidable (a.Adds .. → _ ∉ a.addrNew _ → _ ≠ _))
  | .expireNew .. => isTrue trivial
  | .good .. => isTrue trivial
  | .attempt .. => isTrue trivial
  | .connected .. => isTrue trivial

/-- **A safe call keeps the invariant.** -/
theorem WF.step (h : a.Sound env) (hs : a.Sized newBucketSize)
    {event : AddrEvent} (hp : a.Possible env event) (hsa : a.Safe env event)
    (hst : a.step env event = .ok a') : a'.Sound env ∧ a'.Sized newBucketSize := by
  cases event with
  | loadPeers file now key =>
    obtain hm | hsa := hsa
    · cases file with
      | missing =>
        cases hst
        exact ⟨h, hs⟩
      | malformed => cases hm
      | decoded sam => cases hm
    · exact h.loadPeers (fun k => lookup_eq_none.2 (hsa.1 k)) hsa.2 hst le_rfl
  | addAddress addr srcAddr draw order =>
    obtain ⟨a₁, hu, hwf, hs₁⟩ := h.updateAddress newBucketSize hp
    cases hu.symm.trans hst
    refine ⟨hwf, hs₁ hs fun ha hn => .inl ?_⟩
    exact lt_of_le_of_ne (hs.new_le _) (hsa ha hn)
  | expireNew bucket order =>
    cases hst
    obtain ⟨hwf, he, -⟩ := h.expireNew hp
    refine ⟨hwf, fun b => (he.card_le b).trans (hs.new_le b), fun t => ?_⟩
    rw [he.addrTried_eq]
    exact hs.tried_le t
  | good addr now =>
    obtain ⟨a₁, hg, hwf, hs₁⟩ := h.good newBucketSize addr now
    cases hg.symm.trans hst
    exact ⟨hwf, hs₁ hs le_rfl⟩
  | attempt addr now =>
    cases hst
    exact ⟨h.attempt addr now, hs.attempt addr now⟩
  | connected addr now =>
    cases hst
    exact ⟨h.connected addr now, hs.connected addr now⟩

end AddrManager

open Runs in
/-- **The invariant of the address manager** holds along safe calls. -/
theorem addrManager_invariant {env : AddrEnv} {key : List UInt8} {events : List AddrEvent}
    {a : AddrManager}
    (hrun : Run (step env) (fun a event => a.Possible env event ∧ a.Safe env event)
      (new key) events a) : a.Inv := by
  have hv : (new key).Vacant := ⟨fun _ _ => notMem_empty, fun _ => rfl, rfl, rfl⟩
  have hi : a.Sound env ∧ a.Sized newBucketSize :=
    hrun.invariant (P := fun a => a.Sound env ∧ a.Sized newBucketSize)
      ⟨hv.wf fun _ => lookup_empty _, hv.sized⟩
      fun _ _ _ h hok hs => h.1.step h.2 hok.1 hok.2 hs
  exact hi.1.inv hi.2

/-- Addresses are one byte, and all of them are in one group. -/
def sampleAddrEnv : AddrEnv where
  prim := .polynomial
  isRoutable _ := true
  groupKey _ := []
  netAddressKey ip _ := ip
  deserializeNetAddress addr := some (addr, 0)

/-- An address of one byte. -/
def sampleAddress (n : Nat) : NetAddress := ⟨0, 1, [UInt8.ofNat n], 0⟩

/-- A file with the addresses 1, which is new, and 2, which is tried. -/
def consistentFile : SerializedAddrManager where
  version := 1
  key := []
  addresses := [some ⟨[1], [1], 0, 0, 0⟩, some ⟨[2], [1], 0, 0, 0⟩]
  newBuckets b := if b.val = 7 then [[1]] else []
  triedBuckets t := if t.val = 0 then [[2]] else []

open Runs in
theorem addrManager_invariant_consistentFile : ∃ a, Run (step sampleAddrEnv)
        (fun a event => a.Possible sampleAddrEnv event ∧ a.Safe sampleAddrEnv event) (new [])
        [.loadPeers (.decoded consistentFile) 0 [],
          .addAddress (sampleAddress 3) (sampleAddress 1) 0 [], .good (sampleAddress 1) 0] a ∧
      (a.nNew = 1 ∧ a.nTried = 2) ∧ a.Inv :=
  exists_run_and (by decide +kernel) fun _ hr _ => addrManager_invariant hr

/-- A file whose first new bucket has an address that is listed and one that is not. -/
def unlistedFile : SerializedAddrManager where
  version := 1
  key := []
  addresses := [some ⟨[1], [1], 0, 0, 0⟩]
  newBuckets b := if b.val = 0 then [[1], [2]] else []
  triedBuckets _ := []

/-- One more address than a new bucket is to hold. -/
def oneTooMany : List AddrEvent :=
  (List.range (newBucketSize + 1)).map fun n =>
    .addAddress (sampleAddress n) (sampleAddress 0) 0 []

open Runs in
/-- A load that fails leaves the manager with an address to search for and no bucket that holds one,
and a new bucket grows beyond its size. -/
theorem addrManager_invariant_broken :
    (∃ a, Run (step sampleAddrEnv) (fun a event => a.Possible sampleAddrEnv event)
        (new []) [.loadPeers (.decoded unlistedFile) 0 []] a ∧
      (0 < a.numAddresses ∧ (∀ b, (a.addrNew b).keys = ∅) ∧ ∀ t, a.addrTried t = []) ∧
      ¬ a.Inv) ∧
    ∃ a, Run (step sampleAddrEnv) (fun a event => a.Possible sampleAddrEnv event)
        (new []) oneTooMany a ∧
      newBucketSize < (a.addrNew (a.getNewBucket sampleAddrEnv (sampleAddress 0)
        (sampleAddress 0))).keys.card ∧ ¬ a.Inv := by
  refine ⟨exists_run_and (by decide +kernel) fun a _ he hi => ?_,
    exists_run_and (by decide +kernel) fun a _ hl hi => ?_⟩
  · obtain ⟨hp, hn, htr⟩ := he
    have hs := hi.search hp 0
    split_ifs at hs
    · obtain ⟨t, ht⟩ := hs
      exact ht (htr t)
    · obtain ⟨b, k, hk⟩ := hs
      rw [← Finmap.mem_keys, hn b] at hk
      exact absurd hk (notMem_empty k)
  · exact absurd (hi.new_le _) (Nat.not_le.2 hl)

end DrcNode
