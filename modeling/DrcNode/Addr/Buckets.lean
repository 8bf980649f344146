import DrcNode.Addr.Manager
import Mathlib.Algebra.Order.BigOperators.Group.Finset

/-!
# The counters of the address manager

What holds of the index, the buckets, the records and the two counters between the calls, and what
each write to them does to it. Within a call an address may be in the index and in no bucket yet:
such an address is pending, and the counter of new addresses may be ahead of the buckets by some
number.
-/

namespace DrcNode

open Finmap Finset List Function KnownAddress Option

namespace AddrManager

/-- The new buckets. -/
abbrev NewBuckets := Fin newBucketCount → Finmap fun _ : AddrKey => AddrPtr

/-- The new buckets that hold a key. -/
def buckets (addrNew : NewBuckets) (k : AddrKey) : Finset (Fin newBucketCount) :=
  {b | k ∈ addrNew b}

/-- The keys in the new buckets. -/
def newKeys (addrNew : NewBuckets) : Finset AddrKey :=
  univ.biUnion fun b => (addrNew b).keys

variable {env : AddrEnv} {pending pending' : AddrKey → Prop} {extra : Int} {a : AddrManager}
  {addrNew : NewBuckets} {b : Fin newBucketCount} {k k' : AddrKey} {p q : AddrPtr}
  {heap : AddrPtr → KnownAddress} {b' : Fin newBucketCount}
  {addrTried : Fin triedBucketCount → List AddrPtr}

theorem mem_buckets : b ∈ buckets addrNew k ↔ k ∈ addrNew b := by
  rw [buckets, mem_filter_univ]

theorem mem_newKeys : k ∈ newKeys addrNew ↔ ∃ b, k ∈ addrNew b := by
  simp [newKeys, Finmap.mem_keys]

-- there are 1024 buckets, which are not to be gone through
attribute [irreducible] buckets newKeys

theorem mem_newKeys_iff_buckets : k ∈ newKeys addrNew ↔ buckets addrNew k ≠ ∅ := by
  rw [mem_newKeys, ← nonempty_iff_ne_empty, Finset.Nonempty]
  simp [mem_buckets]

theorem notMem_addrNew (h : buckets addrNew k = ∅) : k ∉ addrNew b := by
  rw [← mem_buckets, h]
  exact notMem_empty b

/-- The invariant within a call. -/
structure WF (env : AddrEnv) (pending : AddrKey → Prop) (extra : Int) (a : AddrManager) : Prop where
  index : ∀ {k p}, a.addrIndex.lookup k = some p →
    env.keyOf (a.heap p).na = k ∧ p < a.allocated
  new_mem : ∀ {b k p}, (a.addrNew b).lookup k = some p → a.addrIndex.lookup k = some p
  tried_mem : ∀ {b p}, p ∈ a.addrTried b →
    a.addrIndex.lookup (env.keyOf (a.heap p).na) = some p ∧ (a.heap p).tried = true
  refs_eq : ∀ {k p}, a.addrIndex.lookup k = some p → (a.heap p).refs = (buckets a.addrNew k).card
  placed : ∀ {k p}, a.addrIndex.lookup k = some p → (a.heap p).tried = false →
    buckets a.addrNew k = ∅ → pending k
  tried_place : ∀ {k p}, a.addrIndex.lookup k = some p → (a.heap p).tried = true →
    buckets a.addrNew k = ∅ ∧ ∃ b, p ∈ a.addrTried b
  nodup : ∀ b, (a.addrTried b).Nodup
  disjoint : ∀ {b b' p}, p ∈ a.addrTried b → p ∈ a.addrTried b' → b = b'
  nNew_eq : a.nNew = (newKeys a.addrNew).card + extra
  nTried_eq : a.nTried = ∑ b, ((a.addrTried b).length : Int)

/-- The invariant between the calls. -/
abbrev Sound (env : AddrEnv) (a : AddrManager) : Prop := a.WF env (fun _ => False) 0

/-! ### Records -/

@[simp] theorem heap_modify {f : KnownAddress → KnownAddress} :
    (a.modify p f).heap q = if q = p then f (a.heap p) else a.heap q := by
  exact update_apply _ _ _ _

theorem update_congr {α : Type} (proj : KnownAddress → α) {ka : KnownAddress}
    (h : proj ka = proj (heap p)) (q : AddrPtr) : proj (update heap p ka q) = proj (heap q) := by
  rw [update_apply]
  split_ifs with hq
  · rw [h, hq]
  · rfl

section

variable (h : a.WF env pending extra)
include h

/-- What the invariant reads of a record is its key, whether it is tried, and its references. -/
theorem WF.congr_heap (hk : ∀ q, env.keyOf (heap q).na = env.keyOf (a.heap q).na)
    (ht : ∀ q, (heap q).tried = (a.heap q).tried) (hr : ∀ q, (heap q).refs = (a.heap q).refs) :
    WF env pending extra { a with heap } where
  index hp := by
    rw [hk]
    exact h.index hp
  new_mem := h.new_mem
  tried_mem hp := by
    rw [hk, ht]
    exact h.tried_mem hp
  refs_eq hp := by
    rw [hr]
    exact h.refs_eq hp
  placed hp hn he := by
    rw [ht] at hn
    exact h.placed hp hn he
  tried_place hp hy := by
    rw [ht] at hy
    exact h.tried_place hp hy
  nodup := h.nodup
  disjoint := h.disjoint
  nNew_eq := h.nNew_eq
  nTried_eq := h.nTried_eq

theorem WF.modify {f : KnownAddress → KnownAddress}
    (hk : env.keyOf (f (a.heap p)).na = env.keyOf (a.heap p).na)
    (ht : (f (a.heap p)).tried = (a.heap p).tried)
    (hr : (f (a.heap p)).refs = (a.heap p).refs) : (a.modify p f).WF env pending extra :=
  h.congr_heap (update_congr (fun ka => env.keyOf ka.na) hk)
    (update_congr tried ht) (update_congr refs hr)

theorem WF.setNNew (n : Int) : WF env pending (extra + n) { a with nNew := a.nNew + n } := by
  have hc := h.nNew_eq
  refine { h with nNew_eq := ?_ }
  change a.nNew + n = (newKeys a.addrNew).card + (extra + n)
  omega

theorem WF.mono (hi : ∀ k p, a.addrIndex.lookup k = some p → pending k → pending' k) :
    a.WF env pending' extra :=
  { h with placed := fun hp hn he => hi _ _ hp (h.placed hp hn he) }

theorem WF.key_eq (hk : a.addrIndex.lookup k = some p)
    (hk' : a.addrIndex.lookup k' = some p) : k = k' :=
  (h.index hk).1.symm.trans (h.index hk').1

end

/-! ### New buckets -/

section Fields

variable (a b k p)

@[simp] theorem nNew_putNew : (a.putNew b k p).nNew = a.nNew := rfl
@[simp] theorem nNew_eraseNew : (a.eraseNew b k p).nNew = a.nNew := rfl

end Fields

theorem heap_putNew : (a.putNew b k p).heap q =
    if q = p then { a.heap p with refs := (a.heap p).refs + 1 } else a.heap q := by
  rw [putNew, heap_modify]

theorem heap_eraseNew : (a.eraseNew b k p).heap q =
    if q = p then { a.heap p with refs := (a.heap p).refs - 1 } else a.heap q := by
  rw [eraseNew, heap_modify]

theorem tried_putNew : ((a.putNew b k p).heap q).tried = (a.heap q).tried :=
  update_congr tried (by rfl) q

theorem na_putNew : ((a.putNew b k p).heap q).na = (a.heap q).na :=
  update_congr na (by rfl) q

theorem tried_eraseNew : ((a.eraseNew b k p).heap q).tried = (a.heap q).tried :=
  update_congr tried (by rfl) q

theorem na_eraseNew : ((a.eraseNew b k p).heap q).na = (a.heap q).na :=
  update_congr na (by rfl) q

theorem mem_addrNew_putNew :
    k' ∈ (a.putNew b k p).addrNew b' ↔ b' = b ∧ k' = k ∨ k' ∈ a.addrNew b' := by
  change k' ∈ update a.addrNew b ((a.addrNew b).insert k p) b' ↔ _
  rw [update_apply]
  split_ifs with hb
  · subst hb
    simp
  · simp [hb]

theorem lookup_addrNew_putNew (h : ((a.putNew b k p).addrNew b').lookup k' = some q) :
    k' = k ∧ q = p ∨ (a.addrNew b').lookup k' = some q := by
  change (update a.addrNew b ((a.addrNew b).insert k p) b').lookup k' = _ at h
  rw [update_apply] at h
  split_ifs at h with hb
  · subst hb
    exact (lookup_insert_cases h).imp_right And.right
  · exact .inr h

theorem buckets_putNew : buckets (a.putNew b k p).addrNew k = insert b (buckets a.addrNew k) := by
  ext b'
  simp [mem_buckets, mem_addrNew_putNew]

theorem buckets_putNew_of_ne (hk : k' ≠ k) :
    buckets (a.putNew b k p).addrNew k' = buckets a.addrNew k' := by
  ext b'
  simp [mem_buckets, mem_addrNew_putNew, hk]

theorem newKeys_putNew : newKeys (a.putNew b k p).addrNew = insert k (newKeys a.addrNew) := by
  ext k'
  simp [mem_newKeys, mem_addrNew_putNew, exists_or]

/-- An address that is not tried is put into one more new bucket. -/
theorem WF.putNew (h : a.WF env pending extra) (hp : a.addrIndex.lookup k = some p)
    (hn : (a.heap p).tried = false) (hk : k ∉ a.addrNew b) :
    WF env (fun k' => k' ≠ k ∧ pending k') (extra - if k ∈ newKeys a.addrNew then 0 else 1)
      (a.putNew b k p) where
  index hq := by
    rw [na_putNew]
    exact h.index hq
  new_mem hq := by
    obtain ⟨rfl, rfl⟩ | hq := lookup_addrNew_putNew hq
    · exact hp
    · exact h.new_mem hq
  tried_mem hq := by
    rw [na_putNew, tried_putNew]
    exact h.tried_mem hq
  refs_eq {k' q} hq := by
    rw [heap_putNew]
    split_ifs with heq
    · obtain rfl := h.key_eq hp (heq ▸ hq)
      rw [buckets_putNew, card_insert_of_notMem fun hm => hk (mem_buckets.1 hm), h.refs_eq hp]
      rfl
    · have hne : k' ≠ k := by
        rintro rfl
        exact heq (some.inj (hq.symm.trans hp))
      rw [buckets_putNew_of_ne hne]
      exact h.refs_eq hq
  placed {k' q} hq hn' he := by
    have hne : k' ≠ k := by
      rintro rfl
      rw [buckets_putNew] at he
      exact insert_ne_empty _ _ he
    rw [buckets_putNew_of_ne hne] at he
    rw [tried_putNew] at hn'
    exact ⟨hne, h.placed hq hn' he⟩
  tried_place {k' q} hq hy := by
    rw [tried_putNew] at hy
    have hne : k' ≠ k := by
      rintro rfl
      obtain rfl := some.inj (hq.symm.trans hp)
      exact absurd (hy.symm.trans hn) (by decide)
    rw [buckets_putNew_of_ne hne]
    exact h.tried_place hq hy
  nodup := h.nodup
  disjoint := h.disjoint
  nNew_eq := by
    rw [newKeys_putNew, nNew_putNew]
    have hc := h.nNew_eq
    split_ifs with hm
    · rw [insert_eq_self.2 hm]
      omega
    · rw [card_insert_of_notMem hm]
      omega
  nTried_eq := by
    exact h.nTried_eq

theorem mem_addrNew_eraseNew :
    k' ∈ (a.eraseNew b k p).addrNew b' ↔ ¬(b' = b ∧ k' = k) ∧ k' ∈ a.addrNew b' := by
  change k' ∈ update a.addrNew b ((a.addrNew b).erase k) b' ↔ _
  rw [update_apply]
  split_ifs with hb
  · subst hb
    simp
  · simp [hb]

theorem lookup_addrNew_eraseNew (h : ((a.eraseNew b k p).addrNew b').lookup k' = some q) :
    (a.addrNew b').lookup k' = some q := by
  change (update a.addrNew b ((a.addrNew b).erase k) b').lookup k' = _ at h
  rw [update_apply] at h
  split_ifs at h with hb
  · subst hb
    exact (lookup_erase_cases h).2
  · exact h

theorem buckets_eraseNew :
    buckets (a.eraseNew b k p).addrNew k = (buckets a.addrNew k).erase b := by
  ext b'
  simp [mem_buckets, mem_addrNew_eraseNew]

theorem buckets_eraseNew_of_ne (hk : k' ≠ k) :
    buckets (a.eraseNew b k p).addrNew k' = buckets a.addrNew k' := by
  ext b'
  simp [mem_buckets, mem_addrNew_eraseNew, hk]

section

variable (h : a.WF env pending extra)
include h

/-- An address leaves a new bucket. It is pending then, until it is put somewhere else or is
forgotten. -/
theorem WF.eraseNew (hp : (a.addrNew b).lookup k = some p) :
    WF env (fun k' => k' = k ∧ buckets (a.eraseNew b k p).addrNew k = ∅ ∨ pending k')
      (extra + if buckets (a.eraseNew b k p).addrNew k = ∅ then 1 else 0) (a.eraseNew b k p) where
  index hq := by
    rw [na_eraseNew]
    exact h.index hq
  new_mem hq := h.new_mem (lookup_addrNew_eraseNew hq)
  tried_mem hq := by
    rw [na_eraseNew, tried_eraseNew]
    exact h.tried_mem hq
  refs_eq {k' q} hq := by
    rw [heap_eraseNew]
    split_ifs with heq
    · obtain rfl := h.key_eq (h.new_mem hp) (heq ▸ hq)
      have hm : b ∈ buckets a.addrNew k := mem_buckets.2 (mem_of_lookup_eq_some hp)
      have hpo := card_pos.2 ⟨b, hm⟩
      rw [buckets_eraseNew, card_erase_of_mem hm]
      change (a.heap p).refs - 1 = _
      rw [h.refs_eq (h.new_mem hp)]
      omega
    · have hne : k' ≠ k := by
        rintro rfl
        exact heq (some.inj (hq.symm.trans (h.new_mem hp)))
      rw [buckets_eraseNew_of_ne hne]
      exact h.refs_eq hq
  placed {k' q} hq hn he := by
    by_cases hk : k' = k
    · subst hk
      exact .inl ⟨rfl, he⟩
    · rw [buckets_eraseNew_of_ne hk] at he
      rw [tried_eraseNew] at hn
      exact .inr (h.placed hq hn he)
  tried_place {k' q} hq hy := by
    rw [tried_eraseNew] at hy
    have hpl := h.tried_place hq hy
    refine ⟨subset_empty.1 fun b' hb' => ?_, hpl.2⟩
    rw [← hpl.1, mem_buckets]
    exact (mem_addrNew_eraseNew.1 (mem_buckets.1 hb')).2
  nodup := h.nodup
  disjoint := h.disjoint
  nNew_eq := by
    rw [nNew_eraseNew]
    have hc := h.nNew_eq
    have ho : ∀ k', k' ≠ k →
        (k' ∈ newKeys (a.eraseNew b k p).addrNew ↔ k' ∈ newKeys a.addrNew) := by
      intro k' hk
      rw [mem_newKeys_iff_buckets, mem_newKeys_iff_buckets, buckets_eraseNew_of_ne hk]
    have hky : k ∈ newKeys a.addrNew := mem_newKeys.2 ⟨b, mem_of_lookup_eq_some hp⟩
    split_ifs with he
    · have hke : newKeys (a.eraseNew b k p).addrNew = (newKeys a.addrNew).erase k := by
        ext k'
        by_cases hk : k' = k
        · subst hk
          simp [mem_newKeys_iff_buckets, he]
        · simp [ho k' hk, hk]
      have hpo := card_pos.2 ⟨k, hky⟩
      rw [hke, card_erase_of_mem hky]
      omega
    · have hke : newKeys (a.eraseNew b k p).addrNew = newKeys a.addrNew := by
        ext k'
        by_cases hk : k' = k
        · subst hk
          exact ⟨fun _ => hky, fun _ => mem_newKeys_iff_buckets.2 he⟩
        · exact ho k' hk
      rw [hke]
      omega
  nTried_eq := by
    exact h.nTried_eq

theorem WF.forget (hp : a.addrIndex.lookup k = some p)
    (hn : (a.heap p).tried = false) (he : buckets a.addrNew k = ∅) :
    WF env (fun k' => k' ≠ k ∧ pending k') (extra - 1) (a.forget k) where
  index hq := h.index (lookup_erase_cases hq).2
  new_mem {b' k' q} hq := by
    have hk : k' ≠ k := by
      rintro rfl
      exact notMem_addrNew he (mem_of_lookup_eq_some hq)
    rw [AddrManager.forget, lookup_erase_ne hk]
    exact h.new_mem hq
  tried_mem {b' q} hq := by
    obtain ⟨hl, hy⟩ := h.tried_mem hq
    have hk : env.keyOf (a.heap q).na ≠ k := by
      intro heq
      rw [heq, hp] at hl
      obtain rfl := some.inj hl
      exact absurd (hy.symm.trans hn) (by decide)
    refine ⟨?_, hy⟩
    change (a.addrIndex.erase k).lookup (env.keyOf (a.heap q).na) = _
    rw [lookup_erase_ne hk]
    exact hl
  refs_eq hq := h.refs_eq (lookup_erase_cases hq).2
  placed hq hn' he' := by
    obtain ⟨hk, hq⟩ := lookup_erase_cases hq
    exact ⟨hk, h.placed hq hn' he'⟩
  tried_place hq hy := h.tried_place (lookup_erase_cases hq).2 hy
  nodup := h.nodup
  disjoint := h.disjoint
  nNew_eq := by
    have hc := h.nNew_eq
    change a.nNew - 1 = (newKeys a.addrNew).card + (extra - 1)
    omega
  nTried_eq := h.nTried_eq

theorem WF.dropNew (hp : (a.addrNew b).lookup k = some p) :
    (a.dropNew b k p).WF env pending extra := by
  have hi := h.new_mem hp
  have her := h.eraseNew hp
  have hr := her.refs_eq hi
  rw [AddrManager.dropNew]
  split_ifs with hz
  · have he : buckets (a.eraseNew b k p).addrNew k = ∅ := by
      rw [hz] at hr
      exact card_eq_zero.1 (Int.natCast_eq_zero.1 hr.symm)
    have hn : ((a.eraseNew b k p).heap p).tried = false := by
      rw [tried_eraseNew, Bool.eq_false_iff]
      intro hy
      exact notMem_addrNew (h.tried_place hi hy).1 (mem_of_lookup_eq_some hp)
    have hf := her.forget hi hn he
    rw [if_pos he, Int.add_sub_cancel] at hf
    refine hf.mono fun k' q _ hk' => ?_
    obtain ⟨hne, ⟨heq, -⟩ | hpe⟩ := hk'
    · exact absurd heq hne
    · exact hpe
  · have hs : buckets (a.eraseNew b k p).addrNew k ≠ ∅ := by
      intro he
      rw [he] at hr
      exact hz hr
    rw [if_neg hs, Int.add_zero] at her
    refine her.mono fun k' q _ hk' => ?_
    obtain ⟨-, he⟩ | hpe := hk'
    · exact absurd he hs
    · exact hpe

end

/-! ### Tried buckets -/

/-- The records in the tried buckets. -/
def triedPtrs (addrTried : Fin triedBucketCount → List AddrPtr) : Finset AddrPtr :=
  univ.biUnion fun t => (addrTried t).toFinset

theorem mem_triedPtrs : p ∈ triedPtrs addrTried ↔ ∃ t, p ∈ addrTried t := by
  simp [triedPtrs, mem_univ]

theorem card_triedPtrs (hn : ∀ t, (addrTried t).Nodup)
    (hd : ∀ {t t' p}, p ∈ addrTried t → p ∈ addrTried t' → t = t') :
    (triedPtrs addrTried).card = ∑ t, (addrTried t).length := by
  rw [triedPtrs, card_biUnion]
  · exact sum_congr rfl fun t _ => toFinset_card_of_nodup (hn t)
  · intro t _ t' _ hne
    refine disjoint_left.2 fun p hp hp' => hne ?_
    exact hd (mem_toFinset.1 hp) (mem_toFinset.1 hp')

attribute [irreducible] triedPtrs

theorem sum_length_update (tried : Fin triedBucketCount → List AddrPtr)
    (b : Fin triedBucketCount) (l : List AddrPtr) :
    ∑ b', ((update tried b l b').length : Int) =
      ∑ b', ((tried b').length : Int) - (tried b).length + l.length := by
  have hr : ∑ b' ∈ univ.erase b, ((update tried b l b').length : Int) =
      ∑ b' ∈ univ.erase b, ((tried b').length : Int) := by
    refine sum_congr rfl fun b' hb' => ?_
    rw [update_of_ne (ne_of_mem_erase hb')]
  rw [← add_sum_erase _ _ (mem_univ b), update_self,
    ← add_sum_erase _ (fun b' => ((tried b').length : Int)) (mem_univ b)]
  omega

theorem mem_update_append {tried : Fin triedBucketCount → List AddrPtr}
    {t t' : Fin triedBucketCount} :
    q ∈ update tried t (tried t ++ [p]) t' ↔ t' = t ∧ q = p ∨ q ∈ tried t' := by
  rw [update_apply]
  split_ifs with ht
  · subst ht
    rw [or_comm]
    simp
  · simp [ht]

section

variable (h : a.WF env pending extra)
include h

theorem WF.notMem_addrTried (hn : (a.heap p).tried = false)
    (t : Fin triedBucketCount) : p ∉ a.addrTried t := by
  intro hm
  exact absurd ((h.tried_mem hm).2.symm.trans hn) (by decide)

/-- A pending address enters a tried bucket, and those of `out` leave theirs and are pending
then. -/
theorem WF.enterTried {nTried : Int} (out : AddrPtr → Prop) (t : Fin triedBucketCount)
    (hp : a.addrIndex.lookup k = some p) (hn : (a.heap p).tried = false)
    (he : buckets a.addrNew k = ∅) (hna : ∀ q, (heap q).na = (a.heap q).na)
    (hr : ∀ q, (heap q).refs = (a.heap q).refs)
    (ht : ∀ q, (heap q).tried = true ↔ q = p ∨ (a.heap q).tried = true ∧ ¬out q)
    (hm : ∀ {t' q}, q ∈ addrTried t' ↔ t' = t ∧ q = p ∨ q ∈ a.addrTried t' ∧ ¬out q)
    (hpe : ∀ {k' q}, a.addrIndex.lookup k' = some q → out q ∨ k' ≠ k ∧ pending k' → pending' k')
    (hnd : ∀ t, (addrTried t).Nodup) (hc : nTried = ∑ t, ((addrTried t).length : Int)) :
    WF env pending' extra { a with heap, addrTried, nTried } where
  index hq := by
    rw [hna]
    exact h.index hq
  new_mem := h.new_mem
  tried_mem hq := by
    rw [hna]
    obtain ⟨-, rfl⟩ | ⟨ho, hno⟩ := hm.1 hq
    · rw [(h.index hp).1]
      exact ⟨hp, (ht _).2 (.inl rfl)⟩
    · obtain ⟨hl, ht'⟩ := h.tried_mem ho
      exact ⟨hl, (ht _).2 (.inr ⟨ht', hno⟩)⟩
  refs_eq hq := by
    rw [hr]
    exact h.refs_eq hq
  placed {k' q} hq hf hb := by
    have hno := mt (ht q).2 (Bool.eq_false_iff.1 hf)
    refine hpe hq (or_iff_not_imp_left.2 fun ho => ⟨?_, h.placed hq ?_ hb⟩)
    · rintro rfl
      exact hno (.inl (some.inj (hq.symm.trans hp)))
    · exact Bool.eq_false_iff.2 fun ht' => hno (.inr ⟨ht', ho⟩)
  tried_place {k' q} hq hy := by
    obtain rfl | ⟨hy, ho⟩ := (ht q).1 hy
    · obtain rfl := h.key_eq hq hp
      exact ⟨he, t, hm.2 (.inl ⟨rfl, rfl⟩)⟩
    · obtain ⟨hpl, t', ht'⟩ := h.tried_place hq hy
      exact ⟨hpl, t', hm.2 (.inr ⟨ht', ho⟩)⟩
  nodup := hnd
  disjoint {t₁ t₂ q} h₁ h₂ := by
    obtain ⟨rfl, rfl⟩ | ⟨ho₁, -⟩ := hm.1 h₁
    · obtain ⟨rfl, -⟩ | ⟨ho₂, -⟩ := hm.1 h₂
      · rfl
      · exact absurd ho₂ (h.notMem_addrTried hn t₂)
    · obtain ⟨-, rfl⟩ | ⟨ho₂, -⟩ := hm.1 h₂
      · exact absurd ho₁ (h.notMem_addrTried hn t₁)
      · exact h.disjoint ho₁ ho₂
  nNew_eq := h.nNew_eq
  nTried_eq := hc

theorem WF.pushTried (hp : a.addrIndex.lookup k = some p)
    (hn : (a.heap p).tried = false) (he : buckets a.addrNew k = ∅) (t : Fin triedBucketCount) :
    WF env (fun k' => k' ≠ k ∧ pending k') extra (a.pushTried t p) := by
  have hf := h.notMem_addrTried hn
  refine h.enterTried (fun _ => False) t hp hn he (fun q => ?_) (fun q => ?_) (fun q => ?_)
    (fun {t' q} => ?_) (fun _ hk => hk.resolve_left id) (fun t' => ?_) ?_
  · exact update_congr na (by rfl) q
  · exact update_congr refs (by rfl) q
  · change ((a.pushTried t p).heap q).tried = true ↔ _
    rw [AddrManager.pushTried, heap_modify]
    split_ifs with hq <;> simp [hq]
  · exact mem_update_append.trans (or_congr_right (and_iff_left id).symm)
  · change (update a.addrTried t (a.addrTried t ++ [p]) t').Nodup
    rw [update_apply]
    split_ifs
    · exact nodup_append.2 ⟨h.nodup t, nodup_singleton p, fun q hq q' hq' heq =>
        hf t (List.mem_singleton.1 hq' ▸ heq ▸ hq)⟩
    · exact h.nodup t'
  · change a.nTried + 1 = _
    rw [sum_length_update, h.nTried_eq, length_append, length_singleton]
    omega

end

/-- The entries of a list without repetitions after one of them has been replaced by a new one. -/
theorem mem_set_iff {l : List AddrPtr} (hn : l.Nodup) {i : Nat} {r : AddrPtr}
    (hr : l[i]? = some r) (hp : p ∉ l) : q ∈ l.set i p ↔ q = p ∨ q ∈ l ∧ q ≠ r := by
  obtain ⟨hi, hri⟩ := List.getElem?_eq_some_iff.1 hr
  constructor
  · intro hq
    obtain ⟨j, hj, hqj⟩ := mem_iff_getElem.1 hq
    rw [getElem_set] at hqj
    split_ifs at hqj with hij
    · exact .inl hqj.symm
    · rw [length_set] at hj
      refine .inr ⟨hqj ▸ getElem_mem hj, fun heq => hij ?_⟩
      exact (hn.getElem_inj_iff).1 (hri.trans (heq.symm.trans hqj.symm))
  · rintro (rfl | ⟨hq, hne⟩)
    · exact mem_set hi q
    · obtain ⟨j, hj, rfl⟩ := mem_iff_getElem.1 hq
      have hij : i ≠ j := by
        rintro rfl
        exact hne hri
      refine mem_iff_getElem.2 ⟨j, (length_set ..).symm ▸ hj, ?_⟩
      rw [getElem_set_ne hij]

/-- A pending address takes the place of another one in a tried bucket, which is pending then. -/
theorem WF.swapTried (h : a.WF env pending extra) (hp : a.addrIndex.lookup k = some p)
    (hn : (a.heap p).tried = false) (he : buckets a.addrNew k = ∅)
    {t : Fin triedBucketCount} {entry : Nat} {rm : AddrPtr}
    (hrm : (a.addrTried t)[entry]? = some rm) :
    WF env (fun k' => k' = env.keyOf (a.heap rm).na ∨ k' ≠ k ∧ pending k') extra
      (a.swapTried t entry p rm) := by
  have hf := h.notMem_addrTried hn
  have hr : rm ∈ a.addrTried t := mem_of_getElem? hrm
  have hne : rm ≠ p := by
    rintro rfl
    exact hf t hr
  refine h.enterTried (· = rm) t hp hn he (fun q => ?_) (fun q => ?_) (fun q => ?_)
    (fun {t' q} => ?_) (fun hq hk => hk.imp_left ?_) (fun t' => ?_) ?_
  · exact (update_congr na (by rfl) q).trans (update_congr na (by rfl) q)
  · exact (update_congr refs (by rfl) q).trans
      (update_congr refs (by rfl) q)
  · change ((a.swapTried t entry p rm).heap q).tried = true ↔ _
    rw [AddrManager.swapTried, heap_modify, heap_modify, heap_modify]
    split_ifs with h₁ h₂
    · simp [h₁, hne]
    · simp [h₂]
    · simp [h₁, h₂]
  · change q ∈ update a.addrTried t ((a.addrTried t).set entry p) t' ↔ _
    rw [update_apply]
    split_ifs with ht
    · subst ht
      simp [mem_set_iff (h.nodup t') hrm (hf t')]
    · simp only [ht, false_and, false_or]
      exact ⟨fun hq => ⟨hq, fun heq => ht (h.disjoint hq (heq ▸ hr))⟩, fun hq => hq.1⟩
  · rintro rfl
    exact (h.index hq).1.symm
  · change (update a.addrTried t ((a.addrTried t).set entry p) t').Nodup
    rw [update_apply]
    split_ifs
    · exact (h.nodup t).set (hf t)
    · exact h.nodup t'
  · change a.nTried = ∑ t',
      ((update a.addrTried t ((a.addrTried t).set entry p) t').length :
      Int)
    rw [sum_length_update, h.nTried_eq, length_set]
    omega

/-! ### The index -/

theorem WF.allocate (h : a.WF env pending extra) (ka : KnownAddress)
    (hp : ∀ q, a.addrIndex.lookup (env.keyOf ka.na) = some q → (a.heap q).tried = false)
    (he : buckets a.addrNew (env.keyOf ka.na) = ∅) (hn : ka.tried = false) (hr : ka.refs = 0) :
    WF env (fun k' => k' = env.keyOf ka.na ∨ pending k') extra (a.allocate env ka) := by
  have ho : ∀ {k' q}, (a.allocate env ka).addrIndex.lookup k' = some q →
      k' = env.keyOf ka.na ∧ q = a.allocated ∨
        k' ≠ env.keyOf ka.na ∧ q ≠ a.allocated ∧ a.addrIndex.lookup k' = some q := by
    intro k' q hq
    exact (lookup_insert_cases hq).imp_right fun ⟨hk, hq⟩ => ⟨hk, (h.index hq).2.ne, hq⟩
  have hnw : ∀ {k' q}, k' ≠ env.keyOf ka.na → a.addrIndex.lookup k' = some q →
      (a.allocate env ka).addrIndex.lookup k' = some q := by
    intro k' q hk hq
    rw [AddrManager.allocate, lookup_insert_of_ne _ hk]
    exact hq
  have hh : ∀ {q}, q ≠ a.allocated → (a.allocate env ka).heap q = a.heap q := by
    intro q hq
    exact update_of_ne hq _ _
  have hs : (a.allocate env ka).heap a.allocated = ka := update_self _ _ _
  refine ⟨?_, ?_, ?_, ?_, ?_, ?_, h.nodup, h.disjoint, h.nNew_eq, h.nTried_eq⟩
  · intro k' q hq
    obtain ⟨rfl, rfl⟩ | ⟨-, hne, hq⟩ := ho hq
    · rw [hs]
      exact ⟨rfl, Nat.lt_succ_self _⟩
    · rw [hh hne]
      exact ⟨(h.index hq).1, (h.index hq).2.trans (Nat.lt_succ_self _)⟩
  · intro b' k' q hq
    refine hnw ?_ (h.new_mem hq)
    rintro rfl
    exact notMem_addrNew he (mem_of_lookup_eq_some hq)
  · intro t q hq
    obtain ⟨hl, hy⟩ := h.tried_mem hq
    have hne := (h.index hl).2.ne
    rw [hh hne]
    refine ⟨hnw ?_ hl, hy⟩
    intro heq
    rw [heq] at hl
    exact absurd (hy.symm.trans (hp q hl)) (by decide)
  · intro k' q hq
    obtain ⟨rfl, rfl⟩ | ⟨-, hne, hq⟩ := ho hq
    · rw [hs, hr]
      change 0 = ((buckets a.addrNew (env.keyOf ka.na)).card : Int)
      rw [he]
      rfl
    · rw [hh hne]
      exact h.refs_eq hq
  · intro k' q hq hn' he'
    obtain ⟨rfl, rfl⟩ | ⟨-, hne, hq⟩ := ho hq
    · exact .inl rfl
    · rw [hh hne] at hn'
      exact .inr (h.placed hq hn' he')
  · intro k' q hq hy
    obtain ⟨rfl, rfl⟩ | ⟨-, hne, hq⟩ := ho hq
    · rw [hs, hn] at hy
      cases hy
    · rw [hh hne] at hy
      exact h.tried_place hq hy

end AddrManager

end DrcNode
