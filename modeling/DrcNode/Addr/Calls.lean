import DrcNode.Addr.Buckets

/-!
# The calls of the address manager

Each call other than the load of a file keeps the invariant of the address manager, whatever the
clock, the random source and the order of the maps are.

The sizes of the buckets are kept apart. `updateAddress` makes room in a new bucket when it holds
more than `newBucketSize` addresses, and not when it holds that many, so that one more is put into
it. The bound that all calls keep is thus `newBucketSize + 1`.
-/

namespace DrcNode

open Finmap Finset Function Option

namespace AddrManager

variable {env : AddrEnv} {pending : AddrKey → Prop} {extra : Int} {a a' : AddrManager}
  {b : Fin newBucketCount} {k : AddrKey} {p q : AddrPtr} {cap : Nat} {order : AddrOrder}
  {netAddr srcAddr : NetAddress}

/-- No new bucket has more than `cap` entries, and no tried bucket more than `triedBucketSize`. -/
structure Sized (cap : Nat) (a : AddrManager) : Prop where
  new_le : ∀ b, (a.addrNew b).keys.card ≤ cap
  tried_le : ∀ t, (a.addrTried t).length ≤ triedBucketSize

theorem Sized.putNew (h : a.Sized cap) (hlt : (a.addrNew b).keys.card < cap) :
    (a.putNew b k p).Sized cap where
  new_le b' := by
    have hk : ((a.addrNew b).insert k p).keys = insert k (a.addrNew b).keys := by
      ext k'
      rw [mem_keys, Finmap.mem_insert, Finset.mem_insert, mem_keys]
    change (update a.addrNew b ((a.addrNew b).insert k p) b').keys.card ≤ cap
    rw [update_apply]
    split_ifs
    · rw [hk]
      exact (card_insert_le _ _).trans hlt
    · exact h.new_le b'
  tried_le := h.tried_le

/-! ### Expiry -/

/-- The change from `a` to `a'` takes entries out of the new bucket `b`. -/
structure Expired (b : Fin newBucketCount) (a a' : AddrManager) : Prop where
  other : ∀ b', b' ≠ b → a'.addrNew b' = a.addrNew b'
  lookup : ∀ {k p}, (a'.addrNew b).lookup k = some p → (a.addrNew b).lookup k = some p
  index : ∀ {k}, k ∉ a.addrNew b → a'.addrIndex.lookup k = a.addrIndex.lookup k
  na : ∀ p, (a'.heap p).na = (a.heap p).na
  tried : ∀ p, (a'.heap p).tried = (a.heap p).tried
  addrTried_eq : a'.addrTried = a.addrTried

namespace Expired

theorem refl (b : Fin newBucketCount) (a : AddrManager) : Expired b a a where
  other _ _ := rfl
  lookup h := h
  index _ := rfl
  na _ := rfl
  tried _ := rfl
  addrTried_eq := rfl

section

variable (h : Expired b a a')
include h

theorem notMem (hk : k ∉ a.addrNew b) : k ∉ a'.addrNew b := by
  intro hm
  obtain ⟨p, hp⟩ := mem_iff.1 hm
  exact hk (mem_of_lookup_eq_some (h.lookup hp))

theorem trans {a'' : AddrManager} (h' : Expired b a' a'') : Expired b a a'' where
  other b' hb := (h'.other b' hb).trans (h.other b' hb)
  lookup hp := h.lookup (h'.lookup hp)
  index hk := (h'.index (h.notMem hk)).trans (h.index hk)
  na p := (h'.na p).trans (h.na p)
  tried p := (h'.tried p).trans (h.tried p)
  addrTried_eq := h'.addrTried_eq.trans h.addrTried_eq

theorem card_le (b' : Fin newBucketCount) :
    (a'.addrNew b').keys.card ≤ (a.addrNew b').keys.card := by
  by_cases hb : b' = b
  · subst hb
    refine card_le_card fun k hk => ?_
    obtain ⟨p, hp⟩ := mem_iff.1 (mem_keys.1 hk)
    exact mem_keys.2 (mem_of_lookup_eq_some (h.lookup hp))
  · rw [h.other b' hb]

theorem mem_newKeys_iff (hk : k ∉ a.addrNew b) :
    k ∈ newKeys a'.addrNew ↔ k ∈ newKeys a.addrNew := by
  rw [mem_newKeys, mem_newKeys]
  refine exists_congr fun b' => ?_
  by_cases hb : b' = b
  · subst hb
    exact ⟨fun hm => absurd hm (h.notMem hk), fun hm => absurd hm hk⟩
  · rw [h.other b' hb]

end

end Expired

theorem addrNew_dropNew : (a.dropNew b k p).addrNew = (a.eraseNew b k p).addrNew := by
  rw [dropNew]
  split_ifs
  · rfl
  · rfl

theorem heap_dropNew : (a.dropNew b k p).heap = (a.eraseNew b k p).heap := by
  rw [dropNew]
  split_ifs
  · rfl
  · rfl

theorem mem_addrNew_dropNew {b' : Fin newBucketCount} {k' : AddrKey} :
    k' ∈ (a.dropNew b k p).addrNew b' ↔ ¬(b' = b ∧ k' = k) ∧ k' ∈ a.addrNew b' := by
  rw [addrNew_dropNew, mem_addrNew_eraseNew]

theorem expired_dropNew (hp : (a.addrNew b).lookup k = some p) : Expired b a (a.dropNew b k p) where
  other b' hb := by
    rw [addrNew_dropNew]
    exact update_of_ne hb _ _
  lookup hq := by
    rw [addrNew_dropNew] at hq
    exact lookup_addrNew_eraseNew hq
  index {k'} hk' := by
    have hne : k' ≠ k := by
      rintro rfl
      exact hk' (mem_of_lookup_eq_some hp)
    rw [dropNew]
    split_ifs
    · exact lookup_erase_ne hne
    · rfl
  na q := by
    rw [heap_dropNew, na_eraseNew]
  tried q := by
    rw [heap_dropNew, tried_eraseNew]
  addrTried_eq := by
    rw [dropNew]
    split_ifs
    · rfl
    · rfl

theorem older_cases (a : AddrManager) (oldest : Option AddrPtr) (v : AddrPtr) :
    a.older oldest v = v ∨ oldest = some (a.older oldest v) := by
  cases oldest with
  | none => exact .inl rfl
  | some o =>
    rw [older]
    split_ifs
    · exact .inr rfl
    · exact .inl rfl

/-- What the loop of `expireNew` keeps of the oldest entry so far. -/
def Keeps (env : AddrEnv) (b : Fin newBucketCount) (order : AddrOrder) (a : AddrManager)
    (oldest : Option AddrPtr) : Prop :=
  ∀ o ∈ oldest, (a.addrNew b).lookup (env.keyOf (a.heap o).na) = some o ∧
    env.keyOf (a.heap o).na ∉ order.map Prod.fst

/-- **The loop of `expireNew`.** -/
theorem WF.expireLoop (h : a.WF env pending extra) (hno : (order.map Prod.fst).Nodup)
    {oldest : Option AddrPtr} (hke : a.Keeps env b order oldest) :
    (expireLoop b order a oldest).1.WF env pending extra ∧
      Expired b a (expireLoop b order a oldest).1 ∧
      (expireLoop b order a oldest).1.Keeps env b [] (expireLoop b order a oldest).2 ∧
      ((expireLoop b order a oldest).2 = none → oldest = none ∧
          ∀ k ∈ order.map Prod.fst, k ∉ (expireLoop b order a oldest).1.addrNew b) := by
  induction order generalizing a oldest with
  | nil =>
    exact ⟨h, .refl b a, hke, fun hn => ⟨hn, fun k hk => by cases hk⟩⟩
  | cons visit order ih =>
    rw [List.map_cons, List.nodup_cons] at hno
    have hke' : a.Keeps env b order oldest := by
      intro o ho
      obtain ⟨hl, hnm⟩ := hke o ho
      exact ⟨hl, fun hm => hnm (List.mem_cons_of_mem _ hm)⟩
    rw [AddrManager.expireLoop]
    cases hv : (a.addrNew b).lookup visit.1 with
    | none =>
      obtain ⟨hwf, he, hkt, hg⟩ := ih h hno.2 hke'
      refine ⟨hwf, he, hkt, fun hn => ⟨(hg hn).1, ?_⟩⟩
      rw [List.map_cons, List.forall_mem_cons]
      refine ⟨he.notMem fun hm => ?_, (hg hn).2⟩
      obtain ⟨v, hv'⟩ := mem_iff.1 hm
      rw [hv] at hv'
      cases hv'
    | some v =>
      dsimp only
      by_cases hb : (a.heap v).isBad visit.2 = true
      · rw [if_pos hb]
        have hd := expired_dropNew hv
        have hkd : (a.dropNew b visit.1 v).Keeps env b order oldest := by
          intro o ho
          obtain ⟨hl, hnm⟩ := hke o ho
          rw [hd.na o]
          refine ⟨?_, fun hm => hnm (List.mem_cons_of_mem _ hm)⟩
          rw [addrNew_dropNew]
          change (update a.addrNew b ((a.addrNew b).erase visit.1) b).lookup _ = _
          rw [update_self, lookup_erase_ne, hl]
          intro heq
          exact hnm (heq ▸ List.mem_cons_self)
        obtain ⟨hwf, he, hkt, hg⟩ := ih (h.dropNew hv) hno.2 hkd
        refine ⟨hwf, hd.trans he, hkt, fun hn => ⟨(hg hn).1, ?_⟩⟩
        rw [List.map_cons, List.forall_mem_cons]
        refine ⟨he.notMem fun hm => ?_, (hg hn).2⟩
        exact (mem_addrNew_dropNew.1 hm).1 ⟨rfl, rfl⟩
      · rw [if_neg hb]
        have hky : env.keyOf (a.heap v).na = visit.1 := (h.index (h.new_mem hv)).1
        have hko : a.Keeps env b order (some (a.older oldest v)) := by
          intro o ho
          cases ho
          have hvi : (a.addrNew b).lookup (env.keyOf (a.heap v).na) = some v ∧
              env.keyOf (a.heap v).na ∉ order.map Prod.fst := by
            rw [hky]
            exact ⟨hv, hno.1⟩
          obtain heq | heq := a.older_cases oldest v
          · rw [heq]
            exact hvi
          · exact hke' _ heq
        obtain ⟨hwf, he, hkt, hg⟩ := ih h hno.2 hko
        refine ⟨hwf, he, hkt, fun hn => ?_⟩
        cases (hg hn).1

theorem VisitsNew.nodup (h : a.VisitsNew b order) : (order.map Prod.fst).Nodup :=
  Multiset.coe_nodup.1 (h.symm ▸ (a.addrNew b).keys.nodup)

theorem VisitsNew.mem (h : a.VisitsNew b order) (hk : k ∈ a.addrNew b) :
    k ∈ order.map Prod.fst := by
  have hm : k ∈ (a.addrNew b).keys.val := mem_keys.2 hk
  rw [← show _ = (a.addrNew b).keys.val from h] at hm
  exact Multiset.mem_coe.1 hm

/-- **Expiry keeps the invariant**, changes one bucket only, and makes room in it. -/
theorem WF.expireNew (h : a.WF env pending extra) (hv : a.VisitsNew b order) :
    (a.expireNew env b order).WF env pending extra ∧ Expired b a (a.expireNew env b order) ∧
      ((a.addrNew b).keys.card ≠ 0 →
        ((a.expireNew env b order).addrNew b).keys.card < (a.addrNew b).keys.card) := by
  have hn : a.Keeps env b order none := by
    intro o ho
    cases ho
  obtain ⟨hwf, he, hke, hg⟩ := h.expireLoop hv.nodup hn
  rw [AddrManager.expireNew]
  generalize AddrManager.expireLoop b order a none = r at hwf he hke hg ⊢
  cases hr : r.2 with
  | none =>
    -- everything has been bad
    refine ⟨hwf, he, fun hne => ?_⟩
    have hem : (r.1.addrNew b).keys = ∅ := by
      refine eq_empty_of_forall_notMem fun k hk => ?_
      have hm := mem_keys.1 hk
      obtain ⟨p, hp⟩ := mem_iff.1 hm
      exact (hg hr).2 k (hv.mem (mem_of_lookup_eq_some (he.lookup hp))) hm
    rw [hem]
    exact Nat.pos_of_ne_zero hne
  | some oldest =>
    have hof := (hke oldest hr).1
    have hd := expired_dropNew hof
    refine ⟨hwf.dropNew hof, he.trans hd, fun _ => ?_⟩
    refine lt_of_lt_of_le (card_lt_card ?_) (he.card_le b)
    refine ⟨fun k hk => ?_, fun hs => ?_⟩
    · exact mem_keys.2 (mem_addrNew_dropNew.1 (mem_keys.1 hk)).2
    · have hm := hs (mem_keys.2 (mem_of_lookup_eq_some hof))
      exact (mem_addrNew_dropNew.1 (mem_keys.1 hm)).1 ⟨rfl, rfl⟩

/-! ### Addresses that are announced -/

theorem seen_na (env : AddrEnv) (v : KnownAddress) (netAddr : NetAddress) :
    env.keyOf (v.seen netAddr).na = env.keyOf v.na ∧ (v.seen netAddr).tried = v.tried ∧
      (v.seen netAddr).refs = v.refs := by
  rw [KnownAddress.seen]
  split_ifs
  · exact ⟨rfl, rfl, rfl⟩
  · exact ⟨rfl, rfl, rfl⟩

/-- The order visits the bucket of an address in case it is full. -/
def VisitsFull (env : AddrEnv) (a : AddrManager) (netAddr srcAddr : NetAddress)
    (order : AddrOrder) : Prop :=
  (a.addrNew (a.getNewBucket env netAddr srcAddr)).keys.card > newBucketSize →
    a.VisitsNew (a.getNewBucket env netAddr srcAddr) order

/-- The bucket of an address takes one more, or is made room in. -/
def Room (env : AddrEnv) (cap : Nat) (a : AddrManager) (netAddr srcAddr : NetAddress) : Prop :=
  env.keyOf netAddr ∉ a.addrNew (a.getNewBucket env netAddr srcAddr) →
    (a.addrNew (a.getNewBucket env netAddr srcAddr)).keys.card < cap ∨
      (a.addrNew (a.getNewBucket env netAddr srcAddr)).keys.card > newBucketSize

/-- The address of `updateAddress` is put into its bucket, if it is not there. -/
theorem WF.addToNew (h : a.WF env pending extra) (netAddr srcAddr : NetAddress)
    (order : AddrOrder) (hp : a.addrIndex.lookup (env.keyOf netAddr) = some p)
    (hno : (a.heap p).tried = false) (hv : a.VisitsFull env netAddr srcAddr order)
    (hn : env.keyOf netAddr ∈ a.addrNew (a.getNewBucket env netAddr srcAddr) →
      ¬ pending (env.keyOf netAddr)) :
    (a.addToNew env netAddr srcAddr p order).WF env (fun k' => k' ≠ env.keyOf netAddr ∧ pending k')
      (extra - if env.keyOf netAddr ∈ newKeys a.addrNew then 0 else 1) := by
  rw [VisitsFull] at hv
  rw [AddrManager.addToNew]
  generalize a.getNewBucket env netAddr srcAddr = bucket at hv hn ⊢
  by_cases hm : env.keyOf netAddr ∈ a.addrNew bucket
  · rw [if_pos hm, if_pos (mem_newKeys.2 ⟨bucket, hm⟩), Int.sub_zero]
    refine h.mono fun k' q _ hpe => ⟨?_, hpe⟩
    rintro rfl
    exact hn hm hpe
  · rw [if_neg hm]
    by_cases hf : (a.addrNew bucket).keys.card > newBucketSize
    · obtain ⟨hwf, he, -⟩ := h.expireNew (hv hf)
      have hpu := hwf.putNew ((he.index hm).trans hp) ((he.tried p).trans hno) (he.notMem hm)
      simp only [he.mem_newKeys_iff hm] at hpu
      rw [if_pos hf]
      exact hpu
    · rw [if_neg hf]
      exact h.putNew hp hno hm

theorem Sized.addToNew (hs : a.Sized cap) (h : a.WF env pending extra)
    (hv : a.VisitsFull env netAddr srcAddr order) (hc : a.Room env cap netAddr srcAddr) :
    (a.addToNew env netAddr srcAddr p order).Sized cap := by
  rw [VisitsFull] at hv
  rw [Room] at hc
  rw [AddrManager.addToNew]
  generalize a.getNewBucket env netAddr srcAddr = bucket at hv hc ⊢
  by_cases hm : env.keyOf netAddr ∈ a.addrNew bucket
  · rw [if_pos hm]
    exact hs
  rw [if_neg hm]
  by_cases hf : (a.addrNew bucket).keys.card > newBucketSize
  · obtain ⟨-, he, hlt⟩ := h.expireNew (hv hf)
    rw [if_pos hf]
    refine .putNew ⟨fun b => (he.card_le b).trans (hs.new_le b), fun t => ?_⟩ ?_
    · rw [he.addrTried_eq]
      exact hs.tried_le t
    · exact (hlt (Nat.ne_zero_of_lt hf)).trans_le (hs.new_le bucket)
  · rw [if_neg hf]
    exact hs.putNew ((hc hm).resolve_right hf)

/-- Whether `updateAddress` puts the address into its bucket, if it is not there. -/
def Adds (env : AddrEnv) (a : AddrManager) (netAddr : NetAddress) (draw : Nat) : Prop :=
  env.isRoutable netAddr = true ∧ ∀ ka ∈ a.find env netAddr, (a.heap ka).tried = false ∧
    (a.heap ka).refs ≠ newBucketsPerAddress ∧
    (draw : Int) % (Int32.ofInt (2 * (a.heap ka).refs)).toInt = 0
  deriving Decidable

theorem WF.buckets_eq_empty (h : a.WF env pending extra) (hk : a.addrIndex.lookup k = none) :
    buckets a.addrNew k = ∅ := by
  refine eq_empty_of_forall_notMem fun b hb => ?_
  obtain ⟨p, hp⟩ := mem_iff.1 (mem_buckets.1 hb)
  rw [h.new_mem hp] at hk
  cases hk

theorem WF.factor_pos (h : a.WF env (fun _ => False) extra) (hp : a.addrIndex.lookup k = some p)
    (hn : (a.heap p).tried = false) : 0 < (Int32.ofInt (2 * (a.heap p).refs)).toInt := by
  have hpo : 0 < (buckets a.addrNew k).card :=
    card_pos.2 (nonempty_iff_ne_empty.2 fun he => h.placed hp hn he)
  have hle : (buckets a.addrNew k).card ≤ 1024 :=
    (card_le_univ _).trans_eq (Fintype.card_fin newBucketCount)
  rw [h.refs_eq hp, Int32.toInt_ofInt_of_le (by omega) (by omega)]
  omega

theorem WF.addUnknown (cap : Nat) (h : a.Sound env) (hv : a.VisitsFull env netAddr srcAddr order)
    (hf : a.addrIndex.lookup (env.keyOf netAddr) = none) :
    let known := a.allocate env { na := netAddr, srcAddr }
    let added := { known with nNew := known.nNew + 1 }.addToNew env netAddr srcAddr a.allocated
      order
    added.Sound env ∧
      (a.Sized cap → a.Room env cap netAddr srcAddr → added.Sized cap) := by
  intro known added
  have he : buckets a.addrNew (env.keyOf netAddr) = ∅ := h.buckets_eq_empty hf
  have hu : ∀ q, a.addrIndex.lookup (env.keyOf netAddr) = some q → (a.heap q).tried = false := by
    intro q hq
    rw [hf] at hq
    cases hq
  have hk : known.WF env (fun k' => k' = env.keyOf netAddr ∨ False) 0 :=
    h.allocate { na := netAddr, srcAddr } hu he rfl rfl
  have hh : known.heap a.allocated = { na := netAddr, srcAddr } := update_self _ _ _
  have hc := hk.setNNew 1
  have hn : ∀ b, env.keyOf netAddr ∉ a.addrNew b := by
    intro b hm
    exact absurd (he ▸ mem_buckets.2 hm) (Finset.notMem_empty b)
  have ha := hc.addToNew netAddr srcAddr order (lookup_insert _)
    (congrArg KnownAddress.tried hh) hv fun hm => absurd hm (hn _)
  have hnm : env.keyOf netAddr ∉ newKeys known.addrNew := fun hm =>
    mem_newKeys_iff_buckets.1 hm he
  rw [if_neg hnm] at ha
  refine ⟨ha.mono fun k' q _ hk' => hk'.1 (hk'.2.resolve_right id), fun hs hr => ?_⟩
  have hs' : Sized cap { known with nNew := known.nNew + 1 } := ⟨hs.new_le, hs.tried_le⟩
  exact hs'.addToNew hc hv hr

/-- **`updateAddress` does not panic and keeps the invariant.** -/
theorem WF.updateAddress (cap : Nat) (h : a.Sound env) {draw : Nat}
    (hv : a.VisitsFull env netAddr srcAddr order) :
    ∃ a', a.updateAddress env netAddr srcAddr draw order = .ok a' ∧ a'.Sound env ∧
      (a.Sized cap → (a.Adds env netAddr draw → a.Room env cap netAddr srcAddr) →
        a'.Sized cap) := by
  rw [AddrManager.updateAddress]
  by_cases hr : env.isRoutable netAddr = true
  swap
  · rw [if_neg hr]
    exact ⟨a, rfl, h, fun hs _ => hs⟩
  rw [if_pos hr]
  cases hf : a.find env netAddr with
  | none =>
    have ha := h.addUnknown cap hv hf
    refine ⟨_, rfl, ha.1, fun hs hro => ha.2 hs (hro ⟨hr, ?_⟩)⟩
    intro ka hka
    rw [hf] at hka
    cases hka
  | some ka =>
    obtain ⟨hk, ht, hre⟩ := seen_na env (a.heap ka) netAddr
    have hse : (a.modify ka fun v => v.seen netAddr).Sound env := h.modify hk ht hre
    have hh : (a.modify ka fun v => v.seen netAddr).heap ka = (a.heap ka).seen netAddr := by
      rw [heap_modify, if_pos rfl]
    have hs' : a.Sized cap → (a.modify ka fun v => v.seen netAddr).Sized cap :=
      fun hs => ⟨hs.new_le, hs.tried_le⟩
    dsimp only
    rw [hh, ht, hre]
    by_cases hy : (a.heap ka).tried = true
    · rw [if_pos hy]
      exact ⟨_, rfl, hse, fun hs _ => hs' hs⟩
    rw [if_neg hy]
    by_cases hm : (a.heap ka).refs = newBucketsPerAddress
    · rw [if_pos hm]
      exact ⟨_, rfl, hse, fun hs _ => hs' hs⟩
    have hn : (a.heap ka).tried = false := Bool.eq_false_iff.2 hy
    rw [if_neg hm, if_neg (h.factor_pos hf hn).not_ge]
    by_cases hd : (draw : Int) % (Int32.ofInt (2 * (a.heap ka).refs)).toInt ≠ 0
    · rw [if_pos hd]
      exact ⟨_, rfl, hse, fun hs _ => hs' hs⟩
    rw [if_neg hd]
    have hme : env.keyOf netAddr ∈ newKeys (a.modify ka fun v => v.seen netAddr).addrNew :=
      mem_newKeys_iff_buckets.2 (h.placed hf hn)
    have ha := hse.addToNew netAddr srcAddr order hf (by rw [hh, ht]; exact hn) hv fun _ => id
    rw [if_pos hme] at ha
    refine ⟨_, rfl, ha.mono fun k' q _ hk' => hk'.2, fun hs hro => ?_⟩
    refine (hs' hs).addToNew hse hv (hro ⟨hr, ?_⟩)
    intro ka' hka'
    cases hf.symm.trans hka'
    exact ⟨hn, hm, not_not.1 hd⟩

/-! ### Addresses that a connection was made to -/

/-- The change from `a` to `a'` takes the key out of the given new buckets. -/
structure Leaves (k : AddrKey) (left : List (Fin newBucketCount)) (a a' : AddrManager) : Prop where
  addrIndex_eq : a'.addrIndex = a.addrIndex
  addrTried_eq : a'.addrTried = a.addrTried
  tried : ∀ q, (a'.heap q).tried = (a.heap q).tried
  mem : ∀ {b k'}, k' ∈ a'.addrNew b ↔ ¬(b ∈ left ∧ k' = k) ∧ k' ∈ a.addrNew b

theorem Leaves.card_le {left : List (Fin newBucketCount)} (h : Leaves k left a a')
    (b : Fin newBucketCount) : (a'.addrNew b).keys.card ≤ (a.addrNew b).keys.card :=
  card_le_card fun _ hk => mem_keys.2 (h.mem.1 (mem_keys.1 hk)).2

theorem Leaves.card_lt {left : List (Fin newBucketCount)} (h : Leaves k left a a')
    (hb : b ∈ left) (hk : k ∈ a.addrNew b) :
    (a'.addrNew b).keys.card < (a.addrNew b).keys.card := by
  refine card_lt_card ⟨fun k' hk' => ?_, fun hs => ?_⟩
  · exact mem_keys.2 (h.mem.1 (mem_keys.1 hk')).2
  · exact (h.mem.1 (mem_keys.1 (hs (mem_keys.2 hk)))).1 ⟨hb, rfl⟩

theorem leaves_leaveNew (k : AddrKey) (p : AddrPtr) (left : List (Fin newBucketCount))
    (a : AddrManager) (oldBucket : Option (Fin newBucketCount)) :
    Leaves k left a (leaveNew k p left a oldBucket).1 := by
  induction left generalizing a oldBucket with
  | nil =>
    refine ⟨rfl, rfl, fun _ => rfl, fun {b k'} => ?_⟩
    simp [leaveNew]
  | cons i left ih =>
    rw [leaveNew]
    split_ifs with hm
    · have h := ih (a.eraseNew i k p) (oldBucket.or (some i))
      refine ⟨h.addrIndex_eq, h.addrTried_eq, fun q => (h.tried q).trans tried_eraseNew,
        fun {b k'} => ?_⟩
      rw [h.mem, mem_addrNew_eraseNew, List.mem_cons]
      tauto
    · have h := ih a oldBucket
      refine ⟨h.addrIndex_eq, h.addrTried_eq, h.tried, fun {b k'} => ?_⟩
      rw [h.mem, List.mem_cons]
      refine and_congr_left fun hk' => not_congr (and_congr_left fun heq => ?_)
      refine ⟨.inr, fun hb => hb.resolve_left ?_⟩
      rintro rfl
      exact hm (heq ▸ hk')

/-- The bucket that the loop of `Good` reports is one that held the key, and there is one if any
bucket held it. -/
theorem leaveNew_bucket (k : AddrKey) (p : AddrPtr) (left : List (Fin newBucketCount))
    (a : AddrManager) (oldBucket : Option (Fin newBucketCount)) :
    (∀ i, (leaveNew k p left a oldBucket).2 = some i →
      oldBucket = some i ∨ i ∈ left ∧ k ∈ a.addrNew i) ∧
    ((leaveNew k p left a oldBucket).2 = none →
      oldBucket = none ∧ ∀ i ∈ left, k ∉ a.addrNew i) := by
  induction left generalizing a oldBucket with
  | nil => exact ⟨fun i hi => .inl hi, fun h => ⟨h, fun i hi => by cases hi⟩⟩
  | cons i left ih =>
    rw [leaveNew]
    split_ifs with hm
    · obtain ⟨hs, hn⟩ := ih (a.eraseNew i k p) (oldBucket.or (some i))
      refine ⟨fun i' hi' => ?_, fun h => ?_⟩
      · obtain ho | ⟨hi, hk⟩ := hs i' hi'
        · rw [or_eq_some_iff] at ho
          obtain ho | ⟨-, ho⟩ := ho
          · exact .inl ho
          · cases ho
            exact .inr ⟨List.mem_cons_self, hm⟩
        · exact .inr ⟨List.mem_cons_of_mem i hi, (mem_addrNew_eraseNew.1 hk).2⟩
      · rw [or_eq_none_iff] at hn
        cases (hn h).1.2
    · obtain ⟨hs, hn⟩ := ih a oldBucket
      refine ⟨fun i' hi' => ?_, fun h => ⟨(hn h).1, ?_⟩⟩
      · exact (hs i' hi').imp_right fun hi => ⟨List.mem_cons_of_mem i hi.1, hi.2⟩
      · exact List.forall_mem_cons.2 ⟨hm, (hn h).2⟩

/-- The invariant while an address leaves its new buckets: it is counted until it has left the last
one. -/
def Leaving (env : AddrEnv) (k : AddrKey) (extra : Int) (a : AddrManager) : Prop :=
  a.WF env (fun k' => k' = k ∧ buckets a.addrNew k = ∅)
    (extra + if buckets a.addrNew k = ∅ then 1 else 0)

theorem Leaving.leaveNew (h : a.Leaving env k extra) (hp : a.addrIndex.lookup k = some p)
    (left : List (Fin newBucketCount)) (oldBucket : Option (Fin newBucketCount)) :
    (leaveNew k p left a oldBucket).1.Leaving env k extra := by
  induction left generalizing a oldBucket with
  | nil => exact h
  | cons i left ih =>
    rw [AddrManager.leaveNew]
    split_ifs with hm
    · have hn : buckets a.addrNew k ≠ ∅ :=
        nonempty_iff_ne_empty.1 ⟨i, mem_buckets.2 hm⟩
      obtain ⟨q, hq⟩ := mem_iff.1 hm
      obtain rfl := some.inj ((h.new_mem hq).symm.trans hp)
      have he := h.eraseNew hq
      rw [if_neg hn, Int.add_zero] at he
      have hl : (a.eraseNew i k q).Leaving env k extra :=
        he.mono fun k' _ _ hk' => hk'.resolve_right fun hpe => hn hpe.2
      exact ih hl hp _
    · exact ih h hp oldBucket

theorem elder_cases (a : AddrManager) (oldest : Option (AddrPtr × Nat)) (e : AddrPtr × Nat) :
    a.elder oldest e = e ∨ oldest = some (a.elder oldest e) := by
  cases oldest with
  | none => exact .inl rfl
  | some o =>
    rw [elder]
    split_ifs
    · exact .inl rfl
    · exact .inr rfl

/-- The entry that `pickTried` chooses is in the bucket, at its position, and there is one if the
bucket is not empty. -/
theorem exists_pickTried {t : Fin triedBucketCount} (hne : a.addrTried t ≠ []) :
    ∃ entry, a.pickTried t = some entry ∧ (a.addrTried t)[entry.2]? = some entry.1 := by
  have hf : ∀ (l : List (AddrPtr × Nat)) (oldest : Option (AddrPtr × Nat)),
      (l ≠ [] ∨ oldest ≠ none) → ∃ entry,
        l.foldl (fun oldest e => some (a.elder oldest e)) oldest = some entry ∧
          (oldest = some entry ∨ entry ∈ l) := by
    intro l
    induction l with
    | nil =>
      intro oldest hs
      obtain ⟨entry, rfl⟩ := ne_none_iff_exists'.1 (hs.resolve_left (absurd rfl))
      exact ⟨entry, rfl, .inl rfl⟩
    | cons e l ih =>
      intro oldest _
      obtain ⟨entry, hen, hor⟩ := ih (some (a.elder oldest e)) (.inr (some_ne_none _))
      refine ⟨entry, hen, ?_⟩
      obtain heq | hm := hor
      · cases heq
        obtain he | he := a.elder_cases oldest e
        · rw [he]
          exact .inr List.mem_cons_self
        · exact .inl he
      · exact .inr (List.mem_cons_of_mem e hm)
  have hz : (a.addrTried t).zipIdx ≠ [] := by
    rwa [Ne, List.zipIdx_eq_nil_iff]
  obtain ⟨entry, hen, hor⟩ := hf _ none (.inl hz)
  refine ⟨entry, hen, ?_⟩
  have hm := hor.resolve_left (by intro h; cases h)
  exact List.mk_mem_zipIdx_iff_getElem?.1 hm

/-- **The end of `Good`**: a pending address is put into its tried bucket. -/
theorem WF.moveToTried (cap : Nat) (h : a.WF env (fun k' => k' = k) 0)
    (hp : a.addrIndex.lookup k = some p)
    (hnt : (a.heap p).tried = false) (he : buckets a.addrNew k = ∅)
    (oldBucket : Fin newBucketCount) :
    ∃ a', a.moveToTried env p oldBucket = .ok a' ∧ a'.Sound env ∧
      (a.Sized cap → newBucketSize ≤ cap → (a.addrNew oldBucket).keys.card < cap →
        a'.Sized cap) := by
  rw [AddrManager.moveToTried]
  generalize a.getTriedBucket env (a.heap p).na = t
  by_cases hr : (a.addrTried t).length < triedBucketSize
  · rw [if_pos hr]
    refine ⟨_, rfl, (h.pushTried hp hnt he t).mono fun k' _ _ hk' => hk'.1 hk'.2,
      fun hs _ _ => ⟨hs.new_le, fun t' => ?_⟩⟩
    change (update a.addrTried t (a.addrTried t ++ [p]) t').length ≤ triedBucketSize
    rw [update_apply]
    split_ifs
    · rw [List.length_append]
      exact hr
    · exact hs.tried_le t'
  · have hne : a.addrTried t ≠ [] := by
      intro hni
      rw [hni] at hr
      exact hr (by decide)
    obtain ⟨entry, hpi, hen⟩ := exists_pickTried hne
    obtain ⟨hi, hy⟩ := h.tried_mem (List.mem_of_getElem? hen)
    have hrm : entry.1 ≠ p := by
      intro heq
      rw [heq] at hy
      cases hy.symm.trans hnt
    have hh : (a.swapTried t entry.2 p entry.1).heap entry.1 =
        { a.heap entry.1 with tried := false } := by
      rw [AddrManager.swapTried, heap_modify, if_pos rfl, heap_modify, if_neg hrm]
    have hno : buckets a.addrNew (env.keyOf (a.heap entry.1).na) = ∅ := (h.tried_place hi hy).1
    have hn : env.keyOf (a.heap entry.1).na ∉
        newKeys (a.swapTried t entry.2 p entry.1).addrNew := fun hm =>
      mem_newKeys_iff_buckets.1 hm hno
    have hsw := (h.swapTried hp hnt he hen).setNNew 1
    rw [if_neg hr, hpi]
    dsimp only
    rw [hh]
    generalize hb : (if (a.addrNew (a.getNewBucket env (a.heap entry.1).na
        (a.heap entry.1).srcAddr)).keys.card ≥ newBucketSize then oldBucket
      else a.getNewBucket env (a.heap entry.1).na (a.heap entry.1).srcAddr) = bucket
    have hpu := hsw.putNew hi (congrArg KnownAddress.tried hh)
      (fun hm => hn (mem_newKeys.2 ⟨bucket, hm⟩))
    rw [if_neg hn] at hpu
    refine ⟨_, rfl, hpu.mono fun k' _ _ hk' => ?_, fun hs hc ho => ?_⟩
    · obtain ⟨hne', heq | ⟨hk', heq⟩⟩ := hk'
      · exact hne' heq
      · exact hk' heq
    · have hs' : Sized cap { a.swapTried t entry.2 p entry.1 with
          nNew := (a.swapTried t entry.2 p entry.1).nNew + 1 } := by
        refine ⟨hs.new_le, fun t' => ?_⟩
        change (update a.addrTried t ((a.addrTried t).set entry.2 p) t').length ≤
          triedBucketSize
        rw [update_apply]
        split_ifs
        · rw [List.length_set]
          exact hs.tried_le t
        · exact hs.tried_le t'
      refine hs'.putNew ?_
      rw [← hb]
      split_ifs with hf
      · exact ho
      · exact (not_le.1 hf).trans_le hc

theorem WF.leaveAndMove (cap : Nat) (h : a.Sound env)
    (hp : a.addrIndex.lookup k = some p) (hnt : (a.heap p).tried = false)
    {all : List (Fin newBucketCount)} (ha : ∀ b, b ∈ all) :
    let left := leaveNew k p all a none
    ∃ oldBucket a', left.2 = some oldBucket ∧
      { left.1 with nNew := left.1.nNew - 1 }.moveToTried env p oldBucket = .ok a' ∧
      a'.Sound env ∧ (a.Sized cap → newBucketSize ≤ cap → a'.Sized cap) := by
  intro left
  have hn : buckets a.addrNew k ≠ ∅ := fun he => h.placed hp hnt he
  have hl : Leaves k all a left.1 := leaves_leaveNew ..
  have hbu := leaveNew_bucket k p all a none
  have hlg : a.Leaving env k 0 := by
    rw [Leaving, if_neg hn]
    exact h.mono fun _ _ _ hf => hf.elim
  have he : buckets left.1.addrNew k = ∅ := by
    refine eq_empty_of_forall_notMem fun b hb => ?_
    exact (hl.mem.1 (mem_buckets.1 hb)).1 ⟨ha b, rfl⟩
  have hlf : left.1.WF env (fun k' => k' = k) 1 := by
    have hwf := hlg.leaveNew hp all none
    rw [Leaving, if_pos he] at hwf
    exact hwf.mono fun _ _ _ hk' => hk'.1
  have hc : WF env (fun k' => k' = k) 0 { left.1 with nNew := left.1.nNew - 1 } := by
    exact hlf.setNNew (-1)
  obtain ⟨oldBucket, ho⟩ : ∃ oldBucket, left.2 = some oldBucket := by
    refine ne_none_iff_exists'.1 fun hno => hn ?_
    refine eq_empty_of_forall_notMem fun b hb => ?_
    exact (hbu.2 hno).2 b (ha b) (mem_buckets.1 hb)
  have hme : k ∈ a.addrNew oldBucket := ((hbu.1 oldBucket ho).resolve_left (by intro h; cases h)).2
  obtain ⟨a', hm, hwf, hsi⟩ := hc.moveToTried cap (hl.addrIndex_eq ▸ hp)
    ((hl.tried p).trans hnt) he oldBucket
  refine ⟨oldBucket, a', ho, hm, hwf, fun hs hca => hsi ?_ hca ?_⟩
  · refine ⟨fun b => (hl.card_le b).trans (hs.new_le b), fun t => ?_⟩
    rw [hl.addrTried_eq]
    exact hs.tried_le t
  · exact (hl.card_lt (ha oldBucket) hme).trans_le (hs.new_le oldBucket)

theorem WF.promote (cap : Nat) (h : a.Sound env) (hp : a.addrIndex.lookup k = some p) :
    ∃ a', a.promote env k p = .ok a' ∧ a'.Sound env ∧
      (a.Sized cap → newBucketSize ≤ cap → a'.Sized cap) := by
  rw [AddrManager.promote]
  by_cases hy : (a.heap p).tried = true
  · rw [if_pos hy]
    exact ⟨a, rfl, h, fun hsi _ => hsi⟩
  rw [if_neg hy]
  obtain ⟨oldBucket, a', ho, hm, hwf, hs⟩ :=
    h.leaveAndMove cap hp (Bool.eq_false_iff.2 hy) (List.mem_finRange (n := newBucketCount))
  dsimp only
  rw [ho]
  exact ⟨a', hm, hwf, hs⟩

/-- **`Good` does not panic and keeps the invariant.** -/
theorem WF.good (cap : Nat) (h : a.Sound env) (addr : NetAddress) (now : Int) :
    ∃ a', a.good env addr now = .ok a' ∧ a'.Sound env ∧
      (a.Sized cap → newBucketSize ≤ cap → a'.Sized cap) := by
  rw [AddrManager.good]
  cases hf : a.find env addr with
  | none => exact ⟨a, rfl, h, fun hs _ => hs⟩
  | some ka =>
    have hmarked : (a.modify ka fun v => { v with lastsuccess := now, lastattempt := now
                                                  attempts := 0 }).Sound env :=
      h.modify rfl rfl rfl
    obtain ⟨a', hp, hwf, hs⟩ := hmarked.promote cap hf
    exact ⟨a', hp, hwf, fun hsi => hs ⟨hsi.new_le, hsi.tried_le⟩⟩

/-! ### The other calls -/

theorem WF.attempt (h : a.WF env pending extra) (addr : NetAddress) (now : Int) :
    (a.attempt env addr now).WF env pending extra := by
  rw [AddrManager.attempt]
  cases a.find env addr with
  | none => exact h
  | some ka => exact h.modify rfl rfl rfl

theorem Sized.attempt (h : a.Sized cap) (addr : NetAddress) (now : Int) :
    (a.attempt env addr now).Sized cap := by
  rw [AddrManager.attempt]
  cases a.find env addr with
  | none => exact h
  | some ka => exact ⟨h.new_le, h.tried_le⟩

theorem WF.connected (h : a.WF env pending extra) (addr : NetAddress) (now : Int) :
    (a.connected env addr now).WF env pending extra := by
  rw [AddrManager.connected]
  cases a.find env addr with
  | none => exact h
  | some ka =>
    dsimp only
    split_ifs
    · exact h.modify rfl rfl rfl
    · exact h

theorem Sized.connected (h : a.Sized cap) (addr : NetAddress) (now : Int) :
    (a.connected env addr now).Sized cap := by
  rw [AddrManager.connected]
  cases a.find env addr with
  | none => exact h
  | some ka =>
    dsimp only
    split_ifs
    · exact ⟨h.new_le, h.tried_le⟩
    · exact h

end AddrManager

end DrcNode
