import Mathlib.Algebra.BigOperators.Group.Finset.Basic
import Mathlib.Algebra.GroupWithZero.Nat
import Mathlib.Data.Finmap

/-!
# Ledgers of unspent coins

A ledger holds coins under keys. A transfer spends coins, one after the other, and then creates new
ones; it fails when a coin is missing or not accepted. What a sequence of transfers does to a ledger
is the meaning of a chain of payments, whatever the representation that computes it.

## Main results

* `spendAll_eq_some_iff`, `lookup_create`: spending and creating described by what is looked up.
* `Transfer.total_apply_le`: a transfer adds at most what it creates, less what it spends.
* `Traced.apply`: a transfer that spends something cannot be made twice.
-/

namespace Ledger

open Finmap List Option

variable {κ ν : Type} [DecidableEq κ]

/-- Coins under their keys. -/
abbrev Coins (κ ν : Type) := Finmap fun _ : κ => ν

/-- Spend the coin under a key, if there is one and it is accepted. -/
def spend (accepts : ν → Bool) (coins : Coins κ ν) (key : κ) : Option (Coins κ ν) :=
  match coins.lookup key with
  | none => none
  | some coin => if accepts coin then some (coins.erase key) else none

/-- Spend the coins under the keys, one after the other. -/
def spendAll (accepts : ν → Bool) (coins : Coins κ ν) (keys : List κ) : Option (Coins κ ν) :=
  keys.foldlM (spend accepts) coins

/-- Create coins. A coin under the same key is replaced. -/
def create (coins : Coins κ ν) (outputs : List (κ × ν)) : Coins κ ν :=
  outputs.foldl (fun coins out => coins.insert out.1 out.2) coins

variable {accepts : ν → Bool} {coins coins' : Coins κ ν} {key : κ} {keys : List κ} {coin : ν}

theorem spend_eq_some_iff : spend accepts coins key = some coins' ↔
    (∃ coin, coins.lookup key = some coin ∧ accepts coin = true) ∧ coins' = coins.erase key := by
  rw [spend]
  cases coins.lookup key with
  | none =>
    constructor
    · intro h
      cases h
    · rintro ⟨⟨coin, h, -⟩, -⟩
      cases h
  | some coin =>
    simp only [some.injEq, exists_eq_left']
    split_ifs with h
    · rw [some.injEq]
      exact ⟨fun heq => ⟨h, heq.symm⟩, fun heq => heq.2.symm⟩
    · exact ⟨fun heq => (by cases heq), fun heq => absurd heq.1 h⟩

/-- The coins without those under the keys. -/
def eraseAll (coins : Coins κ ν) (keys : List κ) : Coins κ ν :=
  keys.foldl (fun coins key => coins.erase key) coins

theorem lookup_eraseAll :
    (eraseAll coins keys).lookup key = if key ∈ keys then none else coins.lookup key := by
  induction keys generalizing coins with
  | nil => exact (if_neg not_mem_nil).symm
  | cons key' keys ih =>
    rw [eraseAll, foldl_cons, ← eraseAll, ih]
    by_cases h : key = key'
    · subst h
      rw [lookup_erase, ite_self, if_pos mem_cons_self]
    · simp [h]

/-- **When coins can be spent**: the keys are different, and there is an accepted coin under each.
-/
theorem spendAll_eq_some_iff : spendAll accepts coins keys = some coins' ↔
    keys.Nodup ∧ (∀ key ∈ keys, ∃ coin, coins.lookup key = some coin ∧ accepts coin = true) ∧
      coins' = eraseAll coins keys := by
  induction keys generalizing coins with
  | nil =>
    constructor
    · intro h
      exact ⟨nodup_nil, fun _ hm => absurd hm not_mem_nil, (some.inj h).symm⟩
    · rintro ⟨-, -, rfl⟩
      rfl
  | cons key keys ih =>
    have hs : spendAll accepts coins (key :: keys) = some coins' ↔
        (∃ coin, coins.lookup key = some coin ∧ accepts coin = true) ∧
          spendAll accepts (coins.erase key) keys = some coins' := by
      rw [spendAll, foldlM_cons, bind_eq_bind, bind_eq_some_iff]
      simp [spend_eq_some_iff, spendAll]
    rw [hs, ih, nodup_cons, forall_mem_cons]
    constructor
    · rintro ⟨hke, hno, hk, hc'⟩
      have hn : key ∉ keys := by
        intro hm
        obtain ⟨coin, hco, -⟩ := hk key hm
        rw [lookup_erase] at hco
        cases hco
      refine ⟨⟨hn, hno⟩, ⟨hke, fun key' hm => ?_⟩, hc'⟩
      rw [← lookup_erase_ne (ne_of_mem_of_not_mem hm hn)]
      exact hk key' hm
    · rintro ⟨⟨hn, hno⟩, ⟨hke, hk⟩, hc'⟩
      refine ⟨hke, hno, fun key' hm => ?_, hc'⟩
      rw [lookup_erase_ne (ne_of_mem_of_not_mem hm hn)]
      exact hk key' hm

/-! ### Created coins -/

/-- The coin that a list of outputs leaves under a key: the last one. -/
def created : List (κ × ν) → κ → Option ν
  | [], _ => none
  | out :: outputs, key =>
      (created outputs key).or (if key = out.1 then some out.2 else none)

variable {outputs : List (κ × ν)}

theorem lookup_create :
    (create coins outputs).lookup key = (created outputs key).or (coins.lookup key) := by
  induction outputs generalizing coins with
  | nil => rfl
  | cons out outputs ih =>
    have hi : (coins.insert out.1 out.2).lookup key =
        (if key = out.1 then some out.2 else none).or (coins.lookup key) := by
      split_ifs with h
      · rw [h, lookup_insert]
        rfl
      · rw [lookup_insert_of_ne _ h]
        rfl
    rw [create, foldl_cons, ← create, ih, hi, created, Option.or_assoc]

theorem mem_of_created (h : created outputs key = some coin) : (key, coin) ∈ outputs := by
  induction outputs with
  | nil => cases h
  | cons out outputs ih =>
    rw [created, or_eq_some_iff] at h
    obtain h | ⟨-, h⟩ := h
    · exact mem_cons_of_mem out (ih h)
    · split_ifs at h with hk
      cases h
      rw [hk]
      exact mem_cons_self

theorem created_eq_none_iff : created outputs key = none ↔ key ∉ outputs.map Prod.fst := by
  induction outputs with
  | nil => exact ⟨fun _ => not_mem_nil, fun _ => rfl⟩
  | cons out outputs ih =>
    rw [created, or_eq_none_iff, ih, map_cons, mem_cons, not_or, and_comm]
    refine and_congr_left fun _ => ?_
    split_ifs with h
    · exact ⟨fun heq => (by cases heq), fun hne => absurd h hne⟩
    · exact ⟨fun _ => h, fun _ => rfl⟩

theorem created_of_mem (hn : (outputs.map Prod.fst).Nodup) (hm : (key, coin) ∈ outputs) :
    created outputs key = some coin := by
  cases hc : created outputs key with
  | none => exact absurd (mem_map_of_mem hm) (created_eq_none_iff.1 hc)
  | some coin' =>
    have heq : (key, coin') = (key, coin) := inj_on_of_nodup_map hn (mem_of_created hc) hm rfl
    rw [(Prod.mk.inj heq).2]

theorem created_map {ν' : Type} (f : ν → ν') :
    created (outputs.map fun out => (out.1, f out.2)) key = (created outputs key).map f := by
  induction outputs with
  | nil => rfl
  | cons out outputs ih =>
    rw [map_cons, created, created, ih, map_or]
    split_ifs <;> rfl

/-! ### Transfers -/

/-- A transfer: the keys of the coins it spends, which coins it accepts, and what it creates. -/
structure Transfer (κ ν : Type) where
  inputs : List κ
  accepts : ν → Bool
  outputs : List (κ × ν)

/-- The coins after a transfer. -/
def Transfer.apply (coins : Coins κ ν) (transfer : Transfer κ ν) : Option (Coins κ ν) :=
  (spendAll transfer.accepts coins transfer.inputs).map (create · transfer.outputs)

/-- The coins after transfers that are made one after the other. -/
def applyAll (coins : Coins κ ν) (transfers : List (Transfer κ ν)) : Option (Coins κ ν) :=
  transfers.foldlM Transfer.apply coins

variable {transfer : Transfer κ ν} {transfers : List (Transfer κ ν)}

/-- **When a transfer succeeds.** -/
theorem Transfer.apply_eq_some_iff : transfer.apply coins = some coins' ↔
    transfer.inputs.Nodup ∧ (∀ key ∈ transfer.inputs, ∃ coin, coins.lookup key = some coin ∧
        transfer.accepts coin = true) ∧
      coins' = create (eraseAll coins transfer.inputs) transfer.outputs := by
  rw [apply, map_eq_some_iff]
  constructor
  · rintro ⟨rest, hs, rfl⟩
    obtain ⟨hn, hi, rfl⟩ := spendAll_eq_some_iff.1 hs
    exact ⟨hn, hi, rfl⟩
  · rintro ⟨hn, hi, rfl⟩
    exact ⟨_, spendAll_eq_some_iff.2 ⟨hn, hi, rfl⟩, rfl⟩

/-- **The coins after a transfer**: what it creates, and otherwise what was there and is
not spent. -/
theorem Transfer.lookup_of_apply (h : transfer.apply coins = some coins') (key : κ) :
    coins'.lookup key = (created transfer.outputs key).or
      (if key ∈ transfer.inputs then none else coins.lookup key) := by
  obtain ⟨-, -, rfl⟩ := Transfer.apply_eq_some_iff.1 h
  rw [lookup_create, lookup_eraseAll]

theorem applyAll_cons : applyAll coins (transfer :: transfers) =
    (transfer.apply coins).bind fun coins => applyAll coins transfers := by
  rfl

theorem applyAll_append {transfers' : List (Transfer κ ν)} :
    applyAll coins (transfers ++ transfers') =
    (applyAll coins transfers).bind fun coins => applyAll coins transfers' := by
  rw [applyAll, foldlM_append]
  rfl

/-- A coin after the transfers was there before, or has been created by one of them. -/
theorem lookup_of_applyAll (h : applyAll coins transfers = some coins')
    (hco : coins'.lookup key = some coin) :
    coins.lookup key = some coin ∨ ∃ transfer ∈ transfers, (key, coin) ∈ transfer.outputs := by
  induction transfers generalizing coins with
  | nil =>
    cases h
    exact .inl hco
  | cons transfer transfers ih =>
    rw [applyAll_cons, bind_eq_some_iff] at h
    obtain ⟨coins₁, hf, h⟩ := h
    obtain hco₁ | ⟨transfer', ht', hc⟩ := ih h
    · rw [Transfer.lookup_of_apply hf, or_eq_some_iff] at hco₁
      obtain hc | ⟨-, ho⟩ := hco₁
      · exact .inr ⟨transfer, mem_cons_self, mem_of_created hc⟩
      · split_ifs at ho
        exact .inl ho
    · exact .inr ⟨transfer', mem_cons_of_mem transfer ht', hc⟩

theorem mem_of_applyAll (h : applyAll coins transfers = some coins') (hm : key ∈ coins') :
    key ∈ coins ∨ ∃ transfer ∈ transfers, key ∈ transfer.outputs.map Prod.fst := by
  obtain ⟨coin, hc⟩ := mem_iff.1 hm
  obtain ho | ⟨transfer, ht, hou⟩ := lookup_of_applyAll h hc
  · exact .inl (mem_of_lookup_eq_some ho)
  · exact .inr ⟨transfer, ht, mem_map_of_mem (f := Prod.fst) hou⟩

/-- **A missing coin that nobody creates cannot be spent.** -/
theorem applyAll_eq_none (hco : key ∉ coins)
    (hc : ∀ transfer ∈ transfers, key ∉ transfer.outputs.map Prod.fst)
    (hs : ∃ transfer ∈ transfers, key ∈ transfer.inputs) : applyAll coins transfers = none := by
  obtain ⟨transfer, hm, hk⟩ := hs
  obtain ⟨before, after, rfl⟩ := append_of_mem hm
  rw [applyAll_append]
  cases hb : applyAll coins before with
  | none => rfl
  | some coins' =>
    rw [bind_some, applyAll_cons]
    cases hf : transfer.apply coins' with
    | none => rfl
    | some coins'' =>
      obtain ⟨coin, hcn, -⟩ := (Transfer.apply_eq_some_iff.1 hf).2.1 key hk
      obtain hol | ⟨other, ho, hou⟩ := mem_of_applyAll hb (mem_of_lookup_eq_some hcn)
      · exact absurd hol hco
      · exact absurd hou (hc other (mem_append_left _ ho))

/-! ### The value of a ledger -/

section Total

variable (value : ν → ℕ)

/-- The value of the coin under a key. -/
def worth (coins : Coins κ ν) (key : κ) : ℕ := (coins.lookup key).elim 0 value

/-- The value of all coins. -/
def total (coins : Coins κ ν) : ℕ := ∑ key ∈ coins.keys, worth value coins key

variable {value}

theorem total_erase (value : ν → ℕ) (coins : Coins κ ν) (key : κ) :
    total value (coins.erase key) + worth value coins key = total value coins := by
  have hs : total value (coins.erase key) =
      ∑ key' ∈ coins.keys.erase key, worth value coins key' := by
    rw [total, keys_erase]
    refine Finset.sum_congr rfl fun key' hk' => ?_
    rw [worth, lookup_erase_ne (Finset.ne_of_mem_erase hk'), worth]
  by_cases hm : key ∈ coins.keys
  · rw [hs, Finset.sum_erase_add _ _ hm, total]
  · have hn : coins.lookup key = none :=
      lookup_eq_none.2 fun h => hm (Finmap.mem_keys.2 h)
    rw [hs, Finset.erase_eq_of_notMem hm, worth, hn, elim_none, Nat.add_zero, total]

theorem total_insert_le : total value (coins.insert key coin) ≤ total value coins + value coin := by
  have he : (coins.insert key coin).erase key = coins.erase key := by
    refine ext_lookup fun key' => ?_
    by_cases h : key' = key
    · rw [h, lookup_erase, lookup_erase]
    · rw [lookup_erase_ne h, lookup_erase_ne h, lookup_insert_of_ne _ h]
  calc total value (coins.insert key coin)
      = total value (coins.erase key) + worth value (coins.insert key coin) key := by
        rw [← total_erase value _ key, he]
    _ = total value (coins.erase key) + value coin := by
        rw [worth, lookup_insert, elim_some]
    _ ≤ total value coins + value coin :=
        Nat.add_le_add_right (Nat.le_of_add_right_le (total_erase value coins key).le) _

theorem total_eraseAll (hn : keys.Nodup) :
    total value (eraseAll coins keys) + (keys.map (worth value coins)).sum = total value coins := by
  induction keys generalizing coins with
  | nil => rfl
  | cons key keys ih =>
    obtain ⟨hnm, hn⟩ := nodup_cons.1 hn
    have hw : keys.map (worth value (coins.erase key)) = keys.map (worth value coins) := by
      refine map_congr_left fun key' hm => ?_
      rw [worth, lookup_erase_ne (ne_of_mem_of_not_mem hm hnm), worth]
    have hr : total value (eraseAll (coins.erase key) keys) +
        (keys.map (worth value (coins.erase key))).sum = total value (coins.erase key) := ih hn
    have hk := total_erase value coins key
    rw [hw] at hr
    rw [eraseAll, foldl_cons, ← eraseAll, map_cons, sum_cons]
    omega

theorem total_create_le : total value (create coins outputs) ≤
    total value coins + (outputs.map fun out => value out.2).sum := by
  induction outputs generalizing coins with
  | nil => exact le_rfl
  | cons out outputs ih =>
    have hr : total value (create (coins.insert out.1 out.2) outputs) ≤
        total value (coins.insert out.1 out.2) + (outputs.map fun out => value out.2).sum := ih
    have hi : total value (coins.insert out.1 out.2) ≤ total value coins + value out.2 :=
      total_insert_le
    rw [create, foldl_cons, ← create, map_cons, sum_cons]
    omega

/-- **A transfer adds at most the value of what it creates, less the value of what it spends.** -/
theorem Transfer.total_apply_le (h : transfer.apply coins = some coins') :
    total value coins' + (transfer.inputs.map (worth value coins)).sum ≤
      total value coins + (transfer.outputs.map fun out => value out.2).sum := by
  obtain ⟨hn, -, rfl⟩ := Transfer.apply_eq_some_iff.1 h
  calc total value (create (eraseAll coins transfer.inputs) transfer.outputs) +
        (transfer.inputs.map (worth value coins)).sum
      ≤ total value (eraseAll coins transfer.inputs) +
          (transfer.outputs.map fun out => value out.2).sum +
          (transfer.inputs.map (worth value coins)).sum := Nat.add_le_add_right total_create_le _
    _ = total value coins + (transfer.outputs.map fun out => value out.2).sum := by
        rw [Nat.add_right_comm, total_eraseAll hn]

end Total

/-! ### Where coins come from -/

section Traced

variable {ι : Type} (origin : κ → ι)

/-- The transfers that have been made account for the coins: their names are different, and what has
been spent does not come back. -/
structure Traced (done : List (ι × List κ)) (coins : Coins κ ν) : Prop where
  nodup : (done.map Prod.fst).Nodup
  origin_mem : ∀ key ∈ coins, origin key ∈ done.map Prod.fst
  spent : ∀ made ∈ done, ∀ key ∈ made.2, key ∉ coins ∧ origin key ∈ done.map Prod.fst

omit [DecidableEq κ] in
theorem Traced.empty : Traced origin [] (∅ : Coins κ ν) where
  nodup := nodup_nil
  origin_mem _ h := by cases h
  spent _ h := by cases h

variable {origin} {done : List (ι × List κ)} {name : ι}

section

variable (h : Traced origin done coins) (ha : transfer.apply coins = some coins')
include h ha

/-- **A transfer that spends something cannot be made twice**: its inputs are gone. -/
theorem Traced.name_notMem
    (hs : ∀ made ∈ done, made.1 = name → made.2 = transfer.inputs ∧ transfer.inputs ≠ []) :
    name ∉ done.map Prod.fst := by
  intro hme
  obtain ⟨made, hm, hn⟩ := mem_map.1 hme
  obtain ⟨hi, hne⟩ := hs made hm hn
  obtain ⟨key, hk⟩ := exists_mem_of_ne_nil _ hne
  obtain ⟨coin, hc, -⟩ := (Transfer.apply_eq_some_iff.1 ha).2.1 key hk
  exact (h.spent made hm key (hi ▸ hk)).1 (mem_of_lookup_eq_some hc)

theorem Traced.apply (hou : ∀ out ∈ transfer.outputs, origin out.1 = name)
    (hna : name ∉ done.map Prod.fst) :
    Traced origin (done ++ [(name, transfer.inputs)]) coins' := by
  have hi := (Transfer.apply_eq_some_iff.1 ha).2.1
  -- a coin after the transfer is a new one, or was there and has not been spent
  have hme : ∀ key ∈ coins', origin key = name ∨ key ∈ coins ∧ key ∉ transfer.inputs := by
    intro key hk
    obtain ⟨coin, hc⟩ := mem_iff.1 hk
    rw [Transfer.lookup_of_apply ha, or_eq_some_iff] at hc
    obtain hcr | ⟨-, hol⟩ := hc
    · exact .inl (hou _ (mem_of_created hcr))
    · split_ifs at hol with hs
      exact .inr ⟨mem_of_lookup_eq_some hol, hs⟩
  have hn : (done ++ [(name, transfer.inputs)]).map Prod.fst = done.map Prod.fst ++ [name] :=
    map_append
  refine ⟨?nodup, fun key hk => ?origin_mem, fun made hm key hk => ?spent⟩
  case nodup =>
    rw [hn, nodup_append_comm]
    exact nodup_cons.2 ⟨hna, h.nodup⟩
  case origin_mem =>
    rw [hn, mem_append, List.mem_singleton]
    obtain hnw | ⟨hol, -⟩ := hme key hk
    · exact .inr hnw
    · exact .inl (h.origin_mem key hol)
  case spent =>
    obtain ⟨hg, ho⟩ : (key ∈ transfer.inputs ∨ key ∉ coins) ∧ origin key ∈ done.map Prod.fst := by
      obtain hm | hm := mem_append.1 hm
      · exact ⟨.inr (h.spent made hm key hk).1, (h.spent made hm key hk).2⟩
      · obtain rfl := mem_singleton.1 hm
        obtain ⟨coin, hc, -⟩ := hi key hk
        exact ⟨.inl hk, h.origin_mem key (mem_of_lookup_eq_some hc)⟩
    refine ⟨fun hb => ?_, hn ▸ mem_append_left _ ho⟩
    obtain hnw | ⟨hol, hu⟩ := hme key hb
    · exact hna (hnw ▸ ho)
    · exact hg.elim hu fun hno => hno hol

end

/-- **Names stay different** along transfers of which those with the same name have the same inputs,
at least one. -/
theorem Traced.applyAll {named : List (ι × Transfer κ ν)} (h : Traced origin done coins)
    (ha : applyAll coins (named.map Prod.snd) = some coins')
    (ho : ∀ new ∈ named, ∀ out ∈ new.2.outputs, origin out.1 = new.1)
    (hs : (done ++ named.map fun new => (new.1, new.2.inputs)).Pairwise fun made new =>
      made.1 = new.1 → made.2 = new.2 ∧ new.2 ≠ []) :
    Traced origin (done ++ named.map fun new => (new.1, new.2.inputs)) coins' := by
  induction named generalizing done coins with
  | nil =>
    cases ha
    rwa [map_nil, append_nil]
  | cons new named ih =>
    rw [map_cons, applyAll_cons, bind_eq_some_iff] at ha
    obtain ⟨coins₁, hf, ha⟩ := ha
    have hn : new.1 ∉ done.map Prod.fst := h.name_notMem hf fun made hm =>
      (pairwise_append.1 hs).2.2 made hm _ mem_cons_self
    have hf' := h.apply hf (ho new mem_cons_self) hn
    rw [map_cons, append_cons] at hs ⊢
    exact ih hf' ha (fun new' hme => ho new' (mem_cons_of_mem new hme)) hs

end Traced

end Ledger
