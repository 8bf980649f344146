import Mathlib.Data.Finmap

/-!
# Inverted indices

Rows with identifiers `α` are looked up by keys `κ` through a map of maps: under each key stand the
rows that have this key, by their identifiers. A row is entered under each of its keys and dropped
from each of them, and a key under which nothing is left goes away.
-/

/-- A map from keys to the rows that have this key. -/
abbrev InvertedIndex (κ α ν : Type*) := Finmap fun _ : κ => Finmap fun _ : α => ν

namespace InvertedIndex

open Finmap Function Option

variable {κ α ν : Type*} [DecidableEq κ] [DecidableEq α]

/-- The rows under a key. -/
def rowsAt (index : InvertedIndex κ α ν) (k : κ) : Finmap fun _ : α => ν :=
  (index.lookup k).getD ∅

/-- Enter a row under a key. -/
def enter (a : α) (v : ν) (index : InvertedIndex κ α ν) (k : κ) : InvertedIndex κ α ν :=
  index.insert k ((index.rowsAt k).insert a v)

/-- Drop a row from under a key, and the key with the last row. -/
def drop (a : α) (index : InvertedIndex κ α ν) (k : κ) : InvertedIndex κ α ν :=
  match index.lookup k with
  | none => index
  | some rows => if (rows.erase a).keys = ∅ then index.erase k else index.insert k (rows.erase a)

/-- No key is there without a row. -/
def NoneEmpty (index : InvertedIndex κ α ν) : Prop := ∀ k, index.lookup k ≠ some ∅

variable {index : InvertedIndex κ α ν} {a b : α} {v w : ν} {k k' : κ} {ks : List κ}

theorem eq_empty_of_keys {m : Finmap fun _ : α => ν} (h : m.keys = ∅) : m = ∅ := by
  refine ext_lookup fun b => ?_
  rw [lookup_empty, lookup_eq_none, ← mem_keys, h]
  exact Finset.notMem_empty b

theorem lookup_rowsAt_enter : ((index.enter a v k).rowsAt k').lookup b =
    if b = a ∧ k' = k then some v else (index.rowsAt k').lookup b := by
  rw [rowsAt, enter]
  by_cases hk : k' = k
  · subst hk
    rw [lookup_insert, getD_some]
    by_cases hb : b = a
    · subst hb
      rw [lookup_insert, if_pos ⟨rfl, rfl⟩]
    · rw [lookup_insert_of_ne _ hb, if_neg fun h => hb h.1]
  · rw [lookup_insert_of_ne _ hk, if_neg fun h => hk h.2]
    rfl

theorem lookup_rowsAt_drop : ((index.drop a k).rowsAt k').lookup b =
    if b = a ∧ k' = k then none else (index.rowsAt k').lookup b := by
  have her : ∀ rows : Finmap fun _ : α => ν, (rows.erase a).lookup b =
      if b = a then none else rows.lookup b := by
    intro rows
    split_ifs with hb
    · rw [hb, lookup_erase]
    · exact lookup_erase_ne hb
  by_cases hk : k' = k
  · subst hk
    rw [drop, rowsAt, rowsAt]
    cases hr : index.lookup k' with
    | none =>
      rw [hr, getD_none, lookup_empty, ite_self]
    | some rows =>
      simp only [getD_some, and_true, ← her]
      split_ifs with he
      · rw [lookup_erase, getD_none, eq_empty_of_keys he]
      · rw [lookup_insert, getD_some]
  · have ho : (index.drop a k).lookup k' = index.lookup k' := by
      unfold drop
      split
      · rfl
      · split_ifs
        · exact lookup_erase_ne hk
        · exact lookup_insert_of_ne _ hk
    rw [rowsAt, rowsAt, ho, if_neg fun h => hk h.2]

theorem NoneEmpty.enter (h : index.NoneEmpty) (a : α) (v : ν) (k : κ) :
    (index.enter a v k).NoneEmpty := by
  intro k' he
  rw [InvertedIndex.enter] at he
  by_cases hk : k' = k
  · subst hk
    rw [lookup_insert] at he
    have hr := congrArg (Finmap.lookup a) (some.inj he)
    rw [lookup_insert] at hr
    cases hr
  · rw [lookup_insert_of_ne _ hk] at he
    exact h k' he

theorem NoneEmpty.drop (h : index.NoneEmpty) (a : α) (k : κ) : (index.drop a k).NoneEmpty := by
  intro k' he
  unfold InvertedIndex.drop at he
  split at he
  · exact h k' he
  by_cases hk : k' = k
  · subst hk
    split_ifs at he with hke
    · rw [lookup_erase] at he
      cases he
    · rw [lookup_insert] at he
      rw [some.inj he] at hke
      exact hke keys_empty
  · split_ifs at he
    · rw [lookup_erase_ne hk] at he
      exact h k' he
    · rw [lookup_insert_of_ne _ hk] at he
      exact h k' he

/-! ### A row with several keys -/

/-- Enter a row under each of its keys. -/
def enterAll (a : α) (v : ν) (ks : List κ) (index : InvertedIndex κ α ν) : InvertedIndex κ α ν :=
  ks.foldl (enter a v) index

/-- Drop a row from under each of its keys. -/
def dropAll (a : α) (ks : List κ) (index : InvertedIndex κ α ν) : InvertedIndex κ α ν :=
  ks.foldl (drop a) index

omit [DecidableEq κ] in
/-- A loop that stores the same at each of its keys. -/
theorem foldl_eq_ite {σ τ : Type*} (get : σ → τ) (step : σ → κ → σ) {r : τ} {p : κ → Prop}
    [DecidablePred p] (hs : ∀ s k, get (step s k) = if p k then r else get s) {s : σ} :
    get (ks.foldl step s) = if ∃ k ∈ ks, p k then r else get s := by
  induction ks generalizing s with
  | nil => simp
  | cons k ks ih =>
    rw [List.foldl_cons, ih, hs, ← ite_or]
    exact if_congr (or_comm.trans (List.exists_mem_cons_iff ..).symm) rfl rfl

theorem NoneEmpty.enterAll (h : index.NoneEmpty) (a : α) (v : ν) (ks : List κ) :
    (index.enterAll a v ks).NoneEmpty :=
  List.foldlRecOn ks _ h fun _ h k _ => h.enter a v k

theorem NoneEmpty.dropAll (h : index.NoneEmpty) (a : α) (ks : List κ) :
    (index.dropAll a ks).NoneEmpty :=
  List.foldlRecOn ks _ h fun _ h k _ => h.drop a k

/-! ### The index of a table -/

/-- **The index of a table**: under each key stand the rows that have it, and there is no key
without a row. -/
structure Indexes (index : InvertedIndex κ α ν) (keysOf : ν → List κ) (rows : α → Option ν) :
    Prop where
  lookup_iff : ∀ k a v, (index.rowsAt k).lookup a = some v ↔ rows a = some v ∧ k ∈ keysOf v
  noneEmpty : index.NoneEmpty

variable {keysOf : ν → List κ} {rows : α → Option ν}

theorem indexes_empty : (∅ : InvertedIndex κ α ν).Indexes keysOf fun _ => none where
  lookup_iff _ _ _ := iff_of_false (fun h => by cases h) fun h => by cases h.1
  noneEmpty _ h := by cases h

section

variable (h : index.Indexes keysOf rows)
include h

/-- **A new row** is entered under its keys. -/
theorem Indexes.enterAll (hn : rows a = none) (v : ν) :
    (index.enterAll a v (keysOf v)).Indexes keysOf (Function.update rows a (some v)) where
  noneEmpty := h.noneEmpty.enterAll a v (keysOf v)
  lookup_iff k b w := by
    rw [InvertedIndex.enterAll,
      foldl_eq_ite (fun index => (rowsAt index k).lookup b) (enter a v) fun _ _ =>
        lookup_rowsAt_enter]
    simp only [exists_eq_right_right']
    by_cases hb : b = a
    · subst hb
      rw [update_self]
      split_ifs with hk
      · refine ⟨fun hw => ⟨hw, ?_⟩, fun hw => hw.1⟩
        rw [← some.inj hw]
        exact hk.1
      · rw [h.lookup_iff, hn]
        refine iff_of_false (fun hw => by cases hw.1) fun hw => hk ⟨?_, rfl⟩
        rw [some.inj hw.1]
        exact hw.2
    · rw [if_neg fun hk => hb hk.2, update_of_ne hb]
      exact h.lookup_iff k b w

/-- **A row** is dropped from under its keys. -/
theorem Indexes.dropAll (hr : rows a = some v) :
    (index.dropAll a (keysOf v)).Indexes keysOf (Function.update rows a none) where
  noneEmpty := h.noneEmpty.dropAll a (keysOf v)
  lookup_iff k b w := by
    rw [InvertedIndex.dropAll,
      foldl_eq_ite (fun index => (rowsAt index k).lookup b) (drop a) fun _ _ =>
        lookup_rowsAt_drop]
    simp only [exists_eq_right_right']
    by_cases hb : b = a
    · subst hb
      rw [update_self]
      refine iff_of_false (fun hw => ?_) fun hw => by cases hw.1
      split_ifs at hw with hk
      obtain ⟨hw, hm⟩ := (h.lookup_iff k b w).1 hw
      rw [hr] at hw
      cases hw
      exact hk ⟨hm, rfl⟩
    · rw [if_neg fun hk => hb hk.2, update_of_ne hb]
      exact h.lookup_iff k b w

theorem Indexes.notMem_keysOf (hk : index.rowsAt k = ∅)
    (hr : rows a = some v) : k ∉ keysOf v := by
  intro hm
  have hl := (h.lookup_iff k a v).2 ⟨hr, hm⟩
  rw [hk] at hl
  cases hl

end

end InvertedIndex
