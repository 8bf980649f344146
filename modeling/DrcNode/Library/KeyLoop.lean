import Mathlib.Data.Finmap

/-!
# Loops over the keys of a map

A loop that goes over the keys a map has at the start, in any order, and changes or removes at each
key only what is stored there. The order does not matter, and what is under a key afterwards is what
the loop body makes of it.
-/

namespace KeyLoop

open Finmap Multiset

variable {κ ν : Type} [DecidableEq κ] (f : κ → Option ν → Option ν)

/-- The loop body makes of what is stored under a key what `f` says, and changes nothing else. -/
def Alters (step : (Finmap fun _ : κ => ν) → κ → Finmap fun _ : κ => ν) : Prop :=
  ∀ m key key', (step m key).lookup key' =
    if key' = key then f key (m.lookup key) else m.lookup key'

/-- Replace what is stored under a key, or remove it. -/
def alterAt (m : Finmap fun _ : κ => ν) (key : κ) : Finmap fun _ : κ => ν :=
  match f key (m.lookup key) with
  | none => m.erase key
  | some v => m.insert key v

variable {f} {m : Finmap fun _ : κ => ν} {key : κ}

theorem alters_alterAt : Alters f (alterAt f) := by
  intro m key key'
  rw [alterAt]
  split_ifs with h
  · subst h
    cases f key' (m.lookup key') with
    | none => exact lookup_erase key' m
    | some v => exact lookup_insert m
  · cases f key (m.lookup key) with
    | none => exact lookup_erase_ne h
    | some v => exact lookup_insert_of_ne m h

section

variable {step : (Finmap fun _ : κ => ν) → κ → Finmap fun _ : κ => ν} (h : Alters f step)
include h

theorem Alters.rightCommutative : RightCommutative step where
  right_comm m k₁ k₂ := by
    refine ext_lookup fun k => ?_
    simp only [h _ _ _]
    grind

/-- Over some of the keys, those that come later are still as they were. -/
theorem Alters.lookup_foldl [RightCommutative step] {keys : Multiset κ} (hn : keys.Nodup) :
    (keys.foldl step m).lookup key =
      if key ∈ keys then f key (m.lookup key) else m.lookup key := by
  induction keys using Multiset.induction_on generalizing m with
  | empty => rfl
  | cons k keys ih =>
    obtain ⟨hnm, hn⟩ := Multiset.nodup_cons.1 hn
    rw [foldl_cons, ih hn, h]
    by_cases hk : key = k
    · subst hk
      rw [if_neg hnm, if_pos rfl, if_pos (mem_cons_self _ _)]
    · simp [hk]

end

instance rightCommutative_alterAt : RightCommutative (alterAt f) := alters_alterAt.rightCommutative

variable (f m) in
/-- The loop over the keys. -/
def alterAll : Finmap fun _ : κ => ν := m.keys.val.foldl (alterAt f) m

/-- **What is under a key after the loop.** -/
theorem lookup_alterAll :
    (alterAll f m).lookup key = if key ∈ m then f key (m.lookup key) else none := by
  have hke : key ∈ m.keys.val ↔ key ∈ m := mem_keys
  rw [alterAll, alters_alterAt.lookup_foldl m.keys.nodup]
  by_cases hm : key ∈ m
  · rw [if_pos (hke.2 hm), if_pos hm]
  · rw [if_neg fun h => hm (hke.1 h), if_neg hm, lookup_eq_none.2 hm]

end KeyLoop
