import Mathlib.Order.Basic
import Mathlib.Order.Defs.LinearOrder
import Mathlib.Order.Lattice
import Mathlib.Data.List.Basic
import Mathlib.Data.List.Nodup

/-!
# Ordered maps

A bucket of a key-value store is a map whose cursor meets the entries in the order of their keys. It
is the list of the entries in that order, and carries that it is one.
-/

/-- A map from `κ` to `ν` as the list of its entries in the order of their keys. -/
structure Bucket (κ ν : Type*) [LinearOrder κ] where
  entries : List (κ × ν)
  sorted : entries.Pairwise fun e e' => e.1 < e'.1

namespace Bucket

open List Option

variable {κ ν : Type*} [LinearOrder κ] {k : κ} {v : ν} {e : κ × ν}

/-- The bucket without entries. -/
def empty : Bucket κ ν := ⟨[], .nil⟩

/-- Put an entry into a list of entries, in place of the one with the same key if there is one. -/
def putEntry (k : κ) (v : ν) : List (κ × ν) → List (κ × ν)
  | [] => [(k, v)]
  | e :: rest =>
      if k < e.1 then (k, v) :: e :: rest
      else if k = e.1 then (k, v) :: rest
      else e :: putEntry k v rest

theorem mem_putEntry {l : List (κ × ν)} (h : l.Pairwise fun e e' => e.1 < e'.1) :
    e ∈ putEntry k v l ↔ e = (k, v) ∨ e ∈ l ∧ e.1 ≠ k := by
  induction l with
  | nil => simp [putEntry]
  | cons e' rest ih =>
    obtain ⟨hh, ht⟩ := pairwise_cons.1 h
    rw [putEntry]
    split_ifs with hlt heq
    · -- every key of the list is greater
      have hne : ∀ e ∈ e' :: rest, e.1 ≠ k := by
        intro e he
        rcases mem_cons.1 he with rfl | he
        · exact hlt.ne'
        · exact (hlt.trans (hh e he)).ne'
      rw [mem_cons]
      exact or_congr_right ⟨fun he => ⟨he, hne e he⟩, And.left⟩
    · subst heq
      rw [mem_cons, mem_cons]
      refine or_congr_right ⟨fun he => ⟨.inr he, (hh e he).ne'⟩, fun he => ?_⟩
      exact he.1.resolve_left fun heq => he.2 (heq ▸ rfl)
    · rw [mem_cons, ih ht, mem_cons]
      constructor
      · rintro (rfl | hn | ho)
        · exact .inr ⟨.inl rfl, Ne.symm heq⟩
        · exact .inl hn
        · exact .inr ⟨.inr ho.1, ho.2⟩
      · rintro (hn | ⟨rfl | ho, hne⟩)
        · exact .inr (.inl hn)
        · exact .inl rfl
        · exact .inr (.inr ⟨ho, hne⟩)

theorem pairwise_putEntry {l : List (κ × ν)} (h : l.Pairwise fun e e' => e.1 < e'.1) :
    (putEntry k v l).Pairwise fun e e' => e.1 < e'.1 := by
  induction l with
  | nil => exact pairwise_singleton _ _
  | cons e rest ih =>
    obtain ⟨hh, ht⟩ := pairwise_cons.1 h
    rw [putEntry]
    split_ifs with hlt heq
    · refine pairwise_cons.2 ⟨fun e' he' => ?_, h⟩
      rcases mem_cons.1 he' with rfl | he'
      · exact hlt
      · exact hlt.trans (hh e' he')
    · exact pairwise_cons.2 ⟨fun e' he' => heq ▸ hh e' he', ht⟩
    · refine pairwise_cons.2 ⟨fun e' he' => ?_, ih ht⟩
      rcases (mem_putEntry ht).1 he' with rfl | he'
      · exact lt_of_le_of_ne (not_lt.1 hlt) (Ne.symm heq)
      · exact hh e' he'.1

/-- Put an entry into a bucket. -/
def put (bucket : Bucket κ ν) (k : κ) (v : ν) : Bucket κ ν :=
  ⟨putEntry k v bucket.entries, pairwise_putEntry bucket.sorted⟩

theorem mem_put {bucket : Bucket κ ν} :
    e ∈ (bucket.put k v).entries ↔ e = (k, v) ∨ e ∈ bucket.entries ∧ e.1 ≠ k :=
  mem_putEntry bucket.sorted

section

variable {bucket : Bucket κ ν} {done rest : List (κ × ν)} {e' : κ × ν}

/-- **The cursor has met every entry with a smaller key before.** -/
theorem mem_before
    (hsp : bucket.entries = done ++ e :: rest) (he' : e' ∈ bucket.entries) (hlt : e'.1 < e.1) :
    e' ∈ done := by
  have hs := bucket.sorted
  rw [hsp] at he' hs
  obtain ⟨-, hr, -⟩ := pairwise_append.1 hs
  rcases mem_append.1 he' with hd | hr'
  · exact hd
  · rcases mem_cons.1 hr' with rfl | hr'
    · exact absurd hlt (lt_irrefl _)
    · exact absurd hlt (lt_asymm ((pairwise_cons.1 hr).1 e' hr'))

theorem lt_of_mem_before
    (hsp : bucket.entries = done ++ e :: rest) (he' : e' ∈ done) : e'.1 < e.1 := by
  have hs := bucket.sorted
  rw [hsp] at hs
  exact (pairwise_append.1 hs).2.2 e' he' e mem_cons_self

end

/-! ### Reading -/

section Reading

variable {bucket : Bucket κ ν} {k' : κ} {v' : ν}

/-- The value of a key. -/
def get (bucket : Bucket κ ν) (k : κ) : Option ν :=
  (bucket.entries.find? fun e => e.1 = k).map Prod.snd

/-- Take the entry with a key out of a bucket. -/
def erase (bucket : Bucket κ ν) (k : κ) : Bucket κ ν :=
  ⟨bucket.entries.filter fun e => e.1 ≠ k, bucket.sorted.filter _⟩

theorem mem_erase : e ∈ (bucket.erase k).entries ↔ e ∈ bucket.entries ∧ e.1 ≠ k := by
  rw [erase, mem_filter, decide_eq_true_eq]

theorem eq_of_mem_entries (h : (k, v) ∈ bucket.entries) (h' : (k, v') ∈ bucket.entries) :
    v = v' := by
  have hn : (bucket.entries.map Prod.fst).Nodup := pairwise_map.2 (bucket.sorted.imp ne_of_lt)
  exact (Prod.mk.inj (inj_on_of_nodup_map hn h h' rfl)).2

theorem get_eq_some_iff : bucket.get k = some v ↔ (k, v) ∈ bucket.entries := by
  rw [get, map_eq_some_iff]
  constructor
  · rintro ⟨e, hf, rfl⟩
    have hk : e.1 = k := by simpa using find?_some hf
    exact hk ▸ mem_of_find?_eq_some hf
  · intro hm
    have hs : (bucket.entries.find? fun e => decide (e.1 = k)).isSome :=
      find?_isSome.2 ⟨(k, v), hm, by simp⟩
    obtain ⟨e, hf⟩ := isSome_iff_exists.1 hs
    have hk : e.1 = k := by simpa using find?_some hf
    have he := mem_of_find?_eq_some hf
    refine ⟨e, hf, ?_⟩
    subst hk
    exact eq_of_mem_entries he hm

theorem get_put : (bucket.put k v).get k' = if k' = k then some v else bucket.get k' := by
  refine ext fun w => ?_
  rw [get_eq_some_iff, mem_put]
  split_ifs with h
  · subst h
    simp [eq_comm]
  · simp [h, get_eq_some_iff]

theorem get_erase : (bucket.erase k).get k' = if k' = k then none else bucket.get k' := by
  refine ext fun w => ?_
  rw [get_eq_some_iff, mem_erase]
  split_ifs with h
  · simp [h]
  · simp [h, get_eq_some_iff]

/-- **Reading after a loop over the entries**, each round of which changes what is read under its
key. -/
theorem read_foldl {σ ω : Type*} {f : σ → κ × ν → σ} {read : σ → κ → ω} (value : ν → ω)
    (hs : ∀ s e k, read (f s e) k = if k = e.1 then value e.2 else read s k)
    (bucket : Bucket κ ν) (s : σ) (k : κ) :
    read (bucket.entries.foldl f s) k = ((bucket.get k).map value).getD (read s k) := by
  have hl : ∀ entries : List (κ × ν), (entries.map Prod.fst).Nodup → ∀ s,
      read (entries.foldl f s) k =
        (((entries.find? fun e => e.1 = k).map Prod.snd).map value).getD (read s k) := by
    intro entries
    induction entries with
    | nil => exact fun _ _ => rfl
    | cons e entries ih =>
      intro hn s
      obtain ⟨hnm, hn⟩ := nodup_cons.1 hn
      rw [foldl_cons, ih hn, hs]
      by_cases hk : e.1 = k
      · -- the entry is the only one with this key
        have hno : entries.find? (fun e => decide (e.1 = k)) = none := by
          refine find?_eq_none.2 fun e' he' => ?_
          rw [decide_eq_true_eq]
          exact fun heq => hnm (hk.trans heq.symm ▸ mem_map_of_mem he')
        simp [hno, decide_eq_true hk, if_pos hk.symm]
      · simp [decide_eq_false hk, if_neg (Ne.symm hk)]
  exact hl bucket.entries (pairwise_map.2 (bucket.sorted.imp ne_of_lt)) s

end Reading

end Bucket
