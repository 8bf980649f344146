import Mathlib.Data.List.Nodup
import Mathlib.Data.Nat.Log

/-!
# Trees of hashes

A list of items is combined in pairs, level by level, until one item is left. The last item of a
level with an odd number of items is combined with itself. So the root does not determine the list:
a list that spells out such a copy has the same root. Among lists without repeated items it does, as
long as no two of the pairs that are combined collide and no item at the bottom is a combination.

Both conditions are asked of the pairs of the two trees only; no function into a finite type could
be injective on all pairs.
-/

namespace HashTree

open List

variable {α : Type*} (combine : α → α → α)

/-- The pairs of a level. -/
def levelPairs : List α → List (α × α)
  | a :: b :: rest => (a, b) :: levelPairs rest
  | [a] => [(a, a)]
  | [] => []

/-- The level above. -/
def nextLevel (l : List α) : List α := (levelPairs l).map fun p => combine p.1 p.2

theorem nextLevel_cons_cons (a b : α) (l : List α) :
    nextLevel combine (a :: b :: l) = combine a b :: nextLevel combine l := rfl

theorem length_levelPairs : (l : List α) → (levelPairs l).length = (l.length + 1) / 2
  | [] => by simp [levelPairs]
  | [_] => by simp [levelPairs]
  | _ :: _ :: rest => by
      simp [levelPairs, length_levelPairs rest]
      omega

theorem length_nextLevel (l : List α) : (nextLevel combine l).length = (l.length + 1) / 2 := by
  rw [nextLevel, length_map, length_levelPairs]

/-- The root of the tree over a list. -/
def root (l : List α) : Option α :=
  if 2 ≤ l.length then root (nextLevel combine l) else l.head?
termination_by l.length
decreasing_by
  rw [length_nextLevel]
  omega

/-- The pairs that are combined in the first levels. -/
def hashed : ℕ → List α → List (α × α)
  | 0, _ => []
  | d + 1, l => levelPairs l ++ hashed d (nextLevel combine l)

/-- The number of levels above a list. -/
def depth (l : List α) : ℕ := Nat.clog 2 l.length

/-- No two of the pairs have the same combination. -/
def NoCollision (pairs : List (α × α)) : Prop :=
  ∀ p ∈ pairs, ∀ q ∈ pairs, combine p.1 p.2 = combine q.1 q.2 → p = q

variable {combine} {l m : List α}

theorem root_nextLevel (h : 2 ≤ l.length) :
    root combine l = root combine (nextLevel combine l) := by
  rw [root, if_pos h]

theorem depth_nextLevel (h : 2 ≤ l.length) : depth l = depth (nextLevel combine l) + 1 := by
  rw [depth, depth, length_nextLevel, Nat.clog_of_two_le (by decide) h]
  rfl

/-- **The root is what is left at the top.** -/
theorem root_eq (h : l ≠ []) : ∃ r, root combine l = some r ∧
    (nextLevel combine)^[depth l] l = [r] := by
  induction hn : l.length using Nat.strong_induction_on generalizing l with
  | _ n ih =>
    rw [root]
    split_ifs with ht
    · have hl := length_nextLevel combine l
      have hne : nextLevel combine l ≠ [] := ne_nil_of_length_pos (by omega)
      rw [depth_nextLevel ht]
      exact ih _ (by omega) hne rfl
    · obtain ⟨r, rfl⟩ : ∃ r, l = [r] :=
        length_eq_one_iff.1 (by have := length_pos_iff.2 h; omega)
      exact ⟨r, rfl, by simp [depth]⟩

theorem map_fst_levelPairs : (l : List α) → ((levelPairs l).map Prod.fst).Sublist l
  | [] => .slnil
  | [_] => .refl _
  | a :: b :: rest => ((map_fst_levelPairs rest).cons b).cons_cons a

/-- Without repeated items the pairs of a level determine the level. -/
theorem eq_of_levelPairs_eq : {l m : List α} → l.Nodup → m.Nodup →
    levelPairs l = levelPairs m → l = m
  | [], [], _, _, _ => rfl
  | [], [_], _, _, h => by cases h
  | [], _ :: _ :: _, _, _, h => by cases h
  | [_], [], _, _, h => by cases h
  | [_], [_], _, _, h => by simpa [levelPairs] using h
  | [a], b :: c :: rest, _, hm, h => by
      simp only [levelPairs, List.cons.injEq, Prod.mk.injEq] at h
      simp [← h.1.1, ← h.1.2] at hm
  | _ :: _ :: _, [], _, _, h => by cases h
  | b :: c :: rest, [a], hl, _, h => by
      simp only [levelPairs, List.cons.injEq, Prod.mk.injEq] at h
      simp [h.1.1, h.1.2] at hl
  | a :: b :: l, c :: d :: m, hl, hm, h => by
      simp only [levelPairs, List.cons.injEq, Prod.mk.injEq] at h
      obtain ⟨⟨rfl, rfl⟩, hr⟩ := h
      rw [eq_of_levelPairs_eq hl.of_cons.of_cons hm.of_cons.of_cons hr]

theorem nodup_nextLevel (h : l.Nodup) (hc : NoCollision combine (levelPairs l)) :
    (nextLevel combine l).Nodup := by
  have hpa : (levelPairs l).Nodup := .of_map Prod.fst ((map_fst_levelPairs l).nodup h)
  exact hpa.map_on fun p hp q hq => hc p hp q hq

theorem eq_of_map_eq {β : Type*} {f : α → β} {l m : List α}
    (hf : ∀ a ∈ l, ∀ b ∈ m, f a = f b → a = b) (h : l.map f = m.map f) : l = m := by
  induction l generalizing m with
  | nil => exact (map_eq_nil_iff.1 h.symm).symm
  | cons a l ih =>
    cases m with
    | nil => cases h
    | cons b m =>
      obtain ⟨hab, hr⟩ := List.cons.inj h
      rw [hf a mem_cons_self b mem_cons_self hab,
        ih (fun a' ha' b' hb' => hf a' (mem_cons_of_mem a ha') b' (mem_cons_of_mem b hb')) hr]

/-- **A level determines the list below it**, the same number of levels down. -/
theorem eq_of_iterate_eq {d : ℕ} (hl : l.Nodup) (hm : m.Nodup)
    (hc : NoCollision combine (hashed combine d l ++ hashed combine d m))
    (h : (nextLevel combine)^[d] l = (nextLevel combine)^[d] m) : l = m := by
  induction d generalizing l m with
  | zero => exact h
  | succ d ih =>
    simp only [hashed] at hc
    have hn : nextLevel combine l = nextLevel combine m := by
      refine ih (nodup_nextLevel hl ?_) (nodup_nextLevel hm ?_) ?_ h <;>
        exact fun p hp q hq => hc p (by grind) q (by grind)
    refine eq_of_levelPairs_eq hl hm (eq_of_map_eq (fun p hp q hq => ?_) hn)
    exact hc p (by grind) q (by grind)

theorem hashed_add (e d : ℕ) (l : List α) : hashed combine (e + d) l =
    hashed combine e l ++ hashed combine d ((nextLevel combine)^[e] l) := by
  induction e generalizing l with
  | zero => simp [hashed]
  | succ e ih => rw [Nat.succ_add, hashed, ih, hashed, append_assoc, Function.iterate_succ_apply]

/-- The items above the bottom are combinations. -/
theorem exists_hashed {e : ℕ} {a : α} (h : a ∈ (nextLevel combine)^[e + 1] l) :
    ∃ p ∈ hashed combine (e + 1) l, a = combine p.1 p.2 := by
  induction e generalizing l with
  | zero =>
    obtain ⟨p, hp, rfl⟩ := mem_map.1 h
    exact ⟨p, mem_append_left _ hp, rfl⟩
  | succ e ih =>
    obtain ⟨p, hp, rfl⟩ := ih h
    exact ⟨p, mem_append_right _ hp, rfl⟩

theorem nodup_iterate {e : ℕ} (hl : l.Nodup) (hc : NoCollision combine (hashed combine e l)) :
    ((nextLevel combine)^[e] l).Nodup := by
  induction e generalizing l with
  | zero => exact hl
  | succ e ih =>
    refine ih (nodup_nextLevel hl fun p hp q hq => ?_) fun p hp q hq => ?_
    · exact hc p (mem_append_left _ hp) q (mem_append_left _ hq)
    · exact hc p (mem_append_right _ hp) q (mem_append_right _ hq)

/-- A list is not the upper part of a higher tree. -/
theorem eq_of_iterate_add_eq {d e : ℕ} (hl : l.Nodup) (hm : m.Nodup) (hne : l ≠ [])
    (hc : NoCollision combine (hashed combine d l ++ hashed combine (e + d) m))
    (hlf : ∀ a ∈ l, ∀ p ∈ hashed combine (e + d) m, a ≠ combine p.1 p.2)
    (h : (nextLevel combine)^[d] l = (nextLevel combine)^[e + d] m) : l = m := by
  rw [hashed_add] at hc hlf
  rw [Nat.add_comm, Function.iterate_add_apply] at h
  have heq : l = (nextLevel combine)^[e] m := by
    refine eq_of_iterate_eq hl (nodup_iterate hm ?_) ?_ h <;>
      exact fun p hp q hq => hc p (by grind) q (by grind)
  cases e with
  | zero => exact heq
  | succ e =>
    obtain ⟨a, ha⟩ := exists_mem_of_ne_nil l hne
    obtain ⟨p, hp, rfl⟩ := exists_hashed (heq ▸ ha)
    exact absurd rfl (hlf _ ha p (mem_append_left _ hp))

/-- **The root determines the list** among lists without repeated items. -/
theorem eq_of_root_eq (hl : l.Nodup) (hm : m.Nodup) (hln : l ≠ []) (hmn : m ≠ [])
    (hc : NoCollision combine (hashed combine (depth l) l ++ hashed combine (depth m) m))
    (hlf : ∀ a ∈ l ++ m, ∀ p ∈ hashed combine (depth l) l ++ hashed combine (depth m) m,
      a ≠ combine p.1 p.2) (h : root combine l = root combine m) : l = m := by
  obtain ⟨r, hr, hl'⟩ := @root_eq _ combine l hln
  obtain ⟨r', hr', hm'⟩ := @root_eq _ combine m hmn
  obtain rfl : r = r' := Option.some.inj (hr.symm.trans (h.trans hr'))
  rcases le_total (depth l) (depth m) with hle | hle
  · obtain ⟨e, he⟩ := Nat.exists_eq_add_of_le' hle
    rw [he] at hm' hc hlf
    exact eq_of_iterate_add_eq hl hm hln hc (fun a ha p hp => hlf a (by grind) p (by grind))
      (hl'.trans hm'.symm)
  · obtain ⟨e, he⟩ := Nat.exists_eq_add_of_le' hle
    rw [he] at hl' hc hlf
    refine (eq_of_iterate_add_eq hm hl hmn (fun p hp q hq => hc p (by grind) q (by grind))
      (fun a ha p hp => hlf a (by grind) p (by grind)) (hm'.trans hl'.symm)).symm

end HashTree
