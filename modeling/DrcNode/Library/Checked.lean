import Mathlib.Data.List.Induction

/-!
# Chains of checks

A check either fails with an error or yields a value, as a term of `Except`. A chain of checks
succeeds exactly when each of them does; the lemmas here turn the equation `chain = .ok b` into
that conjunction, so that a function written as a chain is read off without unfolding `bind`. The
errors of a chain are those of its parts (`FailsOnly`, `Meets`).
-/

namespace Checked

open List Except

universe u v

variable {ε : Type u} {α β : Type v}

@[simp] theorem bind_eq_ok {x : Except ε α} {f : α → Except ε β} {b : β} :
    (x >>= f) = .ok b ↔ ∃ a, x = .ok a ∧ f a = .ok b := by
  cases x with
  | error e =>
    constructor
    · intro h; cases h
    · rintro ⟨a, h, -⟩; cases h
  | ok a =>
    constructor
    · exact fun h => ⟨a, rfl, h⟩
    · rintro ⟨a', h, hb⟩; cases h; exact hb

theorem exists_bind_eq_ok {x : Except ε α} {f : α → Except ε β} :
    (∃ b, (x >>= f) = .ok b) ↔ ∃ a, x = .ok a ∧ ∃ b, f a = .ok b := by
  simp only [bind_eq_ok]
  exact ⟨fun ⟨b, a, hx, hf⟩ => ⟨a, hx, b, hf⟩, fun ⟨a, hx, b, hf⟩ => ⟨b, a, hx, hf⟩⟩

@[simp] theorem pure_eq_ok {a b : α} : (pure a : Except ε α) = .ok b ↔ a = b := by
  constructor
  · intro h; cases h; rfl
  · rintro rfl; rfl

theorem ite_eq_ok_iff {p : Prop} [Decidable p] {e : ε} {u : Unit} :
    (if p then .ok () else .error e : Except ε Unit) = .ok u ↔ p := by
  split_ifs with h
  · exact iff_of_true rfl h
  · exact iff_of_false (fun h' => by cases h') h

@[simp] theorem map_eq_ok {x : Except ε α} {f : α → β} {b : β} :
    x.map f = .ok b ↔ ∃ a, x = .ok a ∧ f a = b := by
  cases x with
  | error e => exact ⟨fun h => (by cases h), fun ⟨_, h, _⟩ => (by cases h)⟩
  | ok a => exact ⟨fun h => ⟨a, rfl, ok.inj h⟩, fun ⟨_, h, hb⟩ => by cases h; rw [← hb]; rfl⟩

theorem mapError_eq_ok {ε' : Type*} {x : Except ε α} {f : ε → ε'} {a : α} :
    x.mapError f = .ok a ↔ x = .ok a := by
  cases x with
  | error e => exact ⟨fun h => (by cases h), fun h => (by cases h)⟩
  | ok b => exact ⟨fun h => congrArg _ (ok.inj h), fun h => congrArg _ (ok.inj h)⟩

theorem toOption_eq_some {x : Except ε α} {a : α} : x.toOption = some a ↔ x = .ok a := by
  cases x with
  | error e => exact ⟨fun h => (by cases h), fun h => (by cases h)⟩
  | ok b => exact ⟨fun h => congrArg _ (Option.some.inj h), fun h => congrArg _ (ok.inj h)⟩

/-- Whether a check fails with a given error can be decided without comparing values. -/
instance decidableEqError [DecidableEq ε] (x : Except ε α) (e : ε) : Decidable (x = .error e) :=
  match x with
  | .ok _ => isFalse fun h => by cases h
  | .error e' => decidable_of_iff (e' = e) ⟨congrArg _, error.inj⟩

theorem forM_eq_ok {f : α → Except ε PUnit} : {l : List α} →
    (l.forM f = .ok PUnit.unit ↔ ∀ x ∈ l, f x = .ok PUnit.unit)
  | [] => by
      constructor
      · intro _ x hx; cases hx
      · intro _; rfl
  | x :: l => by
      change (f x >>= fun _ => l.forM f) = _ ↔ _
      rw [bind_eq_ok, forall_mem_cons, ← forM_eq_ok (l := l)]
      constructor
      · rintro ⟨⟨⟩, hx, hl⟩; exact ⟨hx, hl⟩
      · rintro ⟨hx, hl⟩; exact ⟨PUnit.unit, hx, hl⟩

/-- **Simulation rule.** When every step of one fold is followed by a step of another, so is the
whole fold. -/
theorem foldlM_simulates {γ : Type v} {f : β → α → Except ε β} {g : γ → α → Except ε γ} (π : β → γ)
    {l : List α} (h : ∀ x ∈ l, ∀ b b', f b x = .ok b' → g (π b) x = .ok (π b')) {b b' : β}
    (hf : l.foldlM f b = .ok b') : l.foldlM g (π b) = .ok (π b') := by
  induction l generalizing b with
  | nil =>
    cases hf
    rfl
  | cons x l ih =>
    rw [foldlM_cons, bind_eq_ok] at hf
    obtain ⟨b₁, hs, hf⟩ := hf
    rw [foldlM_cons, h x mem_cons_self b b₁ hs]
    exact ih (fun y hy => h y (mem_cons_of_mem x hy)) hf

/-- **Invariant rule for a fold** over the beginning of a list, with what has been done and what is
left of it. -/
theorem foldlM_invariant {f : β → α → Except ε β} {P : List α → List α → β → Prop}
    {all done rest : List α} {b b' : β}
    (hsp : ∀ before x rest b b', all = before ++ x :: rest → P before (x :: rest) b →
      f b x = .ok b' → P (before ++ [x]) rest b')
    (hst : P [] all b) (hs : all = done ++ rest) (hf : done.foldlM f b = .ok b') :
    P done rest b' := by
  -- the steps are made from the left, so the last element of `done` is the last step
  induction done using List.reverseRecOn generalizing rest b' with
  | nil =>
    cases hf
    cases hs
    exact hst
  | append_singleton before x ih =>
    rw [append_assoc] at hs
    rw [foldlM_append, bind_eq_ok] at hf
    obtain ⟨b₁, hb, hl⟩ := hf
    rw [foldlM_cons, bind_eq_ok] at hl
    obtain ⟨b₂, hl, hn⟩ := hl
    cases hn
    exact hsp before x rest b₁ b' hs (ih hs hb) hl

/-- **Progress rule for a fold**: when every step succeeds and keeps a property of what has been
done, the fold succeeds. -/
theorem exists_foldlM_eq_ok {f : β → α → Except ε β} {P : List α → β → Prop}
    {all done rest : List α} {b : β}
    (hst : ∀ before x rest b, all = before ++ x :: rest → P before b →
      ∃ b', f b x = .ok b' ∧ P (before ++ [x]) b') (hs : all = done ++ rest) (hd : P done b) :
    ∃ b', rest.foldlM f b = .ok b' ∧ P all b' := by
  induction rest generalizing done b with
  | nil =>
    rw [append_nil] at hs
    subst hs
    exact ⟨b, rfl, hd⟩
  | cons x rest ih =>
    obtain ⟨b₁, hx, hn⟩ := hst done x rest b hs hd
    obtain ⟨b', hf, ha⟩ := ih (hs.trans (append_cons done x rest)) hn
    exact ⟨b', by rw [foldlM_cons, hx]; exact hf, ha⟩

theorem anyM_eq_ok {p : α → Except ε Bool} {q : α → Bool} {l : List α}
    (h : ∀ x ∈ l, p x = .ok (q x)) : l.anyM p = .ok (l.any q) := by
  induction l with
  | nil => rfl
  | cons x l ih =>
    obtain ⟨hx, hl⟩ := forall_mem_cons.1 h
    rw [List.anyM, hx, any_cons]
    cases q x with
    | true => rfl
    | false => exact ih hl

/-! ### How a chain fails -/

/-- The check can fail only with errors that satisfy `P`. -/
def FailsOnly (P : ε → Prop) (x : Except ε α) : Prop := ∀ e, x = .error e → P e

namespace FailsOnly

variable {P : ε → Prop}

theorem ok {a : α} : FailsOnly P (.ok a : Except ε α) := fun _ h => by cases h

theorem of_eq_ok {x : Except ε α} {a : α} (h : x = .ok a) : FailsOnly P x := h ▸ ok

theorem bind {x : Except ε α} {f : α → Except ε β} (hx : FailsOnly P x)
    (hf : ∀ a, x = .ok a → FailsOnly P (f a)) : FailsOnly P (x >>= f) := by
  cases x with
  | error e => exact fun e' h => hx e' (by cases h; rfl)
  | ok a => exact hf a rfl

theorem seq {x : Except ε α} {y : Except ε β} (hx : FailsOnly P x) (hy : FailsOnly P y) :
    FailsOnly P (x >>= fun _ => y) := hx.bind fun _ _ => hy

theorem bind_iff {x : Except ε α} {f : α → Except ε β} :
    FailsOnly P (x >>= f) ↔ FailsOnly P x ∧ ∀ a, x = .ok a → FailsOnly P (f a) := by
  constructor
  · intro h
    constructor
    · rintro e rfl
      exact h e rfl
    · rintro a rfl
      exact h
  · rintro ⟨hx, hf⟩
    exact hx.bind hf

theorem forM {f : α → Except ε PUnit} {l : List α} (hf : ∀ x ∈ l, FailsOnly P (f x)) :
    FailsOnly P (l.forM f) := by
  induction l with
  | nil => exact ok
  | cons x l ih =>
    exact (hf x mem_cons_self).bind fun _ _ =>
      ih fun y hy => hf y (mem_cons_of_mem x hy)

theorem foldlM {f : β → α → Except ε β} {l : List α} {b : β}
    (hf : ∀ b, ∀ x ∈ l, FailsOnly P (f b x)) : FailsOnly P (l.foldlM f b) := by
  induction l generalizing b with
  | nil => exact ok
  | cons x l ih =>
    exact (hf b x mem_cons_self).bind fun _ _ =>
      ih fun b y hy => hf b y (mem_cons_of_mem x hy)

end FailsOnly

/-- What the check yields satisfies `Q`, and it fails only with errors that satisfy `P`. -/
def Meets (P : ε → Prop) (Q : α → Prop) : Except ε α → Prop
  | .ok a => Q a
  | .error e => P e

namespace Meets

variable {P : ε → Prop} {Q R : α → Prop} {x : Except ε α}

section

variable (hx : Meets P Q x)
include hx

theorem bind {S : β → Prop} {f : α → Except ε β} (hf : ∀ a, Q a → Meets P S (f a)) : Meets P S
    (x >>= f) := by
  cases x with
  | error e => exact hx
  | ok a => exact hf a hx

theorem seq {S : β → Prop} {y : Except ε β} (hy : Meets P S y) : Meets P S (x >>= fun _ => y) :=
  hx.bind fun _ _ => hy

theorem mono (h : ∀ a, Q a → R a) : Meets P R x := by
  cases x with
  | error e => exact hx
  | ok a => exact h a hx

theorem of_eq_ok {a : α} (h : x = .ok a) : Q a := by
  subst h
  exact hx

theorem eq_ok : Meets P (fun a => Q a ∧ x = .ok a) x := by
  cases x with
  | error e => exact hx
  | ok a => exact ⟨hx, rfl⟩

end

end Meets

end Checked
