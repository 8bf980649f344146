import Mathlib.Data.List.Basic

/-!
# Reading a stream

A reader takes what it needs from the front of a stream of tokens, or fails. `Reads r s a` says
that `r` takes exactly `s` off any stream that starts with it and yields `a`: what was written is
read back, whatever follows it. The rules below follow the way readers are put together, so that the
round trip of a format is proved along its definition. `Takes` and `Yields` say how much a reader
takes, and what it has taken when it succeeds.
-/

/-- A reader of a stream of tokens. -/
abbrev Reader (τ α : Type) := StateT (List τ) Option α

namespace Reader

open List

variable {τ α β : Type} {s t : List τ} {a : α} {b : β} {r : Reader τ α}

/-- The reader takes exactly `s` off any stream that starts with it, and yields `a`. -/
def Reads (r : Reader τ α) (s : List τ) (a : α) : Prop :=
  ∀ rest, r.run (s ++ rest) = some (a, rest)

/-- The next `n` tokens. -/
def exactly (n : Nat) : Reader τ (List τ) := fun stream =>
  if stream.length < n then none else some (stream.take n, stream.drop n)

/-- Read `n` items. -/
def times : Nat → Reader τ α → Reader τ (List α)
  | 0, _ => pure []
  | n + 1, r => do
      let a ← r
      let as ← times n r
      pure (a :: as)

namespace Reads

theorem pure : Reads (Pure.pure a : Reader τ α) [] a := fun _ => rfl

theorem bind {f : α → Reader τ β} (hr : Reads r s a) (hf : Reads (f a) t b) :
    Reads (r >>= f) (s ++ t) b := by
  intro rest
  rw [StateT.run_bind, append_assoc, hr]
  exact hf rest

theorem bind_last {f : α → Reader τ β} (hr : Reads r s a) (hf : Reads (f a) [] b) :
    Reads (r >>= f) s b := by
  simpa only [append_nil] using hr.bind hf

theorem map (f : α → β) (hr : Reads r s a) : Reads (r >>= fun a => Pure.pure (f a)) s (f a) :=
  hr.bind_last pure

theorem exactly {n : Nat} (h : s.length = n) : Reads (Reader.exactly n) s s := by
  intro rest
  change (if (s ++ rest).length < n then none else _) = _
  rw [if_neg (by rw [length_append]; omega), take_left' h, drop_left' h]

theorem bind_guard {p : Prop} [Decidable p] {f : Unit → Reader τ β} (hp : p)
    (hf : Reads (f ()) t b) : Reads (guard p >>= f) t b := by
  rw [guard, if_pos hp]
  exact hf

theorem times {l : List α} {w : α → List τ} (h : ∀ a ∈ l, Reads r (w a) a) :
    Reads (Reader.times l.length r) (l.flatMap w) l := by
  induction l with
  | nil => exact pure
  | cons a l ih =>
    refine (h a mem_cons_self).bind ?_
    exact (ih fun a' ha' => h a' (mem_cons_of_mem a ha')).map _

end Reads

/-! ### How much a reader takes -/

/-- Whenever the reader succeeds it has taken exactly `n` tokens. -/
def Takes (r : Reader τ α) (n : Nat) : Prop :=
  ∀ stream a rest, r.run stream = some (a, rest) → stream.length = n + rest.length

namespace Takes

variable {m n : Nat}

theorem pure (a : α) : Takes (Pure.pure a : Reader τ α) 0 := by
  intro stream a' rest h
  obtain ⟨-, rfl⟩ := Prod.mk.inj (Option.some.inj h)
  exact (Nat.zero_add _).symm

theorem exactly (n : Nat) : Takes (Reader.exactly n : Reader τ (List τ)) n := by
  intro stream a rest h
  change (if stream.length < n then none else _) = _ at h
  split_ifs at h with hlt
  obtain ⟨-, rfl⟩ := Prod.mk.inj (Option.some.inj h)
  rw [length_drop]
  omega

theorem bind {f : α → Reader τ β} (hr : Takes r m) (hf : ∀ a, Takes (f a) n) :
    Takes (r >>= f) (m + n) := by
  intro stream b rest h
  rw [StateT.run_bind, Option.bind_eq_bind, Option.bind_eq_some_iff] at h
  obtain ⟨⟨a, middle⟩, hfi, hs⟩ := h
  rw [hr _ _ _ hfi, hf a _ _ _ hs, Nat.add_assoc]

theorem run_eq_none (hr : Takes r n) {stream : List τ} (h : stream.length < n) :
    r.run stream = none := by
  cases hru : r.run stream with
  | none => rfl
  | some out =>
    have := hr stream out.1 out.2 hru
    omega

end Takes

/-! ### What a reader accepts -/

/-- Whenever the reader succeeds, what it has taken and what it yields satisfy `P`. -/
def Yields (r : Reader τ α) (P : α → List τ → Prop) : Prop :=
  ∀ stream a rest, r.run stream = some (a, rest) → ∃ taken, stream = taken ++ rest ∧ P a taken

namespace Yields

variable {P : α → List τ → Prop} {Q : β → List τ → Prop} {f : α → Reader τ β}

theorem mono {P' : α → List τ → Prop} (h : Yields r P) (hP : ∀ a s, P a s → P' a s) :
    Yields r P' := by
  intro stream a rest hr
  obtain ⟨taken, hs, hP'⟩ := h stream a rest hr
  exact ⟨taken, hs, hP a taken hP'⟩

theorem pure (h : P a []) : Yields (Pure.pure a : Reader τ α) P := by
  intro stream a' rest hr
  obtain ⟨rfl, rfl⟩ := Prod.mk.inj (Option.some.inj hr)
  exact ⟨[], rfl, h⟩

theorem bind (hr : Yields r P) (hf : ∀ a s, P a s → Yields (f a) fun b t => Q b (s ++ t)) :
    Yields (r >>= f) Q := by
  intro stream b rest hru
  rw [StateT.run_bind, Option.bind_eq_bind, Option.bind_eq_some_iff] at hru
  obtain ⟨⟨a, middle⟩, hfi, hs⟩ := hru
  obtain ⟨s, rfl, hP⟩ := hr _ _ _ hfi
  obtain ⟨t, rfl, hQ⟩ := hf a s hP _ _ _ hs
  exact ⟨s ++ t, (append_assoc s t rest).symm, hQ⟩

theorem bind_guard {p : Prop} [Decidable p] {f : Unit → Reader τ β}
    (hf : p → Yields (f ()) Q) : Yields (guard p >>= f) Q := by
  rw [guard]
  split_ifs with hp
  · exact hf hp
  · intro stream b rest hr
    cases hr

theorem exactly (n : Nat) :
    Yields (Reader.exactly n : Reader τ (List τ)) fun a s => a = s ∧ s.length = n := by
  intro stream a rest hr
  change (if stream.length < n then none else _) = _ at hr
  split_ifs at hr with hlt
  obtain ⟨rfl, rfl⟩ := Prod.mk.inj (Option.some.inj hr)
  exact ⟨stream.take n, (take_append_drop n stream).symm, rfl, by simp; omega⟩

theorem times {w : α → List τ} {p : α → Prop} (hr : Yields r fun a s => s = w a ∧ p a) (n : Nat) :
    Yields (Reader.times n r) fun l s => l.length = n ∧ s = l.flatMap w ∧ ∀ a ∈ l, p a := by
  induction n with
  | zero => exact pure ⟨rfl, rfl, by simp⟩
  | succ n ih =>
    refine hr.bind ?_
    rintro a s ⟨rfl, ha⟩
    refine ih.bind ?_
    rintro l t ⟨rfl, rfl, hl⟩
    exact pure ⟨rfl, by simp, by simpa using ⟨ha, hl⟩⟩

end Yields

end Reader
