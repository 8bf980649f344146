import DrcNode.Library.Checked

/-!
# Checks that another check relaxes

A check of type `Except ε α` succeeds with a value or fails. `Relaxes r x y` says that `y` succeeds
whenever `x` does, and then with the image of its value under `r`; when `x` fails nothing is said.
This is how a program with fewer rules behaves towards the same program with more of them: `r` maps
the states of the one to those of the other.

The rules below follow the structure of a program, so that the relation for a whole program is
assembled from its steps.
-/

universe u v

variable {ε : Type u} {α β γ δ : Type v}

/-- `y` succeeds whenever `x` does, with the image of its value. -/
def Relaxes (r : α → β) (x : Except ε α) (y : Except ε β) : Prop := ∀ a, x = .ok a → y = .ok (r a)

namespace Relaxes

variable {r : α → β} {r' : γ → δ} {x x' : Except ε α} {y y' : Except ε β} {a : α}

theorem pure : Relaxes r (Pure.pure a : Except ε α) (Pure.pure (r a)) := by
  intro b hb
  cases hb
  rfl

theorem error {e : ε} : Relaxes r (.error e) y := fun _ h => by cases h

theorem refl : Relaxes id x x := fun _ h => h

/-- **Composition.** What follows has to be related for the values that the first check yields. -/
theorem bind {f : α → Except ε γ} {g : β → Except ε δ} (h : Relaxes r x y)
    (hf : ∀ a, x = .ok a → Relaxes r' (f a) (g (r a))) : Relaxes r' (x >>= f) (y >>= g) := by
  intro c hc
  obtain ⟨a, hx, hc⟩ := Checked.bind_eq_ok.1 hc
  exact Checked.bind_eq_ok.2 ⟨r a, h a hx, hf a hx c hc⟩

theorem bind_id {f : α → Except ε γ} {g : α → Except ε δ} {y : Except ε α} (h : Relaxes id x y)
    (hf : ∀ a, x = .ok a → Relaxes r' (f a) (g a)) : Relaxes r' (x >>= f) (y >>= g) :=
  h.bind hf

theorem bind_state {σ τ : Type v} {s : σ → τ} {x : Except ε (α × σ)} {y : Except ε (α × τ)}
    {f : α × σ → Except ε γ} {g : α × τ → Except ε δ} (h : Relaxes (Prod.map id s) x y)
    (hf : ∀ a state, Relaxes r' (f (a, state)) (g (a, s state))) : Relaxes r' (x >>= f) (y >>= g) :=
  h.bind fun a _ => hf a.1 a.2

theorem ite {p q : Prop} [Decidable p] [Decidable q] (hpq : p ↔ q) (ht : p → Relaxes r x y)
    (he : ¬p → Relaxes r x' y') : Relaxes r (if p then x else x') (if q then y else y') := by
  by_cases hp : p
  · rw [if_pos hp, if_pos (hpq.1 hp)]
    exact ht hp
  · rw [if_neg hp, if_neg (mt hpq.2 hp)]
    exact he hp

end Relaxes
