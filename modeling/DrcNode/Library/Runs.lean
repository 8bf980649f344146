import Mathlib.Data.List.Basic

/-!
# Runs of a machine whose steps can fail

A machine has states `σ`, events `ε` and a step function that either yields the next state or
stops with a failure `π`. `Run step ok s es t` holds when the events `es`, taken one after the
other from `s`, all succeed and lead to `t`, and each of them meets the condition `ok` in the
state it is taken in. `exec` and `execWhile` compute runs on fixed events.

## Main definitions

* `Run`, `exec`.

## Main results

* `Run.invariant`: a property that every step keeps holds at the end.
-/

namespace Runs

open List

variable {σ ε π : Type*} {step : σ → ε → Except π σ} {ok ok' : σ → ε → Prop} {s t u : σ}
  {es : List ε} {e : ε}

/-- The events `es` lead from `s` to `t`, each meeting `ok` where it is taken. -/
inductive Run (step : σ → ε → Except π σ) (ok : σ → ε → Prop) (s : σ) : List ε → σ → Prop
  | nil : Run step ok s [] s
  | snoc {es : List ε} {t u : σ} {e : ε} (run : Run step ok s es t) (hok : ok t e)
      (hstep : step t e = .ok u) : Run step ok s (es ++ [e]) u

/-- The state after the events `es`, or the first failure. -/
def exec (step : σ → ε → Except π σ) (s : σ) (es : List ε) : Except π σ := es.foldlM step s

/-- **Invariant rule.** A property of the first state that every step of the run keeps holds of
the last state. -/
theorem Run.invariant {P : σ → Prop} (hr : Run step ok s es t) (hs : P s)
    (hst : ∀ t e u, P t → ok t e → step t e = .ok u → P u) : P t := by
  induction hr with
  | nil => exact hs
  | snoc _ hok he ih => exact hst _ _ _ ih hok he

theorem Run.split_last (p : ε → Bool) (hr : Run step ok s es t) :
    Run step (fun t e => ok t e ∧ p e = false) s es t ∨
      ∃ es₁ e es₂ t₁ t₂, es = es₁ ++ e :: es₂ ∧ p e = true ∧ Run step ok s es₁ t₁ ∧ ok t₁ e ∧
        step t₁ e = .ok t₂ ∧ Run step (fun t e => ok t e ∧ p e = false) t₂ es₂ t := by
  induction hr with
  | nil => exact .inl .nil
  | @snoc es t u e hr hok he ih =>
    cases hp : p e with
    | true => exact .inr ⟨es, e, [], t, u, rfl, hp, hr, hok, he, .nil⟩
    | false =>
      rcases ih with hn | ⟨es₁, e₁, es₂, t₁, t₂, rfl, hp₁, hr₁, hok₁, he₁, hr₂⟩
      · exact .inl (hn.snoc ⟨hok, hp⟩ he)
      · exact .inr ⟨es₁, e₁, es₂ ++ [e], t₁, t₂, append_assoc es₁ (e₁ :: es₂) [e], hp₁,
          hr₁, hok₁, he₁, hr₂.snoc ⟨hok, hp⟩ he⟩

theorem Run.mono (hr : Run step ok s es t) (h : ∀ t e, ok t e → ok' t e) : Run step ok' s es t := by
  induction hr with
  | nil => exact .nil
  | snoc _ hok he ih => exact .snoc ih (h _ _ hok) he

theorem Run.cons (hok : ok s e) (he : step s e = .ok t) (hr : Run step ok t es u) :
    Run step ok s (e :: es) u := by
  induction hr with
  | nil => simpa using .snoc .nil hok he
  | snoc _ hok' he' ih => simpa using .snoc ih hok' he'

theorem exec_cons : exec step s (e :: es) = (step s e).bind fun t => exec step t es :=
  rfl

theorem exec_append_singleton :
    exec step s (es ++ [e]) = (exec step s es).bind fun t => step t e := by
  simp only [exec, foldlM_append, foldlM_cons, foldlM_nil, bind_pure]
  rfl

theorem run_iff_exec : Run step (fun _ _ => True) s es t ↔ exec step s es = .ok t := by
  constructor
  · intro hr
    induction hr with
    | nil => rfl
    | snoc _ _ he ih => rw [exec_append_singleton, ih]; exact he
  · intro h
    induction es generalizing s with
    | nil => cases h; exact .nil
    | cons e es ih =>
      rw [exec_cons] at h
      cases he : step s e with
      | error p => rw [he] at h; cases h
      | ok s' => rw [he] at h; exact .cons trivial he (ih h)

/-! ### What a run puts out -/

section Outputs

variable {β : Type*} {out : σ → ε → Option β}

/-- What the events `es` put out, one after the other, up to the first failure. -/
def outputs (step : σ → ε → Except π σ) (out : σ → ε → Option β) : σ → List ε → List β
  | _, [] => []
  | s, e :: es =>
      (out s e).toList ++
        match step s e with
        | .ok t => outputs step out t es
        | .error _ => []

theorem outputs_append {es' : List ε} (h : exec step s es = .ok t) :
    outputs step out s (es ++ es') = outputs step out s es ++ outputs step out t es' := by
  induction es generalizing s with
  | nil =>
    cases h
    rfl
  | cons e es ih =>
    rw [exec_cons] at h
    rw [cons_append, outputs, outputs]
    cases he : step s e with
    | error p =>
      rw [he] at h
      cases h
    | ok s' =>
      rw [he] at h
      dsimp only
      rw [ih h, append_assoc]

/-- The last event of a run puts out what it puts out in the last state but one. -/
theorem Run.mem_outputs_snoc {e : ε} {b : β} (hr : Run step ok s es t) :
    b ∈ outputs step out s (es ++ [e]) ↔ b ∈ outputs step out s es ∨ out t e = some b := by
  rw [outputs_append (run_iff_exec.1 (hr.mono fun _ _ _ => trivial)), mem_append, outputs]
  refine or_congr .rfl ?_
  cases step t e <;> rw [mem_append, Option.mem_toList] <;>
    exact or_iff_left not_mem_nil

end Outputs

/-! ### Computing a run under a condition -/

section Computed

variable [∀ s e, Decidable (ok s e)] {P Q : σ → Prop}

/-- The state after the events `es`, if they all succeed and all meet the condition. -/
def execWhile (step : σ → ε → Except π σ) (ok : σ → ε → Prop) [∀ s e, Decidable (ok s e)] :
    σ → List ε → Option σ
  | s, [] => some s
  | s, e :: es =>
      if ok s e then
        match step s e with
        | .ok t => execWhile step ok t es
        | .error _ => none
      else none

theorem run_of_execWhile (h : execWhile step ok s es = some t) : Run step ok s es t := by
  induction es generalizing s with
  | nil =>
    cases h
    exact .nil
  | cons e es ih =>
    rw [execWhile] at h
    split_ifs at h with hok
    split at h
    · exact .cons hok ‹_› (ih h)
    · cases h

variable [DecidablePred P] (h : (execWhile step ok s es).any (fun t => decide (P t)) = true)
include h

/-- A run that is computed to a state with a decidable property. -/
theorem exists_run : ∃ t, Run step ok s es t ∧ P t := by
  obtain ⟨t, ht, hP⟩ := (Option.any_eq_true _ _).1 h
  exact ⟨t, run_of_execWhile ht, of_decide_eq_true hP⟩

/-- What follows for the state that a run is computed to. -/
theorem exists_run_of (hQ : ∀ t, Run step ok s es t → P t → Q t) :
    ∃ t, Run step ok s es t ∧ Q t := by
  obtain ⟨t, hr, hP⟩ := exists_run h
  exact ⟨t, hr, hQ t hr hP⟩

theorem exists_run_and (hQ : ∀ t, Run step ok s es t → P t → Q t) :
    ∃ t, Run step ok s es t ∧ P t ∧ Q t :=
  exists_run_of h fun t hr hP => ⟨hP, hQ t hr hP⟩

end Computed

end Runs
