import Mathlib.Tactic.Common

/-!
# Labelled transition systems

Runs of a system with several kinds of steps, the invariant rule, and the
restriction of a system to the steps that meet a condition on the state
they start from, and systems whose step is a function.
-/
namespace RustPlc.Core

/-- Initial states and labelled steps. -/
structure Lts (σ l : Type) where
  init : σ → Prop
  step : σ → l → σ → Prop

namespace Lts

variable {σ l : Type}

/-- The states a run from an initial state visits. -/
inductive Reachable (L : Lts σ l) : σ → Prop where
  | init {s : σ} : L.init s → Reachable L s
  | step {s t : σ} {a : l} : Reachable L s → L.step s a t → Reachable L t

/-- The steps that start where `C` holds. -/
def restrict (L : Lts σ l) (C : σ → l → Prop) : Lts σ l where
  init := L.init
  step := fun s a t => C s a ∧ L.step s a t

/-- What holds initially and is kept by every step holds in every reachable
state. -/
theorem Reachable.inv {L : Lts σ l} {I : σ → Prop} (h0 : ∀ s, L.init s → I s)
    (hstep : ∀ s a t, I s → L.step s a t → I t) {s : σ} (h : L.Reachable s) : I s := by
  induction h with
  | init h => exact h0 _ h
  | step _ ha ih => exact hstep _ _ _ ih ha

/-- Under a condition on the steps, only the steps that meet it need to keep
the invariant. -/
theorem Reachable.inv_restrict {L : Lts σ l} {C : σ → l → Prop} {I : σ → Prop}
    (h0 : ∀ s, L.init s → I s) (hstep : ∀ s a t, I s → C s a → L.step s a t → I t) {s : σ}
    (h : (L.restrict C).Reachable s) : I s := by
  induction h with
  | init h => exact h0 _ h
  | step _ ha ih => exact hstep _ _ _ ih ha.1 ha.2

/-- A weaker condition allows the same runs. -/
theorem Reachable.mono {L : Lts σ l} {C C' : σ → l → Prop} (hC : ∀ s a, C s a → C' s a) {s : σ}
    (h : (L.restrict C).Reachable s) : (L.restrict C').Reachable s := by
  induction h with
  | init h => exact .init h
  | step _ ha ih => exact .step ih ⟨hC _ _ ha.1, ha.2⟩

/-- The runs of a restricted system are runs. -/
theorem Reachable.of_restrict {L : Lts σ l} {C : σ → l → Prop} {s : σ}
    (h : (L.restrict C).Reachable s) : L.Reachable s := by
  induction h with
  | init h => exact .init h
  | step _ ha ih => exact .step ih ha.2

/-! ## Systems given by a function -/

/-- The step is a function of the state and the label, where it is enabled. -/
def ofFun (init : σ → Prop) (f : σ → l → Option σ) : Lts σ l where
  init := init
  step := fun s a t => f s a = some t

/-- Does the steps of a list. -/
def exec (f : σ → l → Option σ) : List l → σ → Option σ
  | [], s => some s
  | a :: as, s => (f s a).bind (exec f as)

theorem Reachable.exec {init : σ → Prop} {f : σ → l → Option σ} {as : List l} {s t : σ}
    (h : (ofFun init f).Reachable s) (he : exec f as s = some t) : (ofFun init f).Reachable t := by
  induction as generalizing s with
  | nil =>
    obtain rfl : s = t := Option.some.inj he
    exact h
  | cons a as ih =>
    obtain ⟨u, hu, he⟩ := Option.bind_eq_some_iff.mp he
    exact ih (.step h hu) he

/-- Steps that are only done where a condition holds are steps of the restricted
system. -/
theorem Reachable.of_guarded {init : σ → Prop} {f : σ → l → Option σ} {C : σ → l → Prop}
    [∀ s a, Decidable (C s a)] {s : σ}
    (h : (ofFun init fun s a => if C s a then f s a else none).Reachable s) :
    ((ofFun init f).restrict C).Reachable s := by
  induction h with
  | init h => exact .init h
  | @step s t a _ ha ih =>
    change (if C s a then f s a else none) = some t at ha
    by_cases hC : C s a
    · rw [if_pos hC] at ha
      exact .step ih ⟨hC, ha⟩
    · rw [if_neg hC] at ha
      exact absurd ha (by simp)

/-- The steps of a list, each done only where the condition holds. -/
theorem Reachable.exec_guarded {init : σ → Prop} {f : σ → l → Option σ} {C : σ → l → Prop}
    [∀ s a, Decidable (C s a)] (as : List l) {s t : σ} (h : init s)
    (he : Lts.exec (fun s a => if C s a then f s a else none) as s = some t) :
    ((ofFun init f).restrict C).Reachable t :=
  Reachable.of_guarded (Reachable.exec (.init h) he)

end Lts

end RustPlc.Core
