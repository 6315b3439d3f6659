import Mathlib.Logic.Basic
import Mathlib.Tactic.Common

/-!
# Sequences of calls

A machine that is called again and again, and what the inputs of the earlier
calls say at a call: that a property held in the previous one, that something
holds throughout since an earlier one, the stretch of a property that reaches
up to now, the last call with a property. Each notion quantifies over the
earlier calls, and has an equation that goes back by one call.

Results
* `throughout_iff`, `stretch_iff`, `lastOf_iff`: the equations.
* `exists_stretch_iff`, `Stretch.unique`: the stretch up to a call.
* `stateBefore_inv`, `stateAfter_inv`: what one call preserves holds in every run.
-/
namespace RustPlc.Core.Sequences

/-! ## Runs -/

section

variable {σ ι : Type} (step : σ → ι → σ) (init : σ) (calls : ℕ → ι)

/-- The state before call `k`. -/
def stateBefore : ℕ → σ
  | 0 => init
  | k + 1 => step (stateBefore k) (calls k)

/-- The state after call `k`. -/
def stateAfter (k : ℕ) : σ := step (stateBefore step init calls k) (calls k)

variable {step init calls}

theorem stateBefore_inv {I : ℕ → σ → Prop} (hinit : I 0 init)
    (hstep : ∀ k s, I k s → I (k + 1) (step s (calls k))) (k : ℕ) :
    I k (stateBefore step init calls k) := by
  induction k with
  | zero => exact hinit
  | succ k ih => exact hstep k _ ih

theorem stateAfter_inv {I : ℕ → σ → Prop} (hinit : I 0 init)
    (hstep : ∀ k s, I k s → I (k + 1) (step s (calls k))) (k : ℕ) :
    I (k + 1) (stateAfter step init calls k) :=
  stateBefore_inv hinit hstep (k + 1)

end

variable {p q : ℕ → Prop} {r : ℕ → ℕ → Prop} {s s' k : ℕ}

/-! ## The previous call -/

/-- There was a call directly before `k`, and `p` held in it. -/
def Prev (p : ℕ → Prop) (k : ℕ) : Prop := ∃ i, k = i + 1 ∧ p i

@[simp] theorem prev_zero : ¬ Prev p 0 := by
  rintro ⟨i, h, -⟩
  cases h

@[simp] theorem prev_succ : Prev p (k + 1) ↔ p k := by
  constructor
  · rintro ⟨i, h, hi⟩
    exact Nat.succ.inj h ▸ hi
  · exact fun h => ⟨k, rfl, h⟩

theorem Prev.mono (h : ∀ i, p i → q i) (hp : Prev p k) : Prev q k :=
  hp.imp fun i hi => ⟨hi.1, h i hi.2⟩

/-- `p` holds at `k`, and did not in the previous call. -/
def Rises (p : ℕ → Prop) (k : ℕ) : Prop := p k ∧ ¬ Prev p k

/-! ## Throughout -/

/-- `r s` holds in every call from `s` up to `k`. -/
structure Throughout (r : ℕ → ℕ → Prop) (s k : ℕ) : Prop where
  le : s ≤ k
  holds : ∀ j, s ≤ j → j ≤ k → r s j

theorem Throughout.last (h : Throughout r s k) : r s k := h.holds k h.le (Nat.le_refl k)

theorem throughout_iff :
    Throughout r s k ↔ r s k ∧ (s = k ∨ Prev (Throughout r s) k) := by
  constructor
  · intro h
    refine ⟨h.last, ?_⟩
    rcases Nat.lt_or_eq_of_le h.le with hlt | rfl
    · obtain ⟨i, rfl⟩ := Nat.exists_eq_add_of_lt hlt
      exact .inr ⟨s + i, rfl, Nat.le_add_right s i,
        fun j hs hj => h.holds j hs (Nat.le_succ_of_le hj)⟩
    · exact .inl rfl
  · rintro ⟨hr, rfl | ⟨i, rfl, h⟩⟩
    · exact ⟨Nat.le_refl s, fun j hs hj => Nat.le_antisymm hs hj ▸ hr⟩
    · refine ⟨Nat.le_succ_of_le h.le, fun j hs hj => ?_⟩
      rcases Nat.lt_or_eq_of_le hj with hlt | rfl
      · exact h.holds j hs (Nat.le_of_lt_succ hlt)
      · exact hr

/-! ## Stretches -/

/-- `p` holds from `s` up to `k`, and not directly before `s`. -/
structure Stretch (p : ℕ → Prop) (s k : ℕ) : Prop where
  since : Throughout (fun _ => p) s k
  starts : ¬ Prev p s

theorem Stretch.last (h : Stretch p s k) : p k := h.since.last

theorem stretch_iff :
    Stretch p s k ↔ p k ∧ (s = k ∧ ¬ Prev p k ∨ Prev (Stretch p s) k) := by
  constructor
  · rintro ⟨hsince, hstarts⟩
    obtain ⟨hk, rfl | hprev⟩ := throughout_iff.mp hsince
    · exact ⟨hk, .inl ⟨rfl, hstarts⟩⟩
    · exact ⟨hk, .inr (hprev.mono fun _ h => ⟨h, hstarts⟩)⟩
  · rintro ⟨hk, ⟨rfl, hstarts⟩ | ⟨i, rfl, h⟩⟩
    · exact ⟨throughout_iff.mpr ⟨hk, .inl rfl⟩, hstarts⟩
    · exact ⟨throughout_iff.mpr ⟨hk, .inr ⟨i, rfl, h.since⟩⟩, h.starts⟩

theorem exists_stretch_iff : (∃ s, Stretch p s k) ↔ p k := by
  refine ⟨fun ⟨_, h⟩ => h.last, fun h => ?_⟩
  induction k with
  | zero => exact ⟨0, stretch_iff.mpr ⟨h, .inl ⟨rfl, prev_zero⟩⟩⟩
  | succ k ih =>
    by_cases hk : p k
    · obtain ⟨s, hs⟩ := ih hk
      exact ⟨s, stretch_iff.mpr ⟨h, .inr ⟨k, rfl, hs⟩⟩⟩
    · exact ⟨k + 1, stretch_iff.mpr ⟨h, .inl ⟨rfl, mt prev_succ.mp hk⟩⟩⟩

theorem Stretch.unique (h : Stretch p s k) (h' : Stretch p s' k) : s = s' := by
  induction k with
  | zero =>
    rw [Nat.le_zero.mp h.since.le, Nat.le_zero.mp h'.since.le]
  | succ k ih =>
    obtain ⟨-, ⟨rfl, hk⟩ | hprev⟩ := stretch_iff.mp h <;>
      obtain ⟨-, ⟨rfl, hk'⟩ | hprev'⟩ := stretch_iff.mp h'
    · rfl
    · exact absurd (hprev'.mono fun _ h => h.last) hk
    · exact absurd (hprev.mono fun _ h => h.last) hk'
    · exact ih (prev_succ.mp hprev) (prev_succ.mp hprev')

/-! ## The last call with a property -/

/-- `s` is the last call up to `k` with `p`. -/
structure LastOf (p : ℕ → Prop) (s k : ℕ) : Prop where
  le : s ≤ k
  holds : p s
  later : ∀ j, s < j → j ≤ k → ¬ p j

theorem lastOf_iff : LastOf p s k ↔ s = k ∧ p k ∨ ¬ p k ∧ Prev (LastOf p s) k := by
  constructor
  · intro h
    rcases Nat.lt_or_eq_of_le h.le with hlt | rfl
    · obtain ⟨i, rfl⟩ := Nat.exists_eq_add_of_lt hlt
      exact .inr ⟨h.later _ hlt (Nat.le_refl _), s + i, rfl, Nat.le_add_right s i, h.holds,
        fun j hs hj => h.later j hs (Nat.le_succ_of_le hj)⟩
    · exact .inl ⟨rfl, h.holds⟩
  · rintro (⟨rfl, h⟩ | ⟨hk, i, rfl, h⟩)
    · exact ⟨Nat.le_refl s, h, fun j hj hj' => absurd hj (Nat.not_lt.mpr hj')⟩
    · refine ⟨Nat.le_succ_of_le h.le, h.holds, fun j hs hj => ?_⟩
      rcases Nat.lt_or_eq_of_le hj with hlt | rfl
      · exact h.later j hs (Nat.le_of_lt_succ hlt)
      · exact hk

end RustPlc.Core.Sequences
