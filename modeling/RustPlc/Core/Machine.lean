import Mathlib.Data.Nat.Init
import Mathlib.Tactic.Common

/-!
# Deterministic machines

A machine is a function from a state to either a next state or a result
that ends the run. `StepsTo` counts the steps between two states, `run` is
the fuelled interpreter.

Results:
* `run_of_stepsTo`: steps are consumed from the fuel;
* `run_unique`: two runs from one state end with one result;
* `lt_of_run`: a run that ends is longer than every step sequence from its
  start that did not end (how a diverging run is recognised);
* `run_inv`: an invariant of the steps holds where the run ends;
* `run_of_measure`: a run on whose states a measure decreases ends;
* `run_map`: a machine that does the same to the images of the states;
* `HaltsWith.simulate`: a machine that follows another up to its pauses.
-/
namespace RustPlc.Core

/-- What one step of a machine does. -/
inductive Outcome (σ ρ : Type) where
  | next (s : σ)
  | halt (r : ρ)

section

variable {σ ρ : Type} (step : σ → Outcome σ ρ)

/-- `n` steps lead from the first state to the second. -/
def StepsTo : Nat → σ → σ → Prop
  | 0, s, t => s = t
  | n + 1, s, t => ∃ u, step s = .next u ∧ StepsTo n u t

/-- At most `fuel` steps; `none` when the fuel is used up. -/
def run : Nat → σ → Option ρ
  | 0, _ => none
  | fuel + 1, s => match step s with
    | .next t => run fuel t
    | .halt r => some r

/-- The state after `n` steps, if the run has not ended by then. -/
def stepped : Nat → σ → Option σ
  | 0, s => some s
  | n + 1, s => match step s with
    | .next t => stepped n t
    | .halt _ => none

variable {step}

theorem StepsTo.single {s t : σ} (h : step s = .next t) : StepsTo step 1 s t := ⟨t, h, rfl⟩

theorem StepsTo.trans : ∀ {n m : Nat} {s t u : σ},
    StepsTo step n s t → StepsTo step m t u → StepsTo step (n + m) s u
  | 0, m, s, t, u, h1, h2 => by
    obtain rfl : s = t := h1
    simpa using h2
  | n + 1, m, s, t, u, ⟨v, hv, h1⟩, h2 => by
    rw [Nat.add_right_comm]
    exact ⟨v, hv, h1.trans h2⟩

theorem StepsTo.head {n : Nat} {s t u : σ} (h : step s = .next t) (h2 : StepsTo step n t u) :
    StepsTo step (n + 1) s u := ⟨t, h, h2⟩

/-! ## Fuel -/

theorem run_of_stepsTo : ∀ {n : Nat} {s t : σ} (m : Nat), StepsTo step n s t →
    run step (n + m) s = run step m t
  | 0, s, t, m, h => by
    obtain rfl : s = t := h
    simp
  | n + 1, s, t, m, ⟨v, hv, h⟩ => by
    rw [Nat.add_right_comm]
    simp only [run, hv]
    exact run_of_stepsTo m h

theorem run_halt {s : σ} {r : ρ} (h : step s = .halt r) (fuel : Nat) :
    run step (fuel + 1) s = some r := by
  simp only [run, h]

/-- Some steps and then the end. -/
theorem run_of_stepsTo_halt {n : Nat} {s t : σ} {r : ρ} (h : StepsTo step n s t)
    (hr : step t = .halt r) : run step (n + 1) s = some r := by
  rw [run_of_stepsTo 1 h, run_halt hr]

theorem run_mono : ∀ {n : Nat} {s : σ} {r : ρ} (k : Nat), run step n s = some r →
    run step (n + k) s = some r
  | 0, s, r, k, h => by simp [run] at h
  | n + 1, s, r, k, h => by
    rw [Nat.add_right_comm]
    simp only [run] at h ⊢
    cases hs : step s with
    | next t =>
      rw [hs] at h
      exact run_mono k h
    | halt r' =>
      rw [hs] at h
      exact h

theorem run_unique {n m : Nat} {s : σ} {r r' : ρ} (h : run step n s = some r)
    (h' : run step m s = some r') : r = r' := by
  have h1 := run_mono m h
  have h2 := run_mono n h'
  rw [Nat.add_comm m n, h1] at h2
  exact Option.some.inj h2

/-- A run that ends has more fuel than any sequence of steps that did not
end. -/
theorem lt_of_run {n k : Nat} {s t : σ} {r : ρ} (h : run step n s = some r)
    (hk : StepsTo step k s t) : k < n := by
  by_contra hlt
  have h1 : run step k s = some r := by
    rw [← Nat.add_sub_of_le (Nat.le_of_not_lt hlt)]
    exact run_mono _ h
  have h2 : run step k s = none := by simpa [run] using run_of_stepsTo 0 hk
  rw [h1] at h2
  cases h2

/-! ## Invariants -/

theorem StepsTo.inv {I : σ → Prop} (hstep : ∀ s t, I s → step s = .next t → I t) :
    ∀ {n : Nat} {s t : σ}, I s → StepsTo step n s t → I t
  | 0, s, t, hs, h => by
    obtain rfl : s = t := h
    exact hs
  | n + 1, s, t, hs, ⟨v, hv, h⟩ => StepsTo.inv hstep (hstep s v hs hv) h

/-- The last state of a run that ends. -/
theorem exists_of_run : ∀ {n : Nat} {s : σ} {r : ρ}, run step n s = some r →
    ∃ k t, k < n ∧ StepsTo step k s t ∧ step t = .halt r
  | 0, s, r, h => by simp [run] at h
  | n + 1, s, r, h => by
    simp only [run] at h
    cases hs : step s with
    | next t =>
      rw [hs] at h
      obtain ⟨k, u, hk, hu, hr⟩ := exists_of_run h
      exact ⟨k + 1, u, by omega, hu.head hs, hr⟩
    | halt r' =>
      rw [hs] at h
      obtain rfl : r' = r := by simpa using h
      exact ⟨0, s, by omega, rfl, hs⟩

theorem run_inv {I : σ → Prop} (hstep : ∀ s t, I s → step s = .next t → I t)
    {n : Nat} {s : σ} {r : ρ} (hs : I s) (h : run step n s = some r) :
    ∃ t, I t ∧ step t = .halt r := by
  obtain ⟨k, t, _, hk, hr⟩ := exists_of_run h
  exact ⟨t, StepsTo.inv hstep hs hk, hr⟩

/-! ## Runs that end -/

/-- A run on whose states a measure decreases ends before the measure does. -/
theorem run_of_measure {I : σ → Prop} {μ : σ → Nat}
    (hstep : ∀ s t, I s → step s = .next t → I t ∧ μ t < μ s) :
    ∀ {n : Nat} {s : σ}, I s → μ s < n → ∃ r, run step n s = some r
  | n + 1, s, hs, hn => by
    cases ho : step s with
    | halt r => exact ⟨r, run_halt ho n⟩
    | next t =>
      obtain ⟨ht, hlt⟩ := hstep s t hs ho
      obtain ⟨r, hr⟩ := run_of_measure hstep ht (show μ t < n by omega)
      exact ⟨r, by simpa only [run, ho] using hr⟩

/-! ## Images of a machine -/

def Outcome.map {τ ρ' : Type} (g : σ → τ) (h : ρ → ρ') : Outcome σ ρ → Outcome τ ρ'
  | .next s => .next (g s)
  | .halt r => .halt (h r)

/-- A machine that does what another one does to the images of its states. -/
theorem run_map {τ ρ' : Type} {step' : τ → Outcome τ ρ'} {g : σ → τ} {h : ρ → ρ'} {I : σ → Prop}
    (hstep : ∀ s, I s → step' (g s) = (step s).map g h)
    (hkeep : ∀ s t, I s → step s = .next t → I t) :
    ∀ (n : Nat) {s : σ}, I s → run step' n (g s) = (run step n s).map h
  | 0, _, _ => rfl
  | n + 1, s, hs => by
    simp only [run, hstep s hs]
    cases ho : step s with
    | next t => exact run_map hstep hkeep n (hkeep s t hs ho)
    | halt r => rfl

/-! ## Runs without their length -/

variable (step) in
/-- Some steps lead from the first state to the second. -/
def Reaches (s t : σ) : Prop := ∃ n, StepsTo step n s t

variable (step) in
/-- The run from `s` ends with `r`. -/
def HaltsWith (s : σ) (r : ρ) : Prop := ∃ t, Reaches step s t ∧ step t = .halt r

variable (step) in
/-- The run from `s` makes at least `n` steps. -/
def RunsFor (n : Nat) (s : σ) : Prop := ∃ k t, n ≤ k ∧ StepsTo step k s t

theorem Reaches.refl (s : σ) : Reaches step s s := ⟨0, rfl⟩

theorem Reaches.single {s t : σ} (h : step s = .next t) : Reaches step s t := ⟨1, .single h⟩

theorem Reaches.trans {s t u : σ} (h1 : Reaches step s t) (h2 : Reaches step t u) :
    Reaches step s u := by
  obtain ⟨n, h1⟩ := h1
  obtain ⟨m, h2⟩ := h2
  exact ⟨n + m, h1.trans h2⟩

theorem Reaches.haltsWith {s t : σ} {r : ρ} (h : Reaches step s t) (hr : HaltsWith step t r) :
    HaltsWith step s r := by
  obtain ⟨u, hu, hstep⟩ := hr
  exact ⟨u, h.trans hu, hstep⟩

theorem Reaches.runsFor {s t : σ} {n : Nat} (h : Reaches step s t) (hr : RunsFor step n t) :
    RunsFor step n s := by
  obtain ⟨m, hm⟩ := h
  obtain ⟨k, u, hk, hu⟩ := hr
  exact ⟨m + k, u, by omega, hm.trans hu⟩

theorem RunsFor.head {s t : σ} {n : Nat} (h : step s = .next t) (hr : RunsFor step n t) :
    RunsFor step (n + 1) s := by
  obtain ⟨k, u, hk, hu⟩ := hr
  exact ⟨k + 1, u, by omega, hu.head h⟩

theorem RunsFor.mono {s : σ} {n m : Nat} (h : RunsFor step n s) (hm : m ≤ n) :
    RunsFor step m s := by
  obtain ⟨k, u, hk, hu⟩ := h
  exact ⟨k, u, by omega, hu⟩

theorem haltsWith_iff_run {s : σ} {r : ρ} :
    HaltsWith step s r ↔ ∃ fuel, run step fuel s = some r := by
  constructor
  · rintro ⟨t, ⟨n, hn⟩, hr⟩
    exact ⟨n + 1, run_of_stepsTo_halt hn hr⟩
  · rintro ⟨fuel, h⟩
    obtain ⟨k, t, -, hk, hr⟩ := exists_of_run h
    exact ⟨t, ⟨k, hk⟩, hr⟩

theorem HaltsWith.unique {s : σ} {r r' : ρ} (h : HaltsWith step s r) (h' : HaltsWith step s r') :
    r = r' := by
  obtain ⟨n, hn⟩ := haltsWith_iff_run.mp h
  obtain ⟨m, hm⟩ := haltsWith_iff_run.mp h'
  exact run_unique hn hm

/-- A run that ends does not run for ever. -/
theorem HaltsWith.not_runsFor {s : σ} {r : ρ} (h : HaltsWith step s r) :
    ∃ n, ¬ RunsFor step n s := by
  obtain ⟨n, hn⟩ := haltsWith_iff_run.mp h
  refine ⟨n, ?_⟩
  rintro ⟨k, t, hk, ht⟩
  have := lt_of_run hn ht
  omega

/-! ## Simulation

A second machine follows the first, except that the first may also stop to be
resumed (a pause), which the second does not notice. -/

section

variable {τ ρ' : Type} {step' : τ → Outcome τ ρ'} {R : σ → τ → Prop} {P : ρ → τ → Prop}
  {Q : ρ → ρ' → Prop}

theorem StepsTo.simulate
    (hnext : ∀ s t s', R s s' → step s = .next t → ∃ t', step' s' = .next t' ∧ R t t') :
    ∀ {n : Nat} {s t : σ} {s' : τ}, R s s' → StepsTo step n s t →
      ∃ t', StepsTo step' n s' t' ∧ R t t'
  | 0, s, t, s', hR, h => by
    obtain rfl : s = t := h
    exact ⟨s', rfl, hR⟩
  | n + 1, s, t, s', hR, ⟨u, hu, h⟩ => by
    obtain ⟨u', hu', hRu⟩ := hnext s u s' hR hu
    obtain ⟨t', ht', hRt⟩ := StepsTo.simulate hnext hRu h
    exact ⟨t', ht'.head hu', hRt⟩

/-- A run of the first machine that ends with `r` is a run of the second that
ends with a matching result, or `r` is a pause and the second machine has come
to the state it pauses in. -/
theorem HaltsWith.simulate
    (hnext : ∀ s t s', R s s' → step s = .next t → ∃ t', step' s' = .next t' ∧ R t t')
    (hhalt : ∀ s r s', R s s' → step s = .halt r → P r s' ∨ ∃ r', step' s' = .halt r' ∧ Q r r')
    {s : σ} {s' : τ} {r : ρ} (hR : R s s') (h : HaltsWith step s r) :
    (∃ t', Reaches step' s' t' ∧ P r t') ∨ ∃ r', HaltsWith step' s' r' ∧ Q r r' := by
  obtain ⟨t, ⟨n, hn⟩, hr⟩ := h
  obtain ⟨t', ht', hRt⟩ := StepsTo.simulate hnext hR hn
  rcases hhalt t r t' hRt hr with hP | ⟨r', hr', hQ⟩
  · exact .inl ⟨t', ⟨n, ht'⟩, hP⟩
  · exact .inr ⟨r', ⟨t', ⟨n, ht'⟩, hr'⟩, hQ⟩

end

end

end RustPlc.Core
