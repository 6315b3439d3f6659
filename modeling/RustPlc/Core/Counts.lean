import Mathlib.Data.Finset.Card
import RustPlc.Core.Sequences

/-!
# Counting edges

A counter that is set in some calls, and counts the rising edges of one input
up and those of another down in the calls that do not set it. Its count at a
call is the value set last, or 0 without one, and the edges of the calls since.

Results
* `isCount_set`, `isCount_next`: the count goes from one call to the next.
* `IsCount.unique`, `IsCount.later`.
-/
namespace RustPlc.Core.Sequences

variable {set up down p : ℕ → Prop} {value : ℕ → ℤ} {i k : ℕ} {b n m : ℤ}

/-! ## Edges -/

/-- `p` rises in call `j`, and no call from `j` up to `k` sets. -/
structure Counted (set p : ℕ → Prop) (k j : ℕ) : Prop where
  since : Throughout (fun _ i => ¬ set i) j k
  rises : Rises p j

theorem counted_self : Counted set p k k ↔ ¬ set k ∧ Rises p k := by
  constructor
  · rintro ⟨hsince, hrises⟩
    exact ⟨hsince.last, hrises⟩
  · rintro ⟨hset, hrises⟩
    exact ⟨throughout_iff.mpr ⟨hset, .inl rfl⟩, hrises⟩

theorem counted_succ {j : ℕ} (hj : j ≤ k) (h : ¬ set (k + 1)) :
    Counted set p (k + 1) j ↔ Counted set p k j := by
  have hne : j ≠ k + 1 := by omega
  constructor
  · rintro ⟨hsince, hrises⟩
    obtain ⟨-, hself | hprev⟩ := throughout_iff.mp hsince
    · exact absurd hself hne
    · exact ⟨prev_succ.mp hprev, hrises⟩
  · rintro ⟨hsince, hrises⟩
    exact ⟨throughout_iff.mpr ⟨h, .inr ⟨k, rfl, hsince⟩⟩, hrises⟩

open Classical in
/-- The number of counted edges up to call `k`. -/
noncomputable def edges (set p : ℕ → Prop) (k : ℕ) : ℕ :=
  ((Finset.range (k + 1)).filter (Counted set p k)).card

open Classical in
/-- 1 for an edge in call `k` and 0 else. -/
noncomputable def edge (p : ℕ → Prop) (k : ℕ) : ℕ := if Rises p k then 1 else 0

theorem edges_set (h : set k) : edges set p k = 0 := by
  classical
  rw [edges, Finset.card_eq_zero, Finset.filter_eq_empty_iff]
  exact fun j _ hj => hj.since.last h

theorem edges_zero (h : ¬ set 0) : edges set p 0 = edge p 0 := by
  classical
  by_cases hr : Rises p 0 <;> simp [edges, edge, Finset.filter_singleton, counted_self, h, hr]

theorem edges_succ (h : ¬ set (k + 1)) :
    edges set p (k + 1) = edges set p k + edge p (k + 1) := by
  classical
  have hold : (Finset.range (k + 1)).filter (Counted set p (k + 1)) =
      (Finset.range (k + 1)).filter (Counted set p k) :=
    Finset.filter_congr fun j hj => counted_succ (Nat.le_of_lt_succ (Finset.mem_range.mp hj)) h
  rw [edges, Finset.range_add_one, Finset.filter_insert, hold, edge]
  by_cases hr : Rises p (k + 1)
  · rw [if_pos (counted_self.mpr ⟨h, hr⟩), if_pos hr, Finset.card_insert_of_notMem (by simp)]
    rfl
  · rw [if_neg fun hc => hr (counted_self.mp hc).2, if_neg hr]
    rfl

theorem edge_never (h : ∀ j, ¬ p j) : edge p k = 0 := if_neg fun hr => h k hr.1

/-! ## Counts -/

/-- `b` was set in the last call up to `k` that sets, or is 0 without one. -/
def SetTo (set : ℕ → Prop) (value : ℕ → ℤ) (k : ℕ) (b : ℤ) : Prop :=
  (∃ s, LastOf set s k ∧ b = value s) ∨ (∀ j, j ≤ k → ¬ set j) ∧ b = 0

/-- `n` is the value set last and the edges since. -/
def IsCount (set : ℕ → Prop) (value : ℕ → ℤ) (up down : ℕ → Prop) (k : ℕ) (n : ℤ) : Prop :=
  ∃ b, SetTo set value k b ∧ n = b + edges set up k - edges set down k

/-- The count before call `k`. -/
def CountBefore (set : ℕ → Prop) (value : ℕ → ℤ) (up down : ℕ → Prop) (k : ℕ) (n : ℤ) : Prop :=
  k = 0 ∧ n = 0 ∨ Prev (IsCount set value up down · n) k

theorem SetTo.unique {b' : ℤ} (h : SetTo set value k b) (h' : SetTo set value k b') : b = b' := by
  rcases h with ⟨s, hs, rfl⟩ | ⟨hno, rfl⟩ <;> rcases h' with ⟨s', hs', rfl⟩ | ⟨hno', rfl⟩
  · rcases Nat.lt_trichotomy s s' with hlt | rfl | hlt
    · exact absurd hs'.holds (hs.later s' hlt hs'.le)
    · rfl
    · exact absurd hs.holds (hs'.later s hlt hs.le)
  · exact absurd hs.holds (hno' s hs.le)
  · exact absurd hs'.holds (hno s' hs'.le)
  · rfl

theorem IsCount.unique (h : IsCount set value up down k n) (h' : IsCount set value up down k m) :
    n = m := by
  obtain ⟨b, hb, rfl⟩ := h
  obtain ⟨b', hb', rfl⟩ := h'
  rw [hb.unique hb']

theorem isCount_set (h : set k) : IsCount set value up down k (value k) :=
  ⟨value k, .inl ⟨k, lastOf_iff.mpr (.inl ⟨rfl, h⟩), rfl⟩, by rw [edges_set h, edges_set h]; simp⟩

theorem SetTo.next (h : SetTo set value k b) (hk : ¬ set (k + 1)) : SetTo set value (k + 1) b := by
  rcases h with ⟨s, hs, hb⟩ | ⟨hno, hb⟩
  · exact .inl ⟨s, lastOf_iff.mpr (.inr ⟨hk, k, rfl, hs⟩), hb⟩
  · refine .inr ⟨fun j hj => ?_, hb⟩
    rcases Nat.lt_or_eq_of_le hj with hlt | rfl
    · exact hno j (Nat.le_of_lt_succ hlt)
    · exact hk

/-- A call that does not set counts its edges. -/
theorem isCount_next (hk : ¬ set k) (h : CountBefore set value up down k m) :
    IsCount set value up down k (m + edge up k - edge down k) := by
  rcases h with ⟨rfl, rfl⟩ | ⟨i, rfl, b, hb, rfl⟩
  · exact ⟨0, .inr ⟨fun j hj => Nat.le_zero.mp hj ▸ hk, rfl⟩, by rw [edges_zero hk, edges_zero hk]⟩
  · refine ⟨b, hb.next hk, ?_⟩
    rw [edges_succ hk, edges_succ hk]
    push_cast
    omega

/-- Calls that do not set add edges, up and down. -/
theorem IsCount.later (h : IsCount set value up down i m) (hik : i ≤ k)
    (hno : ∀ j, i < j → j ≤ k → ¬ set j) :
    ∃ u d : ℕ, IsCount set value up down k (m + u - d) ∧
      ((∀ j, ¬ up j) → u = 0) ∧ ((∀ j, ¬ down j) → d = 0) := by
  induction k, hik using Nat.le_induction with
  | base => exact ⟨0, 0, by simpa using h, fun _ => rfl, fun _ => rfl⟩
  | succ k hik ih =>
    obtain ⟨u, d, hcount, hu, hd⟩ := ih fun j hj hjk => hno j hj (Nat.le_succ_of_le hjk)
    have hnext := isCount_next (hno (k + 1) (Nat.lt_succ_of_le hik) (Nat.le_refl _))
      (.inr (prev_succ.mpr hcount))
    refine ⟨u + edge up (k + 1), d + edge down (k + 1), ?_, fun h => ?_, fun h => ?_⟩
    · convert hnext using 1
      push_cast
      omega
    · rw [hu h, edge_never h]
    · rw [hd h, edge_never h]

end RustPlc.Core.Sequences
