import Mathlib.Data.Set.Basic
import Mathlib.Data.List.Induction

/-!
# The latest entries of a log

A log of entries with keys, of which for each key the last one counts: as a property
of the log, as the table that is updated entry by entry, and for a set that each
entry contributes.
-/
namespace RustPlc.Core

variable {α β κ : Type} {key : α → κ} {f : α → Set β} {log : List α} {x y : α}

/-- `x` is the last entry of the log with its key. -/
def Latest (key : α → κ) (log : List α) (x : α) : Prop :=
  ∃ before after, log = before ++ x :: after ∧ ∀ y ∈ after, key y ≠ key x

theorem not_latest_nil : ¬ Latest key [] x := by
  rintro ⟨before, after, h, _⟩
  simp at h

/-- A new entry is the latest of its key and leaves the other keys alone. -/
theorem latest_concat :
    Latest key (log ++ [x]) y ↔ y = x ∨ Latest key log y ∧ key y ≠ key x := by
  constructor
  · rintro ⟨before, after, h, hafter⟩
    induction after using List.reverseRecOn with
    | nil =>
      have hlast := congrArg List.getLast? h
      left
      simpa using hlast.symm
    | append_singleton after z _ =>
      have hsplit : log ++ [x] = (before ++ y :: after) ++ [z] := by simpa using h
      obtain ⟨rfl, hz⟩ := List.append_inj' hsplit rfl
      obtain rfl : x = z := by simpa using hz
      refine .inr ⟨⟨before, after, rfl, fun w hw => hafter w (by simp [hw])⟩, ?_⟩
      exact (hafter x (by simp)).symm
  · rintro (rfl | ⟨⟨before, after, rfl, hafter⟩, hne⟩)
    · exact ⟨log, [], rfl, by simp⟩
    · refine ⟨before, after ++ [x], by simp, fun w hw => ?_⟩
      rcases List.mem_append.mp hw with hw | hw
      · exact hafter w hw
      · obtain rfl : w = x := by simpa using hw
        exact hne.symm

/-! ## The table -/

/-- Puts an entry in the place of those with its key. -/
def upsert [DecidableEq κ] (key : α → κ) (x : α) (table : List α) : List α :=
  table.filter (fun y => decide (key y ≠ key x)) ++ [x]

theorem mem_upsert [DecidableEq κ] {table : List α} :
    y ∈ upsert key x table ↔ y = x ∨ y ∈ table ∧ key y ≠ key x := by
  unfold upsert
  simp only [List.mem_append, List.mem_filter, List.mem_singleton, decide_eq_true_eq]
  exact or_comm

/-! ## What the latest entries contribute -/

/-- The union over all keys of what the latest entry contributes. -/
def latestUnion (key : α → κ) (f : α → Set β) (log : List α) : Set β :=
  { o | ∃ x, Latest key log x ∧ o ∈ f x }

theorem mem_latestUnion_concat {o : β} :
    o ∈ latestUnion key f (log ++ [x]) ↔
      o ∈ f x ∨ ∃ y, Latest key log y ∧ key y ≠ key x ∧ o ∈ f y := by
  constructor
  · rintro ⟨y, hy, ho⟩
    rcases latest_concat.mp hy with rfl | ⟨hy, hne⟩
    · exact .inl ho
    · exact .inr ⟨y, hy, hne, ho⟩
  · rintro (ho | ⟨y, hy, hne, ho⟩)
    · exact ⟨x, latest_concat.mpr (.inl rfl), ho⟩
    · exact ⟨y, latest_concat.mpr (.inr ⟨hy, hne⟩), ho⟩

/-- An entry changes only what it or the entry it replaces contributes. -/
theorem latestUnion_concat_of_notMem {o : β} (hx : o ∉ f x)
    (hold : ∀ y, Latest key log y → key y = key x → o ∉ f y) :
    o ∈ latestUnion key f (log ++ [x]) ↔ o ∈ latestUnion key f log := by
  rw [mem_latestUnion_concat]
  constructor
  · rintro (ho | ⟨y, hy, _, ho⟩)
    · exact absurd ho hx
    · exact ⟨y, hy, ho⟩
  · rintro ⟨y, hy, ho⟩
    exact .inr ⟨y, hy, fun he => hold y hy he ho, ho⟩

end RustPlc.Core
