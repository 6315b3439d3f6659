import Mathlib.Data.List.Infix
import Mathlib.Tactic.Common

/-!
# Wildcards

Patterns in which one letter, the star, stands for any sequence of letters,
also the empty one.

Results
* `matches_plain`: a pattern without a star matches itself only.
* `matches_one`: a pattern with one star matches what begins with its front
  and ends with its back, the two apart.
-/
namespace RustPlc.Core.Wildcards

variable {α : Type} [DecidableEq α]

def wildMatch (star : α) : List α → List α → Bool
  | [], w => w.isEmpty
  | c :: p, w =>
    if c = star then w.tails.any (wildMatch star p)
    else match w with
      | [] => false
      | d :: w => c = d && wildMatch star p w

/-- The pattern stands for the word. -/
def Matches (star : α) (p w : List α) : Prop := wildMatch star p w = true

instance (star : α) (p w : List α) : Decidable (Matches star p w) :=
  inferInstanceAs (Decidable (_ = true))

variable {star : α} {p w a b : List α}

@[simp] theorem matches_nil : Matches star [] w ↔ w = [] := by
  simp [Matches, wildMatch]

theorem matches_star : Matches star (star :: p) w ↔ ∃ t, t <:+ w ∧ Matches star p t := by
  simp [Matches, wildMatch]

theorem matches_letter {c : α} (h : c ≠ star) :
    Matches star (c :: p) w ↔ ∃ t, w = c :: t ∧ Matches star p t := by
  cases w with
  | nil => simp [Matches, wildMatch, h]
  | cons d w =>
    rw [Matches, wildMatch, if_neg h, Bool.and_eq_true, decide_eq_true_eq]
    constructor
    · rintro ⟨rfl, hw⟩
      exact ⟨w, rfl, hw⟩
    · rintro ⟨t, ht, hw⟩
      cases ht
      exact ⟨rfl, hw⟩

/-- Letters before the star stand for themselves. -/
theorem matches_append (h : star ∉ a) :
    Matches star (a ++ p) w ↔ ∃ t, w = a ++ t ∧ Matches star p t := by
  induction a generalizing w with
  | nil => simp
  | cons c a ih =>
    rw [List.mem_cons, not_or] at h
    rw [List.cons_append, matches_letter (Ne.symm h.1)]
    constructor
    · rintro ⟨t, rfl, ht⟩
      obtain ⟨u, rfl, hu⟩ := (ih h.2).mp ht
      exact ⟨u, rfl, hu⟩
    · rintro ⟨u, rfl, hu⟩
      exact ⟨a ++ u, rfl, (ih h.2).mpr ⟨u, rfl, hu⟩⟩

theorem matches_plain (h : star ∉ p) : Matches star p w ↔ w = p := by
  have hp := matches_append (p := []) (w := w) h
  rw [List.append_nil] at hp
  simpa using hp

theorem matches_one (ha : star ∉ a) (hb : star ∉ b) :
    Matches star (a ++ star :: b) w ↔ ∃ x, w = a ++ (x ++ b) := by
  rw [matches_append ha]
  constructor
  · rintro ⟨t, rfl, ht⟩
    obtain ⟨u, ⟨x, rfl⟩, hu⟩ := matches_star.mp ht
    rw [(matches_plain hb).mp hu]
    exact ⟨x, rfl⟩
  · rintro ⟨x, rfl⟩
    exact ⟨x ++ b, rfl, matches_star.mpr ⟨b, List.suffix_append x b, (matches_plain hb).mpr rfl⟩⟩

/-- The star stands for itself too. -/
theorem matches_self (p : List α) : Matches star p p := by
  induction p with
  | nil => exact matches_nil.mpr rfl
  | cons c p ih =>
    by_cases h : c = star
    · subst h
      exact matches_star.mpr ⟨p, List.suffix_cons c p, ih⟩
    · exact (matches_letter h).mpr ⟨p, rfl, ih⟩

omit [DecidableEq α] in
/-- The front and the back of a word lie apart in it when it is long enough. -/
theorem exists_between (ha : a <+: w) (hb : b <:+ w) :
    (∃ x, w = a ++ (x ++ b)) ↔ a.length + b.length ≤ w.length := by
  constructor
  · rintro ⟨x, rfl⟩
    simp only [List.length_append]
    omega
  · intro hlen
    obtain ⟨t, rfl⟩ := ha
    rw [List.length_append] at hlen
    obtain ⟨x, hx⟩ := List.suffix_of_suffix_length_le hb (List.suffix_append a t) (by omega)
    exact ⟨x, by rw [hx]⟩

end RustPlc.Core.Wildcards
