import Mathlib.Tactic.Ring
import Mathlib.Tactic.Linarith
import Mathlib.Data.Nat.Log

/-!
# Whole numbers as doubles

The bit patterns of the whole numbers that a double holds exactly: a sign of zero, the
exponent of the leading bit, and the bits below it.

Results:
* `floor_natBits`: the pattern determines the number;
* `natBits_le`: larger numbers have larger patterns;
* `natBits_lt`: the patterns are those of finite positive numbers.
-/
namespace RustPlc.Core.Binary64

/-- The pattern of a number below `2 ^ 53`. -/
def natBits (n : Nat) : Nat :=
  if n = 0 then 0
  else (1023 + Nat.log 2 n) * 2 ^ 52 + (n - 2 ^ Nat.log 2 n) * 2 ^ (52 - Nat.log 2 n)

/-- The whole part of the number of a finite positive pattern. -/
def floor (bits : Nat) : Nat :=
  let exponent := bits / 2 ^ 52
  if exponent < 1023 then 0
  else if exponent ≤ 1075 then (2 ^ 52 + bits % 2 ^ 52) / 2 ^ (1075 - exponent)
  else (2 ^ 52 + bits % 2 ^ 52) * 2 ^ (exponent - 1075)

/-- Exponent and fraction of a number. -/
theorem natBits_parts {n : Nat} (hpos : 0 < n) (hn : n < 2 ^ 53) :
    ∃ e f, e ≤ 52 ∧ 2 ^ e ≤ n ∧ n < 2 ^ (e + 1) ∧ f = (n - 2 ^ e) * 2 ^ (52 - e) ∧ f < 2 ^ 52 ∧
      natBits n = (1023 + e) * 2 ^ 52 + f := by
  have hne : n ≠ 0 := Nat.pos_iff_ne_zero.mp hpos
  have hlow := Nat.pow_log_le_self 2 hne
  have hhigh := Nat.lt_pow_succ_log_self (b := 2) (by decide) n
  generalize he : Nat.log 2 n = e at hlow hhigh
  have hle : e ≤ 52 := by
    apply Nat.le_of_lt_succ
    exact (Nat.pow_lt_pow_iff_right (by decide : 1 < 2)).mp (Nat.lt_of_le_of_lt hlow hn)
  refine ⟨e, _, hle, hlow, hhigh, rfl, ?_, ?_⟩
  · have hrest : n - 2 ^ e < 2 ^ e := by
      rw [Nat.pow_succ] at hhigh
      omega
    calc (n - 2 ^ e) * 2 ^ (52 - e) < 2 ^ e * 2 ^ (52 - e) :=
          Nat.mul_lt_mul_of_pos_right hrest (Nat.two_pow_pos _)
      _ = 2 ^ 52 := by rw [← Nat.pow_add, Nat.add_sub_cancel' hle]
  · unfold natBits
    rw [if_neg hne, he]

/-- **The pattern determines the number.** -/
theorem floor_natBits {n : Nat} (hn : n < 2 ^ 53) : floor (natBits n) = n := by
  cases Nat.eq_zero_or_pos n with
  | inl h0 =>
    subst h0
    decide
  | inr hpos =>
    obtain ⟨e, f, hle, hlow, -, hf, hlt, hbits⟩ := natBits_parts hpos hn
    have hexp : natBits n / 2 ^ 52 = 1023 + e := by omega
    have hfrac : natBits n % 2 ^ 52 = f := by omega
    unfold floor
    simp only [hexp, hfrac, if_neg (show ¬ 1023 + e < 1023 by omega),
      if_pos (show 1023 + e ≤ 1075 by omega)]
    have hone : 2 ^ 52 = 2 ^ e * 2 ^ (52 - e) := by rw [← Nat.pow_add, Nat.add_sub_cancel' hle]
    rw [show 1075 - (1023 + e) = 52 - e by omega, hf, hone, ← Nat.add_mul,
      Nat.mul_div_cancel _ (Nat.two_pow_pos _), Nat.add_sub_cancel' hlow]

/-- Larger numbers have larger patterns. -/
theorem natBits_le {n m : Nat} (hnm : n ≤ m) (hm : m < 2 ^ 53) : natBits n ≤ natBits m := by
  cases Nat.eq_zero_or_pos n with
  | inl h0 =>
    subst h0
    exact Nat.zero_le _
  | inr hpos =>
    obtain ⟨e, f, hle, hlow, -, hf, hlt, hbits⟩ := natBits_parts hpos (Nat.lt_of_le_of_lt hnm hm)
    obtain ⟨e', f', hle', -, hhigh, hf', hlt', hbits'⟩ := natBits_parts (Nat.lt_of_lt_of_le hpos hnm) hm
    rw [hbits, hbits']
    have hee : e ≤ e' := by
      apply Nat.le_of_lt_succ
      exact (Nat.pow_lt_pow_iff_right (by decide : 1 < 2)).mp
        (Nat.lt_of_le_of_lt (Nat.le_trans hlow hnm) hhigh)
    cases Nat.lt_or_eq_of_le hee with
    | inl hlt => omega
    | inr heq =>
      subst heq
      have : f ≤ f' := by
        rw [hf, hf']
        exact Nat.mul_le_mul_right _ (by omega)
      omega

theorem natBits_lt {n : Nat} (hn : n < 2 ^ 53) : natBits n < 1076 * 2 ^ 52 := by
  cases Nat.eq_zero_or_pos n with
  | inl h0 =>
    subst h0
    decide
  | inr hpos =>
    obtain ⟨e, f, hle, -, -, -, hlt, hbits⟩ := natBits_parts hpos hn
    omega

end RustPlc.Core.Binary64
