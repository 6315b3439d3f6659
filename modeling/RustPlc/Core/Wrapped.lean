import Mathlib.Data.Int.DivMod
import Mathlib.Tactic.Linarith
import Mathlib.Tactic.Ring

/-!
# Division on 64-bit words

A machine word stands for an integer in one of two ranges: the signed one
below `2 ^ 63`, and the unsigned one from `2 ^ 63` to `2 ^ 64`. A machine
that reads every word as signed computes sums, differences and products that
are right modulo `2 ^ 64`. Quotients and remainders are not, and this module
says for which operands they are.

Results
* `tdiv_signed_iff`: the quotient of the signed readings is the quotient,
  modulo `2 ^ 64`, exactly when `SameQuotient` holds.
* `tmod_signed_iff`: the same for remainders and `SameRemainder`.
-/
namespace RustPlc.Core

/-- The integers that a word can stand for. -/
def IsWord (z : Int) : Prop := -9223372036854775808 ≤ z ∧ z < 18446744073709551616

/-- The signed reading of a word. -/
def signed (z : Int) : Int := if z < 9223372036854775808 then z else z - 18446744073709551616

/-- Equal modulo `2 ^ 64`. -/
def SameWord (x y : Int) : Prop := (18446744073709551616 : Int) ∣ x - y

theorem signed_small {z : Int} (h : z < 9223372036854775808) : signed z = z := if_pos h

theorem signed_large {z : Int} (h : ¬ z < 9223372036854775808) :
    signed z = z - 18446744073709551616 := if_neg h

theorem SameWord.refl (x : Int) : SameWord x x := ⟨0, by omega⟩

theorem SameWord.comm {x y : Int} : SameWord x y ↔ SameWord y x := by
  unfold SameWord
  omega

theorem IsWord.signed_eq_zero {z : Int} (h : IsWord z) : signed z = 0 ↔ z = 0 := by
  obtain ⟨h1, h2⟩ := h
  unfold signed
  split <;> omega

theorem SameWord.of_close {x y : Int} (h : SameWord x y) (hlo : -18446744073709551616 < x - y)
    (hhi : x - y < 18446744073709551616) : x = y := by
  have := Int.eq_zero_of_abs_lt_dvd h (abs_lt.mpr ⟨hlo, hhi⟩)
  omega

theorem SameWord.neg_iff {x y : Int} : SameWord (-x) (-y) ↔ SameWord x y := by
  unfold SameWord
  rw [show -x - -y = -(x - y) by ring]
  exact Int.dvd_neg

/-! ## Quotients -/

/-- The operands whose quotient the signed readings have too. A dividend
beyond the signed range is divided right by `1`, by `-1` and by itself; a
divisor beyond it divides right what is smaller than its signed reading. -/
def SameQuotient (a b : Int) : Prop :=
  if a < 9223372036854775808 then
    b < 9223372036854775808 ∨ (b - 18446744073709551616 < a ∧ a < 18446744073709551616 - b)
  else b = 1 ∨ b = -1 ∨ a = b

theorem ediv_bounds {a b : Int} (ha : 0 ≤ a) (hb : 2 ≤ b) : 0 ≤ a / b ∧ 2 * (a / b) ≤ a := by
  have h0 : 0 ≤ a / b := Int.ediv_nonneg ha (by omega)
  have h1 : b * (a / b) ≤ a := Int.mul_ediv_self_le (by omega)
  exact ⟨h0, by nlinarith⟩

theorem one_le_ediv {a b : Int} (hb : 0 < b) (h : b ≤ a) : 1 ≤ a / b :=
  (Int.le_ediv_iff_mul_le hb).mpr (by omega)

theorem tdiv_of_neg {a : Int} (b : Int) (ha : a < 0) : a.tdiv b = -(-a / b) := by
  have h := Int.neg_tdiv (-a) b
  rw [Int.neg_neg, Int.tdiv_eq_ediv_of_nonneg (show 0 ≤ -a by omega)] at h
  exact h

/-- A dividend beyond the signed range, a positive divisor within it. -/
theorem tdiv_large_pos {a b : Int} (ha : 9223372036854775808 ≤ a) (ha' : a < 18446744073709551616)
    (hb : 0 < b) (hb' : b < 9223372036854775808) :
    SameWord (a.tdiv b) ((a - 18446744073709551616).tdiv b) ↔ b = 1 := by
  rw [Int.tdiv_eq_ediv_of_nonneg (by omega), tdiv_of_neg b (by omega)]
  constructor
  · intro h
    by_contra hne
    obtain ⟨h1, h2⟩ := ediv_bounds (a := a) (b := b) (by omega) (by omega)
    obtain ⟨h3, h4⟩ := ediv_bounds (a := -(a - 18446744073709551616)) (b := b) (by omega) (by omega)
    have h5 := one_le_ediv hb (show b ≤ a by omega)
    have := h.of_close (by omega) (by omega)
    omega
  · rintro rfl
    exact ⟨1, by omega⟩

theorem tdiv_large_small {a b : Int} (ha : 9223372036854775808 ≤ a)
    (ha' : a < 18446744073709551616) (hb : IsWord b) (hb' : b < 9223372036854775808)
    (h0 : b ≠ 0) :
    SameWord (a.tdiv b) ((a - 18446744073709551616).tdiv b) ↔ b = 1 ∨ b = -1 := by
  obtain ⟨h1, -⟩ := hb
  rcases Int.lt_or_gt_of_ne h0 with hneg | hpos
  · by_cases hmin : b = -9223372036854775808
    · -- the divisor whose opposite is beyond the signed range
      subst hmin
      refine ⟨fun h => absurd h ?_, fun h => by omega⟩
      rw [Int.tdiv_eq_ediv_of_nonneg (by omega), tdiv_of_neg _ (by omega)]
      intro h
      have := h.of_close (by omega) (by omega)
      omega
    · have h := tdiv_large_pos ha ha' (b := -b) (by omega) (by omega)
      rw [Int.tdiv_neg, Int.tdiv_neg, SameWord.neg_iff] at h
      rw [h]
      omega
  · rw [tdiv_large_pos ha ha' hpos hb']
    omega

/-- Two quotients of one number by positive divisors, the second divisor the
opposite of the signed reading of the first. -/
theorem ediv_opposite {p b c : Int} (hp : 0 ≤ p) (hp' : p ≤ 9223372036854775808)
    (hb : 9223372036854775808 ≤ b) (hc : 0 < c) (hc' : c ≤ 9223372036854775808) :
    SameWord (p / b) (-(p / c)) ↔ p < c := by
  obtain ⟨hb0, hb1⟩ := ediv_bounds (b := b) hp (by omega)
  have hc0 : p / c ≤ p := Int.ediv_le_self c hp
  constructor
  · intro h
    by_contra hlt
    have hc1 := one_le_ediv hc (show c ≤ p by omega)
    unfold SameWord at h
    have := SameWord.of_close h (by omega) (by omega)
    omega
  · intro h
    rw [Int.ediv_eq_zero_of_lt hp h, Int.ediv_eq_zero_of_lt hp (by omega)]
    exact ⟨0, by omega⟩

theorem tdiv_small_large {a b : Int} (ha : IsWord a) (ha' : a < 9223372036854775808)
    (hb : 9223372036854775808 ≤ b) (hb' : b < 18446744073709551616) :
    SameWord (a.tdiv b) (a.tdiv (b - 18446744073709551616)) ↔
      b - 18446744073709551616 < a ∧ a < 18446744073709551616 - b := by
  obtain ⟨h1, -⟩ := ha
  rw [show b - 18446744073709551616 = -(18446744073709551616 - b) by ring, Int.tdiv_neg]
  rcases Int.lt_or_le a 0 with hneg | hpos
  · rw [tdiv_of_neg b hneg, tdiv_of_neg _ hneg, SameWord.neg_iff,
      ediv_opposite (by omega) (by omega) hb (by omega) (by omega)]
    omega
  · rw [Int.tdiv_eq_ediv_of_nonneg hpos, Int.tdiv_eq_ediv_of_nonneg hpos,
      ediv_opposite hpos (by omega) hb (by omega) (by omega)]
    omega

/-- Both operands beyond the signed range. -/
theorem tdiv_large_large {a b : Int} (ha : 9223372036854775808 ≤ a)
    (ha' : a < 18446744073709551616) (hb : 9223372036854775808 ≤ b)
    (hb' : b < 18446744073709551616) :
    SameWord (a.tdiv b) ((a - 18446744073709551616).tdiv (b - 18446744073709551616)) ↔ a = b := by
  rw [show a - 18446744073709551616 = -(18446744073709551616 - a) by ring,
    show b - 18446744073709551616 = -(18446744073709551616 - b) by ring, Int.neg_tdiv_neg,
    Int.tdiv_eq_ediv_of_nonneg (by omega), Int.tdiv_eq_ediv_of_nonneg (by omega)]
  generalize hA : 18446744073709551616 - a = A
  generalize hB : 18446744073709551616 - b = B
  have hA0 : 0 ≤ A / B := Int.ediv_nonneg (by omega) (by omega)
  have hA1 : A / B ≤ A := Int.ediv_le_self B (by omega)
  constructor
  · intro h
    rcases Int.lt_trichotomy a b with hlt | heq | hgt
    · -- nothing fits into the dividend, something into its signed reading
      rw [Int.ediv_eq_zero_of_lt (by omega) hlt] at h
      have h1 := one_le_ediv (a := A) (b := B) (by omega) (by omega)
      have := h.of_close (by omega) (by omega)
      omega
    · exact heq
    · rw [Int.ediv_eq_zero_of_lt (a := A) (by omega) (by omega)] at h
      have h1 := one_le_ediv (a := a) (b := b) (by omega) (by omega)
      have h2 : a / b ≤ a := Int.ediv_le_self b (by omega)
      have := h.of_close (by omega) (by omega)
      omega
  · rintro rfl
    obtain rfl : A = B := by omega
    rw [Int.ediv_self (by omega), Int.ediv_self (by omega)]
    exact ⟨0, by omega⟩

/-- **Quotients of signed readings.** -/
theorem tdiv_signed_iff {a b : Int} (ha : IsWord a) (hb : IsWord b) (h0 : b ≠ 0) :
    SameWord (a.tdiv b) ((signed a).tdiv (signed b)) ↔ SameQuotient a b := by
  unfold SameQuotient
  by_cases hla : a < 9223372036854775808
  · rw [if_pos hla, signed_small hla]
    by_cases hlb : b < 9223372036854775808
    · rw [signed_small hlb]
      exact ⟨fun _ => .inl hlb, fun _ => .refl _⟩
    · rw [signed_large hlb, tdiv_small_large ha hla (by omega) hb.2]
      omega
  · rw [if_neg hla, signed_large hla]
    by_cases hlb : b < 9223372036854775808
    · rw [signed_small hlb, tdiv_large_small (by omega) ha.2 hb hlb h0]
      omega
    · rw [signed_large hlb, tdiv_large_large (by omega) ha.2 (by omega) hb.2]
      omega

/-! ## Remainders -/

/-- The operands whose remainder the signed readings have too. -/
def SameRemainder (a b : Int) : Prop :=
  if a < 9223372036854775808 then
    b < 9223372036854775808 ∨ (b - 18446744073709551616 < a ∧ a < 18446744073709551616 - b) ∨
      (a = -9223372036854775808 ∧ b = 9223372036854775808)
  else (b < 9223372036854775808 ∧ b ∣ a ∧ b ∣ 18446744073709551616) ∨ a = b

theorem tmod_of_neg {a : Int} (b : Int) (ha : a < 0) : a.tmod b = -(-a % b) := by
  have h := Int.neg_tmod (-a) b
  rw [Int.neg_neg, Int.tmod_eq_emod_of_nonneg (show 0 ≤ -a by omega)] at h
  exact h

theorem tmod_large_pos {a b : Int} (ha : 9223372036854775808 ≤ a) (ha' : a < 18446744073709551616)
    (hb : 0 < b) (hb' : b ≤ 9223372036854775808) :
    SameWord (a.tmod b) ((a - 18446744073709551616).tmod b) ↔
      b ∣ a ∧ b ∣ 18446744073709551616 := by
  rw [Int.tmod_eq_emod_of_nonneg (by omega), tmod_of_neg b (by omega)]
  generalize hp : -(a - 18446744073709551616) = p
  have h1 := Int.emod_nonneg a (show b ≠ 0 by omega)
  have h2 := Int.emod_lt_of_pos a hb
  have h3 := Int.emod_nonneg p (show b ≠ 0 by omega)
  have h4 := Int.emod_lt_of_pos p hb
  have hsum : (18446744073709551616 : Int) = a + p := by omega
  constructor
  · intro h
    have := h.of_close (by omega) (by omega)
    have hda : b ∣ a := Int.dvd_of_emod_eq_zero (by omega)
    have hdp : b ∣ p := Int.dvd_of_emod_eq_zero (by omega)
    exact ⟨hda, hsum ▸ Int.dvd_add hda hdp⟩
  · rintro ⟨hda, hdm⟩
    have hdp : b ∣ p := (Int.dvd_add_right hda).mp (hsum ▸ hdm)
    rw [Int.emod_eq_zero_of_dvd hda, Int.emod_eq_zero_of_dvd hdp]
    exact .refl _

theorem tmod_large_small {a b : Int} (ha : 9223372036854775808 ≤ a)
    (ha' : a < 18446744073709551616) (hb : IsWord b) (hb' : b < 9223372036854775808)
    (h0 : b ≠ 0) :
    SameWord (a.tmod b) ((a - 18446744073709551616).tmod b) ↔
      b ∣ a ∧ b ∣ 18446744073709551616 := by
  obtain ⟨h1, -⟩ := hb
  rcases Int.lt_or_gt_of_ne h0 with hneg | hpos
  · have h := tmod_large_pos ha ha' (b := -b) (by omega) (by omega)
    rwa [Int.tmod_neg, Int.tmod_neg, Int.neg_dvd, Int.neg_dvd] at h
  · exact tmod_large_pos ha ha' hpos (by omega)

theorem emod_opposite {p b c : Int} (hp : 0 ≤ p) (hp' : p < b) (hc : 0 < c)
    (hc' : c ≤ 9223372036854775808) (hpm : p ≤ 9223372036854775808) :
    SameWord (p % b) (p % c) ↔ p < c := by
  rw [Int.emod_eq_of_lt hp hp']
  have h1 := Int.emod_nonneg p (show c ≠ 0 by omega)
  have h2 := Int.emod_lt_of_pos p hc
  constructor
  · intro h
    have := h.of_close (by omega) (by omega)
    omega
  · intro h
    rw [Int.emod_eq_of_lt hp h]
    exact .refl _

theorem tmod_small_large {a b : Int} (ha : IsWord a) (ha' : a < 9223372036854775808)
    (hb : 9223372036854775808 ≤ b) (hb' : b < 18446744073709551616) :
    SameWord (a.tmod b) (a.tmod (b - 18446744073709551616)) ↔
      (b - 18446744073709551616 < a ∧ a < 18446744073709551616 - b) ∨
        (a = -9223372036854775808 ∧ b = 9223372036854775808) := by
  obtain ⟨h1, -⟩ := ha
  rw [show b - 18446744073709551616 = -(18446744073709551616 - b) by ring, Int.tmod_neg]
  by_cases hmin : a = -9223372036854775808 ∧ b = 9223372036854775808
  · -- the one dividend that is as large as the divisor
    obtain ⟨rfl, rfl⟩ := hmin
    exact ⟨fun _ => .inr ⟨rfl, rfl⟩, fun _ => .refl _⟩
  · rcases Int.lt_or_le a 0 with hneg | hpos
    · rw [tmod_of_neg b hneg, tmod_of_neg _ hneg, SameWord.neg_iff,
        emod_opposite (by omega) (by omega) (by omega) (by omega) (by omega)]
      omega
    · rw [Int.tmod_eq_emod_of_nonneg hpos, Int.tmod_eq_emod_of_nonneg hpos,
        emod_opposite hpos (by omega) (by omega) (by omega) (by omega)]
      omega

theorem tmod_large_large {a b : Int} (ha : 9223372036854775808 ≤ a)
    (ha' : a < 18446744073709551616) (hb : 9223372036854775808 ≤ b)
    (hb' : b < 18446744073709551616) :
    SameWord (a.tmod b) ((a - 18446744073709551616).tmod (b - 18446744073709551616)) ↔ a = b := by
  rw [show a - 18446744073709551616 = -(18446744073709551616 - a) by ring,
    show b - 18446744073709551616 = -(18446744073709551616 - b) by ring, Int.tmod_neg,
    Int.neg_tmod, Int.tmod_eq_emod_of_nonneg (by omega), Int.tmod_eq_emod_of_nonneg (by omega)]
  generalize hA : 18446744073709551616 - a = A
  generalize hB : 18446744073709551616 - b = B
  have h1 := Int.emod_nonneg A (show B ≠ 0 by omega)
  have h2 := Int.emod_lt_of_pos A (show 0 < B by omega)
  constructor
  · intro h
    rcases Int.lt_trichotomy a b with hlt | heq | hgt
    · rw [Int.emod_eq_of_lt (by omega) hlt] at h
      -- `a + A % B` lies strictly between `0` and `a + A`, which is `2 ^ 64`
      have := h.of_close (by omega) (by omega)
      omega
    · exact heq
    · rw [Int.emod_eq_of_lt (a := A) (by omega) (by omega), Int.emod_eq_sub_self_emod,
        Int.emod_eq_of_lt (a := a - b) (by omega) (by omega)] at h
      have := h.of_close (by omega) (by omega)
      omega
  · rintro rfl
    obtain rfl : A = B := by omega
    rw [Int.emod_self, Int.emod_self]
    exact ⟨0, by omega⟩

/-- **Remainders of signed readings.** -/
theorem tmod_signed_iff {a b : Int} (ha : IsWord a) (hb : IsWord b) (h0 : b ≠ 0) :
    SameWord (a.tmod b) ((signed a).tmod (signed b)) ↔ SameRemainder a b := by
  unfold SameRemainder
  by_cases hla : a < 9223372036854775808
  · rw [if_pos hla, signed_small hla]
    by_cases hlb : b < 9223372036854775808
    · rw [signed_small hlb]
      exact ⟨fun _ => .inl hlb, fun _ => .refl _⟩
    · rw [signed_large hlb, tmod_small_large ha hla (by omega) hb.2]
      omega
  · rw [if_neg hla, signed_large hla]
    by_cases hlb : b < 9223372036854775808
    · rw [signed_small hlb, tmod_large_small (by omega) ha.2 hb hlb h0]
      exact ⟨fun h => .inl ⟨hlb, h⟩, fun h => h.elim (·.2) fun h => by omega⟩
    · rw [signed_large hlb, tmod_large_large (by omega) ha.2 (by omega) hb.2]
      omega

end RustPlc.Core
