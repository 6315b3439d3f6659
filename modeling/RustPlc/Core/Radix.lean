import Mathlib.Data.Nat.Digits.Defs
import Mathlib.Data.List.Basic

/-!
# Numbers read from bytes

`from_str_radix` of the unsigned integers of Rust's standard library: a number
in bytes, behind an optional plus sign.

Results
* `fromStrRadix_digits`, `fromStrRadix_signed`, `fromStrRadix_error`: digits give
  their number, also behind a plus sign; anything else is an error.
-/
namespace RustPlc.Core.Radix

/-- `std::num::ParseIntError`, of an unsigned type. -/
inductive ParseIntError where
  | empty | invalidDigit | posOverflow
  deriving DecidableEq

def ParseIntError.text : ParseIntError → String
  | .empty => "cannot parse integer from empty string"
  | .invalidDigit => "invalid digit found in string"
  | .posOverflow => "number too large to fit in target type"

/-- `char::to_digit` of a byte. -/
def toDigit (radix : ℕ) (b : UInt8) : Option ℕ :=
  let n := b.toNat
  let digit :=
    if 48 ≤ n ∧ n ≤ 57 then some (n - 48)
    else if 97 ≤ n ∧ n ≤ 122 then some (n - 87)
    else if 65 ≤ n ∧ n ≤ 90 then some (n - 55)
    else none
  digit.filter (· < radix)

def digitsLoop (radix max : ℕ) : ℕ → List UInt8 → Except ParseIntError ℕ
  | result, [] => .ok result
  | result, b :: rest =>
    match toDigit radix b with
    | none => .error .invalidDigit
    | some x =>
      if result * radix + x ≤ max then digitsLoop radix max (result * radix + x) rest
      else .error .posOverflow

def withoutPlus (src : List UInt8) : List UInt8 :=
  if src.head? = some 43 then src.tail else src

/-- `from_str_radix` of a type with the numbers up to `max`. -/
def fromStrRadix (radix max : ℕ) (src : List UInt8) : Except ParseIntError ℕ :=
  if src = [] then .error .empty
  else if src = [43] ∨ src = [45] then .error .invalidDigit
  else digitsLoop radix max 0 (withoutPlus src)

/-! ## Numerals -/

variable {radix max : ℕ} {p : List UInt8}

/-- One digit or more. -/
def Digits (radix : ℕ) (p : List UInt8) : Prop := p ≠ [] ∧ ∀ b ∈ p, (toDigit radix b).isSome

/-- Digits behind a plus sign. -/
def Signed (radix : ℕ) (p : List UInt8) : Prop := p.head? = some 43 ∧ Digits radix p.tail

instance : Decidable (Digits radix p) :=
  decidable_of_iff (p ≠ [] ∧ p.all fun b => (toDigit radix b).isSome)
    (and_congr_right fun _ => List.all_eq_true)

instance : Decidable (Signed radix p) := inferInstanceAs (Decidable (_ ∧ _))

def digitValue (radix : ℕ) (b : UInt8) : ℕ := (toDigit radix b).getD 0

/-- The number the digits denote, the last one the lowest. -/
def number (radix : ℕ) (p : List UInt8) : ℕ := Nat.ofDigits radix (p.map (digitValue radix)).reverse

theorem number_cons (b : UInt8) (p : List UInt8) :
    number radix (b :: p) = digitValue radix b * radix ^ p.length + number radix p := by
  rw [number, List.map_cons, List.reverse_cons, Nat.ofDigits_append, Nat.ofDigits_singleton,
    List.length_reverse, List.length_map, number, Nat.add_comm, Nat.mul_comm]

theorem toDigit_lt {b : UInt8} {x : ℕ} (h : toDigit radix b = some x) : x < radix := by
  unfold toDigit at h
  simpa using (Option.filter_eq_some_iff.mp h).2

theorem toDigit_ascii {b : UInt8} (h : (toDigit radix b).isSome) : b.toNat < 128 := by
  obtain ⟨x, hx⟩ := Option.isSome_iff_exists.mp h
  unfold toDigit at hx
  have hdigit := (Option.filter_eq_some_iff.mp hx).1
  split at hdigit
  · omega
  split at hdigit
  · omega
  split at hdigit
  · omega
  · cases hdigit

theorem toDigit_plus : toDigit radix 43 = none := rfl

theorem toDigit_minus : toDigit radix 45 = none := rfl

theorem Digits.ascii (h : Digits radix p) : ∀ b ∈ p, b.toNat < 128 :=
  fun b hb => toDigit_ascii (h.2 b hb)

theorem Signed.ascii (h : Signed radix p) : ∀ b ∈ p, b.toNat < 128 := by
  obtain ⟨hhead, hdigits⟩ := h
  cases p with
  | nil => cases hhead
  | cons b p =>
    obtain rfl := Option.some.inj hhead
    exact List.forall_mem_cons.mpr ⟨by decide, hdigits.ascii⟩

theorem Digits.not_signed (h : Digits radix p) : ¬ Signed radix p := by
  rintro ⟨hhead, -⟩
  have hplus := h.2 43 (List.mem_of_mem_head? hhead)
  rw [toDigit_plus] at hplus
  cases hplus

/-! ## The loop -/

theorem digitsLoop_ok (hdigits : ∀ b ∈ p, (toDigit radix b).isSome) {result : ℕ}
    (hfits : (result + 1) * radix ^ p.length ≤ max + 1) :
    digitsLoop radix max result p = .ok (result * radix ^ p.length + number radix p) := by
  induction p generalizing result with
  | nil => simp [digitsLoop, number]
  | cons b p ih =>
    obtain ⟨hb, hp⟩ := List.forall_mem_cons.mp hdigits
    obtain ⟨x, hx⟩ := Option.isSome_iff_exists.mp hb
    have hlt := toDigit_lt hx
    have hpow : 0 < radix ^ p.length := Nat.pow_pos (Nat.zero_lt_of_lt hlt)
    -- the numbers that begin with these digits fit
    have hnext : (result * radix + x + 1) * radix ^ p.length ≤ max + 1 := by
      calc (result * radix + x + 1) * radix ^ p.length
          ≤ (result + 1) * radix * radix ^ p.length :=
            Nat.mul_le_mul_right _ (by rw [Nat.add_one_mul]; omega)
        _ = (result + 1) * radix ^ (b :: p).length := by
            rw [List.length_cons, Nat.pow_succ, Nat.mul_assoc, Nat.mul_comm radix]
        _ ≤ max + 1 := hfits
    have hle : result * radix + x ≤ max :=
      Nat.le_of_succ_le_succ (Nat.le_trans (Nat.le_mul_of_pos_right _ hpow) hnext)
    rw [digitsLoop, hx]
    dsimp only
    rw [if_pos hle, ih hp hnext, number_cons, digitValue, hx, Option.getD_some, List.length_cons,
      Nat.pow_succ, Nat.add_mul, Nat.mul_assoc, Nat.mul_comm radix, Nat.add_assoc]

theorem digitsLoop_error (h : ¬ ∀ b ∈ p, (toDigit radix b).isSome) (result : ℕ) :
    ∃ e, digitsLoop radix max result p = .error e := by
  induction p generalizing result with
  | nil => exact absurd (by simp) h
  | cons b p ih =>
    rw [digitsLoop]
    cases hb : toDigit radix b with
    | none => exact ⟨_, rfl⟩
    | some x =>
      dsimp only
      split
      · refine ih (fun hp => h ?_) _
        exact List.forall_mem_cons.mpr ⟨by rw [hb]; rfl, hp⟩
      · exact ⟨_, rfl⟩

/-! ## `from_str_radix` -/

theorem fromStrRadix_digits (h : Digits radix p) (hfits : radix ^ p.length ≤ max + 1) :
    fromStrRadix radix max p = .ok (number radix p) := by
  have hplus : ¬ p.head? = some 43 := by
    intro hhead
    have hplus := h.2 43 (List.mem_of_mem_head? hhead)
    rw [toDigit_plus] at hplus
    cases hplus
  have hsign : ¬ (p = [43] ∨ p = [45]) := by
    rintro (rfl | rfl)
    · exact hplus rfl
    · have := h.2 45 (by simp)
      rw [toDigit_minus] at this
      cases this
  rw [fromStrRadix, if_neg h.1, if_neg hsign, withoutPlus, if_neg hplus,
    digitsLoop_ok h.2 (by rwa [Nat.zero_add, Nat.one_mul]), Nat.zero_mul, Nat.zero_add]

theorem fromStrRadix_signed (h : Signed radix p) (hfits : radix ^ p.tail.length ≤ max + 1) :
    fromStrRadix radix max p = .ok (number radix p.tail) := by
  obtain ⟨hhead, htail, hdigits⟩ := h
  have hne : p ≠ [] := by
    rintro rfl
    cases hhead
  have hsign : ¬ (p = [43] ∨ p = [45]) := by
    rintro (rfl | rfl) <;> exact htail rfl
  rw [fromStrRadix, if_neg hne, if_neg hsign, withoutPlus, if_pos hhead,
    digitsLoop_ok hdigits (by rwa [Nat.zero_add, Nat.one_mul]), Nat.zero_mul, Nat.zero_add]

theorem fromStrRadix_error (hdigits : ¬ Digits radix p) (hsigned : ¬ Signed radix p) :
    ∃ e, fromStrRadix radix max p = .error e := by
  unfold fromStrRadix
  split
  · exact ⟨_, rfl⟩
  next hne =>
    split
    · exact ⟨_, rfl⟩
    next hsign =>
      refine digitsLoop_error (fun hall => ?_) 0
      unfold withoutPlus at hall
      split at hall
      next hhead =>
        refine hsigned ⟨hhead, fun htail => hsign (.inl ?_), hall⟩
        cases p with
        | nil => cases hhead
        | cons b p =>
          obtain rfl := Option.some.inj hhead
          rw [List.tail_cons] at htail
          rw [htail]
      next => exact hdigits ⟨hne, hall⟩

end RustPlc.Core.Radix
