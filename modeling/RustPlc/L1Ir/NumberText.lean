import RustPlc.L1Ir.Ops

/-!
# Numbers and their texts

`parse::<i64>` and `parse::<u64>` give back the number that `to_string` has written.

Results:
* `parseDigits_digits`, `parseI64_toString`, `parseU64_digits`: the round trips;
* `parseI64_followed`: a number with something behind it is no number;
* `toString_no_word`: the text of a number is no word.
-/
namespace RustPlc.Ir

theorem parseDigits_eq {cs : List Char} (hne : cs ≠ []) (h : ∀ c ∈ cs, c.isDigit = true) :
    parseDigits cs = some (Nat.ofDigitChars 10 cs 0) := by
  have hfold : ∀ (cs : List Char) (a : Nat), (∀ c ∈ cs, c.isDigit = true) →
      cs.foldl (fun acc c => acc.bind fun n =>
        if c.isDigit then some (n * 10 + (c.toNat - 48)) else none) (some a) =
          some (Nat.ofDigitChars 10 cs a) := by
    intro cs
    induction cs with
    | nil => exact fun a _ => by simp
    | cons c cs ih =>
      intro a hall
      rw [List.foldl_cons, Option.bind_some, if_pos (hall c List.mem_cons_self),
        ih _ fun d hd => hall d (List.mem_cons_of_mem c hd), Nat.ofDigitChars_cons, Nat.mul_comm 10 a]
      rfl
  cases cs with
  | nil => exact absurd rfl hne
  | cons c cs => exact hfold (c :: cs) 0 h

/-- A text that is read as a number has only digits. -/
theorem digits_of_parseDigits {cs : List Char} {n : Nat} (h : parseDigits cs = some n) :
    ∀ c ∈ cs, c.isDigit = true := by
  have hnone : ∀ cs : List Char, cs.foldl (fun acc c => acc.bind fun n =>
      if c.isDigit then some (n * 10 + (c.toNat - 48)) else none) (none : Option Nat) = none := by
    intro cs
    induction cs with
    | nil => rfl
    | cons c cs ih => exact ih
  have hfold : ∀ (cs : List Char) (a : Nat), cs.foldl (fun acc c => acc.bind fun n =>
      if c.isDigit then some (n * 10 + (c.toNat - 48)) else none) (some a) = some n →
        ∀ c ∈ cs, c.isDigit = true := by
    intro cs
    induction cs with
    | nil => exact fun _ _ c hc => absurd hc List.not_mem_nil
    | cons d cs ih =>
      intro a hfold c hc
      by_cases hd : d.isDigit = true
      · rw [List.foldl_cons, Option.bind_some, if_pos hd] at hfold
        rcases List.mem_cons.mp hc with rfl | hc
        · exact hd
        · exact ih _ hfold c hc
      · rw [List.foldl_cons, Option.bind_some, if_neg hd, hnone] at hfold
        cases hfold
  cases cs with
  | nil => exact fun c hc => absurd hc List.not_mem_nil
  | cons c cs => exact hfold (c :: cs) 0 h

/-- The digits of a number. -/
def digits (n : Nat) : List Char := Nat.toDigits 10 n

theorem toList_toString (n : Nat) : (toString n).toList = digits n := by
  rw [Nat.toString_eq_repr, Nat.toList_repr, digits]

theorem digits_ne_nil (n : Nat) : digits n ≠ [] := Nat.toDigits_ne_nil

theorem isDigit_of_mem_digits {n : Nat} {c : Char} (h : c ∈ digits n) : c.isDigit = true :=
  Nat.isDigit_of_mem_toDigits (by decide) (by decide) h

theorem parseDigits_digits (n : Nat) : parseDigits (digits n) = some n := by
  rw [parseDigits_eq (digits_ne_nil n) fun c hc => isDigit_of_mem_digits hc, digits,
    Nat.ofDigitChars_ten_toDigits]

theorem exists_digits (n : Nat) : ∃ c cs, digits n = c :: cs ∧ c.isDigit = true := by
  cases h : digits n with
  | nil => exact absurd h (digits_ne_nil n)
  | cons c cs => exact ⟨c, cs, rfl, isDigit_of_mem_digits (h ▸ List.mem_cons_self)⟩

/-- A digit is no sign and starts no word. -/
theorem isDigit_ne {c d : Char} (hc : c.isDigit = true) (hd : d.isDigit = false) : c ≠ d := by
  intro h
  rw [h, hd] at hc
  cases hc

/-- A text of digits is read as its number, when that fits. -/
theorem parseI64_ofDigits {cs : List Char} (hne : cs ≠ []) (h : ∀ c ∈ cs, c.isDigit = true) :
    parseI64 cs = if Nat.ofDigitChars 10 cs 0 < 2 ^ 63 then
      some (Int64.ofNat (Nat.ofDigitChars 10 cs 0)) else none := by
  have hn := parseDigits_eq hne h
  generalize Nat.ofDigitChars 10 cs 0 = n at *
  cases cs with
  | nil => exact absurd rfl hne
  | cons c cs =>
    have hc := h c List.mem_cons_self
    have hminus : c ≠ '-' := isDigit_ne hc (by decide)
    have hplus : c ≠ '+' := isDigit_ne hc (by decide)
    simp only [parseI64]
    split
    · next h => exact absurd (List.cons.inj h).1 hminus
    · next h => exact absurd (List.cons.inj h).1 hplus
    · rw [hn]
      change (if -9223372036854775808 ≤ (n : Int) ∧ (n : Int) ≤ 9223372036854775807 then
        some (Int64.ofInt n) else none) = _
      by_cases hlt : n < 2 ^ 63
      · rw [if_pos (by omega), if_pos hlt, Int64.ofInt_eq_ofNat]
      · rw [if_neg (by omega), if_neg hlt]

theorem parseI64_digits (n : Nat) : parseI64 (digits n) =
    if n < 2 ^ 63 then some (Int64.ofNat n) else none := by
  rw [parseI64_ofDigits (digits_ne_nil n) fun c hc => isDigit_of_mem_digits hc, digits,
    Nat.ofDigitChars_ten_toDigits]

/-- The number of a text of digits has at most as many digits. -/
theorem ofDigits_lt : ∀ {cs : List Char}, (∀ c ∈ cs, c.isDigit = true) →
    Nat.ofDigitChars 10 cs 0 < 10 ^ cs.length := by
  have hfold : ∀ (cs : List Char) (a : Nat), (∀ c ∈ cs, c.isDigit = true) →
      Nat.ofDigitChars 10 cs a < (a + 1) * 10 ^ cs.length := by
    intro cs
    induction cs with
    | nil =>
      intro a _
      rw [Nat.ofDigitChars_nil, List.length_nil, Nat.pow_zero]
      omega
    | cons c cs ih =>
      intro a h
      have hc : c.toNat ≤ 57 := by
        have := h c List.mem_cons_self
        simp only [Char.isDigit, Bool.and_eq_true, decide_eq_true_eq] at this
        exact this.2
      have hstep := ih (10 * a + (c.toNat - '0'.toNat)) fun d hd => h d (List.mem_cons_of_mem c hd)
      have h0 : '0'.toNat = 48 := rfl
      rw [Nat.ofDigitChars_cons, List.length_cons, Nat.pow_succ]
      calc _ < (10 * a + (c.toNat - '0'.toNat) + 1) * 10 ^ cs.length := hstep
        _ ≤ ((a + 1) * 10) * 10 ^ cs.length := Nat.mul_le_mul_right _ (by omega)
        _ = (a + 1) * (10 ^ cs.length * 10) := by rw [Nat.mul_assoc, Nat.mul_comm 10]
  intro cs h
  simpa using hfold cs 0 h

/-- A text of digits is read as its number, when that fits. -/
theorem parseU64_ofDigits {cs : List Char} (hne : cs ≠ []) (h : ∀ c ∈ cs, c.isDigit = true) :
    parseU64 cs = if Nat.ofDigitChars 10 cs 0 < 2 ^ 64 then
      some (UInt64.ofNat (Nat.ofDigitChars 10 cs 0)) else none := by
  have hn := parseDigits_eq hne h
  cases cs with
  | nil => exact absurd rfl hne
  | cons c cs =>
    have hplus : c ≠ '+' := isDigit_ne (h c List.mem_cons_self) (by decide)
    simp only [parseU64]
    split
    · next heq => exact absurd (List.cons.inj heq).1 hplus
    · rw [hn, Option.bind_some]

theorem parseU64_digits {n : Nat} (h : n < 2 ^ 64) : parseU64 (digits n) = some (UInt64.ofNat n) := by
  rw [parseU64_ofDigits (digits_ne_nil n) fun c hc => isDigit_of_mem_digits hc, digits,
    Nat.ofDigitChars_ten_toDigits, if_pos h]

/-- The text of an integer: digits, after a minus when it is negative. -/
theorem toList_toString_int (z : Int) :
    (toString z).toList = if z < 0 then '-' :: digits z.natAbs else digits z.natAbs := by
  cases z with
  | ofNat n => exact toList_toString n
  | negSucc n =>
    rw [if_pos (Int.negSucc_lt_zero n), Int.toString_eq_repr, Int.repr, String.toList_append,
      Nat.toList_repr]
    rfl

theorem parseI64_toString (i : Int64) : parseI64 (toString i.toInt).toList = some i := by
  rw [toList_toString_int]
  have hlo := i.le_toInt
  have hhi := i.toInt_lt
  by_cases hneg : i.toInt < 0
  · rw [if_pos hneg]
    simp only [parseI64, parseDigits_digits]
    change (if -9223372036854775808 ≤ -(i.toInt.natAbs : Int) ∧
      -(i.toInt.natAbs : Int) ≤ 9223372036854775807 then
        some (Int64.ofInt (-(i.toInt.natAbs : Int))) else none) = _
    have habs : -(i.toInt.natAbs : Int) = i.toInt := by omega
    rw [if_pos (by omega), habs, Int64.ofInt_toInt]
  · have habs : (i.toInt.natAbs : Int) = i.toInt := by omega
    rw [if_neg hneg, parseI64_digits, if_pos (by omega), ← Int64.ofInt_eq_ofNat, habs,
      Int64.ofInt_toInt]

theorem toLower_digit {c : Char} (h : c.isDigit = true) : c.toLower = c := by
  simp only [Char.isDigit, Bool.and_eq_true, decide_eq_true_eq] at h
  obtain ⟨hlo, hhi⟩ := h
  unfold Char.toLower
  rw [dif_neg]
  rintro ⟨hA, -⟩
  exact absurd (UInt32.le_trans hA hhi) (by decide)

/-- The text of an integer is no word. -/
theorem toString_no_word (z : Int) {word : String} {c : Char} {cs : List Char}
    (hword : word.toList.map Char.toLower = c :: cs) (hc : c.isDigit = false) (hminus : c ≠ '-') :
    eqIgnoreAsciiCase (toString z) word = false := by
  unfold eqIgnoreAsciiCase
  rw [hword, toList_toString_int]
  obtain ⟨d, ds, hds, hd⟩ := exists_digits z.natAbs
  rw [hds]
  split
  · rw [List.map_cons, beq_eq_false_iff_ne]
    intro h
    exact hminus (List.cons.inj h).1.symm
  · rw [List.map_cons, toLower_digit hd, beq_eq_false_iff_ne]
    intro h
    exact isDigit_ne hd hc (List.cons.inj h).1

theorem toList_toString_cast (n : Nat) : (toString (n : Int)).toList = digits n := by
  rw [toList_toString_int, if_neg (by omega), Int.natAbs_natCast]

/-- A number that something else follows is no number. -/
theorem parseI64_followed (n : Nat) {c : Char} (hc : c.isDigit = false) (rest : List Char) :
    parseI64 (digits n ++ c :: rest) = none ∧ parseI64 ('-' :: (digits n ++ c :: rest)) = none := by
  have hnone : parseDigits (digits n ++ c :: rest) = none := by
    cases h : parseDigits (digits n ++ c :: rest) with
    | none => rfl
    | some k =>
      have := digits_of_parseDigits h c (by simp)
      rw [hc] at this
      cases this
  obtain ⟨d, ds, hds, hd⟩ := exists_digits n
  refine ⟨?_, by simp only [parseI64, hnone]; rfl⟩
  have hminus : d ≠ '-' := isDigit_ne hd (by decide)
  have hplus : d ≠ '+' := isDigit_ne hd (by decide)
  rw [hds] at hnone ⊢
  simp only [parseI64, List.cons_append]
  split
  · next h => exact absurd (List.cons.inj h).1 hminus
  · next h => exact absurd (List.cons.inj h).1 hplus
  · rw [← List.cons_append, hnone]
    rfl

/-! ## Numbers that fit -/

theorem toInt_ofNat {n : Nat} (hn : n < 2 ^ 63) : (Int64.ofNat n).toInt = n := by
  rw [← Int64.ofInt_eq_ofNat]
  exact Int64.toInt_ofInt_of_le (by omega) (by omega)

theorem checkedI64_iff {z : Int} {y : Int64} : checkedI64 z = .ok y ↔ y.toInt = z := by
  have hlo := y.le_toInt
  have hhi := y.toInt_lt
  unfold checkedI64
  constructor
  · intro h
    split at h
    · next hz =>
      obtain rfl := Except.ok.inj h
      exact Int64.toInt_ofInt_of_le (by omega) (by omega)
    · cases h
  · rintro rfl
    rw [if_pos (by omega), Int64.ofInt_toInt]

end RustPlc.Ir
