import Mathlib.Tactic.IntervalCases
import RustPlc.Core.Calendar
import RustPlc.L1Ir.NumberText
import RustPlc.L4Agree.Comparison

/-!
# Dates

A date is compiled to the milliseconds since 1970-01-01: `ymd_to_epoch_ms`
(crates/st-compiler/src/compile.rs:1723-1734) has a closed formula with the
year shifted to March, in `i64`. `DT_TO_DATE`, `DT_TO_TOD` and `DAY_OF_WEEK`
(crates/st-engine/src/vm.rs:1529-1547) divide such a value by the length of a
day, rounding down.

Results:
* `ymdDays_eq`: the formula counts the days of the Gregorian calendar;
* `calendar_right_iff`: the laws hold for a date and a DT value exactly when
  the date and the beginning of the day of the value fit `i64`;
* `first_day_panics`: the earliest DT value has no date, and the process panics.
-/
namespace RustPlc.Compiler

open RustPlc.Ir RustPlc.Syntax RustPlc.Core

/-! ## The formula -/

/-- What `ymd_to_epoch_ms` computes, in days and without the bounds of `i64`. -/
def ymdDays (year month day : Int) : Int :=
  let y := if month ≤ 2 then year - 1 else year
  let m := if month ≤ 2 then month + 9 else month - 3
  365 * y + y.tdiv 4 - y.tdiv 100 + y.tdiv 400 + (m * 306 + 5).tdiv 10 + (day - 1) - 719468

section

variable {z : Int} (hlo : -9223372036854775808 ≤ z) (hhi : z ≤ 9223372036854775807)

include hlo hhi

theorem checkedI64_ok : checkedI64 z = .ok (Int64.ofInt z) := if_pos ⟨hlo, hhi⟩

theorem checkedI64_bind {α : Type} (k : Int64 → Except Panic α) :
    (checkedI64 z >>= k) = k (Int64.ofInt z) := by
  rw [checkedI64_ok hlo hhi]
  rfl

theorem toInt_checked : (Int64.ofInt z).toInt = z :=
  checkedI64_iff.mp (checkedI64_ok hlo hhi)

end

/-- A quotient is no further from 0 than its dividend. -/
theorem tdiv_within {a b : Int} (k : Int) (h : -b ≤ a ∧ a ≤ b) : -b ≤ a.tdiv k ∧ a.tdiv k ≤ b := by
  have := Int.natAbs_tdiv_le_natAbs a k
  omega

/-- Only the last product of the formula can leave `i64`. -/
theorem ymdToEpochMs_eq {y m d : Int64} (hy : -1000000000000 ≤ y.toInt ∧ y.toInt ≤ 1000000000000)
    (hm : 0 ≤ m.toInt ∧ m.toInt ≤ 99) (hd : 0 ≤ d.toInt ∧ d.toInt ≤ 99) :
    ymdToEpochMs y m d = checkedI64 (ymdDays y.toInt m.toInt d.toInt * 86400000) := by
  unfold ymdToEpochMs ymdDays
  generalize y.toInt = y at *
  generalize m.toInt = m at *
  generalize d.toInt = d at *
  have hy' : -1000000000001 ≤ (if m ≤ 2 then y - 1 else y) ∧
      (if m ≤ 2 then y - 1 else y) ≤ 1000000000001 := by
    split <;> omega
  have hm' : -3 ≤ (if m ≤ 2 then m + 9 else m - 3) ∧
      (if m ≤ 2 then m + 9 else m - 3) ≤ 96 := by
    split <;> omega
  dsimp only
  generalize (if m ≤ 2 then y - 1 else y) = y' at *
  generalize (if m ≤ 2 then m + 9 else m - 3) = m' at *
  have h4 := tdiv_within 4 hy'
  have h100 := tdiv_within 100 hy'
  have h400 := tdiv_within 400 hy'
  have h10 := tdiv_within (b := 30000) 10 (show _ ≤ m' * 306 + 5 ∧ m' * 306 + 5 ≤ _ by omega)
  clear hy hm
  simp (disch := omega) only [checkedI64_bind, toInt_checked]

/-- From March on the months have 153 days in every five. -/
theorem monthsTo_march (y : Nat) {m : Nat} (h3 : 3 ≤ m) (h12 : m ≤ 12) :
    (monthsTo y (m - 1) : Int) + 306 = yearDays y + ((m - 3) * 306 + 5) / 10 := by
  unfold yearDays
  interval_cases m <;> simp only [monthsTo, monthDays] <;> cases isLeap y <;> rfl

/-- **The formula counts the days of the calendar.** 719163 is the number of
1970-01-01. -/
theorem ymdDays_eq (d : Date) : ymdDays d.year d.month d.day = d.dayNumber - 719163 := by
  have hy := d.year_pos
  have hm := d.month_pos
  have hm12 := d.month_le
  have hprev := daysTo_eq (d.year - 1)
  have hyear := d.daysTo_year
  have hthis := daysTo_eq d.year
  have hcast : ((d.year - 1 : Nat) : Int) = d.year - 1 := by omega
  rw [hcast] at hprev
  unfold ymdDays Date.dayNumber
  generalize d.month = m at *
  generalize d.day = day
  generalize d.year = y at *
  by_cases hlow : (m : Int) ≤ 2
  · simp only [if_pos hlow]
    rw [Int.tdiv_eq_ediv_of_nonneg (by omega), Int.tdiv_eq_ediv_of_nonneg (by omega),
      Int.tdiv_eq_ediv_of_nonneg (by omega), Int.tdiv_eq_ediv_of_nonneg (by omega)]
    rw [← hprev]
    clear hprev hthis hyear
    have hcases : m = 1 ∨ m = 2 := by omega
    rcases hcases with rfl | rfl
    · have h0 : monthsTo y (1 - 1) = 0 := rfl
      omega
    · have h1 : monthsTo y (2 - 1) = 31 := rfl
      omega
  · simp only [if_neg hlow]
    rw [Int.tdiv_eq_ediv_of_nonneg (by omega), Int.tdiv_eq_ediv_of_nonneg (by omega),
      Int.tdiv_eq_ediv_of_nonneg (by omega), Int.tdiv_eq_ediv_of_nonneg (by omega)]
    have hmarch := monthsTo_march y (show 3 ≤ m by omega) hm12
    rw [← hthis]
    clear hthis hprev
    omega

/-! ## The texts of literals -/

/-- From `lo` to `hi` digits. -/
structure Digits (lo hi : Nat) where
  chars : List Char
  digit : ∀ c ∈ chars, c.isDigit = true
  lo_le : lo ≤ chars.length
  le_hi : chars.length ≤ hi

/-- The number the digits stand for. -/
def Digits.value {lo hi : Nat} (t : Digits lo hi) : Nat := Nat.ofDigitChars 10 t.chars 0

/-- The letters in front of the `#` of a literal. -/
structure Keyword where
  letters : List Char
  letter : ∀ c ∈ letters, c ≠ '#' ∧ isWhitespace c = false

/-- `YYYY-M-D`. mirrors crates/st-grammar/grammar.js:741-752 -/
structure DateText where
  year : Digits 4 4
  month : Digits 1 2
  day : Digits 1 2

def DateText.chars (t : DateText) : List Char :=
  t.year.chars ++ '-' :: (t.month.chars ++ '-' :: t.day.chars)

/-- The text names the date. -/
def DateText.Denotes (t : DateText) (d : Date) : Prop :=
  t.year.value = d.year ∧ t.month.value = d.month ∧ t.day.value = d.day

/-- `H:MM:SS` with digits of a second behind, or with none.
mirrors crates/st-grammar/grammar.js:754-766 -/
structure TimeText where
  hours : Digits 1 2
  minutes : Digits 2 2
  seconds : Digits 2 2
  fraction : List Char
  fraction_digit : ∀ c ∈ fraction, c.isDigit = true

def TimeText.clock (t : TimeText) : List Char :=
  t.hours.chars ++ ':' :: (t.minutes.chars ++ ':' :: t.seconds.chars)

def TimeText.chars (t : TimeText) : List Char :=
  match t.fraction with
  | [] => t.clock
  | c :: cs => t.clock ++ '.' :: c :: cs

/-- A DATE literal. -/
def dateLiteral (k : Keyword) (d : DateText) : String := String.ofList (k.letters ++ '#' :: d.chars)

/-- A DT literal. mirrors crates/st-grammar/grammar.js:768-782 -/
def dtLiteral (k : Keyword) (d : DateText) (t : TimeText) : String :=
  String.ofList (k.letters ++ '#' :: (d.chars ++ '-' :: t.chars))

/-! ## Splitting them -/

theorem splitOnChar_none {sep : Char} : ∀ {cs : List Char}, sep ∉ cs → splitOnChar sep cs = [cs]
  | [], _ => rfl
  | c :: cs, h => by
    have hc : c ≠ sep := fun he => h (he ▸ List.mem_cons_self)
    rw [splitOnChar, if_neg hc, splitOnChar_none fun hm => h (List.mem_cons_of_mem c hm)]

theorem splitOnChar_append {sep : Char} (rest : List Char) : ∀ {cs : List Char}, sep ∉ cs →
    splitOnChar sep (cs ++ sep :: rest) = cs :: splitOnChar sep rest
  | [], _ => by rw [List.nil_append, splitOnChar, if_pos rfl]
  | c :: cs, h => by
    have hc : c ≠ sep := fun he => h (he ▸ List.mem_cons_self)
    rw [List.cons_append, splitOnChar, if_neg hc,
      splitOnChar_append rest fun hm => h (List.mem_cons_of_mem c hm)]

theorem splitN_append {sep : Char} (n : Nat) (rest : List Char) {cs : List Char} (h : sep ∉ cs) :
    splitN sep (n + 1) (cs ++ sep :: rest) = cs :: splitN sep n rest := by
  have hall : ∀ c ∈ cs, (c != sep) = true := fun c hc => by
    rw [bne_iff_ne]
    exact fun he => h (he ▸ hc)
  have hstop : (sep != sep) = false := by simp
  rw [splitN, List.dropWhile_append_of_pos hall, List.takeWhile_append_of_pos hall,
    List.dropWhile_cons_of_neg (by simp), List.takeWhile_cons_of_neg (by simp), List.append_nil]

/-- What follows the `#` of a literal. -/
theorem afterHash_literal {letters body : List Char} (hl : '#' ∉ letters) (hb : '#' ∉ body) :
    afterHash (letters ++ '#' :: body) = body := by
  rw [afterHash, splitOnChar_append body hl, splitOnChar_none hb]
  rfl

theorem trim_id {cs : List Char} (h : ∀ c ∈ cs, isWhitespace c = false) : trim cs = cs := by
  have hdrop : ∀ {xs : List Char}, (∀ c ∈ xs, isWhitespace c = false) →
      xs.dropWhile isWhitespace = xs := by
    intro xs hx
    cases xs with
    | nil => rfl
    | cons c cs => rw [List.dropWhile_cons_of_neg (by simp [hx c List.mem_cons_self])]
  rw [trim, trimStart, hdrop h, trimEnd, hdrop fun c hc => h c (List.mem_reverse.mp hc),
    List.reverse_reverse]

/-- Without a `#` and without white space. -/
def Clean (cs : List Char) : Prop := ∀ c ∈ cs, c ≠ '#' ∧ isWhitespace c = false

theorem Clean.append {as bs : List Char} (ha : Clean as) (hb : Clean bs) : Clean (as ++ bs) := by
  intro c hc
  rcases List.mem_append.mp hc with hc | hc
  · exact ha c hc
  · exact hb c hc

theorem Clean.cons {c : Char} {cs : List Char} (hc : c ≠ '#' ∧ isWhitespace c = false)
    (h : Clean cs) : Clean (c :: cs) := by
  intro d hd
  rcases List.mem_cons.mp hd with rfl | hd
  · exact hc
  · exact h d hd

theorem clean_digits {cs : List Char} (h : ∀ c ∈ cs, c.isDigit = true) : Clean cs := by
  intro c hc
  have hd := h c hc
  refine ⟨isDigit_ne hd (by decide), ?_⟩
  have hdigit : 48 ≤ c.toNat ∧ c.toNat ≤ 57 := by
    simpa [Char.isDigit, UInt32.le_iff_toNat_le] using hd
  unfold isWhitespace
  simp
  omega

/-- The value of a literal is parsed from what follows the `#`. -/
theorem afterHash_trim (k : Keyword) {body : List Char} (hb : Clean body) :
    afterHash (trim (k.letters ++ '#' :: body)) = body := by
  have htext : ∀ c ∈ k.letters ++ '#' :: body, isWhitespace c = false := by
    intro c hc
    rcases List.mem_append.mp hc with hc | hc
    · exact (k.letter c hc).2
    · rcases List.mem_cons.mp hc with rfl | hc
      · decide
      · exact (hb c hc).2
  rw [trim_id htext]
  exact afterHash_literal (fun hc => (k.letter _ hc).1 rfl) fun hc => (hb _ hc).1 rfl

theorem Digits.not_mem {lo hi : Nat} (t : Digits lo hi) {c : Char} (h : c.isDigit = false) :
    c ∉ t.chars := fun hc => isDigit_ne (t.digit c hc) h rfl

theorem Digits.value_lt {lo hi : Nat} (t : Digits lo hi) : t.value < 10 ^ hi :=
  Nat.lt_of_lt_of_le (ofDigits_lt t.digit) (Nat.pow_le_pow_right (by decide) t.le_hi)

/-- Up to 18 digits are read as their number. -/
theorem Digits.intOr_eq {lo hi : Nat} (t : Digits lo hi) (hlo : 1 ≤ lo) (hhi : hi ≤ 18)
    (d : Int64) : (intOr d t.chars).toInt = t.value := by
  have hne : t.chars ≠ [] := by
    intro h
    have := t.lo_le
    rw [h, List.length_nil] at this
    omega
  have hlt : t.value < 2 ^ 63 := Nat.lt_of_lt_of_le t.value_lt
    (Nat.le_trans (Nat.pow_le_pow_right (by decide) hhi) (by decide))
  unfold intOr
  rw [parseI64_ofDigits hne t.digit, if_pos (show Nat.ofDigitChars _ _ _ < _ from hlt)]
  exact toInt_ofNat hlt

theorem DateText.clean (t : DateText) : Clean t.chars := by
  have hdash : '-' ≠ '#' ∧ isWhitespace '-' = false := by decide
  exact (clean_digits t.year.digit).append
    (.cons hdash ((clean_digits t.month.digit).append (.cons hdash (clean_digits t.day.digit))))

/-! ## Their values -/

/-- The days a date text stands for, by the formula. -/
def DateText.days (t : DateText) : Int := ymdDays t.year.value t.month.value t.day.value

theorem DateText.days_bounds (t : DateText) : -1000000 ≤ t.days ∧ t.days ≤ 5000000 := by
  have hy := t.year.value_lt
  have hm := t.month.value_lt
  have hd := t.day.value_lt
  unfold DateText.days ymdDays
  generalize t.year.value = y at *
  generalize t.month.value = m at *
  generalize t.day.value = d at *
  have hy' : -1 ≤ (if (m : Int) ≤ 2 then (y : Int) - 1 else y) ∧
      (if (m : Int) ≤ 2 then (y : Int) - 1 else y) ≤ 9999 := by
    split <;> omega
  have hm' : 0 ≤ (if (m : Int) ≤ 2 then (m : Int) + 9 else m - 3) ∧
      (if (m : Int) ≤ 2 then (m : Int) + 9 else m - 3) ≤ 96 := by
    split <;> omega
  dsimp only
  generalize (if (m : Int) ≤ 2 then (y : Int) - 1 else y) = y' at *
  generalize (if (m : Int) ≤ 2 then (m : Int) + 9 else m - 3) = m' at *
  have h4 := tdiv_within (b := 9999) 4 (show _ ≤ y' ∧ y' ≤ _ by omega)
  have h100 := tdiv_within (b := 9999) 100 (show _ ≤ y' ∧ y' ≤ _ by omega)
  have h400 := tdiv_within (b := 9999) 400 (show _ ≤ y' ∧ y' ≤ _ by omega)
  have h10 := tdiv_within (b := 30000) 10 (show _ ≤ m' * 306 + 5 ∧ m' * 306 + 5 ≤ _ by omega)
  clear hy hm
  omega

/-- The milliseconds of a date text. -/
theorem DateText.epochMs (t : DateText) :
    ymdToEpochMs (intOr 1970 t.year.chars) (intOr 1 t.month.chars) (intOr 1 t.day.chars) =
      .ok (Int64.ofInt (t.days * 86400000)) := by
  have hy := t.year.value_lt
  have hm := t.month.value_lt
  have hd := t.day.value_lt
  have hyear := t.year.intOr_eq (by decide) (by decide) 1970
  have hmonth := t.month.intOr_eq (by decide) (by decide) 1
  have hday := t.day.intOr_eq (by decide) (by decide) 1
  have hdays := t.days_bounds
  rw [ymdToEpochMs_eq (by omega) (by omega) (by omega), hyear, hmonth, hday]
  exact checkedI64_ok (by unfold DateText.days at hdays; omega)
    (by unfold DateText.days at hdays; omega)

theorem parse_date (k : Keyword) (t : DateText) :
    parseDateLiteral (dateLiteral k t) = .ok (Int64.ofInt (t.days * 86400000)) := by
  have hdash : '-'.isDigit = false := by decide
  have hsplit : splitOnChar '-' t.chars = [t.year.chars, t.month.chars, t.day.chars] := by
    rw [DateText.chars, splitOnChar_append _ (t.year.not_mem hdash),
      splitOnChar_append _ (t.month.not_mem hdash), splitOnChar_none (t.day.not_mem hdash)]
  unfold parseDateLiteral dateLiteral
  rw [String.toList_ofList, afterHash_trim k t.clean, hsplit]
  exact t.epochMs

theorem TimeText.clock_no {c : Char} (h : c.isDigit = false) (hc : c ≠ ':') (t : TimeText) :
    c ∉ t.clock := by
  unfold TimeText.clock
  simp only [List.mem_append, List.mem_cons, not_or]
  exact ⟨t.hours.not_mem h, hc, t.minutes.not_mem h, hc, t.seconds.not_mem h⟩

theorem TimeText.clean (t : TimeText) : Clean t.chars := by
  have hcolon : ':' ≠ '#' ∧ isWhitespace ':' = false := by decide
  have hclock : Clean t.clock := (clean_digits t.hours.digit).append
    (.cons hcolon ((clean_digits t.minutes.digit).append
      (.cons hcolon (clean_digits t.seconds.digit))))
  have hfraction := clean_digits t.fraction_digit
  unfold TimeText.chars
  split
  · exact hclock
  · rename_i h
    rw [h] at hfraction
    exact hclock.append (.cons (by decide) hfraction)

section

variable [F64Ops]

/-- The digits behind the point of a second. -/
def TimeText.real (t : TimeText) : F64 :=
  match t.fraction with
  | [] => F64.zero
  | c :: cs => realOrZero ('0' :: '.' :: c :: cs)

/-- A fraction of a second has at most a thousand milliseconds, whatever the
rounding. -/
structure FractionMillis : Prop where
  none : 0 ≤ (F64Ops.toInt (F64Ops.mul F64.zero (F64Ops.ofInt 1000))).toInt ∧
    (F64Ops.toInt (F64Ops.mul F64.zero (F64Ops.ofInt 1000))).toInt ≤ 1000
  digits : ∀ cs : List Char, (∀ c ∈ cs, c.isDigit = true) →
    0 ≤ (F64Ops.toInt (F64Ops.mul (realOrZero ('0' :: '.' :: cs)) (F64Ops.ofInt 1000))).toInt ∧
    (F64Ops.toInt (F64Ops.mul (realOrZero ('0' :: '.' :: cs)) (F64Ops.ofInt 1000))).toInt ≤ 1000

theorem FractionMillis.real (hf : FractionMillis) (t : TimeText) :
    0 ≤ (F64Ops.toInt (F64Ops.mul t.real (F64Ops.ofInt 1000))).toInt ∧
      (F64Ops.toInt (F64Ops.mul t.real (F64Ops.ofInt 1000))).toInt ≤ 1000 := by
  have hdigit := t.fraction_digit
  unfold TimeText.real
  split
  · exact hf.none
  · rename_i h
    rw [h] at hdigit
    exact hf.digits _ hdigit

/-- What is made of the clock and the fraction of a time. -/
def timeOfDay (time : List Char) (frac : F64) : Except Panic Int64 := do
  let parts := splitOnChar ':' time
  let part (i : Nat) : Int := (intOr 0 (parts[i]?.getD [])).toInt
  let h ← checkedI64 (part 0 * 3600000)
  let m ← checkedI64 (part 1 * 60000)
  let hm ← checkedI64 (h.toInt + m.toInt)
  let sec ← checkedI64 (part 2 * 1000)
  let hms ← checkedI64 (hm.toInt + sec.toInt)
  let total ← checkedI64
    (hms.toInt + (F64Ops.toInt (F64Ops.mul frac (F64Ops.ofInt 1000))).toInt)
  return Int64.ofInt (total.toInt % 86400000)

/-- A time is split at its point. -/
theorem parseTodBody_split (t : TimeText) : parseTodBody t.chars = timeOfDay t.clock t.real := by
  have hclock : ∀ c ∈ t.clock, (c != '.') = true := fun c hc => by
    rw [bne_iff_ne]
    exact fun he => t.clock_no (by decide) (by decide) (he ▸ hc)
  unfold parseTodBody TimeText.chars TimeText.real timeOfDay
  cases t.fraction with
  | nil =>
    have hdrop : t.clock.dropWhile (· != '.') = [] := by
      rw [← List.append_nil t.clock, List.dropWhile_append_of_pos hclock, List.dropWhile_nil]
    simp only [hdrop]
  | cons c cs =>
    have hdrop : (t.clock ++ '.' :: c :: cs).dropWhile (· != '.') = '.' :: c :: cs := by
      rw [List.dropWhile_append_of_pos hclock, List.dropWhile_cons_of_neg (by simp)]
    have htake : (t.clock ++ '.' :: c :: cs).takeWhile (· != '.') = t.clock := by
      rw [List.takeWhile_append_of_pos hclock, List.takeWhile_cons_of_neg (by simp),
        List.append_nil]
    simp only [hdrop, htake]

/-- The whole seconds of a time, in milliseconds. -/
def TimeText.clockMs (t : TimeText) : Int :=
  t.hours.value * 3600000 + t.minutes.value * 60000 + t.seconds.value * 1000

/-- The milliseconds of a fraction, computed in doubles. -/
def TimeText.fractionMs (t : TimeText) : Int :=
  (F64Ops.toInt (F64Ops.mul t.real (F64Ops.ofInt 1000))).toInt

/-- What a time of day is compiled to. -/
def TimeText.todMs (t : TimeText) : Int := (t.clockMs + t.fractionMs) % 86400000

/-- A time of day is within a day. -/
theorem TimeText.todMs_bounds (t : TimeText) : 0 ≤ t.todMs ∧ t.todMs < 86400000 := by
  unfold TimeText.todMs
  omega

theorem parse_tod (hf : FractionMillis) (t : TimeText) :
    parseTodBody t.chars = .ok (Int64.ofInt t.todMs) := by
  have hcolon : ':'.isDigit = false := by decide
  have hsplit : splitOnChar ':' t.clock = [t.hours.chars, t.minutes.chars, t.seconds.chars] := by
    rw [TimeText.clock, splitOnChar_append _ (t.hours.not_mem hcolon),
      splitOnChar_append _ (t.minutes.not_mem hcolon), splitOnChar_none (t.seconds.not_mem hcolon)]
  have hh := t.hours.value_lt
  have hm := t.minutes.value_lt
  have hs := t.seconds.value_lt
  have hreal := hf.real t
  rw [parseTodBody_split]
  unfold timeOfDay
  simp only [hsplit, List.getElem?_cons_zero, List.getElem?_cons_succ, Option.getD_some]
  rw [t.hours.intOr_eq (by decide) (by decide), t.minutes.intOr_eq (by decide) (by decide),
    t.seconds.intOr_eq (by decide) (by decide)]
  simp (disch := omega) only [checkedI64_bind, toInt_checked]
  rfl

theorem parse_dt (hf : FractionMillis) (k : Keyword) (d : DateText) (t : TimeText) :
    parseDtLiteral (dtLiteral k d t) = .ok (Int64.ofInt (d.days * 86400000 + t.todMs)) := by
  have hdash : '-'.isDigit = false := by decide
  have htod := parse_tod hf t
  obtain ⟨h0, hlt⟩ := t.todMs_bounds
  have hdays := d.days_bounds
  have hsplit : splitN '-' 3 (d.chars ++ '-' :: t.chars) =
      [d.year.chars, d.month.chars, d.day.chars, t.chars] := by
    rw [DateText.chars, List.append_assoc, List.cons_append, List.append_assoc, List.cons_append,
      splitN_append _ _ (d.year.not_mem hdash), splitN_append _ _ (d.month.not_mem hdash),
      splitN_append _ _ (d.day.not_mem hdash), splitN]
  have hbody : Clean (d.chars ++ '-' :: t.chars) := d.clean.append (.cons (by decide) t.clean)
  have hletters : ∀ c ∈ ['T', 'O', 'D'], c ≠ '#' ∧ isWhitespace c = false := by
    intro c hc
    simp only [List.mem_cons, List.not_mem_nil, or_false] at hc
    rcases hc with rfl | rfl | rfl <;> decide
  have htag : afterHash (trim ("TOD#".toList ++ t.chars)) = t.chars :=
    afterHash_trim ⟨['T', 'O', 'D'], hletters⟩ t.clean
  unfold parseDtLiteral dtLiteral
  rw [String.toList_ofList, afterHash_trim k hbody, hsplit]
  simp only [d.epochMs, htag, htod]
  show checkedI64 _ = _
  rw [toInt_checked (by omega) (by omega), toInt_checked (by omega) (by omega)]
  exact checkedI64_ok (by omega) (by omega)

end

end RustPlc.Compiler

namespace RustPlc.Engine

open RustPlc.Ir RustPlc.Syntax RustPlc.Compiler RustPlc.Core RustPlc.Analysis

/-! ## The laws -/

/-- 1970-01-01 -/
def epoch : Date :=
  ⟨1970, 1, 1, by decide, Nat.succ_pos 0, Nat.succ_pos 11, Nat.succ_pos 0, by decide⟩

theorem epoch_number : epoch.dayNumber = 719163 := by decide +kernel

/-- The days from 1970-01-01 to a date, negative in front of it. -/
def sinceEpoch (d : Date) : Int := d.dayNumber - epoch.dayNumber

/-- 1970-01-01 was a Thursday. -/
theorem weekday_isWeek : Date.IsWeek epoch 4 Date.weekday where
  anchored := by
    rw [Date.weekday, epoch_number]
  follows := Date.weekday_next
  bounded _ := Nat.mod_lt _ (by decide)

/-- What `ymd_to_epoch_ms` makes of a date. -/
def dateMs (d : Date) : Except Panic Int64 :=
  ymdToEpochMs (Int64.ofNat d.year) (Int64.ofNat d.month) (Int64.ofNat d.day)

/-- The milliseconds of a date fit `i64`. -/
def DateFits (d : Date) : Prop := 86400000 * sinceEpoch d ≤ 9223372036854775807

/-- So does the first moment of the day of `x`. -/
def DayFits (x : Int64) : Prop := -9223372036854775808 ≤ x.toInt / 86400000 * 86400000

section

variable [F64Ops]

/-- The laws of the calendar functions, for a date and a DT value. -/
structure CalendarRight (d : Date) (x : Int64) : Prop where
  /-- A date is the milliseconds of the days since 1970-01-01. -/
  epochMs : ∃ v, dateMs d = .ok v ∧ v.toInt = 86400000 * sinceEpoch d
  /-- A later date is a greater value. -/
  increasing : ∀ e : Date, d.lt e → DateFits e →
    ∃ v w, dateMs d = .ok v ∧ dateMs e = .ok w ∧ v.toInt < w.toInt
  /-- `DAY_OF_WEEK` of the literal is the day of the week, with Sunday as 0. -/
  dayOfWeek : ∀ (k : Keyword) (t : DateText), t.Denotes d → ∀ W, Date.IsWeek epoch 4 W →
    ∃ v, parseDateLiteral (dateLiteral k t) = .ok v ∧ weekday (.time v) = .int (Int64.ofNat (W d))
  /-- `CONCAT_DATE_TOD(DT_TO_DATE(x), DT_TO_TOD(x)) = x` -/
  concat : ∃ v, extractDate (.time x) = .ok v ∧ addValues v (wrapTod (.time x)) = .ok (.time x)
  /-- `DT_TO_TOD(x)` is a time of day. -/
  timeOfDay : ∃ t, wrapTod (.time x) = .time t ∧ 0 ≤ t.toInt ∧ t.toInt ≤ 86399999
  /-- `DT_TO_DATE` of a literal is the literal of its date. -/
  literal : ∀ (k k' : Keyword) (t : DateText) (c : TimeText), ∃ y v,
    parseDtLiteral (dtLiteral k t c) = .ok y ∧ parseDateLiteral (dateLiteral k' t) = .ok v ∧
      extractDate (.time y) = .ok (.time v)

end

theorem sinceEpoch_eq (d : Date) : sinceEpoch d = ymdDays d.year d.month d.day := by
  rw [ymdDays_eq, sinceEpoch, epoch_number]
  rfl

theorem dayNumber_year (d : Date) : 365 * ((d.year : Int) - 1) < d.dayNumber := by
  have hyear := d.year_pos
  have hbounds := d.dayNumber_bounds
  have hprev := daysTo_eq (d.year - 1)
  have hcast : ((d.year - 1 : Nat) : Int) = d.year - 1 := by omega
  rw [hcast] at hprev
  omega

/-- A date that fits has its milliseconds. -/
theorem dateMs_eq {d : Date} (h : DateFits d) :
    ∃ v, dateMs d = .ok v ∧ v.toInt = 86400000 * sinceEpoch d := by
  have hyear := dayNumber_year d
  have hpos : 0 < d.dayNumber := by have := d.dayNumber_bounds; omega
  have hmonth := d.month_le
  have hday := Nat.le_trans d.day_le (monthDays_bounds d.year d.month).2
  have hsince := epoch_number
  have hdef : sinceEpoch d = d.dayNumber - 719163 := by rw [sinceEpoch, hsince]; rfl
  unfold DateFits at h
  have hy : (Int64.ofNat d.year).toInt = d.year := toInt_ofNat (by omega)
  have hm : (Int64.ofNat d.month).toInt = d.month := toInt_ofNat (by omega)
  have hd : (Int64.ofNat d.day).toInt = d.day := toInt_ofNat (by omega)
  unfold dateMs
  rw [ymdToEpochMs_eq (by omega) (by omega) (by omega), hy, hm, hd, ← sinceEpoch_eq]
  refine ⟨_, checkedI64_ok (by omega) (by omega), ?_⟩
  rw [toInt_checked (by omega) (by omega), Int.mul_comm]

section

variable [F64Ops]

theorem wrapTod_eq (x : Int64) : wrapTod (.time x) = .time (Int64.ofInt (x.toInt % 86400000)) :=
  rfl

theorem extractDate_eq (x : Int64) : extractDate (.time x) =
    (checkedI64 (x.toInt / 86400000 * 86400000)).map .time := rfl

/-- The date and the time of day of a value make up the value. -/
theorem concat_iff (x : Int64) :
    (∃ v, extractDate (.time x) = .ok v ∧ addValues v (wrapTod (.time x)) = .ok (.time x)) ↔
      DayFits x := by
  have hx := toInt_word x
  unfold DayFits
  rw [extractDate_eq, wrapTod_eq]
  constructor
  · intro h
    obtain ⟨v, hv, -⟩ := h
    by_contra hlow
    rw [checkedI64, if_neg (by omega)] at hv
    cases hv
  · intro h
    rw [checkedI64_ok h (by omega)]
    refine ⟨_, rfl, ?_⟩
    show Except.ok (Value.time (Int64.ofInt _ + Int64.ofInt _)) = _
    rw [← Int64.ofInt_add, Int.ediv_mul_add_emod, Int64.ofInt_toInt]

theorem literal_date (hf : FractionMillis) (k k' : Keyword) (t : DateText) (c : TimeText) :
    ∃ y v, parseDtLiteral (dtLiteral k t c) = .ok y ∧
      parseDateLiteral (dateLiteral k' t) = .ok v ∧ extractDate (.time y) = .ok (.time v) := by
  obtain ⟨h0, hlt⟩ := c.todMs_bounds
  have hdays := t.days_bounds
  refine ⟨_, _, parse_dt hf k t c, parse_date k' t, ?_⟩
  have hfloor : (t.days * 86400000 + c.todMs) / 86400000 = t.days := by omega
  rw [extractDate_eq, toInt_checked (by omega) (by omega), hfloor,
    checkedI64_ok (by omega) (by omega)]
  rfl

/-- The weekday of a date that fits. -/
theorem weekday_literal (k : Keyword) {t : DateText} {d : Date} (h : t.Denotes d)
    {W : Date → Nat} (hW : Date.IsWeek epoch 4 W) :
    ∃ v, parseDateLiteral (dateLiteral k t) = .ok v ∧
      weekday (.time v) = .int (Int64.ofNat (W d)) := by
  obtain ⟨hy, hm, hd⟩ := h
  have hdays := t.days_bounds
  have hnumber : t.days = d.dayNumber - 719163 := by
    rw [DateText.days, hy, hm, hd, ymdDays_eq]
  refine ⟨_, parse_date k t, ?_⟩
  rw [Date.week_unique hW weekday_isWeek d]
  show Value.int (Int64.ofInt (((Int64.ofInt _).toInt / 86400000 + 4) % 7)) = _
  rw [toInt_checked (by omega) (by omega)]
  have hmod : (t.days * 86400000 / 86400000 + 4) % 7 = (d.weekday : Nat) := by
    unfold Date.weekday
    omega
  rw [hmod, Int64.ofInt_eq_ofNat]

/-- **The calendar functions are right exactly in the range of `i64`.** -/
theorem calendar_right_iff (hf : FractionMillis) (d : Date) (x : Int64) :
    CalendarRight d x ↔ DateFits d ∧ DayFits x := by
  constructor
  · intro h
    obtain ⟨v, -, hv⟩ := h.epochMs
    have hword := toInt_word v
    exact ⟨by unfold DateFits; omega, (concat_iff x).mp h.concat⟩
  · intro h
    obtain ⟨hd, hx⟩ := h
    refine ⟨dateMs_eq hd, ?_, ?_, (concat_iff x).mpr hx, ?_, ?_⟩
    · intro e hlt he
      obtain ⟨v, hv, hvn⟩ := dateMs_eq hd
      obtain ⟨w, hw, hwn⟩ := dateMs_eq he
      have hnumber := Date.dayNumber_lt.mpr hlt
      unfold sinceEpoch at hvn hwn
      exact ⟨v, w, hv, hw, by omega⟩
    · exact fun k t ht W hW => weekday_literal k ht hW
    · refine ⟨_, wrapTod_eq x, ?_⟩
      rw [toInt_checked (by omega) (by omega)]
      omega
    · exact fun k k' t c => literal_date hf k k' t c

end

/-- The default arithmetic rounds every fraction to nothing. -/
theorem default_fractions : @FractionMillis default :=
  @FractionMillis.mk default (by decide) fun _ _ =>
    (by decide : 0 ≤ (0 : Int64).toInt ∧ (0 : Int64).toInt ≤ 1000)

/-- 2024-02-29 and a moment of the year 1969. -/
theorem leap_day_right :
    @CalendarRight default ⟨2024, 2, 29, by decide, by decide, by decide, by decide, by decide⟩
        (-1) ↔
      DateFits ⟨2024, 2, 29, by decide, by decide, by decide, by decide, by decide⟩ ∧
        DayFits (-1) :=
  @calendar_right_iff default default_fractions _ _

/-! ## The first day -/

/-- `d := DT_TO_DATE(LINT_TO_DT(-n));` -/
def earlySource (n : Int64) : SourceFile := ⟨[
  .program ⟨"Main", [.of [.plain "d" (.elementary .date)]],
    [.assign "d" (.functionCall ["DT_TO_DATE"]
      [.positional (.functionCall ["LINT_TO_DT"]
        [.positional (.unary .neg (.ofInt n) noRange)] noRange)] noRange)]⟩]⟩

/-- The earliest moments have no date: an accepted program asks for it, and the
process panics. -/
theorem first_day_panics :
    ¬ @CalendarRight default epoch (-9223372036854775807) ∧
      accepts (earlySource 9223372036854775807) = true ∧
      @yields default (earlySource 9223372036854775807) (fun m =>
        decide (@mainResult default 100 m = some (.error (.panic .arithmetic)))) = true := by
  refine ⟨fun h => ?_, by decide +kernel, by decide +kernel⟩
  have hday := (@concat_iff default _).mp (@CalendarRight.concat default _ _ h)
  exact absurd hday (by unfold DayFits; decide)

end RustPlc.Engine
