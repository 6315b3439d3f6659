import Mathlib.Tactic.Ring

/-!
# The Gregorian calendar

The proleptic Gregorian calendar from 1 January of the year 1 on. The days are
counted one by one: `Date.next` is the day after a date, and the number of a
date is one more than the number of the day before it. A formula for the
number (`dayNumber_eq`) has to agree with this count.

Results:
* `Date.dayNumber_next`: the number counts days;
* `Date.dayNumber_lt`: it has the order of the dates;
* `daysTo_eq`: the number of days in the first years, in closed form;
* `Date.week_unique`: the days of the week follow from one of them.
-/
namespace RustPlc.Core

/-- Every fourth year, but a century only when it is a fourth one. -/
def isLeap (year : Nat) : Bool := decide (year % 4 = 0 ∧ (year % 100 ≠ 0 ∨ year % 400 = 0))

def yearDays (year : Nat) : Nat := if isLeap year then 366 else 365

def monthDays (year : Nat) : Nat → Nat
  | 2 => if isLeap year then 29 else 28
  | 4 | 6 | 9 | 11 => 30
  | _ => 31

/-- The days of the years `1..n`. -/
def daysTo : Nat → Nat
  | 0 => 0
  | n + 1 => daysTo n + yearDays (n + 1)

/-- The days of the months `1..m` of a year. -/
def monthsTo (year : Nat) : Nat → Nat
  | 0 => 0
  | m + 1 => monthsTo year m + monthDays year (m + 1)

/-- A date of the calendar. -/
@[ext]
structure Date where
  year : Nat
  month : Nat
  day : Nat
  year_pos : 1 ≤ year
  month_pos : 1 ≤ month
  month_le : month ≤ 12
  day_pos : 1 ≤ day
  day_le : day ≤ monthDays year month
  deriving DecidableEq

theorem monthDays_bounds (year month : Nat) :
    1 ≤ monthDays year month ∧ monthDays year month ≤ 31 := by
  unfold monthDays
  split
  · cases isLeap year <;> decide
  all_goals decide

theorem monthDays_pos (year month : Nat) : 1 ≤ monthDays year month :=
  (monthDays_bounds year month).1

/-- The months make up the year. -/
theorem monthsTo_year (year : Nat) : monthsTo year 12 = yearDays year := by
  simp only [monthsTo, monthDays, yearDays]
  cases isLeap year <;> rfl

theorem monthsTo_mono (year : Nat) {m n : Nat} (h : m ≤ n) : monthsTo year m ≤ monthsTo year n := by
  induction h with
  | refl => exact Nat.le_refl _
  | step _ ih => exact Nat.le_trans ih (Nat.le_add_right _ _)

theorem daysTo_mono {m n : Nat} (h : m ≤ n) : daysTo m ≤ daysTo n := by
  induction h with
  | refl => exact Nat.le_refl _
  | step _ ih => exact Nat.le_trans ih (Nat.le_add_right _ _)

/-- **The days of the first years**: a leap day every fourth year, except
three centuries of four. -/
theorem daysTo_eq (n : Nat) : (daysTo n : Int) = 365 * n + n / 4 - n / 100 + n / 400 := by
  induction n with
  | zero => rfl
  | succ n ih =>
    have hyear : (yearDays (n + 1) : Int) = 365 + ((n + 1 : Nat) / 4 - n / 4 : Int) -
        ((n + 1 : Nat) / 100 - n / 100 : Int) + ((n + 1 : Nat) / 400 - n / 400 : Int) := by
      unfold yearDays isLeap
      split <;> rename_i h <;> simp only [decide_eq_true_eq] at h <;> omega
    rw [daysTo, Nat.cast_add, ih, hyear]
    push_cast
    ring

namespace Date

/-- The number of a date; 1 January of the year 1 has the number 1. -/
def dayNumber (d : Date) : Nat := daysTo (d.year - 1) + monthsTo d.year (d.month - 1) + d.day

/-- The order of dates. -/
def lt (a b : Date) : Prop :=
  a.year < b.year ∨ a.year = b.year ∧
    (a.month < b.month ∨ a.month = b.month ∧ a.day < b.day)

/-- The day after a date. -/
def next (d : Date) : Date :=
  if hday : d.day < monthDays d.year d.month then
    { d with day := d.day + 1, day_pos := by omega, day_le := hday }
  else if hmonth : d.month < 12 then
    { d with month := d.month + 1, day := 1, month_pos := by omega, month_le := hmonth,
             day_pos := Nat.le_refl 1, day_le := monthDays_pos _ _ }
  else
    { year := d.year + 1, month := 1, day := 1, year_pos := by omega, month_pos := Nat.le_refl 1,
      month_le := by decide, day_pos := Nat.le_refl 1, day_le := monthDays_pos _ _ }

theorem monthsTo_month (d : Date) :
    monthsTo d.year d.month = monthsTo d.year (d.month - 1) + monthDays d.year d.month := by
  have h := d.month_pos
  obtain ⟨m, hm⟩ : ∃ m, d.month = m + 1 := ⟨d.month - 1, by omega⟩
  rw [hm, monthsTo, Nat.add_sub_cancel]

theorem daysTo_year (d : Date) : daysTo d.year = daysTo (d.year - 1) + yearDays d.year := by
  have h := d.year_pos
  obtain ⟨y, hy⟩ : ∃ y, d.year = y + 1 := ⟨d.year - 1, by omega⟩
  rw [hy, daysTo, Nat.add_sub_cancel]

/-- **The number counts the days.** -/
theorem dayNumber_next (d : Date) : d.next.dayNumber = d.dayNumber + 1 := by
  have hyear := d.year_pos
  have hmonth := d.month_pos
  have hday := d.day_le
  unfold next dayNumber
  split
  · rfl
  · rename_i hlast
    have hstep := d.monthsTo_month
    split
    · show daysTo (d.year - 1) + monthsTo d.year (d.month + 1 - 1) + 1 = _
      rw [Nat.add_sub_cancel]
      omega
    · rename_i hdec
      have htwelve : d.month = 12 := by
        have := d.month_le
        omega
      have hwhole := monthsTo_year d.year
      have hnext := d.daysTo_year
      show daysTo (d.year + 1 - 1) + 0 + 1 = _
      rw [Nat.add_sub_cancel, hnext, ← hwhole, ← htwelve, hstep]
      omega

/-- The days of a year before a date, and the date itself. -/
theorem dayNumber_bounds (d : Date) :
    daysTo (d.year - 1) < d.dayNumber ∧ d.dayNumber ≤ daysTo d.year := by
  have hpos := d.day_pos
  have hday := d.day_le
  have hmonth := monthsTo_mono d.year d.month_le
  have hwhole := monthsTo_year d.year
  have hstep := d.monthsTo_month
  have hyear := d.daysTo_year
  unfold dayNumber
  omega

theorem dayNumber_lt_of_lt {a b : Date} (h : a.lt b) : a.dayNumber < b.dayNumber := by
  have ha := a.dayNumber_bounds
  have hb := b.dayNumber_bounds
  rcases h with hyear | ⟨hyear, hmonth | ⟨hmonth, hday⟩⟩
  · have := daysTo_mono (show a.year ≤ b.year - 1 by omega)
    omega
  · have hstep := a.monthsTo_month
    have hmono := monthsTo_mono a.year (show a.month ≤ b.month - 1 by omega)
    have hle := a.day_le
    have hpos := b.day_pos
    unfold dayNumber
    rw [← hyear]
    omega
  · unfold dayNumber
    rw [← hyear, ← hmonth]
    omega

theorem lt_or_eq_or_lt (a b : Date) : a.lt b ∨ a = b ∨ b.lt a := by
  unfold lt
  by_cases hyear : a.year = b.year
  · by_cases hmonth : a.month = b.month
    · by_cases hday : a.day = b.day
      · exact .inr (.inl (Date.ext hyear hmonth hday))
      · omega
    · omega
  · omega

/-- The number has the order of the dates. -/
theorem dayNumber_lt {a b : Date} : a.dayNumber < b.dayNumber ↔ a.lt b := by
  refine ⟨fun h => ?_, dayNumber_lt_of_lt⟩
  rcases lt_or_eq_or_lt a b with hab | rfl | hba
  · exact hab
  · omega
  · have := dayNumber_lt_of_lt hba
    omega

/-! ## The week -/

/-- A numbering of the days of the week from Sunday on: `reference` has the day
`anchor`, and the days follow one another. -/
structure IsWeek (reference : Date) (anchor : Nat) (W : Date → Nat) : Prop where
  anchored : W reference = anchor
  follows : ∀ d, W d.next = (W d + 1) % 7
  bounded : ∀ d, W d < 7

/-- 1 January of the year 1 was a Monday. -/
def weekday (d : Date) : Nat := d.dayNumber % 7

theorem weekday_next (d : Date) : d.next.weekday = (d.weekday + 1) % 7 := by
  unfold weekday
  rw [dayNumber_next]
  omega

theorem dayNumber_inj {a b : Date} (h : a.dayNumber = b.dayNumber) : a = b := by
  rcases lt_or_eq_or_lt a b with hab | hab | hba
  · have := dayNumber_lt_of_lt hab
    omega
  · exact hab
  · have := dayNumber_lt_of_lt hba
    omega

/-- Two numberings of the week that agree on one date agree on every date. -/
theorem week_unique {reference : Date} {anchor : Nat} {V W : Date → Nat}
    (hV : IsWeek reference anchor V) (hW : IsWeek reference anchor W) (d : Date) : V d = W d := by
  have hstep : ∀ e : Date, V e = W e ↔ V e.next = W e.next := by
    intro e
    have h1 := hV.bounded e
    have h2 := hW.bounded e
    rw [hV.follows, hW.follows]
    omega
  -- from a date to the `k`-th date after it
  have hlater : ∀ (k : Nat) (a b : Date), b.dayNumber = a.dayNumber + k →
      (V a = W a ↔ V b = W b) := by
    intro k
    induction k with
    | zero =>
      intro a b h
      rw [dayNumber_inj h]
    | succ k ih =>
      intro a b h
      rw [hstep a]
      exact ih a.next b (by rw [dayNumber_next]; omega)
  have href : V reference = W reference := by rw [hV.anchored, hW.anchored]
  rcases Nat.le_total reference.dayNumber d.dayNumber with hle | hle
  · exact (hlater (d.dayNumber - reference.dayNumber) reference d (by omega)).mp href
  · exact (hlater (reference.dayNumber - d.dayNumber) d reference (by omega)).mpr href

end Date

end RustPlc.Core
