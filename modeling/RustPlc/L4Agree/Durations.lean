import Mathlib
import RustPlc.L4Agree.Dates

/-!
# Durations

The loop of `parse_time_literal` (crates/st-compiler/src/compile.rs:1677-1719)
goes over the letters in front of the `#`, a minus sign and the second letter
of `ns` like over units it does not know: they add nothing. Each part with a
unit it knows adds a number of whole milliseconds.

Results:
* `timeLoop_idle`: what stands between the parts adds nothing;
* `parse_duration`: a TIME literal is the sum of its parts, whatever its sign.
-/
namespace RustPlc.Compiler

open RustPlc.Ir RustPlc.Syntax

/-! ## Doubles -/

/-- The digits and the sign of an exponent, with its letter. -/
inductive Exponent : List Char → Prop
  | none : Exponent []
  | some {e : Char} {sign ds : List Char} (he : e = 'e' ∨ e = 'E')
    (hsign : sign ∈ [[], ['+'], ['-']]) (hne : ds ≠ []) (hds : ∀ c ∈ ds, c.isDigit = true) :
    Exponent (e :: (sign ++ ds))

/-- A number without a sign. -/
inductive Decimal : List Char → Prop
  | whole {ds : List Char} (hne : ds ≠ []) (hds : ∀ c ∈ ds, c.isDigit = true) : Decimal ds
  | point {ds fs es : List Char} (hne : ds ≠ []) (hds : ∀ c ∈ ds, c.isDigit = true)
    (hfs : ∀ c ∈ fs, c.isDigit = true) (hes : Exponent es) : Decimal (ds ++ '.' :: (fs ++ es))

/-- How `parse::<f64>`, products, quotients and `as i64` behave. -/
structure RealLaws [F64Ops] : Prop where
  empty : F64Ops.parse "" = none
  marked : ∀ s, '_' ∈ s.toList ∨ '#' ∈ s.toList → F64Ops.parse s = none
  decimal : ∀ cs, Decimal cs → ∃ r, F64Ops.parse (String.ofList cs) = some r
  zero : F64Ops.toInt F64.zero = 0
  zero_mul : ∀ k, F64Ops.toInt (F64Ops.mul F64.zero (F64Ops.ofInt k)) = 0
  zero_div : ∀ k, 0 < k → F64Ops.toInt (F64Ops.div F64.zero (F64Ops.ofInt k)) = 0
  nonneg : ∀ cs, Decimal cs → 0 ≤ (F64Ops.toInt (realOrZero cs)).toInt
  mul_nonneg : ∀ cs k, Decimal cs → 0 ≤ k →
    0 ≤ (F64Ops.toInt (F64Ops.mul (realOrZero cs) (F64Ops.ofInt k))).toInt
  div_nonneg : ∀ cs k, Decimal cs → 0 < k →
    0 ≤ (F64Ops.toInt (F64Ops.div (realOrZero cs) (F64Ops.ofInt k))).toInt
  fractions : FractionMillis

/-! ## Units -/

/-- The units of IEC 61131-3. -/
inductive DurationUnit where
  | day | hour | minute | second | milli | micro | nano
  deriving DecidableEq, Repr

namespace DurationUnit

def letters : DurationUnit → List Char
  | day => ['d']
  | hour => ['h']
  | minute => ['m']
  | second => ['s']
  | milli => ['m', 's']
  | micro => ['u', 's']
  | nano => ['n', 's']

def all : List DurationUnit := [day, hour, minute, second, milli, micro, nano]

/-- The length in milliseconds. -/
def millis : DurationUnit → ℚ
  | day => 86400000
  | hour => 3600000
  | minute => 60000
  | second => 1000
  | milli => 1
  | micro => 1 / 1000
  | nano => 1 / 1000000

/-- A number of units in whole milliseconds, computed in doubles; nanoseconds
are not counted. -/
def doubleMs [F64Ops] (num : F64) : DurationUnit → Int64
  | day => F64Ops.toInt (F64Ops.mul num (F64Ops.ofInt 86400000))
  | hour => F64Ops.toInt (F64Ops.mul num (F64Ops.ofInt 3600000))
  | minute => F64Ops.toInt (F64Ops.mul num (F64Ops.ofInt 60000))
  | second => F64Ops.toInt (F64Ops.mul num (F64Ops.ofInt 1000))
  | milli => F64Ops.toInt num
  | micro => F64Ops.toInt (F64Ops.div num (F64Ops.ofInt 1000))
  | nano => 0

end DurationUnit

/-- A digit, a point or an underscore: what the loop takes for part of a number. -/
def inNumber (c : Char) : Bool := c.isDigit || c == '.' || c == '_'

/-- Nothing, or something that starts with a digit. -/
def Resumes (cs : List Char) : Prop := cs = [] ∨ ∃ d ds, cs = d :: ds ∧ d.isDigit = true

/-! ## The loop -/

theorem checkedI64_zero (total : Int64) : checkedI64 (total.toInt + (0 : Int64).toInt) = .ok total :=
  checkedI64_iff.mpr (by simp)

theorem toLower_ne_s {c : Char} (h : c.isDigit = true) : c.toLower ≠ 's' := by
  rw [toLower_digit h]
  exact isDigit_ne h (by decide)

section

variable [F64Ops] {c c' : Char} {cs rest buf : List Char} {total : Int64}

/-- The letters are `ms` or `us`. -/
def IsTwoLetters (c c' : Char) : Prop :=
  [c.toLower, c'.toLower] = ['m', 's'] ∨ [c.toLower, c'.toLower] = ['u', 's']

/-- One character of several, by what it is. -/
theorem timeLoop_cons₂ : timeLoop (c :: c' :: cs) buf total =
    if inNumber c then timeLoop (c' :: cs) (if c == '_' then buf else buf ++ [c]) total
    else if [c.toLower, c'.toLower] = ['m', 's'] ∨ [c.toLower, c'.toLower] = ['u', 's'] then
      checkedI64 (total.toInt + (unitMs (realOrZero buf) [c.toLower, c'.toLower]).toInt) >>=
        timeLoop cs []
    else
      checkedI64 (total.toInt + (unitMs (realOrZero buf) [c.toLower]).toInt) >>=
        timeLoop (c' :: cs) [] := rfl

theorem timeLoop_last (h : inNumber c = false) : timeLoop [c] buf total =
    checkedI64 (total.toInt + (unitMs (realOrZero buf) [c.toLower]).toInt) >>=
      timeLoop [] [] := by
  have hone : timeLoop [c] buf total =
      if inNumber c then timeLoop [] (if c == '_' then buf else buf ++ [c]) total
      else checkedI64 (total.toInt + (unitMs (realOrZero buf) [c.toLower]).toInt) >>=
        timeLoop [] [] := rfl
  simp only [hone, h, Bool.false_eq_true, if_false]

theorem timeLoop_two (h : inNumber c = false) (h2 : IsTwoLetters c c') :
    timeLoop (c :: c' :: cs) buf total =
      checkedI64 (total.toInt + (unitMs (realOrZero buf) [c.toLower, c'.toLower]).toInt) >>=
        timeLoop cs [] := by
  unfold IsTwoLetters at h2
  simp only [timeLoop_cons₂, h, Bool.false_eq_true, if_false, if_pos h2]

theorem timeLoop_one (h : inNumber c = false) (h2 : ¬ IsTwoLetters c c') :
    timeLoop (c :: c' :: cs) buf total =
      checkedI64 (total.toInt + (unitMs (realOrZero buf) [c.toLower]).toInt) >>=
        timeLoop (c' :: cs) [] := by
  unfold IsTwoLetters at h2
  simp only [timeLoop_cons₂, h, Bool.false_eq_true, if_false, if_neg h2]

/-- A letter in front of the next part or of the end is a unit of its own. -/
theorem timeLoop_single (h : inNumber c = false) (hrest : Resumes rest) :
    timeLoop (c :: rest) buf total =
      checkedI64 (total.toInt + (unitMs (realOrZero buf) [c.toLower]).toInt) >>=
        timeLoop rest [] := by
  rcases hrest with rfl | ⟨d, ds, rfl, hd⟩
  · exact timeLoop_last h
  · refine timeLoop_one h ?_
    simp [IsTwoLetters, toLower_ne_s hd]

theorem timeLoop_numeric (h : inNumber c = true) : timeLoop (c :: c' :: cs) buf total =
    timeLoop (c' :: cs) (if c == '_' then buf else buf ++ [c]) total := by
  rw [timeLoop_cons₂, if_pos h]

theorem realOrZero_nil (hr : RealLaws) : realOrZero [] = F64.zero := by
  rw [realOrZero, show String.ofList [] = "" from rfl, hr.empty]
  rfl

/-- Without digits in front of it a unit adds nothing. -/
theorem unitMs_nil (hr : RealLaws) (unit : List Char) : unitMs (realOrZero []) unit = 0 := by
  rw [realOrZero_nil hr]
  unfold unitMs
  simp only [hr.zero, hr.zero_mul, hr.zero_div 1000 (by decide), ite_self]

theorem checkedI64_nil (hr : RealLaws) (unit : List Char) :
    checkedI64 (total.toInt + (unitMs (realOrZero []) unit).toInt) = .ok total := by
  rw [unitMs_nil hr, checkedI64_zero]

/-- What stands between the parts adds nothing. -/
theorem timeLoop_idle (hr : RealLaws) (hrest : Resumes rest) : ∀ {ls : List Char},
    (∀ c ∈ ls, inNumber c = false) → timeLoop (ls ++ rest) [] total = timeLoop rest [] total
  | [], _ => rfl
  | [c], h => by
    rw [List.singleton_append, timeLoop_single (h c List.mem_cons_self) hrest, checkedI64_nil hr]
    rfl
  | c :: c' :: ls, h => by
    have hc := h c List.mem_cons_self
    have hls := fun d hd => h d (List.mem_cons_of_mem c hd)
    rw [List.cons_append, List.cons_append]
    by_cases h2 : IsTwoLetters c c'
    · rw [timeLoop_two hc h2, checkedI64_nil hr]
      exact timeLoop_idle hr hrest fun d hd => hls d (List.mem_cons_of_mem c' hd)
    · rw [timeLoop_one hc h2, checkedI64_nil hr]
      exact timeLoop_idle hr hrest hls

/-- The digits of a number go into the buffer, without underscores. -/
theorem timeLoop_number : ∀ {num buf : List Char}, (∀ d ∈ num, inNumber d = true) →
    timeLoop (num ++ c :: rest) buf total =
      timeLoop (c :: rest) (buf ++ num.filter (· ≠ '_')) total
  | [], buf, _ => by rw [List.nil_append, List.filter_nil, List.append_nil]
  | d :: num, buf, h => by
    have hd := h d List.mem_cons_self
    have hnum := fun d hd => h d (List.mem_cons_of_mem _ hd)
    obtain ⟨e, es, he⟩ : ∃ e es, num ++ c :: rest = e :: es := by
      cases num with
      | nil => exact ⟨c, rest, rfl⟩
      | cons e es => exact ⟨e, _, rfl⟩
    rw [List.cons_append, he, timeLoop_numeric hd, ← he, timeLoop_number hnum]
    by_cases hu : d = '_'
    · simp [hu]
    · simp [hu]

theorem unitMs_letters (num : F64) {u : DurationUnit} (hu : u ≠ .nano) :
    unitMs num u.letters = u.doubleMs num := by
  cases u with
  | nano => exact absurd rfl hu
  | day | hour | minute | second | milli | micro =>
    simp [unitMs, DurationUnit.letters, DurationUnit.doubleMs]

theorem unitMs_n (num : F64) : unitMs num ['n'] = 0 := by simp [unitMs]

/-- A unit after a number adds its milliseconds. -/
theorem timeLoop_unit (hr : RealLaws) (hrest : Resumes rest) (u : DurationUnit) {ls : List Char}
    (hls : ls.map Char.toLower = u.letters) (hn : ∀ c ∈ ls, inNumber c = false) :
    timeLoop (ls ++ rest) buf total =
      checkedI64 (total.toInt + (u.doubleMs (realOrZero buf)).toInt) >>= timeLoop rest [] := by
  have hone {x : Char} (hx : ls.map Char.toLower = [x]) : timeLoop (ls ++ rest) buf total =
      checkedI64 (total.toInt + (unitMs (realOrZero buf) [x]).toInt) >>= timeLoop rest [] := by
    obtain ⟨c, rfl, hc⟩ := List.map_eq_singleton_iff.mp hx
    rw [← hc]
    exact timeLoop_single (hn c List.mem_cons_self) hrest
  have htwo {x y : Char} (hx : ls.map Char.toLower = [x, y]) :
      ∃ c c', ls = [c, c'] ∧ c.toLower = x ∧ c'.toLower = y := by
    obtain ⟨c, l, rfl, hc, hl⟩ := List.map_eq_cons_iff.mp hx
    obtain ⟨c', rfl, hc'⟩ := List.map_eq_singleton_iff.mp hl
    exact ⟨c, c', rfl, hc, hc'⟩
  cases u with
  | day | hour | minute | second =>
    rw [hone hls, ← unitMs_letters _ (by decide)]
    rfl
  | milli | micro =>
    obtain ⟨c, c', rfl, hc, hc'⟩ := htwo hls
    have h2 : IsTwoLetters c c' := by simp [IsTwoLetters, hc, hc']
    show timeLoop (c :: c' :: rest) buf total = _
    rw [timeLoop_two (hn c List.mem_cons_self) h2, hc, hc', ← unitMs_letters _ (by decide)]
    rfl
  | nano =>
    -- `n` is no unit, and then `s` has no number
    obtain ⟨c, c', rfl, hc, -⟩ := htwo hls
    have hnot : ¬ IsTwoLetters c c' := by simp [IsTwoLetters, hc]
    have hs : ∀ d ∈ [c'], inNumber d = false := fun d hd => hn d (List.mem_cons_of_mem c hd)
    have hidle (t : Int64) : timeLoop (c' :: rest) [] t = timeLoop rest [] t :=
      timeLoop_idle hr hrest hs
    show timeLoop (c :: c' :: rest) buf total = _
    rw [timeLoop_one (hn c List.mem_cons_self) hnot, hc, unitMs_n]
    exact congrArg _ (funext hidle)

end

/-! ## The texts of numbers -/

/-- A digit, then digits and underscores. mirrors crates/st-grammar/grammar.js:692-704 -/
structure Numeral (isDigit : Char → Bool) where
  first : Char
  rest : List Char
  first_digit : isDigit first = true
  rest_digit : ∀ c ∈ rest, isDigit c = true ∨ c = '_'

namespace Numeral

variable {isDigit : Char → Bool}

def chars (t : Numeral isDigit) : List Char := t.first :: t.rest

def digits (t : Numeral isDigit) : List Char := t.chars.filter (· ≠ '_')

theorem char (t : Numeral isDigit) : ∀ c ∈ t.chars, isDigit c = true ∨ c = '_' := by
  intro c hc
  rcases List.mem_cons.mp hc with rfl | hc
  · exact .inl t.first_digit
  · exact t.rest_digit c hc

theorem digit (t : Numeral isDigit) : ∀ c ∈ t.digits, isDigit c = true := by
  intro c hc
  obtain ⟨hc, hne⟩ := List.mem_filter.mp hc
  exact (t.char c hc).resolve_right (of_decide_eq_true hne)

theorem digits_ne (t : Numeral isDigit) (h : isDigit '_' = false) : t.digits ≠ [] := by
  have hfirst : t.first ≠ '_' := fun he => by
    have := t.first_digit
    rw [he, h] at this
    cases this
  rw [digits, chars, List.filter_cons_of_pos (by simp [hfirst])]
  exact List.cons_ne_nil _ _

end Numeral

/-! ## TIME literals -/

/-- A number and the letters of a unit. mirrors crates/st-grammar/grammar.js:735-737 -/
structure DurationPart where
  whole : Numeral Char.isDigit
  fraction : Option (List Char)
  fraction_digit : ∀ fs ∈ fraction, ∀ c ∈ fs, c.isDigit = true ∨ c = '_'
  letters : List Char
  letters_ne : letters ≠ []
  letter : ∀ c ∈ letters, c.isAlpha = true

namespace DurationPart

/-- The number, without its unit. -/
def number (p : DurationPart) : List Char :=
  p.whole.chars ++ match p.fraction with
    | none => []
    | some fs => '.' :: fs

def chars (p : DurationPart) : List Char := p.number ++ p.letters

def digits (p : DurationPart) : List Char := p.number.filter (· ≠ '_')

/-- The number it denotes. -/
def value (p : DurationPart) : ℚ :=
  Nat.ofDigitChars 10 p.whole.digits 0 + match p.fraction with
    | none => 0
    | some fs => Nat.ofDigitChars 10 (fs.filter (· ≠ '_')) 0 / 10 ^ (fs.filter (· ≠ '_')).length

/-- The unit of IEC 61131-3 the letters stand for, in any case. -/
def unit (p : DurationPart) : Option DurationUnit :=
  DurationUnit.all.find? fun u => p.letters.map Char.toLower == u.letters

end DurationPart

/-- mirrors crates/st-grammar/grammar.js:724-740; any word is a keyword. -/
structure DurationText where
  keyword : List Char
  keyword_letter : ∀ c ∈ keyword, c.isAlpha = true
  negative : Bool
  parts : List DurationPart
  parts_ne : parts ≠ []

def DurationText.body (t : DurationText) : List Char :=
  (if t.negative then ['-'] else []) ++ t.parts.flatMap DurationPart.chars

/-- A TIME literal. -/
def DurationText.text (t : DurationText) : String := String.ofList (t.keyword ++ '#' :: t.body)

/-- The parts in milliseconds, when all of them have a unit. -/
def exactMs : List DurationPart → Option ℚ
  | [] => some 0
  | p :: ps => p.unit.bind fun u => (exactMs ps).map (p.value * u.millis + ·)

/-- The milliseconds the literal denotes. -/
def DurationText.millis (t : DurationText) : Option ℚ :=
  (exactMs t.parts).map fun q => if t.negative then -q else q

section

variable [F64Ops]

/-- The parts in whole milliseconds, each one computed in doubles. -/
def doubleMs : List DurationPart → Option Int
  | [] => some 0
  | p :: ps => p.unit.bind fun u =>
    (doubleMs ps).map ((u.doubleMs (realOrZero p.digits)).toInt + ·)

end

/-! ## What is made of them -/

theorem isAlpha_toNat {c : Char} (h : c.isAlpha = true) :
    65 ≤ c.toNat ∧ c.toNat ≤ 90 ∨ 97 ≤ c.toNat ∧ c.toNat ≤ 122 := by
  simpa [Char.isAlpha, Char.isUpper, Char.isLower, UInt32.le_iff_toNat_le] using h

theorem inNumber_alpha {c : Char} (h : c.isAlpha = true) : inNumber c = false := by
  have hn := isAlpha_toNat h
  have hd : c.isDigit = false := by
    rw [← Bool.not_eq_true]
    intro hd
    have : 48 ≤ c.toNat ∧ c.toNat ≤ 57 := by
      simpa [Char.isDigit, UInt32.le_iff_toNat_le] using hd
    omega
  have hne {d : Char} (hd : d.toNat < 65 ∨ d.toNat = 95) : (c == d) = false := by
    rw [beq_eq_false_iff_ne]
    rintro rfl
    omega
  rw [inNumber, hd, hne (.inl (by decide)), hne (.inr (by decide))]
  rfl

theorem clean_alpha {cs : List Char} (h : ∀ c ∈ cs, c.isAlpha = true) : Clean cs := by
  intro c hc
  have hn := isAlpha_toNat (h c hc)
  constructor
  · rintro rfl
    exact absurd hn (by decide)
  · unfold isWhitespace
    simp
    omega

theorem clean_numeric {cs : List Char} (h : ∀ c ∈ cs, c.isDigit = true ∨ c = '_') : Clean cs := by
  intro c hc
  rcases h c hc with hd | rfl
  · exact clean_digits (fun d hd' => by rwa [List.mem_singleton.mp hd']) c (List.mem_singleton_self c)
  · decide

theorem inNumber_digit {c : Char} (h : c.isDigit = true ∨ c = '_') : inNumber c = true := by
  rcases h with h | rfl
  · rw [inNumber, h]
    rfl
  · decide

namespace DurationPart

variable (p : DurationPart)

theorem number_numeric : ∀ c ∈ p.number, inNumber c = true := by
  intro c hc
  rcases List.mem_append.mp hc with hc | hc
  · exact inNumber_digit (p.whole.char c hc)
  · cases hf : p.fraction with
    | none =>
      rw [hf] at hc
      cases hc
    | some fs =>
      rw [hf] at hc
      rcases List.mem_cons.mp hc with rfl | hc
      · decide
      · exact inNumber_digit (p.fraction_digit fs hf c hc)

theorem clean : Clean p.chars := by
  refine (Clean.append (clean_numeric p.whole.char) ?_).append (clean_alpha p.letter)
  cases hf : p.fraction with
  | none => exact fun c hc => absurd hc List.not_mem_nil
  | some fs => exact .cons (by decide) (clean_numeric (p.fraction_digit fs hf))

/-- Without its underscores the number is one that `parse::<f64>` reads. -/
theorem decimal : Decimal p.digits := by
  have hne := p.whole.digits_ne (by decide)
  have hdigit := p.whole.digit
  unfold digits number
  rw [List.filter_append]
  cases hf : p.fraction with
  | none =>
    rw [List.filter_nil, List.append_nil]
    exact .whole hne hdigit
  | some fs =>
    have hfs : ∀ c ∈ fs.filter (· ≠ '_'), c.isDigit = true := by
      intro c hc
      obtain ⟨hc, hu⟩ := List.mem_filter.mp hc
      exact (p.fraction_digit fs hf c hc).resolve_right (of_decide_eq_true hu)
    have := Decimal.point hne hdigit hfs .none
    rw [List.append_nil] at this
    rw [List.filter_cons_of_pos (by decide)]
    exact this

/-- A part starts with a digit. -/
theorem resumes (ps : List DurationPart) (rest : List Char) (h : Resumes rest) :
    Resumes (ps.flatMap chars ++ rest) := by
  cases ps with
  | nil => exact h
  | cons p ps => exact .inr ⟨p.whole.first, _, rfl, p.whole.first_digit⟩

theorem unit_letters {u : DurationUnit} (h : p.unit = some u) :
    p.letters.map Char.toLower = u.letters := by
  have := List.find?_some h
  exact eq_of_beq this

end DurationPart

section

variable [F64Ops]

theorem doubleMs_nonneg (hr : RealLaws) (p : DurationPart) (u : DurationUnit) :
    0 ≤ (u.doubleMs (realOrZero p.digits)).toInt := by
  cases u with
  | day | hour | minute | second => exact hr.mul_nonneg _ _ p.decimal (by decide)
  | milli => exact hr.nonneg _ p.decimal
  | micro => exact hr.div_nonneg _ _ p.decimal (by decide)
  | nano => exact Int.le_refl 0

theorem doubleMs_sum_nonneg (hr : RealLaws) : ∀ {ps : List DurationPart} {s : Int},
    doubleMs ps = some s → 0 ≤ s
  | [], s, h => by
    cases h
    exact Int.le_refl 0
  | p :: ps, s, h => by
    obtain ⟨u, -, h⟩ := Option.bind_eq_some_iff.mp h
    obtain ⟨s', hs, rfl⟩ := Option.map_eq_some_iff.mp h
    have h1 := doubleMs_nonneg hr p u
    have h2 := doubleMs_sum_nonneg hr hs
    omega

/-- The loop adds up the parts. -/
theorem timeLoop_parts (hr : RealLaws) : ∀ {ps : List DurationPart} {s : Int} {total : Int64},
    doubleMs ps = some s → 0 ≤ total.toInt →
      timeLoop (ps.flatMap DurationPart.chars) [] total = checkedI64 (total.toInt + s)
  | [], s, total, h, _ => by
    cases h
    exact (checkedI64_zero total).symm
  | p :: ps, s, total, h, h0 => by
    obtain ⟨u, hu, h⟩ := Option.bind_eq_some_iff.mp h
    obtain ⟨s', hs, rfl⟩ := Option.map_eq_some_iff.mp h
    have hms := doubleMs_nonneg hr p u
    have hs0 := doubleMs_sum_nonneg hr hs
    have hrest : Resumes (ps.flatMap DurationPart.chars) := by
      have := DurationPart.resumes ps [] (.inl rfl)
      rwa [List.append_nil] at this
    obtain ⟨l, ls, hl⟩ := List.exists_cons_of_ne_nil p.letters_ne
    have hrun : timeLoop ((p :: ps).flatMap DurationPart.chars) [] total =
        checkedI64 (total.toInt + (u.doubleMs (realOrZero p.digits)).toInt) >>=
          timeLoop (ps.flatMap DurationPart.chars) [] := by
      rw [List.flatMap_cons, DurationPart.chars, List.append_assoc]
      conv_lhs => rw [hl, List.cons_append, timeLoop_number p.number_numeric, ← List.cons_append, ← hl]
      exact timeLoop_unit hr hrest u (p.unit_letters hu) fun c hc => inNumber_alpha (p.letter c hc)
    rw [hrun]
    by_cases hfits : total.toInt + (u.doubleMs (realOrZero p.digits)).toInt ≤ 9223372036854775807
    · rw [checkedI64_bind (by omega) hfits]
      have hnext := toInt_checked (by omega) hfits
      rw [timeLoop_parts hr hs (by omega), hnext, Int.add_assoc]
    · rw [checkedI64, if_neg (by omega), checkedI64, if_neg (by omega)]
      rfl

omit [F64Ops] in
/-- Stripping the keyword leaves the body, or all of the text. -/
theorem stripAny_keyword {kw body : List Char} (hkw : '#' ∉ kw) (hbody : '#' ∉ body) :
    ∀ {ps : List (List Char)}, (∀ q ∈ ps, q.getLast? = some '#') →
      stripAny ps (kw ++ '#' :: body) = body ∨
        stripAny ps (kw ++ '#' :: body) = kw ++ '#' :: body
  | [], _ => .inr rfl
  | q :: ps, h => by
    obtain ⟨q', rfl⟩ := List.getLast?_eq_some_iff.mp (h q List.mem_cons_self)
    rw [stripAny]
    split
    · next hpre =>
      obtain ⟨rest, hrest⟩ := List.isPrefixOf_iff_prefix.mp hpre
      rw [List.append_assoc, List.singleton_append] at hrest
      -- the first `#` ends the keyword and the spelling
      obtain ⟨rfl, -, rfl⟩ := (List.append_cons_inj_of_notMem hkw hbody).mp hrest.symm
      left
      show List.drop (kw ++ ['#']).length (kw ++ '#' :: body) = body
      rw [List.append_cons kw '#' body, List.drop_left]
    · exact stripAny_keyword hkw hbody fun q hq => h q (List.mem_cons_of_mem _ hq)

/-- **A TIME literal is compiled to the sum of its parts, whatever its sign.** -/
theorem parse_duration (hr : RealLaws) (t : DurationText) {s : Int} (h : doubleMs t.parts = some s) :
    parseTimeLiteral t.text = checkedI64 s := by
  have hkw := clean_alpha t.keyword_letter
  have hparts : Clean (t.parts.flatMap DurationPart.chars) := by
    intro c hc
    obtain ⟨p, -, hc⟩ := List.mem_flatMap.mp hc
    exact p.clean c hc
  have hbody : Clean t.body := by
    refine Clean.append ?_ hparts
    cases t.negative
    · exact fun c hc => absurd hc List.not_mem_nil
    · exact .cons (by decide) fun c hc => absurd hc List.not_mem_nil
  have htrim : trim t.text.toList = t.keyword ++ '#' :: t.body := by
    rw [DurationText.text, String.toList_ofList]
    refine trim_id fun c hc => ?_
    rcases List.mem_append.mp hc with hc | hc
    · exact (hkw c hc).2
    · rcases List.mem_cons.mp hc with rfl | hc
      · decide
      · exact (hbody c hc).2
  have hrest : Resumes (t.parts.flatMap DurationPart.chars) := by
    have := DurationPart.resumes t.parts [] (.inl rfl)
    rwa [List.append_nil] at this
  have hsign : ∀ c ∈ (if t.negative then ['-'] else []), inNumber c = false := by
    intro c hc
    cases hn : t.negative with
    | false =>
      rw [hn] at hc
      cases hc
    | true =>
      rw [hn] at hc
      rw [List.mem_singleton.mp hc]
      decide
  have hloop : timeLoop (t.parts.flatMap DurationPart.chars) [] 0 = checkedI64 s := by
    have h0 : (0 : Int) ≤ (0 : Int64).toInt := Int.le_refl 0
    rw [timeLoop_parts hr h h0]
    simp
  unfold parseTimeLiteral
  rw [htrim]
  have hspellings : ∀ q ∈ ["T#".toList, "t#".toList, "TIME#".toList, "time#".toList, "LT#".toList,
      "lt#".toList, "LTIME#".toList, "ltime#".toList], q.getLast? = some '#' := by decide
  rcases stripAny_keyword (fun hc => (hkw _ hc).1 rfl) (fun hc => (hbody _ hc).1 rfl) hspellings
    with hstrip | hstrip
  · rw [hstrip, DurationText.body, timeLoop_idle hr hrest hsign, hloop]
  · -- a spelling that is not stripped is gone over
    have hidle : ∀ c ∈ t.keyword ++ '#' :: (if t.negative then ['-'] else []),
        inNumber c = false := by
      intro c hc
      rcases List.mem_append.mp hc with hc | hc
      · exact inNumber_alpha (t.keyword_letter c hc)
      · rcases List.mem_cons.mp hc with rfl | hc
        · decide
        · exact hsign c hc
    rw [hstrip, DurationText.body, ← List.cons_append, ← List.append_assoc,
      timeLoop_idle hr hrest hidle, hloop]

end

end RustPlc.Compiler
