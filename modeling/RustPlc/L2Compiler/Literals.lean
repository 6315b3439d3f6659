import RustPlc.L1Ir.Ops
import RustPlc.L2Compiler.Ast

/-!
# Literals

`literal_to_value` and the time, date, time-of-day and date-and-time parsers
(crates/st-compiler/src/compile.rs:1632-1791). Their sums are `i64`, so a
literal out of range is a panic of the compiler.
-/
namespace RustPlc.Compiler

open RustPlc.Ir RustPlc.Syntax

/-- `str::strip_prefix`, trying the spellings in turn. -/
def stripAny : List (List Char) → List Char → List Char
  | [], cs => cs
  | p :: ps, cs => if p.isPrefixOf cs then cs.drop p.length else stripAny ps cs

/-- `str::split(sep)` -/
def splitOnChar (sep : Char) : List Char → List (List Char)
  | [] => [[]]
  | c :: cs =>
    if c = sep then [] :: splitOnChar sep cs
    else match splitOnChar sep cs with
      | [] => [[c]]
      | p :: ps => (c :: p) :: ps

/-- `s.split('#').next_back()`: what follows the last `#`. -/
def afterHash (cs : List Char) : List Char := ((splitOnChar '#' cs).getLast?).getD []

/-- `str::splitn(n + 1, sep)` -/
def splitN (sep : Char) : Nat → List Char → List (List Char)
  | 0, cs => [cs]
  | n + 1, cs =>
    match cs.dropWhile (· != sep) with
    | [] => [cs]
    | _ :: rest => cs.takeWhile (· != sep) :: splitN sep n rest

/-- `text.parse::<i64>().unwrap_or(d)` -/
def intOr (d : Int64) (cs : List Char) : Int64 := (parseI64 cs).getD d

section

variable [F64Ops]

/-- `num_buf.parse().unwrap_or(0.0)` -/
def realOrZero (cs : List Char) : F64 := (F64Ops.parse (String.ofList cs)).getD F64.zero

/-- What one unit adds, in milliseconds; an unknown unit adds nothing. -/
def unitMs (num : F64) (unit : List Char) : Int64 :=
  let scaled (k : Int64) : Int64 := F64Ops.toInt (F64Ops.mul num (F64Ops.ofInt k))
  if unit = ['d'] then scaled 86400000
  else if unit = ['h'] then scaled 3600000
  else if unit = ['m'] then scaled 60000
  else if unit = ['s'] then scaled 1000
  else if unit = ['m', 's'] then F64Ops.toInt num
  else if unit = ['u', 's'] then F64Ops.toInt (F64Ops.div num (F64Ops.ofInt 1000))
  else 0

/-- The loop of `parse_time_literal`: a buffer of digits, then a unit of one
or two letters. -/
def timeLoop : List Char → List Char → Int64 → Except Panic Int64
  | [], buf, total =>
    if buf.isEmpty then .ok total
    else checkedI64 (total.toInt + (F64Ops.toInt (realOrZero buf)).toInt)
  | [c], buf, total =>
    if c.isDigit || c == '.' || c == '_' then timeLoop [] (if c == '_' then buf else buf ++ [c]) total
    else do
      let total' ← checkedI64 (total.toInt + (unitMs (realOrZero buf) [c.toLower]).toInt)
      timeLoop [] [] total'
  | c :: c' :: cs, buf, total =>
    if c.isDigit || c == '.' || c == '_' then
      timeLoop (c' :: cs) (if c == '_' then buf else buf ++ [c]) total
    else
      let two := [c.toLower, c'.toLower]
      if two = ['m', 's'] ∨ two = ['u', 's'] then do
        let total' ← checkedI64 (total.toInt + (unitMs (realOrZero buf) two).toInt)
        timeLoop cs [] total'
      else do
        let total' ← checkedI64 (total.toInt + (unitMs (realOrZero buf) [c.toLower]).toInt)
        timeLoop (c' :: cs) [] total'

/-- mirrors crates/st-compiler/src/compile.rs:1657-1719 -/
def parseTimeLiteral (s : String) : Except Panic Int64 :=
  timeLoop (stripAny ["T#".toList, "t#".toList, "TIME#".toList, "time#".toList, "LT#".toList,
    "lt#".toList, "LTIME#".toList, "ltime#".toList] (trim s.toList)) [] 0

/-- mirrors crates/st-compiler/src/compile.rs:1723-1734, in `i64`. -/
def ymdToEpochMs (year month day : Int64) : Except Panic Int64 := do
  let y ← checkedI64 (if month.toInt ≤ 2 then year.toInt - 1 else year.toInt)
  let m ← checkedI64 (if month.toInt ≤ 2 then month.toInt + 9 else month.toInt - 3)
  let y365 ← checkedI64 (365 * y.toInt)
  let s1 ← checkedI64 (y365.toInt + y.toInt.tdiv 4)
  let s2 ← checkedI64 (s1.toInt - y.toInt.tdiv 100)
  let s3 ← checkedI64 (s2.toInt + y.toInt.tdiv 400)
  let m306 ← checkedI64 (m.toInt * 306)
  let m5 ← checkedI64 (m306.toInt + 5)
  let s4 ← checkedI64 (s3.toInt + m5.toInt.tdiv 10)
  let d1 ← checkedI64 (day.toInt - 1)
  let s5 ← checkedI64 (s4.toInt + d1.toInt)
  let days ← checkedI64 (s5.toInt - 719468)
  checkedI64 (days.toInt * 86400000)

/-- mirrors crates/st-compiler/src/compile.rs:1737-1749 -/
def parseDateLiteral (s : String) : Except Panic Int64 :=
  match splitOnChar '-' (afterHash (trim s.toList)) with
  | y :: m :: d :: _ => ymdToEpochMs (intOr 1970 y) (intOr 1 m) (intOr 1 d)
  | _ => .ok 0

/-- mirrors crates/st-compiler/src/compile.rs:1753-1770, on the text after
the `#`. -/
def parseTodBody (body : List Char) : Except Panic Int64 := do
  let (time, frac) := match body.dropWhile (· != '.') with
    | [] => (body, F64.zero)
    | _ :: f => (body.takeWhile (· != '.'), realOrZero ('0' :: '.' :: f))
  let parts := splitOnChar ':' time
  let part (i : Nat) : Int := (intOr 0 (parts[i]?.getD [])).toInt
  let h ← checkedI64 (part 0 * 3600000)
  let m ← checkedI64 (part 1 * 60000)
  let hm ← checkedI64 (h.toInt + m.toInt)
  let sec ← checkedI64 (part 2 * 1000)
  let hms ← checkedI64 (hm.toInt + sec.toInt)
  let total ← checkedI64
    (hms.toInt + (F64Ops.toInt (F64Ops.mul frac (F64Ops.ofInt 1000))).toInt)
  return Int64.ofInt (total.toInt % 86400000)

def parseTodLiteral (s : String) : Except Panic Int64 := parseTodBody (afterHash (trim s.toList))

/-- mirrors crates/st-compiler/src/compile.rs:1773-1791. The time of day is
parsed as a literal of its own. -/
def parseDtLiteral (s : String) : Except Panic Int64 :=
  match splitN '-' 3 (afterHash (trim s.toList)) with
  | y :: m :: d :: t :: _ => do
    let date ← ymdToEpochMs (intOr 1970 y) (intOr 1 m) (intOr 1 d)
    let tod ← parseTodBody (afterHash (trim ("TOD#".toList ++ t)))
    checkedI64 (date.toInt + tod.toInt)
  | _ => .ok 0

/-- mirrors crates/st-compiler/src/compile.rs:1632-1653 -/
def literalToValue : LiteralKind → Except Panic Value
  | .integer v => .ok (.int v)
  | .real bits => .ok (.real ⟨bits⟩)
  | .bool b => .ok (.bool b)
  | .string s => .ok (.string s)
  | .time s => (parseTimeLiteral s).map .time
  | .date s => (parseDateLiteral s).map .time
  | .tod s => (parseTodLiteral s).map .time
  | .dt s => (parseDtLiteral s).map .time
  | .null => .ok .null
  | .typed _ raw => match parseI64 raw.toList with
    | some v => .ok (.int v)
    | none => match F64Ops.parse raw with
      | some r => .ok (.real r)
      | none => .ok (.int 0)

end

/-- No literal is a reference. -/
theorem literalToValue_ne_ref [F64Ops] {k : LiteralKind} {v : Value}
    (h : literalToValue k = .ok v) (tag slot : UInt16) : v ≠ .ref tag slot := by
  rintro rfl
  cases k with
  | typed _ raw =>
    simp only [literalToValue] at h
    split at h
    · simp at h
    · split at h <;> simp at h
  | time s | date s | tod s | dt s =>
    simp only [literalToValue, Except.map] at h
    split at h <;> simp at h
  | integer v | real b | bool b | string s | null => simp [literalToValue] at h

end RustPlc.Compiler
