import RustPlc.L5Engine.Monitor

/-!
# Values as OPC-UA variants

The server reads the texts of the monitor (`parse_value_to_variant`, guided by the
type the monitor shows), and writes texts that the agent reads without knowing the
type (`variant_to_value_string`, `parse_value_string`).

`WholeReals` names what is used of `f64`: whole numbers up to 2^53 are exact, and so
is a product that is rounded once.

Results:
* `parse_format_iff`: the text of a value is read as the variant that denotes it,
  except for a negative time and one whose minutes are no `f64`;
* `readAfterWrite_iff`: the same after a write, except for large `ULINT`s and strings
  that read as something else.
-/
namespace RustPlc.Target

open RustPlc.Ir RustPlc.Engine RustPlc.Syntax RustPlc.Compiler

/-! ## Variants -/

/-- The variants of `opcua_types` that the server uses; a float is kept as the `f64`
of the same value. -/
inductive Variant where
  | boolean (b : Bool)
  | sbyte (i : Int8)
  | int16 (i : Int16)
  | int32 (i : Int32)
  | int64 (i : Int64)
  | byte (u : UInt8)
  | uint16 (u : UInt16)
  | uint32 (u : UInt32)
  | uint64 (u : UInt64)
  | float (r : F64)
  | double (r : F64)
  | string (s : String)
  deriving DecidableEq

/-- The formats of reals: `{r:.6}`, `{r}`, and `r as f32`. -/
structure RealText where
  fixed6 : F64 → String
  display : F64 → String
  single : F64 → F64

/-- mirrors crates/st-opcua-server/src/type_map.rs:148-156; a text that starts with a
quote has two bytes when it has two characters. -/
def stripQuotes (cs : List Char) : List Char :=
  if cs.head? = some '\'' ∧ cs.getLast? = some '\'' ∧ 2 ≤ cs.length then (cs.drop 1).dropLast else cs

section

variable [F64Ops]

/-- `total_ms += (num * k) as i64` -/
def addScaled (total : Int64) (buf : List Char) (k : Int64) : Except Panic Int64 :=
  checkedI64 (total.toInt + (F64Ops.toInt (F64Ops.mul (realOrZero buf) (F64Ops.ofInt k))).toInt)

/-- `total_ms += num as i64` -/
def addMs (total : Int64) (buf : List Char) : Except Panic Int64 :=
  checkedI64 (total.toInt + (F64Ops.toInt (realOrZero buf)).toInt)

/-- The loop of `parse_time_string`: a buffer of digits, then a unit.
mirrors crates/st-opcua-server/src/type_map.rs:178-213 -/
def timeWalk : List Char → List Char → Int64 → Except Panic Int64
  | [], _, total => .ok total
  | c :: cs, buf, total =>
    if c.isDigit || c == '.' then timeWalk cs (buf ++ [c]) total
    else if c = 'h' then (addScaled total buf 3600000).bind fun total => timeWalk cs [] total
    else if c = 'm' then match cs with
      | 's' :: cs' => (addMs total buf).bind fun total => timeWalk cs' [] total
      | rest => (addScaled total buf 60000).bind fun total => timeWalk rest [] total
    else if c = 's' then (addScaled total buf 1000).bind fun total => timeWalk cs [] total
    else timeWalk cs [] total

/-- mirrors crates/st-opcua-server/src/type_map.rs:168-213 -/
def parseTimeString (s : String) : Except Panic Int64 :=
  let cs := stripAny ["T#".toList, "t#".toList] s.toList
  match parseI64 cs with
  | some ms => .ok ms
  | none => timeWalk cs [] 0

/-- `value.parse::<u64>().unwrap_or(0)` -/
def uintOrZero (cs : List Char) : UInt64 := (parseU64 cs).getD 0

/-- mirrors crates/st-opcua-server/src/type_map.rs:43-163 -/
def parseValueToVariant (rt : RealText) (value iecType : String) : Except Panic Variant :=
  match toUppercase iecType with
  | "BOOL" => .ok (.boolean (eqIgnoreAsciiCase value "true" || value == "1"))
  | "SINT" => .ok (.sbyte (intOr 0 value.toList).toInt8)
  | "INT" => .ok (.int16 (intOr 0 value.toList).toInt16)
  | "DINT" => .ok (.int32 (intOr 0 value.toList).toInt32)
  | "LINT" => .ok (.int64 (intOr 0 value.toList))
  | "USINT" | "BYTE" => .ok (.byte (uintOrZero value.toList).toUInt8)
  | "UINT" | "WORD" => .ok (.uint16 (uintOrZero value.toList).toUInt16)
  | "UDINT" | "DWORD" => .ok (.uint32 (uintOrZero value.toList).toUInt32)
  | "ULINT" | "LWORD" => .ok (.uint64 (uintOrZero value.toList))
  | "REAL" => .ok (.float (rt.single (realOrZero value.toList)))
  | "LREAL" => .ok (.double (realOrZero value.toList))
  | "STRING" => .ok (.string (String.ofList (stripQuotes value.toList)))
  | "TIME" => (parseTimeString value).map .int64
  | _ => .ok (.string value)

end

/-- mirrors crates/st-opcua-server/src/type_map.rs:66-90 -/
def variantToValueString (rt : RealText) : Variant → String
  | .boolean b => if b then "TRUE" else "FALSE"
  | .sbyte i => toString i.toInt
  | .int16 i => toString i.toInt
  | .int32 i => toString i.toInt
  | .int64 i => toString i.toInt
  | .byte u => toString u.toNat
  | .uint16 u => toString u.toNat
  | .uint32 u => toString u.toNat
  | .uint64 u => toString u.toNat
  | .float r => rt.display r
  | .double r => rt.display r
  | .string s => s

/-- mirrors crates/st-target-agent/src/runtime_manager.rs:1062-1074 -/
def parseValueString [F64Ops] (s : String) : Value :=
  if eqIgnoreAsciiCase s "true" then .bool true
  else if eqIgnoreAsciiCase s "false" then .bool false
  else match parseI64 s.toList with
  | some i => .int i
  | none => match F64Ops.parse s with
    | some r => .real r
    | none => .string s

/-! ## The values of a type -/

/-- The types of OPC-UA nodes that are no reals. -/
inductive IecType where
  | bool | sint | int | dint | lint | usint | uint | udint | ulint
  | byte | word | dword | lword | string | time
  deriving DecidableEq, Repr

namespace IecType

def name : IecType → String
  | .bool => "BOOL"
  | .sint => "SINT"
  | .int => "INT"
  | .dint => "DINT"
  | .lint => "LINT"
  | .usint => "USINT"
  | .uint => "UINT"
  | .udint => "UDINT"
  | .ulint => "ULINT"
  | .byte => "BYTE"
  | .word => "WORD"
  | .dword => "DWORD"
  | .lword => "LWORD"
  | .string => "STRING"
  | .time => "TIME"

/-- The type in a declaration. -/
def dataType : IecType → DataType
  | .bool => .elementary .bool
  | .sint => .elementary .sint
  | .int => .elementary .int
  | .dint => .elementary .dint
  | .lint => .elementary .lint
  | .usint => .elementary .usint
  | .uint => .elementary .uint
  | .udint => .elementary .udint
  | .ulint => .elementary .ulint
  | .byte => .elementary .byte
  | .word => .elementary .word
  | .dword => .elementary .dword
  | .lword => .elementary .lword
  | .string => .string false none
  | .time => .elementary .time

/-- The width that a write to a variable of this type looks at. -/
def width (t : IecType) : IntWidth := intWidthFromAst t.dataType

/-- The type that the monitor shows: it does not tell `BYTE` from `USINT`. -/
def shown (t : IecType) : String := formatVarTypeWithWidth (varTypeFromAst t.dataType) t.width

end IecType

/-- `v` is a value of the type and the variant denotes it. -/
inductive Denotes : IecType → Value → Variant → Prop
  | bool (b : Bool) : Denotes .bool (.bool b) (.boolean b)
  | sint (i : Int8) : Denotes .sint (.int i.toInt64) (.sbyte i)
  | int (i : Int16) : Denotes .int (.int i.toInt64) (.int16 i)
  | dint (i : Int32) : Denotes .dint (.int i.toInt64) (.int32 i)
  | lint (i : Int64) : Denotes .lint (.int i) (.int64 i)
  | usint (u : UInt8) : Denotes .usint (.uint u.toUInt64) (.byte u)
  | uint (u : UInt16) : Denotes .uint (.uint u.toUInt64) (.uint16 u)
  | udint (u : UInt32) : Denotes .udint (.uint u.toUInt64) (.uint32 u)
  | ulint (u : UInt64) : Denotes .ulint (.uint u) (.uint64 u)
  | byte (u : UInt8) : Denotes .byte (.uint u.toUInt64) (.byte u)
  | word (u : UInt16) : Denotes .word (.uint u.toUInt64) (.uint16 u)
  | dword (u : UInt32) : Denotes .dword (.uint u.toUInt64) (.uint32 u)
  | lword (u : UInt64) : Denotes .lword (.uint u) (.uint64 u)
  | string (s : String) : Denotes .string (.string s) (.string s)
  | time (ms : Int64) : Denotes .time (.time ms) (.int64 ms)

variable [F64Ops]

/-- An integer that is written is read as this integer. -/
theorem parseValueString_int (i : Int64) : parseValueString (toString i.toInt) = .int i := by
  unfold parseValueString
  rw [toString_no_word i.toInt rfl rfl (by decide), toString_no_word i.toInt rfl rfl (by decide),
    parseI64_toString]
  rfl

/-! ## Times -/

/-- What is used of `f64`: the text of a natural number is read as this number, rounded
once; a product of whole numbers is rounded once; whole numbers up to 2^53 are exact; and
a large number is shown with its point. -/
structure WholeReals (rt : RealText) : Prop where
  parse : ∀ n < 2 ^ 63, F64Ops.parse (toString n) = some (F64Ops.ofInt (Int64.ofNat n))
  parse_large : ∀ n, 2 ^ 63 ≤ n → ∃ x, F64Ops.parse (toString n) = some x ∧
    0 ≤ (F64Ops.toInt x).toInt ∧ '.' ∈ (rt.fixed6 x).toList
  mul : ∀ a b, a ≤ 2 ^ 53 → b ≤ 2 ^ 53 → a * b < 2 ^ 63 →
    F64Ops.mul (F64Ops.ofInt (Int64.ofNat a)) (F64Ops.ofInt (Int64.ofNat b)) =
      F64Ops.ofInt (Int64.ofNat (a * b))
  exact : ∀ n ≤ 2 ^ 53, F64Ops.toInt (F64Ops.ofInt (Int64.ofNat n)) = Int64.ofNat n
  nonneg : ∀ n < 2 ^ 63, 0 ≤ (F64Ops.toInt (F64Ops.ofInt (Int64.ofNat n))).toInt

/-- `n as f64 as i64 == n` -/
def IsReal (n : Nat) : Prop := F64Ops.toInt (F64Ops.ofInt (Int64.ofNat n)) = Int64.ofNat n

/-- The value is no time, or a time that is not negative and whose whole minutes, in
milliseconds, are an `f64`. -/
def TimeExact : Value → Prop
  | .time ms => 0 ≤ ms.toInt ∧ IsReal (ms.toInt.toNat / 60000 * 60000)
  | _ => True

/-- `total_ms += part` for each part. -/
def addParts (parts : List Nat) (total : Int64) : Except Panic Int64 :=
  parts.foldlM (fun (total : Int64) (part : Nat) => checkedI64 (total.toInt + part)) total

omit [F64Ops] in
theorem addParts_iff {parts : List Nat} {total y : Int64} (htotal : 0 ≤ total.toInt) :
    addParts parts total = .ok y ↔ y.toInt = total.toInt + parts.sum := by
  have hy := y.toInt_lt
  induction parts generalizing total with
  | nil =>
    simp only [addParts, List.foldlM_nil, List.sum_nil]
    refine ⟨fun h => by cases h; simp, fun h => ?_⟩
    exact congrArg Except.ok (Int64.toInt_inj.mp (by omega))
  | cons p parts ih =>
    simp only [addParts, List.foldlM_cons, List.sum_cons]
    cases hc : checkedI64 (total.toInt + p) with
    | error e =>
      constructor
      · exact fun h => by cases h
      · intro h
        unfold checkedI64 at hc
        split at hc
        · cases hc
        · omega
    | ok t =>
      have ht := checkedI64_iff.mp hc
      have htime : 0 ≤ t.toInt := by omega
      have hrest := ih htime
      rw [addParts] at hrest
      refine hrest.trans ?_
      omega

/-! ### Reading the text of a time -/

theorem timeWalk_digit {c : Char} (h : c.isDigit = true) (cs buf : List Char) (total : Int64) :
    timeWalk (c :: cs) buf total = timeWalk cs (buf ++ [c]) total := by
  rw [timeWalk.eq_def]
  simp only [h, Bool.true_or, if_true]

theorem timeWalk_digits {ds : List Char} (h : ∀ c ∈ ds, c.isDigit = true) (rest buf : List Char)
    (total : Int64) : timeWalk (ds ++ rest) buf total = timeWalk rest (buf ++ ds) total := by
  induction ds generalizing buf with
  | nil => simp
  | cons d ds ih =>
    rw [List.cons_append, timeWalk_digit (h d List.mem_cons_self),
      ih fun c hc => h c (List.mem_cons_of_mem d hc), List.append_assoc]
    rfl

theorem timeWalk_minutes {rest : List Char} (h : rest.head? ≠ some 's') (buf : List Char)
    (total : Int64) : timeWalk ('m' :: rest) buf total =
      (addScaled total buf 60000).bind fun total => timeWalk rest [] total := by
  rw [timeWalk.eq_def]
  simp only
  split
  · next hm => cases hm
  · split
    · next hm => cases hm
    · rw [if_pos trivial]
      split
      · exact absurd rfl h
      · rfl

theorem timeWalk_seconds (rest buf : List Char) (total : Int64) : timeWalk ('s' :: rest) buf total =
    (addScaled total buf 1000).bind fun total => timeWalk rest [] total := by
  rw [timeWalk.eq_def]
  rfl

theorem timeWalk_ms (rest buf : List Char) (total : Int64) : timeWalk ('m' :: 's' :: rest) buf total =
    (addMs total buf).bind fun total => timeWalk rest [] total := by
  rw [timeWalk.eq_def]
  rfl

section

variable {rt : RealText} (hr : WholeReals rt) {n : Nat}
include hr

theorem realOrZero_digits (hn : n < 2 ^ 63) :
    realOrZero (digits n) = F64Ops.ofInt (Int64.ofNat n) := by
  have htext : String.ofList (digits n) = toString n := by
    rw [← toList_toString, String.ofList_toList]
  rw [realOrZero, htext, hr.parse n hn, Option.getD_some]

theorem addMs_digits (hn : n < 2 ^ 63) (total : Int64) :
    addMs total (digits n) =
      checkedI64 (total.toInt + (F64Ops.toInt (F64Ops.ofInt (Int64.ofNat n))).toInt) := by
  rw [addMs, realOrZero_digits hr hn]

theorem addScaled_digits {k : Nat} (hn : n ≤ 2 ^ 53) (hk : k ≤ 2 ^ 53) (hnk : n * k < 2 ^ 63)
    (total : Int64) : addScaled total (digits n) (Int64.ofNat k) =
      checkedI64 (total.toInt + (F64Ops.toInt (F64Ops.ofInt (Int64.ofNat (n * k)))).toInt) := by
  rw [addScaled, realOrZero_digits hr (by omega), hr.mul n k hn hk hnk]

/-- The number that a text of digits stands for after the conversions. -/
def realMs (n : Nat) : Nat := (F64Ops.toInt (F64Ops.ofInt (Int64.ofNat n))).toInt.toNat

theorem realMs_eq (hn : n < 2 ^ 63) :
    (F64Ops.toInt (F64Ops.ofInt (Int64.ofNat n))).toInt = realMs n := by
  have := hr.nonneg n hn
  rw [realMs]
  omega

theorem realMs_small (hn : n ≤ 2 ^ 53) : realMs n = n := by
  rw [realMs, hr.exact n hn, toInt_ofNat (by omega)]
  rfl

theorem isReal_iff (hn : n < 2 ^ 63) : IsReal n ↔ realMs n = n := by
  have h := realMs_eq hr hn
  have hn' := toInt_ofNat hn
  unfold IsReal
  rw [← Int64.toInt_inj, h, hn']
  omega

/-- A number of minutes, unless an `s` follows the `m`. -/
theorem walk_minutes {rest : List Char} (hrest : rest.head? ≠ some 's') (hn : n * 60000 < 2 ^ 63)
    (total : Int64) : timeWalk (digits n ++ 'm' :: rest) [] total =
      (checkedI64 (total.toInt + realMs (n * 60000))).bind fun total => timeWalk rest [] total := by
  have hscaled := addScaled_digits hr (n := n) (k := 60000) (by omega) (by omega) hn total
  rw [realMs_eq hr hn] at hscaled
  rw [timeWalk_digits fun c hc => isDigit_of_mem_digits hc, List.nil_append,
    timeWalk_minutes hrest, ← hscaled]
  rfl

theorem walk_seconds {rest : List Char} (hn : n < 60) (total : Int64) :
    timeWalk (digits n ++ 's' :: rest) [] total =
      (checkedI64 (total.toInt + (n * 1000 : Nat))).bind fun total => timeWalk rest [] total := by
  have hscaled := addScaled_digits hr (n := n) (k := 1000) (by omega) (by omega) (by omega) total
  rw [realMs_eq hr (by omega), realMs_small hr (by omega)] at hscaled
  rw [timeWalk_digits fun c hc => isDigit_of_mem_digits hc, List.nil_append, timeWalk_seconds,
    ← hscaled]
  rfl

theorem walk_ms (hn : n < 2 ^ 63) (total : Int64) :
    timeWalk (digits n ++ ['m', 's']) [] total = checkedI64 (total.toInt + realMs n) := by
  have hms := addMs_digits hr hn total
  rw [realMs_eq hr hn] at hms
  rw [timeWalk_digits fun c hc => isDigit_of_mem_digits hc, List.nil_append, timeWalk_ms, hms]
  cases checkedI64 (total.toInt + realMs n) <;> rfl

end

omit [F64Ops] in
theorem stripAny_time (cs : List Char) :
    stripAny ["T#".toList, "t#".toList] ('T' :: '#' :: cs) = cs := rfl

/-- What `T#` is followed by, when it is no number. -/
theorem parseTimeString_walk {s : String} {cs : List Char} (hs : s.toList = 'T' :: '#' :: cs)
    (hnone : parseI64 cs = none) : parseTimeString s = timeWalk cs [] 0 := by
  simp only [parseTimeString, hs, stripAny_time, hnone]

/-- The seconds and milliseconds in the text of a time. -/
def secondsText (sec rem : Nat) : List Char :=
  if 0 < rem then digits sec ++ 's' :: (digits rem ++ ['m', 's'])
  else if 0 < sec then digits sec ++ ['s']
  else []

/-- What follows `T#`. -/
def timeText (n : Nat) : List Char :=
  if 60000 ≤ n then digits (n / 60000) ++ 'm' :: secondsText (n % 60000 / 1000) (n % 1000)
  else if 1000 ≤ n then secondsText (n / 1000) (n % 1000)
  else digits n ++ ['m', 's']

omit [F64Ops] in
theorem formatTime_toList {n : Nat} (hn : n < 2 ^ 63) :
    (formatTime (Int64.ofNat n)).toList = 'T' :: '#' :: timeText n := by
  have hmin : (n : Int) / 60000 = (n / 60000 : Nat) := by omega
  have hsec : (n : Int) % 60000 / 1000 = (n % 60000 / 1000 : Nat) := by omega
  have hrem : (n : Int) % 1000 = (n % 1000 : Nat) := by omega
  have hshort : (n : Int) / 1000 = (n / 1000 : Nat) := by omega
  simp only [formatTime, toInt_ofNat hn, hmin, hsec, hrem, hshort, timeText, secondsText]
  by_cases hlong : 60000 ≤ n
  · rw [if_pos (by omega), if_pos hlong]
    by_cases hms : 0 < n % 1000
    · rw [if_pos (by omega), if_pos hms]
      simp only [String.toList_append, toList_toString_cast, List.append_assoc]
      rfl
    · rw [if_neg (by omega), if_neg hms]
      by_cases hs : 0 < n % 60000 / 1000
      · rw [if_pos (by omega), if_pos hs]
        simp only [String.toList_append, toList_toString_cast, List.append_assoc]
        rfl
      · rw [if_neg (by omega), if_neg hs]
        simp only [String.toList_append, toList_toString_cast, List.append_assoc]
        rfl
  · rw [if_neg (by omega), if_neg hlong]
    by_cases hs : 1000 ≤ n
    · rw [if_pos (by omega), if_pos hs]
      by_cases hms : 0 < n % 1000
      · rw [if_pos (by omega), if_pos hms]
        simp only [String.toList_append, toList_toString_cast, List.append_assoc]
        rfl
      · rw [if_neg (by omega), if_neg hms, if_pos (by omega)]
        simp only [String.toList_append, toList_toString_cast, List.append_assoc]
        rfl
    · rw [if_neg (by omega), if_neg hs]
      simp only [String.toList_append, toList_toString_cast, List.append_assoc]
      rfl

omit [F64Ops] in
theorem parseI64_timeText (n : Nat) : parseI64 (timeText n) = none := by
  unfold timeText
  split
  · exact (parseI64_followed _ (by decide) _).1
  · split
    · next hsec =>
      unfold secondsText
      split
      · exact (parseI64_followed _ (by decide) _).1
      · rw [if_pos (by omega)]
        exact (parseI64_followed _ (by decide) _).1
    · exact (parseI64_followed _ (by decide) _).1

section

variable {rt : RealText} (hr : WholeReals rt)
include hr

theorem walk_secondsText {sec rem : Nat} (hsec : sec < 60) (hrem : rem < 1000) :
    ∃ parts : List Nat, parts.sum = sec * 1000 + rem ∧
      ∀ total, timeWalk (secondsText sec rem) [] total = addParts parts total := by
  unfold secondsText
  split
  · refine ⟨[sec * 1000, rem], by simp, fun total => ?_⟩
    rw [walk_seconds hr hsec]
    have hlast : (fun total => timeWalk (digits rem ++ ['m', 's']) [] total) = addParts [rem] := by
      funext t
      rw [walk_ms hr (by omega), realMs_small hr (by omega)]
      simp only [addParts, List.foldlM_cons, List.foldlM_nil, bind_pure]
    rw [hlast]
    rfl
  · split
    · next hms _ =>
      refine ⟨[sec * 1000], by rw [List.sum_singleton]; omega, fun total => ?_⟩
      rw [walk_seconds hr hsec]
      rfl
    · exact ⟨[], by rw [List.sum_nil]; omega, fun total => rfl⟩

theorem walk_timeText {n : Nat} (hn : n < 2 ^ 63) :
    ∃ parts : List Nat, parts.sum = realMs (n / 60000 * 60000) + n % 60000 ∧
      timeWalk (timeText n) [] 0 = addParts parts 0 := by
  have hzero : n < 60000 → realMs (n / 60000 * 60000) = 0 := fun h => by
    rw [realMs_small hr (by omega)]
    omega
  unfold timeText
  split
  · have hsec : n % 60000 / 1000 < 60 := by omega
    have hrem : n % 1000 < 1000 := by omega
    obtain ⟨parts, hsum, hwalk⟩ := walk_secondsText hr hsec hrem
    refine ⟨realMs (n / 60000 * 60000) :: parts, by rw [List.sum_cons, hsum]; omega, ?_⟩
    have hrest : (secondsText (n % 60000 / 1000) (n % 1000)).head? ≠ some 's' := by
      obtain ⟨d, ds, hds, hd⟩ := exists_digits (n % 60000 / 1000)
      have hne : d ≠ 's' := isDigit_ne hd (by decide)
      unfold secondsText
      rw [hds]
      split
      · simpa using hne
      · split
        · simpa using hne
        · simp
    rw [walk_minutes hr hrest (by omega)]
    have hfun : (fun total => timeWalk (secondsText (n % 60000 / 1000) (n % 1000)) [] total) =
        addParts parts := funext hwalk
    rw [hfun]
    rfl
  · split
    · have hsec : n / 1000 < 60 := by omega
      have hrem : n % 1000 < 1000 := by omega
      obtain ⟨parts, hsum, hwalk⟩ := walk_secondsText hr hsec hrem
      exact ⟨parts, by rw [hsum, hzero (by omega)]; omega, hwalk 0⟩
    · refine ⟨[n], by rw [hzero (by omega), List.sum_singleton]; omega, ?_⟩
      rw [walk_ms hr hn, realMs_small hr (by omega)]
      simp only [addParts, List.foldlM_cons, List.foldlM_nil, bind_pure]

/-- The text of a time that is not negative is read as its seconds and milliseconds and
what becomes of its minutes. -/
theorem parse_formatTime {n : Nat} (hn : n < 2 ^ 63) (y : Int64) :
    parseTimeString (formatTime (Int64.ofNat n)) = .ok y ↔
      y.toInt = realMs (n / 60000 * 60000) + n % 60000 := by
  obtain ⟨parts, hsum, hwalk⟩ := walk_timeText hr hn
  have hzero : (0 : Int64).toInt = 0 := rfl
  rw [parseTimeString_walk (formatTime_toList hn) (parseI64_timeText n), hwalk,
    addParts_iff (Int.le_of_eq hzero.symm), hsum, hzero]
  omega

/-- The sign of a negative time is not read. -/
theorem parse_formatTime_neg {ms y : Int64} (hneg : ms.toInt < 0)
    (h : parseTimeString (formatTime ms) = .ok y) : 0 ≤ y.toInt := by
  have htext : (formatTime ms).toList =
      'T' :: '#' :: '-' :: (digits ms.toInt.natAbs ++ ['m', 's']) := by
    simp only [formatTime]
    rw [if_neg (by omega), if_neg (by omega), String.toList_append, String.toList_append,
      toList_toString_int, if_pos hneg]
    rfl
  rw [parseTimeString_walk htext (parseI64_followed _ (by decide) _).2] at h
  have hskip : timeWalk ('-' :: (digits ms.toInt.natAbs ++ ['m', 's'])) [] 0 =
      timeWalk (digits ms.toInt.natAbs ++ ['m', 's']) [] 0 := by
    rw [timeWalk.eq_def]
    rfl
  rw [hskip] at h
  have hzero : (0 : Int64).toInt = 0 := rfl
  by_cases hsmall : ms.toInt.natAbs < 2 ^ 63
  · rw [walk_ms hr hsmall, hzero] at h
    have := checkedI64_iff.mp h
    omega
  · obtain ⟨x, hx, hnonneg, -⟩ := hr.parse_large _ (Nat.le_of_not_lt hsmall)
    have htext : String.ofList (digits ms.toInt.natAbs) = toString ms.toInt.natAbs := by
      rw [← toList_toString, String.ofList_toList]
    rw [timeWalk_digits fun c hc => isDigit_of_mem_digits hc, List.nil_append, timeWalk_ms, addMs,
      realOrZero, htext, hx, Option.getD_some, hzero, Int.zero_add] at h
    cases hc : checkedI64 (F64Ops.toInt x).toInt with
    | error e =>
      rw [hc] at h
      cases h
    | ok t =>
      rw [hc] at h
      obtain rfl : t = y := Except.ok.inj h
      rw [checkedI64_iff.mp hc]
      exact hnonneg

end

/-! ## Reading a value -/

/-- What the server makes of a text, by the type. -/
def IecType.read (value : String) : IecType → Except Panic Variant
  | .bool => .ok (.boolean (eqIgnoreAsciiCase value "true" || value == "1"))
  | .sint => .ok (.sbyte (intOr 0 value.toList).toInt8)
  | .int => .ok (.int16 (intOr 0 value.toList).toInt16)
  | .dint => .ok (.int32 (intOr 0 value.toList).toInt32)
  | .lint => .ok (.int64 (intOr 0 value.toList))
  | .usint | .byte => .ok (.byte (uintOrZero value.toList).toUInt8)
  | .uint | .word => .ok (.uint16 (uintOrZero value.toList).toUInt16)
  | .udint | .dword => .ok (.uint32 (uintOrZero value.toList).toUInt32)
  | .ulint | .lword => .ok (.uint64 (uintOrZero value.toList))
  | .string => .ok (.string (String.ofList (stripQuotes value.toList)))
  | .time => (parseTimeString value).map .int64

theorem parse_name (rt : RealText) (value : String) (t : IecType) :
    parseValueToVariant rt value t.name = t.read value := by
  cases t <;> rfl

theorem parse_shown (rt : RealText) (value : String) (t : IecType) :
    parseValueToVariant rt value t.shown = t.read value := by
  cases t <;> rfl

omit [F64Ops] in
theorem intOr_toString (i : Int64) : intOr 0 (toString i.toInt).toList = i := by
  rw [intOr, parseI64_toString, Option.getD_some]

omit [F64Ops] in
theorem uintOrZero_toString (u : UInt64) : uintOrZero (toString u.toNat).toList = u := by
  rw [toList_toString, uintOrZero, parseU64_digits u.toNat_lt, Option.getD_some, UInt64.ofNat_toNat]

omit [F64Ops] in
theorem stripQuotes_quoted (cs : List Char) : stripQuotes ('\'' :: (cs ++ ['\''])) = cs := by
  unfold stripQuotes
  rw [if_pos]
  · rw [List.drop_succ_cons, List.drop_zero, List.dropLast_concat]
  · refine ⟨rfl, ?_, by simp⟩
    rw [← List.cons_append, List.getLast?_concat]

/-- **Reading** gives the variant that denotes the value, unless it is a time that is
negative or has too many minutes. -/
theorem parse_format_iff {rt : RealText} (hr : WholeReals rt) {t : IecType} {v : Value}
    {x : Variant} (h : Denotes t v x) :
    parseValueToVariant rt (formatValue rt.fixed6 v) t.name = .ok x ↔ TimeExact v := by
  rw [parse_name]
  cases h with
  | bool b =>
    have htrue : (eqIgnoreAsciiCase "TRUE" "true" || "TRUE" == "1") = true := by decide
    have hfalse : (eqIgnoreAsciiCase "FALSE" "true" || "FALSE" == "1") = false := by decide
    refine iff_of_true ?_ trivial
    cases b with
    | true => simp only [IecType.read, formatValue, if_true, htrue]
    | false => simp only [IecType.read, formatValue, Bool.false_eq_true, if_false, hfalse]
  | sint i => exact iff_of_true (by rw [IecType.read, formatValue, intOr_toString, Int8.toInt8_toInt64]) trivial
  | int i => exact iff_of_true (by rw [IecType.read, formatValue, intOr_toString, Int16.toInt16_toInt64]) trivial
  | dint i => exact iff_of_true (by rw [IecType.read, formatValue, intOr_toString, Int32.toInt32_toInt64]) trivial
  | lint i => exact iff_of_true (by rw [IecType.read, formatValue, intOr_toString]) trivial
  | usint u | byte u =>
    exact iff_of_true (by rw [IecType.read, formatValue, uintOrZero_toString, UInt8.toUInt8_toUInt64]) trivial
  | uint u | word u =>
    exact iff_of_true (by rw [IecType.read, formatValue, uintOrZero_toString, UInt16.toUInt16_toUInt64]) trivial
  | udint u | dword u =>
    exact iff_of_true (by rw [IecType.read, formatValue, uintOrZero_toString, UInt32.toUInt32_toUInt64]) trivial
  | ulint u | lword u => exact iff_of_true (by rw [IecType.read, formatValue, uintOrZero_toString]) trivial
  | string s =>
    refine iff_of_true ?_ trivial
    have htext : ("'" ++ s ++ "'").toList = '\'' :: (s.toList ++ ['\'']) := by
      rw [String.toList_append, String.toList_append]
      rfl
    rw [IecType.read, formatValue, htext, stripQuotes_quoted, String.ofList_toList]
  | time ms =>
    have hread : IecType.read (formatTime ms) .time = .ok (.int64 ms) ↔
        parseTimeString (formatTime ms) = .ok ms := by
      simp only [IecType.read]
      cases parseTimeString (formatTime ms) with
      | error e => exact ⟨fun h => (by cases h), fun h => (by cases h)⟩
      | ok y => simp [Except.map]
    rw [formatValue, hread, TimeExact]
    by_cases hneg : ms.toInt < 0
    · refine iff_of_false (fun h => ?_) (by omega)
      have := parse_formatTime_neg hr hneg h
      omega
    · have hbound := ms.toInt_lt
      have hms : Int64.ofNat ms.toInt.toNat = ms := by
        rw [← Int64.ofInt_eq_ofNat, Int.toNat_of_nonneg (by omega), Int64.ofInt_toInt]
      have htime := parse_formatTime hr (n := ms.toInt.toNat) (by omega) ms
      rw [hms] at htime
      rw [htime, isReal_iff hr (by omega)]
      omega

/-! ## Writing a value -/

/-- What a client reads after it wrote the variant to a variable of the type. -/
def readAfterWrite (rt : RealText) (t : IecType) (x : Variant) : Except Panic Variant :=
  parseValueToVariant rt (formatValue rt.fixed6
    (narrowValue (parseValueString (variantToValueString rt x)) t.width)) t.shown

/-- The string is read as a string, or it is the text with which its truth value or its
number is shown. -/
def StringKept (rt : RealText) (s : String) : Prop :=
  match parseValueString s with
  | .string _ => True
  | v => stripQuotes (formatValue rt.fixed6 v).toList = s.toList

/-- What survives a write: all but unsigned numbers above `i64::MAX` and strings that
read as something else. -/
def WriteKept (rt : RealText) : Value → Prop
  | .uint u => u.toNat < 2 ^ 63
  | .string s => StringKept rt s
  | _ => True

omit [F64Ops] in
theorem ofNat_toUInt64 (n : Nat) : (Int64.ofNat n).toUInt64 = UInt64.ofNat n := rfl

theorem parseValueString_nat {n : Nat} (h : n < 2 ^ 63) :
    parseValueString (toString n) = .int (Int64.ofNat n) := by
  have htext : toString n = toString (Int64.ofNat n).toInt := by
    rw [toInt_ofNat h]
    rfl
  rw [htext, parseValueString_int]

omit [F64Ops] in
/-- A number with a point is no `u64`. -/
theorem uintOrZero_point {cs : List Char} (h : '.' ∈ cs) : uintOrZero cs = 0 := by
  have hdigits : ∀ ds : List Char, '.' ∈ ds → parseDigits ds = none := by
    intro ds hds
    cases hn : parseDigits ds with
    | none => rfl
    | some n => exact absurd (digits_of_parseDigits hn _ hds) (by decide)
  unfold uintOrZero parseU64
  split
  · next rest =>
    have hrest : '.' ∈ rest := (List.mem_cons.mp h).resolve_left (by decide)
    simp only [hdigits rest hrest, Option.bind_none, Option.getD_none]
  · simp only [hdigits cs h, Option.bind_none, Option.getD_none]

/-- An `f64` that was read from digits is shown with its point. -/
theorem parseValueString_large {rt : RealText} (hr : WholeReals rt) {n : Nat} (h : 2 ^ 63 ≤ n) :
    ∃ r, parseValueString (toString n) = .real r ∧ '.' ∈ (rt.fixed6 r).toList := by
  obtain ⟨r, hparse, -, hpoint⟩ := hr.parse_large n h
  have htrue : eqIgnoreAsciiCase (toString n) "true" = false :=
    toString_no_word (n : Int) rfl rfl (by decide)
  have hfalse : eqIgnoreAsciiCase (toString n) "false" = false :=
    toString_no_word (n : Int) rfl rfl (by decide)
  have hi64 : parseI64 (toString n).toList = none := by
    rw [toList_toString, parseI64_digits, if_neg (Nat.not_lt.mpr h)]
  refine ⟨r, ?_, hpoint⟩
  simp only [parseValueString, hi64, hparse, htrue, hfalse, Bool.false_eq_true, if_false]

theorem parseTimeString_int (i : Int64) : parseTimeString (toString i.toInt) = .ok i := by
  have hstrip : stripAny ["T#".toList, "t#".toList] (toString i.toInt).toList =
      (toString i.toInt).toList := by
    have hhead : ∀ c cs, c ≠ 'T' → c ≠ 't' →
        stripAny ["T#".toList, "t#".toList] (c :: cs) = c :: cs := by
      intro c cs hT ht
      have hT' : ("T#".toList.isPrefixOf (c :: cs)) = false := by simp [List.isPrefixOf, Ne.symm hT]
      have ht' : ("t#".toList.isPrefixOf (c :: cs)) = false := by simp [List.isPrefixOf, Ne.symm ht]
      simp only [stripAny, hT', ht', Bool.false_eq_true, if_false]
    rw [toList_toString_int]
    split
    · exact hhead _ _ (by decide) (by decide)
    · obtain ⟨d, ds, hds, hd⟩ := exists_digits i.toInt.natAbs
      rw [hds]
      exact hhead d ds (isDigit_ne hd (by decide)) (isDigit_ne hd (by decide))
  simp only [parseTimeString, hstrip, parseI64_toString]

theorem parseValueString_bool (b : Bool) :
    parseValueString (if b then "TRUE" else "FALSE") = .bool b := by
  cases b with
  | true =>
    have htrue : eqIgnoreAsciiCase "TRUE" "true" = true := by decide
    exact if_pos htrue
  | false =>
    have hfalse : ¬ eqIgnoreAsciiCase "FALSE" "true" = true := by decide
    have hfalse' : eqIgnoreAsciiCase "FALSE" "false" = true := by decide
    exact (if_neg hfalse).trans (if_pos hfalse')

/-- A number or a truth value arrives as it was. -/
theorem write_arrives {rt : RealText} {t : IecType} {v : Value} {x : Variant} (h : Denotes t v x)
    (hkept : WriteKept rt v) (hstring : t ≠ .string) (htime : t ≠ .time) :
    narrowValue (parseValueString (variantToValueString rt x)) t.width = v := by
  cases h with
  | bool b =>
    rw [variantToValueString, parseValueString_bool]
    rfl
  | sint i =>
    rw [variantToValueString, ← Int8.toInt_toInt64, parseValueString_int]
    exact congrArg (fun j : Int8 => Value.int j.toInt64) (Int8.toInt8_toInt64 i)
  | int i =>
    rw [variantToValueString, ← Int16.toInt_toInt64, parseValueString_int]
    exact congrArg (fun j : Int16 => Value.int j.toInt64) (Int16.toInt16_toInt64 i)
  | dint i =>
    rw [variantToValueString, ← Int32.toInt_toInt64, parseValueString_int]
    exact congrArg (fun j : Int32 => Value.int j.toInt64) (Int32.toInt32_toInt64 i)
  | lint i =>
    rw [variantToValueString, parseValueString_int]
    rfl
  | usint u | byte u =>
    have hu := u.toNat_lt
    rw [variantToValueString, parseValueString_nat (by omega)]
    change Value.uint (Int64.ofNat u.toNat).toUInt64.toUInt8.toUInt64 = _
    rw [ofNat_toUInt64, UInt64.ofNat_uInt8ToNat, UInt8.toUInt8_toUInt64]
  | uint u | word u =>
    have hu := u.toNat_lt
    rw [variantToValueString, parseValueString_nat (by omega)]
    change Value.uint (Int64.ofNat u.toNat).toUInt64.toUInt16.toUInt64 = _
    rw [ofNat_toUInt64, UInt64.ofNat_uInt16ToNat, UInt16.toUInt16_toUInt64]
  | udint u | dword u =>
    have hu := u.toNat_lt
    rw [variantToValueString, parseValueString_nat (by omega)]
    change Value.uint (Int64.ofNat u.toNat).toUInt64.toUInt32.toUInt64 = _
    rw [ofNat_toUInt64, UInt64.ofNat_uInt32ToNat, UInt32.toUInt32_toUInt64]
  | ulint u | lword u =>
    rw [variantToValueString, parseValueString_nat hkept]
    change Value.uint (Int64.ofNat u.toNat).toUInt64 = _
    rw [ofNat_toUInt64, UInt64.ofNat_toNat]
  | string s => exact absurd rfl hstring
  | time ms => exact absurd rfl htime

theorem parseValueString_string {s s' : String} (h : parseValueString s = .string s') : s' = s := by
  unfold parseValueString at h
  split at h
  · cases h
  · split at h
    · cases h
    · split at h
      · cases h
      · split at h
        · cases h
        · exact (Value.string.inj h).symm

/-- **Writing** a value where its width is looked at, and reading it again. -/
theorem readAfterWrite_iff {rt : RealText} (hr : WholeReals rt) {t : IecType} {v : Value}
    {x : Variant} (h : Denotes t v x) : readAfterWrite rt t x = .ok x ↔ WriteKept rt v := by
  have harrived : WriteKept rt v → t ≠ .string → t ≠ .time → readAfterWrite rt t x = .ok x := by
    intro hkept hstring htime
    have hexact : TimeExact v := by
      cases h <;> trivial
    rw [readAfterWrite, write_arrives h hkept hstring htime, parse_shown, ← parse_name rt]
    exact (parse_format_iff hr h).mpr hexact
  cases h with
  | bool b => exact iff_of_true (harrived trivial (by decide) (by decide)) trivial
  | sint i => exact iff_of_true (harrived trivial (by decide) (by decide)) trivial
  | int i => exact iff_of_true (harrived trivial (by decide) (by decide)) trivial
  | dint i => exact iff_of_true (harrived trivial (by decide) (by decide)) trivial
  | lint i => exact iff_of_true (harrived trivial (by decide) (by decide)) trivial
  | usint u | byte u | uint u | word u | udint u | dword u =>
    have hkept : WriteKept rt (.uint u.toUInt64) := by
      have hu := u.toNat_lt
      rw [WriteKept]
      simp only [UInt8.toNat_toUInt64, UInt16.toNat_toUInt64, UInt32.toNat_toUInt64]
      omega
    exact iff_of_true (harrived hkept (by decide) (by decide)) hkept
  | ulint u | lword u =>
    by_cases hu : u.toNat < 2 ^ 63
    · exact iff_of_true (harrived hu (by decide) (by decide)) hu
    · refine iff_of_false (fun hread => ?_) hu
      obtain ⟨r, hr, hpoint⟩ := parseValueString_large hr (Nat.le_of_not_lt hu)
      rw [readAfterWrite, parse_shown, variantToValueString, hr] at hread
      have hzero : Variant.uint64 0 = .uint64 u := by
        refine Except.ok.inj (Eq.trans ?_ hread)
        change _ = Except.ok (Variant.uint64 (uintOrZero (rt.fixed6 r).toList))
        rw [uintOrZero_point hpoint]
      obtain rfl := Variant.uint64.inj hzero
      exact hu (by decide)
  | string s =>
    rw [readAfterWrite, parse_shown, WriteKept, StringKept]
    change Except.ok (Variant.string (String.ofList (stripQuotes (formatValue rt.fixed6
      (parseValueString s)).toList))) = _ ↔ _
    rw [Except.ok.injEq, Variant.string.injEq]
    have htext : ∀ cs : List Char, String.ofList cs = s ↔ cs = s.toList := fun cs =>
      ⟨fun h => by rw [← h, String.toList_ofList], fun h => by rw [h, String.ofList_toList]⟩
    rw [htext]
    cases hv : parseValueString s with
    | string s' =>
      obtain rfl := parseValueString_string hv
      refine iff_of_true ?_ trivial
      rw [formatValue, String.toList_append, String.toList_append]
      exact stripQuotes_quoted s'.toList
    | _ => exact Iff.rfl
  | time ms =>
    refine iff_of_true ?_ trivial
    rw [readAfterWrite, parse_shown, variantToValueString, parseValueString_int]
    change (parseTimeString (toString ms.toInt)).map Variant.int64 = _
    rw [parseTimeString_int]
    rfl

end RustPlc.Target
