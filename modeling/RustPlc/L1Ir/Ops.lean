import RustPlc.L1Ir.Module

/-!
# Value operators

The operators the interpreter applies to register contents: `arith_op`,
`cmp_op` and the arithmetic, calendar, partial-access and string arms of
`Vm::execute` (crates/st-engine/src/vm.rs). They depend on the operand
values only, so the bytecode and the source-level interpreter share them.

Strings are UTF-8: lengths and positions count bytes, and a slice that would
cut a character panics.
-/
namespace RustPlc.Ir

/-! ## Checked machine arithmetic -/

/-- An `Int` result that must fit `i64`. -/
def checkedI64 (z : Int) : Except Panic Int64 :=
  if -9223372036854775808 ≤ z ∧ z ≤ 9223372036854775807 then .ok (Int64.ofInt z)
  else .error .arithmetic

/-- `a / b` on `i64`: panics on a zero divisor and on `i64::MIN / -1`. -/
def checkedDiv (a b : Int64) : Except Panic Int64 :=
  if b = 0 then .error .arithmetic
  else if a = Int64.minValue ∧ b = -1 then .error .arithmetic
  else .ok (a / b)

/-- `a % b` on `i64`, with the panics of `a / b`. -/
def checkedRem (a b : Int64) : Except Panic Int64 :=
  if b = 0 then .error .arithmetic
  else if a = Int64.minValue ∧ b = -1 then .error .arithmetic
  else .ok (a % b)

/-- `-a` on `i64`. -/
def checkedNeg (a : Int64) : Except Panic Int64 :=
  if a = Int64.minValue then .error .arithmetic else .ok (-a)

/-- `a >> n` on `i64`; a distance outside `0..63` panics. -/
def checkedShr (a : Int64) (n : Int) : Except Panic Int64 :=
  if 0 ≤ n ∧ n < 64 then .ok (a >>> Int64.ofInt n) else .error .arithmetic

/-- `a << n` on `i64`; a distance outside `0..63` panics. -/
def checkedShl (a : Int64) (n : Int) : Except Panic Int64 :=
  if 0 ≤ n ∧ n < 64 then .ok (a <<< Int64.ofInt n) else .error .arithmetic

/-! ## Arithmetic and comparison -/

/-- The divisor test of `Div`: only an integer zero is reported. -/
def isIntZero : Value → Bool
  | .int i => i == 0
  | .uint u => u.toInt64 == 0
  | _ => false

section

variable [F64Ops]

/-- mirrors crates/st-engine/src/vm.rs:2381-2399 -/
def arithOp (lv rv : Value) (intOp : Int64 → Int64 → Except Panic Int64)
    (realOp : F64 → F64 → F64) : Except Panic Value :=
  match lv, rv with
  | .real _, _ | _, .real _ => .ok (.real (realOp lv.asReal rv.asReal))
  | .time _, _ | _, .time _ => (intOp lv.asInt rv.asInt).map .time
  | _, _ => (intOp lv.asInt rv.asInt).map .int

/-- mirrors crates/st-engine/src/vm.rs:2401-2427 -/
def cmpOp (lv rv : Value) (intCmp : Int64 → Int64 → Bool) (realCmp : F64 → F64 → Bool) : Bool :=
  match lv, rv with
  | .null, .null => intCmp 0 0
  | .ref _ _, .null | .null, .ref _ _ => intCmp 1 0
  | .ref t1 s1, .ref t2 s2 => if t1 = t2 ∧ s1 = s2 then intCmp 0 0 else intCmp 1 0
  | .real _, _ | _, .real _ => realCmp lv.asReal rv.asReal
  | _, _ => intCmp lv.asInt rv.asInt

def addValues (l r : Value) : Except Panic Value :=
  arithOp l r (fun a b => .ok (a + b)) F64Ops.add

def subValues (l r : Value) : Except Panic Value :=
  arithOp l r (fun a b => .ok (a - b)) F64Ops.sub

def mulValues (l r : Value) : Except Panic Value :=
  arithOp l r (fun a b => .ok (a * b)) F64Ops.mul

def divValues (l r : Value) : Except Panic Value := arithOp l r checkedDiv F64Ops.div

def remValues (l r : Value) : Except Panic Value := (checkedRem l.asInt r.asInt).map .int

def powValues (l r : Value) : Value := .real (F64Ops.powf l.asReal r.asReal)

def negValue : Value → Except Panic Value
  | .int i => (checkedNeg i).map .int
  | .real r => .ok (.real r.neg)
  | v => (checkedNeg v.asInt).map .int

def eqValues (l r : Value) : Value := .bool (cmpOp l r (· == ·) F64.eq)
def neValues (l r : Value) : Value := .bool (cmpOp l r (· != ·) fun a b => !F64.eq a b)
def ltValues (l r : Value) : Value := .bool (cmpOp l r (fun a b => decide (a < b)) F64.lt)
def gtValues (l r : Value) : Value :=
  .bool (cmpOp l r (fun a b => decide (b < a)) fun a b => F64.lt b a)
def leValues (l r : Value) : Value := .bool (cmpOp l r (fun a b => decide (a ≤ b)) F64.le)
def geValues (l r : Value) : Value :=
  .bool (cmpOp l r (fun a b => decide (b ≤ a)) fun a b => F64.le b a)

end

def andValues (l r : Value) : Value := .bool (l.asBool && r.asBool)

def orValues (l r : Value) : Value := .bool (l.asBool || r.asBool)

def xorValues (l r : Value) : Value := .bool (l.asBool ^^ r.asBool)

def notValue (v : Value) : Value := .bool (!v.asBool)

/-- The low `size` bits. -/
def partMask (size : UInt8) : Int64 :=
  if 64 ≤ size.toNat then -1 else (1 <<< Int64.ofNat size.toNat) - 1

/-! ## Calendar -/

/-- Milliseconds in a day. -/
def dayMs : Int := 86400000

section

variable [F64Ops]

def wrapTod (v : Value) : Value := .time (Int64.ofInt (v.asTime.toInt % dayMs))

def extractDate (v : Value) : Except Panic Value :=
  (checkedI64 (v.asTime.toInt / dayMs * dayMs)).map .time

/-- 1970-01-01 was a Thursday. -/
def weekday (v : Value) : Value := .int (Int64.ofInt ((v.asTime.toInt / dayMs + 4) % 7))

/-! ## Partial access -/

def extractBitOf (v : Value) (bit : UInt8) : Except Panic Value :=
  (checkedShr v.asInt bit.toNat).map fun x => .bool (x &&& 1 != 0)

def insertBitOf (base : Value) (bit : UInt8) (val : Value) : Except Panic Value :=
  (checkedShl 1 bit.toNat).map fun m =>
    if val.asBool then .int (base.asInt ||| m) else .int (base.asInt &&& ~~~m)

def extractPartialOf (v : Value) (index size : UInt8) : Except Panic Value :=
  (checkedShr v.asInt (index.toNat * size.toNat)).map fun x => .int (x &&& partMask size)

def insertPartialOf (base : Value) (index size : UInt8) (val : Value) : Except Panic Value := do
  let shift : Int := index.toNat * size.toNat
  let hole ← checkedShl (partMask size) shift
  let part ← checkedShl (val.asInt &&& partMask size) shift
  return .int ((base.asInt &&& ~~~hole) ||| part)

end

/-! ## Strings -/

/-- mirrors crates/st-engine/src/vm.rs:8-13 -/
def regStr : Value → List Char
  | .string s => s.toList
  | _ => []

/-- `str::len`: the number of UTF-8 bytes. -/
def byteLen (cs : List Char) : Nat := (cs.map Char.utf8Size).sum

/-- `(&s[..n], &s[n..])`; panics when `n` is not a character boundary. -/
def splitAtByte : List Char → Nat → Except Panic (List Char × List Char)
  | cs, 0 => .ok ([], cs)
  | [], _ + 1 => .error .strSlice
  | c :: cs, n + 1 =>
    if c.utf8Size ≤ n + 1 then
      (splitAtByte cs (n + 1 - c.utf8Size)).map fun (a, b) => (c :: a, b)
    else .error .strSlice

def strValue (cs : List Char) : Value := .string (String.ofList cs)

/-- `n.max(0).min(s.len() as i64) as usize` -/
def clampLen (n : Int64) (len : Nat) : Nat := min n.toInt.toNat len

/-- mirrors crates/st-engine/src/vm.rs:1561-1566 -/
def stringLeftOf [F64Ops] (s n : Value) : Except Panic Value :=
  let cs := regStr s
  (splitAtByte cs (clampLen n.asInt (byteLen cs))).map fun p => strValue p.1

/-- mirrors crates/st-engine/src/vm.rs:1567-1573 -/
def stringRightOf [F64Ops] (s n : Value) : Except Panic Value :=
  let cs := regStr s
  (splitAtByte cs (byteLen cs - clampLen n.asInt (byteLen cs))).map fun p => strValue p.2

/-- `(start + len as usize)` on `usize`. -/
def checkedUsizeAdd (a b : Nat) : Except Panic Nat :=
  if a + b < 2 ^ 64 then .ok (a + b) else .error .arithmetic

/-- mirrors crates/st-engine/src/vm.rs:1574-1586 -/
def stringMidOf [F64Ops] (s len pos : Value) : Except Panic Value := do
  let cs := regStr s
  let l := len.asInt.toInt
  let p := pos.asInt.toInt
  if p < 1 ∨ l ≤ 0 ∨ byteLen cs < p.toNat then return strValue []
  let start := (p - 1).toNat
  let stop := min (← checkedUsizeAdd start l.toNat) (byteLen cs)
  let (_, rest) ← splitAtByte cs start
  let (mid, _) ← splitAtByte rest (stop - start)
  return strValue mid

/-- `str::find`: the byte offset of the first match. -/
def findSub (needle : List Char) : List Char → Option Nat
  | [] => if needle.isEmpty then some 0 else none
  | c :: cs =>
    if needle.isPrefixOf (c :: cs) then some 0 else (findSub needle cs).map (· + c.utf8Size)

/-- mirrors crates/st-engine/src/vm.rs:1587-1599 -/
def stringFindOf (hay needle : Value) : Value :=
  if (regStr needle).isEmpty then .int 0
  else match findSub (regStr needle) (regStr hay) with
    | some i => .int (Int64.ofNat (i + 1))
    | none => .int 0

/-- mirrors crates/st-engine/src/vm.rs:1600-1610 -/
def stringInsertOf [F64Ops] (s1 s2 pos : Value) : Except Panic Value := do
  let cs := regStr s1
  let (a, b) ← splitAtByte cs (clampLen pos.asInt (byteLen cs))
  return strValue (a ++ regStr s2 ++ b)

/-- mirrors crates/st-engine/src/vm.rs:1611-1626 -/
def stringDeleteOf [F64Ops] (s len pos : Value) : Except Panic Value := do
  let cs := regStr s
  let l := len.asInt.toInt
  let p := pos.asInt.toInt
  if p < 1 ∨ l ≤ 0 ∨ byteLen cs < p.toNat then return strValue cs
  let start := (p - 1).toNat
  let stop := min (← checkedUsizeAdd start l.toNat) (byteLen cs)
  let (a, _) ← splitAtByte cs start
  let (_, b) ← splitAtByte cs stop
  return strValue (a ++ b)

/-- mirrors crates/st-engine/src/vm.rs:1627-1641 -/
def stringReplaceOf [F64Ops] (s1 s2 len pos : Value) : Except Panic Value := do
  let cs := regStr s1
  let p := pos.asInt.toInt
  let cut := if p < 1 then 0 else min (p - 1).toNat (byteLen cs)
  let dropEnd := min (← checkedUsizeAdd cut len.asInt.toInt.toNat) (byteLen cs)
  let (a, _) ← splitAtByte cs cut
  let (_, b) ← splitAtByte cs dropEnd
  return strValue (a ++ regStr s2 ++ b)

/-- `char::is_whitespace` (the Unicode `White_Space` property). -/
def isWhitespace (c : Char) : Bool :=
  let n := c.toNat
  decide (9 ≤ n ∧ n ≤ 13) || n == 0x20 || n == 0x85 || n == 0xA0 || n == 0x1680 ||
    decide (0x2000 ≤ n ∧ n ≤ 0x200A) || n == 0x2028 || n == 0x2029 || n == 0x202F ||
    n == 0x205F || n == 0x3000

def trimStart (cs : List Char) : List Char := cs.dropWhile isWhitespace

def trimEnd (cs : List Char) : List Char := (cs.reverse.dropWhile isWhitespace).reverse

def trim (cs : List Char) : List Char := trimEnd (trimStart cs)

/-- A non-empty run of decimal digits. -/
def parseDigits : List Char → Option Nat
  | [] => none
  | cs => cs.foldl (fun acc c => acc.bind fun n =>
      if c.isDigit then some (n * 10 + (c.toNat - 48)) else none) (some 0)

/-- `str::parse::<i64>`. -/
def parseI64 (cs : List Char) : Option Int64 :=
  let signed : Option Int := match cs with
    | '-' :: rest => (parseDigits rest).map fun n => -(n : Int)
    | '+' :: rest => (parseDigits rest).map fun n => (n : Int)
    | _ => (parseDigits cs).map fun n => (n : Int)
  signed.bind fun z =>
    if -9223372036854775808 ≤ z ∧ z ≤ 9223372036854775807 then some (Int64.ofInt z) else none

/-- `str::parse::<u64>`. -/
def parseU64 (cs : List Char) : Option UInt64 :=
  let digits := match cs with
    | '+' :: rest => rest
    | _ => cs
  (parseDigits digits).bind fun n => if n < 2 ^ 64 then some (UInt64.ofNat n) else none

/-- mirrors crates/st-engine/src/vm.rs:1700-1711 -/
def toStringOf [F64Ops] : Value → String
  | .string s => s
  | .int i => ToString.toString i.toInt
  | .uint u => ToString.toString u.toNat
  | .real r => F64Ops.debugFmt r
  | .bool b => if b then "TRUE" else "FALSE"
  | .time ms => ToString.toString ms.toInt
  | _ => ""

/-- mirrors crates/st-engine/src/vm.rs:1695-1699 -/
def stringToBoolOf (v : Value) : Value :=
  let s := String.ofList (trim (regStr v))
  .bool (eqIgnoreAsciiCase s "TRUE" || s == "1")

end RustPlc.Ir
