import Mathlib.Algebra.Group.Int.Defs
import Mathlib.Algebra.GroupWithZero.Nat
import Mathlib.Data.List.Basic
import Mathlib.Data.Int.Order.Basic

/-!
# Runtime values

`Value` (crates/st-ir/src/lib.rs:162-255) is what a register, a variable
slot or an instance field holds. `i64` is `Int64`, `u64` is `UInt64`, and
the `as` casts between the integer types are the corresponding Lean casts.

Rust traps on integer overflow in the checked build the test suite uses, so
an operation that can overflow or divide by zero returns `Except Panic`. A
division overflow (`i64::MIN / -1`) panics in every build.

`f64` is its bit pattern (`F64`). Comparison, negation and the zero test are
read off the bits; the arithmetic, the conversions and the library functions
come from the `F64Ops` parameter.
-/
namespace RustPlc.Ir

/-- A panic raised inside an operator: what stops the process instead of
returning an error. -/
inductive Panic where
  | arithmetic
  | strSlice
  deriving DecidableEq, Repr

/-! ## Floating point -/

/-- An `f64`, by its IEEE 754 bit pattern. -/
structure F64 where
  bits : UInt64
  deriving DecidableEq, Repr

namespace F64

def zero : F64 := ⟨0⟩

/-- Biased exponent all ones and a non-zero fraction. -/
def isNan (a : F64) : Bool := decide (0x7FF0000000000000 < a.bits &&& 0x7FFFFFFFFFFFFFFF)

/-- The value order on the non-NaN patterns: sign and magnitude. -/
def order (a : F64) : Int :=
  let mag : Int := (a.bits &&& 0x7FFFFFFFFFFFFFFF).toNat
  if a.bits &&& 0x8000000000000000 = 0 then mag else -mag

def eq (a b : F64) : Bool := !a.isNan && !b.isNan && a.order == b.order

def lt (a b : F64) : Bool := !a.isNan && !b.isNan && decide (a.order < b.order)

def le (a b : F64) : Bool := !a.isNan && !b.isNan && decide (a.order ≤ b.order)

def neg (a : F64) : F64 := ⟨a.bits ^^^ 0x8000000000000000⟩

end F64

/-- The `f64` operations of the hardware and of Rust's standard library.
`toInt` and `toUInt` are the saturating `as` casts. -/
class F64Ops where
  add : F64 → F64 → F64
  sub : F64 → F64 → F64
  mul : F64 → F64 → F64
  div : F64 → F64 → F64
  powf : F64 → F64 → F64
  sqrt : F64 → F64
  sin : F64 → F64
  cos : F64 → F64
  tan : F64 → F64
  asin : F64 → F64
  acos : F64 → F64
  atan : F64 → F64
  ln : F64 → F64
  log10 : F64 → F64
  exp : F64 → F64
  ofInt : Int64 → F64
  ofUInt : UInt64 → F64
  toInt : F64 → Int64
  toUInt : F64 → UInt64
  parse : String → Option F64
  debugFmt : F64 → String

instance : Inhabited F64Ops :=
  ⟨{ add := fun a _ => a, sub := fun a _ => a, mul := fun a _ => a, div := fun a _ => a,
     powf := fun a _ => a, sqrt := id, sin := id, cos := id, tan := id, asin := id, acos := id,
     atan := id, ln := id, log10 := id, exp := id, ofInt := fun _ => F64.zero,
     ofUInt := fun _ => F64.zero, toInt := fun _ => 0, toUInt := fun _ => 0,
     parse := fun _ => none, debugFmt := fun _ => "" }⟩

/-! ## Types and values -/

/-- mirrors crates/st-ir/src/lib.rs:89-111 -/
inductive IntWidth where
  | none | i8 | u8 | i16 | u16 | i32 | u32 | i64 | u64
  deriving DecidableEq, Repr

/-- mirrors crates/st-ir/src/lib.rs:131-144. The payload of `fbInstance` and
`classInstance` indexes `Module.functions`, that of `struct` and `array`
indexes `Module.typeDefs`. -/
inductive VarType where
  | bool | int | uint | real | string | time
  | fbInstance (idx : UInt16)
  | classInstance (idx : UInt16)
  | struct (idx : UInt16)
  | array (idx : UInt16)
  | ref
  deriving DecidableEq, Repr

/-- mirrors crates/st-ir/src/lib.rs:147-159 -/
def VarType.size : VarType → Nat
  | .bool => 1
  | .int | .uint | .real | .time => 8
  | .string => 24
  | .fbInstance _ | .classInstance _ | .struct _ | .array _ => 0
  | .ref => 4

/-- mirrors crates/st-ir/src/lib.rs:162-176 -/
inductive Value where
  | bool (b : Bool)
  | int (i : Int64)
  | uint (u : UInt64)
  | real (r : F64)
  | string (s : String)
  | time (ms : Int64)
  | ref (tag slot : UInt16)
  | null
  | void
  deriving DecidableEq, Repr

namespace Value

/-- mirrors crates/st-ir/src/lib.rs:179-188 -/
def asBool : Value → Bool
  | .bool b => b
  | .int i => i != 0
  | .uint u => u != 0
  | .real r => !r.eq F64.zero
  | .time ms => ms != 0
  | _ => false

/-- mirrors crates/st-ir/src/lib.rs:233-247 -/
def defaultForType : VarType → Value
  | .bool => .bool false
  | .int => .int 0
  | .uint => .uint 0
  | .real => .real F64.zero
  | .string => .string ""
  | .time => .time 0
  | .fbInstance _ | .classInstance _ | .struct _ | .array _ => .void
  | .ref => .null

/-- mirrors crates/st-ir/src/lib.rs:250-254 (`Value::default()`) -/
def dflt : Value := .int 0

variable [F64Ops]

/-- mirrors crates/st-ir/src/lib.rs:190-199 -/
def asInt : Value → Int64
  | .int i => i
  | .uint u => u.toInt64
  | .bool b => if b then 1 else 0
  | .real r => F64Ops.toInt r
  | .time ms => ms
  | _ => 0

/-- mirrors crates/st-ir/src/lib.rs:201-209 -/
def asReal : Value → F64
  | .real r => r
  | .int i => F64Ops.ofInt i
  | .uint u => F64Ops.ofUInt u
  | .time ms => F64Ops.ofInt ms
  | _ => F64.zero

/-- mirrors crates/st-ir/src/lib.rs:211-220 -/
def asTime : Value → Int64
  | .time ms => ms
  | .int i => i
  | .uint u => u.toInt64
  | .real r => F64Ops.toInt r
  | .bool b => if b then 1 else 0
  | _ => 0

/-- mirrors crates/st-ir/src/lib.rs:222-231 -/
def asUInt : Value → UInt64
  | .uint u => u
  | .int i => i.toUInt64
  | .bool b => if b then 1 else 0
  | .real r => F64Ops.toUInt r
  | .time ms => ms.toUInt64
  | _ => 0

end Value

/-! ## Narrowing -/

/-- mirrors crates/st-engine/src/vm.rs:2437-2484. An integer is wrapped to
the declared width and put in the variant of its signedness; any other value
passes through. -/
def narrowValue (v : Value) : IntWidth → Value
  | .none => v
  | .i64 => match v with
    | .uint u => .int u.toInt64
    | other => other
  | .u64 => match v with
    | .int i => .uint i.toUInt64
    | other => other
  | .i8 => match v with
    | .int i => .int i.toInt8.toInt64
    | .uint u => .int u.toUInt8.toInt8.toInt64
    | other => other
  | .u8 => match v with
    | .int i => .uint i.toUInt64.toUInt8.toUInt64
    | .uint u => .uint u.toUInt8.toUInt64
    | other => other
  | .i16 => match v with
    | .int i => .int i.toInt16.toInt64
    | .uint u => .int u.toUInt16.toInt16.toInt64
    | other => other
  | .u16 => match v with
    | .int i => .uint i.toUInt64.toUInt16.toUInt64
    | .uint u => .uint u.toUInt16.toUInt64
    | other => other
  | .i32 => match v with
    | .int i => .int i.toInt32.toInt64
    | .uint u => .int u.toUInt32.toInt32.toInt64
    | other => other
  | .u32 => match v with
    | .int i => .uint i.toUInt64.toUInt32.toUInt64
    | .uint u => .uint u.toUInt32.toUInt64
    | other => other

example : narrowValue (.int 200) .i8 = .int (-56) := by decide
example : narrowValue (.int (-1)) .u16 = .uint 65535 := by decide

end RustPlc.Ir
