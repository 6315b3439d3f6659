import RustPlc.L1Ir.Ops
import RustPlc.L2Compiler.Ast

/-!
# Semantic types

crates/st-semantics/src/types.rs: the types the analyzer computes with. A name
of a user-defined type is replaced by its definition, so a type is a finite
tree; an alias keeps its name around the type it stands for (`resolved` takes
it off).
-/
namespace RustPlc.Analysis

open RustPlc.Ir RustPlc.Syntax

/-- mirrors crates/st-semantics/src/types.rs:9-35 -/
def elementaryName : ElementaryType → String
  | .bool => "BOOL"
  | .sint => "SINT"
  | .int => "INT"
  | .dint => "DINT"
  | .lint => "LINT"
  | .usint => "USINT"
  | .uint => "UINT"
  | .udint => "UDINT"
  | .ulint => "ULINT"
  | .real => "REAL"
  | .lreal => "LREAL"
  | .byte => "BYTE"
  | .word => "WORD"
  | .dword => "DWORD"
  | .lword => "LWORD"
  | .time => "TIME"
  | .ltime => "LTIME"
  | .date => "DATE"
  | .ldate => "LDATE"
  | .tod => "TOD"
  | .ltod => "LTOD"
  | .dt => "DT"
  | .ldt => "LDT"

/-- mirrors crates/st-semantics/src/types.rs:37-49 -/
def isInteger : ElementaryType → Bool
  | .sint | .int | .dint | .lint | .usint | .uint | .udint | .ulint => true
  | _ => false

/-- mirrors crates/st-semantics/src/types.rs:51-53 -/
def isRealType : ElementaryType → Bool
  | .real | .lreal => true
  | _ => false

/-- mirrors crates/st-semantics/src/types.rs:55-57 -/
def isNumeric (e : ElementaryType) : Bool := isInteger e || isRealType e

/-- mirrors crates/st-semantics/src/types.rs:62-80 -/
def integerTypeRange : ElementaryType → Option (Int × Int)
  | .sint => some (-128, 127)
  | .int => some (-32768, 32767)
  | .dint => some (-2147483648, 2147483647)
  | .lint => some (-9223372036854775808, 9223372036854775807)
  | .usint | .byte => some (0, 255)
  | .uint | .word => some (0, 65535)
  | .udint | .dword => some (0, 4294967295)
  | .ulint | .lword => some (0, 18446744073709551615)
  | _ => none

/-- mirrors crates/st-semantics/src/types.rs:83-97 -/
def numericRank : ElementaryType → Option Nat
  | .sint => some 1
  | .usint => some 2
  | .int => some 3
  | .uint => some 4
  | .dint => some 5
  | .udint => some 6
  | .lint => some 7
  | .ulint => some 8
  | .real => some 9
  | .lreal => some 10
  | _ => none

/-- mirrors crates/st-semantics/src/types.rs:101-135; the fields of a structure
are pairs of a name and a type. -/
inductive Ty where
  | elementary (e : ElementaryType)
  | array (ranges : List (Int64 × Int64)) (elementType : Ty)
  | string (wide : Bool) (maxLen : Option UInt32)
  | struct (name : String) (fields : List (String × Ty))
  | enum (name : String) (variants : List String)
  | subrange (name : String) (base : ElementaryType) (lower upper : Int64)
  | functionBlock (name : String)
  | cls (name : String)
  | interface (name : String)
  | alias (name : String) (target : Ty)
  | void
  | unknown

namespace Ty

mutual

/-- The derived `PartialEq` of `Ty`. -/
def beq : Ty → Ty → Bool
  | .elementary e, .elementary e' => e == e'
  | .array rs t, .array rs' t' => rs == rs' && beq t t'
  | .string w n, .string w' n' => w == w' && n == n'
  | .struct n fs, .struct n' fs' => n == n' && beqFields fs fs'
  | .enum n vs, .enum n' vs' => n == n' && vs == vs'
  | .subrange n b l u, .subrange n' b' l' u' => n == n' && b == b' && l == l' && u == u'
  | .functionBlock n, .functionBlock n' => n == n'
  | .cls n, .cls n' => n == n'
  | .interface n, .interface n' => n == n'
  | .alias n t, .alias n' t' => n == n' && beq t t'
  | .void, .void => true
  | .unknown, .unknown => true
  | _, _ => false

def beqFields : List (String × Ty) → List (String × Ty) → Bool
  | [], [] => true
  | (n, t) :: fs, (n', t') :: fs' => n == n' && beq t t' && beqFields fs fs'
  | _, _ => false

end

instance : BEq Ty := ⟨beq⟩

def isUnknown : Ty → Bool
  | .unknown => true
  | _ => false

/-- mirrors crates/st-semantics/src/types.rs:145-147 -/
def isNumeric : Ty → Bool
  | .elementary e => Analysis.isNumeric e
  | _ => false

/-- mirrors crates/st-semantics/src/types.rs:150-152 -/
def isInteger : Ty → Bool
  | .elementary e => Analysis.isInteger e
  | _ => false

/-- mirrors crates/st-semantics/src/types.rs:163-165 -/
def isBool : Ty → Bool
  | .elementary .bool => true
  | _ => false

/-- mirrors crates/st-semantics/src/types.rs:168-178 -/
def isBitString : Ty → Bool
  | .elementary .byte | .elementary .word | .elementary .dword | .elementary .lword => true
  | _ => false

/-- mirrors crates/st-semantics/src/types.rs:181-195 -/
def isTime : Ty → Bool
  | .elementary .time | .elementary .ltime | .elementary .date | .elementary .ldate
  | .elementary .tod | .elementary .ltod | .elementary .dt | .elementary .ldt => true
  | _ => false

/-- mirrors crates/st-semantics/src/types.rs:198-214 -/
def displayName : Ty → String
  | .elementary e => elementaryName e
  | .array _ t => "ARRAY OF " ++ displayName t
  | .string false _ => "STRING"
  | .string true _ => "WSTRING"
  | .struct n _ | .enum n _ | .subrange n _ _ _ | .functionBlock n | .cls n | .interface n
  | .alias n _ => n
  | .void => "VOID"
  | .unknown => "<unknown>"

/-- mirrors crates/st-semantics/src/types.rs:217-223 -/
def resolved : Ty → Ty
  | .alias _ t => resolved t
  | t => t

end Ty

/-- mirrors crates/st-semantics/src/types.rs:226-244 -/
def canCoerce (source target : Ty) : Bool :=
  let source := source.resolved
  let target := target.resolved
  source == target || match source, target with
    | .elementary f, .elementary t => match numericRank f, numericRank t with
      | some fr, some tr => decide (fr ≤ tr)
      | _, _ => false
    | .enum _ _, .elementary e => isInteger e
    | _, _ => false

/-- mirrors crates/st-semantics/src/types.rs:248-268 -/
def commonType (a b : Ty) : Option Ty :=
  let a := a.resolved
  let b := b.resolved
  if a == b then some a
  else match a, b with
    | .elementary ea, .elementary eb => match numericRank ea, numericRank eb with
      | some ra, some rb => if rb ≤ ra then some a else some b
      | _, _ => none
    | _, _ => none

/-- mirrors crates/st-semantics/src/analyze.rs:2392-2399 -/
def isTypeCompatible (source target : Ty) : Bool :=
  let source := source.resolved
  let target := target.resolved
  source == target || canCoerce source target

/-- `str::parse::<i128>`. -/
def parseI128 (cs : List Char) : Option Int :=
  let signed : Option Int := match cs with
    | '-' :: rest => (parseDigits rest).map fun n => -(n : Int)
    | '+' :: rest => (parseDigits rest).map fun n => (n : Int)
    | _ => (parseDigits cs).map fun n => (n : Int)
  signed.bind fun z => if -(2 ^ 127) ≤ z ∧ z < 2 ^ 127 then some z else none

/-- mirrors crates/st-semantics/src/analyze.rs:2405-2418 -/
def integerLiteralValue : Expression → Option Int
  | .literal (.integer n) _ => some n.toInt
  | .literal (.typed _ raw) _ => parseI128 raw.toList
  | .parenthesized inner => integerLiteralValue inner
  | .unary .neg operand _ => (integerLiteralValue operand).map fun v => -v
  | _ => none

/-- mirrors crates/st-semantics/src/analyze.rs:2424-2436 -/
def literalFitsInTarget (e : Expression) (target : Ty) : Bool :=
  match target.resolved with
  | .elementary elem => match integerTypeRange elem, integerLiteralValue e with
    | some (lo, hi), some v => decide (lo ≤ v ∧ v ≤ hi)
    | _, _ => false
  | _ => false

/-- mirrors crates/st-semantics/src/analyze.rs:2438-2456 -/
def binaryOpName : BinaryOp → String
  | .add => "+"
  | .sub => "-"
  | .mul => "*"
  | .div => "/"
  | .mod => "MOD"
  | .power => "**"
  | .and => "AND"
  | .or => "OR"
  | .xor => "XOR"
  | .eq => "="
  | .ne => "<>"
  | .lt => "<"
  | .gt => ">"
  | .le => "<="
  | .ge => ">="

/-- mirrors crates/st-semantics/src/analyze.rs:2306-2317; `-v` wraps. -/
def constEvalInt : Expression → Option Int64
  | .literal (.integer v) _ => some v
  | .unary .neg operand _ => (constEvalInt operand).map fun v => -v
  | _ => none

end RustPlc.Analysis
