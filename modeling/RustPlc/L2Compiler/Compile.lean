import RustPlc.L2Compiler.Literals
import Mathlib.Data.List.AList

/-!
# The compiler

crates/st-compiler/src/compile.rs: syntax trees to bytecode modules.
`CompileM` threads the fields of `FunctionCompiler`; the module level
(`registerItem`, `compileItem`, `compileGlobalInit`) fills the functions in
three passes.

A `u16` register counter, a `u32` label counter or an `i64` of a literal
that overflows is the fault `overflow`; a class that inherits from itself
makes the source loop for ever and is the fault `cyclicInheritance`. The
casts of vector lengths to `u16` truncate, as in the source.
-/
namespace RustPlc.Compiler

open RustPlc.Ir RustPlc.Syntax

/-- Why no module is produced. mirrors crates/st-compiler/src/compile.rs:6-14 -/
inductive CompileFault where
  | internal (message : String)
  | overflow
  | cyclicInheritance
  deriving DecidableEq, Repr

abbrev NameMap (V : Type) := AList fun _ : String => V

/-- mirrors crates/st-compiler/src/compile.rs:464-487: what the compiler of
one function builds. -/
structure FunctionCompiler where
  instructions : List Instruction
  sourceMap : List SourceLocation
  locals : MemoryLayout
  nextReg : UInt16
  nextLabel : UInt32
  labelPositions : List Nat
  typeDefs : List TypeDef
  loopExitLabels : List Label
  pendingSource : Option TextRange
  fbTypeNames : AList fun _ : UInt16 => String

/-- What the compiler of one function reads: the functions registered so
far, the globals and the inheritance map. -/
structure ModuleEnv where
  functions : List Function
  globals : MemoryLayout
  classBases : NameMap String

abbrev CompileM := StateT FunctionCompiler (Except CompileFault)

/-- mirrors crates/st-compiler/src/compile.rs:490-511 -/
def FunctionCompiler.new (typeDefs : List TypeDef) : FunctionCompiler where
  instructions := []
  sourceMap := []
  locals := .empty
  nextReg := 0
  nextLabel := 0
  labelPositions := []
  typeDefs := typeDefs
  loopExitLabels := []
  pendingSource := none
  fbTypeNames := ∅

/-! ## Emitting -/

/-- mirrors crates/st-compiler/src/compile.rs:517-521 -/
def allocReg : CompileM Reg := fun s =>
  if s.nextReg = 65535 then .error .overflow
  else .ok (s.nextReg, { s with nextReg := s.nextReg + 1 })

/-- `Vec::resize` to `n` entries when shorter. -/
def resizeLabels (n : Nat) (ps : List Nat) : List Nat :=
  ps ++ List.replicate (n - ps.length) usizeMax

/-- mirrors crates/st-compiler/src/compile.rs:523-532 -/
def allocLabel : CompileM Label := fun s =>
  if s.nextLabel = 4294967295 then .error .overflow
  else .ok (s.nextLabel, { s with
    nextLabel := s.nextLabel + 1
    labelPositions := resizeLabels (s.nextLabel.toNat + 1) s.labelPositions })

/-- mirrors crates/st-compiler/src/compile.rs:534-541 -/
def placeLabel (label : Label) : CompileM Unit := fun s =>
  .ok ((), { s with labelPositions :=
    (resizeLabels (label.toNat + 1) s.labelPositions).set label.toNat s.instructions.length })

def locationOf : Option TextRange → SourceLocation
  | some r => ⟨r.start, r.stop⟩
  | none => .default

/-- mirrors crates/st-compiler/src/compile.rs:543-553 -/
def emit (instr : Instruction) : CompileM Unit := fun s =>
  .ok ((), { s with
    instructions := s.instructions ++ [instr]
    sourceMap := s.sourceMap ++ [locationOf s.pendingSource]
    pendingSource := none })

/-- mirrors crates/st-compiler/src/compile.rs:563-565 -/
def setSource (range : TextRange) : CompileM Unit := fun s =>
  .ok ((), { s with pendingSource := some range })

/-- mirrors crates/st-compiler/src/compile.rs:555-560: an explicit range
replaces the pending one. -/
def emitSourced (instr : Instruction) (range : TextRange) : CompileM Unit := do
  setSource range
  emit instr

/-- A fresh register filled by one instruction. -/
def emitTo (mk : Reg → Instruction) : CompileM Reg := do
  let dst ← allocReg
  emit (mk dst)
  return dst

def pushLoopExit (label : Label) : CompileM Unit := fun s =>
  .ok ((), { s with loopExitLabels := label :: s.loopExitLabels })

def popLoopExit : CompileM Unit := fun s =>
  .ok ((), { s with loopExitLabels := s.loopExitLabels.tail })

/-! ## Name resolution -/

/-- mirrors crates/st-compiler/src/compile.rs:610-612 -/
def FunctionCompiler.findLocal (s : FunctionCompiler) (name : String) : Option UInt16 :=
  (s.locals.findSlot name).map (·.1)

/-- mirrors crates/st-compiler/src/compile.rs:614-616 -/
def ModuleEnv.findGlobal (env : ModuleEnv) (name : String) : Option UInt16 :=
  (env.globals.findSlot name).map (·.1)

/-- The first function of this name. -/
def ModuleEnv.position (env : ModuleEnv) (name : String) : Option (Nat × Function) :=
  findIdx (fun f => eqIgnoreAsciiCase f.name name) env.functions

/-- A struct type of this name. -/
def isStructNamed (name : String) : TypeDef → Bool
  | .struct n _ => eqIgnoreAsciiCase n name
  | _ => false

/-- mirrors crates/st-compiler/src/compile.rs:620-641 -/
def resolveFieldIndex (env : ModuleEnv) (typeDefs : List TypeDef) (typeName fieldName : String) :
    Option UInt16 :=
  match (env.position typeName).bind fun p => p.2.locals.findSlot fieldName with
  | some (i, _) => some i
  | none => match typeDefs.find? (isStructNamed typeName) with
    | some (.struct _ fields) =>
      (findIdx (fun s => eqIgnoreAsciiCase s.name fieldName) fields).map fun p => p.1.toUInt16
    | _ => none

/-- mirrors crates/st-compiler/src/compile.rs:645-650 -/
def resolveFieldExpandedOffset (env : ModuleEnv) (typeName fieldName : String) : Option UInt16 :=
  ((env.position typeName).bind fun p => p.2.locals.findSlot fieldName).map
    fun p => p.2.offset.toUInt16

/-- mirrors crates/st-compiler/src/compile.rs:653-678: `Class.Method` at each
level of the hierarchy. -/
def findMethodInHierarchy (env : ModuleEnv) (methodName : String) :
    Nat → String → Except CompileFault (Option Nat)
  | 0, _ => .error .cyclicInheritance
  | fuel + 1, cls => match env.position (cls ++ "." ++ methodName) with
    | some (i, _) => .ok (some i)
    | none => match AList.lookup (toUppercase cls) env.classBases with
      | some base => findMethodInHierarchy env methodName fuel base
      | none => .ok none

/-- An instance of a user-defined type among the locals: its slot and the
name of its type. -/
def FunctionCompiler.instance? (s : FunctionCompiler) (name : String) : Option (UInt16 × String) :=
  (s.findLocal name).bind fun slot =>
    (AList.lookup slot s.fbTypeNames).map fun ty => (slot, ty)

/-- What an access `obj.field` refers to: the slot of the instance, the field
index and the expanded offset of the field; an unknown field is field 0. -/
def FunctionCompiler.fieldTarget (env : ModuleEnv) (s : FunctionCompiler) (obj field : String) :
    Option (UInt16 × UInt16 × UInt16) :=
  (s.instance? obj).map fun (slot, ty) =>
    let fieldIdx := (resolveFieldIndex env s.typeDefs ty field).getD 0
    (slot, fieldIdx, (resolveFieldExpandedOffset env ty field).getD fieldIdx)

/-- What a call `obj.method(…)` refers to: the slot of the instance, its
class and the method.
mirrors crates/st-compiler/src/compile.rs:1281-1306 -/
def FunctionCompiler.methodTarget (env : ModuleEnv) (s : FunctionCompiler) (name : List String) :
    Except CompileFault (Option (UInt16 × UInt16 × UInt16)) :=
  match name with
  | [obj, method] => match s.instance? obj with
    | some (slot, ty) => do
      let cls := ((env.position ty).map (·.1)).getD 0
      let idx ← findMethodInHierarchy env method (env.classBases.entries.length + 2) ty
      return idx.map fun i => (slot, cls.toUInt16, i.toUInt16)
    | none => .ok none
  | _ => .ok none

/-! ## Instruction tables -/

def binaryInstruction : BinaryOp → Reg → Reg → Reg → Instruction
  | .add => .add
  | .sub => .sub
  | .mul => .mul
  | .div => .div
  | .mod => .mod
  | .power => .pow
  | .and => .and
  | .or => .or
  | .xor => .xor
  | .eq => .cmpEq
  | .ne => .cmpNe
  | .lt => .cmpLt
  | .gt => .cmpGt
  | .le => .cmpLe
  | .ge => .cmpGe

def unaryInstruction : UnaryOp → Reg → Reg → Instruction
  | .neg => .neg
  | .not => .not

/-- The instruction that extracts a part. mirrors
crates/st-compiler/src/compile.rs:1228-1248 -/
def extractInstruction (kind : PartialAccessKind) (index : UInt8) (dst src : Reg) : Instruction :=
  match kind with
  | .bit => .extractBit dst src index
  | .byte => .extractPartial dst src index 8
  | .word => .extractPartial dst src index 16
  | .dword => .extractPartial dst src index 32
  | .lword => .extractPartial dst src index 64

/-- The instruction that replaces a part. mirrors
crates/st-compiler/src/compile.rs:903-922 -/
def insertInstruction (kind : PartialAccessKind) (index : UInt8) (dst base val : Reg) :
    Instruction :=
  match kind with
  | .bit => .insertBit dst base index val
  | .byte => .insertPartial dst base index 8 val
  | .word => .insertPartial dst base index 16 val
  | .dword => .insertPartial dst base index 32 val
  | .lword => .insertPartial dst base index 64 val

/-- The entry of a table of upper-case names. -/
def lookupName {α : Type} (table : List (List String × α)) (name : String) : Option α :=
  (table.find? fun p => p.1.contains name).map (·.2)

/-- mirrors crates/st-compiler/src/compile.rs:1351-1463 -/
def unaryIntrinsics : List (List String × (Reg → Reg → Instruction)) :=
  [(["SQRT"], .sqrt), (["SIN"], .sin), (["COS"], .cos), (["TAN"], .tan), (["ASIN"], .asin),
   (["ACOS"], .acos), (["ATAN"], .atan), (["LN"], .ln), (["LOG"], .log), (["EXP"], .exp),
   (["INT_TO_REAL", "SINT_TO_REAL", "DINT_TO_REAL", "LINT_TO_REAL", "UINT_TO_REAL",
     "UDINT_TO_REAL", "ULINT_TO_REAL", "USINT_TO_REAL", "BOOL_TO_REAL", "INT_TO_LREAL",
     "SINT_TO_LREAL", "DINT_TO_LREAL", "LINT_TO_LREAL", "REAL_TO_LREAL", "TIME_TO_REAL",
     "TIME_TO_LREAL", "TO_REAL", "TO_LREAL", "ANY_TO_REAL", "ANY_TO_LREAL"], .toReal),
   (["REAL_TO_INT", "LREAL_TO_INT", "REAL_TO_DINT", "LREAL_TO_DINT", "REAL_TO_LINT",
     "LREAL_TO_LINT", "REAL_TO_SINT", "LREAL_TO_SINT", "BOOL_TO_INT", "BOOL_TO_DINT",
     "BOOL_TO_LINT", "UINT_TO_INT", "UDINT_TO_DINT", "ULINT_TO_LINT", "INT_TO_DINT",
     "INT_TO_LINT", "DINT_TO_LINT", "SINT_TO_INT", "SINT_TO_DINT", "SINT_TO_LINT",
     "TIME_TO_INT", "TIME_TO_SINT", "TIME_TO_DINT", "TIME_TO_LINT", "TIME_TO_UINT",
     "TIME_TO_USINT", "TIME_TO_UDINT", "TIME_TO_ULINT", "TO_INT", "TO_SINT", "TO_DINT",
     "TO_LINT", "TO_UINT", "TO_USINT", "TO_UDINT", "TO_ULINT", "ANY_TO_INT", "ANY_TO_SINT",
     "ANY_TO_DINT", "ANY_TO_LINT", "ANY_TO_UINT", "ANY_TO_USINT", "ANY_TO_UDINT",
     "ANY_TO_ULINT"], .toInt),
   (["INT_TO_BOOL", "REAL_TO_BOOL", "DINT_TO_BOOL", "LINT_TO_BOOL", "TIME_TO_BOOL", "TO_BOOL",
     "ANY_TO_BOOL"], .toBool),
   (["INT_TO_TIME", "SINT_TO_TIME", "DINT_TO_TIME", "LINT_TO_TIME", "UINT_TO_TIME",
     "USINT_TO_TIME", "UDINT_TO_TIME", "ULINT_TO_TIME", "REAL_TO_TIME", "LREAL_TO_TIME",
     "BOOL_TO_TIME", "TO_TIME", "ANY_TO_TIME", "INT_TO_DATE", "SINT_TO_DATE", "DINT_TO_DATE",
     "LINT_TO_DATE", "UINT_TO_DATE", "USINT_TO_DATE", "UDINT_TO_DATE", "ULINT_TO_DATE",
     "REAL_TO_DATE", "LREAL_TO_DATE", "TO_DATE", "ANY_TO_DATE"], .toTime),
   (["INT_TO_TOD", "SINT_TO_TOD", "DINT_TO_TOD", "LINT_TO_TOD", "UINT_TO_TOD", "USINT_TO_TOD",
     "UDINT_TO_TOD", "ULINT_TO_TOD", "REAL_TO_TOD", "LREAL_TO_TOD", "TO_TOD", "ANY_TO_TOD",
     "TIME_TO_TOD"], .toTod),
   (["INT_TO_DT", "SINT_TO_DT", "DINT_TO_DT", "LINT_TO_DT", "UINT_TO_DT", "USINT_TO_DT",
     "UDINT_TO_DT", "ULINT_TO_DT", "REAL_TO_DT", "LREAL_TO_DT", "TO_DT", "ANY_TO_DT",
     "DATE_TO_DT", "TIME_TO_DATE", "TIME_TO_DT", "DATE_TO_TIME", "TOD_TO_TIME",
     "DT_TO_TIME"], .toTime),
   (["DATE_TO_INT", "DATE_TO_SINT", "DATE_TO_DINT", "DATE_TO_LINT", "DATE_TO_UINT",
     "DATE_TO_USINT", "DATE_TO_UDINT", "DATE_TO_ULINT", "TOD_TO_INT", "TOD_TO_SINT",
     "TOD_TO_DINT", "TOD_TO_LINT", "TOD_TO_UINT", "TOD_TO_USINT", "TOD_TO_UDINT",
     "TOD_TO_ULINT", "DT_TO_INT", "DT_TO_SINT", "DT_TO_DINT", "DT_TO_LINT", "DT_TO_UINT",
     "DT_TO_USINT", "DT_TO_UDINT", "DT_TO_ULINT"], .toInt),
   (["DATE_TO_REAL", "DATE_TO_LREAL", "TOD_TO_REAL", "TOD_TO_LREAL", "DT_TO_REAL",
     "DT_TO_LREAL"], .toReal),
   (["DATE_TO_BOOL", "TOD_TO_BOOL", "DT_TO_BOOL"], .toBool),
   (["DT_TO_DATE"], .dtExtractDate), (["DT_TO_TOD"], .dtExtractTod),
   (["DAY_OF_WEEK"], .dayOfWeek),
   (["LEN"], .stringLen), (["TRIM"], .stringTrim), (["LTRIM"], .stringLTrim),
   (["RTRIM"], .stringRTrim), (["TO_UPPER", "UPPER_CASE"], .stringToUpper),
   (["TO_LOWER", "LOWER_CASE"], .stringToLower),
   (["INT_TO_STRING", "SINT_TO_STRING", "DINT_TO_STRING", "LINT_TO_STRING"], .intToString),
   (["UINT_TO_STRING", "USINT_TO_STRING", "UDINT_TO_STRING", "ULINT_TO_STRING"], .uintToString),
   (["REAL_TO_STRING", "LREAL_TO_STRING"], .realToString),
   (["BOOL_TO_STRING"], .boolToString),
   (["STRING_TO_INT", "STRING_TO_SINT", "STRING_TO_DINT", "STRING_TO_LINT"], .stringToInt),
   (["STRING_TO_UINT", "STRING_TO_USINT", "STRING_TO_UDINT", "STRING_TO_ULINT"], .stringToUInt),
   (["STRING_TO_REAL", "STRING_TO_LREAL"], .stringToReal),
   (["STRING_TO_BOOL"], .stringToBool), (["TO_STRING", "ANY_TO_STRING"], .toString)]

/-- mirrors crates/st-compiler/src/compile.rs:1481-1491: date and time
arithmetic, with whether the result is wrapped to a day. -/
def timeIntrinsics : List (List String × ((Reg → Reg → Reg → Instruction) × Bool)) :=
  [(["ADD_TOD_TIME"], (.add, true)), (["SUB_TOD_TIME"], (.sub, true)),
   (["ADD_DT_TIME", "CONCAT_DATE_TOD"], (.add, false)),
   (["SUB_DATE_DATE", "SUB_TOD_TOD", "SUB_DT_TIME", "SUB_DT_DT"], (.sub, false)),
   (["MULTIME"], (.mul, false)), (["DIVTIME"], (.div, false))]

/-- mirrors crates/st-compiler/src/compile.rs:1530-1537 -/
def stringIntrinsics2 : List (List String × (Reg → Reg → Reg → Instruction)) :=
  [(["CONCAT"], .stringConcat), (["FIND"], .stringFind), (["LEFT"], .stringLeft),
   (["RIGHT"], .stringRight)]

/-- mirrors crates/st-compiler/src/compile.rs:1548-1553 -/
def stringIntrinsics3 : List (List String × (Reg → Reg → Reg → Reg → Instruction)) :=
  [(["MID"], .stringMid), (["INSERT"], .stringInsert), (["DELETE"], .stringDelete)]

/-! ## Expressions -/

/-- mirrors crates/st-compiler/src/compile.rs:1260-1270: a local, a global,
or the constant 0. -/
def compileLoadVariable (env : ModuleEnv) (name : String) : CompileM Reg := do
  let s ← get
  match s.findLocal name, env.findGlobal name with
  | some slot, _ => emitTo (.loadLocal · slot)
  | none, some slot => emitTo (.loadGlobal · slot)
  | none, none => emitTo (.loadConst · (.int 0))

/-- mirrors crates/st-compiler/src/compile.rs:1228-1248 -/
def compilePartialRead (src : Reg) (kind : PartialAccessKind) (index : UInt32) : CompileM Reg :=
  emitTo fun dst => extractInstruction kind index.toUInt8 dst src

/-- mirrors crates/st-compiler/src/compile.rs:1251-1258: parts that are not
partial accesses are skipped. -/
def applyPartialChain (reg : Reg) : List AccessPart → CompileM Reg
  | [] => return reg
  | .partialAccess kind index :: parts => do
    let r ← compilePartialRead reg kind index
    applyPartialChain r parts
  | _ :: parts => applyPartialChain reg parts

/-- A root variable followed by parts that no other case takes. -/
def compileRoot (env : ModuleEnv) (id : String) (parts : List AccessPart) : CompileM Reg := do
  let base ← compileLoadVariable env id
  applyPartialChain base parts

/-- mirrors crates/st-compiler/src/compile.rs:1309-1342: the argument of
`REF` is a variable, of which the root is taken. -/
def refVariable : List Argument → Option String
  | .positional (.var (.identifier id :: _) _) :: _ => some id.name
  | .named _ (.var (.identifier id :: _) _) :: _ => some id.name
  | _ => none

def refInstruction (env : ModuleEnv) (s : FunctionCompiler) (dst : Reg) : Option String → Instruction
  | none => .loadNull dst
  | some name => match s.findLocal name, env.findGlobal name with
    | some slot, _ => .makeRefLocal dst slot
    | none, some slot => .makeRefGlobal dst slot
    | none, none => .loadNull dst

/-- How the arguments of one call are compiled: all of them, the one at a
position (or a constant when it is missing), and the two of a time
intrinsic. -/
structure ArgCompiler where
  all : CompileM (List (UInt16 × Reg))
  arg : Value → Nat → CompileM Reg
  timeArgs : CompileM (Reg × Reg)

/-- The calls that are not method calls: intrinsics, function block
instances, functions. mirrors crates/st-compiler/src/compile.rs:1308-1599 -/
def compilePlainCall (env : ModuleEnv) (s : FunctionCompiler) (dst : Reg) (name : String)
    (refVar : Option String) (args : ArgCompiler) : CompileM Unit := do
  let upper := toUppercase name
  if upper = "REF" then emit (refInstruction env s dst refVar)
  else if upper = "SYSTEM_TIME" then emit (.systemTime dst)
  else match lookupName unaryIntrinsics upper with
  | some mk =>
    let arg ← args.arg (.real F64.zero) 0
    emit (mk dst arg)
  | none => match lookupName timeIntrinsics upper with
    | some (mk, wrap) =>
      let (arg1, arg2) ← args.timeArgs
      if wrap then
        let tmp ← emitTo (mk · arg1 arg2)
        emit (.toTod dst tmp)
      else emit (mk dst arg1 arg2)
    | none => match lookupName stringIntrinsics2 upper with
      | some mk =>
        let arg1 ← args.arg (.int 0) 0
        let arg2 ← args.arg (.int 0) 1
        emit (mk dst arg1 arg2)
      | none => match lookupName stringIntrinsics3 upper with
        | some mk =>
          let arg1 ← args.arg (.int 0) 0
          let arg2 ← args.arg (.int 0) 1
          let arg3 ← args.arg (.int 0) 2
          emit (mk dst arg1 arg2 arg3)
        | none =>
          if eqIgnoreAsciiCase name "REPLACE" then
            let str1 ← args.arg (.int 0) 0
            let str2 ← args.arg (.int 0) 1
            let len ← args.arg (.int 0) 2
            let pos ← args.arg (.int 0) 3
            emit (.stringReplace dst str1 str2 len pos)
          else match s.findLocal name with
          | some slot =>
            let ty := (AList.lookup slot s.fbTypeNames).getD name
            let func := ((env.position ty).map (·.1)).getD 0
            let regs ← args.all
            emit (.callFb slot func.toUInt16 regs)
          | none => match env.position name with
            | some (func, _) =>
              let regs ← args.all
              emit (.call func.toUInt16 dst regs)
            | none => emit (.loadConst dst (.int 0))

/-- A fault of name resolution stops the compiler. -/
def liftFault {α : Type} (x : Except CompileFault α) : CompileM α := fun s =>
  x.map fun a => (a, s)

/-- A method call when the name is that of a method, any other call when it
is not. -/
def compileCallTarget (env : ModuleEnv) (s : FunctionCompiler) (dst : Reg) (name : String)
    (refVar : Option String) (args : ArgCompiler) :
    Option (UInt16 × UInt16 × UInt16) → CompileM Unit
  | some (slot, cls, method) => do
    let regs ← args.all
    emit (.callMethod slot cls method dst regs)
  | none => compilePlainCall env s dst name refVar args

/-- mirrors crates/st-compiler/src/compile.rs:1276-1600. The destination is
allocated before the arguments are compiled. -/
def compileCall (env : ModuleEnv) (parts : List String) (refVar : Option String)
    (args : ArgCompiler) : CompileM Reg := do
  let dst ← allocReg
  let s ← get
  let target ← liftFault (s.methodTarget env parts)
  compileCallTarget env s dst (qualifiedName parts) refVar args target
  return dst

section

variable [F64Ops]

/-- A literal that overflows stops the compiler. -/
def literalValue (kind : LiteralKind) : CompileM Value := fun s =>
  match literalToValue kind with
  | .ok v => .ok (v, s)
  | .error _ => .error .overflow

mutual

/-- mirrors crates/st-compiler/src/compile.rs:1096-1225 -/
def compileExpression (env : ModuleEnv) : Expression → CompileM Reg
  | .literal kind _ => do
    let val ← literalValue kind
    emitTo (.loadConst · val)
  | .var parts _ => match parts with
    | .identifier id :: .deref :: _ => do
      let ptr ← compileLoadVariable env id.name
      emitTo (.deref · ptr)
    | .identifier id :: .index (ix :: ixs) :: rest => do
      let s ← get
      match s.findLocal id.name with
      | some slot =>
        let idx ← compileExpression env ix
        emitTo (.loadArray · slot idx)
      | none => compileRoot env id.name (.index (ix :: ixs) :: rest)
    | .identifier obj :: .identifier field :: .index (ix :: ixs) :: rest => do
      let s ← get
      match s.fieldTarget env obj.name field.name with
      | some (slot, _, offset) =>
        let idx ← compileExpression env ix
        emitTo (.loadFieldIndex · slot offset idx)
      | none => compileRoot env obj.name (.identifier field :: .index (ix :: ixs) :: rest)
    | .identifier obj :: .identifier field :: rest => do
      let s ← get
      match s.fieldTarget env obj.name field.name with
      | some (slot, fieldIdx, _) => emitTo (.loadField · slot fieldIdx)
      | none => compileRoot env obj.name (.identifier field :: rest)
    | .identifier id :: .partialAccess kind index :: _ => do
      let base ← compileLoadVariable env id.name
      compilePartialRead base kind index
    | .identifier id :: rest => compileRoot env id.name rest
    | _ => emitTo (.loadConst · (.int 0))
  | .binary op left right _ => do
    let l ← compileExpression env left
    let r ← compileExpression env right
    emitTo (binaryInstruction op · l r)
  | .unary op operand _ => do
    let src ← compileExpression env operand
    emitTo (unaryInstruction op · src)
  | .functionCall name arguments _ =>
    compileCall env name.names (refVariable arguments)
      { all := compileCallArgs env 0 arguments
        arg := fun missing i => compileCallArg env missing i arguments
        timeArgs := compileTimeArgs env arguments }
  | .parenthesized inner => compileExpression env inner
  | .thisInstance _ => emitTo (.loadConst · (.int 0))
  | .superInstance _ => emitTo (.loadConst · (.int 0))

def compileArgument (env : ModuleEnv) : Argument → CompileM Reg
  | .positional e => compileExpression env e
  | .named _ value => compileExpression env value

/-- mirrors crates/st-compiler/src/compile.rs:1602-1614; the names of named
arguments are not looked at. -/
def compileCallArgs (env : ModuleEnv) : Nat → List Argument → CompileM (List (UInt16 × Reg))
  | _, [] => return []
  | i, arg :: args => do
    let r ← compileArgument env arg
    let rs ← compileCallArgs env (i + 1) args
    return (i.toUInt16, r) :: rs

/-- The argument at a position, or a constant when it is missing.
mirrors crates/st-compiler/src/compile.rs:1619-1630 and 1464-1474 -/
def compileCallArg (env : ModuleEnv) : Value → Nat → List Argument → CompileM Reg
  | missing, _, [] => emitTo (.loadConst · missing)
  | _, 0, arg :: _ => compileArgument env arg
  | missing, n + 1, _ :: args => compileCallArg env missing n args

/-- mirrors crates/st-compiler/src/compile.rs:1493-1518: both missing
registers are allocated before either is loaded. -/
def compileTimeArgs (env : ModuleEnv) : List Argument → CompileM (Reg × Reg)
  | [] => do
    let r1 ← allocReg
    let r2 ← allocReg
    emit (.loadConst r1 (.time 0))
    emit (.loadConst r2 (.time 0))
    return (r1, r2)
  | [a] => do
    let r1 ← compileArgument env a
    let r2 ← emitTo (.loadConst · (.time 0))
    return (r1, r2)
  | a :: b :: _ => do
    let r1 ← compileArgument env a
    let r2 ← compileArgument env b
    return (r1, r2)

end

/-! ## Assignments -/

/-- The store of the last fallback: the slot of the root variable.
mirrors crates/st-compiler/src/compile.rs:933-940 -/
def compileStoreRoot (env : ModuleEnv) (id : String) (val : Reg) (range : TextRange) :
    CompileM Unit := do
  let s ← get
  match s.findLocal id, env.findGlobal id with
  | some slot, _ => emitSourced (.storeLocal slot val) range
  | none, some slot => emitSourced (.storeGlobal slot val) range
  | none, none => return ()

/-- mirrors crates/st-compiler/src/compile.rs:831-940 -/
def compileStore (env : ModuleEnv) (target : List AccessPart) (val : Reg) (range : TextRange) :
    CompileM Unit :=
  match target with
  | .identifier id :: .deref :: _ => do
    let ptr ← compileLoadVariable env id.name
    emitSourced (.derefStore ptr val) range
  | .identifier id :: .index (ix :: _) :: _ => do
    let s ← get
    match s.findLocal id.name with
    | some slot =>
      let idx ← compileExpression env ix
      emitSourced (.storeArray slot idx val) range
    | none => compileStoreRoot env id.name val range
  | .identifier obj :: .identifier field :: .index (ix :: _) :: _ => do
    let s ← get
    match s.fieldTarget env obj.name field.name with
    | some (slot, _, offset) =>
      let idx ← compileExpression env ix
      emitSourced (.storeFieldIndex slot offset idx val) range
    | none => compileStoreRoot env obj.name val range
  | .identifier obj :: .identifier field :: _ => do
    let s ← get
    match s.fieldTarget env obj.name field.name with
    | some (slot, fieldIdx, _) => emitSourced (.storeField slot fieldIdx val) range
    | none => compileStoreRoot env obj.name val range
  | .identifier id :: .partialAccess kind index :: _ => do
    let base ← compileLoadVariable env id.name
    let dst ← emitTo (insertInstruction kind index.toUInt8 · base val)
    compileStoreRoot env id.name dst range
  | .identifier id :: _ => compileStoreRoot env id.name val range
  | _ => return ()

/-! ## Statements -/

/-- The test of one `CASE` selector.
mirrors crates/st-compiler/src/compile.rs:980-1001 -/
def compileSelector (env : ModuleEnv) (expr : Reg) (body : Label) : CaseSelector → CompileM Unit
  | .single e => do
    let val ← compileExpression env e
    let cmp ← emitTo (.cmpEq · expr val)
    emit (.jumpIf cmp body)
  | .range lo hi => do
    let loReg ← compileExpression env lo
    let hiReg ← compileExpression env hi
    let cmpLo ← allocReg
    let cmpHi ← allocReg
    let both ← allocReg
    emit (.cmpGe cmpLo expr loReg)
    emit (.cmpLe cmpHi expr hiReg)
    emit (.and both cmpLo cmpHi)
    emit (.jumpIf both body)

def compileSelectors (env : ModuleEnv) (expr : Reg) (body : Label) :
    List CaseSelector → CompileM Unit
  | [] => return ()
  | sel :: sels => do
    compileSelector env expr body sel
    compileSelectors env expr body sels

/-- The step of a `FOR` loop: the expression after `BY`, or 1. -/
def compileStep (env : ModuleEnv) : Option Expression → CompileM Reg
  | some e => compileExpression env e
  | none => emitTo (.loadConst · (.int 1))

/-- A `FOR` variable is stored only when it is a local. -/
def storeLoopVar (name : String) (val : Reg) : CompileM Unit := do
  let s ← get
  match s.findLocal name with
  | some slot => emit (.storeLocal slot val)
  | none => return ()

mutual

/-- mirrors crates/st-compiler/src/compile.rs:788-829 and 942-1090 -/
def compileStatement (env : ModuleEnv) : Statement → CompileM Unit
  | .assignment target value range => do
    setSource range
    let val ← compileExpression env value
    compileStore env target.parts val range
  | .functionCall name arguments range => do
    setSource range
    let _ ← compileExpression env (.functionCall name arguments range)
  | .ifStmt condition thenBody elsifClauses elseBody range => do
    setSource range
    let endLabel ← allocLabel
    let elseLabel ← allocLabel
    let cond ← compileExpression env condition
    emit (.jumpIfNot cond elseLabel)
    compileStatements env thenBody
    emit (.jump endLabel)
    placeLabel elseLabel
    compileElsifs env endLabel elsifClauses
    compileElse env elseBody
    placeLabel endLabel
  | .caseStmt expression branches elseBody range => do
    setSource range
    let endLabel ← allocLabel
    let expr ← compileExpression env expression
    compileBranches env endLabel expr branches
    compileElse env elseBody
    placeLabel endLabel
  | .forStmt loopVar lower upper by_ body range => do
    setSource range
    let loopLabel ← allocLabel
    let exitLabel ← allocLabel
    let fromReg ← compileExpression env lower
    storeLoopVar loopVar.name fromReg
    placeLabel loopLabel
    let varReg ← compileLoadVariable env loopVar.name
    let toReg ← compileExpression env upper
    let cond ← emitTo (.cmpLe · varReg toReg)
    emit (.jumpIfNot cond exitLabel)
    pushLoopExit exitLabel
    compileStatements env body
    popLoopExit
    let stepReg ← compileStep env by_
    let varReg2 ← compileLoadVariable env loopVar.name
    let newVal ← emitTo (.add · varReg2 stepReg)
    storeLoopVar loopVar.name newVal
    emit (.jump loopLabel)
    placeLabel exitLabel
  | .whileStmt condition body range => do
    setSource range
    let loopLabel ← allocLabel
    let exitLabel ← allocLabel
    placeLabel loopLabel
    let cond ← compileExpression env condition
    emit (.jumpIfNot cond exitLabel)
    pushLoopExit exitLabel
    compileStatements env body
    popLoopExit
    emit (.jump loopLabel)
    placeLabel exitLabel
  | .repeatStmt body condition range => do
    setSource range
    let loopLabel ← allocLabel
    let exitLabel ← allocLabel
    placeLabel loopLabel
    pushLoopExit exitLabel
    compileStatements env body
    popLoopExit
    let cond ← compileExpression env condition
    emit (.jumpIfNot cond loopLabel)
    placeLabel exitLabel
  | .returnStmt range => do
    setSource range
    let zero ← allocReg
    emitSourced (.loadConst zero (.int 0)) range
    emit (.ret zero)
  | .exit range => do
    setSource range
    let s ← get
    match s.loopExitLabels with
    | label :: _ => emit (.jump label)
    | [] => return ()
  | .empty range => setSource range

def compileStatements (env : ModuleEnv) : List Statement → CompileM Unit
  | [] => return ()
  | stmt :: stmts => do
    compileStatement env stmt
    compileStatements env stmts

def compileElse (env : ModuleEnv) : Option (List Statement) → CompileM Unit
  | some body => compileStatements env body
  | none => return ()

def compileElsifs (env : ModuleEnv) (endLabel : Label) : List ElsifClause → CompileM Unit
  | [] => return ()
  | .mk condition body :: clauses => do
    let nextLabel ← allocLabel
    let cond ← compileExpression env condition
    emit (.jumpIfNot cond nextLabel)
    compileStatements env body
    emit (.jump endLabel)
    placeLabel nextLabel
    compileElsifs env endLabel clauses

def compileBranches (env : ModuleEnv) (endLabel : Label) (expr : Reg) :
    List CaseBranch → CompileM Unit
  | [] => return ()
  | .mk selectors body :: branches => do
    let bodyLabel ← allocLabel
    let nextLabel ← allocLabel
    compileSelectors env expr bodyLabel selectors
    emit (.jump nextLabel)
    placeLabel bodyLabel
    compileStatements env body
    emit (.jump endLabel)
    placeLabel nextLabel
    compileBranches env endLabel expr branches

end

end

end RustPlc.Compiler
