import RustPlc.L2Compiler.Compile

/-!
# Compiling a module

The three passes of `compile` (crates/st-compiler/src/compile.rs:17-391):
register every item, compile the bodies (programs last), and synthesise
`__global_init`. Every body is compiled by `compilePou`, which looks up the
first function registered under the name and replaces it.
-/
namespace RustPlc.Compiler

open RustPlc.Ir RustPlc.Syntax

/-- mirrors crates/st-compiler/src/compile.rs:415-436 -/
def varTypeFromAst : DataType → VarType
  | .elementary e => match e with
    | .bool => .bool
    | .sint | .int | .dint | .lint => .int
    | .usint | .uint | .udint | .ulint => .uint
    | .real | .lreal => .real
    | .byte | .word | .dword | .lword => .uint
    | .time | .ltime => .time
    | .date | .ldate | .tod | .ltod | .dt | .ldt => .time
  | .string _ _ => .string
  | .ref _ => .ref
  | .array _ _ => .int
  | .userDefined _ => .int

/-- mirrors crates/st-compiler/src/compile.rs:441-458 -/
def intWidthFromAst : DataType → IntWidth
  | .elementary e => match e with
    | .sint => .i8
    | .usint | .byte => .u8
    | .int => .i16
    | .uint | .word => .u16
    | .dint => .i32
    | .udint | .dword => .u32
    | .lint => .i64
    | .ulint | .lword => .u64
    | _ => .none
  | _ => .none

/-! ## Variable blocks -/

/-- The slot a layout gets appended for a variable. -/
def newSlot (l : MemoryLayout) (name : String) (ty : VarType) (width : IntWidth)
    (retain persistent : Bool) : VarSlot where
  name := name
  ty := ty
  offset := l.totalSize
  size := ty.size
  retain := retain
  persistent := persistent
  intWidth := width

/-- mirrors crates/st-compiler/src/compile.rs:587-608 -/
def addLocal (name : String) (ty : VarType) (width : IntWidth) (retain persistent : Bool) :
    CompileM UInt16 := fun s =>
  .ok (s.locals.slots.length.toUInt16, { s with locals :=
    ⟨s.locals.slots ++ [newSlot s.locals name ty width retain persistent]⟩ })

/-- mirrors crates/st-compiler/src/compile.rs:572-585 -/
def constEvalIntExpr : Expression → Except CompileFault (Option Int64)
  | .literal (.integer n) _ => .ok (some n)
  | .literal (.bool b) _ => .ok (some (if b then 1 else 0))
  | .unary .neg operand _ => do
    match ← constEvalIntExpr operand with
    | some v => if v = Int64.minValue then .error .overflow else return some (-v)
    | none => return none
  | _ => .ok none

def constBound (e : Expression) : Except CompileFault Int64 := do
  return (← constEvalIntExpr e).getD 0

def arrayDimensions : List (Expression × Expression) → Except CompileFault (List (Int64 × Int64))
  | [] => .ok []
  | (lower, upper) :: rs => do
    let lo ← constBound lower
    let hi ← constBound upper
    let rest ← arrayDimensions rs
    return (lo, hi) :: rest

/-- `self.locals.slots[slot].ty = ty` -/
def setSlotType (slot : UInt16) (ty : VarType) : CompileM Unit := fun s =>
  .ok ((), { s with locals := ⟨s.locals.slots.modify slot.toNat fun v => { v with ty := ty }⟩ })

/-- The type of a variable of a user-defined type: an instance of a function
block or class, or a structure. mirrors
crates/st-compiler/src/compile.rs:730-750 -/
def userVarType (env : ModuleEnv) (typeDefs : List TypeDef) (typeName : String) : Option VarType :=
  match env.position typeName with
  | some (i, f) => match f.kind with
    | .functionBlock => some (.fbInstance i.toUInt16)
    | .cls => some (.classInstance i.toUInt16)
    | _ => none
  | none => (findIdx (isStructNamed typeName) typeDefs).map fun p => .struct p.1.toUInt16

/-- The second look at the type of a declared variable, once its slot exists.
mirrors crates/st-compiler/src/compile.rs:726-766 -/
def resolveSlotType (env : ModuleEnv) (slot : UInt16) : DataType → CompileM Unit
  | .userDefined parts => do
    let typeName := parts.asStr
    modify fun s => { s with fbTypeNames := AList.insert slot typeName s.fbTypeNames }
    let s ← get
    match userVarType env s.typeDefs typeName with
    | some ty => setSlotType slot ty
    | none => return ()
  | .array ranges elementType => do
    let dims ← arrayDimensions ranges
    let s ← get
    set { s with typeDefs := s.typeDefs ++ [TypeDef.array (varTypeFromAst elementType) dims] }
    setSlotType slot (.array s.typeDefs.length.toUInt16)
  | _ => return ()

section

variable [F64Ops]

/-- One name of a declaration. mirrors
crates/st-compiler/src/compile.rs:720-773 -/
def declareName (env : ModuleEnv) (emitInit retain persistent : Bool) (decl : VarDeclaration)
    (name : String) : CompileM Unit := do
  let slot ← addLocal name (varTypeFromAst decl.ty) (intWidthFromAst decl.ty) retain persistent
  resolveSlotType env slot decl.ty
  match emitInit, decl.initialValue with
  | true, some e =>
    let r ← compileExpression env e
    emit (.storeLocal slot r)
  | _, _ => return ()

def declareNames (env : ModuleEnv) (emitInit retain persistent : Bool) (decl : VarDeclaration) :
    List String → CompileM Unit
  | [] => return ()
  | name :: names => do
    declareName env emitInit retain persistent decl name
    declareNames env emitInit retain persistent decl names

def declareAll (env : ModuleEnv) (emitInit retain persistent : Bool) :
    List VarDeclaration → CompileM Unit
  | [] => return ()
  | decl :: decls => do
    declareNames env emitInit retain persistent decl (decl.names.map (·.name))
    declareAll env emitInit retain persistent decls

/-- mirrors crates/st-compiler/src/compile.rs:708-775 -/
def compileVarBlocksInner (env : ModuleEnv) (emitInit : Bool) : List VarBlock → CompileM Unit
  | [] => return ()
  | vb :: vbs => do
    declareAll env emitInit (vb.qualifiers.contains .retain) (vb.qualifiers.contains .persistent)
      vb.declarations
    compileVarBlocksInner env emitInit vbs

def compileVarBlocks (env : ModuleEnv) (vbs : List VarBlock) : CompileM Unit :=
  compileVarBlocksInner env true vbs

def registerVarBlocks (env : ModuleEnv) (vbs : List VarBlock) : CompileM Unit :=
  compileVarBlocksInner env false vbs

/-! ## Bodies -/

def currentPc : CompileM Nat := do
  return (← get).instructions.length

/-- The body of a program or a function block, with the start of the code
after the initialisers.
mirrors crates/st-compiler/src/compile.rs:258-271 and 290-302 -/
def pouBody (env : ModuleEnv) (varBlocks : List VarBlock) (body : List Statement) :
    CompileM Nat := do
  compileVarBlocks env varBlocks
  let start ← currentPc
  compileStatements env body
  emit .retVoid
  return start

/-- The result variable is loaded and returned. -/
def emitReturn (slot : UInt16) : CompileM Unit := do
  let r ← emitTo (.loadLocal · slot)
  emit (.ret r)

/-- mirrors crates/st-compiler/src/compile.rs:272-289 -/
def functionBody (env : ModuleEnv) (f : FunctionDecl) : CompileM Nat := do
  compileVarBlocks env f.varBlocks
  let slot ← addLocal f.name.name (varTypeFromAst f.returnType) (intWidthFromAst f.returnType)
    false false
  let start ← currentPc
  compileStatements env f.body
  emitReturn slot
  return start

/-- mirrors crates/st-compiler/src/compile.rs:303-320 -/
def classBody (env : ModuleEnv) (inherited own : List VarBlock) : CompileM Nat := do
  compileVarBlocks env inherited
  compileVarBlocks env own
  let start ← currentPc
  emit .retVoid
  return start

/-- mirrors crates/st-compiler/src/compile.rs:325-357 -/
def methodBody (env : ModuleEnv) (inherited own : List VarBlock) (m : MethodDecl) :
    CompileM Nat := do
  registerVarBlocks env inherited
  registerVarBlocks env own
  compileVarBlocks env m.varBlocks
  match m.returnType with
  | some ty =>
    let slot ← addLocal m.name.name (varTypeFromAst ty) (intWidthFromAst ty) false false
    let start ← currentPc
    compileStatements env m.body
    emitReturn slot
    return start
  | none =>
    let start ← currentPc
    compileStatements env m.body
    emit .retVoid
    return start

/-! ## Passes -/

/-- mirrors crates/st-compiler/src/compile.rs:104-118 -/
structure ModuleCompiler where
  functions : List Function
  globals : MemoryLayout
  typeDefs : List TypeDef
  classBases : NameMap String
  classVarBlocks : NameMap (List VarBlock)
  pendingGlobalInits : List (UInt16 × Expression)

def ModuleCompiler.empty : ModuleCompiler where
  functions := []
  globals := .empty
  typeDefs := []
  classBases := ∅
  classVarBlocks := ∅
  pendingGlobalInits := []

def ModuleCompiler.env (mc : ModuleCompiler) : ModuleEnv :=
  ⟨mc.functions, mc.globals, mc.classBases⟩

/-- A function that has been registered but not compiled. -/
def stub (name : String) (kind : PouKind) : Function where
  name := name
  kind := kind
  registerCount := 0
  instructions := []
  labelPositions := []
  locals := .empty
  sourceMap := []
  bodyStartPc := 0

def methodName (cls : ClassDecl) (m : MethodDecl) : String := cls.name.name ++ "." ++ m.name.name

/-- One name of a global declaration. mirrors
crates/st-compiler/src/compile.rs:161-188 -/
def registerGlobal (retain persistent : Bool) (decl : VarDeclaration) (mc : ModuleCompiler)
    (name : String) : ModuleCompiler :=
  let slot := newSlot mc.globals name (varTypeFromAst decl.ty) (intWidthFromAst decl.ty)
    retain persistent
  { mc with
    globals := ⟨mc.globals.slots ++ [slot]⟩
    pendingGlobalInits := match decl.initialValue with
      | some e => mc.pendingGlobalInits ++ [(mc.globals.slots.length.toUInt16, e)]
      | none => mc.pendingGlobalInits }

def structFields (fields : List StructField) : List VarSlot :=
  fields.zipIdx.map fun (f, i) =>
    { name := f.name, ty := varTypeFromAst f.ty, offset := i, size := (varTypeFromAst f.ty).size,
      retain := false, persistent := false, intWidth := intWidthFromAst f.ty }

/-- mirrors crates/st-compiler/src/compile.rs:121-254 -/
def registerItem (mc : ModuleCompiler) : TopLevelItem → ModuleCompiler
  | .program p => { mc with functions := mc.functions ++ [stub p.name.name .program] }
  | .function f => { mc with functions := mc.functions ++ [stub f.name.name .function] }
  | .functionBlock fb => { mc with functions := mc.functions ++ [stub fb.name.name .functionBlock] }
  | .globalVarDeclaration vb =>
    vb.declarations.foldl (fun mc decl => (decl.names.map (·.name)).foldl
      (registerGlobal (vb.qualifiers.contains .retain) (vb.qualifiers.contains .persistent) decl)
      mc) mc
  | .classDecl cls =>
    { mc with
      classBases := match cls.baseClass with
        | some base => AList.insert (toUppercase cls.name.name) (toUppercase base) mc.classBases
        | none => mc.classBases
      classVarBlocks := AList.insert (toUppercase cls.name.name) cls.varBlocks mc.classVarBlocks
      functions := mc.functions ++ stub cls.name.name .cls ::
        (cls.methods.filter (!·.isAbstract)).map fun m => stub (methodName cls m) .method }
  | .interface _ => mc
  | .typeDeclaration defs => { mc with typeDefs := mc.typeDefs ++ defs.filterMap fun d =>
      match d.ty with
      | .struct fields => some (.struct d.name.name (structFields fields))
      | _ => none }

/-- mirrors crates/st-compiler/src/compile.rs:394-406, nearest ancestor
first. -/
def ancestorBlocks (mc : ModuleCompiler) : Nat → Option String →
    Except CompileFault (List (List VarBlock))
  | _, none => .ok []
  | 0, some _ => .error .cyclicInheritance
  | fuel + 1, some parent => do
    let rest ← ancestorBlocks mc fuel (AList.lookup parent mc.classBases)
    return (AList.lookup parent mc.classVarBlocks).toList ++ rest

/-- mirrors crates/st-compiler/src/compile.rs:394-406, root first. -/
def collectInheritedVarBlocks (mc : ModuleCompiler) (className : String) :
    Except CompileFault (List VarBlock) := do
  let chain ← ancestorBlocks mc (mc.classBases.entries.length + 1)
    (AList.lookup (toUppercase className) mc.classBases)
  return chain.reverse.flatten

/-- mirrors crates/st-compiler/src/compile.rs:680-691 -/
def FunctionCompiler.finish (s : FunctionCompiler) (name : String) (kind : PouKind)
    (bodyStartPc : Nat) : Function where
  name := name
  kind := kind
  registerCount := s.nextReg
  instructions := s.instructions
  labelPositions := s.labelPositions
  locals := s.locals
  sourceMap := s.sourceMap
  bodyStartPc := bodyStartPc

/-- Compile one body and put it in the place of the first function of its
name. -/
def compilePou (mc : ModuleCompiler) (name : String) (kind : PouKind) (body : CompileM Nat) :
    Except CompileFault ModuleCompiler :=
  match mc.env.position name with
  | none => .error (.internal ("function '" ++ name ++ "' not registered"))
  | some (i, _) => do
    let (start, s) ← body (.new mc.typeDefs)
    return { mc with functions := mc.functions.set i (s.finish name kind start),
                     typeDefs := s.typeDefs }

def compileMethods (cls : ClassDecl) (inherited : List VarBlock) :
    List MethodDecl → ModuleCompiler → Except CompileFault ModuleCompiler
  | [], mc => .ok mc
  | m :: ms, mc =>
    if m.isAbstract then compileMethods cls inherited ms mc
    else do
      let mc' ← compilePou mc (methodName cls m) .method
        (methodBody mc.env inherited cls.varBlocks m)
      compileMethods cls inherited ms mc'

/-- mirrors crates/st-compiler/src/compile.rs:256-363 -/
def compileItem (mc : ModuleCompiler) : TopLevelItem → Except CompileFault ModuleCompiler
  | .program p => compilePou mc p.name.name .program (pouBody mc.env p.varBlocks p.body)
  | .function f => compilePou mc f.name.name .function (functionBody mc.env f)
  | .functionBlock fb =>
    compilePou mc fb.name.name .functionBlock (pouBody mc.env fb.varBlocks fb.body)
  | .classDecl cls => do
    let inherited ← collectInheritedVarBlocks mc cls.name.name
    let mc' ← compilePou mc cls.name.name .cls (classBody mc.env inherited cls.varBlocks)
    compileMethods cls inherited cls.methods mc'
  | _ => .ok mc

def compileItems (mc : ModuleCompiler) : List TopLevelItem → Except CompileFault ModuleCompiler
  | [] => .ok mc
  | item :: items => do
    let mc' ← compileItem mc item
    compileItems mc' items

def compileInits (env : ModuleEnv) : List (UInt16 × Expression) → CompileM Unit
  | [] => return ()
  | (slot, e) :: inits => do
    setSource e.range
    let r ← compileExpression env e
    emit (.storeGlobal slot r)
    compileInits env inits

def globalInitBody (env : ModuleEnv) (inits : List (UInt16 × Expression)) : CompileM Unit := do
  compileInits env inits
  emit .retVoid

def globalInitName : String := "__global_init"

/-- mirrors crates/st-compiler/src/compile.rs:370-391 -/
def compileGlobalInit (mc : ModuleCompiler) : Except CompileFault ModuleCompiler :=
  if mc.pendingGlobalInits.isEmpty then .ok mc
  else do
    let (_, s) ← globalInitBody mc.env mc.pendingGlobalInits (.new mc.typeDefs)
    return { mc with functions := mc.functions ++ [s.finish globalInitName .function 0],
                     typeDefs := s.typeDefs,
                     pendingGlobalInits := [] }

def isProgram : TopLevelItem → Bool
  | .program _ => true
  | _ => false

/-- mirrors crates/st-compiler/src/compile.rs:17-96, without native function
blocks. -/
def compile (source : SourceFile) : Except CompileFault Module := do
  let registered := source.items.foldl registerItem .empty
  let others ← compileItems registered (source.items.filter (!isProgram ·))
  let programs ← compileItems others (source.items.filter isProgram)
  let mc ← compileGlobalInit programs
  return ⟨mc.functions, mc.globals, mc.typeDefs, []⟩

/-- The source compiles, and its module passes the test. -/
def yields (source : SourceFile) (p : Module → Bool) : Bool :=
  match compile source with
  | .ok m => p m
  | .error _ => false

theorem yields_iff {source : SourceFile} {p : Module → Bool} :
    yields source p = true ↔ ∃ m, compile source = .ok m ∧ p m = true := by
  unfold yields
  cases compile source <;> simp

end

end RustPlc.Compiler
