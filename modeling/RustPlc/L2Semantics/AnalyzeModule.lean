import RustPlc.L2Semantics.Analyze

/-!
# The analyzer: declarations

crates/st-semantics/src/analyze.rs:16-1228 and 2196-2376, without native
function blocks: the built-in functions, the two passes over the items, and the
check for unused variables. `accepts` is what the users of the analyzer ask for:
no diagnostic is an error.
-/
namespace RustPlc.Analysis

open RustPlc.Ir RustPlc.Syntax

/-! ## Declared types -/

/-- mirrors crates/st-semantics/src/analyze.rs:2196-2236 -/
def resolveDataType (t : SymbolTable) : DataType → Ty
  | .elementary e => .elementary e
  | .array ranges elementType =>
    .array (ranges.map fun r => ((constEvalInt r.1).getD 0, (constEvalInt r.2).getD 0))
      (resolveDataType t elementType)
  | .string wide length =>
    .string wide ((length.bind constEvalInt).map fun v => v.toUInt64.toUInt32)
  | .ref _ => .unknown
  | .userDefined q => match t.resolveType q.asStr with
    | some sym => sym.ty
    | none => match t.resolvePou q.asStr with
      | some sym => sym.ty
      | none => .unknown

/-- mirrors crates/st-semantics/src/analyze.rs:2238-2271 -/
def resolveTypeDefKind (t : SymbolTable) (name : String) : TypeDefKind → Ty
  | .struct fields => .struct name (fields.map fun f => (f.name, resolveDataType t f.ty))
  | .enum values => .enum name (values.map (·.name))
  | .subrange base lower upper =>
    .subrange name base ((constEvalInt lower).getD 0) ((constEvalInt upper).getD 0)
  | .alias target => .alias name (resolveDataType t target)

/-- mirrors crates/st-semantics/src/analyze.rs:2279-2303 -/
def collectParamsByKind (t : SymbolTable) (p : VarKind → Bool) (blocks : List VarBlock) :
    List ParamDef :=
  (blocks.filter fun vb => p vb.kind).flatMap fun vb => vb.declarations.flatMap fun decl =>
    decl.names.map fun id => ⟨id.name, resolveDataType t decl.ty, vb.kind⟩

def isInputKind : VarKind → Bool
  | .varInput | .varInOut => true
  | _ => false

def isOutputKind (k : VarKind) : Bool := k == .varOutput

def isInternalKind : VarKind → Bool
  | .var | .varTemp => true
  | _ => false

/-- mirrors crates/st-semantics/src/analyze.rs:2273-2277 -/
def collectParams (t : SymbolTable) (blocks : List VarBlock) : List ParamDef :=
  collectParamsByKind t isInputKind blocks

/-! ## Built-in functions -/

def builtin (name : String) (params : List (String × Ty)) (returnType : Ty) : Symbol where
  name := name
  ty := returnType
  kind := .function returnType (params.map fun p => ⟨p.1, p.2, .varInput⟩)
  range := noRange
  used := true
  assigned := true

def intTy : Ty := .elementary .int
def realTy : Ty := .elementary .real
def boolTy : Ty := .elementary .bool
def timeTy : Ty := .elementary .time
def dateTy : Ty := .elementary .date
def todTy : Ty := .elementary .tod
def dtTy : Ty := .elementary .dt
def stringTy : Ty := .string false none

/-- The built-in functions of one argument `IN1`, with the types of argument and
result. mirrors crates/st-semantics/src/analyze.rs:77-326 -/
def conversions : List (List String × Ty × Ty) :=
  [(["SQRT", "SIN", "COS", "TAN", "ASIN", "ACOS", "ATAN", "LN", "LOG", "EXP"], realTy, realTy),
   (["INT_TO_REAL", "SINT_TO_REAL", "DINT_TO_REAL", "LINT_TO_REAL", "UINT_TO_REAL",
     "USINT_TO_REAL", "UDINT_TO_REAL", "ULINT_TO_REAL", "BOOL_TO_REAL", "INT_TO_LREAL",
     "SINT_TO_LREAL", "DINT_TO_LREAL", "LINT_TO_LREAL", "REAL_TO_LREAL"], intTy, realTy),
   (["REAL_TO_INT", "LREAL_TO_INT", "REAL_TO_DINT", "LREAL_TO_DINT", "REAL_TO_LINT",
     "LREAL_TO_LINT", "REAL_TO_SINT", "LREAL_TO_SINT"], realTy, intTy),
   (["BOOL_TO_INT", "BOOL_TO_DINT", "BOOL_TO_LINT"], boolTy, intTy),
   (["UINT_TO_INT", "UDINT_TO_DINT", "ULINT_TO_LINT", "INT_TO_DINT", "INT_TO_LINT",
     "DINT_TO_LINT", "SINT_TO_INT", "SINT_TO_DINT", "SINT_TO_LINT"], intTy, intTy),
   (["INT_TO_BOOL", "DINT_TO_BOOL", "LINT_TO_BOOL"], intTy, boolTy),
   (["REAL_TO_BOOL"], realTy, boolTy),
   (["TIME_TO_INT", "TIME_TO_SINT", "TIME_TO_DINT", "TIME_TO_LINT", "TIME_TO_UINT",
     "TIME_TO_USINT", "TIME_TO_UDINT", "TIME_TO_ULINT"], timeTy, intTy),
   (["TIME_TO_REAL", "TIME_TO_LREAL"], timeTy, realTy),
   (["TIME_TO_BOOL"], timeTy, boolTy),
   (["INT_TO_TIME", "SINT_TO_TIME", "DINT_TO_TIME", "LINT_TO_TIME", "UINT_TO_TIME",
     "USINT_TO_TIME", "UDINT_TO_TIME", "ULINT_TO_TIME"], intTy, timeTy),
   (["REAL_TO_TIME", "LREAL_TO_TIME"], realTy, timeTy),
   (["BOOL_TO_TIME"], boolTy, timeTy),
   (["TO_INT", "TO_SINT", "TO_DINT", "TO_LINT", "TO_UINT", "TO_USINT", "TO_UDINT", "TO_ULINT",
     "ANY_TO_INT", "ANY_TO_SINT", "ANY_TO_DINT", "ANY_TO_LINT", "ANY_TO_UINT", "ANY_TO_USINT",
     "ANY_TO_UDINT", "ANY_TO_ULINT"], .unknown, intTy),
   (["TO_REAL", "TO_LREAL", "ANY_TO_REAL", "ANY_TO_LREAL"], .unknown, realTy),
   (["TO_BOOL", "ANY_TO_BOOL"], .unknown, boolTy),
   (["TO_TIME", "ANY_TO_TIME"], .unknown, timeTy),
   (["DATE_TO_INT", "DATE_TO_SINT", "DATE_TO_DINT", "DATE_TO_LINT", "DATE_TO_UINT",
     "DATE_TO_USINT", "DATE_TO_UDINT", "DATE_TO_ULINT"], dateTy, intTy),
   (["DATE_TO_REAL", "DATE_TO_LREAL"], dateTy, realTy),
   (["DATE_TO_BOOL"], dateTy, boolTy),
   (["INT_TO_DATE", "SINT_TO_DATE", "DINT_TO_DATE", "LINT_TO_DATE", "UINT_TO_DATE",
     "USINT_TO_DATE", "UDINT_TO_DATE", "ULINT_TO_DATE"], intTy, dateTy),
   (["REAL_TO_DATE", "LREAL_TO_DATE"], realTy, dateTy),
   (["TOD_TO_INT", "TOD_TO_SINT", "TOD_TO_DINT", "TOD_TO_LINT", "TOD_TO_UINT", "TOD_TO_USINT",
     "TOD_TO_UDINT", "TOD_TO_ULINT"], todTy, intTy),
   (["TOD_TO_REAL", "TOD_TO_LREAL"], todTy, realTy),
   (["TOD_TO_BOOL"], todTy, boolTy),
   (["INT_TO_TOD", "SINT_TO_TOD", "DINT_TO_TOD", "LINT_TO_TOD", "UINT_TO_TOD", "USINT_TO_TOD",
     "UDINT_TO_TOD", "ULINT_TO_TOD"], intTy, todTy),
   (["REAL_TO_TOD", "LREAL_TO_TOD"], realTy, todTy),
   (["DT_TO_INT", "DT_TO_SINT", "DT_TO_DINT", "DT_TO_LINT", "DT_TO_UINT", "DT_TO_USINT",
     "DT_TO_UDINT", "DT_TO_ULINT"], dtTy, intTy),
   (["DT_TO_REAL", "DT_TO_LREAL"], dtTy, realTy),
   (["DT_TO_BOOL"], dtTy, boolTy),
   (["INT_TO_DT", "SINT_TO_DT", "DINT_TO_DT", "LINT_TO_DT", "UINT_TO_DT", "USINT_TO_DT",
     "UDINT_TO_DT", "ULINT_TO_DT"], intTy, dtTy),
   (["REAL_TO_DT", "LREAL_TO_DT"], realTy, dtTy),
   (["DT_TO_DATE"], dtTy, dateTy), (["DT_TO_TOD"], dtTy, todTy), (["DATE_TO_DT"], dateTy, dtTy),
   (["TIME_TO_DATE"], timeTy, dateTy), (["TIME_TO_TOD"], timeTy, todTy),
   (["TIME_TO_DT"], timeTy, dtTy), (["DATE_TO_TIME"], dateTy, timeTy),
   (["TOD_TO_TIME"], todTy, timeTy), (["DT_TO_TIME"], dtTy, timeTy),
   (["DAY_OF_WEEK"], dateTy, intTy),
   (["TO_DATE", "ANY_TO_DATE"], .unknown, dateTy),
   (["TO_TOD", "ANY_TO_TOD"], .unknown, todTy),
   (["TO_DT", "ANY_TO_DT"], .unknown, dtTy)]

/-- The date and time functions of two arguments `IN1` and `IN2`.
mirrors crates/st-semantics/src/analyze.rs:328-369 -/
def timeFunctions : List (String × Ty × Ty × Ty) :=
  [("ADD_TOD_TIME", todTy, timeTy, todTy), ("ADD_DT_TIME", dtTy, timeTy, dtTy),
   ("SUB_TOD_TIME", todTy, timeTy, todTy), ("SUB_DATE_DATE", dateTy, dateTy, timeTy),
   ("SUB_TOD_TOD", todTy, todTy, timeTy), ("SUB_DT_TIME", dtTy, timeTy, dtTy),
   ("SUB_DT_DT", dtTy, dtTy, timeTy), ("CONCAT_DATE_TOD", dateTy, todTy, dtTy),
   ("MULTIME", timeTy, intTy, timeTy), ("DIVTIME", timeTy, intTy, timeTy)]

/-- The string functions, with the names of their parameters.
mirrors crates/st-semantics/src/analyze.rs:371-481 -/
def stringFunctions : List (List String × List (String × Ty) × Ty) :=
  [(["LEN"], [("IN", stringTy)], intTy),
   (["LEFT", "RIGHT"], [("STR", stringTy), ("SIZE", intTy)], stringTy),
   (["MID"], [("STR", stringTy), ("LEN", intTy), ("POS", intTy)], stringTy),
   (["CONCAT"], [("STR1", stringTy), ("STR2", stringTy)], stringTy),
   (["INSERT"], [("STR1", stringTy), ("STR2", stringTy), ("POS", intTy)], stringTy),
   (["DELETE"], [("STR", stringTy), ("LEN", intTy), ("POS", intTy)], stringTy),
   (["REPLACE"], [("STR1", stringTy), ("STR2", stringTy), ("LEN", intTy), ("POS", intTy)],
     stringTy),
   (["FIND"], [("STR1", stringTy), ("STR2", stringTy)], intTy),
   (["TO_UPPER", "UPPER_CASE", "TO_LOWER", "LOWER_CASE", "TRIM", "LTRIM", "RTRIM"],
     [("IN", stringTy)], stringTy),
   (["INT_TO_STRING", "SINT_TO_STRING", "DINT_TO_STRING", "LINT_TO_STRING", "UINT_TO_STRING",
     "USINT_TO_STRING", "UDINT_TO_STRING", "ULINT_TO_STRING", "REAL_TO_STRING",
     "LREAL_TO_STRING", "BOOL_TO_STRING"], [("IN", .unknown)], stringTy),
   (["STRING_TO_INT", "STRING_TO_SINT", "STRING_TO_DINT", "STRING_TO_LINT", "STRING_TO_UINT",
     "STRING_TO_USINT", "STRING_TO_UDINT", "STRING_TO_ULINT"], [("IN", stringTy)], intTy),
   (["STRING_TO_REAL", "STRING_TO_LREAL"], [("IN", stringTy)], realTy),
   (["STRING_TO_BOOL"], [("IN", stringTy)], boolTy),
   (["TO_STRING", "ANY_TO_STRING"], [("IN", .unknown)], stringTy)]

/-- mirrors crates/st-semantics/src/analyze.rs:77-522 -/
def intrinsics : List Symbol :=
  (conversions.flatMap fun c => c.1.map fun n => builtin n [("IN1", c.2.1)] c.2.2) ++
  (timeFunctions.map fun c => builtin c.1 [("IN1", c.2.1), ("IN2", c.2.2.1)] c.2.2.2) ++
  (stringFunctions.flatMap fun c => c.1.map fun n => builtin n c.2.1 c.2.2) ++
  [builtin "REF" [("IN1", .unknown)] .unknown, builtin "SYSTEM_TIME" [] timeTy]

/-! ## Variable blocks -/

/-- Define a symbol in a scope; `what` names it when the scope has it already. -/
def defineOrReport (scope : Nat) (symbol : Symbol) (what : String) (range : TextRange) :
    AnalyzeM Unit := do
  let prev := (← get).symbols.lookupIn scope symbol.name
  modify fun a => { a with symbols := a.symbols.define scope symbol }
  errorIf prev.isSome .duplicateDeclaration
    ("duplicate " ++ what ++ " declaration '" ++ symbol.name ++ "'") range

/-- Define a symbol, whatever was there. -/
def defineIn (scope : Nat) (symbol : Symbol) : AnalyzeM Unit :=
  modify fun a => { a with symbols := a.symbols.define scope symbol }

/-- One name of a declaration. mirrors
crates/st-semantics/src/analyze.rs:1162-1197 -/
def declareVar (scope : Nat) (kind : VarKind) (ty : Ty) (initialised : Bool) (id : Identifier) :
    AnalyzeM Unit := do
  match (← get).symbols.resolve scope id.name with
  | some (parent, _) =>
    if parent ≠ scope then
      warning .shadowedVariable ("'" ++ id.name ++ "' shadows a variable in an outer scope") id.range
  | none => pure ()
  defineOrReport scope
    { name := id.name, ty := ty, kind := .variable kind, range := id.range, used := false,
      assigned := initialised || kind == .varInput || kind == .varInOut || kind == .varExternal }
    "variable" id.range

def declareVars (scope : Nat) (kind : VarKind) (ty : Ty) (initialised : Bool) :
    List Identifier → AnalyzeM Unit
  | [] => return ()
  | id :: ids => do
    declareVar scope kind ty initialised id
    declareVars scope kind ty initialised ids

def requireInit : List Identifier → AnalyzeM Unit
  | [] => return ()
  | id :: ids => do
    error .assignmentToConstant ("CONSTANT '" ++ id.name ++ "' must have an initial value") id.range
    requireInit ids

/-- mirrors crates/st-semantics/src/analyze.rs:1160-1228 -/
def declareDecls (scope : Nat) (kind : VarKind) (isConstant : Bool) :
    List VarDeclaration → AnalyzeM Unit
  | [] => return ()
  | decl :: decls => do
    let ty := resolveDataType (← get).symbols decl.ty
    declareVars scope kind ty decl.initialValue.isSome decl.names
    match decl.initialValue with
    | some e => do
      let initTy ← checkExpression e
      errorIf (!isTypeCompatible initTy ty && !initTy.isUnknown && !literalFitsInTarget e ty)
        .typeMismatchAssignment ("cannot initialize '" ++ ty.displayName ++ "' variable with '" ++
          initTy.displayName ++ "' value") e.range
    | none => if isConstant then requireInit decl.names
    declareDecls scope kind isConstant decls

/-- mirrors crates/st-semantics/src/analyze.rs:1158-1228 -/
def defineVarBlock (scope : Nat) (vb : VarBlock) : AnalyzeM Unit :=
  declareDecls scope vb.kind (vb.qualifiers.contains .constant) vb.declarations

def defineVarBlocks (scope : Nat) : List VarBlock → AnalyzeM Unit
  | [] => return ()
  | vb :: vbs => do
    defineVarBlock scope vb
    defineVarBlocks scope vbs

/-! ## First pass -/

/-- A symbol of an item. -/
def itemSymbol (name : String) (ty : Ty) (kind : SymbolKind) : Symbol :=
  ⟨name, ty, kind, noRange, false, false⟩

def methodDef (t : SymbolTable) (m : MethodDecl) : MethodDef where
  name := m.name.name
  returnType := (m.returnType.map (resolveDataType t)).getD .void
  params := collectParams t m.varBlocks
  access := m.access
  isAbstract := m.isAbstract
  isFinal := m.isFinal
  isOverride := m.isOverride

def prototypeDef (t : SymbolTable) (m : MethodPrototype) : MethodDef where
  name := m.name
  returnType := (m.returnType.map (resolveDataType t)).getD .void
  params := collectParams t m.varBlocks
  access := .pub
  isAbstract := false
  isFinal := false
  isOverride := false

def classInfo (t : SymbolTable) (cls : ClassDecl) : ClassInfo where
  params := collectParamsByKind t isInputKind cls.varBlocks
  outputs := collectParamsByKind t isOutputKind cls.varBlocks
  vars := collectParamsByKind t isInternalKind cls.varBlocks
  methods := cls.methods.map (methodDef t)
  baseClass := cls.baseClass
  interfaces := cls.interfaces
  isAbstract := cls.isAbstract
  isFinal := cls.isFinal

def registerTypes : List TypeDefinition → AnalyzeM Unit
  | [] => return ()
  | d :: ds => do
    let ty := resolveTypeDefKind (← get).symbols d.name.name d.ty
    defineOrReport 0 (itemSymbol d.name.name ty .type) "type" d.name.range
    registerTypes ds

/-- mirrors crates/st-semantics/src/analyze.rs:558-767 -/
def registerTopLevel : TopLevelItem → AnalyzeM Unit
  | .typeDeclaration defs => registerTypes defs
  | .function f => do
    let t := (← get).symbols
    let ty := resolveDataType t f.returnType
    defineOrReport 0 (itemSymbol f.name.name ty (.function ty (collectParams t f.varBlocks)))
      "function" f.name.range
  | .functionBlock fb => do
    let t := (← get).symbols
    defineOrReport 0 (itemSymbol fb.name.name (.functionBlock fb.name.name)
        (.functionBlock (collectParamsByKind t isInputKind fb.varBlocks)
          (collectParamsByKind t isOutputKind fb.varBlocks)))
      "function block" fb.name.range
  | .classDecl cls => do
    let t := (← get).symbols
    defineOrReport 0 (itemSymbol cls.name.name (.cls cls.name.name) (.cls (classInfo t cls)))
      "class" cls.name.range
  | .interface i => do
    let t := (← get).symbols
    defineOrReport 0 (itemSymbol i.name.name (.interface i.name.name)
        (.interface (i.methods.map (prototypeDef t)) i.baseInterfaces))
      "interface" i.name.range
  | .program p => do
    let t := (← get).symbols
    defineOrReport 0 (itemSymbol p.name.name .void (.program (collectParams t p.varBlocks)))
      "program" p.name.range
  | .globalVarDeclaration vb => defineVarBlock 0 vb

/-! ## Second pass -/

/-- Create a scope inside the current one and enter it. -/
def enterScope : AnalyzeM Nat := do
  let a ← get
  let (symbols, scope) := a.symbols.createScope a.currentScope
  set { a with symbols := symbols, currentScope := scope }
  return scope

/-- Analyze in a new scope inside the current one; outside of a class that is
the global scope. -/
def inNewScope (body : Nat → AnalyzeM Unit) : AnalyzeM Unit := do
  let saved := (← get).currentScope
  let scope ← enterScope
  body scope
  modify fun a => { a with currentScope := saved }

/-- A variable the analyzer adds to a scope. -/
def implicitVar (id : Identifier) (ty : Ty) (kind : VarKind) (used assigned : Bool) : Symbol :=
  ⟨id.name, ty, .variable kind, id.range, used, assigned⟩

def checkInterfaces (cls : ClassDecl) : List String → AnalyzeM Unit
  | [] => return ()
  | name :: names => do
    errorIf ((← get).symbols.resolveInterface name).isNone .undeclaredType
      ("undeclared interface '" ++ name ++ "'") cls.name.range
    checkInterfaces cls names

def checkImplements (cls : ClassDecl) (iface : String) : List MethodDef → AnalyzeM Unit
  | [] => return ()
  | im :: ims => do
    errorIf (!cls.methods.any fun m => eqIgnoreAsciiCase m.name.name im.name)
      .interfaceNotImplemented ("class '" ++ cls.name.name ++ "' does not implement method '" ++
        im.name ++ "' from interface '" ++ iface ++ "'") cls.name.range
    checkImplements cls iface ims

def checkConformance (cls : ClassDecl) : List String → AnalyzeM Unit
  | [] => return ()
  | name :: names => do
    match (← get).symbols.resolveInterface name with
    | some methods => checkImplements cls name methods
    | none => pure ()
    checkConformance cls names

def checkAbstract (cls : ClassDecl) : List MethodDecl → AnalyzeM Unit
  | [] => return ()
  | m :: ms => do
    errorIf (!cls.isAbstract && m.isAbstract) .abstractMethodInNonAbstractClass
      ("abstract method '" ++ m.name.name ++ "' in non-abstract class '" ++ cls.name.name ++ "'")
      m.name.range
    checkAbstract cls ms

/-- mirrors crates/st-semantics/src/analyze.rs:839-861 -/
def checkBaseClass (cls : ClassDecl) : AnalyzeM Unit := do
  match cls.baseClass with
  | some base => match (← get).symbols.resolveClass base with
    | some info =>
      errorIf info.isFinal .cannotExtendFinalClass
        ("cannot extend FINAL class '" ++ base ++ "'") cls.name.range
    | none => error .undeclaredType ("undeclared base class '" ++ base ++ "'") cls.name.range
  | none => return ()

/-- The ancestors of a class, nearest first; `none` when the walk does not end. -/
def ancestors (t : SymbolTable) : Nat → Option String → Option (List ClassInfo)
  | _, none => some []
  | 0, some _ => none
  | fuel + 1, some cls => match t.resolveClass cls with
    | some info => (ancestors t fuel info.baseClass).map (info :: ·)
    | none => some []

def defineInherited (scope : Nat) : List ParamDef → AnalyzeM Unit
  | [] => return ()
  | p :: ps => do
    if ((← get).symbols.lookupIn scope p.name).isNone then
      defineIn scope ⟨p.name, p.ty, .variable p.varKind, noRange, true, true⟩
    defineInherited scope ps

/-- mirrors crates/st-semantics/src/analyze.rs:1096-1130 -/
def defineInheritedVars (scope : Nat) (baseClass : Option String) : AnalyzeM Unit := do
  let t := (← get).symbols
  match ancestors t (hierarchyFuel t) baseClass with
  | some chain =>
    defineInherited scope
      (chain.reverse.flatMap fun info => info.params ++ info.outputs ++ info.vars)
  | none => markEndless

/-- mirrors crates/st-semantics/src/analyze.rs:973-1019 -/
def checkOverride (cls : ClassDecl) (m : MethodDecl) : AnalyzeM Unit := do
  if m.isOverride then
    match cls.baseClass with
    | some base =>
      match ((← get).symbols.resolveClass base).bind fun info =>
          findMethod info.methods m.name.name with
      | some bm =>
        errorIf bm.isFinal .cannotOverrideFinalMethod ("cannot override FINAL method '" ++
          m.name.name ++ "' from base class '" ++ base ++ "'") m.name.range
      | none =>
        error .invalidOverride ("method '" ++ m.name.name ++
          "' marked OVERRIDE but no matching method in base class '" ++ base ++ "'") m.name.range
    | none =>
      error .invalidOverride ("method '" ++ m.name.name ++
        "' marked OVERRIDE but class '" ++ cls.name.name ++ "' has no base class") m.name.range

/-- The result variable of a function or method. -/
def declareResult (scope : Nat) (name : Identifier) : Option DataType → AnalyzeM Unit
  | some dt => do
    let ty := resolveDataType (← get).symbols dt
    defineIn scope (implicitVar name ty .var true false)
  | none => return ()

def declareMethod (cls : ClassDecl) (m : MethodDecl) (scope : Nat) : AnalyzeM Unit := do
  declareResult scope m.name m.returnType
  checkOverride cls m
  defineVarBlocks scope m.varBlocks

/-- mirrors crates/st-semantics/src/analyze.rs:943-1031 -/
def analyzeMethod (cls : ClassDecl) (m : MethodDecl) : AnalyzeM Unit :=
  inNewScope fun scope => do
    declareMethod cls m scope
    if !m.isAbstract then analyzeStatements false m.body

def analyzeMethods (cls : ClassDecl) : List MethodDecl → AnalyzeM Unit
  | [] => return ()
  | m :: ms => do
    analyzeMethod cls m
    analyzeMethods cls ms

/-- One accessor of a property, with the variable of its name. -/
def analyzeAccessor (symbol : Symbol) : Option PropertyAccessor → AnalyzeM Unit
  | some acc => inNewScope fun scope => do
    defineIn scope symbol
    defineVarBlocks scope acc.varBlocks
    analyzeStatements false acc.body
  | none => return ()

/-- mirrors crates/st-semantics/src/analyze.rs:1033-1092 -/
def analyzeProperty (prop : PropertyDecl) : AnalyzeM Unit := do
  let ty := resolveDataType (← get).symbols prop.ty
  analyzeAccessor (implicitVar prop.name ty .var true false) prop.getBody
  analyzeAccessor (implicitVar prop.name ty .varInput false true) prop.setBody

def analyzeProperties : List PropertyDecl → AnalyzeM Unit
  | [] => return ()
  | p :: ps => do
    analyzeProperty p
    analyzeProperties ps

def declareClass (cls : ClassDecl) (scope : Nat) : AnalyzeM Unit := do
  modify fun a => { a with currentClass := some cls.name.name }
  checkBaseClass cls
  checkInterfaces cls cls.interfaces
  checkConformance cls cls.interfaces
  checkAbstract cls cls.methods
  defineInheritedVars scope cls.baseClass
  defineVarBlocks scope cls.varBlocks

/-- mirrors crates/st-semantics/src/analyze.rs:828-941 -/
def analyzeClass (cls : ClassDecl) : AnalyzeM Unit := do
  let savedClass := (← get).currentClass
  inNewScope fun scope => do
    declareClass cls scope
    analyzeMethods cls cls.methods
    analyzeProperties cls.properties
  modify fun a => { a with currentClass := savedClass }

def checkBaseInterfaces (i : InterfaceDecl) : List String → AnalyzeM Unit
  | [] => return ()
  | base :: bases => do
    errorIf ((← get).symbols.resolveInterface base).isNone .undeclaredType
      ("undeclared base interface '" ++ base ++ "'") i.name.range
    checkBaseInterfaces i bases

/-- mirrors crates/st-semantics/src/analyze.rs:769-822. The types of an
interface's prototypes are resolved and dropped. -/
def analyzeTopLevel : TopLevelItem → AnalyzeM Unit
  | .program p => inNewScope fun scope => do
    defineVarBlocks scope p.varBlocks
    analyzeStatements false p.body
  | .function f => inNewScope fun scope => do
    declareResult scope f.name (some f.returnType)
    defineVarBlocks scope f.varBlocks
    analyzeStatements false f.body
  | .functionBlock fb => inNewScope fun scope => do
    defineVarBlocks scope fb.varBlocks
    analyzeStatements false fb.body
  | .classDecl cls => analyzeClass cls
  | .interface i => checkBaseInterfaces i i.baseInterfaces
  | .typeDeclaration _ | .globalVarDeclaration _ => return ()

def registerAll : List TopLevelItem → AnalyzeM Unit
  | [] => return ()
  | item :: items => do
    registerTopLevel item
    registerAll items

def analyzeAll : List TopLevelItem → AnalyzeM Unit
  | [] => return ()
  | item :: items => do
    analyzeTopLevel item
    analyzeAll items

/-! ## Unused variables -/

def isInstance : Ty → Bool
  | .functionBlock _ | .cls _ => true
  | _ => false

/-- mirrors crates/st-semantics/src/analyze.rs:2331-2365 -/
def unusedWarnings (sym : Symbol) : List Diagnostic :=
  match sym.kind with
  | .variable vk =>
    (if !sym.used && !sym.name.startsWith "_" then
      [⟨.warning, if vk == .varInput || vk == .varOutput then .unusedParameter else .unusedVariable,
        "unused variable '" ++ sym.name ++ "'", sym.range⟩] else []) ++
    (if !sym.assigned && !isInstance sym.ty &&
        !(vk == .varInput || vk == .varInOut || vk == .varExternal) && sym.used then
      [⟨.warning, .variableNeverAssigned,
        "variable '" ++ sym.name ++ "' is used but never assigned", sym.range⟩] else [])
  | _ => []

/-- mirrors crates/st-semantics/src/analyze.rs:2323-2371; the source takes the
symbols of a scope in the order of a hash map. -/
def checkUnused (a : Analyzer) : Analyzer :=
  { a with diagnostics := a.diagnostics ++ (a.symbols.scopes.drop 1).flatMap fun s =>
      s.symbols.flatMap fun e => unusedWarnings e.2 }

/-! ## The analyzer -/

/-- The table with the built-in functions, whose names are upper case and
distinct. -/
def builtinTable : SymbolTable := ⟨[⟨none, intrinsics.map fun sym => (sym.name, sym)⟩]⟩

def initialAnalyzer : Analyzer where
  symbols := builtinTable
  diagnostics := []
  currentScope := 0
  inLoop := false
  currentClass := none
  endless := false

/-- mirrors crates/st-semantics/src/analyze.rs:546-555 -/
def analyzeSourceFile (source : SourceFile) : AnalyzeM Unit := do
  registerAll source.items
  analyzeAll source.items

/-- mirrors crates/st-semantics/src/analyze.rs:16-47, without native function
blocks. -/
def analyze (source : SourceFile) : Analyzer :=
  checkUnused (analyzeSourceFile source initialAnalyzer).2

def Analyzer.errors (a : Analyzer) : List Diagnostic :=
  a.diagnostics.filter fun d => d.severity == .error

/-- The analyzer ends and reports no error. -/
def accepts (source : SourceFile) : Bool :=
  let a := analyze source
  !a.endless && a.errors.isEmpty

end RustPlc.Analysis
