import RustPlc.L2Semantics.Scope

/-!
# The analyzer: expressions and statements

crates/st-semantics/src/analyze.rs:1229-2271. `AnalyzeM` threads the fields of
`Analyzer`; `current_pou_return_type`, which nothing reads, is left out.

The walks up a class hierarchy (`resolve_class_method`, `define_inherited_vars`)
do not end when a class inherits from itself. Then `endless` is set; what the
analyzer computes after that means nothing.
-/
namespace RustPlc.Analysis

open RustPlc.Ir RustPlc.Syntax

/-- mirrors crates/st-semantics/src/diagnostic.rs:5-10 -/
inductive Severity where
  | error | warning
  deriving DecidableEq, Repr

/-- mirrors crates/st-semantics/src/diagnostic.rs:51-117: the codes the
analyzer uses, and `circularInheritance`, which it does not. -/
inductive DiagnosticCode where
  | undeclaredVariable | undeclaredPou | undeclaredType | duplicateDeclaration
  | typeMismatch | typeMismatchAssignment | typeMismatchCondition
  | incompatibleBinaryOp | incompatibleUnaryOp
  | arrayIndexTypeMismatch | arrayDimensionMismatch | indexOnNonArray
  | noSuchField | fieldAccessOnNonStruct
  | notCallable | missingRequiredParam | unknownParam | duplicateParam
  | tooManyPositionalArgs | paramTypeMismatch
  | exitOutsideLoop | forVariableNotInteger | caseSelectorTypeMismatch
  | assignmentToConstant
  | cannotInstantiateAbstractClass | cannotExtendFinalClass | cannotOverrideFinalMethod
  | interfaceNotImplemented | invalidOverride | abstractMethodInNonAbstractClass
  | invalidThisContext | invalidSuperContext | circularInheritance
  | unusedVariable | unusedParameter | variableNeverAssigned | shadowedVariable | deadCode
  deriving DecidableEq, Repr

/-- mirrors crates/st-semantics/src/diagnostic.rs:12-18 -/
structure Diagnostic where
  severity : Severity
  code : DiagnosticCode
  message : String
  range : TextRange
  deriving DecidableEq, Repr

/-- mirrors crates/st-semantics/src/analyze.rs:49-57 -/
structure Analyzer where
  symbols : SymbolTable
  diagnostics : List Diagnostic
  currentScope : Nat
  inLoop : Bool
  currentClass : Option String
  endless : Bool

abbrev AnalyzeM := StateM Analyzer

def report (severity : Severity) (code : DiagnosticCode) (message : String) (range : TextRange) :
    AnalyzeM Unit :=
  modify fun a => { a with diagnostics := a.diagnostics ++ [⟨severity, code, message, range⟩] }

/-- mirrors crates/st-semantics/src/analyze.rs:60-63 -/
def error : DiagnosticCode → String → TextRange → AnalyzeM Unit := report .error

/-- mirrors crates/st-semantics/src/analyze.rs:65-68 -/
def warning : DiagnosticCode → String → TextRange → AnalyzeM Unit := report .warning

/-- Report an error when the test holds. -/
def errorIf (b : Bool) (code : DiagnosticCode) (message : String) (range : TextRange) :
    AnalyzeM Unit :=
  if b then error code message range else pure ()

/-- What a name resolves to in the current scope. -/
def resolveHere (name : String) : AnalyzeM (Option Symbol) := do
  let a ← get
  return (a.symbols.resolve a.currentScope name).map (·.2)

def markUsedHere (name : String) : AnalyzeM Unit :=
  modify fun a => { a with symbols := a.symbols.markUsed a.currentScope name }

def markAssignedHere (name : String) : AnalyzeM Unit :=
  modify fun a => { a with symbols := a.symbols.markAssigned a.currentScope name }

def markEndless : AnalyzeM Unit := modify fun a => { a with endless := true }

/-! ## Expressions -/

/-- mirrors crates/st-semantics/src/analyze.rs:1530-1547 -/
def literalType : LiteralKind → Ty
  | .integer _ => .elementary .int
  | .real _ => .elementary .real
  | .string _ => .string false none
  | .bool _ => .elementary .bool
  | .time _ => .elementary .time
  | .date _ => .elementary .date
  | .tod _ => .elementary .tod
  | .dt _ => .elementary .dt
  | .null => .unknown
  | .typed ty _ => .elementary ty

def partialType : PartialAccessKind → Ty
  | .bit => .elementary .bool
  | .byte => .elementary .byte
  | .word => .elementary .word
  | .dword => .elementary .dword
  | .lword => .elementary .lword

/-- The parameter of this name. -/
def findParam (params : List ParamDef) (name : String) : Option ParamDef :=
  params.find? fun p => eqIgnoreAsciiCase p.name name

def findMethod (methods : List MethodDef) (name : String) : Option MethodDef :=
  methods.find? fun m => eqIgnoreAsciiCase m.name name

/-- The type of `.id` on a value of type `ty`; `none` ends the access.
mirrors crates/st-semantics/src/analyze.rs:1571-1654 -/
def fieldAccess (ty : Ty) (id : Identifier) : AnalyzeM (Option Ty) := do
  let a ← get
  match ty.resolved with
  | .struct _ fields => match fields.find? fun f => eqIgnoreAsciiCase f.1 id.name with
    | some f => return some f.2
    | none =>
      error .noSuchField ("no field '" ++ id.name ++ "' on type '" ++ ty.displayName ++ "'") id.range
      return none
  | .functionBlock name => match a.symbols.resolvePou name with
    | some ⟨_, _, .functionBlock params outputs, _, _, _⟩ =>
      match findParam (params ++ outputs) id.name with
      | some p => return some p.ty
      | none =>
        error .noSuchField
          ("no member '" ++ id.name ++ "' on function block '" ++ name ++ "'") id.range
        return none
    | some _ => return some ty
    | none => return none
  | .cls name => match a.symbols.resolveClass name with
    | some info => match findMethod info.methods id.name with
      | some m => return some m.returnType
      | none => match findParam (info.params ++ info.outputs) id.name with
        | some p => return some p.ty
        | none =>
          error .noSuchField ("no member '" ++ id.name ++ "' on class '" ++ name ++ "'") id.range
          return none
    | none => return none
  | _ =>
    error .fieldAccessOnNonStruct
      ("cannot access field '" ++ id.name ++ "' on type '" ++ ty.displayName ++ "'") id.range
    return none

/-- The loop of `resolve_class_method`: the method, or `none` when no ancestor
has it; the outer `none` when the walk does not end.
mirrors crates/st-semantics/src/analyze.rs:1747-1765 -/
def methodUp (t : SymbolTable) (method : String) : Nat → String → Option (Option MethodDef)
  | 0, _ => none
  | fuel + 1, cls => match t.resolveClass cls with
    | none => some none
    | some info => match findMethod info.methods method with
      | some m => some (some m)
      | none => match info.baseClass with
        | some base => methodUp t method fuel base
        | none => some none

/-- More steps than there are global symbols come back to a class. -/
def hierarchyFuel (t : SymbolTable) : Nat :=
  match t.scopes[0]? with
  | some s => s.symbols.length + 1
  | none => 1

def resolveClassMethod (cls method : String) : AnalyzeM (Option MethodDef) := do
  let a ← get
  match methodUp a.symbols method (hierarchyFuel a.symbols) cls with
  | some r => return r
  | none =>
    markEndless
    return none

/-- Check the arguments of a call: parameters, name of the callee. -/
abbrev ArgChecker := List ParamDef → String → AnalyzeM Unit

/-- The parameters of a function block type. -/
def fbParams (t : SymbolTable) (name : String) : List ParamDef :=
  match t.resolvePou name with
  | some ⟨_, _, .functionBlock params _, _, _, _⟩ => params
  | _ => []

def classParams (t : SymbolTable) (name : String) : List ParamDef :=
  match t.resolveClass name with
  | some info => info.params
  | none => []

def abstractClass (t : SymbolTable) (name : String) : Bool :=
  match t.resolveClass name with
  | some info => info.isAbstract
  | none => false

/-- A call of what `name` resolves to.
mirrors crates/st-semantics/src/analyze.rs:1799-1906 -/
def checkPlainCall (name : QualifiedName) (range : TextRange) (checkArgs : ArgChecker) :
    AnalyzeM Ty := do
  match ← resolveHere name.asStr with
  | none =>
    error .undeclaredPou
      ("undeclared function or function block '" ++ name.asStr ++ "'") name.range
    return .unknown
  | some sym =>
    markUsedHere name.asStr
    match sym.kind with
    | .function returnType params =>
      checkArgs params name.asStr
      return returnType
    | .functionBlock params _ =>
      checkArgs params name.asStr
      return .void
    | .cls info =>
      errorIf info.isAbstract .cannotInstantiateAbstractClass
        ("cannot instantiate abstract class '" ++ name.asStr ++ "'") range
      checkArgs info.params name.asStr
      return .void
    | .variable _ => match sym.ty.resolved with
      | .functionBlock fb =>
        checkArgs (fbParams (← get).symbols fb) fb
        return .void
      | .cls cls =>
        errorIf (abstractClass (← get).symbols cls) .cannotInstantiateAbstractClass
          ("cannot instantiate abstract class '" ++ cls ++ "'") range
        checkArgs (classParams (← get).symbols cls) cls
        return .void
      | _ =>
        error .notCallable ("'" ++ name.asStr ++ "' is not callable") range
        return .unknown
    | _ =>
      error .notCallable ("'" ++ name.asStr ++ "' is not callable") range
      return .unknown

/-- A method call when the object is an instance of a class, any other call
when it is not. mirrors crates/st-semantics/src/analyze.rs:1767-1906 -/
def checkCall (name : QualifiedName) (range : TextRange) (checkArgs : ArgChecker) :
    AnalyzeM Ty := do
  match name.parts with
  | [obj, method] =>
    let sym ← resolveHere obj.name
    match sym.map fun (sym : Symbol) => sym.ty.resolved with
    | some (.cls cls) =>
      markUsedHere obj.name
      match ← resolveClassMethod cls method.name with
      | some m =>
        checkArgs m.params (cls ++ "." ++ method.name)
        return m.returnType
      | none =>
        error .noSuchField ("no method '" ++ method.name ++ "' on class '" ++ cls ++ "'")
          method.range
        return .unknown
    | _ => checkPlainCall name range checkArgs
  | _ => checkPlainCall name range checkArgs

/-- A VAR_IN_OUT parameter needs an argument: by name, or by a position before
`positional`. mirrors crates/st-semantics/src/analyze.rs:1998-2022 -/
def provided (params : List ParamDef) (seen : List String) (positional : Nat) (p : ParamDef) :
    Bool :=
  seen.contains (toUppercase p.name) ||
    decide (params.findIdx (fun q => eqIgnoreAsciiCase q.name p.name) < positional)

def checkRequired (params : List ParamDef) (callee : String) (range : TextRange)
    (seen : List String) (positional : Nat) : List ParamDef → AnalyzeM Unit
  | [] => return ()
  | p :: ps => do
    errorIf (!provided params seen positional p && p.varKind == .varInOut) .missingRequiredParam
      ("missing required VAR_IN_OUT parameter '" ++ p.name ++ "' in call to '" ++ callee ++ "'")
      range
    checkRequired params callee range seen positional ps

/-- A value passed for a parameter. -/
def checkParamType (label : String) (valTy paramTy : Ty) (range : TextRange) : AnalyzeM Unit :=
  errorIf (!isTypeCompatible valTy paramTy && !valTy.isUnknown && !paramTy.isUnknown)
    .paramTypeMismatch
    (label ++ " expects '" ++ paramTy.displayName ++ "', got '" ++ valTy.displayName ++ "'") range

/-- mirrors crates/st-semantics/src/analyze.rs:2025-2061 -/
def checkUnary (op : UnaryOp) (ty : Ty) (range : TextRange) : AnalyzeM Ty :=
  match op with
  | .neg =>
    if ty.isNumeric || ty.isUnknown then return ty
    else do
      error .incompatibleUnaryOp
        ("unary '-' requires a numeric type, found '" ++ ty.displayName ++ "'") range
      return .unknown
  | .not =>
    if ty.isBool || ty.isBitString || ty.isUnknown then return ty
    else do
      error .incompatibleUnaryOp
        ("NOT requires BOOL or bit-string type, found '" ++ ty.displayName ++ "'") range
      return .unknown

/-- mirrors crates/st-semantics/src/analyze.rs:2073-2128 -/
def checkArithmetic (op : BinaryOp) (left right : Expression) (l r : Ty) (range : TextRange) :
    AnalyzeM Ty :=
  if l.isTime && r.isTime && (op == .add || op == .sub) then return l
  else if !l.isNumeric then do
    error .incompatibleBinaryOp ("left operand of '" ++ binaryOpName op ++
      "' must be numeric, found '" ++ l.displayName ++ "'") left.range
    return .unknown
  else if !r.isNumeric then do
    error .incompatibleBinaryOp ("right operand of '" ++ binaryOpName op ++
      "' must be numeric, found '" ++ r.displayName ++ "'") right.range
    return .unknown
  else if op == .mod && (!l.isInteger || !r.isInteger) then do
    error .incompatibleBinaryOp "MOD requires integer operands" range
    return .unknown
  else if l.isInteger && literalFitsInTarget right l then return l
  else if r.isInteger && literalFitsInTarget left r then return r
  else return (commonType l r).getD .unknown

/-- mirrors crates/st-semantics/src/analyze.rs:2063-2177 -/
def checkBinary (op : BinaryOp) (left right : Expression) (l r : Ty) (range : TextRange) :
    AnalyzeM Ty :=
  if l.isUnknown || r.isUnknown then return .unknown
  else match op with
  | .add | .sub | .mul | .div | .mod => checkArithmetic op left right l r range
  | .power =>
    if !l.isNumeric || !r.isNumeric then do
      error .incompatibleBinaryOp "** requires numeric operands" range
      return .unknown
    else return .elementary .lreal
  | .and | .or | .xor =>
    if l.isBool && r.isBool then return .elementary .bool
    else if l.isBitString && r.isBitString then return (commonType l r).getD .unknown
    else do
      error .incompatibleBinaryOp ("'" ++ binaryOpName op ++
        "' requires BOOL or matching bit-string operands, found '" ++ l.displayName ++ "' and '" ++
        r.displayName ++ "'") range
      return .unknown
  | .eq | .ne | .lt | .gt | .le | .ge => do
    errorIf (commonType l r).isNone .incompatibleBinaryOp
      ("cannot compare '" ++ l.displayName ++ "' with '" ++ r.displayName ++ "'") range
    return .elementary .bool

/-- mirrors crates/st-semantics/src/analyze.rs:1489-1500 -/
def checkThis (range : TextRange) : AnalyzeM Ty := do
  match (← get).currentClass with
  | some cls => return .cls cls
  | none =>
    error .invalidThisContext "THIS is only valid inside a class method" range
    return .unknown

/-- mirrors crates/st-semantics/src/analyze.rs:1501-1527 -/
def checkSuper (range : TextRange) : AnalyzeM Ty := do
  let a ← get
  match a.currentClass with
  | some cls => match (a.symbols.resolveClass cls).bind (·.baseClass) with
    | some base => return .cls base
    | none =>
      error .invalidSuperContext "SUPER requires a base class (no EXTENDS clause)" range
      return .unknown
  | none =>
    error .invalidSuperContext "SUPER is only valid inside a class method" range
    return .unknown

mutual

/-- mirrors crates/st-semantics/src/analyze.rs:1479-1528 -/
def checkExpression : Expression → AnalyzeM Ty
  | .literal kind _ => return literalType kind
  | .var parts range => checkAccess range true .unknown parts
  | .functionCall name arguments range =>
    checkCall name range fun params callee => do
      let (seen, positional) ← checkArgs params callee [] 0 arguments
      checkRequired params callee range seen positional params
  | .unary op operand range => do
    let ty ← checkExpression operand
    checkUnary op ty range
  | .binary op left right range => do
    let l ← checkExpression left
    let r ← checkExpression right
    checkBinary op left right l r range
  | .parenthesized inner => checkExpression inner
  | .thisInstance range => checkThis range
  | .superInstance range => checkSuper range

/-- The parts of a variable access; the first one is the root variable.
mirrors crates/st-semantics/src/analyze.rs:1549-1744 -/
def checkAccess (range : TextRange) : Bool → Ty → List AccessPart → AnalyzeM Ty
  | _, ty, [] => return ty
  | true, _, .identifier id :: rest => do
    match ← resolveHere id.name with
    | some sym =>
      markUsedHere id.name
      checkAccess range false sym.ty rest
    | none =>
      error .undeclaredVariable ("undeclared variable '" ++ id.name ++ "'") id.range
      return .unknown
  | false, ty, .identifier id :: rest => do
    match ← fieldAccess ty id with
    | some t => checkAccess range false t rest
    | none => return .unknown
  | _, ty, .index indices :: rest => match ty.resolved with
    | .array ranges elementType => do
      errorIf (indices.length != ranges.length) .arrayDimensionMismatch
        ("array expects " ++ toString ranges.length ++ " indices, got " ++
          toString indices.length) range
      checkIndices "array" indices
      checkAccess range false elementType rest
    | .string _ _ => do
      checkIndices "string" indices
      checkAccess range false (.elementary .byte) rest
    | .unknown => checkAccess range false ty rest
    | _ => do
      error .indexOnNonArray ("cannot index into type '" ++ ty.displayName ++ "'") range
      return .unknown
  | _, _, .deref :: rest => checkAccess range false .unknown rest
  | _, _, .partialAccess kind _ :: rest => checkAccess range false (partialType kind) rest

def checkIndices (what : String) : List Expression → AnalyzeM Unit
  | [] => return ()
  | idx :: indices => do
    let ty ← checkExpression idx
    errorIf (!ty.isInteger && !ty.isUnknown) .arrayIndexTypeMismatch
      (what ++ " index must be integer, found '" ++ ty.displayName ++ "'") idx.range
    checkIndices what indices

/-- The names of the named arguments and the number of positional ones; the
value of an argument that is matched to no parameter is not looked at.
mirrors crates/st-semantics/src/analyze.rs:1908-1996 -/
def checkArgs (params : List ParamDef) (callee : String) :
    List String → Nat → List Argument → AnalyzeM (List String × Nat)
  | seen, positional, [] => return (seen, positional)
  | seen, positional, .named name value :: rest => do
    if seen.contains (toUppercase name.name) then
      error .duplicateParam
        ("duplicate parameter '" ++ name.name ++ "' in call to '" ++ callee ++ "'") name.range
      checkArgs params callee seen positional rest
    else
      match findParam params name.name with
      | some p =>
        let ty ← checkExpression value
        checkParamType ("parameter '" ++ name.name ++ "'") ty p.ty value.range
      | none =>
        error .unknownParam
          ("unknown parameter '" ++ name.name ++ "' in call to '" ++ callee ++ "'") name.range
      checkArgs params callee (seen ++ [toUppercase name.name]) positional rest
  | seen, positional, .positional e :: rest => do
    match params[positional]? with
    | some p =>
      let ty ← checkExpression e
      checkParamType ("argument " ++ toString (positional + 1)) ty p.ty e.range
      checkArgs params callee seen (positional + 1) rest
    | none =>
      error .tooManyPositionalArgs ("too many arguments in call to '" ++ callee ++
        "' (expected " ++ toString params.length ++ ")") e.range
      checkArgs params callee seen positional rest

end

/-! ## Statements -/

/-- mirrors crates/st-semantics/src/analyze.rs:2183-2194 -/
def expectBool (ty : Ty) (range : TextRange) : AnalyzeM Unit :=
  errorIf (!ty.isBool && !ty.isUnknown) .typeMismatchCondition
    ("condition must be BOOL, found '" ++ ty.displayName ++ "'") range

def checkCondition (e : Expression) : AnalyzeM Unit := do
  let ty ← checkExpression e
  expectBool ty e.range

/-- mirrors crates/st-semantics/src/analyze.rs:1297-1327: no branch of the
check of the root does anything but mark it. -/
def checkVariableAccessForWrite (va : VariableAccess) : AnalyzeM Ty := do
  let ty ← checkAccess va.range true .unknown va.parts
  match va.parts with
  | .identifier id :: _ => markAssignedHere id.name
  | _ => pure ()
  return ty

/-- mirrors crates/st-semantics/src/analyze.rs:1275-1295 -/
def analyzeAssignment (target : VariableAccess) (value : Expression) (range : TextRange) :
    AnalyzeM Unit := do
  let targetTy ← checkVariableAccessForWrite target
  let valueTy ← checkExpression value
  errorIf (!targetTy.isUnknown && !valueTy.isUnknown && !isTypeCompatible valueTy targetTy &&
      !literalFitsInTarget value targetTy) .typeMismatchAssignment
    ("cannot assign '" ++ valueTy.displayName ++ "' to '" ++ targetTy.displayName ++ "'") range

/-- One bound or value of a `CASE` selector. -/
def checkSelectorType (what : String) (ty exprTy : Ty) (range : TextRange) : AnalyzeM Unit :=
  errorIf (!ty.isUnknown && !exprTy.isUnknown && !isTypeCompatible ty exprTy)
    .caseSelectorTypeMismatch
    ("case " ++ what ++ " type '" ++ ty.displayName ++ "' incompatible with expression type '" ++
      exprTy.displayName ++ "'") range

/-- mirrors crates/st-semantics/src/analyze.rs:1348-1388 -/
def checkSelector (exprTy : Ty) : CaseSelector → AnalyzeM Unit
  | .single e => do
    let ty ← checkExpression e
    checkSelectorType "selector" ty exprTy e.range
  | .range lo hi => do
    let loTy ← checkExpression lo
    let hiTy ← checkExpression hi
    checkSelectorType "range" loTy exprTy lo.range
    checkSelectorType "range" hiTy exprTy hi.range

def checkSelectors (exprTy : Ty) : List CaseSelector → AnalyzeM Unit
  | [] => return ()
  | sel :: sels => do
    checkSelector exprTy sel
    checkSelectors exprTy sels

/-- mirrors crates/st-semantics/src/analyze.rs:1397-1424 -/
def checkLoopVar (x : Identifier) : AnalyzeM Unit := do
  match ← resolveHere x.name with
  | some sym =>
    errorIf (!sym.ty.isInteger && !sym.ty.isUnknown) .forVariableNotInteger
      ("FOR variable '" ++ x.name ++ "' must be an integer type, found '" ++ sym.ty.displayName ++
        "'") x.range
    markUsedHere x.name
    markAssignedHere x.name
  | none => error .undeclaredVariable ("undeclared variable '" ++ x.name ++ "'") x.range

/-- A bound or the step of a `FOR` loop. -/
def checkLoopBound (what : String) (ty : Ty) (range : TextRange) : AnalyzeM Unit :=
  errorIf (!ty.isInteger && !ty.isUnknown) .typeMismatch
    ("FOR '" ++ what ++ "' must be integer, found '" ++ ty.displayName ++ "'") range

/-- mirrors crates/st-semantics/src/analyze.rs:1395-1453, without the body. -/
def checkLoopHead (x : Identifier) (lower upper : Expression) (by_ : Option Expression) :
    AnalyzeM Unit := do
  checkLoopVar x
  let fromTy ← checkExpression lower
  let toTy ← checkExpression upper
  checkLoopBound "from" fromTy lower.range
  checkLoopBound "to" toTy upper.range
  match by_ with
  | some e => do
    let ty ← checkExpression e
    checkLoopBound "by" ty e.range
  | none => return ()

/-- A loop body: `in_loop` is set, and put back afterwards. -/
def inLoopBody (body : AnalyzeM Unit) : AnalyzeM Unit := do
  let saved := (← get).inLoop
  modify fun a => { a with inLoop := true }
  body
  modify fun a => { a with inLoop := saved }

def isReturn : Statement → Bool
  | .returnStmt _ => true
  | _ => false

mutual

/-- mirrors crates/st-semantics/src/analyze.rs:1251-1273 and 1329-1473 -/
def analyzeStatement : Statement → AnalyzeM Unit
  | .assignment target value range => analyzeAssignment target value range
  | .functionCall name arguments range => do
    let _ ← checkExpression (.functionCall name arguments range)
  | .ifStmt condition thenBody elsifClauses elseBody _ => do
    checkCondition condition
    analyzeStatements false thenBody
    analyzeElsifs elsifClauses
    analyzeElse elseBody
  | .caseStmt expression branches elseBody _ => do
    let ty ← checkExpression expression
    analyzeBranches ty branches
    analyzeElse elseBody
  | .forStmt loopVar lower upper by_ body _ => do
    checkLoopHead loopVar lower upper by_
    inLoopBody (analyzeStatements false body)
  | .whileStmt condition body _ => do
    checkCondition condition
    inLoopBody (analyzeStatements false body)
  | .repeatStmt body condition _ => do
    inLoopBody (analyzeStatements false body)
    checkCondition condition
  | .returnStmt _ => return ()
  | .exit range => do
    errorIf (!(← get).inLoop) .exitOutsideLoop "EXIT statement is only allowed inside a loop" range
  | .empty _ => return ()

/-- mirrors crates/st-semantics/src/analyze.rs:1233-1249; the flag is
`seen_return`. -/
def analyzeStatements : Bool → List Statement → AnalyzeM Unit
  | _, [] => return ()
  | seenReturn, stmt :: stmts => do
    if seenReturn then warning .deadCode "unreachable code after RETURN" stmt.range
    analyzeStatement stmt
    analyzeStatements (seenReturn || isReturn stmt) stmts

def analyzeElse : Option (List Statement) → AnalyzeM Unit
  | some body => analyzeStatements false body
  | none => return ()

def analyzeElsifs : List ElsifClause → AnalyzeM Unit
  | [] => return ()
  | .mk condition body :: clauses => do
    checkCondition condition
    analyzeStatements false body
    analyzeElsifs clauses

def analyzeBranches (exprTy : Ty) : List CaseBranch → AnalyzeM Unit
  | [] => return ()
  | .mk selectors body :: branches => do
    checkSelectors exprTy selectors
    analyzeStatements false body
    analyzeBranches exprTy branches

end

end RustPlc.Analysis
