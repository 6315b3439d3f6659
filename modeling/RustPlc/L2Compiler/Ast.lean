import Mathlib.Algebra.GroupWithZero.Nat
import Mathlib.Data.List.Basic

/-!
# Syntax trees

The AST of crates/st-syntax/src/ast.rs as far as the analyzer and the compiler
read it. A `TextRange` is kept where the compiler copies it into the source map
or the analyzer puts it into a diagnostic.
-/
namespace RustPlc.Syntax

/-- mirrors crates/st-syntax/src/ast.rs:9-19 -/
structure TextRange where
  start : Nat
  stop : Nat
  deriving DecidableEq, Repr

/-- The position of a tree that was not parsed from a text. -/
def noRange : TextRange := ⟨0, 0⟩

structure Identifier where
  name : String
  range : TextRange
  deriving DecidableEq, Repr

instance : Coe String Identifier := ⟨(⟨·, noRange⟩)⟩

structure QualifiedName where
  parts : List Identifier
  range : TextRange
  deriving DecidableEq, Repr

instance : Coe (List String) QualifiedName := ⟨fun ps => ⟨ps.map (⟨·, noRange⟩), noRange⟩⟩

def QualifiedName.names (q : QualifiedName) : List String := q.parts.map (·.name)

/-- `QualifiedName::as_str` on the names of the parts. -/
def qualifiedName (parts : List String) : String := ".".intercalate parts

/-- mirrors crates/st-syntax/src/ast.rs (`QualifiedName::as_str`) -/
def QualifiedName.asStr (q : QualifiedName) : String := qualifiedName q.names

inductive UnaryOp where
  | neg | not
  deriving DecidableEq, Repr

inductive BinaryOp where
  | add | sub | mul | div | mod | power
  | and | or | xor
  | eq | ne | lt | gt | le | ge
  deriving DecidableEq, Repr

/-- `%X`, `%B`, `%W`, `%D` and `%L`. -/
inductive PartialAccessKind where
  | bit | byte | word | dword | lword
  deriving DecidableEq, Repr

inductive ElementaryType where
  | bool | sint | int | dint | lint | usint | uint | udint | ulint
  | real | lreal | byte | word | dword | lword
  | time | ltime | date | ldate | tod | ltod | dt | ldt
  deriving DecidableEq, Repr

/-- A literal. Times and dates keep their source text; a real is given by
its bit pattern. -/
inductive LiteralKind where
  | integer (v : Int64)
  | real (bits : UInt64)
  | string (s : String)
  | bool (b : Bool)
  | time (s : String)
  | date (s : String)
  | tod (s : String)
  | dt (s : String)
  | typed (ty : ElementaryType) (rawValue : String)
  | null
  deriving DecidableEq, Repr

/-! ## Expressions -/

mutual

inductive Expression where
  | literal (kind : LiteralKind) (range : TextRange)
  | var (parts : List AccessPart) (range : TextRange)
  | functionCall (name : QualifiedName) (arguments : List Argument) (range : TextRange)
  | unary (op : UnaryOp) (operand : Expression) (range : TextRange)
  | binary (op : BinaryOp) (left right : Expression) (range : TextRange)
  | parenthesized (inner : Expression)
  | thisInstance (range : TextRange)
  | superInstance (range : TextRange)

inductive AccessPart where
  | identifier (name : Identifier)
  | index (indices : List Expression)
  | deref
  | partialAccess (kind : PartialAccessKind) (index : UInt32)

inductive Argument where
  | positional (e : Expression)
  | named (name : Identifier) (value : Expression)

end

/-- mirrors crates/st-syntax/src/ast.rs (`Expression::range`) -/
def Expression.range : Expression → TextRange
  | .literal _ r => r
  | .var _ r => r
  | .functionCall _ _ r => r
  | .unary _ _ r => r
  | .binary _ _ _ r => r
  | .parenthesized e => e.range
  | .thisInstance r => r
  | .superInstance r => r

/-! ## Types and declarations -/

inductive DataType where
  | elementary (e : ElementaryType)
  | array (ranges : List (Expression × Expression)) (elementType : DataType)
  | string (wide : Bool) (length : Option Expression)
  | ref (target : DataType)
  | userDefined (name : QualifiedName)

inductive VarKind where
  | var | varInput | varOutput | varInOut | varGlobal | varExternal | varTemp
  deriving DecidableEq, Repr

inductive VarQualifier where
  | retain | persistent | constant
  deriving DecidableEq, Repr

structure VarDeclaration where
  names : List Identifier
  ty : DataType
  initialValue : Option Expression

structure VarBlock where
  kind : VarKind
  qualifiers : List VarQualifier
  declarations : List VarDeclaration

/-! ## Statements -/

structure VariableAccess where
  parts : List AccessPart
  range : TextRange

inductive CaseSelector where
  | single (e : Expression)
  | range (lo hi : Expression)

mutual

inductive Statement where
  | assignment (target : VariableAccess) (value : Expression) (range : TextRange)
  | functionCall (name : QualifiedName) (arguments : List Argument) (range : TextRange)
  | ifStmt (condition : Expression) (thenBody : List Statement)
      (elsifClauses : List ElsifClause) (elseBody : Option (List Statement)) (range : TextRange)
  | caseStmt (expression : Expression) (branches : List CaseBranch)
      (elseBody : Option (List Statement)) (range : TextRange)
  | forStmt (loopVar : Identifier) (lower upper : Expression) (by_ : Option Expression)
      (body : List Statement) (range : TextRange)
  | whileStmt (condition : Expression) (body : List Statement) (range : TextRange)
  | repeatStmt (body : List Statement) (condition : Expression) (range : TextRange)
  | returnStmt (range : TextRange)
  | exit (range : TextRange)
  | empty (range : TextRange)

inductive ElsifClause where
  | mk (condition : Expression) (body : List Statement)

inductive CaseBranch where
  | mk (selectors : List CaseSelector) (body : List Statement)

end

/-- mirrors crates/st-syntax/src/ast.rs (`Statement::range`) -/
def Statement.range : Statement → TextRange
  | .assignment _ _ r => r
  | .functionCall _ _ r => r
  | .ifStmt _ _ _ _ r => r
  | .caseStmt _ _ _ r => r
  | .forStmt _ _ _ _ _ r => r
  | .whileStmt _ _ r => r
  | .repeatStmt _ _ r => r
  | .returnStmt r => r
  | .exit r => r
  | .empty r => r

/-! ## Program organisation units -/

structure ProgramDecl where
  name : Identifier
  varBlocks : List VarBlock
  body : List Statement

structure FunctionDecl where
  name : Identifier
  returnType : DataType
  varBlocks : List VarBlock
  body : List Statement

structure FunctionBlockDecl where
  name : Identifier
  varBlocks : List VarBlock
  body : List Statement

inductive AccessSpecifier where
  | pub | priv | prot | internal
  deriving DecidableEq, Repr

structure MethodDecl where
  access : AccessSpecifier
  name : Identifier
  returnType : Option DataType
  varBlocks : List VarBlock
  body : List Statement
  isAbstract : Bool
  isFinal : Bool
  isOverride : Bool

structure PropertyAccessor where
  varBlocks : List VarBlock
  body : List Statement

structure PropertyDecl where
  access : AccessSpecifier
  name : Identifier
  ty : DataType
  getBody : Option PropertyAccessor
  setBody : Option PropertyAccessor

structure ClassDecl where
  name : Identifier
  baseClass : Option String
  interfaces : List String
  isAbstract : Bool
  isFinal : Bool
  varBlocks : List VarBlock
  methods : List MethodDecl
  properties : List PropertyDecl

structure MethodPrototype where
  name : String
  returnType : Option DataType
  varBlocks : List VarBlock

structure InterfaceDecl where
  name : Identifier
  baseInterfaces : List String
  methods : List MethodPrototype

structure StructField where
  name : String
  ty : DataType
  default : Option Expression

structure EnumValue where
  name : String
  value : Option LiteralKind

/-- The compiler keeps the structure types only. -/
inductive TypeDefKind where
  | struct (fields : List StructField)
  | enum (values : List EnumValue)
  | subrange (base : ElementaryType) (lower upper : Expression)
  | alias (target : DataType)

structure TypeDefinition where
  name : Identifier
  ty : TypeDefKind

inductive TopLevelItem where
  | program (p : ProgramDecl)
  | function (f : FunctionDecl)
  | functionBlock (fb : FunctionBlockDecl)
  | classDecl (c : ClassDecl)
  | interface (i : InterfaceDecl)
  | typeDeclaration (definitions : List TypeDefinition)
  | globalVarDeclaration (vb : VarBlock)

structure SourceFile where
  items : List TopLevelItem

/-! ## Short forms for trees without source positions -/

def Expression.ofInt (v : Int64) : Expression := .literal (.integer v) noRange

def Expression.ofName (x : String) : Expression := .var [.identifier x] noRange

def Statement.assign (x : String) (e : Expression) : Statement :=
  .assignment ⟨[.identifier x], noRange⟩ e noRange

/-- `x : ty;` -/
def VarDeclaration.plain (x : String) (ty : DataType) : VarDeclaration := ⟨[x], ty, none⟩

/-- `x : ty := e;` -/
def VarDeclaration.init (x : String) (ty : DataType) (e : Expression) : VarDeclaration :=
  ⟨[x], ty, some e⟩

/-- `VAR … END_VAR` without qualifiers. -/
def VarBlock.of (declarations : List VarDeclaration) : VarBlock := ⟨.var, [], declarations⟩

/-- A block of another section without qualifiers. -/
def VarBlock.inSection (kind : VarKind) (declarations : List VarDeclaration) : VarBlock :=
  ⟨kind, [], declarations⟩

def DataType.int : DataType := .elementary .int

def DataType.named (x : String) : DataType := .userDefined [x]

/-- A public method. -/
def MethodDecl.plain (name : String) (returnType : Option DataType) (varBlocks : List VarBlock)
    (body : List Statement) : MethodDecl :=
  ⟨.pub, name, returnType, varBlocks, body, false, false, false⟩

/-- A class without interfaces and properties. -/
def ClassDecl.plain (name : String) (baseClass : Option String) (varBlocks : List VarBlock)
    (methods : List MethodDecl) : ClassDecl :=
  ⟨name, baseClass, [], false, false, varBlocks, methods, []⟩

end RustPlc.Syntax
