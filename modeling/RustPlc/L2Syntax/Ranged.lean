import RustPlc.L2Compiler.Ast

/-!
# Syntax trees with every text range

The whole AST of crates/st-syntax/src/ast.rs. Expressions are those of
`RustPlc.Syntax`, which keep their ranges; the nodes above them are repeated
here with the ranges that the analyzer and the compiler do not read.

* `bare` is the tree the analyzer and the compiler read.
* `ranges` lists the text ranges of a tree in the order of its fields.
-/
namespace RustPlc.Syntax.Ranged

/-! ## Types and declarations -/

structure ArrayRange where
  lower : Expression
  upper : Expression
  range : TextRange

/-- mirrors crates/st-syntax/src/ast.rs:236-288 -/
inductive DataType where
  | elementary (e : ElementaryType)
  | array (ranges : List ArrayRange) (elementType : DataType) (range : TextRange)
  | string (wide : Bool) (length : Option Expression) (range : TextRange)
  | ref (target : DataType)
  | userDefined (name : QualifiedName)

structure VarDeclaration where
  names : List Identifier
  ty : DataType
  initialValue : Option Expression
  range : TextRange

structure VarBlock where
  kind : VarKind
  qualifiers : List VarQualifier
  declarations : List VarDeclaration
  range : TextRange

/-! ## Statements -/

mutual

/-- mirrors crates/st-syntax/src/ast.rs:294-391 -/
inductive Statement where
  | assignment (target : VariableAccess) (value : Expression) (range : TextRange)
  | functionCall (name : QualifiedName) (arguments : List Argument) (range : TextRange)
  | ifStmt (condition : Expression) (thenBody : List Statement)
      (elsifClauses : List ElsifClause) (elseBody : Option (List Statement)) (range : TextRange)
  | caseStmt (expression : Expression) (branches : List CaseBranch)
      (elseBody : Option (List Statement)) (range : TextRange)
  | forStmt (loopVar : Identifier) (lower upper : Expression) (by_ : Option Expression)
      (body : List Statement) (range : TextRange)
  | whileStmt (condition : Expression) (body : List Statement) (range : TextRange)
  | repeatStmt (body : List Statement) (condition : Expression) (range : TextRange)
  | returnStmt (range : TextRange)
  | exit (range : TextRange)
  | empty (range : TextRange)

inductive ElsifClause where
  | mk (condition : Expression) (body : List Statement) (range : TextRange)

inductive CaseBranch where
  | mk (selectors : List CaseSelector) (body : List Statement) (range : TextRange)

end

/-! ## Program organisation units -/

structure ProgramDecl where
  name : Identifier
  varBlocks : List VarBlock
  body : List Statement
  range : TextRange

structure FunctionDecl where
  name : Identifier
  returnType : DataType
  varBlocks : List VarBlock
  body : List Statement
  range : TextRange

structure FunctionBlockDecl where
  name : Identifier
  varBlocks : List VarBlock
  body : List Statement
  range : TextRange

structure MethodDecl where
  access : AccessSpecifier
  name : Identifier
  returnType : Option DataType
  varBlocks : List VarBlock
  body : List Statement
  isAbstract : Bool
  isFinal : Bool
  isOverride : Bool
  range : TextRange

structure PropertyAccessor where
  varBlocks : List VarBlock
  body : List Statement
  range : TextRange

structure PropertyDecl where
  access : AccessSpecifier
  name : Identifier
  ty : DataType
  getBody : Option PropertyAccessor
  setBody : Option PropertyAccessor
  range : TextRange

structure ClassDecl where
  name : Identifier
  baseClass : Option String
  interfaces : List String
  isAbstract : Bool
  isFinal : Bool
  varBlocks : List VarBlock
  methods : List MethodDecl
  properties : List PropertyDecl
  range : TextRange

structure MethodPrototype where
  name : Identifier
  returnType : Option DataType
  varBlocks : List VarBlock
  range : TextRange

structure InterfaceDecl where
  name : Identifier
  baseInterfaces : List String
  methods : List MethodPrototype
  range : TextRange

structure StructField where
  name : Identifier
  ty : DataType
  default : Option Expression
  range : TextRange

structure Literal where
  kind : LiteralKind
  range : TextRange

structure EnumValue where
  name : Identifier
  value : Option Literal
  range : TextRange

/-- mirrors crates/st-syntax/src/ast.rs:169-208 -/
inductive TypeDefKind where
  | struct (fields : List StructField) (range : TextRange)
  | enum (values : List EnumValue) (range : TextRange)
  | subrange (base : ElementaryType) (lower upper : Expression) (range : TextRange)
  | alias (target : DataType)

structure TypeDefinition where
  name : Identifier
  ty : TypeDefKind
  range : TextRange

inductive TopLevelItem where
  | program (p : ProgramDecl)
  | function (f : FunctionDecl)
  | functionBlock (fb : FunctionBlockDecl)
  | classDecl (c : ClassDecl)
  | interface (i : InterfaceDecl)
  | typeDeclaration (definitions : List TypeDefinition) (range : TextRange)
  | globalVarDeclaration (vb : VarBlock)

structure SourceFile where
  items : List TopLevelItem
  range : TextRange

/-! ## The tree the analyzer and the compiler read -/

def DataType.bare : DataType → Syntax.DataType
  | .elementary e => .elementary e
  | .array ranges t _ => .array (ranges.map fun r => (r.lower, r.upper)) t.bare
  | .string wide length _ => .string wide length
  | .ref t => .ref t.bare
  | .userDefined name => .userDefined name

def VarDeclaration.bare (d : VarDeclaration) : Syntax.VarDeclaration :=
  ⟨d.names, d.ty.bare, d.initialValue⟩

def VarBlock.bare (vb : VarBlock) : Syntax.VarBlock :=
  ⟨vb.kind, vb.qualifiers, vb.declarations.map VarDeclaration.bare⟩

mutual

def Statement.bare : Statement → Syntax.Statement
  | .assignment target value r => .assignment target value r
  | .functionCall name args r => .functionCall name args r
  | .ifStmt cond thenBody elsifs elseBody r =>
    .ifStmt cond (bareStatements thenBody) (bareElsifs elsifs) (bareElse elseBody) r
  | .caseStmt e branches elseBody r => .caseStmt e (bareBranches branches) (bareElse elseBody) r
  | .forStmt v lo hi by_ body r => .forStmt v lo hi by_ (bareStatements body) r
  | .whileStmt cond body r => .whileStmt cond (bareStatements body) r
  | .repeatStmt body cond r => .repeatStmt (bareStatements body) cond r
  | .returnStmt r => .returnStmt r
  | .exit r => .exit r
  | .empty r => .empty r

def bareStatements : List Statement → List Syntax.Statement
  | [] => []
  | s :: ss => s.bare :: bareStatements ss

def bareElse : Option (List Statement) → Option (List Syntax.Statement)
  | none => none
  | some ss => some (bareStatements ss)

def bareElsifs : List ElsifClause → List Syntax.ElsifClause
  | [] => []
  | .mk cond body _ :: cs => .mk cond (bareStatements body) :: bareElsifs cs

def bareBranches : List CaseBranch → List Syntax.CaseBranch
  | [] => []
  | .mk selectors body _ :: bs => .mk selectors (bareStatements body) :: bareBranches bs

end

def MethodDecl.bare (m : MethodDecl) : Syntax.MethodDecl :=
  ⟨m.access, m.name, m.returnType.map DataType.bare, m.varBlocks.map VarBlock.bare,
    bareStatements m.body, m.isAbstract, m.isFinal, m.isOverride⟩

def PropertyAccessor.bare (a : PropertyAccessor) : Syntax.PropertyAccessor :=
  ⟨a.varBlocks.map VarBlock.bare, bareStatements a.body⟩

def PropertyDecl.bare (p : PropertyDecl) : Syntax.PropertyDecl :=
  ⟨p.access, p.name, p.ty.bare, p.getBody.map PropertyAccessor.bare,
    p.setBody.map PropertyAccessor.bare⟩

def TypeDefKind.bare : TypeDefKind → Syntax.TypeDefKind
  | .struct fields _ => .struct (fields.map fun f => ⟨f.name.name, f.ty.bare, f.default⟩)
  | .enum values _ => .enum (values.map fun v => ⟨v.name.name, v.value.map Literal.kind⟩)
  | .subrange base lower upper _ => .subrange base lower upper
  | .alias t => .alias t.bare

def MethodPrototype.bare (m : MethodPrototype) : Syntax.MethodPrototype :=
  ⟨m.name.name, m.returnType.map DataType.bare, m.varBlocks.map VarBlock.bare⟩

def TopLevelItem.bare : TopLevelItem → Syntax.TopLevelItem
  | .program p => .program ⟨p.name, p.varBlocks.map VarBlock.bare, bareStatements p.body⟩
  | .function f =>
    .function ⟨f.name, f.returnType.bare, f.varBlocks.map VarBlock.bare, bareStatements f.body⟩
  | .functionBlock fb =>
    .functionBlock ⟨fb.name, fb.varBlocks.map VarBlock.bare, bareStatements fb.body⟩
  | .classDecl c =>
    .classDecl ⟨c.name, c.baseClass, c.interfaces, c.isAbstract, c.isFinal,
      c.varBlocks.map VarBlock.bare, c.methods.map MethodDecl.bare,
      c.properties.map PropertyDecl.bare⟩
  | .interface i => .interface ⟨i.name, i.baseInterfaces, i.methods.map MethodPrototype.bare⟩
  | .typeDeclaration definitions _ =>
    .typeDeclaration (definitions.map fun d => ⟨d.name, d.ty.bare⟩)
  | .globalVarDeclaration vb => .globalVarDeclaration vb.bare

def SourceFile.bare (s : SourceFile) : Syntax.SourceFile := ⟨s.items.map TopLevelItem.bare⟩

end RustPlc.Syntax.Ranged
