import RustPlc.L2Compiler.Ast

/-!
# Trees up to their text ranges

`unranged` sets every `TextRange` of an AST to `noRange`: two trees are the
same up to text ranges when they are equal after it.
-/
namespace RustPlc.Syntax

def Identifier.unranged (i : Identifier) : Identifier := ⟨i.name, noRange⟩

def QualifiedName.unranged (q : QualifiedName) : QualifiedName :=
  ⟨q.parts.map Identifier.unranged, noRange⟩

mutual

def Expression.unranged : Expression → Expression
  | .literal kind _ => .literal kind noRange
  | .var parts _ => .var (unrangedParts parts) noRange
  | .functionCall name args _ => .functionCall name.unranged (unrangedArguments args) noRange
  | .unary op e _ => .unary op e.unranged noRange
  | .binary op l r _ => .binary op l.unranged r.unranged noRange
  | .parenthesized e => .parenthesized e.unranged
  | .thisInstance _ => .thisInstance noRange
  | .superInstance _ => .superInstance noRange

def unrangedExpressions : List Expression → List Expression
  | [] => []
  | e :: es => e.unranged :: unrangedExpressions es

def AccessPart.unranged : AccessPart → AccessPart
  | .identifier i => .identifier i.unranged
  | .index es => .index (unrangedExpressions es)
  | .deref => .deref
  | .partialAccess kind i => .partialAccess kind i

def unrangedParts : List AccessPart → List AccessPart
  | [] => []
  | p :: ps => p.unranged :: unrangedParts ps

def Argument.unranged : Argument → Argument
  | .positional e => .positional e.unranged
  | .named name e => .named name.unranged e.unranged

def unrangedArguments : List Argument → List Argument
  | [] => []
  | a :: as => a.unranged :: unrangedArguments as

end

@[simp] theorem unrangedExpressions_eq (es : List Expression) :
    unrangedExpressions es = es.map Expression.unranged := by
  induction es with
  | nil => rfl
  | cons e es ih => rw [unrangedExpressions, ih, List.map_cons]

@[simp] theorem unrangedParts_eq (ps : List AccessPart) :
    unrangedParts ps = ps.map AccessPart.unranged := by
  induction ps with
  | nil => rfl
  | cons p ps ih => rw [unrangedParts, ih, List.map_cons]

@[simp] theorem unrangedArguments_eq (as : List Argument) :
    unrangedArguments as = as.map Argument.unranged := by
  induction as with
  | nil => rfl
  | cons a as ih => rw [unrangedArguments, ih, List.map_cons]

def VariableAccess.unranged (a : VariableAccess) : VariableAccess :=
  ⟨a.parts.map AccessPart.unranged, noRange⟩

def CaseSelector.unranged : CaseSelector → CaseSelector
  | .single e => .single e.unranged
  | .range lo hi => .range lo.unranged hi.unranged

mutual

def Statement.unranged : Statement → Statement
  | .assignment target value _ => .assignment target.unranged value.unranged noRange
  | .functionCall name args _ =>
    .functionCall name.unranged (args.map Argument.unranged) noRange
  | .ifStmt cond thenBody elsifs elseBody _ =>
    .ifStmt cond.unranged (unrangedStatements thenBody) (unrangedElsifs elsifs)
      (unrangedElse elseBody) noRange
  | .caseStmt e branches elseBody _ =>
    .caseStmt e.unranged (unrangedBranches branches) (unrangedElse elseBody) noRange
  | .forStmt v lo hi by_ body _ =>
    .forStmt v.unranged lo.unranged hi.unranged (by_.map Expression.unranged)
      (unrangedStatements body) noRange
  | .whileStmt cond body _ => .whileStmt cond.unranged (unrangedStatements body) noRange
  | .repeatStmt body cond _ => .repeatStmt (unrangedStatements body) cond.unranged noRange
  | .returnStmt _ => .returnStmt noRange
  | .exit _ => .exit noRange
  | .empty _ => .empty noRange

def unrangedStatements : List Statement → List Statement
  | [] => []
  | s :: ss => s.unranged :: unrangedStatements ss

def unrangedElse : Option (List Statement) → Option (List Statement)
  | none => none
  | some ss => some (unrangedStatements ss)

def ElsifClause.unranged : ElsifClause → ElsifClause
  | .mk cond body => .mk cond.unranged (unrangedStatements body)

def unrangedElsifs : List ElsifClause → List ElsifClause
  | [] => []
  | c :: cs => c.unranged :: unrangedElsifs cs

def CaseBranch.unranged : CaseBranch → CaseBranch
  | .mk selectors body => .mk (selectors.map CaseSelector.unranged) (unrangedStatements body)

def unrangedBranches : List CaseBranch → List CaseBranch
  | [] => []
  | b :: bs => b.unranged :: unrangedBranches bs

end

@[simp] theorem unrangedStatements_eq (ss : List Statement) :
    unrangedStatements ss = ss.map Statement.unranged := by
  induction ss with
  | nil => rfl
  | cons s ss ih => rw [unrangedStatements, ih, List.map_cons]

@[simp] theorem unrangedElse_eq (o : Option (List Statement)) :
    unrangedElse o = o.map (·.map Statement.unranged) := by
  cases o with
  | none => rfl
  | some ss => rw [unrangedElse, unrangedStatements_eq, Option.map_some]

@[simp] theorem unrangedElsifs_eq (cs : List ElsifClause) :
    unrangedElsifs cs = cs.map ElsifClause.unranged := by
  induction cs with
  | nil => rfl
  | cons c cs ih => rw [unrangedElsifs, ih, List.map_cons]

@[simp] theorem unrangedBranches_eq (bs : List CaseBranch) :
    unrangedBranches bs = bs.map CaseBranch.unranged := by
  induction bs with
  | nil => rfl
  | cons b bs ih => rw [unrangedBranches, ih, List.map_cons]

def DataType.unranged : DataType → DataType
  | .elementary e => .elementary e
  | .array ranges ty => .array (ranges.map fun r => (r.1.unranged, r.2.unranged)) ty.unranged
  | .string wide length => .string wide (length.map Expression.unranged)
  | .ref ty => .ref ty.unranged
  | .userDefined name => .userDefined name.unranged

def VarDeclaration.unranged (d : VarDeclaration) : VarDeclaration :=
  ⟨d.names.map Identifier.unranged, d.ty.unranged, d.initialValue.map Expression.unranged⟩

def VarBlock.unranged (b : VarBlock) : VarBlock :=
  ⟨b.kind, b.qualifiers, b.declarations.map VarDeclaration.unranged⟩

def StructField.unranged (f : StructField) : StructField :=
  ⟨f.name, f.ty.unranged, f.default.map Expression.unranged⟩

def TypeDefKind.unranged : TypeDefKind → TypeDefKind
  | .struct fields => .struct (fields.map StructField.unranged)
  | .enum values => .enum values
  | .subrange base lower upper => .subrange base lower.unranged upper.unranged
  | .alias target => .alias target.unranged

def TypeDefinition.unranged (d : TypeDefinition) : TypeDefinition := ⟨d.name.unranged, d.ty.unranged⟩

def MethodDecl.unranged (m : MethodDecl) : MethodDecl :=
  { m with
    name := m.name.unranged
    returnType := m.returnType.map DataType.unranged
    varBlocks := m.varBlocks.map VarBlock.unranged
    body := m.body.map Statement.unranged }

def PropertyAccessor.unranged (a : PropertyAccessor) : PropertyAccessor :=
  ⟨a.varBlocks.map VarBlock.unranged, a.body.map Statement.unranged⟩

def PropertyDecl.unranged (p : PropertyDecl) : PropertyDecl :=
  ⟨p.access, p.name.unranged, p.ty.unranged, p.getBody.map PropertyAccessor.unranged,
    p.setBody.map PropertyAccessor.unranged⟩

def ClassDecl.unranged (c : ClassDecl) : ClassDecl :=
  { c with
    name := c.name.unranged
    varBlocks := c.varBlocks.map VarBlock.unranged
    methods := c.methods.map MethodDecl.unranged
    properties := c.properties.map PropertyDecl.unranged }

def MethodPrototype.unranged (m : MethodPrototype) : MethodPrototype :=
  ⟨m.name, m.returnType.map DataType.unranged, m.varBlocks.map VarBlock.unranged⟩

def TopLevelItem.unranged : TopLevelItem → TopLevelItem
  | .program p => .program ⟨p.name.unranged, p.varBlocks.map VarBlock.unranged,
      p.body.map Statement.unranged⟩
  | .function f => .function ⟨f.name.unranged, f.returnType.unranged,
      f.varBlocks.map VarBlock.unranged, f.body.map Statement.unranged⟩
  | .functionBlock fb => .functionBlock ⟨fb.name.unranged, fb.varBlocks.map VarBlock.unranged,
      fb.body.map Statement.unranged⟩
  | .classDecl c => .classDecl c.unranged
  | .interface i => .interface ⟨i.name.unranged, i.baseInterfaces,
      i.methods.map MethodPrototype.unranged⟩
  | .typeDeclaration definitions => .typeDeclaration (definitions.map TypeDefinition.unranged)
  | .globalVarDeclaration vb => .globalVarDeclaration vb.unranged

def SourceFile.unranged (f : SourceFile) : SourceFile := ⟨f.items.map TopLevelItem.unranged⟩

end RustPlc.Syntax
