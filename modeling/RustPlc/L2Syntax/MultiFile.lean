import RustPlc.L2Syntax.Ranged

/-!
# Merging source files

`parse_multi` of crates/st-syntax/src/multi_file.rs: every file is parsed by
itself and the ranges of its tree are shifted by the length of the files
before it. The parser and the texts of the standard library are a
`Frontend`; a text is its UTF-8 bytes.

A `Place` is a text range of a tree with whether the shift reaches it.

Results:
* `offsetTopLevelItem_places`: what the shift does to every range of an item.
* `keepsPositions_iff`, `reportsErrors_iff`: when merging keeps positions
  and errors.
-/
namespace RustPlc.Syntax.Ranged

/-- mirrors crates/st-syntax/src/multi_file.rs:241-244 -/
def shift (offset : Nat) (r : TextRange) : TextRange := ⟨r.start + offset, r.stop + offset⟩

def shiftIdentifier (offset : Nat) (i : Identifier) : Identifier := ⟨i.name, shift offset i.range⟩

/-- The name of a call: its parts are shifted, the range of the whole name
is not. -/
def offsetCallName (offset : Nat) (name : QualifiedName) : QualifiedName :=
  ⟨name.parts.map (shiftIdentifier offset), name.range⟩

/-! ## `offset_expression`, `offset_var_access`, `offset_func_call` -/

mutual

/-- mirrors crates/st-syntax/src/multi_file.rs:184-201 -/
def offsetExpression (offset : Nat) : Expression → Expression
  | .literal kind r => .literal kind (shift offset r)
  | .var parts r => .var (offsetParts offset parts) (shift offset r)
  | .functionCall name args r =>
    .functionCall (offsetCallName offset name) (offsetArguments offset args) (shift offset r)
  | .unary op e r => .unary op (offsetExpression offset e) (shift offset r)
  | .binary op left right r =>
    .binary op (offsetExpression offset left) (offsetExpression offset right) (shift offset r)
  | .parenthesized e => .parenthesized (offsetExpression offset e)
  | .thisInstance r => .thisInstance (shift offset r)
  | .superInstance r => .superInstance (shift offset r)

def offsetExpressions (offset : Nat) : List Expression → List Expression
  | [] => []
  | e :: es => offsetExpression offset e :: offsetExpressions offset es

/-- mirrors crates/st-syntax/src/multi_file.rs:203-214 -/
def offsetParts (offset : Nat) : List AccessPart → List AccessPart
  | [] => []
  | .identifier i :: ps => .identifier (shiftIdentifier offset i) :: offsetParts offset ps
  | .index es :: ps => .index (offsetExpressions offset es) :: offsetParts offset ps
  | .deref :: ps => .deref :: offsetParts offset ps
  | .partialAccess kind i :: ps => .partialAccess kind i :: offsetParts offset ps

/-- mirrors crates/st-syntax/src/multi_file.rs:216-230 -/
def offsetArguments (offset : Nat) : List Argument → List Argument
  | [] => []
  | .positional e :: as => .positional (offsetExpression offset e) :: offsetArguments offset as
  | .named name e :: as =>
    .named (shiftIdentifier offset name) (offsetExpression offset e) :: offsetArguments offset as

end

def offsetVarAccess (offset : Nat) (a : VariableAccess) : VariableAccess :=
  ⟨offsetParts offset a.parts, shift offset a.range⟩

/-! ## `offset_statement` -/

def offsetSelector (offset : Nat) : CaseSelector → CaseSelector
  | .single e => .single (offsetExpression offset e)
  | .range lo hi => .range (offsetExpression offset lo) (offsetExpression offset hi)

mutual

/-- mirrors crates/st-syntax/src/multi_file.rs:125-182 -/
def offsetStatement (offset : Nat) : Statement → Statement
  | .assignment target value r =>
    .assignment (offsetVarAccess offset target) (offsetExpression offset value) (shift offset r)
  | .functionCall name args r =>
    .functionCall (offsetCallName offset name) (offsetArguments offset args) (shift offset r)
  | .ifStmt cond thenBody elsifs elseBody r =>
    .ifStmt (offsetExpression offset cond) (offsetStatements offset thenBody)
      (offsetElsifs offset elsifs) (offsetElse offset elseBody) (shift offset r)
  | .caseStmt e branches elseBody r =>
    .caseStmt (offsetExpression offset e) (offsetBranches offset branches)
      (offsetElse offset elseBody) (shift offset r)
  | .forStmt v lo hi by_ body r =>
    .forStmt (shiftIdentifier offset v) (offsetExpression offset lo) (offsetExpression offset hi)
      (by_.map (offsetExpression offset)) (offsetStatements offset body) (shift offset r)
  | .whileStmt cond body r =>
    .whileStmt (offsetExpression offset cond) (offsetStatements offset body) (shift offset r)
  | .repeatStmt body cond r =>
    .repeatStmt (offsetStatements offset body) (offsetExpression offset cond) (shift offset r)
  | .returnStmt r => .returnStmt (shift offset r)
  | .exit r => .exit (shift offset r)
  | .empty r => .empty (shift offset r)

def offsetStatements (offset : Nat) : List Statement → List Statement
  | [] => []
  | s :: ss => offsetStatement offset s :: offsetStatements offset ss

def offsetElse (offset : Nat) : Option (List Statement) → Option (List Statement)
  | none => none
  | some ss => some (offsetStatements offset ss)

def offsetElsifs (offset : Nat) : List ElsifClause → List ElsifClause
  | [] => []
  | .mk cond body r :: cs =>
    .mk (offsetExpression offset cond) (offsetStatements offset body) (shift offset r) ::
      offsetElsifs offset cs

def offsetBranches (offset : Nat) : List CaseBranch → List CaseBranch
  | [] => []
  | .mk selectors body r :: bs =>
    .mk (selectors.map (offsetSelector offset)) (offsetStatements offset body) (shift offset r) ::
      offsetBranches offset bs

end

/-! ## `offset_top_level_item` -/

/-- The initial value is shifted, the declared type is not. -/
def offsetVarDeclaration (offset : Nat) (d : VarDeclaration) : VarDeclaration :=
  { d with
    names := d.names.map (shiftIdentifier offset)
    initialValue := d.initialValue.map (offsetExpression offset)
    range := shift offset d.range }

/-- mirrors crates/st-syntax/src/multi_file.rs:114-123 -/
def offsetVarBlock (offset : Nat) (vb : VarBlock) : VarBlock :=
  { vb with
    declarations := vb.declarations.map (offsetVarDeclaration offset)
    range := shift offset vb.range }

/-- mirrors crates/st-syntax/src/multi_file.rs:107-112 -/
def offsetMethod (offset : Nat) (m : MethodDecl) : MethodDecl :=
  { m with
    name := shiftIdentifier offset m.name
    varBlocks := m.varBlocks.map (offsetVarBlock offset)
    body := offsetStatements offset m.body
    range := shift offset m.range }

/-- mirrors crates/st-syntax/src/multi_file.rs:232-235: what is defined is
not visited. -/
def offsetTypeDef (offset : Nat) (d : TypeDefinition) : TypeDefinition :=
  { d with name := shiftIdentifier offset d.name, range := shift offset d.range }

/-- mirrors crates/st-syntax/src/multi_file.rs:62-105: the properties of a
class, the methods of an interface and the result type of a function are
not visited. -/
def offsetTopLevelItem (offset : Nat) : TopLevelItem → TopLevelItem
  | .program p => .program
    { name := shiftIdentifier offset p.name
      varBlocks := p.varBlocks.map (offsetVarBlock offset)
      body := offsetStatements offset p.body
      range := shift offset p.range }
  | .function f => .function
    { f with
      name := shiftIdentifier offset f.name
      varBlocks := f.varBlocks.map (offsetVarBlock offset)
      body := offsetStatements offset f.body
      range := shift offset f.range }
  | .functionBlock fb => .functionBlock
    { name := shiftIdentifier offset fb.name
      varBlocks := fb.varBlocks.map (offsetVarBlock offset)
      body := offsetStatements offset fb.body
      range := shift offset fb.range }
  | .classDecl c => .classDecl
    { c with
      name := shiftIdentifier offset c.name
      varBlocks := c.varBlocks.map (offsetVarBlock offset)
      methods := c.methods.map (offsetMethod offset)
      range := shift offset c.range }
  | .interface i => .interface
    { i with name := shiftIdentifier offset i.name, range := shift offset i.range }
  | .typeDeclaration definitions r =>
    .typeDeclaration (definitions.map (offsetTypeDef offset)) (shift offset r)
  | .globalVarDeclaration vb => .globalVarDeclaration (offsetVarBlock offset vb)

/-! ## The places of a tree -/

/-- A text range of a tree and whether the shift reaches it. -/
structure Place where
  range : TextRange
  shifted : Bool

def Place.reached (r : TextRange) : Place := ⟨r, true⟩

/-- A place the shift does not reach. -/
def Place.left (r : TextRange) : Place := ⟨r, false⟩

def Place.move (offset : Nat) (p : Place) : Place :=
  if p.shifted then ⟨shift offset p.range, true⟩ else p

@[simp] theorem Place.move_reached (offset : Nat) (r : TextRange) :
    (Place.reached r).move offset = .reached (shift offset r) := rfl

@[simp] theorem Place.move_left (offset : Nat) (r : TextRange) :
    (Place.left r).move offset = .left r := rfl

def identifierPlaces (i : Identifier) : List Place := [.reached i.range]

def callNamePlaces (name : QualifiedName) : List Place :=
  .left name.range :: name.parts.flatMap identifierPlaces

mutual

def expressionPlaces : Expression → List Place
  | .literal _ r => [.reached r]
  | .var parts r => .reached r :: partsPlaces parts
  | .functionCall name args r => .reached r :: (callNamePlaces name ++ argumentsPlaces args)
  | .unary _ e r => .reached r :: expressionPlaces e
  | .binary _ left right r => .reached r :: (expressionPlaces left ++ expressionPlaces right)
  | .parenthesized e => expressionPlaces e
  | .thisInstance r => [.reached r]
  | .superInstance r => [.reached r]

def expressionsPlaces : List Expression → List Place
  | [] => []
  | e :: es => expressionPlaces e ++ expressionsPlaces es

def partsPlaces : List AccessPart → List Place
  | [] => []
  | .identifier i :: ps => identifierPlaces i ++ partsPlaces ps
  | .index es :: ps => expressionsPlaces es ++ partsPlaces ps
  | .deref :: ps => partsPlaces ps
  | .partialAccess _ _ :: ps => partsPlaces ps

def argumentsPlaces : List Argument → List Place
  | [] => []
  | .positional e :: as => expressionPlaces e ++ argumentsPlaces as
  | .named name e :: as => identifierPlaces name ++ (expressionPlaces e ++ argumentsPlaces as)

end

def accessPlaces (a : VariableAccess) : List Place := .reached a.range :: partsPlaces a.parts

def selectorPlaces : CaseSelector → List Place
  | .single e => expressionPlaces e
  | .range lo hi => expressionPlaces lo ++ expressionPlaces hi

def optionPlaces {α : Type} (places : α → List Place) (o : Option α) : List Place :=
  o.toList.flatMap places

mutual

def statementPlaces : Statement → List Place
  | .assignment target value r => .reached r :: (accessPlaces target ++ expressionPlaces value)
  | .functionCall name args r => .reached r :: (callNamePlaces name ++ argumentsPlaces args)
  | .ifStmt cond thenBody elsifs elseBody r =>
    .reached r :: (expressionPlaces cond ++ (statementsPlaces thenBody ++
      (elsifsPlaces elsifs ++ elsePlaces elseBody)))
  | .caseStmt e branches elseBody r =>
    .reached r :: (expressionPlaces e ++ (branchesPlaces branches ++ elsePlaces elseBody))
  | .forStmt v lo hi by_ body r =>
    .reached r :: (identifierPlaces v ++ (expressionPlaces lo ++ (expressionPlaces hi ++
      (optionPlaces expressionPlaces by_ ++ statementsPlaces body))))
  | .whileStmt cond body r => .reached r :: (expressionPlaces cond ++ statementsPlaces body)
  | .repeatStmt body cond r => .reached r :: (statementsPlaces body ++ expressionPlaces cond)
  | .returnStmt r => [.reached r]
  | .exit r => [.reached r]
  | .empty r => [.reached r]

def statementsPlaces : List Statement → List Place
  | [] => []
  | s :: ss => statementPlaces s ++ statementsPlaces ss

def elsePlaces : Option (List Statement) → List Place
  | none => []
  | some ss => statementsPlaces ss

def elsifsPlaces : List ElsifClause → List Place
  | [] => []
  | .mk cond body r :: cs =>
    .reached r :: (expressionPlaces cond ++ (statementsPlaces body ++ elsifsPlaces cs))

def branchesPlaces : List CaseBranch → List Place
  | [] => []
  | .mk selectors body r :: bs =>
    .reached r :: (selectors.flatMap selectorPlaces ++ (statementsPlaces body ++ branchesPlaces bs))

end

/-- The places of a part of a tree that is not visited. -/
def leftAll (places : List Place) : List Place := places.map fun p => .left p.range

def qualifiedNamePlaces (q : QualifiedName) : List Place :=
  .reached q.range :: q.parts.flatMap identifierPlaces

/-- The places of a type; a declared type is not visited, so its places stand
in the tree below `leftAll`. -/
def dataTypePlaces : DataType → List Place
  | .elementary _ => []
  | .array ranges t r =>
    .reached r :: (ranges.flatMap (fun a =>
      .reached a.range :: (expressionPlaces a.lower ++ expressionPlaces a.upper)) ++
        dataTypePlaces t)
  | .string _ length r => .reached r :: optionPlaces expressionPlaces length
  | .ref t => dataTypePlaces t
  | .userDefined name => qualifiedNamePlaces name

def varDeclarationPlaces (d : VarDeclaration) : List Place :=
  .reached d.range :: (d.names.flatMap identifierPlaces ++ (leftAll (dataTypePlaces d.ty) ++
    optionPlaces expressionPlaces d.initialValue))

def varBlockPlaces (vb : VarBlock) : List Place :=
  .reached vb.range :: vb.declarations.flatMap varDeclarationPlaces

def methodPlaces (m : MethodDecl) : List Place :=
  .reached m.range :: (identifierPlaces m.name ++ (leftAll (optionPlaces dataTypePlaces m.returnType)
    ++ (m.varBlocks.flatMap varBlockPlaces ++ statementsPlaces m.body)))

def accessorPlaces (a : PropertyAccessor) : List Place :=
  .reached a.range :: (a.varBlocks.flatMap varBlockPlaces ++ statementsPlaces a.body)

def propertyPlaces (p : PropertyDecl) : List Place :=
  .reached p.range :: (identifierPlaces p.name ++ (dataTypePlaces p.ty ++
    (optionPlaces accessorPlaces p.getBody ++ optionPlaces accessorPlaces p.setBody)))

def prototypePlaces (m : MethodPrototype) : List Place :=
  .reached m.range :: (identifierPlaces m.name ++ (optionPlaces dataTypePlaces m.returnType ++
    m.varBlocks.flatMap varBlockPlaces))

def typeDefKindPlaces : TypeDefKind → List Place
  | .struct fields r => .reached r :: fields.flatMap fun f =>
    .reached f.range :: (identifierPlaces f.name ++ (dataTypePlaces f.ty ++
      optionPlaces expressionPlaces f.default))
  | .enum values r => .reached r :: values.flatMap fun v =>
    .reached v.range :: (identifierPlaces v.name ++ optionPlaces (fun l => [.reached l.range]) v.value)
  | .subrange _ lower upper r => .reached r :: (expressionPlaces lower ++ expressionPlaces upper)
  | .alias t => dataTypePlaces t

def typeDefinitionPlaces (d : TypeDefinition) : List Place :=
  .reached d.range :: (identifierPlaces d.name ++ leftAll (typeDefKindPlaces d.ty))

def itemPlaces : TopLevelItem → List Place
  | .program p =>
    .reached p.range :: (identifierPlaces p.name ++ (p.varBlocks.flatMap varBlockPlaces ++
      statementsPlaces p.body))
  | .function f =>
    .reached f.range :: (identifierPlaces f.name ++ (leftAll (dataTypePlaces f.returnType) ++
      (f.varBlocks.flatMap varBlockPlaces ++ statementsPlaces f.body)))
  | .functionBlock fb =>
    .reached fb.range :: (identifierPlaces fb.name ++ (fb.varBlocks.flatMap varBlockPlaces ++
      statementsPlaces fb.body))
  | .classDecl c =>
    .reached c.range :: (identifierPlaces c.name ++ (c.varBlocks.flatMap varBlockPlaces ++
      (c.methods.flatMap methodPlaces ++ leftAll (c.properties.flatMap propertyPlaces))))
  | .interface i =>
    .reached i.range :: (identifierPlaces i.name ++ leftAll (i.methods.flatMap prototypePlaces))
  | .typeDeclaration definitions r => .reached r :: definitions.flatMap typeDefinitionPlaces
  | .globalVarDeclaration vb => varBlockPlaces vb

/-- The places of the items of a file. -/
def places (items : List TopLevelItem) : List Place := items.flatMap itemPlaces

/-- Every text range of the items of a file, in the order of their fields. -/
def ranges (items : List TopLevelItem) : List TextRange := (places items).map Place.range

/-! ## What the shift does to the places -/

theorem map_flatMap_places {α : Type} {offset : Nat} {f : α → α} {places : α → List Place}
    (h : ∀ a, places (f a) = (places a).map (Place.move offset)) (l : List α) :
    (l.map f).flatMap places = (l.flatMap places).map (Place.move offset) := by
  induction l with
  | nil => rfl
  | cons a l ih => simp only [List.map_cons, List.flatMap_cons, List.map_append, h, ih]

theorem optionPlaces_map {α : Type} {offset : Nat} {f : α → α} {places : α → List Place}
    (h : ∀ a, places (f a) = (places a).map (Place.move offset)) (o : Option α) :
    optionPlaces places (o.map f) = (optionPlaces places o).map (Place.move offset) := by
  cases o with
  | none => rfl
  | some a => simp [optionPlaces, h]

@[simp] theorem leftAll_move (offset : Nat) (ps : List Place) :
    (leftAll ps).map (Place.move offset) = leftAll ps := by
  simp [leftAll, Function.comp_def]

theorem identifierPlaces_shift (offset : Nat) (i : Identifier) :
    identifierPlaces (shiftIdentifier offset i) = (identifierPlaces i).map (Place.move offset) :=
  rfl

theorem callNamePlaces_offset (offset : Nat) (name : QualifiedName) :
    callNamePlaces (offsetCallName offset name) = (callNamePlaces name).map (Place.move offset) := by
  simp only [callNamePlaces, offsetCallName, List.map_cons, Place.move_left,
    map_flatMap_places (identifierPlaces_shift offset)]

mutual

theorem offsetExpression_places (offset : Nat) : ∀ e, expressionPlaces (offsetExpression offset e) =
    (expressionPlaces e).map (Place.move offset)
  | .literal _ _ => rfl
  | .var parts _ => by
    simp only [offsetExpression, expressionPlaces, List.map_cons, Place.move_reached,
      offsetParts_places offset parts]
  | .functionCall name args _ => by
    simp only [offsetExpression, expressionPlaces, List.map_cons, Place.move_reached,
      List.map_append, callNamePlaces_offset, offsetArguments_places offset args]
  | .unary _ e _ => by
    simp only [offsetExpression, expressionPlaces, List.map_cons, Place.move_reached,
      offsetExpression_places offset e]
  | .binary _ left right _ => by
    simp only [offsetExpression, expressionPlaces, List.map_cons, Place.move_reached,
      List.map_append, offsetExpression_places offset left, offsetExpression_places offset right]
  | .parenthesized e => by
    simp only [offsetExpression, expressionPlaces, offsetExpression_places offset e]
  | .thisInstance _ => rfl
  | .superInstance _ => rfl

theorem offsetExpressions_places (offset : Nat) : ∀ es,
    expressionsPlaces (offsetExpressions offset es) =
      (expressionsPlaces es).map (Place.move offset)
  | [] => rfl
  | e :: es => by
    simp only [offsetExpressions, expressionsPlaces, List.map_append,
      offsetExpression_places offset e, offsetExpressions_places offset es]

theorem offsetParts_places (offset : Nat) : ∀ ps,
    partsPlaces (offsetParts offset ps) = (partsPlaces ps).map (Place.move offset)
  | [] => rfl
  | .identifier _ :: ps => by
    simp only [offsetParts, partsPlaces, List.map_append, identifierPlaces_shift,
      offsetParts_places offset ps]
  | .index es :: ps => by
    simp only [offsetParts, partsPlaces, List.map_append, offsetExpressions_places offset es,
      offsetParts_places offset ps]
  | .deref :: ps => by simp only [offsetParts, partsPlaces, offsetParts_places offset ps]
  | .partialAccess _ _ :: ps => by
    simp only [offsetParts, partsPlaces, offsetParts_places offset ps]

theorem offsetArguments_places (offset : Nat) : ∀ as,
    argumentsPlaces (offsetArguments offset as) = (argumentsPlaces as).map (Place.move offset)
  | [] => rfl
  | .positional e :: as => by
    simp only [offsetArguments, argumentsPlaces, List.map_append, offsetExpression_places offset e,
      offsetArguments_places offset as]
  | .named _ e :: as => by
    simp only [offsetArguments, argumentsPlaces, List.map_append, identifierPlaces_shift,
      offsetExpression_places offset e, offsetArguments_places offset as]

end

theorem offsetSelector_places (offset : Nat) (sel : CaseSelector) :
    selectorPlaces (offsetSelector offset sel) = (selectorPlaces sel).map (Place.move offset) := by
  cases sel with
  | single e => exact offsetExpression_places offset e
  | range lo hi =>
    simp only [offsetSelector, selectorPlaces, List.map_append, offsetExpression_places]

mutual

theorem offsetStatement_places (offset : Nat) : ∀ s, statementPlaces (offsetStatement offset s) =
    (statementPlaces s).map (Place.move offset)
  | .assignment _ _ _ => by
    simp only [offsetStatement, statementPlaces, accessPlaces, offsetVarAccess, List.map_cons,
      Place.move_reached, List.map_append, offsetParts_places, offsetExpression_places]
  | .functionCall _ _ _ => by
    simp only [offsetStatement, statementPlaces, List.map_cons, Place.move_reached,
      List.map_append, callNamePlaces_offset, offsetArguments_places]
  | .ifStmt _ thenBody elsifs elseBody _ => by
    simp only [offsetStatement, statementPlaces, List.map_cons, Place.move_reached,
      List.map_append, offsetExpression_places, offsetStatements_places offset thenBody,
      offsetElsifs_places offset elsifs, offsetElse_places offset elseBody]
  | .caseStmt _ branches elseBody _ => by
    simp only [offsetStatement, statementPlaces, List.map_cons, Place.move_reached,
      List.map_append, offsetExpression_places, offsetBranches_places offset branches,
      offsetElse_places offset elseBody]
  | .forStmt _ _ _ _ body _ => by
    simp only [offsetStatement, statementPlaces, List.map_cons, Place.move_reached,
      List.map_append, identifierPlaces_shift, offsetExpression_places,
      optionPlaces_map (offsetExpression_places offset), offsetStatements_places offset body]
  | .whileStmt _ body _ => by
    simp only [offsetStatement, statementPlaces, List.map_cons, Place.move_reached,
      List.map_append, offsetExpression_places, offsetStatements_places offset body]
  | .repeatStmt body _ _ => by
    simp only [offsetStatement, statementPlaces, List.map_cons, Place.move_reached,
      List.map_append, offsetExpression_places, offsetStatements_places offset body]
  | .returnStmt _ => rfl
  | .exit _ => rfl
  | .empty _ => rfl

theorem offsetStatements_places (offset : Nat) : ∀ ss,
    statementsPlaces (offsetStatements offset ss) = (statementsPlaces ss).map (Place.move offset)
  | [] => rfl
  | s :: ss => by
    simp only [offsetStatements, statementsPlaces, List.map_append,
      offsetStatement_places offset s, offsetStatements_places offset ss]

theorem offsetElse_places (offset : Nat) : ∀ o,
    elsePlaces (offsetElse offset o) = (elsePlaces o).map (Place.move offset)
  | none => rfl
  | some ss => by simp only [offsetElse, elsePlaces, offsetStatements_places offset ss]

theorem offsetElsifs_places (offset : Nat) : ∀ cs,
    elsifsPlaces (offsetElsifs offset cs) = (elsifsPlaces cs).map (Place.move offset)
  | [] => rfl
  | .mk _ body _ :: cs => by
    simp only [offsetElsifs, elsifsPlaces, List.map_cons, Place.move_reached, List.map_append,
      offsetExpression_places, offsetStatements_places offset body, offsetElsifs_places offset cs]

theorem offsetBranches_places (offset : Nat) : ∀ bs,
    branchesPlaces (offsetBranches offset bs) = (branchesPlaces bs).map (Place.move offset)
  | [] => rfl
  | .mk _ body _ :: bs => by
    simp only [offsetBranches, branchesPlaces, List.map_cons, Place.move_reached, List.map_append,
      map_flatMap_places (offsetSelector_places offset), offsetStatements_places offset body,
      offsetBranches_places offset bs]

end

theorem offsetVarDeclaration_places (offset : Nat) (d : VarDeclaration) :
    varDeclarationPlaces (offsetVarDeclaration offset d) =
      (varDeclarationPlaces d).map (Place.move offset) := by
  simp only [varDeclarationPlaces, offsetVarDeclaration, List.map_cons, Place.move_reached,
    List.map_append, map_flatMap_places (identifierPlaces_shift offset), leftAll_move,
    optionPlaces_map (offsetExpression_places offset)]

theorem offsetVarBlock_places (offset : Nat) (vb : VarBlock) :
    varBlockPlaces (offsetVarBlock offset vb) = (varBlockPlaces vb).map (Place.move offset) := by
  simp only [varBlockPlaces, offsetVarBlock, List.map_cons, Place.move_reached,
    map_flatMap_places (offsetVarDeclaration_places offset)]

theorem offsetMethod_places (offset : Nat) (m : MethodDecl) :
    methodPlaces (offsetMethod offset m) = (methodPlaces m).map (Place.move offset) := by
  simp only [methodPlaces, offsetMethod, List.map_cons, Place.move_reached, List.map_append,
    identifierPlaces_shift, leftAll_move, map_flatMap_places (offsetVarBlock_places offset),
    offsetStatements_places]

theorem offsetTypeDef_places (offset : Nat) (d : TypeDefinition) :
    typeDefinitionPlaces (offsetTypeDef offset d) =
      (typeDefinitionPlaces d).map (Place.move offset) := by
  simp only [typeDefinitionPlaces, offsetTypeDef, List.map_cons, Place.move_reached,
    List.map_append, identifierPlaces_shift, leftAll_move]

/-- **What the shift does to an item**: it moves exactly the places it
reaches, and every other text range stays where it was in its own file. -/
theorem offsetTopLevelItem_places (offset : Nat) (item : TopLevelItem) :
    itemPlaces (offsetTopLevelItem offset item) = (itemPlaces item).map (Place.move offset) := by
  cases item with
  | program p =>
    simp only [itemPlaces, offsetTopLevelItem, List.map_cons, Place.move_reached, List.map_append,
      identifierPlaces_shift, map_flatMap_places (offsetVarBlock_places offset),
      offsetStatements_places]
  | function f =>
    simp only [itemPlaces, offsetTopLevelItem, List.map_cons, Place.move_reached, List.map_append,
      identifierPlaces_shift, leftAll_move, map_flatMap_places (offsetVarBlock_places offset),
      offsetStatements_places]
  | functionBlock fb =>
    simp only [itemPlaces, offsetTopLevelItem, List.map_cons, Place.move_reached, List.map_append,
      identifierPlaces_shift, map_flatMap_places (offsetVarBlock_places offset),
      offsetStatements_places]
  | classDecl c =>
    simp only [itemPlaces, offsetTopLevelItem, List.map_cons, Place.move_reached, List.map_append,
      identifierPlaces_shift, leftAll_move, map_flatMap_places (offsetVarBlock_places offset),
      map_flatMap_places (offsetMethod_places offset)]
  | interface i =>
    simp only [itemPlaces, offsetTopLevelItem, List.map_cons, Place.move_reached, List.map_append,
      identifierPlaces_shift, leftAll_move]
  | typeDeclaration definitions r =>
    simp only [itemPlaces, offsetTopLevelItem, List.map_cons, Place.move_reached,
      map_flatMap_places (offsetTypeDef_places offset)]
  | globalVarDeclaration vb => exact offsetVarBlock_places offset vb

/-! ## `parse_multi` -/

/-- The UTF-8 bytes of a file. -/
abbrev Text := List UInt8

/-- mirrors crates/st-syntax/src/lower.rs:12-16 -/
structure LowerError where
  message : String
  range : TextRange
  deriving DecidableEq, Repr

structure LowerResult where
  sourceFile : SourceFile
  errors : List LowerError

/-- The parser of one file, and the texts of `builtin_stdlib`. The ranges of
a tree are those of nodes, which lie in the text; so does the start of an
error. The library parses without errors. -/
structure Frontend where
  parse : Text → LowerResult
  builtinStdlib : List Text
  ranges_in_text : ∀ t, ∀ r ∈ ranges (parse t).sourceFile.items,
    r.start ≤ r.stop ∧ r.stop ≤ t.length
  errors_in_text : ∀ t, ∀ e ∈ (parse t).errors, e.range.start ≤ t.length
  stdlib_parses : ∀ t ∈ builtinStdlib, (parse t).errors = []

namespace Frontend

variable (F : Frontend)

def items (source : Text) : List TopLevelItem := (F.parse source).sourceFile.items

def errors (source : Text) : List LowerError := (F.parse source).errors

/-- mirrors crates/st-syntax/src/multi_file.rs:26-35: the items of one file
with `cumulative` bytes before it. -/
def mergedItems (cumulative : Nat) (source : Text) : List TopLevelItem :=
  if 0 < cumulative then (F.items source).map (offsetTopLevelItem cumulative) else F.items source

/-- mirrors crates/st-syntax/src/multi_file.rs:39-41 -/
def isStdlib (count i : Nat) : Bool :=
  decide (i < count - 1) && decide (1 < count) && decide (i < F.builtinStdlib.length)

def shiftError (offset : Nat) (e : LowerError) : LowerError := ⟨e.message, shift offset e.range⟩

/-- mirrors crates/st-syntax/src/multi_file.rs:42-48 -/
def mergedErrors (count i cumulative : Nat) (source : Text) : List LowerError :=
  if F.isStdlib count i then [] else (F.errors source).map (shiftError cumulative)

/-- The loop of `parse_multi` from the `i`-th of `count` files on. -/
def parseMultiFrom (count : Nat) : Nat → Nat → List Text → LowerResult
  | _, cumulative, [] => ⟨⟨[], ⟨0, cumulative⟩⟩, []⟩
  | i, cumulative, source :: sources =>
    let rest := parseMultiFrom count (i + 1) (cumulative + source.length) sources
    ⟨⟨F.mergedItems cumulative source ++ rest.sourceFile.items, rest.sourceFile.range⟩,
      F.mergedErrors count i cumulative source ++ rest.errors⟩

/-- mirrors crates/st-syntax/src/multi_file.rs:18-60 -/
def parseMulti (sources : List Text) : LowerResult := F.parseMultiFrom sources.length 0 0 sources

/-! ## Positions -/

/-- The ranges of the files parsed by themselves, each file placed behind
the ones before it. -/
def placedRanges : Nat → List Text → List TextRange
  | _, [] => []
  | before, source :: sources =>
    (ranges (F.items source)).map (shift before) ++ placedRanges (before + source.length) sources

/-- Every text range of the merged tree is the range in the file parsed by
itself, moved by the length of the files before it. -/
def KeepsPositions (sources : List Text) : Prop :=
  ranges (F.parseMulti sources).sourceFile.items = F.placedRanges 0 sources

def totalLength (sources : List Text) : Nat := (sources.map List.length).sum

/-- Nothing stands before the file, or the shift reaches all of its tree. -/
def ShiftReaches (sources : List Text) : Prop :=
  ∀ before source after, sources = before ++ source :: after →
    totalLength before = 0 ∨ ∀ p ∈ places (F.items source), p.shifted = true

theorem totalLength_append (a b : List Text) :
    totalLength (a ++ b) = totalLength a + totalLength b := by
  simp only [totalLength, List.map_append, List.sum_append]

@[simp] theorem shift_zero (r : TextRange) : shift 0 r = r := rfl

theorem move_range_iff (offset : Nat) (p : Place) :
    (p.move offset).range = shift offset p.range ↔ offset = 0 ∨ p.shifted = true := by
  obtain ⟨⟨start, stop⟩, shifted⟩ := p
  cases shifted with
  | true => simp [Place.move]
  | false =>
    simp only [Place.move, shift, TextRange.mk.injEq, Bool.false_eq_true, if_false, or_false]
    omega

theorem places_mergedItems (cumulative : Nat) (source : Text) :
    places (F.mergedItems cumulative source) =
      (places (F.items source)).map (Place.move cumulative) := by
  unfold mergedItems places
  split
  · exact map_flatMap_places (offsetTopLevelItem_places cumulative) _
  · have hzero : cumulative = 0 := by omega
    subst hzero
    have hid : Place.move 0 = id := by
      funext p
      obtain ⟨r, shifted⟩ := p
      cases shifted <;> rfl
    rw [hid, List.map_id]

theorem ranges_mergedItems_iff (cumulative : Nat) (source : Text) :
    ranges (F.mergedItems cumulative source) = (ranges (F.items source)).map (shift cumulative) ↔
      cumulative = 0 ∨ ∀ p ∈ places (F.items source), p.shifted = true := by
  simp only [ranges, places_mergedItems, List.map_map, List.map_inj_left, Function.comp_apply,
    move_range_iff]
  by_cases hzero : cumulative = 0 <;> simp [hzero]

/-- What holds of every file of a list with the files before and after it. -/
theorem forall_split_cons {α : Type} {P : List α → α → List α → Prop} {a : α} {l : List α} :
    (∀ before x after, a :: l = before ++ x :: after → P before x after) ↔
      P [] a l ∧ ∀ before x after, l = before ++ x :: after → P (a :: before) x after := by
  constructor
  · intro h
    exact ⟨h [] a l rfl, fun before x after hl => h (a :: before) x after (by rw [hl]; rfl)⟩
  · intro h before x after hl
    cases before with
    | nil =>
      obtain ⟨rfl, rfl⟩ := List.cons_eq_cons.mp hl
      exact h.1
    | cons b before =>
      obtain ⟨rfl, hrest⟩ := List.cons_eq_cons.mp hl
      exact h.2 before x after hrest

theorem ranges_parseMultiFrom_iff (count : Nat) : ∀ (sources : List Text) (i cumulative : Nat),
    ranges (F.parseMultiFrom count i cumulative sources).sourceFile.items =
        F.placedRanges cumulative sources ↔
      ∀ before source after, sources = before ++ source :: after →
        cumulative + totalLength before = 0 ∨ ∀ p ∈ places (F.items source), p.shifted = true
  | [], _, _ => by simp [parseMultiFrom, placedRanges, ranges, places]
  | source :: sources, i, cumulative => by
    have hsplit : ranges (F.parseMultiFrom count i cumulative (source :: sources)).sourceFile.items =
        ranges (F.mergedItems cumulative source) ++
          ranges (F.parseMultiFrom count (i + 1) (cumulative + source.length) sources).sourceFile.items
        := by
      simp only [parseMultiFrom, ranges, places, List.flatMap_append, List.map_append]
    have hlength : (ranges (F.mergedItems cumulative source)).length =
        ((ranges (F.items source)).map (shift cumulative)).length := by
      simp only [ranges, places_mergedItems, List.length_map]
    rw [forall_split_cons, hsplit, placedRanges, List.append_eq_append_iff_of_size_eq_left hlength,
      ranges_mergedItems_iff, ranges_parseMultiFrom_iff count sources]
    simp only [totalLength, List.map_nil, List.sum_nil, List.map_cons, List.sum_cons,
      Nat.add_zero, Nat.add_assoc]

theorem keepsPositions_iff (sources : List Text) :
    F.KeepsPositions sources ↔ F.ShiftReaches sources := by
  have h := F.ranges_parseMultiFrom_iff sources.length sources 0 0
  simp only [Nat.zero_add] at h
  exact h

/-! ## Errors -/

/-- The errors of the files parsed by themselves, each file placed behind
the ones before it. -/
def placedErrors : Nat → List Text → List LowerError
  | _, [] => []
  | before, source :: sources =>
    (F.errors source).map (shiftError before) ++ placedErrors (before + source.length) sources

/-- Every error of every file is reported, the library having none. -/
def ReportsErrors (sources : List Text) : Prop :=
  (F.parseMulti sources).errors = F.placedErrors 0 sources

/-- A file that stands where the library stands in the list, and is not the
last, has no errors. -/
def SwallowsNothing (sources : List Text) : Prop :=
  ∀ before source after, sources = before ++ source :: after →
    before.length < F.builtinStdlib.length → after ≠ [] → F.errors source = []

theorem mergedErrors_length_le (count i cumulative : Nat) (source : Text) :
    (F.mergedErrors count i cumulative source).length ≤ (F.errors source).length := by
  unfold mergedErrors
  split
  · exact Nat.zero_le _
  · exact Nat.le_of_eq (List.length_map _)

theorem errors_length_le (count : Nat) : ∀ (sources : List Text) (i cumulative : Nat),
    (F.parseMultiFrom count i cumulative sources).errors.length ≤
      (F.placedErrors cumulative sources).length
  | [], _, _ => Nat.le_refl _
  | source :: sources, i, cumulative => by
    have hhead := F.mergedErrors_length_le count i cumulative source
    have hrest := errors_length_le count sources (i + 1) (cumulative + source.length)
    simp only [parseMultiFrom, placedErrors, List.length_append, List.length_map]
    omega

/-- An error that is swallowed makes the list of the reported ones shorter. -/
theorem swallows_of_errors (count : Nat) : ∀ (sources : List Text) (i cumulative : Nat),
    (F.parseMultiFrom count i cumulative sources).errors.length =
        (F.placedErrors cumulative sources).length →
      ∀ before source after, sources = before ++ source :: after →
        F.isStdlib count (i + before.length) = true → F.errors source = []
  | [], _, _, _ => by simp
  | source :: sources, i, cumulative, h => by
    have hhead := F.mergedErrors_length_le count i cumulative source
    have hrest := F.errors_length_le count sources (i + 1) (cumulative + source.length)
    simp only [parseMultiFrom, placedErrors, List.length_append, List.length_map] at h
    rw [forall_split_cons]
    constructor
    · intro hstd
      have hnil : F.mergedErrors count i cumulative source = [] := if_pos hstd
      rw [hnil, List.length_nil] at h
      exact List.eq_nil_of_length_eq_zero (by omega)
    · have htail := swallows_of_errors count sources (i + 1) (cumulative + source.length) (by omega)
      intro before x after hl hstd
      refine htail before x after hl ?_
      rw [Nat.add_assoc, Nat.add_comm 1]
      exact hstd

theorem errors_of_swallows (count : Nat) : ∀ (sources : List Text) (i cumulative : Nat),
    (∀ before source after, sources = before ++ source :: after →
      F.isStdlib count (i + before.length) = true → F.errors source = []) →
    (F.parseMultiFrom count i cumulative sources).errors = F.placedErrors cumulative sources
  | [], _, _, _ => rfl
  | source :: sources, i, cumulative, h => by
    rw [forall_split_cons] at h
    have hhead : F.mergedErrors count i cumulative source =
        (F.errors source).map (shiftError cumulative) := by
      unfold mergedErrors
      split
      next hstd => rw [h.1 hstd, List.map_nil]
      next => rfl
    have hrest := errors_of_swallows count sources (i + 1) (cumulative + source.length)
      fun before x after hl hstd => h.2 before x after hl (by
        rw [List.length_cons, Nat.add_comm before.length, ← Nat.add_assoc]
        exact hstd)
    simp only [parseMultiFrom, placedErrors, hhead, hrest]

theorem reportsErrors_iff (sources : List Text) :
    F.ReportsErrors sources ↔ F.SwallowsNothing sources := by
  have hstd : ∀ before source after, sources = before ++ source :: after →
      (F.isStdlib sources.length (0 + before.length) = true ↔
        before.length < F.builtinStdlib.length ∧ after ≠ []) := by
    intro before source after hl
    have hlength := congrArg List.length hl
    simp only [List.length_append, List.length_cons] at hlength
    have hafter : after ≠ [] ↔ 0 < after.length := by
      rw [List.length_pos_iff_ne_nil]
    simp only [isStdlib, Bool.and_eq_true, decide_eq_true_eq, hafter]
    omega
  constructor
  · intro h before source after hl hlt hafter
    exact F.swallows_of_errors sources.length sources 0 0 (congrArg List.length h) before source
      after hl ((hstd before source after hl).mpr ⟨hlt, hafter⟩)
  · intro h
    refine F.errors_of_swallows sources.length sources 0 0 fun before source after hl hs => ?_
    obtain ⟨hlt, hafter⟩ := (hstd before source after hl).mp hs
    exact h before source after hl hlt hafter

theorem mem_placedErrors (source : Text) (after : List Text) {e : LowerError}
    (he : e ∈ F.errors source) : ∀ (before : List Text) (cumulative : Nat),
      shiftError (cumulative + totalLength before) e ∈
        F.placedErrors cumulative (before ++ source :: after)
  | [], _ => List.mem_append_left _ (List.mem_map_of_mem he)
  | b :: before, cumulative => by
    have h := mem_placedErrors source after he before (cumulative + b.length)
    rw [Nat.add_assoc] at h
    exact List.mem_append_right _ h

/-- A list that begins with the library loses no error. -/
theorem reportsErrors_of_stdlib (sources : List Text) :
    F.ReportsErrors (F.builtinStdlib ++ sources) := by
  rw [reportsErrors_iff]
  intro before source after hl hlt _
  refine F.stdlib_parses source ?_
  have hget := congrArg (·[before.length]?) hl
  simp only [List.getElem?_append_left hlt, List.getElem?_append_right (Nat.le_refl _),
    Nat.sub_self, List.getElem?_cons_zero] at hget
  exact List.mem_of_getElem? hget

end Frontend

end RustPlc.Syntax.Ranged
