import RustPlc.L2Syntax.Lower

/-!
# The trees of the grammar

crates/st-grammar/grammar.js and the generated src/node-types.json, read as a
condition on the nodes of a tree without its comments: which fields and which
children a node of each kind has. `ErrorFree` is what the parser delivers for
a text without errors, comments included.
-/
namespace RustPlc.Syntax

/-- `_literal` -/
def literalKinds : List Kind :=
  [.integerLiteral, .realLiteral, .stringLiteral, .booleanLiteral, .nullLiteral, .timeLiteral,
    .dateLiteral, .todLiteral, .dtLiteral, .typedLiteral]

def binaryKinds : List Kind :=
  [.orExpression, .andExpression, .comparisonExpression, .additiveExpression,
    .multiplicativeExpression, .powerExpression]

/-- `_expression` -/
def expressionKinds : List Kind :=
  literalKinds ++ binaryKinds ++ [.unaryExpression, .thisExpression, .superExpression,
    .variableAccess, .functionCall, .parenthesizedExpression]

/-- `_statement` -/
def statementKinds : List Kind :=
  [.assignmentStatement, .functionCallStatement, .ifStatement, .caseStatement, .forStatement,
    .whileStatement, .repeatStatement, .returnStatement, .exitStatement, .emptyStatement]

/-- `_data_type`: an elementary type is an anonymous node. -/
def dataTypeKinds : List Kind := [.token, .arrayType, .stringType, .refType, .qualifiedName]

/-- Nodes that are one word of the text, with at most the word below them. -/
def wordKinds : List Kind :=
  [.identifier, .integerLiteral, .realLiteral, .stringLiteral, .booleanLiteral, .nullLiteral,
    .timeLiteral, .dateLiteral, .todLiteral, .dtLiteral, .thisExpression, .superExpression,
    .varKeyword, .varQualifier, .accessSpecifier, .partialAccess, .token]

/-- The children of a node that are more than a word: one in a field, one of
a kind, or any number of a kind. -/
inductive Role where
  | field (f : Field) (kinds : List Kind)
  | child (k : Kind)
  | children (k : Kind)

def Role.selects : Role → Node → Bool
  | .field f _, c => c.field == some f
  | .child k, c | .children k, c => c.kind == k

/-- The kinds of a selected child. -/
def Role.kinds : Role → List Kind
  | .field _ ks => ks
  | .child k | .children k => [k]

def Role.single : Role → Bool
  | .children _ => false
  | _ => true

/-- `field("name", $.identifier)` -/
def nameRole : Role := .field .name [.identifier]

/-- `field("body", $.statement_list)` -/
def bodyRole : Role := .field .body [.statementList]

/-- A field that holds an expression. -/
def exprRole (f : Field) : Role := .field f expressionKinds

/-- A field that holds a type. -/
def typeRole (f : Field) : Role := .field f dataTypeKinds

/-- The rules of the grammar. -/
def roles : Kind → List Role
  | .sourceFile => [.children .programDeclaration, .children .functionDeclaration,
      .children .functionBlockDeclaration, .children .classDeclaration,
      .children .interfaceDeclaration, .children .typeDeclaration, .children .globalVarDeclaration]
  | .programDeclaration | .functionBlockDeclaration => [nameRole, .children .varBlock, bodyRole]
  | .functionDeclaration => [nameRole, typeRole .returnType, .children .varBlock, bodyRole]
  | .classDeclaration => [nameRole, .field .base [.identifier], .children .varBlock,
      .children .methodDeclaration, .children .propertyDeclaration]
  | .methodDeclaration => [.field .access [.accessSpecifier], nameRole, typeRole .returnType,
      .children .varBlock, bodyRole]
  | .interfaceDeclaration => [nameRole, .children .methodPrototype]
  | .methodPrototype => [nameRole, typeRole .returnType, .children .varBlock]
  | .propertyDeclaration => [.field .access [.accessSpecifier], nameRole, typeRole .type,
      .field .get [.propertyGet], .field .set [.propertySet]]
  | .propertyGet | .propertySet => [.children .varBlock, bodyRole]
  | .typeDeclaration => [.children .typeDefinition]
  | .typeDefinition =>
    [nameRole, .field .type ([.structType, .enumType, .subrangeType] ++ dataTypeKinds)]
  | .structType => [.children .structField]
  | .structField => [nameRole, typeRole .type, exprRole .default]
  | .enumType => [.children .enumValue]
  | .enumValue => [nameRole, .field .value literalKinds]
  | .subrangeType => [.field .baseType [.token], exprRole .lower, exprRole .upper]
  | .arrayType => [.children .arrayRange, typeRole .elementType]
  | .arrayRange => [exprRole .lower, exprRole .upper]
  | .varBlock => [.child .varKeyword, .children .varQualifier, .children .variableDeclaration]
  | .globalVarDeclaration => [.children .varQualifier, .children .variableDeclaration]
  | .variableDeclaration => [typeRole .type, exprRole .initialValue]
  | .stringType => [exprRole .length]
  | .refType => [typeRole .targetType]
  | .statementList => statementKinds.map .children
  | .assignmentStatement => [.field .target [.variableAccess], exprRole .value]
  | .functionCallStatement => [.child .functionCall]
  | .ifStatement => [exprRole .condition, .field .consequence [.statementList],
      .children .elsifClause, .child .elseClause]
  | .elsifClause => [exprRole .condition, bodyRole]
  | .elseClause => [bodyRole]
  | .caseStatement => [exprRole .expression, .children .caseBranch, .child .elseClause]
  | .caseBranch => [.children .caseSelector, .child .statementList]
  | .forStatement => [.field .variable [.identifier], exprRole .from, exprRole .to, exprRole .step,
      bodyRole]
  | .whileStatement => [exprRole .condition, bodyRole]
  | .repeatStatement => [bodyRole, exprRole .condition]
  | .orExpression | .andExpression | .comparisonExpression | .additiveExpression
  | .multiplicativeExpression | .powerExpression =>
    [exprRole .left, .field .op [.token], exprRole .right]
  | .unaryExpression => [.field .op [.token], exprRole .operand]
  | .parenthesizedExpression | .caseSelector | .variableAccess => expressionKinds.map .children
  | .functionCall => [.field .name [.qualifiedName], .field .arguments [.argumentList]]
  | .argumentList => .children .namedArgument :: expressionKinds.map .children
  | .namedArgument => [nameRole, exprRole .value]
  | .typedLiteral => [.field .type [.token], .field .value [.integerLiteral, .realLiteral]]
  | _ => []

/-- Punctuation. -/
structure Punct (w : String) (c : Node) : Prop where
  kind : c.kind = .token
  anonymous : c.named = false
  word : c.word = w
  children : c.children = []

/-- What may follow the first identifier of a `variable_access`. -/
inductive Suffixes : List Node → Prop
  | nil : Suffixes []
  | dot {d i : Node} {cs : List Node} (hd : Punct "." d) (hi : i.kind = .identifier)
    (h : Suffixes cs) : Suffixes (d :: i :: cs)
  | deref {d : Node} {cs : List Node} (hd : Punct "^" d) (h : Suffixes cs) : Suffixes (d :: cs)
  | partialAccess {p : Node} {cs : List Node} (hp : p.kind = .partialAccess) (h : Suffixes cs) :
    Suffixes (p :: cs)
  | index {l r : Node} {es cs : List Node} (hl : Punct "[" l)
    (hes : ∀ e ∈ es, Punct "," e ∨ e.named = true ∧ e.kind ∈ expressionKinds) (hr : Punct "]" r)
    (h : Suffixes cs) : Suffixes (l :: es ++ r :: cs)

/-- What the rules say about the order and the words of the children, where
the lowering depends on it. -/
def Ordered (n : Node) : Prop :=
  match n.kind with
  | .parenthesizedExpression => ∃ l e r, n.children = [l, e, r] ∧ Punct "(" l ∧ Punct ")" r ∧
      e.named = true ∧ e.kind ∈ expressionKinds
  | .caseSelector => (∃ e, n.children = [e] ∧ e.named = true ∧ e.kind ∈ expressionKinds) ∨
      ∃ a d b, n.children = [a, d, b] ∧ Punct ".." d ∧ a.named = true ∧ b.named = true ∧
        a.kind ∈ expressionKinds ∧ b.kind ∈ expressionKinds
  | .argumentList => ∀ c ∈ n.children, Punct "," c ∨
      c.named = true ∧ (c.kind = .namedArgument ∨ c.kind ∈ expressionKinds)
  | .variableAccess => ∃ i cs, n.children = i :: cs ∧ i.kind = .identifier ∧ Suffixes cs
  | .statementList => ∀ c ∈ n.children, c.named = true
  | .stringType => ∃ w cs, n.children = w :: cs ∧ w.children = [] ∧
      (toUppercaseIs w "STRING" ∨ toUppercaseIs w "WSTRING")
  | .functionCallStatement => ∀ c ∈ n.children, c.kind = .functionCall → c.named = true
  | .variableDeclaration => ∀ c ∈ n.children, c.kind = .identifier → c.named = true
  | .token => n.children = []
  | _ => True
where
  /-- The word of a keyword, in any case. -/
  toUppercaseIs (c : Node) (w : String) : Prop := c.word.toList.map Char.toUpper = w.toList

/-- What the tokens say: a word is not empty, no name has a bracket or an
arrow, and no expression begins with the punctuation of an index. -/
structure Lexical (n : Node) : Prop where
  word : n.kind ≠ .sourceFile → n.children = [] → n.word ≠ ""
  inner : n.children ≠ [] → n.word = ""
  name : n.kind = .identifier ∨ n.kind = .partialAccess →
    n.children = [] ∧ '[' ∉ n.word.toList ∧ '^' ∉ n.word.toList
  expression : n.kind ∈ expressionKinds → ∀ c, n.chars.head? = some c → c ∉ ['[', ']', ',', '^']

/-- A node without comments that follows its rule. -/
structure Shape (n : Node) : Prop where
  kids : ∀ c ∈ n.children, c.children = [] ∨ ∃ r ∈ roles n.kind, r.selects c = true
  kinds : ∀ r ∈ roles n.kind, ∀ c ∈ n.children, r.selects c = true → c.kind ∈ r.kinds
  once : ∀ r ∈ roles n.kind, r.single = true → (n.children.filter r.selects).length ≤ 1
  words : n.kind ∈ wordKinds → n.children.length ≤ 1 ∧ ∀ c ∈ n.children, c.children = []
  root : ∀ c ∈ n.children, c.kind ≠ .sourceFile
  ordered : Ordered n
  lexical : Lexical n

/-- Every node follows its rule. -/
def Parsed (n : Node) : Prop := ∀ m, Node.Within m n → Shape m

/-- The tree of a source text without errors. -/
structure ErrorFree (t : Node) : Prop where
  root : t.kind = .sourceFile
  commented : t.Commented
  parsed : Parsed t.bare

end RustPlc.Syntax
