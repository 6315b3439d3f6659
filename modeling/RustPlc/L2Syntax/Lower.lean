import RustPlc.L1Ir.Ops
import RustPlc.L2Syntax.Tree

/-!
# Lowering

crates/st-syntax/src/lower.rs: from concrete trees to the AST. A child is
found by its field, by its kind, or by its number among the named children;
only the last counts comments. The list of `LowerError`s is left out: the
trees of the development hold no `ERROR` and no `MISSING` node.
-/
namespace RustPlc.Syntax

open RustPlc.Ir

namespace Node

variable {α : Type}

/-- `node.child_by_field_name(f).map(g)` -/
def onField (n : Node) (f : Field) (g : (c : Node) → sizeOf c < sizeOf n → α) : Option α :=
  match h : n.childByFieldName f with
  | some c => some (g c (sizeOf_child (List.mem_of_find?_eq_some h)))
  | none => none

/-- The children, with what makes the recursion end. -/
def smaller (n : Node) : List {c : Node // sizeOf c < sizeOf n} :=
  n.children.attach.map fun c => ⟨c.1, sizeOf_child c.2⟩

/-- `node.named_child(i).map(g)` -/
def onNamedChild (n : Node) (i : Nat) (g : (c : Node) → sizeOf c < sizeOf n → α) : Option α :=
  (n.smaller.filter (·.1.named))[i]?.map fun c => g c.1 c.2

/-- `g` of the named children. -/
def onNamed (n : Node) (g : (c : Node) → sizeOf c < sizeOf n → α) : List α :=
  (n.smaller.filter (·.1.named)).map fun c => g c.1 c.2

/-- `g` of the children of a kind. -/
def onKind (n : Node) (k : Kind) (g : (c : Node) → sizeOf c < sizeOf n → α) : List α :=
  (n.smaller.filter (·.1.kind == k)).map fun c => g c.1 c.2

theorem smaller_val (n : Node) : n.smaller.map (·.1) = n.children := by
  simp [smaller]

theorem onField_eq (n : Node) (f : Field) (g : Node → α) :
    n.onField f (fun c _ => g c) = (n.childByFieldName f).map g := by
  unfold onField
  split
  · next h => simp only [h, Option.map_some]
  · next h => simp only [h, Option.map_none]

theorem smaller_filter (n : Node) (p : Node → Bool) (g : Node → α) :
    (n.smaller.filter (fun c => p c.1)).map (fun c => g c.1) = (n.children.filter p).map g := by
  conv => rhs; rw [← smaller_val n, List.filter_map, List.map_map]
  rfl

theorem onNamed_eq (n : Node) (g : Node → α) :
    n.onNamed (fun c _ => g c) = n.namedChildren.map g :=
  smaller_filter n (·.named) g

theorem onKind_eq (n : Node) (k : Kind) (g : Node → α) :
    n.onKind k (fun c _ => g c) = (n.childrenOfKind k).map g :=
  smaller_filter n (·.kind == k) g

theorem onNamedChild_eq (n : Node) (i : Nat) (g : Node → α) :
    n.onNamedChild i (fun c _ => g c) = n.namedChildren[i]?.map g := by
  have h := congrArg (fun l => l[i]?) (smaller_filter n (·.named) g)
  simp only [List.getElem?_map] at h
  exact h

end Node

/-! ## Identifiers and keywords -/

/-- mirrors crates/st-syntax/src/lower.rs:1358-1363 -/
def lowerIdentifier (n : Node) : Identifier := ⟨n.text, n.range⟩

/-- mirrors crates/st-syntax/src/lower.rs:1388-1393 -/
def dummyIdentifier (n : Node) : Identifier := ⟨"<missing>", n.range⟩

/-- mirrors crates/st-syntax/src/lower.rs:1365-1372 -/
def fieldIdentifier (n : Node) (f : Field) : Identifier :=
  ((n.childByFieldName f).map lowerIdentifier).getD (dummyIdentifier n)

/-- mirrors crates/st-syntax/src/lower.rs:1374-1386 -/
def lowerQualifiedName (n : Node) : QualifiedName :=
  ⟨(n.childrenOfKind .identifier).map lowerIdentifier, n.range⟩

/-- mirrors crates/st-syntax/src/lower.rs:1395-1400 -/
def dummyExpression (n : Node) : Expression := .literal (.integer 0) n.range

/-- mirrors crates/st-syntax/src/lower.rs:1402-1407 -/
def dummyVariableAccess (n : Node) : VariableAccess := ⟨[.identifier (dummyIdentifier n)], n.range⟩

/-- mirrors crates/st-syntax/src/lower.rs:1409-1420 -/
def parseVarKind (text : String) : VarKind :=
  match toUppercase text with
  | "VAR_INPUT" => .varInput
  | "VAR_OUTPUT" => .varOutput
  | "VAR_IN_OUT" => .varInOut
  | "VAR_GLOBAL" => .varGlobal
  | "VAR_EXTERNAL" => .varExternal
  | "VAR_TEMP" => .varTemp
  | _ => .var

/-- mirrors crates/st-syntax/src/lower.rs:1422-1429 -/
def parseVarQualifier (text : String) : Option VarQualifier :=
  match toUppercase text with
  | "RETAIN" => some .retain
  | "PERSISTENT" => some .persistent
  | "CONSTANT" => some .constant
  | _ => none

/-- mirrors crates/st-syntax/src/lower.rs:452-460 -/
def parseAccessSpecifier (text : String) : AccessSpecifier :=
  match toUppercase text with
  | "PRIVATE" => .priv
  | "PROTECTED" => .prot
  | "INTERNAL" => .internal
  | _ => .pub

/-- mirrors crates/st-syntax/src/lower.rs:1431-1458 -/
def tryParseElementaryType (text : String) : Option ElementaryType :=
  match toUppercase text with
  | "BOOL" => some .bool
  | "SINT" => some .sint
  | "INT" => some .int
  | "DINT" => some .dint
  | "LINT" => some .lint
  | "USINT" => some .usint
  | "UINT" => some .uint
  | "UDINT" => some .udint
  | "ULINT" => some .ulint
  | "REAL" => some .real
  | "LREAL" => some .lreal
  | "BYTE" => some .byte
  | "WORD" => some .word
  | "DWORD" => some .dword
  | "LWORD" => some .lword
  | "TIME" => some .time
  | "LTIME" => some .ltime
  | "DATE" => some .date
  | "LDATE" => some .ldate
  | "TIME_OF_DAY" | "TOD" => some .tod
  | "LTOD" => some .ltod
  | "DATE_AND_TIME" | "DT" => some .dt
  | "LDT" => some .ldt
  | _ => none

/-- mirrors crates/st-syntax/src/lower.rs:1460-1462 -/
def parseElementaryType (text : String) : ElementaryType := (tryParseElementaryType text).getD .int

/-! ## Literals -/

/-- The value of a digit in any radix up to 36. -/
def digitValue (c : Char) : Option Nat :=
  if c.isDigit then some (c.toNat - 48)
  else if c.isLower then some (c.toNat - 87)
  else if c.isUpper then some (c.toNat - 55)
  else none

/-- `i64::from_str_radix(text, radix)` -/
def parseRadix (radix : Nat) (cs : List Char) : Option Int64 :=
  let digits : List Char → Option Nat
    | [] => none
    | ds => ds.foldl (fun acc c => acc.bind fun n =>
        (digitValue c).bind fun d => if d < radix then some (n * radix + d) else none) (some 0)
  let signed : Option Int := match cs with
    | '-' :: rest => (digits rest).map fun n => -(n : Int)
    | '+' :: rest => (digits rest).map fun n => (n : Int)
    | _ => (digits cs).map fun n => (n : Int)
  signed.bind fun z =>
    if -9223372036854775808 ≤ z ∧ z ≤ 9223372036854775807 then some (Int64.ofInt z) else none

/-- mirrors crates/st-syntax/src/lower.rs:1291-1306 -/
def integerValue (text : List Char) : Int64 :=
  match text.filter (· ≠ '_') with
  | '1' :: '6' :: '#' :: hex => (parseRadix 16 hex).getD 0
  | '8' :: '#' :: oct => (parseRadix 8 oct).getD 0
  | '2' :: '#' :: bin => (parseRadix 2 bin).getD 0
  | cs => (parseI64 cs).getD 0

def lowerIntegerLiteral (n : Node) : LiteralKind := .integer (integerValue n.chars)

/-- mirrors crates/st-syntax/src/lower.rs:1308-1315 -/
def lowerRealLiteral [F64Ops] (n : Node) : LiteralKind :=
  .real ((F64Ops.parse (String.ofList (n.chars.filter (· ≠ '_')))).getD F64.zero).bits

/-- mirrors crates/st-syntax/src/lower.rs:1317-1329 -/
def lowerStringLiteral (n : Node) : LiteralKind :=
  .string (if 2 ≤ n.chars.length then String.ofList (n.chars.drop 1).dropLast else n.text)

/-- mirrors crates/st-syntax/src/lower.rs:1331-1337 -/
def lowerBooleanLiteral (n : Node) : LiteralKind := .bool (toUppercase n.text == "TRUE")

/-- mirrors crates/st-syntax/src/lower.rs:1339-1352 -/
def lowerTypedLiteral (n : Node) : LiteralKind :=
  .typed (((n.childByFieldName .type).map fun c => parseElementaryType c.text).getD .int)
    (((n.childByFieldName .value).map Node.text).getD "")

/-! ## Operators and access paths -/

/-- mirrors crates/st-syntax/src/lower.rs:1111-1114 -/
def unaryOp (text : String) : UnaryOp :=
  match toUppercase text with
  | "NOT" => .not
  | _ => .neg

/-- mirrors crates/st-syntax/src/lower.rs:1131-1148 -/
def binaryOp (text : String) : BinaryOp :=
  match toUppercase text with
  | "+" => .add
  | "-" => .sub
  | "*" => .mul
  | "/" => .div
  | "MOD" => .mod
  | "**" => .power
  | "AND" | "&" => .and
  | "OR" => .or
  | "XOR" => .xor
  | "=" => .eq
  | "<>" => .ne
  | "<" => .lt
  | ">" => .gt
  | "<=" => .le
  | ">=" => .ge
  | _ => .add

/-- The text of the operator. -/
def opText (n : Node) : String := ((n.childByFieldName .op).map Node.text).getD ""

/-- The letter of a partial access. -/
def partialKind (c : Char) : Option PartialAccessKind :=
  match c.toUpper with
  | 'X' => some .bit
  | 'B' => some .byte
  | 'W' => some .word
  | 'D' => some .dword
  | 'L' => some .lword
  | _ => none

/-- `str::parse::<u32>` -/
def parseU32 (cs : List Char) : Option UInt32 :=
  (parseU64 cs).bind fun v => if v.toNat < 2 ^ 32 then some (UInt32.ofNat v.toNat) else none

/-- `text.strip_prefix(".%").or_else(|| text.strip_prefix("."))` -/
def stripPartial : List Char → Option (List Char)
  | '.' :: '%' :: s => some s
  | '.' :: s => some s
  | _ => none

/-- mirrors crates/st-syntax/src/lower.rs:1227-1245 -/
def parsePartialAccess (text : List Char) : Option AccessPart :=
  match stripPartial text with
  | some (c :: index) =>
    (parseU32 index).bind fun i => (partialKind c).map fun kind => .partialAccess kind i
  | _ => none

/-- The first walk over the children of an access (lower.rs:1166-1184): no
index is read. -/
def plainParts (cs : List Node) : List AccessPart :=
  cs.filterMap fun c =>
    if c.kind = .identifier then some (.identifier (lowerIdentifier c))
    else if c.kind = .partialAccess then parsePartialAccess c.chars
    else if c.text = "^" then some .deref
    else none

/-- A part found by the second walk: the indices are still to be lowered. -/
inductive RawPart (α : Type) where
  | part (p : AccessPart)
  | index (group : List α)

/-- The second walk (lower.rs:1190-1217), made when the text has a bracket;
with the nodes of the open bracket. -/
def scanParts {α : Type} (node : α → Node) : Option (List α) → List α → List (RawPart α)
  | none, [] => []
  | some group, [] => [.index group]
  | none, c :: cs =>
    if (node c).kind = .identifier then
      .part (.identifier (lowerIdentifier (node c))) :: scanParts node none cs
    else if (node c).text = "[" then scanParts node (some []) cs
    else if (node c).kind = .partialAccess then
      match parsePartialAccess (node c).chars with
      | some p => .part p :: scanParts node none cs
      | none => scanParts node none cs
    else scanParts node none cs
  | some group, c :: cs =>
    if (node c).text = "]" then .index group :: scanParts node none cs
    else if (node c).named && (node c).text ≠ "," then scanParts node (some (group ++ [c])) cs
    else scanParts node (some group) cs

/-- The part with its indices lowered by `g`. -/
def RawPart.lower {α : Type} (g : α → Expression) : RawPart α → AccessPart
  | .part p => p
  | .index group => .index (group.map g)

theorem scanParts_map {α : Type} (node : α → Node) (g : Node → Expression) (m : Option (List α))
    (cs : List α) : (scanParts node m cs).map (RawPart.lower fun c => g (node c)) =
      (scanParts id (m.map (·.map node)) (cs.map node)).map (RawPart.lower g) := by
  induction cs generalizing m with
  | nil => cases m <;> simp [scanParts, RawPart.lower]
  | cons c cs ih =>
    cases m with
    | none =>
      simp only [scanParts, List.map_cons, Option.map_none, id_eq]
      split
      · simpa [RawPart.lower] using ih none
      · split
        · exact ih (some [])
        · split
          · split
            · simpa [RawPart.lower] using ih none
            · exact ih none
          · exact ih none
    | some group =>
      simp only [scanParts, List.map_cons, Option.map_some, id_eq]
      split
      · simpa [RawPart.lower] using ih none
      · split
        · simpa using ih (some (group ++ [c]))
        · exact ih (some group)

/-! ## Expressions -/

/-- mirrors crates/st-syntax/src/ast.rs:477-481 -/
structure FunctionCallExpr where
  name : QualifiedName
  arguments : List Argument
  range : TextRange

section

variable [F64Ops]

mutual

/-- mirrors crates/st-syntax/src/lower.rs:1044-1104 -/
def lowerExpression (n : Node) : Expression :=
  match n.kind with
  | .integerLiteral => .literal (lowerIntegerLiteral n) n.range
  | .realLiteral => .literal (lowerRealLiteral n) n.range
  | .stringLiteral => .literal (lowerStringLiteral n) n.range
  | .booleanLiteral => .literal (lowerBooleanLiteral n) n.range
  | .timeLiteral => .literal (.time n.text) n.range
  | .dateLiteral => .literal (.date n.text) n.range
  | .todLiteral => .literal (.tod n.text) n.range
  | .dtLiteral => .literal (.dt n.text) n.range
  | .typedLiteral => .literal (lowerTypedLiteral n) n.range
  | .nullLiteral => .literal .null n.range
  | .thisExpression => .thisInstance n.range
  | .superExpression => .superInstance n.range
  | .variableAccess => let a := lowerVariableAccess n; .var a.parts a.range
  | .functionCall => let c := lowerFunctionCall n; .functionCall c.name c.arguments c.range
  | .parenthesizedExpression =>
    .parenthesized ((n.onNamedChild 0 fun c _ => lowerExpression c).getD (dummyExpression n))
  | .unaryExpression => lowerUnaryExpression n
  | .orExpression | .andExpression | .comparisonExpression | .additiveExpression
  | .multiplicativeExpression | .powerExpression => lowerBinaryExpression n
  | .error => dummyExpression n
  | _ => (n.onNamedChild 0 fun c _ => lowerExpression c).getD (dummyExpression n)
termination_by (sizeOf n, 1)

/-- mirrors crates/st-syntax/src/lower.rs:1106-1124 -/
def lowerUnaryExpression (n : Node) : Expression :=
  .unary (unaryOp (opText n))
    ((n.onField .operand fun c _ => lowerExpression c).getD (dummyExpression n)) n.range
termination_by (sizeOf n, 0)

/-- mirrors crates/st-syntax/src/lower.rs:1126-1163 -/
def lowerBinaryExpression (n : Node) : Expression :=
  .binary (binaryOp (opText n))
    ((n.onField .left fun c _ => lowerExpression c).getD (dummyExpression n))
    ((n.onField .right fun c _ => lowerExpression c).getD (dummyExpression n)) n.range
termination_by (sizeOf n, 0)

/-- mirrors crates/st-syntax/src/lower.rs:1165-1224 -/
def lowerVariableAccess (n : Node) : VariableAccess :=
  if n.chars.contains '[' then
    ⟨(scanParts (fun c => c.1) none n.smaller).map (RawPart.lower fun c => lowerExpression c.1),
      n.range⟩
  else ⟨plainParts n.children, n.range⟩
termination_by (sizeOf n, 0)
decreasing_by exact .left _ _ c.2

/-- mirrors crates/st-syntax/src/lower.rs:1247-1264 -/
def lowerFunctionCall (n : Node) : FunctionCallExpr :=
  ⟨((n.childByFieldName .name).map lowerQualifiedName).getD ⟨[dummyIdentifier n], n.range⟩,
    (n.onField .arguments fun c _ => lowerArgumentList c).getD [], n.range⟩
termination_by (sizeOf n, 0)

/-- mirrors crates/st-syntax/src/lower.rs:1266-1285 -/
def lowerArgumentList (n : Node) : List Argument := n.onNamed fun c _ => lowerArgument c
termination_by (sizeOf n, 3)

/-- One argument: a node of any other kind is a positional one. -/
def lowerArgument (n : Node) : Argument :=
  if n.kind = .namedArgument then
    .named (fieldIdentifier n .name)
      ((n.onField .value fun c _ => lowerExpression c).getD (dummyExpression n))
  else .positional (lowerExpression n)
termination_by (sizeOf n, 2)

end

/-- An expression in a field, or the integer 0. -/
def fieldExpression (n : Node) (f : Field) : Expression :=
  ((n.childByFieldName f).map lowerExpression).getD (dummyExpression n)

/-! ## Data types -/

/-- mirrors crates/st-syntax/src/lower.rs:772-792 -/
def lowerArrayRange (n : Node) : Expression × Expression :=
  (fieldExpression n .lower, fieldExpression n .upper)

/-- mirrors crates/st-syntax/src/lower.rs:794-805 -/
def lowerStringType (n : Node) : DataType :=
  .string ("WSTRING".toList.isPrefixOf (n.chars.map Char.toUpper))
    ((n.childByFieldName .length).map lowerExpression)

mutual

/-- mirrors crates/st-syntax/src/lower.rs:702-730 -/
def lowerDataType (n : Node) : DataType :=
  match n.kind with
  | .arrayType => lowerArrayType n
  | .stringType => lowerStringType n
  | .refType => .ref ((n.onField .targetType fun c _ => lowerDataType c).getD (.elementary .int))
  | .qualifiedName => .userDefined (lowerQualifiedName n)
  | _ =>
    match tryParseElementaryType n.text with
    | some e => .elementary e
    | none =>
      if n.kind = .identifier then .userDefined ⟨[lowerIdentifier n], n.range⟩
      else lowerDataTypeFromChildren n
termination_by (sizeOf n, 1)

/-- mirrors crates/st-syntax/src/lower.rs:732-751 -/
def lowerDataTypeFromChildren (n : Node) : DataType :=
  ((n.onNamed fun c _ =>
    match c.kind with
    | .arrayType => some (lowerArrayType c)
    | .stringType => some (lowerStringType c)
    | .qualifiedName => some (.userDefined (lowerQualifiedName c))
    | _ => (tryParseElementaryType c.text).map .elementary).findSome? id).getD
      (.elementary (parseElementaryType n.text))
termination_by (sizeOf n, 0)

/-- mirrors crates/st-syntax/src/lower.rs:753-770 -/
def lowerArrayType (n : Node) : DataType :=
  .array ((n.childrenOfKind .arrayRange).map lowerArrayRange)
    ((n.onField .elementType fun c _ => lowerDataType c).getD (.elementary .int))
termination_by (sizeOf n, 0)

end

/-! ## Statements -/

/-- mirrors crates/st-syntax/src/lower.rs:867-881 -/
def lowerAssignment (n : Node) : Statement :=
  .assignment (((n.childByFieldName .target).map lowerVariableAccess).getD (dummyVariableAccess n))
    (fieldExpression n .value) n.range

/-- mirrors crates/st-syntax/src/lower.rs:973-985: the named children are
counted, whatever they are. -/
def lowerCaseSelector (n : Node) : CaseSelector :=
  match n.namedChildren with
  | c :: d :: _ => .range (lowerExpression c) (lowerExpression d)
  | [c] => .single (lowerExpression c)
  | [] => .single (dummyExpression n)

/-- The call of a call statement: its first child of that kind. -/
def lowerCallStatement (n : Node) : Option Statement :=
  (n.namedChildren.find? (·.kind == .functionCall)).map fun c =>
    let call := lowerFunctionCall c
    .functionCall call.name call.arguments call.range

mutual

/-- mirrors crates/st-syntax/src/lower.rs:811-816 -/
def fieldStatements (n : Node) (f : Field) : List Statement :=
  (n.onField f fun c _ => if c.kind = .statementList then lowerStatementList c else []).getD []
termination_by (sizeOf n, 0)

/-- mirrors crates/st-syntax/src/lower.rs:818-827 -/
def lowerStatementList (n : Node) : List Statement :=
  (n.onNamed fun c _ => lowerStatement c).filterMap id
termination_by (sizeOf n, 2)

/-- mirrors crates/st-syntax/src/lower.rs:829-865 -/
def lowerStatement (n : Node) : Option Statement :=
  match n.kind with
  | .assignmentStatement => some (lowerAssignment n)
  | .functionCallStatement => lowerCallStatement n
  | .ifStatement => some (lowerIfStmt n)
  | .caseStatement => some (lowerCaseStmt n)
  | .forStatement => some (lowerForStmt n)
  | .whileStatement => some (lowerWhileStmt n)
  | .repeatStatement => some (lowerRepeatStmt n)
  | .returnStatement => some (.returnStmt n.range)
  | .exitStatement => some (.exit n.range)
  | .emptyStatement => some (.empty n.range)
  | _ => none
termination_by (sizeOf n, 2)

/-- mirrors crates/st-syntax/src/lower.rs:883-911 -/
def lowerIfStmt (n : Node) : Statement :=
  .ifStmt (fieldExpression n .condition) (fieldStatements n .consequence)
    (n.onKind .elsifClause fun c _ => lowerElsifClause c)
    (n.onKind .elseClause fun c _ => lowerElseBody c).getLast? n.range
termination_by (sizeOf n, 1)

/-- mirrors crates/st-syntax/src/lower.rs:913-924 -/
def lowerElsifClause (n : Node) : ElsifClause :=
  .mk (fieldExpression n .condition) (fieldStatements n .body)
termination_by (sizeOf n, 1)

/-- mirrors crates/st-syntax/src/lower.rs:926-928 -/
def lowerElseBody (n : Node) : List Statement := fieldStatements n .body
termination_by (sizeOf n, 1)

/-- mirrors crates/st-syntax/src/lower.rs:930-952 -/
def lowerCaseStmt (n : Node) : Statement :=
  .caseStmt (fieldExpression n .expression) (n.onKind .caseBranch fun c _ => lowerCaseBranch c)
    (n.onKind .elseClause fun c _ => lowerElseBody c).getLast? n.range
termination_by (sizeOf n, 1)

/-- mirrors crates/st-syntax/src/lower.rs:954-971 -/
def lowerCaseBranch (n : Node) : CaseBranch :=
  .mk ((n.childrenOfKind .caseSelector).map lowerCaseSelector)
    ((n.onKind .statementList fun c _ => lowerStatementList c).getLast?.getD [])
termination_by (sizeOf n, 1)

/-- mirrors crates/st-syntax/src/lower.rs:987-1012 -/
def lowerForStmt (n : Node) : Statement :=
  .forStmt (((n.childByFieldName .variable).map lowerIdentifier).getD (dummyIdentifier n))
    (fieldExpression n .from) (fieldExpression n .to)
    ((n.childByFieldName .step).map lowerExpression) (fieldStatements n .body) n.range
termination_by (sizeOf n, 1)

/-- mirrors crates/st-syntax/src/lower.rs:1014-1025 -/
def lowerWhileStmt (n : Node) : Statement :=
  .whileStmt (fieldExpression n .condition) (fieldStatements n .body) n.range
termination_by (sizeOf n, 1)

/-- mirrors crates/st-syntax/src/lower.rs:1027-1038 -/
def lowerRepeatStmt (n : Node) : Statement :=
  .repeatStmt (fieldStatements n .body) (fieldExpression n .condition) n.range
termination_by (sizeOf n, 1)

end

/-! ## Variable blocks -/

/-- A type in a field, or `INT`. -/
def fieldDataType (n : Node) (f : Field) : DataType :=
  ((n.childByFieldName f).map lowerDataType).getD (.elementary .int)

/-- mirrors crates/st-syntax/src/lower.rs:659-696. `field_name_for_child` is
asked for the child whose number is the address of a node, and knows none: the
names are those of the second walk. -/
def lowerVarDeclaration (n : Node) : VarDeclaration where
  names := (n.namedChildren.filter (·.kind == .identifier)).map lowerIdentifier
  ty := fieldDataType n .type
  initialValue := (n.childByFieldName .initialValue).map lowerExpression

/-- The qualifiers of a block. -/
def lowerQualifiers (n : Node) : List VarQualifier :=
  (n.childrenOfKind .varQualifier).filterMap fun c => parseVarQualifier c.text

/-- mirrors crates/st-syntax/src/lower.rs:605-632 -/
def lowerVarBlock (n : Node) : VarBlock where
  kind := ((n.childrenOfKind .varKeyword).getLast?.map fun c => parseVarKind c.text).getD .var
  qualifiers := lowerQualifiers n
  declarations := (n.childrenOfKind .variableDeclaration).map lowerVarDeclaration

/-- mirrors crates/st-syntax/src/lower.rs:634-657 -/
def lowerGlobalVarBlock (n : Node) : VarBlock where
  kind := .varGlobal
  qualifiers := lowerQualifiers n
  declarations := (n.childrenOfKind .variableDeclaration).map lowerVarDeclaration

/-- mirrors crates/st-syntax/src/lower.rs:594-603 -/
def collectVarBlocks (n : Node) : List VarBlock := (n.childrenOfKind .varBlock).map lowerVarBlock

/-! ## Type declarations -/

/-- mirrors crates/st-syntax/src/lower.rs:516-531 -/
def lowerStructField (n : Node) : StructField where
  name := (fieldIdentifier n .name).name
  ty := fieldDataType n .type
  default := (n.childByFieldName .default).map lowerExpression

/-- mirrors crates/st-syntax/src/lower.rs:547-561: a value that is no literal
is dropped. -/
def lowerEnumValue (n : Node) : EnumValue where
  name := (fieldIdentifier n .name).name
  value := (n.childByFieldName .value).bind fun c =>
    match lowerExpression c with
    | .literal kind _ => some kind
    | _ => none

/-- mirrors crates/st-syntax/src/lower.rs:563-588 -/
def lowerSubrangeType (n : Node) : TypeDefKind :=
  .subrange (((n.childByFieldName .baseType).map fun c => parseElementaryType c.text).getD .int)
    (fieldExpression n .lower) (fieldExpression n .upper)

/-- mirrors crates/st-syntax/src/lower.rs:480-500 (with 502-514 and 533-545) -/
def lowerTypeDefKind (n : Node) : TypeDefKind :=
  match n.kind with
  | .structType => .struct ((n.childrenOfKind .structField).map lowerStructField)
  | .enumType => .enum ((n.childrenOfKind .enumValue).map lowerEnumValue)
  | .subrangeType => lowerSubrangeType n
  | _ => .alias (lowerDataType n)

def lowerTypeDefinition (n : Node) : TypeDefinition where
  name := fieldIdentifier n .name
  ty := ((n.childByFieldName .type).map lowerTypeDefKind).getD (.alias (.elementary .int))

/-! ## Program organisation units -/

/-- mirrors crates/st-syntax/src/lower.rs:255-265 -/
def lowerProgram (n : Node) : ProgramDecl :=
  ⟨fieldIdentifier n .name, collectVarBlocks n, fieldStatements n .body⟩

/-- mirrors crates/st-syntax/src/lower.rs:267-282 -/
def lowerFunction (n : Node) : FunctionDecl :=
  ⟨fieldIdentifier n .name, fieldDataType n .returnType, collectVarBlocks n,
    fieldStatements n .body⟩

/-- mirrors crates/st-syntax/src/lower.rs:284-294 -/
def lowerFunctionBlock (n : Node) : FunctionBlockDecl :=
  ⟨fieldIdentifier n .name, collectVarBlocks n, fieldStatements n .body⟩

/-- The access specifier of a method or property. -/
def fieldAccess (n : Node) : AccessSpecifier :=
  ((n.childByFieldName .access).map fun c => parseAccessSpecifier c.text).getD .pub

/-- mirrors crates/st-syntax/src/lower.rs:343-369 -/
def lowerMethod (n : Node) : MethodDecl where
  access := fieldAccess n
  name := fieldIdentifier n .name
  returnType := (n.childByFieldName .returnType).map lowerDataType
  varBlocks := collectVarBlocks n
  body := fieldStatements n .body
  isAbstract := (n.childByFieldName .abstract).isSome
  isFinal := (n.childByFieldName .final).isSome
  isOverride := (n.childByFieldName .override).isSome

/-- mirrors crates/st-syntax/src/lower.rs:442-450 -/
def lowerPropertyAccessor (n : Node) : PropertyAccessor :=
  ⟨collectVarBlocks n, fieldStatements n .body⟩

/-- mirrors crates/st-syntax/src/lower.rs:414-440 -/
def lowerProperty (n : Node) : PropertyDecl where
  access := fieldAccess n
  name := fieldIdentifier n .name
  ty := fieldDataType n .type
  getBody := (n.childByFieldName .get).map lowerPropertyAccessor
  setBody := (n.childByFieldName .set).map lowerPropertyAccessor

/-- The names in a field that may hold several. -/
def fieldNames (n : Node) (f : Field) : List String :=
  ((n.childrenByFieldName f).filter (·.kind == .identifier)).map Node.text

/-- mirrors crates/st-syntax/src/lower.rs:300-341 -/
def lowerClass (n : Node) : ClassDecl where
  name := fieldIdentifier n .name
  baseClass := (n.childByFieldName .base).map Node.text
  interfaces := fieldNames n .interfaces
  isAbstract := (n.childByFieldName .abstract).isSome
  isFinal := (n.childByFieldName .final).isSome
  varBlocks := collectVarBlocks n
  methods := (n.childrenOfKind .methodDeclaration).map lowerMethod
  properties := (n.childrenOfKind .propertyDeclaration).map lowerProperty

/-- mirrors crates/st-syntax/src/lower.rs:399-412 -/
def lowerMethodPrototype (n : Node) : MethodPrototype where
  name := (fieldIdentifier n .name).name
  returnType := (n.childByFieldName .returnType).map lowerDataType
  varBlocks := collectVarBlocks n

/-- mirrors crates/st-syntax/src/lower.rs:371-397 -/
def lowerInterface (n : Node) : InterfaceDecl where
  name := fieldIdentifier n .name
  baseInterfaces := fieldNames n .base
  methods := (n.childrenOfKind .methodPrototype).map lowerMethodPrototype

/-- One item of a source file. -/
def lowerItem (n : Node) : Option TopLevelItem :=
  match n.kind with
  | .programDeclaration => some (.program (lowerProgram n))
  | .functionDeclaration => some (.function (lowerFunction n))
  | .functionBlockDeclaration => some (.functionBlock (lowerFunctionBlock n))
  | .typeDeclaration =>
    some (.typeDeclaration ((n.childrenOfKind .typeDefinition).map lowerTypeDefinition))
  | .classDeclaration => some (.classDecl (lowerClass n))
  | .interfaceDeclaration => some (.interface (lowerInterface n))
  | .globalVarDeclaration => some (.globalVarDeclaration (lowerGlobalVarBlock n))
  | _ => none

/-- mirrors crates/st-syntax/src/lower.rs:203-249 -/
def lowerSourceFile (n : Node) : SourceFile := ⟨n.children.filterMap lowerItem⟩

end

end RustPlc.Syntax
