import RustPlc.L2Compiler.Literals
import RustPlc.L3Vm.Step

/-!
# What a program means

A big-step interpreter of the syntax tree, for program bodies made of
literals, plain variables, operators, assignments, `IF`, `CASE`, `WHILE`,
`REPEAT` and `EXIT`. It knows nothing of registers, labels or jumps: a store
holds the values of the locals and the globals, an expression has a value in
a store, a statement turns a store into another and says whether an `EXIT`
is on its way to the innermost loop.

Only what a value is and what an operator does with values is shared with
the machine. A loop runs `n` times at most; `none` means that `n` was not
enough.
-/
namespace RustPlc.Semantics

open RustPlc.Ir RustPlc.Syntax RustPlc.Compiler RustPlc.Engine

/-- The values of the variables of a program and of the globals. -/
structure Store where
  locals : List Value
  globals : List Value
  deriving DecidableEq, Repr

/-- The declarations a body sees. -/
structure Scope where
  locals : MemoryLayout
  globals : MemoryLayout

/-- A name is that of a local, or else of a global. -/
inductive Place where
  | «local» (slot : UInt16)
  | «global» (slot : UInt16)
  | unknown
  deriving DecidableEq, Repr

def Scope.place (Γ : Scope) (x : String) : Place :=
  match Γ.locals.findSlot x, Γ.globals.findSlot x with
  | some (slot, _), _ => .local slot
  | none, some (slot, _) => .global slot
  | none, none => .unknown

def Scope.read (Γ : Scope) (σ : Store) (x : String) : Value :=
  match Γ.place x with
  | .local slot => σ.locals[slot.toNat]?.getD Value.dflt
  | .global slot => σ.globals[slot.toNat]?.getD Value.dflt
  | .unknown => .int 0

/-- A stored value is narrowed to the declared width. -/
def Scope.write (Γ : Scope) (σ : Store) (x : String) (v : Value) : Store :=
  match Γ.place x with
  | .local slot =>
    { σ with locals := σ.locals.set slot.toNat (narrowValue v (slotWidth Γ.locals slot)) }
  | .global slot =>
    { σ with globals := σ.globals.set slot.toNat (narrowValue v (slotWidth Γ.globals slot)) }
  | .unknown => σ

/-- As many values as declarations. -/
def Store.Fits (σ : Store) (Γ : Scope) : Prop :=
  σ.locals.length = Γ.locals.slots.length ∧ σ.globals.length = Γ.globals.slots.length

theorem Scope.write_fits {Γ : Scope} {σ : Store} (h : σ.Fits Γ) (x : String) (v : Value) :
    (Γ.write σ x v).Fits Γ := by
  unfold Scope.write
  cases Γ.place x with
  | «local» slot => exact ⟨by simpa using h.1, h.2⟩
  | «global» slot => exact ⟨h.1, by simpa using h.2⟩
  | unknown => exact h

section

variable [F64Ops]

/-! ## Expressions -/

def unaryValue : UnaryOp → Value → Except Trap Value
  | .neg, v => liftPanic (negValue v)
  | .not, v => .ok (notValue v)

def binaryValue : BinaryOp → Value → Value → Except Trap Value
  | .add, l, r => liftPanic (addValues l r)
  | .sub, l, r => liftPanic (subValues l r)
  | .mul, l, r => liftPanic (mulValues l r)
  | .div, l, r =>
    if isIntZero r then .error (.error .divisionByZero) else liftPanic (divValues l r)
  | .mod, l, r =>
    if r.asInt = 0 then .error (.error .divisionByZero) else liftPanic (remValues l r)
  | .power, l, r => .ok (powValues l r)
  | .and, l, r => .ok (andValues l r)
  | .or, l, r => .ok (orValues l r)
  | .xor, l, r => .ok (xorValues l r)
  | .eq, l, r => .ok (eqValues l r)
  | .ne, l, r => .ok (neValues l r)
  | .lt, l, r => .ok (ltValues l r)
  | .gt, l, r => .ok (gtValues l r)
  | .le, l, r => .ok (leValues l r)
  | .ge, l, r => .ok (geValues l r)

/-- The value of an expression. -/
def evalExpr (Γ : Scope) (σ : Store) : Expression → Except Trap Value
  | .literal kind _ => liftPanic (literalToValue kind)
  | .var parts _ => match parts with
    | [.identifier x] => .ok (Γ.read σ x.name)
    | _ => .ok (.int 0)
  | .parenthesized e => evalExpr Γ σ e
  | .unary op e _ => do
    let v ← evalExpr Γ σ e
    unaryValue op v
  | .binary op l r _ => do
    let lv ← evalExpr Γ σ l
    let rv ← evalExpr Γ σ r
    binaryValue op lv rv
  | _ => .ok (.int 0)

/-- Whether a selector of a `CASE` takes the value. -/
def selects (Γ : Scope) (σ : Store) (v : Value) : CaseSelector → Except Trap Bool
  | .single e => do
    let w ← evalExpr Γ σ e
    return (eqValues v w).asBool
  | .range lo hi => do
    let l ← evalExpr Γ σ lo
    let h ← evalExpr Γ σ hi
    return (andValues (geValues v l) (leValues v h)).asBool

/-- Whether one of the selectors takes the value; those after it are not
looked at. -/
def selectsAny (Γ : Scope) (σ : Store) (v : Value) : List CaseSelector → Except Trap Bool
  | [] => .ok false
  | sel :: sels => do
    let b ← selects Γ σ v sel
    if b then .ok true else selectsAny Γ σ v sels

/-! ## Statements -/

/-- How a statement is left. -/
inductive Flow where
  | normal
  | exit
  deriving DecidableEq, Repr

/-- `none` when the loops were not run often enough. -/
abbrev Result := Option (Except Trap (Flow × Store))

/-- Go on after an expression. -/
def check {α : Type} (x : Except Trap α) (k : α → Result) : Result :=
  match x with
  | .ok a => k a
  | .error t => some (.error t)

/-- Go on after a statement that was not left by an `EXIT`. -/
def Result.andThen (r : Result) (k : Store → Result) : Result :=
  match r with
  | some (.ok (.normal, σ)) => k σ
  | r => r

/-- `WHILE`: an `EXIT` of the body ends this loop. -/
def whileLoop (cond : Store → Except Trap Value) (body : Store → Result) : Nat → Store → Result
  | 0, _ => none
  | k + 1, σ => check (cond σ) fun v =>
    if v.asBool then match body σ with
      | some (.ok (.normal, σ')) => whileLoop cond body k σ'
      | some (.ok (.exit, σ')) => some (.ok (.normal, σ'))
      | r => r
    else some (.ok (.normal, σ))

/-- `REPEAT`: the body runs once before the condition is looked at. -/
def repeatLoop (cond : Store → Except Trap Value) (body : Store → Result) : Nat → Store → Result
  | 0, _ => none
  | k + 1, σ => match body σ with
    | some (.ok (.normal, σ')) => check (cond σ') fun v =>
      if v.asBool then some (.ok (.normal, σ')) else repeatLoop cond body k σ'
    | some (.ok (.exit, σ')) => some (.ok (.normal, σ'))
    | r => r

mutual

/-- One statement; the flag says whether a loop encloses it. An `EXIT`
outside any loop does nothing. -/
def execStatement (Γ : Scope) (n : Nat) : Statement → Bool → Store → Result
  | .assignment target value _, _, σ => match target.parts with
    | [.identifier x] =>
      check (evalExpr Γ σ value) fun v => some (.ok (.normal, Γ.write σ x.name v))
    | _ => some (.ok (.normal, σ))
  | .ifStmt condition thenBody elsifs elseBody _, inLoop, σ =>
    check (evalExpr Γ σ condition) fun v =>
      if v.asBool then execStatements Γ n thenBody inLoop σ
      else execElsifs Γ n elsifs inLoop (execElse Γ n elseBody inLoop) σ
  | .caseStmt expression branches elseBody _, inLoop, σ =>
    check (evalExpr Γ σ expression) fun v =>
      execBranches Γ n branches inLoop v (execElse Γ n elseBody inLoop) σ
  | .whileStmt condition body _, _, σ =>
    whileLoop (evalExpr Γ · condition) (execStatements Γ n body true) n σ
  | .repeatStmt body condition _, _, σ =>
    repeatLoop (evalExpr Γ · condition) (execStatements Γ n body true) n σ
  | .exit _, inLoop, σ => some (.ok (if inLoop then .exit else .normal, σ))
  | _, _, σ => some (.ok (.normal, σ))

def execStatements (Γ : Scope) (n : Nat) : List Statement → Bool → Store → Result
  | [], _, σ => some (.ok (.normal, σ))
  | st :: sts, inLoop, σ =>
    (execStatement Γ n st inLoop σ).andThen (execStatements Γ n sts inLoop)

def execElse (Γ : Scope) (n : Nat) : Option (List Statement) → Bool → Store → Result
  | none, _, σ => some (.ok (.normal, σ))
  | some body, inLoop, σ => execStatements Γ n body inLoop σ

/-- The first clause whose condition holds, or what comes after them. -/
def execElsifs (Γ : Scope) (n : Nat) : List ElsifClause → Bool → (Store → Result) → Store → Result
  | [], _, otherwise, σ => otherwise σ
  | .mk condition body :: clauses, inLoop, otherwise, σ =>
    check (evalExpr Γ σ condition) fun v =>
      if v.asBool then execStatements Γ n body inLoop σ
      else execElsifs Γ n clauses inLoop otherwise σ

/-- The first branch with a selector that takes the value, or what comes
after them. -/
def execBranches (Γ : Scope) (n : Nat) : List CaseBranch → Bool → Value → (Store → Result) →
    Store → Result
  | [], _, _, otherwise, σ => otherwise σ
  | .mk selectors body :: branches, inLoop, v, otherwise, σ =>
    check (selectsAny Γ σ v selectors) fun b =>
      if b then execStatements Γ n body inLoop σ
      else execBranches Γ n branches inLoop v otherwise σ

end

/-- What a program body does to the variables: the final store, or the trap
that ends it. -/
def interpret (Γ : Scope) (n : Nat) (body : List Statement) (σ : Store) :
    Option (Except Trap Store) :=
  (execStatements Γ n body false σ).map (·.map (·.2))

end

/-! ## The fragment -/

def Expression.isScalar : Expression → Bool
  | .literal _ _ => true
  | .var [.identifier _] _ => true
  | .parenthesized e => Expression.isScalar e
  | .unary _ e _ => Expression.isScalar e
  | .binary _ l r _ => Expression.isScalar l && Expression.isScalar r
  | _ => false

def selectorIsScalar : CaseSelector → Bool
  | .single e => Expression.isScalar e
  | .range lo hi => Expression.isScalar lo && Expression.isScalar hi

mutual

def Statement.isScalar : Statement → Bool
  | .assignment target value _ => match target.parts with
    | [.identifier _] => Expression.isScalar value
    | _ => false
  | .ifStmt condition thenBody elsifs elseBody _ =>
    Expression.isScalar condition && statementsScalar thenBody && elsifsScalar elsifs &&
      elseIsScalar elseBody
  | .caseStmt expression branches elseBody _ =>
    Expression.isScalar expression && branchesScalar branches && elseIsScalar elseBody
  | .whileStmt condition body _ => Expression.isScalar condition && statementsScalar body
  | .repeatStmt body condition _ => statementsScalar body && Expression.isScalar condition
  | .exit _ => true
  | .empty _ => true
  | _ => false

def statementsScalar : List Statement → Bool
  | [] => true
  | st :: sts => Statement.isScalar st && statementsScalar sts

def elseIsScalar : Option (List Statement) → Bool
  | none => true
  | some body => statementsScalar body

def elsifsScalar : List ElsifClause → Bool
  | [] => true
  | .mk condition body :: clauses =>
    Expression.isScalar condition && statementsScalar body && elsifsScalar clauses

def branchesScalar : List CaseBranch → Bool
  | [] => true
  | .mk selectors body :: branches =>
    selectors.all selectorIsScalar && statementsScalar body && branchesScalar branches

end

end RustPlc.Semantics
