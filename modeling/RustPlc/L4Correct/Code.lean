import RustPlc.L2Compiler.StatementEmitted
import RustPlc.L4Correct.Semantics

/-!
# Where the code of a tree lies

`CodeExpr`, `CodeStatement` and their siblings say, by recursion over the
tree, that the instructions of a finished function from one position to
another are the code of that tree: which instruction stands where, which
register holds what, and where the labels of its jumps point to. They
mention the finished function only, not the compiler.
-/
namespace RustPlc.Correct

open RustPlc.Ir RustPlc.Syntax RustPlc.Compiler RustPlc.Engine RustPlc.Semantics

/-! ## The relation -/

/-- Instruction `i` stands at position `pc`. -/
def At (F : Function) (pc : Nat) (i : Instruction) : Prop := F.instructions[pc]? = some i

/-- Label `l` is placed at position `pc`. -/
def LabelAt (F : Function) (l : Label) (pc : Nat) : Prop := F.labelPositions[l.toNat]? = some pc

/-- The instruction that loads a variable. -/
def loadInstruction (Γ : Scope) (x : String) (dst : Reg) : Instruction :=
  match Γ.place x with
  | .local slot => .loadLocal dst slot
  | .global slot => .loadGlobal dst slot
  | .unknown => .loadConst dst (.int 0)

/-- The store of a variable: nothing for an unknown name. -/
def CodeStore (F : Function) (Γ : Scope) (x : String) (src : Reg) (pc pc' : Nat) : Prop :=
  match Γ.place x with
  | .local slot => At F pc (.storeLocal slot src) ∧ pc' = pc + 1
  | .global slot => At F pc (.storeGlobal slot src) ∧ pc' = pc + 1
  | .unknown => pc' = pc

section

variable [F64Ops]

/-- The code of an expression from `pc` to `pc'`: it uses the registers from
`n` up to `n'`, and leaves the value in `r`. -/
def CodeExpr (F : Function) (Γ : Scope) : Expression → Nat → Nat → Reg → Nat → Nat → Prop
  | .literal kind _, n, pc, r, n', pc' =>
    ∃ v, literalToValue kind = .ok v ∧ At F pc (.loadConst r v) ∧ r.toNat = n ∧ n' = n + 1 ∧
      pc' = pc + 1
  | .var parts _, n, pc, r, n', pc' => match parts with
    | [.identifier x] =>
      At F pc (loadInstruction Γ x.name r) ∧ r.toNat = n ∧ n' = n + 1 ∧ pc' = pc + 1
    | _ => False
  | .parenthesized e, n, pc, r, n', pc' => CodeExpr F Γ e n pc r n' pc'
  | .unary op e _, n, pc, r, n', pc' =>
    ∃ src m p, CodeExpr F Γ e n pc src m p ∧ At F p (unaryInstruction op r src) ∧ r.toNat = m ∧
      n' = m + 1 ∧ pc' = p + 1
  | .binary op a b _, n, pc, r, n', pc' =>
    ∃ ra rb m k p q, CodeExpr F Γ a n pc ra m p ∧ CodeExpr F Γ b m p rb k q ∧
      At F q (binaryInstruction op r ra rb) ∧ r.toNat = k ∧ n' = k + 1 ∧ pc' = q + 1
  | _, _, _, _, _, _ => False

/-- The test of a `CASE` selector: a jump to `body` when it takes the value
in `v`. -/
def CodeSelector (F : Function) (Γ : Scope) (v : Reg) (body : Label) :
    CaseSelector → Nat → Nat → Prop
  | .single e, pc, pc' =>
    ∃ n r m p c, v.toNat < n ∧ CodeExpr F Γ e n pc r m p ∧ c.toNat = m ∧ At F p (.cmpEq c v r) ∧
      At F (p + 1) (.jumpIf c body) ∧ pc' = p + 2
  | .range lo hi, pc, pc' =>
    ∃ n r m p r' m' q c c' b, v.toNat < n ∧ CodeExpr F Γ lo n pc r m p ∧
      CodeExpr F Γ hi m p r' m' q ∧ c.toNat = m' ∧ c'.toNat = m' + 1 ∧ b.toNat = m' + 2 ∧
      At F q (.cmpGe c v r) ∧ At F (q + 1) (.cmpLe c' v r') ∧ At F (q + 2) (.and b c c') ∧
      At F (q + 3) (.jumpIf b body) ∧ pc' = q + 4

def CodeSelectors (F : Function) (Γ : Scope) (v : Reg) (body : Label) :
    List CaseSelector → Nat → Nat → Prop
  | [], pc, pc' => pc' = pc
  | sel :: sels, pc, pc' =>
    ∃ p, CodeSelector F Γ v body sel pc p ∧ CodeSelectors F Γ v body sels p pc'

mutual

/-- The code of a statement from `pc` to `pc'`; `exit` is the label an `EXIT`
jumps to. -/
def CodeStatement (F : Function) (Γ : Scope) : Statement → Option Label → Nat → Nat → Prop
  | .assignment target value _, _, pc, pc' => match target.parts with
    | [.identifier x] =>
      ∃ n r m p, CodeExpr F Γ value n pc r m p ∧ CodeStore F Γ x.name r p pc'
    | _ => False
  | .ifStmt condition thenBody elsifs elseBody _, exit, pc, pc' =>
    ∃ n r m p elseL endL q q', CodeExpr F Γ condition n pc r m p ∧
      At F p (.jumpIfNot r elseL) ∧ CodeStatements F Γ thenBody exit (p + 1) q ∧
      At F q (.jump endL) ∧ LabelAt F elseL (q + 1) ∧
      CodeElsifs F Γ elsifs exit endL (q + 1) q' ∧ CodeElse F Γ elseBody exit q' pc' ∧
      LabelAt F endL pc'
  | .caseStmt expression branches elseBody _, exit, pc, pc' =>
    ∃ n r m p endL q, CodeExpr F Γ expression n pc r m p ∧
      CodeBranches F Γ branches exit endL r p q ∧ CodeElse F Γ elseBody exit q pc' ∧
      LabelAt F endL pc'
  | .whileStmt condition body _, _, pc, pc' =>
    ∃ n r m p loopL exitL q, LabelAt F loopL pc ∧ CodeExpr F Γ condition n pc r m p ∧
      At F p (.jumpIfNot r exitL) ∧ CodeStatements F Γ body (some exitL) (p + 1) q ∧
      At F q (.jump loopL) ∧ pc' = q + 1 ∧ LabelAt F exitL pc'
  | .repeatStmt body condition _, _, pc, pc' =>
    ∃ n r m p loopL exitL q, LabelAt F loopL pc ∧
      CodeStatements F Γ body (some exitL) pc q ∧ CodeExpr F Γ condition n q r m p ∧
      At F p (.jumpIfNot r loopL) ∧ pc' = p + 1 ∧ LabelAt F exitL pc'
  | .exit _, exit, pc, pc' => match exit with
    | some l => At F pc (.jump l) ∧ pc' = pc + 1
    | none => pc' = pc
  | .empty _, _, pc, pc' => pc' = pc
  | _, _, _, _ => False

def CodeStatements (F : Function) (Γ : Scope) : List Statement → Option Label → Nat → Nat → Prop
  | [], _, pc, pc' => pc' = pc
  | st :: sts, exit, pc, pc' =>
    ∃ p, CodeStatement F Γ st exit pc p ∧ CodeStatements F Γ sts exit p pc'

def CodeElse (F : Function) (Γ : Scope) :
    Option (List Statement) → Option Label → Nat → Nat → Prop
  | none, _, pc, pc' => pc' = pc
  | some body, exit, pc, pc' => CodeStatements F Γ body exit pc pc'

def CodeElsifs (F : Function) (Γ : Scope) :
    List ElsifClause → Option Label → Label → Nat → Nat → Prop
  | [], _, _, pc, pc' => pc' = pc
  | .mk condition body :: clauses, exit, endL, pc, pc' =>
    ∃ n r m p nextL q, CodeExpr F Γ condition n pc r m p ∧ At F p (.jumpIfNot r nextL) ∧
      CodeStatements F Γ body exit (p + 1) q ∧ At F q (.jump endL) ∧ LabelAt F nextL (q + 1) ∧
      CodeElsifs F Γ clauses exit endL (q + 1) pc'

def CodeBranches (F : Function) (Γ : Scope) :
    List CaseBranch → Option Label → Label → Reg → Nat → Nat → Prop
  | [], _, _, _, pc, pc' => pc' = pc
  | .mk selectors body :: branches, exit, endL, v, pc, pc' =>
    ∃ p bodyL nextL q, CodeSelectors F Γ v bodyL selectors pc p ∧ At F p (.jump nextL) ∧
      LabelAt F bodyL (p + 1) ∧ CodeStatements F Γ body exit (p + 1) q ∧ At F q (.jump endL) ∧
      LabelAt F nextL (q + 1) ∧ CodeBranches F Γ branches exit endL v (q + 1) pc'

end

/-- The result of an expression is in a register of its own. -/
theorem CodeExpr.regs {F : Function} {Γ : Scope} : ∀ (e : Expression) {n pc n' pc' : Nat} {r : Reg},
    CodeExpr F Γ e n pc r n' pc' → n ≤ r.toNat ∧ r.toNat < n'
  | .literal kind range, n, pc, n', pc', r, h => by
    obtain ⟨v, -, -, hr, hn, -⟩ := h
    omega
  | .var [.identifier x] range, n, pc, n', pc', r, h => by
    obtain ⟨-, hr, hn, -⟩ := h
    omega
  | .parenthesized e, n, pc, n', pc', r, h => CodeExpr.regs e h
  | .unary op e range, n, pc, n', pc', r, h => by
    obtain ⟨src, m, p, hc, -, hr, hn, -⟩ := h
    have := CodeExpr.regs e hc
    omega
  | .binary op a b range, n, pc, n', pc', r, h => by
    obtain ⟨ra, rb, m, k, p, q, ha, hb, -, hr, hn, -⟩ := h
    have h1 := CodeExpr.regs a ha
    have h2 := CodeExpr.regs b hb
    omega

end

end RustPlc.Correct
