import RustPlc.L2Semantics.AnalyzeModule

/-!
# What the analysis of a body leaves alone

Checking an expression or a statement adds diagnostics and marks symbols as used
or assigned; the declarations, the scope and the class stay as they are
(`Quiet`). That is one of the properties that the check of a body has because
its parts have it (`Compositional`).

Results:
* `Compositional.statements`: the walk over a body;
* `checkExpression_silent`, `analyzeStatements_silent`: bodies are silent;
* `Quiet.resolve`: a name resolves to the same declaration before and after.
-/
namespace RustPlc.Analysis

open RustPlc.Ir RustPlc.Syntax

/-! ## Tables under a map of symbols -/

def SymbolMap.mapSymbols (g : Symbol → Symbol) (m : SymbolMap) : SymbolMap :=
  m.map fun e => (e.1, g e.2)

def Scope.mapSymbols (g : Symbol → Symbol) (s : Scope) : Scope :=
  { s with symbols := s.symbols.mapSymbols g }

def SymbolTable.mapSymbols (g : Symbol → Symbol) (t : SymbolTable) : SymbolTable :=
  ⟨t.scopes.map (Scope.mapSymbols g)⟩

section

variable (g : Symbol → Symbol)

theorem SymbolMap.get_map (m : SymbolMap) (key : String) :
    SymbolMap.get (m.mapSymbols g) key = (m.get key).map g := by
  induction m with
  | nil => rfl
  | cons e es ih =>
    simp only [SymbolMap.get, SymbolMap.mapSymbols, List.map_cons, List.find?_cons] at ih ⊢
    cases e.1 == key with
    | true => rfl
    | false => exact ih

theorem Scope.lookupLocal_map (s : Scope) (name : String) :
    (s.mapSymbols g).lookupLocal name = (s.lookupLocal name).map g :=
  SymbolMap.get_map g s.symbols _

theorem Scope.mapSymbols_parent (s : Scope) : (s.mapSymbols g).parent = s.parent := rfl

namespace SymbolTable

theorem lookupIn_map (t : SymbolTable) (id : Nat) (name : String) :
    (t.mapSymbols g).lookupIn id name = (t.lookupIn id name).map g := by
  simp only [lookupIn, mapSymbols, List.getElem?_map]
  cases t.scopes[id]? with
  | none => rfl
  | some s => exact Scope.lookupLocal_map g s name

theorem resolveUp_map (t : SymbolTable) (name : String) : ∀ fuel id,
    (t.mapSymbols g).resolveUp name fuel id =
      (t.resolveUp name fuel id).map fun r => (r.1, g r.2)
  | 0, id => rfl
  | fuel + 1, id => by
    have hget : (t.mapSymbols g).scopes[id]? = t.scopes[id]?.map (Scope.mapSymbols g) := by
      simp [mapSymbols, List.getElem?_map]
    unfold resolveUp
    rw [hget]
    cases t.scopes[id]? with
    | none => rfl
    | some s =>
      simp only [Option.map_some, Scope.lookupLocal_map]
      cases s.lookupLocal name with
      | some sym => rfl
      | none =>
        simp only [Option.map_none, Scope.mapSymbols_parent]
        cases s.parent with
        | none => rfl
        | some parent => exact resolveUp_map t name fuel parent

theorem resolve_map (t : SymbolTable) (id : Nat) (name : String) :
    (t.mapSymbols g).resolve id name = (t.resolve id name).map fun r => (r.1, g r.2) :=
  resolveUp_map g t name (id + 1) id

end SymbolTable

end

/-! ## Tables up to marks -/

/-- A symbol without its marks. -/
def Symbol.plain (s : Symbol) : Symbol := { s with used := false, assigned := false }

def SymbolMap.plain (m : SymbolMap) : SymbolMap := m.map fun e => (e.1, e.2.plain)

def Scope.plain (s : Scope) : Scope := { s with symbols := s.symbols.plain }

def SymbolTable.plain (t : SymbolTable) : SymbolTable := ⟨t.scopes.map Scope.plain⟩

namespace SymbolTable

variable {t t' : SymbolTable} {id : Nat} {name : String}

theorem lookupIn_plain (t : SymbolTable) (id : Nat) (name : String) :
    t.plain.lookupIn id name = (t.lookupIn id name).map Symbol.plain :=
  lookupIn_map Symbol.plain t id name

theorem resolve_plain (t : SymbolTable) (id : Nat) (name : String) :
    t.plain.resolve id name = (t.resolve id name).map fun r => (r.1, r.2.plain) :=
  resolve_map Symbol.plain t id name

/-- Equal tables up to marks give the same declarations. -/
theorem resolve_congr (h : t'.plain = t.plain) (id : Nat) (name : String) :
    (t'.resolve id name).map (fun r => (r.1, r.2.plain)) =
      (t.resolve id name).map fun r => (r.1, r.2.plain) := by
  rw [← resolve_plain, ← resolve_plain, h]

/-- Marking a symbol keeps the declarations. -/
theorem plain_modifySymbol {f : Symbol → Symbol} (hf : ∀ s, (f s).plain = s.plain)
    (t : SymbolTable) (id : Nat) (name : String) :
    (t.modifySymbol id name f).plain = t.plain := by
  have hscope : ∀ s : Scope, (s.modifyLocal name f).plain = s.plain := by
    intro s
    simp only [Scope.modifyLocal, Scope.plain, SymbolMap.plain, List.map_map, Scope.mk.injEq,
      true_and]
    refine List.map_congr_left fun e _ => ?_
    simp only [Function.comp_apply]
    split
    · rw [hf]
    · rfl
  unfold modifySymbol
  cases t.resolve id name with
  | none => rfl
  | some r =>
    simp only [plain, SymbolTable.mk.injEq]
    apply List.ext_getElem?
    intro i
    rw [List.getElem?_map, List.getElem?_map, List.getElem?_modify]
    cases t.scopes[i]? with
    | none => rfl
    | some s =>
      simp only [Option.map_eq_map, Option.map_some, Option.some.injEq]
      split
      · exact hscope s
      · rfl

theorem plain_markUsed (t : SymbolTable) (id : Nat) (name : String) :
    (t.markUsed id name).plain = t.plain := by
  unfold markUsed
  refine plain_modifySymbol ?_ t id name
  intro s
  rfl

theorem plain_markAssigned (t : SymbolTable) (id : Nat) (name : String) :
    (t.markAssigned id name).plain = t.plain := by
  unfold markAssigned
  refine plain_modifySymbol ?_ t id name
  intro s
  rfl

end SymbolTable

/-! ## Properties of checks -/

/-- A property of steps that the check of a body has because its parts have it. -/
structure Compositional (P : (α : Type) → AnalyzeM α → Prop) : Prop where
  pure : ∀ {α : Type} (x : α), P α (Pure.pure x)
  bind : ∀ {α β : Type} {m : AnalyzeM α} {f : α → AnalyzeM β}, P α m → (∀ x, P β (f x)) →
    P β (m >>= f)
  report : ∀ {code : DiagnosticCode}, code ≠ .circularInheritance → ∀ severity message range,
    P Unit (report severity code message range)
  markUsedHere : ∀ name, P Unit (markUsedHere name)
  markAssignedHere : ∀ name, P Unit (markAssignedHere name)
  inLoopBody : ∀ {body : AnalyzeM Unit}, P Unit body → P Unit (inLoopBody body)
  inLoop : ∀ {α : Type} {f : Bool → AnalyzeM α}, (∀ b, P α (f b)) → P α (do f (← get).inLoop)
  resolved : ∀ {α : Type} {name : String} {f : Ty → AnalyzeM α} {k : AnalyzeM α},
    (∀ ty, P α (f ty)) → P α k → P α (do
      match ← resolveHere name with
      | some sym => f sym.ty
      | none => k)
  fieldAccess : ∀ ty id, P (Option Ty) (fieldAccess ty id)
  checkCall : ∀ {checkArgs : ArgChecker}, (∀ params callee, P Unit (checkArgs params callee)) →
    ∀ name range, P Ty (checkCall name range checkArgs)
  checkThis : ∀ range, P Ty (checkThis range)
  checkSuper : ∀ range, P Ty (checkSuper range)

namespace Compositional

variable {P : (α : Type) → AnalyzeM α → Prop}

theorem branch {α : Type} {c : Prop} [Decidable c] {m m' : AnalyzeM α} (hm : P α m) (hm' : P α m') :
    P α (if c then m else m') := by
  split
  · exact hm
  · exact hm'

variable (h : Compositional P)

include h

theorem errorIf {code : DiagnosticCode} (hc : code ≠ .circularInheritance) (b : Bool)
    (message : String) (range : TextRange) : P Unit (errorIf b code message range) :=
  branch (h.report hc ..) (h.pure _)

/-- Report and give up. -/
theorem failWith {α : Type} {m : AnalyzeM Unit} (hm : P Unit m) (x : α) :
    P α (do m; return x) := h.bind hm fun _ => h.pure x

theorem failed {α : Type} {code : DiagnosticCode} (hc : code ≠ .circularInheritance)
    (message : String) (range : TextRange) (x : α) :
    P α (do error code message range; return x) := h.failWith (h.report hc ..) x

theorem required (params : List ParamDef) (callee : String) (range : TextRange)
    (seen : List String) (positional : Nat) : ∀ ps,
    P Unit (checkRequired params callee range seen positional ps)
  | [] => h.pure _
  | _ :: ps => h.bind (h.errorIf (by decide) ..) fun _ => required params callee range seen positional ps

/-! ### Expressions -/

theorem unary (op : UnaryOp) (ty : Ty) (range : TextRange) : P Ty (checkUnary op ty range) := by
  unfold checkUnary
  split
  · exact branch (h.pure _) (h.failed (by decide) ..)
  · exact branch (h.pure _) (h.failed (by decide) ..)

theorem arithmetic (op : BinaryOp) (left right : Expression) (l r : Ty) (range : TextRange) :
    P Ty (checkArithmetic op left right l r range) := by
  unfold checkArithmetic
  refine branch (h.pure _) (branch (h.failed (by decide) ..) (branch (h.failed (by decide) ..) ?_))
  exact branch (h.failed (by decide) ..) (branch (h.pure _) (branch (h.pure _) (h.pure _)))

theorem binary (op : BinaryOp) (left right : Expression) (l r : Ty) (range : TextRange) :
    P Ty (checkBinary op left right l r range) := by
  unfold checkBinary
  refine branch (h.pure _) ?_
  cases op with
  | add | sub | mul | div | mod => exact h.arithmetic ..
  | power => exact branch (h.failed (by decide) ..) (h.pure _)
  | and | or | xor => exact branch (h.pure _) (branch (h.pure _) (h.failed (by decide) ..))
  | eq | ne | lt | gt | le | ge => exact h.failWith (h.errorIf (by decide) ..) _

mutual

theorem expression : ∀ e, P Ty (checkExpression e)
  | .literal kind range => by
    unfold checkExpression
    exact h.pure _
  | .var parts range => by
    unfold checkExpression
    exact access range true _ parts
  | .functionCall name arguments range => by
    unfold checkExpression
    refine h.checkCall (fun params callee => ?_) name range
    exact h.bind (args params callee [] 0 arguments) fun _ => h.required ..
  | .unary op operand range => by
    unfold checkExpression
    exact h.bind (expression operand) fun _ => h.unary ..
  | .binary op left right range => by
    unfold checkExpression
    exact h.bind (expression left) fun _ => h.bind (expression right) fun _ => h.binary ..
  | .parenthesized inner => by
    unfold checkExpression
    exact expression inner
  | .thisInstance range => by
    unfold checkExpression
    exact h.checkThis range
  | .superInstance range => by
    unfold checkExpression
    exact h.checkSuper range

theorem access (range : TextRange) : ∀ first ty parts, P Ty (checkAccess range first ty parts)
  | _, ty, [] => by
    unfold checkAccess
    exact h.pure _
  | true, ty, .identifier id :: rest => by
    unfold checkAccess
    refine h.resolved (f := fun ty => do
      Analysis.markUsedHere id.name
      checkAccess range false ty rest) (fun ty => ?_) (h.failed (by decide) ..)
    exact h.bind (h.markUsedHere _) fun _ => access range false ty rest
  | false, ty, .identifier id :: rest => by
    unfold checkAccess
    refine h.bind (h.fieldAccess ..) fun t => ?_
    split
    · exact access range false _ rest
    · exact h.pure _
  | _, ty, .index indices :: rest => by
    unfold checkAccess
    split
    · exact h.bind (h.errorIf (by decide) ..) fun _ => h.bind (indexes _ indices) fun _ =>
        access range false _ rest
    · exact h.bind (indexes _ indices) fun _ => access range false _ rest
    · exact access range false _ rest
    · exact h.failed (by decide) ..
  | _, ty, .deref :: rest => by
    unfold checkAccess
    exact access range false _ rest
  | _, ty, .partialAccess kind index :: rest => by
    unfold checkAccess
    exact access range false _ rest

theorem indexes (what : String) : ∀ is, P Unit (checkIndices what is)
  | [] => by
    unfold checkIndices
    exact h.pure _
  | idx :: is => by
    unfold checkIndices
    exact h.bind (expression idx) fun _ => h.bind (h.errorIf (by decide) ..) fun _ => indexes what is

theorem args (params : List ParamDef) (callee : String) : ∀ seen positional as,
    P (List String × Nat) (checkArgs params callee seen positional as)
  | seen, positional, [] => by
    unfold checkArgs
    exact h.pure _
  | seen, positional, .named name value :: rest => by
    unfold checkArgs
    refine branch (h.bind (h.report (by decide) ..) fun _ => args params callee _ _ rest) ?_
    have hnext : ∀ _ : PUnit, P _ (checkArgs params callee (seen ++ [toUppercase name.name])
      positional rest) := fun _ => args params callee _ _ rest
    split
    · exact h.bind (expression value) fun _ => h.bind (h.errorIf (by decide) ..) hnext
    · exact h.bind (h.report (by decide) ..) hnext
  | seen, positional, .positional e :: rest => by
    unfold checkArgs
    split
    · exact h.bind (expression e) fun _ => h.bind (h.errorIf (by decide) ..) fun _ =>
        args params callee _ _ rest
    · exact h.bind (h.report (by decide) ..) fun _ => args params callee _ _ rest

end

/-! ### Statements -/

theorem condition (e : Expression) : P Unit (checkCondition e) :=
  h.bind (h.expression e) fun _ => h.errorIf (by decide) ..

theorem assignment (target : VariableAccess) (value : Expression) (range : TextRange) :
    P Unit (analyzeAssignment target value range) := by
  refine h.bind ?_ fun _ => h.bind (h.expression value) fun _ => h.errorIf (by decide) ..
  refine h.bind (h.access ..) fun ty => ?_
  split
  · exact h.failWith (h.markAssignedHere _) _
  · exact h.pure ty

theorem selector (exprTy : Ty) : ∀ sel, P Unit (checkSelector exprTy sel)
  | .single e => h.bind (h.expression e) fun _ => h.errorIf (by decide) ..
  | .range lo hi =>
    h.bind (h.expression lo) fun _ => h.bind (h.expression hi) fun _ =>
      h.bind (h.errorIf (by decide) ..) fun _ => h.errorIf (by decide) ..

theorem selectors (exprTy : Ty) : ∀ sels, P Unit (checkSelectors exprTy sels)
  | [] => h.pure _
  | sel :: sels => h.bind (h.selector exprTy sel) fun _ => selectors exprTy sels

theorem loopVar (x : Identifier) : P Unit (checkLoopVar x) := by
  refine h.resolved (f := fun ty => do
    Analysis.errorIf (!ty.isInteger && !ty.isUnknown) .forVariableNotInteger
      ("FOR variable '" ++ x.name ++ "' must be an integer type, found '" ++ ty.displayName ++
        "'") x.range
    Analysis.markUsedHere x.name
    Analysis.markAssignedHere x.name) (fun ty => ?_) (h.report (by decide) ..)
  exact h.bind (h.errorIf (by decide) ..) fun _ => h.bind (h.markUsedHere _) fun _ => h.markAssignedHere _

theorem loopHead (x : Identifier) (lower upper : Expression) (by_ : Option Expression) :
    P Unit (checkLoopHead x lower upper by_) := by
  refine h.bind (h.loopVar x) fun _ => h.bind (h.expression lower) fun _ =>
    h.bind (h.expression upper) fun _ => h.bind (h.errorIf (by decide) ..) fun _ =>
      h.bind (h.errorIf (by decide) ..) fun _ => ?_
  split
  · next e => exact h.bind (h.expression e) fun _ => h.errorIf (by decide) ..
  · exact h.pure _

mutual

theorem statement : ∀ st, P Unit (analyzeStatement st)
  | .assignment target value range => by
    unfold analyzeStatement
    exact h.assignment target value range
  | .functionCall name arguments range => by
    unfold analyzeStatement
    exact h.bind (h.expression _) fun _ => h.pure _
  | .ifStmt condition thenBody elsifClauses elseBody range => by
    unfold analyzeStatement
    exact h.bind (h.condition condition) fun _ => h.bind (statements false thenBody) fun _ =>
      h.bind (elsifs elsifClauses) fun _ => otherwise elseBody
  | .caseStmt expression branches elseBody range => by
    unfold analyzeStatement
    exact h.bind (h.expression expression) fun _ =>
      h.bind (caseBranches _ branches) fun _ => otherwise elseBody
  | .forStmt loopVar lower upper by_ body range => by
    unfold analyzeStatement
    exact h.bind (h.loopHead ..) fun _ => h.inLoopBody (statements false body)
  | .whileStmt condition body range => by
    unfold analyzeStatement
    exact h.bind (h.condition condition) fun _ => h.inLoopBody (statements false body)
  | .repeatStmt body condition range => by
    unfold analyzeStatement
    exact h.bind (h.inLoopBody (statements false body)) fun _ => h.condition condition
  | .returnStmt range => by
    unfold analyzeStatement
    exact h.pure _
  | .exit range => by
    unfold analyzeStatement
    exact h.inLoop fun _ => h.errorIf (by decide) ..
  | .empty range => by
    unfold analyzeStatement
    exact h.pure _

theorem statements : ∀ seen sts, P Unit (analyzeStatements seen sts)
  | _, [] => by
    unfold analyzeStatements
    exact h.pure _
  | seen, st :: sts => by
    unfold analyzeStatements
    have hrest := h.bind (statement st) fun _ => statements (seen || isReturn st) sts
    cases seen with
    | true => exact h.bind (h.report (by decide) ..) fun _ => hrest
    | false => exact hrest

theorem otherwise : ∀ body, P Unit (analyzeElse body)
  | some body => by
    unfold analyzeElse
    exact statements false body
  | none => by
    unfold analyzeElse
    exact h.pure _

theorem elsifs : ∀ clauses, P Unit (analyzeElsifs clauses)
  | [] => by
    unfold analyzeElsifs
    exact h.pure _
  | .mk condition body :: clauses => by
    unfold analyzeElsifs
    exact h.bind (h.condition condition) fun _ => h.bind (statements false body) fun _ =>
      elsifs clauses

theorem caseBranches (exprTy : Ty) : ∀ branches, P Unit (analyzeBranches exprTy branches)
  | [] => by
    unfold analyzeBranches
    exact h.pure _
  | .mk selectors body :: branches => by
    unfold analyzeBranches
    exact h.bind (h.selectors exprTy selectors) fun _ => h.bind (statements false body) fun _ =>
      caseBranches exprTy branches

end

end Compositional

/-! ## Walks up a hierarchy -/

/-- Every walk up a class hierarchy ends. -/
structure Climbs (t : SymbolTable) : Prop where
  method : ∀ cls method, methodUp t method (hierarchyFuel t) cls ≠ none
  ancestors : ∀ base, Analysis.ancestors t (hierarchyFuel t) base ≠ none

/-- A step that reports no cycle of classes, and walks on only where a walk does not end. -/
structure Tame (a a' : Analyzer) : Prop where
  codes : ∀ d ∈ a'.diagnostics, d ∈ a.diagnostics ∨ d.code ≠ .circularInheritance
  climbs : Climbs a.symbols → a'.endless = a.endless ∧ Climbs a'.symbols

theorem Tame.refl (a : Analyzer) : Tame a a := ⟨fun _ => .inl, fun h => ⟨rfl, h⟩⟩

theorem Tame.trans {a b c : Analyzer} (h : Tame a b) (h' : Tame b c) : Tame a c where
  codes := fun d hd => (h'.codes d hd).elim (h.codes d) .inr
  climbs := fun ha => by
    obtain ⟨he, hb⟩ := h.climbs ha
    obtain ⟨he', hc⟩ := h'.climbs hb
    exact ⟨he'.trans he, hc⟩

theorem resolveClass_plain (t : SymbolTable) (name : String) :
    t.plain.resolveClass name = t.resolveClass name := by
  unfold SymbolTable.resolveClass
  rw [SymbolTable.lookupIn_plain]
  cases t.lookupIn 0 name with
  | none => rfl
  | some s =>
    obtain ⟨n, ty, kind, range, used, assigned⟩ := s
    cases kind <;> rfl

/-- Walks are the same where the global declarations are. -/
theorem Climbs.of_globals {t t' : SymbolTable} (h : Climbs t)
    (hg : t'.plain.scopes[0]? = t.plain.scopes[0]?) : Climbs t' := by
  have hclass : ∀ name, t'.resolveClass name = t.resolveClass name := by
    intro name
    rw [← resolveClass_plain t', ← resolveClass_plain t, SymbolTable.resolveClass,
      SymbolTable.resolveClass, SymbolTable.lookupIn, SymbolTable.lookupIn, hg]
  have hfuel : hierarchyFuel t' = hierarchyFuel t := by
    have hlen : ∀ u : SymbolTable, hierarchyFuel u =
        u.plain.scopes[0]?.elim 1 fun s => s.symbols.length + 1 := by
      intro u
      rw [hierarchyFuel, SymbolTable.plain, List.getElem?_map]
      cases u.scopes[0]? with
      | none => rfl
      | some s => simp [Scope.plain, SymbolMap.plain]
    rw [hlen, hlen, hg]
  constructor
  · intro cls method
    have hsame : ∀ fuel cls, methodUp t' method fuel cls = methodUp t method fuel cls := by
      intro fuel
      induction fuel with
      | zero => exact fun _ => rfl
      | succ fuel ih =>
        intro cls
        simp only [methodUp, hclass, ih]
    rw [hfuel, hsame]
    exact h.method cls method
  · intro base
    have hsame : ∀ fuel base, Analysis.ancestors t' fuel base = Analysis.ancestors t fuel base := by
      intro fuel
      induction fuel with
      | zero =>
        intro base
        cases base <;> rfl
      | succ fuel ih =>
        intro base
        cases base with
        | none => rfl
        | some base => simp only [Analysis.ancestors, hclass, ih]
    rw [hfuel, hsame]
    exact h.ancestors base

/-- Diagnostics and global declarations as they were. -/
theorem Tame.still {a a' : Analyzer} (hd : a'.diagnostics = a.diagnostics)
    (he : a'.endless = a.endless)
    (hg : a'.symbols.plain.scopes[0]? = a.symbols.plain.scopes[0]?) : Tame a a' :=
  ⟨fun d hm => .inl (hd ▸ hm), fun h => ⟨he, h.of_globals hg⟩⟩

/-! ## Silent steps -/

/-- What a silent step may change: diagnostics are added, marks are set. -/
structure Quiet (a a' : Analyzer) : Prop where
  diagnostics : a.diagnostics <+: a'.diagnostics
  endless : a.endless = true → a'.endless = true
  symbols : a'.symbols.plain = a.symbols.plain
  scope : a'.currentScope = a.currentScope
  cls : a'.currentClass = a.currentClass
  loop : a'.inLoop = a.inLoop
  tame : Tame a a'

theorem Quiet.refl (a : Analyzer) : Quiet a a :=
  ⟨List.prefix_rfl, id, rfl, rfl, rfl, rfl, .refl a⟩

theorem Quiet.trans {a b c : Analyzer} (h : Quiet a b) (h' : Quiet b c) : Quiet a c where
  diagnostics := h.diagnostics.trans h'.diagnostics
  endless := fun he => h'.endless (h.endless he)
  symbols := h'.symbols.trans h.symbols
  scope := h'.scope.trans h.scope
  cls := h'.cls.trans h.cls
  loop := h'.loop.trans h.loop
  tame := h.tame.trans h'.tame

/-- A name resolves to the same declaration before and after. -/
theorem Quiet.resolve {a a' : Analyzer} (h : Quiet a a') (name : String) :
    (a'.symbols.resolve a'.currentScope name).map (fun r => (r.1, r.2.plain)) =
      (a.symbols.resolve a.currentScope name).map fun r => (r.1, r.2.plain) := by
  rw [h.scope]
  exact SymbolTable.resolve_congr h.symbols _ name

/-- A step that is quiet from every state. -/
structure Silent {α : Type} (m : AnalyzeM α) : Prop where
  quiet : ∀ a, Quiet a (m a).2

namespace Silent

variable {α β : Type}

theorem pure (x : α) : Silent (Pure.pure x : AnalyzeM α) := ⟨fun a => .refl a⟩

theorem bind {m : AnalyzeM α} {f : α → AnalyzeM β} (hm : Silent m) (hf : ∀ x, Silent (f x)) :
    Silent (m >>= f) := ⟨fun a => (hm.quiet a).trans ((hf (m a).1).quiet (m a).2)⟩

theorem get : Silent (MonadState.get : AnalyzeM Analyzer) := ⟨fun a => .refl a⟩

theorem report {code : DiagnosticCode} (hc : code ≠ .circularInheritance) (severity : Severity)
    (message : String) (range : TextRange) :
    Silent (Analysis.report severity code message range) := by
  refine ⟨fun a => ⟨List.prefix_append .., id, rfl, rfl, rfl, rfl, ?_, fun h => ⟨rfl, h⟩⟩⟩
  intro d hd
  refine (List.mem_append.mp hd).imp_right fun hnew => ?_
  rw [List.mem_singleton.mp hnew]
  exact hc

theorem error {code : DiagnosticCode} (hc : code ≠ .circularInheritance) (message : String)
    (range : TextRange) : Silent (Analysis.error code message range) := report hc ..

theorem warning {code : DiagnosticCode} (hc : code ≠ .circularInheritance) (message : String)
    (range : TextRange) : Silent (Analysis.warning code message range) := report hc ..

theorem ite {c : Prop} [Decidable c] {m m' : AnalyzeM α} (h : Silent m) (h' : Silent m') :
    Silent (if c then m else m') := by
  split
  · exact h
  · exact h'

theorem errorIf {code : DiagnosticCode} (hc : code ≠ .circularInheritance) (b : Bool)
    (message : String) (range : TextRange) : Silent (Analysis.errorIf b code message range) :=
  ite (error hc ..) (pure _)

theorem resolveHere (name : String) : Silent (Analysis.resolveHere name) := ⟨fun a => .refl a⟩

theorem markUsedHere (name : String) : Silent (Analysis.markUsedHere name) :=
  ⟨fun a => ⟨List.prefix_rfl, id, SymbolTable.plain_markUsed .., rfl, rfl, rfl,
    .still rfl rfl (congrArg (·.scopes[0]?) (SymbolTable.plain_markUsed a.symbols _ name))⟩⟩

theorem markAssignedHere (name : String) : Silent (Analysis.markAssignedHere name) :=
  ⟨fun a => ⟨List.prefix_rfl, id, SymbolTable.plain_markAssigned .., rfl, rfl, rfl,
    .still rfl rfl (congrArg (·.scopes[0]?) (SymbolTable.plain_markAssigned a.symbols _ name))⟩⟩

/-- A body that is analyzed with `in_loop` set, which is put back afterwards. -/
theorem inLoopBody {body : AnalyzeM Unit} (h : Silent body) : Silent (Analysis.inLoopBody body) := by
  constructor
  intro a
  have hb := h.quiet { a with inLoop := true }
  exact ⟨hb.diagnostics, hb.endless, hb.symbols, hb.scope, hb.cls, rfl, hb.tame.codes, hb.tame.climbs⟩

/-- Report and give up. -/
theorem failWith {m : AnalyzeM Unit} (hm : Silent m) (x : α) :
    Silent (do m; return x) := hm.bind fun _ => pure x

end Silent

/-! ## Calls -/

theorem fieldAccess_silent (ty : Ty) (id : Identifier) : Silent (fieldAccess ty id) := by
  refine Silent.get.bind fun a => ?_
  split
  · split
    · exact .pure _
    · exact .failWith (.error (by decide) ..) _
  · split
    · split
      · exact .pure _
      · exact .failWith (.error (by decide) ..) _
    · exact .pure _
    · exact .pure _
  · split
    · split
      · exact .pure _
      · split
        · exact .pure _
        · exact .failWith (.error (by decide) ..) _
    · exact .pure _
  · exact .failWith (.error (by decide) ..) _

theorem resolveClassMethod_silent (cls method : String) :
    Silent (resolveClassMethod cls method) := by
  constructor
  intro a
  rw [resolveClassMethod]
  simp only [bind, StateT.bind, get, getThe, MonadStateOf.get, StateT.get, Pure.pure]
  cases hm : methodUp a.symbols method (hierarchyFuel a.symbols) cls with
  | some r => exact .refl a
  | none =>
    exact ⟨List.prefix_rfl, fun _ => rfl, rfl, rfl, rfl, rfl, fun _ => .inl,
      fun h => absurd hm (h.method cls method)⟩

section

variable {checkArgs : ArgChecker} (hargs : ∀ params callee, Silent (checkArgs params callee))

include hargs

theorem checkPlainCall_silent (name : QualifiedName) (range : TextRange) :
    Silent (checkPlainCall name range checkArgs) := by
  refine (Silent.resolveHere _).bind fun sym => ?_
  split
  · exact .failWith (.error (by decide) ..) _
  · next sym =>
    refine (Silent.markUsedHere _).bind fun _ => ?_
    split
    · exact .failWith (hargs ..) _
    · exact .failWith (hargs ..) _
    · exact (Silent.errorIf (by decide) ..).bind fun _ => .failWith (hargs ..) _
    · split
      · exact Silent.get.bind fun _ => .failWith (hargs ..) _
      · refine Silent.get.bind fun _ => (Silent.errorIf (by decide) ..).bind fun _ => ?_
        exact Silent.get.bind fun _ => .failWith (hargs ..) _
      · exact .failWith (.error (by decide) ..) _
    · exact .failWith (.error (by decide) ..) _

theorem checkCall_silent (name : QualifiedName) (range : TextRange) :
    Silent (checkCall name range checkArgs) := by
  unfold checkCall
  split
  · next obj method heq =>
    refine (Silent.resolveHere _).bind fun sym => ?_
    split
    · next cls hcls =>
      refine (Silent.markUsedHere _).bind fun _ => ?_
      refine (resolveClassMethod_silent ..).bind fun m => ?_
      split
      · exact .failWith (hargs ..) _
      · exact .failWith (.error (by decide) ..) _
    · exact checkPlainCall_silent hargs name range
  · exact checkPlainCall_silent hargs name range

end

theorem checkThis_silent (range : TextRange) : Silent (checkThis range) := by
  refine Silent.get.bind fun a => ?_
  split
  · exact .pure _
  · exact .failWith (.error (by decide) ..) _

theorem checkSuper_silent (range : TextRange) : Silent (checkSuper range) := by
  refine Silent.get.bind fun a => ?_
  split
  · split
    · exact .pure _
    · exact .failWith (.error (by decide) ..) _
  · exact .failWith (.error (by decide) ..) _

/-- **The check of a body is silent.** -/
theorem silent_compositional : Compositional @Silent where
  pure := .pure
  bind := .bind
  report := fun hc => .report hc
  markUsedHere := .markUsedHere
  markAssignedHere := .markAssignedHere
  inLoopBody := .inLoopBody
  inLoop := fun hf => Silent.get.bind fun a => hf a.inLoop
  resolved := fun hf hk => (Silent.resolveHere _).bind fun sym => match sym with
    | some sym => hf sym.ty
    | none => hk
  fieldAccess := fieldAccess_silent
  checkCall := checkCall_silent
  checkThis := checkThis_silent
  checkSuper := checkSuper_silent

theorem checkRequired_silent (params : List ParamDef) (callee : String) (range : TextRange)
    (seen : List String) (positional : Nat) (ps : List ParamDef) :
    Silent (checkRequired params callee range seen positional ps) :=
  Compositional.required silent_compositional params callee range seen positional ps

theorem checkUnary_silent (op : UnaryOp) (ty : Ty) (range : TextRange) :
    Silent (checkUnary op ty range) := Compositional.unary silent_compositional op ty range

theorem checkBinary_silent (op : BinaryOp) (left right : Expression) (l r : Ty)
    (range : TextRange) : Silent (checkBinary op left right l r range) :=
  Compositional.binary silent_compositional op left right l r range

theorem checkExpression_silent (e : Expression) : Silent (checkExpression e) :=
  Compositional.expression silent_compositional e

theorem checkAccess_silent (range : TextRange) (first : Bool) (ty : Ty) (parts : List AccessPart) :
    Silent (checkAccess range first ty parts) :=
  Compositional.access silent_compositional range first ty parts

theorem checkArgs_silent (params : List ParamDef) (callee : String) (seen : List String)
    (positional : Nat) (as : List Argument) :
    Silent (checkArgs params callee seen positional as) :=
  Compositional.args silent_compositional params callee seen positional as

theorem checkCondition_silent (e : Expression) : Silent (checkCondition e) :=
  Compositional.condition silent_compositional e

theorem checkSelector_silent (exprTy : Ty) (sel : CaseSelector) :
    Silent (checkSelector exprTy sel) := Compositional.selector silent_compositional exprTy sel

theorem checkSelectors_silent (exprTy : Ty) (sels : List CaseSelector) :
    Silent (checkSelectors exprTy sels) := Compositional.selectors silent_compositional exprTy sels

theorem checkLoopVar_silent (x : Identifier) : Silent (checkLoopVar x) :=
  Compositional.loopVar silent_compositional x

theorem checkLoopHead_silent (x : Identifier) (lower upper : Expression)
    (by_ : Option Expression) : Silent (checkLoopHead x lower upper by_) :=
  Compositional.loopHead silent_compositional x lower upper by_

theorem analyzeStatement_silent (st : Statement) : Silent (analyzeStatement st) :=
  Compositional.statement silent_compositional st

theorem analyzeStatements_silent (seen : Bool) (sts : List Statement) :
    Silent (analyzeStatements seen sts) := Compositional.statements silent_compositional seen sts

theorem analyzeElse_silent (body : Option (List Statement)) : Silent (analyzeElse body) :=
  Compositional.otherwise silent_compositional body

theorem analyzeElsifs_silent (clauses : List ElsifClause) : Silent (analyzeElsifs clauses) :=
  Compositional.elsifs silent_compositional clauses

theorem analyzeBranches_silent (exprTy : Ty) (branches : List CaseBranch) :
    Silent (analyzeBranches exprTy branches) :=
  Compositional.caseBranches silent_compositional exprTy branches

end RustPlc.Analysis
