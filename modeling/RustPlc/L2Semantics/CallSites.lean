import RustPlc.L2Semantics.Hierarchy

/-!
# Calls in bodies

Where calls stand in the statements of a body, and that the analysis of an
accepted source checks each of them without an error. The indices of an access
are apart: behind a dereference the analyzer does not look at them
(crates/st-semantics/src/analyze.rs:1656-1744).

Results:
* `BodyOf.checked`: the statements of a body are analyzed without an error;
* `call_checked`: so is every call in it outside of indices.
-/
namespace RustPlc.Syntax

/-! ## Where calls stand -/

def Argument.value : Argument → Expression
  | .positional e => e
  | .named _ e => e

/-- `q` is called in an expression; the flag is set when it is in the indices
of an access. -/
inductive CallIn (q : QualifiedName) : Bool → Expression → Prop
  | here {args : List Argument} {range : TextRange} : CallIn q false (.functionCall q args range)
  | argument {b : Bool} {name : QualifiedName} {args : List Argument} {range : TextRange}
    {arg : Argument} (mem : arg ∈ args) (h : CallIn q b arg.value) :
    CallIn q b (.functionCall name args range)
  | operand {b : Bool} {op : UnaryOp} {e : Expression} {range : TextRange} (h : CallIn q b e) :
    CallIn q b (.unary op e range)
  | left {b : Bool} {op : BinaryOp} {l r : Expression} {range : TextRange} (h : CallIn q b l) :
    CallIn q b (.binary op l r range)
  | right {b : Bool} {op : BinaryOp} {l r : Expression} {range : TextRange} (h : CallIn q b r) :
    CallIn q b (.binary op l r range)
  | inner {b : Bool} {e : Expression} (h : CallIn q b e) : CallIn q b (.parenthesized e)
  | index {b : Bool} {parts : List AccessPart} {range : TextRange} {es : List Expression}
    {e : Expression} (mem : .index es ∈ parts) (he : e ∈ es) (h : CallIn q b e) :
    CallIn q true (.var parts range)

def CaseSelector.expressions : CaseSelector → List Expression
  | .single e => [e]
  | .range lo hi => [lo, hi]

def ElsifClause.condition : ElsifClause → Expression
  | .mk condition _ => condition

def ElsifClause.body : ElsifClause → List Statement
  | .mk _ body => body

def CaseBranch.selectors : CaseBranch → List CaseSelector
  | .mk selectors _ => selectors

def CaseBranch.body : CaseBranch → List Statement
  | .mk _ body => body

/-- The expressions of a statement itself. -/
def Statement.expressions : Statement → List Expression
  | .assignment target value _ => [.var target.parts target.range, value]
  | .functionCall name arguments range => [.functionCall name arguments range]
  | .ifStmt condition _ elsifClauses _ _ => condition :: elsifClauses.map ElsifClause.condition
  | .caseStmt expression branches _ _ =>
    expression :: (branches.flatMap CaseBranch.selectors).flatMap CaseSelector.expressions
  | .forStmt _ lower upper by_ _ _ => lower :: upper :: by_.toList
  | .whileStmt condition _ _ => [condition]
  | .repeatStmt _ condition _ => [condition]
  | .returnStmt _ | .exit _ | .empty _ => []

/-- The statement lists in a statement. -/
def Statement.bodies : Statement → List (List Statement)
  | .ifStmt _ thenBody elsifClauses elseBody _ =>
    thenBody :: (elsifClauses.map ElsifClause.body ++ elseBody.toList)
  | .caseStmt _ branches elseBody _ => branches.map CaseBranch.body ++ elseBody.toList
  | .forStmt _ _ _ _ body _ => [body]
  | .whileStmt _ body _ => [body]
  | .repeatStmt body _ _ => [body]
  | .assignment _ _ _ | .functionCall _ _ _ | .returnStmt _ | .exit _ | .empty _ => []

/-- `q` is called in a statement, at any depth. -/
inductive CallAt (q : QualifiedName) (b : Bool) : Statement → Prop
  | direct {s : Statement} {e : Expression} (he : e ∈ s.expressions) (h : CallIn q b e) :
    CallAt q b s
  | nested {s s' : Statement} {body : List Statement} (hb : body ∈ s.bodies) (hs : s' ∈ body)
    (h : CallAt q b s') : CallAt q b s

end RustPlc.Syntax

namespace RustPlc.Analysis

open RustPlc.Ir RustPlc.Syntax

/-! ## Checks that are reached -/

/-- The same declarations are in view. -/
structure Near (a a' : Analyzer) : Prop where
  symbols : a'.symbols.plain = a.symbols.plain
  scope : a'.currentScope = a.currentScope

/-- A check is made with the declarations in view, and finds no error. -/
def Reached {α : Type} (m : AnalyzeM α) (a : Analyzer) : Prop :=
  ∃ a', Near a a' ∧ NoError (m a').2

section

variable {a b : Analyzer} {α β : Type}

theorem Near.trans {c : Analyzer} (h : Near a b) (h' : Near b c) : Near a c :=
  ⟨h'.symbols.trans h.symbols, h'.scope.trans h.scope⟩

theorem Near.of_quiet (h : Quiet a b) : Near a b := ⟨h.symbols, h.scope⟩

theorem Near.keepsGlobals {source : SourceFile} (h : Near a b) (ha : KeepsGlobals source a) :
    KeepsGlobals source b := fun name => by
  rw [← ha name, ← SymbolTable.lookupIn_plain, ← SymbolTable.lookupIn_plain, h.symbols]

/-- A name means the same. -/
theorem Near.resolve (h : Near a b) (name : String) :
    (b.symbols.resolve b.currentScope name).map (fun r => (r.1, r.2.plain)) =
      (a.symbols.resolve a.currentScope name).map fun r => (r.1, r.2.plain) := by
  rw [h.scope]
  exact SymbolTable.resolve_congr h.symbols _ name

namespace Reached

/-- The first of two checks. -/
theorem first {m : AnalyzeM α} {f : α → AnalyzeM β} (h : Reached (m >>= f) a)
    (hf : ∀ x, Silent (f x)) : Reached m a := by
  obtain ⟨b, hb, hn⟩ := h
  exact ⟨b, hb, (hf (m b).1).noError hn⟩

/-- The second of two checks, with what the first returns. -/
theorem second {m : AnalyzeM α} {f : α → AnalyzeM β} (h : Reached (m >>= f) a) (hm : Silent m) :
    ∃ x, Reached (f x) a := by
  obtain ⟨b, hb, hn⟩ := h
  exact ⟨(m b).1, (m b).2, hb.trans (.of_quiet (hm.quiet b)), hn⟩

/-- The state the analyzer reads. -/
theorem state {f : Analyzer → AnalyzeM β} (h : Reached (get >>= f) a) :
    ∃ c, Near a c ∧ Reached (f c) c := by
  obtain ⟨c, hc, hn⟩ := h
  exact ⟨c, hc, c, ⟨rfl, rfl⟩, hn⟩

/-- What a name resolves to. -/
theorem symbol {name : String} {f : Option Symbol → AnalyzeM β}
    (h : Reached (resolveHere name >>= f) a) :
    ∃ o, o.map Symbol.plain =
      (a.symbols.resolve a.currentScope name).map (fun r => r.2.plain) ∧ Reached (f o) a := by
  obtain ⟨c, hc, hn⟩ := h
  refine ⟨(resolveHere name c).1, ?_, c, hc, hn⟩
  show ((c.symbols.resolve c.currentScope name).map (·.2)).map Symbol.plain = _
  have hsame := congrArg (Option.map Prod.snd) (hc.resolve name)
  simpa only [Option.map_map, Function.comp_def] using hsame

theorem loop {m : AnalyzeM Unit} (h : Reached (inLoopBody m) a) : Reached m a := by
  obtain ⟨b, hb, hn⟩ := h
  exact ⟨{ b with inLoop := true }, ⟨hb.symbols, hb.scope⟩, hn⟩

end Reached

theorem not_reached_error {code : DiagnosticCode} {message : String} {range : TextRange}
    {f : Unit → AnalyzeM β} (hf : ∀ x, Silent (f x)) :
    ¬ Reached (error code message range >>= f) a := by
  intro h
  obtain ⟨b, -, hn⟩ := h.first hf
  exact error_noError hn

end

/-! ## Calls in expressions -/

section

variable {a : Analyzer}

theorem plainCall_reached {name : QualifiedName} {range : TextRange} {check : ArgChecker}
    (h : Reached (checkPlainCall name range check) a) :
    ∃ params callee, Reached (check params callee) a := by
  unfold checkPlainCall at h
  obtain ⟨sym, h⟩ := h.second (.resolveHere _)
  cases sym with
  | none => exact absurd h (not_reached_error fun _ => .pure _)
  | some sym =>
    obtain ⟨_, h⟩ := h.second (.markUsedHere _)
    split at h
    · exact ⟨_, _, h.first fun _ => .pure _⟩
    · exact ⟨_, _, h.first fun _ => .pure _⟩
    · obtain ⟨_, h⟩ := h.second (.errorIf (by decide) ..)
      exact ⟨_, _, h.first fun _ => .pure _⟩
    · split at h
      · obtain ⟨_, h⟩ := h.second .get
        exact ⟨_, _, h.first fun _ => .pure _⟩
      · obtain ⟨_, h⟩ := h.second .get
        obtain ⟨_, h⟩ := h.second (.errorIf (by decide) ..)
        obtain ⟨_, h⟩ := h.second .get
        exact ⟨_, _, h.first fun _ => .pure _⟩
      · exact absurd h (not_reached_error fun _ => .pure _)
    · exact absurd h (not_reached_error fun _ => .pure _)

/-- A call without an error has its arguments checked. -/
theorem call_reached {name : QualifiedName} {range : TextRange} {check : ArgChecker}
    (h : Reached (checkCall name range check) a) :
    ∃ params callee, Reached (check params callee) a := by
  unfold checkCall at h
  split at h
  · obtain ⟨sym, h⟩ := h.second (.resolveHere _)
    split at h
    · obtain ⟨_, h⟩ := h.second (.markUsedHere _)
      obtain ⟨m, h⟩ := h.second (resolveClassMethod_silent ..)
      split at h
      · exact ⟨_, _, h.first fun _ => .pure _⟩
      · exact absurd h (not_reached_error fun _ => .pure _)
    · exact plainCall_reached h
  · exact plainCall_reached h

/-- Arguments without an error are all looked at. -/
theorem args_reached {params : List ParamDef} {callee : String} : ∀ {args : List Argument}
    {seen : List String} {positional : Nat} {a : Analyzer},
    Reached (checkArgs params callee seen positional args) a →
      ∀ arg ∈ args, Reached (checkExpression arg.value) a
  | [], _, _, _, _ => by simp
  | .named name value :: rest, seen, positional, a, h => by
    rw [checkArgs] at h
    split at h
    · exact absurd h (not_reached_error fun _ => checkArgs_silent ..)
    · split at h
      · next p hp =>
        have hv := h.first fun _ => .bind (Silent.errorIf (by decide) ..) fun _ => checkArgs_silent ..
        obtain ⟨_, h⟩ := h.second (checkExpression_silent _)
        obtain ⟨_, h⟩ := h.second (.errorIf (by decide) ..)
        exact List.forall_mem_cons.mpr ⟨hv, args_reached h⟩
      · exact absurd h (not_reached_error fun _ => checkArgs_silent ..)
  | .positional e :: rest, seen, positional, a, h => by
    rw [checkArgs] at h
    split at h
    · have hv := h.first fun _ => .bind (Silent.errorIf (by decide) ..) fun _ => checkArgs_silent ..
      obtain ⟨_, h⟩ := h.second (checkExpression_silent _)
      obtain ⟨_, h⟩ := h.second (.errorIf (by decide) ..)
      exact List.forall_mem_cons.mpr ⟨hv, args_reached h⟩
    · exact absurd h (not_reached_error fun _ => checkArgs_silent ..)

/-- **Every call in an expression outside of indices is checked.** -/
theorem call_in_reached {q : QualifiedName} {b : Bool} {e : Expression} (hq : CallIn q b e)
    (hb : b = false) (h : Reached (checkExpression e) a) :
    ∃ range check, (∀ params callee, Silent (check params callee)) ∧
      Reached (checkCall q range check) a := by
  induction hq with
  | here =>
    rw [checkExpression] at h
    exact ⟨_, _, fun _ _ => (checkArgs_silent ..).bind fun _ => checkRequired_silent .., h⟩
  | argument mem _ ih =>
    rw [checkExpression] at h
    obtain ⟨params, callee, h⟩ := call_reached h
    exact ih hb (args_reached (h.first fun _ => checkRequired_silent ..) _ mem)
  | operand _ ih =>
    rw [checkExpression] at h
    exact ih hb (h.first fun _ => checkUnary_silent ..)
  | left _ ih =>
    rw [checkExpression] at h
    exact ih hb (h.first fun _ => (checkExpression_silent _).bind fun _ => checkBinary_silent ..)
  | right _ ih =>
    rw [checkExpression] at h
    obtain ⟨_, h⟩ := h.second (checkExpression_silent _)
    exact ih hb (h.first fun _ => checkBinary_silent ..)
  | inner _ ih =>
    rw [checkExpression] at h
    exact ih hb h
  | index => cases hb

/-! ## Calls in statements -/

theorem selectors_reached {ty : Ty} : ∀ {sels : List CaseSelector} {a : Analyzer},
    Reached (checkSelectors ty sels) a →
      ∀ e ∈ sels.flatMap CaseSelector.expressions, Reached (checkExpression e) a
  | [], _, _ => by simp
  | sel :: sels, a, h => by
    rw [checkSelectors] at h
    have hsel : Reached (checkSelector ty sel) a := h.first fun _ => checkSelectors_silent ..
    obtain ⟨_, h⟩ := h.second (checkSelector_silent ..)
    have hrest := selectors_reached h
    rw [List.flatMap_cons, List.forall_mem_append]
    refine ⟨?_, hrest⟩
    cases sel with
    | single e =>
      rw [checkSelector] at hsel
      exact List.forall_mem_singleton.mpr (hsel.first fun _ => .errorIf (by decide) ..)
    | range lo hi =>
      rw [checkSelector] at hsel
      have hlo := hsel.first fun _ => (checkExpression_silent _).bind fun _ =>
        (Silent.errorIf (by decide) ..).bind fun _ => .errorIf (by decide) ..
      obtain ⟨_, hsel⟩ := hsel.second (checkExpression_silent _)
      have hhi := hsel.first fun _ => (Silent.errorIf (by decide) ..).bind fun _ => .errorIf (by decide) ..
      exact List.forall_mem_cons.mpr ⟨hlo, List.forall_mem_singleton.mpr hhi⟩

theorem condition_reached {e : Expression} (h : Reached (checkCondition e) a) :
    Reached (checkExpression e) a := h.first fun _ => .errorIf (by decide) ..

theorem else_reached {o : Option (List Statement)} (h : Reached (analyzeElse o) a) :
    ∀ body ∈ o.toList, Reached (analyzeStatements false body) a := by
  cases o with
  | none => simp
  | some body =>
    rw [analyzeElse] at h
    simpa using h

theorem elsifs_reached : ∀ {clauses : List ElsifClause} {a : Analyzer},
    Reached (analyzeElsifs clauses) a →
      (∀ e ∈ clauses.map ElsifClause.condition, Reached (checkExpression e) a) ∧
        ∀ body ∈ clauses.map ElsifClause.body, Reached (analyzeStatements false body) a
  | [], _, _ => by simp
  | .mk condition body :: clauses, a, h => by
    rw [analyzeElsifs] at h
    have hc := condition_reached (h.first fun _ => (analyzeStatements_silent ..).bind fun _ =>
      analyzeElsifs_silent _)
    obtain ⟨_, h⟩ := h.second (checkCondition_silent _)
    have hb := h.first fun _ => analyzeElsifs_silent _
    obtain ⟨_, h⟩ := h.second (analyzeStatements_silent ..)
    obtain ⟨hcs, hbs⟩ := elsifs_reached h
    exact ⟨List.forall_mem_cons.mpr ⟨hc, hcs⟩, List.forall_mem_cons.mpr ⟨hb, hbs⟩⟩

theorem branches_reached {ty : Ty} : ∀ {branches : List CaseBranch} {a : Analyzer},
    Reached (analyzeBranches ty branches) a →
      (∀ e ∈ (branches.flatMap CaseBranch.selectors).flatMap CaseSelector.expressions,
        Reached (checkExpression e) a) ∧
          ∀ body ∈ branches.map CaseBranch.body, Reached (analyzeStatements false body) a
  | [], _, _ => by simp
  | .mk selectors body :: branches, a, h => by
    rw [analyzeBranches] at h
    have hs := selectors_reached (h.first fun _ => (analyzeStatements_silent ..).bind fun _ =>
      analyzeBranches_silent ..)
    obtain ⟨_, h⟩ := h.second (checkSelectors_silent ..)
    have hb := h.first fun _ => analyzeBranches_silent ..
    obtain ⟨_, h⟩ := h.second (analyzeStatements_silent ..)
    obtain ⟨hss, hbs⟩ := branches_reached h
    rw [List.flatMap_cons, List.flatMap_append, List.forall_mem_append]
    exact ⟨⟨hs, hss⟩, List.forall_mem_cons.mpr ⟨hb, hbs⟩⟩

theorem loopStep_silent (by_ : Option Expression) : Silent (match by_ with
    | some e => do
      let ty ← checkExpression e
      checkLoopBound "by" ty e.range
    | none => return ()) := by
  split
  · next e => exact (checkExpression_silent e).bind fun _ => .errorIf (by decide) ..
  · exact .pure _

theorem loopHead_reached {x : Identifier} {lower upper : Expression} {by_ : Option Expression}
    (h : Reached (checkLoopHead x lower upper by_) a) :
    ∀ e ∈ lower :: upper :: by_.toList, Reached (checkExpression e) a := by
  have hstep := loopStep_silent by_
  unfold checkLoopHead at h
  obtain ⟨_, h⟩ := h.second (checkLoopVar_silent x)
  have hlower := h.first fun _ => (checkExpression_silent upper).bind fun _ =>
    (Silent.errorIf (by decide) ..).bind fun _ => (Silent.errorIf (by decide) ..).bind fun _ => hstep
  obtain ⟨_, h⟩ := h.second (checkExpression_silent lower)
  have hupper := h.first fun _ =>
    (Silent.errorIf (by decide) ..).bind fun _ => (Silent.errorIf (by decide) ..).bind fun _ => hstep
  obtain ⟨_, h⟩ := h.second (checkExpression_silent upper)
  obtain ⟨_, h⟩ := h.second (.errorIf (by decide) ..)
  obtain ⟨_, h⟩ := h.second (.errorIf (by decide) ..)
  refine List.forall_mem_cons.mpr ⟨hlower, List.forall_mem_cons.mpr ⟨hupper, ?_⟩⟩
  cases by_ with
  | none => simp
  | some e => simpa using h.first fun _ => .errorIf (by decide) ..

theorem markTarget_silent (target : VariableAccess) (ty : Ty) : Silent (do
    match target.parts with
    | .identifier id :: _ => markAssignedHere id.name
    | _ => pure ()
    return ty) := by
  split
  · exact .failWith (.markAssignedHere _) _
  · exact .pure ty

theorem assignment_reached {target : VariableAccess} {value : Expression} {range : TextRange}
    (h : Reached (analyzeAssignment target value range) a) :
    ∀ e ∈ [.var target.parts target.range, value], Reached (checkExpression e) a := by
  have hmark := markTarget_silent target
  have hwrite : Silent (checkVariableAccessForWrite target) :=
    (checkAccess_silent ..).bind fun ty => hmark ty
  unfold analyzeAssignment at h
  have htarget : Reached (checkExpression (.var target.parts target.range)) a := by
    rw [checkExpression]
    exact (h.first fun _ => (checkExpression_silent value).bind fun _ => .errorIf (by decide) ..).first hmark
  obtain ⟨_, h⟩ := h.second hwrite
  have hvalue := h.first fun _ => .errorIf (by decide) ..
  exact List.forall_mem_cons.mpr ⟨htarget, List.forall_mem_singleton.mpr hvalue⟩

/-- A statement without an error has its own expressions and the statements in
it looked at. -/
theorem statement_reached {s : Statement} (h : Reached (analyzeStatement s) a) :
    (∀ e ∈ s.expressions, Reached (checkExpression e) a) ∧
      ∀ body ∈ s.bodies, Reached (analyzeStatements false body) a := by
  cases s with
  | assignment target value range =>
    rw [analyzeStatement] at h
    exact ⟨assignment_reached h, by simp [Statement.bodies]⟩
  | functionCall name arguments range =>
    rw [analyzeStatement] at h
    exact ⟨List.forall_mem_singleton.mpr (h.first fun _ => .pure _), by simp [Statement.bodies]⟩
  | ifStmt condition thenBody elsifClauses elseBody range =>
    rw [analyzeStatement] at h
    have hc := condition_reached (h.first fun _ => (analyzeStatements_silent ..).bind fun _ =>
      (analyzeElsifs_silent _).bind fun _ => analyzeElse_silent _)
    obtain ⟨_, h⟩ := h.second (checkCondition_silent _)
    have hthen := h.first fun _ => (analyzeElsifs_silent _).bind fun _ => analyzeElse_silent _
    obtain ⟨_, h⟩ := h.second (analyzeStatements_silent ..)
    obtain ⟨hcs, hbs⟩ := elsifs_reached (h.first fun _ => analyzeElse_silent _)
    obtain ⟨_, h⟩ := h.second (analyzeElsifs_silent _)
    refine ⟨List.forall_mem_cons.mpr ⟨hc, hcs⟩, List.forall_mem_cons.mpr ⟨hthen, ?_⟩⟩
    exact List.forall_mem_append.mpr ⟨hbs, else_reached h⟩
  | caseStmt expression branches elseBody range =>
    rw [analyzeStatement] at h
    have he := h.first fun _ => (analyzeBranches_silent ..).bind fun _ => analyzeElse_silent _
    obtain ⟨_, h⟩ := h.second (checkExpression_silent _)
    obtain ⟨hss, hbs⟩ := branches_reached (h.first fun _ => analyzeElse_silent _)
    obtain ⟨_, h⟩ := h.second (analyzeBranches_silent ..)
    exact ⟨List.forall_mem_cons.mpr ⟨he, hss⟩, List.forall_mem_append.mpr ⟨hbs, else_reached h⟩⟩
  | forStmt loopVar lower upper by_ body range =>
    rw [analyzeStatement] at h
    have hhead := loopHead_reached (h.first fun _ => .inLoopBody (analyzeStatements_silent ..))
    obtain ⟨_, h⟩ := h.second (checkLoopHead_silent ..)
    exact ⟨hhead, List.forall_mem_singleton.mpr h.loop⟩
  | whileStmt condition body range =>
    rw [analyzeStatement] at h
    have hc := condition_reached (h.first fun _ => .inLoopBody (analyzeStatements_silent ..))
    obtain ⟨_, h⟩ := h.second (checkCondition_silent _)
    exact ⟨List.forall_mem_singleton.mpr hc, List.forall_mem_singleton.mpr h.loop⟩
  | repeatStmt body condition range =>
    rw [analyzeStatement] at h
    have hb := (h.first fun _ => checkCondition_silent _).loop
    obtain ⟨_, h⟩ := h.second (.inLoopBody (analyzeStatements_silent ..))
    exact ⟨List.forall_mem_singleton.mpr (condition_reached h), List.forall_mem_singleton.mpr hb⟩
  | returnStmt range => simp [Statement.expressions, Statement.bodies]
  | exit range => simp [Statement.expressions, Statement.bodies]
  | empty range => simp [Statement.expressions, Statement.bodies]

/-- Statements without an error are all looked at. -/
theorem statements_reached : ∀ {body : List Statement} {seen : Bool} {a : Analyzer},
    Reached (analyzeStatements seen body) a → ∀ s ∈ body, Reached (analyzeStatement s) a
  | [], _, _, _ => by simp
  | s :: rest, seen, a, h => by
    have hrun : Reached (do
        analyzeStatement s
        analyzeStatements (seen || isReturn s) rest) a := by
      rw [analyzeStatements] at h
      cases seen with
      | false => exact h
      | true => exact (h.second (.warning (by decide) ..)).choose_spec
    have hs := hrun.first fun _ => analyzeStatements_silent ..
    obtain ⟨_, hrest⟩ := hrun.second (analyzeStatement_silent s)
    exact List.forall_mem_cons.mpr ⟨hs, statements_reached hrest⟩

/-- **Every call in a statement outside of indices is checked.** -/
theorem call_at_reached {q : QualifiedName} {s : Statement} (hq : CallAt q false s)
    (h : Reached (analyzeStatement s) a) : ∃ range check,
      (∀ params callee, Silent (check params callee)) ∧ Reached (checkCall q range check) a := by
  induction hq with
  | direct he hcall => exact call_in_reached hcall rfl ((statement_reached h).1 _ he)
  | nested hb hs _ ih => exact ih (statements_reached ((statement_reached h).2 _ hb) _ hs)

end

/-! ## The bodies of a source -/

/-- The bodies of a source, with the class of a method and the analyzer when it
starts on the statements. -/
inductive BodyOf (source : SourceFile) : Option ClassDecl → Analyzer → List Statement → Prop
  | program {pre post : List TopLevelItem} {p : ProgramDecl}
    (item : source.items = pre ++ .program p :: post) :
    BodyOf source none (within (beforeItem source pre) (defineVarBlocks · p.varBlocks)) p.body
  | functionBlock {pre post : List TopLevelItem} {fb : FunctionBlockDecl}
    (item : source.items = pre ++ .functionBlock fb :: post) :
    BodyOf source none (within (beforeItem source pre) (defineVarBlocks · fb.varBlocks)) fb.body
  | function {pre post : List TopLevelItem} {f : FunctionDecl}
    (item : source.items = pre ++ .function f :: post) :
    BodyOf source none (within (beforeItem source pre) (declareFunction f)) f.body
  | method {pre post : List TopLevelItem} {cls : ClassDecl} {mpre mpost : List MethodDecl}
    {m : MethodDecl} (item : source.items = pre ++ .classDecl cls :: post)
    (mem : cls.methods = mpre ++ m :: mpost) (concrete : m.isAbstract = false) :
    BodyOf source (some cls) (within (beforeMethod source pre cls mpre) (declareMethod cls m)) m.body

section

variable {source : SourceFile} {ctx : Option ClassDecl} {b : Analyzer} {body : List Statement}

/-- **The statements of a body of an accepted source are analyzed without an
error, with the symbols of the source.** -/
theorem BodyOf.checked (hacc : accepts source = true) (h : BodyOf source ctx b body) :
    KeepsGlobals source b ∧ NoError (analyzeStatements false body b).2 := by
  cases h with
  | @program pre post p item =>
    obtain ⟨hno, -⟩ := analyzeTopLevel_noError hacc item
    have htop := beforeItem_atTop hacc pre
    have hbody : NoError (analyzeStatements false p.body
        (within (beforeItem source pre) (defineVarBlocks · p.varBlocks))).2 := hno
    exact ⟨within_keepsGlobals (beforeItem_keepsGlobals source pre) htop.length
      (blocks_within htop.length ((analyzeStatements_silent ..).noError hbody)), hbody⟩
  | @functionBlock pre post fb item =>
    obtain ⟨hno, -⟩ := analyzeTopLevel_noError hacc item
    have htop := beforeItem_atTop hacc pre
    have hbody : NoError (analyzeStatements false fb.body
        (within (beforeItem source pre) (defineVarBlocks · fb.varBlocks))).2 := hno
    exact ⟨within_keepsGlobals (beforeItem_keepsGlobals source pre) htop.length
      (blocks_within htop.length ((analyzeStatements_silent ..).noError hbody)), hbody⟩
  | @function pre post f item =>
    obtain ⟨hno, -⟩ := analyzeTopLevel_noError hacc item
    have htop := beforeItem_atTop hacc pre
    have hbody : NoError (analyzeStatements false f.body
        (within (beforeItem source pre) (declareFunction f))).2 := hno
    exact ⟨within_keepsGlobals (beforeItem_keepsGlobals source pre) htop.length
      (function_within htop.length ((analyzeStatements_silent ..).noError hbody)), hbody⟩
  | @method pre post cls mpre mpost m item mem concrete =>
    obtain ⟨hkeep, hlen⟩ := beforeMethod_keeps hacc item mpre
    have hdecl := beforeMethod_noError hacc item mem
    have hrun : NoError ((if !m.isAbstract then analyzeStatements false m.body else pure ())
        (within (beforeMethod source pre cls mpre) (declareMethod cls m))).2 :=
      analyzeMethod_noError hacc item mem
    rw [concrete] at hrun
    exact ⟨within_keepsGlobals hkeep hlen (method_within hlen hdecl), hrun⟩

/-- **Every call in a body of an accepted source, outside of indices, is
checked.** -/
theorem BodyOf.call_checked (hacc : accepts source = true) (h : BodyOf source ctx b body)
    {s : Statement} (hs : s ∈ body) {q : QualifiedName} (hq : CallAt q false s) :
    ∃ range check, (∀ params callee, Silent (check params callee)) ∧
      Reached (checkCall q range check) b :=
  call_at_reached hq (statements_reached ⟨b, ⟨rfl, rfl⟩, (h.checked hacc).2⟩ s hs)

/-- A variable in view that is an instance of a class of the source. -/
def InstanceOf (source : SourceFile) (b : Analyzer) (x : String) (cls : ClassDecl) : Prop :=
  ∃ id sym kind name, b.symbols.resolve b.currentScope x = some (id, sym) ∧
    sym.kind = .variable kind ∧ sym.ty.resolved = .cls name ∧
      .classDecl cls ∈ source.items ∧ toUppercase cls.name.name = toUppercase name

/-- The analyzer takes a name for an instance of a class. -/
def seesInstance (b : Analyzer) (x cls : String) : Bool :=
  (b.symbols.resolve b.currentScope x).any fun r => match r.2.kind, r.2.ty.resolved with
    | .variable _, .cls name => name == cls
    | _, _ => false

theorem instanceOf_of_sees {x : String} {cls : ClassDecl}
    (h : seesInstance b x cls.name.name = true) (hc : .classDecl cls ∈ source.items) :
    InstanceOf source b x cls := by
  obtain ⟨⟨id, sym⟩, hres, hsees⟩ := (Option.any_eq_true ..).mp h
  simp only at hsees
  split at hsees
  · next kind name hkind hty =>
    exact ⟨id, sym, kind, name, hres, hkind, hty, hc, by rw [eq_of_beq hsees]⟩
  · cases hsees

/-- A method is called on an instance of a class. -/
def CallsMethod (source : SourceFile) (b : Analyzer) (body : List Statement) (cls : ClassDecl)
    (method : String) : Prop :=
  ∃ s ∈ body, ∃ inIndex obj id range, CallAt ⟨[obj, id], range⟩ inIndex s ∧
    InstanceOf source b obj.name cls ∧ id.name = method

/-- An instance of a class is called itself, in the indices of an access or
elsewhere. -/
def CallsInstance (source : SourceFile) (b : Analyzer) (body : List Statement) (cls : ClassDecl)
    (inIndex : Bool) : Prop :=
  ∃ s ∈ body, ∃ obj range, CallAt ⟨[obj], range⟩ inIndex s ∧ InstanceOf source b obj.name cls

theorem asStr_single (obj : Identifier) (range : TextRange) :
    QualifiedName.asStr ⟨[obj], range⟩ = obj.name := by
  show ".".intercalate [obj.name] = obj.name
  exact String.intercalate_singleton

/-- The class of an instance that is called itself is not abstract. -/
theorem plainCall_concrete {a : Analyzer} (hreg : Registers source) (ha : KeepsGlobals source a)
    {obj : Identifier} {range range' : TextRange} {check : ArgChecker}
    (hcheck : ∀ params callee, Silent (check params callee)) {cls : ClassDecl}
    (hi : InstanceOf source a obj.name cls)
    (h : Reached (checkPlainCall ⟨[obj], range⟩ range' check) a) : cls.isAbstract = false := by
  obtain ⟨id, sym, kind, name, hres, hkind, hty, hmem, hname⟩ := hi
  unfold checkPlainCall at h
  obtain ⟨o, ho, h⟩ := h.symbol
  rw [asStr_single, hres] at ho
  cases o with
  | none => cases ho
  | some sym' =>
    have hsame : sym'.plain = sym.plain := Option.some.inj ho
    have hkind' : sym'.kind = .variable kind := (congrArg Symbol.kind hsame).trans hkind
    have htyEq : sym'.plain.ty = sym.plain.ty := congrArg Symbol.ty hsame
    have hty' : sym'.ty.resolved = .cls name := by
      rw [← hty]
      exact congrArg Ty.resolved htyEq
    obtain ⟨_, h⟩ := h.second (.markUsedHere _)
    simp only [hkind', hty'] at h
    obtain ⟨c, hc, h⟩ := h.state
    obtain ⟨c', -, hno⟩ := h.first fun _ => Silent.get.bind fun _ => .failWith (hcheck ..) _
    have hconcrete := (errorIf_noError hno).1
    obtain ⟨syms, hsyms⟩ := hreg.registered
    obtain ⟨t, ht⟩ := (hsyms c (hc.keepsGlobals ha)).resolveClass hmem hname
    rw [abstractClass, ht] at hconcrete
    exact hconcrete

/-- **Outside of indices no instance of an abstract class is called itself.** -/
theorem BodyOf.instance_concrete (hacc : accepts source = true) (h : BodyOf source ctx b body)
    {cls : ClassDecl} (hc : CallsInstance source b body cls false) : cls.isAbstract = false := by
  obtain ⟨s, hs, obj, range, hcall, hi⟩ := hc
  obtain ⟨range', check, hcheck, hr⟩ := h.call_checked hacc hs hcall
  exact plainCall_concrete (registers_of_accepts hacc) (h.checked hacc).1 hcheck hi hr

end

end RustPlc.Analysis
