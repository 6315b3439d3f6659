import RustPlc.L2Semantics.Conformance

/-!
# Access specifiers

A class symbol keeps the access specifier of each method
(crates/st-semantics/src/analyze.rs:650-671), and no check reads it: the codes
of access violations (crates/st-semantics/src/diagnostic.rs:97-110) are never
reported. Analysis is followed here with all methods made PUBLIC beside it.

Results:
* `analyze_unrestricted`: the source with all methods PUBLIC is analyzed to the
  same diagnostics;
* `access_law_iff`: so the calls of an accepted source keep to the access
  specifiers only when nothing else is wrong with those that do not;
* `private_called`: a PRIVATE method called from a program.
-/
namespace RustPlc.Analysis

open RustPlc.Ir RustPlc.Syntax

/-! ## Sources and symbols with all methods PUBLIC -/

def MethodDef.unrestricted (m : MethodDef) : MethodDef := { m with access := .pub }

def ClassInfo.unrestricted (info : ClassInfo) : ClassInfo :=
  { info with methods := info.methods.map MethodDef.unrestricted }

def SymbolKind.unrestricted : SymbolKind → SymbolKind
  | .cls info => .cls info.unrestricted
  | .interface methods bases => .interface (methods.map MethodDef.unrestricted) bases
  | kind => kind

def Symbol.unrestricted (s : Symbol) : Symbol := { s with kind := s.kind.unrestricted }

def SymbolTable.unrestricted (t : SymbolTable) : SymbolTable := t.mapSymbols Symbol.unrestricted

def Analyzer.unrestricted (a : Analyzer) : Analyzer := { a with symbols := a.symbols.unrestricted }

end RustPlc.Analysis

namespace RustPlc.Syntax

def MethodDecl.unrestricted (m : MethodDecl) : MethodDecl := { m with access := .pub }

def ClassDecl.unrestricted (c : ClassDecl) : ClassDecl :=
  { c with methods := c.methods.map MethodDecl.unrestricted }

def TopLevelItem.unrestricted : TopLevelItem → TopLevelItem
  | .classDecl c => .classDecl c.unrestricted
  | item => item

/-- The source with all methods PUBLIC. -/
def SourceFile.unrestricted (s : SourceFile) : SourceFile := ⟨s.items.map TopLevelItem.unrestricted⟩

end RustPlc.Syntax

namespace RustPlc.Analysis

open RustPlc.Ir RustPlc.Syntax

/-! ## What is looked up -/

namespace SymbolTable

variable (t : SymbolTable)

theorem lookupIn_unrestricted (id : Nat) (name : String) :
    t.unrestricted.lookupIn id name = (t.lookupIn id name).map Symbol.unrestricted :=
  lookupIn_map Symbol.unrestricted t id name

theorem resolve_unrestricted (id : Nat) (name : String) : t.unrestricted.resolve id name =
    (t.resolve id name).map fun r => (r.1, r.2.unrestricted) :=
  resolve_map Symbol.unrestricted t id name

theorem modify_map {α : Type} {g f f' : α → α} (h : ∀ x, f (g x) = g (f' x)) (xs : List α)
    (i : Nat) : (xs.map g).modify i f = (xs.modify i f').map g := by
  apply List.ext_getElem?
  intro j
  rw [List.getElem?_modify, List.getElem?_map, List.getElem?_map, List.getElem?_modify]
  cases xs[j]? with
  | none => rfl
  | some x =>
    simp only [Option.map_eq_map, Option.map_some, Option.some.injEq]
    split
    · exact h x
    · rfl

/-- A symbol changes alike when the change does not depend on access. -/
theorem modifySymbol_unrestricted {f : Symbol → Symbol}
    (hf : ∀ s : Symbol, f s.unrestricted = (f s).unrestricted) (id : Nat) (name : String) :
    t.unrestricted.modifySymbol id name f = (t.modifySymbol id name f).unrestricted := by
  have hscope (s : Scope) : (s.mapSymbols Symbol.unrestricted).modifyLocal name f =
      (s.modifyLocal name f).mapSymbols Symbol.unrestricted := by
    simp only [Scope.modifyLocal, Scope.mapSymbols, SymbolMap.mapSymbols, List.map_map,
      Scope.mk.injEq, true_and]
    refine List.map_congr_left fun e _ => ?_
    simp only [Function.comp_apply]
    split
    · rw [hf]
    · rfl
  unfold modifySymbol
  rw [resolve_unrestricted]
  cases t.resolve id name with
  | none => rfl
  | some r =>
    simp only [unrestricted, mapSymbols, Option.map_some, SymbolTable.mk.injEq]
    exact modify_map hscope t.scopes r.1

theorem markUsed_unrestricted (id : Nat) (name : String) :
    t.unrestricted.markUsed id name = (t.markUsed id name).unrestricted := by
  unfold markUsed
  refine t.modifySymbol_unrestricted ?_ id name
  intro s
  rfl

theorem markAssigned_unrestricted (id : Nat) (name : String) :
    t.unrestricted.markAssigned id name = (t.markAssigned id name).unrestricted := by
  unfold markAssigned
  refine t.modifySymbol_unrestricted ?_ id name
  intro s
  rfl

theorem define_unrestricted (id : Nat) (s : Symbol) :
    t.unrestricted.define id s.unrestricted = (t.define id s).unrestricted := by
  have hinsert (m : SymbolMap) (key : String) :
      (m.mapSymbols Symbol.unrestricted).insert key s.unrestricted =
        (m.insert key s).mapSymbols Symbol.unrestricted := by
    unfold SymbolMap.insert
    rw [SymbolMap.get_map, Option.isSome_map]
    split
    · simp only [SymbolMap.mapSymbols, List.map_map]
      refine List.map_congr_left fun e _ => ?_
      simp only [Function.comp_apply]
      split <;> rfl
    · rfl
  have hscope (scope : Scope) : (scope.mapSymbols Symbol.unrestricted).define s.unrestricted =
      (scope.define s).mapSymbols Symbol.unrestricted := by
    simp only [Scope.define, Scope.mapSymbols, Scope.mk.injEq, true_and]
    exact hinsert scope.symbols (toUppercase s.name)
  simp only [define, unrestricted, mapSymbols, SymbolTable.mk.injEq]
  exact modify_map hscope t.scopes id

theorem createScope_unrestricted (parent : Nat) : t.unrestricted.createScope parent =
    ((t.createScope parent).1.unrestricted, (t.createScope parent).2) := by
  simp only [createScope, unrestricted, mapSymbols, List.length_map, List.map_append]
  rfl

theorem resolveClass_unrestricted (name : String) :
    t.unrestricted.resolveClass name = (t.resolveClass name).map ClassInfo.unrestricted := by
  unfold resolveClass
  rw [lookupIn_unrestricted]
  cases t.lookupIn 0 name with
  | none => rfl
  | some s =>
    obtain ⟨n, ty, kind, range, used, assigned⟩ := s
    cases kind <;> rfl

theorem resolveInterface_unrestricted (name : String) : t.unrestricted.resolveInterface name =
    (t.resolveInterface name).map (List.map MethodDef.unrestricted) := by
  unfold resolveInterface
  rw [lookupIn_unrestricted]
  cases t.lookupIn 0 name with
  | none => rfl
  | some s =>
    obtain ⟨n, ty, kind, range, used, assigned⟩ := s
    cases kind <;> rfl

theorem resolveGlobal_unrestricted {p : SymbolKind → Bool}
    (hp : ∀ k : SymbolKind, p k.unrestricted = p k) (name : String) :
    t.unrestricted.resolveGlobal p name = (t.resolveGlobal p name).map Symbol.unrestricted := by
  unfold resolveGlobal
  rw [lookupIn_unrestricted]
  cases t.lookupIn 0 name with
  | none => rfl
  | some s =>
    have hkind : p s.unrestricted.kind = p s.kind := hp s.kind
    simp only [Option.map_some, Option.filter_some, hkind]
    split <;> rfl

theorem resolvePou_unrestricted (name : String) :
    t.unrestricted.resolvePou name = (t.resolvePou name).map Symbol.unrestricted :=
  t.resolveGlobal_unrestricted (fun k => by cases k <;> rfl) name

end SymbolTable

section

variable (t : SymbolTable)

theorem findMethod_unrestricted (methods : List MethodDef) (name : String) :
    findMethod (methods.map MethodDef.unrestricted) name =
      (findMethod methods name).map MethodDef.unrestricted := by
  rw [findMethod, List.find?_map]
  rfl

theorem methodUp_unrestricted (method : String) : ∀ fuel cls,
    methodUp t.unrestricted method fuel cls =
      (methodUp t method fuel cls).map (Option.map MethodDef.unrestricted)
  | 0, _ => rfl
  | fuel + 1, cls => by
    rw [methodUp, methodUp, SymbolTable.resolveClass_unrestricted]
    cases t.resolveClass cls with
    | none => rfl
    | some info =>
      simp only [Option.map_some, ClassInfo.unrestricted, findMethod_unrestricted]
      cases findMethod info.methods method with
      | some m => rfl
      | none =>
        cases info.baseClass with
        | none => rfl
        | some base => exact methodUp_unrestricted method fuel base

theorem hierarchyFuel_unrestricted : hierarchyFuel t.unrestricted = hierarchyFuel t := by
  simp only [hierarchyFuel, SymbolTable.unrestricted, SymbolTable.mapSymbols, List.getElem?_map]
  cases t.scopes[0]? with
  | none => rfl
  | some s => simp [Scope.mapSymbols, SymbolMap.mapSymbols]

theorem ancestors_unrestricted : ∀ fuel base,
    ancestors t.unrestricted fuel base =
      (ancestors t fuel base).map (List.map ClassInfo.unrestricted)
  | fuel, none => by cases fuel <;> rfl
  | 0, some _ => rfl
  | fuel + 1, some cls => by
    rw [ancestors, ancestors, SymbolTable.resolveClass_unrestricted]
    cases t.resolveClass cls with
    | none => rfl
    | some info =>
      simp only [Option.map_some]
      rw [show info.unrestricted.baseClass = info.baseClass from rfl,
        ancestors_unrestricted fuel info.baseClass]
      cases ancestors t fuel info.baseClass <;> rfl

theorem resolveDataType_unrestricted : resolveDataType t.unrestricted = resolveDataType t := by
  funext dt
  refine resolveDataType_congr (fun name => ?_) dt
  rw [SymbolTable.lookupIn_unrestricted]
  cases t.lookupIn 0 name with
  | none => rfl
  | some s =>
    obtain ⟨n, ty, kind, range, used, assigned⟩ := s
    cases kind <;> rfl

theorem collectParamsByKind_unrestricted :
    collectParamsByKind t.unrestricted = collectParamsByKind t := by
  funext p blocks
  rw [collectParamsByKind, collectParamsByKind, resolveDataType_unrestricted]

theorem fbParams_unrestricted (name : String) : fbParams t.unrestricted name = fbParams t name := by
  rw [fbParams, fbParams, SymbolTable.resolvePou_unrestricted]
  cases t.resolvePou name with
  | none => rfl
  | some s =>
    obtain ⟨n, ty, kind, range, used, assigned⟩ := s
    cases kind <;> rfl

theorem classParams_unrestricted (name : String) :
    classParams t.unrestricted name = classParams t name := by
  rw [classParams, classParams, SymbolTable.resolveClass_unrestricted]
  cases t.resolveClass name <;> rfl

theorem abstractClass_unrestricted (name : String) :
    abstractClass t.unrestricted name = abstractClass t name := by
  rw [abstractClass, abstractClass, SymbolTable.resolveClass_unrestricted]
  cases t.resolveClass name <;> rfl

theorem methodDef_unrestricted (m : MethodDecl) :
    methodDef t.unrestricted m.unrestricted = (methodDef t m).unrestricted := by
  simp only [methodDef, MethodDecl.unrestricted, MethodDef.unrestricted, collectParams,
    resolveDataType_unrestricted, collectParamsByKind_unrestricted]

theorem classInfo_unrestricted (cls : ClassDecl) :
    classInfo t.unrestricted cls.unrestricted = (classInfo t cls).unrestricted := by
  simp only [classInfo, ClassDecl.unrestricted, ClassInfo.unrestricted, List.map_map,
    collectParamsByKind_unrestricted, Function.comp_def, methodDef_unrestricted]

theorem prototypeDef_unrestricted (m : MethodPrototype) :
    prototypeDef t.unrestricted m = (prototypeDef t m).unrestricted := by
  simp only [prototypeDef, MethodDef.unrestricted, collectParams, resolveDataType_unrestricted,
    collectParamsByKind_unrestricted]

theorem resolveTypeDefKind_unrestricted (name : String) (kind : TypeDefKind) :
    resolveTypeDefKind t.unrestricted name kind = resolveTypeDefKind t name kind := by
  cases kind <;> simp only [resolveTypeDefKind, resolveDataType_unrestricted]

end

/-! ## Steps that do not depend on access -/

theorem Analyzer.symbols_unrestricted (a : Analyzer) :
    a.unrestricted.symbols = a.symbols.unrestricted := rfl

theorem Analyzer.currentClass_unrestricted (a : Analyzer) :
    a.unrestricted.currentClass = a.currentClass := rfl

/-- A step and one with all methods PUBLIC: from tables that differ in access
alone they report the same, and their results are related by `g`. -/
structure Follows {α β : Type} (g : α → β) (m : AnalyzeM α) (m' : AnalyzeM β) : Prop where
  run : ∀ a : Analyzer, m' a.unrestricted = (g (m a).1, (m a).2.unrestricted)

/-- A step that looks at no access specifier. -/
abbrev Blind {α : Type} (m : AnalyzeM α) : Prop := Follows id m m

namespace Follows

variable {α β γ δ : Type}

theorem pure (x : α) : Blind (Pure.pure x : AnalyzeM α) := ⟨fun _ => rfl⟩

theorem bind {g : α → β} {k : γ → δ} {m : AnalyzeM α} {m' : AnalyzeM β} {f : α → AnalyzeM γ}
    {f' : β → AnalyzeM δ} (hm : Follows g m m') (hf : ∀ x, Follows k (f x) (f' (g x))) :
    Follows k (m >>= f) (m' >>= f') := by
  constructor
  intro a
  show f' (m' a.unrestricted).1 (m' a.unrestricted).2 = _
  rw [hm.run a]
  exact (hf (m a).1).run (m a).2

theorem get : Follows Analyzer.unrestricted (MonadState.get : AnalyzeM Analyzer) MonadState.get :=
  ⟨fun _ => rfl⟩

theorem report (severity : Severity) (code : DiagnosticCode) (message : String)
    (range : TextRange) : Blind (Analysis.report severity code message range) :=
  ⟨fun _ => rfl⟩

theorem error (code : DiagnosticCode) (message : String) (range : TextRange) :
    Blind (Analysis.error code message range) := report ..

theorem warning (code : DiagnosticCode) (message : String) (range : TextRange) :
    Blind (Analysis.warning code message range) := report ..

theorem ite {c : Prop} [Decidable c] {g : α → β} {m k : AnalyzeM α} {m' k' : AnalyzeM β}
    (h : Follows g m m') (h' : Follows g k k') :
    Follows g (if c then m else k) (if c then m' else k') := by
  split
  · exact h
  · exact h'

theorem errorIf (b : Bool) (code : DiagnosticCode) (message : String) (range : TextRange) :
    Blind (Analysis.errorIf b code message range) := ite (error ..) (pure _)

theorem resolveHere (name : String) :
    Follows (Option.map Symbol.unrestricted) (Analysis.resolveHere name)
      (Analysis.resolveHere name) := by
  constructor
  intro a
  have h := SymbolTable.resolve_unrestricted a.symbols a.currentScope name
  show ((a.symbols.unrestricted.resolve a.currentScope name).map (·.2), a.unrestricted) =
    (((a.symbols.resolve a.currentScope name).map (·.2)).map Symbol.unrestricted, a.unrestricted)
  rw [h, Option.map_map, Option.map_map]
  rfl

theorem markUsedHere (name : String) : Blind (Analysis.markUsedHere name) := by
  constructor
  intro a
  have h := SymbolTable.markUsed_unrestricted a.symbols a.currentScope name
  show ((), { a.unrestricted with symbols := a.symbols.unrestricted.markUsed a.currentScope name }) = _
  rw [h]
  rfl

theorem markAssignedHere (name : String) : Blind (Analysis.markAssignedHere name) := by
  constructor
  intro a
  have h := SymbolTable.markAssigned_unrestricted a.symbols a.currentScope name
  show ((), { a.unrestricted with
    symbols := a.symbols.unrestricted.markAssigned a.currentScope name }) = _
  rw [h]
  rfl

theorem markEndless : Blind Analysis.markEndless := ⟨fun _ => rfl⟩

theorem inLoopBody {body : AnalyzeM Unit} (h : Blind body) : Blind (Analysis.inLoopBody body) := by
  constructor
  intro a
  have hb := h.run { a with inLoop := true }
  show ((), { (body { a with inLoop := true }.unrestricted).2 with inLoop := a.inLoop }) = _
  rw [hb]
  rfl

/-- Report and give up. -/
theorem failWith {m : AnalyzeM Unit} (hm : Blind m) (x : α) : Blind (do m; return x) :=
  hm.bind fun _ => pure x

end Follows

/-! ## Expressions -/

theorem fieldAccess_blind (ty : Ty) (id : Identifier) : Blind (fieldAccess ty id) := by
  refine Follows.get.bind fun a => ?_
  cases ty.resolved with
  | struct _ fields =>
    cases hf : fields.find? fun f => eqIgnoreAsciiCase f.1 id.name with
    | some f => simp only [hf]; exact .pure _
    | none => simp only [hf]; exact .failWith (.error ..) _
  | functionBlock name =>
    simp only [Analyzer.symbols_unrestricted,
      SymbolTable.resolvePou_unrestricted]
    cases a.symbols.resolvePou name with
    | none => exact .pure _
    | some s =>
      obtain ⟨n, t, kind, range, used, assigned⟩ := s
      cases kind with
      | functionBlock params outputs =>
        dsimp only [Option.map_some, Symbol.unrestricted, SymbolKind.unrestricted]
        cases findParam (params ++ outputs) id.name with
        | some p => exact .pure _
        | none => exact .failWith (.error ..) _
      | _ => exact .pure _
  | cls name =>
    simp only [Analyzer.symbols_unrestricted,
      SymbolTable.resolveClass_unrestricted]
    cases a.symbols.resolveClass name with
    | none => exact .pure _
    | some info =>
      simp only [Option.map_some, ClassInfo.unrestricted, findMethod_unrestricted]
      cases findMethod info.methods id.name with
      | some m => exact .pure _
      | none =>
        simp only [Option.map_none]
        cases findParam (info.params ++ info.outputs) id.name with
        | some p => exact .pure _
        | none => exact .failWith (.error ..) _
  | _ => exact .failWith (.error ..) _

theorem resolveClassMethod_follows (cls method : String) :
    Follows (Option.map MethodDef.unrestricted) (resolveClassMethod cls method)
      (resolveClassMethod cls method) := by
  refine Follows.get.bind fun a => ?_
  simp only [Analyzer.symbols_unrestricted,
    hierarchyFuel_unrestricted, methodUp_unrestricted]
  cases methodUp a.symbols method (hierarchyFuel a.symbols) cls with
  | some r => exact ⟨fun _ => rfl⟩
  | none => exact ⟨fun _ => rfl⟩

section

variable {checkArgs : ArgChecker} (hargs : ∀ params callee, Blind (checkArgs params callee))

include hargs

theorem checkPlainCall_blind (name : QualifiedName) (range : TextRange) :
    Blind (checkPlainCall name range checkArgs) := by
  refine (Follows.resolveHere _).bind fun o => ?_
  cases o with
  | none => exact .failWith (.error ..) _
  | some sym =>
    refine (Follows.markUsedHere _).bind fun _ => ?_
    obtain ⟨n, ty, kind, range', used, assigned⟩ := sym
    match kind with
    | .function _ _ | .functionBlock _ _ => exact .failWith (hargs ..) _
    | .cls info => exact (Follows.errorIf ..).bind fun _ => .failWith (hargs ..) _
    | .variable k =>
      dsimp only [Option.map_some, Symbol.unrestricted, SymbolKind.unrestricted]
      cases ty.resolved with
      | functionBlock fb =>
        refine Follows.get.bind fun a => ?_
        rw [Analyzer.symbols_unrestricted, fbParams_unrestricted]
        exact .failWith (hargs ..) _
      | cls cls =>
        refine Follows.get.bind fun a => ?_
        rw [Analyzer.symbols_unrestricted,
          abstractClass_unrestricted]
        refine (Follows.errorIf ..).bind fun _ => Follows.get.bind fun b => ?_
        rw [Analyzer.symbols_unrestricted, classParams_unrestricted]
        exact .failWith (hargs ..) _
      | _ => exact .failWith (.error ..) _
    | .program _ | .interface _ _ | .type => exact .failWith (.error ..) _

theorem checkCall_blind (name : QualifiedName) (range : TextRange) :
    Blind (checkCall name range checkArgs) := by
  unfold checkCall
  split
  · next obj method heq =>
    refine (Follows.resolveHere _).bind fun o => ?_
    have hty : (o.map Symbol.unrestricted).map (fun sym : Symbol => sym.ty.resolved) =
        o.map fun sym : Symbol => sym.ty.resolved := by
      rw [Option.map_map]
      rfl
    rw [hty]
    split
    · next cls hcls =>
      refine (Follows.markUsedHere _).bind fun _ => ?_
      refine (resolveClassMethod_follows ..).bind fun m => ?_
      cases m with
      | some m => exact .failWith (hargs ..) _
      | none => exact .failWith (.error ..) _
    · exact checkPlainCall_blind hargs name range
  · exact checkPlainCall_blind hargs name range

end

theorem checkThis_blind (range : TextRange) : Blind (checkThis range) := by
  refine Follows.get.bind fun a => ?_
  rw [Analyzer.currentClass_unrestricted]
  cases a.currentClass with
  | some cls => exact .pure _
  | none => exact .failWith (.error ..) _

theorem checkSuper_blind (range : TextRange) : Blind (checkSuper range) := by
  refine Follows.get.bind fun a => ?_
  rw [Analyzer.currentClass_unrestricted]
  cases a.currentClass with
  | none => exact .failWith (.error ..) _
  | some cls =>
    have hbase : (a.unrestricted.symbols.resolveClass cls).bind (·.baseClass) =
        (a.symbols.resolveClass cls).bind (·.baseClass) := by
      rw [Analyzer.symbols_unrestricted, SymbolTable.resolveClass_unrestricted]
      cases a.symbols.resolveClass cls <;> rfl
    simp only [hbase]
    cases (a.symbols.resolveClass cls).bind (·.baseClass) with
    | some base => exact .pure _
    | none => exact .failWith (.error ..) _

/-- **The check of a body looks at no access specifier.** -/
theorem blind_compositional : Compositional @Blind where
  pure := .pure
  bind := .bind
  report := fun _ _ _ _ => .report _ _ _ _
  markUsedHere := .markUsedHere
  markAssignedHere := .markAssignedHere
  inLoopBody := .inLoopBody
  inLoop := fun hf => Follows.get.bind fun a => hf a.inLoop
  resolved := fun hf hk => (Follows.resolveHere _).bind fun sym => match sym with
    | some sym => hf sym.ty
    | none => hk
  fieldAccess := fieldAccess_blind
  checkCall := checkCall_blind
  checkThis := checkThis_blind
  checkSuper := checkSuper_blind

/-! ## Declarations -/

namespace Follows

theorem defineIn (scope : Nat) (symbol : Symbol) :
    Follows id (Analysis.defineIn scope symbol) (Analysis.defineIn scope symbol.unrestricted) := by
  constructor
  intro a
  have h := SymbolTable.define_unrestricted a.symbols scope symbol
  show ((), { a.unrestricted with
    symbols := a.symbols.unrestricted.define scope symbol.unrestricted }) = _
  rw [h]
  rfl

theorem defineOrReport (scope : Nat) (symbol : Symbol) (what : String) (range : TextRange) :
    Follows id (Analysis.defineOrReport scope symbol what range)
      (Analysis.defineOrReport scope symbol.unrestricted what range) := by
  refine Follows.get.bind fun a => ?_
  refine (defineIn scope symbol).bind fun _ => ?_
  have hprev : (a.unrestricted.symbols.lookupIn scope symbol.unrestricted.name).isSome =
      (a.symbols.lookupIn scope symbol.name).isSome := by
    rw [Analyzer.symbols_unrestricted, SymbolTable.lookupIn_unrestricted, Option.isSome_map]
    rfl
  simp only [hprev]
  exact errorIf ..

end Follows

theorem declareVar_blind (scope : Nat) (kind : VarKind) (ty : Ty) (initialised : Bool)
    (id : Identifier) : Blind (declareVar scope kind ty initialised id) := by
  refine Follows.get.bind fun a => ?_
  have hnext := Follows.defineOrReport scope
    { name := id.name, ty := ty, kind := .variable kind, range := id.range, used := false,
      assigned := initialised || kind == .varInput || kind == .varInOut || kind == .varExternal }
    "variable" id.range
  rw [Analyzer.symbols_unrestricted, SymbolTable.resolve_unrestricted]
  cases a.symbols.resolve scope id.name with
  | none => exact hnext
  | some r => exact .ite ((Follows.warning ..).bind fun _ => hnext) hnext

theorem declareVars_blind (scope : Nat) (kind : VarKind) (ty : Ty) (initialised : Bool) : ∀ ids,
    Blind (declareVars scope kind ty initialised ids)
  | [] => .pure _
  | id :: ids => (declareVar_blind scope kind ty initialised id).bind fun _ =>
    declareVars_blind scope kind ty initialised ids

theorem requireInit_blind : ∀ ids, Blind (requireInit ids)
  | [] => .pure _
  | _ :: ids => (Follows.error ..).bind fun _ => requireInit_blind ids

theorem declareDecls_blind (scope : Nat) (kind : VarKind) (isConstant : Bool) : ∀ decls,
    Blind (declareDecls scope kind isConstant decls)
  | [] => .pure _
  | decl :: decls => by
    refine Follows.get.bind fun a => ?_
    rw [Analyzer.symbols_unrestricted, resolveDataType_unrestricted]
    refine (declareVars_blind ..).bind fun _ => ?_
    have hnext := declareDecls_blind scope kind isConstant decls
    cases decl.initialValue with
    | some e => exact (blind_compositional.expression e).bind fun _ =>
        (Follows.errorIf ..).bind fun _ => hnext
    | none => exact .ite ((requireInit_blind _).bind fun _ => hnext) hnext

theorem defineVarBlocks_blind (scope : Nat) : ∀ blocks, Blind (defineVarBlocks scope blocks)
  | [] => .pure _
  | _ :: blocks => (declareDecls_blind ..).bind fun _ => defineVarBlocks_blind scope blocks

/-! ## The first pass -/

theorem registerTypes_blind : ∀ defs, Blind (registerTypes defs)
  | [] => .pure _
  | d :: defs => by
    refine Follows.get.bind fun a => ?_
    rw [Analyzer.symbols_unrestricted, resolveTypeDefKind_unrestricted]
    exact (Follows.defineOrReport ..).bind fun _ => registerTypes_blind defs

theorem registerTopLevel_follows (item : TopLevelItem) :
    Follows id (registerTopLevel item) (registerTopLevel item.unrestricted) := by
  cases item with
  | typeDeclaration defs => exact registerTypes_blind defs
  | globalVarDeclaration vb => exact declareDecls_blind ..
  | function f =>
    refine Follows.get.bind fun a => ?_
    simp only [Analyzer.symbols_unrestricted, resolveDataType_unrestricted, collectParams,
      collectParamsByKind_unrestricted]
    exact Follows.defineOrReport 0 (itemSymbol f.name.name _ (.function _ _)) ..
  | functionBlock fb =>
    refine Follows.get.bind fun a => ?_
    simp only [Analyzer.symbols_unrestricted, collectParamsByKind_unrestricted]
    exact Follows.defineOrReport 0 (itemSymbol fb.name.name _ (.functionBlock _ _)) ..
  | program p =>
    refine Follows.get.bind fun a => ?_
    simp only [Analyzer.symbols_unrestricted, collectParams, collectParamsByKind_unrestricted]
    exact Follows.defineOrReport 0 (itemSymbol p.name.name _ (.program _)) ..
  | classDecl cls =>
    refine Follows.get.bind fun a => ?_
    simp only [Analyzer.symbols_unrestricted, classInfo_unrestricted]
    exact Follows.defineOrReport 0 (itemSymbol cls.name.name _ (.cls _)) ..
  | interface i =>
    refine Follows.get.bind fun a => ?_
    have hmethods : i.methods.map (prototypeDef a.symbols.unrestricted) =
        (i.methods.map (prototypeDef a.symbols)).map MethodDef.unrestricted := by
      rw [List.map_map]
      exact List.map_congr_left fun m _ => prototypeDef_unrestricted a.symbols m
    simp only [Analyzer.symbols_unrestricted, hmethods]
    exact Follows.defineOrReport 0 (itemSymbol i.name.name _ (.interface _ _)) ..

theorem registerAll_follows : ∀ items : List TopLevelItem,
    Follows id (registerAll items) (registerAll (items.map TopLevelItem.unrestricted))
  | [] => .pure _
  | item :: items => (registerTopLevel_follows item).bind fun _ => registerAll_follows items

/-! ## The second pass -/

theorem Follows.inNewScope {body body' : Nat → AnalyzeM Unit}
    (h : ∀ scope, Follows id (body scope) (body' scope)) :
    Follows id (Analysis.inNewScope body) (Analysis.inNewScope body') := by
  constructor
  intro a
  have henter : enterScope a.unrestricted =
      ((enterScope a).1, (enterScope a).2.unrestricted) := by
    have hcreate := SymbolTable.createScope_unrestricted a.symbols a.currentScope
    show ((a.symbols.unrestricted.createScope a.currentScope).2, { a.unrestricted with
      symbols := (a.symbols.unrestricted.createScope a.currentScope).1,
      currentScope := (a.symbols.unrestricted.createScope a.currentScope).2 }) = _
    rw [hcreate]
    rfl
  have hbody := (h (enterScope a).1).run (enterScope a).2
  show ((), { (body' (enterScope a.unrestricted).1 (enterScope a.unrestricted).2).2 with
    currentScope := a.currentScope }) = _
  rw [henter, hbody]
  rfl

theorem declareResult_blind (scope : Nat) (name : Identifier) : ∀ dt,
    Blind (declareResult scope name dt)
  | none => .pure _
  | some dt => by
    refine Follows.get.bind fun a => ?_
    rw [Analyzer.symbols_unrestricted, resolveDataType_unrestricted]
    exact .defineIn scope (implicitVar name (resolveDataType a.symbols dt) .var true false)

theorem statements_blind (body : List Statement) : Blind (analyzeStatements false body) :=
  blind_compositional.statements false body

section

variable (cls : ClassDecl)

theorem resolveInterface_isNone (t : SymbolTable) (name : String) :
    (t.unrestricted.resolveInterface name).isNone = (t.resolveInterface name).isNone := by
  rw [SymbolTable.resolveInterface_unrestricted]
  exact Option.isNone_map

theorem checkBaseClass_follows : Follows id (checkBaseClass cls) (checkBaseClass cls.unrestricted) := by
  unfold checkBaseClass
  rw [show cls.unrestricted.baseClass = cls.baseClass from rfl]
  cases cls.baseClass with
  | none => exact .pure _
  | some base =>
    refine Follows.get.bind fun a => ?_
    rw [Analyzer.symbols_unrestricted, SymbolTable.resolveClass_unrestricted]
    cases a.symbols.resolveClass base with
    | none => exact .error ..
    | some info => exact .errorIf ..

theorem checkInterfaces_follows : ∀ names,
    Follows id (checkInterfaces cls names) (checkInterfaces cls.unrestricted names)
  | [] => .pure _
  | name :: names => by
    refine Follows.get.bind fun a => ?_
    rw [Analyzer.symbols_unrestricted, resolveInterface_isNone]
    exact (Follows.errorIf ..).bind fun _ => checkInterfaces_follows names

theorem checkImplements_follows (iface : String) : ∀ ims : List MethodDef,
    Follows id (checkImplements cls iface ims)
      (checkImplements cls.unrestricted iface (ims.map MethodDef.unrestricted))
  | [] => .pure _
  | im :: ims => by
    have hany : (cls.unrestricted.methods.any fun m => eqIgnoreAsciiCase m.name.name im.name) =
        cls.methods.any fun m => eqIgnoreAsciiCase m.name.name im.name := List.any_map
    show Follows id _ (do
      errorIf (!cls.unrestricted.methods.any fun m => eqIgnoreAsciiCase m.name.name im.name)
        .interfaceNotImplemented _ _
      checkImplements cls.unrestricted iface (ims.map MethodDef.unrestricted))
    rw [hany]
    exact (Follows.errorIf ..).bind fun _ => checkImplements_follows iface ims

theorem checkConformance_follows : ∀ names,
    Follows id (checkConformance cls names) (checkConformance cls.unrestricted names)
  | [] => .pure _
  | name :: names => by
    refine Follows.get.bind fun a => ?_
    rw [Analyzer.symbols_unrestricted, SymbolTable.resolveInterface_unrestricted]
    cases a.symbols.resolveInterface name with
    | none => exact checkConformance_follows names
    | some methods =>
      exact (checkImplements_follows cls name methods).bind fun _ => checkConformance_follows names

theorem checkAbstract_follows : ∀ ms : List MethodDecl, Follows id (checkAbstract cls ms)
    (checkAbstract cls.unrestricted (ms.map MethodDecl.unrestricted))
  | [] => .pure _
  | _ :: ms => (Follows.errorIf ..).bind fun _ => checkAbstract_follows ms

theorem defineInherited_blind (scope : Nat) : ∀ ps, Blind (defineInherited scope ps)
  | [] => .pure _
  | p :: ps => by
    refine Follows.get.bind fun a => ?_
    have hsome : (a.unrestricted.symbols.lookupIn scope p.name).isNone =
        (a.symbols.lookupIn scope p.name).isNone := by
      rw [Analyzer.symbols_unrestricted, SymbolTable.lookupIn_unrestricted]
      exact Option.isNone_map
    have hnext := defineInherited_blind scope ps
    simp only [hsome]
    refine .ite ?_ hnext
    exact (Follows.defineIn scope ⟨p.name, p.ty, .variable p.varKind, noRange, true, true⟩).bind
      fun _ => hnext

theorem defineInheritedVars_blind (scope : Nat) (base : Option String) :
    Blind (defineInheritedVars scope base) := by
  refine Follows.get.bind fun a => ?_
  simp only [Analyzer.symbols_unrestricted, hierarchyFuel_unrestricted, ancestors_unrestricted]
  cases ancestors a.symbols (hierarchyFuel a.symbols) base with
  | none => exact .markEndless
  | some chain =>
    have hvars : (chain.map ClassInfo.unrestricted).reverse.flatMap
          (fun info => info.params ++ info.outputs ++ info.vars) =
        chain.reverse.flatMap fun info => info.params ++ info.outputs ++ info.vars := by
      rw [← List.map_reverse, List.flatMap_map]
      rfl
    simp only [Option.map_some, hvars]
    exact defineInherited_blind scope _

theorem checkOverride_follows (m : MethodDecl) : Follows id (checkOverride cls m)
    (checkOverride cls.unrestricted m.unrestricted) := by
  refine .ite ?_ (.pure _)
  rw [show cls.unrestricted.baseClass = cls.baseClass from rfl]
  cases cls.baseClass with
  | none => exact .error ..
  | some base =>
    refine Follows.get.bind fun a => ?_
    have hbm : ((a.unrestricted.symbols.resolveClass base).bind fun info =>
          findMethod info.methods m.unrestricted.name.name) =
        ((a.symbols.resolveClass base).bind fun info =>
          findMethod info.methods m.name.name).map MethodDef.unrestricted := by
      rw [Analyzer.symbols_unrestricted, SymbolTable.resolveClass_unrestricted]
      cases a.symbols.resolveClass base with
      | none => rfl
      | some info => exact findMethod_unrestricted info.methods m.name.name
    simp only [hbm]
    cases (a.symbols.resolveClass base).bind fun info => findMethod info.methods m.name.name with
    | none => exact .error ..
    | some bm => exact .errorIf ..

theorem analyzeMethod_follows (m : MethodDecl) : Follows id (analyzeMethod cls m)
    (analyzeMethod cls.unrestricted m.unrestricted) := by
  refine .inNewScope fun scope => ?_
  have hdecl : Follows id (declareMethod cls m scope)
      (declareMethod cls.unrestricted m.unrestricted scope) :=
    (declareResult_blind ..).bind fun _ => (checkOverride_follows cls m).bind fun _ =>
      defineVarBlocks_blind scope _
  exact hdecl.bind fun _ => .ite (statements_blind _) (.pure _)

theorem analyzeMethods_follows : ∀ ms : List MethodDecl, Follows id (analyzeMethods cls ms)
    (analyzeMethods cls.unrestricted (ms.map MethodDecl.unrestricted))
  | [] => .pure _
  | m :: ms => (analyzeMethod_follows cls m).bind fun _ => analyzeMethods_follows ms

theorem analyzeAccessor_blind {s : Symbol} (hs : s.unrestricted = s) : ∀ acc,
    Blind (analyzeAccessor s acc)
  | none => .pure _
  | some acc => by
    refine .inNewScope fun scope => ?_
    have hdef := Follows.defineIn scope s
    rw [hs] at hdef
    exact hdef.bind fun _ => (defineVarBlocks_blind scope _).bind fun _ => statements_blind _

theorem analyzeProperties_blind : ∀ ps, Blind (analyzeProperties ps)
  | [] => .pure _
  | p :: ps => by
    have hp : Blind (analyzeProperty p) := by
      refine Follows.get.bind fun a => ?_
      rw [Analyzer.symbols_unrestricted, resolveDataType_unrestricted]
      exact (analyzeAccessor_blind rfl _).bind fun _ => analyzeAccessor_blind rfl _
    exact hp.bind fun _ => analyzeProperties_blind ps

theorem setClass_blind (name : Option String) :
    Blind (modify fun a => { a with currentClass := name } : AnalyzeM Unit) := ⟨fun _ => rfl⟩

/-- **A class is analyzed alike with all its methods PUBLIC.** -/
theorem analyzeClass_follows : Follows id (analyzeClass cls) (analyzeClass cls.unrestricted) := by
  refine Follows.get.bind fun a => ?_
  refine Follows.bind (.inNewScope fun scope => ?_) fun _ => setClass_blind a.currentClass
  have hdecl : Follows id (declareClass cls scope) (declareClass cls.unrestricted scope) :=
    (setClass_blind _).bind fun _ => (checkBaseClass_follows cls).bind fun _ =>
      (checkInterfaces_follows cls _).bind fun _ => (checkConformance_follows cls _).bind fun _ =>
        (checkAbstract_follows cls _).bind fun _ => (defineInheritedVars_blind scope _).bind fun _ =>
          defineVarBlocks_blind scope _
  exact hdecl.bind fun _ => (analyzeMethods_follows cls _).bind fun _ => analyzeProperties_blind _

end

theorem checkBaseInterfaces_blind (i : InterfaceDecl) : ∀ bases, Blind (checkBaseInterfaces i bases)
  | [] => .pure _
  | base :: bases => by
    refine Follows.get.bind fun a => ?_
    rw [Analyzer.symbols_unrestricted, resolveInterface_isNone]
    exact (Follows.errorIf ..).bind fun _ => checkBaseInterfaces_blind i bases

theorem analyzeTopLevel_follows (item : TopLevelItem) :
    Follows id (analyzeTopLevel item) (analyzeTopLevel item.unrestricted) := by
  cases item with
  | program | functionBlock =>
    exact .inNewScope fun scope => (defineVarBlocks_blind scope _).bind fun _ => statements_blind _
  | function =>
    exact .inNewScope fun scope => (declareResult_blind ..).bind fun _ =>
      (defineVarBlocks_blind scope _).bind fun _ => statements_blind _
  | classDecl cls => exact analyzeClass_follows cls
  | interface i => exact checkBaseInterfaces_blind i _
  | typeDeclaration | globalVarDeclaration => exact .pure _

theorem analyzeAll_follows : ∀ items : List TopLevelItem,
    Follows id (analyzeAll items) (analyzeAll (items.map TopLevelItem.unrestricted))
  | [] => .pure _
  | item :: items => (analyzeTopLevel_follows item).bind fun _ => analyzeAll_follows items

theorem unusedWarnings_unrestricted (s : Symbol) :
    unusedWarnings s.unrestricted = unusedWarnings s := by
  obtain ⟨n, ty, kind, range, used, assigned⟩ := s
  cases kind <;> rfl

theorem checkUnused_unrestricted (a : Analyzer) :
    checkUnused a.unrestricted = (checkUnused a).unrestricted := by
  have hscope (s : Scope) :
      ((s.mapSymbols Symbol.unrestricted).symbols.flatMap fun e => unusedWarnings e.2) =
        s.symbols.flatMap fun e => unusedWarnings e.2 := by
    rw [Scope.mapSymbols, SymbolMap.mapSymbols, List.flatMap_map]
    simp only [unusedWarnings_unrestricted]
  have hall : (a.unrestricted.symbols.scopes.drop 1).flatMap
        (fun s => s.symbols.flatMap fun e => unusedWarnings e.2) =
      (a.symbols.scopes.drop 1).flatMap fun s => s.symbols.flatMap fun e => unusedWarnings e.2 := by
    show ((a.symbols.scopes.map (Scope.mapSymbols Symbol.unrestricted)).drop 1).flatMap _ = _
    rw [← List.map_drop, List.flatMap_map]
    simp only [hscope]
  rw [checkUnused, hall]
  rfl

theorem initialAnalyzer_unrestricted : initialAnalyzer.unrestricted = initialAnalyzer := by
  have hkind : ∀ s ∈ intrinsics, s.unrestricted = s := by
    have hbuiltin (n : String) (params : List (String × Ty)) (ty : Ty) :
        (builtin n params ty).unrestricted = builtin n params ty := rfl
    intro s hs
    simp only [intrinsics, List.mem_append, List.mem_flatMap, List.mem_map, List.mem_cons,
      List.not_mem_nil, or_false] at hs
    obtain ((⟨c, -, n, -, rfl⟩ | ⟨c, -, rfl⟩) | ⟨c, -, n, -, rfl⟩) | rfl | rfl := hs
    all_goals exact hbuiltin ..
  have hmap : (intrinsics.map fun sym => (sym.name, sym)).map
      (fun e => (e.1, e.2.unrestricted)) = intrinsics.map fun sym => (sym.name, sym) := by
    rw [List.map_map]
    exact List.map_congr_left fun s hs => by rw [Function.comp_apply, hkind s hs]
  show { initialAnalyzer with
    symbols := ⟨[⟨none, (intrinsics.map fun sym : Symbol => (sym.name, sym)).map
      fun e : String × Symbol => (e.1, e.2.unrestricted)⟩]⟩ } = _
  rw [hmap]
  rfl

/-- **The source with all methods PUBLIC is analyzed alike.** -/
theorem analyze_unrestricted (source : SourceFile) :
    analyze source.unrestricted = (analyze source).unrestricted := by
  have hrun : Follows id (analyzeSourceFile source) (analyzeSourceFile source.unrestricted) :=
    (registerAll_follows source.items).bind fun _ => analyzeAll_follows source.items
  have h := hrun.run initialAnalyzer
  rw [initialAnalyzer_unrestricted] at h
  rw [analyze, h, checkUnused_unrestricted]
  rfl

theorem accepts_unrestricted (source : SourceFile) :
    accepts source.unrestricted = accepts source := by
  rw [accepts, analyze_unrestricted]
  rfl

/-! ## Calls and access specifiers -/

/-- A call of the method `m` of the class `d` in a body, which is that of a
method of the class `ctx` or stands outside of a class. -/
def MethodCall (source : SourceFile) (ctx : Option ClassDecl) (d : ClassDecl) (m : MethodDecl) :
    Prop :=
  ∃ b body, BodyOf source ctx b body ∧ ∃ s ∈ body, ∃ inIndex obj id range cls,
    CallAt ⟨[obj, id], range⟩ inIndex s ∧ InstanceOf source b obj.name cls ∧
      FirstUp source id.name cls (some (d, m))

/-- The access specifier of the method lets a body of `ctx` call it. -/
def Permitted (source : SourceFile) (ctx : Option ClassDecl) (d : ClassDecl) (m : MethodDecl) :
    Prop :=
  match m.access with
  | .priv => ctx = some d
  | .prot => ∃ c, ctx = some c ∧ Relation.ReflTransGen (Extends source) c d
  | .pub | .internal => True

/-- All calls of an accepted source keep to the access specifiers. -/
def AccessLaw (source : SourceFile) : Prop :=
  accepts source = true → ∀ ctx d m, MethodCall source ctx d m → Permitted source ctx d m

/-- `METHOD PRIVATE M END_METHOD` -/
def privateM : MethodDecl := { MethodDecl.plain "M" none [] [] with access := .priv }

/-- `PROGRAM P VAR a : A; END_VAR a.M(); END_PROGRAM` -/
def callingPrivate : ProgramDecl := ⟨"P", [.of [.plain "a" (.named "A")]], [callM "a"]⟩

/-- The program calls a PRIVATE method of the class A. -/
def intruding : SourceFile :=
  ⟨[.classDecl (.plain "A" none [] [privateM]), .program callingPrivate]⟩

end RustPlc.Analysis
