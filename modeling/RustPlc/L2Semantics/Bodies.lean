import RustPlc.L2Semantics.Registered

/-!
# The scopes of bodies

The body of a program, function or function block is analyzed in a scope of its
own inside the global one; the body of a method in a scope inside that of its
class, which holds the variables of the ancestors and of the class.

Results:
* `pou_scope`: what a name resolves to in a program, function or function block;
* `class_names`: the variables of an accepted class are new to it;
* `method_scope`: what a name resolves to in a method.
-/
namespace RustPlc.Analysis

open RustPlc.Ir RustPlc.Syntax

/-! ## Nested scopes -/

/-- Where a scope is, when it exists. -/
def SymbolTable.parentOf (t : SymbolTable) (i : Nat) : Option (Option Nat) :=
  t.scopes[i]?.map Scope.parent

namespace SymbolTable

variable {t : SymbolTable} {i p fuel : Nat} {name : String}

theorem parentOf_plain (t : SymbolTable) (i : Nat) : t.plain.parentOf i = t.parentOf i := by
  simp only [parentOf, plain, List.getElem?_map]
  cases t.scopes[i]? <;> rfl

theorem parentOf_add (t : SymbolTable) (scope : Nat) (syms : List Symbol) (i : Nat) :
    (t.add scope syms).parentOf i = t.parentOf i := by
  simp only [parentOf, add, List.getElem?_modify]
  cases t.scopes[i]? with
  | none => rfl
  | some s =>
    simp only [Option.map_eq_map, Option.map_some, Option.some.injEq]
    split <;> rfl

theorem resolveUp_parent (h : t.parentOf i = some (some p)) :
    t.resolveUp name (fuel + 1) i =
      ((t.lookupIn i name).map (Prod.mk i)).or (t.resolveUp name fuel p) := by
  rw [resolveUp, lookupIn]
  unfold parentOf at h
  cases hs : t.scopes[i]? with
  | none => rw [hs] at h; cases h
  | some s =>
    rw [hs] at h
    simp only [Option.map_some, Option.some.injEq] at h
    simp only [Option.bind_some, h]
    cases s.lookupLocal name <;> rfl

theorem resolveUp_root (h : t.parentOf i = some none) :
    t.resolveUp name (fuel + 1) i = (t.lookupIn i name).map (Prod.mk i) := by
  unfold resolveUp lookupIn
  unfold parentOf at h
  cases hs : t.scopes[i]? with
  | none => rw [hs] at h; cases h
  | some s =>
    rw [hs] at h
    simp only [Option.map_some, Option.some.injEq] at h
    simp only [Option.bind_some, h]
    cases s.lookupLocal name <;> rfl

end SymbolTable

theorem Defines.parentOf {k : Nat} {xs : List Symbol} {a b : Analyzer} (h : Defines k xs a b)
    (i : Nat) : b.symbols.parentOf i = a.symbols.parentOf i := by
  rw [← SymbolTable.parentOf_plain, h.symbols, SymbolTable.parentOf_add, SymbolTable.parentOf_plain]

theorem Later.parentOf {n i : Nat} {a b : Analyzer} (h : Later n a b) (hi : i < n) :
    b.symbols.parentOf i = a.symbols.parentOf i := by
  rw [← SymbolTable.parentOf_plain b.symbols, ← SymbolTable.parentOf_plain a.symbols,
    SymbolTable.parentOf, h.older i hi]
  rfl

/-- The analyzer in a new scope, after some declarations. -/
def within (a : Analyzer) (declare : Nat → AnalyzeM Unit) : Analyzer :=
  (declare a.symbols.scopes.length (enterScope a).2).2

section

variable (a : Analyzer)

theorem enterScope_scope : (enterScope a).2.currentScope = a.symbols.scopes.length := rfl

theorem enterScope_length :
    (enterScope a).2.symbols.scopes.length = a.symbols.scopes.length + 1 := by
  show (a.symbols.scopes ++ [_]).length = _
  rw [List.length_append]
  rfl

theorem enterScope_get {i : Nat} (h : i < a.symbols.scopes.length) :
    (enterScope a).2.symbols.scopes[i]? = a.symbols.scopes[i]? := by
  show (a.symbols.scopes ++ [_])[i]? = _
  rw [List.getElem?_append_left h]

theorem enterScope_new :
    (enterScope a).2.symbols.scopes[a.symbols.scopes.length]? =
      some ⟨some a.currentScope, []⟩ := by
  show (a.symbols.scopes ++ [_])[_]? = _
  rw [List.getElem?_concat_length]

theorem enterScope_parent :
    (enterScope a).2.symbols.parentOf a.symbols.scopes.length = some (some a.currentScope) := by
  rw [SymbolTable.parentOf, enterScope_new]
  rfl

theorem enterScope_parentOf {i : Nat} (h : i < a.symbols.scopes.length) :
    (enterScope a).2.symbols.parentOf i = a.symbols.parentOf i := by
  rw [SymbolTable.parentOf, enterScope_get a h]
  rfl

/-- A new scope is empty. -/
theorem enterScope_empty (name : String) :
    (enterScope a).2.symbols.lookupIn a.symbols.scopes.length name = none := by
  rw [SymbolTable.lookupIn, enterScope_new]
  rfl

theorem enterScope_lookupIn {i : Nat} (h : i < a.symbols.scopes.length) (name : String) :
    (enterScope a).2.symbols.lookupIn i name = a.symbols.lookupIn i name := by
  rw [SymbolTable.lookupIn, enterScope_get a h]
  rfl

/-- Entering a scope changes no declared type. -/
theorem enterScope_types (h : 0 < a.symbols.scopes.length) :
    resolveDataType (enterScope a).2.symbols = resolveDataType a.symbols := by
  funext dt
  exact resolveDataType_congr (fun name => by rw [enterScope_lookupIn a h]) dt

end

/-! ## Programs, functions and function blocks -/

/-- The analyzer is where the second pass starts an item. -/
structure AtTop (source : SourceFile) (a : Analyzer) : Prop where
  later : Later 1 (afterRegister source) a
  scope : a.currentScope = 0
  root : a.symbols.parentOf 0 = some none

theorem beforeItem_atTop {source : SourceFile} (hacc : accepts source = true)
    (pre : List TopLevelItem) : AtTop source (beforeItem source pre) := by
  have h := beforeItem_later source pre
  obtain ⟨syms, -, hd⟩ := registerAll_defines source.items (a := initialAnalyzer) Nat.zero_lt_one
    (afterRegister_noError hacc)
  refine ⟨h, h.scope.trans hd.scope, ?_⟩
  rw [h.parentOf Nat.zero_lt_one, afterRegister, hd.parentOf]
  rfl

namespace AtTop

variable {source : SourceFile} {a : Analyzer}

theorem length (h : AtTop source a) : 1 ≤ a.symbols.scopes.length :=
  Nat.le_trans (afterRegister_length source) h.later.length

end AtTop

/-- **A name in a program, function or function block is that of a variable of
its scope, or else of a global symbol.** -/
theorem pou_scope {source : SourceFile} {a b : Analyzer} (ha : AtTop source a) {syms : List Symbol}
    (hd : Defines a.symbols.scopes.length syms (enterScope a).2 b) (name : String) :
    b.symbols.resolve b.currentScope name =
      ((b.symbols.lookupIn a.symbols.scopes.length name).map
        (Prod.mk a.symbols.scopes.length)).or ((b.symbols.lookupIn 0 name).map (Prod.mk 0)) := by
  obtain ⟨k, hk⟩ : ∃ k, a.symbols.scopes.length = k + 1 := ⟨_, (Nat.sub_add_cancel ha.length).symm⟩
  have hroot : b.symbols.parentOf 0 = some none := by
    rw [hd.parentOf, enterScope_parentOf a ha.length, ha.root]
  have hpar : b.symbols.parentOf a.symbols.scopes.length = some (some 0) := by
    rw [hd.parentOf, enterScope_parent, ha.scope]
  rw [hd.scope, enterScope_scope, SymbolTable.resolve, SymbolTable.resolveUp_parent hpar]
  conv_lhs => arg 2; rw [hk]
  rw [SymbolTable.resolveUp_root hroot]

/-- The variables of a new scope. -/
theorem lookupIn_new {a b : Analyzer} {syms : List Symbol}
    (hd : Defines a.symbols.scopes.length syms (enterScope a).2 b) (name : String) :
    (b.symbols.lookupIn a.symbols.scopes.length name).map Symbol.plain =
      SymbolMap.get (entries syms).reverse (toUppercase name) := by
  rw [hd.lookupIn (by rw [enterScope_length]; omega), enterScope_empty]
  cases SymbolMap.get (entries syms).reverse (toUppercase name) <;> rfl

/-- Inside a body the global symbols are those of the first pass. -/
theorem within_keepsGlobals {source : SourceFile} {a b : Analyzer} (hk : KeepsGlobals source a)
    (hl : 1 ≤ a.symbols.scopes.length) {syms : List Symbol}
    (hd : Defines a.symbols.scopes.length syms (enterScope a).2 b) : KeepsGlobals source b :=
  (hd.later hl).keepsGlobals Nat.zero_lt_one fun name => by
    rw [enterScope_lookupIn a hl]
    exact hk name

/-! ## Declarations of bodies -/

section

variable {source : SourceFile} {a : Analyzer}

/-- The declarations of a program or a function block. -/
theorem blocks_within (h0 : 0 < a.symbols.scopes.length) {blocks : List VarBlock}
    (h : NoError (within a (defineVarBlocks · blocks))) :
    Defines a.symbols.scopes.length (blockSymbols (resolveDataType a.symbols) blocks)
      (enterScope a).2 (within a (defineVarBlocks · blocks)) := by
  rw [← enterScope_types a h0]
  exact defineVarBlocks_defines blocks (by rw [enterScope_length]; omega) h

/-- The symbol of the result of a function or method. -/
def resultSymbols (ty : DataType → Ty) (name : Identifier) (returnType : Option DataType) :
    List Symbol :=
  (returnType.map fun dt => varSymbol .var (ty dt) name).toList

theorem resultSymbols_variable {ty : DataType → Ty} {name : Identifier} {dt : Option DataType} :
    ∀ s ∈ resultSymbols ty name dt, s.isVariable = true := by
  intro s hs
  cases dt with
  | none => cases hs
  | some dt =>
    rw [List.mem_singleton.mp hs]
    rfl

theorem declareResult_defines {scope : Nat} (name : Identifier) (dt : Option DataType)
    (hfresh : ∀ n, a.symbols.lookupIn scope n = none) :
    Defines scope (resultSymbols (resolveDataType a.symbols) name dt) a
      (declareResult scope name dt a).2 := by
  cases dt with
  | none => exact .quiet (.refl a) scope
  | some dt =>
    have h : Defines scope [(implicitVar name (resolveDataType a.symbols dt) .var true false).plain] a
        (defineIn scope (implicitVar name (resolveDataType a.symbols dt) .var true false) a).2 :=
      defineIn_defines (hfresh name.name)
    exact h

/-- A result and variable blocks, with checks in between. -/
theorem result_blocks_defines {scope : Nat} {name : Identifier} {dt : Option DataType}
    {blocks : List VarBlock} {m : AnalyzeM Unit} (hm : Silent m)
    (hk : scope < a.symbols.scopes.length) (hfresh : ∀ n, a.symbols.lookupIn scope n = none)
    (h : NoError (defineVarBlocks scope blocks (m (declareResult scope name dt a).2).2).2) :
    Defines scope (resultSymbols (resolveDataType a.symbols) name dt ++
      blockSymbols (resolveDataType a.symbols) blocks) a
      (defineVarBlocks scope blocks (m (declareResult scope name dt a).2).2).2 := by
  have h1 := declareResult_defines name dt hfresh
  have hq := hm.quiet (declareResult scope name dt a).2
  have h2 := h1.trans (.quiet hq scope) hk
  rw [List.append_nil] at h2
  have h3 := defineVarBlocks_defines blocks (by rw [h2.length]; exact hk) h
  rw [h2.types hk resultSymbols_variable] at h3
  exact h2.trans h3 hk

/-- The result and the variables of a function. -/
def functionSymbols (ty : DataType → Ty) (f : FunctionDecl) : List Symbol :=
  resultSymbols ty f.name (some f.returnType) ++ blockSymbols ty f.varBlocks

def declareFunction (f : FunctionDecl) (scope : Nat) : AnalyzeM Unit := do
  declareResult scope f.name (some f.returnType)
  defineVarBlocks scope f.varBlocks

theorem function_within (h0 : 0 < a.symbols.scopes.length) {f : FunctionDecl}
    (h : NoError (within a (declareFunction f))) :
    Defines a.symbols.scopes.length (functionSymbols (resolveDataType a.symbols) f)
      (enterScope a).2 (within a (declareFunction f)) := by
  have hb : NoError (defineVarBlocks a.symbols.scopes.length f.varBlocks ((pure () : AnalyzeM Unit)
      (declareResult a.symbols.scopes.length f.name (some f.returnType) (enterScope a).2).2).2).2 := h
  have := result_blocks_defines (.pure ()) (by rw [enterScope_length]; omega)
    (enterScope_empty a) hb
  rw [enterScope_types a h0] at this
  exact this

/-- The result and the variables of a method. -/
def methodSymbols (ty : DataType → Ty) (m : MethodDecl) : List Symbol :=
  resultSymbols ty m.name m.returnType ++ blockSymbols ty m.varBlocks

theorem method_within (h0 : 0 < a.symbols.scopes.length) {cls : ClassDecl} {m : MethodDecl}
    (h : NoError (within a (declareMethod cls m))) :
    Defines a.symbols.scopes.length (methodSymbols (resolveDataType a.symbols) m)
      (enterScope a).2 (within a (declareMethod cls m)) := by
  have := result_blocks_defines (checkOverride_silent cls m) (a := (enterScope a).2)
    (by rw [enterScope_length]; omega) (enterScope_empty a) h
  rw [enterScope_types a h0] at this
  exact this

end

/-! ## Inherited variables -/

/-- The variables of blocks with the kinds of their sections. -/
def kindNames (blocks : List VarBlock) : List (VarKind × String) :=
  blocks.flatMap fun vb => vb.declarations.flatMap fun decl =>
    decl.names.map fun id => (vb.kind, id.name)

/-- The variables of these sections are seen by derived classes. -/
def isVisible : VarKind → Bool
  | .varExternal | .varGlobal => false
  | _ => true

theorem mem_blockSymbols {ty : DataType → Ty} {blocks : List VarBlock} {name : String} :
    (∃ s ∈ blockSymbols ty blocks, s.name = name) ↔ ∃ k, (k, name) ∈ kindNames blocks := by
  simp only [blockSymbols, declSymbols, kindNames, List.mem_flatMap, List.mem_map, varSymbol]
  constructor
  · rintro ⟨s, ⟨vb, hvb, decl, hdecl, id, hid, rfl⟩, rfl⟩
    exact ⟨vb.kind, vb, hvb, decl, hdecl, id, hid, rfl⟩
  · rintro ⟨k, vb, hvb, decl, hdecl, id, hid, heq⟩
    cases heq
    exact ⟨_, ⟨vb, hvb, decl, hdecl, id, hid, rfl⟩, rfl⟩

theorem blockSymbols_keys (ty : DataType → Ty) (blocks : List VarBlock) :
    (blockSymbols ty blocks).map keyOf = (kindNames blocks).map fun p => toUppercase p.2 := by
  simp [blockSymbols, declSymbols, kindNames, List.map_flatMap, keyOf, varSymbol, Function.comp_def]

theorem mem_collectParams {t : SymbolTable} {p : VarKind → Bool} {blocks : List VarBlock}
    {name : String} :
    name ∈ (collectParamsByKind t p blocks).map (·.name) ↔
      ∃ k, p k = true ∧ (k, name) ∈ kindNames blocks := by
  simp only [collectParamsByKind, kindNames, List.mem_map, List.mem_flatMap, List.mem_filter]
  constructor
  · rintro ⟨d, ⟨vb, ⟨hvb, hp⟩, decl, hdecl, id, hid, rfl⟩, rfl⟩
    exact ⟨vb.kind, hp, vb, hvb, decl, hdecl, id, hid, rfl⟩
  · rintro ⟨k, hp, vb, hvb, decl, hdecl, id, hid, heq⟩
    cases heq
    exact ⟨_, ⟨vb, ⟨hvb, hp⟩, decl, hdecl, id, hid, rfl⟩, rfl⟩

/-- The variables a derived class gets from a class. -/
theorem mem_classInfo {t : SymbolTable} {cls : ClassDecl} {name : String} :
    name ∈ ((classInfo t cls).params ++ (classInfo t cls).outputs ++ (classInfo t cls).vars).map
        (·.name) ↔ ∃ k, isVisible k = true ∧ (k, name) ∈ kindNames cls.varBlocks := by
  rw [List.map_append, List.map_append, List.mem_append, List.mem_append]
  simp only [classInfo, mem_collectParams]
  constructor
  · rintro ((⟨k, hp, h⟩ | ⟨k, hp, h⟩) | ⟨k, hp, h⟩)
    all_goals exact ⟨k, (by cases k <;> first | rfl | cases hp), h⟩
  · rintro ⟨k, hv, h⟩
    cases k with
    | var | varTemp => exact .inr ⟨_, rfl, h⟩
    | varOutput => exact .inl (.inr ⟨_, rfl, h⟩)
    | varInput | varInOut => exact .inl (.inl ⟨_, rfl, h⟩)
    | varExternal | varGlobal => cases hv

/-- Inherited variables are put into a scope once each. -/
theorem defineInherited_defines {scope : Nat} : ∀ (ps : List ParamDef) {a : Analyzer},
    scope < a.symbols.scopes.length →
      ∃ syms, Defines scope syms a (defineInherited scope ps a).2 ∧
        (∀ s ∈ syms, s.isVariable = true) ∧
        (∀ s ∈ syms, ∃ p ∈ ps, s.name = p.name) ∧
        ∀ p ∈ ps, ((defineInherited scope ps a).2.symbols.lookupIn scope p.name).isSome = true
  | [], a, _ => ⟨[], .quiet (.refl a) scope, by simp, by simp, by simp⟩
  | p :: ps, a, hk => by
    let sym : Symbol := ⟨p.name, p.ty, .variable p.varKind, noRange, true, true⟩
    by_cases hn : (a.symbols.lookupIn scope p.name).isNone = true
    · have heq : (defineInherited scope (p :: ps) a).2 =
          (defineInherited scope ps (defineIn scope sym a).2).2 := by
        rw [defineInherited]
        simp only [bind, StateT.bind, get, getThe, MonadStateOf.get, StateT.get, Pure.pure, hn,
          if_true]
        rfl
      have h1 : Defines scope [sym.plain] a (defineIn scope sym a).2 :=
        defineIn_defines (Option.isNone_iff_eq_none.mp hn)
      have hk1 : scope < (defineIn scope sym a).2.symbols.scopes.length := by
        rw [h1.length]
        exact hk
      obtain ⟨syms, hd, hv, hs, hp⟩ := defineInherited_defines ps hk1
      rw [heq]
      refine ⟨[sym.plain] ++ syms, h1.trans hd hk, ?_, ?_, ?_⟩
      · intro s hs
        rcases List.mem_append.mp hs with hs | hs
        · rw [List.mem_singleton.mp hs]
          rfl
        · exact hv s hs
      · intro s hmem
        rcases List.mem_append.mp hmem with hmem | hmem
        · rw [List.mem_singleton.mp hmem]
          exact ⟨p, List.mem_cons_self, rfl⟩
        · obtain ⟨q, hq, hname⟩ := hs s hmem
          exact ⟨q, List.mem_cons_of_mem _ hq, hname⟩
      · intro q hq
        rcases List.mem_cons.mp hq with rfl | hq
        · exact ((h1.trans hd hk).isSome_iff hk q.name).mpr
            (.inl ⟨sym.plain, List.mem_append_left _ (List.mem_singleton_self _), rfl⟩)
        · exact hp q hq
    · have heq : (defineInherited scope (p :: ps) a).2 = (defineInherited scope ps a).2 := by
        rw [defineInherited]
        simp only [bind, StateT.bind, get, getThe, MonadStateOf.get, StateT.get, Pure.pure, hn]
        rfl
      obtain ⟨syms, hd, hv, hs, hp⟩ := defineInherited_defines ps hk
      rw [heq]
      refine ⟨syms, hd, hv, fun s hmem => ?_, fun q hq => ?_⟩
      · obtain ⟨q, hq, hname⟩ := hs s hmem
        exact ⟨q, List.mem_cons_of_mem _ hq, hname⟩
      · rcases List.mem_cons.mp hq with rfl | hq
        · -- the name was there before, and what is there stays
          refine (hd.isSome_iff hk q.name).mpr (.inr ?_)
          rw [← Option.not_isNone, Bool.not_eq_true', ← Bool.not_eq_true]
          exact hn
        · exact hp q hq

/-! ## Classes -/

/-- The ancestors of a class, nearest first. -/
inductive Ancestors (source : SourceFile) : Option String → List ClassDecl → Prop
  | none : Ancestors source none []
  | some {name : String} {cls : ClassDecl} {ds : List ClassDecl}
    (mem : .classDecl cls ∈ source.items) (named : toUppercase cls.name.name = toUppercase name)
    (rest : Ancestors source cls.baseClass ds) : Ancestors source (some name) (cls :: ds)

/-- The names a class gets from its ancestors. -/
def Inherits (ds : List ClassDecl) (name : String) : Prop :=
  ∃ d ∈ ds, ∃ k n, isVisible k = true ∧ (k, n) ∈ kindNames d.varBlocks ∧
    toUppercase n = toUppercase name

/-- The checks of the head of a class. -/
def classHead (cls : ClassDecl) : AnalyzeM Unit := do
  checkBaseClass cls
  checkInterfaces cls cls.interfaces
  checkConformance cls cls.interfaces
  checkAbstract cls cls.methods

theorem setClass_defines (k : Nat) (a : Analyzer) (c : Option String) :
    Defines k [] a { a with currentClass := c } where
  diagnostics := List.prefix_rfl
  endless := id
  symbols := by rw [SymbolTable.add_nil]
  distinct := List.nodup_nil
  new := by simp
  scope := rfl

/-- The base class of a class that is accepted is a class. -/
theorem checkBaseClass_noError {cls : ClassDecl} {a : Analyzer}
    (h : NoError (checkBaseClass cls a).2) {base : String} (hb : cls.baseClass = some base) :
    ∃ info, a.symbols.resolveClass base = some info := by
  cases hr : a.symbols.resolveClass base with
  | some info => exact ⟨info, rfl⟩
  | none =>
    exfalso
    refine h ⟨.error, .undeclaredType, "undeclared base class '" ++ base ++ "'", cls.name.range⟩ ?_
      rfl
    simp [checkBaseClass, hb, hr, bind, StateT.bind, get, getThe, MonadStateOf.get, StateT.get,
      Pure.pure, error, report, modify, modifyGet, MonadStateOf.modifyGet, StateT.modifyGet]

theorem resolveClass_congr {t t' : SymbolTable} {name : String}
    (h : (t'.lookupIn 0 name).map Symbol.plain = (t.lookupIn 0 name).map Symbol.plain) :
    t'.resolveClass name = t.resolveClass name := by
  rw [← resolveClass_plain t', ← resolveClass_plain t, SymbolTable.resolveClass,
    SymbolTable.resolveClass, SymbolTable.lookupIn_plain, SymbolTable.lookupIn_plain, h]

theorem KeepsGlobals.resolveClass {source : SourceFile} {a : Analyzer} (h : KeepsGlobals source a)
    (name : String) :
    a.symbols.resolveClass name = (afterRegister source).symbols.resolveClass name :=
  resolveClass_congr (h name)

section

variable {source : SourceFile} {pre post : List TopLevelItem} {cls : ClassDecl}

/-- The analyzer in a class, before the inherited variables. -/
def inClass (cls : ClassDecl) (a : Analyzer) : Analyzer :=
  { (enterScope a).2 with currentClass := some cls.name.name }

/-- The parts of the declaration of a class. -/
theorem within_declareClass (cls : ClassDecl) (a : Analyzer) :
    within a (declareClass cls) = (defineVarBlocks a.symbols.scopes.length cls.varBlocks
      (defineInheritedVars a.symbols.scopes.length cls.baseClass
        (classHead cls (inClass cls a)).2).2).2 := rfl

theorem classHead_quiet (cls : ClassDecl) (a : Analyzer) : Quiet a (classHead cls a).2 :=
  (classHead_silent cls).quiet a

theorem analyzeClass_noError {a : Analyzer} (h : NoError (analyzeTopLevel (.classDecl cls) a).2)
    (he : (analyzeTopLevel (.classDecl cls) a).2.endless = false) :
    NoError (within a (declareClass cls)) ∧ (within a (declareClass cls)).endless = false := by
  let b := within a (declareClass cls)
  have h1 := (analyzeMethods_adds (n := 0) cls cls.methods).later b (Nat.zero_le _)
  have h2 := (analyzeProperties_adds (n := 0) cls.properties).later
    (analyzeMethods cls cls.methods b).2 (Nat.zero_le _)
  have h3 := h1.trans h2
  refine ⟨h3.noError h, ?_⟩
  cases hb : b.endless with
  | false => rfl
  | true => exact absurd (h3.endless hb) (by rw [show (analyzeProperties cls.properties
      (analyzeMethods cls cls.methods b).2).2.endless = false from he]; simp)

/-- The head of a class of an accepted source is checked without an error. -/
theorem classHead_noError (hacc : accepts source = true)
    (hs : source.items = pre ++ .classDecl cls :: post) :
    NoError (classHead cls (inClass cls (beforeItem source pre))).2 := by
  obtain ⟨hno, hend⟩ := analyzeTopLevel_noError hacc hs
  let a := beforeItem source pre
  have hn : NoError (within a (declareClass cls)) := (analyzeClass_noError hno hend).1
  rw [within_declareClass] at hn
  have h1 := ((defineInheritedVars_adds (Nat.le_refl a.symbols.scopes.length)
    cls.baseClass).bind fun _ => defineVarBlocks_adds (Nat.le_refl _) cls.varBlocks).later
      (classHead cls (inClass cls a)).2
  have hq := classHead_quiet cls (inClass cls a)
  have hlen : a.symbols.scopes.length ≤ (classHead cls (inClass cls a)).2.symbols.scopes.length := by
    refine Nat.le_trans ?_ (hq.later 0).length
    show _ ≤ (enterScope a).2.symbols.scopes.length
    rw [enterScope_length]
    omega
  exact (h1 hlen).noError hn

theorem inClass_keepsGlobals (hacc : accepts source = true) (cls : ClassDecl) :
    KeepsGlobals source (inClass cls (beforeItem source pre)) := by
  have htop := beforeItem_atTop hacc pre
  intro name
  show ((enterScope (beforeItem source pre)).2.symbols.lookupIn 0 name).map _ = _
  rw [enterScope_lookupIn (beforeItem source pre) htop.length]
  exact beforeItem_keepsGlobals source pre name

/-- The base class of a class of an accepted source passes its check. -/
theorem checkBaseClass_passed (hacc : accepts source = true)
    (hs : source.items = pre ++ .classDecl cls :: post) :
    NoError (checkBaseClass cls (inClass cls (beforeItem source pre))).2 := by
  have hrest : Silent (do
      checkInterfaces cls cls.interfaces
      checkConformance cls cls.interfaces
      checkAbstract cls cls.methods) :=
    (checkInterfaces_silent cls _).bind fun _ => (checkConformance_silent cls _).bind fun _ =>
      checkAbstract_silent cls _
  exact hrest.noError (classHead_noError hacc hs)

/-- The base class of every class of an accepted source is a class. -/
theorem base_resolved (hacc : accepts source = true) (hc : .classDecl cls ∈ source.items)
    {base : String} (hb : cls.baseClass = some base) :
    ∃ info, (afterRegister source).symbols.resolveClass base = some info := by
  obtain ⟨pre, post, hs⟩ := List.append_of_mem hc
  obtain ⟨info, hi⟩ := checkBaseClass_noError (checkBaseClass_passed hacc hs) hb
  refine ⟨info, ?_⟩
  rw [← hi]
  exact ((inClass_keepsGlobals hacc cls).resolveClass base).symm

/-- The ancestors the analyzer finds are those of the source. -/
theorem ancestors_decls (hacc : accepts source = true) {syms : List (List Symbol)} {a : Analyzer}
    (hk : KeepsGlobals source a) (hr : Registered source syms a) :
    ∀ (fuel : Nat) {base : Option String} {chain : List ClassInfo},
      (∀ b, base = some b → ∃ info, a.symbols.resolveClass b = some info) →
      ancestors a.symbols fuel base = some chain →
        ∃ ds, Ancestors source base ds ∧
          List.Forall₂ (fun info d => ∃ t, info = classInfo t d) chain ds
  | fuel, none, chain, _, h => by
    rw [ancestors] at h
    cases h
    exact ⟨[], .none, .nil⟩
  | 0, some _, _, _, h => by cases h
  | fuel + 1, some b, chain, hb, h => by
    obtain ⟨info, hi⟩ := hb b rfl
    rw [ancestors, hi] at h
    obtain ⟨cls, hcls, hname, t, rfl⟩ := hr.of_resolveClass hi
    simp only [Option.map_eq_some_iff] at h
    obtain ⟨rest, hrest, rfl⟩ := h
    have hbase : ∀ b, cls.baseClass = some b → ∃ info, a.symbols.resolveClass b = some info := by
      intro b hb
      rw [hk.resolveClass]
      exact base_resolved hacc hcls hb
    obtain ⟨ds, hds, hall⟩ := ancestors_decls hacc hk hr fuel hbase hrest
    exact ⟨cls :: ds, .some hcls hname hds, .cons ⟨t, rfl⟩ hall⟩

theorem mem_inherited {chain : List ClassInfo} {ds : List ClassDecl}
    (h : List.Forall₂ (fun info d => ∃ t, info = classInfo t d) chain ds) (name : String) :
    (∃ p ∈ chain.reverse.flatMap fun info => info.params ++ info.outputs ++ info.vars,
      toUppercase p.name = toUppercase name) ↔ Inherits ds name := by
  have hone : ∀ info d, (∃ t, info = classInfo t d) →
      ((∃ p ∈ info.params ++ info.outputs ++ info.vars, toUppercase p.name = toUppercase name) ↔
        ∃ k n, isVisible k = true ∧ (k, n) ∈ kindNames d.varBlocks ∧
          toUppercase n = toUppercase name) := by
    rintro info d ⟨t, rfl⟩
    constructor
    · rintro ⟨p, hp, hn⟩
      obtain ⟨k, hv, hk⟩ := mem_classInfo.mp (List.mem_map_of_mem hp)
      exact ⟨k, p.name, hv, hk, hn⟩
    · rintro ⟨k, n, hv, hk, hn⟩
      obtain ⟨p, hp, rfl⟩ := List.mem_map.mp (mem_classInfo.mpr ⟨k, hv, hk⟩)
      exact ⟨p, hp, hn⟩
  unfold Inherits
  constructor
  · rintro ⟨p, hp, hn⟩
    obtain ⟨info, hi, hp⟩ := List.mem_flatMap.mp hp
    obtain ⟨d, hd, ht⟩ := Registered.forall₂_mem_left h (List.mem_reverse.mp hi)
    exact ⟨d, hd, (hone info d ht).mp ⟨p, hp, hn⟩⟩
  · rintro ⟨d, hd, hx⟩
    obtain ⟨info, hi, ht⟩ := Registered.forall₂_mem_right h hd
    obtain ⟨p, hp, hn⟩ := (hone info d ht).mpr hx
    exact ⟨p, List.mem_flatMap.mpr ⟨info, List.mem_reverse.mpr hi, hp⟩, hn⟩

/-- The scope of a class: what it inherits, and its own variables under new
names. -/
structure ClassScope (source : SourceFile) (cls : ClassDecl) (ty : DataType → Ty) (a b : Analyzer)
    (ds : List ClassDecl) (inh : List Symbol) : Prop where
  ancestors : Ancestors source cls.baseClass ds
  defines : Defines a.symbols.scopes.length (inh ++ blockSymbols ty cls.varBlocks) (enterScope a).2 b
  vars : ∀ s ∈ inh, s.isVariable = true
  inherits : ∀ name, (∃ s ∈ inh, keyOf s = toUppercase name) ↔ Inherits ds name

/-- **The scope of an accepted class.** -/
theorem class_within (hacc : accepts source = true)
    (hs : source.items = pre ++ .classDecl cls :: post) :
    ∃ ds inh, ClassScope source cls (resolveDataType (beforeItem source pre).symbols)
      (beforeItem source pre) (within (beforeItem source pre) (declareClass cls)) ds inh := by
  obtain ⟨hno, hend⟩ := analyzeTopLevel_noError hacc hs
  have hc : .classDecl cls ∈ source.items := by rw [hs]; simp
  let a := beforeItem source pre
  let n := a.symbols.scopes.length
  have htop := beforeItem_atTop hacc pre
  obtain ⟨hb, hbe⟩ := analyzeClass_noError hno hend
  rw [within_declareClass] at hb hbe
  -- up to the inherited variables
  have h0 : Defines n [] (enterScope a).2 (inClass cls a) := setClass_defines n _ _
  have hn0 : n < (enterScope a).2.symbols.scopes.length := by
    rw [enterScope_length]
    exact Nat.lt_succ_self n
  have h1 := h0.trans (.quiet (classHead_quiet cls (inClass cls a)) n) hn0
  have hn1 : n < (classHead cls (inClass cls a)).2.symbols.scopes.length := by
    rw [h1.length]
    exact hn0
  have hkeep := within_keepsGlobals (beforeItem_keepsGlobals source pre) htop.length h1
  obtain ⟨syms, hreg⟩ := accepts_registered hacc
  -- the walk over the ancestors ends
  let b := (classHead cls (inClass cls a)).2
  cases hanc : ancestors b.symbols (hierarchyFuel b.symbols) cls.baseClass with
  | none =>
    exfalso
    have heq : (defineInheritedVars n cls.baseClass b).2 = (markEndless b).2 := by
      simp only [defineInheritedVars, bind, StateT.bind, get, getThe, MonadStateOf.get, StateT.get,
        Pure.pure, hanc]
    have hl := (defineVarBlocks_adds (Nat.zero_le n) cls.varBlocks).later
      (defineInheritedVars n cls.baseClass b).2 (Nat.zero_le _)
    have := hl.endless (by rw [heq]; rfl)
    rw [show (defineVarBlocks n cls.varBlocks (defineInheritedVars n cls.baseClass b).2).2.endless =
      false from hbe] at this
    cases this
  | some chain =>
    have heq : (defineInheritedVars n cls.baseClass b).2 = (defineInherited n
        (chain.reverse.flatMap fun info => info.params ++ info.outputs ++ info.vars) b).2 := by
      simp only [defineInheritedVars, bind, StateT.bind, get, getThe, MonadStateOf.get, StateT.get,
        Pure.pure, hanc]
    obtain ⟨ds, hds, hall⟩ := ancestors_decls hacc hkeep (hreg b hkeep) _
      (fun base hbase => by
        rw [hkeep.resolveClass]
        exact base_resolved hacc hc hbase) hanc
    obtain ⟨inh, hinh, hvar, hsub, hsup⟩ := defineInherited_defines
      (chain.reverse.flatMap fun info => info.params ++ info.outputs ++ info.vars) hn1
    rw [← heq] at hinh hsup
    have h2 := h1.trans hinh hn0
    have h3 := defineVarBlocks_defines cls.varBlocks (by rw [h2.length]; exact hn0) hb
    rw [h2.types hn0 (by simpa using hvar), enterScope_types a htop.length] at h3
    have h4 := h2.trans h3 hn0
    rw [List.nil_append, List.nil_append] at h4
    refine ⟨ds, inh, hds, h4, hvar, fun name => ?_⟩
    rw [← mem_inherited hall name]
    constructor
    · rintro ⟨s, hmem, hkey⟩
      obtain ⟨p, hp, hname⟩ := hsub s hmem
      exact ⟨p, hp, by rw [← hname]; exact hkey⟩
    · rintro ⟨p, hp, hname⟩
      have hsome := (hinh.isSome_iff hn1 p.name).mp (hsup p hp)
      rw [hname] at hsome
      refine hsome.resolve_right ?_
      have hempty := (h1.isSome_iff hn0 p.name).not
      rw [hempty, enterScope_empty]
      simp

/-- The variables of a class: they are distinct, and none is inherited. -/
structure ClassNames (source : SourceFile) (cls : ClassDecl) (ds : List ClassDecl) : Prop where
  ancestors : Ancestors source cls.baseClass ds
  distinct : ((kindNames cls.varBlocks).map fun p => toUppercase p.2).Nodup
  fresh : ∀ k n, (k, n) ∈ kindNames cls.varBlocks → ¬ Inherits ds n

theorem ClassScope.names {ty : DataType → Ty} {a b : Analyzer} {ds : List ClassDecl}
    {inh : List Symbol} (h : ClassScope source cls ty a b ds inh) : ClassNames source cls ds := by
  have hd := h.defines.distinct
  rw [List.map_append, blockSymbols_keys, List.nodup_append] at hd
  refine ⟨h.ancestors, hd.2.1, fun k n hn hi => ?_⟩
  obtain ⟨s, hs, hkey⟩ := (h.inherits n).mpr hi
  exact hd.2.2 _ (List.mem_map_of_mem hs) _ (List.mem_map.mpr ⟨(k, n), hn, rfl⟩) hkey

/-- **In an accepted source the variables of every class are new to it.** -/
theorem class_names (hacc : accepts source = true) (hc : .classDecl cls ∈ source.items) :
    ∃ ds, ClassNames source cls ds := by
  obtain ⟨pre, post, hs⟩ := List.append_of_mem hc
  obtain ⟨ds, inh, h⟩ := class_within hacc hs
  exact ⟨ds, h.names⟩

/-! ## Methods -/

variable {mpre mpost : List MethodDecl} {m : MethodDecl}

/-- The analyzer before a method of a class. -/
def beforeMethod (source : SourceFile) (pre : List TopLevelItem) (cls : ClassDecl)
    (mpre : List MethodDecl) : Analyzer :=
  (analyzeMethods cls mpre (within (beforeItem source pre) (declareClass cls))).2

theorem analyzeMethods_append (cls : ClassDecl) (xs ys : List MethodDecl) (a : Analyzer) :
    (analyzeMethods cls (xs ++ ys) a).2 = (analyzeMethods cls ys (analyzeMethods cls xs a).2).2 := by
  induction xs generalizing a with
  | nil => rfl
  | cons x xs ih => exact ih _

/-- Some variable of the blocks has this name. -/
def Declares (blocks : List VarBlock) (name : String) : Prop :=
  ∃ k n, (k, n) ∈ kindNames blocks ∧ toUppercase n = toUppercase name

theorem declares_iff {ty : DataType → Ty} {blocks : List VarBlock} {name : String} :
    (∃ s ∈ blockSymbols ty blocks, keyOf s = toUppercase name) ↔ Declares blocks name := by
  constructor
  · rintro ⟨s, hs, hkey⟩
    obtain ⟨k, hk⟩ := mem_blockSymbols.mp ⟨s, hs, rfl⟩
    exact ⟨k, s.name, hk, hkey⟩
  · rintro ⟨k, n, hk, hn⟩
    obtain ⟨s, hs, rfl⟩ := mem_blockSymbols.mpr ⟨k, hk⟩
    exact ⟨s, hs, hn⟩

/-- The result variable of a method or function has this name. -/
def ResultNamed (id : Identifier) (returnType : Option DataType) (name : String) : Prop :=
  returnType.isSome = true ∧ toUppercase id.name = toUppercase name

theorem resultNamed_iff {ty : DataType → Ty} {id : Identifier} {dt : Option DataType}
    {name : String} :
    (∃ s ∈ resultSymbols ty id dt, keyOf s = toUppercase name) ↔ ResultNamed id dt name := by
  cases dt <;> simp [resultSymbols, ResultNamed, keyOf, varSymbol]

/-- A scope that holds some variables and nothing else. -/
structure Holds (t : SymbolTable) (scope : Nat) (p : String → Prop) : Prop where
  isSome_iff : ∀ name, (t.lookupIn scope name).isSome = true ↔ p name
  vars : ∀ name s, t.lookupIn scope name = some s → s.isVariable = true

theorem Symbol.isVariable_plain (s : Symbol) : s.plain.isVariable = s.isVariable := rfl

/-- A new scope holds the variables that were put into it. -/
theorem holds_new {a b : Analyzer} {syms : List Symbol}
    (hd : Defines a.symbols.scopes.length syms (enterScope a).2 b)
    (hv : ∀ s ∈ syms, s.isVariable = true) {p : String → Prop}
    (hp : ∀ name, (∃ s ∈ syms, keyOf s = toUppercase name) ↔ p name) :
    Holds b.symbols a.symbols.scopes.length p := by
  have hn : a.symbols.scopes.length < (enterScope a).2.symbols.scopes.length := by
    rw [enterScope_length]
    omega
  constructor
  · intro name
    rw [hd.isSome_iff hn name, hp, enterScope_empty]
    simp
  · intro name s hs
    have hl := lookupIn_new hd name
    rw [hs] at hl
    have := hv s.plain ((get_entries hd.distinct).mp hl.symm).1
    exact this

theorem Holds.later {a b : Analyzer} {n i : Nat} {p : String → Prop} (h : Holds a.symbols i p)
    (hl : Later n a b) (hi : i < n) : Holds b.symbols i p := by
  constructor
  · intro name
    have := congrArg Option.isSome (hl.lookupIn hi name)
    rw [Option.isSome_map, Option.isSome_map] at this
    rw [this]
    exact h.isSome_iff name
  · intro name s hs
    have := hl.lookupIn hi name
    rw [hs] at this
    obtain ⟨s', hs', heq⟩ := Option.map_eq_some_iff.mp this.symm
    have hv := h.vars name s' hs'
    rw [← Symbol.isVariable_plain, heq] at hv
    exact hv

/-- The scope of a method, inside the scope of its class. -/
structure MethodScope (source : SourceFile) (cls : ClassDecl) (m : MethodDecl) (n c : Nat)
    (b : Analyzer) (ds : List ClassDecl) : Prop where
  classNames : ClassNames source cls ds
  keeps : KeepsGlobals source b
  resolve : ∀ name, b.symbols.resolve b.currentScope name =
    ((b.symbols.lookupIn n name).map (Prod.mk n)).or
      (((b.symbols.lookupIn c name).map (Prod.mk c)).or ((b.symbols.lookupIn 0 name).map (Prod.mk 0)))
  scope : b.currentScope = n
  lt : c < n
  pos : 0 < c
  own : Holds b.symbols n fun name =>
    ResultNamed m.name m.returnType name ∨ Declares m.varBlocks name
  cls : Holds b.symbols c fun name => Inherits ds name ∨ Declares cls.varBlocks name

theorem exists_mem_append {xs ys : List Symbol} {key : String} :
    (∃ s ∈ xs ++ ys, keyOf s = key) ↔ (∃ s ∈ xs, keyOf s = key) ∨ ∃ s ∈ ys, keyOf s = key := by
  simp only [List.mem_append, or_and_right, exists_or]

/-- A method of an accepted class is analyzed without an error. -/
theorem analyzeMethod_noError (hacc : accepts source = true)
    (hs : source.items = pre ++ .classDecl cls :: post) (hm : cls.methods = mpre ++ m :: mpost) :
    NoError (analyzeMethod cls m (beforeMethod source pre cls mpre)).2 := by
  obtain ⟨hno, -⟩ := analyzeTopLevel_noError hacc hs
  let C := within (beforeItem source pre) (declareClass cls)
  have h1 := (analyzeProperties_adds (n := 0) cls.properties).later
    (analyzeMethods cls cls.methods C).2 (Nat.zero_le _)
  have h2 : NoError (analyzeMethods cls cls.methods C).2 := h1.noError hno
  rw [hm, analyzeMethods_append] at h2
  have h3 := (analyzeMethods_adds (n := 0) cls mpost).later
    (analyzeMethod cls m (beforeMethod source pre cls mpre)).2 (Nat.zero_le _)
  exact h3.noError h2

/-- While the methods of an accepted class are analyzed there is no error. -/
theorem beforeMethod_noError (hacc : accepts source = true)
    (hs : source.items = pre ++ .classDecl cls :: post) (hm : cls.methods = mpre ++ m :: mpost) :
    NoError (within (beforeMethod source pre cls mpre) (declareMethod cls m)) := by
  have hq : Silent (if !m.isAbstract then analyzeStatements false m.body else pure ()) :=
    .ite (analyzeStatements_silent ..) (.pure _)
  exact hq.noError (analyzeMethod_noError hacc hs hm)

theorem beforeMethod_keeps (hacc : accepts source = true)
    (hs : source.items = pre ++ .classDecl cls :: post) (mpre : List MethodDecl) :
    KeepsGlobals source (beforeMethod source pre cls mpre) ∧
      1 ≤ (beforeMethod source pre cls mpre).symbols.scopes.length := by
  have htop := beforeItem_atTop hacc pre
  obtain ⟨ds, inh, hcls⟩ := class_within hacc hs
  have hkeeps : KeepsGlobals source (within (beforeItem source pre) (declareClass cls)) :=
    within_keepsGlobals (beforeItem_keepsGlobals source pre) htop.length hcls.defines
  have hlater := (analyzeMethods_adds cls mpre).later
    (within (beforeItem source pre) (declareClass cls)) (Nat.le_refl _)
  have hlen : 1 ≤ (within (beforeItem source pre) (declareClass cls)).symbols.scopes.length := by
    rw [hcls.defines.length, enterScope_length]
    omega
  exact ⟨hlater.keepsGlobals hlen hkeeps, Nat.le_trans hlen hlater.length⟩

/-- **The scope of a method of an accepted source.** -/
theorem method_scope (hacc : accepts source = true)
    (hs : source.items = pre ++ .classDecl cls :: post) (hm : cls.methods = mpre ++ m :: mpost) :
    ∃ n c ds, MethodScope source cls m n c
      (within (beforeMethod source pre cls mpre) (declareMethod cls m)) ds := by
  have htop := beforeItem_atTop hacc pre
  obtain ⟨ds, inh, hcls⟩ := class_within hacc hs
  let a := beforeItem source pre
  let C := within a (declareClass cls)
  let am := beforeMethod source pre cls mpre
  have hClen : C.symbols.scopes.length = a.symbols.scopes.length + 1 := by
    rw [hcls.defines.length, enterScope_length]
  have hlater : Later C.symbols.scopes.length C am :=
    (analyzeMethods_adds cls mpre).later C (Nat.le_refl _)
  have hlen : a.symbols.scopes.length < am.symbols.scopes.length := by
    have := hlater.length
    omega
  have hd := method_within (a := am) (by omega) (beforeMethod_noError hacc hs hm)
  let b := within am (declareMethod cls m)
  have hpos : 0 < a.symbols.scopes.length := htop.length
  have hamkeeps : KeepsGlobals source am := (beforeMethod_keeps hacc hs mpre).1
  -- the chain of scopes
  have hp0 : b.symbols.parentOf 0 = some none := by
    rw [hd.parentOf, enterScope_parentOf am (by omega), hlater.parentOf (by omega),
      hcls.defines.parentOf, enterScope_parentOf a hpos, htop.root]
  have hpc : b.symbols.parentOf a.symbols.scopes.length = some (some 0) := by
    rw [hd.parentOf, enterScope_parentOf am hlen, hlater.parentOf (by omega),
      hcls.defines.parentOf, enterScope_parent, htop.scope]
  have hscope : am.currentScope = a.symbols.scopes.length :=
    hlater.scope.trans (hcls.defines.scope.trans (enterScope_scope a))
  have hpn : b.symbols.parentOf am.symbols.scopes.length = some (some a.symbols.scopes.length) := by
    rw [hd.parentOf, enterScope_parent, hscope]
  refine ⟨am.symbols.scopes.length, a.symbols.scopes.length, ds, hcls.names,
    within_keepsGlobals hamkeeps (by omega) hd, fun name => ?_, hd.scope, hlen, hpos, ?_, ?_⟩
  · obtain ⟨k, hk⟩ : ∃ k, am.symbols.scopes.length = k + 2 := ⟨_, (Nat.sub_add_cancel
      (show 2 ≤ am.symbols.scopes.length by omega)).symm⟩
    rw [hd.scope, enterScope_scope, SymbolTable.resolve, SymbolTable.resolveUp_parent hpn]
    conv_lhs => arg 2; rw [hk]
    rw [SymbolTable.resolveUp_parent hpc, SymbolTable.resolveUp_root hp0]
  · refine holds_new hd ?_ fun name => ?_
    · intro s hmem
      rcases List.mem_append.mp hmem with h | h
      · exact resultSymbols_variable s h
      · exact blockSymbols_variable s h
    · rw [methodSymbols, exists_mem_append, resultNamed_iff, declares_iff]
  · have hC : Holds C.symbols a.symbols.scopes.length fun name =>
        Inherits ds name ∨ Declares cls.varBlocks name := by
      refine holds_new hcls.defines ?_ fun name => ?_
      · intro s hmem
        rcases List.mem_append.mp hmem with h | h
        · exact hcls.vars s h
        · exact blockSymbols_variable s h
      · rw [exists_mem_append, hcls.inherits, declares_iff]
    have ham : Holds am.symbols a.symbols.scopes.length fun name =>
        Inherits ds name ∨ Declares cls.varBlocks name := hC.later hlater (by omega)
    have hent : Holds (enterScope am).2.symbols a.symbols.scopes.length fun name =>
        Inherits ds name ∨ Declares cls.varBlocks name := by
      constructor
      · intro name
        rw [enterScope_lookupIn am hlen]
        exact ham.isSome_iff name
      · intro name s hl
        rw [enterScope_lookupIn am hlen] at hl
        exact ham.vars name s hl
    exact hent.later (hd.later (Nat.le_refl _)) hlen

end

end RustPlc.Analysis
