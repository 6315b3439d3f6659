import RustPlc.L2Semantics.Frame

/-!
# What the analyzer declares

As long as no error is reported, every name that is defined in a scope is new
there, so a scope holds exactly the symbols that were put into it, the newest
first (`SymbolTable.add`, `Defines`). The scopes that exist before an item is
analyzed are not changed by it (`Later`).

Results:
* `defineVarBlocks_defines`: the symbols of variable blocks;
* `registerAll_defines`: the symbols of the first pass;
* `analyzeAll_adds`: the second pass leaves the global scope alone.
-/
namespace RustPlc.Analysis

open RustPlc.Ir RustPlc.Syntax

/-! ## Steps that only add -/

def NoError (a : Analyzer) : Prop := ∀ d ∈ a.diagnostics, d.severity ≠ .error

/-- A silent check that ends without an error was made where there was none. -/
theorem Silent.noError {α : Type} {m : AnalyzeM α} {a : Analyzer} (hm : Silent m)
    (h : NoError (m a).2) : NoError a :=
  fun d hd => h d ((hm.quiet a).diagnostics.subset hd)

/-- From `a` to `a'` diagnostics and scopes were added, and the scopes numbered
below `n` kept their declarations. -/
structure Later (n : Nat) (a a' : Analyzer) : Prop where
  diagnostics : a.diagnostics <+: a'.diagnostics
  endless : a.endless = true → a'.endless = true
  older : ∀ i < n, a'.symbols.plain.scopes[i]? = a.symbols.plain.scopes[i]?
  length : a.symbols.scopes.length ≤ a'.symbols.scopes.length
  scope : a'.currentScope = a.currentScope

namespace Later

variable {n : Nat} {a b c : Analyzer}

theorem trans (h : Later n a b) (h' : Later n b c) : Later n a c where
  diagnostics := h.diagnostics.trans h'.diagnostics
  endless := fun he => h'.endless (h.endless he)
  older := fun i hi => (h'.older i hi).trans (h.older i hi)
  length := Nat.le_trans h.length h'.length
  scope := h'.scope.trans h.scope

theorem noError (h : Later n a b) (hb : NoError b) : NoError a :=
  fun d hd => hb d (h.diagnostics.subset hd)

end Later

theorem plain_length (t : SymbolTable) : t.plain.scopes.length = t.scopes.length := by
  simp [SymbolTable.plain]

theorem Quiet.later {a a' : Analyzer} (h : Quiet a a') (n : Nat) : Later n a a' where
  diagnostics := h.diagnostics
  endless := h.endless
  older := fun _ _ => by rw [h.symbols]
  length := Nat.le_of_eq (by rw [← plain_length a.symbols, ← plain_length a'.symbols, h.symbols])
  scope := h.scope

/-- A step that changes no scope numbered below `n`, reports no cycle of classes and, when it
keeps the global scope, walks on only where a walk does not end. -/
structure Adds {α : Type} (n : Nat) (m : AnalyzeM α) : Prop where
  later : ∀ a, n ≤ a.symbols.scopes.length → Later n a (m a).2
  codes : ∀ a, n ≤ a.symbols.scopes.length →
    ∀ d ∈ (m a).2.diagnostics, d ∈ a.diagnostics ∨ d.code ≠ .circularInheritance
  ends : ∀ a, 0 < n → n ≤ a.symbols.scopes.length → Climbs a.symbols →
    (m a).2.endless = a.endless

theorem Later.climbs {n : Nat} {a a' : Analyzer} (h : Later n a a') (hn : 0 < n)
    (ha : Climbs a.symbols) : Climbs a'.symbols := ha.of_globals (h.older 0 hn)

namespace Adds

variable {α β : Type} {n : Nat}

theorem silent {m : AnalyzeM α} (h : Silent m) : Adds n m where
  later := fun a _ => (h.quiet a).later n
  codes := fun a _ => (h.quiet a).tame.codes
  ends := fun a _ _ hc => ((h.quiet a).tame.climbs hc).1

theorem pure (x : α) : Adds n (Pure.pure x : AnalyzeM α) := silent (.pure x)

theorem bind {m : AnalyzeM α} {f : α → AnalyzeM β} (hm : Adds n m) (hf : ∀ x, Adds n (f x)) :
    Adds n (m >>= f) := by
  constructor
  · intro a ha
    have h1 := hm.later a ha
    exact h1.trans ((hf (m a).1).later (m a).2 (Nat.le_trans ha h1.length))
  · intro a ha d hd
    have h1 := hm.later a ha
    exact ((hf (m a).1).codes (m a).2 (Nat.le_trans ha h1.length) d hd).elim (hm.codes a ha d) .inr
  · intro a hn ha hc
    have h1 := hm.later a ha
    exact ((hf (m a).1).ends (m a).2 hn (Nat.le_trans ha h1.length) (h1.climbs hn hc)).trans
      (hm.ends a hn ha hc)

theorem get : Adds n (MonadState.get : AnalyzeM Analyzer) := silent .get

theorem defineIn {scope : Nat} (h : n ≤ scope) (symbol : Symbol) :
    Adds n (Analysis.defineIn scope symbol) := by
  refine ⟨fun a ha => ?_, fun _ _ _ => .inl, fun _ _ _ _ => rfl⟩
  refine ⟨List.prefix_rfl, id, fun i hi => ?_, ?_, rfl⟩
  · simp only [Analysis.defineIn, SymbolTable.define, SymbolTable.plain, modify, modifyGet,
      MonadStateOf.modifyGet, StateT.modifyGet, Pure.pure, List.getElem?_map,
      List.getElem?_modify]
    have hne : scope ≠ i := by omega
    cases a.symbols.scopes[i]? with
    | none => rfl
    | some s => simp [hne]
  · simp [Analysis.defineIn, SymbolTable.define, modify, modifyGet, MonadStateOf.modifyGet,
      StateT.modifyGet, Pure.pure]

theorem ite {c : Prop} [Decidable c] {m m' : AnalyzeM α} (h : Adds n m) (h' : Adds n m') :
    Adds n (if c then m else m') := by
  split
  · exact h
  · exact h'

end Adds

/-! ## Adding symbols to a scope -/

def keyOf (s : Symbol) : String := toUppercase s.name

def entries (syms : List Symbol) : SymbolMap := syms.map fun s => (keyOf s, s)

/-- The scope with more symbols, the last one in front. -/
def Scope.add (s : Scope) (syms : List Symbol) : Scope :=
  { s with symbols := (entries syms).reverse ++ s.symbols }

def SymbolTable.add (t : SymbolTable) (scope : Nat) (syms : List Symbol) : SymbolTable :=
  ⟨t.scopes.modify scope (·.add syms)⟩

theorem Scope.add_append (s : Scope) (xs ys : List Symbol) : (s.add xs).add ys = s.add (xs ++ ys) := by
  simp [Scope.add, entries]

theorem SymbolTable.add_append (t : SymbolTable) (scope : Nat) (xs ys : List Symbol) :
    (t.add scope xs).add scope ys = t.add scope (xs ++ ys) := by
  simp only [add, SymbolTable.mk.injEq]
  apply List.ext_getElem?
  intro i
  simp only [List.getElem?_modify]
  cases t.scopes[i]? with
  | none => rfl
  | some s =>
    by_cases hi : scope = i
    · simp [hi, Scope.add_append]
    · simp [hi]

theorem SymbolTable.add_nil (t : SymbolTable) (scope : Nat) : t.add scope [] = t := by
  have : (fun s : Scope => s.add []) = id := by
    funext s
    rfl
  simp [add, this, List.modify_id]

theorem get_append {xs ys : SymbolMap} {key : String} :
    SymbolMap.get (xs ++ ys) key = (SymbolMap.get xs key).or (SymbolMap.get ys key) := by
  simp only [SymbolMap.get, List.find?_append]
  cases xs.find? fun e => e.1 == key <;> rfl

theorem get_none_iff {m : SymbolMap} {key : String} :
    SymbolMap.get m key = none ↔ ∀ e ∈ m, e.1 ≠ key := by
  simp [SymbolMap.get]

/-- With distinct names a symbol is found under its name. -/
theorem get_entries {syms : List Symbol} (hn : (syms.map keyOf).Nodup) {sym : Symbol} {key : String} :
    SymbolMap.get (entries syms).reverse key = some sym ↔ sym ∈ syms ∧ keyOf sym = key := by
  have hkeys : ∀ s ∈ syms, ∀ s' ∈ syms, keyOf s = keyOf s' → s = s' :=
    fun s hs s' hs' h => List.inj_on_of_nodup_map hn hs hs' h
  constructor
  · intro h
    simp only [SymbolMap.get, Option.map_eq_some_iff] at h
    obtain ⟨e, he, rfl⟩ := h
    have hmem := List.mem_of_find?_eq_some he
    have hkey := List.find?_some he
    simp only [entries, List.mem_reverse, List.mem_map] at hmem
    obtain ⟨s, hs, rfl⟩ := hmem
    exact ⟨hs, by simpa using hkey⟩
  · rintro ⟨hs, rfl⟩
    cases hf : SymbolMap.get (entries syms).reverse (keyOf sym) with
    | none =>
      have := get_none_iff.mp hf (keyOf sym, sym) (by simp [entries, hs])
      exact absurd rfl this
    | some s' =>
      simp only [SymbolMap.get, Option.map_eq_some_iff] at hf
      obtain ⟨e, he, rfl⟩ := hf
      have hmem := List.mem_of_find?_eq_some he
      have hkey := List.find?_some he
      simp only [entries, List.mem_reverse, List.mem_map] at hmem
      obtain ⟨s, hs', rfl⟩ := hmem
      rw [hkeys s hs' sym hs (by simpa using hkey)]

namespace SymbolTable

variable {t : SymbolTable} {scope : Nat} {syms : List Symbol} {name : String}

@[simp] theorem length_add (t : SymbolTable) (scope : Nat) (syms : List Symbol) :
    (t.add scope syms).scopes.length = t.scopes.length := by
  simp [add]

theorem lookupIn_add_ne {i : Nat} (h : i ≠ scope) :
    (t.add scope syms).lookupIn i name = t.lookupIn i name := by
  simp only [lookupIn, add, List.getElem?_modify]
  cases t.scopes[i]? with
  | none => rfl
  | some s => simp [h.symm]

theorem lookupIn_add_self (h : scope < t.scopes.length) :
    (t.add scope syms).lookupIn scope name =
      (SymbolMap.get (entries syms).reverse (toUppercase name)).or (t.lookupIn scope name) := by
  simp only [lookupIn, add, List.getElem?_modify, List.getElem?_eq_getElem h, if_true]
  exact get_append

theorem plain_add (t : SymbolTable) (scope : Nat) (syms : List Symbol) :
    (t.add scope syms).plain = t.plain.add scope (syms.map Symbol.plain) := by
  simp only [plain, add, SymbolTable.mk.injEq]
  apply List.ext_getElem?
  intro i
  simp only [List.getElem?_map, List.getElem?_modify]
  cases t.scopes[i]? with
  | none => rfl
  | some s =>
    by_cases hi : scope = i
    · simp [hi, Scope.add, Scope.plain, SymbolMap.plain, entries, Function.comp_def, keyOf,
        Symbol.plain]
    · simp [hi]

/-- A definition of a new name adds its symbol. -/
theorem define_new {sym : Symbol} (h : t.lookupIn scope sym.name = none) :
    t.define scope sym = t.add scope [sym] := by
  simp only [define, add, SymbolTable.mk.injEq]
  apply List.ext_getElem?
  intro i
  simp only [List.getElem?_modify]
  cases hs : t.scopes[i]? with
  | none => rfl
  | some s =>
    by_cases hi : scope = i
    · subst hi
      have hget : SymbolMap.get s.symbols (toUppercase sym.name) = none := by
        simpa [lookupIn, hs, Scope.lookupLocal] using h
      simp [Scope.define, SymbolMap.insert, hget, Scope.add, entries, keyOf]
    · simp [hi]

end SymbolTable

/-! ## Definitions without errors -/

/-- From `a` to `a'` the given symbols were put into a scope, all of them under
new names; diagnostics were added. -/
structure Defines (scope : Nat) (syms : List Symbol) (a a' : Analyzer) : Prop where
  diagnostics : a.diagnostics <+: a'.diagnostics
  endless : a.endless = true → a'.endless = true
  symbols : a'.symbols.plain = a.symbols.plain.add scope syms
  distinct : (syms.map keyOf).Nodup
  new : ∀ s ∈ syms, a.symbols.lookupIn scope s.name = none
  scope : a'.currentScope = a.currentScope

namespace Defines

variable {k : Nat} {xs ys : List Symbol} {a b c : Analyzer}

theorem length (h : Defines k xs a b) : b.symbols.scopes.length = a.symbols.scopes.length := by
  rw [← plain_length b.symbols, h.symbols, SymbolTable.length_add, plain_length]

theorem quiet (h : Quiet a b) (k : Nat) : Defines k [] a b where
  diagnostics := h.diagnostics
  endless := h.endless
  symbols := by rw [SymbolTable.add_nil, h.symbols]
  distinct := List.nodup_nil
  new := by simp
  scope := h.scope

/-- What is looked up afterwards. -/
theorem lookupIn (h : Defines k xs a b) (hk : k < a.symbols.scopes.length) (name : String) :
    (b.symbols.lookupIn k name).map Symbol.plain =
      (SymbolMap.get (entries xs).reverse (toUppercase name)).or
        ((a.symbols.lookupIn k name).map Symbol.plain) := by
  rw [← SymbolTable.lookupIn_plain, h.symbols,
    SymbolTable.lookupIn_add_self (by rw [plain_length]; exact hk), SymbolTable.lookupIn_plain]

theorem get_isSome {syms : List Symbol} {key : String} :
    (SymbolMap.get (entries syms).reverse key).isSome = true ↔ ∃ s ∈ syms, keyOf s = key := by
  rw [← not_iff_not, Bool.not_eq_true, Option.isSome_eq_false_iff, Option.isNone_iff_eq_none,
    get_none_iff]
  simp [entries]

/-- The names that are found afterwards. -/
theorem isSome_iff (h : Defines k xs a b) (hk : k < a.symbols.scopes.length) (name : String) :
    (b.symbols.lookupIn k name).isSome = true ↔
      (∃ s ∈ xs, keyOf s = toUppercase name) ∨ (a.symbols.lookupIn k name).isSome = true := by
  have hl := congrArg Option.isSome (h.lookupIn hk name)
  rw [Option.isSome_map, Option.isSome_or, Option.isSome_map] at hl
  rw [hl, Bool.or_eq_true, get_isSome]

theorem trans (h : Defines k xs a b) (h' : Defines k ys b c) (hk : k < a.symbols.scopes.length) :
    Defines k (xs ++ ys) a c where
  diagnostics := h.diagnostics.trans h'.diagnostics
  endless := fun he => h'.endless (h.endless he)
  symbols := by rw [h'.symbols, h.symbols, SymbolTable.add_append]
  distinct := by
    rw [List.map_append]
    refine List.nodup_append.mpr ⟨h.distinct, h'.distinct, ?_⟩
    rintro key hx _ hy rfl
    obtain ⟨x, hx', rfl⟩ := List.mem_map.mp hx
    obtain ⟨y, hy, heq⟩ := List.mem_map.mp hy
    have hb := h.lookupIn hk y.name
    have heq : toUppercase y.name = keyOf x := heq
    rw [h'.new y hy, heq, (get_entries h.distinct).mpr ⟨hx', rfl⟩] at hb
    cases hb
  new := by
    intro s hs
    rcases List.mem_append.mp hs with hs | hs
    · exact h.new s hs
    · have hb := h.lookupIn hk s.name
      rw [h'.new s hs] at hb
      cases ha : a.symbols.lookupIn k s.name with
      | none => rfl
      | some sym =>
        rw [ha] at hb
        cases hg : SymbolMap.get (entries xs).reverse (toUppercase s.name) with
        | none =>
          rw [hg] at hb
          cases hb
        | some sym' =>
          rw [hg] at hb
          cases hb
  scope := h'.scope.trans h.scope

theorem later (h : Defines k xs a b) {n : Nat} (hn : n ≤ k) : Later n a b where
  diagnostics := h.diagnostics
  endless := h.endless
  older := by
    intro i hi
    rw [h.symbols]
    simp only [SymbolTable.add, List.getElem?_modify]
    have hne : k ≠ i := by omega
    cases a.symbols.plain.scopes[i]? with
    | none => rfl
    | some s => simp [hne]
  length := Nat.le_of_eq h.length.symm
  scope := h.scope

end Defines

/-! ## The second pass only adds -/

section

variable {n scope : Nat} (hn : n ≤ scope)

include hn

theorem defineOrReport_adds (symbol : Symbol) (what : String) (range : TextRange) :
    Adds n (defineOrReport scope symbol what range) :=
  Adds.get.bind fun _ => (Adds.defineIn hn symbol).bind fun _ => .silent (.errorIf (by decide) ..)

theorem declareVar_adds (kind : VarKind) (ty : Ty) (initialised : Bool) (id : Identifier) :
    Adds n (declareVar scope kind ty initialised id) := by
  refine Adds.get.bind fun a => ?_
  split
  · split
    · exact (Adds.silent (.warning (by decide) ..)).bind fun _ => defineOrReport_adds hn _ _ _
    · exact defineOrReport_adds hn _ _ _
  · exact defineOrReport_adds hn _ _ _

theorem declareVars_adds (kind : VarKind) (ty : Ty) (initialised : Bool) : ∀ ids,
    Adds n (declareVars scope kind ty initialised ids)
  | [] => .pure _
  | id :: ids => (declareVar_adds hn kind ty initialised id).bind fun _ =>
    declareVars_adds kind ty initialised ids

omit hn in
theorem requireInit_silent : ∀ ids, Silent (requireInit ids)
  | [] => .pure _
  | _ :: ids => (Silent.error (by decide) ..).bind fun _ => requireInit_silent ids

omit hn in
/-- The check of an initial value. -/
theorem checkInit_silent (decl : VarDeclaration) (ty : Ty) (isConstant : Bool) :
    Silent (match decl.initialValue with
    | some e => do
      let initTy ← checkExpression e
      errorIf (!isTypeCompatible initTy ty && !initTy.isUnknown && !literalFitsInTarget e ty)
        .typeMismatchAssignment ("cannot initialize '" ++ ty.displayName ++ "' variable with '" ++
          initTy.displayName ++ "' value") e.range
    | none => if isConstant then requireInit decl.names else pure ()) := by
  split
  · exact (checkExpression_silent _).bind fun _ => .errorIf (by decide) ..
  · exact .ite (requireInit_silent _) (.pure _)

theorem declareDecls_adds (kind : VarKind) (isConstant : Bool) : ∀ decls,
    Adds n (declareDecls scope kind isConstant decls)
  | [] => .pure _
  | decl :: decls => by
    refine Adds.get.bind fun a => (declareVars_adds hn kind _ _ _).bind fun _ => ?_
    have hrest := declareDecls_adds kind isConstant decls
    cases decl.initialValue with
    | some e => exact (Adds.silent (checkExpression_silent e)).bind fun _ =>
        (Adds.silent (.errorIf (by decide) ..)).bind fun _ => hrest
    | none =>
      cases isConstant with
      | true => exact (Adds.silent (requireInit_silent _)).bind fun _ => hrest
      | false => exact hrest

theorem defineVarBlocks_adds : ∀ blocks, Adds n (defineVarBlocks scope blocks)
  | [] => .pure _
  | vb :: vbs => (declareDecls_adds hn vb.kind _ vb.declarations).bind fun _ =>
    defineVarBlocks_adds vbs

theorem declareResult_adds (name : Identifier) : ∀ dt, Adds n (declareResult scope name dt)
  | some _ => Adds.get.bind fun _ => .defineIn hn _
  | none => .pure _

omit hn in
theorem checkOverride_silent (cls : ClassDecl) (m : MethodDecl) : Silent (checkOverride cls m) := by
  refine .ite ?_ (.pure _)
  split
  · refine Silent.get.bind fun a => ?_
    split
    · exact .errorIf (by decide) ..
    · exact .error (by decide) ..
  · exact .error (by decide) ..

theorem declareMethod_adds (cls : ClassDecl) (m : MethodDecl) : Adds n (declareMethod cls m scope) :=
  (declareResult_adds hn m.name m.returnType).bind fun _ =>
    (Adds.silent (checkOverride_silent cls m)).bind fun _ => defineVarBlocks_adds hn m.varBlocks

theorem defineInherited_adds : ∀ ps, Adds n (defineInherited scope ps)
  | [] => .pure _
  | p :: ps => by
    refine Adds.get.bind fun a => ?_
    split
    · exact (Adds.defineIn hn _).bind fun _ => defineInherited_adds ps
    · exact defineInherited_adds ps

omit hn in
theorem defineInheritedVars_state (baseClass : Option String) (a : Analyzer) :
    (defineInheritedVars scope baseClass a).2 =
      match ancestors a.symbols (hierarchyFuel a.symbols) baseClass with
      | some chain => (defineInherited scope
          (chain.reverse.flatMap fun info : ClassInfo =>
            info.params ++ info.outputs ++ info.vars) a).2
      | none => { a with endless := true } := by
  rw [defineInheritedVars]
  simp only [bind, StateT.bind, get, getThe, MonadStateOf.get, StateT.get, Pure.pure]
  cases ancestors a.symbols (hierarchyFuel a.symbols) baseClass <;> rfl

theorem defineInheritedVars_adds (baseClass : Option String) :
    Adds n (defineInheritedVars scope baseClass) := by
  have hadds := fun ps => defineInherited_adds hn ps
  constructor
  · intro a ha
    rw [defineInheritedVars_state]
    split
    · exact (hadds _).later a ha
    · exact ⟨List.prefix_rfl, fun _ => rfl, fun _ _ => rfl, Nat.le_refl _, rfl⟩
  · intro a ha
    rw [defineInheritedVars_state]
    split
    · exact (hadds _).codes a ha
    · exact fun d => .inl
  · intro a h0 ha hc
    rw [defineInheritedVars_state]
    split
    · exact (hadds _).ends a h0 ha hc
    · next hnone => exact absurd hnone (hc.ancestors baseClass)

end

/-- A new scope, left again. -/
theorem inNewScope_adds {n : Nat} {body : Nat → AnalyzeM Unit}
    (h : ∀ scope, n ≤ scope → Adds n (body scope)) : Adds n (inNewScope body) := by
  let inside : Analyzer → Analyzer := fun a => { a with
    symbols := (a.symbols.createScope a.currentScope).1
    currentScope := a.symbols.scopes.length }
  have hlength : ∀ a, a.symbols.scopes.length ≤ (inside a).symbols.scopes.length := by
    intro a
    simp [inside, SymbolTable.createScope]
  have holder : ∀ (a : Analyzer) i, i < a.symbols.scopes.length →
      (inside a).symbols.plain.scopes[i]? = a.symbols.plain.scopes[i]? := by
    intro a i hi
    have hlt : i < (a.symbols.scopes.map Scope.plain).length := by
      rw [List.length_map]
      omega
    simp only [inside, SymbolTable.createScope, SymbolTable.plain, List.map_append]
    rw [List.getElem?_append_left hlt]
  constructor
  · intro a ha
    have hl := (h a.symbols.scopes.length ha).later (inside a) (Nat.le_trans ha (hlength a))
    refine ⟨hl.diagnostics, hl.endless, fun i hi => ?_, Nat.le_trans (hlength a) hl.length, rfl⟩
    exact (hl.older i hi).trans (holder a i (by omega))
  · intro a ha
    exact (h a.symbols.scopes.length ha).codes (inside a) (Nat.le_trans ha (hlength a))
  · intro a hn ha hc
    have hin : Climbs (inside a).symbols := hc.of_globals (holder a 0 (by omega))
    exact (h a.symbols.scopes.length ha).ends (inside a) hn (Nat.le_trans ha (hlength a)) hin

section

variable {n : Nat}

theorem analyzeMethod_adds (cls : ClassDecl) (m : MethodDecl) : Adds n (analyzeMethod cls m) :=
  inNewScope_adds fun _ hs => (declareMethod_adds hs cls m).bind fun _ =>
    .ite (.silent (analyzeStatements_silent ..)) (.pure _)

theorem analyzeMethods_adds (cls : ClassDecl) : ∀ ms, Adds n (analyzeMethods cls ms)
  | [] => .pure _
  | m :: ms => (analyzeMethod_adds cls m).bind fun _ => analyzeMethods_adds cls ms

theorem analyzeAccessor_adds (symbol : Symbol) : ∀ acc, Adds n (analyzeAccessor symbol acc)
  | some acc => inNewScope_adds fun _ hs => (Adds.defineIn hs symbol).bind fun _ =>
    (defineVarBlocks_adds hs acc.varBlocks).bind fun _ => .silent (analyzeStatements_silent ..)
  | none => .pure _

theorem analyzeProperties_adds : ∀ ps, Adds n (analyzeProperties ps)
  | [] => .pure _
  | _ :: ps => Adds.bind
    (Adds.get.bind fun _ => (analyzeAccessor_adds _ _).bind fun _ => analyzeAccessor_adds _ _)
    fun _ => analyzeProperties_adds ps

theorem checkBaseClass_silent (cls : ClassDecl) : Silent (checkBaseClass cls) := by
  unfold checkBaseClass
  split
  · refine Silent.get.bind fun a => ?_
    split
    · exact .errorIf (by decide) ..
    · exact .error (by decide) ..
  · exact .pure _

theorem checkInterfaces_silent (cls : ClassDecl) : ∀ names, Silent (checkInterfaces cls names)
  | [] => .pure _
  | _ :: names => Silent.get.bind fun _ => (Silent.errorIf (by decide) ..).bind fun _ =>
    checkInterfaces_silent cls names

theorem checkImplements_silent (cls : ClassDecl) (iface : String) : ∀ ims,
    Silent (checkImplements cls iface ims)
  | [] => .pure _
  | _ :: ims => (Silent.errorIf (by decide) ..).bind fun _ => checkImplements_silent cls iface ims

theorem checkConformance_silent (cls : ClassDecl) : ∀ names, Silent (checkConformance cls names)
  | [] => .pure _
  | name :: names => by
    refine Silent.get.bind fun a => ?_
    cases a.symbols.resolveInterface name with
    | some methods =>
      exact (checkImplements_silent cls name methods).bind fun _ =>
        checkConformance_silent cls names
    | none => exact checkConformance_silent cls names

theorem checkAbstract_silent (cls : ClassDecl) : ∀ ms, Silent (checkAbstract cls ms)
  | [] => .pure _
  | _ :: ms => (Silent.errorIf (by decide) ..).bind fun _ => checkAbstract_silent cls ms

/-- The checks of the head of a class. -/
theorem classHead_silent (cls : ClassDecl) : Silent (do
    checkBaseClass cls
    checkInterfaces cls cls.interfaces
    checkConformance cls cls.interfaces
    checkAbstract cls cls.methods) :=
  (checkBaseClass_silent cls).bind fun _ => (checkInterfaces_silent cls _).bind fun _ =>
    (checkConformance_silent cls _).bind fun _ => checkAbstract_silent cls _

theorem setClass_adds (c : Option String) :
    Adds n (modify fun a => { a with currentClass := c } : AnalyzeM Unit) :=
  ⟨fun _ _ => ⟨List.prefix_rfl, id, fun _ _ => rfl, Nat.le_refl _, rfl⟩, fun _ _ _ => .inl,
    fun _ _ _ _ => rfl⟩

theorem declareClass_adds {scope : Nat} (hn : n ≤ scope) (cls : ClassDecl) :
    Adds n (declareClass cls scope) := by
  refine (setClass_adds _).bind fun _ => (Adds.silent (checkBaseClass_silent cls)).bind fun _ => ?_
  refine (Adds.silent (checkInterfaces_silent cls _)).bind fun _ =>
    (Adds.silent (checkConformance_silent cls _)).bind fun _ => ?_
  exact (Adds.silent (checkAbstract_silent cls _)).bind fun _ =>
    (defineInheritedVars_adds hn _).bind fun _ => defineVarBlocks_adds hn _

theorem analyzeClass_adds (cls : ClassDecl) : Adds n (analyzeClass cls) := by
  refine Adds.get.bind fun a => Adds.bind (inNewScope_adds fun scope hs => ?_) fun _ =>
    setClass_adds _
  exact (declareClass_adds hs cls).bind fun _ => (analyzeMethods_adds cls _).bind fun _ =>
    analyzeProperties_adds _

theorem checkBaseInterfaces_silent (i : InterfaceDecl) : ∀ bases,
    Silent (checkBaseInterfaces i bases)
  | [] => .pure _
  | _ :: bases => Silent.get.bind fun _ => (Silent.errorIf (by decide) ..).bind fun _ =>
    checkBaseInterfaces_silent i bases

theorem analyzeTopLevel_adds : ∀ item, Adds n (analyzeTopLevel item)
  | .program _ => inNewScope_adds fun _ hs => (defineVarBlocks_adds hs _).bind fun _ =>
    .silent (analyzeStatements_silent ..)
  | .function f => inNewScope_adds fun _ hs => (declareResult_adds hs f.name _).bind fun _ =>
    (defineVarBlocks_adds hs _).bind fun _ => .silent (analyzeStatements_silent ..)
  | .functionBlock _ => inNewScope_adds fun _ hs => (defineVarBlocks_adds hs _).bind fun _ =>
    .silent (analyzeStatements_silent ..)
  | .classDecl cls => analyzeClass_adds cls
  | .interface i => .silent (checkBaseInterfaces_silent i _)
  | .typeDeclaration _ | .globalVarDeclaration _ => .pure _

/-- **The second pass leaves the scopes that exist alone.** -/
theorem analyzeAll_adds : ∀ items, Adds n (analyzeAll items)
  | [] => .pure _
  | item :: items => (analyzeTopLevel_adds item).bind fun _ => analyzeAll_adds items

end

/-! ## Declared types -/

/-- The type a symbol gives to its name. -/
def namedTy : Option Symbol → Ty
  | some ⟨_, ty, .type, _, _, _⟩ | some ⟨_, ty, .function _ _, _, _, _⟩
  | some ⟨_, ty, .functionBlock _ _, _, _, _⟩ | some ⟨_, ty, .cls _, _, _, _⟩
  | some ⟨_, ty, .program _, _, _, _⟩ => ty
  | _ => .unknown

theorem resolveDataType_named (t : SymbolTable) (q : QualifiedName) :
    resolveDataType t (.userDefined q) = namedTy (t.lookupIn 0 q.asStr) := by
  unfold resolveDataType SymbolTable.resolveType SymbolTable.resolvePou SymbolTable.resolveGlobal
  cases t.lookupIn 0 q.asStr with
  | none => rfl
  | some sym =>
    obtain ⟨name, ty, kind, range, used, assigned⟩ := sym
    cases kind <;> rfl

theorem namedTy_plain (o : Option Symbol) : namedTy (o.map Symbol.plain) = namedTy o := by
  cases o with
  | none => rfl
  | some sym =>
    obtain ⟨name, ty, kind, range, used, assigned⟩ := sym
    cases kind <;> rfl

theorem resolveDataType_congr {t t' : SymbolTable}
    (h : ∀ name, namedTy (t'.lookupIn 0 name) = namedTy (t.lookupIn 0 name)) :
    ∀ dt, resolveDataType t' dt = resolveDataType t dt
  | .elementary _ => rfl
  | .array _ elementType => by
    simp only [resolveDataType, resolveDataType_congr h elementType]
  | .string _ _ => rfl
  | .ref _ => rfl
  | .userDefined q => by rw [resolveDataType_named, resolveDataType_named, h]

def Symbol.isVariable (s : Symbol) : Bool :=
  match s.kind with
  | .variable _ => true
  | _ => false

theorem namedTy_variable {s : Symbol} (h : s.isVariable = true) : namedTy (some s) = .unknown := by
  obtain ⟨name, ty, kind, range, used, assigned⟩ := s
  cases kind <;> first | rfl | cases h

/-- New variables change no declared type. -/
theorem Defines.types {k : Nat} {xs : List Symbol} {a b : Analyzer} (h : Defines k xs a b)
    (hk : k < a.symbols.scopes.length) (hv : ∀ s ∈ xs, s.isVariable = true) :
    resolveDataType b.symbols = resolveDataType a.symbols := by
  funext dt
  refine resolveDataType_congr (fun name => ?_) dt
  by_cases h0 : k = 0
  · subst h0
    rw [← namedTy_plain, h.lookupIn hk]
    cases hg : SymbolMap.get (entries xs).reverse (toUppercase name) with
    | none => simp [namedTy_plain]
    | some sym =>
      obtain ⟨hmem, hkey⟩ := (get_entries h.distinct).mp hg
      have hnone : a.symbols.lookupIn 0 name = none := by
        have := h.new sym hmem
        simpa [SymbolTable.lookupIn, Scope.lookupLocal, show toUppercase sym.name = toUppercase name
          from hkey] using this
      rw [hnone]
      exact namedTy_variable (hv sym hmem)
  · rw [← namedTy_plain, ← SymbolTable.lookupIn_plain, h.symbols,
      SymbolTable.lookupIn_add_ne (Ne.symm h0), SymbolTable.lookupIn_plain, namedTy_plain]

/-! ## The symbols of declarations -/

theorem errorIf_noError {b : Bool} {code : DiagnosticCode} {message : String} {range : TextRange}
    {a : Analyzer} (h : NoError (errorIf b code message range a).2) :
    b = false ∧ (errorIf b code message range a).2 = a := by
  cases b with
  | false => exact ⟨rfl, rfl⟩
  | true =>
    refine absurd rfl (h ⟨.error, code, message, range⟩ ?_)
    simp [errorIf, error, report, modify, modifyGet, MonadStateOf.modifyGet, StateT.modifyGet,
      Pure.pure]

theorem error_noError {code : DiagnosticCode} {message : String} {range : TextRange}
    {a : Analyzer} : ¬ NoError (error code message range a).2 := by
  intro h
  cases (errorIf_noError (b := true) (a := a) h).1

theorem defineIn_defines {scope : Nat} {symbol : Symbol} {a : Analyzer}
    (h : a.symbols.lookupIn scope symbol.name = none) :
    Defines scope [symbol.plain] a (defineIn scope symbol a).2 where
  diagnostics := List.prefix_rfl
  endless := id
  symbols := by
    show (a.symbols.define scope symbol).plain = _
    rw [SymbolTable.define_new h, SymbolTable.plain_add]
    rfl
  distinct := List.nodup_singleton _
  new := by simpa [Symbol.plain] using h
  scope := rfl

theorem defineOrReport_defines {scope : Nat} {symbol : Symbol} {what : String} {range : TextRange}
    {a : Analyzer} (h : NoError (defineOrReport scope symbol what range a).2) :
    Defines scope [symbol.plain] a (defineOrReport scope symbol what range a).2 := by
  have he := errorIf_noError (a := (defineIn scope symbol a).2) h
  have hnone : a.symbols.lookupIn scope symbol.name = none := by
    cases hl : a.symbols.lookupIn scope symbol.name with
    | none => rfl
    | some s =>
      have := he.1
      rw [hl] at this
      cases this
  have heq : (defineOrReport scope symbol what range a).2 = (defineIn scope symbol a).2 := he.2
  rw [heq]
  exact defineIn_defines hnone

/-- The symbol of a declared variable. -/
def varSymbol (kind : VarKind) (ty : Ty) (id : Identifier) : Symbol :=
  ⟨id.name, ty, .variable kind, id.range, false, false⟩

theorem declareVar_defines {scope : Nat} {kind : VarKind} {ty : Ty} {initialised : Bool}
    {id : Identifier} {a : Analyzer} (hk : scope < a.symbols.scopes.length)
    (h : NoError (declareVar scope kind ty initialised id a).2) :
    Defines scope [varSymbol kind ty id] a (declareVar scope kind ty initialised id a).2 := by
  -- a warning, perhaps, and then the definition
  have hdef : ∀ b, Quiet a b → (declareVar scope kind ty initialised id a).2 =
      (defineOrReport scope ⟨id.name, ty, .variable kind, id.range, false,
        initialised || kind == .varInput || kind == .varInOut || kind == .varExternal⟩
        "variable" id.range b).2 →
      Defines scope [varSymbol kind ty id] a (declareVar scope kind ty initialised id a).2 := by
    intro b hb heq
    rw [heq] at h ⊢
    exact (Defines.quiet hb scope).trans (defineOrReport_defines h) hk
  cases hr : a.symbols.resolve scope id.name with
  | none =>
    refine hdef a (.refl a) ?_
    simp only [declareVar, bind, StateT.bind, get, getThe, MonadStateOf.get, StateT.get, Pure.pure,
      hr]
  | some r =>
    by_cases hp : r.1 = scope
    · refine hdef a (.refl a) ?_
      simp [declareVar, bind, StateT.bind, get, getThe, MonadStateOf.get, StateT.get, Pure.pure,
        hr, hp]
    · have hcode : DiagnosticCode.shadowedVariable ≠ .circularInheritance := by decide
      have hquiet := (Silent.warning hcode
        ("'" ++ id.name ++ "' shadows a variable in an outer scope") id.range).quiet a
      refine hdef _ hquiet ?_
      simp only [declareVar, bind, StateT.bind, get, getThe, MonadStateOf.get, StateT.get,
        Pure.pure, hr, ne_eq, hp, not_false_eq_true, if_true]
      rfl

theorem declareVars_defines {scope : Nat} {kind : VarKind} {ty : Ty} {initialised : Bool} :
    ∀ (ids : List Identifier) {a : Analyzer}, scope < a.symbols.scopes.length →
      NoError (declareVars scope kind ty initialised ids a).2 →
        Defines scope (ids.map (varSymbol kind ty)) a (declareVars scope kind ty initialised ids a).2
  | [], a, _, _ => .quiet (.refl a) scope
  | id :: ids, a, hk, h => by
    have hrest := (declareVars_adds (Nat.zero_le scope) kind ty initialised ids).later
      (declareVar scope kind ty initialised id a).2 (Nat.zero_le _)
    have h1 := declareVar_defines hk (hrest.noError h)
    exact h1.trans (declareVars_defines ids (by rw [h1.length]; exact hk) h) hk

/-- The symbols of declarations, with the meaning of the declared types. -/
def declSymbols (ty : DataType → Ty) (kind : VarKind) (decls : List VarDeclaration) :
    List Symbol :=
  decls.flatMap fun decl => decl.names.map (varSymbol kind (ty decl.ty))

theorem declSymbols_variable {ty : DataType → Ty} {kind : VarKind} {decls : List VarDeclaration} :
    ∀ s ∈ declSymbols ty kind decls, s.isVariable = true := by
  intro s hs
  obtain ⟨decl, -, hs⟩ := List.mem_flatMap.mp hs
  obtain ⟨id, -, rfl⟩ := List.mem_map.mp hs
  rfl

/-- One declaration and its initial value. -/
theorem declareDecl_defines {scope : Nat} {kind : VarKind} {decl : VarDeclaration}
    {a b : Analyzer} (hk : scope < a.symbols.scopes.length)
    (hb : b = (declareVars scope kind (resolveDataType a.symbols decl.ty) decl.initialValue.isSome
      decl.names a).2) {m : AnalyzeM Unit} (hm : Silent m) (h : NoError (m b).2) :
    Defines scope (declSymbols (resolveDataType a.symbols) kind [decl]) a (m b).2 := by
  have hq := hm.quiet b
  have hv := declareVars_defines decl.names hk (hb ▸ (hq.later 0).noError h)
  rw [← hb] at hv
  have := hv.trans (.quiet hq scope) hk
  simpa [declSymbols] using this

theorem declareDecls_defines {scope : Nat} {kind : VarKind} {isConstant : Bool} :
    ∀ (decls : List VarDeclaration) {a : Analyzer}, scope < a.symbols.scopes.length →
      NoError (declareDecls scope kind isConstant decls a).2 →
        Defines scope (declSymbols (resolveDataType a.symbols) kind decls) a
          (declareDecls scope kind isConstant decls a).2
  | [], a, _, _ => .quiet (.refl a) scope
  | decl :: decls, a, hk, h => by
    -- the check of the initial value, between the names and the other declarations
    have hsplit : ∃ m : AnalyzeM Unit, Silent m ∧
        (declareDecls scope kind isConstant (decl :: decls) a).2 =
          (declareDecls scope kind isConstant decls (m (declareVars scope kind
            (resolveDataType a.symbols decl.ty) decl.initialValue.isSome decl.names a).2).2).2 := by
      refine ⟨_, checkInit_silent decl (resolveDataType a.symbols decl.ty) isConstant, ?_⟩
      rw [declareDecls]
      cases decl.initialValue with
      | some e => rfl
      | none => cases isConstant <;> rfl
    obtain ⟨m, hm, heq⟩ := hsplit
    rw [heq] at h ⊢
    have h1 := declareDecl_defines hk rfl hm
      (((declareDecls_adds (Nat.zero_le scope) kind isConstant decls).later _
        (Nat.zero_le _)).noError h)
    have h2 := declareDecls_defines decls (by rw [h1.length]; exact hk) h
    rw [h1.types hk declSymbols_variable] at h2
    simpa [declSymbols] using h1.trans h2 hk

/-- The symbols of variable blocks. -/
def blockSymbols (ty : DataType → Ty) (blocks : List VarBlock) : List Symbol :=
  blocks.flatMap fun vb => declSymbols ty vb.kind vb.declarations

theorem blockSymbols_variable {ty : DataType → Ty} {blocks : List VarBlock} :
    ∀ s ∈ blockSymbols ty blocks, s.isVariable = true := by
  intro s hs
  obtain ⟨vb, -, hs⟩ := List.mem_flatMap.mp hs
  exact declSymbols_variable s hs

/-- **Variable blocks that are accepted put their variables into the scope, each
under a name of its own.** -/
theorem defineVarBlocks_defines {scope : Nat} :
    ∀ (blocks : List VarBlock) {a : Analyzer}, scope < a.symbols.scopes.length →
      NoError (defineVarBlocks scope blocks a).2 →
        Defines scope (blockSymbols (resolveDataType a.symbols) blocks) a
          (defineVarBlocks scope blocks a).2
  | [], a, _, _ => .quiet (.refl a) scope
  | vb :: vbs, a, hk, h => by
    have hrest := (defineVarBlocks_adds (Nat.zero_le scope) vbs).later
      (defineVarBlock scope vb a).2 (Nat.zero_le _)
    have h1 : Defines scope (declSymbols (resolveDataType a.symbols) vb.kind vb.declarations) a
        (defineVarBlock scope vb a).2 := declareDecls_defines vb.declarations hk (hrest.noError h)
    have h2 := defineVarBlocks_defines vbs (a := (defineVarBlock scope vb a).2)
      (by rw [h1.length]; exact hk) h
    have ht : resolveDataType (defineVarBlock scope vb a).2.symbols = resolveDataType a.symbols :=
      h1.types hk declSymbols_variable
    rw [ht] at h2
    exact h1.trans h2 hk

end RustPlc.Analysis
