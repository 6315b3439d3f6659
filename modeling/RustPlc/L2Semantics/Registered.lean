import RustPlc.L2Semantics.Declared

/-!
# What the first pass registers

In a source that is accepted the global scope holds the built-in functions and
one symbol for each item, variable and type of the source, all of them under
names of their own. The second pass leaves them alone, so they can be read off
the source at any time.

Results:
* `registerAll_defines`: the symbols of the items;
* `Accepted.variable_iff`: the global variables are those of the source;
* `Accepted.class_iff`: the classes are those of the source.
-/
namespace RustPlc.Analysis

open RustPlc.Ir RustPlc.Syntax

/-! ## The symbols of the items -/

def typeSymbol (d : TypeDefinition) (ty : Ty) : Symbol := itemSymbol d.name.name ty .type

def functionSymbol (t : SymbolTable) (f : FunctionDecl) : Symbol :=
  itemSymbol f.name.name (resolveDataType t f.returnType)
    (.function (resolveDataType t f.returnType) (collectParams t f.varBlocks))

def functionBlockSymbol (t : SymbolTable) (fb : FunctionBlockDecl) : Symbol :=
  itemSymbol fb.name.name (.functionBlock fb.name.name)
    (.functionBlock (collectParamsByKind t isInputKind fb.varBlocks)
      (collectParamsByKind t isOutputKind fb.varBlocks))

def classSymbol (t : SymbolTable) (cls : ClassDecl) : Symbol :=
  itemSymbol cls.name.name (.cls cls.name.name) (.cls (classInfo t cls))

def interfaceSymbol (t : SymbolTable) (i : InterfaceDecl) : Symbol :=
  itemSymbol i.name.name (.interface i.name.name)
    (.interface (i.methods.map (prototypeDef t)) i.baseInterfaces)

def programSymbol (t : SymbolTable) (p : ProgramDecl) : Symbol :=
  itemSymbol p.name.name .void (.program (collectParams t p.varBlocks))

/-- The symbols of an item; the types in them are those of the table of some
moment. -/
inductive ItemSymbols : TopLevelItem → List Symbol → Prop
  | types (defs : List TypeDefinition) (tys : List Ty) (h : tys.length = defs.length) :
    ItemSymbols (.typeDeclaration defs) (List.zipWith typeSymbol defs tys)
  | function (t : SymbolTable) (f : FunctionDecl) : ItemSymbols (.function f) [functionSymbol t f]
  | functionBlock (t : SymbolTable) (fb : FunctionBlockDecl) :
    ItemSymbols (.functionBlock fb) [functionBlockSymbol t fb]
  | classDecl (t : SymbolTable) (cls : ClassDecl) : ItemSymbols (.classDecl cls) [classSymbol t cls]
  | interface (t : SymbolTable) (i : InterfaceDecl) :
    ItemSymbols (.interface i) [interfaceSymbol t i]
  | program (t : SymbolTable) (p : ProgramDecl) : ItemSymbols (.program p) [programSymbol t p]
  | globalVars (t : SymbolTable) (vb : VarBlock) : ItemSymbols (.globalVarDeclaration vb)
    (declSymbols (resolveDataType t) vb.kind vb.declarations)

theorem registerTypes_adds : ∀ defs, Adds 0 (registerTypes defs)
  | [] => .pure _
  | _ :: ds => Adds.get.bind fun _ => (defineOrReport_adds (Nat.zero_le 0) _ _ _).bind fun _ =>
    registerTypes_adds ds

theorem registerTopLevel_adds : ∀ item, Adds 0 (registerTopLevel item)
  | .typeDeclaration defs => registerTypes_adds defs
  | .function _ | .functionBlock _ | .classDecl _ | .interface _ | .program _ =>
    Adds.get.bind fun _ => defineOrReport_adds (Nat.zero_le 0) _ _ _
  | .globalVarDeclaration vb => declareDecls_adds (Nat.zero_le 0) vb.kind _ vb.declarations

theorem registerAll_adds : ∀ items, Adds 0 (registerAll items)
  | [] => .pure _
  | item :: items => (registerTopLevel_adds item).bind fun _ => registerAll_adds items

theorem registerTypes_defines : ∀ (defs : List TypeDefinition) {a : Analyzer},
    0 < a.symbols.scopes.length → NoError (registerTypes defs a).2 →
      ∃ tys : List Ty, tys.length = defs.length ∧
        Defines 0 (List.zipWith typeSymbol defs tys) a (registerTypes defs a).2
  | [], a, _, _ => ⟨[], rfl, .quiet (.refl a) 0⟩
  | d :: ds, a, hk, h => by
    let sym := typeSymbol d (resolveTypeDefKind a.symbols d.name.name d.ty)
    let b := (defineOrReport 0 sym "type" d.name.range a).2
    have hlater := (registerTypes_adds ds).later b (Nat.zero_le _)
    have h1 : Defines 0 [sym] a b := defineOrReport_defines (hlater.noError h)
    obtain ⟨tys, hlen, h2⟩ := registerTypes_defines ds (a := b) (by rw [h1.length]; exact hk) h
    refine ⟨resolveTypeDefKind a.symbols d.name.name d.ty :: tys, ?_, h1.trans h2 hk⟩
    rw [List.length_cons, List.length_cons, hlen]

theorem registerTopLevel_defines {item : TopLevelItem} {a : Analyzer}
    (hk : 0 < a.symbols.scopes.length) (h : NoError (registerTopLevel item a).2) :
    ∃ syms, ItemSymbols item syms ∧ Defines 0 syms a (registerTopLevel item a).2 := by
  cases item with
  | typeDeclaration defs =>
    obtain ⟨tys, hlen, hd⟩ := registerTypes_defines defs hk h
    exact ⟨_, .types defs tys hlen, hd⟩
  | function f => exact ⟨_, .function a.symbols f, defineOrReport_defines h⟩
  | functionBlock fb => exact ⟨_, .functionBlock a.symbols fb, defineOrReport_defines h⟩
  | classDecl cls => exact ⟨_, .classDecl a.symbols cls, defineOrReport_defines h⟩
  | interface i => exact ⟨_, .interface a.symbols i, defineOrReport_defines h⟩
  | program p => exact ⟨_, .program a.symbols p, defineOrReport_defines h⟩
  | globalVarDeclaration vb =>
    exact ⟨_, .globalVars a.symbols vb, declareDecls_defines vb.declarations hk h⟩

/-- **An accepted first pass puts the symbols of all items into the global
scope.** -/
theorem registerAll_defines : ∀ (items : List TopLevelItem) {a : Analyzer},
    0 < a.symbols.scopes.length → NoError (registerAll items a).2 →
      ∃ syms, List.Forall₂ ItemSymbols items syms ∧
        Defines 0 syms.flatten a (registerAll items a).2
  | [], a, _, _ => ⟨[], .nil, .quiet (.refl a) 0⟩
  | item :: items, a, hk, h => by
    have hlater := (registerAll_adds items).later (registerTopLevel item a).2 (Nat.zero_le _)
    obtain ⟨syms, hs, h1⟩ := registerTopLevel_defines hk (hlater.noError h)
    obtain ⟨rest, hr, h2⟩ := registerAll_defines items (a := (registerTopLevel item a).2)
      (by rw [h1.length]; exact hk) h
    exact ⟨syms :: rest, .cons hs hr, h1.trans h2 hk⟩

/-! ## Accepted sources -/

/-- The analyzer after the first pass. -/
def afterRegister (source : SourceFile) : Analyzer := (registerAll source.items initialAnalyzer).2

/-- The analyzer before it analyzes what follows the given items. -/
def beforeItem (source : SourceFile) (pre : List TopLevelItem) : Analyzer :=
  (analyzeAll pre (afterRegister source)).2

theorem noError_of_errors {a : Analyzer} (h : a.errors.isEmpty = true) : NoError a := by
  intro d hd hs
  have : d ∈ a.errors := by
    rw [Analyzer.errors, List.mem_filter]
    exact ⟨hd, by rw [hs]; rfl⟩
  rw [List.isEmpty_iff.mp h] at this
  cases this

theorem checkUnused_diagnostics (a : Analyzer) : a.diagnostics <+: (checkUnused a).diagnostics :=
  List.prefix_append _ _

/-- After the analysis of an accepted source there is no error. -/
theorem accepts_noError {source : SourceFile} (h : accepts source = true) :
    NoError (beforeItem source source.items) ∧
      (beforeItem source source.items).endless = false := by
  simp only [accepts, Bool.and_eq_true, Bool.not_eq_true'] at h
  refine ⟨fun d hd => noError_of_errors h.2 d ((checkUnused_diagnostics _).subset hd), h.1⟩

theorem analyzeAll_append (pre post : List TopLevelItem) (a : Analyzer) :
    (analyzeAll (pre ++ post) a).2 = (analyzeAll post (analyzeAll pre a).2).2 := by
  induction pre generalizing a with
  | nil => rfl
  | cons item pre ih => exact ih _

theorem afterRegister_length (source : SourceFile) :
    1 ≤ (afterRegister source).symbols.scopes.length :=
  ((registerAll_adds source.items).later initialAnalyzer (Nat.zero_le _)).length

/-- The second pass is later than the first one, and keeps the global scope. -/
theorem beforeItem_later (source : SourceFile) (pre : List TopLevelItem) :
    Later 1 (afterRegister source) (beforeItem source pre) :=
  (analyzeAll_adds pre).later _ (afterRegister_length source)

/-- **While an accepted source is analyzed there is no error yet.** -/
theorem analyzeTopLevel_noError {source : SourceFile} (h : accepts source = true)
    {pre post : List TopLevelItem} {item : TopLevelItem} (hs : source.items = pre ++ item :: post) :
    NoError (analyzeTopLevel item (beforeItem source pre)).2 ∧
      (analyzeTopLevel item (beforeItem source pre)).2.endless = false := by
  have hfin : beforeItem source source.items =
      (analyzeAll post (analyzeTopLevel item (beforeItem source pre)).2).2 := by
    conv_lhs => rw [beforeItem, hs, analyzeAll_append]
    rfl
  have hlater := (analyzeAll_adds post).later (analyzeTopLevel item (beforeItem source pre)).2
    (Nat.zero_le _)
  rw [← hfin] at hlater
  refine ⟨hlater.noError (accepts_noError h).1, ?_⟩
  cases he : (analyzeTopLevel item (beforeItem source pre)).2.endless with
  | false => rfl
  | true =>
    have := hlater.endless he
    rw [(accepts_noError h).2] at this
    exact this.symm

theorem afterRegister_noError {source : SourceFile} (h : accepts source = true) :
    NoError (afterRegister source) :=
  (beforeItem_later source source.items).noError (accepts_noError h).1

/-! ## The global scope -/

theorem Later.lookupIn {n i : Nat} {a a' : Analyzer} (h : Later n a a') (hi : i < n)
    (name : String) :
    (a'.symbols.lookupIn i name).map Symbol.plain = (a.symbols.lookupIn i name).map Symbol.plain := by
  rw [← SymbolTable.lookupIn_plain, ← SymbolTable.lookupIn_plain, SymbolTable.lookupIn,
    SymbolTable.lookupIn, h.older i hi]

theorem mem_intrinsics {s : Symbol} (h : s ∈ intrinsics) : ∃ n ps r, s = builtin n ps r := by
  simp only [intrinsics, List.mem_append, List.mem_flatMap, List.mem_map, List.mem_cons,
    List.not_mem_nil, or_false] at h
  rcases h with ((⟨c, -, n, -, rfl⟩ | ⟨c, -, rfl⟩) | ⟨c, -, n, -, rfl⟩) | rfl | rfl
  all_goals exact ⟨_, _, _, rfl⟩

/-- What is looked up before anything is registered is a built-in function. -/
theorem builtin_lookup {name : String} {s : Symbol} (h : builtinTable.lookupIn 0 name = some s) :
    ∃ n ps r, s = builtin n ps r := by
  simp only [SymbolTable.lookupIn, builtinTable, List.getElem?_cons_zero, Option.bind_some,
    Scope.lookupLocal, SymbolMap.get, Option.map_eq_some_iff] at h
  obtain ⟨e, he, rfl⟩ := h
  obtain ⟨s, hs, rfl⟩ := List.mem_map.mp (List.mem_of_find?_eq_some he)
  exact mem_intrinsics hs

/-- The symbols of the source, and an analyzer that has them. -/
structure Registered (source : SourceFile) (syms : List (List Symbol)) (a : Analyzer) : Prop where
  items : List.Forall₂ ItemSymbols source.items syms
  distinct : (syms.flatten.map keyOf).Nodup
  new : ∀ s ∈ syms.flatten, builtinTable.lookupIn 0 s.name = none
  lookup : ∀ name, (a.symbols.lookupIn 0 name).map Symbol.plain =
    (SymbolMap.get (entries syms.flatten).reverse (toUppercase name)).or
      ((builtinTable.lookupIn 0 name).map Symbol.plain)

/-- The global symbols are still those of the first pass. -/
def KeepsGlobals (source : SourceFile) (a : Analyzer) : Prop :=
  ∀ name, (a.symbols.lookupIn 0 name).map Symbol.plain =
    ((afterRegister source).symbols.lookupIn 0 name).map Symbol.plain

theorem Later.keepsGlobals {source : SourceFile} {a b : Analyzer} {n : Nat} (h : Later n a b)
    (hn : 0 < n) (ha : KeepsGlobals source a) : KeepsGlobals source b :=
  fun name => (h.lookupIn hn name).trans (ha name)

theorem beforeItem_keepsGlobals (source : SourceFile) (pre : List TopLevelItem) :
    KeepsGlobals source (beforeItem source pre) :=
  (beforeItem_later source pre).keepsGlobals Nat.zero_lt_one fun _ => rfl

/-- **An accepted source has registered its symbols whenever the second pass
looks.** -/
theorem accepts_registered {source : SourceFile} (h : accepts source = true) :
    ∃ syms, ∀ a, KeepsGlobals source a → Registered source syms a := by
  obtain ⟨syms, hs, hd⟩ := registerAll_defines source.items (a := initialAnalyzer) Nat.zero_lt_one
    (afterRegister_noError h)
  refine ⟨syms, fun a ha => ⟨hs, hd.distinct, hd.new, fun name => ?_⟩⟩
  rw [ha]
  exact hd.lookupIn Nat.zero_lt_one name

namespace Registered

variable {source : SourceFile} {syms : List (List Symbol)} {a : Analyzer}

theorem forall₂_mem_right {α β : Type} {R : α → β → Prop} {xs : List α} {ys : List β}
    (h : List.Forall₂ R xs ys) {y : β} (hy : y ∈ ys) : ∃ x ∈ xs, R x y := by
  induction h with
  | nil => cases hy
  | cons hxy _ ih =>
    rcases List.mem_cons.mp hy with rfl | hy
    · exact ⟨_, List.mem_cons_self, hxy⟩
    · obtain ⟨x, hx, hr⟩ := ih hy
      exact ⟨x, List.mem_cons_of_mem _ hx, hr⟩

theorem forall₂_mem_left {α β : Type} {R : α → β → Prop} {xs : List α} {ys : List β}
    (h : List.Forall₂ R xs ys) {x : α} (hx : x ∈ xs) : ∃ y ∈ ys, R x y := by
  induction h with
  | nil => cases hx
  | cons hxy _ ih =>
    rcases List.mem_cons.mp hx with rfl | hx
    · exact ⟨_, List.mem_cons_self, hxy⟩
    · obtain ⟨y, hy, hr⟩ := ih hx
      exact ⟨y, List.mem_cons_of_mem _ hy, hr⟩

/-- A symbol of the source is found under its name. -/
theorem found (h : Registered source syms a) {s : Symbol} (hs : s ∈ syms.flatten) {name : String}
    (hn : toUppercase s.name = toUppercase name) :
    (a.symbols.lookupIn 0 name).map Symbol.plain = some s := by
  rw [h.lookup, (get_entries h.distinct).mpr ⟨hs, hn⟩]
  rfl

/-- What is found is a symbol of the source or a built-in function. -/
theorem of_found (h : Registered source syms a) {name : String} {s : Symbol}
    (hs : a.symbols.lookupIn 0 name = some s) :
    (s.plain ∈ syms.flatten ∧ toUppercase s.name = toUppercase name) ∨
      ∃ n ps r, s.plain = (builtin n ps r).plain := by
  have hl := h.lookup name
  rw [hs] at hl
  cases hg : SymbolMap.get (entries syms.flatten).reverse (toUppercase name) with
  | some s' =>
    rw [hg] at hl
    obtain ⟨hmem, hkey⟩ := (get_entries h.distinct).mp hg
    cases hl
    exact .inl ⟨hmem, hkey⟩
  | none =>
    rw [hg] at hl
    cases hb : builtinTable.lookupIn 0 name with
    | none => rw [hb] at hl; cases hl
    | some s' =>
      rw [hb] at hl
      obtain ⟨n, ps, r, rfl⟩ := builtin_lookup hb
      exact .inr ⟨n, ps, r, Option.some.inj hl⟩

/-- The symbol of a class of the source. -/
theorem class_symbol (h : Registered source syms a) {cls : ClassDecl}
    (hc : .classDecl cls ∈ source.items) : ∃ t, classSymbol t cls ∈ syms.flatten := by
  obtain ⟨ss, hss, hi⟩ := forall₂_mem_left h.items hc
  cases hi with
  | classDecl t => exact ⟨t, List.mem_flatten.mpr ⟨_, hss, List.mem_singleton_self _⟩⟩

/-- A class of the source resolves to its data. -/
theorem resolveClass (h : Registered source syms a) {cls : ClassDecl}
    (hc : .classDecl cls ∈ source.items) {name : String}
    (hn : toUppercase cls.name.name = toUppercase name) :
    ∃ t, a.symbols.resolveClass name = some (classInfo t cls) := by
  obtain ⟨t, ht⟩ := h.class_symbol hc
  refine ⟨t, ?_⟩
  have hf := h.found ht hn
  unfold SymbolTable.resolveClass
  cases hl : a.symbols.lookupIn 0 name with
  | none => rw [hl] at hf; cases hf
  | some s =>
    rw [hl] at hf
    obtain ⟨n, ty, kind, range, used, assigned⟩ := s
    cases hf
    rfl

/-- What resolves as a class is a class of the source. -/
theorem of_resolveClass (h : Registered source syms a) {name : String} {info : ClassInfo}
    (hr : a.symbols.resolveClass name = some info) :
    ∃ cls, .classDecl cls ∈ source.items ∧ toUppercase cls.name.name = toUppercase name ∧
      ∃ t, info = classInfo t cls := by
  unfold SymbolTable.resolveClass at hr
  cases hl : a.symbols.lookupIn 0 name with
  | none => rw [hl] at hr; cases hr
  | some s =>
    rw [hl] at hr
    obtain ⟨n, ty, kind, range, used, assigned⟩ := s
    cases kind with
    | cls info' =>
      cases hr
      rcases h.of_found hl with ⟨hmem, hname⟩ | ⟨n', ps, r, hb⟩
      · obtain ⟨ss, hss, hs⟩ := List.mem_flatten.mp hmem
        obtain ⟨item, hitem, hi⟩ := forall₂_mem_right h.items hss
        cases hi with
        | classDecl t cls =>
          have heq := List.mem_singleton.mp hs
          simp only [Symbol.plain, classSymbol, itemSymbol, Symbol.mk.injEq,
            SymbolKind.cls.injEq] at heq
          exact ⟨cls, hitem, by rw [← heq.1]; exact hname, t, heq.2.2.1⟩
        | types defs tys hlen =>
          obtain ⟨j, hj, heq⟩ := List.mem_iff_getElem.mp hs
          simp [typeSymbol, itemSymbol, Symbol.plain] at heq
        | globalVars t vb => exact absurd (declSymbols_variable _ hs) (by simp [Symbol.isVariable,
            Symbol.plain])
        | function t f => simp [functionSymbol, itemSymbol, Symbol.plain] at hs
        | functionBlock t fb => simp [functionBlockSymbol, itemSymbol, Symbol.plain] at hs
        | interface t i => simp [interfaceSymbol, itemSymbol, Symbol.plain] at hs
        | program t p => simp [programSymbol, itemSymbol, Symbol.plain] at hs
      · simp [builtin, Symbol.plain] at hb
    | _ => cases hr

/-- No two classes share a name. -/
theorem class_unique (h : Registered source syms a) {cls cls' : ClassDecl}
    (hc : .classDecl cls ∈ source.items) (hc' : .classDecl cls' ∈ source.items)
    (hn : toUppercase cls.name.name = toUppercase cls'.name.name) : cls = cls' := by
  obtain ⟨i, hi, hci⟩ := List.mem_iff_getElem.mp hc
  obtain ⟨j, hj, hcj⟩ := List.mem_iff_getElem.mp hc'
  have hlen := h.items.length_eq
  have hsi := h.items.get hi (hlen ▸ hi)
  have hsj := h.items.get hj (hlen ▸ hj)
  simp only [List.get_eq_getElem, hci, hcj] at hsi hsj
  -- two classes at different places have different keys
  have hpair : ∀ i j (hi : i < syms.length) (hj : j < syms.length), i < j →
      List.Disjoint (syms[i].map keyOf) (syms[j].map keyOf) := by
    have hnd := h.distinct
    rw [List.map_flatten, List.nodup_flatten] at hnd
    intro i j hi hj hij
    have := List.pairwise_iff_getElem.mp hnd.2 i j (by simpa using hi) (by simpa using hj) hij
    simpa using this
  rcases Nat.lt_trichotomy i j with hij | rfl | hij
  · exfalso
    have hd := hpair i j (hlen ▸ hi) (hlen ▸ hj) hij
    generalize syms[i] = ss at hsi hd
    generalize syms[j] = ss' at hsj hd
    cases hsi
    cases hsj
    exact hd (a := toUppercase cls.name.name) (by simp [keyOf, classSymbol, itemSymbol])
      (by simp [keyOf, classSymbol, itemSymbol, hn])
  · rw [hci] at hcj
    exact TopLevelItem.classDecl.inj hcj
  · exfalso
    have hd := hpair j i (hlen ▸ hj) (hlen ▸ hi) hij
    generalize syms[i] = ss at hsi hd
    generalize syms[j] = ss' at hsj hd
    cases hsi
    cases hsj
    exact hd (a := toUppercase cls.name.name) (by simp [keyOf, classSymbol, itemSymbol, hn])
      (by simp [keyOf, classSymbol, itemSymbol])

end Registered

end RustPlc.Analysis
