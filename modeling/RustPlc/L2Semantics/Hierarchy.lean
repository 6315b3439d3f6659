import Mathlib.Logic.Relation
import RustPlc.L2Semantics.Bodies

/-!
# Class hierarchies

The classes of a source with the base class of each, and what the analyzer
finds of them once the first pass has registered them without an error.

Results:
* `base_resolves`, `base_unresolved`: the base class of a class resolves to its
  data, or there is none;
* `extends_unique`: a class has one base class at most;
* `Registered.resolveInterface`, `Registered.of_resolveInterface`: an interface
  resolves to its methods.
-/
namespace RustPlc.Analysis

open RustPlc.Ir RustPlc.Syntax

/-- `d` is the base class of `cls`. -/
def Extends (source : SourceFile) (cls d : ClassDecl) : Prop :=
  ∃ base, cls.baseClass = some base ∧ .classDecl d ∈ source.items ∧
    toUppercase d.name.name = toUppercase base

/-- `d` is an ancestor of `cls`: its base class, or an ancestor of that. -/
def Ancestor (source : SourceFile) : ClassDecl → ClassDecl → Prop :=
  Relation.TransGen (Extends source)

theorem Ancestor.mem {source : SourceFile} {cls d : ClassDecl} (h : Ancestor source cls d) :
    .classDecl d ∈ source.items := by
  cases h with
  | single h => exact h.choose_spec.2.1
  | tail _ h => exact h.choose_spec.2.1

/-- The first method of a class by that name. -/
def ownMethod (d : ClassDecl) (name : String) : Option MethodDecl :=
  d.methods.find? fun m => eqIgnoreAsciiCase m.name.name name

/-- The first pass registers the source without an error. -/
def Registers (source : SourceFile) : Prop := NoError (afterRegister source)

theorem registers_of_accepts {source : SourceFile} (h : accepts source = true) : Registers source :=
  afterRegister_noError h

theorem Registers.registered {source : SourceFile} (h : Registers source) :
    ∃ syms, ∀ a, KeepsGlobals source a → Registered source syms a := by
  obtain ⟨syms, hs, hd⟩ := registerAll_defines source.items (a := initialAnalyzer) Nat.zero_lt_one h
  refine ⟨syms, fun a ha => ⟨hs, hd.distinct, hd.new, fun name => ?_⟩⟩
  rw [ha]
  exact hd.lookupIn Nat.zero_lt_one name

/-- A method is looked for in the data of a class as in its declaration. -/
theorem findMethod_classInfo (t : SymbolTable) (d : ClassDecl) (name : String) :
    findMethod (classInfo t d).methods name = (ownMethod d name).map (methodDef t) := by
  rw [findMethod, classInfo, List.find?_map]
  rfl

theorem ownMethod_mem {d : ClassDecl} {name : String} {m : MethodDecl}
    (h : ownMethod d name = some m) :
    m ∈ d.methods ∧ eqIgnoreAsciiCase m.name.name name = true := by
  unfold ownMethod at h
  have hname := List.find?_some h
  exact ⟨List.mem_of_find?_eq_some h, hname⟩

section

variable {source : SourceFile} {a : Analyzer} {cls d d' : ClassDecl}

theorem base_resolves (h : Registers source) (ha : KeepsGlobals source a)
    (hd : Extends source cls d) : ∃ base t, cls.baseClass = some base ∧
      a.symbols.resolveClass base = some (classInfo t d) := by
  obtain ⟨syms, hreg⟩ := h.registered
  obtain ⟨base, hb, hmem, hname⟩ := hd
  obtain ⟨t, ht⟩ := (hreg a ha).resolveClass hmem hname
  exact ⟨base, t, hb, ht⟩

theorem base_unresolved (h : Registers source) (ha : KeepsGlobals source a)
    (hno : ∀ d, ¬ Extends source cls d) {base : String} (hb : cls.baseClass = some base) :
    a.symbols.resolveClass base = none := by
  obtain ⟨syms, hreg⟩ := h.registered
  cases hr : a.symbols.resolveClass base with
  | none => rfl
  | some info =>
    obtain ⟨d, hmem, hname, -⟩ := (hreg a ha).of_resolveClass hr
    exact absurd ⟨base, hb, hmem, hname⟩ (hno d)

theorem extends_unique (h : Registers source) (hd : Extends source cls d)
    (hd' : Extends source cls d') : d = d' := by
  obtain ⟨syms, hreg⟩ := h.registered
  obtain ⟨base, hb, hmem, hname⟩ := hd
  obtain ⟨base', hb', hmem', hname'⟩ := hd'
  rw [hb] at hb'
  cases hb'
  exact (hreg _ fun _ => rfl).class_unique hmem hmem' (hname.trans hname'.symm)

end

/-! ## Reports -/

section

variable {a : Analyzer}

theorem error_diagnostics (code : DiagnosticCode) (message : String) (range : TextRange)
    (a : Analyzer) : (error code message range a).2.diagnostics ≠ a.diagnostics := by
  show a.diagnostics ++ [_] ≠ a.diagnostics
  simp

theorem errorIf_diagnostics {b : Bool} {code : DiagnosticCode} {message : String}
    {range : TextRange} {a : Analyzer} :
    (errorIf b code message range a).2.diagnostics = a.diagnostics ↔ b = false := by
  cases b with
  | false => exact iff_of_true rfl rfl
  | true => exact iff_of_false (error_diagnostics _ _ _ _) (by simp)

/-- A check that reports errors only: without an error it reports nothing. -/
structure Strict {α : Type} (m : AnalyzeM α) : Prop where
  silent : Silent m
  passed : ∀ a, NoError (m a).2 → (m a).2.diagnostics = a.diagnostics

namespace Strict

variable {α β : Type}

theorem pure (x : α) : Strict (Pure.pure x : AnalyzeM α) := ⟨.pure x, fun _ _ => rfl⟩

theorem error {code : DiagnosticCode} (hc : code ≠ .circularInheritance) (message : String)
    (range : TextRange) : Strict (Analysis.error code message range) :=
  ⟨.error hc _ _, fun _ h => absurd h error_noError⟩

theorem errorIf {code : DiagnosticCode} (hc : code ≠ .circularInheritance) (b : Bool)
    (message : String) (range : TextRange) : Strict (Analysis.errorIf b code message range) :=
  ⟨.errorIf hc _ _ _, fun _ h => congrArg Analyzer.diagnostics (errorIf_noError h).2⟩

theorem bind {m : AnalyzeM α} {f : α → AnalyzeM β} (hm : Strict m) (hf : ∀ x, Strict (f x)) :
    Strict (m >>= f) where
  silent := hm.silent.bind fun x => (hf x).silent
  passed := fun a h => by
    have hrest := (hf (m a).1).passed (m a).2 h
    exact hrest.trans (hm.passed a ((hf (m a).1).silent.noError h))

theorem get : Strict (MonadState.get : AnalyzeM Analyzer) := ⟨.get, fun _ _ => rfl⟩

theorem ite {c : Prop} [Decidable c] {m m' : AnalyzeM α} (h : Strict m) (h' : Strict m') :
    Strict (if c then m else m') := by
  split
  · exact h
  · exact h'

end Strict

end

/-! ## Interfaces -/

/-- A class lists an interface. -/
def Lists (source : SourceFile) (cls : ClassDecl) (i : InterfaceDecl) : Prop :=
  ∃ name ∈ cls.interfaces, .interface i ∈ source.items ∧ toUppercase i.name.name = toUppercase name

/-- An interface extends another. -/
def ExtendsInterface (source : SourceFile) (i j : InterfaceDecl) : Prop :=
  ∃ name ∈ i.baseInterfaces, .interface j ∈ source.items ∧
    toUppercase j.name.name = toUppercase name

namespace Registered

variable {source : SourceFile} {syms : List (List Symbol)} {a : Analyzer}

/-- An interface of the source resolves to its methods. -/
theorem resolveInterface (h : Registered source syms a) {i : InterfaceDecl}
    (hi : .interface i ∈ source.items) {name : String}
    (hn : toUppercase i.name.name = toUppercase name) :
    ∃ t, a.symbols.resolveInterface name = some (i.methods.map (prototypeDef t)) := by
  obtain ⟨ss, hss, hitem⟩ := forall₂_mem_left h.items hi
  cases hitem with
  | interface t =>
    refine ⟨t, ?_⟩
    have hf := h.found (List.mem_flatten.mpr ⟨_, hss, List.mem_singleton_self _⟩) hn
    unfold SymbolTable.resolveInterface
    cases hl : a.symbols.lookupIn 0 name with
    | none => rw [hl] at hf; cases hf
    | some s =>
      rw [hl] at hf
      obtain ⟨n, ty, kind, range, used, assigned⟩ := s
      cases hf
      rfl

/-- What resolves as an interface is one of the source. -/
theorem of_resolveInterface (h : Registered source syms a) {name : String}
    {methods : List MethodDef} (hr : a.symbols.resolveInterface name = some methods) :
    ∃ i, .interface i ∈ source.items ∧ toUppercase i.name.name = toUppercase name ∧
      ∃ t, methods = i.methods.map (prototypeDef t) := by
  unfold SymbolTable.resolveInterface at hr
  cases hl : a.symbols.lookupIn 0 name with
  | none => rw [hl] at hr; cases hr
  | some s =>
    rw [hl] at hr
    obtain ⟨n, ty, kind, range, used, assigned⟩ := s
    cases kind with
    | interface methods' bases =>
      cases hr
      rcases h.of_found hl with ⟨hmem, hname⟩ | ⟨n', ps, r, hb⟩
      · obtain ⟨ss, hss, hs⟩ := List.mem_flatten.mp hmem
        obtain ⟨item, hitem, hi⟩ := forall₂_mem_right h.items hss
        cases hi with
        | interface t i =>
          have heq := List.mem_singleton.mp hs
          simp only [Symbol.plain, interfaceSymbol, itemSymbol, Symbol.mk.injEq,
            SymbolKind.interface.injEq] at heq
          exact ⟨i, hitem, by rw [← heq.1]; exact hname, t, heq.2.2.1.1⟩
        | types defs tys hlen =>
          obtain ⟨j, hj, heq⟩ := List.mem_iff_getElem.mp hs
          simp [typeSymbol, itemSymbol, Symbol.plain] at heq
        | globalVars t vb => exact absurd (declSymbols_variable _ hs) (by simp [Symbol.isVariable,
            Symbol.plain])
        | function t f => simp [functionSymbol, itemSymbol, Symbol.plain] at hs
        | functionBlock t fb => simp [functionBlockSymbol, itemSymbol, Symbol.plain] at hs
        | classDecl t cls => simp [classSymbol, itemSymbol, Symbol.plain] at hs
        | program t p => simp [programSymbol, itemSymbol, Symbol.plain] at hs
      · simp [builtin, Symbol.plain] at hb
    | _ => cases hr

end Registered

end RustPlc.Analysis
