import RustPlc.L2Compiler.BaseChains
import RustPlc.L2Semantics.Inheritance

/-!
# Cyclic inheritance

`class_has_ancestor` of crates/st-lsp/src/server.rs and the inherited methods of
crates/st-lsp/src/completion.rs walk up the classes of an analyzed document as the analyzer and
the compiler do.

Results:
* `inheritance_law_iff`: the walks end and cycles are reported exactly when there is no cycle;
* `self_extension_endless`: a class that extends itself makes the analyzer loop for ever.
-/
namespace RustPlc.Editor

open RustPlc.Ir RustPlc.Core RustPlc.Syntax RustPlc.Analysis RustPlc.Compiler

/-! ## The walks of the language server -/

/-- The loop after `k` rounds; `none` when it goes on.
mirrors crates/st-lsp/src/server.rs:401-419 -/
def classHasAncestor (t : SymbolTable) (ancestor : String) : Nat → String → Option Bool
  | 0, _ => none
  | k + 1, cls => match (t.resolveClass cls).bind (·.baseClass) with
    | some base =>
      if eqIgnoreAsciiCase base ancestor then some true else classHasAncestor t ancestor k base
    | none => some false

/-- The methods of a base class that are not offered yet. -/
def offerMethods (labels : List String) (methods : List MethodDef) : List String :=
  methods.foldl (fun labels m =>
    if labels.any (eqIgnoreAsciiCase · m.name) then labels else labels ++ [m.name]) labels

/-- The labels of the completion items after `k` rounds; `none` when the loop goes on.
mirrors crates/st-lsp/src/completion.rs:170-218 -/
def inheritedMethods (t : SymbolTable) : Nat → List String → Option String → Option (List String)
  | _, labels, none => some labels
  | 0, _, some _ => none
  | k + 1, labels, some base => match t.resolveClass base with
    | some parent => inheritedMethods t k (offerMethods labels parent.methods) parent.baseClass
    | none => some labels

section

variable (t : SymbolTable)

theorem classHasAncestor_ends (ancestor : String) : ∀ k cls,
    climb (baseKey t) k (toUppercase cls) = none → classHasAncestor t ancestor k cls ≠ none
  | 0, cls, h => by cases h
  | k + 1, cls, h => by
    rw [climb, baseKey] at h
    rw [classHasAncestor, resolveClass_eq]
    cases hc : classAt t (toUppercase cls) with
    | none => exact Option.some_ne_none false
    | some info =>
      cases hb : info.baseClass with
      | none =>
        simp only [Option.bind_some, hb]
        exact Option.some_ne_none false
      | some base =>
        simp only [hc, Option.bind_some, hb, Option.map_some] at h ⊢
        split
        · exact Option.some_ne_none true
        · exact classHasAncestor_ends ancestor k base h

theorem inheritedMethods_ends : ∀ k labels base,
    climb (baseKey t) k (toUppercase base) = none →
      inheritedMethods t k labels (some base) ≠ none
  | 0, labels, base, h => by cases h
  | k + 1, labels, base, h => by
    rw [climb, baseKey] at h
    rw [inheritedMethods, resolveClass_eq]
    cases hc : classAt t (toUppercase base) with
    | none => exact Option.some_ne_none labels
    | some info =>
      cases hb : info.baseClass with
      | none =>
        simp only [hb]
        cases k <;> exact Option.some_ne_none _
      | some parent =>
        simp only [hc, Option.bind_some, hb, Option.map_some] at h ⊢
        exact inheritedMethods_ends k _ parent h

end

/-! ## The base classes of the compiler -/

section

variable {source : SourceFile}

/-- The map of base classes holds what classes of the source extend. -/
def BasesFrom (source : SourceFile) (bases : NameMap String) : Prop :=
  ∀ key base, AList.lookup key bases = some base → Parent source key base

theorem registerItem_bases {mc : ModuleCompiler} (h : BasesFrom source mc.classBases)
    {item : TopLevelItem} (hi : item ∈ source.items) :
    BasesFrom source (registerItem mc item).classBases := by
  cases item with
  | classDecl cls =>
    intro key base hk
    simp only [registerItem] at hk
    cases hb : cls.baseClass with
    | none =>
      rw [hb] at hk
      exact h key base hk
    | some b =>
      rw [hb] at hk
      by_cases heq : key = toUppercase cls.name.name
      · subst heq
        rw [AList.lookup_insert] at hk
        cases hk
        exact ⟨cls, b, hi, rfl, hb, rfl⟩
      · rw [AList.lookup_insert_ne heq] at hk
        exact h key base hk
  | globalVarDeclaration vb =>
    rw [registerItem, (registerGlobals_classes _ _ _ mc).1]
    exact h
  | program _ | function _ | functionBlock _ | interface _ | typeDeclaration _ => exact h

theorem registered_basesFrom (source : SourceFile) :
    BasesFrom source (registered source).classBases := by
  have hall : ∀ (items : List TopLevelItem) (mc : ModuleCompiler), (∀ i ∈ items, i ∈ source.items) →
      BasesFrom source mc.classBases →
        BasesFrom source (items.foldl registerItem mc).classBases := by
    intro items
    induction items with
    | nil => exact fun _ _ h => h
    | cons i is ih =>
      intro mc hmem h
      exact ih _ (fun j hj => hmem j (List.mem_cons_of_mem i hj))
        (registerItem_bases h (hmem i List.mem_cons_self))
  exact hall source.items .empty (fun _ h => h) fun _ _ hk => by cases hk

theorem registered_acyclic (hc : ¬ Cyclic source) : Acyclic (registered source).classBases := by
  have hfrom := registered_basesFrom source
  constructor
  · intro key hk
    exact parents_acyclic hc key (hk.lift id fun _ _ h => hfrom _ _ h)
  · intro key hk
    refine parents_acyclic hc key (hk.lift id fun k k' h => ?_)
    obtain ⟨base, hb, rfl⟩ := Option.map_eq_some_iff.mp h
    obtain ⟨cls, b, hmem, hkey, hcls, rfl⟩ := hfrom k base hb
    exact ⟨cls, b, hmem, hkey, hcls, (toUppercase_idem b).symm⟩

end

/-! ## The law -/

/-- Every walk over the classes of a source ends, and a cycle among them is reported. -/
structure InheritanceLaw [F64Ops] (source : SourceFile) : Prop where
  analysis : (analyze source).endless = false
  compilation : compile source ≠ .error .cyclicInheritance
  ancestor : ∀ ancestor cls, ∃ k, classHasAncestor (analyze source).symbols ancestor k cls ≠ none
  completion : ∀ labels base, ∃ k, inheritedMethods (analyze source).symbols k labels base ≠ none
  reported : (∃ d ∈ (analyze source).diagnostics, d.severity = .error ∧
    d.code = .circularInheritance) ↔ Cyclic source

/-- **Cyclic inheritance is never reported**, and where there is none every walk ends. -/
theorem inheritance_law_iff [F64Ops] (source : SourceFile) :
    InheritanceLaw source ↔ ¬ Cyclic source := by
  constructor
  · intro h hc
    obtain ⟨d, hd, -, hcode⟩ := h.reported.mpr hc
    exact analyze_never_reports hd hcode
  · intro hc
    obtain ⟨hends, hbases⟩ := analyze_ends hc
    refine ⟨hends, compile_ends (registered_acyclic hc), ?_, ?_, ?_⟩
    · intro ancestor cls
      exact ⟨_, classHasAncestor_ends _ ancestor _ cls (hbases cls)⟩
    · intro labels base
      cases base with
      | none => exact ⟨0, Option.some_ne_none labels⟩
      | some base => exact ⟨_, inheritedMethods_ends _ _ labels base (hbases base)⟩
    · constructor
      · rintro ⟨d, hd, -, hcode⟩
        exact absurd hcode (analyze_never_reports hd)
      · intro hcyc
        exact absurd hcyc hc

/-- `CLASS A EXTENDS A END_CLASS` -/
def selfExtension : SourceFile := ⟨[.classDecl (.plain "A" (some "A") [] [])]⟩

/-- A class that extends itself: the analyzer loops for ever and reports nothing. -/
theorem self_extension_endless : ¬ @InheritanceLaw default selfExtension ∧
    (analyze selfExtension).endless = true ∧ Cyclic selfExtension := by
  have hends : (analyze selfExtension).endless = true := by decide +kernel
  have hcyclic : Cyclic selfExtension :=
    ⟨_, List.mem_singleton.mpr rfl, .single ⟨"A", rfl, List.mem_singleton.mpr rfl, rfl⟩⟩
  refine ⟨fun h => ?_, hends, hcyclic⟩
  rw [@InheritanceLaw.analysis default _ h] at hends
  cases hends

end RustPlc.Editor
