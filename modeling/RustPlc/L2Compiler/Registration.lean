import RustPlc.L2Compiler.Layout

/-!
# What the first pass of the compiler registers

The tables after the first pass, read off the source: the global variables in
the order of their declarations, and for each class its variables and its base
class. A later class of the same name would replace an earlier one, so the
results on classes ask that the classes of one name are one class.
-/
namespace RustPlc.Compiler

open RustPlc.Ir RustPlc.Syntax

/-- The tables after the first pass. -/
def registered (source : SourceFile) : ModuleCompiler := source.items.foldl registerItem .empty

/-- The global variable blocks of a source. -/
def globalBlocks (items : List TopLevelItem) : List VarBlock :=
  items.filterMap fun
    | .globalVarDeclaration vb => some vb
    | _ => none

theorem registerGlobal_names (retain persistent : Bool) (decl : VarDeclaration) :
    ∀ (names : List String) (mc : ModuleCompiler),
      layoutNames (names.foldl (registerGlobal retain persistent decl) mc).globals =
        layoutNames mc.globals ++ names
  | [], mc => by simp
  | name :: names, mc => by
    rw [List.foldl_cons, registerGlobal_names retain persistent decl names]
    simp [registerGlobal, layoutNames, newSlot]

theorem registerGlobals_names (retain persistent : Bool) :
    ∀ (decls : List VarDeclaration) (mc : ModuleCompiler),
      layoutNames (decls.foldl (fun mc decl => (decl.names.map (·.name)).foldl
        (registerGlobal retain persistent decl) mc) mc).globals =
        layoutNames mc.globals ++ decls.flatMap fun decl => decl.names.map (·.name)
  | [], mc => by simp
  | decl :: decls, mc => by
    rw [List.foldl_cons, registerGlobals_names retain persistent decls, registerGlobal_names,
      List.flatMap_cons, List.append_assoc]

theorem registerItems_globals : ∀ (items : List TopLevelItem) (mc : ModuleCompiler),
    layoutNames (items.foldl registerItem mc).globals =
      layoutNames mc.globals ++ (declared (globalBlocks items)).map (·.1)
  | [], mc => by simp [globalBlocks, declared]
  | item :: items, mc => by
    rw [List.foldl_cons, registerItems_globals items]
    cases item with
    | globalVarDeclaration vb =>
      rw [registerItem, registerGlobals_names]
      simp [globalBlocks, declared, List.map_flatMap, Function.comp_def]
    | program _ | function _ | functionBlock _ | classDecl _ | interface _ | typeDeclaration _ => rfl

/-- **The global variables, in the order of their declarations.** -/
theorem registered_globals (source : SourceFile) :
    layoutNames (registered source).globals = (declared (globalBlocks source.items)).map (·.1) :=
  registerItems_globals source.items .empty

/-! ## Classes -/

section

variable {cls : ClassDecl}

theorem registerGlobals_classes (retain persistent : Bool) (decls : List VarDeclaration) :
    ∀ mc : ModuleCompiler, (decls.foldl (fun mc decl => (decl.names.map (·.name)).foldl
        (registerGlobal retain persistent decl) mc) mc).classBases = mc.classBases ∧
      (decls.foldl (fun mc decl => (decl.names.map (·.name)).foldl
        (registerGlobal retain persistent decl) mc) mc).classVarBlocks = mc.classVarBlocks := by
  have hone : ∀ (decl : VarDeclaration) (names : List String) (mc : ModuleCompiler),
      (names.foldl (registerGlobal retain persistent decl) mc).classBases = mc.classBases ∧
        (names.foldl (registerGlobal retain persistent decl) mc).classVarBlocks =
          mc.classVarBlocks := by
    intro decl names
    induction names with
    | nil => exact fun _ => ⟨rfl, rfl⟩
    | cons n ns ih => exact fun mc => ih _
  induction decls with
  | nil => exact fun _ => ⟨rfl, rfl⟩
  | cons d ds ih =>
    intro mc
    rw [List.foldl_cons, (ih _).1, (ih _).2]
    exact hone d _ mc

/-- The classes of one name are one class. -/
def Only (cls : ClassDecl) (items : List TopLevelItem) : Prop :=
  ∀ cls', .classDecl cls' ∈ items → toUppercase cls'.name.name = toUppercase cls.name.name →
    cls' = cls

theorem registerItems_varBlocks : ∀ (items : List TopLevelItem) (mc : ModuleCompiler),
    Only cls items → AList.lookup (toUppercase cls.name.name) mc.classVarBlocks =
        some cls.varBlocks ∨ .classDecl cls ∈ items →
      AList.lookup (toUppercase cls.name.name) (items.foldl registerItem mc).classVarBlocks =
        some cls.varBlocks
  | [], mc, _, h => h.resolve_right (by simp)
  | item :: items, mc, hu, h => by
    rw [List.foldl_cons]
    have hu' : Only cls items := fun c hc => hu c (List.mem_cons_of_mem _ hc)
    refine registerItems_varBlocks items _ hu' ?_
    by_cases hi : .classDecl cls ∈ items
    · exact .inr hi
    refine .inl ?_
    cases item with
    | classDecl c =>
      simp only [registerItem]
      by_cases hk : toUppercase cls.name.name = toUppercase c.name.name
      · rw [hu c List.mem_cons_self hk.symm, AList.lookup_insert]
      · rw [AList.lookup_insert_ne hk]
        refine h.resolve_right fun hmem => ?_
        rcases List.mem_cons.mp hmem with heq | hmem
        · exact hk (by rw [TopLevelItem.classDecl.inj heq])
        · exact hi hmem
    | globalVarDeclaration vb =>
      rw [registerItem, (registerGlobals_classes _ _ _ mc).2]
      exact h.resolve_right (by simp [hi])
    | program _ | function _ | functionBlock _ | interface _ | typeDeclaration _ =>
      exact h.resolve_right (by simp [hi])

theorem registerItems_bases : ∀ (items : List TopLevelItem) (mc : ModuleCompiler),
    Only cls items → AList.lookup (toUppercase cls.name.name) mc.classBases =
        cls.baseClass.map toUppercase ∨
      AList.lookup (toUppercase cls.name.name) mc.classBases = none ∧ .classDecl cls ∈ items →
      AList.lookup (toUppercase cls.name.name) (items.foldl registerItem mc).classBases =
        cls.baseClass.map toUppercase
  | [], mc, _, h => h.resolve_right (by simp)
  | item :: items, mc, hu, h => by
    rw [List.foldl_cons]
    have hu' : Only cls items := fun c hc => hu c (List.mem_cons_of_mem _ hc)
    refine registerItems_bases items _ hu' ?_
    cases item with
    | classDecl c =>
      by_cases hk : toUppercase cls.name.name = toUppercase c.name.name
      · have hc := hu c List.mem_cons_self hk.symm
        subst hc
        refine .inl ?_
        simp only [registerItem]
        cases hb : c.baseClass with
        | none =>
          rw [hb] at h
          rcases h with h | h
          · exact h
          · exact h.1
        | some base => rw [AList.lookup_insert]; rfl
      · have hmem : .classDecl cls ∈ TopLevelItem.classDecl c :: items → .classDecl cls ∈ items := by
          intro hm
          rcases List.mem_cons.mp hm with heq | hm
          · exact absurd (by rw [TopLevelItem.classDecl.inj heq]) hk
          · exact hm
        have heq : AList.lookup (toUppercase cls.name.name)
            (registerItem mc (.classDecl c)).classBases =
              AList.lookup (toUppercase cls.name.name) mc.classBases := by
          simp only [registerItem]
          cases c.baseClass with
          | none => rfl
          | some base => rw [AList.lookup_insert_ne hk]
        rw [heq]
        exact h.imp id fun h => ⟨h.1, hmem h.2⟩
    | globalVarDeclaration vb =>
      rw [registerItem, (registerGlobals_classes _ _ _ mc).1]
      exact h.imp id fun h => ⟨h.1, by simpa using h.2⟩
    | program _ | function _ | functionBlock _ | interface _ | typeDeclaration _ =>
      exact h.imp id fun h => ⟨h.1, by simpa using h.2⟩

variable {source : SourceFile}

theorem registered_varBlocks (hu : Only cls source.items) (hc : .classDecl cls ∈ source.items) :
    AList.lookup (toUppercase cls.name.name) (registered source).classVarBlocks =
      some cls.varBlocks :=
  registerItems_varBlocks source.items .empty hu (.inr hc)

theorem registered_bases (hu : Only cls source.items) (hc : .classDecl cls ∈ source.items) :
    AList.lookup (toUppercase cls.name.name) (registered source).classBases =
      cls.baseClass.map toUppercase :=
  registerItems_bases source.items .empty hu (.inr ⟨rfl, hc⟩)

end

end RustPlc.Compiler
