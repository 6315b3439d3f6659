import RustPlc.L2Semantics.Hierarchy

/-!
# FINAL and OVERRIDE

`analyze_class` compares a class with its base class
(crates/st-semantics/src/analyze.rs:839-861), and `analyze_method` a method
marked OVERRIDE with the method of that name in the base class (973-1019). No
check looks further up, and a method that is not marked is not compared at all.

Results:
* `checkOverride_silent_iff`: which methods the check lets pass;
* `override_law_iff`: in an accepted source no class extends a FINAL class, and
  a FINAL method is redeclared exactly where the check does not see it; a method
  marked OVERRIDE is let pass as the whole chain demands exactly when the base
  class itself declares it;
* `final_redeclared`: a FINAL method declared again without OVERRIDE.
-/
namespace RustPlc.Analysis

open RustPlc.Ir RustPlc.Syntax

/-- An ancestor declares a method of that name for which `p` holds. -/
def DeclaredAbove (source : SourceFile) (cls : ClassDecl) (p : MethodDecl → Prop)
    (name : String) : Prop :=
  ∃ d, Ancestor source cls d ∧ ∃ m ∈ d.methods, eqIgnoreAsciiCase m.name.name name = true ∧ p m

/-- A FINAL method of an ancestor has that name. -/
def FinalAbove (source : SourceFile) (cls : ClassDecl) : String → Prop :=
  DeclaredAbove source cls fun m => m.isFinal = true

/-- A method of an ancestor that is not FINAL has that name. -/
def OverridableAbove (source : SourceFile) (cls : ClassDecl) : String → Prop :=
  DeclaredAbove source cls fun m => m.isFinal = false

/-- The base class declares the name itself, first by a method for which `p`
holds. -/
def BaseDeclares (source : SourceFile) (cls : ClassDecl) (p : MethodDecl → Prop)
    (name : String) : Prop :=
  ∃ d, Extends source cls d ∧ ∃ m, ownMethod d name = some m ∧ p m

/-- The check of OVERRIDE reports nothing for the method, wherever the
analyzer is with the symbols of the source. -/
def OverrideAccepted (source : SourceFile) (cls : ClassDecl) (m : MethodDecl) : Prop :=
  ∀ a, KeepsGlobals source a → (checkOverride cls m a).2.diagnostics = a.diagnostics

section

variable {source : SourceFile} {a : Analyzer} {cls : ClassDecl} {m : MethodDecl}

theorem BaseDeclares.above {p : MethodDecl → Prop} {name : String}
    (h : BaseDeclares source cls p name) : DeclaredAbove source cls p name := by
  obtain ⟨d, hd, m, hm, hp⟩ := h
  obtain ⟨hmem, hname⟩ := ownMethod_mem hm
  exact ⟨d, .single hd, m, hmem, hname, hp⟩

/-- The check of a method marked OVERRIDE, by what the base class has. -/
theorem checkOverride_eq {base : String} (ho : m.isOverride = true)
    (hb : cls.baseClass = some base) {o : Option MethodDef}
    (hf : (a.symbols.resolveClass base).bind
      (fun info => findMethod info.methods m.name.name) = o) :
    (checkOverride cls m a).2 = ((match o with
      | some bm => errorIf bm.isFinal .cannotOverrideFinalMethod
          ("cannot override FINAL method '" ++ m.name.name ++ "' from base class '" ++ base ++ "'")
          m.name.range
      | none => error .invalidOverride ("method '" ++ m.name.name ++
          "' marked OVERRIDE but no matching method in base class '" ++ base ++ "'")
          m.name.range) a).2 := by
  subst hf
  simp only [checkOverride, ho, hb, if_true]
  rfl

/-- **What the check of OVERRIDE lets pass**: the base class declares the
method, and not as FINAL. -/
theorem checkOverride_silent_iff (h : Registers source) (ha : KeepsGlobals source a) :
    (checkOverride cls m a).2.diagnostics = a.diagnostics ↔
      (m.isOverride = true → BaseDeclares source cls (fun b => b.isFinal = false) m.name.name) := by
  cases ho : m.isOverride with
  | false =>
    refine iff_of_true ?_ (by simp)
    simp only [checkOverride, ho]
    rfl
  | true =>
    simp only [true_imp_iff]
    cases hb : cls.baseClass with
    | none =>
      refine iff_of_false ?_ ?_
      · simp only [checkOverride, ho, hb, if_true]
        exact error_diagnostics _ _ _ _
      · rintro ⟨d, ⟨base, hbase, -⟩, -⟩
        rw [hb] at hbase
        cases hbase
    | some base =>
      have hrun := fun o (hf : (a.symbols.resolveClass base).bind (fun info =>
          findMethod info.methods m.name.name) = o) => checkOverride_eq (a := a) ho hb hf
      by_cases hd : ∃ d, Extends source cls d
      · obtain ⟨d, hd⟩ := hd
        obtain ⟨base', t, hb', ht⟩ := base_resolves h ha hd
        rw [hb] at hb'
        cases hb'
        have hf := hrun _ rfl
        rw [ht, Option.bind_some, findMethod_classInfo] at hf
        have hown : BaseDeclares source cls (fun b => b.isFinal = false) m.name.name ↔
            ∃ b, ownMethod d m.name.name = some b ∧ b.isFinal = false := by
          constructor
          · rintro ⟨d', hd', hm⟩
            rw [extends_unique h hd hd']
            exact hm
          · exact fun hm => ⟨d, hd, hm⟩
        rw [hf, hown]
        cases hm : ownMethod d m.name.name with
        | none => exact iff_of_false (error_diagnostics _ _ _ _) (by simp)
        | some b =>
          refine errorIf_diagnostics.trans ?_
          simp [methodDef]
      · have hno : ∀ d, ¬ Extends source cls d := fun d hd' => hd ⟨d, hd'⟩
        have hf := hrun _ rfl
        rw [base_unresolved h ha hno hb, Option.bind_none] at hf
        rw [hf]
        refine iff_of_false (error_diagnostics _ _ _ _) ?_
        rintro ⟨d, hd', -⟩
        exact hno d hd'

theorem checkOverride_strict (cls : ClassDecl) (m : MethodDecl) : Strict (checkOverride cls m) := by
  refine .ite ?_ (.pure _)
  split
  · refine Strict.get.bind fun a => ?_
    split
    · exact .errorIf (by decide) ..
    · exact .error (by decide) ..
  · exact .error (by decide) ..

/-- The check lets pass every method of an accepted source. -/
theorem override_accepted (hacc : accepts source = true) (hc : .classDecl cls ∈ source.items)
    (hm : m ∈ cls.methods) : OverrideAccepted source cls m := by
  obtain ⟨pre, post, hs⟩ := List.append_of_mem hc
  obtain ⟨mpre, mpost, hms⟩ := List.append_of_mem hm
  let am := beforeMethod source pre cls mpre
  let n := am.symbols.scopes.length
  let b := (declareResult n m.name m.returnType (enterScope am).2).2
  obtain ⟨hkeep, hlen⟩ := beforeMethod_keeps hacc hs mpre
  have hb : KeepsGlobals source b :=
    within_keepsGlobals hkeep hlen (declareResult_defines m.name m.returnType (enterScope_empty am))
  have hno := beforeMethod_noError hacc hs hms
  have hl := (defineVarBlocks_adds (Nat.zero_le n) m.varBlocks).later (checkOverride cls m b).2
    (Nat.zero_le _)
  have hone := (checkOverride_strict cls m).passed b (hl.noError hno)
  have hreg := registers_of_accepts hacc
  intro a ha
  rw [checkOverride_silent_iff hreg ha]
  exact (checkOverride_silent_iff hreg hb).mp hone

/-- The base class of a class of an accepted source is not FINAL. -/
theorem base_not_final (hacc : accepts source = true) (hc : .classDecl cls ∈ source.items)
    {d : ClassDecl} (hd : Extends source cls d) : d.isFinal = false := by
  obtain ⟨pre, post, hs⟩ := List.append_of_mem hc
  have hkeep : KeepsGlobals source (inClass cls (beforeItem source pre)) :=
    inClass_keepsGlobals hacc cls
  obtain ⟨base, t, hb, ht⟩ := base_resolves (registers_of_accepts hacc) hkeep hd
  have hcheck := checkBaseClass_passed hacc hs
  have heq : (checkBaseClass cls (inClass cls (beforeItem source pre))).2 =
      (errorIf d.isFinal .cannotExtendFinalClass ("cannot extend FINAL class '" ++ base ++ "'")
        cls.name.range (inClass cls (beforeItem source pre))).2 := by
    simp only [checkBaseClass, hb, bind, StateT.bind, get, getThe, MonadStateOf.get, StateT.get,
      Pure.pure, ht]
    rfl
  rw [heq] at hcheck
  exact (errorIf_noError hcheck).1

end

/-- **FINAL and OVERRIDE.** In an accepted source no class extends a FINAL
class, the check lets every method pass, and no FINAL method of an ancestor is
declared again exactly when wherever one is, the method is marked OVERRIDE and
the base class itself declares it FINAL. And a method marked OVERRIDE is let
pass just when an ancestor declares one that is not FINAL, exactly when the
base class declares it whenever an ancestor does. -/
theorem override_law_iff (source : SourceFile) :
    (accepts source = true →
      (∀ cls d, .classDecl cls ∈ source.items → Extends source cls d → d.isFinal = false) ∧
      (∀ cls m, .classDecl cls ∈ source.items → m ∈ cls.methods → OverrideAccepted source cls m) ∧
      ∀ cls m, .classDecl cls ∈ source.items → m ∈ cls.methods →
        (¬ FinalAbove source cls m.name.name ↔
          (FinalAbove source cls m.name.name → m.isOverride = true ∧
            BaseDeclares source cls (fun b => b.isFinal = true) m.name.name))) ∧
    (Registers source → ∀ cls m, .classDecl cls ∈ source.items → m ∈ cls.methods →
      m.isOverride = true → ¬ FinalAbove source cls m.name.name →
        ((OverrideAccepted source cls m ↔ OverridableAbove source cls m.name.name) ↔
          (OverridableAbove source cls m.name.name →
            BaseDeclares source cls (fun _ => True) m.name.name))) := by
  refine ⟨fun hacc => ⟨fun cls d hc hd => base_not_final hacc hc hd,
    fun cls m hc hm => override_accepted hacc hc hm, fun cls m hc hm => ?_⟩,
    fun hreg cls m hc hm ho hno => ?_⟩
  · have hpass := override_accepted hacc hc hm _ fun _ => rfl
    rw [checkOverride_silent_iff (registers_of_accepts hacc) fun _ => rfl] at hpass
    constructor
    · exact fun hno hf => absurd hf hno
    · intro hseen hf
      -- the check sees this one, and does not let it pass
      obtain ⟨ho, d, hd, b, hb, hbf⟩ := hseen hf
      obtain ⟨d', hd', b', hb', hbf'⟩ := hpass ho
      rw [extends_unique (registers_of_accepts hacc) hd' hd, hb] at hb'
      cases hb'
      rw [hbf] at hbf'
      cases hbf'
  · have hverdict : OverrideAccepted source cls m ↔
        BaseDeclares source cls (fun b => b.isFinal = false) m.name.name := by
      constructor
      · intro h
        exact (checkOverride_silent_iff hreg fun _ => rfl).mp (h _ fun _ => rfl) ho
      · intro h a ha
        exact (checkOverride_silent_iff hreg ha).mpr fun _ => h
    rw [hverdict]
    constructor
    · intro h hab
      obtain ⟨d, hd, b, hb, -⟩ := h.mpr hab
      exact ⟨d, hd, b, hb, trivial⟩
    · intro h
      refine ⟨BaseDeclares.above, fun hab => ?_⟩
      obtain ⟨d, hd, b, hb, -⟩ := h hab
      refine ⟨d, hd, b, hb, ?_⟩
      -- a FINAL one would be a FINAL method above
      cases hf : b.isFinal with
      | false => exact hf
      | true =>
        obtain ⟨hmem, hname⟩ := ownMethod_mem hb
        exact absurd ⟨d, .single hd, b, hmem, hname, hf⟩ hno

/-! ## Three hierarchies -/

/-- `METHOD M END_METHOD` -/
def plainM : MethodDecl := .plain "M" none [] []

def overrideM : MethodDecl := { plainM with isOverride := true }

def finalM : MethodDecl := { plainM with isFinal := true }

/-- `CLASS A METHOD M … CLASS B EXTENDS A METHOD OVERRIDE M …` -/
def overriding : SourceFile :=
  ⟨[.classDecl (.plain "A" none [] [plainM]), .classDecl (.plain "B" "A" [] [overrideM])]⟩

/-- `CLASS A METHOD FINAL M … CLASS B EXTENDS A METHOD M …` -/
def redeclaring : SourceFile :=
  ⟨[.classDecl (.plain "A" none [] [finalM]), .classDecl (.plain "B" "A" [] [plainM])]⟩

/-- `CLASS A METHOD M … CLASS B EXTENDS A … CLASS C EXTENDS B METHOD OVERRIDE M …` -/
def twoLevels : SourceFile :=
  ⟨[.classDecl (.plain "A" none [] [plainM]), .classDecl (.plain "B" "A" [] []),
    .classDecl (.plain "C" "B" [] [overrideM])]⟩

theorem not_finalAbove {source : SourceFile} {cls : ClassDecl} {name : String}
    (h : ∀ d, .classDecl d ∈ source.items → ∀ m ∈ d.methods, m.isFinal = false) :
    ¬ FinalAbove source cls name := by
  rintro ⟨d, hd, m, hm, -, hf⟩
  rw [h d hd.mem m hm] at hf
  cases hf

/-- The override of a method of the base class is let pass, as it should be. -/
theorem overriding_lawful :
    OverrideAccepted overriding (.plain "B" "A" [] [overrideM]) overrideM ↔
      OverridableAbove overriding (.plain "B" "A" [] [overrideM]) "M" := by
  have hacc : accepts overriding = true := by decide +kernel
  have hext : Extends overriding (.plain "B" "A" [] [overrideM]) (.plain "A" none [] [plainM]) :=
    ⟨"A", rfl, .head _, rfl⟩
  have hbase : BaseDeclares overriding (.plain "B" "A" [] [overrideM]) (fun _ => True) "M" :=
    ⟨_, hext, plainM, rfl, trivial⟩
  have hno : ¬ FinalAbove overriding (.plain "B" "A" [] [overrideM]) "M" :=
    not_finalAbove (by simp [overriding, ClassDecl.plain, plainM, overrideM, MethodDecl.plain])
  exact ((override_law_iff overriding).2 (registers_of_accepts hacc) _ overrideM
    (.tail _ (.head _)) (.head _) rfl hno).mpr fun _ => hbase

/-- A FINAL method is declared again, and an override of the method of an
ancestor further up is reported. -/
theorem final_redeclared :
    (∃ source cls m, accepts source = true ∧ .classDecl cls ∈ source.items ∧ m ∈ cls.methods ∧
      FinalAbove source cls m.name.name) ∧
    ∃ source cls m, Registers source ∧ .classDecl cls ∈ source.items ∧ m ∈ cls.methods ∧
      m.isOverride = true ∧ ¬ FinalAbove source cls m.name.name ∧
        OverridableAbove source cls m.name.name ∧ ¬ OverrideAccepted source cls m := by
  constructor
  · have hext : Extends redeclaring (.plain "B" "A" [] [plainM]) (.plain "A" none [] [finalM]) :=
      ⟨"A", rfl, .head _, rfl⟩
    exact ⟨redeclaring, _, plainM, by decide +kernel, .tail _ (.head _), .head _,
      _, .single hext, finalM, .head _, rfl, rfl⟩
  · have hB : Extends twoLevels (.plain "C" "B" [] [overrideM]) (.plain "B" "A" [] []) :=
      ⟨"B", rfl, .tail _ (.head _), rfl⟩
    have hA : Extends twoLevels (.plain "B" "A" [] []) (.plain "A" none [] [plainM]) :=
      ⟨"A", rfl, .head _, rfl⟩
    have hreg : Registers twoLevels := noError_of_errors (by decide +kernel)
    refine ⟨twoLevels, _, overrideM, hreg, .tail _ (.tail _ (.head _)), .head _, rfl,
      not_finalAbove ?_, ⟨_, .tail (.single hB) hA, plainM, .head _, rfl, rfl⟩, fun h => ?_⟩
    · simp [twoLevels, ClassDecl.plain, plainM, overrideM, MethodDecl.plain]
    · obtain ⟨d, hd, b, hb, -⟩ :=
        (checkOverride_silent_iff hreg fun _ => rfl).mp (h _ fun _ => rfl) rfl
      rw [extends_unique hreg hd hB] at hb
      cases hb

end RustPlc.Analysis
