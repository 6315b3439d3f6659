import RustPlc.Core.Chains
import RustPlc.L2Compiler.Leaving
import RustPlc.L2Compiler.Registration

/-!
# Searches up the base classes

The compiler goes from class to class by the map of base classes of its first pass: for the
variables that a class inherits, and for the method that a call names. Neither search keeps a
record of the classes it has been to.

Results:
* `compile_ends`: where no class of the map leads back to itself the compiler ends.
-/
namespace RustPlc.Compiler

open RustPlc.Ir RustPlc.Core RustPlc.Syntax
open Relation

/-! ## The two searches -/

/-- mirrors crates/st-compiler/src/compile.rs:404 -/
def baseOf (bases : NameMap String) (key : String) : Option String := AList.lookup key bases

/-- mirrors crates/st-compiler/src/compile.rs:676-678 -/
def findBaseClass (bases : NameMap String) (key : String) : Option String :=
  (AList.lookup key bases).map toUppercase

/-- No class leads back to itself. -/
structure Acyclic (bases : NameMap String) : Prop where
  base : ∀ key, ¬ TransGen (Link (baseOf bases)) key key
  findBase : ∀ key, ¬ TransGen (Link (findBaseClass bases)) key key

section

variable {bases : NameMap String}

theorem key_mem {key : String} {base : String} (h : AList.lookup key bases = some base) :
    key ∈ bases.keys :=
  AList.lookup_isSome.mp (Option.isSome_of_eq_some h)

theorem keys_length (bases : NameMap String) : bases.keys.length = bases.entries.length := List.length_map _

theorem baseOf_mem (x y : String) (h : Link (baseOf bases) x y) : x ∈ bases.keys := key_mem h

theorem findBaseClass_mem (x y : String) (h : Link (findBaseClass bases) x y) :
    x ∈ bases.keys := by
  obtain ⟨base, hb, -⟩ := Option.map_eq_some_iff.mp h
  exact key_mem hb

theorem ancestorBlocks_fault (mc : ModuleCompiler) : ∀ k parent e,
    ancestorBlocks mc k (some parent) = .error e → climb (baseOf mc.classBases) k parent ≠ none
  | 0, parent, e, _ => Option.some_ne_none parent
  | k + 1, parent, e, h => by
    rw [ancestorBlocks] at h
    rw [climb, baseOf]
    cases hb : AList.lookup parent mc.classBases with
    | none =>
      rw [hb] at h
      cases k <;> cases h
    | some base =>
      rw [hb] at h
      cases hr : ancestorBlocks mc k (some base) with
      | error e' => exact ancestorBlocks_fault mc k base e' hr
      | ok rest =>
        rw [hr] at h
        cases h

theorem findMethodInHierarchy_fault (env : ModuleEnv) (method : String) : ∀ k cls e,
    findMethodInHierarchy env method k cls = .error e →
      climb (findBaseClass env.classBases) k (toUppercase cls) ≠ none
  | 0, cls, e, _ => Option.some_ne_none (toUppercase cls)
  | k + 1, cls, e, h => by
    rw [findMethodInHierarchy] at h
    rw [climb, findBaseClass]
    cases hp : env.position (cls ++ "." ++ method) with
    | some p =>
      rw [hp] at h
      cases h
    | none =>
      rw [hp] at h
      cases hb : AList.lookup (toUppercase cls) env.classBases with
      | none =>
        simp only [hb] at h
        cases h
      | some base =>
        simp only [hb] at h
        exact findMethodInHierarchy_fault env method k base e h

/-- The search for inherited variables ends. -/
theorem collectInheritedVarBlocks_ends {mc : ModuleCompiler} (h : Acyclic mc.classBases)
    (cls : String) (e : CompileFault) : collectInheritedVarBlocks mc cls ≠ .error e := by
  intro he
  unfold collectInheritedVarBlocks at he
  cases hb : AList.lookup (toUppercase cls) mc.classBases with
  | none =>
    rw [hb] at he
    cases he
  | some parent =>
    rw [hb] at he
    cases hc : ancestorBlocks mc (mc.classBases.entries.length + 1) (some parent) with
    | ok chain =>
      rw [hc] at he
      cases he
    | error e' =>
      have hlen := keys_length mc.classBases
      exact ancestorBlocks_fault mc _ parent e' hc
        (climb_ends baseOf_mem h.base (by omega) parent)

/-- The search for a method ends. -/
theorem methodTarget_ends {env : ModuleEnv} (h : Acyclic env.classBases) (s : FunctionCompiler)
    (parts : List String) (e : CompileFault) : s.methodTarget env parts ≠ .error e := by
  intro he
  unfold FunctionCompiler.methodTarget at he
  split at he
  · next obj method =>
    cases hi : s.instance? obj with
    | none =>
      rw [hi] at he
      cases he
    | some p =>
      obtain ⟨slot, ty⟩ := p
      rw [hi] at he
      cases hm : findMethodInHierarchy env method (env.classBases.entries.length + 2) ty with
      | ok i =>
        simp only [hm] at he
        cases he
      | error e' =>
        have hlen := keys_length env.classBases
        exact findMethodInHierarchy_fault env method _ ty e' hm
          (climb_ends findBaseClass_mem h.findBase (by omega) _)
  · cases he

end

/-! ## The function compiler -/

/-- A fault other than a search that goes on for ever. -/
def Finite (e : CompileFault) : Prop := e ≠ .cyclicInheritance

instance : Overflows Finite := ⟨nofun⟩

/-- Any two states. -/
def Anywhere (_ _ : FunctionCompiler) : Prop := True

instance : Closed Anywhere where
  refl _ := trivial
  trans _ _ := trivial
  allocReg _ := trivial
  allocLabel _ := trivial
  placeLabel _ := trivial
  emit _ _ := trivial
  setSource _ := trivial
  pushLoopExit _ := trivial
  popLoopExit _ := trivial
  leave _ _ := trivial

/-- Every fault of `x` is finite. -/
abbrev Ends {α : Type} (x : CompileM α) : Prop := Walks Anywhere Finite x

/-- Also of an instruction that ends the activation. -/
theorem ends_emit (i : Instruction) : Ends (emit i) := ⟨fun _ => trivial, nofun⟩

theorem ends_addLocal (name : String) (ty : VarType) (width : IntWidth) (retain persistent : Bool) :
    Ends (addLocal name ty width retain persistent) := ⟨fun _ => trivial, nofun⟩

theorem ends_emitReturn (slot : UInt16) : Ends (emitReturn slot) :=
  (Walks.allocReg.bind fun _ => (ends_emit _).bind fun _ => .pure _).bind fun _ => ends_emit _

section

variable [F64Ops] {env : ModuleEnv} (h : Acyclic env.classBases)

include h

theorem compileVarBlocksInner_ends (emitInit : Bool) (blocks : List VarBlock) :
    Ends (compileVarBlocksInner env emitInit blocks) :=
  have : Searches env Finite := ⟨fun he => absurd he (methodTarget_ends h _ _ _)⟩
  compileVarBlocksInner_walks (R := Anywhere) (fun _ _ _ _ => trivial) emitInit blocks

theorem compileStatements_ends (sts : List Statement) : Ends (compileStatements env sts) :=
  have : Searches env Finite := ⟨fun he => absurd he (methodTarget_ends h _ _ _)⟩
  compileStatements_walks env sts

theorem compileExpression_ends (e : Expression) : Ends (compileExpression env e) :=
  have : Searches env Finite := ⟨fun he => absurd he (methodTarget_ends h _ _ _)⟩
  compileExpression_walks env e

theorem pouBody_ends (varBlocks : List VarBlock) (body : List Statement) :
    Ends (pouBody env varBlocks body) :=
  (compileVarBlocksInner_ends h true varBlocks).bind fun _ => Walks.currentPc.bind fun _ =>
    (compileStatements_ends h body).bind fun _ => (ends_emit _).bind fun _ => .pure _

theorem functionBody_ends (f : FunctionDecl) : Ends (functionBody env f) :=
  (compileVarBlocksInner_ends h true f.varBlocks).bind fun _ =>
    (ends_addLocal ..).bind fun _ => Walks.currentPc.bind fun _ =>
      (compileStatements_ends h f.body).bind fun _ => (ends_emitReturn _).bind fun _ => .pure _

theorem classBody_ends (inherited own : List VarBlock) : Ends (classBody env inherited own) :=
  (compileVarBlocksInner_ends h true inherited).bind fun _ =>
    (compileVarBlocksInner_ends h true own).bind fun _ => Walks.currentPc.bind fun _ =>
      (ends_emit _).bind fun _ => .pure _

theorem methodBody_ends (inherited own : List VarBlock) (m : MethodDecl) :
    Ends (methodBody env inherited own m) := by
  refine (compileVarBlocksInner_ends h false inherited).bind fun _ =>
    (compileVarBlocksInner_ends h false own).bind fun _ =>
      (compileVarBlocksInner_ends h true m.varBlocks).bind fun _ => ?_
  cases m.returnType with
  | some ty => exact (ends_addLocal ..).bind fun _ => Walks.currentPc.bind fun _ =>
      (compileStatements_ends h m.body).bind fun _ => (ends_emitReturn _).bind fun _ => .pure _
  | none => exact Walks.currentPc.bind fun _ => (compileStatements_ends h m.body).bind fun _ =>
      (ends_emit _).bind fun _ => .pure _

theorem compileInits_ends : ∀ inits, Ends (compileInits env inits)
  | [] => .pure _
  | (_, e) :: inits => (Walks.setSource _).bind fun _ => (compileExpression_ends h e).bind fun _ =>
      (ends_emit _).bind fun _ => compileInits_ends inits

end

/-! ## The passes -/

/-- A pass that ends and leaves the base classes alone. -/
structure PassEnds (bases : NameMap String) (x : Except CompileFault ModuleCompiler) : Prop where
  fault : ∀ {e}, x = .error e → Finite e
  bases : ∀ {mc}, x = .ok mc → mc.classBases = bases

namespace PassEnds

variable {bases : NameMap String} {mc : ModuleCompiler}

theorem ok (h : mc.classBases = bases) : PassEnds bases (.ok mc) :=
  ⟨nofun, fun he => by cases he; exact h⟩

theorem bind {x : Except CompileFault ModuleCompiler}
    {f : ModuleCompiler → Except CompileFault ModuleCompiler} (hx : PassEnds bases x)
    (hf : ∀ mc, mc.classBases = bases → PassEnds bases (f mc)) : PassEnds bases (x >>= f) := by
  cases x with
  | error e =>
    refine ⟨fun he => ?_, nofun⟩
    cases he
    exact hx.fault rfl
  | ok mc => exact hf mc (hx.bases rfl)

theorem compilePou {body : CompileM Nat} (h : mc.classBases = bases) (hb : Ends body)
    (name : String) (kind : PouKind) : PassEnds bases (Compiler.compilePou mc name kind body) := by
  unfold Compiler.compilePou
  cases mc.env.position name with
  | none =>
    refine ⟨fun he => ?_, nofun⟩
    cases he
    nofun
  | some p =>
    cases hr : body (.new mc.typeDefs) with
    | error e =>
      refine ⟨fun he => ?_, nofun⟩
      cases he
      exact hb.fault hr
    | ok r => exact ok h

end PassEnds

section

variable [F64Ops] {bases : NameMap String} (hb : Acyclic bases)

include hb

theorem compileMethods_ends (cls : ClassDecl) (inherited : List VarBlock) : ∀ ms mc,
    mc.classBases = bases → PassEnds bases (compileMethods cls inherited ms mc)
  | [], mc, h => .ok h
  | m :: ms, mc, h => by
    rw [compileMethods]
    split
    · exact compileMethods_ends cls inherited ms mc h
    · have hmc : Acyclic mc.classBases := h ▸ hb
      have hac : Acyclic mc.env.classBases := hmc
      exact (PassEnds.compilePou h (methodBody_ends hac inherited cls.varBlocks m) _ _).bind
        fun mc' h' => compileMethods_ends cls inherited ms mc' h'

theorem compileItem_ends (item : TopLevelItem) {mc : ModuleCompiler} (h : mc.classBases = bases) :
    PassEnds bases (compileItem mc item) := by
  subst h
  cases item with
  | program p => exact .compilePou rfl (pouBody_ends hb p.varBlocks p.body) _ _
  | function f => exact .compilePou rfl (functionBody_ends hb f) _ _
  | functionBlock fb => exact .compilePou rfl (pouBody_ends hb fb.varBlocks fb.body) _ _
  | classDecl cls =>
    rw [compileItem]
    cases hi : collectInheritedVarBlocks mc cls.name.name with
    | error e => exact absurd hi (collectInheritedVarBlocks_ends hb _ e)
    | ok inherited =>
      exact (PassEnds.compilePou rfl (classBody_ends hb inherited cls.varBlocks) _ _).bind
        fun mc' h' => compileMethods_ends hb cls inherited cls.methods mc' h'
  | interface _ | typeDeclaration _ | globalVarDeclaration _ => exact .ok rfl

theorem compileItems_ends : ∀ items {mc : ModuleCompiler}, mc.classBases = bases →
    PassEnds bases (compileItems mc items)
  | [], _, h => .ok h
  | item :: items, _, h =>
    (compileItem_ends hb item h).bind fun _ h' => compileItems_ends items h'

theorem compileGlobalInit_ends {mc : ModuleCompiler} (h : mc.classBases = bases) :
    PassEnds bases (compileGlobalInit mc) := by
  subst h
  unfold compileGlobalInit
  split
  · exact .ok rfl
  · have hends : Ends (globalInitBody mc.env mc.pendingGlobalInits) :=
      (compileInits_ends hb _).bind fun _ => ends_emit _
    cases hr : globalInitBody mc.env mc.pendingGlobalInits (.new mc.typeDefs) with
    | error e =>
      refine ⟨fun he => ?_, nofun⟩
      cases he
      exact hends.fault hr
    | ok r => exact .ok rfl

end

/-- **The compiler ends** where no registered class leads back to itself. -/
theorem compile_ends [F64Ops] {source : SourceFile} (h : Acyclic (registered source).classBases) :
    compile source ≠ .error .cyclicInheritance := by
  intro hc
  have hothers := compileItems_ends h (source.items.filter (!isProgram ·)) rfl
  change (compileItems (registered source) (source.items.filter (!isProgram ·)) >>= _) = _ at hc
  cases h1 : compileItems (registered source) (source.items.filter (!isProgram ·)) with
  | error e =>
    rw [h1] at hc
    cases hc
    exact hothers.fault h1 rfl
  | ok others =>
    have hprograms := compileItems_ends h (source.items.filter isProgram) (hothers.bases h1)
    rw [h1] at hc
    change (compileItems others (source.items.filter isProgram) >>= _) = _ at hc
    cases h2 : compileItems others (source.items.filter isProgram) with
    | error e =>
      rw [h2] at hc
      cases hc
      exact hprograms.fault h2 rfl
    | ok programs =>
      have hinit := compileGlobalInit_ends h (hprograms.bases h2)
      rw [h2] at hc
      change (compileGlobalInit programs >>= _) = _ at hc
      cases h3 : compileGlobalInit programs with
      | error e =>
        rw [h3] at hc
        cases hc
        exact hinit.fault h3 rfl
      | ok mc =>
        rw [h3] at hc
        cases hc

end RustPlc.Compiler
