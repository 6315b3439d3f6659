import RustPlc.L2Compiler.Walk

/-!
# The layout of a body

The variables of a function are the ones its blocks declare, in order
(`declared`), then its result. Only declarations add to them: every primitive
leaves the tables of variables alone (`SameVars`), and so do the walks over
expressions and statements (`Steady`).

Results:
* `compileExpression_steady`, `compileStatements_steady`: the walks declare nothing;
* `compileVarBlocksInner_names`: the variables a list of blocks adds;
* `pouBody_names`, `functionBody_names`, `methodBody_names`: whole bodies.
-/
namespace RustPlc.Compiler

open RustPlc.Ir RustPlc.Syntax

/-! ## Walks that declare nothing -/

/-- The tables of variables are the same, and registers are only added. -/
structure SameVars (s s' : FunctionCompiler) : Prop where
  locals : s'.locals = s.locals
  instances : s'.fbTypeNames = s.fbTypeNames
  typeDefs : s'.typeDefs = s.typeDefs
  regs : s.nextReg.toNat ≤ s'.nextReg.toNat

theorem SameVars.refl (s : FunctionCompiler) : SameVars s s := ⟨rfl, rfl, rfl, Nat.le_refl _⟩

theorem SameVars.trans {s s1 s2 : FunctionCompiler} (h : SameVars s s1) (h' : SameVars s1 s2) :
    SameVars s s2 :=
  ⟨h'.locals.trans h.locals, h'.instances.trans h.instances, h'.typeDefs.trans h.typeDefs,
    Nat.le_trans h.regs h'.regs⟩

instance : Closed SameVars where
  refl := .refl
  trans := .trans
  allocReg := by
    intro s r s' h
    obtain ⟨rfl, rfl, hn⟩ := allocReg_next h
    exact ⟨rfl, rfl, rfl, by omega⟩
  allocLabel := by
    intro s l s' h
    unfold allocLabel at h
    split at h
    · cases h
    · cases h
      exact ⟨rfl, rfl, rfl, Nat.le_refl _⟩
  placeLabel := by
    intro l s u s' h
    cases h
    exact ⟨rfl, rfl, rfl, Nat.le_refl _⟩
  emit := by
    intro i s u s' _ h
    cases h
    exact ⟨rfl, rfl, rfl, Nat.le_refl _⟩
  setSource := by
    intro range s u s' h
    cases h
    exact ⟨rfl, rfl, rfl, Nat.le_refl _⟩
  pushLoopExit := by
    intro l s u s' h
    cases h
    exact ⟨rfl, rfl, rfl, Nat.le_refl _⟩
  popLoopExit := by
    intro s u s' h
    cases h
    exact ⟨rfl, rfl, rfl, Nat.le_refl _⟩
  leave := by
    intro r s u s1 v s2 h1 h2
    cases h1
    cases h2
    exact ⟨rfl, rfl, rfl, Nat.le_refl _⟩

structure Steady {α : Type} (x : CompileM α) : Prop where
  same : ∀ {s r s'}, x s = .ok (r, s') → SameVars s s'

namespace Steady

variable {α β : Type}

theorem of_walks {x : CompileM α} (h : Walks SameVars anyFault x) : Steady x := ⟨h.step⟩

theorem walks {x : CompileM α} (h : Steady x) : Walks SameVars anyFault x :=
  ⟨h.same, fun _ => trivial⟩

theorem pure (a : α) : Steady (Pure.pure a : CompileM α) := of_walks (.pure a)

theorem bind {x : CompileM α} {f : α → CompileM β} (hx : Steady x) (hf : ∀ a, Steady (f a)) :
    Steady (x >>= f) := of_walks (hx.walks.bind fun a => (hf a).walks)

/-- Also of an instruction that ends the activation. -/
theorem emit (i : Instruction) : Steady (Compiler.emit i) := by
  constructor
  intro s r s' h
  cases h
  exact ⟨rfl, rfl, rfl, Nat.le_refl _⟩

theorem emitTo (mk : Reg → Instruction) : Steady (Compiler.emitTo mk) :=
  (of_walks .allocReg).bind fun _ => (emit _).bind fun _ => pure _

theorem liftFault (x : Except CompileFault α) : Steady (Compiler.liftFault x) :=
  of_walks (.liftFault fun _ => trivial)

theorem currentPc : Steady Compiler.currentPc := of_walks .currentPc

theorem emitReturn (slot : UInt16) : Steady (Compiler.emitReturn slot) :=
  (emitTo _).bind fun _ => emit _

end Steady

section

variable {env : ModuleEnv}

theorem compileLoadVariable_steady (env : ModuleEnv) (name : String) :
    Steady (compileLoadVariable env name) :=
  .of_walks (compileLoadVariable_walks env name)

/-- The three ways of compiling the arguments of a call. -/
structure ArgsSteady (args : ArgCompiler) : Prop where
  all : Steady args.all
  arg : ∀ missing i, Steady (args.arg missing i)
  timeArgs : Steady args.timeArgs

theorem compilePlainCall_steady {args : ArgCompiler} (h : ArgsSteady args) (s : FunctionCompiler)
    (dst : Reg) (name : String) (refVar : Option String) :
    Steady (compilePlainCall env s dst name refVar args) :=
  .of_walks (compilePlainCall_computes
    ⟨h.all.walks.computes fun _ => trivial,
      fun missing i => (h.arg missing i).walks.computes fun _ => Nat.zero_le _,
      h.timeArgs.walks.computes fun _ => trivial⟩ s (Nat.zero_le _) name refVar).walks

end

section

variable [F64Ops] (env : ModuleEnv)

theorem literalValue_steady (kind : LiteralKind) : Steady (literalValue kind) :=
  .of_walks (literalValue_computes kind).walks

theorem compileExpression_steady (e : Expression) : Steady (compileExpression env e) :=
  .of_walks (compileExpression_walks env e)

theorem compileCallArgs_steady (i : Nat) (as : List Argument) :
    Steady (compileCallArgs env i as) :=
  .of_walks (compileCallArgs_computes env i as).walks

theorem compileCallArg_steady (v : Value) (i : Nat) (as : List Argument) :
    Steady (compileCallArg env v i as) :=
  .of_walks (compileCallArg_computes env v i as).walks

theorem compileTimeArgs_steady (as : List Argument) : Steady (compileTimeArgs env as) :=
  .of_walks (compileTimeArgs_computes env as).walks

theorem compileStatements_steady (sts : List Statement) : Steady (compileStatements env sts) :=
  .of_walks (compileStatements_walks env sts)

end

/-! ## Declarations -/

/-- The variables of a list of blocks, in order. -/
def declared (blocks : List VarBlock) : List (String × DataType) :=
  blocks.flatMap fun vb => vb.declarations.flatMap fun decl =>
    decl.names.map fun id => (id.name, decl.ty)

/-- The names in a layout. -/
def layoutNames (l : MemoryLayout) : List String := l.slots.map (·.name)

theorem setSlotType_names {slot : UInt16} {ty : VarType} {s s' : FunctionCompiler} {u : Unit}
    (h : setSlotType slot ty s = .ok (u, s')) :
    layoutNames s'.locals = layoutNames s.locals := by
  cases h
  apply List.ext_getElem?
  intro j
  simp only [layoutNames, List.getElem?_map, List.getElem?_modify]
  cases s.locals.slots[j]? with
  | none => rfl
  | some v =>
    simp only [Option.map_eq_map, Option.map_some, Option.some.injEq]
    split <;> rfl

theorem resolveSlotType_names {env : ModuleEnv} {slot : UInt16} {ty : DataType}
    {s s' : FunctionCompiler} {u : Unit} (h : resolveSlotType env slot ty s = .ok (u, s')) :
    layoutNames s'.locals = layoutNames s.locals := by
  cases ty with
  | elementary _ | string _ _ | ref _ =>
    obtain ⟨-, rfl⟩ := pure_ok h
    rfl
  | userDefined q =>
    obtain ⟨_, s1, h1, h2⟩ := bind_ok h
    have h3 := get_bind_ok h2
    cases h1
    cases ht : userVarType env s.typeDefs q.asStr with
    | none =>
      simp only [ht] at h3
      obtain ⟨-, rfl⟩ := pure_ok h3
      rfl
    | some ty =>
      simp only [ht] at h3
      rw [setSlotType_names h3]
  | array ranges elementType =>
    obtain ⟨dims, s1, h1, h2⟩ := bind_ok h
    have hs1 : s1 = s := by
      cases hd : arrayDimensions ranges with
      | error e =>
        simp only [hd] at h1
        cases h1
      | ok d =>
        simp only [hd] at h1
        cases h1
        rfl
    subst hs1
    obtain ⟨_, s2, h3, h4⟩ := bind_ok (get_bind_ok h2)
    cases h3
    rw [setSlotType_names h4]

section

variable [F64Ops] {env : ModuleEnv} {s s' : FunctionCompiler} {u : Unit}

theorem declareName_names {emitInit retain persistent : Bool} {decl : VarDeclaration}
    {name : String} (h : declareName env emitInit retain persistent decl name s = .ok (u, s')) :
    layoutNames s'.locals = layoutNames s.locals ++ [name] := by
  obtain ⟨slot, s1, h1, h⟩ := bind_ok h
  obtain ⟨_, s2, h2, h3⟩ := bind_ok h
  have e1 : layoutNames s1.locals = layoutNames s.locals ++ [name] := by
    cases h1
    simp [layoutNames, newSlot]
  have e2 := resolveSlotType_names h2
  have e3 : s'.locals = s2.locals := by
    cases emitInit with
    | false =>
      obtain ⟨-, rfl⟩ := pure_ok h3
      rfl
    | true =>
      cases hinit : decl.initialValue with
      | none =>
        rw [hinit] at h3
        obtain ⟨-, rfl⟩ := pure_ok h3
        rfl
      | some e =>
        rw [hinit] at h3
        exact (((compileExpression_steady env e).bind fun _ => .emit _).same h3).locals
  rw [e3, e2, e1]

theorem declareNames_names {emitInit retain persistent : Bool} {decl : VarDeclaration} :
    ∀ (names : List String) {s s' : FunctionCompiler} {u : Unit},
      declareNames env emitInit retain persistent decl names s = .ok (u, s') →
        layoutNames s'.locals = layoutNames s.locals ++ names
  | [], s, s', u, h => by
    obtain ⟨-, rfl⟩ := pure_ok h
    simp
  | name :: names, s, s', u, h => by
    obtain ⟨_, s1, h1, h2⟩ := bind_ok h
    rw [declareNames_names names h2, declareName_names h1, List.append_assoc]
    rfl

theorem declareAll_names {emitInit retain persistent : Bool} :
    ∀ (decls : List VarDeclaration) {s s' : FunctionCompiler} {u : Unit},
      declareAll env emitInit retain persistent decls s = .ok (u, s') →
        layoutNames s'.locals = layoutNames s.locals ++
          decls.flatMap fun decl => decl.names.map (·.name)
  | [], s, s', u, h => by
    obtain ⟨-, rfl⟩ := pure_ok h
    simp
  | decl :: decls, s, s', u, h => by
    obtain ⟨_, s1, h1, h2⟩ := bind_ok h
    rw [declareAll_names decls h2, declareNames_names _ h1, List.append_assoc, List.flatMap_cons]

/-- **The variables a list of blocks adds.** -/
theorem compileVarBlocksInner_names {emitInit : Bool} :
    ∀ (blocks : List VarBlock) {s s' : FunctionCompiler} {u : Unit},
      compileVarBlocksInner env emitInit blocks s = .ok (u, s') →
        layoutNames s'.locals = layoutNames s.locals ++ (declared blocks).map (·.1)
  | [], s, s', u, h => by
    obtain ⟨-, rfl⟩ := pure_ok h
    simp [declared]
  | vb :: vbs, s, s', u, h => by
    obtain ⟨_, s1, h1, h2⟩ := bind_ok h
    rw [compileVarBlocksInner_names vbs h2, declareAll_names _ h1, List.append_assoc]
    simp [declared, List.map_flatMap, Function.comp_def]

/-! ## Bodies -/

theorem pouBody_names {blocks : List VarBlock} {body : List Statement} {typeDefs : List TypeDef}
    {start : Nat} (h : pouBody env blocks body (.new typeDefs) = .ok (start, s)) :
    layoutNames s.locals = (declared blocks).map (·.1) := by
  obtain ⟨_, s1, h1, h⟩ := bind_ok h
  have e1 := compileVarBlocksInner_names blocks h1
  have e2 : SameVars s1 s := Steady.same
    (Steady.currentPc.bind fun _ => (compileStatements_steady env body).bind fun _ =>
      (Steady.emit _).bind fun _ => .pure _) h
  rw [e2.locals, e1]
  rfl

omit [F64Ops] in
theorem addLocal_names {name : String} {ty : VarType} {width : IntWidth} {retain persistent : Bool}
    {slot : UInt16} (h : addLocal name ty width retain persistent s = .ok (slot, s')) :
    layoutNames s'.locals = layoutNames s.locals ++ [name] := by
  cases h
  simp [layoutNames, newSlot]

/-- The code after the declarations of a function with a result. -/
theorem resultBody_names {name : String} {ty : DataType} {body : List Statement} {start : Nat}
    (h : (do
      let slot ← addLocal name (varTypeFromAst ty) (intWidthFromAst ty) false false
      let start ← currentPc
      compileStatements env body
      emitReturn slot
      return start : CompileM Nat) s = .ok (start, s')) :
    layoutNames s'.locals = layoutNames s.locals ++ [name] := by
  obtain ⟨slot, s1, h1, h⟩ := bind_ok h
  have e2 : SameVars s1 s' := Steady.same
    (Steady.currentPc.bind fun _ => (compileStatements_steady env body).bind fun _ =>
      (Steady.emitReturn slot).bind fun _ => .pure _) h
  rw [e2.locals, addLocal_names h1]

theorem functionBody_names {f : FunctionDecl} {typeDefs : List TypeDef} {start : Nat}
    (h : functionBody env f (.new typeDefs) = .ok (start, s)) :
    layoutNames s.locals = (declared f.varBlocks).map (·.1) ++ [f.name.name] := by
  obtain ⟨_, s1, h1, h⟩ := bind_ok h
  rw [resultBody_names h, compileVarBlocksInner_names _ h1]
  rfl

theorem classBody_names {inherited own : List VarBlock} {typeDefs : List TypeDef} {start : Nat}
    (h : classBody env inherited own (.new typeDefs) = .ok (start, s)) :
    layoutNames s.locals = (declared inherited).map (·.1) ++ (declared own).map (·.1) := by
  obtain ⟨_, s1, h1, h⟩ := bind_ok h
  obtain ⟨_, s2, h2, h⟩ := bind_ok h
  have e : SameVars s2 s := Steady.same
    (Steady.currentPc.bind fun _ => (Steady.emit _).bind fun _ => .pure _) h
  rw [e.locals, compileVarBlocksInner_names _ h2, compileVarBlocksInner_names _ h1]
  rfl

/-- The name of the result variable of a method. -/
def MethodDecl.resultName (m : MethodDecl) : List String :=
  match m.returnType with
  | some _ => [m.name.name]
  | none => []

theorem methodBody_names {inherited own : List VarBlock} {m : MethodDecl} {typeDefs : List TypeDef}
    {start : Nat} (h : methodBody env inherited own m (.new typeDefs) = .ok (start, s)) :
    layoutNames s.locals = (declared inherited).map (·.1) ++ (declared own).map (·.1) ++
      (declared m.varBlocks).map (·.1) ++ MethodDecl.resultName m := by
  obtain ⟨_, s1, h1, h⟩ := bind_ok h
  obtain ⟨_, s2, h2, h⟩ := bind_ok h
  obtain ⟨_, s3, h3, h⟩ := bind_ok h
  have e3 : layoutNames s3.locals = (declared inherited).map (·.1) ++ (declared own).map (·.1) ++
      (declared m.varBlocks).map (·.1) := by
    rw [compileVarBlocksInner_names _ h3, compileVarBlocksInner_names _ h2,
      compileVarBlocksInner_names _ h1]
    rfl
  unfold MethodDecl.resultName
  cases hr : m.returnType with
  | some ty =>
    rw [hr] at h
    rw [resultBody_names h, e3]
  | none =>
    rw [hr] at h
    have e : SameVars s3 s := Steady.same
      (Steady.currentPc.bind fun _ => (compileStatements_steady env m.body).bind fun _ =>
        (Steady.emit _).bind fun _ => .pure _) h
    rw [e.locals, e3, List.append_nil]

end

end RustPlc.Compiler
