import RustPlc.L2Compiler.Layout
import RustPlc.L2Compiler.StatementEmitted

/-!
# The code of expressions and initialisers

The code of an expression goes on behind each of its instructions, stores to
no local and fills registers that were not in use before. A declaration with
an initial value is compiled to the code of the value and a store to the slot
of the variable (crates/st-compiler/src/compile.rs:765-771), in front of the
body. A declaration without one emits nothing.

Results:
* `compileExpression_appends`: the code of an expression is ordinary;
* `compileVarBlocks_inits`: the code of a list of blocks is that of its
  initialisers, in the order of the slots.
-/
namespace RustPlc.Compiler

open RustPlc.Ir RustPlc.Syntax

/-! ## Expressions -/

/-- An instruction that goes on behind itself, stores to no local and fills a
register from `b` on, if any. -/
structure Ordinary (b : Nat) (i : Instruction) : Prop where
  straight : straight i = true
  storesLocal : storesLocal i = false
  target : ∀ r, target i = some r → b ≤ r.toNat

/-- From `s` to `s'` the compiler emitted ordinary instructions. -/
structure Appends (b : Nat) (s s' : FunctionCompiler) : Prop where
  code : ∃ new, s'.instructions = s.instructions ++ new ∧ ∀ i ∈ new, Ordinary b i
  regs : s.nextReg.toNat ≤ s'.nextReg.toNat

instance (b : Nat) : ClosedAbove b (Appends b) where
  refl := fun s => ⟨⟨[], by simp, by simp⟩, Nat.le_refl _⟩
  trans := by
    intro s s1 s2 h1 h2
    obtain ⟨new1, hn1, hf1⟩ := h1.code
    obtain ⟨new2, hn2, hf2⟩ := h2.code
    refine ⟨⟨new1 ++ new2, by rw [hn2, hn1, List.append_assoc], fun i hi => ?_⟩,
      Nat.le_trans h1.regs h2.regs⟩
    rcases List.mem_append.mp hi with hi | hi
    · exact hf1 i hi
    · exact hf2 i hi
  allocReg := by
    intro s r s' h
    obtain ⟨rfl, rfl, hn⟩ := allocReg_next h
    exact ⟨⟨[], by simp, by simp⟩, by omega⟩
  emit := by
    intro i s u s' hs hl ht h
    cases h
    refine ⟨⟨[i], rfl, fun j hj => ?_⟩, Nat.le_refl _⟩
    obtain rfl := List.mem_singleton.mp hj
    exact ⟨hs, hl, ht⟩

theorem compileExpression_appends [F64Ops] {env : ModuleEnv} {e : Expression}
    {s s' : FunctionCompiler} {r : Reg} (h : compileExpression env e s = .ok (r, s')) : Appends s.nextReg.toNat s s' :=
  ((compileExpression_computes (F := anyFault) env e).step (Nat.le_refl _) h).1

theorem target_mem {i : Instruction} {r : Reg} (h : target i = some r) : r ∈ i.regs := by
  cases i with
  | storeLocal _ _ | storeGlobal _ _ | jumpIf _ _ | jumpIfNot _ _ | callFb _ _ _ | ret _
  | derefStore _ _ | storeArray _ _ _ | storeField _ _ _ | storeFieldIndex _ _ _ _ => cases h
  | _ => exact List.mem_of_head? h

/-- The registers that the code of an expression fills have been allocated. -/
theorem compileExpression_below [F64Ops] {env : ModuleEnv} {e : Expression}
    {s s' : FunctionCompiler} {r : Reg} {new : List Instruction} (hs : Ready env s)
    (h : compileExpression env e s = .ok (r, s'))
    (hnew : s'.instructions = s.instructions ++ new) :
    ∀ i ∈ new, ∀ t, target i = some t → RegIn t s' := by
  obtain ⟨⟨code, hcode, hfits⟩, -⟩ := (compileExpression_emits env e s r s' hs h).1
  obtain rfl := List.append_cancel_left (hcode.symm.trans hnew)
  exact fun i hi t ht => (hfits i hi).regs t (target_mem ht)

namespace Appends

variable {b n : Nat} {s s' : FunctionCompiler}

theorem length_le (h : Appends b s s') : s.instructions.length ≤ s'.instructions.length := by
  obtain ⟨new, hn, -⟩ := h.code
  rw [hn, List.length_append]
  omega

theorem mono (h : Appends b s s') (hn : n ≤ b) : Appends n s s' := by
  obtain ⟨new, hnew, hall⟩ := h.code
  refine ⟨⟨new, hnew, fun i hi => ?_⟩, h.regs⟩
  exact ⟨(hall i hi).straight, (hall i hi).storesLocal, fun r hr =>
    Nat.le_trans hn ((hall i hi).target r hr)⟩

theorem emitTo {mk : Reg → Instruction} {r : Reg} (h : Compiler.emitTo mk s = .ok (r, s'))
    (hmk : ∀ r, Fills (mk r) r) : Appends s.nextReg.toNat s s' :=
  ((Computes.emitTo (F := anyFault) hmk).step (Nat.le_refl _) h).1

end Appends

/-! ## Initialisers -/

/-- The initial values of the variables of the blocks, slot by slot. -/
def initialValues (blocks : List VarBlock) : List (Option Expression) :=
  blocks.flatMap fun vb => vb.declarations.flatMap fun decl =>
    decl.names.map fun _ => decl.initialValue

/-- The initialisers with their slots, from slot `k` on. -/
def initialisers : Nat → List (Option Expression) → List (UInt16 × Expression)
  | _, [] => []
  | k, some e :: values => (k.toUInt16, e) :: initialisers (k + 1) values
  | k, none :: values => initialisers (k + 1) values

theorem initialisers_append : ∀ (k : Nat) (xs ys : List (Option Expression)),
    initialisers k (xs ++ ys) = initialisers k xs ++ initialisers (k + xs.length) ys
  | k, [], ys => by simp [initialisers]
  | k, some e :: xs, ys => by
    simp only [List.cons_append, initialisers, initialisers_append (k + 1) xs ys, List.length_cons]
    rw [Nat.add_right_comm, Nat.add_assoc]
  | k, none :: xs, ys => by
    simp only [List.cons_append, initialisers, initialisers_append (k + 1) xs ys, List.length_cons]
    rw [Nat.add_right_comm, Nat.add_assoc]

/-- Neither code nor registers were added. -/
structure SameCode (s s' : FunctionCompiler) : Prop where
  code : s'.instructions = s.instructions
  regs : s'.nextReg = s.nextReg

theorem SameCode.refl (s : FunctionCompiler) : SameCode s s := ⟨rfl, rfl⟩

theorem SameCode.trans {s s1 s2 : FunctionCompiler} (h : SameCode s s1) (h' : SameCode s1 s2) :
    SameCode s s2 := ⟨h'.code.trans h.code, h'.regs.trans h.regs⟩

section

variable [F64Ops]

/-- What is emitted for a variable with an initial value: the code of the value,
which leaves it in `reg`, and a store of it. -/
structure Initialiser where
  slot : UInt16
  value : Expression
  reg : Reg
  code : List Instruction

def Initialiser.instructions (p : Initialiser) : List Instruction :=
  p.code ++ [.storeLocal p.slot p.reg]

/-- From `s` to `s'` the compiler emitted the code of the initialisers. -/
inductive InitCode (env : ModuleEnv) :
    List Initialiser → FunctionCompiler → FunctionCompiler → Prop where
  | done {s s' : FunctionCompiler} (h : SameCode s s') : InitCode env [] s s'
  | init {p : Initialiser} {ps : List Initialiser} {s s1 s2 s3 s' : FunctionCompiler} {u : Unit}
      (h : SameCode s s1) (hready : Ready env s1)
      (hvalue : compileExpression env p.value s1 = .ok (p.reg, s2))
      (hcode : s2.instructions = s1.instructions ++ p.code)
      (hstore : emit (.storeLocal p.slot p.reg) s2 = .ok (u, s3)) (hrest : InitCode env ps s3 s') :
    InitCode env (p :: ps) s s'

namespace InitCode

variable {env : ModuleEnv} {ps qs : List Initialiser} {s s1 s' : FunctionCompiler}

theorem after (h : SameCode s s1) (hc : InitCode env ps s1 s') : InitCode env ps s s' := by
  cases hc with
  | done h' => exact .done (h.trans h')
  | init h' hready hvalue hcode hstore hrest =>
    exact .init (h.trans h') hready hvalue hcode hstore hrest

theorem append (h : InitCode env ps s s1) (h' : InitCode env qs s1 s') :
    InitCode env (ps ++ qs) s s' := by
  induction h with
  | done hsame => exact h'.after hsame
  | init hsame hready hvalue hcode hstore hrest ih =>
    exact .init hsame hready hvalue hcode hstore (ih h')

theorem code (h : InitCode env ps s s') :
    s'.instructions = s.instructions ++ ps.flatMap Initialiser.instructions := by
  induction h with
  | done hsame => simp [hsame.code]
  | @init p ps s s1 s2 s3 s' u hsame hready hvalue hcode hstore hrest ih =>
    cases hstore
    rw [ih, hcode, hsame.code]
    simp [Initialiser.instructions]

theorem regs (h : InitCode env ps s s') : s.nextReg.toNat ≤ s'.nextReg.toNat := by
  induction h with
  | done hsame => rw [hsame.regs]
  | init hsame hready hvalue hcode hstore hrest ih =>
    have hexpr := (compileExpression_appends hvalue).regs
    rw [← emit_next hstore] at hexpr
    rw [hsame.regs] at hexpr
    omega

/-- The code of the values is ordinary. -/
theorem ordinary (h : InitCode env ps s s') : ∀ p ∈ ps, ∀ i ∈ p.code, Ordinary 0 i := by
  induction h with
  | done hsame => simp
  | init hsame hready hvalue hcode hstore hrest ih =>
    obtain ⟨new, hnew, hall⟩ := ((compileExpression_appends hvalue).mono (Nat.zero_le _)).code
    obtain rfl := List.append_cancel_left (hnew.symm.trans hcode)
    exact List.forall_mem_cons.mpr ⟨hall, ih⟩

/-- From `s` to `s'` the compiler emitted the code of these initialisers. -/
def Of (env : ModuleEnv) (inits : List (UInt16 × Expression)) (s s' : FunctionCompiler) : Prop :=
  ∃ ps : List Initialiser, InitCode env ps s s' ∧ ps.map (fun p => (p.slot, p.value)) = inits

theorem Of.append {inits inits' : List (UInt16 × Expression)} (h : Of env inits s s1)
    (h' : Of env inits' s1 s') : Of env (inits ++ inits') s s' := by
  obtain ⟨ps, hp, rfl⟩ := h
  obtain ⟨qs, hq, rfl⟩ := h'
  exact ⟨ps ++ qs, hp.append hq, List.map_append⟩

theorem Of.same (h : SameCode s s') : Of env [] s s' := ⟨[], .done h, rfl⟩

end InitCode

variable {env : ModuleEnv} {s s' : FunctionCompiler} {u : Unit}

omit [F64Ops] in
theorem resolveSlotType_code {slot : UInt16} {ty : DataType}
    (h : resolveSlotType env slot ty s = .ok (u, s')) : SameCode s s' := by
  cases ty with
  | elementary _ | string _ _ | ref _ =>
    obtain ⟨-, rfl⟩ := pure_ok h
    exact .refl _
  | userDefined q =>
    obtain ⟨_, s1, h1, h2⟩ := bind_ok h
    have h3 := get_bind_ok h2
    cases h1
    cases ht : userVarType env s.typeDefs q.asStr with
    | none =>
      simp only [ht] at h3
      obtain ⟨-, rfl⟩ := pure_ok h3
      exact ⟨rfl, rfl⟩
    | some ty =>
      simp only [ht] at h3
      cases h3
      exact ⟨rfl, rfl⟩
  | array ranges elementType =>
    obtain ⟨dims, hd, h2⟩ := liftFault_bind_ok h
    obtain ⟨_, s2, h3, h4⟩ := bind_ok (get_bind_ok h2)
    cases h3
    cases h4
    exact ⟨rfl, rfl⟩

omit [F64Ops] in
theorem layoutNames_length (l : MemoryLayout) : (layoutNames l).length = l.slots.length :=
  List.length_map _

theorem declareName_inits (hf : env.functions ≠ []) {retain persistent : Bool} {decl : VarDeclaration} {name : String}
    (hs : Ready env s) (h : declareName env true retain persistent decl name s = .ok (u, s')) :
    InitCode.Of env (initialisers s.locals.slots.length [decl.initialValue]) s s' := by
  obtain ⟨slot, s1, h1, h⟩ := bind_ok h
  obtain ⟨_, s2, h2, h3⟩ := bind_ok h
  have hslot : slot = s.locals.slots.length.toUInt16 := by
    cases h1
    rfl
  have hsame : SameCode s s2 := by
    have hr := resolveSlotType_code h2
    cases h1
    exact ⟨hr.code, hr.regs⟩
  cases hinit : decl.initialValue with
  | none =>
    rw [hinit] at h3
    obtain ⟨-, rfl⟩ := pure_ok h3
    exact .same hsame
  | some e =>
    rw [hinit] at h3
    obtain ⟨r, s3, h4, h5⟩ := bind_ok h3
    rw [hslot] at h5
    obtain ⟨e1, -, -⟩ := (addLocal_emits hf name _ _ retain persistent).after hs (.refl hs) h1
    obtain ⟨e2, -, -⟩ := (resolveSlotType_emits hf slot decl.ty).after hs e1 h2
    obtain ⟨new, hnew, -⟩ := (compileExpression_appends h4).code
    exact ⟨[⟨_, e, r, new⟩], .init hsame (e2.ready hs) h4 hnew h5 (.done (.refl _)), rfl⟩

theorem declareNames_inits (hf : env.functions ≠ []) {retain persistent : Bool}
    {decl : VarDeclaration} :
    ∀ (names : List String) {s s' : FunctionCompiler} {u : Unit}, Ready env s →
      declareNames env true retain persistent decl names s = .ok (u, s') →
        InitCode.Of env (initialisers s.locals.slots.length (names.map fun _ => decl.initialValue))
          s s' ∧ s'.locals.slots.length = s.locals.slots.length + names.length
  | [], s, s', u, hs, h => by
    obtain ⟨-, rfl⟩ := pure_ok h
    exact ⟨.same (.refl _), rfl⟩
  | name :: names, s, s', u, hs, h => by
    obtain ⟨_, s1, h1, h2⟩ := bind_ok h
    have hlen : s1.locals.slots.length = s.locals.slots.length + 1 := by
      have hnames := congrArg List.length (declareName_names h1)
      rw [List.length_append, layoutNames_length, layoutNames_length] at hnames
      exact hnames
    have hs1 := (declareName_emits hf true retain persistent decl name s _ s1 hs h1).1.ready hs
    obtain ⟨hrest, hlen'⟩ := declareNames_inits hf names hs1 h2
    rw [hlen] at hrest
    refine ⟨?_, by rw [hlen', hlen, List.length_cons]; omega⟩
    rw [List.map_cons, ← List.singleton_append, initialisers_append]
    exact (declareName_inits hf hs h1).append hrest

theorem declareAll_inits (hf : env.functions ≠ []) {retain persistent : Bool} :
    ∀ (decls : List VarDeclaration) {s s' : FunctionCompiler} {u : Unit}, Ready env s →
      declareAll env true retain persistent decls s = .ok (u, s') →
        InitCode.Of env (initialisers s.locals.slots.length
          (decls.flatMap fun decl => decl.names.map fun _ => decl.initialValue)) s s' ∧
        s'.locals.slots.length = s.locals.slots.length +
          (decls.flatMap fun decl => decl.names.map fun _ => decl.initialValue).length
  | [], s, s', u, hs, h => by
    obtain ⟨-, rfl⟩ := pure_ok h
    exact ⟨.same (.refl _), rfl⟩
  | decl :: decls, s, s', u, hs, h => by
    obtain ⟨_, s1, h1, h2⟩ := bind_ok h
    obtain ⟨hone, hlen⟩ := declareNames_inits hf _ hs h1
    have hs1 := (declareNames_emits hf true retain persistent decl _ s _ s1 hs h1).1.ready hs
    obtain ⟨hrest, hlen'⟩ := declareAll_inits hf decls hs1 h2
    simp only [List.map_map, List.length_map] at hone hlen
    rw [hlen] at hrest
    refine ⟨?_, by simp only [List.flatMap_cons, List.length_append, List.length_map]; omega⟩
    rw [List.flatMap_cons, initialisers_append, List.length_map]
    exact hone.append hrest

/-- **The code of a list of blocks is that of its initialisers.** -/
theorem compileVarBlocks_inits (hf : env.functions ≠ []) :
    ∀ (blocks : List VarBlock) {s s' : FunctionCompiler} {u : Unit}, Ready env s →
      compileVarBlocks env blocks s = .ok (u, s') →
        InitCode.Of env (initialisers s.locals.slots.length (initialValues blocks)) s s' ∧
        s'.locals.slots.length = s.locals.slots.length + (initialValues blocks).length
  | [], s, s', u, hs, h => by
    obtain ⟨-, rfl⟩ := pure_ok h
    exact ⟨.same (.refl _), rfl⟩
  | vb :: vbs, s, s', u, hs, h => by
    obtain ⟨_, s1, h1, h2⟩ := bind_ok h
    obtain ⟨hone, hlen⟩ := declareAll_inits hf _ hs h1
    have hs1 := (declareAll_emits hf true _ _ _ s _ s1 hs h1).1.ready hs
    obtain ⟨hrest, hlen'⟩ := compileVarBlocks_inits hf vbs hs1 h2
    rw [hlen] at hrest
    have hcons : initialValues (vb :: vbs) = (vb.declarations.flatMap fun decl =>
        decl.names.map fun _ => decl.initialValue) ++ initialValues vbs := rfl
    rw [hcons, initialisers_append, List.length_append]
    exact ⟨hone.append hrest, by omega⟩

end

end RustPlc.Compiler
