import RustPlc.L2Compiler.CompilePlace
import RustPlc.L4Correct.CompileCode
import RustPlc.L4Correct.Simulate

/-!
# Compiler correctness on the scalar fragment

The code that `compile` emits for a program body (`compileStatements_code`)
makes the machine do what the interpreter says (`statements_simulates`):
from every store, the machine ends with a result exactly when the
interpreter has that result, for some number of turns.

A program is observed as its host sees it: the locals it retains and the
globals when it returns, or the trap that ends it.
-/
namespace RustPlc.Correct

open RustPlc.Core RustPlc.Ir RustPlc.Syntax RustPlc.Compiler RustPlc.Engine RustPlc.Semantics

/-- The variables a run of function `i` leaves behind, or its trap. -/
def observe (i : UInt16) : Stop → Except Trap Store
  | (vm, .ok _) => .ok ⟨(Finmap.lookup i vm.retainedLocals).getD [], vm.globals⟩
  | (_, .error t) => .error t

/-- A machine of module `m` that nothing interferes with: no force, no
breakpoint, no instruction limit. -/
structure Undisturbed (m : Module) (globals : List Value) (vm : Vm) : Prop where
  module : vm.module = m
  forces : vm.forcedVariables = ∅
  forcedSlots : vm.forcedGlobalSlots = ∅
  debug : vm.debug.Inactive
  limit : vm.config.maxInstructions = 0
  globals : vm.globals = globals

section

variable [F64Ops] {m : Module} {i : UInt16} {F : Function} {σ : Store} {R : List Value} {vm : Vm}

/-! ## One body -/

/-- A program that returns to the host leaves its store behind. -/
theorem Running.returns {pc : Nat} (h : Running m i F σ R pc vm) (hat : At F pc .retVoid)
    (hkind : F.kind = .program) :
    ∃ vm', HaltsWith Vm.step vm (vm', .ok .void) ∧ observe i (vm', .ok .void) = .ok σ := by
  obtain ⟨vm1, h1, hstep⟩ := h.step_eq hat
  have hfunc : vm1.func? i = some F := by
    rw [Vm.func?, h1.module]
    exact h1.func
  have hsave : vm1.saveRetainedLocals =
      { vm1 with retainedLocals := Finmap.insert i σ.locals vm1.retainedLocals } := by
    unfold Vm.saveRetainedLocals
    rw [h1.stack]
    simp only [frame, hfunc, hkind]
  refine ⟨vm1.saveRetainedLocals.withStack [], ⟨vm, .refl vm, hstep⟩, ?_⟩
  rw [hsave]
  simp [observe, h1.globals]

/-- What a run of a body from `vm` amounts to, by the interpreter's result. -/
theorem body_simulates {body : List Statement} {pc q N : Nat}
    (hc : CodeStatements F ⟨F.locals, m.globals⟩ body none pc q) (hret : At F q .retVoid)
    (hkind : F.kind = .program) (h : Running m i F σ R pc vm) :
    match interpret ⟨F.locals, m.globals⟩ N body σ with
    | none => RunsFor Vm.step N vm
    | some res => ∃ stop, HaltsWith Vm.step vm stop ∧ observe i stop = res := by
  have hsim : Simulates m i F none N q vm _ := statements_simulates body hc h
  unfold interpret
  simp only [Option.isSome_none] at hsim
  rcases hres : execStatements ⟨F.locals, m.globals⟩ N body false σ with _ | t | ⟨flow, σ'⟩
  · rw [hres] at hsim
    exact hsim
  · rw [hres] at hsim
    obtain ⟨vm', hhalt⟩ := hsim
    exact ⟨_, hhalt, rfl⟩
  · rw [hres] at hsim
    cases flow with
    | exit =>
      obtain ⟨l, p, vm', R', hl, -⟩ := hsim
      cases hl
    | normal =>
      obtain ⟨vm1, R1, hreach, h1⟩ := hsim
      obtain ⟨vm2, hhalt, hobs⟩ := h1.returns hret hkind
      exact ⟨_, hreach.haltsWith hhalt, hobs⟩

/-- The machine has exactly the results of the interpreter. -/
theorem body_results {body : List Statement} {pc q : Nat}
    (hc : CodeStatements F ⟨F.locals, m.globals⟩ body none pc q) (hret : At F q .retVoid)
    (hkind : F.kind = .program) (h : Running m i F σ R pc vm) (res : Except Trap Store) :
    (∃ fuel stop, Vm.execute fuel vm = some stop ∧ observe i stop = res) ↔
      ∃ n, interpret ⟨F.locals, m.globals⟩ n body σ = some res := by
  constructor
  · rintro ⟨fuel, stop, hrun, rfl⟩
    have hhalt : HaltsWith Vm.step vm stop := haltsWith_iff_run.mpr ⟨fuel, hrun⟩
    -- with more turns than the machine makes steps, the interpreter ends
    obtain ⟨n, hn⟩ := hhalt.not_runsFor
    have hsim := body_simulates (N := n) hc hret hkind h
    cases hres : interpret ⟨F.locals, m.globals⟩ n body σ with
    | none =>
      rw [hres] at hsim
      exact absurd hsim hn
    | some res =>
      rw [hres] at hsim
      obtain ⟨stop', hhalt', hobs⟩ := hsim
      obtain rfl := hhalt.unique hhalt'
      exact ⟨n, by rw [hres, hobs]⟩
  · rintro ⟨n, hres⟩
    have hsim := body_simulates (N := n) hc hret hkind h
    rw [hres] at hsim
    obtain ⟨stop, hhalt, hobs⟩ := hsim
    obtain ⟨fuel, hrun⟩ := haltsWith_iff_run.mp hhalt
    exact ⟨fuel, stop, hrun, hobs⟩

/-! ## The function of a program -/

/-- The body of a program, in the function the compiler makes of it. -/
theorem pouBody_code {env : ModuleEnv} {typeDefs : List TypeDef} {varBlocks : List VarBlock}
    {body : List Statement} {start : Nat} {s : FunctionCompiler} (name : String)
    (hbody : statementsScalar body = true) (hfuncs : env.functions ≠ [])
    (h : pouBody env varBlocks body (.new typeDefs) = .ok (start, s)) :
    ∃ q, CodeStatements (s.finish name .program start) ⟨s.locals, env.globals⟩ body none start q ∧
      At (s.finish name .program start) q .retVoid := by
  obtain ⟨_, s0, h1, h⟩ := bind_ok h
  obtain ⟨start', s1, h2, h⟩ := bind_ok h
  obtain ⟨_, s2, h3, h⟩ := bind_ok h
  obtain ⟨_, s3, h4, h5⟩ := bind_ok h
  obtain ⟨rfl, rfl⟩ := pure_ok h5
  obtain ⟨rfl, rfl⟩ : start = s0.instructions.length ∧ s1 = s0 := pure_ok h2
  obtain rfl := emit_eq h4
  have e1 := (compileVarBlocksInner_emits hfuncs true varBlocks (.new typeDefs) _ s1
    (ready_new typeDefs) h1).1
  have r1 := e1.ready (ready_new typeDefs)
  have hexits : s1.loopExitLabels = [] := e1.exits
  -- the finished function is the last state of the compiler
  have hF : Agrees ((emitted s2 .retVoid).finish name .program s1.instructions.length)
      s1.nextLabel.toNat [] (emitted s2 .retVoid) :=
    ⟨List.prefix_refl _, fun _ _ _ _ => rfl⟩
  obtain ⟨hret, g2⟩ := hF.emitted
  obtain ⟨hcode, hlocals⟩ := compileStatements_code body hbody r1 h3 g2
  have hscope : scopeOf env s1 = ⟨(emitted s2 .retVoid).locals, env.globals⟩ := by
    show Scope.mk s1.locals env.globals = ⟨s2.locals, env.globals⟩
    rw [hlocals]
  rw [hscope, hexits] at hcode
  exact ⟨_, hcode, hret⟩

/-- **Compiler correctness.** A program whose body is in the scalar fragment
is compiled to a function that, started at its body with any locals and any
globals, ends with exactly the results the interpreter gives for that body
and that store: the final variables, or the trap. A body on which the
interpreter never ends is one on which the machine never ends. -/
theorem compiled_program_correct {source : SourceFile} {pre post : List TopLevelItem}
    {p : ProgramDecl} (hsrc : source.items = pre ++ .program p :: post)
    (hlast : ∀ q, .program q ∈ post → eqIgnoreAsciiCase q.name.name p.name.name = false)
    (hbody : statementsScalar p.body = true) (h : compile source = .ok m)
    (hlen : m.functions.length ≤ 65536) :
    ∃ i F, m.findFunction p.name.name = some (i, F) ∧
      ∀ σ : Store, σ.Fits ⟨F.locals, m.globals⟩ → ∀ vm, Undisturbed m σ.globals vm →
        ∀ res, (∃ fuel stop,
            Vm.execute fuel
              (vm.withStack [CallFrame.enter i F σ.locals F.bodyStartPc none]) = some stop ∧
            observe i stop = res) ↔
          ∃ n, interpret ⟨F.locals, m.globals⟩ n p.body σ = some res := by
  obtain ⟨i, env, typeDefs, start, s, hfind, hpou, hglobals, hfuncs⟩ :=
    compile_program hsrc hlast h
  refine ⟨i, _, hfind, fun σ hfits vm hvm res => ?_⟩
  obtain ⟨q, hcode, hret⟩ := pouBody_code p.name.name hbody hfuncs hpou
  have hat := Module.findFunction_some hlen hfind
  rw [hglobals] at hcode
  have hrun : Running m i (s.finish p.name.name .program start) σ
      (List.replicate (max s.nextReg.toNat 1) Value.dflt) start
      (vm.withStack [CallFrame.enter i (s.finish p.name.name .program start) σ.locals start none]) :=
    { module := hvm.module
      func := hat
      wellFormed := compile_module_wellFormed h _ (List.mem_of_getElem? hat)
      forces := hvm.forces
      forcedSlots := hvm.forcedSlots
      debug := hvm.debug
      limit := hvm.limit
      globals := hvm.globals
      stack := rfl
      fits := hfits
      regs := List.length_replicate }
  exact body_results hcode hret rfl hrun res

/-! ## An instance -/

/-- `x := 1; WHILE x < 100 DO CASE x OF 1..4: x := x * 2; ELSE EXIT; END_CASE; END_WHILE;
y := y / (x - 8);` with a local `x` and a global `y`. -/
def doublingBody : List Statement := [
  .assign "x" (.ofInt 1),
  .whileStmt (.binary .lt (.ofName "x") (.ofInt 100) noRange) [
    .caseStmt (.ofName "x") [
      .mk [.range (.ofInt 1) (.ofInt 4)] [
        .assign "x" (.binary .mul (.ofName "x") (.ofInt 2) noRange)]]
      (some [.exit noRange]) noRange] noRange,
  .assign "y" (.binary .div (.ofName "y")
    (.parenthesized (.binary .sub (.ofName "x") (.ofInt 8) noRange)) noRange)]

def doublingSource : SourceFile := ⟨[
  .globalVarDeclaration (.of [.plain "y" .int]),
  .program ⟨"Main", [.of [.plain "x" .int]], doublingBody⟩]⟩

end

/-- The loop ends by its `EXIT` with 8 in `x`, and the division traps. -/
example : @yields default doublingSource (fun m =>
    match m.findFunction "Main" with
    | some (_, F) => decide (@interpret default ⟨F.locals, m.globals⟩ 10 doublingBody
        ⟨[.int 0], [.int 5]⟩ = some (.error (.error .divisionByZero)))
    | none => false) = true := by
  decide +kernel

theorem doubling_program_correct :
    ∃ m, @compile default doublingSource = .ok m ∧
      ∃ i F, m.findFunction "Main" = some (i, F) ∧
        ∀ σ : Store, σ.Fits ⟨F.locals, m.globals⟩ → ∀ vm, Undisturbed m σ.globals vm →
          ∀ res, (∃ fuel stop,
              @Vm.execute default fuel
                (vm.withStack [CallFrame.enter i F σ.locals F.bodyStartPc none]) = some stop ∧
              observe i stop = res) ↔
            ∃ n, @interpret default ⟨F.locals, m.globals⟩ n doublingBody σ = some res := by
  have hlen : @yields default doublingSource (fun m =>
      decide (m.functions.length ≤ 65536)) = true := by
    decide +kernel
  obtain ⟨m, hm, hp⟩ := (@yields_iff default _ _).mp hlen
  refine ⟨m, hm, ?_⟩
  exact @compiled_program_correct default m doublingSource
    [.globalVarDeclaration (.of [.plain "y" .int])] []
    ⟨"Main", [.of [.plain "x" .int]], doublingBody⟩ rfl (by simp) (by decide) hm
    (of_decide_eq_true hp)

end RustPlc.Correct
