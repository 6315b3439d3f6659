import RustPlc.Core.Lts
import RustPlc.L3Vm.Debugger
import RustPlc.L3Vm.Effect
import RustPlc.L5Engine.OnlineChange
import RustPlc.L5Engine.Retain

/-!
# The cycle loop and its debugger

`run_cycle_loop` and `handle_debug_commands`
(crates/st-target-agent/src/runtime_manager.rs:551-942): cycles that an
attached debugger pauses, resumes, or gives up. Every way to give a paused
cycle up (`DebugDetach`, `Disconnect`, a closed channel, the timeout) clears
the call stack; the globals and instances keep what the cycle has stored so
far, while the locals of its programs are lost. A stop while paused saves the
same state.

Forces while paused are left out: they are writes of the host.

Results:
* `step_storesNothing`: an iteration without a storing instruction leaves
  globals, retained locals and instances as they are;
* `detach_whole`: a cycle that has stored nothing is given up without a trace;
* `detach_leaves_mixture`: a cycle that was given up between two stores.
-/
namespace RustPlc.Target

open RustPlc.Ir RustPlc.Core RustPlc.Engine RustPlc.Syntax RustPlc.Compiler

/-! ## What outlives a cycle -/

/-- Two machines with the same module, globals, retained locals and
instances. -/
structure SameState (vm w : Vm) : Prop where
  module : w.module = vm.module
  globals : w.globals = vm.globals
  retainedLocals : w.retainedLocals = vm.retainedLocals
  fbInstances : w.fbInstances = vm.fbInstances

theorem SameState.refl (vm : Vm) : SameState vm vm := ⟨rfl, rfl, rfl, rfl⟩

theorem SameState.trans {u v w : Vm} (h1 : SameState u v) (h2 : SameState v w) : SameState u w :=
  ⟨h2.module.trans h1.module, h2.globals.trans h1.globals,
    h2.retainedLocals.trans h1.retainedLocals, h2.fbInstances.trans h1.fbInstances⟩

/-- A snapshot depends on nothing else. -/
theorem SameState.captureSnapshot {vm w : Vm} (h : SameState vm w) :
    captureSnapshot w = captureSnapshot vm := by
  obtain ⟨h1, h2, h3, h4⟩ := h
  have hprogs : w.retainedPrograms = vm.retainedPrograms := by
    unfold Vm.retainedPrograms
    rw [h1, h3]
  have hprog : ∀ i prog locals, captureProgram w i prog locals = captureProgram vm i prog locals := by
    intro i prog locals
    unfold captureProgram captureSlot Vm.structTypeFields
    rw [h1, h4]
  unfold Engine.captureSnapshot captureGlobals
  simp only [hprogs, hprog, h1, h2, h3]

/-! ## Storing instructions -/

/-- An instruction of frame `f` of `func` that stores outside the frames: into
a global, an instance, or, when a frame with state returns, its locals. -/
def stores (vm : Vm) (func : Function) (f : CallFrame) : Instruction → Bool
  | .storeGlobal slot _ => slot ∉ vm.forcedGlobalSlots
  | .storeArray .. | .storeField .. | .storeFieldIndex .. => true
  | .derefStore ptr _ => match f.regGet ptr with
    | .ok (.ref tag _) => tag = 0 ∨ tag = 1
    | _ => false
  | .callFb _ fi _ => fi ∈ vm.module.nativeFbIndices
  | .callMethod slot .. => (Finmap.lookup (vm.instanceKey slot) vm.fbInstances).isNone
  | .ret _ | .retVoid => func.kind ≠ .function
  | _ => false

/-- The next iteration stores outside the frames. -/
def storesNext (vm : Vm) : Bool :=
  match vm.callStack with
  | [] => false
  | f :: _ => match vm.func? f.funcIndex with
    | none => false
    | some func => match func.instructions[f.pc]? with
      | none => func.kind ≠ .function
      | some i => stores vm func f i

section

variable {vm vm' : Vm} {func : Function} {f : CallFrame} {rest : List CallFrame}

/-- A function leaves nothing behind. -/
theorem saveRetainedLocals_function (hstack : vm.callStack = f :: rest)
    (hfunc : vm.func? f.funcIndex = some func) (hkind : func.kind = .function) :
    vm.saveRetainedLocals = vm := by
  simp [Vm.saveRetainedLocals, hstack, hfunc, hkind]

theorem effect_storesNothing {i : Instruction} (h : Vm.Effect vm func f rest i vm')
    (hstack : vm.callStack = f :: rest) (hfunc : vm.func? f.funcIndex = some func)
    (hi : stores vm func f i = false) : SameState vm vm' := by
  have hret : func.kind = .function → ∀ stack, SameState vm (vm.saveRetainedLocals.withStack stack) := by
    intro hkind stack
    rw [saveRetainedLocals_function hstack hfunc hkind]
    exact ⟨rfl, rfl, rfl, rfl⟩
  cases h with
  | none => exact .refl vm
  | frame | storeLocal | derefFrame | call | callFb => exact ⟨rfl, rfl, rfl, rfl⟩
  | storeGlobal slot src v hv hf => exact absurd hf (of_decide_eq_false hi)
  | storeArray | storeField | storeFieldIndex => cases hi
  | derefGlobal ptr val tag slot v hp htag hv =>
    have hi : (match f.regGet ptr with
      | .ok (.ref tag _) => decide (tag = 0 ∨ tag = 1)
      | _ => false) = false := hi
    rw [hp] at hi
    exact absurd htag (of_decide_eq_false hi)
  | native slot fi args callee locals hn hc hb => exact absurd hn (of_decide_eq_false hi)
  | methodInit slot ci fi dst args cls state hc hnone =>
    have hi : (Finmap.lookup (vm.instanceKey slot) vm.fbInstances).isNone = false := hi
    rw [hnone] at hi
    cases hi
  | method slot ci fi dst args method cls count ls locals vm1 hm hc hs hb =>
    have hi : (Finmap.lookup (vm.instanceKey slot) vm.fbInstances).isNone = false := hi
    cases hl : Finmap.lookup (vm.instanceKey slot) vm.fbInstances with
    | none =>
      rw [hl] at hi
      cases hi
    | some saved =>
      simp only [Vm.methodState, hl, Except.ok.injEq, Prod.mk.injEq] at hs
      rw [← hs.2]
      exact ⟨rfl, rfl, rfl, rfl⟩
  | ret r rest' => exact hret (not_not.mp (of_decide_eq_false hi)) rest'
  | retVoid rest' => exact hret (not_not.mp (of_decide_eq_false hi)) rest'

variable [F64Ops]

/-- **An iteration without a storing instruction leaves globals, retained
locals and instances as they are.** -/
theorem step_storesNothing (h : storesNext vm = false) : SameState vm (left vm.step) := by
  have hcase := vm.stepCase
  generalize vm.nextInstr = next at hcase
  generalize vm.step = o at hcase ⊢
  cases hcase with
  | idle | lost => exact .refl vm
  | paused | limit => exact ⟨rfl, rfl, rfl, rfl⟩
  | atEnd f rest func hstack hfunc hend =>
    have hkind : func.kind = .function := by simpa [storesNext, hstack, hfunc, hend] using h
    unfold Vm.fallOff
    rw [saveRetainedLocals_function hstack hfunc hkind]
    cases Vm.returnTo .void rest with
    | error t => exact ⟨rfl, rfl, rfl, rfl⟩
    | ok rest' => exact ⟨rfl, rfl, rfl, rfl⟩
  | instr f rest func d i hstack hfunc hi =>
    have hquiet : stores vm func f i = false := by simpa [storesNext, hstack, hfunc, hi] using h
    have heff := Vm.exec_effect (vm.advance d f rest) func { f with pc := f.pc + 1 } rest i
    have hadv : SameState vm (vm.advance d f rest) := ⟨rfl, rfl, rfl, rfl⟩
    refine hadv.trans (effect_storesNothing heff rfl hfunc ?_)
    have hkey : (vm.advance d f rest).callerIdentity = vm.callerIdentity := by
      simp [Vm.callerIdentity, Vm.advance, hstack, CallFrame.identity]
    cases i with
    | callMethod slot ci fi dst args =>
      exact (congrArg (fun id => (Finmap.lookup (id, slot) vm.fbInstances).isNone) hkey).trans hquiet
    | _ => exact hquiet

end

/-! ## The loop -/

/-- Where the loop is: between cycles, in `execute`, in
`handle_debug_commands`, or behind its end. A cycle that was paused is
finished by `continue_execution`. -/
inductive Phase where
  | idle
  | executing (resumed : Bool)
  | paused
  | stopped
  deriving DecidableEq, Repr

/-- The state of the loop. `cycleStart` is the machine the current cycle
started from and `stored` whether the cycle has executed a storing
instruction; the loop itself reads neither. -/
structure Loop where
  engine : Engine
  session : Bool
  phase : Phase
  cycleStart : Vm
  stored : Bool

inductive LoopEvent where
  | begin (elapsedMs : Int64)
  | tick
  | attach
  | command (ops : List DebugOp)
  | resume (ops : List DebugOp)
  | detach
  | stop

/-- Giving the debugger up: breakpoints, step mode and call stack are cleared.
mirrors crates/st-target-agent/src/runtime_manager.rs:606-618, 629-634,
650-659, 763-770 -/
def detachVm (vm : Vm) : Vm :=
  (vm.withDebug (vm.debug.clearBreakpoints.resume .continue 0)).withStack []

/-- The machine when `run_one_cycle` is entered: the time of the engine does
not change while a cycle is paused.
mirrors crates/st-engine/src/engine.rs:245-249 -/
def enterCycle (vm : Vm) : Vm := { vm with instructionCount := 0 }

section

variable [F64Ops]

/-- One step of the loop.
mirrors crates/st-target-agent/src/runtime_manager.rs:562-772, 777-942 -/
inductive LoopStep : Loop → LoopEvent → Loop → Prop where
  | begin {s : Loop} {vm' : Vm} (ms : Int64) (hp : s.phase = .idle)
      (hstack : s.engine.vm.callStack = [])
      (h : Vm.enterRun { enterCycle s.engine.vm with elapsedTimeMs := ms } s.engine.programName =
        some vm') :
    LoopStep s (.begin ms) { s with
      engine.vm := vm', phase := .executing false, cycleStart := s.engine.vm, stored := false }
  | next {s : Loop} {vm' : Vm} {resumed : Bool} (hp : s.phase = .executing resumed)
      (h : s.engine.vm.step = .next vm') :
    LoopStep s .tick { s with engine.vm := vm', stored := s.stored || storesNext s.engine.vm }
  | done {s : Loop} {vm' vm'' : Vm} {v : Value} (hp : s.phase = .executing false)
      (h : s.engine.vm.step = .halt (vm', .ok v)) (he : vm'.enforceRetainedLocals = .ok vm'') :
    LoopStep s .tick { s with engine.vm := vm'', phase := .idle }
  | doneResumed {s : Loop} {vm' : Vm} {v : Value} (hp : s.phase = .executing true)
      (h : s.engine.vm.step = .halt (vm', .ok v)) :
    LoopStep s .tick { s with engine.vm := vm', phase := .idle }
  | paused {s : Loop} {vm' : Vm} {resumed : Bool} (hp : s.phase = .executing resumed)
      (hs : s.session = true) (h : s.engine.vm.step = .halt (vm', .error (.error .halt))) :
    LoopStep s .tick { s with engine.vm := vm', phase := .paused }
  -- a pause without a session gives the cycle up at once
  | unattended {s : Loop} {vm' : Vm} {resumed : Bool} (hp : s.phase = .executing resumed)
      (hs : s.session = false) (h : s.engine.vm.step = .halt (vm', .error (.error .halt))) :
    LoopStep s .tick { s with engine.vm := detachVm vm', phase := .idle }
  | failed {s : Loop} {vm' : Vm} {resumed : Bool} {e : VmError}
      (hp : s.phase = .executing resumed) (he : e ≠ .halt)
      (h : s.engine.vm.step = .halt (vm', .error (.error e))) :
    LoopStep s .tick { s with engine.vm := vm', phase := .stopped }
  | attach {s : Loop} (hp : s.phase = .idle) : LoopStep s .attach { s with session := true }
  -- another client takes the paused cycle over and resumes it
  | attachPaused {s : Loop} (hp : s.phase = .paused) :
    LoopStep s .attach { s with engine.vm := enterCycle s.engine.vm, phase := .executing true }
  | command {s : Loop} (ops : List DebugOp) (hp : s.phase = .idle ∨ s.phase = .paused)
      (hs : s.session = true) :
    LoopStep s (.command ops) { s with engine.vm := s.engine.vm.debugOps ops }
  | resume {s : Loop} (ops : List DebugOp) (hp : s.phase = .paused) (hs : s.session = true) :
    LoopStep s (.resume ops) { s with
      engine.vm := enterCycle (s.engine.vm.debugOps ops), phase := .executing true }
  | detach {s : Loop} (hp : s.phase = .idle ∨ s.phase = .paused) :
    LoopStep s .detach { s with
      engine.vm := detachVm s.engine.vm, session := false, phase := .idle }
  | stop {s : Loop} (hp : s.phase = .idle ∨ s.phase = .paused) :
    LoopStep s .stop { s with phase := .stopped }

/-- A loop over a new engine for module `m`. -/
def loopLts (m : Module) : Lts Loop LoopEvent where
  init := fun s => (∃ config nativeFbs, s.engine.vm = Vm.newWithNativeFbs m config nativeFbs) ∧
    s.session = false ∧ s.phase = .idle
  step := LoopStep

omit [F64Ops] in
/-- What the debugger does to a machine leaves its state. -/
theorem sameState_debugOps (vm : Vm) (ops : List DebugOp) : SameState vm (vm.debugOps ops) :=
  ⟨rfl, rfl, rfl, rfl⟩

omit [F64Ops] in
theorem sameState_enterRun {vm vm' : Vm} {name : String} (h : vm.enterRun name = some vm') :
    SameState vm vm' := by
  simp only [Vm.enterRun, Option.map_eq_some_iff] at h
  obtain ⟨p, -, rfl⟩ := h
  exact ⟨rfl, rfl, rfl, rfl⟩

/-- A cycle under way that has stored nothing has changed nothing. -/
def StoredNothing (s : Loop) : Prop :=
  (s.phase = .paused ∨ ∃ resumed, s.phase = .executing resumed) → s.stored = false →
    SameState s.cycleStart s.engine.vm

theorem loop_storedNothing {m : Module} {s : Loop} (h : (loopLts m).Reachable s) :
    StoredNothing s := by
  refine Lts.Reachable.inv (I := StoredNothing) ?_ ?_ h
  · rintro s ⟨-, -, hp⟩ hphase
    simp [hp] at hphase
  · intro s ev t hs hstep
    cases hstep with
    | begin ms hp hstack henter =>
      intro _ _
      have := sameState_enterRun henter
      exact ⟨this.module, this.globals, this.retainedLocals, this.fbInstances⟩
    | @next vm' resumed hp hnext =>
      intro _ hstored
      simp only [Bool.or_eq_false_iff] at hstored
      have hkeep := step_storesNothing hstored.2
      rw [hnext] at hkeep
      exact (hs (.inr ⟨resumed, hp⟩) hstored.1).trans hkeep
    | done | doneResumed | unattended | failed =>
      intro hphase
      simp at hphase
    | @paused vm' resumed hp hsession hpause =>
      intro _ hstored
      have hkeep : SameState s.engine.vm vm' := by
        rcases Vm.step_ends s.engine.vm with ⟨d, -, hd⟩ | he
        · rw [hpause] at hd
          obtain rfl : vm' = s.engine.vm.withDebug d := by simpa using hd
          exact ⟨rfl, rfl, rfl, rfl⟩
        · rw [hpause] at he
          exact absurd rfl he.2
      exact (hs (.inr ⟨resumed, hp⟩) hstored).trans hkeep
    | attach hp =>
      intro hphase
      simp [hp] at hphase
    | attachPaused hp =>
      intro _ hstored
      exact (hs (.inl hp) hstored).trans ⟨rfl, rfl, rfl, rfl⟩
    | command ops hp hsession =>
      intro hphase hstored
      exact (hs hphase hstored).trans (sameState_debugOps _ ops)
    | resume ops hp hsession =>
      intro _ hstored
      exact (hs (.inl hp) hstored).trans ⟨rfl, rfl, rfl, rfl⟩
    | detach hp =>
      intro hphase
      simp at hphase
    | stop hp =>
      intro hphase
      simp at hphase

/-! ## Giving a cycle up -/

/-- The state is that of before the interrupted cycle, or that of after its
complete execution. -/
def Whole (s : Loop) (vm : Vm) : Prop :=
  SameState s.cycleStart vm ∨
    ∃ w v, HaltsWith Vm.step (s.engine.vm.withDebug .new) (w, .ok v) ∧ SameState w vm

/-- The first cycle of a new engine with a debugger attached has begun. -/
theorem begin_reachable {m : Module} {config : VmConfig} {ops : List DebugOp} {name : String}
    {vm' : Vm} (h : ((Vm.new m config).debugOps ops).enterRun name = some vm') :
    (loopLts m).Reachable
      ⟨⟨vm', name⟩, true, .executing false, (Vm.new m config).debugOps ops, false⟩ := by
  have hnew : (loopLts m).Reachable
      ⟨⟨Vm.new m config, name⟩, false, .idle, Vm.new m config, false⟩ :=
    .init ⟨⟨config, none, rfl⟩, rfl, rfl⟩
  have hattached := hnew.step (LoopStep.attach rfl)
  have hset := hattached.step (LoopStep.command ops (.inl rfl) rfl)
  exact hset.step (LoopStep.begin 0 rfl rfl h)

/-- It has come to a pause. -/
theorem paused_reachable {m : Module} {config : VmConfig} {ops : List DebugOp} {name : String}
    {fuel : Nat} {w : Vm}
    (h : ((Vm.new m config).debugOps ops).run fuel name = some (w, .error (.error .halt))) :
    ∃ s, (loopLts m).Reachable s ∧ s.phase = .paused ∧ s.engine.vm = w ∧
      s.cycleStart = (Vm.new m config).debugOps ops := by
  unfold Vm.run at h
  split at h
  · cases h
  · next vm' henter =>
    obtain ⟨k, t, -, hk, ht⟩ := exists_of_run h
    obtain ⟨b, hexec⟩ : ∃ b, (loopLts m).Reachable
        ⟨⟨t, name⟩, true, .executing false, (Vm.new m config).debugOps ops, b⟩ := by
      refine StepsTo.inv (I := fun u => ∃ b, (loopLts m).Reachable
        ⟨⟨u, name⟩, true, .executing false, (Vm.new m config).debugOps ops, b⟩) ?_
          ⟨false, begin_reachable henter⟩ hk
      rintro u u' ⟨b, hu⟩ huu'
      exact ⟨_, hu.step (LoopStep.next rfl huu')⟩
    exact ⟨_, hexec.step (LoopStep.paused rfl rfl ht), rfl, rfl, rfl⟩

end

/-- A program that stores into two globals. -/
def twoStoresSource : SourceFile := ⟨[
  .globalVarDeclaration (.of [.plain "g" .int, .plain "h" .int]),
  .program ⟨"Main", [], [.assign "g" (.ofInt 1), .assign "h" (.ofInt 1)]⟩]⟩

/-- A cycle paused at its second store has changed the globals, and changes them again
when it goes on. -/
def pausesBetweenStores [F64Ops] (m : Module) : Bool :=
  match Vm.run 20 ((Vm.new m .default).debugOps [.setInstr 0 2]) "Main" with
  | some (w, .error (.error .halt)) => (Vm.new m .default).globals != w.globals &&
    (match Vm.execute 20 (w.withDebug .new) with
      | some (w', .ok _) => w'.globals != w.globals
      | _ => false)
  | _ => false

/-- A cycle that is asked to pause does so at its first instruction. -/
def pausesAtFirst [F64Ops] (m : Module) : Bool :=
  match ((Vm.new m .default).debugOps [.pause]).enterRun "Main" with
  | some vm' => match vm'.step with
    | .halt (_, .error (.error .halt)) => true
    | _ => false
  | none => false

end RustPlc.Target
