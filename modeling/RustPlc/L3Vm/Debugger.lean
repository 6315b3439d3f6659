import RustPlc.L2Compiler.CompileModule
import RustPlc.L3Vm.Ends

/-!
# The debugger does not change what a program computes

`Vm::execute` asks the debugger before every instruction whether to pause. A
paused execution returns `Halt` and is resumed with `continue_execution`,
after any commands of the debugger. Such an interrupted execution is compared
with the execution of the same machine without a debugger.

Results:
* `exec_withDebug`: no instruction reads or writes the debug state;
* `interrupted_eq_plain`: an interrupted execution that ends does so with the
  result and in the state of the plain one.
-/
namespace RustPlc.Engine

open RustPlc.Ir RustPlc.Core RustPlc.Syntax RustPlc.Compiler

/-! ## Commands -/

namespace DebugState

/-- mirrors crates/st-engine/src/debug.rs:298-302 -/
def pause (d : DebugState) : DebugState :=
  { d with stepMode := .paused, paused := true, pauseReason := .pauseRequest }

/-- mirrors crates/st-engine/src/debug.rs:305-310 -/
def resume (d : DebugState) (mode : StepMode) (currentDepth : Nat) : DebugState :=
  { d with stepMode := mode, stepStartDepth := currentDepth, paused := false, pauseReason := .none }

/-- mirrors crates/st-engine/src/debug.rs:313-322 -/
def resumeWithSource (d : DebugState) (mode : StepMode) (currentDepth offset : Nat) : DebugState :=
  { d.resume mode currentDepth with stepStartSourceOffset := offset }

/-- mirrors crates/st-engine/src/debug.rs:78-80 -/
def setSourceBreakpoint (d : DebugState) (byteOffset : Nat) : DebugState :=
  { d with sourceBreakpoints := insert byteOffset d.sourceBreakpoints }

/-- mirrors crates/st-engine/src/debug.rs:83-85 -/
def removeSourceBreakpoint (d : DebugState) (byteOffset : Nat) : DebugState :=
  { d with sourceBreakpoints := d.sourceBreakpoints.erase byteOffset }

/-- mirrors crates/st-engine/src/debug.rs:93-96 -/
def clearBreakpoints (d : DebugState) : DebugState :=
  { d with breakpoints := ∅, sourceBreakpoints := ∅ }

end DebugState

/-- What a debugger can do to the debug state. `set_line_breakpoints` is a
list of `setSource`, one for each line that it resolves. -/
inductive DebugOp where
  | pause
  | resume (mode : StepMode) (depth : Nat)
  | resumeWithSource (mode : StepMode) (depth offset : Nat)
  | setInstr (funcIndex : UInt16) (pc : Nat)
  | setSource (byteOffset : Nat)
  | removeSource (byteOffset : Nat)
  | clear

def DebugState.apply (d : DebugState) : DebugOp → DebugState
  | .pause => d.pause
  | .resume mode depth => d.resume mode depth
  | .resumeWithSource mode depth offset => d.resumeWithSource mode depth offset
  | .setInstr fi pc => { d with breakpoints := insert (fi, pc) d.breakpoints }
  | .setSource offset => d.setSourceBreakpoint offset
  | .removeSource offset => d.removeSourceBreakpoint offset
  | .clear => d.clearBreakpoints

namespace Vm

/-- The commands of the debugger while the machine is paused. -/
def debugOps (vm : Vm) (ops : List DebugOp) : Vm :=
  vm.withDebug (ops.foldl DebugState.apply vm.debug)

section

variable [F64Ops]

/-- The results of an execution that the debugger interrupts: `Vm::run`, and
after each `Halt` some commands and `continue_execution`. -/
inductive Interrupted (vm : Vm) (name : String) : Stop → Prop where
  | run {fuel : Nat} {stop : Stop} (h : vm.run fuel name = some stop) : Interrupted vm name stop
  | resume {w : Vm} (ops : List DebugOp) {fuel : Nat} {stop : Stop}
      (hw : Interrupted vm name (w, .error (.error .halt)))
      (h : (w.debugOps ops).continueExecution fuel = some stop) : Interrupted vm name stop

/-! ## Instructions -/

/-- An outcome with another debug state. -/
def outcomeWithDebug (d : DebugState) : Outcome Vm Stop → Outcome Vm Stop
  | .next w => .next (w.withDebug d)
  | .halt (w, r) => .halt (w.withDebug d, r)

end

section

variable (vm : Vm) (d : DebugState)

@[simp] theorem withDebug_debug : (vm.withDebug d).debug = d := rfl
@[simp] theorem withDebug_callStack : (vm.withDebug d).callStack = vm.callStack := rfl
@[simp] theorem withDebug_func? (i : UInt16) : (vm.withDebug d).func? i = vm.func? i := rfl
@[simp] theorem withDebug_fbInstances : (vm.withDebug d).fbInstances = vm.fbInstances := rfl
@[simp] theorem withDebug_self : vm.withDebug vm.debug = vm := rfl
@[simp] theorem withDebug_withDebug (d' : DebugState) :
    (vm.withDebug d).withDebug d' = vm.withDebug d' := rfl

theorem orTrap_withDebug {α : Type} {x : Except Trap α} {k k' : α → Outcome Vm Stop}
    (h : ∀ a, x = .ok a → k' a = outcomeWithDebug d (k a)) :
    (vm.withDebug d).orTrap x k' = outcomeWithDebug d (vm.orTrap x k) := by
  cases x with
  | error t => rfl
  | ok a => exact h a rfl

theorem saveRetainedLocals_withDebug :
    (vm.withDebug d).saveRetainedLocals = vm.saveRetainedLocals.withDebug d := by
  unfold saveRetainedLocals
  simp only [withDebug_callStack, withDebug_func?]
  split
  · rfl
  · split
    · rfl
    · split
      · rfl
      · rfl
      · rfl
      · next slot caller _ _ _ _ =>
        rw [withDebug_fbInstances]
        cases Finmap.lookup (caller.identity, slot) vm.fbInstances <;> rfl
      · rfl

theorem methodState_withDebug (key : InstanceKey) (cls : Function) (count : Nat)
    (locals : List Value) :
    (vm.withDebug d).methodState key cls count locals =
      (vm.methodState key cls count locals).map fun p => (p.1, p.2.withDebug d) := by
  unfold methodState
  rw [withDebug_fbInstances]
  cases Finmap.lookup key vm.fbInstances with
  | some saved => rfl
  | none =>
    simp only
    cases initClassInstance cls (List.replicate cls.locals.slots.length Value.dflt)
      cls.locals.slots.length <;> rfl

theorem jumpTo_withDebug (func : Function) (f : CallFrame) (rest : List CallFrame)
    (label : Label) :
    (vm.withDebug d).jumpTo func f rest label =
      outcomeWithDebug d (vm.jumpTo func f rest label) := by
  unfold jumpTo
  cases func.labelPositions[label.toNat]? <;> rfl

section

variable (func : Function) (f : CallFrame) (rest : List CallFrame)

theorem fallOff_withDebug :
    (vm.withDebug d).fallOff rest = outcomeWithDebug d (vm.fallOff rest) := by
  unfold fallOff
  rw [saveRetainedLocals_withDebug]
  exact orTrap_withDebug (vm.saveRetainedLocals.withStack rest) d fun rest' _ => rfl

theorem ret_withDebug (r : Reg) :
    (vm.withDebug d).ret f rest r = outcomeWithDebug d (vm.ret f rest r) := by
  refine orTrap_withDebug vm d fun v _ => ?_
  simp only [saveRetainedLocals_withDebug]
  refine orTrap_withDebug (vm.saveRetainedLocals.withStack rest) d fun rest' _ => ?_
  cases rest <;> rfl

theorem retVoid_withDebug :
    (vm.withDebug d).retVoid rest = outcomeWithDebug d (vm.retVoid rest) := by
  unfold retVoid
  rw [saveRetainedLocals_withDebug]
  cases rest <;> rfl

theorem callFunction_withDebug (fi : UInt16) (dst : Reg) (args : List (UInt16 × Reg)) :
    (vm.withDebug d).callFunction f rest fi dst args =
      outcomeWithDebug d (vm.callFunction f rest fi dst args) := by
  unfold callFunction
  show (if vm.config.maxCallDepth ≤ vm.callStack.length then _ else _) = _
  split
  · rfl
  · simp only [withDebug_func?]
    cases vm.func? fi with
    | none => rfl
    | some callee => exact orTrap_withDebug vm d fun locals _ => rfl

theorem callFb_withDebug (fi slot : UInt16) (args : List (UInt16 × Reg)) :
    (vm.withDebug d).callFb f fi slot args func =
      outcomeWithDebug d (vm.callFb f fi slot args func) := by
  unfold callFb
  show (if vm.config.maxCallDepth ≤ vm.callStack.length then _ else _) = _
  split
  · rfl
  · simp only [withDebug_func?]
    cases vm.func? fi with
    | none => rfl
    | some callee =>
      refine orTrap_withDebug vm d fun locals _ => ?_
      show (if fi ∈ vm.module.nativeFbIndices then _ else _) = _
      split <;> rfl

theorem callMethod_withDebug (slot ci fi : UInt16) (dst : Reg) (args : List (UInt16 × Reg)) :
    (vm.withDebug d).callMethod f rest slot ci fi dst args =
      outcomeWithDebug d (vm.callMethod f rest slot ci fi dst args) := by
  unfold callMethod
  have hcount : (vm.withDebug d).findMethodClassVarCount fi ci =
    vm.findMethodClassVarCount fi ci := rfl
  simp only [withDebug_func?, hcount]
  rcases vm.func? fi with _ | method <;> rcases vm.func? ci with _ | cls <;>
    rcases vm.findMethodClassVarCount fi ci with _ | count <;> try rfl
  have hkey : (vm.withDebug d).instanceKey slot = vm.instanceKey slot := rfl
  simp only [hkey, methodState_withDebug]
  cases vm.methodState (vm.instanceKey slot) cls count method.locals.defaults with
  | error t => rfl
  | ok p =>
    obtain ⟨ls, vm1⟩ := p
    refine orTrap_withDebug vm1 d fun locals _ => ?_
    show (if vm1.config.maxCallDepth ≤ vm1.callStack.length then _ else _) = _
    split <;> rfl

theorem derefStore_withDebug (p v : Value) :
    (vm.withDebug d).derefStore p v = outcomeWithDebug d (vm.derefStore p v) := by
  unfold derefStore
  split
  · split
    · exact orTrap_withDebug vm d fun gs _ => rfl
    · split <;> rfl
  · rfl

theorem storeGlobal_withDebug (slot : UInt16) (src : Reg) :
    (vm.withDebug d).storeGlobal f slot src = outcomeWithDebug d (vm.storeGlobal f slot src) := by
  unfold storeGlobal
  show (if slot ∈ vm.forcedGlobalSlots then _ else _) = _
  split
  · rfl
  · exact orTrap_withDebug vm d fun v _ => orTrap_withDebug vm d fun gs _ => rfl

variable [F64Ops]

theorem compute_withDebug (i : Instruction) :
    (vm.withDebug d).compute func f i = vm.compute func f i := by
  cases i <;> rfl

theorem control_withDebug (i : Instruction) :
    (vm.withDebug d).control func f rest i = outcomeWithDebug d (vm.control func f rest i) := by
  cases i with
  | storeLocal slot src =>
    exact orTrap_withDebug vm d fun v _ => orTrap_withDebug vm d fun f' _ => rfl
  | storeGlobal slot src => exact storeGlobal_withDebug vm d f slot src
  | jump l => exact jumpTo_withDebug vm d func f rest l
  | jumpIf r l =>
    refine orTrap_withDebug vm d fun v _ => ?_
    split
    · exact jumpTo_withDebug vm d func f rest l
    · rfl
  | jumpIfNot r l =>
    refine orTrap_withDebug vm d fun v _ => ?_
    split
    · rfl
    · exact jumpTo_withDebug vm d func f rest l
  | call fi dst args => exact callFunction_withDebug vm d f rest fi dst args
  | callFb slot fi args => exact callFb_withDebug vm d func f fi slot args
  | callMethod slot ci fi dst args => exact callMethod_withDebug vm d f rest slot ci fi dst args
  | ret r => exact ret_withDebug vm d f rest r
  | retVoid => exact retVoid_withDebug vm d rest
  | derefStore ptr val =>
    exact orTrap_withDebug vm d fun p _ => orTrap_withDebug vm d fun v _ =>
      derefStore_withDebug vm d p v
  | storeArray slot idx val =>
    exact orTrap_withDebug vm d fun raw _ => orTrap_withDebug vm d fun v _ =>
      orTrap_withDebug vm d fun total _ => orTrap_withDebug vm d fun flat _ => rfl
  | storeField slot field val => exact orTrap_withDebug vm d fun v _ => rfl
  | storeFieldIndex slot off idx val =>
    exact orTrap_withDebug vm d fun raw _ => orTrap_withDebug vm d fun flat _ =>
      orTrap_withDebug vm d fun v _ => orTrap_withDebug vm d fun _ _ => rfl
  | _ => rfl

/-- **No instruction reads or writes the debug state.** -/
theorem exec_withDebug (i : Instruction) :
    (vm.withDebug d).exec func f rest i = outcomeWithDebug d (vm.exec func f rest i) := by
  unfold exec
  rw [compute_withDebug]
  cases vm.compute func f i with
  | none => exact control_withDebug vm d func f rest i
  | some p => exact orTrap_withDebug vm d fun v _ => orTrap_withDebug vm d fun f' _ => rfl

end

end

/-! ## Steps -/

/-- The plain machine: the same but for a debug state that never pauses. -/
def Plain (vm w : Vm) : Prop := ∃ d : DebugState, d.Inactive ∧ w = vm.withDebug d

theorem plain_withDebug {vm w : Vm} (h : Plain vm w) (d : DebugState) :
    Plain (vm.withDebug d) w := by
  obtain ⟨d', hd', rfl⟩ := h
  exact ⟨d', hd', rfl⟩

section

variable [F64Ops]

/-- An iteration is a pause, which leaves the machine as it is, or the plain
machine does the same. -/
theorem step_plain {vm w : Vm} (h : Plain vm w) :
    (∃ d, vm.step = .halt (vm.withDebug d, .error (.error .halt))) ∨
      Ends vm.step ∧ ∃ d, d.Inactive ∧ w.step = outcomeWithDebug d vm.step := by
  obtain ⟨d, hd, rfl⟩ := h
  unfold step
  simp only [withDebug_callStack, withDebug_func?, withDebug_debug]
  cases hstack : vm.callStack with
  | nil => exact .inr ⟨hstack, d, hd, rfl⟩
  | cons f rest =>
    simp only
    cases vm.func? f.funcIndex with
    | none => exact .inr ⟨⟨by simp [hstack], nofun⟩, d, hd, rfl⟩
    | some func =>
      simp only
      cases func.instructions[f.pc]? with
      | none => exact .inr ⟨fallOff_ends, d, hd, fallOff_withDebug vm d rest⟩
      | some i =>
        simp only
        obtain ⟨hnone, hd'⟩ := DebugState.shouldPause_inactive hd f.funcIndex f.pc
          (f :: rest).length func.sourceMap
        generalize d.shouldPause f.funcIndex f.pc (f :: rest).length func.sourceMap = q
          at hnone hd' ⊢
        obtain ⟨d', r'⟩ := q
        obtain rfl : r' = none := hnone
        generalize vm.debug.shouldPause f.funcIndex f.pc (f :: rest).length func.sourceMap = p
        obtain ⟨d1, r⟩ := p
        cases r with
        | some reason => exact .inl ⟨d1.markPaused reason, rfl⟩
        | none =>
          right
          have hadv : (vm.withDebug d).advance d' f rest = (vm.advance d1 f rest).withDebug d' := rfl
          simp only [hadv]
          by_cases hlim : 0 < vm.config.maxInstructions ∧
              vm.config.maxInstructions < vm.instructionCount + 1
          · have h1 : 0 < (vm.advance d1 f rest).config.maxInstructions ∧
                (vm.advance d1 f rest).config.maxInstructions <
                  (vm.advance d1 f rest).instructionCount := hlim
            have h2 : 0 < ((vm.advance d1 f rest).withDebug d').config.maxInstructions ∧
                ((vm.advance d1 f rest).withDebug d').config.maxInstructions <
                  ((vm.advance d1 f rest).withDebug d').instructionCount := hlim
            rw [if_pos h1, if_pos h2]
            exact ⟨⟨nofun, nofun⟩, d', hd', rfl⟩
          · have h1 : ¬ (0 < (vm.advance d1 f rest).config.maxInstructions ∧
                (vm.advance d1 f rest).config.maxInstructions <
                  (vm.advance d1 f rest).instructionCount) := hlim
            have h2 : ¬ (0 < ((vm.advance d1 f rest).withDebug d').config.maxInstructions ∧
                ((vm.advance d1 f rest).withDebug d').config.maxInstructions <
                  ((vm.advance d1 f rest).withDebug d').instructionCount) := hlim
            rw [if_neg h1, if_neg h2]
            exact ⟨exec_ends (List.cons_ne_nil _ _) i, d', hd', exec_withDebug _ _ _ _ _ _⟩

/-- What ends an execution is a pause or ends the plain one too. -/
theorem execute_plain {vm w : Vm} (h : Plain vm w) {stop : Stop} (hs : HaltsWith step vm stop) :
    (stop.2 = .error (.error .halt) ∧ ∃ w', Reaches step w w' ∧ Plain stop.1 w') ∨
      (stop.2 ≠ .error (.error .halt) ∧ ∃ w', HaltsWith step w (w', stop.2) ∧ Plain stop.1 w') := by
  have hsim : (∃ w', Reaches step w w' ∧ stop.2 = .error (.error .halt) ∧ Plain stop.1 w') ∨
      ∃ r : Stop, HaltsWith step w r ∧ r.2 = stop.2 ∧ stop.2 ≠ .error (.error .halt) ∧
        Plain stop.1 r.1 := by
    refine HaltsWith.simulate (R := Plain)
      (P := fun stop w' => stop.2 = .error (.error .halt) ∧ Plain stop.1 w')
      (Q := fun stop (r : Stop) => r.2 = stop.2 ∧ stop.2 ≠ .error (.error .halt) ∧
        Plain stop.1 r.1) ?_ ?_ h hs
    · intro s t s' hR hst
      rcases step_plain hR with ⟨d, hd⟩ | ⟨-, d, hd, hs'⟩
      · rw [hst] at hd
        cases hd
      · rw [hst] at hs'
        exact ⟨t.withDebug d, hs', d, hd, rfl⟩
    · rintro s ⟨t, r⟩ s' hR hst
      rcases step_plain hR with ⟨d, hd⟩ | ⟨he, d, hd, hs'⟩
      · rw [hst] at hd
        obtain ⟨rfl, rfl⟩ : t = s.withDebug d ∧ r = .error (.error .halt) := by simpa using hd
        exact .inl ⟨rfl, plain_withDebug hR d⟩
      · rw [hst] at hs' he
        refine .inr ⟨(t.withDebug d, r), hs', rfl, ?_, d, hd, rfl⟩
        rintro rfl
        exact he.2 rfl
  rcases hsim with ⟨w', hw', hhalt, hp⟩ | ⟨⟨w', r⟩, hw', hr, hne, hp⟩
  · exact .inl ⟨hhalt, w', hw', hp⟩
  · obtain rfl : r = stop.2 := hr
    exact .inr ⟨hne, w', hw', hp⟩

/-- `continue_execution` executes, also with no frame left. -/
theorem haltsWith_of_continueExecution {vm : Vm} {fuel : Nat} {stop : Stop}
    (h : vm.continueExecution fuel = some stop) : HaltsWith step vm stop := by
  unfold continueExecution at h
  split at h
  · next hempty =>
    obtain rfl : (vm, Except.ok .void) = stop := by simpa using h
    refine ⟨vm, .refl vm, ?_⟩
    unfold step
    rw [List.isEmpty_iff.mp hempty]
  · exact haltsWith_iff_run.mpr ⟨fuel, h⟩

/-! ## Interrupted executions -/

/-- Where the plain execution from `w0` is when an interrupted one has come to
`stop`: at the pause, or at its own end. -/
def Follows (w0 : Vm) (stop : Stop) : Prop :=
  (stop.2 = .error (.error .halt) ∧ ∃ w', Reaches step w0 w' ∧ Plain stop.1 w') ∨
    (stop.2 ≠ .error (.error .halt) ∧ ∃ w', HaltsWith step w0 (w', stop.2) ∧ Plain stop.1 w')

/-- One execution, from a pause that the plain machine follows to. -/
theorem follows_execute {w0 v v' : Vm} {stop : Stop} (hreach : Reaches step w0 v')
    (hp : Plain v v') (hs : HaltsWith step v stop) : Follows w0 stop := by
  rcases execute_plain hp hs with ⟨hr, w', hw', hp'⟩ | ⟨hr, w', hw', hp'⟩
  · exact .inl ⟨hr, w', hreach.trans hw', hp'⟩
  · exact .inr ⟨hr, w', hreach.haltsWith hw', hp'⟩

theorem interrupted_follows {vm : Vm} {name : String} {stop : Stop}
    (h : Interrupted vm name stop) {w0 : Vm}
    (h0 : (vm.withDebug .new).enterRun name = some w0) : Follows w0 stop := by
  induction h with
  | @run fuel stop hrun =>
    unfold enterRun at h0
    unfold run enterRun at hrun
    simp only [Option.map_eq_some_iff, Prod.exists] at h0
    obtain ⟨i, func, hfind, rfl⟩ := h0
    have hfind' : vm.module.findFunction name = some (i, func) := hfind
    simp only [hfind', Option.map_some] at hrun
    exact follows_execute (.refl _) ⟨.new, DebugState.inactive_new, rfl⟩
      (haltsWith_iff_run.mpr ⟨fuel, hrun⟩)
  | @resume w ops fuel stop _ hcont ih =>
    rcases ih with ⟨-, w', hw', hp⟩ | ⟨hne, -⟩
    · exact follows_execute hw' (plain_withDebug hp _) (haltsWith_of_continueExecution hcont)
    · exact absurd rfl hne

/-- A name without a function ends at once. -/
theorem interrupted_missing {vm : Vm} {name : String} {stop : Stop}
    (h : Interrupted vm name stop) (h0 : vm.module.findFunction name = none) :
    stop = (vm, .error (.error (.invalidFunction 0))) := by
  induction h with
  | @run fuel stop hrun =>
    unfold run enterRun at hrun
    simp only [h0, Option.map_none, Option.some.injEq] at hrun
    exact hrun.symm
  | resume ops _ _ ih => simp at ih

/-- **The debugger is transparent.** When an interrupted execution ends, the
execution without a debugger ends with the same result, and in the same state
but for the debug state. -/
theorem interrupted_eq_plain (vm : Vm) (name : String) (w : Vm) (r : Except Trap Value)
    (h : Interrupted vm name (w, r)) (hr : r ≠ .error (.error .halt)) :
    ∃ fuel d, (vm.withDebug .new).run fuel name = some (w.withDebug d, r) := by
  cases h0 : (vm.withDebug .new).enterRun name with
  | none =>
    have hfind : vm.module.findFunction name = none := Option.map_eq_none_iff.mp h0
    cases interrupted_missing h hfind
    refine ⟨0, .new, ?_⟩
    unfold run
    rw [h0]
  | some w0 =>
    rcases interrupted_follows h h0 with ⟨hhalt, -⟩ | ⟨-, w', hw', d, -, rfl⟩
    · exact absurd hhalt hr
    · obtain ⟨fuel, hfuel⟩ := haltsWith_iff_run.mp hw'
      refine ⟨fuel, d, ?_⟩
      unfold run
      rw [h0]
      exact hfuel

/-- An interrupted execution with these commands at its pauses, the last pause
first. -/
def runInterrupted (fuel : Nat) (vm : Vm) (name : String) : List (List DebugOp) → Option Stop
  | [] => vm.run fuel name
  | ops :: earlier => match runInterrupted fuel vm name earlier with
    | some (w, .error (.error .halt)) => (w.debugOps ops).continueExecution fuel
    | _ => none

theorem interrupted_of_runInterrupted {fuel : Nat} {vm : Vm} {name : String} :
    ∀ {pauses : List (List DebugOp)} {stop : Stop},
      runInterrupted fuel vm name pauses = some stop → Interrupted vm name stop
  | [], stop, h => .run h
  | ops :: earlier, stop, h => by
    unfold runInterrupted at h
    split at h
    · next w hw => exact .resume ops (interrupted_of_runInterrupted hw) h
    · cases h

end

end Vm

/-- A program that counts its cycles in a global. -/
def countingSource : SourceFile := ⟨[
  .globalVarDeclaration (.of [.plain "g" .int]),
  .program ⟨"Main", [], [.assign "g" (.binary .add (.ofName "g") (.ofInt 1) noRange)]⟩]⟩

/-- A new machine with a breakpoint at instruction `pc` of its first function. -/
def breakAt (m : Module) (pc : Nat) : Vm :=
  (Vm.new m .default).withDebug (DebugState.new.apply (.setInstr 0 pc))

/-- Paused once and resumed, the cycle has counted to 1. -/
def countsInterrupted [F64Ops] (m : Module) : Bool :=
  match Vm.runInterrupted 20 (breakAt m 2) "Main" [[.clear, .resume .continue 1]] with
  | some (w, .ok .void) => w.globals = [.int 1]
  | _ => false

/-- A cycle that is paused once, resumed, and ends with the count of a plain
cycle. -/
theorem interrupted_count_eq_plain : ∃ m w, @compile default countingSource = .ok m ∧
    @Vm.Interrupted default (breakAt m 2) "Main" (w, .ok .void) ∧ w.globals = [.int 1] ∧
      ∃ fuel d, @Vm.run default fuel ((breakAt m 2).withDebug .new) "Main" =
        some (w.withDebug d, .ok .void) := by
  have hrun : @yields default countingSource (@countsInterrupted default) = true := by
    decide +kernel
  obtain ⟨m, hm, hp⟩ := (@yields_iff default _ _).mp hrun
  unfold countsInterrupted at hp
  split at hp
  · next w hw =>
    have hi := @Vm.interrupted_of_runInterrupted default 20 _ _ _ _ hw
    refine ⟨m, w, hm, hi, of_decide_eq_true hp, ?_⟩
    exact @Vm.interrupted_eq_plain default _ _ w _ hi nofun
  · cases hp

end RustPlc.Engine
