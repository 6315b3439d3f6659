import RustPlc.L1Ir.Ops
import Mathlib.Data.Finmap
import Mathlib.Data.Finset.Basic

/-!
# The state of the virtual machine

`Vm` (crates/st-engine/src/vm.rs:50-92) with its call frames, its debug
state and its maps. A `HashMap` is a finite map whose order is not seen
(`Finmap`), a `HashSet` a `Finset`. The call stack is a list with the
running frame first; `frameAt` counts from the bottom, as the source's
vector does.

A native function block runs code outside this repository's bytecode: its
`execute` may read devices, so it takes the number of native calls made so
far, and it gets a slice, so it cannot change the number of fields.
-/
namespace RustPlc.Engine

open RustPlc.Ir

/-! ## Errors -/

/-- mirrors crates/st-engine/src/vm.rs:17-30 -/
inductive VmError where
  | divisionByZero
  | stackOverflow (depth : Nat)
  | invalidFunction (idx : UInt16)
  | invalidLabel (label : Label)
  | executionLimit (n : Nat)
  | halt
  deriving DecidableEq, Repr

/-- What ends an execution early: a reported error, a panic of an operator,
or a vector indexed outside its bounds. -/
inductive Trap where
  | error (e : VmError)
  | panic (p : Panic)
  | indexOutOfBounds
  deriving DecidableEq, Repr

/-- A panic inside an operator is a trap of the machine. -/
def liftPanic {α : Type} : Except Panic α → Except Trap α
  | .ok a => .ok a
  | .error p => .error (.panic p)

/-- `xs[i]`: panics outside the vector. -/
def index {α : Type} (xs : List α) (i : Nat) : Except Trap α :=
  match xs[i]? with
  | some x => .ok x
  | none => .error .indexOutOfBounds

/-- `xs[i] = x`: panics outside the vector. -/
def indexSet {α : Type} (xs : List α) (i : Nat) (x : α) : Except Trap (List α) :=
  if i < xs.length then .ok (xs.set i x) else .error .indexOutOfBounds

/-! ## Debugger -/

/-- mirrors crates/st-engine/src/debug.rs:29-40 -/
inductive StepMode where
  | continue | stepIn | stepOver | stepOut | paused
  deriving DecidableEq, Repr

/-- mirrors crates/st-engine/src/debug.rs:44-55 -/
inductive PauseReason where
  | breakpoint | step | pauseRequest | entry | none
  deriving DecidableEq, Repr

/-- mirrors crates/st-engine/src/debug.rs:8-25 -/
structure DebugState where
  breakpoints : Finset (UInt16 × Nat)
  sourceBreakpoints : Finset Nat
  stepMode : StepMode
  stepStartDepth : Nat
  stepStartSourceOffset : Nat
  lastBreakpointOffset : Nat
  paused : Bool
  pauseReason : PauseReason

namespace DebugState

/-- mirrors crates/st-engine/src/debug.rs:64-75 -/
def new : DebugState where
  breakpoints := ∅
  sourceBreakpoints := ∅
  stepMode := .continue
  stepStartDepth := 0
  stepStartSourceOffset := 0
  lastBreakpointOffset := 0
  paused := false
  pauseReason := .none

/-- The source offset of instruction `pc`, 0 when it has none. -/
def sourceOffset (sourceMap : List SourceLocation) (pc : Nat) : Nat :=
  match sourceMap[pc]? with
  | some sm => sm.byteOffset
  | none => 0

/-- mirrors crates/st-engine/src/debug.rs:274-295 -/
def checkBreakpoint (d : DebugState) (funcIndex : UInt16) (pc : Nat)
    (sourceMap : List SourceLocation) : DebugState × Option PauseReason :=
  if (funcIndex, pc) ∈ d.breakpoints then (d, some .breakpoint)
  else match sourceMap[pc]? with
    | some sm =>
      if 0 < sm.byteOffset ∧ sm.byteOffset ∈ d.sourceBreakpoints ∧
          sm.byteOffset ≠ d.lastBreakpointOffset then
        ({ d with lastBreakpointOffset := sm.byteOffset }, some .breakpoint)
      else (d, none)
    | none => (d, none)

/-- mirrors crates/st-engine/src/debug.rs:216-272 -/
def shouldPause (d : DebugState) (funcIndex : UInt16) (pc callDepth : Nat)
    (sourceMap : List SourceLocation) : DebugState × Option PauseReason :=
  let cur := sourceOffset sourceMap pc
  let d := if 0 < cur ∧ cur ≠ d.lastBreakpointOffset then { d with lastBreakpointOffset := 0 } else d
  match d.stepMode with
  | .paused => (d, some .pauseRequest)
  | .stepIn => if 0 < cur ∧ cur ≠ d.stepStartSourceOffset then (d, some .step) else (d, none)
  | .stepOver =>
    if callDepth ≤ d.stepStartDepth ∧ 0 < cur ∧ cur ≠ d.stepStartSourceOffset then (d, some .step)
    else d.checkBreakpoint funcIndex pc sourceMap
  | .stepOut =>
    if callDepth < d.stepStartDepth then (d, some .step)
    else d.checkBreakpoint funcIndex pc sourceMap
  | .continue => d.checkBreakpoint funcIndex pc sourceMap

/-- mirrors crates/st-engine/src/debug.rs:325-329 -/
def markPaused (d : DebugState) (reason : PauseReason) : DebugState :=
  { d with paused := true, pauseReason := reason, stepMode := .paused }

/-- No debugger: nothing can pause the machine. -/
def Inactive (d : DebugState) : Prop :=
  d.breakpoints = ∅ ∧ d.sourceBreakpoints = ∅ ∧ d.stepMode = .continue

theorem inactive_new : new.Inactive := ⟨rfl, rfl, rfl⟩

theorem shouldPause_inactive {d : DebugState} (h : d.Inactive) (fi : UInt16) (pc depth : Nat)
    (sm : List SourceLocation) :
    (d.shouldPause fi pc depth sm).2 = none ∧ (d.shouldPause fi pc depth sm).1.Inactive := by
  obtain ⟨h1, h2, h3⟩ := h
  unfold shouldPause checkBreakpoint Inactive
  by_cases hc : 0 < sourceOffset sm pc ∧ sourceOffset sm pc ≠ d.lastBreakpointOffset
  · cases hs : sm[pc]? <;> simp [hc, h1, h2, h3]
  · cases hs : sm[pc]? <;> simp [hc, h1, h2, h3]

end DebugState

/-! ## Native function blocks -/

/-- mirrors crates/st-comm-api/src/native_fb.rs:59-74. The field layout is in
the module's `Function` of that name. -/
structure NativeFb where
  typeName : String
  execute : Nat → List Value → List Value
  execute_length : ∀ k fields, (execute k fields).length = fields.length

/-- mirrors crates/st-comm-api/src/native_fb.rs:100-105 -/
def NativeFb.find (registry : List NativeFb) (typeName : String) : Option NativeFb :=
  registry.find? fun fb => eqIgnoreAsciiCase fb.typeName typeName

/-! ## Frames and machine -/

/-- mirrors crates/st-engine/src/vm.rs:34-48 -/
structure VmConfig where
  maxCallDepth : Nat
  maxInstructions : Nat
  deriving DecidableEq, Repr

def VmConfig.default : VmConfig := ⟨256, 10000000⟩

/-- mirrors crates/st-engine/src/vm.rs:52-61 -/
structure CallFrame where
  funcIndex : UInt16
  registers : List Value
  locals : List Value
  pc : Nat
  returnReg : Option Reg
  instanceSlot : Option UInt16
  deriving DecidableEq, Repr

/-- A key of `fb_instances`: the caller's identity and the instance slot. -/
abbrev InstanceKey := UInt32 × UInt16

abbrev Map (K V : Type) := Finmap fun _ : K => V

/-- mirrors crates/st-engine/src/vm.rs:64-95. `nativeCalls` counts the native
`execute` calls. -/
structure Vm where
  config : VmConfig
  module : Module
  globals : List Value
  callStack : List CallFrame
  instructionCount : Nat
  debug : DebugState
  retainedLocals : Map UInt16 (List Value)
  forcedVariables : Map String Value
  forcedGlobalSlots : Finset UInt16
  elapsedTimeMs : Int64
  fbInstances : Map InstanceKey (List Value)
  nativeFbs : Option (List NativeFb)
  nativeCalls : Nat

/-- mirrors crates/st-engine/src/vm.rs:2260-2269: the instance slot in the
upper half, the function index in the lower. -/
def CallFrame.identity (f : CallFrame) : UInt32 :=
  (f.instanceSlot.getD 0xFFFF).toUInt32 <<< 16 ||| f.funcIndex.toUInt32

namespace Vm

/-- mirrors crates/st-engine/src/vm.rs:104-129 -/
def newWithNativeFbs (module : Module) (config : VmConfig) (nativeFbs : Option (List NativeFb)) :
    Vm where
  config := config
  module := module
  globals := module.globals.defaults
  callStack := []
  instructionCount := 0
  debug := .new
  retainedLocals := ∅
  forcedVariables := ∅
  forcedGlobalSlots := ∅
  elapsedTimeMs := 0
  fbInstances := ∅
  nativeFbs := nativeFbs
  nativeCalls := 0

/-- mirrors crates/st-engine/src/vm.rs:99-101 -/
def new (module : Module) (config : VmConfig) : Vm := newWithNativeFbs module config none

/-- `module.functions[i]`, when it exists. -/
def func? (vm : Vm) (i : UInt16) : Option Function := vm.module.functions[i.toNat]?

/-- mirrors crates/st-engine/src/vm.rs:2260-2269 -/
def callerIdentity (vm : Vm) : UInt32 :=
  match vm.callStack with
  | f :: _ => f.identity
  | [] => 0

/-- The frame at position `i` from the bottom of the stack. -/
def frameAt (vm : Vm) (i : Nat) : Option CallFrame := vm.callStack.reverse[i]?

/-- The machine with another call stack. -/
def withStack (vm : Vm) (stack : List CallFrame) : Vm := { vm with callStack := stack }

section

variable (vm : Vm) (stack : List CallFrame)

@[simp] theorem withStack_config : (vm.withStack stack).config = vm.config := rfl
@[simp] theorem withStack_module : (vm.withStack stack).module = vm.module := rfl
@[simp] theorem withStack_globals : (vm.withStack stack).globals = vm.globals := rfl
@[simp] theorem withStack_callStack : (vm.withStack stack).callStack = stack := rfl
@[simp] theorem withStack_debug : (vm.withStack stack).debug = vm.debug := rfl
@[simp] theorem withStack_retainedLocals :
    (vm.withStack stack).retainedLocals = vm.retainedLocals := rfl
@[simp] theorem withStack_forcedVariables :
    (vm.withStack stack).forcedVariables = vm.forcedVariables := rfl
@[simp] theorem withStack_forcedGlobalSlots :
    (vm.withStack stack).forcedGlobalSlots = vm.forcedGlobalSlots := rfl
@[simp] theorem withStack_fbInstances : (vm.withStack stack).fbInstances = vm.fbInstances := rfl
@[simp] theorem withStack_func? (i : UInt16) : (vm.withStack stack).func? i = vm.func? i := rfl

end

/-- mirrors crates/st-engine/src/vm.rs:495-503 -/
def structTypeFields (vm : Vm) (idx : UInt16) : Option (List VarSlot) :=
  match vm.module.typeDefs[idx.toNat]? with
  | some (.struct _ fields) => some fields
  | _ => none

end Vm

end RustPlc.Engine
