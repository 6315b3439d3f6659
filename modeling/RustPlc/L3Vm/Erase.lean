import RustPlc.L3Vm.Debugger
import RustPlc.L3Vm.Effect

/-!
# Execution without names

The machine looks up functions by name, and with a force on it variables. It
reads no other name, and source maps only for the debugger: erasing the names of
the variables, of the types and of their members, and the source maps, changes
nothing in a run without forces and debugger.

Results:
* `exec_code`: an instruction does the same on the erased module;
* `step_quiet`: no forces and no debugger stay that way;
* `execute_erased`, `run_erased`: so does a whole execution.
-/
namespace RustPlc.Ir

/-! ## Erasing the names -/

def VarSlot.code (s : VarSlot) : VarSlot := { s with name := "" }

def MemoryLayout.code (l : MemoryLayout) : MemoryLayout := ⟨l.slots.map VarSlot.code⟩

def Function.code (f : Function) : Function := { f with locals := f.locals.code, sourceMap := [] }

def TypeDef.code : TypeDef → TypeDef
  | .struct _ fields => .struct "" (fields.map VarSlot.code)
  | .enum _ variants => .enum "" (variants.map fun v => ("", v.2))
  | .array e dims => .array e dims

/-- What a module does: everything but names of variables and types and source maps. -/
def Module.code (m : Module) : Module where
  functions := m.functions.map Function.code
  globals := m.globals.code
  typeDefs := m.typeDefs.map TypeDef.code
  nativeFbIndices := m.nativeFbIndices

namespace MemoryLayout

variable (l : MemoryLayout)

@[simp] theorem code_slot (i : Nat) : l.code.slots[i]? = (l.slots[i]?).map VarSlot.code := by
  simp [code]

@[simp] theorem code_length : l.code.slots.length = l.slots.length := by
  simp [code]

@[simp] theorem code_defaults : l.code.defaults = l.defaults := by
  simp [code, defaults, VarSlot.code]

end MemoryLayout

theorem findIdx_map {α β : Type} {p : β → Bool} {g : α → β} (xs : List α) :
    findIdx p (xs.map g) = (findIdx (p ∘ g) xs).map fun (i, x) => (i, g x) := by
  induction xs with
  | nil => rfl
  | cons x xs ih =>
    simp only [List.map_cons, findIdx, ih, Function.comp_apply]
    split
    · rfl
    · cases findIdx (p ∘ g) xs <;> rfl

theorem Module.code_findFunction (m : Module) (name : String) :
    m.code.findFunction name = (m.findFunction name).map fun (i, f) => (i, f.code) := by
  simp only [findFunction, code, findIdx_map, Option.map_map]
  rfl

theorem Module.code_typeDef (m : Module) (i : Nat) :
    m.code.typeDefs[i]? = (m.typeDefs[i]?).map TypeDef.code := by
  simp [code]

end RustPlc.Ir

namespace RustPlc.Engine

open RustPlc.Ir RustPlc.Core

@[simp] theorem slotWidth_code (l : MemoryLayout) (slot : UInt16) :
    slotWidth l.code slot = slotWidth l slot := by
  simp only [slotWidth, MemoryLayout.code_slot]
  cases l.slots[slot.toNat]? <;> rfl

namespace Vm

/-- The machine on the erased module. -/
def code (vm : Vm) : Vm := { vm with module := vm.module.code }

def outcomeCode : Outcome Vm Stop → Outcome Vm Stop
  | .next vm => .next vm.code
  | .halt (vm, r) => .halt (vm.code, r)

section

variable (vm : Vm)

@[simp] theorem code_config : vm.code.config = vm.config := rfl
@[simp] theorem code_callStack : vm.code.callStack = vm.callStack := rfl
@[simp] theorem code_globals : vm.code.globals = vm.globals := rfl
@[simp] theorem code_debug : vm.code.debug = vm.debug := rfl
@[simp] theorem code_fbInstances : vm.code.fbInstances = vm.fbInstances := rfl
@[simp] theorem code_instanceKey (slot : UInt16) : vm.code.instanceKey slot = vm.instanceKey slot := rfl
@[simp] theorem code_withStack (s : List CallFrame) : (vm.withStack s).code = vm.code.withStack s := rfl

@[simp] theorem code_func? (i : UInt16) : vm.code.func? i = (vm.func? i).map Function.code := by
  simp [func?, code, Module.code]

theorem orTrap_code {α : Type} {x : Except Trap α} {k k' : α → Outcome Vm Stop}
    (h : ∀ a, k' a = outcomeCode (k a)) : vm.code.orTrap x k' = outcomeCode (vm.orTrap x k) := by
  cases x with
  | error t => rfl
  | ok a => exact h a

theorem overlay_unforced (hforced : vm.forcedVariables = ∅) (l : MemoryLayout) (slot : UInt16)
    (stored : Except Trap Value) : vm.overlay l slot stored = stored := by
  unfold overlay
  cases l.slots[slot.toNat]? with
  | none => rfl
  | some s =>
    have hnone : vm.forced? s.name = none := by
      simp [forced?, hforced]
    simp only [hnone]

theorem arrayDims_code (func : Function) (slot : UInt16) :
    vm.code.arrayDims func.code slot = vm.arrayDims func slot := by
  simp only [arrayDims, Function.code, MemoryLayout.code_slot]
  cases func.locals.slots[slot.toNat]? with
  | none => rfl
  | some s =>
    simp only [Option.map_some, VarSlot.code]
    cases s.ty with
    | array td =>
      simp only [code, Module.code_typeDef]
      cases vm.module.typeDefs[td.toNat]? with
      | none => rfl
      | some d => cases d <;> rfl
    | _ => rfl

theorem arrayLo_code (func : Function) (slot : UInt16) :
    vm.code.arrayLo func.code slot = vm.arrayLo func slot := by
  simp only [arrayLo, arrayDims_code]

theorem arrayTotal_code (func : Function) (slot : UInt16) :
    vm.code.arrayTotal func.code slot = vm.arrayTotal func slot := by
  simp only [arrayTotal, arrayDims_code]

theorem findMethodClassVarCount_code (mi ci : UInt16) :
    vm.code.findMethodClassVarCount mi ci = vm.findMethodClassVarCount mi ci := by
  unfold findMethodClassVarCount
  simp only [code_func?]
  cases vm.func? mi with
  | none => rfl
  | some method =>
    have hclass : ((vm.func? ci).map Function.code).map (fun c => c.locals.slots.length) =
        (vm.func? ci).map fun c => c.locals.slots.length := by
      simp [Function.code, Function.comp_def]
    simp only [Option.map_some, Option.bind_eq_bind, Option.bind_some, hclass]
    simp only [code, Module.code_findFunction]
    have hname : method.code.name = method.name := rfl
    rw [hname]
    split
    · cases vm.module.findFunction (String.ofList (method.name.toList.takeWhile (· != '.'))) with
      | none => rfl
      | some p => simp [Function.code]
    · rfl

theorem saveRetainedLocals_code : vm.code.saveRetainedLocals = vm.saveRetainedLocals.code := by
  unfold saveRetainedLocals
  simp only [code_callStack, code_func?]
  split
  · rfl
  · next f rest hstack =>
    cases vm.func? f.funcIndex with
    | none => rfl
    | some func =>
      simp only [Option.map_some, findMethodClassVarCount_code, Function.code, code_fbInstances]
      split
      · rfl
      · rfl
      · rfl
      · split <;> rfl
      · rfl

theorem nativeDefaults_code (l : MemoryLayout) : vm.code.nativeDefaults l.code = vm.nativeDefaults l := by
  simp only [nativeDefaults, MemoryLayout.code, List.flatMap_map, VarSlot.code, code,
    Module.code_typeDef]
  congr 1
  funext s
  cases s.ty with
  | array td =>
    simp only
    cases vm.module.typeDefs[td.toNat]? with
    | none => rfl
    | some d => cases d <;> rfl
  | _ => rfl

theorem instanceLocals_code (key : InstanceKey) (fi : UInt16) (func : Function) :
    vm.code.instanceLocals key fi func.code = vm.instanceLocals key fi func := by
  simp only [instanceLocals, Function.code, nativeDefaults_code, MemoryLayout.code_defaults,
    MemoryLayout.code_length]
  rfl

/-- Nothing is forced, so nothing is written back. -/
theorem applyNativeForces_unforced (hforced : vm.forcedVariables = ∅) (prog fb : Function)
    (slot : UInt16) (fields : List Value) : vm.applyNativeForces prog fb slot fields = fields := by
  unfold applyNativeForces
  cases prog.locals.slots[slot.toNat]? with
  | none => rfl
  | some inst =>
    have hnone : ∀ name, vm.forced? name = none := fun name => by simp [forced?, hforced]
    simp only [hnone]
    exact List.foldl_fixed' (fun _ => rfl) _

theorem methodState_code (key : InstanceKey) (cls : Function) (count : Nat) (locals : List Value) :
    vm.code.methodState key cls.code count locals =
      (vm.methodState key cls count locals).map fun p => (p.1, p.2.code) := by
  have hinit : ∀ ls n, initClassInstance cls.code ls n = initClassInstance cls ls n := fun _ _ => rfl
  have hlen : cls.code.locals.slots.length = cls.locals.slots.length := MemoryLayout.code_length _
  simp only [methodState, code_fbInstances, hinit, hlen]
  cases Finmap.lookup key vm.fbInstances with
  | some saved => rfl
  | none =>
    simp only
    cases initClassInstance cls (List.replicate cls.locals.slots.length Value.dflt)
      cls.locals.slots.length <;> rfl

/-! ## Instructions -/

section

variable (func : Function) (f : CallFrame) (rest : List CallFrame)

theorem jumpTo_code (label : Label) :
    vm.code.jumpTo func.code f rest label = outcomeCode (vm.jumpTo func f rest label) := by
  have hpos : func.code.labelPositions = func.labelPositions := rfl
  simp only [jumpTo, hpos]
  cases func.labelPositions[label.toNat]? <;> rfl

theorem fallOff_code : vm.code.fallOff rest = outcomeCode (vm.fallOff rest) := by
  unfold fallOff
  rw [saveRetainedLocals_code]
  exact orTrap_code (vm.saveRetainedLocals.withStack rest) fun rest' => rfl

theorem ret_code (r : Reg) : vm.code.ret f rest r = outcomeCode (vm.ret f rest r) := by
  refine orTrap_code vm fun v => ?_
  simp only [saveRetainedLocals_code]
  refine orTrap_code (vm.saveRetainedLocals.withStack rest) fun rest' => ?_
  cases rest <;> rfl

theorem retVoid_code : vm.code.retVoid rest = outcomeCode (vm.retVoid rest) := by
  unfold retVoid
  rw [saveRetainedLocals_code]
  cases rest <;> rfl

theorem callFunction_code (fi : UInt16) (dst : Reg) (args : List (UInt16 × Reg)) :
    vm.code.callFunction f rest fi dst args = outcomeCode (vm.callFunction f rest fi dst args) := by
  simp only [callFunction, code_config, code_callStack, code_func?]
  split
  · rfl
  · cases vm.func? fi with
    | none => rfl
    | some callee =>
      simp only [Option.map_some, Function.code, MemoryLayout.code_defaults]
      exact orTrap_code vm fun locals => rfl

theorem callFb_code (hforced : vm.forcedVariables = ∅) (fi slot : UInt16) (args : List (UInt16 × Reg)) :
    vm.code.callFb f fi slot args func.code = outcomeCode (vm.callFb f fi slot args func) := by
  simp only [callFb, code_config, code_callStack, code_func?, code_instanceKey]
  split
  · rfl
  · cases vm.func? fi with
    | none => rfl
    | some callee =>
      simp only [Option.map_some, instanceLocals_code]
      refine orTrap_code vm fun locals => ?_
      have hnative : vm.code.module.nativeFbIndices = vm.module.nativeFbIndices := rfl
      have hexec : vm.code.nativeExecute callee.code.name locals =
          vm.nativeExecute callee.name locals := rfl
      rw [hnative, hexec, applyNativeForces_unforced vm.code hforced,
        applyNativeForces_unforced vm hforced]
      split <;> rfl

theorem callMethod_code (slot ci fi : UInt16) (dst : Reg) (args : List (UInt16 × Reg)) :
    vm.code.callMethod f rest slot ci fi dst args =
      outcomeCode (vm.callMethod f rest slot ci fi dst args) := by
  simp only [callMethod, code_func?, findMethodClassVarCount_code]
  rcases vm.func? fi with _ | method <;> rcases vm.func? ci with _ | cls <;>
    rcases vm.findMethodClassVarCount fi ci with _ | count <;> try rfl
  have hdefaults : method.code.locals.defaults = method.locals.defaults :=
    MemoryLayout.code_defaults _
  simp only [Option.map_some, hdefaults, methodState_code, code_instanceKey]
  cases vm.methodState (vm.instanceKey slot) cls count method.locals.defaults with
  | error t => rfl
  | ok p =>
    obtain ⟨ls, vm1⟩ := p
    refine orTrap_code vm1 fun locals => ?_
    by_cases hdepth : vm1.config.maxCallDepth ≤ vm1.callStack.length
    · have hcode : vm1.code.config.maxCallDepth ≤ vm1.code.callStack.length := hdepth
      rw [if_pos hcode, if_pos hdepth]
      rfl
    · have hcode : ¬ vm1.code.config.maxCallDepth ≤ vm1.code.callStack.length := hdepth
      rw [if_neg hcode, if_neg hdepth]
      rfl

theorem derefStore_code (p v : Value) :
    vm.code.derefStore p v = outcomeCode (vm.derefStore p v) := by
  unfold derefStore
  split
  · split
    · exact orTrap_code vm fun gs => rfl
    · split <;> rfl
  · rfl

theorem storeGlobal_code (slot : UInt16) (src : Reg) :
    vm.code.storeGlobal f slot src = outcomeCode (vm.storeGlobal f slot src) := by
  unfold storeGlobal
  show (if slot ∈ vm.forcedGlobalSlots then _ else _) = _
  split
  · rfl
  · refine orTrap_code vm fun v => ?_
    have hwidth : slotWidth vm.code.module.globals slot = slotWidth vm.module.globals slot :=
      slotWidth_code _ _
    rw [hwidth]
    exact orTrap_code vm fun gs => rfl

variable [F64Ops]

theorem storeArray_code (slot : UInt16) (idx val : Reg) :
    vm.code.storeArray func.code f slot idx val = outcomeCode (vm.storeArray func f slot idx val) := by
  simp only [storeArray, arrayTotal_code, arrayLo_code]
  exact orTrap_code vm fun raw => orTrap_code vm fun v => orTrap_code vm fun total =>
    orTrap_code vm fun flat => rfl

theorem compute_code (hforced : vm.forcedVariables = ∅) (i : Instruction) :
    vm.code.compute func.code f i = vm.compute func f i := by
  cases i with
  | loadLocal dst slot =>
    simp only [compute, overlay_unforced vm hforced, overlay_unforced vm.code hforced]
  | loadGlobal dst slot =>
    simp only [compute, overlay_unforced vm hforced, overlay_unforced vm.code hforced, code_globals]
  | loadArray dst slot idx =>
    simp only [compute, loadArray, arrayLo_code]
    rfl
  | _ => rfl

theorem control_code (hforced : vm.forcedVariables = ∅) (i : Instruction) :
    vm.code.control func.code f rest i = outcomeCode (vm.control func f rest i) := by
  cases i with
  | storeLocal slot src =>
    refine orTrap_code vm fun v => ?_
    have hset : localSet func.code f slot v = localSet func f slot v := by
      simp only [localSet, Function.code, slotWidth_code]
    rw [hset]
    exact orTrap_code vm fun f' => rfl
  | storeGlobal slot src => exact storeGlobal_code vm f slot src
  | jump l => exact jumpTo_code vm func f rest l
  | jumpIf r l =>
    refine orTrap_code vm fun v => ?_
    split
    · exact jumpTo_code vm func f rest l
    · rfl
  | jumpIfNot r l =>
    refine orTrap_code vm fun v => ?_
    split
    · rfl
    · exact jumpTo_code vm func f rest l
  | call fi dst args => exact callFunction_code vm f rest fi dst args
  | callFb slot fi args => exact callFb_code vm func f hforced fi slot args
  | callMethod slot ci fi dst args => exact callMethod_code vm f rest slot ci fi dst args
  | ret r => exact ret_code vm f rest r
  | retVoid => exact retVoid_code vm rest
  | derefStore ptr val =>
    exact orTrap_code vm fun p => orTrap_code vm fun v => derefStore_code vm p v
  | storeArray slot idx val => exact storeArray_code vm func f slot idx val
  | storeField slot field val => exact orTrap_code vm fun v => rfl
  | storeFieldIndex slot off idx val =>
    exact orTrap_code vm fun raw => orTrap_code vm fun flat => orTrap_code vm fun v =>
      orTrap_code vm fun _ => rfl
  | _ => rfl

/-- **An instruction does not depend on the erased names.** -/
theorem exec_code (hforced : vm.forcedVariables = ∅) (i : Instruction) :
    vm.code.exec func.code f rest i = outcomeCode (vm.exec func f rest i) := by
  unfold exec
  rw [compute_code vm func f hforced]
  cases vm.compute func f i with
  | none => exact control_code vm func f rest hforced i
  | some p => exact orTrap_code vm fun v => orTrap_code vm fun f' => rfl

end

end

/-! ## Runs -/

/-- No force and no debugger. -/
structure Quiet (vm : Vm) : Prop where
  forced : vm.forcedVariables = ∅
  debug : vm.debug.Inactive

/-- The machine on the erased module, without a debugger. -/
def erased (vm : Vm) : Vm := vm.code.withDebug .new

def stopErased (stop : Stop) : Stop := (stop.1.erased, stop.2)

theorem fallOff_left (vm : Vm) (rest : List CallFrame) :
    (left (vm.fallOff rest)).forcedVariables = vm.forcedVariables ∧
      (left (vm.fallOff rest)).debug = vm.debug := by
  unfold fallOff
  have hsetup := saveRetainedLocals_setup vm
  cases returnTo .void rest <;> exact ⟨hsetup.forcedVariables, hsetup.debug⟩

theorem map_erased (o : Outcome Vm Stop) :
    o.map erased stopErased = outcomeWithDebug .new (outcomeCode o) := by
  cases o <;> rfl

theorem enterRun_erased (vm : Vm) (name : String) :
    vm.erased.enterRun name = (vm.enterRun name).map erased := by
  have hfind : vm.erased.module.findFunction name =
      (vm.module.findFunction name).map fun (i, f) => (i, f.code) :=
    Module.code_findFunction vm.module name
  unfold enterRun
  rw [hfind]
  cases vm.module.findFunction name with
  | none => rfl
  | some p =>
    obtain ⟨i, func⟩ := p
    have hstart : vm.erased.startOf i func.code = vm.startOf i func := by
      have hdefaults : func.code.locals.defaults = func.locals.defaults :=
        MemoryLayout.code_defaults _
      simp only [startOf, hdefaults]
      rfl
    simp only [Option.map_some, hstart]
    rfl

variable [F64Ops]

theorem exec_debug (vm : Vm) (func : Function) (f : CallFrame) (rest : List CallFrame)
    (i : Instruction) : (left (vm.exec func f rest i)).debug = vm.debug := by
  have h := exec_withDebug vm vm.debug func f rest i
  rw [withDebug_self] at h
  rw [h]
  cases vm.exec func f rest i <;> rfl

theorem erased_exec (vm : Vm) (func : Function) (f : CallFrame) (rest : List CallFrame)
    (hforced : vm.forcedVariables = ∅) (i : Instruction) :
    vm.erased.exec func.code f rest i = (vm.exec func f rest i).map erased stopErased := by
  rw [map_erased, ← exec_code vm func f rest hforced]
  exact exec_withDebug vm.code .new func.code f rest i

/-- No forces and no debugger stay that way, and the machine does the same on the
erased module. -/
theorem step_erased {vm : Vm} (h : vm.Quiet) :
    vm.erased.step = vm.step.map erased stopErased ∧ (left vm.step).Quiet := by
  have hstackE : vm.erased.callStack = vm.callStack := rfl
  have hfuncE : ∀ i, vm.erased.func? i = (vm.func? i).map Function.code := code_func? vm
  unfold step
  simp only [hstackE, hfuncE]
  cases hstack : vm.callStack with
  | nil => exact ⟨rfl, h⟩
  | cons f rest =>
    simp only
    cases vm.func? f.funcIndex with
    | none => exact ⟨rfl, h⟩
    | some func =>
      have hinstr : func.code.instructions = func.instructions := rfl
      simp only [Option.map_some, hinstr]
      cases func.instructions[f.pc]? with
      | none =>
        obtain ⟨hforced, hdebug⟩ := fallOff_left vm rest
        refine ⟨?_, ⟨hforced.trans h.forced, hdebug ▸ h.debug⟩⟩
        rw [map_erased, ← fallOff_code]
        exact fallOff_withDebug vm.code .new rest
      | some i =>
        simp only
        obtain ⟨hnone, hd⟩ := DebugState.shouldPause_inactive h.debug f.funcIndex f.pc
          (f :: rest).length func.sourceMap
        generalize vm.debug.shouldPause f.funcIndex f.pc (f :: rest).length func.sourceMap = q
          at hnone hd ⊢
        obtain ⟨d, r⟩ := q
        obtain rfl : r = none := hnone
        have hnew : vm.erased.debug.shouldPause f.funcIndex f.pc (f :: rest).length
            func.code.sourceMap = (.new, none) := by
          simp [erased, Function.code, DebugState.shouldPause, DebugState.checkBreakpoint,
            DebugState.sourceOffset, DebugState.new]
        simp only [hnew]
        have hadv : vm.erased.advance .new f rest = (vm.advance d f rest).erased := rfl
        have hquiet : (vm.advance d f rest).Quiet := ⟨h.forced, hd⟩
        rw [hadv]
        by_cases hlim : 0 < vm.config.maxInstructions ∧
            vm.config.maxInstructions < vm.instructionCount + 1
        · have h1 : 0 < (vm.advance d f rest).config.maxInstructions ∧
              (vm.advance d f rest).config.maxInstructions <
                (vm.advance d f rest).instructionCount := hlim
          have h2 : 0 < (vm.advance d f rest).erased.config.maxInstructions ∧
              (vm.advance d f rest).erased.config.maxInstructions <
                (vm.advance d f rest).erased.instructionCount := hlim
          rw [if_pos h1, if_pos h2]
          exact ⟨rfl, hquiet⟩
        · have h1 : ¬ (0 < (vm.advance d f rest).config.maxInstructions ∧
              (vm.advance d f rest).config.maxInstructions <
                (vm.advance d f rest).instructionCount) := hlim
          have h2 : ¬ (0 < (vm.advance d f rest).erased.config.maxInstructions ∧
              (vm.advance d f rest).erased.config.maxInstructions <
                (vm.advance d f rest).erased.instructionCount) := hlim
          rw [if_neg h1, if_neg h2]
          refine ⟨erased_exec (vm.advance d f rest) func _ rest h.forced i, ?_⟩
          have hforced := (exec_effect (vm.advance d f rest) func
            { f with pc := f.pc + 1 } rest i).setup.forcedVariables
          have hdebug := exec_debug (vm.advance d f rest) func { f with pc := f.pc + 1 } rest i
          exact ⟨hforced.trans h.forced, hdebug ▸ hd⟩

theorem execute_erased (fuel : Nat) {vm : Vm} (h : vm.Quiet) :
    vm.erased.execute fuel = (vm.execute fuel).map stopErased := by
  refine run_map (I := Quiet) (fun s hs => (step_erased hs).1) (fun s t hs hst => ?_) fuel h
  have hquiet := (step_erased hs).2
  rwa [hst] at hquiet

theorem execute_quiet {fuel : Nat} {vm : Vm} {stop : Stop} (h : vm.Quiet)
    (he : vm.execute fuel = some stop) : stop.1.Quiet := by
  obtain ⟨t, ht, hhalt⟩ := run_inv (I := Quiet) (fun s t hs hst => by
    have hquiet := (step_erased hs).2
    rwa [hst] at hquiet) h he
  have hquiet := (step_erased ht).2
  rwa [hhalt] at hquiet

/-- **A run does the same on the erased module.** -/
theorem run_erased (fuel : Nat) {vm : Vm} (h : vm.Quiet) (name : String) :
    vm.erased.run fuel name = (vm.run fuel name).map stopErased := by
  unfold run
  rw [enterRun_erased]
  cases he : vm.enterRun name with
  | none => rfl
  | some w =>
    have hw : w.Quiet := by
      obtain ⟨⟨i, func⟩, -, rfl⟩ := Option.map_eq_some_iff.mp he
      exact ⟨h.forced, h.debug⟩
    exact execute_erased fuel hw

theorem run_quiet {fuel : Nat} {vm : Vm} {name : String} {stop : Stop} (h : vm.Quiet)
    (hr : vm.run fuel name = some stop) : stop.1.Quiet := by
  unfold run at hr
  cases he : vm.enterRun name with
  | none =>
    rw [he] at hr
    cases hr
    exact h
  | some w =>
    rw [he] at hr
    refine execute_quiet ?_ hr
    obtain ⟨⟨i, func⟩, -, rfl⟩ := Option.map_eq_some_iff.mp he
    exact ⟨h.forced, h.debug⟩

end Vm

end RustPlc.Engine
