import RustPlc.L3Vm.Erase
import RustPlc.L5Engine.Errors
import RustPlc.L5Engine.NoOpChange

/-!
# Stripped modules

A release bundle carries a module without the names of variables and types, and
without source maps (crates/st-deploy/src/debug_info.rs). The names of the functions
stay, because the program, the methods' classes and the native blocks are found by
them.

Results:
* `stripModule_code`: what is left is the erased module of the original;
* `strip_preserves`: a stripped module behaves as the original.
-/
namespace RustPlc.Target

open RustPlc.Ir RustPlc.Core RustPlc.Engine

/-! ## Stripping -/

/-- mirrors crates/st-deploy/src/debug_info.rs:198-202 -/
def stripMemoryLayout (l : MemoryLayout) (tag : String) : MemoryLayout :=
  ⟨l.slots.zipIdx.map fun (s, i) => { s with name := tag ++ toString i }⟩

/-- mirrors crates/st-deploy/src/debug_info.rs:136-152, 180-196 -/
def stripTypeDef (i : Nat) : TypeDef → TypeDef
  | .struct _ fields =>
    .struct ("t" ++ toString i) (fields.zipIdx.map fun (s, j) => { s with name := "f" ++ toString j })
  | .enum _ variants =>
    .enum ("t" ++ toString i) (variants.zipIdx.map fun (v, j) => ("e" ++ toString j, v.2))
  | .array e dims => .array e dims

def stripFunction (i : Nat) (f : Function) : Function :=
  { f with locals := stripMemoryLayout f.locals ("f" ++ toString i ++ "_v") }

/-- mirrors crates/st-deploy/src/debug_info.rs:160-196 -/
def stripModuleKeepSourceMaps (m : Module) : Module :=
  { m with
    globals := stripMemoryLayout m.globals "g"
    functions := m.functions.zipIdx.map fun (f, i) => stripFunction i f
    typeDefs := m.typeDefs.zipIdx.map fun (td, i) => stripTypeDef i td }

/-- mirrors crates/st-deploy/src/debug_info.rs:119-153 -/
def stripModule (m : Module) : Module :=
  { m with
    globals := stripMemoryLayout m.globals "g"
    functions := m.functions.zipIdx.map fun (f, i) => { stripFunction i f with sourceMap := [] }
    typeDefs := m.typeDefs.zipIdx.map fun (td, i) => stripTypeDef i td }

/-! ## What is left -/

/-- A map over elements and positions that some view does not see. -/
theorem map_zipIdx_view {α β : Type} {g : α × Nat → α} {view : α → β} (h : ∀ p, view (g p) = view p.1)
    (xs : List α) : (xs.zipIdx.map g).map view = xs.map view := by
  rw [List.map_map, show view ∘ g = view ∘ Prod.fst from funext h, ← List.map_map,
    List.zipIdx_map_fst]

theorem stripMemoryLayout_code (l : MemoryLayout) (tag : String) :
    (stripMemoryLayout l tag).code = l.code := by
  refine congrArg MemoryLayout.mk (map_zipIdx_view ?_ l.slots)
  exact fun _ => rfl

theorem stripTypeDef_code (i : Nat) (td : TypeDef) : (stripTypeDef i td).code = td.code := by
  cases td with
  | struct name fields =>
    refine congrArg (TypeDef.struct "") (map_zipIdx_view ?_ fields)
    exact fun _ => rfl
  | enum name variants =>
    refine congrArg (TypeDef.enum "") (map_zipIdx_view ?_ variants)
    exact fun _ => rfl
  | array e dims => rfl

theorem stripFunction_code (i : Nat) (f : Function) : (stripFunction i f).code = f.code := by
  simp only [Function.code, stripFunction, stripMemoryLayout_code]

theorem stripModuleKeepSourceMaps_code (m : Module) :
    (stripModuleKeepSourceMaps m).code = m.code := by
  simp only [stripModuleKeepSourceMaps, Module.code, stripMemoryLayout_code, Module.mk.injEq,
    and_true, true_and]
  exact ⟨map_zipIdx_view (fun p => stripFunction_code p.2 p.1) m.functions,
    map_zipIdx_view (fun p => stripTypeDef_code p.2 p.1) m.typeDefs⟩

/-- The names and the source maps are all that is stripped. -/
theorem stripModule_code (m : Module) : (stripModule m).code = m.code := by
  simp only [stripModule, Module.code, stripMemoryLayout_code, Module.mk.injEq, and_true, true_and]
  refine ⟨map_zipIdx_view (fun p => ?_) m.functions,
    map_zipIdx_view (fun p => stripTypeDef_code p.2 p.1) m.typeDefs⟩
  exact stripFunction_code p.2 p.1

/-! ## Runs -/

def eraseEngine (e : Engine) : Engine := { e with vm := e.vm.erased }

section

variable [F64Ops]

theorem runGlobalInit_erased (fuel : Nat) {vm : Vm} (h : vm.Quiet) :
    vm.erased.runGlobalInit fuel = (vm.runGlobalInit fuel).map Vm.stopErased := by
  have hfind := Module.code_findFunction vm.module "__global_init"
  unfold Vm.runGlobalInit
  rw [show vm.erased.module = vm.module.code from rfl, hfind]
  cases vm.module.findFunction "__global_init" with
  | none => rfl
  | some p => exact Vm.run_erased fuel h "__global_init"

theorem runGlobalInit_quiet {fuel : Nat} {vm : Vm} {stop : Stop} (h : vm.Quiet)
    (hr : vm.runGlobalInit fuel = some stop) : stop.1.Quiet := by
  unfold Vm.runGlobalInit at hr
  split at hr
  · cases hr
    exact h
  · exact Vm.run_quiet h hr

omit [F64Ops] in
theorem newWithNativeFbs_quiet (m : Module) (config : VmConfig) (nativeFbs : Option (List NativeFb)) :
    (Vm.newWithNativeFbs m config nativeFbs).Quiet := ⟨rfl, DebugState.inactive_new⟩

/-- An engine is created on the erased module as on the module. -/
theorem create_erased (fuel : Nat) (m : Module) (programName : String) (config : VmConfig)
    (nativeFbs : Option (List NativeFb)) :
    create fuel m.code programName config nativeFbs none =
      (create fuel m programName config nativeFbs none).map fun r => r.map eraseEngine := by
  have hnew : Vm.newWithNativeFbs m.code config nativeFbs =
      (Vm.newWithNativeFbs m config nativeFbs).erased := by
    have hdefaults : m.code.globals.defaults = m.globals.defaults := MemoryLayout.code_defaults _
    simp only [Vm.newWithNativeFbs, hdefaults]
    rfl
  unfold create
  rw [hnew, runGlobalInit_erased fuel (newWithNativeFbs_quiet m config nativeFbs), Option.map_map,
    Option.map_map]
  congr 1
  funext stop
  obtain ⟨vm, r⟩ := stop
  cases r with
  | ok v => rfl
  | error t => cases t <;> rfl

theorem create_quiet {fuel : Nat} {m : Module} {programName : String} {config : VmConfig}
    {nativeFbs : Option (List NativeFb)} {e : Engine}
    (h : create fuel m programName config nativeFbs none = some (.ok e)) : e.vm.Quiet := by
  obtain ⟨⟨vm, r⟩, hinit, hr⟩ := Option.map_eq_some_iff.mp h
  have hquiet := runGlobalInit_quiet (newWithNativeFbs_quiet m config nativeFbs) hinit
  simp only at hr
  split at hr
  · cases hr
  · cases hr
  · cases hr
    exact hquiet

omit [F64Ops] in
theorem enforceRetainedLocals_unforced {vm : Vm} (h : vm.forcedVariables = ∅) :
    vm.enforceRetainedLocals = .ok vm := by
  unfold Vm.enforceRetainedLocals
  rw [if_pos (by rw [h]; rfl)]

theorem continueExecution_erased (fuel : Nat) {vm : Vm} (h : vm.Quiet) :
    vm.erased.continueExecution fuel = (vm.continueExecution fuel).map Vm.stopErased := by
  unfold Vm.continueExecution
  show (if vm.callStack.isEmpty then _ else _) = _
  split
  · rfl
  · exact Vm.execute_erased fuel h

theorem cycleVm_quiet {fuel : Nat} {vm w : Vm} {name : String} {r : Except Trap Unit} (h : vm.Quiet)
    (hc : cycleVm fuel vm name = some (w, r)) : w.Quiet := by
  unfold cycleVm at hc
  split at hc
  · obtain ⟨⟨w', r'⟩, hcont, heq⟩ := Option.map_eq_some_iff.mp hc
    cases heq
    unfold Vm.continueExecution at hcont
    split at hcont
    · cases hcont
      exact h
    · exact Vm.execute_quiet h hcont
  · obtain ⟨⟨w', r'⟩, hrun, heq⟩ := Option.map_eq_some_iff.mp hc
    have hquiet := Vm.run_quiet h hrun
    cases r' with
    | error t =>
      cases heq
      exact hquiet
    | ok v =>
      simp only [enforceRetainedLocals_unforced hquiet.forced] at heq
      cases heq
      exact hquiet

/-- A cycle does the same on the erased module. -/
theorem cycleVm_erased (fuel : Nat) {vm : Vm} (h : vm.Quiet) (name : String) :
    cycleVm fuel vm.erased name = (cycleVm fuel vm name).map fun (w, r) => (w.erased, r) := by
  unfold cycleVm
  show (if 0 < vm.callStack.length then _ else _) = _
  split
  · rw [continueExecution_erased fuel h, Option.map_map, Option.map_map]
    rfl
  · unfold Vm.scanCycle
    rw [Vm.run_erased fuel h]
    cases hrun : vm.run fuel name with
    | none => rfl
    | some stop =>
      obtain ⟨w, r⟩ := stop
      have hforced := (Vm.run_quiet h hrun).forced
      cases r with
      | error t => rfl
      | ok v =>
        have herased : w.erased.enforceRetainedLocals = .ok w.erased :=
          enforceRetainedLocals_unforced hforced
        simp only [Option.map_some, Vm.stopErased, herased, enforceRetainedLocals_unforced hforced]

theorem runOneCycle_erased (fuel : Nat) {e : Engine} (h : e.vm.Quiet) (t : Int64) :
    (eraseEngine e).runOneCycle fuel t =
      (e.runOneCycle fuel t).map fun (e', r) => (eraseEngine e', r) := by
  have hstart : Vm.Quiet { e.vm with elapsedTimeMs := t, instructionCount := 0 } :=
    ⟨h.forced, h.debug⟩
  have hcycle := cycleVm_erased fuel hstart e.programName
  unfold runOneCycle
  rw [Option.map_map]
  refine (congrArg (Option.map _) hcycle).trans ?_
  rw [Option.map_map]
  rfl

theorem runOneCycle_quiet {fuel : Nat} {e e' : Engine} {t : Int64} {r : Except Trap Unit}
    (h : e.vm.Quiet) (hc : e.runOneCycle fuel t = some (e', r)) : e'.vm.Quiet := by
  obtain ⟨⟨w, r'⟩, hcycle, heq⟩ := Option.map_eq_some_iff.mp hc
  cases heq
  have hstart : Vm.Quiet { e.vm with elapsedTimeMs := t, instructionCount := 0 } :=
    ⟨h.forced, h.debug⟩
  exact cycleVm_quiet hstart hcycle

theorem cycles_erased (fuel : Nat) {e : Engine} (h : e.vm.Quiet) (ts : List Int64) :
    cycles fuel (eraseEngine e) ts =
      (cycles fuel e ts).map fun c => c.map fun (w, r) => (w.erased, r) := by
  induction ts generalizing e with
  | nil => rfl
  | cons t ts ih =>
    unfold cycles
    rw [runOneCycle_erased fuel h]
    cases hc : e.runOneCycle fuel t with
    | none => rfl
    | some p =>
      obtain ⟨e', r⟩ := p
      simp only [Option.map_some, List.map_cons, ih (runOneCycle_quiet h hc)]
      rfl

/-! ## Behaviour -/

/-- What is seen of a cycle: its result, and the storage after it. -/
structure Observed where
  globals : List Value
  retainedLocals : Map UInt16 (List Value)
  instances : Map InstanceKey (List Value)
  result : Except Trap Unit

def observe (c : Vm × Except Trap Unit) : Observed :=
  ⟨c.1.globals, c.1.retainedLocals, c.1.fbInstances, c.2⟩

/-- An engine is created without a retain file, and cycles run at the given times. A
cycle that is still running when the fuel is used up is the last one. -/
def observedRun (fuel : Nat) (m : Module) (programName : String) (config : VmConfig)
    (nativeFbs : Option (List NativeFb)) (ts : List Int64) :
    Option (Except Trap (List (Option Observed))) :=
  (create fuel m programName config nativeFbs none).map fun r => r.map fun e =>
    (cycles fuel e ts).map (Option.map observe)

theorem observedRun_code (fuel : Nat) (m : Module) (programName : String) (config : VmConfig)
    (nativeFbs : Option (List NativeFb)) (ts : List Int64) :
    observedRun fuel m.code programName config nativeFbs ts =
      observedRun fuel m programName config nativeFbs ts := by
  unfold observedRun
  rw [create_erased]
  cases hcreate : create fuel m programName config nativeFbs none with
  | none => rfl
  | some r =>
    cases r with
    | error t => rfl
    | ok e =>
      have hcycles := cycles_erased fuel (create_quiet hcreate) ts
      simp only [Option.map_some, Except.map, hcycles, List.map_map, Option.some.injEq,
        Except.ok.injEq]
      refine List.map_congr_left fun c _ => ?_
      cases c <;> rfl

/-- **A stripped module behaves as the original**, with and without its source maps. -/
theorem strip_preserves (fuel : Nat) (m : Module) (programName : String) (config : VmConfig)
    (nativeFbs : Option (List NativeFb)) (ts : List Int64) :
    observedRun fuel (stripModule m) programName config nativeFbs ts =
        observedRun fuel m programName config nativeFbs ts ∧
      observedRun fuel (stripModuleKeepSourceMaps m) programName config nativeFbs ts =
        observedRun fuel m programName config nativeFbs ts := by
  rw [← observedRun_code fuel (stripModule m), ← observedRun_code fuel (stripModuleKeepSourceMaps m),
    stripModule_code, stripModuleKeepSourceMaps_code, observedRun_code]
  exact ⟨rfl, rfl⟩

end

end RustPlc.Target
