import RustPlc.L2Compiler.CompileModule
import RustPlc.L3Vm.Ends
import RustPlc.L5Engine.OnlineChange
import RustPlc.L5Engine.Retain

/-!
# What an error leaves for the next cycle

`Engine::run_one_cycle` decides by the call stack whether it goes on with a
paused cycle or starts the program. An error of the interpreter leaves the
frames of the failed cycle on the stack (`execute_ends`), so the next cycle
goes on with them; so does a failed initialisation of the globals, whose
result `Engine::new` drops.

Results:
* `starts_clean_iff`: after an error the next cycle starts the program exactly
  when the machine did not fail (the watchdog did) or nothing was started;
* `failed_cycle_resumed`: a division by zero whose cycle is resumed.
-/
namespace RustPlc.Engine

open RustPlc.Ir RustPlc.Core RustPlc.Syntax RustPlc.Compiler

/-! ## The engine -/

section

variable [F64Ops]

/-- `Engine::new`: an error of the global initialisation is dropped, a panic is
not. mirrors crates/st-engine/src/engine.rs:107-147, 159-203 -/
def create (fuel : Nat) (m : Module) (programName : String) (config : VmConfig)
    (nativeFbs : Option (List NativeFb)) (retain : Option RetainSnapshot) :
    Option (Except Trap Engine) :=
  ((Vm.newWithNativeFbs m config nativeFbs).runGlobalInit fuel).map fun (vm, r) =>
    match r with
    | .error (.panic p) => .error (.panic p)
    | .error .indexOutOfBounds => .error .indexOutOfBounds
    | _ => match retain with
      | none => .ok ⟨vm, programName⟩
      | some snapshot => (restoreSnapshot vm snapshot true).map fun (vm', _) => ⟨vm', programName⟩

/-- A cycle with the watchdog, which expires or not.
mirrors crates/st-engine/src/engine.rs:222-276 -/
def watchedCycle (fuel : Nat) (e : Engine) (elapsedMs : Int64) (expired : Bool) :
    Option (Engine × Except Trap Unit) :=
  (runOneCycle fuel e elapsedMs).map fun (e', r) => match r with
    | .ok _ => (e', if expired then .error (.error (.executionLimit 0)) else .ok ())
    | .error t => (e', .error t)

end

/-- The frames with which the next cycle starts to execute.
mirrors crates/st-engine/src/engine.rs:253-260 -/
def cycleFrames (e : Engine) : Option (List CallFrame) :=
  if 0 < e.vm.callStack.length then some e.vm.callStack
  else (e.vm.enterRun e.programName).map (·.callStack)

/-- The next cycle starts the program: no frame is left, and the one it starts
is the program's, at its body with the retained locals once it has run. -/
structure StartsClean (e : Engine) : Prop where
  stack : e.vm.callStack = []
  frames : ∀ i func, e.vm.module.findFunction e.programName = some (i, func) →
    cycleFrames e = some [CallFrame.enter i func (e.vm.startOf i func).1
      (e.vm.startOf i func).2 none]

theorem startsClean_iff (e : Engine) : StartsClean e ↔ e.vm.callStack = [] := by
  refine ⟨fun h => h.stack, fun h => ⟨h, fun i func hf => ?_⟩⟩
  simp [cycleFrames, Vm.enterRun, h, hf]

/-! ## Errors of the host operations are panics -/

theorem mapM_error {α β ε : Type} {f : α → Except ε β} {t : ε} : ∀ {xs : List α},
    xs.mapM f = .error t → ∃ x ∈ xs, f x = .error t
  | [], h => by cases h
  | x :: xs, h => by
    rw [List.mapM_cons] at h
    cases hx : f x with
    | error e =>
      simp only [hx, bind, Except.bind, Except.error.injEq] at h
      exact ⟨x, List.mem_cons_self .., h ▸ hx⟩
    | ok b =>
      cases hxs : xs.mapM f with
      | error e =>
        simp only [hx, hxs, bind, Except.bind, Except.error.injEq] at h
        obtain ⟨y, hy, hfy⟩ := mapM_error (h ▸ hxs)
        exact ⟨y, List.mem_cons_of_mem x hy, hfy⟩
      | ok bs => simp [hx, hxs, bind, Except.bind, pure, Except.pure] at h

/-- A sequence fails in one of its two steps. -/
theorem bind_fails {α β ε : Type} {x : Except ε α} {f : α → Except ε β} {t : ε}
    (h : x >>= f = .error t) : x = .error t ∨ ∃ a, x = .ok a ∧ f a = .error t := by
  cases x with
  | error e => exact .inl (congrArg Except.error (Except.error.inj h))
  | ok a => exact .inr ⟨a, rfl, h⟩

theorem map_fails {α β ε : Type} {x : Except ε α} {f : α → β} {t : ε}
    (h : x.map f = .error t) : x = .error t := by
  cases x with
  | error e => exact congrArg Except.error (Except.error.inj h)
  | ok a => cases h

theorem instanceFields_error {vm : Vm} {ty : VarType} {t : Trap}
    (h : vm.instanceFields ty = .error t) : t = .indexOutOfBounds := by
  unfold Vm.instanceFields at h
  split at h
  · cases h
  · next fb =>
    unfold index at h
    split at h
    · cases h
    · exact (Except.error.inj h).symm
  · cases h

theorem enforceRetainedLocals_error {vm : Vm} {t : Trap}
    (h : vm.enforceRetainedLocals = .error t) : t = .indexOutOfBounds := by
  unfold Vm.enforceRetainedLocals at h
  split at h
  · cases h
  · split at h
    · exact (Except.error.inj h).symm
    · obtain hforces | ⟨forces, -, h⟩ := bind_fails h
      · obtain ⟨⟨i, prog, ls⟩, -, hp⟩ := mapM_error hforces
        obtain ⟨⟨slot, j⟩, -, hslot⟩ := mapM_error (map_fails hp)
        exact instanceFields_error (map_fails hslot)
      · cases h

/-- A force writes no frame. -/
theorem enforceRetainedLocals_stack {vm vm' : Vm} (h : vm.enforceRetainedLocals = .ok vm') :
    vm'.callStack = vm.callStack := by
  refine Vm.enforceRetainedLocals_inv (P := fun w => w.callStack = vm.callStack) rfl ?_ ?_ h
  · intro w i prog ls hw _
    exact hw
  · intro w key pos field v hw _ _
    unfold Vm.patchInstance
    split
    · exact hw
    · exact hw

/-- A restored snapshot writes no frame. -/
theorem restoreSnapshot_stack {vm vm' : Vm} {snapshot : RetainSnapshot} {warm : Bool}
    {w : List String} (h : restoreSnapshot vm snapshot warm = .ok (vm', w)) :
    vm'.callStack = vm.callStack := by
  have hkeeps : RestoreKeeps vm.module fun w =>
      w.module = vm.module ∧ w.callStack = vm.callStack :=
    { module := fun _ hw => hw.1
      globals := fun _ _ _ _ hw _ _ => hw
      locals := fun _ _ _ _ hw _ _ _ => hw
      fields := fun _ _ _ _ hw _ _ => hw }
  exact (restoreSnapshot_inv hkeeps ⟨rfl, rfl⟩ h).2

/-! ## Runs that fail -/

section

variable [F64Ops]

/-- An error of `Vm::run` leaves no frame only when there was none and the
function does not exist. -/
theorem run_error_stack {fuel : Nat} {vm w : Vm} {name : String} {t : Trap}
    (h : vm.run fuel name = some (w, .error t)) :
    w.callStack = [] ↔ vm.callStack = [] ∧ vm.module.findFunction name = none := by
  unfold Vm.run at h
  cases hf : vm.module.findFunction name with
  | none =>
    have henter : vm.enterRun name = none := by simp [Vm.enterRun, hf]
    rw [henter] at h
    simp only [Option.some.injEq, Prod.mk.injEq] at h
    rw [← h.1]
    simp
  | some p =>
    simp only [Vm.enterRun, hf, Option.map_some] at h
    have hends := Vm.execute_ends (haltsWith_iff_run.mpr ⟨fuel, h⟩)
    exact iff_of_false (fun hw => Bool.false_ne_true (hends.mp hw)) (by simp)

/-- A value of `Vm::run` leaves no frame. -/
theorem run_ok_stack {fuel : Nat} {vm w : Vm} {name : String} {v : Value}
    (h : vm.run fuel name = some (w, .ok v)) : w.callStack = [] := by
  unfold Vm.run at h
  split at h
  · cases h
  · exact (Vm.execute_ends (haltsWith_iff_run.mpr ⟨fuel, h⟩)).mpr rfl

theorem continue_stack {fuel : Nat} {vm w : Vm} {r : Except Trap Value} (hne : vm.callStack ≠ [])
    (h : vm.continueExecution fuel = some (w, r)) : w.callStack = [] ↔ r.isOk = true := by
  unfold Vm.continueExecution at h
  rw [if_neg (by simpa [List.isEmpty_iff] using hne)] at h
  exact Vm.execute_ends (haltsWith_iff_run.mpr ⟨fuel, h⟩)

/-- What a cycle leaves on the stack: nothing after a completed one, and
after an error only when the program does not exist. -/
theorem cycleVm_stack {fuel : Nat} {vm w : Vm} {name : String} {r : Except Trap Unit}
    (h : cycleVm fuel vm name = some (w, r)) :
    (r = .ok () → w.callStack = []) ∧
      ∀ e, r = .error (.error e) →
        (w.callStack = [] ↔ vm.callStack = [] ∧ vm.module.findFunction name = none) := by
  unfold cycleVm at h
  split at h
  · next hpos =>
    have hne : vm.callStack ≠ [] := List.ne_nil_of_length_pos hpos
    obtain ⟨⟨w', v⟩, hw, heq⟩ := Option.map_eq_some_iff.mp h
    obtain ⟨rfl, rfl⟩ : w' = w ∧ (v.map fun _ => ()) = r := by simpa using heq
    have hends := continue_stack hne hw
    cases v with
    | ok v => exact ⟨fun _ => hends.mpr rfl, nofun⟩
    | error t =>
      refine ⟨nofun, fun e _ => iff_of_false (fun hw => ?_) fun hv => hne hv.1⟩
      cases hends.mp hw
  · next hpos =>
    have hempty : vm.callStack = [] := List.eq_nil_of_length_eq_zero (by omega)
    obtain ⟨⟨w', v⟩, hw, heq⟩ := Option.map_eq_some_iff.mp h
    simp only at heq
    cases v with
    | error t =>
      simp only [Prod.mk.injEq] at heq
      obtain ⟨rfl, rfl⟩ := heq
      exact ⟨nofun, fun e _ => run_error_stack hw⟩
    | ok v =>
      have hdone := run_ok_stack hw
      simp only at heq
      cases henf : w'.enforceRetainedLocals with
      | ok w'' =>
        simp only [henf, Prod.mk.injEq] at heq
        obtain ⟨rfl, rfl⟩ := heq
        exact ⟨fun _ => (enforceRetainedLocals_stack henf).trans hdone, nofun⟩
      | error t =>
        simp only [henf, Prod.mk.injEq] at heq
        obtain ⟨rfl, rfl⟩ := heq
        refine ⟨nofun, fun e he => ?_⟩
        rw [enforceRetainedLocals_error henf] at he
        cases he

/-- The machine's part of a cycle completes. -/
def CycleCompletes (fuel : Nat) (e : Engine) (elapsedMs : Int64) : Prop :=
  ∃ e', runOneCycle fuel e elapsedMs = some (e', .ok ())

/-- Nothing is paused and the configured program does not exist. -/
def NothingStarts (e : Engine) : Prop :=
  e.vm.callStack = [] ∧ e.vm.module.findFunction e.programName = none

theorem watchedCycle_clean {fuel : Nat} {e e' : Engine} {ms : Int64} {expired : Bool}
    {err : VmError} (h : watchedCycle fuel e ms expired = some (e', .error (.error err))) :
    StartsClean e' ↔ CycleCompletes fuel e ms ∨ NothingStarts e := by
  rw [startsClean_iff]
  obtain ⟨⟨e1, r⟩, hrun, heq⟩ := Option.map_eq_some_iff.mp h
  obtain ⟨⟨w, r'⟩, hcycle, heq'⟩ := Option.map_eq_some_iff.mp hrun
  obtain ⟨rfl, rfl⟩ : ({ e with vm := w } : Engine) = e1 ∧ r' = r := by simpa using heq'
  obtain ⟨hok, herr⟩ := cycleVm_stack hcycle
  cases r' with
  | ok u =>
    simp only [Prod.mk.injEq] at heq
    rw [← heq.1]
    exact iff_of_true (hok rfl) (.inl ⟨_, hrun⟩)
  | error t =>
    simp only [Prod.mk.injEq, Except.error.injEq] at heq
    obtain ⟨rfl, rfl⟩ := heq
    have hnot : ¬ CycleCompletes fuel e ms := by
      rintro ⟨e2, he2⟩
      rw [hrun] at he2
      cases he2
    rw [herr err rfl, or_iff_right hnot]
    rfl

theorem create_clean {fuel : Nat} {m : Module} {name : String} {config : VmConfig}
    {nativeFbs : Option (List NativeFb)} {retain : Option RetainSnapshot} {e : Engine} {w : Vm}
    {err : VmError}
    (hinit : (Vm.newWithNativeFbs m config nativeFbs).runGlobalInit fuel =
      some (w, .error (.error err)))
    (h : create fuel m name config nativeFbs retain = some (.ok e)) : ¬ StartsClean e := by
  rw [startsClean_iff]
  have hstack : w.callStack ≠ [] := by
    unfold Vm.runGlobalInit at hinit
    split at hinit
    · cases hinit
    · next p hf =>
      rw [ne_eq, run_error_stack hinit, hf]
      simp
  unfold create at h
  rw [hinit] at h
  simp only [Option.map_some, Option.some.injEq] at h
  cases retain with
  | none =>
    cases h
    exact hstack
  | some snapshot =>
    simp only at h
    cases hr : restoreSnapshot w snapshot true with
    | error t => simp [hr, Except.map] at h
    | ok p =>
      simp only [hr, Except.map, Except.ok.injEq] at h
      rw [← h, restoreSnapshot_stack hr]
      exact hstack

/-- **After an error the next cycle starts the program exactly when the
machine did not fail or nothing was started**: a run, a cycle and the
initialisation of the globals leave the frames they failed in. -/
theorem starts_clean_iff :
    (∀ fuel (vm : Vm) name w err, vm.run fuel name = some (w, .error (.error err)) →
      (w.callStack = [] ↔ vm.callStack = [] ∧ vm.module.findFunction name = none)) ∧
    (∀ fuel e ms expired e' err, watchedCycle fuel e ms expired = some (e', .error (.error err)) →
      (StartsClean e' ↔ CycleCompletes fuel e ms ∨ NothingStarts e)) ∧
    (∀ fuel m name config nativeFbs retain e w err,
      (Vm.newWithNativeFbs m config nativeFbs).runGlobalInit fuel =
        some (w, .error (.error err)) →
      create fuel m name config nativeFbs retain = some (.ok e) → ¬ StartsClean e) := by
  refine ⟨?_, ?_, ?_⟩
  · intro fuel vm name w err h
    exact run_error_stack h
  · intro fuel e ms expired e' err h
    exact watchedCycle_clean h
  · intro fuel m name config nativeFbs retain e w err hinit h
    exact create_clean hinit h

end

/-- A program that divides by a variable that is zero, and counts. -/
def dividingSource : SourceFile := ⟨[
  .program ⟨"Main", [.of [.plain "x" .int, .plain "z" .int, .plain "n" .int]],
    [.assign "x" (.binary .div (.ofInt 1) (.ofName "z") noRange),
     .assign "n" (.binary .add (.ofName "n") (.ofInt 1) noRange)]⟩]⟩

/-- A cycle fails with a division by zero and leaves frames on the stack; the next one
completes. -/
def resumesFailed [F64Ops] (m : Module) : Bool :=
  match watchedCycle 20 ⟨Vm.new m .default, "Main"⟩ 0 false with
  | some (e, .error (.error .divisionByZero)) => !e.vm.callStack.isEmpty &&
    (match watchedCycle 20 e 1 false with
      | some (_, .ok ()) => true
      | _ => false)
  | _ => false

/-- The first cycle fails with a division by zero and leaves its frame; the
second goes on behind the division, and completes. -/
theorem failed_cycle_resumed :
    ¬ ∀ (_ : F64Ops) (source : SourceFile) (m : Module), compile source = .ok m →
      ∀ fuel e', watchedCycle fuel ⟨Vm.new m .default, "Main"⟩ 0 false =
        some (e', .error (.error .divisionByZero)) → StartsClean e' := by
  intro h
  have hrun : @yields default dividingSource (@resumesFailed default) = true := by decide +kernel
  obtain ⟨m, hm, hp⟩ := (@yields_iff default _ _).mp hrun
  unfold resumesFailed at hp
  split at hp
  · next e he =>
    have hclean := (h default dividingSource m hm 20 e he).stack
    simp [hclean] at hp
  · cases hp

end RustPlc.Engine
