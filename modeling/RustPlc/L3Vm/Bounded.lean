import RustPlc.L3Vm.Effect

/-!
# Every execution ends

`Vm::execute` loops over instructions and over implicit returns, which count
as no instruction. The instruction limit bounds the former. Only an
instruction makes the call stack higher, by one frame, and an implicit return
makes it one frame lower; so the two together are bounded by twice what is
left of the limit and the height of the stack.

The counter is a `u64`: at its largest value the next instruction overflows
it, which panics (`step64`). The limit is a `u64` too, so this only happens
where the limit is that value.

Results
* `step64_bound`: what an iteration does to the counter and to the height;
* `execute_bounded`: an execution ends, after no more instructions than are
  left and no more implicit returns than there are frames.
-/
namespace RustPlc.Engine

open RustPlc.Ir RustPlc.Core

/-- `u64::MAX` -/
def u64Max : Nat := 18446744073709551615

namespace Vm

variable [F64Ops]

/-- The iteration counts an instruction. -/
def counts (vm : Vm) : Bool :=
  match vm.callStack with
  | [] => false
  | f :: _ => match vm.func? f.funcIndex with
    | none => false
    | some func => (func.instructions[f.pc]?).isSome &&
      (vm.debug.shouldPause f.funcIndex f.pc vm.callStack.length func.sourceMap).2.isNone

/-- One iteration with the `u64` counter.
mirrors crates/st-engine/src/vm.rs:1310 -/
def step64 (vm : Vm) : Outcome Vm Stop :=
  if vm.counts ∧ vm.instructionCount = u64Max then vm.trap (.panic .arithmetic) else vm.step

/-- The instructions that are left. -/
def remaining (vm : Vm) : Nat := vm.config.maxInstructions - vm.instructionCount

/-- `k` instructions, which push `p` frames, and `r` implicit returns lead from
the first machine to the second. -/
inductive Performs : Nat → Nat → Nat → Vm → Vm → Prop where
  | none (vm : Vm) : Performs 0 0 0 vm vm
  | instr {vm u w : Vm} {i : Instruction} {k p r : Nat} (hi : vm.nextInstr = some i)
      (hstep : vm.step64 = .next u) (h : Performs k p r u w) :
    Performs (k + 1) (u.callStack.length - vm.callStack.length + p) r vm w
  | implicitReturn {vm u w : Vm} {k p r : Nat} (hi : vm.nextInstr = .none)
      (hstep : vm.step64 = .next u) (h : Performs k p r u w) : Performs k p (r + 1) vm w

/-! ## One iteration -/

omit [F64Ops] in
theorem length_returnTo {v : Value} {rest rest' : List CallFrame}
    (h : returnTo v rest = .ok rest') : rest'.length = rest.length :=
  (alike_returnTo h).length_eq.symm

omit [F64Ops] in
/-- An instruction pushes at most one frame. -/
theorem Effect.height {vm vm' : Vm} {func : Function} {f : CallFrame} {rest : List CallFrame}
    {i : Instruction} (hstack : vm.callStack.length = rest.length + 1)
    (h : Effect vm func f rest i vm') : vm'.callStack.length ≤ vm.callStack.length + 1 := by
  cases h with
  | ret r rest' h =>
    have := h.length_eq
    simp only [withStack_callStack]
    omega
  | retVoid rest' h =>
    have := h.length_eq
    simp only [withStack_callStack]
    omega
  | derefFrame =>
    simp only [modifyFrameAt, withStack_callStack, List.length_reverse, List.length_modify]
    omega
  | frame | storeLocal =>
    simp only [withStack_callStack, List.length_cons]
    omega
  | call | callFb | method =>
    simp only [withStack_callStack, List.length_cons]
    omega
  | _ => exact Nat.le_succ _

omit [F64Ops] in
/-- An instruction is within the limit. -/
theorem nextInstr_within {vm : Vm} {i : Instruction} (h : vm.nextInstr = some i)
    (hmax : 0 < vm.config.maxInstructions) :
    vm.instructionCount < vm.config.maxInstructions := by
  unfold nextInstr at h
  split at h
  · cases h
  · split at h
    · cases h
    · split at h
      · cases h
      · split at h
        · cases h
        · rename_i hlim
          omega

theorem step_of_step64 {vm u : Vm} (h : vm.step64 = .next u) : vm.step = .next u := by
  unfold step64 at h
  split at h
  · cases h
  · exact h

/-- What an iteration that goes on does to the counter and to the height. -/
structure Counted (vm u : Vm) (instr : Bool) : Prop where
  config : u.config = vm.config
  count : u.instructionCount = vm.instructionCount + instr.toNat
  height : if instr then u.callStack.length ≤ vm.callStack.length + 1
    else u.callStack.length + 1 = vm.callStack.length

theorem step64_bound {vm u : Vm} (h : vm.step64 = .next u) : Counted vm u vm.nextInstr.isSome := by
  have hstep := step_of_step64 h
  have hcase := vm.stepCase
  generalize vm.nextInstr = next at hcase ⊢
  generalize vm.step = o at hcase hstep
  cases hcase with
  | idle | lost | paused | limit => cases hstep
  | atEnd f rest func hstack hfunc hend =>
    have hsetup := vm.saveRetainedLocals_setup
    unfold fallOff at hstep
    cases hr : returnTo .void rest with
    | error t =>
      rw [hr] at hstep
      cases hstep
    | ok rest' =>
      rw [hr] at hstep
      cases hstep
      have hlen := length_returnTo hr
      refine ⟨hsetup.config, hsetup.instructionCount, ?_⟩
      simp only [Option.isSome_none, Bool.false_eq_true, if_false, withStack_callStack, hstack,
        List.length_cons, hlen]
  | instr f rest func d i hstack hfunc hi =>
    have heffect := exec_effect (vm.advance d f rest) func { f with pc := f.pc + 1 } rest i
    rw [hstep] at heffect
    have hheight := heffect.height (by simp [advance])
    refine ⟨heffect.setup.config, heffect.setup.instructionCount, ?_⟩
    have hsame : (vm.advance d f rest).callStack.length = vm.callStack.length := by
      rw [hstack]
      rfl
    simpa [hsame] using hheight

/-- The measure of an iteration: an instruction pushes at most one frame, an
implicit return pops one. -/
def budget (vm : Vm) : Nat := 2 * vm.remaining + vm.callStack.length

theorem budget_decreases {vm u : Vm} (hmax : 0 < vm.config.maxInstructions)
    (h : vm.step64 = .next u) : 0 < u.config.maxInstructions ∧ u.budget < vm.budget := by
  obtain ⟨hconfig, hcount, hheight⟩ := step64_bound h
  refine ⟨by rw [hconfig]; exact hmax, ?_⟩
  unfold budget remaining
  rw [hconfig, hcount]
  cases hn : vm.nextInstr with
  | none =>
    simp only [hn, Option.isSome_none, Bool.false_eq_true, if_false] at hheight
    simp only [Option.isSome_none, Bool.toNat_false]
    omega
  | some i =>
    have hwithin := nextInstr_within hn hmax
    simp only [hn, Option.isSome_some, if_true] at hheight
    simp only [Option.isSome_some, Bool.toNat_true]
    omega

/-! ## Executions -/

/-- Every sequence of iterations is one of instructions and implicit returns. -/
theorem performs_of_stepsTo : ∀ {n : Nat} {vm w : Vm}, StepsTo step64 n vm w →
    ∃ k p r, k + r = n ∧ Performs k p r vm w
  | 0, vm, w, h => by
    obtain rfl : vm = w := h
    exact ⟨0, 0, 0, rfl, .none vm⟩
  | n + 1, vm, w, ⟨u, hu, h⟩ => by
    obtain ⟨k, p, r, rfl, hrest⟩ := performs_of_stepsTo h
    cases hn : vm.nextInstr with
    | none => exact ⟨k, p, r + 1, by omega, .implicitReturn hn hu hrest⟩
    | some i => exact ⟨k + 1, _, r, by omega, .instr hn hu hrest⟩

/-- No more instructions than are left, at most one push for each, and no more
implicit returns than frames. -/
theorem Performs.bounds {k p r : Nat} {vm w : Vm} (h : Performs k p r vm w)
    (hmax : 0 < vm.config.maxInstructions) :
    k ≤ vm.remaining ∧ p ≤ k ∧ r + w.callStack.length ≤ vm.callStack.length + p := by
  induction h with
  | none vm => exact ⟨Nat.zero_le _, Nat.le_refl _, by omega⟩
  | instr hi hstep h ih =>
    obtain ⟨hconfig, hcount, hheight⟩ := step64_bound hstep
    obtain ⟨hk, hp, hr⟩ := ih (by rw [hconfig]; exact hmax)
    have hwithin := nextInstr_within hi hmax
    simp only [hi, Option.isSome_some, if_true, Bool.toNat_true] at hheight hcount
    unfold remaining at hk ⊢
    rw [hconfig, hcount] at hk
    refine ⟨by omega, by omega, by omega⟩
  | implicitReturn hi hstep h ih =>
    obtain ⟨hconfig, hcount, hheight⟩ := step64_bound hstep
    obtain ⟨hk, hp, hr⟩ := ih (by rw [hconfig]; exact hmax)
    simp only [hi, Option.isSome_none, Bool.false_eq_true, if_false, Bool.toNat_false]
      at hheight hcount
    unfold remaining at hk ⊢
    rw [hconfig, hcount] at hk
    refine ⟨by omega, hp, by omega⟩

/-- **Bounded execution.** With an instruction limit, an execution from any
machine ends. Until then its iterations are instructions, no more than are
left, and implicit returns, no more than there are frames: those on the stack
and those that the instructions push. -/
theorem execute_bounded (vm : Vm) (hmax : 0 < vm.config.maxInstructions) :
    (∃ stop, Core.run step64 (2 * vm.remaining + vm.callStack.length + 1) vm = some stop) ∧
    ∀ n w, StepsTo step64 n vm w → ∃ k p r, k + r = n ∧ Performs k p r vm w ∧
      k ≤ vm.remaining ∧ p ≤ k ∧ r + w.callStack.length ≤ vm.callStack.length + p := by
  constructor
  · exact run_of_measure (I := fun u => 0 < u.config.maxInstructions) (μ := budget)
      (fun u u' hu hstep => budget_decreases hu hstep) hmax (Nat.lt_succ_self _)
  · intro n w h
    obtain ⟨k, p, r, hn, hperf⟩ := performs_of_stepsTo h
    exact ⟨k, p, r, hn, hperf, hperf.bounds hmax⟩

end Vm

/-- A machine in a function that jumps to itself. -/
def loopMachine : Vm :=
  let loop : Function := ⟨"Loop", .program, 0, [.jump 0], [0], .empty, [], 0⟩
  (Vm.new ⟨[loop], .empty, [], []⟩ .default).withStack [⟨0, [], [], 0, none, none⟩]

/-- It ends like every other. -/
theorem loopMachine_ends :
    ∃ stop, Core.run (@Vm.step64 default)
      (2 * loopMachine.remaining + loopMachine.callStack.length + 1) loopMachine = some stop :=
  (@Vm.execute_bounded default loopMachine (by decide)).1

end RustPlc.Engine
