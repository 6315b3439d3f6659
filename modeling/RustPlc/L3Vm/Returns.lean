import RustPlc.Core.Lts
import RustPlc.L3Vm.Ends
import RustPlc.L3Vm.Segments

/-!
# What a call leaves of its caller

`Call`, `CallMethod` and `CallFb` (crates/st-engine/src/vm.rs:1728-1765,
1976-2043, 2330-2379) push a frame above the caller. The first two note the
register that waits for the value in the caller; each of the three ways back
takes the note, and `CallFb` relies on there being none.

Results
* `reachable_idle`: no running frame waits for a value, in any run.
* `call_frame_law`: when control is back at the caller, it goes on behind the
  call, with the value in the destination of the call and all else as it was,
  but for locals that were stored to through a reference.
-/
namespace RustPlc.Engine

open RustPlc.Ir RustPlc.Core RustPlc.Compiler

/-- The registers of a caller that is handed a value, or none. -/
def handed (dst : Option Reg) (v : Option Value) (regs : List Value) : List Value :=
  match dst, v with
  | some r, some v => regs.set r.toNat v
  | _, _ => regs

/-- A caller as its callee leaves it. -/
def CallFrame.resumed (c : CallFrame) (v : Option Value) : CallFrame :=
  { c with returnReg := none, registers := handed c.returnReg v c.registers }

namespace Vm

section

variable [F64Ops]

/-! ## Runs -/

/-- What happens to a machine: an iteration that goes on, ends the execution
or reports an error, and what the host does with it. The host starts programs,
clears the call stack, and changes everything but frames. -/
inductive Move : Vm → Unit → Vm → Prop where
  | next {vm vm' : Vm} (h : vm.step = .next vm') : Move vm () vm'
  | done {vm vm' : Vm} {v : Value} (h : vm.step = .halt (vm', .ok v)) : Move vm () vm'
  | failed {vm vm' : Vm} {e : VmError} (h : vm.step = .halt (vm', .error (.error e))) :
    Move vm () vm'
  | start {vm vm' : Vm} {name : String} (h : vm.enterRun name = some vm') : Move vm () vm'
  | host {vm vm' : Vm} (h : vm'.callStack = vm.callStack ∨ vm'.callStack = []) : Move vm () vm'

/-- Every run of a new machine, whatever its module. -/
def machineLts : Lts Vm Unit where
  init := fun vm => vm.callStack = []
  step := Move

/-- A run during which the frame above `d` others waits, with the machines in
it. -/
inductive Awaits (d : Nat) : List Vm → Vm → Vm → Prop where
  | done (vm : Vm) : Awaits d [] vm vm
  | move {us : List Vm} {vm vm1 vm2 : Vm} (hwait : d + 1 < vm.callStack.length)
      (h : Move vm () vm1) (hrest : Awaits d us vm1 vm2) : Awaits d (vm :: us) vm vm2

end

/-- The value the running frame hands to its caller next: that of `Ret`,
`Void` at the end of the code, and none for `RetVoid`. -/
def handsBack (vm : Vm) : Option Value :=
  match vm.nextInstr, vm.callStack with
  | some (.ret r), f :: _ => (f.regGet r).toOption
  | none, _ :: _ => some .void
  | _, _ => none

/-- The next iteration stores through a reference to local `slot` of the frame
above `d` others. -/
def StoresInto (vm : Vm) (d : Nat) (slot : UInt16) : Prop :=
  ∃ ptr val f rest tag, vm.nextInstr = some (.derefStore ptr val) ∧ vm.callStack = f :: rest ∧
    f.regGet ptr = .ok (.ref tag slot) ∧ (tag ≠ 0 ∧ tag ≠ 1) ∧ (tag - 2).toNat = d

/-- The three calls. -/
def calls : Instruction → Bool
  | .call _ _ _ => true
  | .callFb _ _ _ => true
  | .callMethod _ _ _ _ _ => true
  | _ => false

section

variable {vm vm' : Vm} {func : Function} {f : CallFrame} {rest : List CallFrame} {i : Instruction}

/-! ## Errors -/

/-- A reported error leaves this stack. -/
def FailsAt (stack : List CallFrame) (o : Outcome Vm Stop) : Prop :=
  ∀ vm' e, o = .halt (vm', .error (.error e)) → vm'.callStack = stack

theorem next_failsAt {stack : List CallFrame} (vm : Vm) : FailsAt stack (.next vm) :=
  fun _ _ h => by cases h

theorem trap_failsAt (vm : Vm) (t : Trap) : FailsAt vm.callStack (vm.trap t) := fun _ _ h => by
  cases h
  rfl

theorem orTrap_failsAt {α : Type} {x : Except Trap α} {k : α → Outcome Vm Stop}
    (h : ∀ a, x = .ok a → FailsAt vm.callStack (k a)) : FailsAt vm.callStack (vm.orTrap x k) := by
  cases x with
  | error t => exact trap_failsAt vm t
  | ok a => exact h a rfl

theorem returnTo_error {v : Value} {e : VmError} : returnTo v rest ≠ .error (.error e) := by
  intro h
  unfold returnTo at h
  split at h
  · cases h
  · split at h
    · cases h
    · next c cs r hr =>
      unfold CallFrame.regSet indexSet at h
      split at h <;> cases h

theorem jumpTo_failsAt (l : Label) : FailsAt vm.callStack (vm.jumpTo func f rest l) := by
  unfold jumpTo
  split
  · exact next_failsAt _
  · exact trap_failsAt vm _

theorem ret_failsAt (r : Reg) : FailsAt vm.callStack (vm.ret f rest r) := by
  refine orTrap_failsAt fun v _ => ?_
  intro vm' e h
  cases hto : returnTo v rest with
  | error t =>
    rw [hto] at h
    have ht : t = .error e := by
      cases h
      rfl
    exact absurd (ht ▸ hto) returnTo_error
  | ok rest' =>
    rw [hto] at h
    simp only [orTrap] at h
    split at h <;> cases h

theorem callFunction_failsAt (fi : UInt16) (dst : Reg) (args : List (UInt16 × Reg)) :
    FailsAt vm.callStack (vm.callFunction f rest fi dst args) := by
  unfold callFunction
  split
  · exact trap_failsAt vm _
  · split
    · exact trap_failsAt vm _
    · exact orTrap_failsAt fun locals _ => next_failsAt _

theorem callMethod_failsAt (slot ci fi : UInt16) (dst : Reg) (args : List (UInt16 × Reg)) :
    FailsAt vm.callStack (vm.callMethod f rest slot ci fi dst args) := by
  unfold callMethod
  split
  · refine orTrap_failsAt fun (ls, vm1) hs => ?_
    obtain ⟨instances, rfl⟩ := methodState_eq hs
    refine orTrap_failsAt fun locals _ => ?_
    split
    · exact trap_failsAt _ _
    · exact next_failsAt _
  · exact trap_failsAt vm _

theorem derefStore_failsAt (p v : Value) : FailsAt vm.callStack (vm.derefStore p v) := by
  unfold derefStore
  split
  · split
    · exact orTrap_failsAt fun gs _ => next_failsAt _
    · split <;> exact next_failsAt _
  · exact next_failsAt _

theorem callFb_failsAt (fi slot : UInt16) (args : List (UInt16 × Reg)) :
    FailsAt vm.callStack (vm.callFb f fi slot args func) := by
  unfold callFb
  split
  · exact trap_failsAt vm _
  · split
    · exact trap_failsAt vm _
    · refine orTrap_failsAt fun locals _ => ?_
      split <;> exact next_failsAt _

variable [F64Ops]

theorem control_failsAt (i : Instruction) : FailsAt vm.callStack (vm.control func f rest i) := by
  cases i with
  | storeLocal slot src =>
    exact orTrap_failsAt fun v _ => orTrap_failsAt fun g _ => next_failsAt _
  | storeGlobal slot src =>
    show FailsAt _ (vm.storeGlobal f slot src)
    unfold storeGlobal
    split
    · exact next_failsAt _
    · exact orTrap_failsAt fun v _ => orTrap_failsAt fun gs _ => next_failsAt _
  | jump l => exact jumpTo_failsAt l
  | jumpIf r l =>
    refine orTrap_failsAt fun v _ => ?_
    split
    · exact jumpTo_failsAt l
    · exact next_failsAt _
  | jumpIfNot r l =>
    refine orTrap_failsAt fun v _ => ?_
    split
    · exact next_failsAt _
    · exact jumpTo_failsAt l
  | call fi dst args => exact callFunction_failsAt fi dst args
  | callFb slot fi args => exact callFb_failsAt fi slot args
  | callMethod slot ci fi dst args => exact callMethod_failsAt slot ci fi dst args
  | ret r => exact ret_failsAt r
  | retVoid =>
    show FailsAt _ (vm.retVoid rest)
    unfold retVoid
    split
    · exact fun _ _ h => by cases h
    · exact next_failsAt _
  | derefStore ptr val =>
    exact orTrap_failsAt fun p _ => orTrap_failsAt fun v _ => derefStore_failsAt p v
  | storeArray slot idx val =>
    exact orTrap_failsAt fun raw _ => orTrap_failsAt fun v _ => orTrap_failsAt fun total _ =>
      orTrap_failsAt fun flat _ => next_failsAt _
  | storeField slot field val => exact orTrap_failsAt fun v _ => next_failsAt _
  | storeFieldIndex slot off idx val =>
    exact orTrap_failsAt fun raw _ => orTrap_failsAt fun flat _ => orTrap_failsAt fun v _ =>
      orTrap_failsAt fun _ _ => next_failsAt _
  | _ => exact next_failsAt _

/-- An instruction that reports an error leaves the frames. -/
theorem exec_failsAt (i : Instruction) : FailsAt vm.callStack (vm.exec func f rest i) := by
  unfold exec
  split
  · exact orTrap_failsAt fun v _ => orTrap_failsAt fun g _ => next_failsAt _
  · exact control_failsAt i

/-- An iteration that reports an error at most has counted the running frame
on. -/
theorem step_failed {e : VmError} (h : vm.step = .halt (vm', .error (.error e))) :
    vm'.callStack = vm.callStack ∨ ∃ f rest, vm.callStack = f :: rest ∧
      vm'.callStack = { f with pc := f.pc + 1 } :: rest := by
  have hcase := vm.stepCase
  generalize vm.nextInstr = next at hcase
  generalize vm.step = o at h hcase
  cases hcase with
  | idle hstack => cases h
  | lost f rest hstack hfunc => cases h
  | atEnd f rest func hstack hfunc hend =>
    unfold fallOff at h
    cases hto : returnTo .void rest with
    | error t =>
      rw [hto] at h
      have ht : t = .error e := by
        cases h
        rfl
      exact absurd (ht ▸ hto) returnTo_error
    | ok rest' =>
      rw [hto] at h
      cases h
  | paused d =>
    cases h
    exact .inl rfl
  | limit f rest d hstack =>
    cases h
    exact .inr ⟨f, rest, hstack, rfl⟩
  | instr f rest func d i hstack hfunc hi =>
    exact .inr ⟨f, rest, hstack, exec_failsAt i _ _ h⟩

/-! ## No running frame waits for a value -/

/-- The running frame waits for no value. -/
def Idle (vm : Vm) : Prop := ∀ f rest, vm.callStack = f :: rest → f.returnReg = none

omit [F64Ops] in
theorem returnTo_idle {v : Value} (h : returnTo v rest = .ok vm'.callStack) : vm'.Idle := by
  intro g cs hstack
  rw [hstack] at h
  cases rest with
  | nil => cases h
  | cons c rest =>
    obtain ⟨g', heq, hg⟩ := returnTo_resumes h
    obtain ⟨rfl, -⟩ := List.cons.inj heq
    exact hg.returnReg

theorem step_idle (hidle : vm.Idle) (h : vm.step = .next vm') : vm'.Idle := by
  obtain ⟨f, rest, func, hstack, -, ⟨-, hoff⟩ | ⟨d, i, -, hexec⟩⟩ := step_next h
  · obtain ⟨stack, hto, hnext⟩ := orTrap_next hoff
    cases hnext
    exact returnTo_idle hto
  · have hf := hidle f rest hstack
    cases hl : leaves i with
    | false =>
      have hran := exec_ran (vm.advance_callStack d f rest) hl hexec
      intro g rest' hstack'
      rw [hstack'] at hran
      cases hran with
      | on hi hpc hret hregs hrest => exact hret.trans hf
      | jumps hs hi hpc hret hregs => exact hret.trans hf
      | calls hi hpc hret hregs hc => exact hc
    | true =>
      cases i with
      | ret r =>
        obtain ⟨v, -, hto⟩ := ret_pops hexec
        exact returnTo_idle hto
      | retVoid =>
        change (vm.advance d f rest).retVoid rest = .next vm' at hexec
        unfold retVoid at hexec
        intro g rest' hstack'
        split at hexec
        · cases hexec
        · cases hexec
          obtain ⟨rfl, -⟩ := List.cons.inj hstack'
          rfl
      | _ => cases hl

omit [F64Ops] in
theorem enterRun_pushes {name : String} (h : vm.enterRun name = some vm') :
    ∃ c : CallFrame, c.returnReg = none ∧ vm'.callStack = c :: vm.callStack := by
  obtain ⟨⟨i, func⟩, -, rfl⟩ := Option.map_eq_some_iff.mp h
  exact ⟨_, rfl, rfl⟩

/-- What happens to a machine keeps its running frame idle. -/
theorem Move.idle (h : Move vm () vm') (hidle : vm.Idle) : vm'.Idle := by
  cases h with
  | next h => exact step_idle hidle h
  | done h =>
    intro f rest hstack
    have hends := execute_ends ⟨vm, .refl vm, h⟩
    rw [hends.mpr rfl] at hstack
    cases hstack
  | failed h =>
    intro f rest hstack
    rcases step_failed h with hsame | ⟨g, cs, hg, hnext⟩
    · exact hidle f rest (hsame ▸ hstack)
    · rw [hnext] at hstack
      obtain ⟨rfl, -⟩ := List.cons.inj hstack
      exact hidle g cs hg
  | start h =>
    obtain ⟨c, hc, hpush⟩ := enterRun_pushes h
    intro f rest hstack
    rw [hpush] at hstack
    obtain ⟨rfl, -⟩ := List.cons.inj hstack
    exact hc
  | host h =>
    intro f rest hstack
    rcases h with h | h
    · exact hidle f rest (h ▸ hstack)
    · rw [h] at hstack
      cases hstack

/-- In every run the running frame waits for no value. -/
theorem reachable_idle (h : machineLts.Reachable vm) : vm.Idle := by
  refine h.inv (fun vm hinit f rest hstack => ?_) (fun vm a vm' hidle hmove => ?_)
  · rw [show vm.callStack = [] from hinit] at hstack
    cases hstack
  · exact Move.idle (show Move vm () vm' from hmove) hidle

/-! ## The way back -/

omit [F64Ops] in
theorem returnTo_resumed {v : Value} {c : CallFrame} {cs stack : List CallFrame}
    (h : returnTo v (c :: cs) = .ok stack) : stack = c.resumed (some v) :: cs := by
  unfold returnTo at h
  unfold CallFrame.resumed handed
  cases hr : c.returnReg with
  | none =>
    simp only [hr, Except.ok.injEq] at h
    rw [← h]
    cases c
    cases hr
    rfl
  | some r =>
    simp only [hr] at h
    cases hx : c.regSet r v with
    | error t => simp [hx, Except.map] at h
    | ok c' =>
      simp only [hx, Except.map, Except.ok.injEq] at h
      obtain rfl := regSet_ok hx
      exact h.symm

/-- An iteration after which the caller runs has handed it the value. -/
theorem step_returns {c : CallFrame} {cs : List CallFrame} (hstack : vm.callStack = f :: c :: cs)
    (h : vm.step = .next vm') (hlen : vm'.callStack.length = cs.length + 1) :
    vm'.callStack = c.resumed vm.handsBack :: cs := by
  have hcase := vm.stepCase
  unfold handsBack
  generalize vm.nextInstr = next at hcase ⊢
  generalize vm.step = o at h hcase
  cases hcase with
  | idle _ => cases h
  | lost _ _ _ _ => cases h
  | paused d => cases h
  | limit _ _ d _ => cases h
  | atEnd f' rest func hstack' hfunc hend =>
    obtain ⟨rfl, rfl⟩ := List.cons.inj (hstack.symm.trans hstack')
    obtain ⟨stack, hto, hnext⟩ := orTrap_next h
    cases hnext
    rw [hstack]
    exact returnTo_resumed hto
  | instr f' rest func d i hstack' hfunc hi =>
    obtain ⟨rfl, rfl⟩ := List.cons.inj (hstack.symm.trans hstack')
    cases hl : leaves i with
    | false =>
      have hran := exec_ran (vm.advance_callStack d f (c :: cs)) hl h
      generalize vm'.callStack = stack at hran hlen
      cases hran with
      | on _ _ _ _ hrest =>
        have := hrest.length_eq
        simp only [List.length_cons] at this hlen
        omega
      | jumps _ _ _ _ _ =>
        simp only [List.length_cons] at hlen
        omega
      | calls _ _ _ _ _ =>
        simp only [List.length_cons] at hlen
        omega
    | true =>
      cases i with
      | ret r =>
        obtain ⟨v, hv, hto⟩ := ret_pops h
        have hget : f.regGet r = .ok v := hv
        rw [hstack]
        simp only [hget, Except.toOption]
        exact returnTo_resumed hto
      | retVoid =>
        cases h
        rw [hstack]
        cases hret : c.returnReg <;> simp [CallFrame.resumed, handed, hret]
      | _ => cases hl

/-! ## While the caller waits -/

/-- A caller that waits before and after what happens to the machine. -/
theorem Move.waits {above below : List CallFrame} {g : CallFrame} (h : Move vm () vm')
    (hstack : vm.callStack = above ++ g :: below) (habove : above ≠ [])
    (hlen : below.length + 1 < vm'.callStack.length) :
    ∃ above' g' below', vm'.callStack = above' ++ g' :: below' ∧ above' ≠ [] ∧ g.Waits g' ∧
      below'.length = below.length := by
  obtain ⟨a, as, rfl⟩ := List.exists_cons_of_ne_nil habove
  cases h with
  | next h =>
    rcases (step_under h hstack).split with hwaits | ⟨rfl, g', hg', -⟩
    · exact hwaits
    · rw [hg', List.length_cons] at hlen
      omega
  | done h =>
    have hends := execute_ends ⟨vm, .refl vm, h⟩
    rw [hends.mpr rfl] at hlen
    cases hlen
  | failed h =>
    rcases step_failed h with hsame | ⟨f, rest, hf, hnext⟩
    · exact ⟨a :: as, g, below, hsame.trans hstack, habove, .refl g, rfl⟩
    · obtain ⟨rfl, rfl⟩ := List.cons.inj (hf.symm.trans hstack)
      exact ⟨_ :: as, g, below, hnext, List.cons_ne_nil _ _, .refl g, rfl⟩
  | start h =>
    obtain ⟨c, -, hpush⟩ := enterRun_pushes h
    exact ⟨c :: a :: as, g, below, by rw [hpush, hstack]; rfl, List.cons_ne_nil _ _, .refl g, rfl⟩
  | host h =>
    rcases h with h | h
    · exact ⟨a :: as, g, below, h.trans hstack, habove, .refl g, rfl⟩
    · rw [h] at hlen
      cases hlen

/-- What happens to a machine brings control back by an iteration only. -/
theorem Move.returns {c : CallFrame} {above below : List CallFrame} (h : Move vm () vm')
    (hstack : vm.callStack = above ++ c :: below) (habove : above ≠ [])
    (hlen : vm'.callStack.length = below.length + 1) :
    vm'.callStack = c.resumed vm.handsBack :: below := by
  obtain ⟨a, as, rfl⟩ := List.exists_cons_of_ne_nil habove
  have hlong := congrArg List.length hstack
  simp only [List.length_append, List.length_cons] at hlong
  cases h with
  | next h =>
    rcases (step_under h hstack).split with ⟨above', g', below', hg', hne, -, hb⟩ | ⟨rfl, -⟩
    · have hpos := List.length_pos_iff.mpr hne
      rw [hg', List.length_append, List.length_cons] at hlen
      omega
    · exact step_returns hstack h hlen
  | done h =>
    have hends := execute_ends ⟨vm, .refl vm, h⟩
    rw [hends.mpr rfl] at hlen
    cases hlen
  | failed h =>
    rcases step_failed h with hsame | ⟨f, rest, hf, hnext⟩
    · rw [hsame] at hlen
      omega
    · rw [hnext] at hlen
      rw [hf] at hlong
      simp only [List.length_cons] at hlen hlong
      omega
  | start h =>
    obtain ⟨c', -, hpush⟩ := enterRun_pushes h
    rw [hpush, List.length_cons] at hlen
    omega
  | host h =>
    rcases h with h | h
    · rw [h] at hlen
      omega
    · rw [h] at hlen
      cases hlen

/-! ## The locals of a caller that waits -/

omit [F64Ops] in
theorem frameAt_append {above below : List CallFrame} {g : CallFrame}
    (hstack : vm.callStack = above ++ g :: below) : vm.frameAt below.length = some g := by
  unfold frameAt
  rw [hstack, List.reverse_append, List.reverse_cons, List.append_assoc,
    List.getElem?_append_right (by simp)]
  simp

omit [F64Ops] in
theorem frameAt_cons {below : List CallFrame} {g : CallFrame} (hstack : vm.callStack = g :: below) :
    vm.frameAt below.length = some g := by
  rw [← List.nil_append (g :: below)] at hstack
  exact frameAt_append hstack

omit [F64Ops] in
/-- Frames on top of a stack do not change what is at a depth below. -/
theorem frameAt_below (top : List CallFrame) {d : Nat} (hstack : vm.callStack = top ++ rest)
    (hd : d < rest.length) : vm.frameAt d = rest.reverse[d]? := by
  unfold frameAt
  rw [hstack, List.reverse_append, List.getElem?_append_left (by simpa using hd)]

/-- The frame at a depth has its locals as before, or one was stored to
through a reference. -/
def Kept (vm : Vm) (d : Nat) (f g : CallFrame) : Prop :=
  g.locals = f.locals ∨ ∃ slot v, vm.StoresInto d slot ∧ g.locals = f.locals.set slot.toNat v

omit [F64Ops] in
theorem locals_below (top : List CallFrame) {rest' : List CallFrame} {d : Nat} {g g' : CallFrame}
    (hstack : vm.callStack = f :: rest) (hstack' : vm'.callStack = top ++ rest')
    (halike : List.Forall₂ CallFrame.Alike rest rest') (hd : d < rest.length)
    (hg : vm.frameAt d = some g) (hg' : vm'.frameAt d = some g') : g'.locals = g.locals := by
  rw [frameAt_below [f] hstack hd] at hg
  rw [frameAt_below top hstack' (halike.length_eq ▸ hd)] at hg'
  obtain ⟨h1, rfl⟩ := List.getElem?_eq_some_iff.mp hg
  obtain ⟨h2, rfl⟩ := List.getElem?_eq_some_iff.mp hg'
  exact ((List.rel_reverse halike).get h1 h2).locals

/-- An iteration changes the locals of a frame that waits only by a store
through a reference. -/
theorem step_locals (hstack : vm.callStack = f :: rest) {d : Nat} (hd : d < rest.length)
    {g g' : CallFrame} (h : vm.step = .next vm') (hg : vm.frameAt d = some g)
    (hg' : vm'.frameAt d = some g') : vm.Kept d g g' := by
  have hrefl := List.forall₂_same.mpr fun c (_ : c ∈ rest) => CallFrame.Alike.refl c
  have heffect := vm.step_effect
  rw [h, left_next] at heffect
  generalize hnext : vm.nextInstr = next at heffect
  cases heffect with
  | idle => exact .inl (locals_below [f] hstack hstack hrefl hd hg hg')
  | paused dbg => exact .inl (locals_below [f] hstack hstack hrefl hd hg hg')
  | limit f0 rest0 dbg hstack0 =>
    obtain ⟨rfl, rfl⟩ := List.cons.inj (hstack.symm.trans hstack0)
    exact .inl (locals_below [_] hstack rfl hrefl hd hg hg')
  | atEnd f0 rest0 rest' hstack0 halike =>
    obtain ⟨rfl, rfl⟩ := List.cons.inj (hstack.symm.trans hstack0)
    exact .inl (locals_below [] hstack rfl halike hd hg hg')
  | instr f0 rest0 func dbg i vm' hstack0 hfunc hi heffect =>
    obtain ⟨rfl, rfl⟩ := List.cons.inj (hstack.symm.trans hstack0)
    cases heffect with
    | derefFrame ptr val tag slot v hp hv htag =>
      -- the frame is the one that is pointed into, or another
      have hat : (rest.reverse ++ [{ f with pc := f.pc + 1 }])[d]? = some g := by
        rw [List.getElem?_append_left (by simpa using hd),
          ← frameAt_below [f] hstack hd]
        exact hg
      have hmod : ((rest.reverse ++ [{ f with pc := f.pc + 1 }]).modify (tag - 2).toNat fun fr =>
          { fr with locals := fr.locals.set slot.toNat v })[d]? = some g' := by
        simpa [frameAt, modifyFrameAt, advance] using hg'
      rw [List.getElem?_modify, hat] at hmod
      by_cases hdepth : (tag - 2).toNat = d
      · simp only [hdepth, if_true, Option.map_eq_map, Option.map_some, Option.some.injEq] at hmod
        subst hmod
        exact .inr ⟨slot, v, ⟨ptr, val, f, rest, tag, hnext, hstack, hp, htag, hdepth⟩, rfl⟩
      · simp only [hdepth, if_false, Option.map_eq_map, Option.map_some, Option.some.injEq] at hmod
        exact .inl (hmod ▸ rfl)
    | ret r rest' halike =>
      exact .inl (locals_below [] hstack rfl halike hd hg hg')
    | retVoid rest' halike =>
      exact .inl (locals_below [] hstack rfl halike hd hg hg')
    | call fi dst args callee locals hc hb =>
      exact .inl (locals_below [_, _] hstack rfl hrefl hd hg hg')
    | callFb slot fi args callee locals hc hb =>
      exact .inl (locals_below [_, _] hstack rfl hrefl hd hg hg')
    | method slot ci fi dst args method cls count ls locals vm1 hm hc hs hb =>
      exact .inl (locals_below [_, _] hstack rfl hrefl hd hg hg')
    | _ => exact .inl (locals_below [_] hstack rfl hrefl hd hg hg')

/-- The same of all that happens to a machine. -/
theorem Move.locals {above below : List CallFrame} {g g' : CallFrame} (h : Move vm () vm')
    (hstack : vm.callStack = above ++ g :: below) (habove : above ≠ [])
    (hg' : vm'.frameAt below.length = some g') : vm.Kept below.length g g' := by
  obtain ⟨a, as, rfl⟩ := List.exists_cons_of_ne_nil habove
  have hg := frameAt_append hstack
  have hd : below.length < (as ++ g :: below).length := by
    rw [List.length_append, List.length_cons]
    omega
  have hrefl := List.forall₂_same.mpr fun c (_ : c ∈ as ++ g :: below) => CallFrame.Alike.refl c
  cases h with
  | next h => exact step_locals hstack hd h hg hg'
  | done h =>
    have hends := execute_ends ⟨vm, .refl vm, h⟩
    rw [frameAt, hends.mpr rfl] at hg'
    cases hg'
  | failed h =>
    rcases step_failed h with hsame | ⟨f, rest, hf, hnext⟩
    · exact .inl (locals_below [a] hstack (hsame.trans hstack) hrefl hd hg hg')
    · obtain ⟨rfl, rfl⟩ := List.cons.inj (hf.symm.trans hstack)
      exact .inl (locals_below [_] hstack hnext hrefl hd hg hg')
  | start h =>
    obtain ⟨c, -, hpush⟩ := enterRun_pushes h
    exact .inl (locals_below [c, a] hstack (by rw [hpush, hstack]; rfl) hrefl hd hg hg')
  | host h =>
    rcases h with h | h
    · exact .inl (locals_below [a] hstack (h.trans hstack) hrefl hd hg hg')
    · rw [frameAt, h] at hg'
      cases hg'

/-! ## From the call to the way back -/

/-- The locals of `g` are those of `f`, but for slots that one of the machines
stored to through a reference. -/
def LocalsKept (us : List Vm) (d : Nat) (f g : CallFrame) : Prop :=
  g.locals.length = f.locals.length ∧
    ∀ k, g.locals[k]? = f.locals[k]? ∨ ∃ u ∈ us, ∃ slot, u.StoresInto d slot ∧ slot.toNat = k

omit [F64Ops] in
theorem LocalsKept.cons {us : List Vm} {d : Nat} {g : CallFrame} {k : CallFrame}
    (h : vm.Kept d f g) (hrest : LocalsKept us d g k) : LocalsKept (vm :: us) d f k := by
  have hone : g.locals.length = f.locals.length ∧ ∀ n, g.locals[n]? = f.locals[n]? ∨
      ∃ slot, vm.StoresInto d slot ∧ slot.toNat = n := by
    rcases h with h | ⟨slot, v, hs, h⟩
    · rw [h]
      exact ⟨rfl, fun _ => .inl rfl⟩
    · rw [h, List.length_set]
      refine ⟨rfl, fun n => ?_⟩
      by_cases hn : slot.toNat = n
      · exact .inr ⟨slot, hs, hn⟩
      · exact .inl (List.getElem?_set_ne hn)
  refine ⟨hrest.1.trans hone.1, fun n => ?_⟩
  rcases hrest.2 n with hk | ⟨u, hu, slot, hs, hn⟩
  · rcases hone.2 n with hg | ⟨slot, hs, hn⟩
    · exact .inl (hk.trans hg)
    · exact .inr ⟨vm, List.mem_cons_self, slot, hs, hn⟩
  · exact .inr ⟨u, List.mem_cons_of_mem _ hu, slot, hs, hn⟩

/-- The caller `f` when control is back: `k`, as the last of the machines has
left it. -/
structure Back (us : List Vm) (d : Nat) (f k : CallFrame) : Prop where
  funcIndex : k.funcIndex = f.funcIndex
  instanceSlot : k.instanceSlot = f.instanceSlot
  pc : k.pc = f.pc
  returnReg : k.returnReg = none
  registers : k.registers = handed f.returnReg (us.getLast?.bind handsBack) f.registers
  locals : LocalsKept us d f k

/-- A caller that waits is resumed by the last machine of the run. -/
theorem Awaits.back {d : Nat} {us : List Vm} (h : Awaits d us vm vm') :
    ∀ {above below : List CallFrame} {g : CallFrame}, vm.callStack = above ++ g :: below →
      above ≠ [] → below.length = d → vm'.callStack.length = d + 1 →
      ∃ k below', vm'.callStack = k :: below' ∧ below'.length = d ∧ Back us d g k := by
  induction h with
  | done vm =>
    intro above below g hstack habove hd hback
    have hpos := List.length_pos_iff.mpr habove
    rw [hstack, List.length_append, List.length_cons] at hback
    omega
  | @move us vm vm1 vm2 hwait hmove hrest ih =>
    intro above below g hstack habove hd hback
    cases hrest with
    | done =>
      -- the machine hands control back
      have hret := hmove.returns hstack habove (hd ▸ hback)
      have hkept := hmove.locals hstack habove (frameAt_append (show _ = [] ++ _ :: below from hret))
      rw [hd] at hkept
      exact ⟨_, below, hret, hd, rfl, rfl, rfl, rfl, rfl, .cons hkept ⟨rfl, fun _ => .inl rfl⟩⟩
    | @move us vm vm1 vm2 hwait1 hmove1 hrest1 =>
      obtain ⟨above', g', below', hstack', habove', hg, hb⟩ :=
        hmove.waits hstack habove (hd ▸ hwait1)
      obtain ⟨k, below2, hk, hd2, hback2⟩ := ih hstack' habove' (hb.trans hd) hback
      have hat := frameAt_append hstack'
      rw [hb] at hat
      have hkept := hmove.locals hstack habove hat
      rw [hd] at hkept
      refine ⟨k, below2, hk, hd2, hback2.funcIndex.trans hg.funcIndex,
        hback2.instanceSlot.trans hg.instanceSlot, hback2.pc.trans hg.pc, hback2.returnReg, ?_,
        .cons hkept hback2.locals⟩
      have hregs := hback2.registers
      rw [hg.returnReg, hg.registers] at hregs
      rw [hregs, List.getLast?_cons_cons]

/-- A call pushes a frame above the caller, which waits for the value behind
the call, or it calls a native block and goes on there. -/
theorem exec_calls (hcall : calls i = true) (hstack : vm.callStack = f :: rest)
    (hidle : f.returnReg = none) (h : vm.exec func f rest i = .next vm') :
    (∃ c, vm'.callStack = c :: { f with returnReg := target i } :: rest) ∨
      vm'.callStack = f :: rest := by
  cases i with
  | call fi dst args =>
    change vm.callFunction f rest fi dst args = _ at h
    unfold callFunction at h
    split at h
    · cases h
    · split at h
      · cases h
      · obtain ⟨locals, -, h⟩ := orTrap_next h
        cases h
        exact .inl ⟨_, rfl⟩
  | callFb slot fi args =>
    change vm.callFb f fi slot args func = _ at h
    unfold callFb at h
    split at h
    · cases h
    · split at h
      · cases h
      · obtain ⟨locals, -, h⟩ := orTrap_next h
        split at h
        · cases h
          exact .inr hstack
        · cases h
          have hf : { f with returnReg := target (.callFb slot fi args) } = f := by
            cases f
            cases hidle
            rfl
          exact .inl ⟨_, by rw [hf]; exact congrArg (_ :: ·) hstack⟩
  | callMethod slot ci fi dst args =>
    change vm.callMethod f rest slot ci fi dst args = _ at h
    unfold callMethod at h
    split at h
    · obtain ⟨p, -, h⟩ := orTrap_next h
      obtain ⟨locals, -, h⟩ := orTrap_next h
      split at h
      · cases h
      · cases h
        exact .inl ⟨_, rfl⟩
    · cases h
  | _ => cases hcall

/-- **The frame law of calls.** In every run: a frame `F` executes a call, and
control comes back to it. Then `F` goes on behind the call. Its registers are
as before, but for the destination of the call, which has the value of the
callee's `Ret`, or `Void` if the callee came to the end of its code. Its locals are
as before, but for slots that were stored to through a reference into `F`. -/
theorem call_frame_law {vm1 : Vm} {us : List Vm} {F : CallFrame}
    (hreach : machineLts.Reachable vm) (hstack : vm.callStack = F :: rest)
    (hnext : vm.nextInstr = some i) (hcall : calls i = true) (hstep : vm.step = .next vm1)
    (hrun : Awaits rest.length us vm1 vm') (hback : vm'.callStack.length = rest.length + 1) :
    ∃ G below, vm'.callStack = G :: below ∧ below.length = rest.length ∧
      G.funcIndex = F.funcIndex ∧ G.instanceSlot = F.instanceSlot ∧ G.pc = F.pc + 1 ∧
      G.registers = handed (target i) (us.getLast?.bind handsBack) F.registers ∧
      LocalsKept us rest.length F G := by
  have hidle := reachable_idle hreach F rest hstack
  have hcase := vm.stepCase
  rw [hnext] at hcase
  generalize vm.step = o at hstep hcase
  cases hcase with
  | instr f rest0 func d _ hstack0 hfunc hi =>
    obtain ⟨rfl, rfl⟩ := List.cons.inj (hstack.symm.trans hstack0)
    have hpushed := exec_calls hcall (vm.advance_callStack d F rest) hidle hstep
    rcases hpushed with ⟨c, hc⟩ | hnative
    · obtain ⟨G, below, hG, hd, hb⟩ :=
        hrun.back (show _ = [c] ++ _ :: rest from hc) (List.cons_ne_nil _ _) rfl hback
      exact ⟨G, below, hG, hd, hb.funcIndex, hb.instanceSlot, hb.pc, hb.registers, hb.locals⟩
    · cases hrun with
      | done =>
        refine ⟨_, rest, hnative, rfl, rfl, rfl, rfl, ?_, rfl, fun _ => .inl rfl⟩
        cases target i <;> rfl
      | move hwait _ _ =>
        rw [hnative, List.length_cons] at hwait
        omega

end

end Vm

/-! ## A call -/

/-- `Main` calls `Seven`, which returns 7. -/
def sevenModule : Module :=
  ⟨[⟨"Main", .program, 1, [.call 1 0 []], [], .empty, [], 0⟩,
    ⟨"Seven", .function, 1, [.loadConst 0 (.int 7), .ret 0], [], .empty, [], 0⟩], .empty, [], []⟩

/-- `Main` about to call. -/
def sevenMachine : Vm :=
  (Vm.new sevenModule .default).withStack [⟨0, [Value.dflt], [], 0, none, none⟩]

/-- The machine after `n` iterations. -/
def sevenAfter : Nat → Vm
  | 0 => sevenMachine
  | n + 1 => left (@Vm.step default (sevenAfter n))

/-- `Main` has the 7 when the control is back. -/
theorem seven_returned : ∃ G below, (sevenAfter 3).callStack = G :: below ∧ below.length = 0 ∧
    G.registers = [.int 7] := by
  let _ : F64Ops := default
  have hstart : Vm.Move (Vm.new sevenModule .default) () (sevenAfter 0) := 
    .start (show (Vm.new sevenModule .default).enterRun "Main" = some (sevenAfter 0) from rfl)
  have hinit : Vm.machineLts.Reachable (Vm.new sevenModule .default) :=
    .init (show (Vm.new sevenModule .default).callStack = [] from rfl)
  have h1 : Vm.Move (sevenAfter 1) () (sevenAfter 2) := .next rfl
  have h2 : Vm.Move (sevenAfter 2) () (sevenAfter 3) := .next rfl
  obtain ⟨G, below, hG, hd, -, -, -, hregs, -⟩ :=
    Vm.call_frame_law (.step hinit hstart)
      (show (sevenAfter 0).callStack = _ :: [] from rfl) (i := .call 1 0 []) rfl rfl
      (show (sevenAfter 0).step = .next (sevenAfter 1) from rfl)
      (.move (by decide) h1 (.move (by decide) h2 (.done _))) rfl
  exact ⟨G, below, hG, hd, hregs⟩

end RustPlc.Engine
