import RustPlc.L2Compiler.Walk
import RustPlc.L3Vm.Effect

/-!
# Where the frames of the stack go on

The running frame goes on behind its instruction or at a label, also when
it waits for a callee; the frames below it stay where they are, whatever is
written into their registers and locals.

Results:
* `exec_ran`, `exec_goes`: an instruction that does not end the activation,
  with what becomes of the registers, and without;
* `ret_pops`, `retVoid_pops`, `fallOff_pops`: the end of an activation;
* `step_next`, `step_done`: what an iteration has executed.
-/
namespace RustPlc.Engine

open RustPlc.Ir RustPlc.Core RustPlc.Compiler

/-- The same function at the same position. -/
structure CallFrame.SamePlace (f g : CallFrame) : Prop where
  funcIndex : g.funcIndex = f.funcIndex
  pc : g.pc = f.pc

theorem CallFrame.SamePlace.refl (f : CallFrame) : f.SamePlace f := ⟨rfl, rfl⟩

theorem samePlace_refl (fs : List CallFrame) : List.Forall₂ CallFrame.SamePlace fs fs :=
  List.forall₂_same.mpr fun f _ => .refl f

theorem regSet_ok {f g : CallFrame} {r : Reg} {v : Value} (h : f.regSet r v = .ok g) :
    g = { f with registers := f.registers.set r.toNat v } := by
  unfold CallFrame.regSet indexSet at h
  split at h
  · simp only [Except.map, Except.ok.injEq] at h
    exact h.symm
  · cases h

theorem regGet_regSet {f g : CallFrame} {r : Reg} {v : Value} (h : f.regSet r v = .ok g) :
    g.regGet r = .ok v := by
  unfold CallFrame.regSet indexSet at h
  split at h
  · next hlt =>
    simp only [Except.map, Except.ok.injEq] at h
    subst h
    simp [CallFrame.regGet, index, hlt]
  · cases h

theorem samePlace_regSet {f g : CallFrame} {r : Reg} {v : Value} (h : f.regSet r v = .ok g) :
    f.SamePlace g := by
  obtain rfl := regSet_ok h
  exact ⟨rfl, rfl⟩

/-- A caller that takes a value stays where it is. -/
theorem samePlace_returnTo {v : Value} {rest rest' : List CallFrame}
    (h : Vm.returnTo v rest = .ok rest') : List.Forall₂ CallFrame.SamePlace rest rest' := by
  cases rest with
  | nil =>
    simp only [Vm.returnTo, Except.ok.injEq] at h
    subst h
    exact .nil
  | cons c cs =>
    unfold Vm.returnTo at h
    cases hr : c.returnReg with
    | none =>
      simp only [hr, Except.ok.injEq] at h
      subst h
      exact samePlace_refl _
    | some r =>
      simp only [hr] at h
      cases hx : c.regSet r v with
      | error t => simp [hx, Except.map] at h
      | ok c' =>
        simp only [hx, Except.map, Except.ok.injEq] at h
        subst h
        have hc := samePlace_regSet hx
        exact .cons ⟨hc.funcIndex, hc.pc⟩ (samePlace_refl cs)

/-- A frame that waits keeps all but its variables. -/
structure CallFrame.Waits (f g : CallFrame) : Prop where
  funcIndex : g.funcIndex = f.funcIndex
  pc : g.pc = f.pc
  registers : g.registers = f.registers
  returnReg : g.returnReg = f.returnReg
  instanceSlot : g.instanceSlot = f.instanceSlot

theorem CallFrame.Waits.refl (f : CallFrame) : f.Waits f := ⟨rfl, rfl, rfl, rfl, rfl⟩

theorem CallFrame.Waits.samePlace {f g : CallFrame} (h : f.Waits g) : f.SamePlace g :=
  ⟨h.funcIndex, h.pc⟩

theorem waits_refl (fs : List CallFrame) : List.Forall₂ CallFrame.Waits fs fs :=
  List.forall₂_same.mpr fun f _ => .refl f

theorem waits_modify (g : CallFrame → CallFrame) (hg : ∀ f : CallFrame, f.Waits (g f)) :
    ∀ (fs : List CallFrame) (i : Nat), List.Forall₂ CallFrame.Waits fs (fs.modify i g)
  | [], _ => by simp
  | f :: fs, 0 => by
    rw [List.modify_zero_cons]
    exact .cons (hg f) (waits_refl fs)
  | f :: fs, i + 1 => by
    rw [List.modify_succ_cons]
    exact .cons (.refl f) (waits_modify g hg fs i)

namespace Vm

/-- The registers of `g` are those of `f`, but for the one the instruction
fills. -/
def Filled (i : Instruction) (f g : CallFrame) : Prop :=
  g.registers = f.registers ∨
    ∃ r v, target i = some r ∧ g.registers = f.registers.set r.toNat v

/-- The stack an instruction leaves that does not end the activation. `f`
already points behind the instruction. -/
inductive Ran (func : Function) (i : Instruction) (f : CallFrame) (rest : List CallFrame) :
    List CallFrame → Prop where
  | on {g rest'} (hi : g.funcIndex = f.funcIndex) (hpc : g.pc = f.pc)
      (hret : g.returnReg = f.returnReg) (hregs : Filled i f g)
      (hrest : List.Forall₂ CallFrame.Waits rest rest') : Ran func i f rest (g :: rest')
  | jumps {g} (hs : straight i = false) (hi : g.funcIndex = f.funcIndex)
      (hpc : g.pc ∈ func.labelPositions) (hret : g.returnReg = f.returnReg)
      (hregs : g.registers = f.registers) : Ran func i f rest (g :: rest)
  | calls {c g} (hi : g.funcIndex = f.funcIndex) (hpc : g.pc = f.pc)
      (hret : g.returnReg = f.returnReg ∨ g.returnReg = target i)
      (hregs : g.registers = f.registers) (hc : c.returnReg = none) :
    Ran func i f rest (c :: g :: rest)

/-- The stack an instruction of the frame `f` of `func` leaves above `rest`, unless
it ends the activation. `f` already points behind the instruction. -/
inductive Goes (func : Function) (f : CallFrame) (rest : List CallFrame) :
    List CallFrame → Prop where
  | on {g rest'} (hg : f.SamePlace g) (hrest : List.Forall₂ CallFrame.SamePlace rest rest') :
    Goes func f rest (g :: rest')
  | jumps {g} (hi : g.funcIndex = f.funcIndex) (hpc : g.pc ∈ func.labelPositions) :
    Goes func f rest (g :: rest)
  | calls {c g} (hg : f.SamePlace g) : Goes func f rest (c :: g :: rest)

section

variable {vm vm' : Vm} {func : Function} {f : CallFrame} {rest : List CallFrame} {i : Instruction}

/-- Where the frames go on. -/
theorem Ran.goes {stack : List CallFrame} (h : Ran func i f rest stack) : Goes func f rest stack := by
  cases h with
  | on hi hpc hret hregs hrest =>
    exact .on ⟨hi, hpc⟩ (hrest.imp fun _ _ hw => hw.samePlace)
  | jumps hs hi hpc hret hregs => exact .jumps hi hpc
  | calls hi hpc hret hregs hc => exact .calls ⟨hi, hpc⟩

theorem orTrap_next {α : Type} {x : Except Trap α} {k : α → Outcome Vm Stop}
    (h : vm.orTrap x k = .next vm') : ∃ a, x = .ok a ∧ k a = .next vm' := by
  cases x with
  | error t => cases h
  | ok a => exact ⟨a, rfl, h⟩

theorem ran_same (hstack : vm.callStack = f :: rest) : Ran func i f rest vm.callStack := by
  rw [hstack]
  exact .on rfl rfl rfl (.inl rfl) (waits_refl rest)

theorem jumpTo_ran {l : Label} (hi : straight i = false) (h : vm.jumpTo func f rest l = .next vm') :
    Ran func i f rest vm'.callStack := by
  unfold jumpTo at h
  split at h
  · next position hposition =>
    cases h
    exact .jumps hi rfl (List.mem_of_getElem? hposition) rfl rfl
  · cases h

theorem derefStore_ran {p v : Value} (hstack : vm.callStack = f :: rest)
    (h : vm.derefStore p v = .next vm') : Ran func i f rest vm'.callStack := by
  unfold derefStore at h
  split at h
  · next tag slot =>
    split at h
    · obtain ⟨gs, -, h⟩ := orTrap_next h
      cases h
      exact ran_same hstack
    · split at h
      · cases h
        exact ran_same hstack
      · cases h
        have hall : List.Forall₂ CallFrame.Waits vm.callStack
            (vm.modifyFrameAt (tag - 2).toNat fun fr =>
              { fr with locals := fr.locals.set slot.toNat v }).callStack := by
          have hmod := waits_modify (fun fr => { fr with locals := fr.locals.set slot.toNat v })
            (fun _ => ⟨rfl, rfl, rfl, rfl, rfl⟩) vm.callStack.reverse (tag - 2).toNat
          have hrev := List.rel_reverse hmod
          rwa [List.reverse_reverse] at hrev
        rw [hstack] at hall
        generalize (vm.modifyFrameAt (tag - 2).toNat fun fr =>
          { fr with locals := fr.locals.set slot.toNat v }).callStack = stack at hall ⊢
        cases hall with
        | cons hf hrest =>
          exact .on hf.funcIndex hf.pc hf.returnReg (.inl hf.registers) hrest
  · cases h
    exact ran_same hstack

theorem callFunction_ran {fi : UInt16} {dst : Reg} {args : List (UInt16 × Reg)}
    (h : vm.callFunction f rest fi dst args = .next vm') :
    Ran func (.call fi dst args) f rest vm'.callStack := by
  unfold callFunction at h
  split at h
  · cases h
  · split at h
    · cases h
    · obtain ⟨locals, -, h⟩ := orTrap_next h
      cases h
      exact .calls rfl rfl (.inr rfl) rfl rfl

theorem callFb_ran {slot fi : UInt16} {args : List (UInt16 × Reg)} {caller : Function}
    (hstack : vm.callStack = f :: rest) (h : vm.callFb f fi slot args caller = .next vm') :
    Ran func (.callFb slot fi args) f rest vm'.callStack := by
  unfold callFb at h
  split at h
  · cases h
  · split at h
    · cases h
    · obtain ⟨locals, -, h⟩ := orTrap_next h
      split at h
      · cases h
        exact ran_same hstack
      · cases h
        show Ran func _ f rest (_ :: vm.callStack)
        rw [hstack]
        exact .calls rfl rfl (.inl rfl) rfl rfl

theorem callMethod_ran {slot ci fi : UInt16} {dst : Reg} {args : List (UInt16 × Reg)}
    (h : vm.callMethod f rest slot ci fi dst args = .next vm') :
    Ran func (.callMethod slot ci fi dst args) f rest vm'.callStack := by
  unfold callMethod at h
  split at h
  · obtain ⟨p, -, h⟩ := orTrap_next h
    obtain ⟨locals, -, h⟩ := orTrap_next h
    split at h
    · cases h
    · cases h
      exact .calls rfl rfl (.inr rfl) rfl rfl
  · cases h

variable [F64Ops]

theorem control_ran (hstack : vm.callStack = f :: rest) (hleaves : leaves i = false)
    (h : vm.control func f rest i = .next vm') : Ran func i f rest vm'.callStack := by
  cases i with
  | storeLocal slot src =>
    obtain ⟨v, -, h⟩ := orTrap_next h
    obtain ⟨g, hg, h⟩ := orTrap_next h
    cases h
    unfold localSet at hg
    cases hx : indexSet f.locals slot.toNat (narrowValue v (slotWidth func.locals slot)) with
    | error t => simp [hx, Except.map] at hg
    | ok ls =>
      simp only [hx, Except.map, Except.ok.injEq] at hg
      subst hg
      exact .on rfl rfl rfl (.inl rfl) (waits_refl rest)
  | storeGlobal slot src =>
    change vm.storeGlobal f slot src = _ at h
    unfold storeGlobal at h
    split at h
    · cases h
      exact ran_same hstack
    · obtain ⟨v, -, h⟩ := orTrap_next h
      obtain ⟨gs, -, h⟩ := orTrap_next h
      cases h
      exact ran_same hstack
  | jump l => exact jumpTo_ran rfl h
  | jumpIf r l =>
    obtain ⟨v, -, h⟩ := orTrap_next h
    split at h
    · exact jumpTo_ran rfl h
    · cases h
      exact ran_same hstack
  | jumpIfNot r l =>
    obtain ⟨v, -, h⟩ := orTrap_next h
    split at h
    · cases h
      exact ran_same hstack
    · exact jumpTo_ran rfl h
  | call fi dst args => exact callFunction_ran h
  | callFb slot fi args => exact callFb_ran hstack h
  | callMethod slot ci fi dst args => exact callMethod_ran h
  | ret r => cases hleaves
  | retVoid => cases hleaves
  | derefStore ptr val =>
    obtain ⟨p, -, h⟩ := orTrap_next h
    obtain ⟨v, -, h⟩ := orTrap_next h
    exact derefStore_ran hstack h
  | storeArray slot idx val =>
    obtain ⟨raw, -, h⟩ := orTrap_next h
    obtain ⟨v, -, h⟩ := orTrap_next h
    obtain ⟨total, -, h⟩ := orTrap_next h
    obtain ⟨flat, -, h⟩ := orTrap_next h
    cases h
    exact ran_same hstack
  | storeField slot field val =>
    obtain ⟨v, -, h⟩ := orTrap_next h
    cases h
    exact ran_same hstack
  | storeFieldIndex slot off idx val =>
    obtain ⟨raw, -, h⟩ := orTrap_next h
    obtain ⟨flat, -, h⟩ := orTrap_next h
    obtain ⟨v, -, h⟩ := orTrap_next h
    obtain ⟨_, -, h⟩ := orTrap_next h
    cases h
    exact ran_same hstack
  | _ =>
    cases h
    exact ran_same hstack

/-- The register `compute` fills is the target of the instruction, which is
straight. -/
theorem compute_fills {dst : Reg} {x : Except Trap Value}
    (h : vm.compute func f i = some (dst, x)) : Fills i dst := by
  cases i <;> cases h <;> exact ⟨rfl, rfl⟩

/-- **An instruction that does not end the activation leaves a stack that
`Ran` describes.** -/
theorem exec_ran (hstack : vm.callStack = f :: rest) (hleaves : leaves i = false)
    (h : vm.exec func f rest i = .next vm') : Ran func i f rest vm'.callStack := by
  unfold exec at h
  cases hc : vm.compute func f i with
  | none =>
    rw [hc] at h
    exact control_ran hstack hleaves h
  | some p =>
    obtain ⟨dst, x⟩ := p
    rw [hc] at h
    obtain ⟨v, -, h⟩ := orTrap_next h
    obtain ⟨g, hg, h⟩ := orTrap_next h
    cases h
    obtain rfl := regSet_ok hg
    exact .on rfl rfl rfl (.inr ⟨dst, v, (compute_fills hc).target, rfl⟩)
      (waits_refl rest)

theorem exec_goes (hstack : vm.callStack = f :: rest)
    (hret : ∀ r, i ≠ .ret r) (hvoid : i ≠ .retVoid) (h : vm.exec func f rest i = .next vm') :
    Goes func f rest vm'.callStack := by
  refine (exec_ran hstack ?_ h).goes
  cases i with
  | ret r => exact absurd rfl (hret r)
  | retVoid => exact absurd rfl hvoid
  | _ => rfl

omit [F64Ops] in
theorem advance_callStack (vm : Vm) (d : DebugState) (f : CallFrame) (rest : List CallFrame) :
    (vm.advance d f rest).callStack = { f with pc := f.pc + 1 } :: rest := rfl

/-! ## The end of an activation -/

omit [F64Ops] in
theorem ret_pops {r : Reg} (h : vm.ret f rest r = .next vm') :
    ∃ v, f.regGet r = .ok v ∧ returnTo v rest = .ok vm'.callStack := by
  obtain ⟨v, hv, h⟩ := orTrap_next h
  obtain ⟨rest', hrest, h⟩ := orTrap_next h
  split at h
  · cases h
  · cases h
    exact ⟨v, hv, hrest⟩

omit [F64Ops] in
theorem ret_halts {r : Reg} {v : Value} (h : vm.ret f rest r = .halt (vm', .ok v)) :
    f.regGet r = .ok v := by
  unfold ret at h
  cases hr : f.regGet r with
  | error t =>
    rw [hr] at h
    cases h
  | ok w =>
    simp only [hr, orTrap] at h
    cases hto : returnTo w rest with
    | error t =>
      rw [hto] at h
      cases h
    | ok rest' =>
      simp only [hto] at h
      split at h
      · cases h
        rfl
      · cases h

omit [F64Ops] in
theorem retVoid_pops (h : vm.retVoid rest = .next vm') :
    List.Forall₂ CallFrame.SamePlace rest vm'.callStack := by
  unfold retVoid at h
  split at h
  · cases h
  · cases h
    exact .cons ⟨rfl, rfl⟩ (samePlace_refl _)

omit [F64Ops] in
theorem fallOff_pops (h : vm.fallOff rest = .next vm') :
    List.Forall₂ CallFrame.SamePlace rest vm'.callStack := by
  obtain ⟨rest', hrest, h⟩ := orTrap_next h
  cases h
  exact samePlace_returnTo hrest

omit [F64Ops] in
theorem orTrap_done {α : Type} {x : Except Trap α} {k : α → Outcome Vm Stop} {v : Value}
    (h : vm.orTrap x k = .halt (vm', .ok v)) : ∃ a, x = .ok a ∧ k a = .halt (vm', .ok v) := by
  cases x with
  | error t => cases h
  | ok a => exact ⟨a, rfl, h⟩

omit [F64Ops] in
theorem jumpTo_done {l : Label} {v : Value} :
    vm.jumpTo func f rest l ≠ .halt (vm', .ok v) := by
  intro h
  unfold jumpTo at h
  split at h <;> cases h

/-- Only the end of an activation ends a run with a value. -/
theorem exec_done {i : Instruction} {v : Value}
    (h : vm.exec func f rest i = .halt (vm', .ok v)) : (∃ r, i = .ret r) ∨ i = .retVoid := by
  unfold exec at h
  cases hc : vm.compute func f i with
  | some p =>
    rw [hc] at h
    obtain ⟨w, -, h⟩ := orTrap_done h
    obtain ⟨g, -, h⟩ := orTrap_done h
    cases h
  | none =>
    rw [hc] at h
    change vm.control func f rest i = _ at h
    cases i with
    | ret r => exact .inl ⟨r, rfl⟩
    | retVoid => exact .inr rfl
    | storeLocal slot src =>
      obtain ⟨w, -, h⟩ := orTrap_done h
      obtain ⟨g, -, h⟩ := orTrap_done h
      cases h
    | storeGlobal slot src =>
      change vm.storeGlobal f slot src = _ at h
      unfold storeGlobal at h
      split at h
      · cases h
      · obtain ⟨w, -, h⟩ := orTrap_done h
        obtain ⟨gs, -, h⟩ := orTrap_done h
        cases h
    | jump l => exact absurd h jumpTo_done
    | jumpIf r l =>
      obtain ⟨w, -, h⟩ := orTrap_done h
      split at h
      · exact absurd h jumpTo_done
      · cases h
    | jumpIfNot r l =>
      obtain ⟨w, -, h⟩ := orTrap_done h
      split at h
      · cases h
      · exact absurd h jumpTo_done
    | call fi dst args =>
      change vm.callFunction f rest fi dst args = _ at h
      unfold callFunction at h
      split at h
      · cases h
      · split at h
        · cases h
        · obtain ⟨locals, -, h⟩ := orTrap_done h
          cases h
    | callFb slot fi args =>
      change vm.callFb f fi slot args func = _ at h
      unfold callFb at h
      split at h
      · cases h
      · split at h
        · cases h
        · obtain ⟨locals, -, h⟩ := orTrap_done h
          split at h <;> cases h
    | callMethod slot ci fi dst args =>
      change vm.callMethod f rest slot ci fi dst args = _ at h
      unfold callMethod at h
      split at h
      · obtain ⟨⟨ls, vm1⟩, -, h⟩ := orTrap_done h
        obtain ⟨locals, -, h⟩ := orTrap_done h
        split at h <;> cases h
      · cases h
    | derefStore ptr val =>
      obtain ⟨p, -, h⟩ := orTrap_done h
      obtain ⟨w, -, h⟩ := orTrap_done h
      unfold derefStore at h
      split at h
      · split at h
        · obtain ⟨gs, -, h⟩ := orTrap_done h
          cases h
        · split at h <;> cases h
      · cases h
    | storeArray slot idx val =>
      obtain ⟨raw, -, h⟩ := orTrap_done h
      obtain ⟨w, -, h⟩ := orTrap_done h
      obtain ⟨total, -, h⟩ := orTrap_done h
      obtain ⟨flat, -, h⟩ := orTrap_done h
      cases h
    | storeField slot field val =>
      obtain ⟨w, -, h⟩ := orTrap_done h
      cases h
    | storeFieldIndex slot off idx val =>
      obtain ⟨raw, -, h⟩ := orTrap_done h
      obtain ⟨flat, -, h⟩ := orTrap_done h
      obtain ⟨w, -, h⟩ := orTrap_done h
      obtain ⟨_, -, h⟩ := orTrap_done h
      cases h
    | _ => cases h

/-! ## One iteration -/

/-- What an iteration that goes on has executed. -/
theorem step_next (h : vm.step = .next vm') : ∃ f rest func, vm.callStack = f :: rest ∧
    vm.func? f.funcIndex = some func ∧
      (func.instructions[f.pc]? = none ∧ vm.fallOff rest = .next vm' ∨
        ∃ d i, func.instructions[f.pc]? = some i ∧
          (vm.advance d f rest).exec func { f with pc := f.pc + 1 } rest i = .next vm') := by
  have hcase := vm.stepCase
  generalize vm.nextInstr = next at hcase
  generalize vm.step = o at h hcase
  cases hcase with
  | idle _ => cases h
  | lost f rest _ _ => cases h
  | atEnd f rest func hstack hfunc hend =>
    exact ⟨f, rest, func, hstack, hfunc, .inl ⟨hend, h⟩⟩
  | paused d => cases h
  | limit f rest d _ => cases h
  | instr f rest func d i hstack hfunc hi =>
    exact ⟨f, rest, func, hstack, hfunc, .inr ⟨d, i, hi, h⟩⟩

/-- What an iteration that ends the run with a value has executed. -/
theorem step_done {v : Value} (h : vm.step = .halt (vm', .ok v)) : vm.callStack = [] ∨
    ∃ f rest func d i, vm.callStack = f :: rest ∧ vm.func? f.funcIndex = some func ∧
      func.instructions[f.pc]? = some i ∧
        (vm.advance d f rest).exec func { f with pc := f.pc + 1 } rest i = .halt (vm', .ok v) := by
  have hcase := vm.stepCase
  generalize vm.nextInstr = next at hcase
  generalize vm.step = o at h hcase
  cases hcase with
  | idle hstack => exact .inl hstack
  | lost f rest _ _ => cases h
  | atEnd f rest func _ _ _ =>
    unfold fallOff at h
    cases hto : returnTo .void rest with
    | error t =>
      rw [hto] at h
      cases h
    | ok rest' =>
      rw [hto] at h
      cases h
  | paused d => cases h
  | limit f rest d _ => cases h
  | instr f rest func d i hstack hfunc hi =>
    exact .inr ⟨f, rest, func, d, i, hstack, hfunc, hi, h⟩

/-! ## The module -/

/-- No iteration changes the module. -/
theorem step_module (vm : Vm) : (left vm.step).module = vm.module := by
  have heffect := vm.step_effect
  generalize vm.nextInstr = next at heffect
  generalize left vm.step = vm' at heffect ⊢
  cases heffect with
  | idle => rfl
  | paused d => rfl
  | limit f rest d hstack => rfl
  | atEnd f rest rest' hstack h => exact (saveRetainedLocals_setup vm).module
  | instr f rest func d i vm' hstack hfunc hi h => exact h.setup.module

end

end Vm

end RustPlc.Engine
