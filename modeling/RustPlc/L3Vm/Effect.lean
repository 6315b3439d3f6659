import RustPlc.L3Vm.Step

/-!
# What one step can change

The inversion of `Vm.exec` and `Vm.step`. `Vm.Effect` lists every change an
instruction can make to the machine, with the values it writes and where;
`Vm.StepEffect` adds the iterations of the loop that execute no instruction.
An invariant of the machine is proved by cases on these, never by unfolding
the interpreter.

Results:
* `exec_effect`: an instruction leaves what `Effect` says;
* `step_effect`: an iteration leaves what `StepEffect` says;
* `Effect.setup`: no instruction changes the program, the forces, the clock or
  the counter.
-/
namespace RustPlc.Engine

open RustPlc.Ir RustPlc.Core

/-- The machine an iteration leaves, whether or not the loop goes on. -/
def left : Outcome Vm Stop → Vm
  | .next vm => vm
  | .halt (vm, _) => vm

@[simp] theorem left_next (vm : Vm) : left (.next vm) = vm := rfl
@[simp] theorem left_halt (vm : Vm) (r : Except Trap Value) : left (.halt (vm, r)) = vm := rfl
@[simp] theorem left_trap (vm : Vm) (t : Trap) : left (vm.trap t) = vm := rfl

theorem forall₂_append_split {α β : Type} {R : α → β → Prop} :
    ∀ {xs ys : List α} {zs : List β}, List.Forall₂ R (xs ++ ys) zs →
      ∃ us vs, zs = us ++ vs ∧ List.Forall₂ R xs us ∧ List.Forall₂ R ys vs
  | [], ys, zs, h => ⟨[], zs, rfl, .nil, h⟩
  | x :: xs, ys, _, .cons hx h => by
    obtain ⟨us, vs, rfl, h1, h2⟩ := forall₂_append_split h
    exact ⟨_ :: us, vs, rfl, .cons hx h1, h2⟩

/-- Two frames that differ in registers, counter and waiting register only. -/
structure CallFrame.Alike (f g : CallFrame) : Prop where
  funcIndex : g.funcIndex = f.funcIndex
  locals : g.locals = f.locals
  instanceSlot : g.instanceSlot = f.instanceSlot

theorem CallFrame.Alike.refl (f : CallFrame) : f.Alike f := ⟨rfl, rfl, rfl⟩

theorem alike_regSet {f g : CallFrame} {r : Reg} {v : Value} (h : f.regSet r v = .ok g) :
    f.Alike g := by
  unfold CallFrame.regSet at h
  cases hx : indexSet f.registers r.toNat v with
  | error t => simp [hx, Except.map] at h
  | ok rs =>
    simp only [hx, Except.map, Except.ok.injEq] at h
    subst h
    exact ⟨rfl, rfl, rfl⟩

/-- A caller that takes a value keeps everything but registers. -/
theorem alike_returnTo {v : Value} {rest rest' : List CallFrame}
    (h : Vm.returnTo v rest = .ok rest') : List.Forall₂ CallFrame.Alike rest rest' := by
  cases rest with
  | nil =>
    simp only [Vm.returnTo, Except.ok.injEq] at h
    subst h
    exact .nil
  | cons c cs =>
    have hcs := List.forall₂_same.mpr fun x (_ : x ∈ cs) => CallFrame.Alike.refl x
    unfold Vm.returnTo at h
    cases hr : c.returnReg with
    | none =>
      simp only [hr, Except.ok.injEq] at h
      subst h
      exact .cons (.refl c) hcs
    | some r =>
      simp only [hr] at h
      cases hx : c.regSet r v with
      | error t => simp [hx, Except.map] at h
      | ok c' =>
        simp only [hx, Except.map, Except.ok.injEq] at h
        subst h
        have := alike_regSet hx
        exact .cons ⟨this.funcIndex, this.locals, this.instanceSlot⟩ hcs

namespace Vm

/-- What an instruction of the running frame `f` of `func` can leave behind. -/
inductive Effect (vm : Vm) (func : Function) (f : CallFrame) (rest : List CallFrame) :
    Instruction → Vm → Prop where
  | none (i) : Effect vm func f rest i vm
  | frame (i g) (h : f.Alike g) : Effect vm func f rest i (vm.withStack (g :: rest))
  | storeLocal (slot src v) (hv : f.regGet src = .ok v) :
    Effect vm func f rest (.storeLocal slot src) (vm.withStack
      ({ f with
        locals := f.locals.set slot.toNat (narrowValue v (slotWidth func.locals slot)) } :: rest))
  | storeGlobal (slot src v) (hv : f.regGet src = .ok v) (hf : slot ∉ vm.forcedGlobalSlots) :
    Effect vm func f rest (.storeGlobal slot src) { vm with
      globals := vm.globals.set slot.toNat (narrowValue v (slotWidth vm.module.globals slot)) }
  | storeArray (slot idx val v total flat) (hv : f.regGet val = .ok v) :
    Effect vm func f rest (.storeArray slot idx val) (vm.putInstance (vm.instanceKey slot)
      (((Finmap.lookup (vm.instanceKey slot) vm.fbInstances).getD
        (List.replicate total Value.dflt)).set flat v))
  | storeField (slot field val v) (hv : f.regGet val = .ok v) :
    Effect vm func f rest (.storeField slot field val)
      (vm.instanceSet (vm.instanceKey slot) field.toNat v)
  | storeFieldIndex (slot off idx val v flat) (hv : f.regGet val = .ok v) :
    Effect vm func f rest (.storeFieldIndex slot off idx val)
      (vm.instanceSet (vm.instanceKey slot) flat v)
  | derefGlobal (ptr val) (tag slot : UInt16) (v) (hp : f.regGet ptr = .ok (.ref tag slot))
      (htag : tag = 0 ∨ tag = 1) (hv : f.regGet val = .ok v) :
    Effect vm func f rest (.derefStore ptr val) { vm with
      globals := vm.globals.set slot.toNat v }
  | derefFrame (ptr val) (tag slot : UInt16) (v) (hp : f.regGet ptr = .ok (.ref tag slot))
      (hv : f.regGet val = .ok v) (htag : tag ≠ 0 ∧ tag ≠ 1) :
    Effect vm func f rest (.derefStore ptr val)
      (vm.modifyFrameAt (tag - 2).toNat fun fr => { fr with locals := fr.locals.set slot.toNat v })
  | call (fi dst args callee locals) (hc : vm.func? fi = some callee)
      (hb : bindArgs f 0 args callee.locals.defaults = .ok locals) :
    Effect vm func f rest (.call fi dst args) (vm.withStack
      (CallFrame.enter fi callee locals 0 .none :: { f with returnReg := some dst } :: rest))
  | callFb (slot fi args callee locals) (hc : vm.func? fi = some callee)
      (hb : bindArgs f 0 args (vm.instanceLocals (vm.instanceKey slot) fi callee) = .ok locals) :
    Effect vm func f rest (.callFb slot fi args) (vm.withStack
      (CallFrame.enter fi callee locals callee.bodyStartPc (some slot) :: vm.callStack))
  | native (slot fi args callee locals) (hn : fi ∈ vm.module.nativeFbIndices)
      (hc : vm.func? fi = some callee)
      (hb : bindArgs f 0 args (vm.instanceLocals (vm.instanceKey slot) fi callee) = .ok locals) :
    Effect vm func f rest (.callFb slot fi args)
      { vm.putInstance (vm.instanceKey slot) (vm.applyNativeForces func callee slot
          (vm.nativeExecute callee.name locals)) with nativeCalls := vm.nativeCalls + 1 }
  | methodInit (slot ci fi dst args cls state) (hc : vm.func? ci = some cls)
      (hnone : Finmap.lookup (vm.instanceKey slot) vm.fbInstances = .none)
      (hi : initClassInstance cls (List.replicate cls.locals.slots.length Value.dflt)
        cls.locals.slots.length = .ok state) :
    Effect vm func f rest (.callMethod slot ci fi dst args)
      (vm.putInstance (vm.instanceKey slot) state)
  | method (slot ci fi dst args method cls count ls locals vm1) (hm : vm.func? fi = some method)
      (hc : vm.func? ci = some cls)
      (hs : vm.methodState (vm.instanceKey slot) cls count method.locals.defaults = .ok (ls, vm1))
      (hb : bindArgs f count args ls = .ok locals) :
    Effect vm func f rest (.callMethod slot ci fi dst args) (vm1.withStack
      (CallFrame.enter fi method locals 0 (some slot) :: { f with returnReg := some dst } :: rest))
  | ret (r rest') (h : List.Forall₂ CallFrame.Alike rest rest') :
    Effect vm func f rest (.ret r) (vm.saveRetainedLocals.withStack rest')
  | retVoid (rest') (h : List.Forall₂ CallFrame.Alike rest rest') :
    Effect vm func f rest .retVoid (vm.saveRetainedLocals.withStack rest')

section

variable {vm : Vm} {func : Function} {f : CallFrame} {rest : List CallFrame} {i : Instruction}

/-- A trap leaves the machine as it is. -/
theorem orTrap_effect {α : Type} {x : Except Trap α} {k : α → Outcome Vm Stop}
    (h : ∀ a, x = .ok a → Effect vm func f rest i (left (k a))) :
    Effect vm func f rest i (left (vm.orTrap x k)) := by
  cases x with
  | error t => exact .none i
  | ok a => exact h a rfl

theorem indexSet_ok {α : Type} {xs ys : List α} {n : Nat} {x : α}
    (h : indexSet xs n x = .ok ys) : ys = xs.set n x := by
  unfold indexSet at h
  split at h
  · exact (Except.ok.inj h).symm
  · cases h

theorem jumpTo_effect (label : Label) : Effect vm func f rest i (left (vm.jumpTo func f rest label)) := by
  unfold jumpTo
  cases func.labelPositions[label.toNat]? with
  | none => exact .none i
  | some target => exact .frame i _ ⟨rfl, rfl, rfl⟩

theorem derefStore_effect (ptr val : Reg) (p v : Value) (hp : f.regGet ptr = .ok p)
    (hv : f.regGet val = .ok v) :
    Effect vm func f rest (.derefStore ptr val) (left (vm.derefStore p v)) := by
  unfold derefStore
  split
  · next tag slot =>
    by_cases h0 : tag = 0
    · rw [if_pos h0]
      refine orTrap_effect fun gs hgs => ?_
      rw [indexSet_ok hgs]
      exact .derefGlobal ptr val tag slot v hp (.inl h0) hv
    · rw [if_neg h0]
      by_cases h1 : tag = 1
      · rw [if_pos h1]
        exact .derefGlobal ptr val tag slot v hp (.inr h1) hv
      · rw [if_neg h1]
        exact .derefFrame ptr val tag slot v hp hv ⟨h0, h1⟩
  · exact .none _

theorem callFunction_effect (fi : UInt16) (dst : Reg) (args : List (UInt16 × Reg)) :
    Effect vm func f rest (.call fi dst args) (left (vm.callFunction f rest fi dst args)) := by
  unfold callFunction
  split
  · exact .none _
  · cases hc : vm.func? fi with
    | none => exact .none _
    | some callee => exact orTrap_effect fun locals hb => .call fi dst args callee locals hc hb

theorem callFb_effect (slot fi : UInt16) (args : List (UInt16 × Reg)) :
    Effect vm func f rest (.callFb slot fi args) (left (vm.callFb f fi slot args func)) := by
  unfold callFb
  split
  · exact .none _
  · cases hc : vm.func? fi with
    | none => exact .none _
    | some callee =>
      refine orTrap_effect fun locals hb => ?_
      split
      · next hn => exact .native slot fi args callee locals hn hc hb
      · exact .callFb slot fi args callee locals hc hb

theorem callMethod_effect (slot ci fi : UInt16) (dst : Reg) (args : List (UInt16 × Reg)) :
    Effect vm func f rest (.callMethod slot ci fi dst args)
      (left (vm.callMethod f rest slot ci fi dst args)) := by
  unfold callMethod
  split
  · next method cls count hm hc hcount =>
    refine orTrap_effect ?_
    rintro ⟨ls, vm1⟩ hs
    -- a failure after the instance is recorded leaves it recorded
    have hinit : Effect vm func f rest (.callMethod slot ci fi dst args) vm1 := by
      unfold methodState at hs
      cases hl : Finmap.lookup (vm.instanceKey slot) vm.fbInstances with
      | some saved =>
        simp only [hl, Except.ok.injEq, Prod.mk.injEq] at hs
        exact hs.2 ▸ .none _
      | none =>
        simp only [hl] at hs
        cases hx : initClassInstance cls (List.replicate cls.locals.slots.length Value.dflt)
            cls.locals.slots.length with
        | error t => simp [hx, bind, Except.bind] at hs
        | ok state =>
          simp only [hx, bind, Except.bind, pure, Except.pure, Except.ok.injEq,
            Prod.mk.injEq] at hs
          exact hs.2 ▸ .methodInit slot ci fi dst args cls state hc hl hx
    cases hb : bindArgs f count args ls with
    | error t =>
      simp only [hb]
      exact hinit
    | ok locals =>
      simp only [hb, orTrap]
      split
      · exact hinit
      · exact .method slot ci fi dst args method cls count ls locals vm1 hm hc hs hb
  · exact .none _

theorem retVoid_effect (h : i = .retVoid) : Effect vm func f rest i (left (vm.retVoid rest)) := by
  subst h
  unfold retVoid
  cases rest with
  | nil => exact .retVoid [] .nil
  | cons c cs =>
    exact .retVoid _ (.cons ⟨rfl, rfl, rfl⟩ (List.forall₂_same.mpr fun x _ => .refl x))

theorem ret_effect (r : Reg) : Effect vm func f rest (.ret r) (left (vm.ret f rest r)) := by
  refine orTrap_effect fun v _ => ?_
  cases hr : returnTo v rest with
  | error t =>
    simp only [orTrap]
    exact .ret r rest (List.forall₂_same.mpr fun x _ => .refl x)
  | ok rest' =>
    simp only [orTrap]
    split
    · exact .ret r rest (List.forall₂_same.mpr fun x _ => .refl x)
    · exact .ret r rest' (alike_returnTo hr)

variable [F64Ops]

theorem storeArray_effect (slot : UInt16) (idx val : Reg) :
    Effect vm func f rest (.storeArray slot idx val) (left (vm.storeArray func f slot idx val)) := by
  refine orTrap_effect fun raw _ => orTrap_effect fun v hv => orTrap_effect fun total _ => ?_
  exact orTrap_effect fun flat _ => .storeArray slot idx val v total flat hv

theorem storeFieldIndex_effect (slot off : UInt16) (idx val : Reg) :
    Effect vm func f rest (.storeFieldIndex slot off idx val)
      (left (vm.storeFieldIndex f slot off idx val)) := by
  refine orTrap_effect fun raw _ => orTrap_effect fun flat _ => orTrap_effect fun v hv => ?_
  exact orTrap_effect fun _ _ => .storeFieldIndex slot off idx val v flat hv

theorem control_effect (vm : Vm) (func : Function) (f : CallFrame) (rest : List CallFrame)
    (i : Instruction) : Effect vm func f rest i (left (vm.control func f rest i)) := by
  cases i with
  | storeLocal slot src =>
    refine orTrap_effect fun v hv => orTrap_effect fun f' hf' => ?_
    unfold localSet at hf'
    cases hx : indexSet f.locals slot.toNat (narrowValue v (slotWidth func.locals slot)) with
    | error t => simp [hx, Except.map] at hf'
    | ok ls =>
      simp only [hx, Except.map, Except.ok.injEq] at hf'
      rw [← hf', indexSet_ok hx]
      exact .storeLocal slot src v hv
  | storeGlobal slot src =>
    show Effect vm func f rest _ (left (vm.storeGlobal f slot src))
    unfold storeGlobal
    split
    · exact .none _
    · next hforced =>
      refine orTrap_effect fun v hv => orTrap_effect fun gs hgs => ?_
      rw [indexSet_ok hgs]
      exact .storeGlobal slot src v hv hforced
  | jump l => exact jumpTo_effect l
  | jumpIf r l =>
    refine orTrap_effect fun v _ => ?_
    split
    · exact jumpTo_effect l
    · exact .none _
  | jumpIfNot r l =>
    refine orTrap_effect fun v _ => ?_
    split
    · exact .none _
    · exact jumpTo_effect l
  | call fi dst args => exact callFunction_effect fi dst args
  | callFb slot fi args => exact callFb_effect slot fi args
  | callMethod slot ci fi dst args => exact callMethod_effect slot ci fi dst args
  | ret r => exact ret_effect r
  | retVoid => exact retVoid_effect rfl
  | derefStore ptr val =>
    exact orTrap_effect fun p hp => orTrap_effect fun v hv => derefStore_effect ptr val p v hp hv
  | storeArray slot idx val => exact storeArray_effect slot idx val
  | storeField slot field val => exact orTrap_effect fun v hv => .storeField slot field val v hv
  | storeFieldIndex slot off idx val => exact storeFieldIndex_effect slot off idx val
  | _ => exact .none _

/-- **An instruction leaves what `Effect` says.** -/
theorem exec_effect (vm : Vm) (func : Function) (f : CallFrame) (rest : List CallFrame)
    (i : Instruction) : Effect vm func f rest i (left (vm.exec func f rest i)) := by
  unfold exec
  cases vm.compute func f i with
  | none => exact control_effect vm func f rest i
  | some p =>
    exact orTrap_effect fun v _ => orTrap_effect fun f' hf' => .frame i f' (alike_regSet hf')

/-- What one iteration of the loop can leave behind. -/
inductive StepEffect (vm : Vm) : Option Instruction → Vm → Prop where
  | idle : StepEffect vm none vm
  | paused (d : DebugState) : StepEffect vm none (vm.withDebug d)
  | limit (f rest d) (hstack : vm.callStack = f :: rest) :
    StepEffect vm none (vm.advance d f rest)
  | atEnd (f rest rest') (hstack : vm.callStack = f :: rest)
      (h : List.Forall₂ CallFrame.Alike rest rest') :
    StepEffect vm none (vm.saveRetainedLocals.withStack rest')
  | instr (f rest func d i vm') (hstack : vm.callStack = f :: rest)
      (hfunc : vm.func? f.funcIndex = some func) (hi : func.instructions[f.pc]? = some i)
      (h : Effect (vm.advance d f rest) func { f with pc := f.pc + 1 } rest i vm') :
    StepEffect vm (some i) vm'

/-- **An iteration leaves what `StepEffect` says.** -/
theorem step_effect (vm : Vm) : StepEffect vm vm.nextInstr (left vm.step) := by
  have hcase := vm.stepCase
  generalize vm.nextInstr = next at hcase ⊢
  generalize vm.step = o at hcase ⊢
  cases hcase with
  | idle _ => exact .idle
  | lost f rest hstack hfunc => exact .idle
  | atEnd f rest func hstack _ _ =>
    unfold fallOff
    cases hr : returnTo .void rest with
    | error t =>
      exact .atEnd f rest rest hstack (List.forall₂_same.mpr fun x _ => .refl x)
    | ok rest' => exact .atEnd f rest rest' hstack (alike_returnTo hr)
  | paused d => exact .paused d
  | limit f rest d hstack => exact .limit f rest d hstack
  | instr f rest func d i hstack hfunc hi =>
    exact .instr f rest func d i _ hstack hfunc hi (exec_effect _ _ _ _ _)

/-! ## What no instruction changes -/

/-- The same program and configuration, with the same forces, debugger, clock
and counter. -/
structure SameSetup (vm vm' : Vm) : Prop where
  config : vm'.config = vm.config
  module : vm'.module = vm.module
  forcedVariables : vm'.forcedVariables = vm.forcedVariables
  forcedGlobalSlots : vm'.forcedGlobalSlots = vm.forcedGlobalSlots
  debug : vm'.debug = vm.debug
  elapsedTimeMs : vm'.elapsedTimeMs = vm.elapsedTimeMs
  instructionCount : vm'.instructionCount = vm.instructionCount

omit [F64Ops] in
theorem saveRetainedLocals_setup (vm : Vm) : vm.SameSetup vm.saveRetainedLocals := by
  obtain ⟨retained, instances, h⟩ := vm.saveRetainedLocals_eq
  rw [h]
  exact ⟨rfl, rfl, rfl, rfl, rfl, rfl, rfl⟩

omit [F64Ops] in
theorem Effect.setup {vm' : Vm} (h : Effect vm func f rest i vm') : vm.SameSetup vm' := by
  cases h with
  | method slot ci fi dst args method cls count ls locals vm1 hm hc hs hb =>
    obtain ⟨instances, rfl⟩ := methodState_eq hs
    exact ⟨rfl, rfl, rfl, rfl, rfl, rfl, rfl⟩
  | ret r rest' h =>
    obtain ⟨h1, h2, h3, h4, h5, h6, h7⟩ := saveRetainedLocals_setup vm
    exact ⟨h1, h2, h3, h4, h5, h6, h7⟩
  | retVoid rest' h =>
    obtain ⟨h1, h2, h3, h4, h5, h6, h7⟩ := saveRetainedLocals_setup vm
    exact ⟨h1, h2, h3, h4, h5, h6, h7⟩
  | _ => exact ⟨rfl, rfl, rfl, rfl, rfl, rfl, rfl⟩

end

end Vm

end RustPlc.Engine
