import RustPlc.Core.Lts
import RustPlc.L2Compiler.Leaving
import RustPlc.L3Vm.Places

/-!
# The value a function delivers

An activation of a function or a method with a result starts when its frame is
pushed and ends when that frame is popped. In between the machine makes any
number of steps, in the frame itself or in the callees above it, and a pause may
change the state of the debugger.

At a `Ret` the register holds what the instruction before it has loaded: the
variable of the result at the end of the body, but the constant 0 at a `RETURN`.

Results:
* `Inside.step`: what every step of an activation keeps;
* `result_delivered_iff`: when the value delivered is the value of the variable
  named like the function.
-/
namespace RustPlc.Agree

open RustPlc.Core RustPlc.Ir RustPlc.Syntax RustPlc.Compiler RustPlc.Engine

/-! ## Activations -/

inductive ActivationEvent where
  | tick
  | host (d : DebugState) (elapsedTimeMs : Int64) (instructionCount : Nat)

/-- The machine has just entered function `i`, above `depth` other frames. -/
structure Entered (i : UInt16) (F : Function) (depth : Nat) (vm : Vm) : Prop where
  func : vm.func? i = some F
  frame : ∃ locals inst rest, vm.callStack = CallFrame.enter i F locals 0 inst :: rest ∧
    rest.length = depth

/-- What a read of a local variable gives: the force on its name, or what is stored. -/
def readLocal (vm : Vm) (F : Function) (f : CallFrame) (slot : UInt16) : Except Trap Value :=
  vm.overlay F.locals slot (f.localGet slot)

section

variable [F64Ops]

/-- One step inside an activation above `depth` frames: an iteration that does not
end it, or what the host does to the debugger and the clocks at a pause. -/
def activationStep (depth : Nat) (vm : Vm) : ActivationEvent → Option Vm
  | .tick => match vm.step with
    | .next vm' => if depth < vm'.callStack.length then some vm' else none
    | .halt _ => none
  | .host d t n => some { vm with debug := d, elapsedTimeMs := t, instructionCount := n }

def activation (i : UInt16) (F : Function) (depth : Nat) : Lts Vm ActivationEvent :=
  .ofFun (Entered i F depth) (activationStep depth)

/-- The next iteration hands `v` over: to the waiting register of the caller, or to
the host as the result of the run. -/
inductive Delivers (vm : Vm) (v : Value) : Prop where
  | caller {f c c' cs r vm'} (stack : vm.callStack = f :: c :: cs) (waiting : c.returnReg = some r)
    (step : vm.step = .next vm') (popped : vm'.callStack = c' :: cs) (got : c'.regGet r = .ok v)
  | host {f vm'} (stack : vm.callStack = [f]) (step : vm.step = .halt (vm', .ok v))

end

/-! ## What the register of a `Ret` holds -/

/-- If the frame is at a `Ret`, the register holds what was loaded before it. -/
structure Loaded (F : Function) (vm : Vm) (g : CallFrame) : Prop where
  epilogue : ∀ r, F.instructions[g.pc]? = some (.ret r) → g.pc + 1 = F.instructions.length →
    g.regGet r = readLocal vm F g (epilogueSlot F)
  zero : ∀ r, F.instructions[g.pc]? = some (.ret r) → g.pc + 1 < F.instructions.length →
    g.regGet r = .ok (.int 0)

theorem Loaded.of_notRet {F : Function} {vm : Vm} {g : CallFrame}
    (h : ∀ r, F.instructions[g.pc]? ≠ some (.ret r)) : Loaded F vm g :=
  ⟨fun r hr => absurd hr (h r), fun r hr => absurd hr (h r)⟩

/-- The frame of the activation is on the stack, inside its code, and not at a `Ret`
while it waits for a callee. -/
structure Inside (i : UInt16) (F : Function) (depth : Nat) (vm : Vm) : Prop where
  func : vm.func? i = some F
  frame : ∃ above g below, vm.callStack = above ++ g :: below ∧ below.length = depth ∧
    g.funcIndex = i ∧ g.pc < F.instructions.length ∧ (above = [] → Loaded F vm g) ∧
      (above ≠ [] → ∀ r, F.instructions[g.pc]? ≠ some (.ret r))

/-- One frame in the middle of a stack whose frames stay where they are. -/
theorem samePlace_split {above : List CallFrame} {g : CallFrame} {below stack : List CallFrame}
    (h : List.Forall₂ CallFrame.SamePlace (above ++ g :: below) stack) :
    ∃ above' g' below', stack = above' ++ g' :: below' ∧ g.SamePlace g' ∧
      below'.length = below.length ∧ (above' = [] → above = []) := by
  induction above generalizing stack with
  | nil =>
    cases h with
    | cons hg hrest => exact ⟨[], _, _, rfl, hg, hrest.length_eq.symm, fun _ => rfl⟩
  | cons a above ih =>
    cases h with
    | cons ha hrest =>
      obtain ⟨above', g', below', rfl, hg, hlen, -⟩ := ih hrest
      exact ⟨_ :: above', g', below', rfl, hg, hlen, fun hc => by simp at hc⟩

namespace Inside

variable {i : UInt16} {F : Function} {depth : Nat} {vm vm' : Vm}

/-- The activation waits, and the frames above it or the values in it change. -/
theorem waits (above : List CallFrame) (g : CallFrame) {below stack : List CallFrame} (hfunc : vm'.func? i = some F) (hlen : below.length = depth)
    (hindex : g.funcIndex = i) (hpc : g.pc < F.instructions.length)
    (hret : ∀ r, F.instructions[g.pc]? ≠ some (.ret r))
    (hsame : List.Forall₂ CallFrame.SamePlace (above ++ g :: below) stack)
    (pushed : List CallFrame) (hstack : vm'.callStack = pushed ++ stack) :
    Inside i F depth vm' := by
  obtain ⟨above', g', below', rfl, hg, hlen', -⟩ := samePlace_split hsame
  have hret' : ∀ r, F.instructions[g'.pc]? ≠ some (.ret r) := by
    rw [hg.pc]
    exact hret
  refine ⟨hfunc, pushed ++ above', g', below', ?_, hlen'.trans hlen, hg.funcIndex.trans hindex,
    ?_, fun _ => .of_notRet hret', fun _ => hret'⟩
  · rw [hstack, List.append_assoc]
  · rw [hg.pc]
    exact hpc

end Inside

/-! ## Steps -/

section

variable [F64Ops] {i : UInt16} {F : Function} {depth : Nat} {vm vm' : Vm}

/-- An instruction that loads a register. -/
theorem exec_load {f : CallFrame} {rest : List CallFrame} {instr : Instruction} {dst : Reg}
    {x : Except Trap Value} (hc : vm.compute F f instr = some (dst, x))
    (h : vm.exec F f rest instr = .next vm') :
    ∃ v g, x = .ok v ∧ f.regSet dst v = .ok g ∧ vm' = vm.withStack (g :: rest) := by
  unfold Vm.exec at h
  rw [hc] at h
  obtain ⟨v, hx, h⟩ := Vm.orTrap_next h
  obtain ⟨g, hg, h⟩ := Vm.orTrap_next h
  cases h
  exact ⟨v, g, hx, hg, rfl⟩

/-- The instruction before a `Ret` has loaded what the `Ret` hands over. -/
theorem loaded_next (hF : LeftBy F (epilogueSlot F)) {f : CallFrame} {rest : List CallFrame}
    {d : DebugState} {instr : Instruction} (hi : F.instructions[f.pc]? = some instr) {r : Reg}
    (hr : F.instructions[f.pc + 1]? = some (.ret r))
    (h : (vm.advance d f rest).exec F { f with pc := f.pc + 1 } rest instr = .next vm') :
    ∃ g, vm'.callStack = g :: rest ∧ g.funcIndex = f.funcIndex ∧ g.pc = f.pc + 1 ∧
      Loaded F vm' g := by
  have hlt := (List.getElem?_eq_some_iff.mp hr).1
  by_cases hend : f.pc + 2 = F.instructions.length
  · -- the two last instructions
    obtain ⟨q, r', hlen, hload, hret⟩ := hF.last
    obtain rfl : q = f.pc := by omega
    rw [hload] at hi
    obtain rfl := Option.some.inj hi
    obtain rfl : r' = r := by
      rw [hret] at hr
      simpa using hr
    obtain ⟨v, g, hv, hg, rfl⟩ := exec_load rfl h
    have hsame := samePlace_regSet hg
    refine ⟨g, rfl, hsame.funcIndex, hsame.pc, ?_, ?_⟩
    · intro r hr' _
      rw [hsame.pc, hret] at hr'
      cases hr'
      rw [regGet_regSet hg, ← hv]
      unfold readLocal CallFrame.localGet
      rw [(alike_regSet hg).locals]
      rfl
    · intro r _ hlt'
      rw [hsame.pc] at hlt'
      simp only at hlt'
      omega
  · -- a `RETURN`
    obtain ⟨q, hq, hload⟩ := hF.loaded _ r hr (by omega)
    obtain rfl : f.pc = q := by omega
    rw [hload] at hi
    obtain rfl := Option.some.inj hi
    obtain ⟨v, g, hv, hg, rfl⟩ := exec_load rfl h
    cases hv
    have hsame := samePlace_regSet hg
    refine ⟨g, rfl, hsame.funcIndex, hsame.pc, ?_, ?_⟩
    · intro r' _ hend'
      rw [hsame.pc] at hend'
      simp only at hend'
      omega
    · intro r' hr' _
      rw [hsame.pc] at hr'
      simp only [hr, Option.some.injEq, Instruction.ret.injEq] at hr'
      subst hr'
      exact regGet_regSet hg

/-- The frame of the activation is the running one, and does not end. -/
theorem Inside.runs (hF : LeftBy F (epilogueSlot F)) (hfunc : vm'.func? i = some F) {f : CallFrame}
    {rest : List CallFrame} {d : DebugState} {instr : Instruction} (hindex : f.funcIndex = i)
    (hlen : rest.length = depth) (hi : F.instructions[f.pc]? = some instr)
    (hret : ∀ r, instr ≠ .ret r) (hvoid : instr ≠ .retVoid)
    (h : (vm.advance d f rest).exec F { f with pc := f.pc + 1 } rest instr = .next vm') :
    Inside i F depth vm' := by
  have hlt := (List.getElem?_eq_some_iff.mp hi).1
  -- the last instruction is a `Ret`
  have hnext : f.pc + 1 < F.instructions.length := by
    obtain ⟨q, r, hlen, -, hlast⟩ := hF.last
    by_contra hge
    rw [show f.pc = q + 1 by omega, hlast] at hi
    exact hret r (Option.some.inj hi).symm
  by_cases hr : ∃ r, F.instructions[f.pc + 1]? = some (.ret r)
  · obtain ⟨r, hr⟩ := hr
    obtain ⟨g, hstack, hg, hpc, hloaded⟩ := loaded_next hF hi hr h
    refine ⟨hfunc, [], g, rest, hstack, hlen, hg.trans hindex, ?_, fun _ => hloaded,
      fun hc => absurd rfl hc⟩
    rw [hpc]
    exact hnext
  · have hno : ∀ r, F.instructions[f.pc + 1]? ≠ some (.ret r) := fun r hc => hr ⟨r, hc⟩
    have hgoes := Vm.exec_goes (vm.advance_callStack d f rest) hret hvoid h
    generalize hs : vm'.callStack = stack at hgoes
    cases hgoes with
    | on hg hrest =>
      exact Inside.waits [] { f with pc := f.pc + 1 } hfunc hlen hindex hnext hno (.cons hg hrest) [] hs
    | calls hg =>
      exact Inside.waits [] { f with pc := f.pc + 1 } hfunc hlen hindex hnext hno
        (.cons hg (samePlace_refl rest)) [_] hs
    | jumps hg hpc =>
      obtain ⟨hin, havoid⟩ := hF.jumps _ hpc
      refine ⟨hfunc, [], _, rest, hs, hlen, hg.trans hindex, by omega, fun _ => .of_notRet havoid,
        fun hc => absurd rfl hc⟩

/-- **Every step inside an activation keeps it.** -/
theorem Inside.step (hF : LeftBy F (epilogueSlot F)) (h : Inside i F depth vm)
    (hstep : vm.step = .next vm') (hin : depth < vm'.callStack.length) : Inside i F depth vm' := by
  obtain ⟨hfunc, above, g, below, hstack, hlen, hindex, hpc, hloaded, hwait⟩ := h
  have hfunc' : vm'.func? i = some F := by
    have hm := vm.step_module
    rw [hstep] at hm
    rw [Vm.func?, show vm'.module = vm.module from hm]
    exact hfunc
  obtain ⟨f, rest, func, hs, hf, hcase⟩ := Vm.step_next hstep
  rw [hs] at hstack
  cases above with
  | nil =>
    obtain ⟨rfl, rfl⟩ := List.cons.inj hstack
    rw [hindex, hfunc] at hf
    obtain rfl := Option.some.inj hf
    rcases hcase with ⟨hend, -⟩ | ⟨d, instr, hi, hexec⟩
    · rw [List.getElem?_eq_none_iff] at hend
      omega
    · -- the end of the activation would leave `depth` frames
      have hret : ∀ r, instr ≠ .ret r := by
        rintro r rfl
        obtain ⟨v, -, hto⟩ := Vm.ret_pops hexec
        have := (samePlace_returnTo hto).length_eq
        omega
      have hvoid : instr ≠ .retVoid := by
        rintro rfl
        have := (Vm.retVoid_pops hexec).length_eq
        omega
      exact Inside.runs hF hfunc' hindex hlen hi hret hvoid hexec
  | cons a above =>
    obtain ⟨rfl, rfl⟩ := List.cons.inj hstack
    have hret := hwait (by simp)
    rcases hcase with ⟨-, hoff⟩ | ⟨d, instr, hi, hexec⟩
    · exact Inside.waits above g hfunc' hlen hindex hpc hret (Vm.fallOff_pops hoff) [] rfl
    · by_cases hr : ∃ r, instr = .ret r
      · obtain ⟨r, rfl⟩ := hr
        obtain ⟨v, -, hto⟩ := Vm.ret_pops hexec
        exact Inside.waits above g hfunc' hlen hindex hpc hret (samePlace_returnTo hto) [] rfl
      by_cases hv : instr = .retVoid
      · subst hv
        exact Inside.waits above g hfunc' hlen hindex hpc hret (Vm.retVoid_pops hexec) [] rfl
      have hgoes := Vm.exec_goes (vm.advance_callStack d f (above ++ g :: below))
        (fun r hc => hr ⟨r, hc⟩) hv hexec
      generalize hs' : vm'.callStack = stack at hgoes
      cases hgoes with
      | on hg hrest => exact Inside.waits above g hfunc' hlen hindex hpc hret hrest [_] hs'
      | jumps hg hpc' =>
        exact Inside.waits above g hfunc' hlen hindex hpc hret (samePlace_refl _) [_] hs'
      | calls hg => exact Inside.waits above g hfunc' hlen hindex hpc hret (samePlace_refl _) [_, _] hs'

/-- Every state of an activation. -/
theorem activation_inside (hF : LeftBy F (epilogueSlot F))
    (h : (activation i F depth).Reachable vm) : Inside i F depth vm := by
  refine h.inv ?_ ?_
  · intro s hs
    obtain ⟨hfunc, locals, inst, rest, hstack, hlen⟩ := hs
    obtain ⟨q, r, hlength, -, -⟩ := hF.last
    refine ⟨hfunc, [], _, rest, hstack, hlen, rfl, ?_, fun _ => .of_notRet ?_,
      fun hc => absurd rfl hc⟩
    · simp only [CallFrame.enter]
      omega
    · -- a `Ret` has an instruction before it
      intro r hr
      have hr0 : F.instructions[0]? = some (.ret r) := hr
      obtain ⟨q, hq, -⟩ := hF.loaded 0 r hr0 (by omega)
      omega
  · intro s a t hs hstep
    cases a with
    | tick =>
      simp only [activation, Lts.ofFun, activationStep] at hstep
      split at hstep
      · next vm' hvm' =>
        split at hstep
        · next hin =>
          obtain rfl := Option.some.inj hstep
          exact hs.step hF hvm' hin
        · cases hstep
      · cases hstep
    | host d t n =>
      obtain rfl := Option.some.inj hstep
      obtain ⟨hfunc, above, g, below, hstack, hlen, hindex, hpc, hloaded, hwait⟩ := hs
      exact ⟨hfunc, above, g, below, hstack, hlen, hindex, hpc,
        fun ha => ⟨(hloaded ha).epilogue, (hloaded ha).zero⟩, hwait⟩

/-! ## The end of an activation -/

/-- The iteration that delivers a value executes a `Ret`, and delivers its register. -/
theorem Inside.delivers (hF : LeftBy F (epilogueSlot F)) (h : Inside i F depth vm)
    {f : CallFrame} {rest : List CallFrame} (hstack : vm.callStack = f :: rest)
    (hend : rest.length = depth) {v : Value} (hv : Delivers vm v) :
    Loaded F vm f ∧ f.pc < F.instructions.length ∧
      ∃ r, F.instructions[f.pc]? = some (.ret r) ∧ f.regGet r = .ok v := by
  obtain ⟨hfunc, above, g, below, hs, hlen, hindex, hpc, hloaded, -⟩ := h
  obtain rfl : above = [] := by
    have := congrArg List.length (hstack.symm.trans hs)
    simp only [List.length_append, List.length_cons] at this
    exact List.length_eq_zero_iff.mp (by omega)
  obtain ⟨rfl, rfl⟩ := List.cons.inj (hstack.symm.trans hs)
  refine ⟨hloaded rfl, hpc, ?_⟩
  have hmem : ∀ {instr}, F.instructions[f.pc]? = some instr → instr ≠ .retVoid := by
    rintro instr hi rfl
    exact hF.noVoid (List.mem_of_getElem? hi)
  cases hv with
  | @caller f' c c' cs r vm' stack waiting step popped got =>
    obtain ⟨rfl, rfl⟩ := List.cons.inj (hstack.symm.trans stack)
    obtain ⟨f', rest', func, hs', hf', hcase⟩ := Vm.step_next step
    obtain ⟨rfl, rfl⟩ := List.cons.inj (hstack.symm.trans hs')
    rw [hindex, hfunc] at hf'
    obtain rfl := Option.some.inj hf'
    rcases hcase with ⟨hnone, -⟩ | ⟨d, instr, hi, hexec⟩
    · rw [List.getElem?_eq_none_iff] at hnone
      omega
    · by_cases hr : ∃ r', instr = .ret r'
      · obtain ⟨r', rfl⟩ := hr
        obtain ⟨w, hw, hto⟩ := Vm.ret_pops hexec
        refine ⟨r', hi, ?_⟩
        -- the caller gets the register
        simp only [Vm.returnTo, waiting] at hto
        cases hset : c.regSet r w with
        | error t => simp [hset, Except.map] at hto
        | ok c1 =>
          simp only [hset, Except.map, Except.ok.injEq] at hto
          rw [popped] at hto
          obtain ⟨rfl, -⟩ := List.cons.inj hto
          have hgot : c1.regGet r = .ok v := got
          rw [regGet_regSet hset] at hgot
          rwa [← hgot]
      · -- any other instruction leaves the frame on the stack
        have hgoes := Vm.exec_goes (vm.advance_callStack d f (c :: cs))
          (fun r' hc => hr ⟨r', hc⟩) (hmem hi) hexec
        generalize hs'' : vm'.callStack = stack at hgoes
        have hlen' := congrArg List.length (hs''.symm.trans popped)
        cases hgoes with
        | on _ hrest =>
          have := hrest.length_eq
          simp only [List.length_cons] at hlen' this
          omega
        | jumps _ _ | calls _ =>
          simp only [List.length_cons] at hlen'
          omega
  | @host f' vm' stack step =>
    obtain ⟨rfl, rfl⟩ := List.cons.inj (hstack.symm.trans stack)
    rcases Vm.step_done step with hnil | ⟨f', rest', func, d, instr, hs', hf', hi, hexec⟩
    · rw [hstack] at hnil
      cases hnil
    · obtain ⟨rfl, rfl⟩ := List.cons.inj (hstack.symm.trans hs')
      rw [hindex, hfunc] at hf'
      obtain rfl := Option.some.inj hf'
      rcases Vm.exec_done hexec with ⟨r, rfl⟩ | rfl
      · exact ⟨r, hi, Vm.ret_halts hexec⟩
      · exact absurd rfl (hmem hi)

end

/-! ## Functions and methods -/

/-- `F` is the code of a function or a method of this name with this return type. -/
inductive CompiledResult [F64Ops] (env : ModuleEnv) (typeDefs : List TypeDef) :
    Function → String → DataType → Prop where
  | function {f : FunctionDecl} {start s} (registered : env.functions ≠ [])
    (compiled : functionBody env f (.new typeDefs) = .ok (start, s)) :
    CompiledResult env typeDefs (s.finish f.name.name .function start) f.name.name f.returnType
  | method {inherited own : List VarBlock} {m : MethodDecl} {ty : DataType} {start s}
    (className : String) (registered : env.functions ≠ []) (returns : m.returnType = some ty)
    (compiled : methodBody env inherited own m (.new typeDefs) = .ok (start, s)) :
    CompiledResult env typeDefs (s.finish (className ++ "." ++ m.name.name) .method start)
      m.name.name ty

theorem CompiledResult.leftBy [F64Ops] {env : ModuleEnv} {typeDefs : List TypeDef} {F : Function}
    {name : String} {ty : DataType} (h : CompiledResult env typeDefs F name ty)
    (hlen : F.instructions.length ≤ usizeMax) : LeftBy F (epilogueSlot F) := by
  cases h with
  | function registered compiled => exact functionBody_code registered compiled hlen _ _
  | method className registered returns compiled =>
    exact methodBody_code registered returns compiled hlen _ _

/-- The variable the body means by the name of the function. -/
def resultSlot (F : Function) (name : String) : UInt16 :=
  ((F.locals.findSlot name).map (·.1)).getD (epilogueSlot F)

/-- When the end of an activation delivers the value `w` of its result variable,
narrowed: at the end of the body if the value is in range (when an earlier variable
has the name of the function: if the slot of the result, which no statement can
name, happens to hold it), at a `RETURN` if it is 0. -/
def ResultKept (vm : Vm) (F : Function) (name : String) (ty : DataType) (f : CallFrame)
    (w : Value) : Prop :=
  if f.pc + 1 = F.instructions.length then
    if resultSlot F name = epilogueSlot F then narrowValue w (intWidthFromAst ty) = w
    else readLocal vm F f (epilogueSlot F) = .ok (narrowValue w (intWidthFromAst ty))
  else narrowValue w (intWidthFromAst ty) = .int 0

section

variable [F64Ops]

/-- **The value delivered at the end of an activation is that of the result variable,
narrowed to the return type, exactly when `ResultKept`.** -/
theorem result_delivered_iff {env : ModuleEnv} {typeDefs : List TypeDef} {F : Function}
    {name : String} {ty : DataType} (hF : CompiledResult env typeDefs F name ty)
    (hlen : F.instructions.length ≤ usizeMax) {i : UInt16} {depth : Nat} {vm : Vm}
    (hvm : (activation i F depth).Reachable vm) {f : CallFrame} {rest : List CallFrame}
    (hstack : vm.callStack = f :: rest) (hend : rest.length = depth) {v : Value}
    (hv : Delivers vm v) {w : Value} (hw : readLocal vm F f (resultSlot F name) = .ok w) :
    v = narrowValue w (intWidthFromAst ty) ↔ ResultKept vm F name ty f w := by
  have hleft := hF.leftBy hlen
  obtain ⟨hloaded, hpc, r, hr, hreg⟩ := (activation_inside hleft hvm).delivers hleft hstack hend hv
  unfold ResultKept
  by_cases hlast : f.pc + 1 = F.instructions.length
  · rw [if_pos hlast]
    have hepilogue := hloaded.epilogue r hr hlast
    rw [hreg] at hepilogue
    by_cases hslot : resultSlot F name = epilogueSlot F
    · rw [if_pos hslot]
      rw [hslot, ← hepilogue, Except.ok.injEq] at hw
      rw [hw]
      exact eq_comm
    · rw [if_neg hslot, ← hepilogue, Except.ok.injEq]
  · rw [if_neg hlast]
    have hzero := hloaded.zero r hr (by omega)
    rw [hreg, Except.ok.injEq] at hzero
    rw [hzero]
    exact eq_comm

/-! ## Two functions -/

/-- `FUNCTION Reading : INT` with this body. -/
def readingDecl (body : List Statement) : FunctionDecl := ⟨"Reading", .int, [], body⟩

def readingEnv : ModuleEnv := ⟨[stub "Reading" .function], .empty, ∅⟩

omit [F64Ops] in
theorem readingEnv_registered : readingEnv.functions ≠ [] := by simp [readingEnv]

/-- The code of the function with this body. -/
def readingCode (body : List Statement) : Option Function :=
  match functionBody readingEnv (readingDecl body) (.new []) with
  | .ok (start, s) => some (s.finish "Reading" .function start)
  | .error _ => none

theorem readingCode_compiled {body : List Statement} {F : Function}
    (h : readingCode body = some F) : CompiledResult readingEnv [] F "Reading" .int := by
  unfold readingCode at h
  split at h
  · next start s hs =>
    obtain rfl := Option.some.inj h
    exact .function (f := readingDecl body) readingEnv_registered hs
  · cases h

/-- A machine that has just called `F`, with a caller that waits in register 0. -/
def called (F : Function) : Vm :=
  (Vm.new ⟨[F], .empty, [], []⟩ .default).withStack [
    CallFrame.enter 0 F F.locals.defaults 0 none,
    { CallFrame.enter 0 F [] 0 none with returnReg := some 0 }]

/-- After `k` steps the activation ends, and what is delivered passes the test. -/
def deliversAfter (k : Nat) (F : Function) (p : Vm → CallFrame → Value → Bool) : Bool :=
  match Lts.exec (activationStep 1) (List.replicate k .tick) (called F) with
  | some vm => match vm.callStack, vm.step with
    | [f, c], .next vm' => match c.returnReg, vm'.callStack with
      | some r, [c'] => match c'.regGet r with
        | .ok v => p vm f v
        | .error _ => false
      | _, _ => false
    | _, _ => false
  | none => false

theorem delivers_of_after {k : Nat} {F : Function} {p : Vm → CallFrame → Value → Bool}
    (h : deliversAfter k F p = true) : ∃ vm f c v, (activation 0 F 1).Reachable vm ∧
      vm.callStack = [f, c] ∧ Delivers vm v ∧ p vm f v = true := by
  unfold deliversAfter at h
  split at h
  · next vm hvm =>
    split at h
    · next f c vm' hstack hstep =>
      split at h
      · next r c' hr hstack' =>
        split at h
        · next v hv =>
          have hentered : Entered 0 F 1 (called F) := ⟨rfl, _, _, _, rfl, rfl⟩
          exact ⟨vm, f, c, v, Lts.Reachable.exec (.init hentered) hvm, hstack,
            .caller hstack hr hstep hstack' hv, h⟩
        · cases h
      · cases h
    · cases h
  · cases h

end

/-- `Reading := 5;` delivers 5. -/
theorem assigned_result_delivered : ∃ F vm f c v w,
    @CompiledResult default readingEnv [] F "Reading" .int ∧
    (@activation default 0 F 1).Reachable vm ∧ vm.callStack = [f, c] ∧
    @Delivers default vm v ∧ readLocal vm F f (resultSlot F "Reading") = .ok w ∧
    w = .int 5 ∧ v = narrowValue w (intWidthFromAst .int) := by
  have hrun : (@readingCode default [.assign "Reading" (.ofInt 5)]).any (fun F =>
      decide (F.instructions.length ≤ 4) &&
        @deliversAfter default 3 F fun vm f _ =>
          decide (readLocal vm F f (resultSlot F "Reading") = .ok (.int 5)) &&
            decide (f.pc + 1 = F.instructions.length) &&
              decide (resultSlot F "Reading" = epilogueSlot F)) = true := by
    decide +kernel
  obtain ⟨F, hF, hp⟩ := (Option.any_eq_true _ _).mp hrun
  obtain ⟨hlen, hp⟩ := Bool.and_eq_true_iff.mp hp
  obtain ⟨vm, f, c, v, hvm, hstack, hv, hp⟩ := @delivers_of_after default _ _ _ hp
  simp only [Bool.and_eq_true, decide_eq_true_eq] at hlen hp
  obtain ⟨⟨hw, hlast⟩, hslot⟩ := hp
  have hcompiled := @readingCode_compiled default _ _ hF
  have hkept : ResultKept vm F "Reading" .int f (.int 5) := by
    unfold ResultKept
    rw [if_pos hlast, if_pos hslot]
    decide
  have hmax : F.instructions.length ≤ usizeMax := by
    have : 4 ≤ usizeMax := by decide
    omega
  exact ⟨F, vm, f, c, v, _, hcompiled, hvm, hstack, hv, hw, rfl,
    (@result_delivered_iff default _ _ _ _ _ hcompiled hmax _ _ _ hvm _ _ hstack rfl _ hv _
      hw).mpr hkept⟩

/-- `Reading := 5; RETURN;` delivers 0. -/
theorem returned_result_lost : ¬ ∀ (F : Function) (vm : Vm) (f c : CallFrame) (v w : Value),
    @CompiledResult default readingEnv [] F "Reading" .int →
    (@activation default 0 F 1).Reachable vm → vm.callStack = [f, c] → @Delivers default vm v →
    readLocal vm F f (resultSlot F "Reading") = .ok w →
    v = narrowValue w (intWidthFromAst .int) := by
  have hrun : (@readingCode default [.assign "Reading" (.ofInt 5), .returnStmt noRange]).any
      (fun F => @deliversAfter default 3 F fun vm f v =>
        decide (readLocal vm F f (resultSlot F "Reading") = .ok (.int 5)) &&
          decide (v = .int 0)) = true := by
    decide +kernel
  obtain ⟨F, hF, hp⟩ := (Option.any_eq_true _ _).mp hrun
  obtain ⟨vm, f, c, v, hvm, hstack, hv, hp⟩ := @delivers_of_after default _ _ _ hp
  simp only [Bool.and_eq_true, decide_eq_true_eq] at hp
  obtain ⟨hw, rfl⟩ := hp
  intro h
  have hclaim := h F vm f c _ _ (@readingCode_compiled default _ _ hF) hvm hstack hv hw
  exact absurd hclaim (by decide)

end RustPlc.Agree
