import RustPlc.L2Compiler.StraightCode
import RustPlc.L4Agree.FunctionResult
import RustPlc.L4Agree.Parameters
import RustPlc.L4Correct.CompileCode
import RustPlc.L3Vm.Returns

/-!
# Runs through the code of an expression

The code of an expression goes on behind each of its instructions and fills
registers that were not in use before. A run through the code of a compound
expression is cut where the code of an operand ends; what the operand left in
its register is still there when the next operand has been evaluated, whatever
that one calls.

Results:
* `Crosses.cut`: the run through two pieces of code is a run through the first
  and a run through the second;
* `Crosses.kept`: the registers in use before keep their values;
* `Crosses.last`: what the last instruction of an expression leaves.
-/
namespace RustPlc.Compiler

open RustPlc.Ir RustPlc.Engine RustPlc.Correct

/-! ## The code -/

/-- A position from `a` on, before `b`. -/
def Between (a b pc : Nat) : Prop := a ≤ pc ∧ pc < b

/-- The instructions from position `a` to position `b` go on behind themselves. -/
def StraightOn (F : Function) (a b : Nat) : Prop :=
  ∀ pc, Between a b pc → ∃ i, F.instructions[pc]? = some i ∧ straight i = true

theorem StraightOn.piece {F : Function} {a b : Nat} (h : StraightOn F a b) :
    Vm.Piece F 0 (Between a b) (fun pc => a ≤ pc ∧ pc ≤ b) where
  fills := fun _ _ _ _ _ _ => Nat.zero_le _
  next := by
    intro pc hpc
    unfold Between at hpc
    omega
  inside := by
    intro _ hpc
    obtain ⟨i, hi, -⟩ := h _ hpc
    exact (List.getElem?_eq_some_iff.mp hi).1
  jumps := by
    intro _ _ _ hpc hi hs
    obtain ⟨j, hj, hstraight⟩ := h _ hpc
    obtain rfl := Option.some.inj (hi.symm.trans hj)
    rw [hstraight] at hs
    cases hs

theorem StraightOn.left {F : Function} {a b c : Nat} (h : StraightOn F a c) (hb : b ≤ c) :
    StraightOn F a b := fun pc hpc => h pc ⟨hpc.1, Nat.lt_of_lt_of_le hpc.2 hb⟩

theorem StraightOn.right {F : Function} {a b c : Nat} (h : StraightOn F a c) (hb : a ≤ b) :
    StraightOn F b c := fun pc hpc => h pc ⟨Nat.le_trans hb hpc.1, hpc.2⟩

theorem StraightOn.append {F : Function} {a b c : Nat} (h1 : StraightOn F a b)
    (h2 : StraightOn F b c) : StraightOn F a c := by
  intro pc hpc
  by_cases hb : pc < b
  · exact h1 pc ⟨hpc.1, hb⟩
  · exact h2 pc ⟨Nat.le_of_not_lt hb, hpc.2⟩

namespace Appends

variable {b n : Nat} {F : Function} {s s' : FunctionCompiler}

theorem begins (h : Appends b s s') (hF : Begins F s') : Begins F s := by
  obtain ⟨new, hn, -⟩ := h.code
  exact List.IsPrefix.trans ⟨new, hn.symm⟩ hF

theorem at_pc (h : Appends b s s') (hF : Begins F s') {pc : Nat}
    (hpc : Between s.instructions.length s'.instructions.length pc)
    {i : Instruction} (hi : F.instructions[pc]? = some i) : Ordinary b i := by
  obtain ⟨new, hn, hnew⟩ := h.code
  obtain ⟨rest, hrest⟩ := hF
  refine hnew i ?_
  rw [← hrest, List.getElem?_append_left hpc.2, hn, List.getElem?_append_right hpc.1] at hi
  exact List.mem_of_getElem? hi

theorem straightOn (h : Appends b s s') (hF : Begins F s') :
    StraightOn F s.instructions.length s'.instructions.length := by
  intro pc hpc
  have hlt := Nat.lt_of_lt_of_le hpc.2 hF.length_le
  exact ⟨_, List.getElem?_eq_getElem hlt, (h.at_pc hF hpc (List.getElem?_eq_getElem hlt)).straight⟩

theorem piece (h : Appends b s s') (hF : Begins F s') (hn : n ≤ b) :
    Vm.Piece F n (Between s.instructions.length s'.instructions.length)
      (fun pc => s.instructions.length ≤ pc ∧ pc ≤ s'.instructions.length) where
  fills := fun _ _ r hpc hi ht => Nat.le_trans hn ((h.at_pc hF hpc hi).target r ht)
  next := (h.straightOn hF).piece.next
  inside := (h.straightOn hF).piece.inside
  jumps := (h.straightOn hF).piece.jumps

end Appends

theorem InitCode.straightOn [F64Ops] {env : ModuleEnv} {F : Function} {s s' : FunctionCompiler}
    {ps : List Initialiser} (h : InitCode env ps s s') (hF : Begins F s') :
    StraightOn F s.instructions.length s'.instructions.length := by
  intro pc hpc
  have hcode := h.code
  obtain ⟨rest, hrest⟩ := hF
  have hlt : pc < F.instructions.length := by
    rw [← hrest, List.length_append]
    have := hpc.2
    omega
  refine ⟨F.instructions[pc], List.getElem?_eq_getElem hlt, ?_⟩
  have hmem : F.instructions[pc] ∈ ps.flatMap Initialiser.instructions := by
    refine List.mem_of_getElem? (i := pc - s.instructions.length) ?_
    rw [← List.getElem?_append_right hpc.1, ← hcode,
      ← @List.getElem?_append_left _ s'.instructions rest pc hpc.2, hrest,
      List.getElem?_eq_getElem hlt]
  obtain ⟨p, hp, hi⟩ := List.mem_flatMap.mp hmem
  rcases List.mem_append.mp hi with hi | hi
  · exact (h.ordinary p hp _ hi).straight
  · rw [List.mem_singleton.mp hi]
    rfl

end RustPlc.Compiler

namespace RustPlc.Agree

open RustPlc.Ir RustPlc.Syntax RustPlc.Compiler RustPlc.Engine RustPlc.Correct

/-! ## The runs -/

section

variable [F64Ops]

/-- A run of an activation from position `a` to position `b` through the
positions in between. -/
structure Crosses (i : UInt16) (d a b : Nat) (f f' : CallFrame) (vm vm' : Vm) : Prop where
  start : Vm.OnTop i d f vm
  startPc : f.pc = a
  run : Vm.Through i d (Between a b) vm vm'
  finish : Vm.OnTop i d f' vm'
  finishPc : f'.pc = b

variable {i : UInt16} {d a b : Nat} {F : Function} {s s1 s' : FunctionCompiler} {vm vm' : Vm}
  {f f' : CallFrame}

omit [F64Ops] in
theorem onTop_unique (h : Vm.OnTop i d f vm) (h' : Vm.OnTop i d f' vm) : f' = f := by
  obtain ⟨rest, hstack, -⟩ := h
  obtain ⟨rest', hstack', -⟩ := h'
  exact (List.cons.inj (hstack'.symm.trans hstack)).1

omit [F64Ops] in
theorem regGet_ok {r : Reg} (h : r.toNat < f.registers.length) : ∃ v, f.regGet r = .ok v := by
  unfold CallFrame.regGet index
  rw [List.getElem?_eq_getElem h]
  exact ⟨_, rfl⟩

/-- A run that has left the code of a piece has ended. -/
theorem through_outside {S : Nat → Prop} (h : Vm.Through i d S vm vm') (hf : Vm.OnTop i d f vm)
    (hout : ¬ S f.pc) : vm' = vm := by
  cases h with
  | refl => rfl
  | step hin hstep hrest =>
    rcases hin with ⟨g, hg, hpc⟩ | hlong
    · obtain rfl := onTop_unique hf hg
      exact absurd hpc hout
    · have := hf.length
      omega

theorem through_idle {S : Nat → Prop} (h : Vm.Through i d S vm vm') (hidle : vm.Idle) :
    vm'.Idle := by
  induction h with
  | refl => exact hidle
  | step hin hstep hrest ih => exact ih (Vm.step_idle hidle hstep)

namespace Crosses

theorem idle (h : Crosses i d a b f f' vm vm') (hidle : vm.Idle) : vm'.Idle :=
  through_idle h.run hidle

theorem func? (h : Crosses i d a b f f' vm vm') (hfunc : vm.func? i = some F) :
    vm'.func? i = some F := (h.run.func? i).trans hfunc

omit [F64Ops] in
theorem returnReg (hidle : vm.Idle) (h : Vm.OnTop i d f vm) : f.returnReg = none := by
  obtain ⟨rest, hstack, -⟩ := h
  exact hidle f rest hstack

/-- The frame at the end has as many registers, and those in use before are
as they were. -/
theorem kept {n : Nat} (h : Crosses i d s.instructions.length s'.instructions.length f f' vm vm')
    (hcode : Appends n s s') (hF : Begins F s') (hfunc : vm.func? i = some F) (hidle : vm.Idle) :
    f'.registers.length = f.registers.length ∧ ∀ k < n, f'.registers[k]? = f.registers[k]? := by
  have hle := hcode.length_le
  have hheld := h.run.held (hcode.piece hF (Nat.le_refl n)) hfunc h.finish
    (.start h.start ⟨h.startPc.ge, by rw [h.startPc]; exact hle⟩ (returnReg hidle h.start))
  exact ⟨hheld.size, hheld.kept⟩

/-- **A run through straight code goes through each of its positions.** -/
theorem split {c : Nat} (h : Crosses i d a c f f' vm vm') (hab : a ≤ b) (hbc : b ≤ c)
    (hs : StraightOn F a c) (hfunc : vm.func? i = some F) (hidle : vm.Idle) : ∃ mid g,
      Crosses i d a b f g vm mid ∧ Crosses i d b c g f' mid vm' := by
  -- to position `b`
  obtain ⟨mid, g, hrun1, hg, hpc, hrest⟩ := h.run.straight (hs.left hbc).piece hfunc h.finish
    (by rw [h.finishPc]; omega)
    (.start h.start ⟨h.startPc.ge, by rw [h.startPc]; exact hab⟩ (returnReg hidle h.start))
  refine ⟨mid, g, ⟨h.start, h.startPc, hrun1, hg, hpc⟩, ?_⟩
  -- and from there to the end, where the run ends
  have hidle1 := through_idle hrun1 hidle
  obtain ⟨fin, k, hrun2, hk, hkpc, hlast⟩ := hrest.straight (hs.right hab).piece
    ((hrun1.func? i).trans hfunc) h.finish (by rw [h.finishPc]; omega)
    (.start hg ⟨hpc.ge, by rw [hpc]; exact hbc⟩ (returnReg hidle1 hg))
  obtain rfl := through_outside hlast hk (by unfold Between; omega)
  exact ⟨hg, hpc, hrun2, h.finish, h.finishPc⟩

/-- A run through two pieces of code goes through the end of the first. -/
theorem cut (h : Crosses i d s.instructions.length s'.instructions.length f f' vm vm')
    {m n : Nat} (h1 : Appends m s s1) (h2 : Appends n s1 s') (hF : Begins F s')
    (hfunc : vm.func? i = some F) (hidle : vm.Idle) : ∃ mid g,
      Crosses i d s.instructions.length s1.instructions.length f g vm mid ∧
      Crosses i d s1.instructions.length s'.instructions.length g f' mid vm' :=
  h.split h1.length_le h2.length_le ((h1.straightOn (h2.begins hF)).append (h2.straightOn hF))
    hfunc hidle

/-- **One instruction.** A run through one position is one iteration, if the
instruction there leaves the activation on top behind itself. -/
theorem single {ins : Instruction} (h : Crosses i d a (a + 1) f f' vm vm')
    (hins : F.instructions[a]? = some ins) (hfunc : vm.func? i = some F)
    (hnext : ∀ (u : Vm) rest (m : Vm), u.exec F { f with pc := f.pc + 1 } rest ins = .next m →
      ∃ g : CallFrame, m.callStack = g :: rest ∧ g.funcIndex = f.funcIndex ∧ g.pc = f.pc + 1) :
    ∃ debug rest, (vm.advance debug f rest).exec F { f with pc := f.pc + 1 } rest ins = .next vm' := by
  cases hrun : h.run with
  | refl =>
    have := onTop_unique h.start h.finish
    have := h.startPc
    have := h.finishPc
    subst f'
    omega
  | @step _ m1 _ hin hstep hrest =>
    obtain ⟨g, rest, func, hstack, hfunc', hexec⟩ := Vm.step_next hstep
    obtain ⟨rest', hstack', hd, hi⟩ := h.start
    obtain ⟨rfl, rfl⟩ := List.cons.inj (hstack'.symm.trans hstack)
    rw [hi, hfunc, Option.some.injEq] at hfunc'
    subst hfunc'
    rw [h.startPc] at hexec
    rcases hexec with ⟨hnone, -⟩ | ⟨debug, ins', hins', hexec⟩
    · rw [hins] at hnone
      cases hnone
    rw [hins, Option.some.injEq] at hins'
    subst hins'
    rw [← h.startPc] at hexec
    obtain ⟨g, hg, hgi, hpc⟩ := hnext _ _ _ hexec
    have hout : ¬ Between a (a + 1) g.pc := by
      have := h.startPc
      unfold Between
      omega
    obtain rfl := through_outside hrest ⟨rest', hg, hd, hgi.trans hi⟩ hout
    exact ⟨debug, rest', hexec⟩

/-- **The last instruction.** It fills a fresh register with what it computes
from the frame. -/
theorem last {mk : Reg → Instruction} {dst : Reg}
    (h : Crosses i d s.instructions.length s'.instructions.length f f' vm vm')
    (he : emitTo mk s = .ok (dst, s')) (hF : Begins F s') (hfunc : vm.func? i = some F)
    {x : Except Trap Value}
    (hcomp : ∀ u : Vm, ∀ g : CallFrame, g.registers = f.registers →
      u.compute F g (mk dst) = some (dst, x)) :
    ∃ v, x = .ok v ∧ f'.regGet dst = .ok v := by
  obtain ⟨hat, -, -, hlen, -⟩ := emitTo_code he hF
  rw [hlen] at h
  obtain ⟨debug, rest, hexec⟩ := h.single hat hfunc fun u rest m hexec => by
    obtain ⟨v, g, -, hg, rfl⟩ := exec_load (hcomp u { f with pc := f.pc + 1 } rfl) hexec
    exact ⟨g, rfl, (samePlace_regSet hg).funcIndex, (samePlace_regSet hg).pc⟩
  obtain ⟨v, g, hv, hg, rfl⟩ := exec_load (hcomp _ { f with pc := f.pc + 1 } rfl) hexec
  obtain ⟨rest', hstack, -⟩ := h.finish
  obtain ⟨rfl, -⟩ := List.cons.inj hstack
  exact ⟨v, hv, regGet_regSet hg⟩

/-- A store to a local. -/
theorem stored {slot : UInt16} {src : Reg} {v : Value} (h : Crosses i d a (a + 1) f f' vm vm')
    (hins : F.instructions[a]? = some (.storeLocal slot src)) (hfunc : vm.func? i = some F)
    (hv : f.regGet src = .ok v) :
    f'.locals = f.locals.set slot.toNat (narrowValue v (slotWidth F.locals slot)) ∧
      f'.registers = f.registers := by
  have hone : ∀ (u : Vm) rest (m : Vm),
      u.exec F { f with pc := f.pc + 1 } rest (.storeLocal slot src) = .next m →
      m.callStack = { f with
        pc := f.pc + 1
        locals := f.locals.set slot.toNat (narrowValue v (slotWidth F.locals slot)) } :: rest := by
    intro u rest m hexec
    change u.orTrap (f.regGet src) _ = .next m at hexec
    obtain ⟨w, hw, hexec⟩ := Vm.orTrap_next hexec
    obtain rfl : v = w := Except.ok.inj (hv.symm.trans hw)
    obtain ⟨g, hg, hm⟩ := Vm.orTrap_next hexec
    cases hm
    unfold Vm.localSet at hg
    cases hx : indexSet f.locals slot.toNat (narrowValue v (slotWidth F.locals slot)) with
    | error t => simp [hx, Except.map] at hg
    | ok ls =>
      simp only [hx, Except.map, Except.ok.injEq] at hg
      rw [← hg, Vm.indexSet_ok hx]
      rfl
  obtain ⟨debug, rest, hexec⟩ := h.single hins hfunc fun u rest m hexec =>
    ⟨_, hone u rest m hexec, rfl, rfl⟩
  obtain ⟨rest', hstack, -⟩ := h.finish
  rw [hone _ _ _ hexec] at hstack
  obtain ⟨rfl, -⟩ := List.cons.inj hstack
  exact ⟨rfl, rfl⟩

end Crosses

/-! ## Locals -/

theorem through_mono {S T : Nat → Prop} (hST : ∀ pc, S pc → T pc) (h : Vm.Through i d S vm vm') :
    Vm.Through i d T vm vm' := by
  induction h with
  | refl vm => exact .refl vm
  | step hin hstep hrest ih =>
    refine .step ?_ hstep ih
    rcases hin with ⟨g, hg, hpc⟩ | hlong
    · exact .inl ⟨g, hg, hST _ hpc⟩
    · exact .inr hlong

theorem through_trans {S : Nat → Prop} {mid : Vm} (h : Vm.Through i d S vm mid)
    (h' : Vm.Through i d S mid vm') : Vm.Through i d S vm vm' := by
  induction h with
  | refl => exact h'
  | step hin hstep hrest ih => exact .step hin hstep (ih h')

/-- No machine of the run stores into the activation through a reference. -/
def Undisturbed (i : UInt16) (d : Nat) (S : Nat → Prop) (vm vm' : Vm) : Prop :=
  ∀ u, Vm.Through i d S vm u → Vm.Through i d S u vm' → ∀ slot, ¬ u.StoresInto d slot

omit [F64Ops] in
theorem kept_of_stack {rest rest' : List CallFrame} {g : CallFrame} (top : List CallFrame)
    (g0 : CallFrame) (hstack : vm'.callStack = top ++ g0 :: rest') (hlen : rest'.length = rest.length)
    (hlocals : g0.locals = f.locals) (hg : vm'.frameAt rest.length = some g) :
    vm.Kept rest.length f g := by
  have hg0 := Vm.frameAt_append hstack
  rw [hlen, hg, Option.some.injEq] at hg0
  exact .inl (hg0 ▸ hlocals)

omit [F64Ops] in
theorem frameAt_beyond {rest rest' : List CallFrame} {g : CallFrame} (hstack : vm'.callStack = rest')
    (hlen : rest'.length = rest.length) (hg : vm'.frameAt rest.length = some g) : False := by
  unfold Vm.frameAt at hg
  rw [hstack] at hg
  have hlt := (List.getElem?_eq_some_iff.mp hg).1
  rw [List.length_reverse] at hlt
  omega

/-- A step of the activation itself keeps its locals, unless it stores to one. -/
theorem own_locals {rest : List CallFrame} {g : CallFrame} (hstack : vm.callStack = f :: rest)
    (hno : ∀ F ins, vm.func? f.funcIndex = some F → F.instructions[f.pc]? = some ins →
      storesLocal ins = false)
    (h : vm.step = .next vm') (hg : vm'.frameAt rest.length = some g) :
    vm.Kept rest.length f g := by
  have heffect := vm.step_effect
  rw [h, left_next] at heffect
  generalize hnext : vm.nextInstr = next at heffect
  cases heffect with
  | idle => exact kept_of_stack [] f hstack rfl rfl hg
  | paused dbg => exact kept_of_stack [] f hstack rfl rfl hg
  | limit f0 rest0 dbg hstack0 =>
    obtain ⟨rfl, rfl⟩ := List.cons.inj (hstack.symm.trans hstack0)
    exact kept_of_stack [] { f with pc := f.pc + 1 } rfl rfl rfl hg
  | atEnd f0 rest0 rest' hstack0 halike =>
    obtain ⟨rfl, rfl⟩ := List.cons.inj (hstack.symm.trans hstack0)
    exact (frameAt_beyond rfl halike.length_eq.symm hg).elim
  | instr f0 rest0 func dbg i vm' hstack0 hfunc hi heffect =>
    obtain ⟨rfl, rfl⟩ := List.cons.inj (hstack.symm.trans hstack0)
    cases heffect with
    | storeLocal slot src v hv => cases hno _ _ hfunc hi
    | frame i g0 halike => exact kept_of_stack [] g0 rfl rfl halike.locals hg
    | derefFrame ptr val tag slot v hp hv htag =>
      have hmod : ((rest.reverse ++ [{ f with pc := f.pc + 1 }]).modify (tag - 2).toNat fun fr =>
          { fr with locals := fr.locals.set slot.toNat v })[rest.length]? = some g := by
        simpa [Vm.frameAt, Vm.modifyFrameAt, Vm.advance] using hg
      rw [List.getElem?_modify, List.getElem?_append_right (by simp)] at hmod
      simp only [List.length_reverse, Nat.sub_self, List.getElem?_cons_zero, Option.map_eq_map,
        Option.map_some, Option.some.injEq] at hmod
      by_cases hdepth : (tag - 2).toNat = rest.length
      · rw [if_pos hdepth] at hmod
        exact .inr ⟨slot, v, ⟨ptr, val, f, rest, tag, hnext, hstack, hp, htag, hdepth⟩, hmod ▸ rfl⟩
      · rw [if_neg hdepth] at hmod
        exact .inl (hmod ▸ rfl)
    | ret r rest' halike => exact (frameAt_beyond rfl halike.length_eq.symm hg).elim
    | retVoid rest' halike => exact (frameAt_beyond rfl halike.length_eq.symm hg).elim
    | call fi dst args callee locals hc hb =>
      exact kept_of_stack [_] { f with pc := f.pc + 1, returnReg := some dst } rfl
        rfl rfl hg
    | callFb slot fi args callee locals hc hb =>
      exact kept_of_stack [_] { f with pc := f.pc + 1 } rfl rfl rfl hg
    | method slot ci fi dst args method cls count ls locals vm1 hm hc hs hb =>
      exact kept_of_stack [_] { f with pc := f.pc + 1, returnReg := some dst } rfl
        rfl rfl hg
    | _ => exact kept_of_stack [] { f with pc := f.pc + 1 } rfl rfl rfl hg

/-- Code that stores to no local, in a run in which nothing is stored into the
activation through a reference, keeps the locals. -/
theorem through_locals {S : Nat → Prop} {g : CallFrame}
    (hno : ∀ pc ins, S pc → F.instructions[pc]? = some ins → storesLocal ins = false)
    (h : Vm.Through i d S vm vm') (hfunc : vm.func? i = some F) (hquiet : Undisturbed i d S vm vm')
    (hg : vm.frameAt d = some g) (hend : Vm.OnTop i d f' vm') : f'.locals = g.locals := by
  induction h generalizing g with
  | refl vm =>
    obtain ⟨rest, hstack, rfl, -⟩ := hend
    have hf := Vm.frameAt_cons hstack
    rw [hg, Option.some.injEq] at hf
    rw [hf]
  | @step vm vm1 vm2 hin hstep hrest ih =>
    have hlive := hrest.length hend.length.ge
    obtain ⟨g1, hg1⟩ : ∃ g1, vm1.frameAt d = some g1 := by
      refine ⟨_, List.getElem?_eq_getElem ?_⟩
      rw [List.length_reverse]
      omega
    have hkept : vm.Kept d g g1 := by
      rcases hin with ⟨k, ⟨rest, hstack, hd, hi⟩, hS⟩ | hlong
      · have hk := Vm.frameAt_cons hstack
        subst hd
        rw [hg, Option.some.injEq] at hk
        subst hk
        refine own_locals hstack (fun G ins hG hins => ?_) hstep hg1
        rw [hi, hfunc, Option.some.injEq] at hG
        subst hG
        exact hno _ _ hS hins
      · obtain ⟨k, rest, hstack⟩ : ∃ k rest, vm.callStack = k :: rest :=
          List.exists_cons_of_ne_nil (fun hnil => by rw [hnil] at hlong; cases hlong)
        rw [hstack, List.length_cons] at hlong
        exact Vm.step_locals hstack (by omega) hstep hg hg1
    have hsame : g1.locals = g.locals := by
      rcases hkept with hsame | ⟨slot, v, hstore, -⟩
      · exact hsame
      · exact absurd hstore (hquiet vm (.refl vm) (.step hin hstep hrest) slot)
    rw [← hsame]
    exact ih ((Vm.step_func? hstep i).trans hfunc)
      (fun u h1 h2 => hquiet u (.step hin hstep h1) h2) hg1 hend

end

end RustPlc.Agree
