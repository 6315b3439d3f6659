import RustPlc.L3Vm.Places

/-!
# Runs through a piece of code

What an activation does between two positions of its own code, with
everything its calls do in between. `Under` is the inversion of an iteration
for the frames that wait. `Through` is a run that leaves neither a set of
positions nor the activation.

Results:
* `Through.keeps`: registers that no instruction of the piece fills keep
  their values;
* `Through.straight`: straight code is run from its first instruction to its
  last.
-/
namespace RustPlc.Engine

open RustPlc.Ir RustPlc.Core RustPlc.Compiler

/-- A caller to which the running frame has returned. -/
structure CallFrame.Resumes (f g : CallFrame) : Prop where
  funcIndex : g.funcIndex = f.funcIndex
  pc : g.pc = f.pc
  returnReg : g.returnReg = none
  registers : g.registers = f.registers ∨
    ∃ r v, f.returnReg = some r ∧ g.registers = f.registers.set r.toNat v

theorem returnTo_resumes {v : Value} {c : CallFrame} {cs stack : List CallFrame}
    (h : Vm.returnTo v (c :: cs) = .ok stack) : ∃ g, stack = g :: cs ∧ c.Resumes g := by
  unfold Vm.returnTo at h
  cases hr : c.returnReg with
  | none =>
    simp only [hr, Except.ok.injEq] at h
    exact ⟨c, h.symm, rfl, rfl, hr, .inl rfl⟩
  | some r =>
    simp only [hr] at h
    cases hx : c.regSet r v with
    | error t => simp [hx, Except.map] at h
    | ok c' =>
      simp only [hx, Except.map, Except.ok.injEq] at h
      obtain rfl := regSet_ok hx
      exact ⟨_, h.symm, rfl, rfl, rfl, .inr ⟨r, v, hr, rfl⟩⟩

namespace Vm

/-- The stack an iteration leaves above the frames that waited. -/
inductive Under : List CallFrame → List CallFrame → Prop where
  | on {c rest rest'} (hrest : List.Forall₂ CallFrame.Waits rest rest') : Under rest (c :: rest')
  | calls {c g rest} : Under rest (c :: g :: rest)
  | returns {c g cs} (hg : c.Resumes g) : Under (c :: cs) (g :: cs)
  | ends : Under [] []

/-- A frame among those that waited goes on waiting, or it was the caller of
the running frame and is resumed. -/
theorem Under.split {as below stack : List CallFrame} {g : CallFrame}
    (h : Under (as ++ g :: below) stack) :
    (∃ above g' below', stack = above ++ g' :: below' ∧ above ≠ [] ∧ g.Waits g' ∧
      below'.length = below.length) ∨
    (as = [] ∧ ∃ g', stack = g' :: below ∧ g.Resumes g') := by
  generalize hrest : as ++ g :: below = rest at h
  cases h with
  | @on c rest rest' hw =>
    subst hrest
    obtain ⟨as', tail, rfl, has, htail⟩ := forall₂_append_split hw
    cases htail with
    | @cons _ g' _ below' hg hbelow =>
      exact .inl ⟨c :: as', g', below', rfl, List.cons_ne_nil _ _, hg, hbelow.length_eq.symm⟩
  | @calls c g0 rest =>
    subst hrest
    exact .inl ⟨c :: g0 :: as, g, below, rfl, List.cons_ne_nil _ _, .refl g, rfl⟩
  | @returns c g0 cs hg =>
    cases as with
    | nil =>
      obtain ⟨rfl, rfl⟩ := List.cons.inj hrest
      exact .inr ⟨rfl, g0, rfl, hg⟩
    | cons b bs =>
      obtain ⟨rfl, rfl⟩ := List.cons.inj hrest
      exact .inl ⟨g0 :: bs, g, below, rfl, List.cons_ne_nil _ _, .refl g, rfl⟩
  | ends => cases as <;> cases hrest

section

variable {vm vm' : Vm} {func : Function} {f : CallFrame} {rest : List CallFrame} {i : Instruction}

theorem Ran.under {stack : List CallFrame} (h : Ran func i f rest stack) : Under rest stack := by
  cases h with
  | on _ _ _ _ hrest => exact .on hrest
  | jumps _ _ _ _ _ => exact .on (waits_refl rest)
  | calls _ _ _ _ _ => exact .calls

theorem returnTo_under {v : Value} {stack : List CallFrame} (h : returnTo v rest = .ok stack) :
    Under rest stack := by
  cases rest with
  | nil =>
    cases h
    exact .ends
  | cons c cs =>
    obtain ⟨g, rfl, hg⟩ := returnTo_resumes h
    exact .returns hg

variable [F64Ops]

/-- **An iteration leaves the frames that wait as `Under` says.** -/
theorem step_under (h : vm.step = .next vm') (hstack : vm.callStack = f :: rest) :
    Under rest vm'.callStack := by
  obtain ⟨f', rest', func, hstack', -, ⟨-, hoff⟩ | ⟨d, i, -, hexec⟩⟩ := step_next h
  · obtain ⟨rfl, rfl⟩ := List.cons.inj (hstack.symm.trans hstack')
    obtain ⟨stack, hto, hnext⟩ := orTrap_next hoff
    cases hnext
    exact returnTo_under hto
  · obtain ⟨rfl, rfl⟩ := List.cons.inj (hstack.symm.trans hstack')
    cases hl : leaves i with
    | false => exact (exec_ran (vm.advance_callStack d f rest) hl hexec).under
    | true =>
      cases i with
      | ret r =>
        obtain ⟨v, -, hto⟩ := ret_pops hexec
        exact returnTo_under hto
      | retVoid =>
        change (vm.advance d f rest).retVoid rest = .next vm' at hexec
        unfold retVoid at hexec
        split at hexec
        · cases hexec
        · cases hexec
          exact .returns ⟨rfl, rfl, rfl, .inl rfl⟩
      | _ => cases hl

end

/-! ## Runs inside an activation -/

/-- `f` is the frame of function `i` above `d` frames, and runs. -/
def OnTop (i : UInt16) (d : Nat) (f : CallFrame) (vm : Vm) : Prop :=
  ∃ rest, vm.callStack = f :: rest ∧ rest.length = d ∧ f.funcIndex = i

/-- The activation above `d` frames runs at a position of `S`, or waits. -/
def Within (i : UInt16) (d : Nat) (S : Nat → Prop) (vm : Vm) : Prop :=
  (∃ f, OnTop i d f vm ∧ S f.pc) ∨ d + 1 < vm.callStack.length

/-- What a run through a piece of code keeps: the frame `g` of the activation,
at a position of `P`, has the registers below `n` as they were, and a callee
returns into one from `n` on. -/
structure Held (i : UInt16) (d n : Nat) (P : Nat → Prop) (regs : List Value)
    (above : List CallFrame) (g : CallFrame) (vm : Vm) : Prop where
  stack : ∃ below, vm.callStack = above ++ g :: below ∧ below.length = d
  func : g.funcIndex = i
  pc : P g.pc
  size : g.registers.length = regs.length
  kept : ∀ k < n, g.registers[k]? = regs[k]?
  idle : above = [] → g.returnReg = none
  waiting : ∀ r, g.returnReg = some r → n ≤ r.toNat

section

variable [F64Ops]

/-- A run whose states before the last are within the activation. -/
inductive Through (i : UInt16) (d : Nat) (S : Nat → Prop) : Vm → Vm → Prop where
  | refl (vm : Vm) : Through i d S vm vm
  | step {vm vm1 vm2 : Vm} (hin : Within i d S vm) (hstep : vm.step = .next vm1)
      (h : Through i d S vm1 vm2) : Through i d S vm vm2

end

section

variable {i : UInt16} {d n : Nat} {S P : Nat → Prop} {regs : List Value} {F : Function}
  {vm vm' : Vm} {f g : CallFrame} {above : List CallFrame}

theorem Held.start (h : OnTop i d f vm) (hP : P f.pc) (hidle : f.returnReg = none) :
    Held i d n P f.registers [] f vm := by
  obtain ⟨rest, hstack, hd, hi⟩ := h
  exact ⟨⟨rest, hstack, hd⟩, hi, hP, rfl, fun _ _ => rfl, fun _ => hidle,
    fun r hr => by rw [hidle] at hr; cases hr⟩

/-- The frame on top is the one that is held. -/
theorem Held.top (h : Held i d n P regs above g vm) (hf : OnTop i d f vm) :
    above = [] ∧ g = f := by
  obtain ⟨below, hstack, hd⟩ := h.stack
  obtain ⟨rest, hstack', hd', -⟩ := hf
  rw [hstack] at hstack'
  cases above with
  | nil =>
    obtain ⟨rfl, -⟩ := List.cons.inj hstack'
    exact ⟨rfl, rfl⟩
  | cons a above =>
    obtain ⟨-, hrest⟩ := List.cons.inj hstack'
    have hlen : (above ++ g :: below).length = rest.length := congrArg List.length hrest
    rw [List.length_append, List.length_cons] at hlen
    omega

theorem length_filled {ins : Instruction} (h : Filled ins f g) :
    g.registers.length = f.registers.length := by
  rcases h with h | ⟨r, v, -, h⟩
  · rw [h]
  · rw [h, List.length_set]

theorem getElem_set_above {regs : List Value} {r : Reg} {v : Value} (hr : n ≤ r.toNat) {k : Nat}
    (hk : k < n) : (regs.set r.toNat v)[k]? = regs[k]? :=
  List.getElem?_set_ne (by omega)

/-- A step of a callee. -/
theorem Held.under (h : Held i d n P regs above g vm) (habove : above ≠ []) {stack : List CallFrame}
    (hunder : ∀ f rest, vm.callStack = f :: rest → Under rest stack) (hstack' : vm'.callStack = stack) :
    ∃ above' g', Held i d n P regs above' g' vm' := by
  obtain ⟨below, hstack, hd⟩ := h.stack
  obtain ⟨a, as, rfl⟩ := List.exists_cons_of_ne_nil habove
  rcases (hunder a (as ++ g :: below) hstack).split with
    ⟨above', g', below', rfl, hne, hg, hlen⟩ | ⟨rfl, g', rfl, hg⟩
  · refine ⟨above', g', ⟨below', hstack', hlen.trans hd⟩, hg.funcIndex.trans h.func, ?_, ?_, ?_,
      fun he => absurd he hne, ?_⟩
    · rw [hg.pc]
      exact h.pc
    · rw [hg.registers, h.size]
    · rw [hg.registers]
      exact h.kept
    · rw [hg.returnReg]
      exact h.waiting
  · refine ⟨[], g', ⟨below, hstack', hd⟩, hg.funcIndex.trans h.func, ?_, ?_, ?_, fun _ =>
      hg.returnReg, fun r hr => by rw [hg.returnReg] at hr; cases hr⟩
    · rw [hg.pc]
      exact h.pc
    · rcases hg.registers with hr | ⟨r, v, -, hr⟩
      · rw [hr, h.size]
      · rw [hr, List.length_set, h.size]
    · intro k hk
      rcases hg.registers with hr | ⟨r, v, hwait, hr⟩
      · rw [hr, h.kept k hk]
      · rw [hr, getElem_set_above (h.waiting r hwait) hk, h.kept k hk]

/-- What the instructions at the positions of `S` are like: they fill no
register below `n`, and from `S` they lead to `P`. -/
structure Piece (F : Function) (n : Nat) (S P : Nat → Prop) : Prop where
  fills : ∀ pc ins r, S pc → F.instructions[pc]? = some ins → target ins = some r → n ≤ r.toNat
  next : ∀ pc, S pc → P (pc + 1)
  inside : ∀ pc, S pc → pc < F.instructions.length
  jumps : ∀ pc ins q, S pc → F.instructions[pc]? = some ins → straight ins = false → P q

variable [F64Ops]

theorem leaves_length {ins : Instruction} {rest : List CallFrame} (hl : leaves ins = true)
    (h : vm.exec F f rest ins = .next vm') : vm'.callStack.length = rest.length := by
  cases ins with
  | ret r =>
    obtain ⟨v, -, hto⟩ := ret_pops h
    exact (samePlace_returnTo hto).length_eq.symm
  | retVoid => exact (retVoid_pops h).length_eq.symm
  | _ => cases hl

/-- A step of the activation itself. -/
theorem Held.runs (hpiece : Piece F n S P) (h : Held i d n P regs above g vm)
    (hf : OnTop i d f vm) (hS : S f.pc) (hF : vm.func? i = some F) (hstep : vm.step = .next vm')
    (hlive : d + 1 ≤ vm'.callStack.length) : ∃ above' g', Held i d n P regs above' g' vm' := by
  obtain ⟨rfl, rfl⟩ := h.top hf
  obtain ⟨rest, hstack, hd, hi⟩ := hf
  obtain ⟨f', rest', F', hstack', hF', hrun⟩ := step_next hstep
  obtain ⟨rfl, rfl⟩ := List.cons.inj (hstack.symm.trans hstack')
  rw [hi, hF, Option.some.injEq] at hF'
  subst hF'
  obtain ⟨ins, hins⟩ : ∃ ins, F.instructions[g.pc]? = some ins :=
    ⟨_, List.getElem?_eq_getElem (hpiece.inside g.pc hS)⟩
  rcases hrun with ⟨hnone, -⟩ | ⟨debug, ins', hins', hexec⟩
  · rw [hins] at hnone
    cases hnone
  rw [hins, Option.some.injEq] at hins'
  subst hins'
  have hidle := h.idle rfl
  cases hl : leaves ins with
  | true =>
    have hlen := leaves_length hl hexec
    omega
  | false =>
    have hran := exec_ran (vm.advance_callStack debug g rest) hl hexec
    generalize hstk : vm'.callStack = stack at hran
    cases hran with
    | @on g' rest' hi' hpc' hret hregs hrest =>
      refine ⟨[], g', ⟨rest', hstk, hrest.length_eq ▸ hd⟩, hi'.trans hi, ?_, ?_, ?_, ?_, ?_⟩
      · rw [hpc']
        exact hpiece.next _ hS
      · rw [length_filled hregs]
        exact h.size
      · intro k hk
        rcases hregs with hr | ⟨r, v, ht, hr⟩
        · rw [hr]
          exact h.kept k hk
        · rw [hr, getElem_set_above (hpiece.fills _ _ r hS hins ht) hk]
          exact h.kept k hk
      · intro _
        rw [hret]
        exact hidle
      · intro r hr
        rw [hret] at hr
        exact h.waiting r hr
    | @jumps g' hs hi' hpc' hret hregs =>
      refine ⟨[], g', ⟨rest, hstk, hd⟩, hi'.trans hi, hpiece.jumps _ _ _ hS hins hs, ?_, ?_, ?_, ?_⟩
      · rw [hregs]
        exact h.size
      · rw [hregs]
        exact h.kept
      · intro _
        rw [hret]
        exact hidle
      · intro r hr
        rw [hret] at hr
        exact h.waiting r hr
    | @calls c g' hi' hpc' hret hregs hc =>
      refine ⟨[c], g', ⟨rest, hstk, hd⟩, hi'.trans hi, ?_, ?_, ?_,
        fun he => absurd he (List.cons_ne_nil _ _), ?_⟩
      · rw [hpc']
        exact hpiece.next _ hS
      · rw [hregs]
        exact h.size
      · rw [hregs]
        exact h.kept
      · intro r hr
        rcases hret with hret | hret
        · rw [hret] at hr
          exact h.waiting r hr
        · rw [hret] at hr
          exact hpiece.fills _ _ r hS hins hr

/-! ## What a run through a piece keeps -/

omit [F64Ops] in
theorem OnTop.length (h : OnTop i d f vm) : vm.callStack.length = d + 1 := by
  obtain ⟨rest, hstack, hd, -⟩ := h
  rw [hstack, List.length_cons, hd]

theorem Through.length (h : Through i d S vm vm') (hend : d + 1 ≤ vm'.callStack.length) :
    d + 1 ≤ vm.callStack.length := by
  cases h with
  | refl => exact hend
  | step hin _ _ =>
    rcases hin with ⟨f, hf, -⟩ | hlong
    · exact hf.length.ge
    · omega

theorem step_func? (h : vm.step = .next vm') (i : UInt16) : vm'.func? i = vm.func? i := by
  have hm := step_module vm
  rw [h, left_next] at hm
  rw [Vm.func?, Vm.func?, hm]

theorem Through.func? (h : Through i d S vm vm') (j : UInt16) : vm'.func? j = vm.func? j := by
  induction h with
  | refl => rfl
  | step _ hstep _ ih => rw [ih, step_func? hstep]

/-- One step within a piece keeps what is held. -/
theorem Held.step (hpiece : Piece F n S P) (h : Held i d n P regs above g vm)
    (hin : Within i d S vm) (hF : vm.func? i = some F) (hstep : vm.step = .next vm')
    (hlive : d + 1 ≤ vm'.callStack.length) : ∃ above' g', Held i d n P regs above' g' vm' := by
  rcases hin with ⟨f, hf, hS⟩ | hlong
  · exact h.runs hpiece hf hS hF hstep hlive
  · refine h.under ?_ (fun f rest hstack => step_under hstep hstack) rfl
    rintro rfl
    obtain ⟨below, hstack, hd⟩ := h.stack
    rw [hstack, List.nil_append, List.length_cons] at hlong
    omega

/-- **A run through a piece keeps what is held.** -/
theorem Through.held (hpiece : Piece F n S P) (h : Through i d S vm vm')
    (hF : vm.func? i = some F) (hend : OnTop i d f vm') {above : List CallFrame} {g : CallFrame}
    (h0 : Held i d n P regs above g vm) : Held i d n P regs [] f vm' := by
  induction h generalizing above g with
  | refl vm =>
    obtain ⟨rfl, rfl⟩ := h0.top hend
    exact h0
  | @step vm vm1 vm2 hin hstep hrest ih =>
    have hlive := hrest.length hend.length.ge
    obtain ⟨above', g', h1⟩ := h0.step hpiece hin hF hstep hlive
    exact ih ((step_func? hstep i).trans hF) hend h1

/-- **Straight code.** A run that begins in a piece of straight code and ends
outside it goes through its end. -/
theorem Through.straight {a b : Nat} (hpiece : Piece F 0 (fun pc => a ≤ pc ∧ pc < b)
      (fun pc => a ≤ pc ∧ pc ≤ b)) (h : Through i d S vm vm') (hF : vm.func? i = some F)
    (hend : OnTop i d f vm') (hout : ¬(a ≤ f.pc ∧ f.pc < b)) {above : List CallFrame} {g : CallFrame}
    (h0 : Held i d 0 (fun pc => a ≤ pc ∧ pc ≤ b) regs above g vm) :
    ∃ mid fm, Through i d (fun pc => a ≤ pc ∧ pc < b) vm mid ∧ OnTop i d fm mid ∧ fm.pc = b ∧
      Through i d S mid vm' := by
  induction h generalizing above g with
  | refl vm =>
    obtain ⟨rfl, rfl⟩ := h0.top hend
    have hpc := h0.pc
    exact ⟨vm, g, .refl vm, hend, by omega, .refl vm⟩
  | @step vm vm1 vm2 hin hstep hrest ih =>
    have hlive := hrest.length hend.length.ge
    rcases hin with ⟨f0, hf0, hS⟩ | hlong
    · obtain ⟨rfl, rfl⟩ := h0.top hf0
      by_cases hb : g.pc = b
      · exact ⟨vm, g, .refl vm, hf0, hb, .step (.inl ⟨g, hf0, hS⟩) hstep hrest⟩
      · have hpc := h0.pc
        have hin : a ≤ g.pc ∧ g.pc < b := by omega
        obtain ⟨above', g', h1⟩ := h0.runs hpiece hf0 hin hF hstep hlive
        obtain ⟨mid, fm, hmid, hfm, hpcm, hlast⟩ :=
          ih ((step_func? hstep i).trans hF) hend h1
        exact ⟨mid, fm, .step (.inl ⟨g, hf0, hin⟩) hstep hmid, hfm, hpcm, hlast⟩
    · obtain ⟨above', g', h1⟩ := h0.step hpiece (.inr hlong) hF hstep hlive
      obtain ⟨mid, fm, hmid, hfm, hpcm, hlast⟩ := ih ((step_func? hstep i).trans hF) hend h1
      exact ⟨mid, fm, .step (.inr hlong) hstep hmid, hfm, hpcm, hlast⟩

end

end Vm

end RustPlc.Engine
