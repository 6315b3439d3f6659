import RustPlc.L4Correct.Code

/-!
# The machine runs the code of the tree

`Running σ R pc vm`: the machine is at position `pc` of the function, its
variables are those of the store `σ` and its registers are `R`. Code of an
expression leaves the variables alone and keeps the registers below its own;
code of a statement needs no register to be kept, except that a `CASE` keeps
its value while it looks at the selectors.

When the interpreter runs out of turns, the machine has made at least as
many steps: so a body that does not end in the interpreter does not end on
the machine.

Results:
* `expression_simulates`, `statements_simulates`: the two walks;
* `whileLoop_simulates`, `repeatLoop_simulates`: the loops, by induction on
  the number of turns.
-/
namespace RustPlc.Correct

open RustPlc.Core RustPlc.Ir RustPlc.Syntax RustPlc.Compiler RustPlc.Engine RustPlc.Semantics

/-- A frame of function `i` that was entered by the host. -/
def frame (i : UInt16) (R locals : List Value) (pc : Nat) : CallFrame :=
  ⟨i, R, locals, pc, none, none⟩

/-- The machine executes function `i` of module `m` and nothing interferes:
no force, no breakpoint, no instruction limit. -/
structure Running (m : Module) (i : UInt16) (F : Function) (σ : Store) (R : List Value) (pc : Nat)
    (vm : Vm) : Prop where
  module : vm.module = m
  func : m.functions[i.toNat]? = some F
  wellFormed : F.WellFormed m
  forces : vm.forcedVariables = ∅
  forcedSlots : vm.forcedGlobalSlots = ∅
  debug : vm.debug.Inactive
  limit : vm.config.maxInstructions = 0
  globals : vm.globals = σ.globals
  stack : vm.callStack = [frame i R σ.locals pc]
  fits : σ.Fits ⟨F.locals, m.globals⟩
  regs : R.length = max F.registerCount.toNat 1

section

variable {m : Module} {i : UInt16} {F : Function} {σ : Store} {R : List Value} {pc : Nat} {vm : Vm}

theorem regGet_frame {r : Reg} {v : Value} {locals : List Value} (h : R[r.toNat]? = some v) :
    (frame i R locals pc).regGet r = .ok v := by
  simp only [CallFrame.regGet, frame, index, h]

theorem regSet_frame {r : Reg} {v : Value} {locals : List Value} (h : r.toNat < R.length) :
    (frame i R locals pc).regSet r v = .ok (frame i (R.set r.toNat v) locals pc) := by
  unfold CallFrame.regSet indexSet
  rw [if_pos (show r.toNat < (frame i R locals pc).registers.length from h)]
  rfl

/-- The operands of the instruction at `pc` are registers of the frame. -/
theorem Running.reg_lt (h : Running m i F σ R pc vm) {p : Nat} {instr : Instruction}
    (hat : At F p instr) {r : Reg} (hr : r ∈ instr.regs) : r.toNat < R.length := by
  have hfit := h.wellFormed.fits instr (List.mem_of_getElem? hat)
  have hlt : r.toNat < F.registerCount.toNat := hfit.regs r hr
  rw [h.regs]
  omega

theorem Running.withStack (h : Running m i F σ R pc vm) {R' : List Value} {pc' : Nat}
    (hR : R'.length = R.length) :
    Running m i F σ R' pc' (vm.withStack [frame i R' σ.locals pc']) :=
  { h with
    stack := rfl
    regs := hR.trans h.regs }

section

variable [F64Ops]

/-- The loop takes the next instruction. -/
theorem Running.step_eq (h : Running m i F σ R pc vm) {instr : Instruction}
    (hat : At F pc instr) :
    ∃ vm1, Running m i F σ R (pc + 1) vm1 ∧
      vm.step = vm1.exec F (frame i R σ.locals (pc + 1)) [] instr := by
  have hfunc : vm.func? i = some F := by
    rw [Vm.func?, h.module]
    exact h.func
  obtain ⟨hpause, hdebug⟩ := DebugState.shouldPause_inactive h.debug i pc 1 F.sourceMap
  rcases hp : vm.debug.shouldPause i pc 1 F.sourceMap with ⟨d, reason⟩
  rw [hp] at hpause hdebug
  obtain rfl : reason = none := hpause
  refine ⟨vm.advance d (frame i R σ.locals pc) [], { h with debug := hdebug, stack := rfl }, ?_⟩
  have hat : F.instructions[(frame i R σ.locals pc).pc]? = some instr := hat
  have hlim : ¬ (0 < (vm.advance d (frame i R σ.locals pc) []).config.maxInstructions ∧
      (vm.advance d (frame i R σ.locals pc) []).config.maxInstructions <
        (vm.advance d (frame i R σ.locals pc) []).instructionCount) := by
    simp [Vm.advance, h.limit]
  unfold Vm.step
  rw [h.stack]
  simp only [show (frame i R σ.locals pc).funcIndex = i from rfl, hfunc, hat]
  rw [show vm.debug.shouldPause i (frame i R σ.locals pc).pc [frame i R σ.locals pc].length
    F.sourceMap = (d, none) from hp]
  exact if_neg hlim

/-- An instruction that fills a register. -/
theorem Running.compute (h : Running m i F σ R pc vm) {instr : Instruction} {dst : Reg}
    {x : Except Trap Value} (hat : At F pc instr) (hdst : dst ∈ instr.regs)
    (hc : ∀ vm1, Running m i F σ R (pc + 1) vm1 →
      vm1.compute F (frame i R σ.locals (pc + 1)) instr = some (dst, x)) :
    match x with
    | .ok v => ∃ vm', vm.step = .next vm' ∧ Running m i F σ (R.set dst.toNat v) (pc + 1) vm'
    | .error t => ∃ vm', vm.step = .halt (vm', .error t) := by
  obtain ⟨vm1, h1, hstep⟩ := h.step_eq hat
  have hlt := h.reg_lt hat hdst
  cases x with
  | ok v =>
    refine ⟨vm1.withStack [frame i (R.set dst.toNat v) σ.locals (pc + 1)], ?_,
      h1.withStack (by simp)⟩
    rw [hstep, Vm.exec, hc vm1 h1]
    simp only [Vm.orTrap, regSet_frame hlt]
  | error t =>
    refine ⟨vm1, ?_⟩
    rw [hstep, Vm.exec, hc vm1 h1]
    rfl

/-! ## Operators and loads -/

omit [F64Ops] in
theorem unary_frame {r : Reg} {v : Value} {locals : List Value} (h : R[r.toNat]? = some v)
    (op : Value → Except Panic Value) :
    (frame i R locals pc).unary r op = liftPanic (op v) := by
  simp only [CallFrame.unary, regGet_frame h]
  rfl

omit [F64Ops] in
theorem binary_frame {a b : Reg} {l r : Value} {locals : List Value} (ha : R[a.toNat]? = some l)
    (hb : R[b.toNat]? = some r) (op : Value → Value → Except Panic Value) :
    (frame i R locals pc).binary a b op = liftPanic (op l r) := by
  simp only [CallFrame.binary, regGet_frame ha, regGet_frame hb]
  rfl

theorem divide_frame {a b : Reg} {l r : Value} {locals : List Value} (ha : R[a.toNat]? = some l)
    (hb : R[b.toNat]? = some r) :
    Vm.divide (frame i R locals pc) a b = binaryValue .div l r := by
  simp only [Vm.divide, regGet_frame ha, regGet_frame hb]
  rfl

theorem modulo_frame {a b : Reg} {l r : Value} {locals : List Value} (ha : R[a.toNat]? = some l)
    (hb : R[b.toNat]? = some r) :
    Vm.modulo (frame i R locals pc) a b = binaryValue .mod l r := by
  simp only [Vm.modulo, regGet_frame ha, regGet_frame hb]
  rfl

theorem unaryInstruction_compute {op : UnaryOp} {dst r : Reg} {v : Value} {locals : List Value}
    (h : R[r.toNat]? = some v) :
    vm.compute F (frame i R locals pc) (unaryInstruction op dst r) =
      some (dst, unaryValue op v) := by
  cases op with
  | neg => exact congrArg (fun x => some (dst, x)) (unary_frame h _)
  | not => exact congrArg (fun x => some (dst, x)) (unary_frame h _)

theorem binaryInstruction_compute {op : BinaryOp} {dst a b : Reg} {l r : Value}
    {locals : List Value} (ha : R[a.toNat]? = some l) (hb : R[b.toNat]? = some r) :
    vm.compute F (frame i R locals pc) (binaryInstruction op dst a b) =
      some (dst, binaryValue op l r) := by
  cases op with
  | div => exact congrArg (fun x => some (dst, x)) (divide_frame ha hb)
  | mod => exact congrArg (fun x => some (dst, x)) (modulo_frame ha hb)
  | _ => exact congrArg (fun x => some (dst, x)) (binary_frame ha hb _)

omit [F64Ops] in
/-- Without forces a variable is read from its place. -/
theorem Running.overlay (h : Running m i F σ R pc vm) (l : MemoryLayout) (slot : UInt16)
    (x : Except Trap Value) : vm.overlay l slot x = x := by
  unfold Vm.overlay Vm.forced?
  rw [h.forces]
  cases l.slots[slot.toNat]? <;> simp

omit [F64Ops] in
theorem index_eq {xs : List Value} {k : Nat} (h : k < xs.length) :
    index xs k = .ok (xs[k]?.getD Value.dflt) := by
  simp [index, List.getElem?_eq_getElem h]

omit [F64Ops] in
theorem place_local_lt {Γ : Scope} {x : String} {slot : UInt16} (h : Γ.place x = .local slot) :
    slot.toNat < Γ.locals.slots.length := by
  unfold Scope.place at h
  split at h
  · next hl =>
    obtain rfl := Place.local.inj h
    exact MemoryLayout.findSlot_lt hl
  · cases h
  · cases h

omit [F64Ops] in
theorem place_global_lt {Γ : Scope} {x : String} {slot : UInt16} (h : Γ.place x = .global slot) :
    slot.toNat < Γ.globals.slots.length := by
  unfold Scope.place at h
  split at h
  · cases h
  · next hl =>
    obtain rfl := Place.global.inj h
    exact MemoryLayout.findSlot_lt hl
  · cases h

theorem Running.load (h : Running m i F σ R pc vm) (x : String) (dst : Reg) {p : Nat} :
    vm.compute F (frame i R σ.locals p) (loadInstruction ⟨F.locals, m.globals⟩ x dst) =
      some (dst, .ok (Scope.read ⟨F.locals, m.globals⟩ σ x)) := by
  unfold loadInstruction Scope.read
  cases hp : Scope.place ⟨F.locals, m.globals⟩ x with
  | «local» slot =>
    have hlt : slot.toNat < σ.locals.length := by
      rw [h.fits.1]
      exact place_local_lt hp
    show some (dst, vm.overlay F.locals slot (index σ.locals slot.toNat)) = _
    rw [h.overlay, index_eq hlt]
  | «global» slot =>
    have hlt : slot.toNat < vm.globals.length := by
      rw [h.globals, h.fits.2]
      exact place_global_lt hp
    show some (dst, vm.overlay vm.module.globals slot (index vm.globals slot.toNat)) = _
    rw [h.overlay, index_eq hlt, h.globals]
  | unknown => rfl

/-! ## Expressions -/

/-- The machine does what the value of an expression asks for: it reaches
`pc` with the value in `r` and the registers below `n` as they were, or it
stops with the trap. -/
def Evaluates (m : Module) (i : UInt16) (F : Function) (σ : Store) (R : List Value) (n : Nat)
    (r : Reg) (pc : Nat) (vm : Vm) : Except Trap Value → Prop
  | .ok v => ∃ vm' R', Reaches Vm.step vm vm' ∧ Running m i F σ R' pc vm' ∧
      R'[r.toNat]? = some v ∧ ∀ k, k < n → R'[k]? = R[k]?
  | .error t => ∃ vm', HaltsWith Vm.step vm (vm', .error t)

/-- Evaluation that starts some steps later. -/
theorem Evaluates.after {R' : List Value} {n : Nat} {r : Reg} {vm' : Vm} {x : Except Trap Value}
    (h : Evaluates m i F σ R' n r pc vm' x) (hreach : Reaches Vm.step vm vm')
    (hkeep : ∀ k, k < n → R'[k]? = R[k]?) : Evaluates m i F σ R n r pc vm x := by
  cases x with
  | ok v =>
    obtain ⟨vm2, R2, hreach2, h2, hr, hkeep2⟩ := h
    exact ⟨vm2, R2, hreach.trans hreach2, h2, hr, fun k hk => by rw [hkeep2 k hk, hkeep k hk]⟩
  | error t =>
    obtain ⟨vm2, hhalt⟩ := h
    exact ⟨vm2, hreach.haltsWith hhalt⟩

/-- One instruction of an expression. -/
theorem Running.evaluates (h : Running m i F σ R pc vm) {instr : Instruction} {r : Reg} {n : Nat}
    {x : Except Trap Value} (hat : At F pc instr) (hdst : r ∈ instr.regs) (hn : n ≤ r.toNat)
    (hc : ∀ vm1, Running m i F σ R (pc + 1) vm1 →
      vm1.compute F (frame i R σ.locals (pc + 1)) instr = some (r, x)) :
    Evaluates m i F σ R n r (pc + 1) vm x := by
  have hlt := h.reg_lt hat hdst
  have hstep := h.compute hat hdst hc
  cases x with
  | ok v =>
    obtain ⟨vm', hnext, hrun⟩ := hstep
    refine ⟨vm', _, .single hnext, hrun, List.getElem?_set_self hlt, fun k hk => ?_⟩
    exact List.getElem?_set_ne (by omega)
  | error t =>
    obtain ⟨vm', hhalt⟩ := hstep
    exact ⟨vm', vm, .refl vm, hhalt⟩

/-- An operator on two registers that cannot fail. -/
theorem Running.operator (h : Running m i F σ R pc vm) (op : BinaryOp) {dst a b : Reg}
    {l r w : Value} {n : Nat} (hop : binaryValue op l r = .ok w)
    (hat : At F pc (binaryInstruction op dst a b)) (ha : R[a.toNat]? = some l)
    (hb : R[b.toNat]? = some r) (hn : n ≤ dst.toNat) :
    ∃ vm' R', Reaches Vm.step vm vm' ∧ Running m i F σ R' (pc + 1) vm' ∧
      R'[dst.toNat]? = some w ∧ ∀ k, k < n → R'[k]? = R[k]? := by
  have he : Evaluates m i F σ R n dst (pc + 1) vm (binaryValue op l r) :=
    h.evaluates hat (by cases op <;> simp [binaryInstruction, Instruction.regs]) hn
      fun _ _ => binaryInstruction_compute ha hb
  rw [hop] at he
  exact he

/-- Only plain variables are read. -/
theorem var_parts {Γ : Scope} {parts : List AccessPart} {range : TextRange} {n n' pc' : Nat}
    {r : Reg} (h : CodeExpr F Γ (.var parts range) n pc r n' pc') :
    ∃ x, parts = [.identifier x] := by
  unfold CodeExpr at h
  split at h
  · exact ⟨_, rfl⟩
  · exact h.elim

/-- The code of `e` computes the value of `e`. -/
def ExprSimulates (m : Module) (i : UInt16) (F : Function) (σ : Store) (e : Expression) : Prop :=
  ∀ ⦃n pc n' pc' : Nat⦄ ⦃r : Reg⦄ ⦃R : List Value⦄ ⦃vm : Vm⦄,
    CodeExpr F ⟨F.locals, m.globals⟩ e n pc r n' pc' → Running m i F σ R pc vm →
    Evaluates m i F σ R n r pc' vm (evalExpr ⟨F.locals, m.globals⟩ σ e)

/-- The code of an expression computes its value. The induction is on the
expression; a left operand survives the right one because its register lies
below those of the right one. -/
theorem expression_simulates : ∀ e : Expression, ExprSimulates m i F σ e
  | .literal kind range => by
    intro n pc n' pc' r R vm hc h
    obtain ⟨v, hv, hat, hr, -, rfl⟩ := hc
    have hval : evalExpr ⟨F.locals, m.globals⟩ σ (.literal kind range) = .ok v := by
      simp only [evalExpr, hv, liftPanic]
    rw [hval]
    exact h.evaluates hat (by simp [Instruction.regs]) (by omega) fun _ _ => rfl
  | .var parts range => by
    intro n pc n' pc' r R vm hc h
    obtain ⟨x, rfl⟩ := var_parts hc
    obtain ⟨hat, hr, -, rfl⟩ := hc
    refine h.evaluates hat ?_ (by omega) fun vm1 h1 => h1.load x.name r
    unfold loadInstruction
    split <;> simp [Instruction.regs]
  | .parenthesized e => expression_simulates e
  | .unary op e range => by
    intro n pc n' pc' r R vm hc h
    obtain ⟨src, k, p, hce, hat, hr, -, rfl⟩ := hc
    have hregs := CodeExpr.regs e hce
    have he := expression_simulates e hce h
    simp only [evalExpr]
    cases hv : evalExpr ⟨F.locals, m.globals⟩ σ e with
    | error t =>
      rw [hv] at he
      exact he
    | ok v =>
      rw [hv] at he
      obtain ⟨vm1, R1, hreach, h1, hsrc, hkeep⟩ := he
      have hop := h1.evaluates (n := n) hat (by cases op <;> simp [unaryInstruction, Instruction.regs])
        (by omega) fun _ _ => unaryInstruction_compute hsrc
      exact hop.after hreach hkeep
  | .binary op a b range => by
    intro n pc n' pc' r R vm hc h
    obtain ⟨ra, rb, k, k', p, q, hca, hcb, hat, hr, -, rfl⟩ := hc
    have hra := CodeExpr.regs a hca
    have hrb := CodeExpr.regs b hcb
    have ha := expression_simulates a hca h
    simp only [evalExpr]
    cases hl : evalExpr ⟨F.locals, m.globals⟩ σ a with
    | error t =>
      rw [hl] at ha
      exact ha
    | ok l =>
      rw [hl] at ha
      obtain ⟨vm1, R1, hreach, h1, hla, hkeep⟩ := ha
      have hb := expression_simulates b hcb h1
      show Evaluates m i F σ R n r _ vm (evalExpr _ σ b >>= fun rv => binaryValue op l rv)
      cases hrv : evalExpr ⟨F.locals, m.globals⟩ σ b with
      | error t =>
        rw [hrv] at hb
        obtain ⟨vm', hhalt⟩ := hb
        exact ⟨vm', hreach.haltsWith hhalt⟩
      | ok rv =>
        rw [hrv] at hb
        obtain ⟨vm2, R2, hreach2, h2, hlb, hkeep2⟩ := hb
        have hla2 : R2[ra.toNat]? = some l := by rw [hkeep2 _ hra.2, hla]
        have hop := h2.evaluates (n := n) hat
          (by cases op <;> simp [binaryInstruction, Instruction.regs]) (by omega)
          fun _ _ => binaryInstruction_compute hla2 hlb
        refine hop.after (hreach.trans hreach2) fun j hj => ?_
        rw [hkeep2 j (by omega), hkeep j hj]
  | .functionCall _ _ _ | .thisInstance _ | .superInstance _ => by
    intro n pc n' pc' r R vm hc h
    exact hc.elim

/-! ## Jumps and stores -/

omit [F64Ops] in
theorem jumpTo_frame {l : Label} {p : Nat} {locals : List Value} (hl : LabelAt F l p) :
    vm.jumpTo F (frame i R locals pc) [] l = .next (vm.withStack [frame i R locals p]) := by
  unfold Vm.jumpTo
  rw [hl]
  rfl

theorem Running.jump (h : Running m i F σ R pc vm) {l : Label} {p : Nat}
    (hat : At F pc (.jump l)) (hl : LabelAt F l p) :
    ∃ vm', vm.step = .next vm' ∧ Running m i F σ R p vm' := by
  obtain ⟨vm1, h1, hstep⟩ := h.step_eq hat
  refine ⟨_, ?_, h1.withStack rfl⟩
  rw [hstep]
  exact jumpTo_frame hl

theorem Running.jumpIf (h : Running m i F σ R pc vm) {l : Label} {p : Nat} {r : Reg} {v : Value}
    (hat : At F pc (.jumpIf r l)) (hl : LabelAt F l p) (hr : R[r.toNat]? = some v) :
    ∃ vm', vm.step = .next vm' ∧ Running m i F σ R (if v.asBool then p else pc + 1) vm' := by
  obtain ⟨vm1, h1, hstep⟩ := h.step_eq hat
  have hexec : vm1.exec F (frame i R σ.locals (pc + 1)) [] (.jumpIf r l) =
      if v.asBool then vm1.jumpTo F (frame i R σ.locals (pc + 1)) [] l else .next vm1 := by
    show vm1.orTrap ((frame i R σ.locals (pc + 1)).regGet r) _ = _
    rw [regGet_frame hr]
    rfl
  rw [hstep, hexec]
  cases v.asBool with
  | true => exact ⟨_, jumpTo_frame hl, h1.withStack rfl⟩
  | false => exact ⟨_, rfl, h1⟩

theorem Running.jumpIfNot (h : Running m i F σ R pc vm) {l : Label} {p : Nat} {r : Reg}
    {v : Value} (hat : At F pc (.jumpIfNot r l)) (hl : LabelAt F l p) (hr : R[r.toNat]? = some v) :
    ∃ vm', vm.step = .next vm' ∧ Running m i F σ R (if v.asBool then pc + 1 else p) vm' := by
  obtain ⟨vm1, h1, hstep⟩ := h.step_eq hat
  have hexec : vm1.exec F (frame i R σ.locals (pc + 1)) [] (.jumpIfNot r l) =
      if v.asBool then .next vm1 else vm1.jumpTo F (frame i R σ.locals (pc + 1)) [] l := by
    show vm1.orTrap ((frame i R σ.locals (pc + 1)).regGet r) _ = _
    rw [regGet_frame hr]
    rfl
  rw [hstep, hexec]
  cases v.asBool with
  | true => exact ⟨_, rfl, h1⟩
  | false => exact ⟨_, jumpTo_frame hl, h1.withStack rfl⟩

/-- The store of an assignment. -/
theorem Running.store (h : Running m i F σ R pc vm) {x : String} {r : Reg} {v : Value} {pc' : Nat}
    (hc : CodeStore F ⟨F.locals, m.globals⟩ x r pc pc') (hr : R[r.toNat]? = some v) :
    ∃ vm', Reaches Vm.step vm vm' ∧
      Running m i F (Scope.write ⟨F.locals, m.globals⟩ σ x v) R pc' vm' := by
  have hfits := Scope.write_fits h.fits x v
  unfold CodeStore at hc
  unfold Scope.write at hfits ⊢
  cases hp : Scope.place ⟨F.locals, m.globals⟩ x with
  | «local» slot =>
    simp only [hp] at hc hfits ⊢
    obtain ⟨hat, rfl⟩ := hc
    obtain ⟨vm1, h1, hstep⟩ := h.step_eq hat
    have hlt : slot.toNat < σ.locals.length := by
      rw [h.fits.1]
      exact place_local_lt hp
    refine ⟨_, .single (t := vm1.withStack [frame i R
      (σ.locals.set slot.toNat (narrowValue v (slotWidth F.locals slot))) (pc + 1)]) ?_,
      { h1 with stack := rfl, fits := hfits }⟩
    rw [hstep]
    show vm1.orTrap ((frame i R σ.locals (pc + 1)).regGet r) _ = _
    rw [regGet_frame hr]
    show vm1.orTrap (Vm.localSet F (frame i R σ.locals (pc + 1)) slot v) _ = _
    unfold Vm.localSet indexSet
    rw [if_pos (show slot.toNat < (frame i R σ.locals (pc + 1)).locals.length from hlt)]
    rfl
  | «global» slot =>
    simp only [hp] at hc hfits ⊢
    obtain ⟨hat, rfl⟩ := hc
    obtain ⟨vm1, h1, hstep⟩ := h.step_eq hat
    have hlt : slot.toNat < vm1.globals.length := by
      rw [h1.globals, h.fits.2]
      exact place_global_lt hp
    refine ⟨_, .single (t := { vm1 with
      globals := vm1.globals.set slot.toNat (narrowValue v (slotWidth vm1.module.globals slot)) }) ?_,
      { h1 with globals := by rw [h1.globals, h1.module], fits := hfits }⟩
    rw [hstep]
    show vm1.storeGlobal (frame i R σ.locals (pc + 1)) slot r = _
    unfold Vm.storeGlobal
    rw [if_neg (by simp [h1.forcedSlots]), regGet_frame hr]
    show vm1.orTrap (indexSet vm1.globals slot.toNat _) _ = _
    unfold indexSet
    rw [if_pos hlt]
    rfl
  | unknown =>
    simp only [hp] at hc hfits ⊢
    obtain rfl := hc
    exact ⟨vm, .refl vm, h⟩

/-! ## Selectors -/

/-- The machine does what the answer of a selector asks for: it goes to the
body, it goes on with the value still in its register, or it stops. -/
def Selects (m : Module) (i : UInt16) (F : Function) (σ : Store) (r : Reg) (v : Value)
    (body pc : Nat) (vm : Vm) : Except Trap Bool → Prop
  | .ok true => ∃ vm' R', Reaches Vm.step vm vm' ∧ Running m i F σ R' body vm'
  | .ok false => ∃ vm' R', Reaches Vm.step vm vm' ∧ Running m i F σ R' pc vm' ∧
      R'[r.toNat]? = some v
  | .error t => ∃ vm', HaltsWith Vm.step vm (vm', .error t)

theorem Selects.after {r : Reg} {v : Value} {body p : Nat} {vm' : Vm} {x : Except Trap Bool}
    (h : Selects m i F σ r v body p vm' x) (hreach : Reaches Vm.step vm vm') :
    Selects m i F σ r v body p vm x := by
  rcases x with t | b
  · obtain ⟨vm2, hhalt⟩ := h
    exact ⟨vm2, hreach.haltsWith hhalt⟩
  · cases b with
    | true =>
      obtain ⟨vm2, R2, hreach2, h2⟩ := h
      exact ⟨vm2, R2, hreach.trans hreach2, h2⟩
    | false =>
      obtain ⟨vm2, R2, hreach2, h2, hv⟩ := h
      exact ⟨vm2, R2, hreach.trans hreach2, h2, hv⟩

/-- The jump at the end of a selector. -/
theorem Running.select (h : Running m i F σ R pc vm) {l : Label} {body : Nat} {c r : Reg}
    {v w : Value} (hat : At F pc (.jumpIf c l)) (hl : LabelAt F l body)
    (hc : R[c.toNat]? = some w) (hr : R[r.toNat]? = some v) :
    Selects m i F σ r v body (pc + 1) vm (.ok w.asBool) := by
  obtain ⟨vm', hnext, h'⟩ := h.jumpIf hat hl hc
  cases hw : w.asBool with
  | true =>
    rw [hw] at h'
    exact ⟨vm', R, .single hnext, h'⟩
  | false =>
    rw [hw] at h'
    exact ⟨vm', R, .single hnext, h', hr⟩

theorem selector_simulates {l : Label} {body : Nat} (hl : LabelAt F l body) (sel : CaseSelector)
    {pc' : Nat} {r : Reg} {v : Value}
    (hc : CodeSelector F ⟨F.locals, m.globals⟩ r l sel pc pc')
    (h : Running m i F σ R pc vm) (hr : R[r.toNat]? = some v) :
    Selects m i F σ r v body pc' vm (selects ⟨F.locals, m.globals⟩ σ v sel) := by
  cases sel with
  | single e =>
    obtain ⟨n, r1, k, p, c, hn, hce, hck, hcmp, hjump, rfl⟩ := hc
    have hregs := CodeExpr.regs e hce
    have he := expression_simulates e hce h
    simp only [selects]
    cases hw : evalExpr ⟨F.locals, m.globals⟩ σ e with
    | error t =>
      rw [hw] at he
      exact he
    | ok w =>
      rw [hw] at he
      obtain ⟨vm1, R1, hreach, h1, hr1, hkeep⟩ := he
      have hv1 : R1[r.toNat]? = some v := by rw [hkeep _ hn, hr]
      obtain ⟨vm2, R2, hreach2, h2, hc2, hkeep2⟩ :=
        h1.operator .eq rfl hcmp hv1 hr1 (Nat.le_of_eq hck.symm)
      have hv2 : R2[r.toNat]? = some v := by rw [hkeep2 _ (by omega), hv1]
      exact (h2.select hjump hl hc2 hv2).after (hreach.trans hreach2)
  | range lo hi =>
    obtain ⟨n, r1, k, p, r2, k', q, c, c', b, hn, hclo, hchi, hck, hck', hbk, hge, hle, hand, hjump,
      rfl⟩ := hc
    have hregs1 := CodeExpr.regs lo hclo
    have hregs2 := CodeExpr.regs hi hchi
    have hlo := expression_simulates lo hclo h
    simp only [selects]
    cases hw : evalExpr ⟨F.locals, m.globals⟩ σ lo with
    | error t =>
      rw [hw] at hlo
      exact hlo
    | ok w =>
      rw [hw] at hlo
      obtain ⟨vm1, R1, hreach1, h1, hr1, hkeep1⟩ := hlo
      have hhi := expression_simulates hi hchi h1
      show Selects m i F σ r v body _ vm (evalExpr _ σ hi >>= fun w' => pure _)
      cases hw' : evalExpr ⟨F.locals, m.globals⟩ σ hi with
      | error t =>
        rw [hw'] at hhi
        obtain ⟨vm2, hhalt⟩ := hhi
        exact ⟨vm2, hreach1.haltsWith hhalt⟩
      | ok w' =>
        rw [hw'] at hhi
        obtain ⟨vm2, R2, hreach2, h2, hr2, hkeep2⟩ := hhi
        have hv2 : R2[r.toNat]? = some v := by rw [hkeep2 _ (by omega), hkeep1 _ hn, hr]
        have hlo2 : R2[r1.toNat]? = some w := by rw [hkeep2 _ hregs1.2, hr1]
        -- the two comparisons and their conjunction, each in a fresh register
        obtain ⟨vm3, R3, hreach3, h3, hc3, hkeep3⟩ :=
          h2.operator .ge rfl hge hv2 hlo2 (Nat.le_of_eq hck.symm)
        have hv3 : R3[r.toNat]? = some v := by rw [hkeep3 _ (by omega), hv2]
        have hhi3 : R3[r2.toNat]? = some w' := by rw [hkeep3 _ hregs2.2, hr2]
        obtain ⟨vm4, R4, hreach4, h4, hc4, hkeep4⟩ :=
          h3.operator .le rfl hle hv3 hhi3 (Nat.le_of_eq hck'.symm)
        have hv4 : R4[r.toNat]? = some v := by rw [hkeep4 _ (by omega), hv3]
        have hge4 : R4[c.toNat]? = some (geValues v w) := by rw [hkeep4 _ (by omega), hc3]
        obtain ⟨vm5, R5, hreach5, h5, hb5, hkeep5⟩ :=
          h4.operator .and rfl hand hge4 hc4 (Nat.le_of_eq hbk.symm)
        have hv5 : R5[r.toNat]? = some v := by rw [hkeep5 _ (by omega), hv4]
        exact (h5.select hjump hl hb5 hv5).after
          (hreach1.trans (hreach2.trans (hreach3.trans (hreach4.trans hreach5))))

theorem selectors_simulates {l : Label} {body : Nat} (hl : LabelAt F l body) :
    ∀ (sels : List CaseSelector) {pc pc' : Nat} {r : Reg} {v : Value} {R : List Value} {vm : Vm},
    CodeSelectors F ⟨F.locals, m.globals⟩ r l sels pc pc' → Running m i F σ R pc vm →
    R[r.toNat]? = some v →
    Selects m i F σ r v body pc' vm (selectsAny ⟨F.locals, m.globals⟩ σ v sels)
  | [], pc, pc', r, v, R, vm, hc, h, hr => by
    obtain rfl := hc
    exact ⟨vm, R, .refl vm, h, hr⟩
  | sel :: sels, pc, pc', r, v, R, vm, hc, h, hr => by
    obtain ⟨p, hc1, hc2⟩ := hc
    have h1 := selector_simulates hl sel hc1 h hr
    simp only [selectsAny]
    rcases hx : selects ⟨F.locals, m.globals⟩ σ v sel with t | b
    · rw [hx] at h1
      exact h1
    · rw [hx] at h1
      cases b with
      | true => exact h1
      | false =>
        obtain ⟨vm1, R1, hreach, h1, hr1⟩ := h1
        exact (selectors_simulates hl sels hc2 h1 hr1).after hreach

/-! ## Statements -/

/-- The machine does what the result of a statement asks for: it goes to the
end of the statement or to the exit of the innermost loop with the new
store, it stops with the trap, or it has made `n` steps. -/
def Simulates (m : Module) (i : UInt16) (F : Function) (exit : Option Label) (n pc : Nat)
    (vm : Vm) : Result → Prop
  | none => RunsFor Vm.step n vm
  | some (.error t) => ∃ vm', HaltsWith Vm.step vm (vm', .error t)
  | some (.ok (.normal, σ)) => ∃ vm' R', Reaches Vm.step vm vm' ∧ Running m i F σ R' pc vm'
  | some (.ok (.exit, σ)) => ∃ l p vm' R', exit = some l ∧ LabelAt F l p ∧
      Reaches Vm.step vm vm' ∧ Running m i F σ R' p vm'

section

variable {exit : Option Label} {n pc' : Nat}

theorem Simulates.after {vm' : Vm} {r : Result} (h : Simulates m i F exit n pc' vm' r)
    (hreach : Reaches Vm.step vm vm') : Simulates m i F exit n pc' vm r := by
  rcases r with _ | t | ⟨flow, σ⟩
  · exact hreach.runsFor h
  · obtain ⟨vm2, hhalt⟩ := h
    exact ⟨vm2, hreach.haltsWith hhalt⟩
  · cases flow with
    | normal =>
      obtain ⟨vm2, R2, hreach2, h2⟩ := h
      exact ⟨vm2, R2, hreach.trans hreach2, h2⟩
    | exit =>
      obtain ⟨l, p, vm2, R2, hl, hp, hreach2, h2⟩ := h
      exact ⟨l, p, vm2, R2, hl, hp, hreach.trans hreach2, h2⟩

/-- A statement after an expression. -/
theorem Evaluates.simulates {R' : List Value} {k p : Nat} {r : Reg} {x : Except Trap Value}
    {f : Value → Result} (h : Evaluates m i F σ R' k r p vm x)
    (hf : ∀ v R1 vm1, Running m i F σ R1 p vm1 → R1[r.toNat]? = some v →
      Simulates m i F exit n pc' vm1 (f v)) :
    Simulates m i F exit n pc' vm (check x f) := by
  cases x with
  | error t => exact h
  | ok v =>
    obtain ⟨vm1, R1, hreach, h1, hr, -⟩ := h
    exact (hf v R1 vm1 h1 hr).after hreach

/-- A statement after a statement. -/
theorem Simulates.andThen {p : Nat} {r : Result} {f : Store → Result}
    (h : Simulates m i F exit n p vm r)
    (hf : ∀ σ' R1 vm1, Running m i F σ' R1 p vm1 → Simulates m i F exit n pc' vm1 (f σ')) :
    Simulates m i F exit n pc' vm (r.andThen f) := by
  rcases r with _ | t | ⟨flow, σ'⟩
  · exact h
  · exact h
  · cases flow with
    | normal =>
      obtain ⟨vm1, R1, hreach, h1⟩ := h
      exact (hf σ' R1 vm1 h1).after hreach
    | exit => exact h

/-- A statement whose end jumps somewhere else. -/
theorem Simulates.jump {p : Nat} {r : Result} {l : Label} (h : Simulates m i F exit n p vm r)
    (hat : At F p (.jump l)) (hl : LabelAt F l pc') : Simulates m i F exit n pc' vm r := by
  rcases r with _ | t | ⟨flow, σ'⟩
  · exact h
  · exact h
  · cases flow with
    | normal =>
      obtain ⟨vm1, R1, hreach, h1⟩ := h
      obtain ⟨vm2, hstep, h2⟩ := h1.jump hat hl
      exact ⟨vm2, R1, hreach.trans (.single hstep), h2⟩
    | exit => exact h

/-- One more step before a statement is one more turn. -/
theorem Simulates.later {vm' : Vm} {r : Result} (h : Simulates m i F exit n pc' vm' r)
    (hstep : vm.step = .next vm') : Simulates m i F exit (n + 1) pc' vm r := by
  have h' := h.after (.single hstep)
  rcases r with _ | t | ⟨flow, σ⟩
  · exact RunsFor.head hstep h
  · exact h'
  · cases flow with
    | normal => exact h'
    | exit => exact h'

/-- A `WHILE` loop from its first label to behind its last jump, by induction
on the number of turns. -/
theorem whileLoop_simulates {c : Expression} {f : Store → Result} {pc p q a b : Nat} {r : Reg}
    {loopL exitL : Label} {N : Nat} (hloop : LabelAt F loopL pc)
    (hcond : CodeExpr F ⟨F.locals, m.globals⟩ c a pc r b p) (htest : At F p (.jumpIfNot r exitL))
    (hjump : At F q (.jump loopL)) (hexit : LabelAt F exitL (q + 1))
    (hbody : ∀ σ R vm, Running m i F σ R (p + 1) vm →
      Simulates m i F (some exitL) N q vm (f σ)) :
    ∀ (k : Nat), k ≤ N → ∀ (σ : Store) (R : List Value) (vm : Vm), Running m i F σ R pc vm →
      Simulates m i F exit k (q + 1) vm
        (whileLoop (evalExpr ⟨F.locals, m.globals⟩ · c) f k σ)
  | 0, _, σ, R, vm, h => ⟨0, vm, Nat.le_refl 0, rfl⟩
  | k + 1, hk, σ, R, vm, h => by
    refine (expression_simulates c hcond h).simulates fun v R1 vm1 h1 hr => ?_
    obtain ⟨vm2, htaken, h2⟩ := h1.jumpIfNot htest hexit hr
    cases hv : v.asBool with
    | false =>
      rw [hv] at h2
      exact ⟨vm2, R1, .single htaken, h2⟩
    | true =>
      rw [hv] at h2
      have hb := hbody σ R1 vm2 h2
      simp only [if_true]
      rcases hres : f σ with _ | t | ⟨flow, σ'⟩
      · rw [hres] at hb
        exact (Reaches.single htaken).runsFor (RunsFor.mono hb hk)
      · rw [hres] at hb
        obtain ⟨vm3, hhalt⟩ := hb
        exact ⟨vm3, (Reaches.single htaken).haltsWith hhalt⟩
      · rw [hres] at hb
        cases flow with
        | exit =>
          obtain ⟨l, p', vm3, R3, hl, hp', hreach, h3⟩ := hb
          obtain rfl := Option.some.inj hl
          obtain rfl : q + 1 = p' := Option.some.inj (hexit.symm.trans hp')
          exact ⟨vm3, R3, (Reaches.single htaken).trans hreach, h3⟩
        | normal =>
          obtain ⟨vm3, R3, hreach, h3⟩ := hb
          obtain ⟨vm4, hback, h4⟩ := h3.jump hjump hloop
          have hrest := whileLoop_simulates hloop hcond htest hjump hexit hbody k (by omega) σ' R3
            vm4 h4
          exact (hrest.later hback).after ((Reaches.single htaken).trans hreach)

/-- A `REPEAT` loop, likewise. -/
theorem repeatLoop_simulates {c : Expression} {f : Store → Result} {pc p q a b : Nat} {r : Reg}
    {loopL exitL : Label} {N : Nat} (hloop : LabelAt F loopL pc)
    (hcond : CodeExpr F ⟨F.locals, m.globals⟩ c a q r b p) (htest : At F p (.jumpIfNot r loopL))
    (hexit : LabelAt F exitL (p + 1))
    (hbody : ∀ σ R vm, Running m i F σ R pc vm → Simulates m i F (some exitL) N q vm (f σ)) :
    ∀ (k : Nat), k ≤ N → ∀ (σ : Store) (R : List Value) (vm : Vm), Running m i F σ R pc vm →
      Simulates m i F exit k (p + 1) vm
        (repeatLoop (evalExpr ⟨F.locals, m.globals⟩ · c) f k σ)
  | 0, _, σ, R, vm, h => ⟨0, vm, Nat.le_refl 0, rfl⟩
  | k + 1, hk, σ, R, vm, h => by
    have hb := hbody σ R vm h
    simp only [repeatLoop]
    rcases hres : f σ with _ | t | ⟨flow, σ'⟩
    · rw [hres] at hb
      exact RunsFor.mono hb hk
    · rw [hres] at hb
      exact hb
    · rw [hres] at hb
      cases flow with
      | exit =>
        obtain ⟨l, p', vm1, R1, hl, hp', hreach, h1⟩ := hb
        obtain rfl := Option.some.inj hl
        obtain rfl : p + 1 = p' := Option.some.inj (hexit.symm.trans hp')
        exact ⟨vm1, R1, hreach, h1⟩
      | normal =>
        obtain ⟨vm1, R1, hreach, h1⟩ := hb
        refine Simulates.after ?_ hreach
        refine (expression_simulates c hcond h1).simulates fun v R2 vm2 h2 hr => ?_
        obtain ⟨vm3, htaken, h3⟩ := h2.jumpIfNot htest hloop hr
        cases hv : v.asBool with
        | true =>
          rw [hv] at h3
          exact ⟨vm3, R2, .single htaken, h3⟩
        | false =>
          rw [hv] at h3
          have hrest := repeatLoop_simulates hloop hcond htest hexit hbody k (by omega) σ' R2 vm3 h3
          exact hrest.later htaken

end

/-- Only plain variables are assigned. -/
theorem assignment_target {Γ : Scope} {target : VariableAccess} {value : Expression}
    {range : TextRange} {exit : Option Label} {pc' : Nat}
    (h : CodeStatement F Γ (.assignment target value range) exit pc pc') :
    ∃ x r, target = ⟨[.identifier x], r⟩ := by
  obtain ⟨parts, r⟩ := target
  unfold CodeStatement at h
  split at h
  · next x hx =>
    obtain rfl : parts = [.identifier x] := hx
    exact ⟨x, r, rfl⟩
  · exact h.elim

/-- The code that `code` describes makes the machine do what `exec` says, in
a loop or outside of any. -/
def CodeSimulates (m : Module) (i : UInt16) (F : Function) (N : Nat)
    (code : Option Label → Nat → Nat → Prop) (exec : Bool → Store → Result) : Prop :=
  ∀ ⦃exit : Option Label⦄ ⦃pc pc' : Nat⦄ ⦃σ : Store⦄ ⦃R : List Value⦄ ⦃vm : Vm⦄, code exit pc pc' →
    Running m i F σ R pc vm → Simulates m i F exit N pc' vm (exec exit.isSome σ)

/-- The same for code that may go on with another part, `otherwise`, before
it gets to where its end label is. -/
def PartSimulates (m : Module) (i : UInt16) (F : Function) (N : Nat)
    (code : Option Label → Label → Nat → Nat → Prop)
    (exec : Bool → (Store → Result) → Store → Result) : Prop :=
  ∀ ⦃exit : Option Label⦄ ⦃endL : Label⦄ ⦃pc q pc' : Nat⦄ ⦃σ : Store⦄ ⦃R : List Value⦄ ⦃vm : Vm⦄
    ⦃otherwise : Store → Result⦄, code exit endL pc q → LabelAt F endL pc' →
    (∀ σ R vm, Running m i F σ R q vm → Simulates m i F exit N pc' vm (otherwise σ)) →
    Running m i F σ R pc vm → Simulates m i F exit N pc' vm (exec exit.isSome otherwise σ)

variable {N : Nat}

mutual

/-- **One statement.** The recursion is over the tree; the number of turns of
the loops stays the same all the way down. -/
theorem statement_simulates : ∀ st : Statement,
    CodeSimulates m i F N (CodeStatement F ⟨F.locals, m.globals⟩ st)
      (execStatement ⟨F.locals, m.globals⟩ N st)
  | .assignment target value range => by
    intro exit pc pc' σ R vm hc h
    obtain ⟨x, range, rfl⟩ := assignment_target hc
    obtain ⟨n, r, k, p, hcv, hcs⟩ := hc
    refine (expression_simulates value hcv h).simulates fun v R1 vm1 h1 hr => ?_
    obtain ⟨vm2, hreach, h2⟩ := h1.store hcs hr
    exact ⟨vm2, R1, hreach, h2⟩
  | .ifStmt condition thenBody elsifs elseBody range => by
    intro exit pc pc' σ R vm hc h
    obtain ⟨n, r, k, p, elseL, endL, q, q', hcond, htest, hthen, hjump, helse, helsifs, hels,
      hend⟩ := hc
    refine (expression_simulates condition hcond h).simulates fun v R1 vm1 h1 hr => ?_
    obtain ⟨vm2, htaken, h2⟩ := h1.jumpIfNot htest helse hr
    refine Simulates.after ?_ (.single htaken)
    cases hv : v.asBool with
    | true =>
      rw [hv] at h2
      exact (statements_simulates thenBody hthen h2).jump hjump hend
    | false =>
      rw [hv] at h2
      exact elsifs_simulates elsifs helsifs hend
        (fun σ' R' vm' h' => else_simulates elseBody hels h') h2
  | .caseStmt expression branches elseBody range => by
    intro exit pc pc' σ R vm hc h
    obtain ⟨n, r, k, p, endL, q, hexpr, hbranches, hels, hend⟩ := hc
    refine (expression_simulates expression hexpr h).simulates fun v R1 vm1 h1 hr => ?_
    exact branches_simulates branches hbranches hend
      (fun σ' R' vm' h' => else_simulates elseBody hels h') h1 hr
  | .whileStmt condition body range => by
    intro exit pc pc' σ R vm hc h
    obtain ⟨n, r, k, p, loopL, exitL, q, hloop, hcond, htest, hbody, hjump, rfl, hexit⟩ := hc
    exact whileLoop_simulates hloop hcond htest hjump hexit
      (fun σ' R' vm' h' => statements_simulates body hbody h') N (Nat.le_refl N) σ R vm h
  | .repeatStmt body condition range => by
    intro exit pc pc' σ R vm hc h
    obtain ⟨n, r, k, p, loopL, exitL, q, hloop, hbody, hcond, htest, rfl, hexit⟩ := hc
    exact repeatLoop_simulates hloop hcond htest hexit
      (fun σ' R' vm' h' => statements_simulates body hbody h') N (Nat.le_refl N) σ R vm h
  | .exit range => by
    intro exit pc pc' σ R vm hc h
    cases exit with
    | none =>
      obtain rfl := hc
      exact ⟨vm, R, .refl vm, h⟩
    | some l =>
      obtain ⟨hat, rfl⟩ := hc
      -- the label is placed, since the code is well formed
      have hfit := h.wellFormed.fits _ (List.mem_of_getElem? hat)
      have hlt : l.toNat < F.labelPositions.length :=
        hfit.labels l (by simp [Instruction.labels])
      have hl : LabelAt F l F.labelPositions[l.toNat] := List.getElem?_eq_getElem hlt
      obtain ⟨vm', hstep, h'⟩ := h.jump hat hl
      exact ⟨l, _, vm', R, rfl, hl, .single hstep, h'⟩
  | .empty range => by
    intro exit pc pc' σ R vm hc h
    obtain rfl := hc
    exact ⟨vm, R, .refl vm, h⟩
  | .functionCall _ _ _ | .forStmt _ _ _ _ _ _ | .returnStmt _ => by
    intro exit pc pc' σ R vm hc h
    exact hc.elim

theorem statements_simulates : ∀ sts : List Statement,
    CodeSimulates m i F N (CodeStatements F ⟨F.locals, m.globals⟩ sts)
      (execStatements ⟨F.locals, m.globals⟩ N sts)
  | [] => by
    intro exit pc pc' σ R vm hc h
    obtain rfl := hc
    exact ⟨vm, R, .refl vm, h⟩
  | st :: sts => by
    intro exit pc pc' σ R vm hc h
    obtain ⟨p, hst, hsts⟩ := hc
    exact (statement_simulates st hst h).andThen
      fun σ' R1 vm1 h1 => statements_simulates sts hsts h1

theorem else_simulates : ∀ els : Option (List Statement),
    CodeSimulates m i F N (CodeElse F ⟨F.locals, m.globals⟩ els)
      (execElse ⟨F.locals, m.globals⟩ N els)
  | none => by
    intro exit pc pc' σ R vm hc h
    obtain rfl := hc
    exact ⟨vm, R, .refl vm, h⟩
  | some body => statements_simulates body

theorem elsifs_simulates : ∀ clauses : List ElsifClause,
    PartSimulates m i F N (CodeElsifs F ⟨F.locals, m.globals⟩ clauses)
      (execElsifs ⟨F.locals, m.globals⟩ N clauses)
  | [] => by
    intro exit endL pc q pc' σ R vm otherwise hc hend ho h
    obtain rfl := hc
    exact ho σ R vm h
  | .mk condition body :: clauses => by
    intro exit endL pc q pc' σ R vm otherwise hc hend ho h
    obtain ⟨n, r, k, p, nextL, q', hcond, htest, hbody, hjump, hnext, hclauses⟩ := hc
    refine (expression_simulates condition hcond h).simulates fun v R1 vm1 h1 hr => ?_
    obtain ⟨vm2, htaken, h2⟩ := h1.jumpIfNot htest hnext hr
    refine Simulates.after ?_ (.single htaken)
    cases hv : v.asBool with
    | true =>
      rw [hv] at h2
      exact (statements_simulates body hbody h2).jump hjump hend
    | false =>
      rw [hv] at h2
      exact elsifs_simulates clauses hclauses hend ho h2

theorem branches_simulates : ∀ (branches : List CaseBranch) {r : Reg} {v : Value},
    (∀ ⦃exit : Option Label⦄ ⦃endL : Label⦄ ⦃pc q pc' : Nat⦄ ⦃σ : Store⦄ ⦃R : List Value⦄ ⦃vm : Vm⦄
      ⦃otherwise : Store → Result⦄,
      CodeBranches F ⟨F.locals, m.globals⟩ branches exit endL r pc q → LabelAt F endL pc' →
      (∀ σ R vm, Running m i F σ R q vm → Simulates m i F exit N pc' vm (otherwise σ)) →
      Running m i F σ R pc vm → R[r.toNat]? = some v →
      Simulates m i F exit N pc' vm
        (execBranches ⟨F.locals, m.globals⟩ N branches exit.isSome v otherwise σ))
  | [], r, v => by
    intro exit endL pc q pc' σ R vm otherwise hc hend ho h hr
    obtain rfl := hc
    exact ho σ R vm h
  | .mk selectors body :: branches, r, v => by
    intro exit endL pc q pc' σ R vm otherwise hc hend ho h hr
    obtain ⟨p, bodyL, nextL, q', hsels, hskip, hbodyl, hbody, hjump, hnext, hbranches⟩ := hc
    have hsel := selectors_simulates hbodyl selectors hsels h hr
    simp only [execBranches]
    rcases hx : selectsAny ⟨F.locals, m.globals⟩ σ v selectors with t | b
    · rw [hx] at hsel
      exact hsel
    · rw [hx] at hsel
      cases b with
      | true =>
        obtain ⟨vm1, R1, hreach, h1⟩ := hsel
        exact ((statements_simulates body hbody h1).jump hjump hend).after hreach
      | false =>
        obtain ⟨vm1, R1, hreach, h1, hr1⟩ := hsel
        obtain ⟨vm2, hstep, h2⟩ := h1.jump hskip hnext
        exact (branches_simulates branches hbranches hend ho h2 hr1).after
          (hreach.trans (.single hstep))

end

end

end

end RustPlc.Correct
