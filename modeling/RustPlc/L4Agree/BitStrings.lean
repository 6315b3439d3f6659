import RustPlc.L4Agree.Comparison
import RustPlc.L4Agree.ExpressionRuns

/-!
# Bit-string logic

The analyzer types `AND`, `OR`, `XOR` and `NOT` of bit strings as bit strings
(crates/st-semantics/src/analyze.rs:2141-2160 "both must be BOOL (or
bit-strings for bitwise)"). The instructions `And`, `Or`, `Xor` and `Not`
(crates/st-engine/src/vm.rs:1454-1470) read each operand as a truth value and
deliver a truth value.

`Logic` is an expression built from the four operators, over operands of any
kind. `Sees` collects the values that the code of the operands leaves, in a
run through the code of the whole expression.

Results:
* `logic_bitwise_iff`: the value has the right truth value, and the right bits
  exactly when the bitwise result is 0 or 1 and says the same as the truth
  values;
* `words_not_bitwise`: an accepted program makes 1 of 12 AND 10.
-/
namespace RustPlc.Agree

open RustPlc.Ir RustPlc.Syntax RustPlc.Compiler RustPlc.Engine RustPlc.Analysis RustPlc.Correct

/-! ## Expressions -/

inductive LogicOp where
  | and | or | xor

namespace LogicOp

/-- The operator of the source. -/
def op : LogicOp → BinaryOp
  | and => .and
  | or => .or
  | xor => .xor

def test : LogicOp → Bool → Bool → Bool
  | and, a, b => a && b
  | or, a, b => a || b
  | xor, a, b => a ^^ b

end LogicOp

/-- An expression of the four operators over operands of `α`. -/
inductive Logic (α : Type) where
  | operand (a : α)
  | paren (t : Logic α)
  | not (t : Logic α) (range : TextRange)
  | binary (op : LogicOp) (l r : Logic α) (range : TextRange)

namespace Logic

/-- The expression as it is written. -/
def source : Logic Expression → Expression
  | operand e => e
  | paren t => .parenthesized t.source
  | not t range => .unary .not t.source range
  | binary op l r range => .binary op.op l.source r.source range

/-- The logical result. -/
def truth : Logic Value → Bool
  | operand v => v.asBool
  | paren t => t.truth
  | not t _ => !t.truth
  | binary op l r _ => op.test l.truth r.truth

/-- An operand alone. -/
def isOperand {α : Type} : Logic α → Bool
  | operand _ => true
  | paren t => t.isOperand
  | _ => false

/-- What the machine makes of the values. -/
def machine : Logic Value → Value
  | operand v => v
  | paren t => t.machine
  | not t _ => notValue t.machine
  | binary op l r _ => .bool (op.test l.machine.asBool r.machine.asBool)

theorem asBool_machine : ∀ t : Logic Value, t.machine.asBool = t.truth
  | operand _ => rfl
  | paren t => asBool_machine t
  | not t _ => congrArg Bool.not (asBool_machine t)
  | binary op l r _ => congrArg₂ op.test (asBool_machine l) (asBool_machine r)

theorem machine_eq : ∀ t : Logic Value, t.isOperand = false → t.machine = .bool t.truth
  | paren t, h => machine_eq t h
  | not t _, _ => by rw [machine, truth, notValue, asBool_machine]
  | binary op l r _, _ => by rw [machine, truth, asBool_machine, asBool_machine]

section

variable [F64Ops]

/-- Bit `k` of the bitwise result. -/
def bit (k : Nat) : Logic Value → Bool
  | operand v => v.bit k
  | paren t => t.bit k
  | not t _ => !t.bit k
  | binary op l r _ => op.test (l.bit k) (r.bit k)

theorem bit_operand (k : Nat) : ∀ t : Logic Value, t.isOperand = true → t.machine.bit k = t.bit k
  | operand _, _ => rfl
  | paren t, h => bit_operand k t h

theorem bit_bool (b : Bool) (k : Nat) : (Value.bool b).bit k = (decide (k = 0) && b) := by
  have hone : ∀ k : Nat, k ≠ 0 → (1 : Int) / 2 ^ k = 0 := by
    intro k hk
    have h2 : (1 : Int) < 2 ^ k := one_lt_pow₀ (by norm_num) hk
    exact Int.ediv_eq_zero_of_lt (by omega) h2
  cases b with
  | false =>
    have hnum : (Value.bool false).number = 0 := rfl
    simp [Value.bit, hnum]
  | true =>
    have hnum : (Value.bool true).number = 1 := rfl
    by_cases hk : k = 0
    · simp [Value.bit, hnum, hk]
    · simp [Value.bit, hnum, hone k hk, hk]

end

end Logic

/-! ## A run through the code -/

section

variable [F64Ops] {env : ModuleEnv} {i : UInt16} {d : Nat}

/-- In a run through the code of the expression, the code of each operand left
the value that stands in its place. -/
inductive Sees (env : ModuleEnv) (i : UInt16) (d : Nat) : Logic Expression → FunctionCompiler →
    FunctionCompiler → Vm → Vm → Logic Value → Prop where
  | operand {e : Expression} {s s' : FunctionCompiler} {r : Reg} {f f' : CallFrame} {vm vm' : Vm}
      {v : Value} (hc : compileExpression env e s = .ok (r, s'))
      (hrun : Crosses i d s.instructions.length s'.instructions.length f f' vm vm')
      (hv : f'.regGet r = .ok v) :
    Sees env i d (.operand e) s s' vm vm' (.operand v)
  | paren {t : Logic Expression} {s s' : FunctionCompiler} {vm vm' : Vm} {tv : Logic Value}
      (h : Sees env i d t s s' vm vm' tv) : Sees env i d (.paren t) s s' vm vm' (.paren tv)
  | not {t : Logic Expression} {range : TextRange} {s s1 s' : FunctionCompiler} {vm mid vm' : Vm}
      {g f' : CallFrame} {tv : Logic Value} (h : Sees env i d t s s1 vm mid tv)
      (hrun : Crosses i d s1.instructions.length s'.instructions.length g f' mid vm') :
    Sees env i d (.not t range) s s' vm vm' (.not tv range)
  | binary {op : LogicOp} {l r : Logic Expression} {range : TextRange}
      {s s1 s2 s' : FunctionCompiler} {vm mid mid' vm' : Vm} {g f' : CallFrame}
      {lv rv : Logic Value} (hl : Sees env i d l s s1 vm mid lv)
      (hr : Sees env i d r s1 s2 mid mid' rv)
      (hrun : Crosses i d s2.instructions.length s'.instructions.length g f' mid' vm') :
    Sees env i d (.binary op l r range) s s' vm vm' (.binary op lv rv range)

variable {F : Function} {s s' : FunctionCompiler} {vm vm' : Vm} {f f' : CallFrame}

omit [F64Ops] in
theorem regGet_kept {r : Reg} {v : Value} {n : Nat} (hr : r.toNat < n)
    (hkept : ∀ k < n, f'.registers[k]? = f.registers[k]?) (hv : f.regGet r = .ok v) :
    f'.regGet r = .ok v := by
  unfold CallFrame.regGet index at hv ⊢
  rw [hkept r.toNat hr]
  exact hv

theorem compute_logic (op : LogicOp) {g : CallFrame} {u : Vm} {dst l r : Reg} {a b : Value}
    (hl : g.regGet l = .ok a) (hr : g.regGet r = .ok b) :
    u.compute F g (binaryInstruction op.op dst l r) =
      some (dst, .ok (.bool (op.test a.asBool b.asBool))) := by
  have hbin : ∀ k : Value → Value → Value,
      g.binary l r (fun a b => .ok (k a b)) = .ok (k a b) := fun k => by
    simp only [CallFrame.binary, hl, hr]
    rfl
  cases op with
  | and => exact congrArg (fun x => some (dst, x)) (hbin andValues)
  | or => exact congrArg (fun x => some (dst, x)) (hbin orValues)
  | xor => exact congrArg (fun x => some (dst, x)) (hbin xorValues)

theorem compute_not {g : CallFrame} {u : Vm} {dst r : Reg} {a : Value} (hr : g.regGet r = .ok a) :
    u.compute F g (unaryInstruction .not dst r) = some (dst, .ok (notValue a)) := by
  have hun : g.unary r (fun a => .ok (notValue a)) = .ok (notValue a) := by
    simp only [CallFrame.unary, hr]
    rfl
  exact congrArg (fun x => some (dst, x)) hun

/-- A run through the code of the expression leaves what the machine makes of
the values of the operands. -/
theorem logic_runs : ∀ (t : Logic Expression) {s s' : FunctionCompiler} {r : Reg}
    {f f' : CallFrame} {vm vm' : Vm}, compileExpression env t.source s = .ok (r, s') →
    Begins F s' → vm.func? i = some F → vm.Idle → s'.nextReg.toNat ≤ f.registers.length →
    Crosses i d s.instructions.length s'.instructions.length f f' vm vm' →
    ∃ tv, Sees env i d t s s' vm vm' tv ∧ f'.regGet r = .ok tv.machine
  | .operand e, s, s', r, f, f', vm, vm', hc, hF, hfunc, hidle, hregs, hrun => by
    have hfresh := (compileExpression_fresh env e).fresh hc
    have hsize := (hrun.kept (compileExpression_appends hc) hF hfunc hidle).1
    have hv : f'.regGet r = .ok (f'.reg r) := regGet_reg (by omega)
    exact ⟨.operand (f'.reg r), .operand hc hrun hv, hv⟩
  | .paren t, s, s', r, f, f', vm, vm', hc, hF, hfunc, hidle, hregs, hrun => by
    obtain ⟨tv, hsees, hv⟩ := logic_runs t hc hF hfunc hidle hregs hrun
    exact ⟨.paren tv, .paren hsees, hv⟩
  | .not t range, s, s', r, f, f', vm, vm', hc, hF, hfunc, hidle, hregs, hrun => by
    obtain ⟨src, s1, h1, h2⟩ := bind_ok hc
    have a1 := compileExpression_appends h1
    have a2 := Appends.emitTo h2 (fun d => unaryInstruction_fills .not d src)
    have hF1 := a2.begins hF
    have hle := a2.regs
    obtain ⟨mid, g, hrun1, hrun2⟩ := hrun.cut a1 a2 hF hfunc hidle
    obtain ⟨tv, hsees, hv⟩ := logic_runs t h1 hF1 hfunc hidle (by omega) hrun1
    obtain ⟨v, hx, hget⟩ := hrun2.last h2 hF (hrun1.func? hfunc) fun u k hk =>
      compute_not (g := k) (u := u) (by rw [← hv]; unfold CallFrame.regGet; rw [hk])
    cases hx
    exact ⟨.not tv range, .not hsees hrun2, hget⟩
  | .binary op l r' range, s, s', r, f, f', vm, vm', hc, hF, hfunc, hidle, hregs, hrun => by
    obtain ⟨ra, s1, h1, hc⟩ := bind_ok hc
    obtain ⟨rb, s2, h2, h3⟩ := bind_ok hc
    have a1 := compileExpression_appends h1
    have a2 := compileExpression_appends h2
    have a3 := Appends.emitTo h3 (fun d => binaryInstruction_fills op.op d ra rb)
    have hF2 := a3.begins hF
    have hF1 := a2.begins hF2
    have hle1 := a1.regs
    have hle2 := a2.regs
    have hle3 := a3.regs
    have a12 : Appends s.nextReg.toNat s s2 := ClosedAbove.trans s.nextReg.toNat a1 (a2.mono hle1)
    -- the run ends the left operand, then the right one, then the operator
    obtain ⟨mid2, k, hrun12, hrun3⟩ := hrun.cut a12 a3 hF hfunc hidle
    obtain ⟨mid1, g, hrun1, hrun2⟩ := hrun12.cut a1 a2 hF2 hfunc hidle
    have hfunc1 := hrun1.func? hfunc
    have hidle1 := hrun1.idle hidle
    have hsize1 := (hrun1.kept a1 hF1 hfunc hidle).1
    obtain ⟨lv, hl, hlv⟩ := logic_runs l h1 hF1 hfunc hidle (by omega) hrun1
    obtain ⟨rv, hr, hrv⟩ := logic_runs r' h2 hF2 hfunc1 hidle1 (by omega) hrun2
    -- the left value is still in its register
    have hlv' := regGet_kept ((compileExpression_fresh env _).fresh h1).2
      (hrun2.kept a2 hF2 hfunc1 hidle1).2 hlv
    obtain ⟨v, hx, hget⟩ := hrun3.last h3 hF (hrun2.func? hfunc1) fun u c hk =>
      compute_logic op (g := c) (u := u)
        (by rw [← hlv']; unfold CallFrame.regGet; rw [hk])
        (by rw [← hrv]; unfold CallFrame.regGet; rw [hk])
    cases hx
    exact ⟨.binary op lv rv range, .binary hl hr hrun3, hget⟩

/-- **Logic is bitwise on no more than one bit.** A run through the code of the
expression delivers the logical result; on `w` bits it delivers the bitwise
result exactly when there is no operator at all, or the bitwise result is 0 or
1 and says the same as the truth values of the operands. -/
theorem logic_bitwise_iff {t : Logic Expression} {r : Reg}
    (hc : compileExpression env t.source s = .ok (r, s')) (hF : Begins F s')
    (hfunc : vm.func? i = some F) (hidle : vm.Idle)
    (hregs : s'.nextReg.toNat ≤ f.registers.length)
    (hrun : Crosses i d s.instructions.length s'.instructions.length f f' vm vm') :
    ∃ tv v, Sees env i d t s s' vm vm' tv ∧ f'.regGet r = .ok v ∧ v.asBool = tv.truth ∧
      ∀ w, (∀ k < w, v.bit k = tv.bit k) ↔
        (tv.isOperand = true ∨ ∀ k < w, tv.bit k = (decide (k = 0) && tv.truth)) := by
  obtain ⟨tv, hsees, hv⟩ := logic_runs t hc hF hfunc hidle hregs hrun
  refine ⟨tv, tv.machine, hsees, hv, tv.asBool_machine, fun w => ?_⟩
  cases hop : tv.isOperand with
  | true => exact iff_of_true (fun k _ => tv.bit_operand k hop) (.inl rfl)
  | false =>
    rw [tv.machine_eq hop]
    simp only [Logic.bit_bool, Bool.false_eq_true, false_or]
    exact forall₂_congr fun k _ => eq_comm

end

/-! ## One bit and more -/

/-- `1 AND 3` -/
def oneAndThree : Logic Expression :=
  .binary .and (.operand (.ofInt 1)) (.operand (.ofInt 3)) noRange

def oneAndThreeEnd : FunctionCompiler :=
  match @compileExpression default ⟨[], .empty, ∅⟩ oneAndThree.source (.new []) with
  | .ok (_, s) => s
  | .error _ => .new []

def oneAndThreeMain : Function :=
  ⟨"Main", .program, 3, oneAndThreeEnd.instructions, [], .empty, [], 0⟩

/-- The machine after `n` iterations. -/
def oneAndThreeAfter : Nat → Vm
  | 0 => (Vm.new ⟨[oneAndThreeMain], .empty, [], []⟩ .default).withStack
    [⟨0, List.replicate 3 Value.dflt, [], 0, none, none⟩]
  | n + 1 => left (@Vm.step default (oneAndThreeAfter n))

/-- The run of `1 AND 3` leaves 1, bit by bit. -/
theorem one_and_three : ∃ f v, (oneAndThreeAfter 3).callStack = [f] ∧ f.regGet 2 = .ok v ∧
    v.asBool = true := by
  let _ : F64Ops := default
  have hrun : Crosses 0 0 0 oneAndThreeEnd.instructions.length
      ⟨0, List.replicate 3 Value.dflt, [], 0, none, none⟩
      ⟨0, [.int 1, .int 3, .bool true], [], 3, none, none⟩
      (oneAndThreeAfter 0) (oneAndThreeAfter 3) :=
    { start := ⟨[], rfl, rfl, rfl⟩
      startPc := rfl
      run := .step (.inl ⟨_, ⟨[], rfl, rfl, rfl⟩, by unfold Between; decide⟩)
        (show (oneAndThreeAfter 0).step = .next (oneAndThreeAfter 1) from rfl)
        (.step (.inl ⟨_, ⟨[], rfl, rfl, rfl⟩, by unfold Between; decide⟩)
          (show (oneAndThreeAfter 1).step = .next (oneAndThreeAfter 2) from rfl)
          (.step (.inl ⟨_, ⟨[], rfl, rfl, rfl⟩, by unfold Between; decide⟩) rfl (.refl _)))
      finish := ⟨[], rfl, rfl, rfl⟩
      finishPc := rfl }
  have hidle : (oneAndThreeAfter 0).Idle := by
    intro f rest hstack
    obtain ⟨rfl, -⟩ := List.cons.inj hstack
    rfl
  have hcode : compileExpression ⟨[], .empty, ∅⟩ oneAndThree.source (.new []) =
    .ok (2, oneAndThreeEnd) := rfl
  obtain ⟨tv, v, -, hv, -, -⟩ := logic_bitwise_iff (F := oneAndThreeMain) hcode ⟨[], rfl⟩ rfl hidle
    (by decide) hrun
  have hone : v = .bool true := by
    cases hv
    rfl
  exact ⟨_, v, rfl, hv, by rw [hone]; rfl⟩

/-- `c := a AND b;` with three words. -/
def wordsSource (a b : Int64) : SourceFile := ⟨[
  .program ⟨"Main", [.of [.plain "c" (.elementary .word),
      .init "a" (.elementary .word) (.ofInt a), .init "b" (.elementary .word) (.ofInt b)]],
    [.assign "c" (.binary .and (.ofName "a") (.ofName "b") noRange)]⟩]⟩

/-- **12 AND 10 is 1.** The analyzer accepts the program. -/
theorem words_not_bitwise :
    ¬ ∀ (_ : F64Ops) (a b : Int64) (m : Module), accepts (wordsSource a b) = true →
      compile (wordsSource a b) = .ok m → ∀ fuel v, firstLocal fuel m = some v →
        ∀ k < 16, v.bit k = ((Value.int a).bit k && (Value.int b).bit k) := by
  intro h
  have hacc : accepts (wordsSource 12 10) = true := by decide +kernel
  have hrun : @yields default (wordsSource 12 10) (fun m =>
      decide (@firstLocal default 100 m = some (.bool true))) = true := by
    decide +kernel
  obtain ⟨m, hm, hp⟩ := (@yields_iff default _ _).mp hrun
  have hbit := h default 12 10 m hacc hm 100 _ (of_decide_eq_true hp) 3 (by decide)
  have hboth : (@Value.bit default (.int 12) 3 && @Value.bit default (.int 10) 3) = true := by
    decide
  rw [hboth, @Logic.bit_bool default] at hbit
  cases hbit

end RustPlc.Agree
