import RustPlc.L3Vm.Step

/-!
# How an execution ends

An execution ends with a value when the last frame has returned, and with an
error where it stands: no error path of the interpreter touches the call
stack.

Results:
* `exec_ends`: an instruction that ends the execution with a value has
  emptied the call stack, one that ends it with an error has not; it never
  reports a pause;
* `execute_ends`: the same of a whole execution.
-/
namespace RustPlc.Engine

open RustPlc.Ir RustPlc.Core

/-! ## Computations that do not pause -/

/-- Not the trap of a debugger pause. -/
def NoHalt {α : Type} (x : Except Trap α) : Prop := x ≠ .error (.error .halt)

section

variable {α β : Type}

theorem noHalt_ok (a : α) : NoHalt (.ok a : Except Trap α) := nofun

theorem noHalt_liftPanic (x : Except Panic α) : NoHalt (liftPanic x) := by
  cases x <;> exact nofun

theorem noHalt_index (xs : List α) (i : Nat) : NoHalt (index xs i) := by
  unfold index
  split <;> exact nofun

theorem noHalt_indexSet (xs : List α) (i : Nat) (x : α) : NoHalt (indexSet xs i x) := by
  unfold indexSet
  split <;> exact nofun

theorem noHalt_map {x : Except Trap α} (h : NoHalt x) (g : α → β) : NoHalt (x.map g) := by
  cases x with
  | ok a => exact nofun
  | error t => simpa [NoHalt, Except.map] using h

theorem noHalt_bind {x : Except Trap α} {k : α → Except Trap β} (h : NoHalt x)
    (hk : ∀ a, NoHalt (k a)) : NoHalt (x >>= k) := by
  cases x with
  | ok a => exact hk a
  | error t => simpa [NoHalt, bind, Except.bind] using h

end

namespace CallFrame

variable (f : CallFrame)

theorem noHalt_regGet (r : Reg) : NoHalt (f.regGet r) := noHalt_index _ _

theorem noHalt_regSet (r : Reg) (v : Value) : NoHalt (f.regSet r v) :=
  noHalt_map (noHalt_indexSet _ _ _) _

theorem noHalt_unary (src : Reg) (op : Value → Except Panic Value) : NoHalt (f.unary src op) :=
  noHalt_bind (f.noHalt_regGet src) fun _ => noHalt_liftPanic _

theorem noHalt_binary (l r : Reg) (op : Value → Value → Except Panic Value) :
    NoHalt (f.binary l r op) :=
  noHalt_bind (f.noHalt_regGet l) fun _ =>
    noHalt_bind (f.noHalt_regGet r) fun _ => noHalt_liftPanic _

theorem noHalt_ternary (a b c : Reg) (op : Value → Value → Value → Except Panic Value) :
    NoHalt (f.ternary a b c op) :=
  noHalt_bind (f.noHalt_regGet a) fun _ => noHalt_bind (f.noHalt_regGet b) fun _ =>
    noHalt_bind (f.noHalt_regGet c) fun _ => noHalt_liftPanic _

end CallFrame

namespace Vm

section

variable (vm : Vm) (func : Function) (f : CallFrame) (rest : List CallFrame)

theorem noHalt_overlay (l : MemoryLayout) (slot : UInt16) {x : Except Trap Value}
    (h : NoHalt x) : NoHalt (vm.overlay l slot x) := by
  unfold overlay
  split
  · split
    · exact nofun
    · exact h
  · exact h

theorem noHalt_makeRefLocal (slot : UInt16) : NoHalt (vm.makeRefLocal slot) := by
  unfold makeRefLocal
  dsimp only
  split <;> exact nofun

theorem noHalt_returnTo (v : Value) (rest : List CallFrame) : NoHalt (returnTo v rest) := by
  unfold returnTo
  split
  · exact nofun
  · split
    · exact nofun
    · exact noHalt_map (CallFrame.noHalt_regSet _ _ _) _

theorem noHalt_bindArgs (offset : Nat) : ∀ (args : List (UInt16 × Reg)) (locals : List Value),
    NoHalt (bindArgs f offset args locals)
  | [], _ => nofun
  | (param, arg) :: args, locals => by
    unfold bindArgs
    dsimp only
    split
    · exact nofun
    · exact noHalt_bind (f.noHalt_regGet arg) fun v => noHalt_bindArgs offset args _

theorem noHalt_initClassLoop (count : Nat) (is : List Instruction) :
    ∀ regs locals : List Value, NoHalt (initClassLoop count is regs locals) := by
  induction is with
  | nil =>
    intro regs locals
    exact noHalt_ok _
  | cons i is ih =>
    intro regs locals
    cases i with
    | loadConst dst v => exact noHalt_bind (noHalt_indexSet _ _ _) fun regs' => ih regs' locals
    | storeLocal slot src =>
      show NoHalt (if slot.toNat < count ∧ slot.toNat < locals.length then _ else _)
      split
      · exact noHalt_bind (noHalt_index _ _) fun v => ih regs _
      · exact ih regs locals
    | retVoid | ret => exact noHalt_ok _
    | _ => exact ih regs locals

theorem noHalt_methodState (key : InstanceKey) (cls : Function) (count : Nat)
    (locals : List Value) : NoHalt (vm.methodState key cls count locals) := by
  unfold methodState
  split
  · exact nofun
  · exact noHalt_bind (noHalt_initClassLoop _ _ _ _) fun _ => nofun

variable [F64Ops]

theorem noHalt_divide (l r : Reg) : NoHalt (divide f l r) := by
  refine noHalt_bind (f.noHalt_regGet r) fun v => ?_
  split
  · exact nofun
  · exact noHalt_bind (f.noHalt_regGet l) fun _ => noHalt_liftPanic _

theorem noHalt_modulo (l r : Reg) : NoHalt (modulo f l r) := by
  refine noHalt_bind (f.noHalt_regGet r) fun v => ?_
  split
  · exact nofun
  · exact noHalt_bind (f.noHalt_regGet l) fun _ => noHalt_liftPanic _

theorem noHalt_compute {i : Instruction} {dst : Reg} {x : Except Trap Value}
    (h : vm.compute func f i = some (dst, x)) : NoHalt x := by
  cases i with
  | loadLocal d slot =>
    cases h
    exact vm.noHalt_overlay _ _ (noHalt_index _ _)
  | loadGlobal d slot =>
    cases h
    exact vm.noHalt_overlay _ _ (noHalt_index _ _)
  | div d l r =>
    cases h
    exact noHalt_divide f l r
  | mod d l r =>
    cases h
    exact noHalt_modulo f l r
  | stringReplace d s1 s2 len pos =>
    cases h
    exact noHalt_bind (f.noHalt_regGet pos) fun _ => f.noHalt_ternary _ _ _ _
  | loadArray d slot idx =>
    cases h
    exact noHalt_bind (f.noHalt_regGet idx) fun _ => noHalt_bind (noHalt_liftPanic _) fun _ => nofun
  | loadFieldIndex d slot off idx =>
    cases h
    exact noHalt_bind (f.noHalt_regGet idx) fun _ => noHalt_bind (noHalt_liftPanic _) fun _ => nofun
  | makeRefLocal d slot =>
    cases h
    exact vm.noHalt_makeRefLocal slot
  | deref d ptr =>
    cases h
    exact noHalt_map (f.noHalt_regGet ptr) _
  | _ =>
    cases h <;> first
      | exact noHalt_ok _
      | exact f.noHalt_regGet _
      | exact f.noHalt_unary _ _
      | exact f.noHalt_binary _ _ _
      | exact f.noHalt_ternary _ _ _ _

end

/-! ## Ends -/

/-- A value is left by an empty call stack, an error by one that is not. -/
def Ends : Outcome Vm Stop → Prop
  | .next _ => True
  | .halt (w, .ok _) => w.callStack = []
  | .halt (w, .error t) => w.callStack ≠ [] ∧ t ≠ .error .halt

section

variable {vm : Vm} {func : Function} {f : CallFrame} {rest : List CallFrame}

theorem orTrap_ends {α : Type} {x : Except Trap α} {k : α → Outcome Vm Stop}
    (hstack : vm.callStack ≠ []) (hx : NoHalt x) (hk : ∀ a, x = .ok a → Ends (k a)) :
    Ends (vm.orTrap x k) := by
  cases x with
  | error t => exact ⟨hstack, fun ht => hx (congrArg Except.error ht)⟩
  | ok a => exact hk a rfl

theorem jumpTo_ends (hstack : vm.callStack ≠ []) (label : Label) :
    Ends (vm.jumpTo func f rest label) := by
  unfold jumpTo
  cases func.labelPositions[label.toNat]? with
  | none => exact ⟨hstack, nofun⟩
  | some target => trivial

theorem callFunction_ends (hstack : vm.callStack ≠ []) (fi : UInt16) (dst : Reg)
    (args : List (UInt16 × Reg)) : Ends (vm.callFunction f rest fi dst args) := by
  unfold callFunction
  split
  · exact ⟨hstack, nofun⟩
  · cases vm.func? fi with
    | none => exact ⟨hstack, nofun⟩
    | some callee => exact orTrap_ends hstack (noHalt_bindArgs _ _ _ _) fun _ _ => trivial

theorem callFb_ends (hstack : vm.callStack ≠ []) (fi slot : UInt16)
    (args : List (UInt16 × Reg)) : Ends (vm.callFb f fi slot args func) := by
  unfold callFb
  split
  · exact ⟨hstack, nofun⟩
  · cases vm.func? fi with
    | none => exact ⟨hstack, nofun⟩
    | some callee =>
      refine orTrap_ends hstack (noHalt_bindArgs _ _ _ _) fun _ _ => ?_
      split <;> trivial

/-- A fresh instance does not touch the call stack. -/
theorem methodState_stack {key : InstanceKey} {cls : Function} {count : Nat}
    {locals ls : List Value} {vm1 : Vm}
    (h : vm.methodState key cls count locals = .ok (ls, vm1)) : vm1.callStack = vm.callStack := by
  obtain ⟨instances, rfl⟩ := methodState_eq h
  rfl

theorem callMethod_ends (hstack : vm.callStack ≠ []) (slot ci fi : UInt16) (dst : Reg)
    (args : List (UInt16 × Reg)) : Ends (vm.callMethod f rest slot ci fi dst args) := by
  unfold callMethod
  split
  · refine orTrap_ends hstack (noHalt_methodState _ _ _ _ _) ?_
    rintro ⟨ls, vm1⟩ hs
    have hstack1 : vm1.callStack ≠ [] := by rwa [methodState_stack hs]
    refine orTrap_ends hstack1 (noHalt_bindArgs _ _ _ _) fun _ _ => ?_
    split
    · exact ⟨hstack1, nofun⟩
    · trivial
  · exact ⟨hstack, nofun⟩

/-- The last frame returns, or there is a caller left whatever happens. -/
theorem returnTo_ends {saved : Vm} (hs : saved.callStack = rest) {v : Value}
    {k : List CallFrame → Outcome Vm Stop} (hk : ∀ rest', Ends (k rest')) :
    Ends (saved.orTrap (returnTo v rest) k) := by
  cases rest with
  | nil => exact hk []
  | cons c cs =>
    exact orTrap_ends (by rw [hs]; exact nofun) (noHalt_returnTo v _) fun rest' _ => hk rest'

theorem ret_ends (hstack : vm.callStack ≠ []) (r : Reg) : Ends (vm.ret f rest r) := by
  refine orTrap_ends hstack (f.noHalt_regGet r) fun v _ => ?_
  refine returnTo_ends rfl fun rest' => ?_
  split
  · next hempty => exact List.isEmpty_iff.mp hempty
  · trivial

theorem retVoid_ends : Ends (vm.retVoid rest) := by
  unfold retVoid
  cases rest with
  | nil => exact rfl
  | cons c cs => trivial

theorem fallOff_ends : Ends (vm.fallOff rest) := by
  unfold fallOff
  exact returnTo_ends rfl fun _ => trivial

theorem derefStore_ends (hstack : vm.callStack ≠ []) (p v : Value) :
    Ends (vm.derefStore p v) := by
  unfold derefStore
  split
  · split
    · exact orTrap_ends hstack (noHalt_indexSet _ _ _) fun _ _ => trivial
    · split <;> trivial
  · trivial

theorem storeGlobal_ends (hstack : vm.callStack ≠ []) (slot : UInt16) (src : Reg) :
    Ends (vm.storeGlobal f slot src) := by
  unfold storeGlobal
  split
  · trivial
  · exact orTrap_ends hstack (f.noHalt_regGet src) fun _ _ =>
      orTrap_ends hstack (noHalt_indexSet _ _ _) fun _ _ => trivial

variable [F64Ops]

theorem control_ends (hstack : vm.callStack ≠ []) (i : Instruction) :
    Ends (vm.control func f rest i) := by
  have hreg (r : Reg) := f.noHalt_regGet r
  cases i with
  | storeLocal slot src =>
    exact orTrap_ends hstack (hreg src) fun _ _ =>
      orTrap_ends hstack (noHalt_map (noHalt_indexSet _ _ _) _) fun _ _ => trivial
  | storeGlobal slot src => exact storeGlobal_ends hstack slot src
  | jump l => exact jumpTo_ends hstack l
  | jumpIf r l =>
    refine orTrap_ends hstack (hreg r) fun v _ => ?_
    split
    · exact jumpTo_ends hstack l
    · trivial
  | jumpIfNot r l =>
    refine orTrap_ends hstack (hreg r) fun v _ => ?_
    split
    · trivial
    · exact jumpTo_ends hstack l
  | call fi dst args => exact callFunction_ends hstack fi dst args
  | callFb slot fi args => exact callFb_ends hstack fi slot args
  | callMethod slot ci fi dst args => exact callMethod_ends hstack slot ci fi dst args
  | ret r => exact ret_ends hstack r
  | retVoid => exact retVoid_ends
  | derefStore ptr val =>
    exact orTrap_ends hstack (hreg ptr) fun p _ => orTrap_ends hstack (hreg val) fun v _ =>
      derefStore_ends hstack p v
  | storeArray slot idx val =>
    exact orTrap_ends hstack (hreg idx) fun _ _ => orTrap_ends hstack (hreg val) fun _ _ =>
      orTrap_ends hstack (noHalt_liftPanic _) fun _ _ =>
        orTrap_ends hstack (noHalt_liftPanic _) fun _ _ => trivial
  | storeField slot field val => exact orTrap_ends hstack (hreg val) fun _ _ => trivial
  | storeFieldIndex slot off idx val =>
    exact orTrap_ends hstack (hreg idx) fun _ _ => orTrap_ends hstack (noHalt_liftPanic _)
      fun _ _ => orTrap_ends hstack (hreg val) fun _ _ =>
        orTrap_ends hstack (noHalt_liftPanic _) fun _ _ => trivial
  | _ => trivial

/-- **An instruction ends the execution with a value when no frame is left,
and with an error, never a pause, where it stands.** -/
theorem exec_ends (hstack : vm.callStack ≠ []) (i : Instruction) :
    Ends (vm.exec func f rest i) := by
  unfold exec
  cases hc : vm.compute func f i with
  | none => exact control_ends hstack i
  | some p =>
    exact orTrap_ends hstack (noHalt_compute vm func f hc) fun v _ =>
      orTrap_ends hstack (f.noHalt_regSet _ v) fun _ _ => trivial

/-- The pauses of the debugger are the only other end. -/
theorem step_ends (vm : Vm) :
    (∃ d, vm.callStack ≠ [] ∧ vm.step = .halt (vm.withDebug d, .error (.error .halt))) ∨
      Ends vm.step := by
  unfold step
  cases hstack : vm.callStack with
  | nil => exact .inr hstack
  | cons f rest =>
    have hne : vm.callStack ≠ [] := by
      rw [hstack]
      exact nofun
    simp only
    cases vm.func? f.funcIndex with
    | none => exact .inr ⟨hne, nofun⟩
    | some func =>
      simp only
      cases func.instructions[f.pc]? with
      | none => exact .inr fallOff_ends
      | some i =>
        simp only
        rcases vm.debug.shouldPause f.funcIndex f.pc (f :: rest).length func.sourceMap with
          ⟨d, reason⟩
        cases reason with
        | some r => exact .inl ⟨d.markPaused r, nofun, rfl⟩
        | none =>
          right
          simp only
          split
          · exact ⟨nofun, nofun⟩
          · exact exec_ends (List.cons_ne_nil _ _) i

/-- **An execution that ends with a value has no frame left, one that ends
with an error has.** -/
theorem execute_ends {vm w : Vm} {r : Except Trap Value} (h : HaltsWith step vm (w, r)) :
    w.callStack = [] ↔ r.isOk = true := by
  obtain ⟨t, -, ht⟩ := h
  rcases step_ends t with ⟨d, hne, hd⟩ | he
  · rw [ht] at hd
    obtain ⟨rfl, rfl⟩ : w = t.withDebug d ∧ r = .error (.error .halt) := by simpa using hd
    exact iff_of_false hne Bool.false_ne_true
  · rw [ht] at he
    cases r with
    | ok v => exact iff_of_true he rfl
    | error e => exact iff_of_false he.1 Bool.false_ne_true

end

end Vm

end RustPlc.Engine
