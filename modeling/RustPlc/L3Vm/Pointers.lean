import RustPlc.L2Semantics.AnalyzeModule
import RustPlc.L3Vm.Instances

/-!
# References to variables

`REF` of a local gives the position of the running frame in the call stack and a
slot; `REF` of a global gives a slot (crates/st-engine/src/vm.rs:1912-1975). Nothing
in the reference says which activation or which layout it was made in.

Results:
* `deref_reached`, `derefStore_reached`: a dereference reads or writes the variable
  that `reached` names, and no other;
* `Passes.function`: while the stack stays higher than a position, the frame there
  is the same activation;
* `pointer_integrity_iff`: a dereference reaches what `REF` was applied to, or nothing
  when that activation has ended, exactly when the activation still runs at the
  position that the tag names, or nothing stands there.
-/
namespace RustPlc.Engine

open RustPlc.Ir RustPlc.Core RustPlc.Syntax RustPlc.Compiler RustPlc.Analysis

/-- A variable of a machine: a slot of the frame at a position of the call stack,
counted from the bottom, or a global. -/
inductive Variable where
  | stack (k slot : Nat)
  | global (slot : Nat)
  deriving DecidableEq, Repr

/-- The variable in `slot` of the frame at position `k`, if there is one. -/
def Vm.stackVariable (vm : Vm) (k slot : Nat) : Option Variable :=
  (vm.frameAt k).bind fun g => if slot < g.locals.length then some (.stack k slot) else none

/-- The global in `slot`, if there is one. -/
def Vm.globalVariable (vm : Vm) (slot : Nat) : Option Variable :=
  if slot < vm.globals.length then some (.global slot) else none

/-- The variable that a dereference of the value reads or writes. -/
def Vm.reached (vm : Vm) : Value → Option Variable
  | .ref tag slot =>
    if tag = 0 ∨ tag = 1 then vm.globalVariable slot.toNat
    else vm.stackVariable (tag - 2).toNat slot.toNat
  | _ => none

/-- What is in a variable. -/
def Vm.content (vm : Vm) : Variable → Option Value
  | .stack k slot => (vm.frameAt k).bind fun g => g.locals[slot]?
  | .global slot => vm.globals[slot]?

/-- What a dereference that reaches nothing reads. -/
def nothing : Value → Value
  | .ref tag _ => if tag = 0 ∨ tag = 1 then .void else .int 0
  | _ => .int 0

section

variable {vm vm' : Vm} {v : Value} {x : Variable}

theorem stackVariable_iff {k slot : Nat} : vm.stackVariable k slot = some x ↔
    ∃ g, vm.frameAt k = some g ∧ slot < g.locals.length ∧ x = .stack k slot := by
  unfold Vm.stackVariable
  rw [Option.bind_eq_some_iff]
  refine exists_congr fun g => and_congr_right fun _ => ?_
  by_cases hlen : slot < g.locals.length
  · rw [if_pos hlen, Option.some.injEq, eq_comm]
    exact (and_iff_right hlen).symm
  · rw [if_neg hlen]
    exact iff_of_false (by exact fun h => by cases h) fun h => hlen h.1

theorem globalVariable_iff {slot : Nat} : vm.globalVariable slot = some x ↔
    slot < vm.globals.length ∧ x = .global slot := by
  unfold Vm.globalVariable
  by_cases hlen : slot < vm.globals.length
  · rw [if_pos hlen, Option.some.injEq, eq_comm]
    exact (and_iff_right hlen).symm
  · rw [if_neg hlen]
    exact iff_of_false (by exact fun h => by cases h) fun h => hlen h.1

/-- **A dereference reads the variable it reaches.** -/
theorem deref_reached (vm : Vm) (v : Value) :
    vm.deref v = ((vm.reached v).bind vm.content).getD (nothing v) := by
  cases v with
  | ref tag slot =>
    unfold Vm.deref Vm.reached nothing
    by_cases htag : tag = 0 ∨ tag = 1
    · simp only [if_pos htag]
      by_cases hlen : slot.toNat < vm.globals.length
      · rw [globalVariable_iff.mpr ⟨hlen, rfl⟩]
        rfl
      · rw [List.getElem?_eq_none (by omega), Vm.globalVariable, if_neg hlen]
        rfl
    · simp only [if_neg htag]
      cases hframe : vm.frameAt (tag - 2).toNat with
      | none =>
        rw [Vm.stackVariable, hframe]
        rfl
      | some g =>
        by_cases hlen : slot.toNat < g.locals.length
        · rw [stackVariable_iff.mpr ⟨g, hframe, hlen, rfl⟩, Option.bind_some, Vm.content, hframe]
          rfl
        · show (g.locals[slot.toNat]?).getD (.int 0) = _
          rw [List.getElem?_eq_none (by omega), Vm.stackVariable, hframe, Option.bind_some,
            if_neg hlen]
          rfl
  | _ => rfl

/-- `w` is written to the place, if it is one, and nothing else changes. -/
def Writes (vm vm' : Vm) (place : Option Variable) (w : Value) : Prop :=
  ∀ x, (place = some x → vm'.content x = some w) ∧
    (place ≠ some x → vm'.content x = vm.content x)

theorem writes_global (vm : Vm) (slot : Nat) (w : Value) :
    Writes vm { vm with globals := vm.globals.set slot w } (vm.globalVariable slot) w := by
  intro x
  constructor
  · intro h
    obtain ⟨hlen, rfl⟩ := globalVariable_iff.mp h
    exact List.getElem?_set_self hlen
  · intro h
    cases x with
    | stack k t => rfl
    | global t =>
      show (vm.globals.set slot w)[t]? = vm.globals[t]?
      by_cases hst : slot = t
      · subst hst
        have hlen : ¬ slot < vm.globals.length := fun hlen => h (globalVariable_iff.mpr ⟨hlen, rfl⟩)
        rw [List.set_eq_of_length_le (by omega)]
      · exact List.getElem?_set_ne hst

theorem writes_stack (vm : Vm) (k slot : Nat) (w : Value) :
    Writes vm (vm.modifyFrameAt k fun fr => { fr with locals := fr.locals.set slot w })
      (vm.stackVariable k slot) w := by
  have hframe : ∀ j, (vm.modifyFrameAt k fun fr =>
      { fr with locals := fr.locals.set slot w }).frameAt j =
      (vm.frameAt j).map fun fr =>
        if k = j then { fr with locals := fr.locals.set slot w } else fr := by
    intro j
    simp only [Vm.frameAt, Vm.modifyFrameAt, Vm.withStack_callStack, List.reverse_reverse,
      List.getElem?_modify, Option.map_eq_map]
  intro x
  constructor
  · intro h
    obtain ⟨g, hg, hlen, rfl⟩ := stackVariable_iff.mp h
    unfold Vm.content
    simp only [hframe, hg, Option.map_some, if_true, Option.bind_some]
    exact List.getElem?_set_self hlen
  · intro h
    cases x with
    | global t => rfl
    | stack j t =>
      unfold Vm.content
      simp only [hframe]
      cases hg : vm.frameAt j with
      | none => rfl
      | some g =>
        simp only [Option.map_some, Option.bind_some]
        by_cases hkj : k = j
        · subst hkj
          rw [if_pos rfl]
          show (g.locals.set slot w)[t]? = g.locals[t]?
          by_cases hst : slot = t
          · subst hst
            have hlen : ¬ slot < g.locals.length := fun hlen =>
              h (stackVariable_iff.mpr ⟨g, hg, hlen, rfl⟩)
            rw [List.set_eq_of_length_le (by omega)]
          · exact List.getElem?_set_ne hst
        · rw [if_neg hkj]

/-- **A store through a reference writes the variable it reaches**, and no other. -/
theorem derefStore_reached {w : Value} (h : vm.derefStore v w = .next vm') :
    Writes vm vm' (vm.reached v) w := by
  unfold Vm.derefStore at h
  split at h
  · next tag slot =>
    unfold Vm.reached
    by_cases h0 : tag = 0
    · rw [if_pos h0] at h
      obtain ⟨gs, hgs, h⟩ := Vm.orTrap_next h
      have hset : gs = vm.globals.set slot.toNat w := by
        unfold indexSet at hgs
        split at hgs
        · exact (Except.ok.inj hgs).symm
        · cases hgs
      cases h
      simp only [if_pos (Or.inl h0 : tag = 0 ∨ tag = 1), hset]
      exact writes_global vm slot.toNat w
    · rw [if_neg h0] at h
      by_cases h1 : tag = 1
      · rw [if_pos h1] at h
        cases h
        simp only [if_pos (Or.inr h1 : tag = 0 ∨ tag = 1)]
        exact writes_global vm slot.toNat w
      · rw [if_neg h1] at h
        cases h
        simp only [if_neg (not_or.mpr ⟨h0, h1⟩)]
        exact writes_stack vm _ slot.toNat w
  · next hne =>
    cases h
    have hnone : vm.reached v = none := by
      cases v with
      | ref tag slot => exact absurd rfl (hne tag slot)
      | _ => rfl
    rw [hnone]
    exact fun x => ⟨fun h => (by cases h), fun _ => rfl⟩

end

/-! ## The activation at a position -/

namespace Vm

section

variable [F64Ops] {vm vm' : Vm} {f : CallFrame} {rest : List CallFrame}

/-- A run from one machine to another, with the machines on the way. -/
inductive Passes : List Vm → Vm → Vm → Prop where
  | done (vm : Vm) : Passes [] vm vm
  | move {us : List Vm} {vm vm1 vm2 : Vm} (h : Move vm () vm1) (hrest : Passes us vm1 vm2) :
    Passes (vm :: us) vm vm2

/-- The frame at position `k` is there all the time: the stack changes by one
frame at a time, so that it is one activation. -/
def Running (k : Nat) (us : List Vm) (vm : Vm) : Prop := ∀ u ∈ us ++ [vm], k < u.callStack.length

omit [F64Ops] in
theorem frameAt_split {k : Nat} (h : vm.frameAt k = some f) :
    ∃ above below, vm.callStack = above ++ f :: below ∧ below.length = k := by
  unfold frameAt at h
  obtain ⟨hlen, hget⟩ := List.getElem?_eq_some_iff.mp h
  have hsplit := List.take_append_drop k vm.callStack.reverse
  rw [List.drop_eq_getElem_cons hlen, hget] at hsplit
  refine ⟨(vm.callStack.reverse.drop (k + 1)).reverse, (vm.callStack.reverse.take k).reverse, ?_, ?_⟩
  · have hback := congrArg List.reverse hsplit
    rw [List.reverse_append, List.reverse_cons, List.append_assoc, List.reverse_reverse] at hback
    exact hback.symm
  · rw [List.length_reverse, List.length_take]
    omega

/-- The running frame stays the frame of its function as long as it stays. -/
theorem step_function (hstack : vm.callStack = f :: rest) (h : vm.step = .next vm')
    (hlen : rest.length < vm'.callStack.length) :
    ∃ above g below, vm'.callStack = above ++ g :: below ∧ below.length = rest.length ∧
      g.funcIndex = f.funcIndex := by
  obtain ⟨f', rest', func, hstack', -, ⟨-, hoff⟩ | ⟨d, i, -, hexec⟩⟩ := step_next h
  · obtain ⟨rfl, rfl⟩ := List.cons.inj (hstack.symm.trans hstack')
    have := (fallOff_pops hoff).length_eq
    omega
  · obtain ⟨rfl, rfl⟩ := List.cons.inj (hstack.symm.trans hstack')
    cases hl : leaves i with
    | true =>
      have hpop : List.Forall₂ CallFrame.SamePlace rest vm'.callStack := by
        cases i with
        | ret r =>
          obtain ⟨v, -, hto⟩ := ret_pops hexec
          exact samePlace_returnTo hto
        | retVoid => exact retVoid_pops hexec
        | _ => cases hl
      have := hpop.length_eq
      omega
    | false =>
      generalize hto : vm'.callStack = stack
      have hran := exec_ran (vm.advance_callStack d f rest) hl hexec
      rw [hto] at hran
      cases hran with
      | on hi _ _ _ hrest => exact ⟨[], _, _, rfl, hrest.length_eq.symm, hi⟩
      | jumps _ hi _ _ _ => exact ⟨[], _, _, rfl, rfl, hi⟩
      | calls hi _ _ _ _ => exact ⟨[_], _, _, rfl, rfl, hi⟩

/-- What happens to a machine leaves the frame at a position there, or ends it. -/
theorem Move.function {k : Nat} (h : Move vm () vm') (hf : vm.frameAt k = some f)
    (hlen : k < vm'.callStack.length) :
    ∃ g, vm'.frameAt k = some g ∧ g.funcIndex = f.funcIndex := by
  obtain ⟨above, below, hstack, rfl⟩ := frameAt_split hf
  suffices hsplit : ∃ above' g below', vm'.callStack = above' ++ g :: below' ∧
      below'.length = below.length ∧ g.funcIndex = f.funcIndex by
    obtain ⟨above', g, below', hstack', hb, hg⟩ := hsplit
    exact ⟨g, hb ▸ frameAt_append hstack', hg⟩
  cases above with
  | cons a as =>
    by_cases hend : vm'.callStack.length = below.length + 1
    · have hback := h.returns hstack (List.cons_ne_nil _ _) hend
      exact ⟨[], _, below, hback, rfl, rfl⟩
    · obtain ⟨above', g, below', hstack', -, hw, hb⟩ :=
        h.waits hstack (List.cons_ne_nil _ _) (by omega)
      exact ⟨above', g, below', hstack', hb, hw.funcIndex⟩
  | nil =>
    rw [List.nil_append] at hstack
    cases h with
    | next h => exact step_function hstack h hlen
    | done h =>
      have hends := execute_ends ⟨vm, .refl vm, h⟩
      rw [hends.mpr rfl] at hlen
      cases hlen
    | failed h =>
      rcases step_failed h with hsame | ⟨f', rest', hf', hnext⟩
      · exact ⟨[], f, below, hsame.trans hstack, rfl, rfl⟩
      · obtain ⟨rfl, rfl⟩ := List.cons.inj (hf'.symm.trans hstack)
        exact ⟨[], _, rest', hnext, rfl, rfl⟩
    | start h =>
      obtain ⟨c, -, hpush⟩ := enterRun_pushes h
      exact ⟨[c], f, below, by rw [hpush, hstack]; rfl, rfl, rfl⟩
    | host h =>
      rcases h with h | h
      · exact ⟨[], f, below, h.trans hstack, rfl, rfl⟩
      · rw [h] at hlen
        cases hlen

/-- **One activation.** While the stack stays higher than a position, the frame
there is that of one function. -/
theorem Passes.function {us : List Vm} {k : Nat} (h : Passes us vm vm') :
    ∀ {f : CallFrame}, vm.frameAt k = some f → Running k us vm' →
      ∃ g, vm'.frameAt k = some g ∧ g.funcIndex = f.funcIndex := by
  induction h with
  | done vm => exact fun hf _ => ⟨_, hf, rfl⟩
  | @move us vm vm1 vm2 hmove hrest ih =>
    intro f hf hrunning
    have hnext : k < vm1.callStack.length := by
      cases hrest with
      | done => exact hrunning _ (by simp)
      | move _ _ => exact hrunning _ (by simp)
    obtain ⟨g, hg, hfunc⟩ := hmove.function hf hnext
    obtain ⟨g', hg', hfunc'⟩ := ih hg fun u hu => hrunning u (List.mem_cons_of_mem _ hu)
    exact ⟨g', hg', hfunc'.trans hfunc⟩

/-! ## References -/

/-- What `REF` was applied to: a slot of the activation at a position, or a global
by its name. -/
inductive Subject where
  | activation (k slot : Nat)
  | global (name : String)

/-- The position that the tag of a reference names which was made at position
`k`: `(len as u16 - 1) + 2`, less 2. -/
def tagged (k : Nat) : Nat := (k + 1) % 65536 - 1

/-- An iteration makes a reference. -/
inductive MakesRef (vm vm' : Vm) : Value → Subject → Prop where
  | activation {f g : CallFrame} {rest below : List CallFrame} {dst : Reg} {slot : UInt16}
    {v : Value} (hstack : vm.callStack = f :: rest)
    (hnext : vm.nextInstr = some (.makeRefLocal dst slot)) (hstep : vm.step = .next vm')
    (hmade : vm'.callStack = g :: below) (hv : g.regGet dst = .ok v) :
    MakesRef vm vm' v (.activation rest.length slot.toNat)
  | global {f g : CallFrame} {rest below : List CallFrame} {dst : Reg} {slot : UInt16} {v : Value}
    {name : String} (hstack : vm.callStack = f :: rest)
    (hname : (vm.module.globals.findSlot name).map Prod.fst = some slot)
    (hnext : vm.nextInstr = some (.makeRefGlobal dst slot)) (hstep : vm.step = .next vm')
    (hmade : vm'.callStack = g :: below) (hv : g.regGet dst = .ok v) :
    MakesRef vm vm' v (.global name)

/-- Where the module has the global of this name now. -/
def globalNamed (vm : Vm) (name : String) : Option Variable :=
  (vm.module.globals.findSlot name).bind fun p => vm.globalVariable p.1.toNat

omit [F64Ops] in
theorem makeRefLocal_reached {slot : UInt16} {v : Value} {k : Nat} (w : Vm)
    (h : vm.makeRefLocal slot = .ok v) (hlen : vm.callStack.length = k + 1) :
    w.reached v = w.stackVariable (tagged k) slot.toNat := by
  unfold makeRefLocal at h
  simp only [hlen] at h
  split at h
  · cases h
  · next hfits =>
    rw [not_or, Nat.not_lt] at hfits
    obtain ⟨hzero, hfits⟩ := hfits
    have hmod : (k + 1).toUInt16.toNat = (k + 1) % 65536 := rfl
    have hpos : (k + 1).toUInt16.toNat ≠ 0 := fun h => hzero (UInt16.toNat_inj.mp h)
    have hone : ((k + 1).toUInt16 - 1).toNat = (k + 1).toUInt16.toNat - 1 :=
      UInt16.toNat_sub_of_le _ _ (UInt16.le_iff_toNat_le.mpr (Nat.one_le_iff_ne_zero.mpr hpos))
    have htag : ((k + 1).toUInt16 - 1 + 2).toNat = (k + 1).toUInt16.toNat + 1 := by
      rw [UInt16.toNat_add, hone]
      show ((k + 1).toUInt16.toNat - 1 + 2) % 65536 = _
      omega
    have hposition : ((k + 1).toUInt16 - 1 + 2 - 2).toNat = tagged k := by
      rw [UInt16.toNat_sub_of_le _ _ (UInt16.le_iff_toNat_le.mpr (by
        rw [htag]
        show 2 ≤ _
        omega)), htag]
      show _ - 2 = (k + 1) % 65536 - 1
      omega
    have hlocal : ¬ ((k + 1).toUInt16 - 1 + 2 = 0 ∨ (k + 1).toUInt16 - 1 + 2 = 1) := by
      rintro (h | h)
      · have := congrArg UInt16.toNat h
        rw [htag] at this
        cases this
      · have := congrArg UInt16.toNat h
        rw [htag] at this
        exact hpos (Nat.succ.inj this)
    obtain rfl := Except.ok.inj h
    unfold reached
    simp only [if_neg hlocal, hposition]

/-- What the instruction puts into its register. -/
theorem step_computes {g : CallFrame} {below : List CallFrame} {dst : Reg} {v : Value}
    {i : Instruction} (hstack : vm.callStack = f :: rest) (hnext : vm.nextInstr = some i)
    (hstep : vm.step = .next vm') (hmade : vm'.callStack = g :: below) (hv : g.regGet dst = .ok v)
    {x : Vm → CallFrame → Except Trap Value}
    (hi : ∀ (u : Vm) (func : Function) (h : CallFrame), u.compute func h i = some (dst, x u h)) :
    ∃ d, x (vm.advance d f rest) { f with pc := f.pc + 1 } = .ok v ∧ below = rest ∧
      vm' = (vm.advance d f rest).withStack (g :: rest) := by
  obtain ⟨func, d, -, hexec⟩ := step_exec hstack hnext hstep
  unfold exec at hexec
  rw [hi] at hexec
  obtain ⟨w, hw, hexec⟩ := orTrap_next hexec
  obtain ⟨g', hg', hexec⟩ := orTrap_next hexec
  cases hexec
  obtain ⟨rfl, rfl⟩ := List.cons.inj hmade
  rw [regGet_regSet hg'] at hv
  obtain rfl := Except.ok.inj hv
  exact ⟨d, hw, rfl, rfl⟩

/-- **What a reference reaches**, in any machine: a slot of the frame that its tag
names, or a slot of the globals. -/
theorem MakesRef.reached {v : Value} {subject : Subject} (h : MakesRef vm vm' v subject) (w : Vm) :
    match subject with
    | .activation k slot => w.reached v = w.stackVariable (tagged k) slot
    | .global name => ∃ slot, (vm.module.globals.findSlot name).map Prod.fst = some slot ∧
      w.reached v = w.globalVariable slot.toNat := by
  cases h with
  | @activation f g rest below dst slot _ hstack hnext hstep hmade hv =>
    obtain ⟨d, hx, -⟩ := step_computes hstack hnext hstep hmade hv fun u func h => rfl
    exact makeRefLocal_reached w hx rfl
  | @global f g rest below dst slot _ name hstack hname hnext hstep hmade hv =>
    obtain ⟨d, hx, -⟩ := step_computes (x := fun _ _ => .ok (.ref 0 slot)) hstack hnext hstep hmade
      hv fun u func h => rfl
    obtain rfl := Except.ok.inj hx
    exact ⟨slot, hname, rfl⟩

/-- The next iteration reads or writes through the value. -/
inductive Dereferences (vm vm' : Vm) (v : Value) : Prop where
  | load {f g : CallFrame} {rest : List CallFrame} {dst ptr : Reg}
    (hstack : vm.callStack = f :: rest) (hnext : vm.nextInstr = some (.deref dst ptr))
    (hptr : f.regGet ptr = .ok v) (hmade : vm'.callStack = g :: rest)
    (hread : g.regGet dst = .ok (((vm.reached v).bind vm.content).getD (nothing v)))
    (hkept : ∀ x, vm'.content x = vm.content x)
  | store {f : CallFrame} {rest : List CallFrame} {ptr val : Reg} {w : Value}
    (hstack : vm.callStack = f :: rest) (hnext : vm.nextInstr = some (.derefStore ptr val))
    (hptr : f.regGet ptr = .ok v) (hval : f.regGet val = .ok w)
    (hwritten : Writes vm vm' (vm.reached v) w)

/-- The law: while the activation runs, its own variable is reached; when it has
ended, nothing is. A global is reached where the module has it. -/
def Intact (us : List Vm) (vm : Vm) (v : Value) : Subject → Prop
  | .activation k slot =>
    (Running k us vm → vm.reached v = vm.stackVariable k slot) ∧
      (¬ Running k us vm → vm.reached v = none)
  | .global name => vm.reached v = vm.globalNamed name

/-- The activation still runs, at a position that fits the tag, or there is no
such variable at the position that the tag names (nor in the activation, if it still
runs elsewhere). The layout still has the global in its slot, or has no global in
either. `made` is the module the reference was made in. -/
def Sound (made : Module) (us : List Vm) (vm : Vm) : Subject → Prop
  | .activation k slot =>
    (Running k us vm ∧ k < 65535) ∨
      (vm.stackVariable (tagged k) slot = none ∧
        (Running k us vm → vm.stackVariable k slot = none))
  | .global name => ∀ slot, (made.globals.findSlot name).map Prod.fst = some slot →
    (vm.module.globals.findSlot name).map Prod.fst = some slot ∨
      (vm.globals.length ≤ slot.toNat ∧
        ∀ p, vm.module.globals.findSlot name = some p → vm.globals.length ≤ p.1.toNat)

omit [F64Ops] in
theorem stackVariable_ne {j k slot : Nat} (hjk : j ≠ k)
    (h : vm.stackVariable j slot = vm.stackVariable k slot) :
    vm.stackVariable j slot = none ∧ vm.stackVariable k slot = none := by
  cases hj : vm.stackVariable j slot with
  | none => exact ⟨rfl, h.symm.trans hj⟩
  | some x =>
    obtain ⟨-, -, -, rfl⟩ := stackVariable_iff.mp hj
    obtain ⟨-, -, -, heq⟩ := stackVariable_iff.mp (h.symm.trans hj)
    exact absurd (Variable.stack.inj heq).1 hjk

omit [F64Ops] in
theorem globalVariable_eq_none {slot : Nat} :
    vm.globalVariable slot = none ↔ vm.globals.length ≤ slot := by
  unfold globalVariable
  split
  · next hlen => exact iff_of_false (by exact fun h => by cases h) (by omega)
  · next hlen => exact iff_of_true rfl (by omega)

omit [F64Ops] in
theorem global_sound_iff {name : String} {slot : UInt16} :
    vm.globalVariable slot.toNat = vm.globalNamed name ↔
      (vm.module.globals.findSlot name).map Prod.fst = some slot ∨
        (vm.globals.length ≤ slot.toNat ∧
          ∀ p, vm.module.globals.findSlot name = some p → vm.globals.length ≤ p.1.toNat) := by
  unfold globalNamed
  cases hfind : vm.module.globals.findSlot name with
  | none =>
    rw [Option.bind_none, globalVariable_eq_none]
    exact ⟨fun h => .inr ⟨h, fun p hp => (by cases hp)⟩, fun h => h.elim (fun h => by cases h) (·.1)⟩
  | some p =>
    rw [Option.bind_some, Option.map_some, Option.some.injEq]
    constructor
    · intro h
      cases hslot : vm.globalVariable slot.toNat with
      | none =>
        refine .inr ⟨globalVariable_eq_none.mp hslot, fun q hq => ?_⟩
        obtain rfl := Option.some.inj hq
        exact globalVariable_eq_none.mp (h.symm.trans hslot)
      | some x =>
        obtain ⟨-, rfl⟩ := globalVariable_iff.mp hslot
        obtain ⟨-, heq⟩ := globalVariable_iff.mp (h.symm.trans hslot)
        exact .inl (UInt16.toNat_inj.mp (Variable.global.inj heq).symm)
    · intro h
      rcases h with h | ⟨hslot, hp⟩
      · rw [h]
      · rw [globalVariable_eq_none.mpr hslot, globalVariable_eq_none.mpr (hp p rfl)]

omit [F64Ops] in
theorem activation_sound_iff {us : List Vm} {k slot : Nat} :
    ((Running k us vm → vm.stackVariable (tagged k) slot = vm.stackVariable k slot) ∧
        (¬ Running k us vm → vm.stackVariable (tagged k) slot = none)) ↔
      (Running k us vm ∧ k < 65535) ∨
        (vm.stackVariable (tagged k) slot = none ∧
          (Running k us vm → vm.stackVariable k slot = none)) := by
  by_cases hrun : Running k us vm
  · by_cases hk : k < 65535
    · have htag : tagged k = k := by
        unfold tagged
        omega
      rw [htag]
      exact iff_of_true ⟨fun _ => rfl, fun h => absurd hrun h⟩ (.inl ⟨hrun, hk⟩)
    · have htag : tagged k ≠ k := by
        unfold tagged
        omega
      constructor
      · intro h
        obtain ⟨htagged, hown⟩ := stackVariable_ne htag (h.1 hrun)
        exact .inr ⟨htagged, fun _ => hown⟩
      · intro h
        rcases h with ⟨-, h⟩ | ⟨htagged, hown⟩
        · exact absurd h hk
        · exact ⟨fun _ => htagged.trans (hown hrun).symm, fun h => absurd hrun h⟩
  · constructor
    · exact fun h => .inr ⟨h.2 hrun, fun hr => absurd hr hrun⟩
    · intro h
      rcases h with ⟨hr, -⟩ | ⟨htagged, -⟩
      · exact absurd hr hrun
      · exact ⟨fun hr => absurd hr hrun, fun _ => htagged⟩

/-- The frame that stands at the position of a new reference. -/
theorem MakesRef.frame {v : Value} {k slot : Nat} (h : MakesRef vm vm' v (.activation k slot)) :
    ∃ f g, vm.frameAt k = some f ∧ vm'.frameAt k = some g ∧ g.funcIndex = f.funcIndex := by
  cases h with
  | @activation f g rest below dst _ _ hstack hnext hstep hmade hv =>
    obtain ⟨d, -, rfl, -⟩ := step_computes hstack hnext hstep hmade hv fun u func h => rfl
    obtain ⟨above, g', below', hstack', hlen, hfunc⟩ :=
      step_function hstack hstep (by rw [hmade, List.length_cons]; omega)
    exact ⟨f, g', frameAt_cons hstack, hlen ▸ frameAt_append hstack', hfunc⟩

omit [F64Ops] in
/-- Machines with the same locals and globals have the same variables. -/
theorem same_variables (hlocals : vm'.callStack.map CallFrame.locals =
    vm.callStack.map CallFrame.locals) (hglobals : vm'.globals = vm.globals) :
    (∀ x, vm'.content x = vm.content x) ∧ ∀ v, vm'.reached v = vm.reached v := by
  have hframe : ∀ k, (vm'.frameAt k).map CallFrame.locals = (vm.frameAt k).map CallFrame.locals := by
    intro k
    unfold frameAt
    rw [← List.getElem?_map, ← List.getElem?_map, List.map_reverse, List.map_reverse, hlocals]
  have hbind : ∀ {β : Type} (k : Nat) (h : List Value → Option β),
      ((vm'.frameAt k).bind fun g => h g.locals) = (vm.frameAt k).bind fun g => h g.locals := by
    intro β k h
    have := congrArg (fun o => Option.bind o h) (hframe k)
    simpa only [Option.bind_map, Function.comp_def] using this
  constructor
  · intro x
    cases x with
    | stack k slot => exact hbind k (·[slot]?)
    | global slot =>
      show vm'.globals[slot]? = vm.globals[slot]?
      rw [hglobals]
  · intro v
    unfold reached
    split
    · next tag slot =>
      unfold globalVariable stackVariable
      rw [hglobals, hbind _ fun ls => if slot.toNat < ls.length then
        some (Variable.stack (tag - 2).toNat slot.toNat) else none]
    · rfl

/-- An iteration that reads or writes through a value touches what the value
reaches and nothing else. -/
theorem dereferences {i : Instruction} {v : Value} {ptr : Reg} (hstack : vm.callStack = f :: rest)
    (hnext : vm.nextInstr = some i)
    (hi : (∃ dst, i = .deref dst ptr) ∨ ∃ val, i = .derefStore ptr val)
    (hptr : f.regGet ptr = .ok v) (hstep : vm.step = .next vm') : Dereferences vm vm' v := by
  obtain ⟨func, d, -, hexec⟩ := step_exec hstack hnext hstep
  have hadvance : (vm.advance d f rest).callStack.map CallFrame.locals =
      vm.callStack.map CallFrame.locals := by
    rw [hstack]
    rfl
  obtain ⟨hcontent, hreached⟩ := same_variables hadvance rfl
  rcases hi with ⟨dst, rfl⟩ | ⟨val, rfl⟩
  · change (vm.advance d f rest).orTrap ((f.regGet ptr).map (vm.advance d f rest).deref) _ = _
      at hexec
    rw [hptr] at hexec
    obtain ⟨w, hw, hexec⟩ := orTrap_next hexec
    obtain rfl := Except.ok.inj hw
    obtain ⟨g, hg, hexec⟩ := orTrap_next hexec
    cases hexec
    have hsame : ((vm.advance d f rest).withStack (g :: rest)).callStack.map CallFrame.locals =
        vm.callStack.map CallFrame.locals := by
      obtain rfl := regSet_ok hg
      rw [hstack]
      rfl
    refine .load hstack hnext hptr rfl ?_ (same_variables hsame rfl).1
    rw [regGet_regSet hg, deref_reached, hreached]
    exact congrArg (fun h => Except.ok ((Option.bind (vm.reached v) h).getD _)) (funext hcontent)
  · change (vm.advance d f rest).orTrap (f.regGet ptr) (fun p => (vm.advance d f rest).orTrap
      (f.regGet val) fun w => (vm.advance d f rest).derefStore p w) = _ at hexec
    rw [hptr] at hexec
    obtain ⟨p, hp, hexec⟩ := orTrap_next hexec
    obtain rfl := Except.ok.inj hp
    obtain ⟨w, hw, hexec⟩ := orTrap_next hexec
    refine .store hstack hnext hptr hw fun x => ?_
    have hwrites := derefStore_reached hexec x
    rw [hreached, hcontent] at hwrites
    exact hwrites

end

end Vm

/-! ## A dangling reference -/

section

variable [F64Ops]

/-- The machine after `n` iterations that go on. -/
def after : Nat → Vm → Option Vm
  | 0, vm => some vm
  | n + 1, vm => match vm.step with
    | .next vm' => after n vm'
    | .halt _ => none

/-- The machines on the way. -/
def trail : Nat → Vm → List Vm
  | 0, _ => []
  | n + 1, vm => match vm.step with
    | .next vm' => vm :: trail n vm'
    | .halt _ => [vm]

theorem passes_of_after : ∀ {n : Nat} {vm vm' : Vm}, after n vm = some vm' →
    Vm.Passes (trail n vm) vm vm'
  | 0, vm, vm', h => by
    obtain rfl := Option.some.inj h
    exact .done vm
  | n + 1, vm, vm', h => by
    unfold after at h
    unfold trail
    cases hstep : vm.step with
    | next vm1 =>
      rw [hstep] at h
      exact .move (.next hstep) (passes_of_after h)
    | halt s =>
      rw [hstep] at h
      cases h

end

/-- `Leak` leaves a reference to its variable in a global; `Other` reads through
it. -/
def danglingSource : SourceFile := ⟨[
  .globalVarDeclaration (.inSection .varGlobal [.plain "gp" (.ref .int)]),
  .function ⟨"Leak", .int, [.of [.plain "x" .int]],
    [.assign "gp" (.functionCall ["REF"] [.positional (.ofName "x")] noRange)]⟩,
  .function ⟨"Other", .int, [.of [.plain "y" .int]],
    [.assign "y" (.ofInt 7), .assign "Other" (.var [.identifier "gp", .deref] noRange)]⟩,
  .program ⟨"Main", [.of [.plain "r" .int]],
    [.assign "r" (.functionCall ["Leak"] [] noRange),
      .assign "r" (.functionCall ["Other"] [] noRange)]⟩]⟩

/-- A reference to slot 0 is made at position 1, and read through later when there is
a variable. -/
def dangles [F64Ops] (vm0 vm1 vm : Vm) : Bool :=
  match vm0.callStack, vm1.callStack, vm.callStack, vm.step with
  | _ :: rest0, g :: _, f :: _, .next _ => decide (rest0.length = 1) &&
    decide (vm0.nextInstr = some (.makeRefLocal 0 0)) &&
    decide (g.registers[0]? = some (.ref 3 0)) && decide (f.registers[1]? = some (.ref 3 0)) &&
    decide (vm.nextInstr = some (.deref 2 1)) &&
    decide (vm.reached (.ref 3 0) = some (.stack 1 0))
  | _, _, _, _ => false

theorem regGet_of_get {f : CallFrame} {r : Reg} {v : Value} (h : f.registers[r.toNat]? = some v) :
    f.regGet r = .ok v := by
  unfold CallFrame.regGet index
  rw [h]

theorem dangles_of [F64Ops] {vm0 vm1 vm : Vm} (hstep : vm0.step = .next vm1)
    (h : dangles vm0 vm1 vm = true) : ∃ f rest vm', Vm.MakesRef vm0 vm1 (.ref 3 0) (.activation 1 0) ∧
      vm.callStack = f :: rest ∧ vm.nextInstr = some (.deref 2 1) ∧ f.regGet 1 = .ok (.ref 3 0) ∧
      vm.step = .next vm' ∧ vm.reached (.ref 3 0) = some (.stack 1 0) := by
  unfold dangles at h
  split at h
  · next f0 rest0 g below f rest vm' hstack0 hstack1 hstack hnext =>
    simp only [Bool.and_eq_true, decide_eq_true_eq] at h
    obtain ⟨⟨⟨⟨⟨hlen, hmakes⟩, hv⟩, hptr⟩, hderef⟩, hreached⟩ := h
    have href : Vm.MakesRef vm0 vm1 (.ref 3 0) (.activation rest0.length (0 : UInt16).toNat) :=
      .activation hstack0 hmakes hstep hstack1 (regGet_of_get hv)
    rw [hlen] at href
    exact ⟨f, rest, vm', href, hstack, hderef, regGet_of_get hptr, hnext, hreached⟩
  · cases h

/-- A reference made in one activation is followed after that activation has ended. -/
def danglesOnce [F64Ops] (m : Module) : Bool :=
  match (Vm.new m .default).enterRun "Main" with
  | none => false
  | some start => match after 1 start with
    | none => false
    | some vm0 => match vm0.step with
      | .halt _ => false
      | .next vm1 => match after 8 vm1 with
        | none => false
        | some vm => dangles vm0 vm1 vm && (trail 8 vm1).any fun u =>
          decide (u.callStack.length ≤ 1)

/-- `Main` takes a reference to its variable and reads it. -/
def ownModule : Module :=
  ⟨[⟨"Main", .program, 2, [.makeRefLocal 0 0, .deref 1 0, .retVoid], [],
    ⟨[⟨"x", .int, 0, 8, false, false, .none⟩]⟩, [], 0⟩], .empty, [], []⟩

/-- The machine after `n` iterations. -/
def ownAfter : Nat → Vm
  | 0 => (Vm.new ownModule .default).withStack
    [⟨0, [Value.dflt, Value.dflt], [.int 7], 0, none, none⟩]
  | n + 1 => left (@Vm.step default (ownAfter n))

end RustPlc.Engine
