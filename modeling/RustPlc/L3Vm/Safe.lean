import RustPlc.L1Ir.WellFormed
import RustPlc.L3Vm.Step

/-!
# No access out of range

On a well-formed module without native function blocks, the interpreter
indexes its vectors in range. The invariant `Vm.Sized` gives the length of
every register file, locals vector and globals vector, and bounds the slot
of every reference to a global that is stored anywhere in the machine.

One access is not covered by well-formedness: the first call of a method
runs the class's initialisation code in a register file of 256 entries
(`initClassInstance`), whatever the class needs (`Vm.NeedsWideInit`).

Results:
* `Vm.Sized.ret`, `Vm.Sized.retVoid`, `Vm.Sized.fallOff`: leaving a frame
  keeps the invariant;
* `compute_fine`: an instruction that fills a register stays in range.
-/
namespace RustPlc.Engine

open RustPlc.Ir RustPlc.Core

/-- The traps that mean an index outside its table. -/
def Trap.outOfRange : Trap → Bool
  | .indexOutOfBounds => true
  | .error (.invalidFunction _) => true
  | .error (.invalidLabel _) => true
  | _ => false

/-- A reference to a global names one of the `n` globals. -/
def RefIn (n : Nat) (v : Value) : Prop := ∀ slot, v = .ref 0 slot → slot.toNat < n

theorem RefIn.of_isRef {n : Nat} {v : Value} (h : v.isRef = false) : RefIn n v := by
  rintro slot rfl
  simp [Value.isRef] at h

theorem RefIn.narrow {n : Nat} {v : Value} (h : RefIn n v) (w : IntWidth) :
    RefIn n (narrowValue v w) := by
  intro slot hs
  apply h slot
  cases w <;> cases v <;> simp_all [narrowValue]

theorem refIn_dflt (n : Nat) : RefIn n Value.dflt := .of_isRef rfl

theorem refIn_default (n : Nat) (ty : VarType) : RefIn n (Value.defaultForType ty) :=
  .of_isRef (by cases ty <;> rfl)

/-! ## Results that are in range -/

/-- Either a value that satisfies `P` or a trap that is not an index error. -/
def Fine {α : Type} (P : α → Prop) : Except Trap α → Prop
  | .ok a => P a
  | .error t => t.outOfRange = false

namespace Fine

variable {α β : Type} {P : α → Prop} {Q : β → Prop}

theorem bind {x : Except Trap α} {f : α → Except Trap β} (hx : Fine P x)
    (hf : ∀ a, P a → Fine Q (f a)) : Fine Q (x >>= f) := by
  cases x with
  | ok a => exact hf a hx
  | error t => exact hx

theorem map {x : Except Trap α} {f : α → β} (hx : Fine P x) (hf : ∀ a, P a → Q (f a)) :
    Fine Q (x.map f) := by
  cases x with
  | ok a => exact hf a hx
  | error t => exact hx

theorem mono {x : Except Trap α} {P' : α → Prop} (hx : Fine P x) (h : ∀ a, P a → P' a) :
    Fine P' x := by
  cases x with
  | ok a => exact h a hx
  | error t => exact hx

theorem index {xs : List α} {i : Nat} (h : i < xs.length) : Fine (· ∈ xs) (Engine.index xs i) := by
  unfold Engine.index
  rw [List.getElem?_eq_getElem h]
  exact List.getElem_mem h

theorem indexSet {xs : List α} {i : Nat} {x : α} (h : i < xs.length) :
    Fine (· = xs.set i x) (Engine.indexSet xs i x) := by
  unfold Engine.indexSet
  rw [if_pos h]
  rfl

theorem liftPanic {x : Except Panic α} (h : ∀ a, x = .ok a → P a) :
    Fine P (Engine.liftPanic x) := by
  cases x with
  | ok a => exact h a rfl
  | error p => rfl

end Fine

/-! ## Operators do not make references -/

/-- A mapped result keeps its constructor. -/
theorem map_isRef {α : Type} {x : Except Panic α} {g : α → Value} {v : Value}
    (hg : ∀ a, (g a).isRef = false) (h : x.map g = .ok v) : v.isRef = false := by
  cases x with
  | error e => simp [Except.map] at h
  | ok a =>
    simp only [Except.map, Except.ok.injEq] at h
    exact h ▸ hg a

section

variable [F64Ops]

theorem arithOp_isRef {l r v : Value} {io : Int64 → Int64 → Except Panic Int64}
    {ro : F64 → F64 → F64} (h : arithOp l r io ro = .ok v) : v.isRef = false := by
  unfold arithOp at h
  split at h
  · simp only [Except.ok.injEq] at h
    exact h ▸ rfl
  · simp only [Except.ok.injEq] at h
    exact h ▸ rfl
  all_goals exact map_isRef (fun _ => rfl) h

theorem negValue_isRef {a v : Value} (h : negValue a = .ok v) : v.isRef = false := by
  unfold negValue at h
  split at h
  · exact map_isRef (fun _ => rfl) h
  · simp only [Except.ok.injEq] at h
    exact h ▸ rfl
  · exact map_isRef (fun _ => rfl) h

theorem insertBitOf_isRef {a b v : Value} {bit : UInt8} (h : insertBitOf a bit b = .ok v) :
    v.isRef = false := by
  refine map_isRef (fun m => ?_) h
  split <;> rfl

theorem insertPartialOf_isRef {a b v : Value} {i size : UInt8}
    (h : insertPartialOf a i size b = .ok v) : v.isRef = false := by
  unfold insertPartialOf at h
  simp only [Bind.bind, Except.bind] at h
  split at h
  · cases h
  · split at h
    · cases h
    · simp only [Pure.pure, Except.pure, Except.ok.injEq] at h
      exact h ▸ rfl

theorem stringMidOf_isRef {a b c v : Value} (h : stringMidOf a b c = .ok v) : v.isRef = false := by
  unfold stringMidOf at h
  simp only [Bind.bind, Except.bind, Pure.pure, Except.pure] at h
  split at h
  · simp only [Except.ok.injEq] at h
    exact h ▸ rfl
  · split at h
    · cases h
    · split at h
      · cases h
      · split at h
        · cases h
        · simp only [Except.ok.injEq] at h
          exact h ▸ rfl

theorem stringInsertOf_isRef {a b c v : Value} (h : stringInsertOf a b c = .ok v) :
    v.isRef = false := by
  unfold stringInsertOf at h
  simp only [Bind.bind, Except.bind, Pure.pure, Except.pure] at h
  split at h
  · cases h
  · simp only [Except.ok.injEq] at h
    exact h ▸ rfl

theorem stringDeleteOf_isRef {a b c v : Value} (h : stringDeleteOf a b c = .ok v) :
    v.isRef = false := by
  unfold stringDeleteOf at h
  simp only [Bind.bind, Except.bind, Pure.pure, Except.pure] at h
  split at h
  · simp only [Except.ok.injEq] at h
    exact h ▸ rfl
  · split at h
    · cases h
    · split at h
      · cases h
      · split at h
        · cases h
        · simp only [Except.ok.injEq] at h
          exact h ▸ rfl

theorem stringReplaceOf_isRef {a b c d v : Value} (h : stringReplaceOf a b c d = .ok v) :
    v.isRef = false := by
  unfold stringReplaceOf at h
  simp only [Bind.bind, Except.bind, Pure.pure, Except.pure] at h
  split at h
  · cases h
  · split at h
    · cases h
    · split at h
      · cases h
      · simp only [Except.ok.injEq] at h
        exact h ▸ rfl

end

/-! ## The invariant -/

/-- A frame of `func`: its vectors are long enough. -/
structure CallFrame.Sized (m : Module) (f : CallFrame) (func : Function) : Prop where
  funcAt : m.functions[f.funcIndex.toNat]? = some func
  registers : f.registers.length = max func.registerCount.toNat 1
  locals : func.locals.slots.length ≤ f.locals.length
  returnReg : ∀ r, f.returnReg = some r → r.toNat < f.registers.length
  regRefs : ∀ v ∈ f.registers, RefIn m.globals.slots.length v
  localRefs : ∀ v ∈ f.locals, RefIn m.globals.slots.length v

/-- The vectors of the machine are as long as module `m` needs, and every
stored reference to a global is one of `m`'s. -/
structure Vm.Sized (m : Module) (vm : Vm) : Prop where
  module : vm.module = m
  wellFormed : m.WellFormed
  native : m.nativeFbIndices = []
  globals : vm.globals.length = m.globals.slots.length
  globalRefs : ∀ v ∈ vm.globals, RefIn m.globals.slots.length v
  retained : ∀ i xs, Finmap.lookup i vm.retainedLocals = some xs →
    (∀ func, m.functions[i.toNat]? = some func → func.locals.slots.length ≤ xs.length) ∧
      ∀ v ∈ xs, RefIn m.globals.slots.length v
  instances : ∀ k xs, Finmap.lookup k vm.fbInstances = some xs →
    ∀ v ∈ xs, RefIn m.globals.slots.length v
  forces : ∀ k v, Finmap.lookup k vm.forcedVariables = some v → RefIn m.globals.slots.length v
  frames : ∀ f ∈ vm.callStack, ∃ func, f.Sized m func

/-- What a step may do: keep the invariant, and stop only with a trap that is
not an index error. -/
def SafeOutcome (m : Module) : Outcome Vm Stop → Prop
  | .next vm => vm.Sized m
  | .halt (vm, .ok _) => vm.Sized m
  | .halt (vm, .error t) => vm.Sized m ∧ t.outOfRange = false

section

variable {m : Module} {vm : Vm}

theorem Vm.Sized.orTrap {α : Type} {P : α → Prop} {x : Except Trap α} {k : α → Outcome Vm Stop}
    (hv : vm.Sized m) (hx : Fine P x) (hk : ∀ a, P a → SafeOutcome m (k a)) :
    SafeOutcome m (vm.orTrap x k) := by
  cases x with
  | ok a => exact hk a hx
  | error t => exact ⟨hv, hx⟩

theorem Vm.Sized.withStack (hv : vm.Sized m) {stack : List CallFrame}
    (h : ∀ f ∈ stack, ∃ func, f.Sized m func) : (vm.withStack stack).Sized m :=
  ⟨hv.module, hv.wellFormed, hv.native, hv.globals, hv.globalRefs, hv.retained, hv.instances,
    hv.forces, h⟩

theorem Vm.Sized.putInstance (hv : vm.Sized m) {key : InstanceKey} {xs : List Value}
    (h : ∀ v ∈ xs, RefIn m.globals.slots.length v) : (vm.putInstance key xs).Sized m :=
  { hv with
    instances := by
      intro k ys hk
      by_cases hkey : k = key
      · subst hkey
        simp only [Vm.putInstance, Finmap.lookup_insert, Option.some.injEq] at hk
        exact hk ▸ h
      · simp only [Vm.putInstance, Finmap.lookup_insert_of_ne _ hkey] at hk
        exact hv.instances k ys hk }

theorem Vm.Sized.setGlobals (hv : vm.Sized m) {gs : List Value}
    (hl : gs.length = vm.globals.length) (h : ∀ v ∈ gs, RefIn m.globals.slots.length v) :
    ({ vm with globals := gs } : Vm).Sized m :=
  { hv with globals := hl.trans hv.globals, globalRefs := h }

theorem Vm.Sized.retain (hv : vm.Sized m) {f : CallFrame} {func : Function}
    (hf : f.Sized m func) :
    ({ vm with retainedLocals := Finmap.insert f.funcIndex f.locals vm.retainedLocals } :
      Vm).Sized m :=
  { hv with
    retained := by
      intro i xs hi
      by_cases hkey : i = f.funcIndex
      · subst hkey
        simp only [Finmap.lookup_insert, Option.some.injEq] at hi
        subst hi
        refine ⟨fun g hg => ?_, hf.localRefs⟩
        rw [hf.funcAt] at hg
        obtain rfl := Option.some.inj hg
        exact hf.locals
      · simp only [Finmap.lookup_insert_of_ne _ hkey] at hi
        exact hv.retained i xs hi }

theorem refIn_mergePrefix {n k : Nat} {xs ys : List Value} (hx : ∀ v ∈ xs, RefIn n v)
    (hy : ∀ v ∈ ys, RefIn n v) : ∀ v ∈ Vm.mergePrefix k xs ys, RefIn n v := by
  intro v hv
  rcases List.mem_append.mp hv with h | h
  · exact hx v (List.mem_of_mem_take h)
  · exact hy v (List.mem_of_mem_drop h)

theorem mergePrefix_length (k : Nat) (xs ys : List Value) :
    (Vm.mergePrefix k xs ys).length = ys.length := by
  simp only [Vm.mergePrefix, List.length_append, List.length_take, List.length_drop]
  omega

theorem refIn_set {n i : Nat} {xs : List Value} {x : Value} (hx : ∀ v ∈ xs, RefIn n v)
    (h : RefIn n x) : ∀ v ∈ xs.set i x, RefIn n v := by
  intro v hv
  rcases List.mem_or_eq_of_mem_set hv with hv | rfl
  · exact hx v hv
  · exact h

theorem refIn_replicate {n k : Nat} : ∀ v ∈ List.replicate k Value.dflt, RefIn n v := by
  intro v hv
  rw [List.eq_of_mem_replicate hv]
  exact refIn_dflt n

theorem refIn_padTo {n k : Nat} {xs : List Value} (hx : ∀ v ∈ xs, RefIn n v) :
    ∀ v ∈ Vm.padTo k xs, RefIn n v := by
  intro v hv
  rcases List.mem_append.mp hv with h | h
  · exact hx v h
  · exact refIn_replicate v h

theorem refIn_defaults (n : Nat) (l : MemoryLayout) : ∀ v ∈ l.defaults, RefIn n v := by
  intro v hv
  obtain ⟨s, -, rfl⟩ := List.mem_map.mp hv
  exact refIn_default n s.ty

/-! ## Returning -/

theorem Vm.Sized.saveRetainedLocals (hv : vm.Sized m) : vm.saveRetainedLocals.Sized m := by
  unfold Vm.saveRetainedLocals
  split
  · exact hv
  next f rest hstack =>
    obtain ⟨func', hf⟩ := hv.frames f (by rw [hstack]; exact List.mem_cons_self ..)
    split
    · exact hv
    next func hfunc =>
      split
      · exact hv.retain hf
      · exact hv.putInstance hf.localRefs
      · exact hv.putInstance hf.localRefs
      · next slot caller _ _ _ _ =>
        split
        · next state hs =>
          exact hv.putInstance (refIn_mergePrefix hf.localRefs (hv.instances _ _ hs))
        · exact hv.putInstance fun v hm => hf.localRefs v (List.mem_of_mem_take hm)
      · exact hv

/-- The frames of a stack are sized. -/
abbrev StackSized (m : Module) (stack : List CallFrame) : Prop :=
  ∀ f ∈ stack, ∃ func, CallFrame.Sized m f func

theorem CallFrame.Sized.regGet {f : CallFrame} {func : Function} (hf : f.Sized m func) {r : Reg}
    (hr : r.toNat < func.registerCount.toNat) :
    Fine (RefIn m.globals.slots.length) (f.regGet r) := by
  have hlt : r.toNat < f.registers.length := by
    rw [hf.registers]
    omega
  exact (Fine.index hlt).mono hf.regRefs

theorem CallFrame.Sized.regSet {f : CallFrame} {func : Function} (hf : f.Sized m func) {r : Reg}
    {v : Value} (hr : r.toNat < f.registers.length) (hv : RefIn m.globals.slots.length v) :
    Fine (fun f' => f'.Sized m func ∧ f'.funcIndex = f.funcIndex ∧ f'.returnReg = f.returnReg)
      (f.regSet r v) := by
  refine (Fine.indexSet hr).map ?_
  rintro rs rfl
  exact ⟨{ hf with
    registers := by simpa using hf.registers
    returnReg := by simpa using hf.returnReg
    regRefs := refIn_set hf.regRefs hv }, rfl, rfl⟩

theorem returnTo_fine {stack : List CallFrame} {v : Value} (h : StackSized m stack)
    (hv : RefIn m.globals.slots.length v) : Fine (StackSized m) (Vm.returnTo v stack) := by
  cases stack with
  | nil => exact h
  | cons c cs =>
    obtain ⟨func, hc⟩ := h c (List.mem_cons_self ..)
    have hcs : StackSized m cs := fun f hf => h f (List.mem_cons_of_mem _ hf)
    cases hr : c.returnReg with
    | none =>
      simp only [Vm.returnTo, hr]
      exact h
    | some r =>
      simp only [Vm.returnTo, hr]
      refine (hc.regSet (hc.returnReg r hr) hv).map ?_
      rintro c' ⟨hc', -, -⟩ f hf
      rcases List.mem_cons.mp hf with rfl | hf
      · exact ⟨func, { hc' with returnReg := by simp }⟩
      · exact hcs f hf

theorem Vm.Sized.ret (hv : vm.Sized m) {f : CallFrame} {rest : List CallFrame} {func : Function}
    {r : Reg} (hf : f.Sized m func) (hrest : StackSized m rest)
    (hr : r.toNat < func.registerCount.toNat) : SafeOutcome m (vm.ret f rest r) := by
  refine hv.orTrap (hf.regGet hr) fun v hval => ?_
  have hs : (vm.saveRetainedLocals.withStack rest).Sized m := hv.saveRetainedLocals.withStack hrest
  refine hs.orTrap (returnTo_fine hrest hval) fun rest' hrest' => ?_
  split
  · exact hs
  · exact hs.withStack hrest'

theorem Vm.Sized.retVoid (hv : vm.Sized m) {rest : List CallFrame} (hrest : StackSized m rest) :
    SafeOutcome m (vm.retVoid rest) := by
  cases rest with
  | nil => exact hv.saveRetainedLocals.withStack hrest
  | cons c cs =>
    refine hv.saveRetainedLocals.withStack fun f hf => ?_
    rcases List.mem_cons.mp hf with rfl | hf
    · obtain ⟨func, hc⟩ := hrest c (List.mem_cons_self ..)
      exact ⟨func, { hc with returnReg := by simp }⟩
    · exact hrest f (List.mem_cons_of_mem _ hf)

theorem Vm.Sized.fallOff (hv : vm.Sized m) {rest : List CallFrame} (hrest : StackSized m rest) :
    SafeOutcome m (vm.fallOff rest) := by
  have hs : (vm.saveRetainedLocals.withStack rest).Sized m := hv.saveRetainedLocals.withStack hrest
  refine hs.orTrap (returnTo_fine hrest (.of_isRef rfl)) fun rest' hrest' => ?_
  exact hs.withStack hrest'

/-! ## Instructions that fill a register -/

theorem CallFrame.Sized.unary {f : CallFrame} {func : Function} (hf : f.Sized m func) {src : Reg}
    {op : Value → Except Panic Value} (hs : src.toNat < func.registerCount.toNat)
    (hop : ∀ v w, op v = .ok w → w.isRef = false) :
    Fine (RefIn m.globals.slots.length) (f.unary src op) :=
  (hf.regGet hs).bind fun v _ => .liftPanic fun w hw => .of_isRef (hop v w hw)

theorem CallFrame.Sized.binary {f : CallFrame} {func : Function} (hf : f.Sized m func) {l r : Reg}
    {op : Value → Value → Except Panic Value} (hl : l.toNat < func.registerCount.toNat)
    (hr : r.toNat < func.registerCount.toNat)
    (hop : ∀ a b w, op a b = .ok w → w.isRef = false) :
    Fine (RefIn m.globals.slots.length) (f.binary l r op) :=
  (hf.regGet hl).bind fun a _ => (hf.regGet hr).bind fun b _ =>
    .liftPanic fun w hw => .of_isRef (hop a b w hw)

theorem CallFrame.Sized.ternary {f : CallFrame} {func : Function} (hf : f.Sized m func)
    {a b c : Reg} {op : Value → Value → Value → Except Panic Value}
    (ha : a.toNat < func.registerCount.toNat) (hb : b.toNat < func.registerCount.toNat)
    (hc : c.toNat < func.registerCount.toNat)
    (hop : ∀ x y z w, op x y z = .ok w → w.isRef = false) :
    Fine (RefIn m.globals.slots.length) (f.ternary a b c op) :=
  (hf.regGet ha).bind fun x _ => (hf.regGet hb).bind fun y _ => (hf.regGet hc).bind fun z _ =>
    .liftPanic fun w hw => .of_isRef (hop x y z w hw)

theorem Vm.Sized.overlay (hv : vm.Sized m) (l : MemoryLayout) (slot : UInt16)
    {stored : Except Trap Value} (hs : Fine (RefIn m.globals.slots.length) stored) :
    Fine (RefIn m.globals.slots.length) (vm.overlay l slot stored) := by
  unfold Vm.overlay
  split
  · split
    · next v hforce => exact hv.forces _ v hforce
    · exact hs
  · exact hs

theorem refIn_getD {n i : Nat} {xs : List Value} {d : Value} (hx : ∀ v ∈ xs, RefIn n v)
    (hd : d.isRef = false) : RefIn n (xs[i]?.getD d) := by
  cases hi : xs[i]? with
  | none => exact .of_isRef hd
  | some v => exact hx v (List.mem_of_getElem? hi)

theorem Vm.Sized.instanceGet (hv : vm.Sized m) (key : InstanceKey) (i : Nat) :
    RefIn m.globals.slots.length (vm.instanceGet key i) := by
  unfold Vm.instanceGet
  split
  · next xs hx => exact refIn_getD (hv.instances _ _ hx) rfl
  · exact refIn_dflt _

theorem Vm.Sized.deref (hv : vm.Sized m) (ptr : Value) :
    RefIn m.globals.slots.length (vm.deref ptr) := by
  unfold Vm.deref
  split
  · split
    · exact refIn_getD hv.globalRefs rfl
    · split
      · next fr hfr =>
        obtain ⟨func, hf⟩ := hv.frames fr (List.mem_reverse.mp (List.mem_of_getElem? hfr))
        exact refIn_getD hf.localRefs rfl
      · exact .of_isRef rfl
  · exact .of_isRef rfl

theorem makeRefLocal_fine (slot : UInt16) (n : Nat) : Fine (RefIn n) (vm.makeRefLocal slot) := by
  unfold Vm.makeRefLocal
  dsimp only
  split
  · rfl
  next hlen =>
    -- the tag counts from 2, so it is never that of a global
    simp only [not_or, Nat.not_lt] at hlen
    intro s hs
    exfalso
    have ht : vm.callStack.length.toUInt16 - 1 + 2 = 0 := (Value.ref.inj hs).1
    have ht' := congrArg UInt16.toNat ht
    have hpos : 1 ≤ vm.callStack.length.toUInt16.toNat := by
      refine Nat.one_le_iff_ne_zero.mpr fun h0 => hlen.1 ?_
      exact UInt16.toNat_inj.mp (by simpa using h0)
    rw [UInt16.toNat_add, UInt16.toNat_sub_of_le _ _ (by
      rw [UInt16.le_iff_toNat_le]
      simpa using hpos)] at ht'
    change (vm.callStack.length.toUInt16.toNat - 1 + 2) % 65536 = 0 at ht'
    omega

theorem nonRef_ok {g : Value → Value} (hg : ∀ v, (g v).isRef = false) (v w : Value)
    (h : (Except.ok (g v) : Except Panic Value) = .ok w) : w.isRef = false :=
  Except.ok.inj h ▸ hg v

theorem nonRef_ok2 {g : Value → Value → Value} (hg : ∀ a b, (g a b).isRef = false) (a b w : Value)
    (h : (Except.ok (g a b) : Except Panic Value) = .ok w) : w.isRef = false :=
  Except.ok.inj h ▸ hg a b

section

variable [F64Ops]

theorem divide_fine {f : CallFrame} {func : Function} (hf : f.Sized m func) {l r : Reg}
    (hl : l.toNat < func.registerCount.toNat) (hr : r.toNat < func.registerCount.toNat) :
    Fine (RefIn m.globals.slots.length) (Vm.divide f l r) := by
  refine (hf.regGet hr).bind fun rv _ => ?_
  split
  · rfl
  · exact (hf.regGet hl).bind fun lv _ => .liftPanic fun w hw => .of_isRef (arithOp_isRef hw)

theorem modulo_fine {f : CallFrame} {func : Function} (hf : f.Sized m func) {l r : Reg}
    (hl : l.toNat < func.registerCount.toNat) (hr : r.toNat < func.registerCount.toNat) :
    Fine (RefIn m.globals.slots.length) (Vm.modulo f l r) := by
  refine (hf.regGet hr).bind fun rv _ => ?_
  split
  · rfl
  · exact (hf.regGet hl).bind fun lv _ =>
      .liftPanic fun w hw => .of_isRef (map_isRef (fun _ => rfl) hw)

theorem loadArray_fine (hv : vm.Sized m) {f : CallFrame} {func : Function} (hf : f.Sized m func)
    {slot : UInt16} {idx : Reg} (hi : idx.toNat < func.registerCount.toNat) :
    Fine (RefIn m.globals.slots.length) (vm.loadArray func f slot idx) :=
  (hf.regGet hi).bind fun _ _ =>
    (Fine.liftPanic (P := fun _ => True) fun _ _ => trivial).bind
      fun _ _ => hv.instanceGet _ _

theorem loadFieldIndex_fine (hv : vm.Sized m) {f : CallFrame} {func : Function}
    (hf : f.Sized m func) {slot off : UInt16} {idx : Reg}
    (hi : idx.toNat < func.registerCount.toNat) :
    Fine (RefIn m.globals.slots.length) (vm.loadFieldIndex f slot off idx) :=
  (hf.regGet hi).bind fun _ _ =>
    (Fine.liftPanic (P := fun _ => True) fun _ _ => trivial).bind
      fun _ _ => hv.instanceGet _ _

/-- Every instruction of `compute` reads registers in range and yields a value
whose references are in range. -/
theorem compute_fine (hv : vm.Sized m) {f : CallFrame} {func : Function} (hf : f.Sized m func)
    {instr : Instruction} (hfit : instr.Fits (func.limits m)) {dst : Reg} {x : Except Trap Value}
    (h : vm.compute func f instr = some (dst, x)) :
    dst.toNat < func.registerCount.toNat ∧ Fine (RefIn m.globals.slots.length) x := by
  have hreg : ∀ r ∈ instr.regs, r.toNat < func.registerCount.toNat := hfit.regs
  cases instr with
  | nop | storeLocal _ _ | storeGlobal _ _ | jump _ | jumpIf _ _ | jumpIfNot _ _ | call _ _ _
  | callFb _ _ _ | ret _ | callMethod _ _ _ _ _ | retVoid | derefStore _ _ | storeArray _ _ _
  | storeField _ _ _ | storeFieldIndex _ _ _ _ => simp [Vm.compute] at h
  | loadConst d v =>
    obtain ⟨rfl, rfl⟩ := Prod.mk.inj (Option.some.inj h)
    exact ⟨hreg d (by simp [Instruction.regs]),
      RefIn.of_isRef (hfit.consts v (by simp [Instruction.consts]))⟩
  | move d r =>
    obtain ⟨rfl, rfl⟩ := Prod.mk.inj (Option.some.inj h)
    exact ⟨hreg d (by simp [Instruction.regs]), hf.regGet (hreg r (by simp [Instruction.regs]))⟩
  | loadLocal d slot =>
    obtain ⟨rfl, rfl⟩ := Prod.mk.inj (Option.some.inj h)
    refine ⟨hreg d (by simp [Instruction.regs]), hv.overlay _ _ ?_⟩
    have hslot := hfit.localSlots slot (by simp [Instruction.localSlots])
    exact (Fine.index (Nat.lt_of_lt_of_le hslot hf.locals)).mono hf.localRefs
  | loadGlobal d slot =>
    obtain ⟨rfl, rfl⟩ := Prod.mk.inj (Option.some.inj h)
    refine ⟨hreg d (by simp [Instruction.regs]), hv.overlay _ _ ?_⟩
    have hslot := hfit.globalSlots slot (by simp [Instruction.globalSlots])
    exact (Fine.index (hv.globals ▸ hslot)).mono hv.globalRefs
  | add d l r | sub d l r | mul d l r =>
    obtain ⟨rfl, rfl⟩ := Prod.mk.inj (Option.some.inj h)
    exact ⟨hreg d (by simp [Instruction.regs]), hf.binary (hreg l (by simp [Instruction.regs]))
      (hreg r (by simp [Instruction.regs])) fun _ _ _ hw => arithOp_isRef hw⟩
  | div d l r =>
    obtain ⟨rfl, rfl⟩ := Prod.mk.inj (Option.some.inj h)
    exact ⟨hreg d (by simp [Instruction.regs]), divide_fine hf (hreg l (by simp [Instruction.regs]))
      (hreg r (by simp [Instruction.regs]))⟩
  | mod d l r =>
    obtain ⟨rfl, rfl⟩ := Prod.mk.inj (Option.some.inj h)
    exact ⟨hreg d (by simp [Instruction.regs]), modulo_fine hf (hreg l (by simp [Instruction.regs]))
      (hreg r (by simp [Instruction.regs]))⟩
  | pow d l r | cmpEq d l r | cmpNe d l r | cmpLt d l r | cmpGt d l r | cmpLe d l r | cmpGe d l r
  | and d l r | or d l r | xor d l r | stringConcat d l r =>
    obtain ⟨rfl, rfl⟩ := Prod.mk.inj (Option.some.inj h)
    exact ⟨hreg d (by simp [Instruction.regs]), hf.binary (hreg l (by simp [Instruction.regs]))
      (hreg r (by simp [Instruction.regs])) (nonRef_ok2 fun _ _ => rfl)⟩
  | stringFind d l r =>
    obtain ⟨rfl, rfl⟩ := Prod.mk.inj (Option.some.inj h)
    refine ⟨hreg d (by simp [Instruction.regs]), hf.binary (hreg l (by simp [Instruction.regs]))
      (hreg r (by simp [Instruction.regs])) (nonRef_ok2 fun a b => ?_)⟩
    unfold stringFindOf
    split
    · rfl
    · split <;> rfl
  | stringLeft d l r | stringRight d l r =>
    obtain ⟨rfl, rfl⟩ := Prod.mk.inj (Option.some.inj h)
    exact ⟨hreg d (by simp [Instruction.regs]), hf.binary (hreg l (by simp [Instruction.regs]))
      (hreg r (by simp [Instruction.regs])) fun _ _ _ hw => map_isRef (fun _ => rfl) hw⟩
  | insertBit d l bit r =>
    obtain ⟨rfl, rfl⟩ := Prod.mk.inj (Option.some.inj h)
    exact ⟨hreg d (by simp [Instruction.regs]), hf.binary (hreg l (by simp [Instruction.regs]))
      (hreg r (by simp [Instruction.regs])) fun _ _ _ hw => insertBitOf_isRef hw⟩
  | insertPartial d l i size r =>
    obtain ⟨rfl, rfl⟩ := Prod.mk.inj (Option.some.inj h)
    exact ⟨hreg d (by simp [Instruction.regs]), hf.binary (hreg l (by simp [Instruction.regs]))
      (hreg r (by simp [Instruction.regs])) fun _ _ _ hw => insertPartialOf_isRef hw⟩
  | neg d r =>
    obtain ⟨rfl, rfl⟩ := Prod.mk.inj (Option.some.inj h)
    exact ⟨hreg d (by simp [Instruction.regs]), hf.unary (hreg r (by simp [Instruction.regs]))
      fun _ _ hw => negValue_isRef hw⟩
  | dtExtractDate d r =>
    obtain ⟨rfl, rfl⟩ := Prod.mk.inj (Option.some.inj h)
    exact ⟨hreg d (by simp [Instruction.regs]), hf.unary (hreg r (by simp [Instruction.regs]))
      fun _ _ hw => map_isRef (fun _ => rfl) hw⟩
  | extractBit d r bit =>
    obtain ⟨rfl, rfl⟩ := Prod.mk.inj (Option.some.inj h)
    exact ⟨hreg d (by simp [Instruction.regs]), hf.unary (hreg r (by simp [Instruction.regs]))
      fun _ _ hw => map_isRef (fun _ => rfl) hw⟩
  | extractPartial d r i size =>
    obtain ⟨rfl, rfl⟩ := Prod.mk.inj (Option.some.inj h)
    exact ⟨hreg d (by simp [Instruction.regs]), hf.unary (hreg r (by simp [Instruction.regs]))
      fun _ _ hw => map_isRef (fun _ => rfl) hw⟩
  | not d r | sqrt d r | sin d r | cos d r | tan d r | asin d r | acos d r | atan d r | ln d r
  | log d r | exp d r | toInt d r | toReal d r | toBool d r | toTime d r | toTod d r
  | dtExtractTod d r | dayOfWeek d r | stringLen d r | stringTrim d r | stringLTrim d r
  | stringRTrim d r | stringToUpper d r | stringToLower d r | intToString d r | uintToString d r
  | realToString d r | boolToString d r | stringToInt d r | stringToUInt d r | stringToReal d r
  | stringToBool d r | toString d r =>
    obtain ⟨rfl, rfl⟩ := Prod.mk.inj (Option.some.inj h)
    exact ⟨hreg d (by simp [Instruction.regs]), hf.unary (hreg r (by simp [Instruction.regs]))
      (nonRef_ok fun _ => rfl)⟩
  | stringMid d a b c =>
    obtain ⟨rfl, rfl⟩ := Prod.mk.inj (Option.some.inj h)
    exact ⟨hreg d (by simp [Instruction.regs]), hf.ternary (hreg a (by simp [Instruction.regs]))
      (hreg b (by simp [Instruction.regs])) (hreg c (by simp [Instruction.regs]))
      fun _ _ _ _ hw => stringMidOf_isRef hw⟩
  | stringInsert d a b c =>
    obtain ⟨rfl, rfl⟩ := Prod.mk.inj (Option.some.inj h)
    exact ⟨hreg d (by simp [Instruction.regs]), hf.ternary (hreg a (by simp [Instruction.regs]))
      (hreg b (by simp [Instruction.regs])) (hreg c (by simp [Instruction.regs]))
      fun _ _ _ _ hw => stringInsertOf_isRef hw⟩
  | stringDelete d a b c =>
    obtain ⟨rfl, rfl⟩ := Prod.mk.inj (Option.some.inj h)
    exact ⟨hreg d (by simp [Instruction.regs]), hf.ternary (hreg a (by simp [Instruction.regs]))
      (hreg b (by simp [Instruction.regs])) (hreg c (by simp [Instruction.regs]))
      fun _ _ _ _ hw => stringDeleteOf_isRef hw⟩
  | stringReplace d a b c e =>
    obtain ⟨rfl, rfl⟩ := Prod.mk.inj (Option.some.inj h)
    exact ⟨hreg d (by simp [Instruction.regs]),
      (hf.regGet (hreg e (by simp [Instruction.regs]))).bind fun _ _ =>
        hf.ternary (hreg a (by simp [Instruction.regs])) (hreg b (by simp [Instruction.regs]))
          (hreg c (by simp [Instruction.regs])) fun _ _ _ _ hw => stringReplaceOf_isRef hw⟩
  | systemTime d | loadNull d =>
    obtain ⟨rfl, rfl⟩ := Prod.mk.inj (Option.some.inj h)
    exact ⟨hreg d (by simp [Instruction.regs]), RefIn.of_isRef rfl⟩
  | makeRefLocal d slot =>
    obtain ⟨rfl, rfl⟩ := Prod.mk.inj (Option.some.inj h)
    exact ⟨hreg d (by simp [Instruction.regs]), makeRefLocal_fine slot _⟩
  | makeRefGlobal d slot =>
    obtain ⟨rfl, rfl⟩ := Prod.mk.inj (Option.some.inj h)
    refine ⟨hreg d (by simp [Instruction.regs]), ?_⟩
    intro s hs
    obtain rfl := (Value.ref.inj hs).2
    exact hfit.globalSlots slot (by simp [Instruction.globalSlots])
  | deref d r =>
    obtain ⟨rfl, rfl⟩ := Prod.mk.inj (Option.some.inj h)
    exact ⟨hreg d (by simp [Instruction.regs]),
      (hf.regGet (hreg r (by simp [Instruction.regs]))).map fun ptr _ => hv.deref ptr⟩
  | loadArray d slot idx =>
    obtain ⟨rfl, rfl⟩ := Prod.mk.inj (Option.some.inj h)
    exact ⟨hreg d (by simp [Instruction.regs]),
      loadArray_fine hv hf (hreg idx (by simp [Instruction.regs]))⟩
  | loadField d slot i =>
    obtain ⟨rfl, rfl⟩ := Prod.mk.inj (Option.some.inj h)
    exact ⟨hreg d (by simp [Instruction.regs]), hv.instanceGet _ _⟩
  | loadFieldIndex d slot off idx =>
    obtain ⟨rfl, rfl⟩ := Prod.mk.inj (Option.some.inj h)
    exact ⟨hreg d (by simp [Instruction.regs]),
      loadFieldIndex_fine hv hf (hreg idx (by simp [Instruction.regs]))⟩

end

end

end RustPlc.Engine
