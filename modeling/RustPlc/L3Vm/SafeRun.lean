import RustPlc.Core.Lts
import RustPlc.L3Vm.Safe

/-!
# Runs stay in range

The calls, the stores and the whole step on top of `Vm.Sized`, and the runs:
any interleaving of program starts, steps and the host's housekeeping
between them.

Results:
* `step_safe`: one step keeps `Sized` and stays in range unless the class
  initialisation it starts needs a register beyond 255;
* `step_outOfRange_iff`: it leaves its tables exactly then;
* `scan_sized`: every state of every run is `Sized`.
-/
namespace RustPlc.Engine

open RustPlc.Ir RustPlc.Core

/-! ## Class initialisation -/

/-- The registers `init_class_instance` indexes: those of the constants and
the stores up to the first return. -/
def initRegs : List Instruction → List Reg
  | [] => []
  | .loadConst dst _ :: is => dst :: initRegs is
  | .storeLocal _ src :: is => src :: initRegs is
  | .retVoid :: _ => []
  | .ret _ :: _ => []
  | _ :: is => initRegs is

section

variable {n : Nat}

theorem initRegs_loadConst (dst : Reg) (v : Value) (is : List Instruction) :
    initRegs (.loadConst dst v :: is) = dst :: initRegs is := rfl

theorem initRegs_storeLocal (slot : UInt16) (src : Reg) (is : List Instruction) :
    initRegs (.storeLocal slot src :: is) = src :: initRegs is := rfl

theorem initClassLoop_loadConst (c : Nat) (dst : Reg) (v : Value) (is : List Instruction)
    (regs locals : List Value) :
    Vm.initClassLoop c (.loadConst dst v :: is) regs locals =
      (indexSet regs dst.toNat v >>= fun regs' => Vm.initClassLoop c is regs' locals) := rfl

theorem initClassLoop_storeLocal {c : Nat} {slot : UInt16} {locals : List Value}
    (h : slot.toNat < c ∧ slot.toNat < locals.length) (src : Reg) (is : List Instruction)
    (regs : List Value) :
    Vm.initClassLoop c (.storeLocal slot src :: is) regs locals =
      (index regs src.toNat >>= fun v =>
        Vm.initClassLoop c is regs (locals.set slot.toNat v)) :=
  if_pos h

/-- What the loop of `init_class_instance` does with a register file of `k`
entries: it ends when every register is in the file, and indexes outside it
otherwise. -/
theorem initClassLoop_spec {k c : Nat} : ∀ (is : List Instruction) (regs locals : List Value),
    regs.length = k → locals.length = c →
    (∀ i ∈ is, ∀ s ∈ i.localSlots, s.toNat < c) →
    (∀ i ∈ is, ∀ v ∈ i.consts, v.isRef = false) →
    (∀ v ∈ regs, RefIn n v) → (∀ v ∈ locals, RefIn n v) →
    ((∀ r ∈ initRegs is, r.toNat < k) →
      ∃ ls, Vm.initClassLoop c is regs locals = .ok ls ∧ ls.length = c ∧
        ∀ v ∈ ls, RefIn n v) ∧
    ((∃ r ∈ initRegs is, k ≤ r.toNat) →
      Vm.initClassLoop c is regs locals = .error .indexOutOfBounds)
  | [], regs, locals, _, hl, _, _, _, hls => by
    refine ⟨fun _ => ⟨locals, rfl, hl, hls⟩, ?_⟩
    rintro ⟨r, hr, -⟩
    exact absurd hr List.not_mem_nil
  | i :: is, regs, locals, hr, hl, hslots, hconsts, hregs, hls => by
    have hslots' := fun j hj => hslots j (List.mem_cons_of_mem i hj)
    have hconsts' := fun j hj => hconsts j (List.mem_cons_of_mem i hj)
    have ih := initClassLoop_spec is regs locals hr hl hslots' hconsts' hregs hls
    cases i with
    | loadConst dst v =>
      have hv : RefIn n v :=
        .of_isRef (hconsts _ (List.mem_cons_self ..) v (by simp [Instruction.consts]))
      have ih' := initClassLoop_spec is (regs.set dst.toNat v) locals (by simpa using hr) hl hslots'
        hconsts' (refIn_set hregs hv) hls
      by_cases hd : dst.toNat < k
      · have hset : indexSet regs dst.toNat v = .ok (regs.set dst.toNat v) := by
          simp [indexSet, hr, hd]
        rw [initClassLoop_loadConst, hset, initRegs_loadConst, List.forall_mem_cons]
        refine ⟨fun h => ih'.1 h.2, ?_⟩
        rintro ⟨r, hm, hk⟩
        rcases List.mem_cons.mp hm with rfl | hm
        · omega
        · exact ih'.2 ⟨r, hm, hk⟩
      · have hset : indexSet regs dst.toNat v = .error .indexOutOfBounds := by
          simp [indexSet, hr, hd]
        rw [initClassLoop_loadConst, hset, initRegs_loadConst, List.forall_mem_cons]
        exact ⟨fun h => absurd h.1 hd, fun _ => rfl⟩
    | storeLocal slot src =>
      have hslot : slot.toNat < c :=
        hslots _ (List.mem_cons_self ..) slot (by simp [Instruction.localSlots])
      have hcond : slot.toNat < c ∧ slot.toNat < locals.length := ⟨hslot, hl ▸ hslot⟩
      by_cases hs : src.toNat < k
      · have hlt : src.toNat < regs.length := hr ▸ hs
        have hget : index regs src.toNat = .ok regs[src.toNat] := by
          simp [index, List.getElem?_eq_getElem hlt]
        have ih' := initClassLoop_spec is regs (locals.set slot.toNat regs[src.toNat]) hr
          (by simpa using hl) hslots' hconsts' hregs
          (refIn_set hls (hregs _ (List.getElem_mem hlt)))
        rw [initClassLoop_storeLocal hcond, hget, initRegs_storeLocal, List.forall_mem_cons]
        refine ⟨fun h => ih'.1 h.2, ?_⟩
        rintro ⟨r, hm, hk⟩
        rcases List.mem_cons.mp hm with rfl | hm
        · omega
        · exact ih'.2 ⟨r, hm, hk⟩
      · have hget : index regs src.toNat = .error .indexOutOfBounds := by
          have : regs[src.toNat]? = none := List.getElem?_eq_none (by omega)
          simp [index, this]
        rw [initClassLoop_storeLocal hcond, hget, initRegs_storeLocal, List.forall_mem_cons]
        exact ⟨fun h => absurd h.1 hs, fun _ => rfl⟩
    | retVoid =>
      refine ⟨fun _ => ⟨locals, rfl, hl, hls⟩, ?_⟩
      rintro ⟨r, hm, -⟩
      exact absurd hm List.not_mem_nil
    | ret r =>
      refine ⟨fun _ => ⟨locals, rfl, hl, hls⟩, ?_⟩
      rintro ⟨r, hm, -⟩
      exact absurd hm List.not_mem_nil
    | _ => exact ih

end

/-- Whether `init_class_instance` stays inside its register file. -/
def InitFits (cls : Function) : Prop := ∀ r ∈ initRegs cls.instructions, r.toNat < 256

instance (cls : Function) : Decidable (InitFits cls) :=
  inferInstanceAs (Decidable (∀ r ∈ initRegs cls.instructions, r.toNat < 256))

namespace Vm

/-- The class the next step initialises: that of the first method call on an
instance. -/
def classToInit (vm : Vm) : Option Function :=
  match vm.nextInstr with
  | some (.callMethod slot cls _ _ _) => match Finmap.lookup (vm.instanceKey slot) vm.fbInstances with
    | none => vm.func? cls
    | some _ => none
  | _ => none

/-- The next step initialises a class whose initialisation code indexes a
register beyond 255. -/
def NeedsWideInit (vm : Vm) : Prop := ∃ cls, vm.classToInit = some cls ∧ ¬ InitFits cls

end Vm

section

variable {m : Module} {vm : Vm}

/-! ## Calls -/

theorem enter_sized {i : UInt16} {func : Function} {locals : List Value} {pc : Nat}
    {slot : Option UInt16} (hf : m.functions[i.toNat]? = some func)
    (hl : func.locals.slots.length ≤ locals.length)
    (hr : ∀ v ∈ locals, RefIn m.globals.slots.length v) :
    (CallFrame.enter i func locals pc slot).Sized m func where
  funcAt := hf
  registers := by simp [CallFrame.enter]
  locals := hl
  returnReg := by simp [CallFrame.enter]
  regRefs := refIn_replicate
  localRefs := hr

theorem bindArgs_fine {f : CallFrame} {func : Function} (hf : f.Sized m func) {offset : Nat} :
    ∀ (args : List (UInt16 × Reg)) (locals : List Value),
      (∀ p ∈ args, p.2.toNat < func.registerCount.toNat) →
      (∀ v ∈ locals, RefIn m.globals.slots.length v) →
      Fine (fun ls => ls.length = locals.length ∧ ∀ v ∈ ls, RefIn m.globals.slots.length v)
        (Vm.bindArgs f offset args locals)
  | [], locals, _, hl => ⟨rfl, hl⟩
  | (param, arg) :: args, locals, ha, hl => by
    simp only [Vm.bindArgs]
    split
    · rfl
    · refine (hf.regGet (ha _ (List.mem_cons_self ..))).bind fun v hv => ?_
      refine (bindArgs_fine hf args _ (fun p hp => ha p (List.mem_cons_of_mem _ hp))
        (refIn_set hl hv)).mono ?_
      rintro ls ⟨h1, h2⟩
      exact ⟨by simpa using h1, h2⟩

/-- The frame of the caller, waiting for a result. -/
theorem CallFrame.Sized.waiting {f : CallFrame} {func : Function} (hf : f.Sized m func) {dst : Reg}
    (hd : dst.toNat < func.registerCount.toNat) :
    ({ f with returnReg := some dst } : CallFrame).Sized m func :=
  { hf with
    returnReg := by
      intro r hr
      obtain rfl := Option.some.inj hr
      have := hf.registers
      simp only
      omega }

theorem Vm.Sized.func? (hv : vm.Sized m) {i : UInt16} (hi : i.toNat < m.functions.length) :
    vm.func? i = some m.functions[i.toNat] := by
  simp [Vm.func?, hv.module, List.getElem?_eq_getElem hi]

theorem Vm.Sized.callFunction (hv : vm.Sized m) {f : CallFrame} {func : Function}
    {rest : List CallFrame} (hf : f.Sized m func) (hrest : StackSized m rest) {i : UInt16}
    {dst : Reg} {args : List (UInt16 × Reg)} (hi : i.toNat < m.functions.length)
    (hd : dst.toNat < func.registerCount.toNat)
    (ha : ∀ p ∈ args, p.2.toNat < func.registerCount.toNat) :
    SafeOutcome m (vm.callFunction f rest i dst args) := by
  unfold Vm.callFunction
  split
  · exact ⟨hv, rfl⟩
  · rw [hv.func? hi]
    refine hv.orTrap (bindArgs_fine hf args _ ha (refIn_defaults _ _)) ?_
    rintro locals ⟨hlen, hrefs⟩
    refine hv.withStack fun g hg => ?_
    rcases List.mem_cons.mp hg with rfl | hg
    · exact ⟨_, enter_sized (List.getElem?_eq_getElem hi) (by simp [hlen]) hrefs⟩
    · rcases List.mem_cons.mp hg with rfl | hg
      · exact ⟨func, hf.waiting hd⟩
      · exact hrest g hg

theorem length_padTo (k : Nat) (xs : List Value) : k ≤ (Vm.padTo k xs).length := by
  simp only [Vm.padTo, List.length_append, List.length_replicate]
  omega

theorem Vm.Sized.callFb (hv : vm.Sized m) {f : CallFrame} {func caller : Function}
    (hf : f.Sized m func) {i slot : UInt16} {args : List (UInt16 × Reg)}
    (hi : i.toNat < m.functions.length)
    (ha : ∀ p ∈ args, p.2.toNat < func.registerCount.toNat) :
    SafeOutcome m (vm.callFb f i slot args caller) := by
  have hnat : i ∉ vm.module.nativeFbIndices := by simp [hv.module, hv.native]
  unfold Vm.callFb
  split
  · exact ⟨hv, rfl⟩
  · rw [hv.func? hi]
    have hlocals : ∀ v ∈ vm.instanceLocals (vm.instanceKey slot) i m.functions[i.toNat],
        RefIn m.globals.slots.length v := by
      unfold Vm.instanceLocals
      refine refIn_padTo ?_
      rw [if_neg hnat]
      cases hx : Finmap.lookup (vm.instanceKey slot) vm.fbInstances with
      | none => exact refIn_defaults _ _
      | some xs => exact hv.instances _ _ hx
    refine hv.orTrap (bindArgs_fine hf args _ ha hlocals) ?_
    rintro locals ⟨hlen, hrefs⟩
    refine hv.withStack fun g hg => ?_
    rcases List.mem_cons.mp hg with rfl | hg
    · refine ⟨_, enter_sized (List.getElem?_eq_getElem hi) ?_ hrefs⟩
      rw [hlen]
      exact length_padTo _ _
    · exact hv.frames g hg

theorem Vm.Sized.findMethodClassVarCount (hv : vm.Sized m) {i c : UInt16}
    (hi : i.toNat < m.functions.length) (hc : c.toNat < m.functions.length) :
    ∃ count, vm.findMethodClassVarCount i c = some count := by
  simp only [Vm.findMethodClassVarCount, hv.func? hi, hv.func? hc, Option.bind_eq_bind,
    Option.bind_some, Option.map_some]
  split
  · split
    · exact ⟨_, rfl⟩
    · exact ⟨_, rfl⟩
  · exact ⟨_, rfl⟩

/-- The initialisation of a class in range ends; one out of range does not. -/
theorem initClassInstance_spec {n : Nat} {cls : Function} (hwf : cls.WellFormed m) :
    (InitFits cls →
      ∃ ls, Vm.initClassInstance cls (List.replicate cls.locals.slots.length Value.dflt)
          cls.locals.slots.length = .ok ls ∧ ls.length = cls.locals.slots.length ∧
        ∀ v ∈ ls, RefIn n v) ∧
    (¬ InitFits cls →
      Vm.initClassInstance cls (List.replicate cls.locals.slots.length Value.dflt)
        cls.locals.slots.length = .error .indexOutOfBounds) := by
  have h := initClassLoop_spec (n := n) (k := 256) (c := cls.locals.slots.length)
    cls.instructions (List.replicate 256 Value.dflt)
    (List.replicate cls.locals.slots.length Value.dflt) List.length_replicate List.length_replicate
    (fun j hj => (hwf.fits j hj).localSlots) (fun j hj => (hwf.fits j hj).consts)
    refIn_replicate refIn_replicate
  refine ⟨h.1, fun hn => h.2 ?_⟩
  simpa [InitFits] using hn

theorem Vm.Sized.callMethod (hv : vm.Sized m) {f : CallFrame} {func : Function}
    {rest : List CallFrame} (hf : f.Sized m func) (hrest : StackSized m rest)
    {slot c i : UInt16} {dst : Reg} {args : List (UInt16 × Reg)}
    (hc : c.toNat < m.functions.length) (hi : i.toNat < m.functions.length)
    (hd : dst.toNat < func.registerCount.toNat)
    (ha : ∀ p ∈ args, p.2.toNat < func.registerCount.toNat)
    (hinit : Finmap.lookup (vm.instanceKey slot) vm.fbInstances = none →
      InitFits m.functions[c.toNat]) :
    SafeOutcome m (vm.callMethod f rest slot c i dst args) := by
  obtain ⟨count, hcount⟩ := hv.findMethodClassVarCount hi hc
  unfold Vm.callMethod
  rw [hv.func? hi, hv.func? hc, hcount]
  -- the instance state, saved or made by the initialisation code
  have hstate : Fine (fun p => p.2.Sized m ∧
      p.1.length = m.functions[i.toNat].locals.slots.length ∧
      ∀ v ∈ p.1, RefIn m.globals.slots.length v)
      (vm.methodState (vm.instanceKey slot) m.functions[c.toNat] count
        m.functions[i.toNat].locals.defaults) := by
    unfold Vm.methodState
    cases hx : Finmap.lookup (vm.instanceKey slot) vm.fbInstances with
    | some saved =>
      exact ⟨hv, by simp [mergePrefix_length],
        refIn_mergePrefix (hv.instances _ _ hx) (refIn_defaults _ _)⟩
    | none =>
      have hwf := hv.wellFormed _ (List.getElem_mem hc)
      obtain ⟨ls, hls, hlen, hrefs⟩ := (initClassInstance_spec (n := m.globals.slots.length)
        hwf).1 (hinit hx)
      have hfine : Fine (fun ls => ∀ v ∈ ls, RefIn m.globals.slots.length v)
          (Vm.initClassInstance m.functions[c.toNat]
            (List.replicate m.functions[c.toNat].locals.slots.length Value.dflt)
            m.functions[c.toNat].locals.slots.length) := by
        rw [hls]
        exact hrefs
      exact hfine.bind fun state hstate => ⟨hv.putInstance hstate, by simp [mergePrefix_length],
        refIn_mergePrefix hstate (refIn_defaults _ _)⟩
  refine hv.orTrap hstate ?_
  rintro ⟨locals, vm1⟩ ⟨hv1, hlen, hrefs⟩
  refine hv1.orTrap (bindArgs_fine hf args _ ha hrefs) ?_
  rintro locals' ⟨hlen', hrefs'⟩
  split
  · exact ⟨hv1, rfl⟩
  · refine hv1.withStack fun g hg => ?_
    rcases List.mem_cons.mp hg with rfl | hg
    · exact ⟨_, enter_sized (List.getElem?_eq_getElem hi)
        (Nat.le_of_eq (hlen'.trans hlen).symm) hrefs'⟩
    · rcases List.mem_cons.mp hg with rfl | hg
      · exact ⟨func, hf.waiting hd⟩
      · exact hrest g hg

/-! ## Stores and jumps -/

theorem Vm.Sized.storeLocal (hv : vm.Sized m) {f : CallFrame} {func : Function}
    {rest : List CallFrame} (hf : f.Sized m func) (hrest : StackSized m rest) {slot : UInt16}
    {v : Value} (hs : slot.toNat < func.locals.slots.length)
    (hval : RefIn m.globals.slots.length v) :
    SafeOutcome m (vm.orTrap (Vm.localSet func f slot v) fun f' =>
      .next (vm.withStack (f' :: rest))) := by
  have hlt : slot.toNat < f.locals.length := Nat.lt_of_lt_of_le hs hf.locals
  have hset : Fine (fun f' => f'.Sized m func) (Vm.localSet func f slot v) := by
    refine (Fine.indexSet hlt).map ?_
    rintro ls rfl
    exact { hf with
      locals := by simpa using hf.locals
      localRefs := refIn_set hf.localRefs (hval.narrow _) }
  refine hv.orTrap hset fun f' hf' => hv.withStack fun g hg => ?_
  rcases List.mem_cons.mp hg with rfl | hg
  · exact ⟨func, hf'⟩
  · exact hrest g hg

theorem Vm.Sized.storeGlobal (hv : vm.Sized m) {f : CallFrame} {func : Function}
    (hf : f.Sized m func) {slot : UInt16} {src : Reg} (hs : slot.toNat < m.globals.slots.length)
    (hr : src.toNat < func.registerCount.toNat) : SafeOutcome m (vm.storeGlobal f slot src) := by
  unfold Vm.storeGlobal
  split
  · exact hv
  · refine hv.orTrap (hf.regGet hr) fun v hval => ?_
    have hlt : slot.toNat < vm.globals.length := hv.globals ▸ hs
    refine hv.orTrap (Fine.indexSet hlt) ?_
    rintro gs rfl
    exact hv.setGlobals (by simp) (refIn_set hv.globalRefs (hval.narrow _))

theorem Vm.Sized.instanceSet (hv : vm.Sized m) {key : InstanceKey} {i : Nat} {v : Value}
    (hval : RefIn m.globals.slots.length v) : (vm.instanceSet key i v).Sized m := by
  refine hv.putInstance (refIn_set (refIn_padTo ?_) hval)
  cases hx : Finmap.lookup key vm.fbInstances with
  | none => exact refIn_replicate
  | some xs => exact hv.instances _ _ hx

/-- A store into some local of a frame of the stack. -/
theorem StackSized.setLocal {stack : List CallFrame} (h : StackSized m stack) (i j : Nat)
    {v : Value} (hval : RefIn m.globals.slots.length v) :
    StackSized m (stack.reverse.modify i fun fr =>
      { fr with locals := fr.locals.set j v }).reverse := by
  intro f hf
  rw [List.mem_reverse] at hf
  obtain ⟨k, hk⟩ := List.mem_iff_getElem?.mp hf
  rw [List.getElem?_modify] at hk
  cases hx : stack.reverse[k]? with
  | none => simp [hx] at hk
  | some g =>
    obtain ⟨func, hg⟩ := h g (List.mem_reverse.mp (List.mem_of_getElem? hx))
    simp only [hx, Option.map_eq_map, Option.map_some, Option.some.injEq] at hk
    split at hk
    · subst hk
      exact ⟨func, { hg with
        locals := by simpa using hg.locals
        localRefs := refIn_set hg.localRefs hval }⟩
    · exact ⟨func, hk ▸ hg⟩

theorem Vm.Sized.derefStore (hv : vm.Sized m) {ptr v : Value}
    (hptr : RefIn m.globals.slots.length ptr) (hval : RefIn m.globals.slots.length v) :
    SafeOutcome m (vm.derefStore ptr v) := by
  cases ptr with
  | ref tag slot =>
    simp only [Vm.derefStore]
    by_cases h0 : tag = 0
    · subst h0
      have hlt : slot.toNat < vm.globals.length := by
        rw [hv.globals]
        exact hptr slot rfl
      rw [if_pos rfl]
      refine hv.orTrap (Fine.indexSet hlt) ?_
      rintro gs rfl
      exact hv.setGlobals (by simp) (refIn_set hv.globalRefs hval)
    · rw [if_neg h0]
      split
      · exact hv.setGlobals (by simp) (refIn_set hv.globalRefs hval)
      · exact hv.withStack (StackSized.setLocal hv.frames _ _ hval)
  | _ => exact hv

theorem Vm.Sized.jumpTo (hv : vm.Sized m) {f : CallFrame} {func : Function}
    {rest : List CallFrame} (hf : f.Sized m func) (hrest : StackSized m rest) {label : Label}
    (hl : label.toNat < func.labelPositions.length) :
    SafeOutcome m (vm.jumpTo func f rest label) := by
  unfold Vm.jumpTo
  rw [List.getElem?_eq_getElem hl]
  refine hv.withStack fun g hg => ?_
  rcases List.mem_cons.mp hg with rfl | hg
  · exact ⟨func, { hf with }⟩
  · exact hrest g hg

section

variable [F64Ops]

theorem Vm.Sized.storeArray (hv : vm.Sized m) {f : CallFrame} {func : Function}
    (hf : f.Sized m func) {slot : UInt16} {idx val : Reg}
    (hi : idx.toNat < func.registerCount.toNat) (hr : val.toNat < func.registerCount.toNat) :
    SafeOutcome m (vm.storeArray func f slot idx val) := by
  unfold Vm.storeArray
  refine hv.orTrap (hf.regGet hi) fun raw _ => ?_
  refine hv.orTrap (hf.regGet hr) fun v hval => ?_
  refine hv.orTrap (Fine.liftPanic (P := fun _ => True) fun _ _ => trivial) fun total _ => ?_
  refine hv.orTrap (Fine.liftPanic (P := fun _ => True) fun _ _ => trivial) fun flat _ => ?_
  refine hv.putInstance (refIn_set ?_ hval)
  cases hx : Finmap.lookup (vm.instanceKey slot) vm.fbInstances with
  | none => exact refIn_replicate
  | some xs => exact hv.instances _ _ hx

theorem Vm.Sized.storeFieldIndex (hv : vm.Sized m) {f : CallFrame} {func : Function}
    (hf : f.Sized m func) {slot off : UInt16} {idx val : Reg}
    (hi : idx.toNat < func.registerCount.toNat) (hr : val.toNat < func.registerCount.toNat) :
    SafeOutcome m (vm.storeFieldIndex f slot off idx val) := by
  unfold Vm.storeFieldIndex
  refine hv.orTrap (hf.regGet hi) fun raw _ => ?_
  refine hv.orTrap (Fine.liftPanic (P := fun _ => True) fun _ _ => trivial) fun flat _ => ?_
  refine hv.orTrap (hf.regGet hr) fun v hval => ?_
  refine hv.orTrap (Fine.liftPanic (P := fun _ => True) fun _ _ => trivial) fun _ _ => ?_
  exact hv.instanceSet hval

/-! ## One step -/

/-- Every instruction outside `compute` is safe, a method call when the class
initialisation it may start fits. -/
theorem Vm.Sized.control (hv : vm.Sized m) {f : CallFrame} {func : Function}
    {rest : List CallFrame} {i : Instruction} (hf : f.Sized m func) (hrest : StackSized m rest)
    (hfit : i.Fits (func.limits m))
    (hinit : ∀ slot c j dst args (hc : c.toNat < m.functions.length),
      i = .callMethod slot c j dst args →
      Finmap.lookup (vm.instanceKey slot) vm.fbInstances = none → InitFits m.functions[c.toNat]) :
    SafeOutcome m (vm.control func f rest i) := by
  have hreg : ∀ r ∈ i.regs, r.toNat < func.registerCount.toNat := hfit.regs
  have hlab : ∀ l ∈ i.labels, l.toNat < func.labelPositions.length := hfit.labels
  cases i with
  | storeLocal slot src =>
    refine hv.orTrap (hf.regGet (hreg src (by simp [Instruction.regs]))) fun v hval => ?_
    exact hv.storeLocal hf hrest (hfit.localSlots slot (by simp [Instruction.localSlots])) hval
  | storeGlobal slot src =>
    exact hv.storeGlobal hf (hfit.globalSlots slot (by simp [Instruction.globalSlots]))
      (hreg src (by simp [Instruction.regs]))
  | jump l => exact hv.jumpTo hf hrest (hlab l (by simp [Instruction.labels]))
  | jumpIf r l =>
    refine hv.orTrap (hf.regGet (hreg r (by simp [Instruction.regs]))) fun v _ => ?_
    split
    · exact hv.jumpTo hf hrest (hlab l (by simp [Instruction.labels]))
    · exact hv
  | jumpIfNot r l =>
    refine hv.orTrap (hf.regGet (hreg r (by simp [Instruction.regs]))) fun v _ => ?_
    split
    · exact hv
    · exact hv.jumpTo hf hrest (hlab l (by simp [Instruction.labels]))
  | call j dst args =>
    refine hv.callFunction hf hrest (hfit.callees j (by simp [Instruction.callees]))
      (hreg dst (by simp [Instruction.regs])) fun p hp => hreg p.2 ?_
    simp only [Instruction.regs, List.mem_cons, List.mem_map]
    exact .inr ⟨p, hp, rfl⟩
  | callFb slot j args =>
    refine hv.callFb hf (hfit.callees j (by simp [Instruction.callees])) fun p hp => hreg p.2 ?_
    exact List.mem_map.mpr ⟨p, hp, rfl⟩
  | callMethod slot c j dst args =>
    have hc := hfit.callees c (by simp [Instruction.callees])
    refine hv.callMethod hf hrest hc (hfit.callees j (by simp [Instruction.callees]))
      (hreg dst (by simp [Instruction.regs])) (fun p hp => hreg p.2 ?_)
      (hinit slot c j dst args hc rfl)
    simp only [Instruction.regs, List.mem_cons, List.mem_map]
    exact .inr ⟨p, hp, rfl⟩
  | ret r => exact hv.ret hf hrest (hreg r (by simp [Instruction.regs]))
  | retVoid => exact hv.retVoid hrest
  | derefStore p r =>
    refine hv.orTrap (hf.regGet (hreg p (by simp [Instruction.regs]))) fun ptr hptr => ?_
    refine hv.orTrap (hf.regGet (hreg r (by simp [Instruction.regs]))) fun v hval => ?_
    exact hv.derefStore hptr hval
  | storeArray slot idx r =>
    exact hv.storeArray hf (hreg idx (by simp [Instruction.regs]))
      (hreg r (by simp [Instruction.regs]))
  | storeField slot i r =>
    refine hv.orTrap (hf.regGet (hreg r (by simp [Instruction.regs]))) fun v hval => ?_
    exact hv.instanceSet hval
  | storeFieldIndex slot off idx r =>
    exact hv.storeFieldIndex hf (hreg idx (by simp [Instruction.regs]))
      (hreg r (by simp [Instruction.regs]))
  | _ => exact hv

theorem Vm.Sized.exec (hv : vm.Sized m) {f : CallFrame} {func : Function}
    {rest : List CallFrame} {i : Instruction} (hf : f.Sized m func) (hrest : StackSized m rest)
    (hfit : i.Fits (func.limits m))
    (hinit : ∀ slot c j dst args (hc : c.toNat < m.functions.length),
      i = .callMethod slot c j dst args →
      Finmap.lookup (vm.instanceKey slot) vm.fbInstances = none → InitFits m.functions[c.toNat]) :
    SafeOutcome m (vm.exec func f rest i) := by
  unfold Vm.exec
  cases hx : vm.compute func f i with
  | none => exact hv.control hf hrest hfit hinit
  | some p =>
    obtain ⟨dst, x⟩ := p
    obtain ⟨hdst, hfine⟩ := compute_fine hv hf hfit hx
    refine hv.orTrap hfine fun v hval => ?_
    have hlt : dst.toNat < f.registers.length := by
      rw [hf.registers]
      omega
    refine hv.orTrap (hf.regSet hlt hval) ?_
    rintro f' ⟨hf', -, -⟩
    refine hv.withStack fun g hg => ?_
    rcases List.mem_cons.mp hg with rfl | hg
    · exact ⟨func, hf'⟩
    · exact hrest g hg

omit [F64Ops] in
theorem Vm.Sized.advance (hv : vm.Sized m) {f : CallFrame} {func : Function}
    {rest : List CallFrame} (d : DebugState) (hf : f.Sized m func) (hrest : StackSized m rest) :
    (vm.advance d f rest).Sized m := by
  refine { hv with frames := fun g hg => ?_ }
  rcases List.mem_cons.mp hg with rfl | hg
  · exact ⟨func, { hf with }⟩
  · exact hrest g hg

omit [F64Ops] in
/-- The running frame with its function and the frames below it. -/
theorem Vm.Sized.top (hv : vm.Sized m) {f : CallFrame} {rest : List CallFrame}
    (hstack : vm.callStack = f :: rest) :
    ∃ func, f.Sized m func ∧ vm.func? f.funcIndex = some func ∧ func ∈ m.functions ∧
      StackSized m rest := by
  obtain ⟨func, hf⟩ := hv.frames f (by rw [hstack]; exact List.mem_cons_self ..)
  refine ⟨func, hf, ?_, List.mem_of_getElem? hf.funcAt, fun g hg => hv.frames g ?_⟩
  · rw [Vm.func?, hv.module]
    exact hf.funcAt
  · rw [hstack]
    exact List.mem_cons_of_mem _ hg

omit [F64Ops] in
/-- Advancing the counter does not change where the frame keeps its variables. -/
theorem advance_instanceKey {f : CallFrame} {rest : List CallFrame} (d : DebugState)
    (hstack : vm.callStack = f :: rest) (slot : UInt16) :
    (vm.advance d f rest).instanceKey slot = vm.instanceKey slot := by
  simp [Vm.instanceKey, Vm.callerIdentity, Vm.advance, hstack, CallFrame.identity]

/-- One step keeps the invariant and stays in range, unless it starts a class
initialisation that needs more registers than it gets. -/
theorem step_safe (hv : vm.Sized m) (hn : ¬ vm.NeedsWideInit) : SafeOutcome m vm.step := by
  have hcase := vm.stepCase
  generalize hnext : vm.nextInstr = next at hcase
  generalize vm.step = o at hcase ⊢
  cases hcase with
  | idle _ => exact hv
  | lost f rest hstack hfunc =>
    obtain ⟨func, -, hfunc', -⟩ := hv.top hstack
    simp [hfunc] at hfunc'
  | atEnd f rest func hstack _ _ =>
    obtain ⟨-, -, -, -, hrest⟩ := hv.top hstack
    exact hv.fallOff hrest
  | paused d => exact ⟨{ hv with }, rfl⟩
  | limit f rest d hstack =>
    obtain ⟨func, hf, -, -, hrest⟩ := hv.top hstack
    exact ⟨hv.advance d hf hrest, rfl⟩
  | instr f rest func d i hstack hfunc hi =>
    obtain ⟨func', hf, hfunc', hmem, hrest⟩ := hv.top hstack
    rw [hfunc] at hfunc'
    obtain rfl := Option.some.inj hfunc'
    refine (hv.advance d hf hrest).exec { hf with } hrest
      ((hv.wellFormed func hmem).fits i (List.mem_of_getElem? hi)) ?_
    rintro slot c j dst args hc rfl hnone
    rw [advance_instanceKey d hstack] at hnone
    by_contra hwide
    refine hn ⟨m.functions[c.toNat], ?_, hwide⟩
    simp only [Vm.classToInit, hnext]
    rw [show Finmap.lookup (vm.instanceKey slot) vm.fbInstances = none from hnone]
    exact hv.func? hc

/-- And when it does start one, it indexes outside the 256 registers. -/
theorem step_wideInit (hv : vm.Sized m) (hn : vm.NeedsWideInit) :
    ∃ vm', vm.step = .halt (vm', .error .indexOutOfBounds) := by
  obtain ⟨cls, hcls, hwide⟩ := hn
  unfold Vm.classToInit at hcls
  have hcase := vm.stepCase
  generalize vm.nextInstr = next at hcase hcls
  generalize vm.step = o at hcase ⊢
  cases hcase with
  | instr f rest func d i hstack hfunc hi =>
    obtain ⟨func', hf, hfunc', hmem, hrest⟩ := hv.top hstack
    rw [hfunc] at hfunc'
    obtain rfl := Option.some.inj hfunc'
    have hfit := (hv.wellFormed func hmem).fits i (List.mem_of_getElem? hi)
    cases i with
    | callMethod slot c j dst args =>
      simp only at hcls
      cases hnone : Finmap.lookup (vm.instanceKey slot) vm.fbInstances with
      | some xs => simp [hnone] at hcls
      | none =>
        simp only [hnone] at hcls
        have ha := hv.advance d hf hrest
        have hc := hfit.callees c (by simp [Instruction.callees])
        have hj := hfit.callees j (by simp [Instruction.callees])
        obtain ⟨count, hcount⟩ := ha.findMethodClassVarCount hj hc
        rw [hv.func? hc] at hcls
        obtain rfl := Option.some.inj hcls
        have hinit := (initClassInstance_spec (n := 0)
          (hv.wellFormed _ (List.getElem_mem hc))).2 hwide
        have hnone' : Finmap.lookup ((vm.advance d f rest).instanceKey slot)
            (vm.advance d f rest).fbInstances = none := by
          rw [advance_instanceKey d hstack]
          exact hnone
        have hstate : ∀ locals, (vm.advance d f rest).methodState
            ((vm.advance d f rest).instanceKey slot) m.functions[c.toNat] count locals =
              .error .indexOutOfBounds := by
          intro locals
          simp only [Vm.methodState, hnone', hinit]
          rfl
        refine ⟨vm.advance d f rest, ?_⟩
        show (vm.advance d f rest).callMethod _ rest slot c j dst args = _
        simp only [Vm.callMethod, ha.func? hj, ha.func? hc, hcount, hstate]
        rfl
    | _ => simp at hcls
  | _ => simp at hcls

/-- A step leaves its tables exactly when it starts such an initialisation. -/
theorem step_outOfRange_iff (hv : vm.Sized m) :
    (∃ vm' t, vm.step = .halt (vm', .error t) ∧ t.outOfRange = true) ↔ vm.NeedsWideInit := by
  constructor
  · rintro ⟨vm', t, hstep, ht⟩
    by_contra hn
    have hsafe := step_safe hv hn
    rw [hstep] at hsafe
    simp [hsafe.2] at ht
  · intro hn
    obtain ⟨vm', hstep⟩ := step_wideInit hv hn
    exact ⟨vm', _, hstep, rfl⟩

/-! ## Runs -/

end

end

/-- What happens to a machine: a program is started, the loop makes one
iteration, or the host does its bookkeeping. -/
inductive ScanEvent where
  | start (name : String)
  | tick
  | host
  deriving DecidableEq, Repr

section

variable [F64Ops]

/-- The steps that scan cycles are made of (crates/st-engine/src/engine.rs:222-266).
A panic ends the thread, so only a reported result leads on. -/
inductive ScanStep : Vm → ScanEvent → Vm → Prop where
  | start {vm vm' : Vm} {name : String} (h : vm.enterRun name = some vm') :
    ScanStep vm (.start name) vm'
  | next {vm vm' : Vm} (h : vm.step = .next vm') : ScanStep vm .tick vm'
  | done {vm vm' : Vm} {v : Value} (h : vm.step = .halt (vm', .ok v)) : ScanStep vm .tick vm'
  | failed {vm vm' : Vm} {e : VmError} (h : vm.step = .halt (vm', .error (.error e))) :
    ScanStep vm .tick vm'
  | bookkeeping (vm : Vm) (d : DebugState) (t : Int64) :
    ScanStep vm .host { vm with debug := d, elapsedTimeMs := t, instructionCount := 0 }
  | clearCallStack (vm : Vm) : ScanStep vm .host (vm.withStack [])

/-- A new machine of module `m` and every sequence of scan cycles on it. -/
def scanLts (m : Module) : Lts Vm ScanEvent where
  init := fun vm => ∃ config nativeFbs, vm = Vm.newWithNativeFbs m config nativeFbs
  step := ScanStep

variable {m : Module} {vm : Vm}

omit [F64Ops] in
theorem sized_new (hm : m.WellFormed) (hnat : m.nativeFbIndices = []) (config : VmConfig)
    (nativeFbs : Option (List NativeFb)) : (Vm.newWithNativeFbs m config nativeFbs).Sized m where
  module := rfl
  wellFormed := hm
  native := hnat
  globals := by simp [Vm.newWithNativeFbs, MemoryLayout.defaults]
  globalRefs := refIn_defaults _ _
  retained := by simp [Vm.newWithNativeFbs]
  instances := by simp [Vm.newWithNativeFbs]
  forces := by simp [Vm.newWithNativeFbs]
  frames := by simp [Vm.newWithNativeFbs]

omit [F64Ops] in
/-- A program starts with locals of the right length, fresh or retained. -/
theorem Vm.Sized.enterRun (hv : vm.Sized m) (hlen : m.functions.length ≤ 65536) {name : String}
    {vm' : Vm} (h : vm.enterRun name = some vm') : vm'.Sized m := by
  unfold Vm.enterRun at h
  rw [hv.module] at h
  simp only [Option.map_eq_some_iff, Prod.exists] at h
  obtain ⟨i, func, hfind, rfl⟩ := h
  have hfunc := Module.findFunction_some hlen hfind
  have hstart : func.locals.slots.length ≤ (vm.startOf i func).1.length ∧
      ∀ v ∈ (vm.startOf i func).1, RefIn m.globals.slots.length v := by
    unfold Vm.startOf
    split
    · next hret =>
      obtain ⟨h1, h2⟩ := hv.retained _ _ hret
      exact ⟨h1 func hfunc, h2⟩
    · exact ⟨by simp [MemoryLayout.defaults], refIn_defaults _ _⟩
  refine hv.withStack fun g hg => ?_
  rcases List.mem_cons.mp hg with rfl | hg
  · exact ⟨func, enter_sized hfunc hstart.1 hstart.2⟩
  · exact hv.frames g hg

theorem Vm.Sized.tick (hv : vm.Sized m) {vm' : Vm} (h : ScanStep vm .tick vm') : vm'.Sized m := by
  by_cases hn : vm.NeedsWideInit
  · -- the initialisation panics, so the step does not lead on
    obtain ⟨w, hw⟩ := step_wideInit hv hn
    cases h with
    | next h | done h | failed h => simp [hw] at h
  · have hsafe := step_safe hv hn
    cases h with
    | next h | done h =>
      rw [h] at hsafe
      exact hsafe
    | failed h =>
      rw [h] at hsafe
      exact hsafe.1

/-- Every state of every run of scan cycles is sized. -/
theorem scan_sized (hm : m.WellFormed) (hnat : m.nativeFbIndices = [])
    (hlen : m.functions.length ≤ 65536) (h : (scanLts m).Reachable vm) : vm.Sized m := by
  refine h.inv ?_ ?_
  · rintro s ⟨config, nativeFbs, rfl⟩
    exact sized_new hm hnat config nativeFbs
  · intro s a t hs hstep
    cases hstep with
    | start h => exact hs.enterRun hlen h
    | next h => exact hs.tick (.next h)
    | done h => exact hs.tick (.done h)
    | failed h => exact hs.tick (.failed h)
    | bookkeeping d t => exact { hs with }
    | clearCallStack => exact hs.withStack (by simp)

end

end RustPlc.Engine
