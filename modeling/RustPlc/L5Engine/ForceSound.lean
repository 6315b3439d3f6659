import RustPlc.L5Engine.NoOpChange

/-!
# A forced global stays forced

While a global is forced, the slot it is stored in must not change and every
read must give the forced value. Stores by slot and host writes look at
`forced_global_slots`; a store through a reference does not
(crates/st-engine/src/vm.rs:1958-1975).

Results:
* `step_keeps_slot`: an iteration changes a forced slot only by a store
  through a reference to it;
* `force_sound`: in every run without such a store, every read of the global
  gives the forced value;
* `forced_global_overwritten`: a program that stores through `REF(g)`.
-/
namespace RustPlc.Engine

open RustPlc.Ir RustPlc.Core RustPlc.Syntax RustPlc.Compiler

/-! ## What the monitor shows -/

/-- mirrors crates/st-ir/src/lib.rs:113-127 -/
def displayName : IntWidth → Option String
  | .none => none
  | .i8 => some "SINT"
  | .u8 => some "USINT"
  | .i16 => some "INT"
  | .u16 => some "UINT"
  | .i32 => some "DINT"
  | .u32 => some "UDINT"
  | .i64 => some "LINT"
  | .u64 => some "ULINT"

/-- mirrors crates/st-engine/src/debug.rs:405-419 -/
def formatVarType : VarType → String
  | .bool => "BOOL"
  | .int => "INT"
  | .uint => "UINT"
  | .real => "REAL"
  | .string => "STRING"
  | .time => "TIME"
  | .fbInstance _ => "FB_INSTANCE"
  | .classInstance _ => "CLASS_INSTANCE"
  | .struct _ => "STRUCT"
  | .array _ => "ARRAY"
  | .ref => "REF_TO"

/-- mirrors crates/st-engine/src/debug.rs:441-446 -/
def formatVarTypeWithWidth (ty : VarType) (width : IntWidth) : String :=
  (displayName width).getD (formatVarType ty)

/-- mirrors crates/st-engine/src/debug.rs:374-397 -/
def formatTime (ms : Int64) : String :=
  let n := ms.toInt
  let min := toString (n / 60000)
  let rem := toString (n % 1000)
  if 60000 ≤ n then
    let sec := toString (n % 60000 / 1000)
    if 0 < n % 1000 then "T#" ++ min ++ "m" ++ sec ++ "s" ++ rem ++ "ms"
    else if 0 < n % 60000 / 1000 then "T#" ++ min ++ "m" ++ sec ++ "s"
    else "T#" ++ min ++ "m"
  else if 1000 ≤ n then
    if 0 < n % 1000 then "T#" ++ toString (n / 1000) ++ "s" ++ rem ++ "ms"
    else "T#" ++ toString (n / 1000) ++ "s"
  else "T#" ++ toString n ++ "ms"

/-- `fixed6` writes a real with six digits behind the point.
mirrors crates/st-engine/src/debug.rs:367-402 -/
def formatValue (fixed6 : F64 → String) : Value → String
  | .bool b => if b then "TRUE" else "FALSE"
  | .int i => toString i.toInt
  | .uint u => toString u.toNat
  | .real r => fixed6 r
  | .string s => "'" ++ s ++ "'"
  | .time ms => formatTime ms
  | .ref tag slot => "REF(" ++ toString tag.toNat ++ ":" ++ toString slot.toNat ++ ")"
  | .null => "NULL"
  | .void => "VOID"

/-- mirrors crates/st-engine/src/debug.rs:344-353; `var_ref` is always 0. -/
structure VariableInfo where
  name : String
  value : String
  ty : String
  retain : Bool
  persistent : Bool
  deriving DecidableEq, Repr

/-- What the monitor shows of a variable that holds `v`. -/
def slotInfo (fixed6 : F64 → String) (slot : VarSlot) (v : Value) : VariableInfo where
  name := slot.name
  value := formatValue fixed6 v
  ty := formatVarTypeWithWidth slot.ty slot.intWidth
  retain := slot.retain
  persistent := slot.persistent

/-- mirrors crates/st-engine/src/vm.rs:577-596 -/
def Vm.globalVariables (fixed6 : F64 → String) (vm : Vm) : List VariableInfo :=
  vm.module.globals.slots.zipIdx.map fun (slot, i) =>
    slotInfo fixed6 slot (vm.globals[i]?.getD .void)

/-! ## Stores through a reference -/

/-- The next iteration stores through a reference to global slot `slot`. -/
def Vm.StoresThrough (vm : Vm) (slot : UInt16) : Prop :=
  ∃ ptr val f rest tag, vm.nextInstr = some (.derefStore ptr val) ∧ vm.callStack = f :: rest ∧
    f.regGet ptr = .ok (.ref tag slot) ∧ (tag = 0 ∨ tag = 1)

section

variable {vm : Vm} {slot : UInt16}

/-- Returning touches no global. -/
theorem saveRetainedLocals_globals (vm : Vm) : vm.saveRetainedLocals.globals = vm.globals := by
  obtain ⟨retained, instances, h⟩ := vm.saveRetainedLocals_eq
  rw [h]

/-- A store to a slot that is not forced leaves the forced ones as they are. -/
theorem set_keeps_slot (hforced : slot ∈ vm.forcedGlobalSlots) {i : UInt16}
    (hi : i ∉ vm.forcedGlobalSlots) (y : Value) :
    (vm.globals.set i.toNat y)[slot.toNat]? = vm.globals[slot.toNat]? := by
  refine List.getElem?_set_ne fun heq => ?_
  rw [UInt16.toNat_inj.mp heq] at hi
  exact hi hforced

/-- An instruction leaves a forced slot as it is, unless it stores through a
reference to it. -/
theorem Vm.Effect.keeps_slot {func : Function} {f : CallFrame} {rest : List CallFrame}
    {i : Instruction} {vm' : Vm} (h : Vm.Effect vm func f rest i vm')
    (hforced : slot ∈ vm.forcedGlobalSlots)
    (hi : ∀ ptr val tag, i = .derefStore ptr val → f.regGet ptr = .ok (.ref tag slot) →
      ¬ (tag = 0 ∨ tag = 1)) :
    vm'.globals[slot.toNat]? = vm.globals[slot.toNat]? := by
  cases h with
  | storeGlobal other src v hv hf => exact set_keeps_slot hforced hf _
  | derefGlobal ptr val tag other v hp htag hv =>
    refine List.getElem?_set_ne fun heq => ?_
    rw [UInt16.toNat_inj.mp heq] at hp
    exact hi ptr val tag rfl hp htag
  | method slot ci fi dst args method cls count ls locals vm1 hm hc hs hb =>
    rcases methodState_vm hs with rfl | ⟨state, rfl⟩
    · rfl
    · rfl
  | ret => exact congrArg (·[slot.toNat]?) (saveRetainedLocals_globals vm)
  | retVoid => exact congrArg (·[slot.toNat]?) (saveRetainedLocals_globals vm)
  | _ => rfl

variable [F64Ops]

/-- **An iteration changes a forced slot only by a store through a reference
to it.** -/
theorem step_keeps_slot (hforced : slot ∈ vm.forcedGlobalSlots) (h : ¬ vm.StoresThrough slot) :
    (left vm.step).globals[slot.toNat]? = vm.globals[slot.toNat]? := by
  have heff := vm.step_effect
  generalize left vm.step = w at heff ⊢
  generalize hnext : vm.nextInstr = next at heff
  cases heff with
  | idle | paused | limit => rfl
  | atEnd => exact congrArg (·[slot.toNat]?) (saveRetainedLocals_globals vm)
  | instr f rest func d i w hstack _ _ heff =>
    refine heff.keeps_slot hforced ?_
    rintro ptr val tag rfl hp htag
    exact h ⟨ptr, val, f, rest, tag, hnext, hstack, hp, htag⟩

end

/-! ## While a global is forced -/

/-- What may happen before `g` is unforced: scan cycles, host writes, and
forces of other variables. -/
def WhileForced (g : String) (slot : UInt16) (m : Module) : EngineEvent → Prop
  | .scan _ | .enforce | .setGlobal .. | .setGlobalBySlot .. => True
  | .force name _ | .unforce name =>
    toUppercase name ≠ toUppercase g ∧ globalSlot m name ≠ some slot
  | .restore .. | .change _ => False

/-- Global `g` of slot `slot` is forced to `x`. -/
structure Vm.Forced (m : Module) (g : String) (slot : UInt16) (x : Value) (vm : Vm) : Prop where
  module : vm.module = m
  stored : vm.globals[slot.toNat]? = some x
  value : Finmap.lookup (toUppercase g) vm.forcedVariables = some x
  slots : slot ∈ vm.forcedGlobalSlots

section

variable {m : Module} {g : String} {slot : UInt16} {x : Value} {vm vm' : Vm}

theorem Vm.Forced.same (h : vm.Forced m g slot x) (hs : vm.SameForces vm')
    (hg : vm'.globals[slot.toNat]? = vm.globals[slot.toNat]?) : vm'.Forced m g slot x where
  module := hs.module.trans h.module
  stored := hg.trans h.stored
  value := hs.values ▸ h.value
  slots := hs.slots ▸ h.slots

/-- A host write by name is nothing or a store to a slot that is not forced. -/
theorem setGlobal_cases {name : String} {v : Value} (h : vm.setGlobal name v = .ok vm') :
    vm' = vm ∨ ∃ i y, i ∉ vm.forcedGlobalSlots ∧
      vm' = { vm with globals := vm.globals.set i.toNat y } := by
  unfold Vm.setGlobal at h
  split at h
  · next i s _ =>
    split at h
    · exact .inl (Except.ok.inj h).symm
    · next hi =>
      cases hx : indexSet vm.globals i.toNat (narrowValue v s.intWidth) with
      | error t => simp [hx, Except.map] at h
      | ok gs =>
        simp only [hx, Except.map, Except.ok.injEq] at h
        rw [Vm.indexSet_ok hx] at h
        exact .inr ⟨i, _, hi, h.symm⟩
  · exact .inl (Except.ok.inj h).symm

/-- So is a host write by slot. -/
theorem setGlobalBySlot_cases (vm : Vm) (i : UInt16) (v : Value) :
    vm.setGlobalBySlot i v = vm ∨ ∃ y, i ∉ vm.forcedGlobalSlots ∧
      vm.setGlobalBySlot i v = { vm with globals := vm.globals.set i.toNat y } := by
  unfold Vm.setGlobalBySlot
  split
  · exact .inl rfl
  · split
    · exact .inl rfl
    · next hi => exact .inr ⟨_, hi, rfl⟩

theorem enforce_keeps_globals (h : vm.enforceRetainedLocals = .ok vm') :
    vm'.globals = vm.globals := by
  refine Vm.enforceRetainedLocals_inv (P := fun w => w.globals = vm.globals) rfl ?_ ?_ h
  · intro w i prog ls hw _
    exact hw
  · intro w key pos field v hw _ _
    unfold Vm.patchInstance
    split
    · exact hw
    · exact hw

/-- Forcing another variable. -/
theorem Vm.Forced.forceVariable (h : vm.Forced m g slot x) {name : String} {v : Value}
    (hname : toUppercase name ≠ toUppercase g) (hslot : globalSlot m name ≠ some slot)
    (hf : vm.forceVariable name v = .ok vm') : vm'.Forced m g slot x := by
  unfold Vm.forceVariable at hf
  split at hf
  · next other slotDef hfind =>
    have hne : other ≠ slot := by
      rintro rfl
      rw [h.module] at hfind
      exact hslot (by simp [globalSlot, hfind])
    simp only [Except.ok.injEq] at hf
    subst hf
    refine ⟨h.module, ?_, ?_, Finset.mem_insert_of_mem h.slots⟩
    · exact (List.getElem?_set_ne fun heq => hne (UInt16.toNat_inj.mp heq)).trans h.stored
    · exact (Finmap.lookup_insert_of_ne _ hname.symm).trans h.value
  · have hw : ({ vm with
        forcedVariables := Finmap.insert (toUppercase name) v vm.forcedVariables } : Vm).Forced
          m g slot x :=
      ⟨h.module, h.stored, (Finmap.lookup_insert_of_ne _ hname.symm).trans h.value, h.slots⟩
    refine Vm.forceLocal_inv (P := fun w => w.Forced m g slot x) hw ?_ ?_ hf
    · intro i prog j s locals _ _ _ _
      exact { hw with }
    · intro key pos field _
      unfold Vm.patchInstance
      split
      · exact { hw with }
      · exact hw

/-- Unforcing another variable. -/
theorem Vm.Forced.unforceVariable (h : vm.Forced m g slot x) {name : String}
    (hname : toUppercase name ≠ toUppercase g) (hslot : globalSlot m name ≠ some slot) :
    (vm.unforceVariable name).Forced m g slot x where
  module := h.module
  stored := h.stored
  value := (Finmap.lookup_erase_ne hname.symm).trans h.value
  slots := by
    unfold Vm.unforceVariable
    simp only
    split
    · next other s hfind =>
      refine Finset.mem_erase.mpr ⟨?_, h.slots⟩
      rintro rfl
      rw [h.module] at hfind
      exact hslot (by simp [globalSlot, hfind])
    · exact h.slots

variable [F64Ops]

/-- **What may happen while `g` is forced keeps it forced**, but for a store
through a reference to its slot. -/
theorem forced_step {e e' : Engine} {ev : EngineEvent} (h : e.vm.Forced m g slot x)
    (hev : WhileForced g slot m ev) (hp : ev = .scan .tick → ¬ e.vm.StoresThrough slot)
    (hs : EngineStep e ev e') : e'.vm.Forced m g slot x := by
  cases hs with
  | @scan ev vm' hscan =>
    refine h.same (scan_sameForces hscan) ?_
    cases hscan with
    | start henter =>
      simp only [Vm.enterRun, Option.map_eq_some_iff] at henter
      obtain ⟨p, -, rfl⟩ := henter
      rfl
    | next ht | done ht | failed ht =>
      have hstep := step_keeps_slot h.slots (hp rfl)
      rw [ht] at hstep
      exact hstep
    | bookkeeping | clearCallStack => rfl
  | enforce he => exact h.same (enforce_sameForces he) (by rw [enforce_keeps_globals he])
  | setGlobal hset =>
    refine h.same (setGlobal_sameForces hset) ?_
    rcases setGlobal_cases hset with rfl | ⟨i, y, hi, rfl⟩
    · rfl
    · exact set_keeps_slot h.slots hi y
  | setGlobalBySlot i v =>
    refine h.same (setGlobalBySlot_sameForces i v) ?_
    rcases setGlobalBySlot_cases e.vm i v with heq | ⟨y, hi, heq⟩
    · rw [heq]
    · rw [heq]
      exact set_keeps_slot h.slots hi y
  | force hf => exact h.forceVariable hev.1 hev.2 hf
  | unforce name => exact h.unforceVariable hev.1 hev.2
  | restore | change => exact hev.elim

end

/-! ## Reads -/

section

variable [F64Ops]

/-- Every read of global `g` of slot `slot` gives `x`: its storage, a load, a
read through a reference, the host and the monitor. -/
structure ReadsForced (g : String) (slot : UInt16) (slotDef : VarSlot) (x : Value) (vm : Vm) :
    Prop where
  stored : vm.globals[slot.toNat]? = some x
  load : ∀ func f dst, vm.compute func f (.loadGlobal dst slot) = some (dst, .ok x)
  deref : ∀ tag, tag = 0 ∨ tag = 1 → vm.deref (.ref tag slot) = x
  getGlobal : vm.getGlobal g = .ok (some x)
  monitor : ∀ fixed6, (vm.globalVariables fixed6)[slot.toNat]? = some (slotInfo fixed6 slotDef x)

theorem Vm.Forced.reads {m : Module} {g : String} {slot : UInt16} {slotDef : VarSlot} {x : Value}
    {vm : Vm} (h : vm.Forced m g slot x) (hfind : m.globals.findSlot g = some (slot, slotDef))
    (hat : m.globals.slots[slot.toNat]? = some slotDef) : ReadsForced g slot slotDef x vm where
  stored := h.stored
  load := by
    intro func f dst
    have hforced : vm.forced? slotDef.name = some x := by
      unfold Vm.forced?
      rw [(MemoryLayout.findSlot_mem hfind).2]
      exact h.value
    show some (dst, vm.overlay vm.module.globals slot _) = _
    simp only [Vm.overlay, h.module, hat, hforced]
  deref := by
    intro tag htag
    simp only [Vm.deref, if_pos htag, h.stored, Option.getD_some]
  getGlobal := by
    simp only [Vm.getGlobal, h.module, hfind, index, h.stored, Except.map]
  monitor := by
    intro fixed6
    simp [Vm.globalVariables, h.module, hat, h.stored]

end

/-! ## Runs -/

/-- There is one value for each global of the module. -/
def Vm.GlobalsFit (vm : Vm) : Prop := vm.globals.length = vm.module.globals.slots.length

section

variable {vm vm' : Vm}

theorem Vm.GlobalsFit.same (h : vm.GlobalsFit) (hs : vm.SameForces vm')
    (hl : vm'.globals.length = vm.globals.length) : vm'.GlobalsFit := by
  unfold Vm.GlobalsFit
  rw [hl, hs.module]
  exact h

theorem Vm.Effect.globals_length {func : Function} {f : CallFrame} {rest : List CallFrame}
    {i : Instruction} (h : Vm.Effect vm func f rest i vm') :
    vm'.globals.length = vm.globals.length := by
  cases h with
  | storeGlobal | derefGlobal => exact List.length_set ..
  | method slot ci fi dst args method cls count ls locals vm1 hm hc hs hb =>
    rcases methodState_vm hs with rfl | ⟨state, rfl⟩
    · rfl
    · rfl
  | ret => exact congrArg List.length (saveRetainedLocals_globals vm)
  | retVoid => exact congrArg List.length (saveRetainedLocals_globals vm)
  | _ => rfl

variable [F64Ops]

theorem step_globals_length (vm : Vm) : (left vm.step).globals.length = vm.globals.length := by
  have heff := vm.step_effect
  generalize left vm.step = w at heff ⊢
  generalize vm.nextInstr = next at heff
  cases heff with
  | idle | paused | limit => rfl
  | atEnd => exact congrArg List.length (saveRetainedLocals_globals vm)
  | instr f rest func d i w _ _ _ heff => exact heff.globals_length

theorem scan_globals_length {ev : ScanEvent} (h : ScanStep vm ev vm') :
    vm'.globals.length = vm.globals.length := by
  have hstep := step_globals_length vm
  cases h with
  | start h =>
    simp only [Vm.enterRun, Option.map_eq_some_iff] at h
    obtain ⟨p, -, rfl⟩ := h
    rfl
  | next h | done h | failed h =>
    rw [h] at hstep
    exact hstep
  | bookkeeping | clearCallStack => rfl

omit [F64Ops] in
theorem Vm.GlobalsFit.forceVariable (h : vm.GlobalsFit) {name : String} {v : Value}
    (hf : vm.forceVariable name v = .ok vm') : vm'.GlobalsFit := by
  unfold Vm.forceVariable at hf
  split at hf
  · simp only [Except.ok.injEq] at hf
    subst hf
    exact (List.length_set ..).trans h
  · have hw : ({ vm with
        forcedVariables := Finmap.insert (toUppercase name) v vm.forcedVariables } : Vm).GlobalsFit :=
      h
    refine Vm.forceLocal_inv (P := Vm.GlobalsFit) hw ?_ ?_ hf
    · intro i prog j s locals _ _ _ _
      exact h
    · intro key pos field _
      unfold Vm.patchInstance
      split
      · exact h
      · exact h

omit [F64Ops] in
theorem onlineChange_globalsFit {e e' : Engine} {new : Module} {r : Except String ChangeAnalysis}
    (hv : e.vm.GlobalsFit) (h : e.onlineChangeModule new = .ok (e', r)) : e'.vm.GlobalsFit := by
  unfold onlineChangeModule at h
  simp only at h
  split at h
  · cases h
    exact hv
  · next hc =>
    unfold applyOnlineChange at h
    rw [if_neg hc] at h
    cases hg : oldGlobals e.vm with
    | error t => simp [hg, bind, Except.bind, Except.map] at h
    | ok gs =>
      simp only [hg, bind, Except.bind, pure, Except.pure, Except.map, Except.ok.injEq,
        Prod.mk.injEq] at h
      rw [← h.1]
      exact migrateLocals_length ..

/-- The globals of a machine are those of its module, whatever has happened. -/
theorem engine_globalsFit {m : Module} {e : Engine} (h : (engineLts m).Reachable e) :
    e.vm.GlobalsFit := by
  refine Lts.Reachable.inv (I := fun e => e.vm.GlobalsFit) ?_ ?_ h
  · rintro s ⟨config, nativeFbs, hs⟩
    rw [hs]
    exact (newWithNativeFbs_shaped m config nativeFbs).globals
  · intro s ev t hv hstep
    cases hstep with
    | scan h => exact hv.same (scan_sameForces h) (scan_globals_length h)
    | enforce h => exact hv.same (enforce_sameForces h) (by rw [enforce_keeps_globals h])
    | setGlobal h =>
      refine hv.same (setGlobal_sameForces h) ?_
      rcases setGlobal_cases h with rfl | ⟨i, y, -, rfl⟩
      · rfl
      · exact List.length_set ..
    | setGlobalBySlot slot v =>
      refine hv.same (setGlobalBySlot_sameForces slot v) ?_
      rcases setGlobalBySlot_cases s.vm slot v with heq | ⟨y, -, heq⟩
      · rw [heq]
      · rw [heq]
        exact List.length_set ..
    | force h => exact hv.forceVariable h
    | unforce name => exact hv
    | @restore snapshot warm vm' w h =>
      refine hv.same (restore_sameForces h) ?_
      exact (restoreSnapshot_inv (m := s.vm.module) (P := fun w => w.module = s.vm.module ∧
        w.globals.length = s.vm.globals.length)
        { module := fun _ hw => hw.1
          globals := fun _ _ _ _ hw _ _ => ⟨hw.1, (List.length_set ..).trans hw.2⟩
          locals := fun _ _ _ _ hw _ _ _ => hw
          fields := fun _ _ _ _ hw _ _ => hw } ⟨rfl, rfl⟩ h).2
    | change h => exact onlineChange_globalsFit hv h

/-- A run from the engine in which `g` has just been forced to the end of the
force. -/
def forcedLts (e : Engine) (g : String) (slot : UInt16) : Lts Engine EngineEvent where
  init := fun s => s = e
  step := fun s ev t => WhileForced g slot e.vm.module ev ∧ EngineStep s ev t

/-- No iteration stores through a reference to the slot. -/
def NoPointerStore (slot : UInt16) (e : Engine) (ev : EngineEvent) : Prop :=
  ev = .scan .tick → ¬ e.vm.StoresThrough slot

/-- **A force holds until it is removed**, in every run of every program that
does not store through a reference to the forced global. -/
theorem force_sound {m : Module} {e : Engine} (he : (engineLts m).Reachable e) {g : String}
    {v : Value} {slot : UInt16} {slotDef : VarSlot}
    (hfind : e.vm.module.globals.findSlot g = some (slot, slotDef))
    (hat : e.vm.module.globals.slots[slot.toNat]? = some slotDef) {vm1 : Vm}
    (hforce : e.vm.forceVariable g v = .ok vm1) {e' : Engine}
    (hr : ((forcedLts { e with vm := vm1 } g slot).restrict (NoPointerStore slot)).Reachable e') :
    ReadsForced g slot slotDef (narrowValue v slotDef.intWidth) e'.vm := by
  have hlt : slot.toNat < e.vm.globals.length := by
    rw [engine_globalsFit he]
    exact MemoryLayout.findSlot_lt hfind
  have h1 : vm1.Forced e.vm.module g slot (narrowValue v slotDef.intWidth) := by
    unfold Vm.forceVariable at hforce
    simp only [hfind, Except.ok.injEq] at hforce
    subst hforce
    exact ⟨rfl, by simp [hlt], Finmap.lookup_insert .., Finset.mem_insert_self ..⟩
  have hall := Lts.Reachable.inv_restrict
    (I := fun s => s.vm.Forced e.vm.module g slot (narrowValue v slotDef.intWidth)) ?_ ?_ hr
  · exact hall.reads hfind hat
  · rintro s rfl
    exact h1
  · rintro s ev t hs hp ⟨hev, hstep⟩
    rw [h1.module] at hev
    exact forced_step hs hev hp hstep

/-- A host write right after the force. -/
theorem forced_reachable_write (e : Engine) (g : String) (slot i : UInt16) (v : Value) :
    ((forcedLts e g slot).restrict (NoPointerStore slot)).Reachable
      { e with vm := e.vm.setGlobalBySlot i v } :=
  .step (a := .setGlobalBySlot i v) (.init rfl)
    ⟨fun hev => EngineEvent.noConfusion hev, trivial, .setGlobalBySlot e i v⟩

/-- The state a completed run of a program leaves is reached while forced. -/
theorem forced_reachable_run {vm w : Vm} {name g : String} {slot : UInt16} {fuel : Nat} {v : Value}
    (h : vm.run fuel name = some (w, .ok v)) : (forcedLts ⟨vm, name⟩ g slot).Reachable ⟨w, name⟩ := by
  unfold Vm.run at h
  split at h
  · cases h
  · next vm' henter =>
    obtain ⟨k, t, -, hk, ht⟩ := exists_of_run h
    have hstart : (forcedLts ⟨vm, name⟩ g slot).Reachable ⟨vm', name⟩ :=
      .step (a := .scan (.start name)) (.init rfl) ⟨trivial, .scan (.start henter)⟩
    have hrun : (forcedLts ⟨vm, name⟩ g slot).Reachable ⟨t, name⟩ := by
      refine StepsTo.inv (I := fun s => (forcedLts ⟨vm, name⟩ g slot).Reachable ⟨s, name⟩) ?_ hstart hk
      intro s u hs hsu
      exact .step (a := .scan .tick) hs ⟨trivial, .scan (.next hsu)⟩
    exact .step (a := .scan .tick) hrun ⟨trivial, .scan (.done ht)⟩

end

/-- A program that stores 5 through a reference to the global `g`. -/
def pointerSource : SourceFile := ⟨[
  .globalVarDeclaration (.of [.plain "g" .int]),
  .program ⟨"Main", [.of [.plain "p" (.ref .int)]],
    [.assign "p" (.functionCall ["REF"] [.positional (.ofName "g")] noRange),
     .assignment ⟨[.identifier "p", .deref], noRange⟩ (.ofInt 5) noRange]⟩]⟩

/-- The global `g` is in slot 0 and keeps 9 in its width. -/
def holdsNine (m : Module) : Bool :=
  match m.globals.findSlot "g" with
  | some (slot, slotDef) => slot == 0 && m.globals.slots[0]? == some slotDef &&
    narrowValue (.int 9) slotDef.intWidth == .int 9
  | none => false

/-- With `g` forced to 9, a host write to its slot does not get through. -/
theorem forced_global_keeps_value : ∃ m vm1, @compile default pointerSource = .ok m ∧
    (Vm.new m .default).forceVariable "g" (.int 9) = .ok vm1 ∧
      (vm1.setGlobalBySlot 0 (.int 7)).getGlobal "g" = .ok (some (.int 9)) := by
  have hload : @yields default pointerSource holdsNine = true := by decide +kernel
  obtain ⟨m, hm, hp⟩ := (@yields_iff default _ _).mp hload
  unfold holdsNine at hp
  split at hp
  · next slot slotDef hfind =>
    simp only [Bool.and_eq_true, beq_iff_eq] at hp
    obtain ⟨⟨rfl, hat⟩, hnarrow⟩ := hp
    obtain ⟨vm1, hforce⟩ : ∃ vm1, (Vm.new m .default).forceVariable "g" (.int 9) = .ok vm1 := by
      have : (Vm.new m .default).module.globals.findSlot "g" = some (0, slotDef) := hfind
      simp [Vm.forceVariable, this]
    refine ⟨m, vm1, hm, hforce, ?_⟩
    have hreads := @force_sound default m ⟨Vm.new m .default, "Main"⟩
      (.init ⟨.default, none, rfl⟩) "g" (.int 9) 0 slotDef hfind hat vm1 hforce
      ⟨vm1.setGlobalBySlot 0 (.int 7), "Main"⟩
      (@forced_reachable_write default ⟨vm1, "Main"⟩ "g" 0 0 (.int 7))
    have hget := @ReadsForced.getGlobal default _ _ _ _ _ hreads
    rwa [hnarrow] at hget
  · cases hp

/-- A run with `g` forced to 9 ends with another value in it. -/
def overwritesForced [F64Ops] (m : Module) : Bool :=
  match m.globals.findSlot "g", (Vm.new m .default).forceVariable "g" (.int 9) with
  | some (_, slotDef), .ok vm1 => match Vm.run 20 vm1 "Main" with
    | some (w, .ok _) =>
      decide (w.getGlobal "g" ≠ .ok (some (narrowValue (.int 9) slotDef.intWidth)))
    | _ => false
  | _, _ => false

/-- The program stores 5 into the forced global. -/
theorem forced_global_overwritten :
    ¬ ∀ (_ : F64Ops) (source : SourceFile) (m : Module), compile source = .ok m →
      ∀ g v slot slotDef vm1, m.globals.findSlot g = some (slot, slotDef) →
        (Vm.new m .default).forceVariable g v = .ok vm1 →
          ∀ e, (forcedLts ⟨vm1, "Main"⟩ g slot).Reachable e →
            e.vm.getGlobal g = .ok (some (narrowValue v slotDef.intWidth)) := by
  intro h
  have hrun : @yields default pointerSource (@overwritesForced default) = true := by
    decide +kernel
  obtain ⟨m, hm, hp⟩ := (@yields_iff default _ _).mp hrun
  unfold overwritesForced at hp
  split at hp
  · next slot slotDef vm1 hfind hforce =>
    split at hp
    · next w r hw =>
      have hreach := @forced_reachable_run default vm1 w "Main" "g" slot 20 r hw
      exact of_decide_eq_true hp (h default _ m hm "g" (.int 9) slot slotDef vm1 hfind hforce _ hreach)
    · cases hp
  · cases hp

end RustPlc.Engine
