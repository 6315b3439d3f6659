import RustPlc.L2Compiler.CompileModule
import RustPlc.L5Engine.EngineRun
import RustPlc.L5Engine.Migration

/-!
# Online changes that should change nothing

An online change to the module that already runs, and what any accepted
change does to the name of the running program and to the forces.

The engine takes the name of the first PROGRAM of the new module, whichever
program was running, and keeps the write-protected slots of forced globals as
numbers. So the change to the running module is the identity exactly when
the first PROGRAM is the running one, and forces stay where they were set
exactly when the forced names have the same slots in both modules.

Results:
* `onlineChange_same`: what the change to the running module leaves;
* `engine_forcesApply`: write-protected slots are those of forced globals, in
  every state of every run whose changes keep the forced slots;
* `online_change_noop_iff`: the exact condition.
-/
namespace RustPlc.Engine

open RustPlc.Ir RustPlc.Core RustPlc.Syntax RustPlc.Compiler

/-! ## The analysis of a module against itself -/

theorem sameName_refl (s : VarSlot) : sameName s s = true := eqIgnoreAsciiCase_upper.mpr rfl

theorem sameVar_refl (s : VarSlot) : sameVar s s = true := by
  simp [sameVar, sameName_refl]

theorem layoutSame_refl (l : MemoryLayout) : layoutSame l l = true := by
  simp only [layoutSame, Nat.le_refl, decide_true, Bool.true_and, List.all_eq_true]
  rintro ⟨s, i⟩ h
  rw [List.mem_zipIdx_iff_getElem?] at h
  simp only at h
  simp [h, sameVar_refl]

theorem compareFunctions_refl (f : Function) : compareFunctions f f = .codeOnly := by
  simp [compareFunctions, layoutSame_refl]

section

variable {m : Module}

/-- The map by upper-case name holds the function itself. -/
theorem lastNamed_self (hm : m.Distinct) {f : Function} (hf : f ∈ m.functions) :
    lastNamed m.functions f.name = some f := by
  unfold lastNamed
  cases hx : m.functions.reverse.find? fun g => toUppercase g.name == toUppercase f.name with
  | none =>
    rw [List.find?_eq_none] at hx
    exact absurd (by simp) (hx f (List.mem_reverse.mpr hf))
  | some g =>
    have hg : g ∈ m.functions := List.mem_reverse.mp (List.mem_of_find?_eq_some hx)
    have hkey : toUppercase g.name = toUppercase f.name := by simpa using List.find?_some hx
    rw [List.inj_on_of_nodup_map hm.functions hg hf hkey]

theorem analyzeFunction_self (hm : m.Distinct) {f : Function} (hf : f ∈ m.functions) :
    (analyzeFunction m f).functionChanges = [⟨f.name, .codeOnly⟩] ∧
      (analyzeFunction m f).incompatibleReasons = [] := by
  have hslot : ∀ s ∈ f.locals.slots, analyzeSlot f f s =
      { ChangeAnalysis.empty with preservedVars := [f.name ++ "." ++ s.name] } := by
    intro s hs
    have : f.locals.slots.any (sameVar · s) = true := List.any_eq_true.mpr ⟨s, hs, sameVar_refl s⟩
    simp [analyzeSlot, this]
  have hslots : ∀ a ∈ f.locals.slots.map (analyzeSlot f f),
      a.functionChanges = [] ∧ a.incompatibleReasons = [] := by
    intro a ha
    obtain ⟨s, hs, rfl⟩ := List.mem_map.mp ha
    rw [hslot s hs]
    exact ⟨rfl, rfl⟩
  unfold analyzeFunction
  rw [lastNamed_self hm hf]
  simp only [compareFunctions_refl]
  split
  · simp only [ChangeAnalysis.append_functionChanges, ChangeAnalysis.append_incompatibleReasons,
      ChangeAnalysis.concat_functionChanges, ChangeAnalysis.concat_incompatibleReasons]
    rw [List.flatMap_eq_nil_iff.mpr fun a ha => (hslots a ha).1,
      List.flatMap_eq_nil_iff.mpr fun a ha => (hslots a ha).2]
    exact ⟨rfl, rfl⟩
  · exact ⟨rfl, rfl⟩

theorem analyzeRemoved_self (hm : m.Distinct) {f : Function} (hf : f ∈ m.functions) :
    analyzeRemoved m f = .empty := by
  simp [analyzeRemoved, lastNamed_self hm hf]

theorem analyzeGlobal_self (hm : m.Distinct) {s : VarSlot} (hs : s ∈ m.globals.slots) :
    (analyzeGlobal m s).incompatibleReasons = [] := by
  unfold analyzeGlobal
  cases hx : m.globals.slots.find? (sameName · s) with
  | none => rfl
  | some t =>
    have ht := List.mem_of_find?_eq_some hx
    have hname := List.find?_some hx
    have hkey : toUppercase t.name = toUppercase s.name := eqIgnoreAsciiCase_upper.mp hname
    obtain rfl := List.inj_on_of_nodup_map hm.globals.names ht hs hkey
    simp [ChangeAnalysis.empty]

/-- A module is compatible with itself, and every function is reported as
changed in its code. -/
theorem analyzeChange_self (hm : m.Distinct) :
    (analyzeChange m m).compatible = true ∧
      (analyzeChange m m).functionChanges = m.functions.map fun f => ⟨f.name, .codeOnly⟩ := by
  constructor
  · rw [analyzeChange_compatible]
    refine ⟨fun f hf => (analyzeFunction_self hm hf).2, fun f hf => ?_,
      fun s hs => analyzeGlobal_self hm hs⟩
    rw [analyzeRemoved_self hm hf]
    rfl
  · have hremoved : m.functions.flatMap (fun f => (analyzeRemoved m f).functionChanges) = [] := by
      refine List.flatMap_eq_nil_iff.mpr fun f hf => ?_
      rw [analyzeRemoved_self hm hf]
      rfl
    have hfuncs : m.functions.flatMap (fun f => (analyzeFunction m f).functionChanges) =
        m.functions.flatMap fun f => [⟨f.name, .codeOnly⟩] :=
      List.flatMap_congr fun f hf => (analyzeFunction_self hm hf).1
    rw [analyzeChange_functionChanges, hremoved, hfuncs, List.append_nil]
    exact List.flatMap_pure_eq_map _ _

end

/-! ## Migration to the same layout -/

/-- Migrating to the same layout changes nothing. -/
theorem migrateLocals_self {l : MemoryLayout} (hl : l.Distinct) {xs : List Value}
    (hx : xs.length = l.slots.length) : migrateLocals xs l l = xs := by
  have hu : UniqueNames l := uniqueNames_iff.mpr hl.names
  have hname : ByName l l xs (migrateLocals xs l l) :=
    (migrateLocals_byName_iff hu).mpr (numbered_of_length hl.length) xs hx
  rw [(byName_iff hu hx).mp hname]
  exact Relayout.write_read hu.keys (hx.trans layoutKeys_length.symm)

/-- A map rebuilt from exactly its own entries. -/
theorem foldl_insert_eq {K V : Type} [DecidableEq K] {r : Map K V} :
    ∀ (xs : List (K × V)) (acc : Map K V), (∀ k v, (k, v) ∈ xs → Finmap.lookup k r = some v) →
      (∀ k v, Finmap.lookup k acc = some v → Finmap.lookup k r = some v) →
      (∀ k v, Finmap.lookup k r = some v → Finmap.lookup k acc = some v ∨ (k, v) ∈ xs) →
      xs.foldl (fun m (k, v) => Finmap.insert k v m) acc = r
  | [], acc, _, hacc, hr => by
    refine Finmap.ext_lookup fun k => ?_
    cases hk : Finmap.lookup k r with
    | none =>
      cases ha : Finmap.lookup k acc with
      | none => simpa using ha
      | some v => exact absurd (hacc k v ha) (by simp [hk])
    | some v => exact (hr k v hk).resolve_right List.not_mem_nil
  | (j, w) :: xs, acc, hxs, hacc, hr => by
    have hj : Finmap.lookup j r = some w := hxs j w (List.mem_cons_self ..)
    refine foldl_insert_eq xs (Finmap.insert j w acc)
      (fun k v h => hxs k v (List.mem_cons_of_mem _ h)) ?_ ?_
    · intro k v h
      by_cases hkey : k = j
      · subst hkey
        rw [Finmap.lookup_insert] at h
        exact h ▸ hj
      · rw [Finmap.lookup_insert_of_ne _ hkey] at h
        exact hacc k v h
    · intro k v h
      by_cases hkey : k = j
      · subst hkey
        rw [Finmap.lookup_insert]
        exact .inl (hj.symm.trans h)
      · rw [Finmap.lookup_insert_of_ne _ hkey]
        rcases hr k v h with h | h
        · exact .inl h
        · rcases List.mem_cons.mp h with h | h
          · exact absurd (Prod.mk.inj h).1 hkey
          · exact .inr h

section

variable {m : Module} {vm : Vm}

theorem migrateFunction_self (hm : m.Distinct) (hv : vm.Shaped m) {i : Nat} {f : Function}
    (hf : m.functions[i]? = some f) {j : UInt16} {ls : List Value} :
    migrateFunction vm m ⟨f.name, .codeOnly⟩ = some (j, ls) ↔
      j = i.toUInt16 ∧ Finmap.lookup j vm.retainedLocals = some ls := by
  have hfind := hm.findFunction hf rfl
  have hi : i < 65536 := by
    have := (List.getElem?_eq_some_iff.mp hf).1
    have := hm.length
    omega
  simp only [migrateFunction, hv.module, hfind, Vm.getRetainedLocals, Option.bind_some]
  rw [if_neg (by decide)]
  constructor
  · intro h
    split at h
    · simp only [Option.map_eq_some_iff, Prod.mk.injEq] at h
      obtain ⟨xs, hxs, rfl, rfl⟩ := h
      obtain ⟨g, hg, hk, hl⟩ := hv.retained _ xs hxs
      rw [toNat_toUInt16 hi, hf] at hg
      obtain rfl := Option.some.inj hg
      rw [migrateLocals_self (hm.programs f (List.mem_of_getElem? hf) hk) hl]
      exact ⟨rfl, hxs⟩
    · cases h
  · rintro ⟨rfl, hxs⟩
    obtain ⟨g, hg, hk, hl⟩ := hv.retained _ ls hxs
    rw [toNat_toUInt16 hi, hf] at hg
    obtain rfl := Option.some.inj hg
    rw [if_pos (.inl hk), hxs, Option.map_some,
      migrateLocals_self (hm.programs f (List.mem_of_getElem? hf) hk) hl]

/-- The retained locals come out as they went in. -/
theorem migratedLocals_self (hm : m.Distinct) (hv : vm.Shaped m) :
    migratedLocals vm m (m.functions.map fun f => ⟨f.name, .codeOnly⟩) = vm.retainedLocals := by
  unfold migratedLocals
  refine foldl_insert_eq _ _ ?_ (by simp) ?_
  · intro k v h
    obtain ⟨c, hc, hmig⟩ := List.mem_filterMap.mp h
    obtain ⟨f, hf, rfl⟩ := List.mem_map.mp hc
    obtain ⟨i, hi⟩ := List.mem_iff_getElem?.mp hf
    exact ((migrateFunction_self hm hv hi).mp hmig).2
  · intro k v h
    obtain ⟨f, hf, -, -⟩ := hv.retained k v h
    refine .inr (List.mem_filterMap.mpr ⟨⟨f.name, .codeOnly⟩, ?_, ?_⟩)
    · exact List.mem_map.mpr ⟨f, List.mem_of_getElem? hf, rfl⟩
    · exact (migrateFunction_self hm hv hf).mpr ⟨by simp, h⟩

/-- **The change to the running module**, between cycles, leaves the machine
as it is and takes the name of the first PROGRAM. -/
theorem onlineChange_same {e : Engine} (hm : m.Distinct) (hv : e.vm.Shaped m)
    (hidle : e.vm.callStack = []) : e.onlineChangeModule m = .ok
      (⟨e.vm, ((firstProgram m).map (·.name)).getD e.programName⟩, .ok (analyzeChange m m)) := by
  obtain ⟨gs, hgs, hok⟩ := onlineChangeModule_ok hv (analyzeChange_self hm).1
  rw [oldGlobals_eq hv hm.globals, Except.ok.injEq] at hgs
  subst hgs
  rw [hok, (analyzeChange_self hm).2, migratedLocals_self hm hv,
    migrateLocals_self hm.globals hv.globals]
  have hvm : e.vm.swapModule m e.vm.retainedLocals e.vm.globals = e.vm := by
    rw [Vm.swapModule, ← hv.module, ← hidle]
  rw [hvm]

end

/-! ## Forces -/

/-- Two machines with the same module and the same forces. -/
structure Vm.SameForces (vm vm' : Vm) : Prop where
  module : vm'.module = vm.module
  values : vm'.forcedVariables = vm.forcedVariables
  slots : vm'.forcedGlobalSlots = vm.forcedGlobalSlots

section

variable {vm vm' : Vm}

theorem Vm.SameForces.refl (vm : Vm) : vm.SameForces vm := ⟨rfl, rfl, rfl⟩

theorem Vm.SameForces.saveRetainedLocals (vm : Vm) : vm.SameForces vm.saveRetainedLocals := by
  unfold Vm.saveRetainedLocals
  split
  · exact .refl vm
  · split
    · exact .refl vm
    · split
      · exact ⟨rfl, rfl, rfl⟩
      · exact ⟨rfl, rfl, rfl⟩
      · exact ⟨rfl, rfl, rfl⟩
      · split
        · exact ⟨rfl, rfl, rfl⟩
        · exact ⟨rfl, rfl, rfl⟩
      · exact .refl vm

/-- A method call only records the instance. -/
theorem methodState_vm {key : InstanceKey} {cls : Function} {count : Nat} {locals ls : List Value}
    (h : vm.methodState key cls count locals = .ok (ls, vm')) :
    vm' = vm ∨ ∃ state, vm' = vm.putInstance key state := by
  unfold Vm.methodState at h
  split at h
  · simp only [Except.ok.injEq, Prod.mk.injEq] at h
    exact .inl h.2.symm
  · cases hx : Vm.initClassInstance cls (List.replicate cls.locals.slots.length Value.dflt)
        cls.locals.slots.length with
    | error t => simp [hx, bind, Except.bind] at h
    | ok state =>
      simp only [hx, bind, Except.bind, pure, Except.pure, Except.ok.injEq, Prod.mk.injEq] at h
      exact .inr ⟨state, h.2.symm⟩

theorem Vm.Effect.sameForces {func : Function} {f : CallFrame} {rest : List CallFrame}
    {i : Instruction} (h : Vm.Effect vm func f rest i vm') : vm.SameForces vm' := by
  have hsave := Vm.SameForces.saveRetainedLocals vm
  cases h with
  | method slot ci fi dst args method cls count ls locals vm1 hm hc hs hb =>
    rcases methodState_vm hs with rfl | ⟨state, rfl⟩
    · exact ⟨rfl, rfl, rfl⟩
    · exact ⟨rfl, rfl, rfl⟩
  | ret => exact ⟨hsave.module, hsave.values, hsave.slots⟩
  | retVoid => exact ⟨hsave.module, hsave.values, hsave.slots⟩
  | _ => exact ⟨rfl, rfl, rfl⟩

theorem scan_sameForces [F64Ops] {ev : ScanEvent} (h : ScanStep vm ev vm') :
    vm.SameForces vm' := by
  have hstep : vm.SameForces (left vm.step) := by
    have hsave := Vm.SameForces.saveRetainedLocals vm
    have heff := vm.step_effect
    generalize left vm.step = w at heff ⊢
    generalize vm.nextInstr = next at heff
    cases heff with
    | idle => exact .refl vm
    | paused => exact ⟨rfl, rfl, rfl⟩
    | limit => exact ⟨rfl, rfl, rfl⟩
    | atEnd => exact ⟨hsave.module, hsave.values, hsave.slots⟩
    | instr f rest func d i w _ _ _ heff =>
      have := heff.sameForces
      exact ⟨this.module, this.values, this.slots⟩
  cases h with
  | start h =>
    unfold Vm.enterRun at h
    simp only [Option.map_eq_some_iff] at h
    obtain ⟨p, -, rfl⟩ := h
    exact ⟨rfl, rfl, rfl⟩
  | next h | done h | failed h =>
    rw [h] at hstep
    exact hstep
  | bookkeeping => exact ⟨rfl, rfl, rfl⟩
  | clearCallStack => exact ⟨rfl, rfl, rfl⟩

theorem Vm.SameForces.patchInstance {w : Vm} (h : vm.SameForces w) (key : InstanceKey) (i : Nat)
    (v : Value) : vm.SameForces (w.patchInstance key i v) := by
  unfold Vm.patchInstance
  split
  · exact ⟨h.module, h.values, h.slots⟩
  · exact h

theorem enforce_sameForces (h : vm.enforceRetainedLocals = .ok vm') : vm.SameForces vm' := by
  refine Vm.enforceRetainedLocals_inv (P := fun w => vm.SameForces w) (.refl vm) ?_ ?_ h
  · intro w i prog ls hw _
    exact ⟨hw.module, hw.values, hw.slots⟩
  · intro w key pos field v hw _ _
    exact hw.patchInstance key pos _

theorem setGlobal_sameForces {name : String} {v : Value} (h : vm.setGlobal name v = .ok vm') :
    vm.SameForces vm' := by
  unfold Vm.setGlobal at h
  split at h
  · split at h
    · exact Except.ok.inj h ▸ .refl vm
    · simp only [Except.map] at h
      split at h
      · cases h
      · exact Except.ok.inj h ▸ ⟨rfl, rfl, rfl⟩
  · exact Except.ok.inj h ▸ .refl vm

theorem setGlobalBySlot_sameForces (slot : UInt16) (v : Value) :
    vm.SameForces (vm.setGlobalBySlot slot v) := by
  unfold Vm.setGlobalBySlot
  split
  · exact .refl vm
  · split
    · exact .refl vm
    · exact ⟨rfl, rfl, rfl⟩

theorem restore_sameForces {snapshot : RetainSnapshot} {warm : Bool} {w : List String}
    (h : restoreSnapshot vm snapshot warm = .ok (vm', w)) : vm.SameForces vm' := by
  refine restoreSnapshot_inv (m := vm.module) (P := fun w => vm.SameForces w) ?_ (.refl vm) h
  exact
    { module := fun w hw => hw.module
      globals := fun w _ _ _ hw _ _ => ⟨hw.module, hw.values, hw.slots⟩
      locals := fun w _ _ _ hw _ _ _ => ⟨hw.module, hw.values, hw.slots⟩
      fields := fun w _ _ _ hw _ _ => ⟨hw.module, hw.values, hw.slots⟩ }

end

/-- The slot of a global. -/
def globalSlot (m : Module) (name : String) : Option UInt16 := (m.globals.findSlot name).map (·.1)

/-- Slot `slot` of `m` belongs to a global that is forced in `vm`. -/
def ForcedIn (vm : Vm) (m : Module) (slot : UInt16) : Prop :=
  ∃ name ∈ vm.forcedVariables, globalSlot m name = some slot

/-- Every force applies to its variable and to no other: the slots whose
writes are dropped are the slots of the forced globals
(crates/st-engine/src/vm.rs:79-85). -/
def Vm.ForcesApply (vm : Vm) : Prop :=
  ∀ slot, slot ∈ vm.forcedGlobalSlots ↔ ForcedIn vm vm.module slot

/-- The forced names have the same slots in the new module. -/
def ForcesStay (vm : Vm) (new : Module) : Prop :=
  ∀ slot, ForcedIn vm vm.module slot ↔ ForcedIn vm new slot

/-- The forces of a state: keys in upper case, and every force applied. -/
structure Vm.Forces (vm : Vm) : Prop where
  upper : ∀ name ∈ vm.forcedVariables, toUppercase name = name
  apply : vm.ForcesApply

section

variable {vm vm' : Vm}

theorem globalSlot_upper (m : Module) (name : String) :
    globalSlot m (toUppercase name) = globalSlot m name := by
  rw [globalSlot, globalSlot, m.globals.findSlot_congr (toUppercase_idem name)]

theorem Vm.Forces.same (h : vm.Forces) (hs : vm.SameForces vm') : vm'.Forces where
  upper := by
    rw [hs.values]
    exact h.upper
  apply := by
    intro slot
    rw [hs.slots, h.apply slot, ForcedIn, ForcedIn, hs.values, hs.module]

/-- Two names with one slot are one name. -/
theorem globalSlot_inj {m : Module} (hm : m.globals.slots.length ≤ 65536) {a b : String}
    {slot : UInt16} (ha : globalSlot m a = some slot) (hb : globalSlot m b = some slot) :
    toUppercase a = toUppercase b := by
  unfold globalSlot at ha hb
  simp only [Option.map_eq_some_iff, Prod.exists, exists_and_right, exists_eq_right] at ha hb
  obtain ⟨s, hs⟩ := ha
  obtain ⟨t, ht⟩ := hb
  have ha := MemoryLayout.findSlot_some hm hs
  have hb := MemoryLayout.findSlot_some hm ht
  obtain rfl := Option.some.inj (ha.1.symm.trans hb.1)
  exact ha.2.symm.trans hb.2

theorem Vm.Forces.forceVariable (h : vm.Forces) {name : String} {v : Value}
    (hf : vm.forceVariable name v = .ok vm') : vm'.Forces := by
  have hupper : ∀ w n, n ∈ Finmap.insert (toUppercase name) w vm.forcedVariables →
      toUppercase n = n := by
    intro w n hn
    rcases Finmap.mem_insert.mp hn with rfl | hn
    · exact toUppercase_idem name
    · exact h.upper n hn
  unfold Vm.forceVariable at hf
  split at hf
  · next slot slotDef hslot =>
    cases hf
    refine ⟨hupper _, fun s => ?_⟩
    simp only [Finset.mem_insert, ForcedIn, Finmap.mem_insert, h.apply s]
    constructor
    · rintro (rfl | ⟨n, hn, hs⟩)
      · refine ⟨_, .inl rfl, ?_⟩
        rw [globalSlot_upper, globalSlot, hslot]
        rfl
      · exact ⟨n, .inr hn, hs⟩
    · rintro ⟨n, rfl | hn, hs⟩
      · rw [globalSlot_upper, globalSlot, hslot] at hs
        exact .inl (Option.some.inj hs).symm
      · exact .inr ⟨n, hn, hs⟩
  · next hslot =>
    -- a name that is no global protects no slot
    have hw : ({ vm with
        forcedVariables := Finmap.insert (toUppercase name) v vm.forcedVariables } : Vm).Forces := by
      refine ⟨hupper _, fun s => ?_⟩
      simp only [ForcedIn, Finmap.mem_insert, h.apply s]
      constructor
      · rintro ⟨n, hn, hs⟩
        exact ⟨n, .inr hn, hs⟩
      · rintro ⟨n, rfl | hn, hs⟩
        · rw [globalSlot_upper, globalSlot, hslot] at hs
          cases hs
        · exact ⟨n, hn, hs⟩
    refine Vm.forceLocal_inv (P := fun w => w.Forces) hw ?_ ?_ hf
    · intro i prog j slot locals _ _ _ _
      exact hw.same ⟨rfl, rfl, rfl⟩
    · intro key pos field _
      exact hw.same ((Vm.SameForces.refl _).patchInstance key pos _)

theorem Vm.Forces.unforceVariable (h : vm.Forces) (hm : vm.module.globals.slots.length ≤ 65536)
    (name : String) : (vm.unforceVariable name).Forces where
  upper := fun n hn => h.upper n (Finmap.mem_erase.mp hn).2
  apply := by
    intro s
    have hkeep : ∀ n ∈ vm.forcedVariables, globalSlot vm.module n = some s →
        (n ≠ toUppercase name ↔ globalSlot vm.module name ≠ some s) := by
      intro n hn hs
      rw [not_iff_not]
      constructor
      · rintro rfl
        rwa [globalSlot_upper] at hs
      · intro hname
        rw [← h.upper n hn]
        exact globalSlot_inj hm hs hname
    have hslots : s ∈ (vm.unforceVariable name).forcedGlobalSlots ↔
        s ∈ vm.forcedGlobalSlots ∧ globalSlot vm.module name ≠ some s := by
      unfold Vm.unforceVariable globalSlot
      cases hf : vm.module.globals.findSlot name with
      | none => simp
      | some p => simp [Finset.mem_erase, and_comm, eq_comm]
    rw [hslots, h.apply s]
    simp only [ForcedIn, Vm.unforceVariable, Finmap.mem_erase]
    constructor
    · rintro ⟨⟨n, hn, hs⟩, hne⟩
      exact ⟨n, ⟨(hkeep n hn hs).mpr hne, hn⟩, hs⟩
    · rintro ⟨n, ⟨hne, hn⟩, hs⟩
      exact ⟨⟨n, hn, hs⟩, (hkeep n hn hs).mp hne⟩

end

/-! ## Runs that keep the forces -/

/-- A change that loads and keeps the slots of the forced globals. -/
def ChangeKeepsForces (e : Engine) : EngineEvent → Prop
  | .change new => Loadable new ∧ KeepsPrograms e.vm.module new ∧ ForcesStay e.vm new
  | _ => True

theorem ChangeKeepsForces.loads {e : Engine} {ev : EngineEvent} (h : ChangeKeepsForces e ev) :
    ChangeLoads e ev := by
  cases ev with
  | change new => exact ⟨h.1, h.2.1⟩
  | _ => trivial

section

variable {m : Module}

/-- The forces apply after an accepted change exactly when they stay. -/
theorem forcesApply_change {vm : Vm} (h : vm.ForcesApply) (new : Module)
    (locals : Map UInt16 (List Value)) (globals : List Value) :
    (vm.swapModule new locals globals).ForcesApply ↔ ForcesStay vm new := by
  constructor
  · intro hf slot
    exact (h slot).symm.trans (hf slot)
  · intro hs slot
    exact (h slot).trans (hs slot)

variable [F64Ops]

/-- **Write-protected slots are the slots of the forced globals**, in every
state of every run whose changes keep these slots. -/
theorem engine_forces (hm : Loadable m) {e : Engine}
    (h : ((engineLts m).restrict ChangeKeepsForces).Reachable e) : e.vm.Forces := by
  induction h with
  | init h =>
    obtain ⟨config, nativeFbs, hs⟩ := h
    rw [hs]
    have hnone : ∀ name, name ∉ (Vm.newWithNativeFbs m config nativeFbs).forcedVariables :=
      fun name => Finmap.notMem_empty
    refine ⟨fun name hn => absurd hn (hnone name), fun slot => ?_⟩
    constructor
    · intro hslot
      exact absurd hslot (Finset.notMem_empty slot)
    · rintro ⟨name, hn, -⟩
      exact absurd hn (hnone name)
  | @step s t ev hr hstep ih =>
    obtain ⟨hc, hstep⟩ := hstep
    obtain ⟨hl, hv⟩ := engine_shaped hm (hr.mono fun _ _ => ChangeKeepsForces.loads)
    cases hstep with
    | scan h => exact ih.same (scan_sameForces h)
    | enforce h => exact ih.same (enforce_sameForces h)
    | setGlobal h => exact ih.same (setGlobal_sameForces h)
    | setGlobalBySlot slot v => exact ih.same (setGlobalBySlot_sameForces slot v)
    | force h => exact ih.forceVariable h
    | unforce name => exact ih.unforceVariable hl.distinct.globals.length name
    | restore h => exact ih.same (restore_sameForces h)
    | @change e' new r h =>
      by_cases hcomp : (analyzeChange s.vm.module new).compatible = true
      · obtain ⟨gs, -, hok⟩ := onlineChangeModule_ok hv hcomp
        rw [hok] at h
        cases h
        exact ⟨ih.upper, (forcesApply_change ih.apply _ _ _).mpr hc.2.2⟩
      · simp only [onlineChangeModule, hcomp, Bool.not_false, if_true, Except.ok.injEq,
          Prod.mk.injEq] at h
        exact h.1 ▸ ih

/-! ## Later cycles -/

/-- The machines and results of a sequence of cycles at the given times. -/
def cycles (fuel : Nat) : Engine → List Int64 → List (Option (Vm × Except Trap Unit))
  | _, [] => []
  | e, t :: ts => match e.runOneCycle fuel t with
    | none => [none]
    | some (e', r) => some (e'.vm, r) :: cycles fuel e' ts

theorem cycleVm_congr (fuel : Nat) (vm : Vm) {a b : String} (h : toUppercase a = toUppercase b) :
    cycleVm fuel vm a = cycleVm fuel vm b := by
  simp only [cycleVm, Vm.scanCycle, Vm.run, Vm.enterRun, vm.module.findFunction_congr h]

/-- Cycles depend on the machine and on the program's name up to case. -/
theorem cycles_congr (fuel : Nat) {e e' : Engine} (hvm : e'.vm = e.vm)
    (hname : toUppercase e'.programName = toUppercase e.programName) :
    ∀ ts, cycles fuel e' ts = cycles fuel e ts := by
  intro ts
  induction ts generalizing e e' with
  | nil => rfl
  | cons t ts ih =>
    unfold cycles runOneCycle
    rw [hvm, cycleVm_congr fuel _ hname]
    cases cycleVm fuel { e.vm with elapsedTimeMs := t, instructionCount := 0 } e.programName with
    | none => rfl
    | some p =>
      obtain ⟨w, r⟩ := p
      simp only [Option.map_some]
      rw [@ih ⟨w, e.programName⟩ ⟨w, e'.programName⟩ rfl hname]

/-! ## The condition -/

/-- What a change should keep: the program that runs, the forces, and for the
running module itself the whole machine and all later cycles. -/
structure ChangeKept (e : Engine) (new : Module) (e' : Engine) : Prop where
  program : toUppercase e'.programName = toUppercase e.programName
  forced : e'.vm.forcedVariables = e.vm.forcedVariables
  forces : e'.vm.ForcesApply
  machine : new = e.vm.module → e'.vm = e.vm
  cycles : new = e.vm.module → ∀ fuel ts, cycles fuel e' ts = cycles fuel e ts

/-- The first PROGRAM of the module, if it has any, is the named one. -/
def RunsFirst (m : Module) (name : String) : Prop :=
  ∀ prog ∈ firstProgram m, toUppercase prog.name = toUppercase name

instance (m : Module) (name : String) : Decidable (RunsFirst m name) :=
  inferInstanceAs (Decidable (∀ prog ∈ firstProgram m, toUppercase prog.name = toUppercase name))

omit [F64Ops] in
theorem runsFirst_iff (m : Module) (name : String) :
    toUppercase (((firstProgram m).map (·.name)).getD name) = toUppercase name ↔
      RunsFirst m name := by
  unfold RunsFirst
  cases firstProgram m with
  | none => simp
  | some prog => simp

/-- **A change keeps what it should exactly when the first PROGRAM of the new
module is the running one and the forced globals keep their slots.** -/
theorem online_change_noop_iff (hm : Loadable m) {e : Engine}
    (hr : ((engineLts m).restrict ChangeKeepsForces).Reachable e) (hidle : e.vm.callStack = [])
    (new : Module)
    (hnew : new = e.vm.module ∨ (analyzeChange e.vm.module new).compatible = true) :
    (∃ e' a, e.onlineChangeModule new = .ok (e', .ok a) ∧ ChangeKept e new e') ↔
      RunsFirst new e.programName ∧ ForcesStay e.vm new := by
  obtain ⟨hl, hv⟩ := engine_shaped hm (hr.mono fun _ _ => ChangeKeepsForces.loads)
  have hforces := engine_forces hm hr
  have hcomp : (analyzeChange e.vm.module new).compatible = true := by
    rcases hnew with rfl | h
    · exact (analyzeChange_self hl.distinct).1
    · exact h
  obtain ⟨gs, -, hok⟩ := onlineChangeModule_ok hv hcomp
  constructor
  · rintro ⟨e', a, he, hk⟩
    rw [hok] at he
    cases he
    exact ⟨(runsFirst_iff new e.programName).mp hk.program,
      (forcesApply_change hforces.apply _ _ _).mp hk.forces⟩
  · rintro ⟨hfirst, hstay⟩
    have hname := (runsFirst_iff new e.programName).mpr hfirst
    have hmachine : new = e.vm.module → e.vm.swapModule new (migratedLocals e.vm new
        (analyzeChange e.vm.module new).functionChanges)
        (migrateLocals gs e.vm.module.globals new.globals) = e.vm := by
      rintro rfl
      have hsame := onlineChange_same hl.distinct hv hidle
      rw [hok] at hsame
      simp only [Except.ok.injEq, Prod.mk.injEq, mk.injEq] at hsame
      exact hsame.1.1
    refine ⟨_, _, hok, hname, rfl, (forcesApply_change hforces.apply _ _ _).mpr hstay, hmachine, ?_⟩
    intro hsame fuel ts
    exact @cycles_congr _ fuel e ⟨_, _⟩ (hmachine hsame) hname ts

end

/-- Two PROGRAMs and two globals. -/
def twoPrograms : SourceFile := ⟨[
  .globalVarDeclaration (.of [.plain "g" .int, .plain "h" .int]),
  .program ⟨"A", [.of [.plain "x" .int]], [.assign "x" (.ofName "g")]⟩,
  .program ⟨"B", [.of [.plain "y" .int]], [.assign "y" (.ofName "h")]⟩]⟩

/-- With `A` running, deploying the same module again changes nothing. -/
theorem first_program_redeployed : ∃ m e, @compile default twoPrograms = .ok m ∧
    (@engineLts default m).Reachable e ∧ e.programName = "A" ∧
      ∃ e' a, e.onlineChangeModule m = .ok (e', .ok a) ∧ @ChangeKept default e m e' := by
  have hload : @yields default twoPrograms (fun m => decide (m.Distinct) &&
      decide (NoProgramInstance m) && decide (RunsFirst m "A")) = true := by
    decide +kernel
  obtain ⟨m, hm, hp⟩ := (@yields_iff default _ _).mp hload
  simp only [Bool.and_eq_true, decide_eq_true_eq] at hp
  obtain ⟨⟨hd, hc⟩, hfirst⟩ := hp
  have hr : ((@engineLts default m).restrict ChangeKeepsForces).Reachable
      ⟨Vm.new m .default, "A"⟩ := .init ⟨.default, none, rfl⟩
  refine ⟨m, ⟨Vm.new m .default, "A"⟩, hm, hr.of_restrict, rfl, ?_⟩
  exact (@online_change_noop_iff m default ⟨hd, hc⟩ _ hr rfl m (.inl rfl)).mpr
    ⟨hfirst, fun slot => Iff.rfl⟩

/-- Deploying the module to an engine that runs `B` makes it run `A`. -/
def switchesProgram (m : Module) : Bool :=
  match onlineChangeModule ⟨Vm.new m .default, "B"⟩ m with
  | .ok (e', .ok _) => e'.programName == "A"
  | _ => false

/-- With `B` running, deploying the same module again makes the engine run
`A`. -/
theorem online_change_switches_program :
    ¬ ∀ (_ : F64Ops) (source : SourceFile) (m : Module), compile source = .ok m →
      ∀ e, (engineLts m).Reachable e → e.vm.callStack = [] → ∃ e' a,
        e.onlineChangeModule m = .ok (e', .ok a) ∧ e'.programName = e.programName := by
  intro h
  have hrun : @yields default twoPrograms switchesProgram = true := by decide +kernel
  obtain ⟨m, hm, hp⟩ := (@yields_iff default _ _).mp hrun
  obtain ⟨e', a, he, hname⟩ := h default twoPrograms m hm ⟨Vm.new m .default, "B"⟩
    (.init ⟨.default, none, rfl⟩) rfl
  rw [switchesProgram, he] at hp
  simp [hname] at hp

end RustPlc.Engine
