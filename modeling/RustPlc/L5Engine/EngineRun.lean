import RustPlc.L3Vm.Effect
import RustPlc.L3Vm.SafeRun
import RustPlc.L5Engine.OnlineChange
import RustPlc.L5Engine.Retain

/-!
# Runs of the engine

Everything that can happen to an engine: the steps of scan cycles, what the
host writes and forces between them, restored snapshots and online changes,
in any order. `Vm.Shaped` is the shape every run keeps: one value per global
and, for each program that has run, one value per local.

Results:
* `step_shaped`: an iteration of the loop keeps the shape;
* `engine_shaped`: every state of every run has it, when no instance call
  runs a PROGRAM.
-/
namespace RustPlc.Engine

open RustPlc.Ir RustPlc.Core

/-! ## Events -/

/-- What happens to an engine. -/
inductive EngineEvent where
  | scan (e : ScanEvent)
  | enforce
  | setGlobal (name : String) (v : Value)
  | setGlobalBySlot (slot : UInt16) (v : Value)
  | force (name : String) (v : Value)
  | unforce (name : String)
  | restore (snapshot : RetainSnapshot) (warm : Bool)
  | change (newModule : Module)

section

variable [F64Ops]

/-- The engine after an event. A panic ends the thread, so only a returned
result leads on. -/
inductive EngineStep : Engine → EngineEvent → Engine → Prop where
  | scan {e : Engine} {ev : ScanEvent} {vm' : Vm} (h : ScanStep e.vm ev vm') :
    EngineStep e (.scan ev) { e with vm := vm' }
  | enforce {e : Engine} {vm' : Vm} (h : e.vm.enforceRetainedLocals = .ok vm') :
    EngineStep e .enforce { e with vm := vm' }
  | setGlobal {e : Engine} {name : String} {v : Value} {vm' : Vm}
      (h : e.vm.setGlobal name v = .ok vm') :
    EngineStep e (.setGlobal name v) { e with vm := vm' }
  | setGlobalBySlot (e : Engine) (slot : UInt16) (v : Value) :
    EngineStep e (.setGlobalBySlot slot v) { e with vm := e.vm.setGlobalBySlot slot v }
  | force {e : Engine} {name : String} {v : Value} {vm' : Vm}
      (h : e.vm.forceVariable name v = .ok vm') :
    EngineStep e (.force name v) { e with vm := vm' }
  | unforce (e : Engine) (name : String) :
    EngineStep e (.unforce name) { e with vm := e.vm.unforceVariable name }
  | restore {e : Engine} {snapshot : RetainSnapshot} {warm : Bool} {vm' : Vm} {w : List String}
      (h : restoreSnapshot e.vm snapshot warm = .ok (vm', w)) :
    EngineStep e (.restore snapshot warm) { e with vm := vm' }
  | change {e e' : Engine} {newModule : Module} {r : Except String ChangeAnalysis}
      (h : e.onlineChangeModule newModule = .ok (e', r)) :
    EngineStep e (.change newModule) e'

/-- A new engine for module `m` and every run of it. -/
def engineLts (m : Module) : Lts Engine EngineEvent where
  init := fun e => ∃ config nativeFbs, e.vm = Vm.newWithNativeFbs m config nativeFbs
  step := EngineStep

end

/-! ## Shape -/

/-- The function a call on an instance runs. -/
def instanceCallee : Instruction → Option UInt16
  | .callFb _ f _ => some f
  | .callMethod _ _ f _ _ => some f
  | _ => none

/-- A call on an instance that runs a PROGRAM. -/
def runsProgram (m : Module) (i : Instruction) : Bool :=
  ((instanceCallee i).bind fun fi => m.functions[fi.toNat]?).any fun f => f.kind == .program

/-- No call on an instance runs a PROGRAM: a PROGRAM is not a type of
instances. -/
def NoProgramInstance (m : Module) : Prop :=
  ∀ func ∈ m.functions, ∀ i ∈ func.instructions, runsProgram m i = false

instance (m : Module) : Decidable (NoProgramInstance m) :=
  inferInstanceAs (Decidable (∀ func ∈ m.functions, ∀ i ∈ func.instructions,
    runsProgram m i = false))

theorem NoProgramInstance.kind {m : Module} (hm : NoProgramInstance m) {func callee : Function}
    (hfunc : func ∈ m.functions) {i : Instruction} (hi : i ∈ func.instructions) {fi : UInt16}
    (hfi : instanceCallee i = some fi) (hat : m.functions[fi.toNat]? = some callee) :
    callee.kind ≠ .program := by
  have h := hm func hfunc i hi
  simpa [runsProgram, hfi, hat] using h

/-- A frame of a program has one value per local. -/
def CallFrame.Shaped (m : Module) (f : CallFrame) : Prop :=
  ∀ func, m.functions[f.funcIndex.toNat]? = some func → func.kind = .program →
    f.locals.length = func.locals.slots.length

/-- The shape of a machine of module `m`. -/
structure Vm.Shaped (m : Module) (vm : Vm) : Prop where
  module : vm.module = m
  globals : vm.globals.length = m.globals.slots.length
  retained : ∀ i xs, Finmap.lookup i vm.retainedLocals = some xs →
    ∃ func, m.functions[i.toNat]? = some func ∧ func.kind = .program ∧
      xs.length = func.locals.slots.length
  frames : ∀ f ∈ vm.callStack, f.Shaped m

section

variable {m : Module} {vm : Vm}

theorem Vm.Shaped.withStack (hv : vm.Shaped m) {stack : List CallFrame}
    (h : ∀ f ∈ stack, f.Shaped m) : (vm.withStack stack).Shaped m :=
  { hv with frames := h }

theorem Vm.Shaped.withGlobals (hv : vm.Shaped m) {gs : List Value}
    (h : gs.length = vm.globals.length) : ({ vm with globals := gs } : Vm).Shaped m :=
  { hv with globals := h.trans hv.globals }

/-- Storing locals of the right number for a program. -/
theorem Vm.Shaped.setRetainedLocals (hv : vm.Shaped m) {i : UInt16} {xs : List Value}
    {func : Function} (hf : m.functions[i.toNat]? = some func) (hk : func.kind = .program)
    (hl : xs.length = func.locals.slots.length) : (vm.setRetainedLocals i xs).Shaped m where
  module := hv.module
  globals := hv.globals
  frames := hv.frames
  retained := by
    intro j ys hj
    by_cases hkey : j = i
    · subst hkey
      simp only [Vm.setRetainedLocals, Finmap.lookup_insert, Option.some.injEq] at hj
      subst hj
      exact ⟨func, hf, hk, hl⟩
    · simp only [Vm.setRetainedLocals, Finmap.lookup_insert_of_ne _ hkey] at hj
      exact hv.retained j ys hj

theorem CallFrame.Shaped.alike {f g : CallFrame} (h : f.Shaped m) (ha : f.Alike g) :
    g.Shaped m := by
  intro func hf hk
  rw [ha.locals]
  exact h func (ha.funcIndex ▸ hf) hk

theorem shaped_alike {fs gs : List CallFrame} (ha : List.Forall₂ CallFrame.Alike fs gs)
    (h : ∀ f ∈ fs, f.Shaped m) : ∀ g ∈ gs, g.Shaped m := by
  induction ha with
  | nil => exact h
  | cons hx _ ih =>
    rw [List.forall_mem_cons] at h ⊢
    exact ⟨h.1.alike hx, ih h.2⟩

/-- What a returning frame leaves behind has the shape. -/
theorem Vm.Shaped.saveRetainedLocals (hv : vm.Shaped m) : vm.saveRetainedLocals.Shaped m := by
  unfold Vm.saveRetainedLocals
  split
  · exact hv
  · next f rest hstack =>
    split
    · exact hv
    · next func hfunc =>
      have hat : m.functions[f.funcIndex.toNat]? = some func := by
        rw [← hv.module]
        exact hfunc
      split
      · next hkind =>
        have hlen := hv.frames f (by rw [hstack]; exact List.mem_cons_self ..) func hat hkind
        exact hv.setRetainedLocals hat hkind hlen
      · exact { hv with }
      · exact { hv with }
      · split
        · exact { hv with }
        · exact { hv with }
      · exact hv

theorem bindArgs_length {f : CallFrame} {off : Nat} : ∀ {args : List (UInt16 × Reg)}
    {locals ls : List Value}, Vm.bindArgs f off args locals = .ok ls → ls.length = locals.length
  | [], _, _, h => by rw [← Except.ok.inj h]
  | (param, arg) :: args, locals, ls, h => by
    unfold Vm.bindArgs at h
    simp only at h
    split at h
    · cases h
    · cases hv : f.regGet arg with
      | error t => simp [hv, bind, Except.bind] at h
      | ok v =>
        simp only [hv, bind, Except.bind] at h
        rw [bindArgs_length h, List.length_set]

theorem Vm.Shaped.advance (hv : vm.Shaped m) {f : CallFrame} {rest : List CallFrame}
    (d : DebugState) (hstack : vm.callStack = f :: rest) : (vm.advance d f rest).Shaped m := by
  have hframes := hv.frames
  rw [hstack, List.forall_mem_cons] at hframes
  exact { hv with frames := List.forall_mem_cons.mpr ⟨hframes.1, hframes.2⟩ }

/-- An instruction keeps the shape. -/
theorem Vm.Effect.shaped {func : Function} {f : CallFrame} {rest : List CallFrame}
    {i : Instruction} {vm' : Vm} (h : Vm.Effect vm func f rest i vm') (hm : NoProgramInstance m)
    (hv : vm.Shaped m) (hstack : vm.callStack = f :: rest) (hfunc : func ∈ m.functions)
    (hi : i ∈ func.instructions) : vm'.Shaped m := by
  have hframes := hv.frames
  rw [hstack, List.forall_mem_cons] at hframes
  obtain ⟨hf, hrest⟩ := hframes
  cases h with
  | none => exact hv
  | frame i g ha => exact hv.withStack (List.forall_mem_cons.mpr ⟨hf.alike ha, hrest⟩)
  | storeLocal slot src v hval =>
    refine hv.withStack (List.forall_mem_cons.mpr ⟨fun g hg hk => ?_, hrest⟩)
    simpa using hf g hg hk
  | storeGlobal slot src v hval hforced => exact hv.withGlobals (by simp)
  | storeArray | storeField | storeFieldIndex | native | methodInit => exact { hv with }
  | derefGlobal ptr val tag slot v hptr htag hval => exact hv.withGlobals (by simp)
  | derefFrame ptr val tag slot v hptr hval htag =>
    refine hv.withStack fun g hg => ?_
    rw [List.mem_reverse] at hg
    obtain ⟨n, hn⟩ := List.mem_iff_getElem?.mp hg
    rw [List.getElem?_modify] at hn
    cases hx : vm.callStack.reverse[n]? with
    | none => simp [hx] at hn
    | some fr =>
      have hfr := hv.frames fr (List.mem_reverse.mp (List.mem_of_getElem? hx))
      rw [hx] at hn
      simp only [Option.map_eq_map, Option.map_some, Option.some.injEq] at hn
      subst hn
      split
      · intro g hg hk
        simpa using hfr g hg hk
      · exact hfr
  | call fi dst args callee locals hc hb =>
    refine hv.withStack (List.forall_mem_cons.mpr ⟨fun g hg hk => ?_,
      List.forall_mem_cons.mpr ⟨hf, hrest⟩⟩)
    have : g = callee := by
      rw [Vm.func?, hv.module] at hc
      exact Option.some.inj (hg.symm.trans hc)
    subst this
    exact (bindArgs_length hb).trans (by simp)
  | callFb slot fi args callee locals hc hb =>
    refine hv.withStack (List.forall_mem_cons.mpr ⟨fun g hg hk => ?_, hv.frames⟩)
    exact absurd hk (hm.kind hfunc hi rfl hg)
  | method slot ci fi dst args method cls count ls locals vm1 hmethod hc hs hb =>
    have hv1 : vm1.Shaped m := by
      unfold Vm.methodState at hs
      split at hs
      · simp only [Except.ok.injEq, Prod.mk.injEq] at hs
        exact hs.2 ▸ hv
      · cases hx : Vm.initClassInstance cls (List.replicate cls.locals.slots.length Value.dflt)
            cls.locals.slots.length with
        | error t => simp [hx, bind, Except.bind] at hs
        | ok state =>
          simp only [hx, bind, Except.bind, pure, Except.pure, Except.ok.injEq,
            Prod.mk.injEq] at hs
          exact hs.2 ▸ { hv with }
    refine hv1.withStack (List.forall_mem_cons.mpr ⟨fun g hg hk => ?_,
      List.forall_mem_cons.mpr ⟨hf, hrest⟩⟩)
    exact absurd hk (hm.kind hfunc hi rfl hg)
  | ret r rest' ha => exact hv.saveRetainedLocals.withStack (shaped_alike ha hrest)
  | retVoid rest' ha => exact hv.saveRetainedLocals.withStack (shaped_alike ha hrest)

variable [F64Ops]

/-- **An iteration of the loop keeps the shape.** -/
theorem step_shaped (hm : NoProgramInstance m) (hv : vm.Shaped m) : (left vm.step).Shaped m := by
  have heff := vm.step_effect
  generalize left vm.step = vm' at heff ⊢
  generalize vm.nextInstr = next at heff
  cases heff with
  | idle => exact hv
  | paused d => exact { hv with }
  | limit f rest d hstack => exact hv.advance d hstack
  | atEnd f rest rest' hstack ha =>
    have hframes := hv.frames
    rw [hstack, List.forall_mem_cons] at hframes
    exact hv.saveRetainedLocals.withStack (shaped_alike ha hframes.2)
  | instr f rest func d i vm' hstack hfunc hi heff =>
    have hmem : func ∈ m.functions := by
      rw [Vm.func?, hv.module] at hfunc
      exact List.mem_of_getElem? hfunc
    exact heff.shaped hm (hv.advance d hstack) rfl hmem (List.mem_of_getElem? hi)

end

/-! ## The host keeps the shape -/

section

variable {m : Module} {vm vm' : Vm}

theorem Vm.Shaped.patchInstance (hv : vm.Shaped m) (key : InstanceKey) (i : Nat) (v : Value) :
    (vm.patchInstance key i v).Shaped m := by
  unfold Vm.patchInstance
  split
  · exact { hv with }
  · exact hv

theorem Vm.Shaped.setGlobal (hv : vm.Shaped m) {name : String} {v : Value}
    (h : vm.setGlobal name v = .ok vm') : vm'.Shaped m := by
  unfold Vm.setGlobal at h
  split at h
  · split at h
    · exact Except.ok.inj h ▸ hv
    · next i slot _ _ =>
      cases hx : indexSet vm.globals i.toNat (narrowValue v slot.intWidth) with
      | error t => simp [hx, Except.map] at h
      | ok gs =>
        simp only [hx, Except.map, Except.ok.injEq] at h
        exact h ▸ hv.withGlobals (by rw [Vm.indexSet_ok hx]; simp)
  · exact Except.ok.inj h ▸ hv

theorem Vm.Shaped.setGlobalBySlot (hv : vm.Shaped m) (slot : UInt16) (v : Value) :
    (vm.setGlobalBySlot slot v).Shaped m := by
  unfold Vm.setGlobalBySlot
  split
  · exact hv
  · split
    · exact hv
    · exact hv.withGlobals (by simp)

theorem Vm.Shaped.forceVariable (hv : vm.Shaped m) {name : String} {v : Value}
    (h : vm.forceVariable name v = .ok vm') : vm'.Shaped m := by
  unfold Vm.forceVariable at h
  split at h
  · simp only [Except.ok.injEq] at h
    subst h
    exact { hv with globals := by simpa using hv.globals }
  · have hw : ({ vm with
      forcedVariables := Finmap.insert (toUppercase name) v vm.forcedVariables } : Vm).Shaped m :=
        { hv with }
    refine Vm.forceLocal_inv (P := fun w => w.Shaped m) hw ?_ ?_ h
    · intro i prog j slot locals hat hkind hslot hl
      obtain ⟨func, hf, hk, hlen⟩ := hv.retained i.toUInt16 locals hl
      exact hw.setRetainedLocals hf hk (by simpa using hlen)
    · intro key pos field _
      exact hw.patchInstance _ _ _

theorem enforceLocals_length (vm : Vm) (prog : Function) (locals : List Value) :
    (vm.enforceLocals prog locals).length = locals.length := by
  unfold Vm.enforceLocals
  refine List.foldlRecOn (motive := fun acc : List Value => acc.length = locals.length) _ _ rfl ?_
  intro acc hacc p _
  simp only
  split
  · simpa using hacc
  · exact hacc

theorem Vm.Shaped.enforceRetainedLocals (hv : vm.Shaped m)
    (h : vm.enforceRetainedLocals = .ok vm') : vm'.Shaped m := by
  refine Vm.enforceRetainedLocals_inv (P := fun w => w.Shaped m) hv ?_ ?_ h
  · intro w i prog ls hw hmem
    obtain ⟨hat, hkind, hls⟩ := Vm.mem_retainedPrograms hmem
    obtain ⟨func, hf, -, hlen⟩ := hv.retained i ls hls
    rw [hv.module, hf] at hat
    obtain rfl := Option.some.inj hat
    exact hw.setRetainedLocals hf hkind ((enforceLocals_length ..).trans hlen)
  · intro w key pos field v hw _ _
    exact hw.patchInstance _ _ _

theorem shaped_restoreKeeps (hlen : m.functions.length ≤ 65536) :
    RestoreKeeps m fun w => w.Shaped m where
  module := fun w hw => hw.module
  globals := fun w i slot v hw _ _ => hw.withGlobals (by simp)
  locals := by
    intro w i prog xs hw hat hkind hxs
    have hi : i < 65536 := by
      have := (List.getElem?_eq_some_iff.mp hat).1
      omega
    refine hw.setRetainedLocals (by rwa [toNat_toUInt16 hi]) hkind ?_
    rw [hxs.length, carryOver_length, MemoryLayout.defaults_length]
  fields := fun w key slots xs hw _ _ => { hw with }

/-! ## Online changes keep the shape -/

/-- A PROGRAM that stays in the module stays a PROGRAM. -/
def KeepsPrograms (old new : Module) : Prop :=
  ∀ name i f j g, old.findFunction name = some (i, f) → new.findFunction name = some (j, g) →
    f.kind = .program → g.kind = .program

/-- What is migrated belongs to a PROGRAM of the new module. -/
theorem migrateFunction_shaped (hv : vm.Shaped m) (hm : m.functions.length ≤ 65536) {new : Module}
    (hnew : new.functions.length ≤ 65536) (hkind : KeepsPrograms m new) {c : FunctionChange}
    {i : UInt16} {ls : List Value} (h : migrateFunction vm new c = some (i, ls)) :
    ∃ func, new.functions[i.toNat]? = some func ∧ func.kind = .program ∧
      ls.length = func.locals.slots.length := by
  unfold migrateFunction at h
  split at h
  · cases h
  · split at h
    · next oldIdx oldF newIdx newF hold hfind =>
      split at h
      · simp only [Option.map_eq_some_iff, Prod.mk.injEq] at h
        obtain ⟨xs, hxs, rfl, rfl⟩ := h
        unfold Vm.getRetainedLocals at hxs
        rw [hold] at hxs
        obtain ⟨func, hf, hprog, -⟩ := hv.retained oldIdx xs hxs
        rw [hv.module] at hold
        have hat := Module.findFunction_some hm hold
        rw [hf] at hat
        obtain rfl := Option.some.inj hat
        exact ⟨newF, Module.findFunction_some hnew hfind, hkind _ _ _ _ _ hold hfind hprog,
          migrateLocals_length ..⟩
      · cases h
    · cases h

/-- The migrated locals fit the new module. -/
theorem migratedLocals_shaped (hv : vm.Shaped m) (hm : m.functions.length ≤ 65536) {new : Module}
    (hnew : new.functions.length ≤ 65536) (hkind : KeepsPrograms m new) (cs : List FunctionChange) :
    ∀ i xs, Finmap.lookup i (migratedLocals vm new cs) = some xs →
      ∃ func, new.functions[i.toNat]? = some func ∧ func.kind = .program ∧
        xs.length = func.locals.slots.length := by
  unfold migratedLocals
  refine List.foldlRecOn (motive := fun r : Map UInt16 (List Value) =>
    ∀ i xs, Finmap.lookup i r = some xs → ∃ func, new.functions[i.toNat]? = some func ∧
      func.kind = .program ∧ xs.length = func.locals.slots.length) _ _ ?_ ?_
  · intro i xs h
    simp at h
  · rintro r hr ⟨j, ls⟩ hmem i xs h
    obtain ⟨c, -, hc⟩ := List.mem_filterMap.mp hmem
    by_cases hkey : i = j
    · subst hkey
      simp only [Finmap.lookup_insert, Option.some.injEq] at h
      subst h
      exact migrateFunction_shaped hv hm hnew hkind hc
    · simp only [Finmap.lookup_insert_of_ne _ hkey] at h
      exact hr i xs h

theorem mapM_ok {α β ε : Type} {f : α → Except ε β} {g : α → β} :
    ∀ {xs : List α}, (∀ x ∈ xs, f x = .ok (g x)) → xs.mapM f = .ok (xs.map g)
  | [], _ => rfl
  | x :: xs, h => by
    rw [List.mapM_cons, h x (List.mem_cons_self ..),
      mapM_ok fun y hy => h y (List.mem_cons_of_mem x hy)]
    rfl

/-- Every global of the module can be read. -/
theorem getGlobal_ok (hv : vm.Shaped m) {name : String} {i : UInt16} {s : VarSlot}
    (h : m.globals.findSlot name = some (i, s)) :
    vm.getGlobal name = .ok (some (vm.globals[i.toNat]?.getD .void)) := by
  have hlt : i.toNat < vm.globals.length := by
    rw [hv.globals]
    exact MemoryLayout.findSlot_lt h
  simp [Vm.getGlobal, hv.module, h, index, List.getElem?_eq_getElem hlt, Except.map]

theorem oldGlobals_ok (hv : vm.Shaped m) : ∃ gs, oldGlobals vm = .ok gs := by
  have hread : ∀ s ∈ vm.module.globals.slots, ∃ v, (vm.getGlobal s.name).map (·.getD .void) = .ok v := by
    intro s _
    cases hf : m.globals.findSlot s.name with
    | none => exact ⟨.void, by simp [Vm.getGlobal, hv.module, hf, Except.map]⟩
    | some p => exact ⟨_, by rw [getGlobal_ok hv hf]; rfl⟩
  have : Nonempty Value := ⟨.void⟩
  choose! g hg using hread
  exact ⟨_, mapM_ok hg⟩

/-- With unique names the globals are read back as they are. -/
theorem oldGlobals_eq (hv : vm.Shaped m) (hm : m.globals.Distinct) :
    oldGlobals vm = .ok vm.globals := by
  have hread : ∀ p ∈ vm.module.globals.slots.zipIdx,
      (vm.getGlobal p.1.name).map (·.getD .void) = .ok (vm.globals[p.2]?.getD .void) := by
    rintro ⟨s, k⟩ hmem
    rw [List.mem_zipIdx_iff_getElem?] at hmem
    simp only [hv.module] at hmem
    have hk : k < 65536 := by
      have := (List.getElem?_eq_some_iff.mp hmem).1
      have := hm.length
      omega
    rw [getGlobal_ok hv (hm.findSlot hmem rfl), toNat_toUInt16 hk]
    rfl
  have hmap := mapM_ok hread
  unfold oldGlobals
  rw [← List.zipIdx_map_fst 0 vm.module.globals.slots, List.mapM_map]
  refine hmap.trans (congrArg Except.ok (List.ext_getElem? fun k => ?_))
  have hlen : vm.globals.length = vm.module.globals.slots.length := by
    rw [hv.globals, hv.module]
  rw [List.getElem?_map, List.getElem?_zipIdx]
  by_cases hk : k < vm.globals.length
  · simp [List.getElem?_eq_getElem hk, List.getElem?_eq_getElem (hlen ▸ hk)]
  · simp [List.getElem?_eq_none (Nat.le_of_not_lt hk),
      List.getElem?_eq_none (hlen ▸ Nat.le_of_not_lt hk)]

/-- A compatible change is applied. -/
theorem onlineChangeModule_ok {e : Engine} (hv : e.vm.Shaped m) {new : Module}
    (hc : (analyzeChange m new).compatible = true) :
    ∃ gs, oldGlobals e.vm = .ok gs ∧ e.onlineChangeModule new = .ok
      (⟨e.vm.swapModule new (migratedLocals e.vm new (analyzeChange m new).functionChanges)
          (migrateLocals gs m.globals new.globals),
        ((firstProgram new).map (·.name)).getD e.programName⟩, .ok (analyzeChange m new)) := by
  obtain ⟨gs, hgs⟩ := oldGlobals_ok hv
  refine ⟨gs, hgs, ?_⟩
  simp only [onlineChangeModule, applyOnlineChange, hv.module, hc, hgs, bind, Except.bind,
    pure, Except.pure, Except.map]
  cases firstProgram new <;> rfl

/-- An engine after an online change, accepted or refused. -/
theorem onlineChange_shaped {e e' : Engine} (hv : e.vm.Shaped m) (hm : m.functions.length ≤ 65536)
    {new : Module} (hnew : new.functions.length ≤ 65536) (hkind : KeepsPrograms m new)
    {r : Except String ChangeAnalysis} (h : e.onlineChangeModule new = .ok (e', r)) :
    e'.vm.Shaped e'.vm.module ∧ (e' = e ∨ e'.vm.module = new) := by
  by_cases hc : (analyzeChange m new).compatible = true
  · obtain ⟨gs, -, hok⟩ := onlineChangeModule_ok hv hc
    rw [hok] at h
    cases h
    refine ⟨⟨rfl, migrateLocals_length .., migratedLocals_shaped hv hm hnew hkind _, ?_⟩, .inr rfl⟩
    intro f hf
    cases hf
  · simp only [onlineChangeModule, hv.module, hc, Bool.not_false, if_true, Except.ok.injEq,
      Prod.mk.injEq] at h
    obtain ⟨rfl, -⟩ := h
    exact ⟨hv.module ▸ hv, .inl rfl⟩

end

/-! ## Runs -/

/-- The modules an engine may be given: unique names, and no instance call
that runs a PROGRAM. -/
structure Loadable (m : Module) : Prop where
  distinct : m.Distinct
  calls : NoProgramInstance m

/-- A change to such a module that leaves PROGRAMs PROGRAMs. -/
def ChangeLoads (e : Engine) : EngineEvent → Prop
  | .change new => Loadable new ∧ KeepsPrograms e.vm.module new
  | _ => True

section

variable {m : Module}

theorem newWithNativeFbs_shaped (m : Module) (config : VmConfig)
    (nativeFbs : Option (List NativeFb)) : (Vm.newWithNativeFbs m config nativeFbs).Shaped m where
  module := rfl
  globals := by simp [Vm.newWithNativeFbs]
  retained := by simp [Vm.newWithNativeFbs]
  frames := by simp [Vm.newWithNativeFbs]

theorem enterRun_shaped {vm vm' : Vm} (hv : vm.Shaped m) (hlen : m.functions.length ≤ 65536)
    {name : String} (h : vm.enterRun name = some vm') : vm'.Shaped m := by
  unfold Vm.enterRun at h
  simp only [Option.map_eq_some_iff, Prod.exists] at h
  obtain ⟨i, func, hf, rfl⟩ := h
  rw [hv.module] at hf
  have hat := Module.findFunction_some hlen hf
  refine hv.withStack (List.forall_mem_cons.mpr ⟨fun g hg hk => ?_, hv.frames⟩)
  simp only [CallFrame.enter] at hg ⊢
  rw [hat] at hg
  obtain rfl := Option.some.inj hg
  unfold Vm.startOf
  split
  · next retained _ hr =>
    obtain ⟨g, hg, -, hl⟩ := hv.retained i retained hr
    rw [hat] at hg
    exact Option.some.inj hg ▸ hl
  · simp

variable [F64Ops]

theorem scan_shaped {vm vm' : Vm} {ev : ScanEvent} (hm : NoProgramInstance m)
    (hlen : m.functions.length ≤ 65536) (hv : vm.Shaped m) (h : ScanStep vm ev vm') :
    vm'.Shaped m := by
  have hstep := step_shaped hm hv
  cases h with
  | start h => exact enterRun_shaped hv hlen h
  | next h | done h | failed h =>
    rw [h] at hstep
    exact hstep
  | bookkeeping d t => exact { hv with }
  | clearCallStack => exact hv.withStack (by simp)

/-- **Every state of every run has the shape of its module**, when the
modules it is given are loadable. -/
theorem engine_shaped (hm : Loadable m) {e : Engine}
    (h : ((engineLts m).restrict ChangeLoads).Reachable e) :
    Loadable e.vm.module ∧ e.vm.Shaped e.vm.module := by
  refine Lts.Reachable.inv_restrict
    (I := fun e => Loadable e.vm.module ∧ e.vm.Shaped e.vm.module) ?_ ?_ h
  · rintro s ⟨config, nativeFbs, hs⟩
    rw [hs]
    exact ⟨hm, newWithNativeFbs_shaped m config nativeFbs⟩
  · rintro s ev t ⟨hl, hv⟩ hc hstep
    have hlen := hl.distinct.length
    have keep : ∀ {vm' : Vm}, vm'.Shaped s.vm.module →
        Loadable vm'.module ∧ vm'.Shaped vm'.module := by
      intro vm' hv'
      rw [hv'.module]
      exact ⟨hl, hv'⟩
    cases hstep with
    | scan h => exact keep (scan_shaped hl.calls hlen hv h)
    | enforce h => exact keep (hv.enforceRetainedLocals h)
    | setGlobal h => exact keep (hv.setGlobal h)
    | setGlobalBySlot slot v => exact keep (hv.setGlobalBySlot slot v)
    | force h => exact keep (hv.forceVariable h)
    | unforce name => exact keep { hv with }
    | restore h => exact keep (restoreSnapshot_inv (shaped_restoreKeeps hlen) hv h)
    | change h =>
      obtain ⟨hshape, hmod⟩ := onlineChange_shaped hv hlen hc.1.distinct.length hc.2 h
      refine ⟨?_, hshape⟩
      rcases hmod with rfl | hmod
      · exact hl
      · exact hmod ▸ hc.1

end

end RustPlc.Engine
