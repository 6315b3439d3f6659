import RustPlc.L2Compiler.Walk

/-!
# The walks emit well-formed code

Every function of the compiler that emits code keeps `Emitted`, by recursion
along the syntax tree. Expressions return a register that has been
allocated; statements leave no label open.
-/
namespace RustPlc.Compiler

open RustPlc.Ir RustPlc.Syntax

/-! ## Instruction tables -/

theorem unaryIntrinsics_onlyRegs :
    ∀ p ∈ unaryIntrinsics, ∀ d r, (p.2 d r).OnlyRegs [d, r] := by
  unfold unaryIntrinsics
  simp only [List.forall_mem_cons, List.not_mem_nil, false_implies, implies_true, and_true]
  repeat' apply And.intro
  all_goals
    intro d r
    exact ⟨rfl, rfl, rfl, rfl, rfl, rfl⟩

theorem timeIntrinsics_onlyRegs :
    ∀ p ∈ timeIntrinsics, ∀ d l r, (p.2.1 d l r).OnlyRegs [d, l, r] := by
  unfold timeIntrinsics
  simp only [List.forall_mem_cons, List.not_mem_nil, false_implies, implies_true, and_true]
  repeat' apply And.intro
  all_goals
    intro d l r
    exact ⟨rfl, rfl, rfl, rfl, rfl, rfl⟩

theorem stringIntrinsics2_onlyRegs :
    ∀ p ∈ stringIntrinsics2, ∀ d l r, (p.2 d l r).OnlyRegs [d, l, r] := by
  unfold stringIntrinsics2
  simp only [List.forall_mem_cons, List.not_mem_nil, false_implies, implies_true, and_true]
  repeat' apply And.intro
  all_goals
    intro d l r
    exact ⟨rfl, rfl, rfl, rfl, rfl, rfl⟩

theorem stringIntrinsics3_onlyRegs :
    ∀ p ∈ stringIntrinsics3, ∀ d a b c, (p.2 d a b c).OnlyRegs [d, a, b, c] := by
  unfold stringIntrinsics3
  simp only [List.forall_mem_cons, List.not_mem_nil, false_implies, implies_true, and_true]
  repeat' apply And.intro
  all_goals
    intro d a b c
    exact ⟨rfl, rfl, rfl, rfl, rfl, rfl⟩

theorem binaryInstruction_onlyRegs (op : BinaryOp) (d l r : Reg) :
    (binaryInstruction op d l r).OnlyRegs [d, l, r] := by
  cases op <;> exact ⟨rfl, rfl, rfl, rfl, rfl, rfl⟩

theorem unaryInstruction_onlyRegs (op : UnaryOp) (d r : Reg) :
    (unaryInstruction op d r).OnlyRegs [d, r] := by
  cases op <;> exact ⟨rfl, rfl, rfl, rfl, rfl, rfl⟩

theorem extractInstruction_onlyRegs (kind : PartialAccessKind) (i : UInt8) (d r : Reg) :
    (extractInstruction kind i d r).OnlyRegs [d, r] := by
  cases kind <;> exact ⟨rfl, rfl, rfl, rfl, rfl, rfl⟩

theorem insertInstruction_onlyRegs (kind : PartialAccessKind) (i : UInt8) (d b v : Reg) :
    (insertInstruction kind i d b v).OnlyRegs [d, b, v] := by
  cases kind <;> exact ⟨rfl, rfl, rfl, rfl, rfl, rfl⟩

/-! ## Name resolution stays inside the tables -/

theorem FunctionCompiler.findLocal_lt {s : FunctionCompiler} {name : String} {slot : UInt16}
    (h : s.findLocal name = some slot) : slot.toNat < s.locals.slots.length := by
  simp only [findLocal, Option.map_eq_some_iff] at h
  obtain ⟨⟨i, v⟩, hf, rfl⟩ := h
  exact MemoryLayout.findSlot_lt hf

theorem ModuleEnv.findGlobal_lt {env : ModuleEnv} {name : String} {slot : UInt16}
    (h : env.findGlobal name = some slot) : slot.toNat < env.globals.slots.length := by
  simp only [findGlobal, Option.map_eq_some_iff] at h
  obtain ⟨⟨i, v⟩, hf, rfl⟩ := h
  exact MemoryLayout.findSlot_lt hf

theorem ModuleEnv.position_lt {env : ModuleEnv} {name : String} {i : Nat} {f : Function}
    (h : env.position name = some (i, f)) : i.toUInt16.toNat < env.functions.length :=
  toUInt16_lt_of_lt (findIdx_lt h)

/-- The first function, or function 0: a callee index the compiler emits. -/
theorem ModuleEnv.positionOrZero_lt {env : ModuleEnv} (hf : env.functions ≠ []) (name : String) :
    (((env.position name).map fun p : Nat × Function => p.1).getD 0).toUInt16.toNat < env.functions.length := by
  cases h : env.position name with
  | none => simpa using List.length_pos_of_ne_nil hf
  | some p => simpa using ModuleEnv.position_lt h

theorem FunctionCompiler.instance?_lt {s : FunctionCompiler} {name ty : String} {slot : UInt16}
    (h : s.instance? name = some (slot, ty)) : slot.toNat < s.locals.slots.length := by
  simp only [instance?, Option.bind_eq_some_iff, Option.map_eq_some_iff, Prod.mk.injEq] at h
  obtain ⟨_, hl, _, _, rfl, _⟩ := h
  exact findLocal_lt hl

theorem FunctionCompiler.fieldTarget_lt {env : ModuleEnv} {s : FunctionCompiler}
    {obj field : String} {slot i off : UInt16}
    (h : s.fieldTarget env obj field = some (slot, i, off)) :
    slot.toNat < s.locals.slots.length := by
  simp only [fieldTarget, Option.map_eq_some_iff, Prod.mk.injEq, Prod.exists] at h
  obtain ⟨_, _, hi, rfl, _⟩ := h
  exact instance?_lt hi

theorem findMethodInHierarchy_lt {env : ModuleEnv} {method : String} :
    ∀ {fuel : Nat} {cls : String} {i : Nat},
      findMethodInHierarchy env method fuel cls = .ok (some i) →
      i.toUInt16.toNat < env.functions.length
  | 0, _, _, h => by simp [findMethodInHierarchy] at h
  | fuel + 1, cls, i, h => by
    unfold findMethodInHierarchy at h
    split at h
    · next hp =>
      simp only [Except.ok.injEq, Option.some.injEq] at h
      subst h
      exact ModuleEnv.position_lt hp
    · split at h
      · exact findMethodInHierarchy_lt h
      · simp at h

theorem FunctionCompiler.methodTarget_lt {env : ModuleEnv} {s : FunctionCompiler}
    {parts : List String} {slot cls method : UInt16} (hf : env.functions ≠ [])
    (h : s.methodTarget env parts = .ok (some (slot, cls, method))) :
    slot.toNat < s.locals.slots.length ∧ cls.toNat < env.functions.length ∧
      method.toNat < env.functions.length := by
  unfold methodTarget at h
  split at h
  · split at h
    · next hi =>
      cases hm : findMethodInHierarchy env _ (env.classBases.entries.length + 2) _ with
      | error e =>
        rw [hm] at h
        cases h
      | ok idx =>
        rw [hm] at h
        cases idx with
        | none => cases h
        | some i =>
          simp only [Bind.bind, Except.bind, Pure.pure, Except.pure, Option.map_some,
            Except.ok.injEq, Option.some.injEq, Prod.mk.injEq] at h
          obtain ⟨rfl, rfl, rfl⟩ := h
          exact ⟨instance?_lt hi, ModuleEnv.positionOrZero_lt hf _, findMethodInHierarchy_lt hm⟩
    · cases h
  · cases h

/-! ## Leaves -/

/-- A register that has been allocated. -/
abbrev RegIn (r : Reg) (s : FunctionCompiler) : Prop := r.toNat < s.nextReg.toNat

/-- `x` keeps `Emitted`, and its result satisfies `Q` in the state it leaves. -/
def Emits {α : Type} (env : ModuleEnv) (x : CompileM α) (Q : α → FunctionCompiler → Prop) : Prop :=
  ∀ s a s', Ready env s → x s = .ok (a, s') → Emitted env s [] s' ∧ Q a s'

theorem Emitted.regIn {env : ModuleEnv} {s s' : FunctionCompiler} {U : List Label} {r : Reg}
    (h : Emitted env s U s') (hr : RegIn r s) : RegIn r s' := Nat.lt_of_lt_of_le hr h.regs

/-- Chain a computation that has been shown to emit. -/
theorem Emits.after {α : Type} {env : ModuleEnv} {x : CompileM α}
    {Q : α → FunctionCompiler → Prop} {s₀ s s' : FunctionCompiler} {U : List Label} {a : α}
    (hx : Emits env x Q) (h0 : Ready env s₀) (h : Emitted env s₀ U s) (he : x s = .ok (a, s')) :
    Emitted env s₀ U s' ∧ Emitted env s [] s' ∧ Q a s' := by
  obtain ⟨e, hq⟩ := hx s a s' (h.ready h0) he
  exact ⟨h.trans e, e, hq⟩

theorem emitTo_emits {env : ModuleEnv} {g : Reg → Instruction} {s s' : FunctionCompiler} {r : Reg}
    (hs : Ready env s)
    (hg : ∀ (dst : Reg) (b : Limits), (s.limits env).Le b → dst.toNat < b.regs → (g dst).Fits b)
    (he : emitTo g s = .ok (r, s')) : Emitted env s [] s' ∧ RegIn r s' :=
  (Emitted.refl hs).emitTo hg he

/-- An instruction whose only operands are its destination and registers that
have been allocated. -/
theorem fits_dst {env : ModuleEnv} {s : FunctionCompiler} {g : Reg → Instruction} {l : List Reg}
    (hg : ∀ d, (g d).OnlyRegs (d :: l)) (hl : ∀ r ∈ l, RegIn r s) (dst : Reg) (b : Limits)
    (hb : (s.limits env).Le b) (hd : dst.toNat < b.regs) : (g dst).Fits b := by
  refine (hg dst).fits ?_
  intro r hr
  rcases List.mem_cons.mp hr with rfl | hr
  · exact hd
  · exact Nat.lt_of_lt_of_le (hl r hr) hb.regs

theorem loadConst_fits {v : Value} (hv : v.isRef = false) {dst : Reg} {b : Limits}
    (hd : dst.toNat < b.regs) : (Instruction.loadConst dst v).Fits b :=
  ⟨by simpa [Instruction.regs] using hd, by simp [Instruction.labels],
    by simp [Instruction.localSlots], by simp [Instruction.globalSlots],
    by simp [Instruction.callees], by simpa [Instruction.consts] using hv⟩

section

variable {env : ModuleEnv}

theorem emitConst_emits {v : Value} (hv : v.isRef = false) :
    Emits env (emitTo (.loadConst · v)) RegIn :=
  fun _ _ _ hs he => emitTo_emits hs (fun _ _ _ hd => loadConst_fits hv hd) he

theorem compileLoadVariable_emits (name : String) :
    Emits env (compileLoadVariable env name) RegIn := by
  intro s r s' hs he
  have h2 := get_bind_ok he
  cases hl : s.findLocal name with
  | some slot =>
    simp only [hl] at h2
    refine emitTo_emits hs (fun dst b hb hd => ?_) h2
    have hslot := Nat.lt_of_lt_of_le (FunctionCompiler.findLocal_lt hl) hb.locals
    exact ⟨by simpa [Instruction.regs] using hd, by simp [Instruction.labels],
      by simpa [Instruction.localSlots] using hslot, by simp [Instruction.globalSlots],
      by simp [Instruction.callees], by simp [Instruction.consts]⟩
  | none =>
    cases hg : env.findGlobal name with
    | some slot =>
      simp only [hl, hg] at h2
      refine emitTo_emits hs (fun dst b hb hd => ?_) h2
      have hslot := Nat.lt_of_lt_of_le (ModuleEnv.findGlobal_lt hg) hb.globals
      exact ⟨by simpa [Instruction.regs] using hd, by simp [Instruction.labels],
        by simp [Instruction.localSlots], by simpa [Instruction.globalSlots] using hslot,
        by simp [Instruction.callees], by simp [Instruction.consts]⟩
    | none =>
      simp only [hl, hg] at h2
      exact emitConst_emits rfl _ _ _ hs h2

theorem compilePartialRead_emits (kind : PartialAccessKind) (index : UInt32)
    {s s' : FunctionCompiler} {src r : Reg} (hs : Ready env s) (hr : RegIn src s)
    (he : compilePartialRead src kind index s = .ok (r, s')) :
    Emitted env s [] s' ∧ RegIn r s' :=
  emitTo_emits hs (fits_dst (fun d => extractInstruction_onlyRegs kind index.toUInt8 d src)
    (by simpa using hr)) he

theorem applyPartialChain_emits : ∀ (parts : List AccessPart) {s s' : FunctionCompiler}
    {src r : Reg}, Ready env s → RegIn src s → applyPartialChain src parts s = .ok (r, s') →
    Emitted env s [] s' ∧ RegIn r s'
  | [], s, s', src, r, hs, hr, he => by
    obtain ⟨rfl, rfl⟩ := pure_ok he
    exact ⟨.refl hs, hr⟩
  | .partialAccess kind index :: parts, s, s', src, r, hs, hr, he => by
    obtain ⟨r1, s1, h1, h2⟩ := bind_ok he
    obtain ⟨e1, q1⟩ := compilePartialRead_emits kind index hs hr h1
    obtain ⟨e2, q2⟩ := applyPartialChain_emits parts (e1.ready hs) q1 h2
    exact ⟨e1.trans e2, q2⟩
  | .identifier _ :: parts, _, _, _, _, hs, hr, he => applyPartialChain_emits parts hs hr he
  | .index _ :: parts, _, _, _, _, hs, hr, he => applyPartialChain_emits parts hs hr he
  | .deref :: parts, _, _, _, _, hs, hr, he => applyPartialChain_emits parts hs hr he

theorem compileRoot_emits (id : String) (parts : List AccessPart) :
    Emits env (compileRoot env id parts) RegIn := by
  intro s r s' hs he
  obtain ⟨r1, s1, h1, h2⟩ := bind_ok he
  obtain ⟨e1, q1⟩ := compileLoadVariable_emits id s r1 s1 hs h1
  obtain ⟨e2, q2⟩ := applyPartialChain_emits parts (e1.ready hs) q1 h2
  exact ⟨e1.trans e2, q2⟩

/-! ## Calls -/

/-- The arguments of a call are compiled into registers that have been
allocated. -/
structure ArgsEmit (env : ModuleEnv) (args : ArgCompiler) : Prop where
  all : Emits env args.all fun regs s => ∀ p ∈ regs, RegIn p.2 s
  arg : ∀ v i, v.isRef = false → Emits env (args.arg v i) RegIn
  timeArgs : Emits env args.timeArgs fun p s => RegIn p.1 s ∧ RegIn p.2 s

theorem refInstruction_fits {s : FunctionCompiler} {dst : Reg} (hd : RegIn dst s)
    (name : Option String) : (refInstruction env s dst name).Fits (s.limits env) := by
  have hnull : (Instruction.loadNull dst).Fits (s.limits env) :=
    Instruction.OnlyRegs.fits (l := [dst]) ⟨rfl, rfl, rfl, rfl, rfl, rfl⟩ (by simpa using hd)
  cases name with
  | none => exact hnull
  | some name =>
    cases hl : s.findLocal name with
    | some slot =>
      simp only [refInstruction, hl]
      exact ⟨by simpa [Instruction.regs] using hd, by simp [Instruction.labels],
        by simpa [Instruction.localSlots] using FunctionCompiler.findLocal_lt hl,
        by simp [Instruction.globalSlots], by simp [Instruction.callees],
        by simp [Instruction.consts]⟩
    | none =>
      cases hg : env.findGlobal name with
      | some slot =>
        simp only [refInstruction, hl, hg]
        exact ⟨by simpa [Instruction.regs] using hd, by simp [Instruction.labels],
          by simp [Instruction.localSlots],
          by simpa [Instruction.globalSlots] using ModuleEnv.findGlobal_lt hg,
          by simp [Instruction.callees], by simp [Instruction.consts]⟩
      | none =>
        simp only [refInstruction, hl, hg]
        exact hnull

/-- Two arguments and then one instruction. -/
theorem emit_binary_emits {args : ArgCompiler} (ha : ArgsEmit env args)
    {mk : Reg → Reg → Reg → Instruction} (hmk : ∀ d l r, (mk d l r).OnlyRegs [d, l, r])
    {s s' : FunctionCompiler} {dst : Reg} {u : Unit} (hs : Ready env s) (hd : RegIn dst s)
    (he : (do
      let arg1 ← args.arg (.int 0) 0
      let arg2 ← args.arg (.int 0) 1
      emit (mk dst arg1 arg2) : CompileM Unit) s = .ok (u, s')) : Emitted env s [] s' := by
  obtain ⟨r1, s1, h1, he⟩ := bind_ok he
  obtain ⟨r2, s2, h2, he⟩ := bind_ok he
  obtain ⟨e1, -, q1⟩ := (ha.arg _ 0 rfl).after hs (.refl hs) h1
  obtain ⟨e2, e12, q2⟩ := (ha.arg _ 1 rfl).after hs e1 h2
  refine e2.emit ((hmk dst r1 r2).fits ?_) he
  simp only [List.forall_mem_cons, List.not_mem_nil, false_implies, implies_true, and_true]
  exact ⟨e2.regIn hd, e12.regIn q1, q2⟩

/-- Three arguments and then one instruction. -/
theorem emit_ternary_emits {args : ArgCompiler} (ha : ArgsEmit env args)
    {mk : Reg → Reg → Reg → Reg → Instruction}
    (hmk : ∀ d a b c, (mk d a b c).OnlyRegs [d, a, b, c])
    {s s' : FunctionCompiler} {dst : Reg} {u : Unit} (hs : Ready env s) (hd : RegIn dst s)
    (he : (do
      let arg1 ← args.arg (.int 0) 0
      let arg2 ← args.arg (.int 0) 1
      let arg3 ← args.arg (.int 0) 2
      emit (mk dst arg1 arg2 arg3) : CompileM Unit) s = .ok (u, s')) : Emitted env s [] s' := by
  obtain ⟨r1, s1, h1, he⟩ := bind_ok he
  obtain ⟨r2, s2, h2, he⟩ := bind_ok he
  obtain ⟨r3, s3, h3, he⟩ := bind_ok he
  obtain ⟨e1, -, q1⟩ := (ha.arg _ 0 rfl).after hs (.refl hs) h1
  obtain ⟨e2, e12, q2⟩ := (ha.arg _ 1 rfl).after hs e1 h2
  obtain ⟨e3, e23, q3⟩ := (ha.arg _ 2 rfl).after hs e2 h3
  refine e3.emit ((hmk dst r1 r2 r3).fits ?_) he
  simp only [List.forall_mem_cons, List.not_mem_nil, false_implies, implies_true, and_true]
  exact ⟨e3.regIn hd, e23.regIn (e12.regIn q1), e23.regIn q2, q3⟩

/-- The four arguments of `REPLACE`. -/
theorem emit_replace_emits {args : ArgCompiler} (ha : ArgsEmit env args)
    {s s' : FunctionCompiler} {dst : Reg} {u : Unit} (hs : Ready env s) (hd : RegIn dst s)
    (he : (do
      let str1 ← args.arg (.int 0) 0
      let str2 ← args.arg (.int 0) 1
      let len ← args.arg (.int 0) 2
      let pos ← args.arg (.int 0) 3
      emit (.stringReplace dst str1 str2 len pos) : CompileM Unit) s = .ok (u, s')) :
    Emitted env s [] s' := by
  obtain ⟨r1, s1, h1, he⟩ := bind_ok he
  obtain ⟨r2, s2, h2, he⟩ := bind_ok he
  obtain ⟨r3, s3, h3, he⟩ := bind_ok he
  obtain ⟨r4, s4, h4, he⟩ := bind_ok he
  obtain ⟨e1, -, q1⟩ := (ha.arg _ 0 rfl).after hs (.refl hs) h1
  obtain ⟨e2, e12, q2⟩ := (ha.arg _ 1 rfl).after hs e1 h2
  obtain ⟨e3, e23, q3⟩ := (ha.arg _ 2 rfl).after hs e2 h3
  obtain ⟨e4, e34, q4⟩ := (ha.arg _ 3 rfl).after hs e3 h4
  refine e4.emit (Instruction.OnlyRegs.fits
    (l := [dst, r1, r2, r3, r4]) ⟨rfl, rfl, rfl, rfl, rfl, rfl⟩ ?_) he
  simp only [List.forall_mem_cons, List.not_mem_nil, false_implies, implies_true, and_true]
  exact ⟨e4.regIn hd, e34.regIn (e23.regIn (e12.regIn q1)), e34.regIn (e23.regIn q2),
    e34.regIn q3, q4⟩

/-- A time intrinsic; a time of day is wrapped to a day. -/
theorem emit_time_emits {args : ArgCompiler} (ha : ArgsEmit env args)
    {mk : Reg → Reg → Reg → Instruction} (hmk : ∀ d l r, (mk d l r).OnlyRegs [d, l, r])
    {s s' : FunctionCompiler} {dst : Reg} {wrap : Bool} {u : Unit} (hs : Ready env s)
    (hd : RegIn dst s)
    (he : (do
      let (arg1, arg2) ← args.timeArgs
      if wrap then
        let tmp ← emitTo (mk · arg1 arg2)
        emit (.toTod dst tmp)
      else emit (mk dst arg1 arg2) : CompileM Unit) s = .ok (u, s')) : Emitted env s [] s' := by
  obtain ⟨⟨r1, r2⟩, s1, h1, he⟩ := bind_ok he
  obtain ⟨e1, -, q1, q2⟩ := ha.timeArgs.after hs (.refl hs) h1
  cases wrap with
  | true =>
    obtain ⟨tmp, s2, h2, he⟩ := bind_ok he
    obtain ⟨e2, q⟩ := e1.emitTo (fits_dst (fun d => hmk d r1 r2) (by simpa using ⟨q1, q2⟩)) h2
    refine e2.emit (Instruction.OnlyRegs.fits (l := [dst, tmp])
      ⟨rfl, rfl, rfl, rfl, rfl, rfl⟩ ?_) he
    simp only [List.forall_mem_cons, List.not_mem_nil, false_implies, implies_true, and_true]
    exact ⟨e2.regIn hd, q⟩
  | false =>
    refine e1.emit ((hmk dst r1 r2).fits ?_) he
    simp only [List.forall_mem_cons, List.not_mem_nil, false_implies, implies_true, and_true]
    exact ⟨e1.regIn hd, q1, q2⟩

theorem compilePlainCall_emits {args : ArgCompiler} (ha : ArgsEmit env args) (name : String)
    (refVar : Option String) {s s' : FunctionCompiler} {dst : Reg} {u : Unit} (hs : Ready env s)
    (hd : RegIn dst s) (he : compilePlainCall env s dst name refVar args s = .ok (u, s')) :
    Emitted env s [] s' := by
  unfold compilePlainCall at he
  by_cases hr : toUppercase name = "REF"
  · rw [if_pos hr] at he
    exact (Emitted.refl hs).emit (refInstruction_fits hd refVar) he
  rw [if_neg hr] at he
  by_cases ht : toUppercase name = "SYSTEM_TIME"
  · rw [if_pos ht] at he
    exact (Emitted.refl hs).emit (Instruction.OnlyRegs.fits (l := [dst])
      ⟨rfl, rfl, rfl, rfl, rfl, rfl⟩ (by simpa using hd)) he
  rw [if_neg ht] at he
  cases h1 : lookupName unaryIntrinsics (toUppercase name) with
  | some mk =>
    simp only [h1] at he
    obtain ⟨names, hm⟩ := lookupName_mem h1
    obtain ⟨r, s1, h2, he⟩ := bind_ok he
    obtain ⟨e1, -, q⟩ := (ha.arg _ 0 rfl).after hs (.refl hs) h2
    refine e1.emit ((unaryIntrinsics_onlyRegs _ hm dst r).fits ?_) he
    simp only [List.forall_mem_cons, List.not_mem_nil, false_implies, implies_true, and_true]
    exact ⟨e1.regIn hd, q⟩
  | none =>
  cases h2 : lookupName timeIntrinsics (toUppercase name) with
  | some p =>
    simp only [h1, h2] at he
    obtain ⟨names, hm⟩ := lookupName_mem h2
    exact emit_time_emits ha (timeIntrinsics_onlyRegs _ hm) hs hd he
  | none =>
  cases h3 : lookupName stringIntrinsics2 (toUppercase name) with
  | some mk =>
    simp only [h1, h2, h3] at he
    obtain ⟨names, hm⟩ := lookupName_mem h3
    exact emit_binary_emits ha (stringIntrinsics2_onlyRegs _ hm) hs hd he
  | none =>
  cases h4 : lookupName stringIntrinsics3 (toUppercase name) with
  | some mk =>
    simp only [h1, h2, h3, h4] at he
    obtain ⟨names, hm⟩ := lookupName_mem h4
    exact emit_ternary_emits ha (stringIntrinsics3_onlyRegs _ hm) hs hd he
  | none =>
  simp only [h1, h2, h3, h4] at he
  by_cases h5 : eqIgnoreAsciiCase name "REPLACE" = true
  · rw [if_pos h5] at he
    exact emit_replace_emits ha hs hd he
  rw [if_neg h5] at he
  cases hl : s.findLocal name with
  | some slot =>
    simp only [hl] at he
    obtain ⟨regs, s1, h6, he⟩ := bind_ok he
    obtain ⟨e1, -, q⟩ := ha.all.after hs (.refl hs) h6
    have hslot := FunctionCompiler.findLocal_lt hl
    have hf : env.functions ≠ [] := hs.host.resolve_left fun hnil => by simp [hnil] at hslot
    refine e1.emit ⟨?_, by simp [Instruction.labels], ?_, by simp [Instruction.globalSlots], ?_,
      by simp [Instruction.consts]⟩ he
    · simp only [Instruction.regs, List.mem_map]
      rintro r ⟨p, hp, rfl⟩
      exact q p hp
    · simpa [Instruction.localSlots] using Nat.lt_of_lt_of_le hslot e1.slots
    · simpa [Instruction.callees] using ModuleEnv.positionOrZero_lt hf _
  | none =>
  cases hp : env.position name with
  | some p =>
    simp only [hl, hp] at he
    obtain ⟨regs, s1, h6, he⟩ := bind_ok he
    obtain ⟨e1, -, q⟩ := ha.all.after hs (.refl hs) h6
    refine e1.emit ⟨?_, by simp [Instruction.labels], by simp [Instruction.localSlots],
      by simp [Instruction.globalSlots], ?_, by simp [Instruction.consts]⟩ he
    · simp only [Instruction.regs, List.forall_mem_cons, List.mem_map]
      refine ⟨e1.regIn hd, ?_⟩
      rintro r ⟨p, hp, rfl⟩
      exact q p hp
    · simpa [Instruction.callees] using ModuleEnv.position_lt hp
  | none =>
    simp only [hl, hp] at he
    exact (Emitted.refl hs).emit (loadConst_fits rfl hd) he

/-- Without locals there is no instance whose method could be called. -/
theorem FunctionCompiler.methodTarget_nil {s : FunctionCompiler} (hnil : s.locals.slots = [])
    (parts : List String) : s.methodTarget env parts = .ok none := by
  have hi : ∀ n, s.instance? n = none := by
    intro n
    simp [instance?, findLocal, MemoryLayout.findSlot, hnil, findIdx]
  unfold methodTarget
  split
  · rw [hi]
  · rfl

theorem compileCallTarget_emits {args : ArgCompiler} (ha : ArgsEmit env args)
    {parts : List String} (refVar : Option String) {s s' : FunctionCompiler} {dst : Reg} {u : Unit}
    {target : Option (UInt16 × UInt16 × UInt16)} (hs : Ready env s) (hd : RegIn dst s)
    (ht : s.methodTarget env parts = .ok target)
    (he : compileCallTarget env s dst (qualifiedName parts) refVar args target s = .ok (u, s')) :
    Emitted env s [] s' := by
  cases target with
  | none => exact compilePlainCall_emits ha _ refVar hs hd he
  | some t =>
    obtain ⟨slot, cls, method⟩ := t
    obtain ⟨regs, s1, h1, h2⟩ := bind_ok he
    obtain ⟨e1, -, q⟩ := ha.all.after hs (.refl hs) h1
    have hf : env.functions ≠ [] := by
      refine hs.host.resolve_left fun hnil => ?_
      rw [FunctionCompiler.methodTarget_nil hnil] at ht
      cases ht
    obtain ⟨hslot, hcls, hmethod⟩ := FunctionCompiler.methodTarget_lt hf ht
    refine e1.emit ⟨?_, by simp [Instruction.labels], ?_, by simp [Instruction.globalSlots], ?_,
      by simp [Instruction.consts]⟩ h2
    · simp only [Instruction.regs, List.forall_mem_cons, List.mem_map]
      refine ⟨e1.regIn hd, ?_⟩
      rintro r ⟨p, hp, rfl⟩
      exact q p hp
    · simpa [Instruction.localSlots] using Nat.lt_of_lt_of_le hslot e1.slots
    · simpa [Instruction.callees] using ⟨hcls, hmethod⟩

theorem compileCall_emits {args : ArgCompiler} (ha : ArgsEmit env args) (parts : List String)
    (refVar : Option String) : Emits env (compileCall env parts refVar args) RegIn := by
  intro s r s' hs he
  obtain ⟨dst, s1, h1, h2⟩ := bind_ok he
  obtain ⟨target, ht, h3⟩ := liftFault_bind_ok (get_bind_ok h2)
  obtain ⟨_, s2, h4, h5⟩ := bind_ok h3
  obtain ⟨rfl, rfl⟩ := pure_ok h5
  obtain ⟨e1, hd, hn, -, -⟩ := (Emitted.refl hs).allocReg h1
  have hdst : RegIn r s1 := by
    rw [RegIn, hn]
    exact Nat.lt_succ_self _
  have e2 := compileCallTarget_emits ha refVar (e1.ready hs) hdst ht h4
  exact ⟨e1.trans e2, e2.regIn hdst⟩

/-! ## Variables -/

/-- `arr[i]`: a slot and an index register. -/
theorem loadArray_fits {s s1 : FunctionCompiler} {slot : UInt16} {idx : Reg}
    (hslot : slot.toNat < s.locals.slots.length) (e : Emitted env s [] s1) (hi : RegIn idx s1)
    (dst : Reg) (b : Limits) (hb : (s1.limits env).Le b) (hd : dst.toNat < b.regs) :
    (Instruction.loadArray dst slot idx).Fits b := by
  have h1 := Nat.lt_of_lt_of_le (Nat.lt_of_lt_of_le hslot e.slots) hb.locals
  have h2 := Nat.lt_of_lt_of_le hi hb.regs
  exact ⟨by simpa [Instruction.regs] using ⟨hd, h2⟩, by simp [Instruction.labels],
    by simpa [Instruction.localSlots] using h1, by simp [Instruction.globalSlots],
    by simp [Instruction.callees], by simp [Instruction.consts]⟩

theorem loadFieldIndex_fits {s s1 : FunctionCompiler} {slot off : UInt16} {idx : Reg}
    (hslot : slot.toNat < s.locals.slots.length) (e : Emitted env s [] s1) (hi : RegIn idx s1)
    (dst : Reg) (b : Limits) (hb : (s1.limits env).Le b) (hd : dst.toNat < b.regs) :
    (Instruction.loadFieldIndex dst slot off idx).Fits b := by
  have h1 := Nat.lt_of_lt_of_le (Nat.lt_of_lt_of_le hslot e.slots) hb.locals
  have h2 := Nat.lt_of_lt_of_le hi hb.regs
  exact ⟨by simpa [Instruction.regs] using ⟨hd, h2⟩, by simp [Instruction.labels],
    by simpa [Instruction.localSlots] using h1, by simp [Instruction.globalSlots],
    by simp [Instruction.callees], by simp [Instruction.consts]⟩

theorem loadField_fits {s : FunctionCompiler} {slot i : UInt16}
    (hslot : slot.toNat < s.locals.slots.length) (dst : Reg) (b : Limits)
    (hb : (s.limits env).Le b) (hd : dst.toNat < b.regs) :
    (Instruction.loadField dst slot i).Fits b := by
  have h1 := Nat.lt_of_lt_of_le hslot hb.locals
  exact ⟨by simpa [Instruction.regs] using hd, by simp [Instruction.labels],
    by simpa [Instruction.localSlots] using h1, by simp [Instruction.globalSlots],
    by simp [Instruction.callees], by simp [Instruction.consts]⟩

/-- A variable of the fragments that load through its root. -/
theorem deref_emits (id : String) :
    Emits env (do
      let ptr ← compileLoadVariable env id
      emitTo (.deref · ptr)) RegIn := by
  intro s r s' hs he
  obtain ⟨ptr, s1, h1, h2⟩ := bind_ok he
  obtain ⟨e1, q1⟩ := compileLoadVariable_emits id s ptr s1 hs h1
  exact e1.emitTo (fits_dst (l := [ptr]) (fun d => ⟨rfl, rfl, rfl, rfl, rfl, rfl⟩)
    (by simpa using q1)) h2

/-- `obj.field`, or the root when `obj` is not an instance. -/
theorem field_emits (obj : String) (field : Identifier) (rest : List AccessPart) :
    Emits env (do
      let s ← get
      match s.fieldTarget env obj field.name with
      | some (slot, fieldIdx, _) => emitTo (.loadField · slot fieldIdx)
      | none => compileRoot env obj (.identifier field :: rest)) RegIn := by
  intro s r s' hs he
  have h1 := get_bind_ok he
  cases hl : s.fieldTarget env obj field.name with
  | none =>
    simp only [hl] at h1
    exact compileRoot_emits obj _ s r s' hs h1
  | some t =>
    simp only [hl] at h1
    exact emitTo_emits hs (loadField_fits (FunctionCompiler.fieldTarget_lt hl)) h1

theorem partial_emits (id : String) (kind : PartialAccessKind) (index : UInt32) :
    Emits env (do
      let base ← compileLoadVariable env id
      compilePartialRead base kind index) RegIn := by
  intro s r s' hs he
  obtain ⟨base, s1, h1, h2⟩ := bind_ok he
  obtain ⟨e1, q1⟩ := compileLoadVariable_emits id s base s1 hs h1
  obtain ⟨e2, q2⟩ := compilePartialRead_emits kind index (e1.ready hs) q1 h2
  exact ⟨e1.trans e2, q2⟩

section

variable [F64Ops]

/-! ## Expressions -/

theorem literalValue_ok {kind : LiteralKind} {s s' : FunctionCompiler} {v : Value}
    (h : literalValue kind s = .ok (v, s')) : literalToValue kind = .ok v ∧ s' = s := by
  unfold literalValue at h
  split at h
  · next hv =>
    simp only [Except.ok.injEq, Prod.mk.injEq] at h
    exact ⟨by rw [hv, h.1], h.2.symm⟩
  · cases h

theorem literalToValue_isRef {kind : LiteralKind} {v : Value} (h : literalToValue kind = .ok v) :
    v.isRef = false := by
  cases v with
  | ref tag slot => exact absurd rfl (literalToValue_ne_ref h tag slot)
  | _ => rfl

mutual

theorem compileExpression_emits (env : ModuleEnv) :
    ∀ e, Emits env (compileExpression env e) RegIn
  | .literal kind range => by
    intro s r s' hs he
    obtain ⟨v, s1, h1, h2⟩ := bind_ok he
    obtain ⟨hv, rfl⟩ := literalValue_ok h1
    exact emitConst_emits (literalToValue_isRef hv) _ _ _ hs h2
  | .var parts range => compileVariable_emits env parts range
  | .functionCall name arguments range =>
    compileCall_emits ⟨compileCallArgs_emits env 0 arguments,
      fun v i hv => compileCallArg_emits env v i hv arguments,
      compileTimeArgs_emits env arguments⟩ name.names _
  | .unary op operand range => by
    intro s r s' hs he
    obtain ⟨src, s1, h1, h2⟩ := bind_ok he
    obtain ⟨e1, q1⟩ := compileExpression_emits env operand s src s1 hs h1
    exact e1.emitTo (fits_dst (fun d => unaryInstruction_onlyRegs op d src)
      (by simpa using q1)) h2
  | .binary op left right range => by
    intro s r s' hs he
    obtain ⟨l, s1, h1, h2⟩ := bind_ok he
    obtain ⟨r', s2, h3, h4⟩ := bind_ok h2
    obtain ⟨e1, q1⟩ := compileExpression_emits env left s l s1 hs h1
    obtain ⟨e2, e12, q2⟩ := (compileExpression_emits env right).after hs e1 h3
    exact e2.emitTo (fits_dst (fun d => binaryInstruction_onlyRegs op d l r')
      (by simpa using ⟨e12.regIn q1, q2⟩)) h4
  | .parenthesized inner => compileExpression_emits env inner
  | .thisInstance range => emitConst_emits rfl
  | .superInstance range => emitConst_emits rfl

theorem compileVariable_emits (env : ModuleEnv) : ∀ (parts : List AccessPart) (range : TextRange),
    Emits env (compileExpression env (.var parts range)) RegIn
  | .identifier id :: .deref :: rest, range => deref_emits id.name
  | .identifier id :: .index (ix :: ixs) :: rest, range => by
    intro s r s' hs he
    have h1 := get_bind_ok he
    cases hl : s.findLocal id.name with
    | none =>
      simp only [hl] at h1
      exact compileRoot_emits id.name _ s r s' hs h1
    | some slot =>
      simp only [hl] at h1
      obtain ⟨idx, s1, h2, h3⟩ := bind_ok h1
      obtain ⟨e1, q1⟩ := compileExpression_emits env ix s idx s1 hs h2
      exact e1.emitTo (loadArray_fits (FunctionCompiler.findLocal_lt hl) e1 q1) h3
  | .identifier obj :: .identifier field :: .index (ix :: ixs) :: rest, range => by
    intro s r s' hs he
    have h1 := get_bind_ok he
    cases hl : s.fieldTarget env obj.name field.name with
    | none =>
      simp only [hl] at h1
      exact compileRoot_emits obj.name _ s r s' hs h1
    | some t =>
      simp only [hl] at h1
      obtain ⟨idx, s1, h2, h3⟩ := bind_ok h1
      obtain ⟨e1, q1⟩ := compileExpression_emits env ix s idx s1 hs h2
      exact e1.emitTo (loadFieldIndex_fits (FunctionCompiler.fieldTarget_lt hl) e1 q1) h3
  | .identifier obj :: .identifier field :: [], range => field_emits obj.name field _
  | .identifier obj :: .identifier field :: .identifier _ :: rest, range =>
    field_emits obj.name field _
  | .identifier obj :: .identifier field :: .index [] :: rest, range => field_emits obj.name field _
  | .identifier obj :: .identifier field :: .deref :: rest, range => field_emits obj.name field _
  | .identifier obj :: .identifier field :: .partialAccess _ _ :: rest, range =>
    field_emits obj.name field _
  | .identifier id :: .partialAccess kind index :: rest, range => partial_emits id.name kind index
  | .identifier id :: .index [] :: rest, range => compileRoot_emits id.name _
  | [.identifier id], range => compileRoot_emits id.name _
  | [], range => emitConst_emits rfl
  | .index _ :: rest, range => emitConst_emits rfl
  | .deref :: rest, range => emitConst_emits rfl
  | .partialAccess _ _ :: rest, range => emitConst_emits rfl

theorem compileArgument_emits (env : ModuleEnv) :
    ∀ a, Emits env (compileArgument env a) RegIn
  | .positional e => compileExpression_emits env e
  | .named _ e => compileExpression_emits env e

theorem compileCallArgs_emits (env : ModuleEnv) : ∀ (i : Nat) (as : List Argument),
    Emits env (compileCallArgs env i as) fun regs s => ∀ p ∈ regs, RegIn p.2 s
  | i, [] => by
    intro s r s' hs he
    obtain ⟨rfl, rfl⟩ := pure_ok he
    exact ⟨.refl hs, by simp⟩
  | i, a :: as => by
    intro s rs s' hs he
    obtain ⟨r1, s1, h1, h2⟩ := bind_ok he
    obtain ⟨rs2, s2, h3, h4⟩ := bind_ok h2
    obtain ⟨rfl, rfl⟩ := pure_ok h4
    obtain ⟨e1, q1⟩ := compileArgument_emits env a s r1 s1 hs h1
    obtain ⟨e2, e12, q2⟩ := (compileCallArgs_emits env (i + 1) as).after hs e1 h3
    refine ⟨e2, ?_⟩
    simp only [List.forall_mem_cons]
    exact ⟨e12.regIn q1, q2⟩

theorem compileCallArg_emits (env : ModuleEnv) : ∀ (v : Value) (i : Nat), v.isRef = false →
    ∀ as, Emits env (compileCallArg env v i as) RegIn
  | v, i, hv, [] => by
    have h : compileCallArg env v i [] = emitTo (.loadConst · v) := by
      cases i <;> rfl
    rw [h]
    exact emitConst_emits hv
  | v, 0, hv, a :: as => compileArgument_emits env a
  | v, i + 1, hv, a :: as => compileCallArg_emits env v i hv as

theorem compileTimeArgs_emits (env : ModuleEnv) : ∀ as,
    Emits env (compileTimeArgs env as) fun p s => RegIn p.1 s ∧ RegIn p.2 s
  | [] => by
    intro s r s' hs he
    obtain ⟨r1, s1, h1, h2⟩ := bind_ok he
    obtain ⟨r2, s2, h3, h4⟩ := bind_ok h2
    obtain ⟨_, s3, h5, h6⟩ := bind_ok h4
    obtain ⟨_, s4, h7, h8⟩ := bind_ok h6
    obtain ⟨rfl, rfl⟩ := pure_ok h8
    obtain ⟨e1, hd1, hn1, -, -⟩ := (Emitted.refl hs).allocReg h1
    obtain ⟨e2, hd2, hn2, -, -⟩ := e1.allocReg h3
    have q1 : r1.toNat < s2.nextReg.toNat := by omega
    have q2 : r2.toNat < s2.nextReg.toNat := by omega
    have e3 := e2.emit (loadConst_fits (v := .time 0) rfl q1) h5
    simp only [emit, Except.ok.injEq, Prod.mk.injEq] at h5
    obtain ⟨-, rfl⟩ := h5
    have e4 := e3.emit (loadConst_fits (v := .time 0) rfl q2) h7
    simp only [emit, Except.ok.injEq, Prod.mk.injEq] at h7
    obtain ⟨-, rfl⟩ := h7
    exact ⟨e4, q1, q2⟩
  | [a] => by
    intro s r s' hs he
    obtain ⟨r1, s1, h1, h2⟩ := bind_ok he
    obtain ⟨r2, s2, h3, h4⟩ := bind_ok h2
    obtain ⟨rfl, rfl⟩ := pure_ok h4
    obtain ⟨e1, q1⟩ := compileArgument_emits env a s r1 s1 hs h1
    obtain ⟨e2, e12, q2⟩ := (emitConst_emits (v := .time 0) rfl).after hs e1 h3
    exact ⟨e2, e12.regIn q1, q2⟩
  | a :: b :: as => by
    intro s r s' hs he
    obtain ⟨r1, s1, h1, h2⟩ := bind_ok he
    obtain ⟨r2, s2, h3, h4⟩ := bind_ok h2
    obtain ⟨rfl, rfl⟩ := pure_ok h4
    obtain ⟨e1, q1⟩ := compileArgument_emits env a s r1 s1 hs h1
    obtain ⟨e2, e12, q2⟩ := (compileArgument_emits env b).after hs e1 h3
    exact ⟨e2, e12.regIn q1, q2⟩

end

/-! ## Assignments -/

omit [F64Ops] in
/-- A store into a local slot. -/
theorem localStore_fits {b : Limits} {slot : UInt16} {val : Reg} (hs : slot.toNat < b.locals)
    (hv : val.toNat < b.regs) : (Instruction.storeLocal slot val).Fits b :=
  ⟨by simpa [Instruction.regs] using hv, by simp [Instruction.labels],
    by simpa [Instruction.localSlots] using hs, by simp [Instruction.globalSlots],
    by simp [Instruction.callees], by simp [Instruction.consts]⟩

omit [F64Ops] in
theorem globalStore_fits {b : Limits} {slot : UInt16} {val : Reg} (hs : slot.toNat < b.globals)
    (hv : val.toNat < b.regs) : (Instruction.storeGlobal slot val).Fits b :=
  ⟨by simpa [Instruction.regs] using hv, by simp [Instruction.labels],
    by simp [Instruction.localSlots], by simpa [Instruction.globalSlots] using hs,
    by simp [Instruction.callees], by simp [Instruction.consts]⟩

omit [F64Ops] in
theorem compileStoreRoot_emits (id : String) (range : TextRange) {s s' : FunctionCompiler}
    {val : Reg} {u : Unit} (hs : Ready env s) (hv : RegIn val s)
    (he : compileStoreRoot env id val range s = .ok (u, s')) : Emitted env s [] s' := by
  have h1 := get_bind_ok he
  cases hl : s.findLocal id with
  | some slot =>
    simp only [hl] at h1
    exact (Emitted.refl hs).emitSourced
      (localStore_fits (FunctionCompiler.findLocal_lt hl) hv) h1
  | none =>
    cases hg : env.findGlobal id with
    | some slot =>
      simp only [hl, hg] at h1
      exact (Emitted.refl hs).emitSourced (globalStore_fits (ModuleEnv.findGlobal_lt hg) hv) h1
    | none =>
      simp only [hl, hg] at h1
      obtain ⟨-, rfl⟩ := pure_ok h1
      exact .refl hs

omit [F64Ops] in
/-- `obj.field := val`, or a store into the root. -/
theorem storeField_emits (obj field : String) (range : TextRange) {s s' : FunctionCompiler}
    {val : Reg} {u : Unit} (hs : Ready env s) (hv : RegIn val s)
    (he : (do
      let s ← get
      match s.fieldTarget env obj field with
      | some (slot, fieldIdx, _) => emitSourced (.storeField slot fieldIdx val) range
      | none => compileStoreRoot env obj val range : CompileM Unit) s = .ok (u, s')) :
    Emitted env s [] s' := by
  have h1 := get_bind_ok he
  cases hl : s.fieldTarget env obj field with
  | none =>
    simp only [hl] at h1
    exact compileStoreRoot_emits obj range hs hv h1
  | some t =>
    simp only [hl] at h1
    refine (Emitted.refl hs).emitSourced ⟨by simpa [Instruction.regs] using hv,
      by simp [Instruction.labels],
      by simpa [Instruction.localSlots] using FunctionCompiler.fieldTarget_lt hl,
      by simp [Instruction.globalSlots], by simp [Instruction.callees],
      by simp [Instruction.consts]⟩ h1

theorem compileStore_emits : ∀ (target : List AccessPart) (range : TextRange)
    {s s' : FunctionCompiler} {val : Reg} {u : Unit}, Ready env s → RegIn val s →
    compileStore env target val range s = .ok (u, s') → Emitted env s [] s'
  | .identifier id :: .deref :: rest, range, s, s', val, u, hs, hv, he => by
    obtain ⟨ptr, s1, h1, h2⟩ := bind_ok he
    obtain ⟨e1, q1⟩ := compileLoadVariable_emits id.name s ptr s1 hs h1
    refine e1.emitSourced (Instruction.OnlyRegs.fits (l := [ptr, val])
      ⟨rfl, rfl, rfl, rfl, rfl, rfl⟩ ?_) h2
    simpa using ⟨q1, e1.regIn hv⟩
  | .identifier id :: .index (ix :: ixs) :: rest, range, s, s', val, u, hs, hv, he => by
    have h1 := get_bind_ok he
    cases hl : s.findLocal id.name with
    | none =>
      simp only [hl] at h1
      exact compileStoreRoot_emits id.name range hs hv h1
    | some slot =>
      simp only [hl] at h1
      obtain ⟨idx, s1, h2, h3⟩ := bind_ok h1
      obtain ⟨e1, q1⟩ := compileExpression_emits env ix s idx s1 hs h2
      have hslot := Nat.lt_of_lt_of_le (FunctionCompiler.findLocal_lt hl) e1.slots
      exact e1.emitSourced ⟨by simpa [Instruction.regs] using ⟨q1, e1.regIn hv⟩,
        by simp [Instruction.labels], by simpa [Instruction.localSlots] using hslot,
        by simp [Instruction.globalSlots], by simp [Instruction.callees],
        by simp [Instruction.consts]⟩ h3
  | .identifier obj :: .identifier field :: .index (ix :: ixs) :: rest, range, s, s', val, u, hs,
      hv, he => by
    have h1 := get_bind_ok he
    cases hl : s.fieldTarget env obj.name field.name with
    | none =>
      simp only [hl] at h1
      exact compileStoreRoot_emits obj.name range hs hv h1
    | some t =>
      simp only [hl] at h1
      obtain ⟨idx, s1, h2, h3⟩ := bind_ok h1
      obtain ⟨e1, q1⟩ := compileExpression_emits env ix s idx s1 hs h2
      have hslot := Nat.lt_of_lt_of_le (FunctionCompiler.fieldTarget_lt hl) e1.slots
      exact e1.emitSourced ⟨by simpa [Instruction.regs] using ⟨q1, e1.regIn hv⟩,
        by simp [Instruction.labels], by simpa [Instruction.localSlots] using hslot,
        by simp [Instruction.globalSlots], by simp [Instruction.callees],
        by simp [Instruction.consts]⟩ h3
  | .identifier obj :: .identifier field :: [], range, _, _, _, _, hs, hv, he =>
    storeField_emits obj.name field.name range hs hv he
  | .identifier obj :: .identifier field :: .identifier _ :: rest, range, _, _, _, _, hs, hv, he =>
    storeField_emits obj.name field.name range hs hv he
  | .identifier obj :: .identifier field :: .index [] :: rest, range, _, _, _, _, hs, hv, he =>
    storeField_emits obj.name field.name range hs hv he
  | .identifier obj :: .identifier field :: .deref :: rest, range, _, _, _, _, hs, hv, he =>
    storeField_emits obj.name field.name range hs hv he
  | .identifier obj :: .identifier field :: .partialAccess _ _ :: rest, range, _, _, _, _, hs, hv,
      he =>
    storeField_emits obj.name field.name range hs hv he
  | .identifier id :: .partialAccess kind index :: rest, range, s, s', val, u, hs, hv, he => by
    obtain ⟨base, s1, h1, h2⟩ := bind_ok he
    obtain ⟨dst, s2, h3, h4⟩ := bind_ok h2
    obtain ⟨e1, q1⟩ := compileLoadVariable_emits id.name s base s1 hs h1
    obtain ⟨e2, q2⟩ := e1.emitTo
      (fits_dst (fun d => insertInstruction_onlyRegs kind index.toUInt8 d base val)
        (by simpa using ⟨q1, e1.regIn hv⟩)) h3
    exact e2.trans (compileStoreRoot_emits id.name range (e2.ready hs) q2 h4)
  | .identifier id :: .index [] :: rest, range, _, _, _, _, hs, hv, he =>
    compileStoreRoot_emits id.name range hs hv he
  | [.identifier id], range, _, _, _, _, hs, hv, he => compileStoreRoot_emits id.name range hs hv he
  | [], range, _, _, _, _, hs, hv, he => by
    obtain ⟨-, rfl⟩ := pure_ok he
    exact .refl hs
  | .index _ :: rest, range, _, _, _, _, hs, hv, he => by
    obtain ⟨-, rfl⟩ := pure_ok he
    exact .refl hs
  | .deref :: rest, range, _, _, _, _, hs, hv, he => by
    obtain ⟨-, rfl⟩ := pure_ok he
    exact .refl hs
  | .partialAccess _ _ :: rest, range, _, _, _, _, hs, hv, he => by
    obtain ⟨-, rfl⟩ := pure_ok he
    exact .refl hs

/-! ## Statements -/

omit [F64Ops] in
theorem jump_fits {b : Limits} {l : Label} (h : l.toNat < b.labels) :
    (Instruction.jump l).Fits b :=
  ⟨by simp [Instruction.regs], by simpa [Instruction.labels] using h,
    by simp [Instruction.localSlots], by simp [Instruction.globalSlots],
    by simp [Instruction.callees], by simp [Instruction.consts]⟩

omit [F64Ops] in
theorem jumpIf_fits {b : Limits} {r : Reg} {l : Label} (hr : r.toNat < b.regs)
    (h : l.toNat < b.labels) : (Instruction.jumpIf r l).Fits b :=
  ⟨by simpa [Instruction.regs] using hr, by simpa [Instruction.labels] using h,
    by simp [Instruction.localSlots], by simp [Instruction.globalSlots],
    by simp [Instruction.callees], by simp [Instruction.consts]⟩

omit [F64Ops] in
theorem jumpIfNot_fits {b : Limits} {r : Reg} {l : Label} (hr : r.toNat < b.regs)
    (h : l.toNat < b.labels) : (Instruction.jumpIfNot r l).Fits b :=
  ⟨by simpa [Instruction.regs] using hr, by simpa [Instruction.labels] using h,
    by simp [Instruction.localSlots], by simp [Instruction.globalSlots],
    by simp [Instruction.callees], by simp [Instruction.consts]⟩

omit [F64Ops] in
/-- Emitting does not touch the counters. -/
theorem emit_limits {instr : Instruction} {s s' : FunctionCompiler} {u : Unit}
    (h : emit instr s = .ok (u, s')) : s'.limits env = s.limits env := by
  simp only [emit, Except.ok.injEq, Prod.mk.injEq] at h
  obtain ⟨-, rfl⟩ := h
  rfl

theorem compileSelector_emits (sel : CaseSelector) {s s' : FunctionCompiler} {expr : Reg}
    {body : Label} {u : Unit} (hs : Ready env s) (hx : RegIn expr s)
    (hb : body.toNat < s.nextLabel.toNat)
    (he : compileSelector env expr body sel s = .ok (u, s')) : Emitted env s [] s' := by
  cases sel with
  | single e =>
    obtain ⟨val, s1, h1, h2⟩ := bind_ok he
    obtain ⟨cmp, s2, h3, h4⟩ := bind_ok h2
    obtain ⟨e1, q1⟩ := compileExpression_emits env e s val s1 hs h1
    obtain ⟨e2, q2⟩ := e1.emitTo (g := (.cmpEq · expr val)) (fits_dst (l := [expr, val])
      (fun d => ⟨rfl, rfl, rfl, rfl, rfl, rfl⟩) (by simpa using ⟨e1.regIn hx, q1⟩)) h3
    exact e2.emit (jumpIf_fits q2 (Nat.lt_of_lt_of_le hb e2.labels)) h4
  | range lo hi =>
    obtain ⟨lr, s1, h1, h2⟩ := bind_ok he
    obtain ⟨hr, s2, h3, h4⟩ := bind_ok h2
    obtain ⟨c1, s3, h5, h6⟩ := bind_ok h4
    obtain ⟨c2, s4, h7, h8⟩ := bind_ok h6
    obtain ⟨both, s5, h9, h10⟩ := bind_ok h8
    obtain ⟨_, s6, h11, h12⟩ := bind_ok h10
    obtain ⟨_, s7, h13, h14⟩ := bind_ok h12
    obtain ⟨_, s8, h15, h16⟩ := bind_ok h14
    obtain ⟨e1, q1⟩ := compileExpression_emits env lo s lr s1 hs h1
    obtain ⟨e2, e12, q2⟩ := (compileExpression_emits env hi).after hs e1 h3
    obtain ⟨e3, d3, n3, l3, -⟩ := e2.allocReg h5
    obtain ⟨e4, d4, n4, l4, -⟩ := e3.allocReg h7
    obtain ⟨e5, d5, n5, l5, -⟩ := e4.allocReg h9
    have b1 : RegIn c1 s5 := by simp only [RegIn]; omega
    have b2 : RegIn c2 s5 := by simp only [RegIn]; omega
    have b3 : RegIn both s5 := by simp only [RegIn]; omega
    have bl : RegIn lr s5 := by
      have := e12.regIn q1
      simp only [RegIn] at this ⊢
      omega
    have bh : RegIn hr s5 := by simp only [RegIn] at q2 ⊢; omega
    have bx : RegIn expr s5 := e5.regIn hx
    have e6 := e5.emit (Instruction.OnlyRegs.fits (l := [c1, expr, lr])
      ⟨rfl, rfl, rfl, rfl, rfl, rfl⟩ (by simpa using ⟨b1, bx, bl⟩)) h11
    have e7 := e6.emit (Instruction.OnlyRegs.fits (l := [c2, expr, hr])
      ⟨rfl, rfl, rfl, rfl, rfl, rfl⟩
      (by simpa only [emit_limits h11] using by simpa using ⟨b2, bx, bh⟩)) h13
    have e8 := e7.emit (Instruction.OnlyRegs.fits (l := [both, c1, c2])
      ⟨rfl, rfl, rfl, rfl, rfl, rfl⟩
      (by simpa only [emit_limits h13, emit_limits h11] using by simpa using ⟨b3, b1, b2⟩)) h15
    refine e8.emit ?_ h16
    rw [emit_limits h15, emit_limits h13, emit_limits h11]
    exact jumpIf_fits b3 (Nat.lt_of_lt_of_le hb e5.labels)

theorem compileSelectors_emits : ∀ (sels : List CaseSelector) {s s' : FunctionCompiler}
    {expr : Reg} {body : Label} {u : Unit}, Ready env s → RegIn expr s →
    body.toNat < s.nextLabel.toNat → compileSelectors env expr body sels s = .ok (u, s') →
    Emitted env s [] s'
  | [], s, s', expr, body, u, hs, hx, hb, he => by
    obtain ⟨-, rfl⟩ := pure_ok he
    exact .refl hs
  | sel :: sels, s, s', expr, body, u, hs, hx, hb, he => by
    obtain ⟨_, s1, h1, h2⟩ := bind_ok he
    have e1 := compileSelector_emits sel hs hx hb h1
    exact e1.trans (compileSelectors_emits sels (e1.ready hs) (e1.regIn hx)
      (Nat.lt_of_lt_of_le hb e1.labels) h2)

theorem compileStep_emits (by_ : Option Expression) : Emits env (compileStep env by_) RegIn := by
  cases by_ with
  | none => exact emitConst_emits rfl
  | some e => exact compileExpression_emits env e

omit [F64Ops] in
theorem storeLoopVar_emits (name : String) {s s' : FunctionCompiler} {val : Reg} {u : Unit}
    (hs : Ready env s) (hv : RegIn val s) (he : storeLoopVar name val s = .ok (u, s')) :
    Emitted env s [] s' := by
  have h1 := get_bind_ok he
  cases hl : s.findLocal name with
  | some slot =>
    simp only [hl] at h1
    exact (Emitted.refl hs).emit (localStore_fits (FunctionCompiler.findLocal_lt hl) hv) h1
  | none =>
    simp only [hl] at h1
    obtain ⟨-, rfl⟩ := pure_ok h1
    exact .refl hs

end

end

end RustPlc.Compiler
