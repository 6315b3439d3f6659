import RustPlc.L2Compiler.StatementEmitted

/-!
# Compiled modules are well formed

Pass 1 registers empty functions and records, for each global initialiser, a
slot that exists. Pass 2 replaces functions in place, so the callee indices
fixed in pass 1 stay in range, and pass 3 only appends.

Result:
* `compile_module_wellFormed`: whatever `compile` returns is a well-formed module.
-/
namespace RustPlc.Compiler

open RustPlc.Ir RustPlc.Syntax

section

variable [F64Ops] {env : ModuleEnv}

/-! ## Bodies -/

omit [F64Ops] in
theorem ready_new (typeDefs : List TypeDef) : Ready env (.new typeDefs) :=
  ⟨rfl, by simp [FunctionCompiler.new], .inl rfl⟩

omit [F64Ops] in
theorem retVoid_fits (b : Limits) : Instruction.retVoid.Fits b :=
  Instruction.OnlyRegs.fits (l := []) ⟨rfl, rfl, rfl, rfl, rfl, rfl⟩ (by simp)

omit [F64Ops] in
theorem currentPc_bind_ok {α : Type} {f : Nat → CompileM α} {s : FunctionCompiler}
    {r : α × FunctionCompiler} (h : (currentPc >>= f) s = .ok r) :
    f s.instructions.length s = .ok r := h

omit [F64Ops] in
theorem emitReturn_emitted {s s' : FunctionCompiler} {slot : UInt16} {u : Unit} (hs : Ready env s)
    (hslot : slot.toNat < s.locals.slots.length) (he : emitReturn slot s = .ok (u, s')) :
    Emitted env s [] s' := by
  obtain ⟨r, s1, h1, h2⟩ := bind_ok he
  obtain ⟨e1, q1⟩ := emitTo_emits hs (g := (.loadLocal · slot)) (by
    intro dst b hb hd
    have h := Nat.lt_of_lt_of_le hslot hb.locals
    exact ⟨by simpa [Instruction.regs] using hd, by simp [Instruction.labels],
      by simpa [Instruction.localSlots] using h, by simp [Instruction.globalSlots],
      by simp [Instruction.callees], by simp [Instruction.consts]⟩) h1
  exact e1.emit (Instruction.OnlyRegs.fits (l := [r]) ⟨rfl, rfl, rfl, rfl, rfl, rfl⟩
    (by simpa using q1)) h2

/-- The part of a body after its declarations, ending without a result. -/
theorem bodyVoid_emits (body : List Statement) :
    Emits env (do
      let start ← currentPc
      compileStatements env body
      emit .retVoid
      return start) fun _ _ => True := by
  intro s start s' hs he
  obtain ⟨_, s1, h1, h2⟩ := bind_ok (currentPc_bind_ok he)
  obtain ⟨_, s2, h3, h4⟩ := bind_ok h2
  obtain ⟨-, rfl⟩ := pure_ok h4
  obtain ⟨e1, -⟩ := compileStatements_emits env body s _ s1 hs h1
  exact ⟨e1.emit (retVoid_fits _) h3, trivial⟩

/-- The part of a body after its declarations, with a result variable. -/
theorem bodyResult_emits (hf : env.functions ≠ []) (name : String) (ty : DataType)
    (body : List Statement) :
    Emits env (do
      let slot ← addLocal name (varTypeFromAst ty) (intWidthFromAst ty) false false
      let start ← currentPc
      compileStatements env body
      emitReturn slot
      return start) fun _ _ => True := by
  intro s start s' hs he
  obtain ⟨slot, s1, h1, h2⟩ := bind_ok he
  obtain ⟨_, s2, h3, h4⟩ := bind_ok (currentPc_bind_ok h2)
  obtain ⟨_, s3, h5, h6⟩ := bind_ok h4
  obtain ⟨-, rfl⟩ := pure_ok h6
  obtain ⟨e1, -, q1⟩ := (addLocal_emits hf name _ _ false false).after hs (.refl hs) h1
  obtain ⟨e2, e12, -⟩ := (compileStatements_emits env body).after hs e1 h3
  have e3 := emitReturn_emitted (e2.ready hs) (Nat.lt_of_lt_of_le q1 e12.slots) h5
  exact ⟨e2.trans e3, trivial⟩

theorem pouBody_emits (hf : env.functions ≠ []) (varBlocks : List VarBlock)
    (body : List Statement) : Emits env (pouBody env varBlocks body) fun _ _ => True := by
  intro s start s' hs he
  obtain ⟨_, s1, h1, h2⟩ := bind_ok he
  obtain ⟨e1, -⟩ := compileVarBlocksInner_emits hf true varBlocks s _ s1 hs h1
  obtain ⟨e2, -, -⟩ := (bodyVoid_emits body).after hs e1 h2
  exact ⟨e2, trivial⟩

theorem functionBody_emits (hf : env.functions ≠ []) (f : FunctionDecl) :
    Emits env (functionBody env f) fun _ _ => True := by
  intro s start s' hs he
  obtain ⟨_, s1, h1, h2⟩ := bind_ok he
  obtain ⟨e1, -⟩ := compileVarBlocksInner_emits hf true f.varBlocks s _ s1 hs h1
  obtain ⟨e2, -, -⟩ := (bodyResult_emits hf f.name.name f.returnType f.body).after hs e1 h2
  exact ⟨e2, trivial⟩

theorem classBody_emits (hf : env.functions ≠ []) (inherited own : List VarBlock) :
    Emits env (classBody env inherited own) fun _ _ => True := by
  intro s start s' hs he
  obtain ⟨_, s1, h1, h2⟩ := bind_ok he
  obtain ⟨_, s2, h3, h4⟩ := bind_ok h2
  obtain ⟨_, s3, h5, h6⟩ := bind_ok (currentPc_bind_ok h4)
  obtain ⟨-, rfl⟩ := pure_ok h6
  obtain ⟨e1, -⟩ := compileVarBlocksInner_emits hf true inherited s _ s1 hs h1
  obtain ⟨e2, -, -⟩ := (compileVarBlocksInner_emits hf true own).after hs e1 h3
  exact ⟨e2.emit (retVoid_fits _) h5, trivial⟩

theorem methodBody_emits (hf : env.functions ≠ []) (inherited own : List VarBlock)
    (m : MethodDecl) : Emits env (methodBody env inherited own m) fun _ _ => True := by
  intro s start s' hs he
  obtain ⟨_, s1, h1, h2⟩ := bind_ok he
  obtain ⟨_, s2, h3, h4⟩ := bind_ok h2
  obtain ⟨_, s3, h5, h6⟩ := bind_ok h4
  obtain ⟨e1, -⟩ := compileVarBlocksInner_emits hf false inherited s _ s1 hs h1
  obtain ⟨e2, -, -⟩ := (compileVarBlocksInner_emits hf false own).after hs e1 h3
  obtain ⟨e3, -, -⟩ := (compileVarBlocksInner_emits hf true m.varBlocks).after hs e2 h5
  cases hr : m.returnType with
  | some ty =>
    simp only [hr] at h6
    obtain ⟨e4, -, -⟩ := (bodyResult_emits hf m.name.name ty m.body).after hs e3 h6
    exact ⟨e4, trivial⟩
  | none =>
    simp only [hr] at h6
    obtain ⟨e4, -, -⟩ := (bodyVoid_emits m.body).after hs e3 h6
    exact ⟨e4, trivial⟩

theorem compileInits_emits : ∀ (inits : List (UInt16 × Expression)),
    (∀ p ∈ inits, p.1.toNat < env.globals.slots.length) → EmitsCode env (compileInits env inits)
  | [], _ => by
    intro s u s' hs he
    obtain ⟨-, rfl⟩ := pure_ok he
    exact ⟨.refl hs, trivial⟩
  | (slot, e) :: inits, hp => by
    intro s u s' hs he
    obtain ⟨_, s1, h1, h2⟩ := bind_ok he
    obtain ⟨r, s2, h3, h4⟩ := bind_ok h2
    obtain ⟨_, s3, h5, h6⟩ := bind_ok h4
    have e1 := (Emitted.refl hs).setSource h1
    obtain ⟨e2, -, q2⟩ := (compileExpression_emits env e).after hs e1 h3
    have e3 := e2.emit (globalStore_fits (hp _ (List.mem_cons_self ..)) q2) h5
    obtain ⟨e4, -, -⟩ := (compileInits_emits inits
      (fun p hm => hp p (List.mem_cons_of_mem _ hm))).after hs e3 h6
    exact ⟨e4, trivial⟩

/-! ## Functions -/

/-- The module a `ModuleCompiler` stands for. -/
def ModuleCompiler.toModule (mc : ModuleCompiler) : Module :=
  ⟨mc.functions, mc.globals, mc.typeDefs, []⟩

omit [F64Ops] in
/-- Code emitted from the start gives a well-formed function. -/
theorem finish_wellFormed {m : Module} {typeDefs : List TypeDef} {s : FunctionCompiler}
    (h : Emitted env (.new typeDefs) [] s) (hg : env.globals.slots.length = m.globals.slots.length)
    (hn : env.functions.length ≤ m.functions.length) (name : String) (kind : PouKind)
    (start : Nat) : (s.finish name kind start).WellFormed m where
  fits := by
    obtain ⟨new, hc, hf⟩ := h.code
    have hc' : s.instructions = new := by simpa [FunctionCompiler.new] using hc
    intro i hi
    refine (hf i (hc' ▸ hi)).mono ⟨Nat.le_refl _, ?_, Nat.le_refl _, ?_, ?_⟩
    · exact Nat.le_of_eq h.positions.symm
    · exact Nat.le_of_eq hg
    · exact hn
  placed := by
    intro p hp
    obtain ⟨l, hl, hget⟩ := List.mem_iff_getElem.mp hp
    have hlt : l < s.nextLabel.toNat := h.positions ▸ hl
    obtain ⟨q, hq, hle⟩ := h.placed l (Nat.zero_le _) hlt (by simp)
    have hpq : s.labelPositions[l]? = some p :=
      List.getElem?_eq_some_iff.mpr ⟨hl, hget⟩
    rw [hpq] at hq
    obtain rfl := Option.some.inj hq
    exact hle

omit [F64Ops] in
theorem stub_wellFormed (m : Module) (name : String) (kind : PouKind) :
    (stub name kind).WellFormed m := ⟨by simp [stub], by simp [stub]⟩

omit [F64Ops] in
/-- Well-formedness depends on the sizes of the module only. -/
theorem wellFormed_mono {m m' : Module} {f : Function} (h : f.WellFormed m)
    (hg : m.globals.slots.length = m'.globals.slots.length)
    (hn : m.functions.length ≤ m'.functions.length) : f.WellFormed m' where
  fits := fun i hi => (h.fits i hi).mono
    ⟨Nat.le_refl _, Nat.le_refl _, Nat.le_refl _, Nat.le_of_eq hg, hn⟩
  placed := h.placed

/-! ## Passes -/

/-- What the passes keep: the functions so far are well formed, and the
pending initialisers write slots that exist. -/
structure ModuleCompiler.Sound (mc : ModuleCompiler) : Prop where
  functions : mc.toModule.WellFormed
  pending : ∀ p ∈ mc.pendingGlobalInits, p.1.toNat < mc.globals.slots.length

/-- After pass 1 no function has code. -/
structure ModuleCompiler.Registered (mc : ModuleCompiler) : Prop where
  functions : ∀ f ∈ mc.functions, ∃ name kind, f = stub name kind
  pending : ∀ p ∈ mc.pendingGlobalInits, p.1.toNat < mc.globals.slots.length

omit [F64Ops] in
theorem ModuleCompiler.Registered.sound {mc : ModuleCompiler} (h : mc.Registered) : mc.Sound where
  functions := by
    intro f hf
    obtain ⟨name, kind, rfl⟩ := h.functions f hf
    exact stub_wellFormed _ _ _
  pending := h.pending

omit [F64Ops] in
theorem registerGlobal_registered (retain persistent : Bool) (decl : VarDeclaration)
    {mc : ModuleCompiler} (h : mc.Registered) (name : String) :
    (registerGlobal retain persistent decl mc name).Registered where
  functions := h.functions
  pending := by
    intro p hp
    simp only [registerGlobal] at hp ⊢
    have hold : ∀ q ∈ mc.pendingGlobalInits, q.1.toNat < mc.globals.slots.length + 1 :=
      fun q hq => Nat.lt_succ_of_lt (h.pending q hq)
    have hnew : mc.globals.slots.length.toUInt16.toNat < mc.globals.slots.length + 1 :=
      toUInt16_lt_of_lt (Nat.lt_succ_self _)
    cases hi : decl.initialValue with
    | none =>
      simp only [hi] at hp
      simpa using hold p hp
    | some e =>
      simp only [hi] at hp
      rcases List.mem_append.mp hp with hp | hp
      · simpa using hold p hp
      · obtain rfl := List.mem_singleton.mp hp
        simpa using hnew

omit [F64Ops] in
/-- A fold keeps what each of its steps keeps. -/
theorem foldl_inv {α β : Type} {P : β → Prop} {f : β → α → β} (hf : ∀ b a, P b → P (f b a)) :
    ∀ (xs : List α) (b : β), P b → P (xs.foldl f b)
  | [], _, h => h
  | x :: xs, b, h => foldl_inv hf xs (f b x) (hf b x h)

omit [F64Ops] in
theorem registerItem_registered {mc : ModuleCompiler} (h : mc.Registered) (item : TopLevelItem) :
    (registerItem mc item).Registered := by
  have hpush : ∀ name kind, ∀ f ∈ mc.functions ++ [stub name kind],
      ∃ name kind, f = stub name kind := by
    intro name kind f hf
    rcases List.mem_append.mp hf with hf | hf
    · exact h.functions f hf
    · exact ⟨name, kind, List.mem_singleton.mp hf⟩
  cases item with
  | program p => exact ⟨hpush _ _, h.pending⟩
  | function f => exact ⟨hpush _ _, h.pending⟩
  | functionBlock fb => exact ⟨hpush _ _, h.pending⟩
  | interface => exact h
  | typeDeclaration defs => exact ⟨h.functions, h.pending⟩
  | globalVarDeclaration vb =>
    refine foldl_inv (P := ModuleCompiler.Registered) ?_ vb.declarations mc h
    intro mc decl hmc
    refine foldl_inv (P := ModuleCompiler.Registered) ?_ (decl.names.map (·.name)) mc hmc
    intro mc name hmc
    exact registerGlobal_registered _ _ decl hmc name
  | classDecl cls =>
    refine ⟨?_, h.pending⟩
    intro f hf
    rcases List.mem_append.mp hf with hf | hf
    · exact h.functions f hf
    · rcases List.mem_cons.mp hf with rfl | hf
      · exact ⟨_, _, rfl⟩
      · obtain ⟨m, -, rfl⟩ := List.mem_map.mp hf
        exact ⟨_, _, rfl⟩

omit [F64Ops] in
theorem compilePou_sound {mc mc' : ModuleCompiler} (h : mc.Sound) {name : String} {kind : PouKind}
    {body : CompileM Nat} (hb : mc.functions ≠ [] → Emits mc.env body fun _ _ => True)
    (hc : compilePou mc name kind body = .ok mc') :
    mc'.Sound ∧ mc'.functions.length = mc.functions.length ∧ mc'.globals = mc.globals := by
  unfold compilePou at hc
  split at hc
  · cases hc
  next i g hpos =>
    have hne : mc.functions ≠ [] := by
      rintro hnil
      have := findIdx_lt hpos
      simp [ModuleCompiler.env, hnil] at this
    cases hrun : body (.new mc.typeDefs) with
    | error e =>
      rw [hrun] at hc
      cases hc
    | ok r =>
      obtain ⟨start, s⟩ := r
      rw [hrun] at hc
      simp only [Bind.bind, Except.bind, Pure.pure, Except.pure, Except.ok.injEq] at hc
      subst hc
      obtain ⟨e, -⟩ := hb hne _ _ _ (ready_new _) hrun
      refine ⟨⟨?_, h.pending⟩, by simp, rfl⟩
      intro f hf
      rcases List.mem_or_eq_of_mem_set hf with hf | rfl
      · exact wellFormed_mono (h.functions f hf) rfl (by simp [ModuleCompiler.toModule])
      · exact finish_wellFormed e rfl (by simp [ModuleCompiler.toModule, ModuleCompiler.env]) _ _ _

theorem compileMethods_sound (cls : ClassDecl) (inherited : List VarBlock) :
    ∀ (ms : List MethodDecl) {mc mc' : ModuleCompiler}, mc.Sound →
      compileMethods cls inherited ms mc = .ok mc' → mc'.Sound
  | [], mc, mc', h, hc => by
    simp only [compileMethods, Except.ok.injEq] at hc
    exact hc ▸ h
  | m :: ms, mc, mc', h, hc => by
    unfold compileMethods at hc
    split at hc
    · exact compileMethods_sound cls inherited ms h hc
    · cases hp : compilePou mc (methodName cls m) .method
          (methodBody mc.env inherited cls.varBlocks m) with
      | error e =>
        rw [hp] at hc
        cases hc
      | ok mc1 =>
        rw [hp] at hc
        obtain ⟨h1, -, -⟩ := compilePou_sound h
          (fun hne => methodBody_emits hne inherited cls.varBlocks m) hp
        exact compileMethods_sound cls inherited ms h1 hc

theorem compileItem_sound {mc mc' : ModuleCompiler} (h : mc.Sound) {item : TopLevelItem}
    (hc : compileItem mc item = .ok mc') : mc'.Sound := by
  cases item with
  | program p =>
    exact (compilePou_sound h
      (fun hne => pouBody_emits hne p.varBlocks p.body) hc).1
  | function f =>
    exact (compilePou_sound h (fun hne => functionBody_emits hne f) hc).1
  | functionBlock fb =>
    exact (compilePou_sound h
      (fun hne => pouBody_emits hne fb.varBlocks fb.body) hc).1
  | classDecl cls =>
    simp only [compileItem] at hc
    cases hi : collectInheritedVarBlocks mc cls.name.name with
    | error e =>
      rw [hi] at hc
      cases hc
    | ok inherited =>
      rw [hi] at hc
      simp only [Bind.bind, Except.bind] at hc
      cases hp : compilePou mc cls.name.name .cls (classBody mc.env inherited cls.varBlocks) with
      | error e =>
        rw [hp] at hc
        cases hc
      | ok mc1 =>
        rw [hp] at hc
        obtain ⟨h1, -, -⟩ := compilePou_sound h
          (fun hne => classBody_emits hne inherited cls.varBlocks) hp
        exact compileMethods_sound cls inherited cls.methods h1 hc
  | interface | typeDeclaration defs | globalVarDeclaration vb =>
    simp only [compileItem, Except.ok.injEq] at hc
    exact hc ▸ h

theorem compileItems_sound : ∀ (items : List TopLevelItem) {mc mc' : ModuleCompiler}, mc.Sound →
    compileItems mc items = .ok mc' → mc'.Sound
  | [], mc, mc', h, hc => by
    simp only [compileItems, Except.ok.injEq] at hc
    exact hc ▸ h
  | item :: items, mc, mc', h, hc => by
    unfold compileItems at hc
    cases hi : compileItem mc item with
    | error e =>
      rw [hi] at hc
      cases hc
    | ok mc1 =>
      rw [hi] at hc
      exact compileItems_sound items (compileItem_sound h hi) hc

theorem compileGlobalInit_sound {mc mc' : ModuleCompiler} (h : mc.Sound)
    (hc : compileGlobalInit mc = .ok mc') : mc'.Sound := by
  unfold compileGlobalInit at hc
  split at hc
  · simp only [Except.ok.injEq] at hc
    exact hc ▸ h
  · cases hrun : globalInitBody mc.env mc.pendingGlobalInits (.new mc.typeDefs) with
    | error e =>
      rw [hrun] at hc
      cases hc
    | ok r =>
      obtain ⟨u, s⟩ := r
      rw [hrun] at hc
      simp only [Bind.bind, Except.bind, Pure.pure, Except.pure, Except.ok.injEq] at hc
      subst hc
      obtain ⟨_, s1, h1, h2⟩ := bind_ok hrun
      have hs : Ready mc.env (.new mc.typeDefs) := ready_new mc.typeDefs
      obtain ⟨e1, -⟩ := compileInits_emits _ h.pending _ _ _ hs h1
      have e2 := e1.emit (retVoid_fits _) h2
      refine ⟨?_, by simp⟩
      intro f hf
      rcases List.mem_append.mp hf with hf | hf
      · exact wellFormed_mono (h.functions f hf) rfl (by simp [ModuleCompiler.toModule])
      · obtain rfl := List.mem_singleton.mp hf
        exact finish_wellFormed e2 rfl (by simp [ModuleCompiler.toModule, ModuleCompiler.env]) _ _ _

/-- The stages of a compilation that succeeds. -/
theorem compile_stages {source : SourceFile} {m : Module} (h : compile source = .ok m) :
    ∃ others programs mc,
      compileItems (source.items.foldl registerItem .empty)
        (source.items.filter (!isProgram ·)) = .ok others ∧
      compileItems others (source.items.filter isProgram) = .ok programs ∧
      compileGlobalInit programs = .ok mc ∧ m = mc.toModule := by
  unfold compile at h
  simp only [Bind.bind, Except.bind, Pure.pure, Except.pure] at h
  split at h
  · cases h
  next others h1 =>
    split at h
    · cases h
    next programs h2 =>
      split at h
      · cases h
      next mc h3 =>
        simp only [Except.ok.injEq] at h
        exact ⟨others, programs, mc, h1, h2, h3, h.symm⟩

omit [F64Ops] in
theorem registered_sound (source : SourceFile) :
    (source.items.foldl registerItem ModuleCompiler.empty).Sound := by
  refine (foldl_inv (P := ModuleCompiler.Registered)
    (fun mc item h => registerItem_registered h item) source.items _ ?_).sound
  exact ⟨by simp [ModuleCompiler.empty], by simp [ModuleCompiler.empty]⟩

/-- **Bytecode well-formedness.** Every operand of every instruction that
`compile` emits is inside the table it indexes, and every label is placed. -/
theorem compile_module_wellFormed {source : SourceFile} {m : Module}
    (h : compile source = .ok m) : m.WellFormed := by
  obtain ⟨others, programs, mc, h1, h2, h3, rfl⟩ := compile_stages h
  have s1 := compileItems_sound _ (registered_sound source) h1
  have s2 := compileItems_sound _ s1 h2
  exact (compileGlobalInit_sound s2 h3).functions

end

end RustPlc.Compiler
