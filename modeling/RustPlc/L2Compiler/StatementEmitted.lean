import RustPlc.L2Compiler.WalkEmitted

/-!
# Statements and declarations emit well-formed code

The statement walk opens labels and closes each of them before it returns.
The variable blocks add slots and the code of the initialisers.

Results:
* `compileStatements_emits`: a statement list leaves no label open;
* `compileVarBlocksInner_emits`: so do declarations, which only add slots.
-/
namespace RustPlc.Compiler

open RustPlc.Ir RustPlc.Syntax

section

variable {env : ModuleEnv} {s s' : FunctionCompiler} {u : Unit}

theorem emit_labels {instr : Instruction} (h : emit instr s = .ok (u, s')) :
    s'.nextLabel.toNat = s.nextLabel.toNat := by
  simp only [emit, Except.ok.injEq, Prod.mk.injEq] at h
  obtain ⟨-, rfl⟩ := h
  rfl

theorem emit_regs {instr : Instruction} (h : emit instr s = .ok (u, s')) :
    s'.nextReg = s.nextReg := by
  simp only [emit, Except.ok.injEq, Prod.mk.injEq] at h
  obtain ⟨-, rfl⟩ := h
  rfl

theorem setSource_labels {range : TextRange} (h : setSource range s = .ok (u, s')) :
    s'.nextLabel.toNat = s.nextLabel.toNat := by
  simp only [setSource, Except.ok.injEq, Prod.mk.injEq] at h
  obtain ⟨-, rfl⟩ := h
  rfl

theorem placeLabel_labels {l : Label} (h : placeLabel l s = .ok (u, s')) :
    s'.nextLabel.toNat = s.nextLabel.toNat := by
  simp only [placeLabel, Except.ok.injEq, Prod.mk.injEq] at h
  obtain ⟨-, rfl⟩ := h
  rfl

theorem loop_labels {l : Label} {s1 s2 s3 : FunctionCompiler} {v : Unit}
    (hpush : pushLoopExit l s = .ok (u, s1)) (hpop : popLoopExit s2 = .ok (v, s3)) :
    s1.nextLabel.toNat = s.nextLabel.toNat ∧ s3.nextLabel.toNat = s2.nextLabel.toNat := by
  simp only [pushLoopExit, popLoopExit, Except.ok.injEq, Prod.mk.injEq] at hpush hpop
  obtain ⟨-, rfl⟩ := hpush
  obtain ⟨-, rfl⟩ := hpop
  exact ⟨rfl, rfl⟩

end

section

variable [F64Ops]

/-- Emits code and nothing is said about the result. -/
abbrev EmitsCode (env : ModuleEnv) (x : CompileM Unit) : Prop := Emits env x fun _ _ => True

mutual

theorem compileStatement_emits (env : ModuleEnv) :
    ∀ stmt, EmitsCode env (compileStatement env stmt)
  | .assignment target value range => by
    intro s u s' hs he
    obtain ⟨_, s1, h1, h2⟩ := bind_ok he
    obtain ⟨val, s2, h3, h4⟩ := bind_ok h2
    have e1 := (Emitted.refl hs).setSource h1
    obtain ⟨e2, -, q⟩ := (compileExpression_emits env value).after hs e1 h3
    exact ⟨e2.trans (compileStore_emits target.parts range (e2.ready hs) q h4), trivial⟩
  | .functionCall name arguments range => by
    intro s u s' hs he
    obtain ⟨_, s1, h1, h2⟩ := bind_ok he
    obtain ⟨r, s2, h3, h4⟩ := bind_ok h2
    obtain ⟨-, rfl⟩ := pure_ok h4
    have e1 := (Emitted.refl hs).setSource h1
    obtain ⟨e2, -, -⟩ :=
      (compileExpression_emits env (.functionCall name arguments range)).after hs e1 h3
    exact ⟨e2, trivial⟩
  | .ifStmt condition thenBody elsifs elseBody range => by
    intro s u s' hs he
    obtain ⟨_, s1, h1, h⟩ := bind_ok he
    obtain ⟨endLabel, s2, h2, h⟩ := bind_ok h
    obtain ⟨elseLabel, s3, h3, h⟩ := bind_ok h
    obtain ⟨cond, s4, h4, h⟩ := bind_ok h
    obtain ⟨_, s5, h5, h⟩ := bind_ok h
    obtain ⟨_, s6, h6, h⟩ := bind_ok h
    obtain ⟨_, s7, h7, h⟩ := bind_ok h
    obtain ⟨_, s8, h8, h⟩ := bind_ok h
    obtain ⟨_, s9, h9, h⟩ := bind_ok h
    obtain ⟨_, s10, h10, h11⟩ := bind_ok h
    have l1 := setSource_labels h1
    have e1 := (Emitted.refl hs).setSource h1
    obtain ⟨e2, a2, n2, -, -⟩ := e1.allocLabel h2
    obtain ⟨e3, a3, n3, -, -⟩ := e2.allocLabel h3
    obtain ⟨e4, e34, q4⟩ := (compileExpression_emits env condition).after hs e3 h4
    have l4 := e34.labels
    have e5 := e4.emit (jumpIfNot_fits q4 (by simp only [FunctionCompiler.limits_labels]; omega)) h5
    have l5 := emit_labels h5
    obtain ⟨e6, e56, -⟩ := (compileStatements_emits env thenBody).after hs e5 h6
    have l6 := e56.labels
    have e7 := e6.emit (jump_fits (l := endLabel)
      (by simp only [FunctionCompiler.limits_labels]; omega)) h7
    have l7 := emit_labels h7
    obtain ⟨e8, -, -, -⟩ := e7.placeLabel (by omega) (by omega) h8
    have l8 := placeLabel_labels h8
    have e89 := compileElsifs_emits env elsifs s8 s9 endLabel _ (e8.ready hs) (by omega) h9
    have e9 := e8.trans e89
    have l9 := e89.labels
    obtain ⟨e10, e910, -⟩ := (compileElse_emits env elseBody).after hs e9 h10
    have l10 := e910.labels
    obtain ⟨e11, -, -, -⟩ := e10.placeLabel (by omega) (by omega) h11
    exact ⟨e11, trivial⟩
  | .caseStmt expression branches elseBody range => by
    intro s u s' hs he
    obtain ⟨_, s1, h1, h⟩ := bind_ok he
    obtain ⟨endLabel, s2, h2, h⟩ := bind_ok h
    obtain ⟨expr, s3, h3, h⟩ := bind_ok h
    obtain ⟨_, s4, h4, h⟩ := bind_ok h
    obtain ⟨_, s5, h5, h6⟩ := bind_ok h
    have l1 := setSource_labels h1
    have e1 := (Emitted.refl hs).setSource h1
    obtain ⟨e2, a2, n2, -, -⟩ := e1.allocLabel h2
    obtain ⟨e3, e23, q3⟩ := (compileExpression_emits env expression).after hs e2 h3
    have l3 := e23.labels
    have e34 := compileBranches_emits env branches s3 s4 endLabel expr _ (e3.ready hs) (by omega)
      q3 h4
    have e4 := e3.trans e34
    have l4 := e34.labels
    obtain ⟨e5, e45, -⟩ := (compileElse_emits env elseBody).after hs e4 h5
    have l5 := e45.labels
    obtain ⟨e6, -, -, -⟩ := e5.placeLabel (by omega) (by omega) h6
    exact ⟨e6, trivial⟩
  | .forStmt loopVar lower upper by_ body range => by
    intro s u s' hs he
    obtain ⟨_, s1, h1, h⟩ := bind_ok he
    obtain ⟨loopLabel, s2, h2, h⟩ := bind_ok h
    obtain ⟨exitLabel, s3, h3, h⟩ := bind_ok h
    obtain ⟨fromReg, s4, h4, h⟩ := bind_ok h
    obtain ⟨_, s5, h5, h⟩ := bind_ok h
    obtain ⟨_, s6, h6, h⟩ := bind_ok h
    obtain ⟨varReg, s7, h7, h⟩ := bind_ok h
    obtain ⟨toReg, s8, h8, h⟩ := bind_ok h
    obtain ⟨cond, s9, h9, h⟩ := bind_ok h
    obtain ⟨_, s10, h10, h⟩ := bind_ok h
    obtain ⟨_, s11, h11, h⟩ := bind_ok h
    obtain ⟨_, s12, h12, h⟩ := bind_ok h
    obtain ⟨_, s13, h13, h⟩ := bind_ok h
    obtain ⟨stepReg, s14, h14, h⟩ := bind_ok h
    obtain ⟨varReg2, s15, h15, h⟩ := bind_ok h
    obtain ⟨newVal, s16, h16, h⟩ := bind_ok h
    obtain ⟨_, s17, h17, h⟩ := bind_ok h
    obtain ⟨_, s18, h18, h19⟩ := bind_ok h
    have l1 := setSource_labels h1
    have e1 := (Emitted.refl hs).setSource h1
    obtain ⟨e2, a2, n2, -, -⟩ := e1.allocLabel h2
    obtain ⟨e3, a3, n3, -, -⟩ := e2.allocLabel h3
    obtain ⟨e4, e34, q4⟩ := (compileExpression_emits env lower).after hs e3 h4
    have l4 := e34.labels
    have e45 := storeLoopVar_emits loopVar.name (e4.ready hs) q4 h5
    have e5 := e4.trans e45
    have l5 := e45.labels
    obtain ⟨e6, -, -, -⟩ := e5.swap.placeLabel (by omega) (by omega) h6
    have l6 := placeLabel_labels h6
    obtain ⟨e7, e67, q7⟩ := (compileLoadVariable_emits loopVar.name).after hs e6 h7
    have l7 := e67.labels
    obtain ⟨e8, e78, q8⟩ := (compileExpression_emits env upper).after hs e7 h8
    have l8 := e78.labels
    obtain ⟨e89, q9⟩ := emitTo_emits (g := (.cmpLe · varReg toReg)) (e8.ready hs)
      (fits_dst (l := [varReg, toReg])
      (fun d => ⟨rfl, rfl, rfl, rfl, rfl, rfl⟩) (by simpa using ⟨e78.regIn q7, q8⟩)) h9
    have e9 := e8.trans e89
    have l9 := e89.labels
    have e10 := e9.emit (jumpIfNot_fits q9 (by simp only [FunctionCompiler.limits_labels]; omega)) h10
    have l10 := emit_labels h10
    obtain ⟨l11, l13⟩ := loop_labels h11 h13
    have r11 := Emitted.ready_push (e10.ready hs) (by omega) h11
    obtain ⟨e1112, -⟩ := compileStatements_emits env body s11 _ s12 r11 h12
    have l12 := e1112.labels
    have e13 := e10.trans (Emitted.loopBody h11 e1112 h13)
    obtain ⟨e14, e1314, q14⟩ := (compileStep_emits by_).after hs e13 h14
    have l14 := e1314.labels
    obtain ⟨e15, e1415, q15⟩ := (compileLoadVariable_emits loopVar.name).after hs e14 h15
    have l15 := e1415.labels
    obtain ⟨e1516, q16⟩ := emitTo_emits (g := (.add · varReg2 stepReg)) (e15.ready hs)
      (fits_dst (l := [varReg2, stepReg])
      (fun d => ⟨rfl, rfl, rfl, rfl, rfl, rfl⟩) (by simpa using ⟨q15, e1415.regIn q14⟩)) h16
    have e16 := e15.trans e1516
    have l16 := e1516.labels
    have e1617 := storeLoopVar_emits loopVar.name (e16.ready hs) q16 h17
    have e17 := e16.trans e1617
    have l17 := e1617.labels
    have e18 := e17.emit (jump_fits (l := loopLabel)
      (by simp only [FunctionCompiler.limits_labels]; omega)) h18
    have l18 := emit_labels h18
    obtain ⟨e19, -, -, -⟩ := e18.placeLabel (by omega) (by omega) h19
    exact ⟨e19, trivial⟩
  | .whileStmt condition body range => by
    intro s u s' hs he
    obtain ⟨_, s1, h1, h⟩ := bind_ok he
    obtain ⟨loopLabel, s2, h2, h⟩ := bind_ok h
    obtain ⟨exitLabel, s3, h3, h⟩ := bind_ok h
    obtain ⟨_, s4, h4, h⟩ := bind_ok h
    obtain ⟨cond, s5, h5, h⟩ := bind_ok h
    obtain ⟨_, s6, h6, h⟩ := bind_ok h
    obtain ⟨_, s7, h7, h⟩ := bind_ok h
    obtain ⟨_, s8, h8, h⟩ := bind_ok h
    obtain ⟨_, s9, h9, h⟩ := bind_ok h
    obtain ⟨_, s10, h10, h11⟩ := bind_ok h
    have l1 := setSource_labels h1
    have e1 := (Emitted.refl hs).setSource h1
    obtain ⟨e2, a2, n2, -, -⟩ := e1.allocLabel h2
    obtain ⟨e3, a3, n3, -, -⟩ := e2.allocLabel h3
    obtain ⟨e4, -, -, -⟩ := e3.swap.placeLabel (by omega) (by omega) h4
    have l4 := placeLabel_labels h4
    obtain ⟨e5, e45, q5⟩ := (compileExpression_emits env condition).after hs e4 h5
    have l5 := e45.labels
    have e6 := e5.emit (jumpIfNot_fits q5 (by simp only [FunctionCompiler.limits_labels]; omega)) h6
    have l6 := emit_labels h6
    obtain ⟨l7, l9⟩ := loop_labels h7 h9
    have r7 := Emitted.ready_push (e6.ready hs) (by omega) h7
    obtain ⟨e78, -⟩ := compileStatements_emits env body s7 _ s8 r7 h8
    have l8 := e78.labels
    have e9 := e6.trans (Emitted.loopBody h7 e78 h9)
    have e10 := e9.emit (jump_fits (l := loopLabel)
      (by simp only [FunctionCompiler.limits_labels]; omega)) h10
    have l10 := emit_labels h10
    obtain ⟨e11, -, -, -⟩ := e10.placeLabel (by omega) (by omega) h11
    exact ⟨e11, trivial⟩
  | .repeatStmt body condition range => by
    intro s u s' hs he
    obtain ⟨_, s1, h1, h⟩ := bind_ok he
    obtain ⟨loopLabel, s2, h2, h⟩ := bind_ok h
    obtain ⟨exitLabel, s3, h3, h⟩ := bind_ok h
    obtain ⟨_, s4, h4, h⟩ := bind_ok h
    obtain ⟨_, s5, h5, h⟩ := bind_ok h
    obtain ⟨_, s6, h6, h⟩ := bind_ok h
    obtain ⟨_, s7, h7, h⟩ := bind_ok h
    obtain ⟨cond, s8, h8, h⟩ := bind_ok h
    obtain ⟨_, s9, h9, h10⟩ := bind_ok h
    have l1 := setSource_labels h1
    have e1 := (Emitted.refl hs).setSource h1
    obtain ⟨e2, a2, n2, -, -⟩ := e1.allocLabel h2
    obtain ⟨e3, a3, n3, -, -⟩ := e2.allocLabel h3
    obtain ⟨e4, -, -, -⟩ := e3.swap.placeLabel (by omega) (by omega) h4
    have l4 := placeLabel_labels h4
    obtain ⟨l5, l7⟩ := loop_labels h5 h7
    have r5 := Emitted.ready_push (e4.ready hs) (by omega) h5
    obtain ⟨e56, -⟩ := compileStatements_emits env body s5 _ s6 r5 h6
    have l6 := e56.labels
    have e7 := e4.trans (Emitted.loopBody h5 e56 h7)
    obtain ⟨e8, e78, q8⟩ := (compileExpression_emits env condition).after hs e7 h8
    have l8 := e78.labels
    have e9 := e8.emit (jumpIfNot_fits q8 (by simp only [FunctionCompiler.limits_labels]; omega)) h9
    have l9 := emit_labels h9
    obtain ⟨e10, -, -, -⟩ := e9.placeLabel (by omega) (by omega) h10
    exact ⟨e10, trivial⟩
  | .returnStmt range => by
    intro s u s' hs he
    obtain ⟨_, s1, h1, h⟩ := bind_ok he
    obtain ⟨zero, s2, h2, h⟩ := bind_ok h
    obtain ⟨_, s3, h3, h4⟩ := bind_ok h
    have e1 := (Emitted.refl hs).setSource h1
    obtain ⟨e2, d2, n2, -, -⟩ := e1.allocReg h2
    have q : RegIn zero s2 := by simp only [RegIn]; omega
    obtain ⟨_, s2', h5, h6⟩ := bind_ok h3
    have e2' := e2.setSource h5
    simp only [setSource, Except.ok.injEq, Prod.mk.injEq] at h5
    obtain ⟨-, rfl⟩ := h5
    have e3 := e2'.emit (loadConst_fits (v := .int 0) rfl q) h6
    have q3 : RegIn zero s3 := by
      rw [RegIn, emit_regs h6]
      exact q
    exact ⟨e3.emit (Instruction.OnlyRegs.fits (l := [zero]) ⟨rfl, rfl, rfl, rfl, rfl, rfl⟩
      (by simpa using q3)) h4, trivial⟩
  | .exit range => by
    intro s u s' hs he
    obtain ⟨_, s1, h1, h⟩ := bind_ok he
    have e1 := (Emitted.refl hs).setSource h1
    have h2 := get_bind_ok h
    cases hx : s1.loopExitLabels with
    | nil =>
      simp only [hx] at h2
      obtain ⟨-, rfl⟩ := pure_ok h2
      exact ⟨e1, trivial⟩
    | cons label labels =>
      simp only [hx] at h2
      have hl := (e1.ready hs).exits label (by rw [hx]; exact List.mem_cons_self ..)
      exact ⟨e1.emit (jump_fits hl) h2, trivial⟩
  | .empty range => by
    intro s u s' hs he
    exact ⟨(Emitted.refl hs).setSource he, trivial⟩

theorem compileStatements_emits (env : ModuleEnv) :
    ∀ stmts, EmitsCode env (compileStatements env stmts)
  | [] => by
    intro s u s' hs he
    obtain ⟨-, rfl⟩ := pure_ok he
    exact ⟨.refl hs, trivial⟩
  | stmt :: stmts => by
    intro s u s' hs he
    obtain ⟨_, s1, h1, h2⟩ := bind_ok he
    obtain ⟨e1, -⟩ := compileStatement_emits env stmt s _ s1 hs h1
    obtain ⟨e2, -, -⟩ := (compileStatements_emits env stmts).after hs e1 h2
    exact ⟨e2, trivial⟩

theorem compileElse_emits (env : ModuleEnv) :
    ∀ body, EmitsCode env (compileElse env body)
  | none => by
    intro s u s' hs he
    obtain ⟨-, rfl⟩ := pure_ok he
    exact ⟨.refl hs, trivial⟩
  | some body => compileStatements_emits env body

theorem compileElsifs_emits (env : ModuleEnv) : ∀ (clauses : List ElsifClause)
    (s s' : FunctionCompiler) (endLabel : Label) (u : Unit), Ready env s →
    endLabel.toNat < s.nextLabel.toNat → compileElsifs env endLabel clauses s = .ok (u, s') →
    Emitted env s [] s'
  | [], s, s', endLabel, u, hs, hend, he => by
    obtain ⟨-, rfl⟩ := pure_ok he
    exact .refl hs
  | .mk condition body :: clauses, s, s', endLabel, u, hs, hend, he => by
    obtain ⟨nextLabel, s1, h1, h⟩ := bind_ok he
    obtain ⟨cond, s2, h2, h⟩ := bind_ok h
    obtain ⟨_, s3, h3, h⟩ := bind_ok h
    obtain ⟨_, s4, h4, h⟩ := bind_ok h
    obtain ⟨_, s5, h5, h⟩ := bind_ok h
    obtain ⟨_, s6, h6, h7⟩ := bind_ok h
    obtain ⟨e1, a1, n1, -, -⟩ := (Emitted.refl hs).allocLabel h1
    obtain ⟨e2, e12, q2⟩ := (compileExpression_emits env condition).after hs e1 h2
    have l2 := e12.labels
    have e3 := e2.emit (jumpIfNot_fits q2 (by simp only [FunctionCompiler.limits_labels]; omega)) h3
    have l3 := emit_labels h3
    obtain ⟨e4, e34, -⟩ := (compileStatements_emits env body).after hs e3 h4
    have l4 := e34.labels
    have e5 := e4.emit (jump_fits (l := endLabel)
      (by simp only [FunctionCompiler.limits_labels]; omega)) h5
    have l5 := emit_labels h5
    obtain ⟨e6, -, -, -⟩ := e5.placeLabel (by omega) (by omega) h6
    have l6 := placeLabel_labels h6
    exact e6.trans (compileElsifs_emits env clauses s6 s' endLabel u (e6.ready hs) (by omega) h7)

theorem compileBranches_emits (env : ModuleEnv) : ∀ (branches : List CaseBranch)
    (s s' : FunctionCompiler) (endLabel : Label) (expr : Reg) (u : Unit), Ready env s →
    endLabel.toNat < s.nextLabel.toNat → RegIn expr s →
    compileBranches env endLabel expr branches s = .ok (u, s') → Emitted env s [] s'
  | [], s, s', endLabel, expr, u, hs, hend, hx, he => by
    obtain ⟨-, rfl⟩ := pure_ok he
    exact .refl hs
  | .mk selectors body :: branches, s, s', endLabel, expr, u, hs, hend, hx, he => by
    obtain ⟨bodyLabel, s1, h1, h⟩ := bind_ok he
    obtain ⟨nextLabel, s2, h2, h⟩ := bind_ok h
    obtain ⟨_, s3, h3, h⟩ := bind_ok h
    obtain ⟨_, s4, h4, h⟩ := bind_ok h
    obtain ⟨_, s5, h5, h⟩ := bind_ok h
    obtain ⟨_, s6, h6, h⟩ := bind_ok h
    obtain ⟨_, s7, h7, h⟩ := bind_ok h
    obtain ⟨_, s8, h8, h9⟩ := bind_ok h
    obtain ⟨e1, a1, n1, -, -⟩ := (Emitted.refl hs).allocLabel h1
    obtain ⟨e2, a2, n2, -, -⟩ := e1.allocLabel h2
    have e23 := compileSelectors_emits selectors (e2.ready hs) (e2.regIn hx) (by omega) h3
    have e3 := e2.trans e23
    have l3 := e23.labels
    have e4 := e3.emit (jump_fits (l := nextLabel)
      (by simp only [FunctionCompiler.limits_labels]; omega)) h4
    have l4 := emit_labels h4
    obtain ⟨e5, -, -, -⟩ := e4.swap.placeLabel (by omega) (by omega) h5
    have l5 := placeLabel_labels h5
    obtain ⟨e6, e56, -⟩ := (compileStatements_emits env body).after hs e5 h6
    have l6 := e56.labels
    have e7 := e6.emit (jump_fits (l := endLabel)
      (by simp only [FunctionCompiler.limits_labels]; omega)) h7
    have l7 := emit_labels h7
    obtain ⟨e8, -, -, -⟩ := e7.placeLabel (by omega) (by omega) h8
    have l8 := placeLabel_labels h8
    exact e8.trans (compileBranches_emits env branches s8 s' endLabel expr u (e8.ready hs)
      (by omega) (e8.regIn hx) h9)

end

/-! ## Declarations -/

omit [F64Ops] in
theorem addLocal_emits {env : ModuleEnv} (hf : env.functions ≠ []) (name : String) (ty : VarType)
    (width : IntWidth) (retain persistent : Bool) :
    Emits env (addLocal name ty width retain persistent)
      fun slot s => slot.toNat < s.locals.slots.length := by
  intro s slot s' hs he
  simp only [addLocal, Except.ok.injEq, Prod.mk.injEq] at he
  obtain ⟨rfl, rfl⟩ := he
  refine ⟨?_, toUInt16_lt_of_lt (by simp)⟩
  exact {
    code := ⟨[], by simp, by simp⟩
    regs := Nat.le_refl _
    labels := Nat.le_refl _
    slots := by simp
    host := .inr hf
    exits := rfl
    positions := hs.positions
    frame := fun _ _ => rfl
    placed := fun l h1 h2 => absurd h2 (Nat.not_lt.mpr h1) }

omit [F64Ops] in
/-- A change of the tables that keeps the number of slots. -/
theorem Emitted.ofTables {env : ModuleEnv} {s s' : FunctionCompiler} (hf : env.functions ≠ [])
    (hs : Ready env s) (hc : s'.instructions = s.instructions) (hr : s'.nextReg = s.nextReg)
    (hl : s'.nextLabel = s.nextLabel) (hp : s'.labelPositions = s.labelPositions)
    (hx : s'.loopExitLabels = s.loopExitLabels)
    (hn : s'.locals.slots.length = s.locals.slots.length) : Emitted env s [] s' where
  code := ⟨[], by simp [hc], by simp⟩
  regs := by rw [hr]
  labels := by rw [hl]
  slots := by rw [hn]
  host := .inr hf
  exits := hx
  positions := by rw [hp, hl, hs.positions]
  frame := fun _ _ => by rw [hp]
  placed := fun l h1 h2 => by
    rw [hl] at h2
    exact absurd h2 (Nat.not_lt.mpr h1)

omit [F64Ops] in
theorem setSlotType_emits {env : ModuleEnv} (hf : env.functions ≠ []) (slot : UInt16)
    (ty : VarType) : EmitsCode env (setSlotType slot ty) := by
  intro s u s' hs he
  simp only [setSlotType, Except.ok.injEq, Prod.mk.injEq] at he
  obtain ⟨-, rfl⟩ := he
  exact ⟨.ofTables hf hs rfl rfl rfl rfl rfl (by simp), trivial⟩

omit [F64Ops] in
theorem resolveSlotType_emits {env : ModuleEnv} (hf : env.functions ≠ []) (slot : UInt16)
    (ty : DataType) : EmitsCode env (resolveSlotType env slot ty) := by
  intro s u s' hs he
  cases ty with
  | userDefined parts =>
    obtain ⟨_, s1, h1, h2⟩ := bind_ok he
    have e1 : Emitted env s [] s1 := by
      simp only [modify, modifyGet, MonadStateOf.modifyGet, StateT.modifyGet, Pure.pure,
        Except.pure, Except.ok.injEq, Prod.mk.injEq] at h1
      obtain ⟨-, rfl⟩ := h1
      exact .ofTables hf hs rfl rfl rfl rfl rfl rfl
    have h3 := get_bind_ok h2
    cases ht : userVarType env s1.typeDefs parts.asStr with
    | none =>
      simp only [ht] at h3
      obtain ⟨-, rfl⟩ := pure_ok h3
      exact ⟨e1, trivial⟩
    | some ty =>
      simp only [ht] at h3
      obtain ⟨e2, -, -⟩ := (setSlotType_emits hf slot ty).after hs e1 h3
      exact ⟨e2, trivial⟩
  | array ranges elementType =>
    obtain ⟨dims, s1, h1, h2⟩ := bind_ok he
    have hs1 : s1 = s := by
      cases hd : arrayDimensions ranges with
      | error e =>
        simp only [hd] at h1
        cases h1
      | ok d =>
        simp only [hd] at h1
        simp only [liftM, monadLift, MonadLift.monadLift, StateT.lift, Bind.bind, Except.bind,
          Pure.pure, Except.pure, Except.ok.injEq, Prod.mk.injEq] at h1
        exact h1.2.symm
    subst hs1
    obtain ⟨_, s2, h3, h4⟩ := bind_ok (get_bind_ok h2)
    have e2 : Emitted env s1 [] s2 := by
      obtain rfl := congrArg Prod.snd (Except.ok.inj h3)
      exact .ofTables hf hs rfl rfl rfl rfl rfl rfl
    obtain ⟨e3, -, -⟩ := (setSlotType_emits hf slot _).after hs e2 h4
    exact ⟨e3, trivial⟩
  | elementary e =>
    obtain ⟨-, rfl⟩ := pure_ok he
    exact ⟨.refl hs, trivial⟩
  | string =>
    obtain ⟨-, rfl⟩ := pure_ok he
    exact ⟨.refl hs, trivial⟩
  | ref t =>
    obtain ⟨-, rfl⟩ := pure_ok he
    exact ⟨.refl hs, trivial⟩

theorem declareName_emits {env : ModuleEnv} (hf : env.functions ≠ []) (emitInit retain persistent : Bool)
    (decl : VarDeclaration) (name : String) :
    EmitsCode env (declareName env emitInit retain persistent decl name) := by
  intro s u s' hs he
  obtain ⟨slot, s1, h1, h2⟩ := bind_ok he
  obtain ⟨_, s2, h3, h4⟩ := bind_ok h2
  obtain ⟨e1, -, q1⟩ := (addLocal_emits hf name _ _ retain persistent).after hs (.refl hs) h1
  obtain ⟨e2, e12, -⟩ := (resolveSlotType_emits hf slot decl.ty).after hs e1 h3
  cases emitInit with
  | false =>
    obtain ⟨-, rfl⟩ := pure_ok h4
    exact ⟨e2, trivial⟩
  | true =>
    cases hi : decl.initialValue with
    | none =>
      simp only [hi] at h4
      obtain ⟨-, rfl⟩ := pure_ok h4
      exact ⟨e2, trivial⟩
    | some e =>
      simp only [hi] at h4
      obtain ⟨r, s3, h5, h6⟩ := bind_ok h4
      obtain ⟨e3, e23, q3⟩ := (compileExpression_emits env e).after hs e2 h5
      have hslot := Nat.lt_of_lt_of_le (Nat.lt_of_lt_of_le q1 e12.slots) e23.slots
      exact ⟨e3.emit (localStore_fits hslot q3) h6, trivial⟩

theorem declareNames_emits {env : ModuleEnv} (hf : env.functions ≠ [])
    (emitInit retain persistent : Bool) (decl : VarDeclaration) :
    ∀ names, EmitsCode env (declareNames env emitInit retain persistent decl names)
  | [] => by
    intro s u s' hs he
    obtain ⟨-, rfl⟩ := pure_ok he
    exact ⟨.refl hs, trivial⟩
  | name :: names => by
    intro s u s' hs he
    obtain ⟨_, s1, h1, h2⟩ := bind_ok he
    obtain ⟨e1, -⟩ := declareName_emits hf emitInit retain persistent decl name s _ s1 hs h1
    obtain ⟨e2, -, -⟩ :=
      (declareNames_emits hf emitInit retain persistent decl names).after hs e1 h2
    exact ⟨e2, trivial⟩

theorem declareAll_emits {env : ModuleEnv} (hf : env.functions ≠ [])
    (emitInit retain persistent : Bool) :
    ∀ decls, EmitsCode env (declareAll env emitInit retain persistent decls)
  | [] => by
    intro s u s' hs he
    obtain ⟨-, rfl⟩ := pure_ok he
    exact ⟨.refl hs, trivial⟩
  | decl :: decls => by
    intro s u s' hs he
    obtain ⟨_, s1, h1, h2⟩ := bind_ok he
    obtain ⟨e1, -⟩ :=
      declareNames_emits hf emitInit retain persistent decl (decl.names.map (·.name)) s _ s1 hs h1
    obtain ⟨e2, -, -⟩ := (declareAll_emits hf emitInit retain persistent decls).after hs e1 h2
    exact ⟨e2, trivial⟩

theorem compileVarBlocksInner_emits {env : ModuleEnv} (hf : env.functions ≠ []) (emitInit : Bool) :
    ∀ vbs, EmitsCode env (compileVarBlocksInner env emitInit vbs)
  | [] => by
    intro s u s' hs he
    obtain ⟨-, rfl⟩ := pure_ok he
    exact ⟨.refl hs, trivial⟩
  | vb :: vbs => by
    intro s u s' hs he
    obtain ⟨_, s1, h1, h2⟩ := bind_ok he
    obtain ⟨e1, -⟩ := declareAll_emits hf emitInit _ _ vb.declarations s _ s1 hs h1
    obtain ⟨e2, -, -⟩ := (compileVarBlocksInner_emits hf emitInit vbs).after hs e1 h2
    exact ⟨e2, trivial⟩

end

end RustPlc.Compiler
