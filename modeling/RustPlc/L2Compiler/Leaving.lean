import RustPlc.L2Compiler.CompileWellFormed
import RustPlc.L2Compiler.Layout

/-!
# How a body with a result is left

A function or a method with a result is left by a `RETURN`, whose two
instructions load 0 and return it, or by the last two instructions of its
code, which load the variable of the result and return that. No jump goes
between the two instructions of a `RETURN`.

Results:
* `ZeroReturns.closed`: every primitive of the compiler keeps what is true of the
  `RETURN`s so far;
* `functionBody_code`, `methodBody_code`: how the finished code is left.
-/
namespace RustPlc.Compiler

open RustPlc.Ir RustPlc.Syntax

/-! ## The code so far -/

/-- Every `Ret` of the code returns the 0 loaded just before it, and is not the
target of a placed label. -/
structure ZeroReturns (s : FunctionCompiler) : Prop where
  loaded : ∀ p r, s.instructions[p]? = some (.ret r) →
    ∃ q, p = q + 1 ∧ s.instructions[q]? = some (.loadConst r (.int 0))
  avoided : ∀ p r, s.instructions[p]? = some (.ret r) → p ∈ s.labelPositions → p = usizeMax
  placed : ∀ pos ∈ s.labelPositions, pos ≤ s.instructions.length ∨ pos = usizeMax
  noVoid : Instruction.retVoid ∉ s.instructions

namespace ZeroReturns

variable {s s' : FunctionCompiler}

theorem new (typeDefs : List TypeDef) : ZeroReturns (.new typeDefs) where
  loaded := by simp [FunctionCompiler.new]
  avoided := by simp [FunctionCompiler.new]
  placed := by simp [FunctionCompiler.new]
  noVoid := by simp [FunctionCompiler.new]

/-- Only the code and the label positions matter. -/
theorem congr (h : ZeroReturns s) (hi : s'.instructions = s.instructions)
    (hl : s'.labelPositions = s.labelPositions) : ZeroReturns s' := by
  constructor
  · rw [hi]
    exact h.loaded
  · rw [hi, hl]
    exact h.avoided
  · rw [hi, hl]
    exact h.placed
  · rw [hi]
    exact h.noVoid

theorem mem_resizeLabels {n pos : Nat} {ps : List Nat} (h : pos ∈ resizeLabels n ps) :
    pos ∈ ps ∨ pos = usizeMax := by
  unfold resizeLabels at h
  rcases List.mem_append.mp h with h | h
  · exact .inl h
  · exact .inr (List.eq_of_mem_replicate h)

/-- Label positions that are old, unplaced or the end of the code. -/
theorem relabel (h : ZeroReturns s) (hi : s'.instructions = s.instructions)
    (hl : ∀ pos ∈ s'.labelPositions,
      pos ∈ s.labelPositions ∨ pos = usizeMax ∨ pos = s.instructions.length) :
    ZeroReturns s' where
  loaded := by
    rw [hi]
    exact h.loaded
  avoided := by
    rw [hi]
    intro p r hp hm
    rcases hl p hm with hm | hm | hm
    · exact h.avoided p r hp hm
    · exact hm
    · -- there is no instruction at the end of the code
      have hlt := (List.getElem?_eq_some_iff.mp hp).1
      omega
  placed := by
    rw [hi]
    intro pos hm
    rcases hl pos hm with hm | hm | hm
    · exact h.placed pos hm
    · exact .inr hm
    · exact .inl (Nat.le_of_eq hm)
  noVoid := by
    rw [hi]
    exact h.noVoid

theorem emit {i : Instruction} {u : Unit} (h : ZeroReturns s) (hi : leaves i = false)
    (he : Compiler.emit i s = .ok (u, s')) : ZeroReturns s' := by
  cases he
  -- a `Ret` is one of the instructions that were there
  have hold : ∀ (p : Nat) r, (s.instructions ++ [i])[p]? = some (Instruction.ret r) →
      s.instructions[p]? = some (Instruction.ret r) := by
    intro p r hp
    rcases Nat.lt_trichotomy p s.instructions.length with hlt | heq | hgt
    · rwa [List.getElem?_append_left hlt] at hp
    · subst heq
      simp only [List.getElem?_concat_length, Option.some.injEq] at hp
      subst hp
      cases hi
    · rw [List.getElem?_eq_none (by simp; omega)] at hp
      cases hp
  constructor
  · intro p r hp
    obtain ⟨q, rfl, hq⟩ := h.loaded p r (hold p r hp)
    exact ⟨q, rfl, by
      rw [List.getElem?_append_left (List.getElem?_eq_some_iff.mp hq).1]
      exact hq⟩
  · intro p r hp hm
    exact h.avoided p r (hold p r hp) hm
  · intro pos hm
    have := h.placed pos hm
    simp only [List.length_append, List.length_singleton]
    omega
  · intro hm
    rcases List.mem_append.mp hm with hm | hm
    · exact h.noVoid hm
    · obtain rfl := List.mem_singleton.mp hm
      cases hi

/-- The two instructions of a `RETURN`. -/
theorem leave {r : Reg} {s1 : FunctionCompiler} {u v : Unit} (h : ZeroReturns s)
    (h1 : Compiler.emit (.loadConst r (.int 0)) s = .ok (u, s1))
    (h2 : Compiler.emit (.ret r) s1 = .ok (v, s')) : ZeroReturns s' := by
  have h' := h.emit (i := .loadConst r (.int 0)) rfl h1
  cases h1
  cases h2
  -- a `Ret` is one of those that were there, or the last instruction
  have hold : ∀ (p : Nat) r', (s.instructions ++ [.loadConst r (.int 0)] ++ [.ret r])[p]? =
      some (Instruction.ret r') →
      (s.instructions ++ [.loadConst r (.int 0)])[p]? = some (Instruction.ret r') ∨
        p = s.instructions.length + 1 ∧ r' = r := by
    intro p r' hp
    rcases Nat.lt_trichotomy p (s.instructions ++ [Instruction.loadConst r (.int 0)]).length with
      hlt | heq | hgt
    · rw [List.getElem?_append_left hlt] at hp
      exact .inl hp
    · subst heq
      rw [List.getElem?_concat_length] at hp
      cases hp
      exact .inr ⟨by simp, rfl⟩
    · rw [List.getElem?_eq_none (by simp at hgt ⊢; omega)] at hp
      cases hp
  constructor
  · intro p r' hp
    rcases hold p r' hp with hp | ⟨rfl, rfl⟩
    · obtain ⟨q, rfl, hq⟩ := h'.loaded p r' hp
      exact ⟨q, rfl, by
        rw [List.getElem?_append_left (List.getElem?_eq_some_iff.mp hq).1]
        exact hq⟩
    · exact ⟨s.instructions.length, rfl, by simp⟩
  · intro p r' hp hm
    rcases hold p r' hp with hp | ⟨rfl, rfl⟩
    · exact h'.avoided p r' hp hm
    · -- every placed label is before the two instructions
      have := h.placed _ hm
      omega
  · intro pos hm
    have := h.placed pos hm
    simp only [List.length_append, List.length_singleton]
    omega
  · intro hm
    rcases List.mem_append.mp hm with hm | hm
    · exact h'.noVoid hm
    · simp at hm

end ZeroReturns

/-- **Every primitive of the compiler keeps it.** -/
instance ZeroReturns.closed : Closed fun s s' => ZeroReturns s → ZeroReturns s' where
  refl _ := id
  trans h h' := h' ∘ h
  allocReg := by
    intro s r s' he h
    obtain ⟨-, rfl, -⟩ := allocReg_next he
    exact h.congr rfl rfl
  allocLabel := by
    intro s l s' he h
    unfold allocLabel at he
    split at he
    · cases he
    · cases he
      refine h.relabel rfl fun pos hm => ?_
      rcases mem_resizeLabels hm with hm | hm
      · exact .inl hm
      · exact .inr (.inl hm)
  placeLabel := by
    intro l s u s' he h
    cases he
    refine h.relabel rfl fun pos hm => ?_
    rcases List.mem_or_eq_of_mem_set hm with hm | hm
    · rcases mem_resizeLabels hm with hm | hm
      · exact .inl hm
      · exact .inr (.inl hm)
    · exact .inr (.inr hm)
  emit hi he h := h.emit hi he
  setSource he h := by
    cases he
    exact h.congr rfl rfl
  pushLoopExit he h := by
    cases he
    exact h.congr rfl rfl
  popLoopExit he h := by
    cases he
    exact h.congr rfl rfl
  leave h1 h2 h := h.leave h1 h2

/-! ## Declarations -/

section

variable {R : FunctionCompiler → FunctionCompiler → Prop} {F : CompileFault → Prop}

/-- A step that adds no code and touches no label. -/
theorem walks_of_sameCode {α : Type} {x : CompileM α}
    (hR : ∀ s s', s'.instructions = s.instructions → s'.labelPositions = s.labelPositions → R s s')
    (hx : ∀ {s r s'}, x s = .ok (r, s') →
      s'.instructions = s.instructions ∧ s'.labelPositions = s.labelPositions)
    (hF : ∀ {s e}, x s = .error e → F e) : Walks R F x :=
  ⟨fun h => hR _ _ (hx h).1 (hx h).2, hF⟩

end

theorem resolveSlotType_sameCode {env : ModuleEnv} {slot : UInt16} {ty : DataType}
    {s s' : FunctionCompiler} {u : Unit} (h : resolveSlotType env slot ty s = .ok (u, s')) :
    s'.instructions = s.instructions ∧ s'.labelPositions = s.labelPositions := by
  cases ty with
  | elementary _ | string _ _ | ref _ =>
    obtain ⟨-, rfl⟩ := pure_ok h
    exact ⟨rfl, rfl⟩
  | userDefined q =>
    obtain ⟨_, s1, h1, h2⟩ := bind_ok h
    have h3 := get_bind_ok h2
    cases h1
    cases ht : userVarType env s.typeDefs q.asStr with
    | none =>
      simp only [ht] at h3
      obtain ⟨-, rfl⟩ := pure_ok h3
      exact ⟨rfl, rfl⟩
    | some ty =>
      simp only [ht] at h3
      cases h3
      exact ⟨rfl, rfl⟩
  | array ranges elementType =>
    obtain ⟨dims, s1, h1, h2⟩ := bind_ok h
    obtain ⟨_, s2, h3, h4⟩ := bind_ok (get_bind_ok h2)
    cases h3
    cases h4
    cases hd : arrayDimensions ranges with
    | error e =>
      simp only [hd] at h1
      cases h1
    | ok d =>
      simp only [hd] at h1
      cases h1
      exact ⟨rfl, rfl⟩

theorem constEvalIntExpr_fault : ∀ {x : Expression} {e : CompileFault},
    constEvalIntExpr x = .error e → e = .overflow
  | .literal kind _, e, h => by cases kind <;> simp [constEvalIntExpr] at h
  | .unary .neg operand _, e, h => by
    unfold constEvalIntExpr at h
    cases ho : constEvalIntExpr operand with
    | error e' =>
      rw [ho] at h
      cases h
      exact constEvalIntExpr_fault ho
    | ok v =>
      rw [ho] at h
      cases v with
      | none => cases h
      | some v =>
        change (if v = Int64.minValue then _ else _) = _ at h
        split at h
        · cases h
          rfl
        · cases h
  | .unary .not operand _, e, h => by simp [constEvalIntExpr] at h
  | .var _ _, e, h => by simp [constEvalIntExpr] at h
  | .functionCall _ _ _, e, h => by simp [constEvalIntExpr] at h
  | .binary _ _ _ _, e, h => by simp [constEvalIntExpr] at h
  | .parenthesized _, e, h => by simp [constEvalIntExpr] at h
  | .thisInstance _, e, h => by simp [constEvalIntExpr] at h
  | .superInstance _, e, h => by simp [constEvalIntExpr] at h

theorem constBound_fault {x : Expression} {e : CompileFault} (h : constBound x = .error e) :
    e = .overflow := by
  unfold constBound at h
  cases hx : constEvalIntExpr x with
  | error e' =>
    rw [hx] at h
    cases h
    exact constEvalIntExpr_fault hx
  | ok v =>
    rw [hx] at h
    cases h

theorem arrayDimensions_fault : ∀ {ranges : List (Expression × Expression)} {e : CompileFault},
    arrayDimensions ranges = .error e → e = .overflow
  | (lower, upper) :: rs, e, h => by
    unfold arrayDimensions at h
    cases hlo : constBound lower with
    | error e' =>
      rw [hlo] at h
      cases h
      exact constBound_fault hlo
    | ok lo =>
      rw [hlo] at h
      cases hhi : constBound upper with
      | error e' =>
        rw [hhi] at h
        cases h
        exact constBound_fault hhi
      | ok hi =>
        rw [hhi] at h
        cases hr : arrayDimensions rs with
        | error e' =>
          rw [hr] at h
          cases h
          exact arrayDimensions_fault hr
        | ok rest =>
          rw [hr] at h
          cases h

theorem resolveSlotType_fault {env : ModuleEnv} {slot : UInt16} {ty : DataType}
    {s : FunctionCompiler} {e : CompileFault} (h : resolveSlotType env slot ty s = .error e) :
    e = .overflow := by
  cases ty with
  | elementary _ | string _ _ | ref _ => cases h
  | userDefined q =>
    obtain h | ⟨_, s1, h1, h2⟩ := bind_error h
    · cases h
    · obtain h | ⟨s', s2, h1, h2⟩ := bind_error h2
      · cases h
      · cases ht : userVarType env s'.typeDefs q.asStr with
        | none =>
          simp only [ht] at h2
          cases h2
        | some ty =>
          simp only [ht] at h2
          cases h2
  | array ranges elementType =>
    obtain h | ⟨dims, s1, h1, h2⟩ := bind_error h
    · cases hd : arrayDimensions ranges with
      | error e' =>
        rw [hd] at h
        cases h
        exact arrayDimensions_fault hd
      | ok d =>
        rw [hd] at h
        cases h
    · cases h2

section

variable [F64Ops] {env : ModuleEnv} {R : FunctionCompiler → FunctionCompiler → Prop} [Closed R]
variable {F : CompileFault → Prop} [Overflows F] [Searches env F]

theorem declareName_walks
    (hR : ∀ s s', s'.instructions = s.instructions → s'.labelPositions = s.labelPositions → R s s')
    (emitInit retain persistent : Bool) (decl : VarDeclaration) (name : String) :
    Walks R F (declareName env emitInit retain persistent decl name) := by
  have hadd : Walks R F (addLocal name (varTypeFromAst decl.ty) (intWidthFromAst decl.ty) retain
      persistent) := by
    refine walks_of_sameCode hR (fun h => ?_) nofun
    cases h
    exact ⟨rfl, rfl⟩
  have hslot (slot : UInt16) : Walks R F (resolveSlotType env slot decl.ty) :=
    walks_of_sameCode hR resolveSlotType_sameCode
      fun h => resolveSlotType_fault h ▸ Overflows.overflow
  refine hadd.bind fun slot => (hslot slot).bind fun _ => ?_
  cases emitInit with
  | false => exact .pure _
  | true =>
    cases decl.initialValue with
    | none => exact .pure _
    | some e => exact (compileExpression_walks env e).bind fun r => .emit _ rfl

theorem compileVarBlocksInner_walks
    (hR : ∀ s s', s'.instructions = s.instructions → s'.labelPositions = s.labelPositions → R s s')
    (emitInit : Bool) : ∀ blocks, Walks R F (compileVarBlocksInner env emitInit blocks)
  | [] => .pure _
  | vb :: vbs => by
    have hnames : ∀ (retain persistent : Bool) (decl : VarDeclaration) (names : List String),
        Walks R F (declareNames env emitInit retain persistent decl names) := by
      intro retain persistent decl names
      induction names with
      | nil => exact .pure _
      | cons name names ih =>
        exact (declareName_walks hR emitInit retain persistent decl name).bind fun _ => ih
    have hall : ∀ (retain persistent : Bool) (decls : List VarDeclaration),
        Walks R F (declareAll env emitInit retain persistent decls) := by
      intro retain persistent decls
      induction decls with
      | nil => exact .pure _
      | cons decl decls ih => exact (hnames retain persistent decl _).bind fun _ => ih
    exact (hall _ _ _).bind fun _ => compileVarBlocksInner_walks hR emitInit vbs

end

/-! ## Bodies -/

section

variable [F64Ops] {env : ModuleEnv}

omit [F64Ops] in
/-- The finished code of a body with a result: it ends with the load of the slot and
its return, any other `Ret` returns the 0 loaded just before it, and every jump
stays inside and avoids the `Ret`s. -/
structure LeftBy (F : Function) (slot : UInt16) : Prop where
  last : ∃ q r, F.instructions.length = q + 2 ∧ F.instructions[q]? = some (.loadLocal r slot) ∧
    F.instructions[q + 1]? = some (.ret r)
  loaded : ∀ p r, F.instructions[p]? = some (.ret r) → p + 1 < F.instructions.length →
    ∃ q, p = q + 1 ∧ F.instructions[q]? = some (.loadConst r (.int 0))
  jumps : ∀ pos ∈ F.labelPositions, pos + 1 < F.instructions.length ∧
    ∀ r, F.instructions[pos]? ≠ some (.ret r)
  noVoid : Instruction.retVoid ∉ F.instructions

omit [F64Ops] in
/-- The two instructions after the body. -/
theorem emitReturn_code {s s' : FunctionCompiler} {slot : UInt16} {u : Unit} (h : ZeroReturns s)
    (hplaced : ∀ pos ∈ s.labelPositions, pos ≤ s.instructions.length)
    (he : emitReturn slot s = .ok (u, s')) (hlen : s'.instructions.length ≤ usizeMax)
    (name : String) (kind : PouKind) (start : Nat) : LeftBy (s'.finish name kind start) slot := by
  obtain ⟨r, s1, h1, h2⟩ := bind_ok he
  obtain ⟨dst, s2, h3, h4⟩ := bind_ok h1
  obtain ⟨rfl, rfl, -⟩ := allocReg_next h3
  obtain ⟨_, s3, h5, h6⟩ := bind_ok h4
  obtain ⟨rfl, rfl⟩ := pure_ok h6
  cases h5
  cases h2
  simp only [List.length_append, List.length_singleton] at hlen
  -- a `Ret` is one of the body, or the last instruction
  have hrets : ∀ (p : Nat) r,
      (s.instructions ++ [.loadLocal s.nextReg slot] ++ [.ret s.nextReg])[p]? =
        some (Instruction.ret r) →
      s.instructions[p]? = some (Instruction.ret r) ∨ p = s.instructions.length + 1 := by
    intro p r hp
    rcases Nat.lt_or_ge p s.instructions.length with hlt | hge
    · rw [List.append_assoc, List.getElem?_append_left hlt] at hp
      exact .inl hp
    · rw [List.append_assoc, List.getElem?_append_right hge] at hp
      have hlt := (List.getElem?_eq_some_iff.mp hp).1
      simp only [List.singleton_append, List.length_cons, List.length_nil] at hlt
      by_cases hp0 : p = s.instructions.length
      · subst hp0
        simp at hp
      · exact .inr (by omega)
  constructor
  · refine ⟨s.instructions.length, s.nextReg, ?_, ?_, ?_⟩
    all_goals simp [FunctionCompiler.finish]
  · intro p r hp hlt
    rcases hrets p r hp with hp | rfl
    · obtain ⟨q, rfl, hq⟩ := h.loaded p r hp
      refine ⟨q, rfl, ?_⟩
      simp only [FunctionCompiler.finish, List.append_assoc]
      rwa [List.getElem?_append_left (List.getElem?_eq_some_iff.mp hq).1]
    · simp [FunctionCompiler.finish] at hlt
  · intro pos hm
    have hle := hplaced pos hm
    refine ⟨by simp [FunctionCompiler.finish]; omega, fun r hp => ?_⟩
    rcases hrets pos r hp with hp | rfl
    · have hmax := h.avoided pos r hp hm
      have hlt := (List.getElem?_eq_some_iff.mp hp).1
      omega
    · omega
  · simp [FunctionCompiler.finish, h.noVoid]

omit [F64Ops] in
/-- The labels are placed when a construct is finished. -/
theorem Emitted.labels_placed {typeDefs : List TypeDef} {s : FunctionCompiler}
    (h : Emitted env (.new typeDefs) [] s) : ∀ pos ∈ s.labelPositions, pos ≤ s.instructions.length := by
  intro pos hm
  obtain ⟨l, hl, hget⟩ := List.mem_iff_getElem.mp hm
  obtain ⟨q, hq, hle⟩ := h.placed l (Nat.zero_le _) (h.positions ▸ hl) (by simp)
  rw [List.getElem?_eq_some_iff.mpr ⟨hl, hget⟩] at hq
  obtain rfl := Option.some.inj hq
  exact hle

/-- The slot that the two last instructions of a body with a result return: the last. -/
def epilogueSlot (F : Function) : UInt16 := (F.locals.slots.length - 1).toUInt16

/-- The code after the declarations of a function with a result. -/
theorem resultBody_code {typeDefs : List TypeDef} {s s' : FunctionCompiler} {varName : String}
    {ty : DataType} {body : List Statement} {start : Nat} (hf : env.functions ≠ [])
    (e : Emitted env (.new typeDefs) [] s) (hz : ZeroReturns s)
    (h : (do
      let slot ← addLocal varName (varTypeFromAst ty) (intWidthFromAst ty) false false
      let start ← currentPc
      compileStatements env body
      emitReturn slot
      return start : CompileM Nat) s = .ok (start, s'))
    (hlen : s'.instructions.length ≤ usizeMax) (name : String) (kind : PouKind) :
    LeftBy (s'.finish name kind start) (epilogueSlot (s'.finish name kind start)) := by
  have hr := e.ready (ready_new typeDefs)
  obtain ⟨slot, s1, h1, h⟩ := bind_ok h
  obtain ⟨_, s2, h2, h⟩ := bind_ok (currentPc_bind_ok h)
  obtain ⟨_, s3, h3, h⟩ := bind_ok h
  obtain ⟨rfl, rfl⟩ := pure_ok h
  obtain ⟨e1, -, -⟩ := (addLocal_emits hf varName _ _ false false).after (ready_new typeDefs) e h1
  obtain ⟨e2, -, -⟩ := (compileStatements_emits env body).after (ready_new typeDefs) e1 h2
  have hz1 : ZeroReturns s1 := by
    cases h1
    exact hz.congr rfl rfl
  have hz2 : ZeroReturns s2 :=
    (compileStatements_walks (R := fun s s' => ZeroReturns s → ZeroReturns s') (F := anyFault)
      env body).step h2 hz1
  have hslot : slot = epilogueSlot (s'.finish name kind s1.instructions.length) := by
    have hlocals : s'.locals = s1.locals :=
      ((Steady.emitReturn slot).same h3).locals.trans
        ((compileStatements_steady env body).same h2).locals
    cases h1
    simp [epilogueSlot, FunctionCompiler.finish, hlocals]
  rw [← hslot]
  exact emitReturn_code hz2 e2.labels_placed h3 hlen name kind _

/-- The code that declares variables has no `Ret`. -/
theorem compileVarBlocksInner_zeroReturns {emitInit : Bool} {blocks : List VarBlock}
    {s s' : FunctionCompiler} {u : Unit} (hz : ZeroReturns s)
    (h : compileVarBlocksInner env emitInit blocks s = .ok (u, s')) : ZeroReturns s' :=
  (compileVarBlocksInner_walks (R := fun s s' => ZeroReturns s → ZeroReturns s') (F := anyFault)
    (fun _ _ hi hl hz => hz.congr hi hl) emitInit blocks).step h hz

theorem functionBody_code {typeDefs : List TypeDef} {s : FunctionCompiler} {f : FunctionDecl}
    {start : Nat} (hf : env.functions ≠ [])
    (h : functionBody env f (.new typeDefs) = .ok (start, s))
    (hlen : s.instructions.length ≤ usizeMax) (name : String) (kind : PouKind) :
    LeftBy (s.finish name kind start) (epilogueSlot (s.finish name kind start)) := by
  obtain ⟨_, s1, h1, h⟩ := bind_ok h
  obtain ⟨e1, -⟩ := compileVarBlocksInner_emits hf true f.varBlocks _ _ s1 (ready_new typeDefs) h1
  have hz1 := compileVarBlocksInner_zeroReturns (.new typeDefs) h1
  exact resultBody_code hf e1 hz1 h hlen name kind

theorem methodBody_code {typeDefs : List TypeDef} {s : FunctionCompiler} {m : MethodDecl}
    {ty : DataType} {inherited own : List VarBlock} {start : Nat} (hf : env.functions ≠ [])
    (hty : m.returnType = some ty)
    (h : methodBody env inherited own m (.new typeDefs) = .ok (start, s))
    (hlen : s.instructions.length ≤ usizeMax) (name : String) (kind : PouKind) :
    LeftBy (s.finish name kind start) (epilogueSlot (s.finish name kind start)) := by
  obtain ⟨_, s1, h1, h⟩ := bind_ok h
  obtain ⟨_, s2, h2, h⟩ := bind_ok h
  obtain ⟨_, s3, h3, h⟩ := bind_ok h
  have hr : Ready env (.new typeDefs) := ready_new typeDefs
  obtain ⟨e1, -⟩ := compileVarBlocksInner_emits hf false inherited _ _ s1 hr h1
  obtain ⟨e2, -, -⟩ := (compileVarBlocksInner_emits hf false own).after hr e1 h2
  obtain ⟨e3, -, -⟩ := (compileVarBlocksInner_emits hf true m.varBlocks).after hr e2 h3
  have hz3 := compileVarBlocksInner_zeroReturns (compileVarBlocksInner_zeroReturns
    (compileVarBlocksInner_zeroReturns (.new typeDefs) h1) h2) h3
  rw [hty] at h
  exact resultBody_code hf e3 hz3 h hlen name kind

end

end RustPlc.Compiler
