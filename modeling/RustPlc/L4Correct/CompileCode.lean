import RustPlc.L4Correct.Code

/-!
# The compiler emits the code of the tree

The compiler places a label long after it has emitted the jumps to it. So
that the recursion over the tree can look at the finished label table, the
agreement between a state of the compiler and the finished function is
carried backwards (`Agrees`): what the function has where the compiler ends
is known first, and each step of the compiler is undone.

Results:
* `compileExpression_code`: the code of an expression;
* `compileStatements_code`: the code of a body.
-/
namespace RustPlc.Correct

open RustPlc.Ir RustPlc.Syntax RustPlc.Compiler RustPlc.Engine RustPlc.Semantics

variable {F : Function} {env : ModuleEnv} {s s' : FunctionCompiler}

/-! ## What the primitives do to the state -/

/-- The state after one more instruction. -/
def emitted (s : FunctionCompiler) (i : Instruction) : FunctionCompiler :=
  { s with
    instructions := s.instructions ++ [i]
    sourceMap := s.sourceMap ++ [locationOf s.pendingSource]
    pendingSource := none }

theorem emit_eq {i : Instruction} {u : Unit} (h : emit i s = .ok (u, s')) : s' = emitted s i := by
  simp only [emit, Except.ok.injEq, Prod.mk.injEq] at h
  exact h.2.symm

/-- The names, the loop exits and the labels of two states are the same. -/
structure SameTables (s s' : FunctionCompiler) : Prop where
  locals : s'.locals = s.locals
  exits : s'.loopExitLabels = s.loopExitLabels
  nextLabel : s'.nextLabel = s.nextLabel
  positions : s'.labelPositions = s.labelPositions

theorem SameTables.trans {s1 s2 s3 : FunctionCompiler} (h : SameTables s1 s2)
    (h' : SameTables s2 s3) : SameTables s1 s3 :=
  ⟨h'.locals.trans h.locals, h'.exits.trans h.exits, h'.nextLabel.trans h.nextLabel,
    h'.positions.trans h.positions⟩

theorem sameTables_emitted (s : FunctionCompiler) (i : Instruction) :
    SameTables s (emitted s i) := ⟨rfl, rfl, rfl, rfl⟩

theorem sameTables_setSource {range : TextRange} {u : Unit}
    (h : setSource range s = .ok (u, s')) :
    SameTables s s' ∧ s'.instructions = s.instructions ∧ s'.nextReg = s.nextReg := by
  simp only [setSource, Except.ok.injEq, Prod.mk.injEq] at h
  obtain ⟨-, rfl⟩ := h
  exact ⟨⟨rfl, rfl, rfl, rfl⟩, rfl, rfl⟩

theorem sameTables_allocReg {r : Reg} (h : allocReg s = .ok (r, s')) :
    SameTables s s' ∧ s'.instructions = s.instructions ∧ r.toNat = s.nextReg.toNat ∧
      s'.nextReg.toNat = s.nextReg.toNat + 1 := by
  unfold allocReg at h
  split at h
  · cases h
  next hne =>
    simp only [Except.ok.injEq, Prod.mk.injEq] at h
    obtain ⟨rfl, rfl⟩ := h
    have h1 : s.nextReg.toNat ≠ 65535 := fun hc => hne (UInt16.toNat_inj.mp (by simpa using hc))
    have h2 := s.nextReg.toNat_lt
    refine ⟨⟨rfl, rfl, rfl, rfl⟩, rfl, rfl, ?_⟩
    simp only [UInt16.toNat_add]
    exact Nat.mod_eq_of_lt (by simp; omega)

/-- The code emitted so far is where the finished function begins. -/
abbrev Begins (F : Function) (s : FunctionCompiler) : Prop := s.instructions <+: F.instructions

theorem Begins.emitted {i : Instruction} (h : Begins F (emitted s i)) :
    At F s.instructions.length i ∧ Begins F s := by
  obtain ⟨rest, hrest⟩ := h
  refine ⟨?_, ⟨[i] ++ rest, by rw [← hrest]; simp [Correct.emitted]⟩⟩
  unfold At
  rw [← hrest]
  simp [Correct.emitted]

theorem length_emitted (s : FunctionCompiler) (i : Instruction) :
    (emitted s i).instructions.length = s.instructions.length + 1 := by
  simp [emitted]

/-- A fresh register filled by one instruction. -/
theorem emitTo_code {g : Reg → Instruction} {r : Reg} (h : emitTo g s = .ok (r, s'))
    (hF : Begins F s') :
    At F s.instructions.length (g r) ∧ r.toNat = s.nextReg.toNat ∧
      s'.nextReg.toNat = s.nextReg.toNat + 1 ∧
      s'.instructions.length = s.instructions.length + 1 ∧ SameTables s s' ∧ Begins F s := by
  obtain ⟨dst, s1, h1, h2⟩ := bind_ok h
  obtain ⟨_, s2, h3, h4⟩ := bind_ok h2
  obtain ⟨rfl, rfl⟩ := pure_ok h4
  obtain ⟨t1, hi, hr, hn⟩ := sameTables_allocReg h1
  obtain rfl := emit_eq h3
  obtain ⟨hat, hb⟩ := hF.emitted
  unfold Begins at hb
  rw [hi] at hat hb
  refine ⟨hat, hr, hn, ?_, t1.trans (sameTables_emitted s1 (g r)), hb⟩
  rw [length_emitted, hi]

/-- The declarations the compiler of a function sees. -/
def scopeOf (env : ModuleEnv) (s : FunctionCompiler) : Scope := ⟨s.locals, env.globals⟩

theorem SameTables.scope (h : SameTables s s') : scopeOf env s' = scopeOf env s := by
  simp [scopeOf, h.locals]

/-! ## Expressions -/

theorem place_local {x : String} {slot : UInt16} (h : s.findLocal x = some slot) :
    (scopeOf env s).place x = .local slot := by
  unfold FunctionCompiler.findLocal at h
  obtain ⟨p, hp, rfl⟩ := Option.map_eq_some_iff.mp h
  simp [Scope.place, scopeOf, hp]

theorem place_global {x : String} {slot : UInt16} (h : s.findLocal x = none)
    (hg : env.findGlobal x = some slot) : (scopeOf env s).place x = .global slot := by
  unfold FunctionCompiler.findLocal at h
  unfold ModuleEnv.findGlobal at hg
  obtain ⟨p, hp, rfl⟩ := Option.map_eq_some_iff.mp hg
  have hl := Option.map_eq_none_iff.mp h
  simp [Scope.place, scopeOf, hp, hl]

theorem place_unknown {x : String} (h : s.findLocal x = none) (hg : env.findGlobal x = none) :
    (scopeOf env s).place x = .unknown := by
  unfold FunctionCompiler.findLocal at h
  unfold ModuleEnv.findGlobal at hg
  have hl := Option.map_eq_none_iff.mp h
  have hn := Option.map_eq_none_iff.mp hg
  simp [Scope.place, scopeOf, hl, hn]

/-- The load of a variable is the instruction its place asks for. -/
theorem compileLoadVariable_eq {x : String} {r : Reg}
    (h : compileLoadVariable env x s = .ok (r, s')) :
    emitTo (loadInstruction (scopeOf env s) x) s = .ok (r, s') := by
  have h' := get_bind_ok h
  unfold loadInstruction
  cases hl : s.findLocal x with
  | some slot =>
    rw [hl] at h'
    rw [place_local hl]
    exact h'
  | none =>
    cases hg : env.findGlobal x with
    | some slot =>
      rw [hl, hg] at h'
      rw [place_global hl hg]
      exact h'
    | none =>
      rw [hl, hg] at h'
      rw [place_unknown hl hg]
      exact h'

section

variable [F64Ops]

/-- The code of an expression. -/
theorem compileExpression_code : ∀ (e : Expression) {s s' : FunctionCompiler} {r : Reg},
    Expression.isScalar e = true → compileExpression env e s = .ok (r, s') → Begins F s' →
    CodeExpr F (scopeOf env s) e s.nextReg.toNat s.instructions.length r s'.nextReg.toNat
      s'.instructions.length ∧ SameTables s s' ∧ Begins F s
  | .literal kind range, s, s', r, _, h, hF => by
    obtain ⟨v, s1, h1, h2⟩ := bind_ok h
    unfold literalValue at h1
    cases hv : literalToValue kind with
    | error p =>
      rw [hv] at h1
      cases h1
    | ok w =>
      rw [hv] at h1
      simp only [Except.ok.injEq, Prod.mk.injEq] at h1
      obtain ⟨rfl, rfl⟩ := h1
      obtain ⟨hat, hr, hn, hlen, ht, hb⟩ := emitTo_code h2 hF
      exact ⟨⟨w, hv, hat, hr, hn, hlen⟩, ht, hb⟩
  | .var [.identifier x] range, s, s', r, _, h, hF => by
    have h' : compileRoot env x.name [] s = .ok (r, s') := h
    obtain ⟨r1, s1, h1, h2⟩ := bind_ok h'
    obtain ⟨rfl, rfl⟩ := pure_ok h2
    obtain ⟨hat, hr, hn, hlen, ht, hb⟩ := emitTo_code (compileLoadVariable_eq h1) hF
    exact ⟨⟨hat, hr, hn, hlen⟩, ht, hb⟩
  | .parenthesized e, s, s', r, hs, h, hF => compileExpression_code e hs h hF
  | .unary op e range, s, s', r, hs, h, hF => by
    obtain ⟨src, s1, h1, h2⟩ := bind_ok h
    obtain ⟨hat, hr, hn, hlen, ht, hb⟩ := emitTo_code h2 hF
    obtain ⟨hc, ht1, hb1⟩ := compileExpression_code e hs h1 hb
    exact ⟨⟨src, _, _, hc, hat, hr, hn, hlen⟩, ht1.trans ht, hb1⟩
  | .binary op a b range, s, s', r, hs, h, hF => by
    simp only [Expression.isScalar, Bool.and_eq_true] at hs
    obtain ⟨ra, s1, h1, h2⟩ := bind_ok h
    obtain ⟨rb, s2, h3, h4⟩ := bind_ok h2
    obtain ⟨hat, hr, hn, hlen, ht, hb⟩ := emitTo_code h4 hF
    obtain ⟨hcb, htb, hbb⟩ := compileExpression_code b hs.2 h3 hb
    obtain ⟨hca, hta, hba⟩ := compileExpression_code a hs.1 h1 hbb
    rw [hta.scope] at hcb
    exact ⟨⟨ra, rb, _, _, _, _, hca, hcb, hat, hr, hn, hlen⟩, (hta.trans htb).trans ht, hba⟩

/-! ## Selectors and stores -/

theorem compileSelector_code {v : Reg} {body : Label} (sel : CaseSelector) {u : Unit}
    (hs : selectorIsScalar sel = true) (hv : v.toNat < s.nextReg.toNat)
    (h : compileSelector env v body sel s = .ok (u, s')) (hF : Begins F s') :
    CodeSelector F (scopeOf env s) v body sel s.instructions.length s'.instructions.length ∧
      SameTables s s' ∧ Begins F s := by
  cases sel with
  | single e =>
    obtain ⟨val, s1, h1, h2⟩ := bind_ok h
    obtain ⟨cmp, s2, h3, h4⟩ := bind_ok h2
    obtain rfl := emit_eq h4
    obtain ⟨hjump, hF2⟩ := hF.emitted
    obtain ⟨hcmp, hr, hn, hlen, ht, hF1⟩ := emitTo_code h3 hF2
    obtain ⟨hc, ht1, hb⟩ := compileExpression_code e hs h1 hF1
    rw [hlen] at hjump
    refine ⟨⟨_, val, _, _, cmp, hv, hc, hr, hcmp, hjump, ?_⟩,
      (ht1.trans ht).trans (sameTables_emitted _ _), hb⟩
    rw [length_emitted, hlen]
  | range lo hi =>
    simp only [selectorIsScalar, Bool.and_eq_true] at hs
    obtain ⟨loReg, s1, h1, h⟩ := bind_ok h
    obtain ⟨hiReg, s2, h2, h⟩ := bind_ok h
    obtain ⟨cmpLo, s3, h3, h⟩ := bind_ok h
    obtain ⟨cmpHi, s4, h4, h⟩ := bind_ok h
    obtain ⟨both, s5, h5, h⟩ := bind_ok h
    obtain ⟨_, s6, h6, h⟩ := bind_ok h
    obtain ⟨_, s7, h7, h⟩ := bind_ok h
    obtain ⟨_, s8, h8, h9⟩ := bind_ok h
    obtain rfl := emit_eq h6
    obtain rfl := emit_eq h7
    obtain rfl := emit_eq h8
    obtain rfl := emit_eq h9
    obtain ⟨t3, i3, r3, n3⟩ := sameTables_allocReg h3
    obtain ⟨t4, i4, r4, n4⟩ := sameTables_allocReg h4
    obtain ⟨t5, i5, r5, n5⟩ := sameTables_allocReg h5
    -- the four instructions, from the last to the first
    obtain ⟨hjump, g8⟩ := hF.emitted
    obtain ⟨hand, g7⟩ := g8.emitted
    obtain ⟨hle, g6⟩ := g7.emitted
    obtain ⟨hge, g5⟩ := g6.emitted
    have hlen : s5.instructions.length = s2.instructions.length := by rw [i5, i4, i3]
    unfold Begins at g5
    rw [i5, i4, i3] at g5
    obtain ⟨hchi, hthi, g1⟩ := compileExpression_code hi hs.2 h2 g5
    obtain ⟨hclo, htlo, g0⟩ := compileExpression_code lo hs.1 h1 g1
    rw [htlo.scope] at hchi
    simp only [length_emitted, hlen] at hjump hand hle hge
    refine ⟨⟨_, loReg, _, _, hiReg, _, _, cmpLo, cmpHi, both, hv, hclo, hchi, r3, ?_, ?_, hge, hle,
      hand, hjump, ?_⟩, ?_, g0⟩
    · omega
    · omega
    · simp only [length_emitted, hlen]
    · exact ((htlo.trans hthi).trans ((t3.trans t4).trans t5)).trans ⟨rfl, rfl, rfl, rfl⟩

theorem compileSelectors_code {v : Reg} {body : Label} : ∀ (sels : List CaseSelector)
    {s s' : FunctionCompiler} {u : Unit}, sels.all selectorIsScalar = true →
    v.toNat < s.nextReg.toNat → Ready env s → body.toNat < s.nextLabel.toNat →
    compileSelectors env v body sels s = .ok (u, s') → Begins F s' →
    CodeSelectors F (scopeOf env s) v body sels s.instructions.length s'.instructions.length ∧
      SameTables s s' ∧ Begins F s
  | [], s, s', u, _, _, _, _, h, hF => by
    obtain ⟨-, rfl⟩ := pure_ok h
    exact ⟨rfl, ⟨rfl, rfl, rfl, rfl⟩, hF⟩
  | sel :: sels, s, s', u, hs, hv, hr, hb, h, hF => by
    simp only [List.all_cons, Bool.and_eq_true] at hs
    obtain ⟨_, s1, h1, h2⟩ := bind_ok h
    have e1 := compileSelector_emits sel hr hv hb h1
    obtain ⟨hc, ht, g1⟩ := compileSelectors_code sels hs.2 (e1.regIn hv) (e1.ready hr)
      (Nat.lt_of_lt_of_le hb e1.labels) h2 hF
    obtain ⟨hc1, ht1, g⟩ := compileSelector_code sel hs.1 hv h1 g1
    rw [ht1.scope] at hc
    exact ⟨⟨_, hc1, hc⟩, ht1.trans ht, g⟩

omit [F64Ops] in
theorem emitSourced_code {i : Instruction} {range : TextRange} {u : Unit}
    (h : emitSourced i range s = .ok (u, s')) (hF : Begins F s') :
    At F s.instructions.length i ∧ s'.instructions.length = s.instructions.length + 1 ∧
      SameTables s s' ∧ Begins F s := by
  obtain ⟨_, s1, h1, h2⟩ := bind_ok h
  obtain ⟨t1, i1, -⟩ := sameTables_setSource h1
  obtain rfl := emit_eq h2
  obtain ⟨hat, hb⟩ := hF.emitted
  unfold Begins at hb
  rw [i1] at hat hb
  refine ⟨hat, ?_, t1.trans (sameTables_emitted _ _), hb⟩
  rw [length_emitted, i1]

omit [F64Ops] in
theorem compileStoreRoot_code {x : String} {val : Reg} {range : TextRange} {u : Unit}
    (h : compileStoreRoot env x val range s = .ok (u, s')) (hF : Begins F s') :
    CodeStore F (scopeOf env s) x val s.instructions.length s'.instructions.length ∧
      SameTables s s' ∧ Begins F s := by
  have h' := get_bind_ok h
  unfold CodeStore
  cases hl : s.findLocal x with
  | some slot =>
    rw [hl] at h'
    rw [place_local hl]
    obtain ⟨hat, hlen, ht, hb⟩ := emitSourced_code h' hF
    exact ⟨⟨hat, hlen⟩, ht, hb⟩
  | none =>
    cases hg : env.findGlobal x with
    | some slot =>
      rw [hl, hg] at h'
      rw [place_global hl hg]
      obtain ⟨hat, hlen, ht, hb⟩ := emitSourced_code h' hF
      exact ⟨⟨hat, hlen⟩, ht, hb⟩
    | none =>
      rw [hl, hg] at h'
      rw [place_unknown hl hg]
      obtain ⟨-, rfl⟩ := pure_ok h'
      exact ⟨rfl, ⟨rfl, rfl, rfl, rfl⟩, hF⟩

end

/-! ## Labels, backwards -/

/-- The finished function begins with the code of `s`, and has the labels
from `lo` on where `s` has them, those in `U` excepted. -/
structure Agrees (F : Function) (lo : Nat) (U : List Label) (s : FunctionCompiler) : Prop where
  code : Begins F s
  labels : ∀ l, lo ≤ l → l < s.nextLabel.toNat → (∀ u ∈ U, u.toNat ≠ l) →
    F.labelPositions[l]? = s.labelPositions[l]?

namespace Agrees

variable {lo : Nat} {U : List Label}

/-- Undo a walk that left no label open. -/
theorem back (h : Agrees F lo U s') (e : Emitted env s [] s') : Agrees F lo U s where
  code := by
    obtain ⟨new, hn, -⟩ := e.code
    exact List.IsPrefix.trans ⟨new, hn.symm⟩ h.code
  labels := by
    intro l h1 h2 hu
    rw [h.labels l h1 (Nat.lt_of_lt_of_le h2 e.labels) hu, e.frame l h2]

/-- The labels of a walk are its own: none of the open ones is among them. -/
theorem inner (h : Agrees F lo U s') (hlo : lo ≤ s.nextLabel.toNat)
    (hU : ∀ u ∈ U, u.toNat < s.nextLabel.toNat) : Agrees F s.nextLabel.toNat [] s' where
  code := h.code
  labels := by
    intro l h1 h2 _
    refine h.labels l (Nat.le_trans hlo h1) h2 fun u hu => ?_
    have := hU u hu
    omega

/-- Undo a step that touched no label. -/
theorem same (h : Agrees F lo U s') (ht : SameTables s s') (hb : Begins F s) :
    Agrees F lo U s where
  code := hb
  labels := by
    intro l h1 h2 hu
    rw [h.labels l h1 (by rw [ht.nextLabel]; exact h2) hu, ht.positions]

theorem emitted {i : Instruction} (h : Agrees F lo U (Correct.emitted s i)) :
    At F s.instructions.length i ∧ Agrees F lo U s := by
  obtain ⟨hat, hb⟩ := h.code.emitted
  exact ⟨hat, h.same (sameTables_emitted s i) hb⟩

/-- Undo the placing of a label: the function has it here. -/
theorem placeLabel {l : Label} {u : Unit} (h : Agrees F lo U s')
    (he : Compiler.placeLabel l s = .ok (u, s')) (hlo : lo ≤ l.toNat)
    (hhi : l.toNat < s.nextLabel.toNat) (hpos : s.labelPositions.length = s.nextLabel.toNat)
    (hU : ∀ u ∈ U, u.toNat ≠ l.toNat) :
    LabelAt F l s.instructions.length ∧ Agrees F lo (l :: U) s := by
  simp only [Compiler.placeLabel, Except.ok.injEq, Prod.mk.injEq] at he
  obtain ⟨-, rfl⟩ := he
  have hres : resizeLabels (l.toNat + 1) s.labelPositions = s.labelPositions := by
    unfold resizeLabels
    rw [hpos, Nat.sub_eq_zero_of_le (by omega)]
    simp
  have hlabels := h.labels
  simp only [hres] at hlabels
  refine ⟨?_, ⟨h.code, ?_⟩⟩
  · unfold LabelAt
    rw [hlabels l.toNat hlo hhi hU]
    exact List.getElem?_set_self (by rw [hpos]; exact hhi)
  · intro k h1 h2 hu
    have hne : l.toNat ≠ k := hu l (List.mem_cons_self ..)
    rw [hlabels k h1 h2 fun u hm => hu u (List.mem_cons_of_mem _ hm)]
    exact List.getElem?_set_ne hne

end Agrees

/-! ## Going on after a primitive -/

theorem ready_emitted (h : Ready env s) (i : Instruction) : Ready env (emitted s i) :=
  ⟨h.positions, h.exits, h.host⟩

theorem ready_setSource {range : TextRange} {u : Unit} (h : Ready env s)
    (he : setSource range s = .ok (u, s')) : Ready env s' :=
  ((Emitted.refl h).setSource he).ready h

theorem ready_allocLabel {l : Label} (h : Ready env s) (he : allocLabel s = .ok (l, s')) :
    Ready env s' ∧ l.toNat = s.nextLabel.toNat ∧ s'.nextLabel.toNat = l.toNat + 1 ∧
      s'.locals = s.locals ∧ s'.loopExitLabels = s.loopExitLabels ∧
      s'.instructions = s.instructions := by
  obtain ⟨e, hl, hn, -, hloc⟩ := (Emitted.refl h).allocLabel he
  refine ⟨e.ready h, hl, hn, hloc, e.exits, ?_⟩
  unfold Compiler.allocLabel at he
  split at he
  · cases he
  · simp only [Except.ok.injEq, Prod.mk.injEq] at he
    obtain ⟨-, rfl⟩ := he
    rfl

theorem ready_placeLabel {l : Label} {u : Unit} (h : Ready env s)
    (hl : l.toNat < s.nextLabel.toNat) (he : placeLabel l s = .ok (u, s')) :
    Ready env s' ∧ s'.nextLabel = s.nextLabel ∧ s'.nextReg = s.nextReg ∧ s'.locals = s.locals ∧
      s'.loopExitLabels = s.loopExitLabels ∧ s'.instructions = s.instructions := by
  simp only [Compiler.placeLabel, Except.ok.injEq, Prod.mk.injEq] at he
  obtain ⟨-, rfl⟩ := he
  refine ⟨⟨?_, h.exits, h.host⟩, rfl, rfl, rfl, rfl, rfl⟩
  have := h.positions
  simp only [List.length_set, resizeLabels, List.length_append, List.length_replicate]
  omega

theorem pushLoopExit_eq {l : Label} {u : Unit} (h : pushLoopExit l s = .ok (u, s')) :
    s' = { s with loopExitLabels := l :: s.loopExitLabels } := by
  simp only [pushLoopExit, Except.ok.injEq, Prod.mk.injEq] at h
  exact h.2.symm

theorem popLoopExit_eq {u : Unit} (h : popLoopExit s = .ok (u, s')) :
    s' = { s with loopExitLabels := s.loopExitLabels.tail } := by
  simp only [popLoopExit, Except.ok.injEq, Prod.mk.injEq] at h
  exact h.2.symm

theorem scopeOf_eq (h : s'.locals = s.locals) : scopeOf env s' = scopeOf env s := by
  simp [scopeOf, h]

/-! ## Statements -/

section

variable [F64Ops]

mutual

theorem compileStatement_code : ∀ (st : Statement) {s s' : FunctionCompiler} {u : Unit},
    Statement.isScalar st = true → Ready env s → compileStatement env st s = .ok (u, s') →
    Agrees F s.nextLabel.toNat [] s' →
    CodeStatement F (scopeOf env s) st s.loopExitLabels.head? s.instructions.length
      s'.instructions.length ∧ s'.locals = s.locals
  | .assignment ⟨[.identifier x], _⟩ value range, s, s', u, hs, hr, h, hF => by
    obtain ⟨_, s1, h1, h⟩ := bind_ok h
    obtain ⟨val, s2, h2, h3⟩ := bind_ok h
    obtain ⟨t1, i1, -⟩ := sameTables_setSource h1
    have h3 : compileStoreRoot env x.name val range s2 = .ok (u, s') := h3
    obtain ⟨hst, t3, g2⟩ := compileStoreRoot_code h3 hF.code
    obtain ⟨hex, t2, -⟩ := compileExpression_code value hs h2 g2
    rw [t2.scope, t1.scope] at hst
    rw [t1.scope, i1] at hex
    exact ⟨⟨_, val, _, _, hex, hst⟩, ((t1.trans t2).trans t3).locals⟩
  | .ifStmt condition thenBody elsifs elseBody range, s, s', u, hs, hr, h, hF => by
    simp only [Statement.isScalar, Bool.and_eq_true] at hs
    obtain ⟨_, s1, h1, h⟩ := bind_ok h
    obtain ⟨endLabel, s2, h2, h⟩ := bind_ok h
    obtain ⟨elseLabel, s3, h3, h⟩ := bind_ok h
    obtain ⟨cond, s4, h4, h⟩ := bind_ok h
    obtain ⟨_, s5, h5, h⟩ := bind_ok h
    obtain ⟨_, s6, h6, h⟩ := bind_ok h
    obtain ⟨_, s7, h7, h⟩ := bind_ok h
    obtain ⟨_, s8, h8, h⟩ := bind_ok h
    obtain ⟨_, s9, h9, h⟩ := bind_ok h
    obtain ⟨_, s10, h10, h11⟩ := bind_ok h
    obtain rfl := emit_eq h5
    obtain rfl := emit_eq h7
    -- forwards: where the compiler can go on, and the numbers of the labels
    obtain ⟨t1, i1, -⟩ := sameTables_setSource h1
    have r1 := ready_setSource hr h1
    obtain ⟨r2, a2, n2, v2, x2, i2⟩ := ready_allocLabel r1 h2
    obtain ⟨r3, a3, n3, v3, x3, i3⟩ := ready_allocLabel r2 h3
    have e4 := (compileExpression_emits env condition s3 _ s4 r3 h4).1
    have r5 := ready_emitted (e4.ready r3) (.jumpIfNot cond elseLabel)
    have e6 := (compileStatements_emits env thenBody _ _ s6 r5 h6).1
    have r7 := ready_emitted (e6.ready r5) (.jump endLabel)
    have l1 : s1.nextLabel.toNat = s.nextLabel.toNat := by rw [t1.nextLabel]
    have l4 := e4.labels
    have l6 : s4.nextLabel.toNat ≤ s6.nextLabel.toNat := e6.labels
    have l7 : (emitted s6 (.jump endLabel)).nextLabel.toNat = s6.nextLabel.toNat := rfl
    obtain ⟨r8, n8, -, v8, x8, i8⟩ := ready_placeLabel r7 (by omega) h8
    have l8 : s8.nextLabel.toNat = s6.nextLabel.toNat := by rw [n8, l7]
    have e9 := compileElsifs_emits env elsifs s8 s9 endLabel _ r8 (by omega) h9
    have r9 := e9.ready r8
    have l9 := e9.labels
    have e10 := (compileElse_emits env elseBody s9 _ s10 r9 h10).1
    have l10 := e10.labels
    obtain ⟨r11, n11, -, v11, -, i11⟩ := ready_placeLabel (e10.ready r9) (by omega) h11
    -- backwards: what the finished function has
    obtain ⟨hend, g10⟩ := hF.placeLabel h11 (by omega) (by omega) (e10.ready r9).positions (by simp)
    have g9 := g10.back e10
    have g8 := g9.back e9
    obtain ⟨helse, g7⟩ := g8.placeLabel h8 (by omega) (by omega) r7.positions
      (by simp only [List.forall_mem_singleton]; omega)
    obtain ⟨hjump, g6⟩ := g7.emitted
    obtain ⟨htest, g4⟩ := (g6.back e6).emitted
    obtain ⟨hcond, t4, -⟩ := compileExpression_code condition hs.1.1.1 h4 g4.code
    have v4 : s4.locals = s.locals := by rw [t4.locals, v3, v2, t1.locals]
    obtain ⟨hthen, v6⟩ := compileStatements_code thenBody hs.1.1.2 r5 h6
      (g6.inner (by show _ ≤ s4.nextLabel.toNat; omega) (by
        simp only [List.forall_mem_cons]
        show elseLabel.toNat < s4.nextLabel.toNat ∧ endLabel.toNat < s4.nextLabel.toNat ∧ _
        exact ⟨by omega, by omega, by simp⟩))
    have v6' : s6.locals = s.locals := v6.trans v4
    have x4 : s4.loopExitLabels = s.loopExitLabels := by rw [t4.exits, x3, x2, t1.exits]
    have x6 : s6.loopExitLabels = s.loopExitLabels := e6.exits.trans x4
    have v8' : s8.locals = s.locals := v8.trans v6'
    have x8' : s8.loopExitLabels = s.loopExitLabels := x8.trans x6
    have i8' : s8.instructions.length = s6.instructions.length + 1 := by rw [i8, length_emitted]
    obtain ⟨helsifs, v9⟩ := compileElsifs_code elsifs hs.1.2 r8 (by omega) h9
      (g9.inner (by omega) (by simp only [List.forall_mem_singleton]; omega))
    obtain ⟨hels, v10⟩ := compileElse_code elseBody hs.2 r9 h10
      (g10.inner (by omega) (by simp only [List.forall_mem_singleton]; omega))
    have v9' : s9.locals = s.locals := v9.trans v8'
    have hthen : CodeStatements F (scopeOf env s4) thenBody s4.loopExitLabels.head? _ _ := hthen
    rw [scopeOf_eq v4, x4, length_emitted] at hthen
    rw [scopeOf_eq (v3.trans (v2.trans t1.locals)), i3, i2, i1] at hcond
    rw [scopeOf_eq v8', x8', i8'] at helsifs
    rw [scopeOf_eq v9', e9.exits, x8'] at hels
    rw [i11]
    exact ⟨⟨_, cond, _, _, elseLabel, endLabel, _, _, hcond, htest, hthen, hjump,
      by rw [length_emitted] at helse; exact helse, helsifs, hels, hend⟩,
      v11.trans (v10.trans v9')⟩
  | .caseStmt expression branches elseBody range, s, s', u, hs, hr, h, hF => by
    simp only [Statement.isScalar, Bool.and_eq_true] at hs
    obtain ⟨_, s1, h1, h⟩ := bind_ok h
    obtain ⟨endLabel, s2, h2, h⟩ := bind_ok h
    obtain ⟨expr, s3, h3, h⟩ := bind_ok h
    obtain ⟨_, s4, h4, h⟩ := bind_ok h
    obtain ⟨_, s5, h5, h6⟩ := bind_ok h
    obtain ⟨t1, i1, -⟩ := sameTables_setSource h1
    have r1 := ready_setSource hr h1
    obtain ⟨r2, a2, n2, v2, x2, i2⟩ := ready_allocLabel r1 h2
    obtain ⟨e3, q3⟩ := compileExpression_emits env expression s2 _ s3 r2 h3
    have r3 := e3.ready r2
    have l1 : s1.nextLabel.toNat = s.nextLabel.toNat := by rw [t1.nextLabel]
    have l3 := e3.labels
    have e4 := compileBranches_emits env branches s3 s4 endLabel expr _ r3 (by omega) q3 h4
    have r4 := e4.ready r3
    have l4 := e4.labels
    have e5 := (compileElse_emits env elseBody s4 _ s5 r4 h5).1
    have l5 := e5.labels
    obtain ⟨r6, n6, -, v6, -, i6⟩ := ready_placeLabel (e5.ready r4) (by omega) h6
    obtain ⟨hend, g5⟩ := hF.placeLabel h6 (by omega) (by omega) (e5.ready r4).positions (by simp)
    have g4 := g5.back e5
    have g3 := g4.back e4
    obtain ⟨hexpr, t3, -⟩ := compileExpression_code expression hs.1.1 h3 g3.code
    have v3 : s3.locals = s.locals := by rw [t3.locals, v2, t1.locals]
    have x3 : s3.loopExitLabels = s.loopExitLabels := by rw [t3.exits, x2, t1.exits]
    obtain ⟨hbranches, v4⟩ := compileBranches_code branches hs.1.2 r3 (by omega) q3 h4
      (g4.inner (by omega) (by simp only [List.forall_mem_singleton]; omega))
    have v4' : s4.locals = s.locals := v4.trans v3
    obtain ⟨hels, v5⟩ := compileElse_code elseBody hs.2 r4 h5
      (g5.inner (by omega) (by simp only [List.forall_mem_singleton]; omega))
    rw [scopeOf_eq (v2.trans t1.locals), i2, i1] at hexpr
    rw [scopeOf_eq v3, x3] at hbranches
    rw [scopeOf_eq v4', e4.exits, x3] at hels
    rw [i6]
    exact ⟨⟨_, expr, _, _, endLabel, _, hexpr, hbranches, hels, hend⟩, v6.trans (v5.trans v4')⟩
  | .whileStmt condition body range, s, s', u, hs, hr, h, hF => by
    simp only [Statement.isScalar, Bool.and_eq_true] at hs
    obtain ⟨_, s1, h1, h⟩ := bind_ok h
    obtain ⟨loopLabel, s2, h2, h⟩ := bind_ok h
    obtain ⟨exitLabel, s3, h3, h⟩ := bind_ok h
    obtain ⟨_, s4, h4, h⟩ := bind_ok h
    obtain ⟨cond, s5, h5, h⟩ := bind_ok h
    obtain ⟨_, s6, h6, h⟩ := bind_ok h
    obtain ⟨_, s7, h7, h⟩ := bind_ok h
    obtain ⟨_, s8, h8, h⟩ := bind_ok h
    obtain ⟨_, s9, h9, h⟩ := bind_ok h
    obtain ⟨_, s10, h10, h11⟩ := bind_ok h
    obtain rfl := emit_eq h6
    obtain rfl := emit_eq h10
    obtain ⟨t1, i1, -⟩ := sameTables_setSource h1
    have r1 := ready_setSource hr h1
    obtain ⟨r2, a2, n2, v2, x2, i2⟩ := ready_allocLabel r1 h2
    obtain ⟨r3, a3, n3, v3, x3, i3⟩ := ready_allocLabel r2 h3
    have l1 : s1.nextLabel.toNat = s.nextLabel.toNat := by rw [t1.nextLabel]
    obtain ⟨r4, n4, -, v4, x4, i4⟩ := ready_placeLabel r3 (by omega) h4
    have l4 : s4.nextLabel.toNat = s3.nextLabel.toNat := by rw [n4]
    have e5 := (compileExpression_emits env condition s4 _ s5 r4 h5).1
    have l5 := e5.labels
    have r6 := ready_emitted (e5.ready r4) (.jumpIfNot cond exitLabel)
    have r7 := Emitted.ready_push r6 (by show _ < s5.nextLabel.toNat; omega) h7
    have e8 := (compileStatements_emits env body s7 _ s8 r7 h8).1
    have e9 := Emitted.loopBody h7 e8 h9
    have r9 := e9.ready r6
    have l9 : s5.nextLabel.toNat ≤ s9.nextLabel.toNat := e9.labels
    have r10 := ready_emitted r9 (.jump loopLabel)
    obtain ⟨r11, n11, -, v11, -, i11⟩ := ready_placeLabel r10
      (by show _ < s9.nextLabel.toNat; omega) h11
    obtain ⟨hexit, g10⟩ := hF.placeLabel h11 (by omega) (by show _ < s9.nextLabel.toNat; omega)
      r10.positions (by simp)
    obtain ⟨hjump, g9⟩ := g10.emitted
    obtain ⟨htest, g5⟩ := (g9.back e9).emitted
    obtain ⟨hcond, t5, g4⟩ := compileExpression_code condition hs.1 h5 g5.code
    obtain ⟨hloop, -⟩ := (g5.same t5 g4).placeLabel h4 (by omega) (by omega) r3.positions
      (by simp only [List.forall_mem_singleton]; omega)
    have v5 : s5.locals = s.locals := by rw [t5.locals, v4, v3, v2, t1.locals]
    obtain rfl := pushLoopExit_eq h7
    obtain rfl := popLoopExit_eq h9
    have g8 : Agrees F s.nextLabel.toNat [exitLabel] s8 := ⟨g9.code, g9.labels⟩
    obtain ⟨hbody, v8⟩ := compileStatements_code body hs.2 r7 h8
      (g8.inner (by show _ ≤ s5.nextLabel.toNat; omega)
        (by simp only [List.forall_mem_singleton]; show _ < s5.nextLabel.toNat; omega))
    have hbody : CodeStatements F (scopeOf env s5) body (some exitLabel)
      (emitted s5 (.jumpIfNot cond exitLabel)).instructions.length _ := hbody
    rw [scopeOf_eq v5, length_emitted] at hbody
    rw [i3, i2, i1] at hloop
    rw [scopeOf_eq (v4.trans (v3.trans (v2.trans t1.locals))), i4, i3, i2, i1] at hcond
    rw [i11]
    refine ⟨⟨_, cond, _, _, loopLabel, exitLabel, _, hloop, hcond, htest, hbody, hjump,
      length_emitted _ _, hexit⟩, ?_⟩
    rw [v11]
    exact v8.trans v5
  | .repeatStmt body condition range, s, s', u, hs, hr, h, hF => by
    simp only [Statement.isScalar, Bool.and_eq_true] at hs
    obtain ⟨_, s1, h1, h⟩ := bind_ok h
    obtain ⟨loopLabel, s2, h2, h⟩ := bind_ok h
    obtain ⟨exitLabel, s3, h3, h⟩ := bind_ok h
    obtain ⟨_, s4, h4, h⟩ := bind_ok h
    obtain ⟨_, s5, h5, h⟩ := bind_ok h
    obtain ⟨_, s6, h6, h⟩ := bind_ok h
    obtain ⟨_, s7, h7, h⟩ := bind_ok h
    obtain ⟨cond, s8, h8, h⟩ := bind_ok h
    obtain ⟨_, s9, h9, h10⟩ := bind_ok h
    obtain rfl := emit_eq h9
    obtain ⟨t1, i1, -⟩ := sameTables_setSource h1
    have r1 := ready_setSource hr h1
    obtain ⟨r2, a2, n2, v2, x2, i2⟩ := ready_allocLabel r1 h2
    obtain ⟨r3, a3, n3, v3, x3, i3⟩ := ready_allocLabel r2 h3
    have l1 : s1.nextLabel.toNat = s.nextLabel.toNat := by rw [t1.nextLabel]
    obtain ⟨r4, n4, -, v4, x4, i4⟩ := ready_placeLabel r3 (by omega) h4
    have l4 : s4.nextLabel.toNat = s3.nextLabel.toNat := by rw [n4]
    have r5 := Emitted.ready_push r4 (by omega) h5
    have e6 := (compileStatements_emits env body s5 _ s6 r5 h6).1
    have e7 := Emitted.loopBody h5 e6 h7
    have r7 := e7.ready r4
    have l7 := e7.labels
    have e8 := (compileExpression_emits env condition s7 _ s8 r7 h8).1
    have l8 := e8.labels
    have r9 := ready_emitted (e8.ready r7) (.jumpIfNot cond loopLabel)
    obtain ⟨r10, n10, -, v10, -, i10⟩ := ready_placeLabel r9
      (by show _ < s8.nextLabel.toNat; omega) h10
    obtain ⟨hexit, g9⟩ := hF.placeLabel h10 (by omega) (by show _ < s8.nextLabel.toNat; omega)
      r9.positions (by simp)
    obtain ⟨htest, g8⟩ := g9.emitted
    obtain ⟨hcond, t8, g7⟩ := compileExpression_code condition hs.2 h8 g8.code
    have g7 := g8.same t8 g7
    obtain ⟨hloop, -⟩ := (g7.back e7).placeLabel h4 (by omega) (by omega) r3.positions
      (by simp only [List.forall_mem_singleton]; omega)
    have v4' : s4.locals = s.locals := by rw [v4, v3, v2, t1.locals]
    have i4' : s4.instructions.length = s.instructions.length := by rw [i4, i3, i2, i1]
    obtain rfl := pushLoopExit_eq h5
    obtain rfl := popLoopExit_eq h7
    have g6 : Agrees F s.nextLabel.toNat [exitLabel] s6 := ⟨g7.code, g7.labels⟩
    obtain ⟨hbody, v6⟩ := compileStatements_code body hs.1 r5 h6
      (g6.inner (by show _ ≤ s4.nextLabel.toNat; omega)
        (by simp only [List.forall_mem_singleton]; show _ < s4.nextLabel.toNat; omega))
    have hbody : CodeStatements F (scopeOf env s4) body (some exitLabel)
      s4.instructions.length _ := hbody
    have v6' : s6.locals = s.locals := v6.trans v4'
    have hcond : CodeExpr F (scopeOf env s6) condition _ s6.instructions.length cond _ _ := hcond
    rw [scopeOf_eq v4', i4'] at hbody
    rw [scopeOf_eq v6'] at hcond
    rw [i3, i2, i1] at hloop
    rw [i10]
    refine ⟨⟨_, cond, _, _, loopLabel, exitLabel, _, hloop, hbody, hcond, htest,
      length_emitted _ _, hexit⟩, ?_⟩
    rw [v10]
    exact t8.locals.trans v6'
  | .exit range, s, s', u, hs, hr, h, hF => by
    obtain ⟨_, s1, h1, h⟩ := bind_ok h
    obtain ⟨t1, i1, -⟩ := sameTables_setSource h1
    have h2 := get_bind_ok h
    rw [t1.exits] at h2
    cases hx : s.loopExitLabels with
    | nil =>
      rw [hx] at h2
      obtain ⟨-, rfl⟩ := pure_ok h2
      exact ⟨by rw [i1]; rfl, t1.locals⟩
    | cons l ls =>
      rw [hx] at h2
      obtain rfl := emit_eq h2
      obtain ⟨hat, -⟩ := hF.emitted
      rw [i1] at hat
      exact ⟨⟨hat, by rw [length_emitted, i1]⟩, t1.locals⟩
  | .empty range, s, s', u, hs, hr, h, hF => by
    obtain ⟨t1, i1, -⟩ := sameTables_setSource h
    exact ⟨by rw [i1]; rfl, t1.locals⟩

theorem compileStatements_code : ∀ (sts : List Statement) {s s' : FunctionCompiler} {u : Unit},
    statementsScalar sts = true → Ready env s → compileStatements env sts s = .ok (u, s') →
    Agrees F s.nextLabel.toNat [] s' →
    CodeStatements F (scopeOf env s) sts s.loopExitLabels.head? s.instructions.length
      s'.instructions.length ∧ s'.locals = s.locals
  | [], s, s', u, _, _, h, hF => by
    obtain ⟨-, rfl⟩ := pure_ok h
    exact ⟨rfl, rfl⟩
  | st :: sts, s, s', u, hs, hr, h, hF => by
    simp only [statementsScalar, Bool.and_eq_true] at hs
    obtain ⟨_, s1, h1, h2⟩ := bind_ok h
    have e1 := (compileStatement_emits env st s _ s1 hr h1).1
    have e2 := (compileStatements_emits env sts s1 _ s' (e1.ready hr) h2).1
    obtain ⟨hst, v1⟩ := compileStatement_code st hs.1 hr h1 (hF.back e2)
    obtain ⟨hsts, v2⟩ := compileStatements_code sts hs.2 (e1.ready hr) h2
      (hF.inner e1.labels (by simp))
    rw [scopeOf_eq v1, e1.exits] at hsts
    exact ⟨⟨_, hst, hsts⟩, v2.trans v1⟩

theorem compileElse_code : ∀ (els : Option (List Statement)) {s s' : FunctionCompiler} {u : Unit},
    elseIsScalar els = true → Ready env s → compileElse env els s = .ok (u, s') →
    Agrees F s.nextLabel.toNat [] s' →
    CodeElse F (scopeOf env s) els s.loopExitLabels.head? s.instructions.length
      s'.instructions.length ∧ s'.locals = s.locals
  | none, s, s', u, _, _, h, hF => by
    obtain ⟨-, rfl⟩ := pure_ok h
    exact ⟨rfl, rfl⟩
  | some body, s, s', u, hs, hr, h, hF => compileStatements_code body hs hr h hF

theorem compileElsifs_code : ∀ (clauses : List ElsifClause) {s s' : FunctionCompiler} {u : Unit}
    {endLabel : Label}, elsifsScalar clauses = true → Ready env s →
    endLabel.toNat < s.nextLabel.toNat → compileElsifs env endLabel clauses s = .ok (u, s') →
    Agrees F s.nextLabel.toNat [] s' →
    CodeElsifs F (scopeOf env s) clauses s.loopExitLabels.head? endLabel s.instructions.length
      s'.instructions.length ∧ s'.locals = s.locals
  | [], s, s', u, endLabel, _, _, _, h, hF => by
    obtain ⟨-, rfl⟩ := pure_ok h
    exact ⟨rfl, rfl⟩
  | .mk condition body :: clauses, s, s', u, endLabel, hs, hr, hend, h, hF => by
    simp only [elsifsScalar, Bool.and_eq_true] at hs
    obtain ⟨nextLabel, s1, h1, h⟩ := bind_ok h
    obtain ⟨cond, s2, h2, h⟩ := bind_ok h
    obtain ⟨_, s3, h3, h⟩ := bind_ok h
    obtain ⟨_, s4, h4, h⟩ := bind_ok h
    obtain ⟨_, s5, h5, h⟩ := bind_ok h
    obtain ⟨_, s6, h6, h7⟩ := bind_ok h
    obtain rfl := emit_eq h3
    obtain rfl := emit_eq h5
    obtain ⟨r1, a1, n1, v1, x1, i1⟩ := ready_allocLabel hr h1
    have e2 := (compileExpression_emits env condition s1 _ s2 r1 h2).1
    have l2 := e2.labels
    have r3 := ready_emitted (e2.ready r1) (.jumpIfNot cond nextLabel)
    have e4 := (compileStatements_emits env body _ _ s4 r3 h4).1
    have l4 : s2.nextLabel.toNat ≤ s4.nextLabel.toNat := e4.labels
    have r5 := ready_emitted (e4.ready r3) (.jump endLabel)
    obtain ⟨r6, n6, -, v6, x6, i6⟩ := ready_placeLabel r5
      (by show _ < s4.nextLabel.toNat; omega) h6
    have l6 : s6.nextLabel.toNat = s4.nextLabel.toNat := by rw [n6]; rfl
    have e7 := compileElsifs_emits env clauses s6 s' endLabel u r6 (by omega) h7
    obtain ⟨hnext, g5⟩ := (hF.back e7).placeLabel h6 (by omega)
      (by show _ < s4.nextLabel.toNat; omega) r5.positions (by simp)
    obtain ⟨hjump, g4⟩ := g5.emitted
    obtain ⟨htest, g2⟩ := (g4.back e4).emitted
    obtain ⟨hcond, t2, -⟩ := compileExpression_code condition hs.1.1 h2 g2.code
    have v2 : s2.locals = s.locals := t2.locals.trans v1
    have x2 : s2.loopExitLabels = s.loopExitLabels := t2.exits.trans x1
    obtain ⟨hbody, v4⟩ := compileStatements_code body hs.1.2 r3 h4
      (g4.inner (by show _ ≤ s2.nextLabel.toNat; omega)
        (by simp only [List.forall_mem_singleton]; show _ < s2.nextLabel.toNat; omega))
    have v6' : s6.locals = s.locals := v6.trans (v4.trans v2)
    have x6' : s6.loopExitLabels = s.loopExitLabels := x6.trans (e4.exits.trans x2)
    have i6' : s6.instructions.length = s4.instructions.length + 1 := by rw [i6, length_emitted]
    obtain ⟨hclauses, v7⟩ := compileElsifs_code clauses hs.2 r6 (by omega) h7
      (hF.inner (by omega) (by simp))
    have hbody : CodeStatements F (scopeOf env s2) body s2.loopExitLabels.head? _ _ := hbody
    rw [scopeOf_eq v2, x2, length_emitted] at hbody
    rw [scopeOf_eq v1, i1] at hcond
    rw [scopeOf_eq v6', x6', i6'] at hclauses
    rw [length_emitted] at hnext
    exact ⟨⟨_, cond, _, _, nextLabel, _, hcond, htest, hbody, hjump, hnext, hclauses⟩,
      v7.trans v6'⟩

theorem compileBranches_code : ∀ (branches : List CaseBranch) {s s' : FunctionCompiler} {u : Unit}
    {endLabel : Label} {v : Reg}, branchesScalar branches = true → Ready env s →
    endLabel.toNat < s.nextLabel.toNat → RegIn v s →
    compileBranches env endLabel v branches s = .ok (u, s') →
    Agrees F s.nextLabel.toNat [] s' →
    CodeBranches F (scopeOf env s) branches s.loopExitLabels.head? endLabel v s.instructions.length
      s'.instructions.length ∧ s'.locals = s.locals
  | [], s, s', u, endLabel, v, _, _, _, _, h, hF => by
    obtain ⟨-, rfl⟩ := pure_ok h
    exact ⟨rfl, rfl⟩
  | .mk selectors body :: branches, s, s', u, endLabel, v, hs, hr, hend, hv, h, hF => by
    simp only [branchesScalar, Bool.and_eq_true] at hs
    obtain ⟨bodyLabel, s1, h1, h⟩ := bind_ok h
    obtain ⟨nextLabel, s2, h2, h⟩ := bind_ok h
    obtain ⟨_, s3, h3, h⟩ := bind_ok h
    obtain ⟨_, s4, h4, h⟩ := bind_ok h
    obtain ⟨_, s5, h5, h⟩ := bind_ok h
    obtain ⟨_, s6, h6, h⟩ := bind_ok h
    obtain ⟨_, s7, h7, h⟩ := bind_ok h
    obtain ⟨_, s8, h8, h9⟩ := bind_ok h
    obtain rfl := emit_eq h4
    obtain rfl := emit_eq h7
    obtain ⟨e1, -, -, m1, -⟩ := (Emitted.refl hr).allocLabel h1
    obtain ⟨r1, a1, n1, v1, x1, i1⟩ := ready_allocLabel hr h1
    obtain ⟨-, -, -, m2, -⟩ := (Emitted.refl r1).allocLabel h2
    obtain ⟨r2, a2, n2, v2, x2, i2⟩ := ready_allocLabel r1 h2
    have hv2 : RegIn v s2 := by
      show v.toNat < s2.nextReg.toNat
      rw [m2, m1]
      exact hv
    have e3 := compileSelectors_emits selectors r2 hv2 (by omega) h3
    have l3 := e3.labels
    have r4 := ready_emitted (e3.ready r2) (.jump nextLabel)
    obtain ⟨r5, n5, m5, v5, x5, i5⟩ := ready_placeLabel r4
      (by show _ < s3.nextLabel.toNat; omega) h5
    have l5 : s5.nextLabel.toNat = s3.nextLabel.toNat := by rw [n5]; rfl
    have e6 := (compileStatements_emits env body s5 _ s6 r5 h6).1
    have l6 := e6.labels
    have r7 := ready_emitted (e6.ready r5) (.jump endLabel)
    obtain ⟨r8, n8, m8, v8, x8, i8⟩ := ready_placeLabel r7
      (by show _ < s6.nextLabel.toNat; omega) h8
    have l8 : s8.nextLabel.toNat = s6.nextLabel.toNat := by rw [n8]; rfl
    -- the value is in a register that none of the code in between uses
    have hv8 : RegIn v s8 := by
      have q3 := e3.regIn hv2
      have q5 : RegIn v s5 := by
        show v.toNat < s5.nextReg.toNat
        rw [m5]
        exact q3
      have q6 := e6.regIn q5
      show v.toNat < s8.nextReg.toNat
      rw [m8]
      exact q6
    have e9 := compileBranches_emits env branches s8 s' endLabel v u r8 (by omega) hv8 h9
    obtain ⟨hnext, g7⟩ := (hF.back e9).placeLabel h8 (by omega)
      (by show _ < s6.nextLabel.toNat; omega) r7.positions (by simp)
    obtain ⟨hjump, g6⟩ := g7.emitted
    obtain ⟨hbodyl, g4⟩ := (g6.back e6).placeLabel h5 (by omega)
      (by show _ < s3.nextLabel.toNat; omega) r4.positions
      (by simp only [List.forall_mem_singleton]; omega)
    obtain ⟨hskip, g3⟩ := g4.emitted
    obtain ⟨hsels, t3, -⟩ := compileSelectors_code selectors hs.1.1 hv2 r2 (by omega) h3 g3.code
    have v3 : s3.locals = s.locals := t3.locals.trans (v2.trans v1)
    have x3 : s3.loopExitLabels = s.loopExitLabels := t3.exits.trans (x2.trans x1)
    have v5' : s5.locals = s.locals := v5.trans v3
    have x5' : s5.loopExitLabels = s.loopExitLabels := x5.trans x3
    have i5' : s5.instructions.length = s3.instructions.length + 1 := by rw [i5, length_emitted]
    obtain ⟨hbody, v6⟩ := compileStatements_code body hs.1.2 r5 h6
      (g6.inner (by omega) (by simp only [List.forall_mem_singleton]; omega))
    have v8' : s8.locals = s.locals := v8.trans (v6.trans v5')
    have x8' : s8.loopExitLabels = s.loopExitLabels := x8.trans (e6.exits.trans x5')
    have i8' : s8.instructions.length = s6.instructions.length + 1 := by rw [i8, length_emitted]
    obtain ⟨hbranches, v9⟩ := compileBranches_code branches hs.2 r8 (by omega) hv8 h9
      (hF.inner (by omega) (by simp))
    rw [scopeOf_eq (v2.trans v1), i2, i1] at hsels
    rw [scopeOf_eq v5', x5', i5'] at hbody
    rw [scopeOf_eq v8', x8', i8'] at hbranches
    rw [length_emitted] at hbodyl hnext
    exact ⟨⟨_, bodyLabel, nextLabel, _, hsels, hskip, hbodyl, hbody, hjump, hnext, hbranches⟩,
      v9.trans v8'⟩

end

end

end RustPlc.Correct
