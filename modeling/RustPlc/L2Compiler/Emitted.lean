import RustPlc.L1Ir.WellFormed
import RustPlc.L2Compiler.CompileModule

/-!
# What the function compiler emits

`Emitted env s₀ U s`: going from `s₀` to `s` appended instructions that fit
the tables of `s`, allocated registers and labels upwards, left the labels
that existed before alone, and placed every label allocated in between
except those in `U`.

Every construct keeps this relation. A label is opened by `allocLabel`, and
closed by `placeLabel`; a whole construct leaves none open.

Results:
* `compileExpression_emitted`, `compileStatement_emitted`: the two recursive
  walks;
* `compileVarBlocksInner_emitted`: the declarations.
-/
namespace RustPlc.Compiler

open RustPlc.Ir RustPlc.Syntax

/-! ## The monad -/

section

variable {α β : Type} {s s' : FunctionCompiler}

theorem bind_ok {x : CompileM α} {f : α → CompileM β} {r : β × FunctionCompiler}
    (h : (x >>= f) s = .ok r) : ∃ a s1, x s = .ok (a, s1) ∧ f a s1 = .ok r := by
  change (x s >>= fun p => f p.1 p.2) = .ok r at h
  cases hx : x s with
  | error e =>
    rw [hx] at h
    cases h
  | ok p =>
    rw [hx] at h
    exact ⟨p.1, p.2, rfl, h⟩

theorem pure_ok {a b : α} (h : (pure a : CompileM α) s = .ok (b, s')) : b = a ∧ s' = s := by
  have h' : (Except.ok (a, s) : Except CompileFault _) = .ok (b, s') := h
  simp only [Except.ok.injEq, Prod.mk.injEq] at h'
  exact ⟨h'.1.symm, h'.2.symm⟩

theorem get_bind_ok {f : FunctionCompiler → CompileM β} {r : β × FunctionCompiler}
    (h : (get >>= f) s = .ok r) : f s s = .ok r := h

theorem liftFault_bind_ok {x : Except CompileFault α} {f : α → CompileM β}
    {r : β × FunctionCompiler} (h : (liftFault x >>= f) s = .ok r) :
    ∃ a, x = .ok a ∧ f a s = .ok r := by
  obtain ⟨a, s1, h1, h2⟩ := bind_ok h
  unfold liftFault at h1
  cases x with
  | error e => cases h1
  | ok b =>
    simp only [Except.map, Except.ok.injEq, Prod.mk.injEq] at h1
    obtain ⟨rfl, rfl⟩ := h1
    exact ⟨b, rfl, h2⟩

end

/-! ## The relation -/

/-- The tables the emitted code may index. -/
def FunctionCompiler.limits (env : ModuleEnv) (s : FunctionCompiler) : Limits :=
  ⟨s.nextReg.toNat, s.nextLabel.toNat, s.locals.slots.length, env.globals.slots.length,
    env.functions.length⟩

@[simp] theorem FunctionCompiler.limits_regs (env : ModuleEnv) (s : FunctionCompiler) :
    (s.limits env).regs = s.nextReg.toNat := rfl

@[simp] theorem FunctionCompiler.limits_labels (env : ModuleEnv) (s : FunctionCompiler) :
    (s.limits env).labels = s.nextLabel.toNat := rfl

@[simp] theorem FunctionCompiler.limits_locals (env : ModuleEnv) (s : FunctionCompiler) :
    (s.limits env).locals = s.locals.slots.length := rfl

@[simp] theorem FunctionCompiler.limits_globals (env : ModuleEnv) (s : FunctionCompiler) :
    (s.limits env).globals = env.globals.slots.length := rfl

@[simp] theorem FunctionCompiler.limits_functions (env : ModuleEnv) (s : FunctionCompiler) :
    (s.limits env).functions = env.functions.length := rfl

/-- A state the compiler can go on from: as many positions as labels, the
loop exits are labels, and only a registered function has locals (the global
initialiser, which may be compiled with no function at all, has none). -/
structure Ready (env : ModuleEnv) (s : FunctionCompiler) : Prop where
  positions : s.labelPositions.length = s.nextLabel.toNat
  exits : ∀ l ∈ s.loopExitLabels, l.toNat < s.nextLabel.toNat
  host : s.locals.slots = [] ∨ env.functions ≠ []

structure Emitted (env : ModuleEnv) (s₀ : FunctionCompiler) (U : List Label)
    (s : FunctionCompiler) : Prop where
  code : ∃ new, s.instructions = s₀.instructions ++ new ∧ ∀ i ∈ new, i.Fits (s.limits env)
  regs : s₀.nextReg.toNat ≤ s.nextReg.toNat
  labels : s₀.nextLabel.toNat ≤ s.nextLabel.toNat
  slots : s₀.locals.slots.length ≤ s.locals.slots.length
  host : s.locals.slots = s₀.locals.slots ∨ env.functions ≠ []
  exits : s.loopExitLabels = s₀.loopExitLabels
  positions : s.labelPositions.length = s.nextLabel.toNat
  frame : ∀ l, l < s₀.nextLabel.toNat → s.labelPositions[l]? = s₀.labelPositions[l]?
  placed : ∀ l, s₀.nextLabel.toNat ≤ l → l < s.nextLabel.toNat → (∀ u ∈ U, u.toNat ≠ l) →
    ∃ p, s.labelPositions[l]? = some p ∧ p ≤ s.instructions.length

namespace Emitted

variable {env : ModuleEnv} {s₀ s s' : FunctionCompiler} {U : List Label}

theorem refl (h : Ready env s) : Emitted env s [] s where
  code := ⟨[], by simp, by simp⟩
  regs := Nat.le_refl _
  labels := Nat.le_refl _
  slots := Nat.le_refl _
  host := .inl rfl
  exits := rfl
  positions := h.positions
  frame := fun _ _ => rfl
  placed := fun l h1 h2 => absurd h2 (Nat.not_lt.mpr h1)

theorem ready (h : Emitted env s₀ U s) (h0 : Ready env s₀) : Ready env s where
  positions := h.positions
  exits := by
    intro l hl
    rw [h.exits] at hl
    exact Nat.lt_of_lt_of_le (h0.exits l hl) h.labels
  host := by
    rcases h.host with hs | hf
    · rw [hs]
      exact h0.host
    · exact .inr hf

theorem limits_le (h : Emitted env s₀ U s) : (s₀.limits env).Le (s.limits env) :=
  ⟨h.regs, h.labels, h.slots, Nat.le_refl _, Nat.le_refl _⟩

theorem length_le (h : Emitted env s₀ U s) : s₀.instructions.length ≤ s.instructions.length := by
  obtain ⟨new, hn, _⟩ := h.code
  rw [hn, List.length_append]
  omega

theorem trans (h : Emitted env s₀ U s) (h' : Emitted env s [] s') : Emitted env s₀ U s' where
  code := by
    obtain ⟨new, hn, hf⟩ := h.code
    obtain ⟨new', hn', hf'⟩ := h'.code
    refine ⟨new ++ new', by rw [hn', hn, List.append_assoc], ?_⟩
    intro i hi
    rcases List.mem_append.mp hi with hi | hi
    · exact (hf i hi).mono h'.limits_le
    · exact hf' i hi
  regs := Nat.le_trans h.regs h'.regs
  labels := Nat.le_trans h.labels h'.labels
  slots := Nat.le_trans h.slots h'.slots
  host := by
    rcases h'.host with hs | hf
    · rw [hs]
      exact h.host
    · exact .inr hf
  exits := h'.exits.trans h.exits
  positions := h'.positions
  frame := by
    intro l hl
    rw [h'.frame l (Nat.lt_of_lt_of_le hl h.labels), h.frame l hl]
  placed := by
    intro l h1 h2 hu
    by_cases hl : l < s.nextLabel.toNat
    · obtain ⟨p, hp, hle⟩ := h.placed l h1 hl hu
      exact ⟨p, by rw [h'.frame l hl, hp], Nat.le_trans hle h'.length_le⟩
    · exact h'.placed l (Nat.le_of_not_lt hl) h2 (by simp)

/-- The order of the open labels does not matter. -/
theorem swap {k l : Label} (h : Emitted env s₀ (k :: l :: U) s) :
    Emitted env s₀ (l :: k :: U) s :=
  { h with
    placed := by
      intro p h1 h2 hu
      refine h.placed p h1 h2 ?_
      simp only [List.forall_mem_cons] at hu ⊢
      exact ⟨hu.2.1, hu.1, hu.2.2⟩ }

/-! ## Primitives -/

theorem emit {instr : Instruction} {u : Unit} (h : Emitted env s₀ U s)
    (hi : instr.Fits (s.limits env)) (he : Compiler.emit instr s = .ok (u, s')) :
    Emitted env s₀ U s' := by
  simp only [Compiler.emit, Except.ok.injEq, Prod.mk.injEq] at he
  obtain ⟨-, rfl⟩ := he
  obtain ⟨new, hn, hf⟩ := h.code
  exact {
    code := by
      refine ⟨new ++ [instr], by simp [hn], ?_⟩
      intro i hm
      rcases List.mem_append.mp hm with hm | hm
      · exact hf i hm
      · obtain rfl := List.mem_singleton.mp hm
        exact hi
    regs := h.regs
    labels := h.labels
    slots := h.slots
    host := h.host
    exits := h.exits
    positions := h.positions
    frame := h.frame
    placed := fun l h1 h2 hu => by
      obtain ⟨p, hp, hle⟩ := h.placed l h1 h2 hu
      exact ⟨p, hp, by simp; omega⟩ }

theorem setSource {range : TextRange} {u : Unit} (h : Emitted env s₀ U s)
    (he : Compiler.setSource range s = .ok (u, s')) : Emitted env s₀ U s' := by
  simp only [Compiler.setSource, Except.ok.injEq, Prod.mk.injEq] at he
  obtain ⟨-, rfl⟩ := he
  exact ⟨h.code, h.regs, h.labels, h.slots, h.host, h.exits, h.positions, h.frame, h.placed⟩

theorem emitSourced {instr : Instruction} {range : TextRange} {u : Unit} (h : Emitted env s₀ U s)
    (hi : instr.Fits (s.limits env)) (he : Compiler.emitSourced instr range s = .ok (u, s')) :
    Emitted env s₀ U s' := by
  obtain ⟨_, s1, h1, h2⟩ := bind_ok he
  have hs := h.setSource h1
  simp only [Compiler.setSource, Except.ok.injEq, Prod.mk.injEq] at h1
  obtain ⟨-, rfl⟩ := h1
  exact hs.emit hi h2

theorem allocReg {r : Reg} (h : Emitted env s₀ U s) (he : Compiler.allocReg s = .ok (r, s')) :
    Emitted env s₀ U s' ∧ r.toNat = s.nextReg.toNat ∧ s'.nextReg.toNat = r.toNat + 1 ∧
      s'.nextLabel = s.nextLabel ∧ s'.locals = s.locals := by
  unfold Compiler.allocReg at he
  split at he
  · cases he
  next hne =>
    simp only [Except.ok.injEq, Prod.mk.injEq] at he
    obtain ⟨rfl, rfl⟩ := he
    have hlt : s.nextReg.toNat + 1 < 65536 := by
      have h1 : s.nextReg.toNat ≠ 65535 := fun hc => hne (UInt16.toNat_inj.mp (by simpa using hc))
      have h2 := s.nextReg.toNat_lt
      omega
    have hsucc : (s.nextReg + 1).toNat = s.nextReg.toNat + 1 := by
      rw [UInt16.toNat_add]
      exact Nat.mod_eq_of_lt (by simpa using hlt)
    obtain ⟨new, hn, hf⟩ := h.code
    refine ⟨?_, rfl, hsucc, rfl, rfl⟩
    exact {
      code := ⟨new, hn, fun i hi => (hf i hi).mono
        ⟨by simp [FunctionCompiler.limits, hsucc], Nat.le_refl _, Nat.le_refl _, Nat.le_refl _,
          Nat.le_refl _⟩⟩
      regs := by
        have := h.regs
        simp only [hsucc]
        omega
      labels := h.labels
      slots := h.slots
      host := h.host
      exits := h.exits
      positions := h.positions
      frame := h.frame
      placed := h.placed }

theorem allocLabel {l : Label} (h : Emitted env s₀ U s)
    (he : Compiler.allocLabel s = .ok (l, s')) :
    Emitted env s₀ (l :: U) s' ∧ l.toNat = s.nextLabel.toNat ∧
      s'.nextLabel.toNat = l.toNat + 1 ∧ s'.nextReg = s.nextReg ∧ s'.locals = s.locals := by
  unfold Compiler.allocLabel at he
  split at he
  · cases he
  next hne =>
    simp only [Except.ok.injEq, Prod.mk.injEq] at he
    obtain ⟨rfl, rfl⟩ := he
    have hlt : s.nextLabel.toNat + 1 < 4294967296 := by
      have h1 : s.nextLabel.toNat ≠ 4294967295 :=
        fun hc => hne (UInt32.toNat_inj.mp (by simpa using hc))
      have h2 := s.nextLabel.toNat_lt
      omega
    have hsucc : (s.nextLabel + 1).toNat = s.nextLabel.toNat + 1 := by
      rw [UInt32.toNat_add]
      exact Nat.mod_eq_of_lt (by simpa using hlt)
    have hget : ∀ k, k < s.nextLabel.toNat →
        (resizeLabels (s.nextLabel.toNat + 1) s.labelPositions)[k]? = s.labelPositions[k]? := by
      intro k hk
      unfold resizeLabels
      rw [List.getElem?_append_left (by rw [h.positions]; exact hk)]
    obtain ⟨new, hn, hf⟩ := h.code
    refine ⟨?_, rfl, hsucc, rfl, rfl⟩
    exact {
      code := ⟨new, hn, fun i hi => (hf i hi).mono
        ⟨Nat.le_refl _, by simp [FunctionCompiler.limits, hsucc], Nat.le_refl _, Nat.le_refl _,
          Nat.le_refl _⟩⟩
      regs := h.regs
      labels := by
        have := h.labels
        simp only [hsucc]
        omega
      slots := h.slots
      host := h.host
      exits := h.exits
      positions := by simp [resizeLabels, h.positions, hsucc]
      frame := by
        intro k hk
        rw [hget k (Nat.lt_of_lt_of_le hk h.labels), h.frame k hk]
      placed := by
        intro k h1 h2 hu
        simp only [hsucc] at h2
        have hne' := hu _ (List.mem_cons_self ..)
        obtain ⟨p, hp, hle⟩ := h.placed k h1 (by omega)
          (fun u hm => hu u (List.mem_cons_of_mem _ hm))
        exact ⟨p, by rw [hget k (by omega), hp], hle⟩ }

theorem placeLabel {l : Label} {u : Unit} (h : Emitted env s₀ (l :: U) s)
    (hlo : s₀.nextLabel.toNat ≤ l.toNat) (hhi : l.toNat < s.nextLabel.toNat)
    (he : Compiler.placeLabel l s = .ok (u, s')) :
    Emitted env s₀ U s' ∧ s'.nextLabel = s.nextLabel ∧ s'.nextReg = s.nextReg ∧
      s'.locals = s.locals := by
  simp only [Compiler.placeLabel, Except.ok.injEq, Prod.mk.injEq] at he
  obtain ⟨-, rfl⟩ := he
  have hres : resizeLabels (l.toNat + 1) s.labelPositions = s.labelPositions := by
    unfold resizeLabels
    rw [h.positions, Nat.sub_eq_zero_of_le (by omega)]
    simp
  refine ⟨?_, rfl, rfl, rfl⟩
  exact {
    code := h.code
    regs := h.regs
    labels := h.labels
    slots := h.slots
    host := h.host
    exits := h.exits
    positions := by simp [hres, h.positions]
    frame := by
      intro k hk
      have : l.toNat ≠ k := by omega
      simp only [hres, List.getElem?_set_ne this]
      exact h.frame k hk
    placed := by
      intro k h1 h2 hu
      by_cases hk : l.toNat = k
      · subst hk
        refine ⟨s.instructions.length, ?_, Nat.le_refl _⟩
        simp only [hres]
        exact List.getElem?_set_self (by rw [h.positions]; exact hhi)
      · obtain ⟨p, hp, hle⟩ := h.placed k h1 h2 (by
          intro u hm
          rcases List.mem_cons.mp hm with rfl | hm
          · exact hk
          · exact hu u hm)
        exact ⟨p, by simp only [hres, List.getElem?_set_ne hk, hp], hle⟩ }

/-- A fresh register filled by one instruction. -/
theorem emitTo {g : Reg → Instruction} {r : Reg} (h : Emitted env s₀ U s)
    (hg : ∀ (dst : Reg) (b : Limits), (s.limits env).Le b → dst.toNat < b.regs → (g dst).Fits b)
    (he : Compiler.emitTo g s = .ok (r, s')) :
    Emitted env s₀ U s' ∧ r.toNat < s'.nextReg.toNat := by
  obtain ⟨dst, s1, h1, h2⟩ := bind_ok he
  obtain ⟨_, s2, h3, h4⟩ := bind_ok h2
  obtain ⟨rfl, rfl⟩ := pure_ok h4
  obtain ⟨e1, hd, hn, hl, hs⟩ := h.allocReg h1
  have e2 := e1.emit (hg r (s1.limits env)
    ⟨by simp only [FunctionCompiler.limits]; omega, by simp [FunctionCompiler.limits, hl],
      by simp [FunctionCompiler.limits, hs], Nat.le_refl _, Nat.le_refl _⟩
    (by simp only [FunctionCompiler.limits]; omega)) h3
  simp only [Compiler.emit, Except.ok.injEq, Prod.mk.injEq] at h3
  obtain ⟨-, rfl⟩ := h3
  exact ⟨e2, by simp only; omega⟩

/-- A loop body is compiled with its exit label on the stack of loop exits. -/
theorem loopBody {l : Label} {s1 s2 s3 : FunctionCompiler} {u v : Unit}
    (hpush : pushLoopExit l s = .ok (u, s1)) (hbody : Emitted env s1 [] s2)
    (hpop : popLoopExit s2 = .ok (v, s3)) : Emitted env s [] s3 := by
  simp only [pushLoopExit, popLoopExit, Except.ok.injEq, Prod.mk.injEq] at hpush hpop
  obtain ⟨-, rfl⟩ := hpush
  obtain ⟨-, rfl⟩ := hpop
  exact {
    code := hbody.code
    regs := hbody.regs
    labels := hbody.labels
    slots := hbody.slots
    host := hbody.host
    exits := by
      have := hbody.exits
      simp only at this
      simp [this]
    positions := hbody.positions
    frame := hbody.frame
    placed := hbody.placed }

theorem ready_push {l : Label} {s1 : FunctionCompiler} {u : Unit} (h : Ready env s)
    (hl : l.toNat < s.nextLabel.toNat) (hpush : pushLoopExit l s = .ok (u, s1)) : Ready env s1 := by
  simp only [pushLoopExit, Except.ok.injEq, Prod.mk.injEq] at hpush
  obtain ⟨-, rfl⟩ := hpush
  refine ⟨h.positions, ?_, h.host⟩
  intro k hk
  rcases List.mem_cons.mp hk with rfl | hk
  · exact hl
  · exact h.exits k hk

end Emitted

end RustPlc.Compiler
