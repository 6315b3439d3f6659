import RustPlc.L2Compiler.Emitted

/-!
# Walks of the compiler

What holds between the state before and the state after each primitive of
the function compiler, and is transitive, holds across the whole walk over an
expression, a statement or the declarations. `Closed R` lists the
primitives; an activation is left by the last two instructions of a body or
by a `RETURN`, which emits its two instructions together.

The code of an expression is more: it runs from its first instruction to its
last, and it fills only registers allocated for it. `ClosedAbove b R` lists
what expressions need of a relation, for the registers from `b` on.

Results:
* `compileExpression_computes`: the walk over an expression, with its result
  in a register from `b` on;
* `compileExpression_walks`, `compileStatements_walks`: the two walks.
-/
namespace RustPlc.Compiler

open RustPlc.Ir RustPlc.Syntax

/-! ## Relations the primitives keep -/

/-- The instruction ends the activation. -/
def leaves : Instruction → Bool
  | .ret _ => true
  | .retVoid => true
  | _ => false

/-- The next instruction is the one behind it. -/
def straight : Instruction → Bool
  | .jump _ => false
  | .jumpIf _ _ => false
  | .jumpIfNot _ _ => false
  | .ret _ => false
  | .retVoid => false
  | _ => true

theorem leaves_of_straight {i : Instruction} (h : straight i = true) : leaves i = false := by
  cases i with
  | ret _ => cases h
  | retVoid => cases h
  | _ => rfl

/-- The register an instruction fills. -/
def target : Instruction → Option Reg
  | .storeLocal _ _ => none
  | .storeGlobal _ _ => none
  | .jumpIf _ _ => none
  | .jumpIfNot _ _ => none
  | .callFb _ _ _ => none
  | .ret _ => none
  | .derefStore _ _ => none
  | .storeArray _ _ _ => none
  | .storeField _ _ _ => none
  | .storeFieldIndex _ _ _ _ => none
  | i => i.regs.head?

/-- The instruction stores to a local of the running frame. -/
def storesLocal : Instruction → Bool
  | .storeLocal _ _ => true
  | _ => false

/-- An instruction that fills `r` and goes on behind itself. -/
structure Fills (i : Instruction) (r : Reg) : Prop where
  straight : straight i = true
  target : target i = some r

theorem Fills.storesLocal {i : Instruction} {r : Reg} (h : Fills i r) : storesLocal i = false := by
  cases i with
  | storeLocal slot src => cases h.target
  | _ => rfl

/-- `R` relates the states before and after each primitive. -/
class Closed (R : FunctionCompiler → FunctionCompiler → Prop) : Prop where
  refl : ∀ s, R s s
  trans : ∀ {s s1 s2}, R s s1 → R s1 s2 → R s s2
  allocReg : ∀ {s r s'}, allocReg s = .ok (r, s') → R s s'
  allocLabel : ∀ {s l s'}, allocLabel s = .ok (l, s') → R s s'
  placeLabel : ∀ {l s u s'}, placeLabel l s = .ok (u, s') → R s s'
  emit : ∀ {i s u s'}, leaves i = false → emit i s = .ok (u, s') → R s s'
  setSource : ∀ {range s u s'}, setSource range s = .ok (u, s') → R s s'
  pushLoopExit : ∀ {l s u s'}, pushLoopExit l s = .ok (u, s') → R s s'
  popLoopExit : ∀ {s u s'}, popLoopExit s = .ok (u, s') → R s s'
  leave : ∀ {r s u s1 v s2}, Compiler.emit (.loadConst r (.int 0)) s = .ok (u, s1) →
    Compiler.emit (.ret r) s1 = .ok (v, s2) → R s s2

/-- `R` relates the states before and after each primitive of an expression,
which stores to no local and fills only registers from `b` on. -/
class ClosedAbove (b : Nat) (R : FunctionCompiler → FunctionCompiler → Prop) : Prop where
  refl : ∀ s, R s s
  trans : ∀ {s s1 s2}, R s s1 → R s1 s2 → R s s2
  allocReg : ∀ {s r s'}, allocReg s = .ok (r, s') → R s s'
  emit : ∀ {i s u s'}, straight i = true → storesLocal i = false →
    (∀ r, target i = some r → b ≤ r.toNat) → emit i s = .ok (u, s') → R s s'

instance {R : FunctionCompiler → FunctionCompiler → Prop} [Closed R] : ClosedAbove 0 R where
  refl := Closed.refl
  trans := Closed.trans
  allocReg := Closed.allocReg
  emit := fun hs _ _ h => Closed.emit (leaves_of_straight hs) h

/-- A counter or a literal that overflows is a fault that `F` allows. -/
class Overflows (F : CompileFault → Prop) : Prop where
  overflow : F .overflow

/-- So is a search for a method that goes on for ever, if one does. -/
class Searches (env : ModuleEnv) (F : CompileFault → Prop) : Prop where
  search : ∀ {s : FunctionCompiler} {parts e}, s.methodTarget env parts = .error e → F e

/-- Any fault. -/
def anyFault (_ : CompileFault) : Prop := True

instance : Overflows anyFault := ⟨trivial⟩

instance (env : ModuleEnv) : Searches env anyFault := ⟨fun _ => trivial⟩

/-- Across `x` the states are related by `R`, and the faults of `x` meet `F`. -/
structure Walks (R : FunctionCompiler → FunctionCompiler → Prop) (F : CompileFault → Prop)
    {α : Type} (x : CompileM α) : Prop where
  step : ∀ {s r s'}, x s = .ok (r, s') → R s s'
  fault : ∀ {s e}, x s = .error e → F e

theorem bind_error {α β : Type} {x : CompileM α} {f : α → CompileM β} {s : FunctionCompiler}
    {e : CompileFault} (h : (x >>= f) s = .error e) :
    x s = .error e ∨ ∃ a s1, x s = .ok (a, s1) ∧ f a s1 = .error e := by
  change (x s >>= fun p => f p.1 p.2) = .error e at h
  cases hx : x s with
  | error e' =>
    rw [hx] at h
    cases h
    exact .inl rfl
  | ok p =>
    rw [hx] at h
    exact .inr ⟨p.1, p.2, rfl, h⟩

/-- Registers and labels only run out. -/
theorem allocReg_fault {s : FunctionCompiler} {e : CompileFault} (h : allocReg s = .error e) :
    e = .overflow := by
  unfold allocReg at h
  split at h
  · cases h
    rfl
  · cases h

theorem allocLabel_fault {s : FunctionCompiler} {e : CompileFault} (h : allocLabel s = .error e) :
    e = .overflow := by
  unfold allocLabel at h
  split at h
  · cases h
    rfl
  · cases h

theorem liftFault_fault {α : Type} {x : Except CompileFault α} {s : FunctionCompiler}
    {e : CompileFault} (h : liftFault x s = .error e) : x = .error e := by
  unfold liftFault at h
  cases x with
  | error e' =>
    cases h
    rfl
  | ok a => cases h

namespace Walks

variable {α β : Type} {R : FunctionCompiler → FunctionCompiler → Prop} [Closed R]
  {F : CompileFault → Prop}

theorem pure (a : α) : Walks R F (Pure.pure a : CompileM α) := by
  refine ⟨fun {s r s'} h => ?_, nofun⟩
  obtain ⟨-, rfl⟩ := pure_ok h
  exact Closed.refl _

theorem bind {x : CompileM α} {f : α → CompileM β} (hx : Walks R F x) (hf : ∀ a, Walks R F (f a)) :
    Walks R F (x >>= f) := by
  constructor
  · intro s r s' h
    obtain ⟨a, s1, h1, h2⟩ := bind_ok h
    exact Closed.trans (hx.step h1) ((hf a).step h2)
  · intro s e h
    obtain h | ⟨a, s1, -, h⟩ := bind_error h
    · exact hx.fault h
    · exact (hf a).fault h

omit [Closed R] in
theorem getBind {f : FunctionCompiler → CompileM β} (hf : ∀ a, Walks R F (f a)) :
    Walks R F (get >>= f) := ⟨fun h => (hf _).step (get_bind_ok h), fun {s _} h => (hf s).fault h⟩

theorem allocReg [Overflows F] : Walks R F Compiler.allocReg :=
  ⟨Closed.allocReg, fun h => allocReg_fault h ▸ Overflows.overflow⟩

theorem allocLabel [Overflows F] : Walks R F Compiler.allocLabel :=
  ⟨Closed.allocLabel, fun h => allocLabel_fault h ▸ Overflows.overflow⟩

theorem placeLabel (l : Label) : Walks R F (Compiler.placeLabel l) := ⟨Closed.placeLabel, nofun⟩

theorem emit (i : Instruction) (h : leaves i = false) : Walks R F (Compiler.emit i) :=
  ⟨Closed.emit h, nofun⟩

theorem setSource (range : TextRange) : Walks R F (Compiler.setSource range) :=
  ⟨Closed.setSource, nofun⟩

theorem pushLoopExit (l : Label) : Walks R F (Compiler.pushLoopExit l) :=
  ⟨Closed.pushLoopExit, nofun⟩

theorem popLoopExit : Walks R F Compiler.popLoopExit := ⟨Closed.popLoopExit, nofun⟩

theorem liftFault {x : Except CompileFault α} (hx : ∀ {e}, x = .error e → F e) :
    Walks R F (Compiler.liftFault x) := by
  refine ⟨fun {s r s'} h => ?_, fun h => hx (liftFault_fault h)⟩
  unfold Compiler.liftFault at h
  cases x with
  | error e => cases h
  | ok a =>
    cases h
    exact Closed.refl _

theorem emitSourced (i : Instruction) (range : TextRange) (h : leaves i = false) :
    Walks R F (Compiler.emitSourced i range) :=
  (setSource range).bind fun _ => emit i h

theorem emitTo [Overflows F] (mk : Reg → Instruction)
    (h : ∀ r, leaves (mk r) = false) : Walks R F (Compiler.emitTo mk) :=
  allocReg.bind fun r => (emit _ (h r)).bind fun _ => pure _

theorem currentPc : Walks R F Compiler.currentPc := getBind fun _ => pure _

/-- The two instructions of a `RETURN`. -/
theorem leave (r : Reg) (range : TextRange) :
    Walks R F (Compiler.emitSourced (.loadConst r (.int 0)) range >>= fun _ =>
      Compiler.emit (.ret r)) := by
  refine ⟨fun {s u s'} h => ?_, nofun⟩
  obtain ⟨_, s2, h1, h2⟩ := bind_ok h
  obtain ⟨_, s1, h3, h4⟩ := bind_ok h1
  exact Closed.trans (Closed.setSource h3) (Closed.leave h4 h2)

end Walks

/-! ## Expressions -/

/-- From states with `b` registers or more, `x` keeps to `R`, and its result
meets `P`. -/
structure Computes (b : Nat) (R : FunctionCompiler → FunctionCompiler → Prop)
    (F : CompileFault → Prop) {α : Type} (x : CompileM α) (P : α → Prop) : Prop where
  step : ∀ {s a s'}, b ≤ s.nextReg.toNat → x s = .ok (a, s') →
    R s s' ∧ b ≤ s'.nextReg.toNat ∧ P a
  fault : ∀ {s e}, b ≤ s.nextReg.toNat → x s = .error e → F e

/-- A register from `b` on. -/
def From (b : Nat) (r : Reg) : Prop := b ≤ r.toNat

/-- A register is the next one, and the next one is counted up. -/
theorem allocReg_next {s s' : FunctionCompiler} {r : Reg} (h : allocReg s = .ok (r, s')) :
    r = s.nextReg ∧ s' = { s with nextReg := s.nextReg + 1 } ∧
      s'.nextReg.toNat = r.toNat + 1 := by
  unfold allocReg at h
  split at h
  · cases h
  · next hne =>
    cases h
    refine ⟨rfl, rfl, ?_⟩
    have h1 : s.nextReg.toNat ≠ 65535 := fun hc => hne (UInt16.toNat_inj.mp (by simpa using hc))
    have h2 := s.nextReg.toNat_lt
    simp only [UInt16.toNat_add, UInt16.toNat_one]
    omega

theorem emit_next {s s' : FunctionCompiler} {i : Instruction} {u : Unit}
    (h : emit i s = .ok (u, s')) : s'.nextReg = s.nextReg := by
  simp only [emit, Except.ok.injEq, Prod.mk.injEq] at h
  rw [← h.2]

namespace Computes

variable {α β : Type} {b : Nat} {R : FunctionCompiler → FunctionCompiler → Prop} [ClosedAbove b R]
  {F : CompileFault → Prop}

theorem pure {P : α → Prop} {a : α} (ha : P a) : Computes b R F (Pure.pure a : CompileM α) P := by
  refine ⟨fun {s r s'} hb h => ?_, nofun⟩
  obtain ⟨rfl, rfl⟩ := pure_ok h
  exact ⟨ClosedAbove.refl b _, hb, ha⟩

theorem bind {P : α → Prop} {Q : β → Prop} {x : CompileM α} {f : α → CompileM β}
    (hx : Computes b R F x P) (hf : ∀ a, P a → Computes b R F (f a) Q) :
    Computes b R F (x >>= f) Q := by
  constructor
  · intro s r s' hb h
    obtain ⟨a, s1, h1, h2⟩ := bind_ok h
    obtain ⟨hr1, hb1, ha⟩ := hx.step hb h1
    obtain ⟨hr2, hb2, hr⟩ := (hf a ha).step hb1 h2
    exact ⟨ClosedAbove.trans b hr1 hr2, hb2, hr⟩
  · intro s e hb h
    obtain h | ⟨a, s1, h1, h⟩ := bind_error h
    · exact hx.fault hb h
    · obtain ⟨-, hb1, ha⟩ := hx.step hb h1
      exact (hf a ha).fault hb1 h

omit [ClosedAbove b R] in
theorem getBind {Q : β → Prop} {f : FunctionCompiler → CompileM β}
    (hf : ∀ a, Computes b R F (f a) Q) : Computes b R F (get >>= f) Q :=
  ⟨fun hb h => (hf _).step hb (get_bind_ok h), fun {s _} hb h => (hf s).fault hb h⟩

theorem allocReg [Overflows F] : Computes b R F Compiler.allocReg (From b) := by
  refine ⟨fun {s r s'} hb h => ?_, fun _ h => allocReg_fault h ▸ Overflows.overflow⟩
  obtain ⟨rfl, -, hn⟩ := allocReg_next h
  exact ⟨ClosedAbove.allocReg b h, by omega, hb⟩

theorem emit {i : Instruction} (hs : straight i = true) (hl : storesLocal i = false)
    (ht : ∀ r, target i = some r → From b r) : Computes b R F (Compiler.emit i) fun _ => True := by
  refine ⟨fun {s u s'} hb h => ?_, nofun⟩
  exact ⟨ClosedAbove.emit hs hl ht h, by rw [emit_next h]; exact hb, trivial⟩

/-- An instruction that fills a register allocated before. -/
theorem fill {i : Instruction} {dst : Reg} (hd : From b dst)
    (h : Fills i dst) : Computes b R F (Compiler.emit i) fun _ => True := by
  refine emit h.straight h.storesLocal fun r hr => ?_
  rw [h.target, Option.some.injEq] at hr
  exact hr ▸ hd

theorem emitTo [Overflows F] {mk : Reg → Instruction}
    (h : ∀ r, Fills (mk r) r) :
    Computes b R F (Compiler.emitTo mk) (From b) :=
  allocReg.bind fun r hr => (fill hr (h r)).bind fun _ _ => pure hr

theorem liftFault {x : Except CompileFault α} (hx : ∀ {e}, x = .error e → F e) :
    Computes b R F (Compiler.liftFault x) fun _ => True := by
  refine ⟨fun {s r s'} hb h => ?_, fun _ h => hx (liftFault_fault h)⟩
  unfold Compiler.liftFault at h
  cases x with
  | error e => cases h
  | ok a =>
    cases h
    exact ⟨ClosedAbove.refl b _, hb, trivial⟩

omit [ClosedAbove b R] in
theorem walks {P : α → Prop} {x : CompileM α} (hx : Computes 0 R F x P) : Walks R F x :=
  ⟨fun h => (hx.step (Nat.zero_le _) h).1, fun h => hx.fault (Nat.zero_le _) h⟩

end Computes

theorem Walks.computes {α : Type} {R : FunctionCompiler → FunctionCompiler → Prop}
    {F : CompileFault → Prop} {P : α → Prop} {x : CompileM α} (hx : Walks R F x) (h : ∀ a, P a) :
    Computes 0 R F x P :=
  ⟨fun _ he => ⟨hx.step he, Nat.zero_le _, h _⟩, fun _ he => hx.fault he⟩

/-! ## Instruction tables -/

theorem lookupName_mem {α : Type} {table : List (List String × α)} {name : String} {a : α}
    (h : lookupName table name = some a) : ∃ names, (names, a) ∈ table := by
  unfold lookupName at h
  simp only [Option.map_eq_some_iff] at h
  obtain ⟨p, hp, rfl⟩ := h
  exact ⟨p.1, List.mem_of_find?_eq_some hp⟩

theorem unaryIntrinsics_fill : ∀ p ∈ unaryIntrinsics, ∀ d r, Fills (p.2 d r) d := by
  unfold unaryIntrinsics
  repeat refine List.forall_mem_cons.mpr ⟨fun _ _ => ⟨rfl, rfl⟩, ?_⟩
  exact List.forall_mem_nil _

theorem timeIntrinsics_fill : ∀ p ∈ timeIntrinsics, ∀ d l r, Fills (p.2.1 d l r) d := by
  unfold timeIntrinsics
  repeat refine List.forall_mem_cons.mpr ⟨fun _ _ _ => ⟨rfl, rfl⟩, ?_⟩
  exact List.forall_mem_nil _

theorem stringIntrinsics2_fill : ∀ p ∈ stringIntrinsics2, ∀ d l r, Fills (p.2 d l r) d := by
  unfold stringIntrinsics2
  repeat refine List.forall_mem_cons.mpr ⟨fun _ _ _ => ⟨rfl, rfl⟩, ?_⟩
  exact List.forall_mem_nil _

theorem stringIntrinsics3_fill : ∀ p ∈ stringIntrinsics3, ∀ d a b c, Fills (p.2 d a b c) d := by
  unfold stringIntrinsics3
  repeat refine List.forall_mem_cons.mpr ⟨fun _ _ _ _ => ⟨rfl, rfl⟩, ?_⟩
  exact List.forall_mem_nil _

theorem binaryInstruction_fills (op : BinaryOp) (d l r : Reg) :
    Fills (binaryInstruction op d l r) d := by
  cases op <;> exact ⟨rfl, rfl⟩

theorem unaryInstruction_fills (op : UnaryOp) (d r : Reg) : Fills (unaryInstruction op d r) d := by
  cases op <;> exact ⟨rfl, rfl⟩

theorem extractInstruction_fills (kind : PartialAccessKind) (index : UInt8) (d r : Reg) :
    Fills (extractInstruction kind index d r) d := by
  cases kind <;> exact ⟨rfl, rfl⟩

theorem insertInstruction_stays (kind : PartialAccessKind) (index : UInt8) (d b r : Reg) :
    leaves (insertInstruction kind index d b r) = false := by
  cases kind <;> rfl

theorem refInstruction_fills {env : ModuleEnv} (s : FunctionCompiler) (dst : Reg)
    (refVar : Option String) : Fills (refInstruction env s dst refVar) dst := by
  unfold refInstruction
  repeat' split
  all_goals exact ⟨rfl, rfl⟩

/-! ## The walk over an expression -/

section

variable {b : Nat} {R : FunctionCompiler → FunctionCompiler → Prop} [ClosedAbove b R]
variable {F : CompileFault → Prop} [Overflows F] (env : ModuleEnv)

theorem compileLoadVariable_computes (name : String) :
    Computes b R F (compileLoadVariable env name) (From b) := by
  refine .getBind fun s => ?_
  split
  · exact .emitTo fun _ => ⟨rfl, rfl⟩
  · exact .emitTo fun _ => ⟨rfl, rfl⟩
  · exact .emitTo fun _ => ⟨rfl, rfl⟩

theorem compilePartialRead_computes (kind : PartialAccessKind) (index : UInt32) (reg : Reg) :
    Computes b R F (compilePartialRead reg kind index) (From b) :=
  .emitTo fun r => extractInstruction_fills _ _ r _

theorem applyPartialChain_computes : ∀ (parts : List AccessPart) {reg : Reg}, From b reg →
    Computes b R F (applyPartialChain reg parts) (From b)
  | [], _, h => .pure h
  | .partialAccess kind index :: parts, _, _ =>
    (compilePartialRead_computes kind index _).bind fun _ hr => applyPartialChain_computes parts hr
  | .identifier _ :: parts, _, h => applyPartialChain_computes parts h
  | .index _ :: parts, _, h => applyPartialChain_computes parts h
  | .deref :: parts, _, h => applyPartialChain_computes parts h

theorem compileRoot_computes (id : String) (parts : List AccessPart) :
    Computes b R F (compileRoot env id parts) (From b) :=
  (compileLoadVariable_computes env id).bind fun _ hr => applyPartialChain_computes parts hr

/-- `obj.field` -/
theorem fieldRead_computes (obj field : Identifier) (rest : List AccessPart) :
    Computes b R F (do
      let s ← get
      match s.fieldTarget env obj.name field.name with
      | some (slot, fieldIdx, _) => emitTo (.loadField · slot fieldIdx)
      | none => compileRoot env obj.name (.identifier field :: rest)) (From b) := by
  refine Computes.getBind fun s => ?_
  cases s.fieldTarget env obj.name field.name with
  | none => exact compileRoot_computes env _ _
  | some t => exact .emitTo fun _ => ⟨rfl, rfl⟩

/-- The three ways of compiling the arguments of a call. -/
structure ArgsCompute (b : Nat) (R : FunctionCompiler → FunctionCompiler → Prop)
    (F : CompileFault → Prop) (args : ArgCompiler) : Prop where
  all : Computes b R F args.all fun _ => True
  arg : ∀ missing i, Computes b R F (args.arg missing i) (From b)
  timeArgs : Computes b R F args.timeArgs fun _ => True

variable {env}

theorem compilePlainCall_computes {args : ArgCompiler} (h : ArgsCompute b R F args)
    (s : FunctionCompiler) {dst : Reg} (hd : From b dst) (name : String) (refVar : Option String) :
    Computes b R F (compilePlainCall env s dst name refVar args) fun _ => True := by
  unfold compilePlainCall
  dsimp only
  split
  · exact .fill hd (refInstruction_fills s dst refVar)
  split
  · exact .fill hd ⟨rfl, rfl⟩
  split
  · next mk hmk =>
    obtain ⟨names, hm⟩ := lookupName_mem hmk
    exact (h.arg _ _).bind fun r _ => .fill hd (unaryIntrinsics_fill _ hm dst r)
  split
  · next mk wrap hmk =>
    obtain ⟨names, hm⟩ := lookupName_mem hmk
    have hfill := timeIntrinsics_fill _ hm
    refine h.timeArgs.bind fun p _ => ?_
    split
    · exact (Computes.emitTo fun r => hfill r _ _).bind fun _ _ => .fill hd ⟨rfl, rfl⟩
    · exact .fill hd (hfill dst _ _)
  split
  · next mk hmk =>
    obtain ⟨names, hm⟩ := lookupName_mem hmk
    exact (h.arg _ _).bind fun a _ => (h.arg _ _).bind fun b _ =>
      .fill hd (stringIntrinsics2_fill _ hm dst a b)
  split
  · next mk hmk =>
    obtain ⟨names, hm⟩ := lookupName_mem hmk
    exact (h.arg _ _).bind fun a _ => (h.arg _ _).bind fun b _ => (h.arg _ _).bind fun c _ =>
      .fill hd (stringIntrinsics3_fill _ hm dst a b c)
  split
  · exact (h.arg _ _).bind fun _ _ => (h.arg _ _).bind fun _ _ => (h.arg _ _).bind fun _ _ =>
      (h.arg _ _).bind fun _ _ => .fill hd ⟨rfl, rfl⟩
  split
  · exact h.all.bind fun _ _ => .emit rfl rfl fun _ hr => by cases hr
  split
  · exact h.all.bind fun _ _ => .fill hd ⟨rfl, rfl⟩
  · exact .fill hd ⟨rfl, rfl⟩

theorem compileCall_computes [Searches env F] {args : ArgCompiler} (h : ArgsCompute b R F args) (parts : List String)
    (refVar : Option String) : Computes b R F (compileCall env parts refVar args) (From b) := by
  refine Computes.allocReg.bind fun dst hd => .getBind fun s =>
    (Computes.liftFault Searches.search).bind fun target _ => ?_
  refine Computes.bind (P := fun _ => True) ?_ fun _ _ => .pure hd
  cases target with
  | none => exact compilePlainCall_computes h s hd _ refVar
  | some t => exact h.all.bind fun _ _ => .fill hd ⟨rfl, rfl⟩

end

section

variable [F64Ops] {b : Nat} {R : FunctionCompiler → FunctionCompiler → Prop} [ClosedAbove b R]
variable {F : CompileFault → Prop} [Overflows F]

theorem literalValue_computes (kind : LiteralKind) :
    Computes b R F (literalValue kind) fun _ => True := by
  constructor
  · intro s r s' hb h
    unfold literalValue at h
    split at h
    · cases h
      exact ⟨ClosedAbove.refl b _, hb, trivial⟩
    · cases h
  · intro s e hb h
    unfold literalValue at h
    split at h
    · cases h
    · cases h
      exact Overflows.overflow

mutual

theorem compileExpression_computes (env : ModuleEnv) [Searches env F] : ∀ e,
    Computes b R F (compileExpression env e) (From b)
  | .literal kind _ => (literalValue_computes kind).bind fun _ _ => .emitTo fun _ => ⟨rfl, rfl⟩
  | .var parts range => compileVariable_computes env parts range
  | .functionCall _ arguments _ =>
    compileCall_computes ⟨compileCallArgs_computes env 0 arguments,
      fun v i => compileCallArg_computes env v i arguments,
      compileTimeArgs_computes env arguments⟩ _ _
  | .unary op operand _ => (compileExpression_computes env operand).bind fun _ _ =>
    .emitTo fun _ => unaryInstruction_fills op _ _
  | .binary op left right _ =>
    (compileExpression_computes env left).bind fun _ _ =>
      (compileExpression_computes env right).bind fun _ _ =>
        .emitTo fun _ => binaryInstruction_fills op _ _ _
  | .parenthesized inner => compileExpression_computes env inner
  | .thisInstance _ => .emitTo fun _ => ⟨rfl, rfl⟩
  | .superInstance _ => .emitTo fun _ => ⟨rfl, rfl⟩

theorem compileVariable_computes (env : ModuleEnv) [Searches env F] : ∀ (parts : List AccessPart) (range : TextRange),
    Computes b R F (compileExpression env (.var parts range)) (From b)
  | .identifier id :: .deref :: _, _ =>
    (compileLoadVariable_computes env id.name).bind fun _ _ => .emitTo fun _ => ⟨rfl, rfl⟩
  | .identifier id :: .index (ix :: _) :: _, _ => by
    refine Computes.getBind fun s => ?_
    cases s.findLocal id.name with
    | none => exact compileRoot_computes env _ _
    | some slot => exact (compileExpression_computes env ix).bind fun _ _ => .emitTo fun _ => ⟨rfl, rfl⟩
  | .identifier obj :: .identifier field :: .index (ix :: _) :: _, _ => by
    refine Computes.getBind fun s => ?_
    cases s.fieldTarget env obj.name field.name with
    | none => exact compileRoot_computes env _ _
    | some t => exact (compileExpression_computes env ix).bind fun _ _ => .emitTo fun _ => ⟨rfl, rfl⟩
  | .identifier obj :: .identifier field :: [], _ => fieldRead_computes env obj field _
  | .identifier obj :: .identifier field :: .identifier _ :: _, _ =>
    fieldRead_computes env obj field _
  | .identifier obj :: .identifier field :: .index [] :: _, _ =>
    fieldRead_computes env obj field _
  | .identifier obj :: .identifier field :: .deref :: _, _ => fieldRead_computes env obj field _
  | .identifier obj :: .identifier field :: .partialAccess _ _ :: _, _ =>
    fieldRead_computes env obj field _
  | .identifier id :: .partialAccess kind index :: _, _ =>
    (compileLoadVariable_computes env id.name).bind fun _ _ =>
      compilePartialRead_computes kind index _
  | .identifier id :: .index [] :: _, _ => compileRoot_computes env id.name _
  | [.identifier id], _ => compileRoot_computes env id.name _
  | [], _ => .emitTo fun _ => ⟨rfl, rfl⟩
  | .index _ :: _, _ => .emitTo fun _ => ⟨rfl, rfl⟩
  | .deref :: _, _ => .emitTo fun _ => ⟨rfl, rfl⟩
  | .partialAccess _ _ :: _, _ => .emitTo fun _ => ⟨rfl, rfl⟩

theorem compileArgument_computes (env : ModuleEnv) [Searches env F] : ∀ a,
    Computes b R F (compileArgument env a) (From b)
  | .positional e => compileExpression_computes env e
  | .named _ e => compileExpression_computes env e

theorem compileCallArgs_computes (env : ModuleEnv) [Searches env F] : ∀ (i : Nat) (as : List Argument),
    Computes b R F (compileCallArgs env i as) fun _ => True
  | _, [] => .pure trivial
  | i, a :: as => (compileArgument_computes env a).bind fun _ _ =>
    (compileCallArgs_computes env (i + 1) as).bind fun _ _ => .pure trivial

theorem compileCallArg_computes (env : ModuleEnv) [Searches env F] : ∀ (v : Value) (i : Nat) (as : List Argument),
    Computes b R F (compileCallArg env v i as) (From b)
  | _, _, [] => .emitTo fun _ => ⟨rfl, rfl⟩
  | _, 0, a :: _ => compileArgument_computes env a
  | v, i + 1, _ :: as => compileCallArg_computes env v i as

theorem compileTimeArgs_computes (env : ModuleEnv) [Searches env F] : ∀ as,
    Computes b R F (compileTimeArgs env as) fun _ => True
  | [] => Computes.allocReg.bind fun _ h1 => Computes.allocReg.bind fun _ h2 =>
    (Computes.fill h1 ⟨rfl, rfl⟩).bind fun _ _ => (Computes.fill h2 ⟨rfl, rfl⟩).bind fun _ _ => .pure trivial
  | [a] => (compileArgument_computes env a).bind fun _ _ => Computes.bind (.emitTo fun _ => ⟨rfl, rfl⟩) fun _ _ =>
    .pure trivial
  | a :: b :: _ => (compileArgument_computes env a).bind fun _ _ =>
    (compileArgument_computes env b).bind fun _ _ => .pure trivial

end

theorem compileStep_computes (env : ModuleEnv) [Searches env F] : ∀ by_, Computes b R F (compileStep env by_) (From b)
  | some e => compileExpression_computes env e
  | none => .emitTo fun _ => ⟨rfl, rfl⟩

end

/-! ## The walk over a statement -/

section

variable {R : FunctionCompiler → FunctionCompiler → Prop} [Closed R]
variable {F : CompileFault → Prop} [Overflows F]

theorem compileLoadVariable_walks (env : ModuleEnv) (name : String) :
    Walks R F (compileLoadVariable env name) := (compileLoadVariable_computes env name).walks

variable [F64Ops]

theorem compileExpression_walks (env : ModuleEnv) [Searches env F] (e : Expression) :
    Walks R F (compileExpression env e) := (compileExpression_computes env e).walks

omit [F64Ops] [Overflows F] in
theorem compileStoreRoot_walks (env : ModuleEnv) (id : String) (val : Reg) (range : TextRange) :
    Walks R F (compileStoreRoot env id val range) := by
  refine Walks.getBind fun s => ?_
  split
  · exact .emitSourced _ _ rfl
  · exact .emitSourced _ _ rfl
  · exact .pure _

theorem compileStore_walks (env : ModuleEnv) [Searches env F] (target : List AccessPart) (val : Reg)
    (range : TextRange) : Walks R F (compileStore env target val range) := by
  unfold compileStore
  split
  · exact (compileLoadVariable_walks env _).bind fun _ => .emitSourced _ _ rfl
  · refine Walks.getBind fun s => ?_
    split
    · exact (compileExpression_walks env _).bind fun _ => .emitSourced _ _ rfl
    · exact compileStoreRoot_walks env _ _ _
  · refine Walks.getBind fun s => ?_
    split
    · exact (compileExpression_walks env _).bind fun _ => .emitSourced _ _ rfl
    · exact compileStoreRoot_walks env _ _ _
  · refine Walks.getBind fun s => ?_
    split
    · exact .emitSourced _ _ rfl
    · exact compileStoreRoot_walks env _ _ _
  · exact (compileLoadVariable_walks env _).bind fun _ =>
      (Walks.emitTo _ fun _ => insertInstruction_stays _ _ _ _ _).bind fun _ =>
        compileStoreRoot_walks env _ _ _
  · exact compileStoreRoot_walks env _ _ _
  · exact .pure _

theorem compileSelectors_walks (env : ModuleEnv) [Searches env F] (expr : Reg) (body : Label) : ∀ sels,
    Walks R F (compileSelectors env expr body sels)
  | [] => .pure _
  | .single e :: sels => Walks.bind
      ((compileExpression_walks env e).bind fun _ => (Walks.emitTo _ fun _ => rfl).bind fun _ => .emit _ rfl)
      fun _ => compileSelectors_walks env expr body sels
  | .range lo hi :: sels => by
    refine Walks.bind ?_ fun _ => compileSelectors_walks env expr body sels
    refine (compileExpression_walks env lo).bind fun _ =>
      (compileExpression_walks env hi).bind fun _ => ?_
    refine Walks.allocReg.bind fun _ => Walks.allocReg.bind fun _ => Walks.allocReg.bind fun _ => ?_
    exact (Walks.emit _ rfl).bind fun _ => (Walks.emit _ rfl).bind fun _ => (Walks.emit _ rfl).bind fun _ =>
      .emit _ rfl

omit [F64Ops] [Overflows F] in
theorem storeLoopVar_walks (name : String) (val : Reg) : Walks R F (storeLoopVar name val) := by
  refine Walks.getBind fun s => ?_
  split
  · exact .emit _ rfl
  · exact .pure _

mutual

theorem compileStatement_walks (env : ModuleEnv) [Searches env F] : ∀ st, Walks R F (compileStatement env st)
  | .assignment target value range => by
    unfold compileStatement
    exact (Walks.setSource _).bind fun _ => (compileExpression_walks env value).bind fun _ =>
      compileStore_walks env _ _ _
  | .functionCall name arguments range => by
    unfold compileStatement
    exact (Walks.setSource _).bind fun _ => (compileExpression_walks env _).bind fun _ => .pure _
  | .ifStmt condition thenBody elsifClauses elseBody range => by
    unfold compileStatement
    refine (Walks.setSource _).bind fun _ => Walks.allocLabel.bind fun _ =>
      Walks.allocLabel.bind fun _ => (compileExpression_walks env condition).bind fun _ => ?_
    refine (Walks.emit _ rfl).bind fun _ => (compileStatements_walks env thenBody).bind fun _ =>
      (Walks.emit _ rfl).bind fun _ => (Walks.placeLabel _).bind fun _ => ?_
    exact (compileElsifs_walks env _ elsifClauses).bind fun _ =>
      (compileElse_walks env elseBody).bind fun _ => .placeLabel _
  | .caseStmt expression branches elseBody range => by
    unfold compileStatement
    refine (Walks.setSource _).bind fun _ => Walks.allocLabel.bind fun _ =>
      (compileExpression_walks env expression).bind fun _ => ?_
    exact (compileBranches_walks env _ _ branches).bind fun _ =>
      (compileElse_walks env elseBody).bind fun _ => .placeLabel _
  | .forStmt loopVar lower upper by_ body range => by
    unfold compileStatement
    refine (Walks.setSource _).bind fun _ => Walks.allocLabel.bind fun _ =>
      Walks.allocLabel.bind fun _ => (compileExpression_walks env lower).bind fun _ => ?_
    refine (storeLoopVar_walks _ _).bind fun _ => (Walks.placeLabel _).bind fun _ =>
      (compileLoadVariable_walks env _).bind fun _ => ?_
    refine (compileExpression_walks env upper).bind fun _ => (Walks.emitTo _ fun _ => rfl).bind fun _ =>
      (Walks.emit _ rfl).bind fun _ => (Walks.pushLoopExit _).bind fun _ => ?_
    refine (compileStatements_walks env body).bind fun _ => Walks.popLoopExit.bind fun _ =>
      (compileStep_computes env by_).walks.bind fun _ => (compileLoadVariable_walks env _).bind fun _ => ?_
    exact (Walks.emitTo _ fun _ => rfl).bind fun _ => (storeLoopVar_walks _ _).bind fun _ =>
      (Walks.emit _ rfl).bind fun _ => .placeLabel _
  | .whileStmt condition body range => by
    unfold compileStatement
    refine (Walks.setSource _).bind fun _ => Walks.allocLabel.bind fun _ =>
      Walks.allocLabel.bind fun _ => (Walks.placeLabel _).bind fun _ => ?_
    refine (compileExpression_walks env condition).bind fun _ => (Walks.emit _ rfl).bind fun _ =>
      (Walks.pushLoopExit _).bind fun _ => (compileStatements_walks env body).bind fun _ => ?_
    exact Walks.popLoopExit.bind fun _ => (Walks.emit _ rfl).bind fun _ => .placeLabel _
  | .repeatStmt body condition range => by
    unfold compileStatement
    refine (Walks.setSource _).bind fun _ => Walks.allocLabel.bind fun _ =>
      Walks.allocLabel.bind fun _ => (Walks.placeLabel _).bind fun _ => ?_
    refine (Walks.pushLoopExit _).bind fun _ => (compileStatements_walks env body).bind fun _ =>
      Walks.popLoopExit.bind fun _ => ?_
    exact (compileExpression_walks env condition).bind fun _ => (Walks.emit _ rfl).bind fun _ =>
      .placeLabel _
  | .returnStmt range => by
    unfold compileStatement
    exact (Walks.setSource _).bind fun _ => Walks.allocReg.bind fun r => .leave r range
  | .exit range => by
    unfold compileStatement
    refine (Walks.setSource _).bind fun _ => .getBind fun s => ?_
    split
    · exact .emit _ rfl
    · exact .pure _
  | .empty range => by
    unfold compileStatement
    exact .setSource _

theorem compileStatements_walks (env : ModuleEnv) [Searches env F] : ∀ sts, Walks R F (compileStatements env sts)
  | [] => by
    unfold compileStatements
    exact .pure _
  | st :: sts => by
    unfold compileStatements
    exact (compileStatement_walks env st).bind fun _ => compileStatements_walks env sts

theorem compileElse_walks (env : ModuleEnv) [Searches env F] : ∀ body, Walks R F (compileElse env body)
  | some body => by
    unfold compileElse
    exact compileStatements_walks env body
  | none => by
    unfold compileElse
    exact .pure _

theorem compileElsifs_walks (env : ModuleEnv) [Searches env F] (endLabel : Label) : ∀ clauses,
    Walks R F (compileElsifs env endLabel clauses)
  | [] => by
    unfold compileElsifs
    exact .pure _
  | .mk condition body :: clauses => by
    unfold compileElsifs
    refine Walks.allocLabel.bind fun _ => (compileExpression_walks env condition).bind fun _ =>
      (Walks.emit _ rfl).bind fun _ => (compileStatements_walks env body).bind fun _ => ?_
    exact (Walks.emit _ rfl).bind fun _ => (Walks.placeLabel _).bind fun _ =>
      compileElsifs_walks env endLabel clauses

theorem compileBranches_walks (env : ModuleEnv) [Searches env F] (endLabel : Label) (expr : Reg) : ∀ branches,
    Walks R F (compileBranches env endLabel expr branches)
  | [] => by
    unfold compileBranches
    exact .pure _
  | .mk selectors body :: branches => by
    unfold compileBranches
    refine Walks.allocLabel.bind fun _ => Walks.allocLabel.bind fun _ =>
      (compileSelectors_walks env expr _ selectors).bind fun _ => (Walks.emit _ rfl).bind fun _ => ?_
    refine (Walks.placeLabel _).bind fun _ => (compileStatements_walks env body).bind fun _ =>
      (Walks.emit _ rfl).bind fun _ => (Walks.placeLabel _).bind fun _ => ?_
    exact compileBranches_walks env endLabel expr branches

end

end

end RustPlc.Compiler
