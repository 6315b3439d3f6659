import RustPlc.L4Agree.ExpressionRuns

/-!
# Running the initialisers

The code of the initialisers stands in front of a body. A run through it
evaluates each initialiser and stores its value, narrowed to the variable; the
variables without initialiser keep the defaults of their types.

Results:
* `init_runs`: a run through the initialisers, value by value.
-/
namespace RustPlc.Agree

open RustPlc.Ir RustPlc.Syntax RustPlc.Compiler RustPlc.Engine RustPlc.Correct

/-- The locals after the values of the initialisers have been stored. -/
def executed (l : MemoryLayout) : List Initialiser → List Value → List Value → List Value
  | p :: ps, v :: vs, locals =>
    executed l ps vs (locals.set p.slot.toNat (narrowValue v (slotWidth l p.slot)))
  | _, _, locals => locals

section

variable [F64Ops] {env : ModuleEnv} {i : UInt16} {d : Nat} {F : Function}
  {s s' : FunctionCompiler} {vm vm' : Vm} {f f' : CallFrame}

/-- A run from position `a` through the initialisers, with the value that the
code of each left in its register. -/
inductive InitRun (i : UInt16) (d : Nat) : List Initialiser → Nat → CallFrame → CallFrame →
    Vm → Vm → List Value → Prop where
  | done (a : Nat) (f : CallFrame) (vm : Vm) : InitRun i d [] a f f vm vm []
  | init {p : Initialiser} {ps : List Initialiser} {a : Nat} {f g h f' : CallFrame}
      {vm mid mid' vm' : Vm} {v : Value} {vs : List Value}
      (hvalue : Crosses i d a (a + p.code.length) f g vm mid) (hv : g.regGet p.reg = .ok v)
      (hstore : Crosses i d (a + p.code.length) (a + p.code.length + 1) g h mid mid')
      (hrest : InitRun i d ps (a + p.code.length + 1) h f' mid' vm' vs) :
    InitRun i d (p :: ps) a f f' vm vm' (v :: vs)

/-- A part of an undisturbed run is undisturbed. -/
theorem Undisturbed.part {S T : Nat → Prop} {u u' : Vm} (h : Undisturbed i d T vm vm')
    (hST : ∀ pc, S pc → T pc) (h1 : Vm.Through i d T vm u) (h2 : Vm.Through i d T u' vm') :
    Undisturbed i d S u u' := fun w hw hw' =>
  h w (through_trans h1 (through_mono hST hw)) (through_trans (through_mono hST hw') h2)

/-- **A run through the initialisers.** The value of each is stored in its
turn; if nothing is stored through references meanwhile, nothing else changes
the locals. -/
theorem init_runs {ps : List Initialiser} (hc : InitCode env ps s s') (hF : Begins F s') :
    ∀ {f : CallFrame} {vm : Vm}, vm.func? i = some F → vm.Idle →
      s'.nextReg.toNat ≤ f.registers.length →
      Crosses i d s.instructions.length s'.instructions.length f f' vm vm' →
      ∃ vs, InitRun i d ps s.instructions.length f f' vm vm' vs ∧
        (Undisturbed i d (Between s.instructions.length s'.instructions.length) vm vm' →
          f'.locals = executed F.locals ps vs f.locals) := by
  induction hc with
  | @done s s' hsame =>
    intro f vm _ _ _ hrun
    rw [hsame.code] at hrun
    obtain rfl := through_outside hrun.run hrun.start (by
      unfold Between
      omega)
    obtain rfl := onTop_unique hrun.start hrun.finish
    exact ⟨[], .done _ _ _, fun _ => rfl⟩
  | @init p ps s s1 s2 s3 s' u hsame hready hvalue hcode hstore hrest ih =>
    intro f vm hfunc hidle hregs hrun
    have happ := compileExpression_appends hvalue
    have hF3 : Begins F s3 := List.IsPrefix.trans ⟨_, hrest.code.symm⟩ hF
    obtain rfl := emit_eq hstore
    obtain ⟨hat, hF2⟩ := hF3.emitted
    have h1 : s1.instructions.length = s.instructions.length := by rw [hsame.code]
    have h2 : s2.instructions.length = s.instructions.length + p.code.length := by
      rw [hcode, List.length_append, h1]
    have h3 := length_emitted s2 (.storeLocal p.slot p.reg)
    have hle : (emitted s2 (.storeLocal p.slot p.reg)).instructions.length ≤
        s'.instructions.length := by
      rw [hrest.code, List.length_append]
      omega
    have hreg2 : s2.nextReg.toNat ≤ s'.nextReg.toNat := hrest.regs
    have hstraight := (InitCode.init hsame hready hvalue hcode hstore hrest).straightOn hF
    -- the value, the store, the rest
    obtain ⟨mid', g', hrun12, hrun3⟩ := hrun.split (by omega) hle hstraight hfunc hidle
    rw [h3] at hrun12
    obtain ⟨mid, g, hrun1, hrun2⟩ := hrun12.split (by omega) (Nat.le_succ _)
      (hstraight.left (by omega)) hfunc hidle
    have hrun1' := hrun1
    rw [← h1] at hrun1'
    have hwide : ∀ {a b : Nat}, s.instructions.length ≤ a → b ≤ s'.instructions.length →
        ∀ pc, Between a b pc → Between s.instructions.length s'.instructions.length pc :=
      fun ha hb pc hpc => ⟨Nat.le_trans ha hpc.1, Nat.lt_of_lt_of_le hpc.2 hb⟩
    have hkept := (hrun1'.kept happ hF2 hfunc hidle).1
    have hfresh := (compileExpression_fresh env p.value).fresh hvalue
    obtain ⟨v, hv⟩ := regGet_ok (f := g) (r := p.reg) (by omega)
    obtain ⟨hlocals, hregisters⟩ := hrun2.stored hat (hrun1.func? hfunc) hv
    have hidle' := hrun2.idle (hrun1.idle hidle)
    obtain ⟨vs, hvs, hend⟩ := ih hF (hrun2.func? (hrun1.func? hfunc)) hidle'
      (by rw [hregisters]; omega) hrun3
    have hvs' : InitRun i d (p :: ps) s.instructions.length f f' vm vm' (v :: vs) := by
      rw [h2] at hrun1 hrun2
      rw [h3, h2] at hvs
      exact .init hrun1 hv hrun2 hvs
    refine ⟨v :: vs, hvs', fun hquiet => ?_⟩
    have hfirst : g.locals = f.locals := by
      obtain ⟨rest, hstack, hd, -⟩ := hrun1.start
      have hframe := Vm.frameAt_cons hstack
      rw [hd] at hframe
      refine through_locals (fun pc ins hpc hins => (happ.at_pc hF2 hpc hins).storesLocal)
        hrun1'.run hfunc (hquiet.part (hwide h1.ge (by omega)) (.refl vm) ?_) hframe hrun1.finish
      exact through_trans (through_mono (hwide (by omega) (by omega)) hrun2.run)
        (through_mono (hwide (by omega) (Nat.le_refl _)) hrun3.run)
    have hlast := hend (hquiet.part (hwide (by omega) (Nat.le_refl _))
      (through_trans (through_mono (hwide (Nat.le_refl _) (by omega)) hrun1.run)
        (through_mono (hwide (by omega) (by omega)) hrun2.run)) (.refl vm'))
    rw [hlast, hlocals, hfirst]
    rfl

end

end RustPlc.Agree
