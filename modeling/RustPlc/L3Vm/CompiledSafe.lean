import RustPlc.L2Compiler.CompileWellFormed
import RustPlc.L3Vm.SafeRun

/-!
# Compiled code stays in range

The two halves together: a module that `compile` returns is well formed
(`compile_module_wellFormed`), and on a well-formed module the machine leaves
its tables in one situation only (`step_outOfRange_iff`).

A frame of the machine gets as many registers as its function declares; the
class initialisation of a first method call gets 256.
-/
namespace RustPlc.Engine

open RustPlc.Ir RustPlc.Core RustPlc.Syntax RustPlc.Compiler

/-- The next iteration of the loop reports an invalid function or label, or
indexes a vector out of range. -/
def Vm.LeavesTables [F64Ops] (vm : Vm) : Prop :=
  ∃ vm' t, vm.step = .halt (vm', .error t) ∧ t.outOfRange = true

theorem compile_native [F64Ops] {source : SourceFile} {m : Module} (h : compile source = .ok m) :
    m.nativeFbIndices = [] := by
  obtain ⟨-, -, -, -, -, -, rfl⟩ := compile_stages h
  rfl

/-- **Compiled code in range.** The bytecode of every source that compiles is
well formed, and in every state of every sequence of scan cycles the machine
leaves its tables exactly when it starts a class initialisation that uses a
register beyond 255. -/
theorem compiled_code_in_range [F64Ops] {source : SourceFile} {m : Module}
    (h : compile source = .ok m) (hlen : m.functions.length ≤ 65536) :
    m.WellFormed ∧
      ∀ vm, (scanLts m).Reachable vm → (vm.LeavesTables ↔ vm.NeedsWideInit) := by
  have hwf := compile_module_wellFormed h
  refine ⟨hwf, fun vm hvm => ?_⟩
  exact step_outOfRange_iff (scan_sized hwf (compile_native h) hlen hvm)

/-! ## A class whose initial value needs 257 registers -/

/-- `1 + 1 + ... + 1` with `n + 1` ones. -/
def ones : Nat → Expression
  | 0 => .ofInt 1
  | n + 1 => .binary .add (ones n) (.ofInt 1) noRange

/-- A class with one variable, initialised to a sum of `n + 1` ones, and a
program that calls its method. -/
def counterSource (n : Nat) : SourceFile := ⟨[
  .classDecl (.plain "Counter" none [.of [.init "x" .int (ones n)]]
    [.plain "Touch" none [] []]),
  .program ⟨"Main", [.of [.plain "c" (.named "Counter")]],
    [.functionCall ["c", "Touch"] [] noRange]⟩]⟩

/-- What a run of `Main` on a new machine ends with. -/
def mainResult [F64Ops] (fuel : Nat) (m : Module) : Option (Except Trap Value) :=
  (Vm.run fuel (Vm.new m .default) "Main").map (·.2)

/-- With 129 ones the first call of the method indexes register 256 of the
256 of the class initialisation. -/
theorem wide_class_init_out_of_range :
    ¬ ∀ (_ : F64Ops) (source : SourceFile) (m : Module), compile source = .ok m →
      m.functions.length ≤ 65536 → ∀ fuel t, mainResult fuel m = some (.error t) →
        t.outOfRange = false := by
  intro h
  have hrun : @yields default (counterSource 128) (fun m =>
      decide (m.functions.length ≤ 65536) &&
        decide (@mainResult default 100 m = some (.error .indexOutOfBounds))) = true := by
    decide +kernel
  obtain ⟨m, hm, hp⟩ := (@yields_iff default _ _).mp hrun
  simp only [Bool.and_eq_true, decide_eq_true_eq] at hp
  have := h default _ m hm hp.1 100 _ hp.2
  simp [Trap.outOfRange] at this

/-- With three ones the same program stays in range. -/
theorem narrow_class_init_in_range :
    ∃ m, @compile default (counterSource 2) = .ok m ∧ m.functions.length ≤ 65536 ∧
      m.WellFormed ∧ ∀ vm, (@scanLts default m).Reachable vm →
        (@Vm.LeavesTables default vm ↔ vm.NeedsWideInit) := by
  have hlen : @yields default (counterSource 2) (fun m =>
      decide (m.functions.length ≤ 65536)) = true := by
    decide +kernel
  obtain ⟨m, hm, hp⟩ := (@yields_iff default _ _).mp hlen
  have hp := of_decide_eq_true hp
  exact ⟨m, hm, hp, @compiled_code_in_range default _ m hm hp⟩

end RustPlc.Engine
