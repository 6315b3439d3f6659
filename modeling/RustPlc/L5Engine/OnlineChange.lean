import RustPlc.L3Vm.Host

/-!
# Online change

`analyze_change`, `migrate_locals` and `apply_online_change`
(crates/st-engine/src/online_change.rs:49-326), and the engine's entry point
`online_change_module` (crates/st-engine/src/engine.rs:359-390).

The hash maps `old_funcs` and `new_funcs` are keyed by the upper-case name
and the last function of a name wins (`lastNamed`). The engine is its
machine and the name of the program it runs; its timing statistics and the
retain file it writes do not come back into either.
-/
namespace RustPlc.Engine

open RustPlc.Ir RustPlc.Core

/-! ## Analysis -/

/-- mirrors crates/st-engine/src/online_change.rs:33-47 -/
inductive ChangeKind where
  | unchanged | codeOnly | varsAdded | layoutChanged | new | removed
  deriving DecidableEq, Repr

/-- mirrors crates/st-engine/src/online_change.rs:28-31 -/
structure FunctionChange where
  name : String
  kind : ChangeKind
  deriving DecidableEq, Repr

/-- mirrors crates/st-engine/src/online_change.rs:11-24. `compatible` is
`incompatible_reasons.is_empty()`. -/
structure ChangeAnalysis where
  functionChanges : List FunctionChange
  incompatibleReasons : List String
  preservedVars : List String
  newVars : List String
  removedVars : List String
  deriving DecidableEq, Repr

namespace ChangeAnalysis

def compatible (a : ChangeAnalysis) : Bool := a.incompatibleReasons.isEmpty

def empty : ChangeAnalysis := ⟨[], [], [], [], []⟩

/-- The reports of two passes, one after the other. -/
def append (a b : ChangeAnalysis) : ChangeAnalysis where
  functionChanges := a.functionChanges ++ b.functionChanges
  incompatibleReasons := a.incompatibleReasons ++ b.incompatibleReasons
  preservedVars := a.preservedVars ++ b.preservedVars
  newVars := a.newVars ++ b.newVars
  removedVars := a.removedVars ++ b.removedVars

def concat (xs : List ChangeAnalysis) : ChangeAnalysis := xs.foldr append empty

section

variable (a b : ChangeAnalysis) (xs : List ChangeAnalysis)

@[simp] theorem append_functionChanges :
    (a.append b).functionChanges = a.functionChanges ++ b.functionChanges := rfl

@[simp] theorem append_incompatibleReasons :
    (a.append b).incompatibleReasons = a.incompatibleReasons ++ b.incompatibleReasons := rfl

@[simp] theorem append_preservedVars :
    (a.append b).preservedVars = a.preservedVars ++ b.preservedVars := rfl

@[simp] theorem concat_functionChanges :
    (concat xs).functionChanges = xs.flatMap (·.functionChanges) := by
  induction xs with
  | nil => rfl
  | cons x xs ih => simpa [concat] using ih

@[simp] theorem concat_incompatibleReasons :
    (concat xs).incompatibleReasons = xs.flatMap (·.incompatibleReasons) := by
  induction xs with
  | nil => rfl
  | cons x xs ih => simpa [concat] using ih

@[simp] theorem concat_preservedVars :
    (concat xs).preservedVars = xs.flatMap (·.preservedVars) := by
  induction xs with
  | nil => rfl
  | cons x xs ih => simpa [concat] using ih

end

end ChangeAnalysis

/-- Same name, without regard to case. -/
def sameName (a b : VarSlot) : Bool := eqIgnoreAsciiCase a.name b.name

/-- Same name and same `VarType`. -/
def sameVar (a b : VarSlot) : Bool := sameName a b && a.ty == b.ty

/-- `funcs.get(&name.to_uppercase())` of the map collected from `fs`. -/
def lastNamed (fs : List Function) (name : String) : Option Function :=
  fs.reverse.find? fun f => toUppercase f.name == toUppercase name

/-- The old slots are, in order, the first slots of the new layout. -/
def layoutSame (old new : MemoryLayout) : Bool :=
  decide (old.slots.length ≤ new.slots.length) &&
    old.slots.zipIdx.all fun (s, i) => match new.slots[i]? with
      | some t => sameVar s t
      | none => false

/-- mirrors crates/st-engine/src/online_change.rs:157-203 -/
def compareFunctions (old new : Function) : ChangeKind :=
  if !layoutSame old.locals new.locals then
    let allOldPreserved := old.locals.slots.all fun s => new.locals.slots.any (sameVar s)
    if allOldPreserved && decide (old.locals.slots.length < new.locals.slots.length) then .varsAdded
    else .layoutChanged
  else if old.instructions.length ≠ new.instructions.length then .codeOnly
  else if old.locals.slots.length < new.locals.slots.length then .varsAdded
  else .codeOnly

/-- The report on one slot of a function that is in both modules.
mirrors crates/st-engine/src/online_change.rs:75-97 -/
def analyzeSlot (old new : Function) (s : VarSlot) : ChangeAnalysis :=
  if old.locals.slots.any (sameVar · s) then
    { ChangeAnalysis.empty with preservedVars := [new.name ++ "." ++ s.name] }
  else if old.locals.slots.any (sameName · s) then
    { ChangeAnalysis.empty with
      incompatibleReasons := ["Variable '" ++ (new.name ++ "." ++ s.name) ++ "' changed type"] }
  else { ChangeAnalysis.empty with newVars := [new.name ++ "." ++ s.name] }

/-- The slots of `old` that `new` has no longer.
mirrors crates/st-engine/src/online_change.rs:99-108 -/
def removedSlots (old new : Function) : ChangeAnalysis :=
  { ChangeAnalysis.empty with
    removedVars := (old.locals.slots.filter fun s =>
      !new.locals.slots.any (sameName · s)).map fun s => old.name ++ "." ++ s.name }

/-- mirrors crates/st-engine/src/online_change.rs:69-131 -/
def analyzeFunction (old : Module) (new : Function) : ChangeAnalysis :=
  match lastNamed old.functions new.name with
  | some oldFunc =>
    let change := compareFunctions oldFunc new
    let vars :=
      if new.kind = .program ∨ new.kind = .functionBlock then
        (ChangeAnalysis.concat (new.locals.slots.map (analyzeSlot oldFunc new))).append
          (removedSlots oldFunc new)
      else .empty
    vars.append { ChangeAnalysis.empty with
      functionChanges := [⟨new.name, change⟩]
      incompatibleReasons :=
        if change = .layoutChanged then
          ["Function '" ++ new.name ++ "' has incompatible variable layout changes"]
        else [] }
  | none => { ChangeAnalysis.empty with functionChanges := [⟨new.name, .new⟩] }

/-- mirrors crates/st-engine/src/online_change.rs:133-143 -/
def analyzeRemoved (new : Module) (old : Function) : ChangeAnalysis :=
  match lastNamed new.functions old.name with
  | some _ => .empty
  | none => { ChangeAnalysis.empty with
    functionChanges := [⟨old.name, .removed⟩]
    incompatibleReasons := ["Function '" ++ old.name ++ "' was removed"] }

/-- mirrors crates/st-engine/src/online_change.rs:213-228 -/
def analyzeGlobal (old : Module) (s : VarSlot) : ChangeAnalysis :=
  match old.globals.slots.find? (sameName · s) with
  | some oldSlot =>
    if oldSlot.ty ≠ s.ty then
      { ChangeAnalysis.empty with
        incompatibleReasons := ["Global variable '" ++ s.name ++ "' changed type"] }
    else { ChangeAnalysis.empty with preservedVars := ["GLOBAL." ++ s.name] }
  | none => { ChangeAnalysis.empty with newVars := ["GLOBAL." ++ s.name] }

/-- mirrors crates/st-engine/src/online_change.rs:205-240 -/
def checkGlobalsCompat (old new : Module) : ChangeAnalysis :=
  (ChangeAnalysis.concat (new.globals.slots.map (analyzeGlobal old))).append
    { ChangeAnalysis.empty with
      removedVars := (old.globals.slots.filter fun s =>
        !new.globals.slots.any (sameName · s)).map fun s => "GLOBAL." ++ s.name }

/-- mirrors crates/st-engine/src/online_change.rs:50-154 -/
def analyzeChange (old new : Module) : ChangeAnalysis :=
  ((ChangeAnalysis.concat (new.functions.map (analyzeFunction old))).append
    (ChangeAnalysis.concat (old.functions.map (analyzeRemoved new)))).append
    (checkGlobalsCompat old new)

section

variable (old new : Module)

theorem analyzeGlobal_functionChanges (s : VarSlot) : (analyzeGlobal old s).functionChanges = [] := by
  unfold analyzeGlobal
  split
  · split
    · rfl
    · rfl
  · rfl

theorem analyzeChange_functionChanges : (analyzeChange old new).functionChanges =
    new.functions.flatMap (fun f => (analyzeFunction old f).functionChanges) ++
      old.functions.flatMap fun f => (analyzeRemoved new f).functionChanges := by
  have hglobals : new.globals.slots.flatMap (fun s => (analyzeGlobal old s).functionChanges) = [] :=
    List.flatMap_eq_nil_iff.mpr fun s _ => analyzeGlobal_functionChanges old s
  simp [analyzeChange, checkGlobalsCompat, List.flatMap_map, hglobals, ChangeAnalysis.empty]

/-- A change is compatible when no function, removed function or global
gives a reason against it. -/
theorem analyzeChange_compatible : (analyzeChange old new).compatible = true ↔
    (∀ f ∈ new.functions, (analyzeFunction old f).incompatibleReasons = []) ∧
    (∀ f ∈ old.functions, (analyzeRemoved new f).incompatibleReasons = []) ∧
    ∀ s ∈ new.globals.slots, (analyzeGlobal old s).incompatibleReasons = [] := by
  simp [ChangeAnalysis.compatible, analyzeChange, checkGlobalsCompat, List.flatMap_map,
    ChangeAnalysis.empty]

end

/-! ## Migration -/

/-- mirrors crates/st-engine/src/online_change.rs:244-268 -/
def migrateLocals (oldLocals : List Value) (oldLayout newLayout : MemoryLayout) : List Value :=
  newLayout.slots.map fun s => match oldLayout.findSlot s.name with
    | some (i, t) =>
      if t.ty = s.ty then oldLocals[i.toNat]?.getD (Value.defaultForType s.ty)
      else Value.defaultForType s.ty
    | none => Value.defaultForType s.ty

theorem migrateLocals_length (xs : List Value) (old new : MemoryLayout) :
    (migrateLocals xs old new).length = new.slots.length := by
  simp [migrateLocals]

/-- The message of a refused change. -/
def incompatibleMessage (a : ChangeAnalysis) : String :=
  "Incompatible change: " ++ "; ".intercalate a.incompatibleReasons

/-- The retained locals of one changed function, in the new layout.
mirrors crates/st-engine/src/online_change.rs:291-312 -/
def migrateFunction (vm : Vm) (newModule : Module) (change : FunctionChange) :
    Option (UInt16 × List Value) :=
  if change.kind = .unchanged then none
  else match vm.module.findFunction change.name, newModule.findFunction change.name with
    | some (_, oldF), some (newIdx, newF) =>
      if oldF.kind = .program ∨ oldF.kind = .functionBlock then
        (vm.getRetainedLocals change.name).map fun ls =>
          (newIdx, migrateLocals ls oldF.locals newF.locals)
      else none
    | _, _ => none

/-- mirrors crates/st-engine/src/online_change.rs:286-313 -/
def migratedLocals (vm : Vm) (newModule : Module) (changes : List FunctionChange) :
    Map UInt16 (List Value) :=
  (changes.filterMap (migrateFunction vm newModule)).foldl
    (fun m (i, ls) => Finmap.insert i ls m) ∅

/-- mirrors crates/st-engine/src/online_change.rs:315-321 -/
def oldGlobals (vm : Vm) : Except Trap (List Value) :=
  vm.module.globals.slots.mapM fun s => (vm.getGlobal s.name).map (·.getD .void)

/-- mirrors crates/st-engine/src/online_change.rs:272-327 -/
def applyOnlineChange (vm : Vm) (newModule : Module) (analysis : ChangeAnalysis) :
    Except Trap (Vm × Except String Unit) :=
  if !analysis.compatible then .ok (vm, .error (incompatibleMessage analysis))
  else do
    let locals := migratedLocals vm newModule analysis.functionChanges
    let globals ← oldGlobals vm
    let newGlobals := migrateLocals globals vm.module.globals newModule.globals
    return (vm.swapModule newModule locals newGlobals, .ok ())

/-! ## The engine -/

end RustPlc.Engine

/-- mirrors crates/st-engine/src/engine.rs:91-100, the part that cycles
depend on. -/
structure RustPlc.Engine where
  vm : RustPlc.Engine.Vm
  programName : String

namespace RustPlc.Engine

open RustPlc.Ir RustPlc.Core

/-- The first PROGRAM of a module. -/
def firstProgram (m : Module) : Option Function :=
  m.functions.find? fun f => f.kind == .program

/-- mirrors crates/st-engine/src/engine.rs:359-390 -/
def onlineChangeModule (e : Engine) (newModule : Module) :
    Except Trap (Engine × Except String ChangeAnalysis) :=
  let analysis := analyzeChange e.vm.module newModule
  if !analysis.compatible then .ok (e, .error (incompatibleMessage analysis))
  else
    let programName := match firstProgram newModule with
      | some prog => prog.name
      | none => e.programName
    (applyOnlineChange e.vm newModule analysis).map fun (vm, r) =>
      ({ vm := vm, programName := programName }, match r with
        | .ok _ => .ok analysis
        | .error msg => .error ("Apply error: " ++ msg))

section

variable [F64Ops]

/-- What a cycle does to the machine: it goes on with a paused cycle or starts
a new one, and a failed cycle skips `enforce_retained_locals`.
mirrors crates/st-engine/src/engine.rs:243-266 -/
def cycleVm (fuel : Nat) (vm : Vm) (programName : String) : Option (Vm × Except Trap Unit) :=
  if 0 < vm.callStack.length then
    (vm.continueExecution fuel).map fun (w, r) => (w, r.map fun _ => ())
  else
    (vm.scanCycle fuel programName).map fun (w, r) => match r with
      | .error t => (w, .error t)
      | .ok _ => match w.enforceRetainedLocals with
        | .ok w' => (w', .ok ())
        | .error t => (w, .error t)

/-- A cycle at `elapsedMs` milliseconds.
mirrors crates/st-engine/src/engine.rs:222-266 -/
def runOneCycle (fuel : Nat) (e : Engine) (elapsedMs : Int64) : Option (Engine × Except Trap Unit) :=
  (cycleVm fuel { e.vm with elapsedTimeMs := elapsedMs, instructionCount := 0 } e.programName).map
    fun (w, r) => ({ e with vm := w }, r)

end

end RustPlc.Engine
