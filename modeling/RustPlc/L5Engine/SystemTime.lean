import RustPlc.L3Vm.Effect
import RustPlc.L5Engine.Errors

/-!
# The clock of the program

`SYSTEM_TIME()` returns what `Engine::run_one_cycle` hands to the machine: the
execution time of the completed cycles so far (`CycleStats::total_time`), in
whole milliseconds. Neither the sleep between two cycles nor a cycle that
failed or was paused is in this sum.

A run of the engine is recorded as the list of its calls of `run_one_cycle`,
with the readings of the clock (in nanoseconds) that the calls make. What the
loop around them does with the machine in between is left open.

Results:
* `step_elapsed`: the machine does not change its clock;
* `EngineRun.systemTime`: the value of `SYSTEM_TIME()` in every call of a run;
* `systemTime_wallClock_iff`: it is wall-clock time, and timers elapse with it,
  exactly when the run loses less than the rest of a millisecond outside
  completed cycles.
-/
namespace RustPlc.Engine

open RustPlc.Ir RustPlc.Core

/-! ## The machine keeps its clock -/

variable [F64Ops]

/-- An iteration of the interpreter leaves the clock. -/
theorem step_elapsed (vm : Vm) : (left vm.step).elapsedTimeMs = vm.elapsedTimeMs := by
  have hcase := vm.stepCase
  generalize vm.nextInstr = next at hcase
  generalize vm.step = o at hcase ⊢
  cases hcase with
  | idle | lost | paused | limit => rfl
  | atEnd f rest func hstack hfunc hend =>
    unfold Vm.fallOff
    cases Vm.returnTo .void rest with
    | error t => exact vm.saveRetainedLocals_setup.elapsedTimeMs
    | ok rest' => exact vm.saveRetainedLocals_setup.elapsedTimeMs
  | instr f rest func d i hstack hfunc hi =>
    have heff := Vm.exec_effect (vm.advance d f rest) func { f with pc := f.pc + 1 } rest i
    exact heff.setup.elapsedTimeMs.trans rfl

theorem stepsTo_elapsed {n : Nat} {vm w : Vm} (h : StepsTo Vm.step n vm w) :
    w.elapsedTimeMs = vm.elapsedTimeMs := by
  refine StepsTo.inv (I := fun u => u.elapsedTimeMs = vm.elapsedTimeMs) (fun u u' hu hstep => ?_)
    rfl h
  have hkeep := step_elapsed u
  rw [hstep] at hkeep
  exact hkeep.trans hu

/-! ## The engine with its statistics -/

/-- The nanoseconds of a millisecond. -/
def nsPerMs : Nat := 1000000

/-- An engine and `CycleStats::total_time` in nanoseconds, the only one of its
statistics that the engine reads.
mirrors crates/st-engine/src/engine.rs:27-29, 92-101 -/
structure TimedEngine where
  engine : Engine
  totalTime : Nat

namespace TimedEngine

/-- `self.stats.total_time.as_millis() as i64`
mirrors crates/st-engine/src/engine.rs:246 -/
def elapsedMs (t : TimedEngine) : Int64 := Int64.ofNat (t.totalTime / nsPerMs)

/-- mirrors crates/st-engine/src/engine.rs:245-249 -/
def clocked (t : TimedEngine) : Vm :=
  { t.engine.vm with elapsedTimeMs := t.elapsedMs, instructionCount := 0 }

/-- The machine of a cycle when it starts to execute: a paused cycle goes on,
otherwise the program is entered.
mirrors crates/st-engine/src/engine.rs:245-259 -/
def machine (t : TimedEngine) : Vm :=
  if 0 < t.engine.vm.callStack.length then t.clocked
  else (t.clocked.enterRun t.engine.programName).getD t.clocked

/-- A cycle that takes `elapsed` nanoseconds. Only a completed cycle counts.
mirrors crates/st-engine/src/engine.rs:222-281 -/
def runOneCycle (fuel : Nat) (watchdogTimeout : Option Nat) (t : TimedEngine) (elapsed : Nat) :
    Option (TimedEngine × Except Trap Unit) :=
  (watchedCycle fuel t.engine t.elapsedMs (watchdogTimeout.any (decide <| · < elapsed))).map
    fun (e, r) => match r with
      | .ok _ => (⟨e, t.totalTime + elapsed⟩, .ok ())
      | .error trap => (⟨e, t.totalTime⟩, .error trap)

omit [F64Ops] in
theorem machine_elapsed (t : TimedEngine) : t.machine.elapsedTimeMs = t.elapsedMs := by
  unfold machine
  split
  · rfl
  · unfold Vm.enterRun
    cases t.clocked.module.findFunction t.engine.programName with
    | none => rfl
    | some p => rfl

theorem runOneCycle_totalTime {fuel : Nat} {watchdogTimeout : Option Nat} {t t' : TimedEngine}
    {elapsed : Nat} {r : Except Trap Unit}
    (h : t.runOneCycle fuel watchdogTimeout elapsed = some (t', r)) :
    t'.totalTime = t.totalTime + if r.isOk then elapsed else 0 := by
  obtain ⟨⟨e, r'⟩, -, hr⟩ := Option.map_eq_some_iff.mp h
  cases r' with
  | ok u =>
    cases hr
    rfl
  | error trap =>
    cases hr
    rfl

end TimedEngine

/-! ## Runs -/

/-- A call of `run_one_cycle`: the clock when it starts, the time it measures
for itself, the start of the cycle it works on, its machine, and whether it
returned a duration. -/
structure CycleCall where
  start : Nat
  elapsed : Nat
  cycleStart : Nat
  machine : Vm
  completed : Bool

/-- A call that goes on with a paused or failed cycle works on the cycle of the
call before it. -/
def cycleStartOf (before : List CycleCall) (start : Nat) (resumes : Bool) : Nat :=
  match before.getLast? with
  | some last => if resumes && !last.completed then last.cycleStart else start
  | none => start

/-- The calls of a new engine, one after the other. Between two calls the loop
around them may sleep and may change the machine: debugger commands, forces,
online changes. -/
inductive EngineRun (watchdogTimeout : Option Nat) (e : Engine) :
    List CycleCall → TimedEngine → Prop where
  | created : EngineRun watchdogTimeout e [] ⟨e, 0⟩
  | between {calls : List CycleCall} {t : TimedEngine} (e' : Engine)
      (h : EngineRun watchdogTimeout e calls t) :
    EngineRun watchdogTimeout e calls { t with engine := e' }
  | cycle {calls : List CycleCall} {t t' : TimedEngine} {fuel start elapsed : Nat}
      {r : Except Trap Unit} (h : EngineRun watchdogTimeout e calls t)
      (hstart : ∀ c ∈ calls, c.start + c.elapsed ≤ start)
      (hrun : t.runOneCycle fuel watchdogTimeout elapsed = some (t', r)) :
    EngineRun watchdogTimeout e
      (calls ++ [⟨start, elapsed,
        cycleStartOf calls start (decide (0 < t.engine.vm.callStack.length)), t.machine, r.isOk⟩]) t'

/-! ## What holds of every call -/

omit [F64Ops] in
/-- A property of each call and the calls before it. -/
def EachCall (P : List CycleCall → CycleCall → Prop) (calls : List CycleCall) : Prop :=
  ∀ before c after, calls = before ++ c :: after → P before c

omit [F64Ops] in
theorem eachCall_nil (P : List CycleCall → CycleCall → Prop) : EachCall P [] := by
  intro before c after h
  simp at h

omit [F64Ops] in
theorem eachCall_snoc {P : List CycleCall → CycleCall → Prop} {calls : List CycleCall}
    {c : CycleCall} (h : EachCall P calls) (hc : P calls c) : EachCall P (calls ++ [c]) := by
  intro before d after heq
  rcases List.eq_nil_or_concat' after with rfl | ⟨after, x, rfl⟩
  · obtain ⟨rfl, hd⟩ := List.append_inj' heq rfl
    cases hd
    exact hc
  · rw [← List.cons_append, ← List.append_assoc] at heq
    obtain ⟨rfl, -⟩ := List.append_inj' heq rfl
    exact h before d after rfl

/-- The execution time of the completed calls. -/
def executed (calls : List CycleCall) : Nat :=
  ((calls.filter (·.completed)).map (·.elapsed)).sum

/-- When the first of the calls starts; `c` is the next one. -/
def firstStart (before : List CycleCall) (c : CycleCall) : Nat := (before.head?.getD c).start

omit [F64Ops] in
theorem executed_snoc (calls : List CycleCall) (c : CycleCall) :
    executed (calls ++ [c]) = executed calls + if c.completed then c.elapsed else 0 := by
  unfold executed
  cases hc : c.completed <;> simp [List.filter_append, hc]

omit [F64Ops] in
theorem firstStart_snoc (before : List CycleCall) (c d : CycleCall) :
    firstStart (before ++ [c]) d = firstStart before c := by
  cases before <;> rfl

theorem EngineRun.totalTime {watchdogTimeout : Option Nat} {e : Engine} {calls : List CycleCall}
    {t : TimedEngine} (h : EngineRun watchdogTimeout e calls t) : t.totalTime = executed calls := by
  induction h with
  | created => rfl
  | between e' h ih => exact ih
  | cycle h hstart hrun ih => rw [TimedEngine.runOneCycle_totalTime hrun, executed_snoc, ih]

/-- **`SYSTEM_TIME()` is the execution time of the completed calls**, in whole
milliseconds, wherever a call reads it. -/
theorem EngineRun.systemTime {watchdogTimeout : Option Nat} {e : Engine} {calls : List CycleCall}
    {t : TimedEngine} (h : EngineRun watchdogTimeout e calls t) :
    EachCall (fun before c => ∀ n w, StepsTo Vm.step n c.machine w →
      w.elapsedTimeMs = Int64.ofNat (executed before / nsPerMs)) calls := by
  induction h with
  | created => exact eachCall_nil _
  | between e' h ih => exact ih
  | cycle h hstart hrun ih =>
    refine eachCall_snoc ih fun n w hw => ?_
    rw [stepsTo_elapsed hw, TimedEngine.machine_elapsed, TimedEngine.elapsedMs, h.totalTime]

/-- Calls do not overlap, so a cycle starts after everything that was executed
before it. -/
theorem EngineRun.executed_le {watchdogTimeout : Option Nat} {e : Engine} {calls : List CycleCall}
    {t : TimedEngine} (h : EngineRun watchdogTimeout e calls t) :
    EachCall (fun before c => firstStart before c + executed before ≤ c.cycleStart ∧
      c.cycleStart ≤ c.start) calls := by
  induction h with
  | created => exact eachCall_nil _
  | between e' h ih => exact ih
  | @cycle calls t t' fuel start elapsed r h hstart hrun ih =>
    refine eachCall_snoc ih ?_
    rcases List.eq_nil_or_concat' calls with rfl | ⟨before, last, rfl⟩
    · simp [firstStart, executed, cycleStartOf]
    · obtain ⟨hle, hcycle⟩ := ih before last [] (by simp)
      have hlast := hstart last (by simp)
      rw [firstStart_snoc, executed_snoc]
      simp only [cycleStartOf, List.getLast?_append, List.getLast?_singleton,
        Option.some_or]
      cases hc : last.completed with
      | true =>
        simp only [Bool.not_true, Bool.and_false, Bool.false_eq_true, if_false, if_true]
        omega
      | false =>
        simp only [Bool.not_false, Bool.and_true, decide_eq_true_eq, Bool.false_eq_true, if_false]
        split <;> omega

/-! ## Wall-clock time -/

/-- The whole milliseconds from `origin` to the start of the call's cycle. -/
def wholeMs (origin : Int) (c : CycleCall) : Int := (c.cycleStart - origin) / nsPerMs

/-- `SYSTEM_TIME()` counts the milliseconds since `origin`. -/
def ReadsWallClock (origin : Int) (calls : List CycleCall) : Prop :=
  ∀ c ∈ calls, ∀ n w, StepsTo Vm.step n c.machine w →
    w.elapsedTimeMs.toInt = wholeMs origin c

/-- The on-delay timer. mirrors stdlib/timers.st:18-29 -/
structure Ton where
  q : Bool
  et : Int64
  startTime : Int64
  running : Bool

/-- mirrors stdlib/timers.st:30-41 -/
def Ton.call (t : Ton) (in1 : Bool) (pt systemTime : Int64) : Ton :=
  if in1 then
    let startTime := if t.running then t.startTime else systemTime
    let et := systemTime - startTime
    { q := pt ≤ et, et := et, startTime := startTime, running := true }
  else { t with q := false, et := 0, running := false }

/-- The timer after it was called in each of the calls with its input held. -/
def Ton.held (t : Ton) (pt : Int64) (calls : List CycleCall) : Ton :=
  calls.foldl (fun t c => t.call true pt c.machine.elapsedTimeMs) t

/-- A timer started in one call and called in any of the later ones is through
in the last of them exactly when its preset has passed on the wall clock. -/
def TimersElapse (origin : Int) (calls : List CycleCall) : Prop :=
  ∀ (t : Ton) (pt : Int64) (first last : CycleCall) (between : List CycleCall),
    t.running = false → (first :: between ++ [last]).Sublist calls →
      ((t.held pt (first :: between ++ [last])).q = true ↔
        pt.toInt ≤ wholeMs origin last - wholeMs origin first)

/-- The run loses no millisecond: what has passed since its first call outside
of completed calls, together with the execution time beyond the last whole
millisecond, stays below a millisecond (and the milliseconds fit an `i64`). -/
def KeepsPace (calls : List CycleCall) : Prop :=
  EachCall (fun before c => executed before / nsPerMs < 2 ^ 63 ∧
    executed before % nsPerMs + (c.cycleStart - firstStart before c - executed before) < nsPerMs)
    calls

omit [F64Ops] in
theorem Ton.held_running (pt : Int64) (calls : List CycleCall) :
    ∀ t : Ton, t.running = true →
      (t.held pt calls).running = true ∧ (t.held pt calls).startTime = t.startTime := by
  induction calls with
  | nil => exact fun t ht => ⟨ht, rfl⟩
  | cons c calls ih =>
    intro t ht
    have hcall : (t.call true pt c.machine.elapsedTimeMs).startTime = t.startTime := by
      simp [Ton.call, ht]
    exact ⟨(ih _ rfl).1, (ih _ rfl).2.trans hcall⟩

omit [F64Ops] in
/-- A held timer compares the time of the last call with that of the first. -/
theorem Ton.held_q (t : Ton) (ht : t.running = false) (pt : Int64) (first last : CycleCall)
    (between : List CycleCall) : (t.held pt (first :: between ++ [last])).q =
      decide (pt ≤ last.machine.elapsedTimeMs - first.machine.elapsedTimeMs) := by
  have hfirst : (t.call true pt first.machine.elapsedTimeMs).startTime =
      first.machine.elapsedTimeMs := by
    simp [Ton.call, ht]
  obtain ⟨hrun, hstart⟩ := Ton.held_running pt between (t.call true pt first.machine.elapsedTimeMs) rfl
  have hsplit : t.held pt (first :: between ++ [last]) =
      ((t.call true pt first.machine.elapsedTimeMs).held pt between).call true pt
        last.machine.elapsedTimeMs := by
    simp [Ton.held]
  rw [hsplit, Ton.call, if_pos rfl]
  simp only [hrun, if_true, hstart, hfirst]

omit [F64Ops] in
theorem firstStart_eq {first : CycleCall} {calls : List CycleCall} :
    EachCall (fun before c => firstStart before c = first.start) (first :: calls) := by
  intro before c after h
  cases before with
  | nil =>
    cases h
    rfl
  | cons d before =>
    cases h
    rfl

/-- The time a call of a run that keeps pace reads. -/
theorem EngineRun.keepsPace_systemTime {watchdogTimeout : Option Nat} {e : Engine}
    {first : CycleCall} {calls : List CycleCall} {t : TimedEngine}
    (h : EngineRun watchdogTimeout e (first :: calls) t) (hpace : KeepsPace (first :: calls))
    {c : CycleCall} (hc : c ∈ first :: calls) :
    0 ≤ wholeMs first.start c ∧ ∀ n w, StepsTo Vm.step n c.machine w →
      w.elapsedTimeMs.toInt = wholeMs first.start c := by
  obtain ⟨before, after, hsplit⟩ := List.append_of_mem hc
  obtain ⟨hfits, hrest⟩ := hpace before c after hsplit
  obtain ⟨hle, -⟩ := h.executed_le before c after hsplit
  rw [firstStart_eq before c after hsplit] at hrest hle
  have hms : wholeMs first.start c = (executed before / nsPerMs : Nat) := by
    unfold wholeMs nsPerMs at *
    omega
  refine ⟨hms ▸ Int.natCast_nonneg _, fun n w hw => ?_⟩
  rw [h.systemTime before c after hsplit n w hw, Int64.toInt_ofNat_of_lt hfits, hms]

/-- **`SYSTEM_TIME()` is wall-clock time, up to a constant offset, and timers
elapse with it, exactly when the run keeps pace.** -/
theorem systemTime_wallClock_iff {watchdogTimeout : Option Nat} {e : Engine}
    {calls : List CycleCall} {t : TimedEngine} (h : EngineRun watchdogTimeout e calls t) :
    (∃ origin, ReadsWallClock origin calls ∧ TimersElapse origin calls) ↔ KeepsPace calls := by
  constructor
  · rintro ⟨origin, hreads, -⟩ before c after hsplit
    subst hsplit
    -- the first call reads 0, so the origin is within a millisecond before it
    obtain ⟨first, rest, hfirst⟩ : ∃ first rest, before ++ c :: after = first :: rest := by
      cases before <;> simp
    have hstart := firstStart_eq before c after hfirst.symm
    have hzero := hreads first (by simp [hfirst]) 0 first.machine rfl
    rw [h.systemTime [] first rest hfirst 0 first.machine rfl] at hzero
    have hfirst0 := h.executed_le [] first rest hfirst
    have hmine := hreads c (by simp) 0 c.machine rfl
    rw [h.systemTime before c after rfl 0 c.machine rfl] at hmine
    have hle := h.executed_le before c after rfl
    have hbound := Int64.toInt_lt (Int64.ofNat (executed before / nsPerMs))
    have hzero : wholeMs origin first = 0 := hzero.symm
    have hcount : ((executed before / nsPerMs : Nat) : Int) ≤ wholeMs origin c := by
      simp only [firstStart, executed, List.head?_nil, Option.getD_none] at hfirst0
      unfold wholeMs nsPerMs at *
      omega
    have hfits : executed before / nsPerMs < 2 ^ 63 := by omega
    rw [Int64.toInt_ofNat_of_lt hfits] at hmine
    refine ⟨hfits, ?_⟩
    unfold wholeMs nsPerMs at *
    omega
  · intro hpace
    cases calls with
    | nil => exact ⟨0, by simp [ReadsWallClock], fun t pt first last between _ hsub => by simp at hsub⟩
    | cons first rest =>
      refine ⟨first.start, fun c hc => (h.keepsPace_systemTime hpace hc).2, ?_⟩
      intro ton pt c d between hton hsub
      have hc := h.keepsPace_systemTime hpace (hsub.subset (by simp : c ∈ c :: between ++ [d]))
      have hd := h.keepsPace_systemTime hpace (hsub.subset (by simp : d ∈ c :: between ++ [d]))
      rw [Ton.held_q ton hton, decide_eq_true_eq, Int64.le_iff_toInt_le, Int64.toInt_sub,
        ← hc.2 0 c.machine rfl, ← hd.2 0 d.machine rfl]
      have hc0 := hc.1
      have hd0 := hd.1
      rw [← hc.2 0 c.machine rfl] at hc0
      rw [← hd.2 0 d.machine rfl] at hd0
      have hcm := Int64.toInt_lt c.machine.elapsedTimeMs
      have hdm := Int64.toInt_lt d.machine.elapsedTimeMs
      rw [Int.bmod_eq_of_le_mul_two (by omega) (by omega)]

/-! ## A cycle time of ten milliseconds -/

/-- An engine for a program without statements. -/
def idleEngine : Engine :=
  ⟨Vm.new ⟨[⟨"Main", .program, 0, [], [], .empty, [], 0⟩], .empty, [], []⟩ .default, "Main"⟩

/-- Two cycles of the idle engine are completed. -/
def completesTwice (first second : Nat) : Bool :=
  match TimedEngine.runOneCycle 5 none ⟨idleEngine, 0⟩ first with
  | some (t, .ok _) => match t.runOneCycle 5 none second with
    | some (_, .ok _) => true
    | _ => false
  | _ => false

/-- Two calls of the idle engine, at the given starts and of the given times. -/
def idleCalls (t : TimedEngine) (first second : Nat × Nat) : List CycleCall :=
  [⟨first.1, first.2, first.1, TimedEngine.machine ⟨idleEngine, 0⟩, true⟩,
    ⟨second.1, second.2, second.1, t.machine, true⟩]

theorem idle_run {first second : Nat × Nat} (hc : completesTwice first.2 second.2 = true)
    (h : first.1 + first.2 ≤ second.1) :
    ∃ t t', EngineRun none idleEngine (idleCalls t first second) t' := by
  unfold completesTwice at hc
  split at hc
  · next t u h1 =>
    split at hc
    · next t' u' h2 =>
      have hr1 : EngineRun none idleEngine [⟨first.1, first.2, first.1,
          TimedEngine.machine ⟨idleEngine, 0⟩, true⟩] t := .cycle .created (by simp) h1
      have hr2 : EngineRun none idleEngine ([⟨first.1, first.2, first.1,
          TimedEngine.machine ⟨idleEngine, 0⟩, true⟩] ++ [⟨second.1, second.2, cycleStartOf _ second.1
            (decide (0 < t.engine.vm.callStack.length)), t.machine, true⟩]) t' :=
        .cycle hr1 (by simpa using h) h2
      refine ⟨t, t', ?_⟩
      simpa [idleCalls, cycleStartOf] using hr2
    · cases hc
  · cases hc

omit [F64Ops] in
/-- Two cycles of less than a millisecond, one directly after the other. -/
theorem backToBack_wallClock :
    ∃ t t', @EngineRun default none idleEngine (idleCalls t (0, 400000) (400000, 300000)) t' ∧
      ∃ origin, @ReadsWallClock default origin (idleCalls t (0, 400000) (400000, 300000)) ∧
        TimersElapse origin (idleCalls t (0, 400000) (400000, 300000)) := by
  obtain ⟨t, t', h⟩ := @idle_run default (0, 400000) (400000, 300000) (by decide +kernel) (by decide)
  refine ⟨t, t', h, (@systemTime_wallClock_iff default none idleEngine _ t' h).mpr ?_⟩
  have hfirst : KeepsPace [⟨0, 400000, 0, TimedEngine.machine ⟨idleEngine, 0⟩, true⟩] :=
    eachCall_snoc (eachCall_nil _) (by decide)
  exact eachCall_snoc hfirst (by simp [executed, firstStart, nsPerMs])

omit [F64Ops] in
/-- With a cycle time of ten milliseconds and cycles of one millisecond, the
program's clock loses nine of ten milliseconds. -/
theorem sleep_not_counted :
    ¬ ∀ (_ : F64Ops) (watchdogTimeout : Option Nat) (e : Engine) (calls : List CycleCall)
      (t : TimedEngine), EngineRun watchdogTimeout e calls t →
        ∃ origin, ReadsWallClock origin calls ∧ TimersElapse origin calls := by
  intro hall
  obtain ⟨t, t', h⟩ := @idle_run default (0, 1000000) (10000000, 1000000) (by decide +kernel)
    (by decide)
  obtain ⟨origin, hreads, -⟩ := hall default none idleEngine _ t' h
  have hsystem := @EngineRun.systemTime default _ _ _ _ h
  -- the first call reads 0 and the second 1, at 0 and 10 milliseconds
  have h1 := hreads _ (List.mem_cons_self ..) 0 _ rfl
  have h2 := hreads _ (List.mem_cons_of_mem _ (List.mem_cons_self ..)) 0 _ rfl
  rw [hsystem [] _ _ rfl 0 _ rfl] at h1
  rw [hsystem [_] _ [] rfl 0 _ rfl] at h2
  have e1 : (Int64.ofNat (executed [] / nsPerMs)).toInt = 0 := by decide
  have e2 : (Int64.ofNat (1000000 / nsPerMs)).toInt = 1 := by decide
  rw [e1] at h1
  have h2 : (Int64.ofNat (1000000 / nsPerMs)).toInt = _ := h2
  rw [e2] at h2
  simp only [wholeMs, nsPerMs] at h1 h2
  omega

end RustPlc.Engine
