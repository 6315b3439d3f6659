import RustPlc.L3Vm.Debugger

/-!
# Where a debugged execution pauses

`should_pause` is asked before every instruction and keeps a state of its own
between the questions. What a pause depends on is said here without that
state: the step command, the breakpoints, and the sites that the execution
has come by since it was resumed.

Results:
* `DebugState.shouldPause_answer`, `DebugState.stopReason_append`: the answers of
  `should_pause`, one question at a time;
* `pauses_iff`: an execution pauses at the first site with a reason to;
* `ends_iff`: it ends as the plain one when no site on the way has one;
* `stepping_law`: both, for a machine that is resumed.
-/
namespace RustPlc.Engine

open RustPlc.Ir RustPlc.Core RustPlc.Syntax RustPlc.Compiler

/-! ## Sites -/

/-- An instruction the debugger is asked about: where it is, how many frames
there are, and the source offset of its statement (0 when it has none). -/
structure Site where
  funcIndex : UInt16
  pc : Nat
  depth : Nat
  offset : Nat

namespace DebugState

variable (d : DebugState)

/-- The site is outside the statement of the last breakpoint. -/
def Leaves (p : Site) : Prop := 0 < p.offset ∧ p.offset ≠ d.lastBreakpointOffset

/-- A source breakpoint fires unless execution is still in the statement where
the last one fired. -/
def SourceHit (before : List Site) (p : Site) : Prop :=
  0 < p.offset ∧ p.offset ∈ d.sourceBreakpoints ∧ (d.Leaves p ∨ ∃ q ∈ before, d.Leaves q)

def BreakHit (before : List Site) (p : Site) : Prop :=
  (p.funcIndex, p.pc) ∈ d.breakpoints ∨ d.SourceHit before p

/-- The site is in another statement than the one the step started from. -/
def NewStatement (p : Site) : Prop := 0 < p.offset ∧ p.offset ≠ d.stepStartSourceOffset

/-- The site ends the step that was asked for. -/
def StepHit (p : Site) : Prop :=
  (d.stepMode = .stepIn ∧ d.NewStatement p) ∨
  (d.stepMode = .stepOver ∧ p.depth ≤ d.stepStartDepth ∧ d.NewStatement p) ∨
  (d.stepMode = .stepOut ∧ p.depth < d.stepStartDepth)

instance (p : Site) : Decidable (d.Leaves p) := inferInstanceAs (Decidable (_ ∧ _))

instance (before : List Site) (p : Site) : Decidable (d.SourceHit before p) :=
  inferInstanceAs (Decidable (_ ∧ _))

instance (before : List Site) (p : Site) : Decidable (d.BreakHit before p) :=
  inferInstanceAs (Decidable (_ ∨ _))

instance (p : Site) : Decidable (d.NewStatement p) := inferInstanceAs (Decidable (_ ∧ _))

instance (p : Site) : Decidable (d.StepHit p) := inferInstanceAs (Decidable (_ ∨ _))

/-- Why execution pauses at a site, after it has come by others since it was
resumed; `none` when it goes on. A step into a statement ignores the
breakpoints. -/
def stopReason (before : List Site) (p : Site) : Option PauseReason :=
  if d.stepMode = .paused then some .pauseRequest
  else if d.StepHit p then some .step
  else if d.stepMode ≠ .stepIn ∧ d.BreakHit before p then some .breakpoint
  else none

/-- The state after the sites: the last breakpoint is forgotten outside its
statement. -/
def passed (sites : List Site) : DebugState :=
  if ∃ q ∈ sites, d.Leaves q then { d with lastBreakpointOffset := 0 } else d

/-- The state at a pause: a source breakpoint is remembered when it is what
`check_breakpoint` came to. -/
def pausedAt (before : List Site) (p : Site) (reason : PauseReason) : DebugState :=
  let d' := d.passed (before ++ [p])
  if reason = .breakpoint ∧ (p.funcIndex, p.pc) ∉ d.breakpoints then
    { d' with lastBreakpointOffset := p.offset }.markPaused reason
  else d'.markPaused reason

/-! ## One question -/

variable {d}

/-- `check_breakpoint`, with the source offset of the instruction. -/
theorem checkBreakpoint_eq (fi : UInt16) (pc : Nat) (sm : List SourceLocation) :
    d.checkBreakpoint fi pc sm =
      if (fi, pc) ∈ d.breakpoints then (d, some .breakpoint)
      else if 0 < sourceOffset sm pc ∧ sourceOffset sm pc ∈ d.sourceBreakpoints ∧
          sourceOffset sm pc ≠ d.lastBreakpointOffset then
        ({ d with lastBreakpointOffset := sourceOffset sm pc }, some .breakpoint)
      else (d, none) := by
  unfold checkBreakpoint sourceOffset
  cases sm[pc]? with
  | none => simp
  | some s => rfl

theorem passed_one (p : Site) :
    d.passed [p] = if d.Leaves p then { d with lastBreakpointOffset := 0 } else d := by
  simp [passed]

/-- Nothing else is forgotten. -/
theorem passed_with (sites : List Site) :
    ∃ n, d.passed sites = { d with lastBreakpointOffset := n } := by
  unfold passed
  split
  · exact ⟨0, rfl⟩
  · exact ⟨d.lastBreakpointOffset, rfl⟩

/-- The breakpoint check behind the reset of the last breakpoint. -/
theorem checkBreakpoint_passed {p : Site} {sm : List SourceLocation}
    (ho : sourceOffset sm p.pc = p.offset) :
    (d.passed [p]).checkBreakpoint p.funcIndex p.pc sm =
      if (p.funcIndex, p.pc) ∈ d.breakpoints then (d.passed [p], some .breakpoint)
      else if d.SourceHit [] p then
        ({ d.passed [p] with lastBreakpointOffset := p.offset }, some .breakpoint)
      else (d.passed [p], none) := by
  have hb : (d.passed [p]).breakpoints = d.breakpoints ∧
      (d.passed [p]).sourceBreakpoints = d.sourceBreakpoints := by
    obtain ⟨n, hn⟩ := d.passed_with [p]
    simp [hn]
  have hl : 0 < p.offset → (p.offset ≠ (d.passed [p]).lastBreakpointOffset ↔ d.Leaves p) := by
    intro h
    rw [passed_one]
    split
    · next hp => exact iff_of_true (by simp only; omega) hp
    · next hp => exact ⟨fun hne => ⟨h, hne⟩, fun hp' => absurd hp' hp⟩
  have hhit : (0 < p.offset ∧ p.offset ∈ (d.passed [p]).sourceBreakpoints ∧
      p.offset ≠ (d.passed [p]).lastBreakpointOffset) ↔ d.SourceHit [] p := by
    unfold SourceHit
    simp only [List.not_mem_nil, false_and, exists_false, or_false]
    rw [hb.2]
    exact and_congr_right fun h => and_congr_right fun _ => hl h
  rw [checkBreakpoint_eq, ho]
  simp only [hb.1, hhit]

/-- One question, with the state that was left by the reset. -/
theorem shouldPause_eq {p : Site} {sm : List SourceLocation}
    (ho : sourceOffset sm p.pc = p.offset) :
    d.shouldPause p.funcIndex p.pc p.depth sm =
      if d.stepMode = .paused then (d.passed [p], some .pauseRequest)
      else if d.StepHit p then (d.passed [p], some .step)
      else if d.stepMode = .stepIn then (d.passed [p], none)
      else (d.passed [p]).checkBreakpoint p.funcIndex p.pc sm := by
  have hd : (if 0 < p.offset ∧ p.offset ≠ d.lastBreakpointOffset then
      { d with lastBreakpointOffset := 0 } else d) = d.passed [p] := (passed_one p).symm
  obtain ⟨n, hn⟩ := d.passed_with [p]
  unfold shouldPause
  simp only [ho, hd, hn]
  split
  · next h => simp [h]
  · next h => simp [h, StepHit, NewStatement]
  · next h => simp [h, StepHit, NewStatement]
  · next h => simp [h, StepHit]
  · next h => simp [h, StepHit]

theorem shouldPause_answer {p : Site} {sm : List SourceLocation}
    (ho : sourceOffset sm p.pc = p.offset) :
    (d.shouldPause p.funcIndex p.pc p.depth sm).2 = d.stopReason [] p := by
  rw [shouldPause_eq ho, checkBreakpoint_passed ho]
  unfold stopReason BreakHit
  split
  · rfl
  · split
    · rfl
    · split
      · next hm => simp [hm]
      · next hm =>
        simp only [ne_eq, hm, not_false_eq_true, true_and]
        by_cases hb : (p.funcIndex, p.pc) ∈ d.breakpoints
        · simp [hb]
        · by_cases hs : d.SourceHit [] p <;> simp [hb, hs]

theorem shouldPause_goesOn {p : Site} {sm : List SourceLocation}
    (ho : sourceOffset sm p.pc = p.offset) (h : d.stopReason [] p = none) :
    (d.shouldPause p.funcIndex p.pc p.depth sm).1 = d.passed [p] := by
  have hans := shouldPause_answer (d := d) ho
  rw [h, shouldPause_eq ho, checkBreakpoint_passed ho] at hans
  rw [shouldPause_eq ho, checkBreakpoint_passed ho]
  split_ifs at hans ⊢ <;> rfl

theorem shouldPause_pauses {p : Site} {sm : List SourceLocation} {reason : PauseReason}
    (ho : sourceOffset sm p.pc = p.offset) (h : d.stopReason [] p = some reason) :
    (d.shouldPause p.funcIndex p.pc p.depth sm).1.markPaused reason = d.pausedAt [] p reason := by
  have hans := shouldPause_answer (d := d) ho
  rw [h, shouldPause_eq ho, checkBreakpoint_passed ho] at hans
  rw [shouldPause_eq ho, checkBreakpoint_passed ho]
  unfold pausedAt
  split_ifs at hans ⊢ <;> simp_all

theorem passed_new (sites : List Site) : new.passed sites = new := by
  unfold passed
  split <;> rfl

/-- Without breakpoints and a step nothing is asked for. -/
theorem shouldPause_new (fi : UInt16) (pc depth : Nat) (sm : List SourceLocation) :
    new.shouldPause fi pc depth sm = (new, none) := by
  rw [shouldPause_eq (p := ⟨fi, pc, depth, sourceOffset sm pc⟩) rfl, passed_new]
  simp [StepHit, new, checkBreakpoint_eq]

/-! ## Many questions -/

theorem passed_cons (q : Site) (qs : List Site) : d.passed (q :: qs) = (d.passed [q]).passed qs := by
  rw [passed_one]
  by_cases hq : d.Leaves q
  · rw [if_pos hq]
    unfold passed
    simp [hq]
  · rw [if_neg hq]
    unfold passed
    simp [hq]

/-- The reason at a site, once another one has been come by. -/
theorem stopReason_cons (q : Site) (before : List Site) (p : Site) :
    d.stopReason (q :: before) p = (d.passed [q]).stopReason before p := by
  rw [passed_one]
  by_cases hq : d.Leaves q
  · rw [if_pos hq]
    have hhit : d.SourceHit (q :: before) p ↔
        ({ d with lastBreakpointOffset := 0 } : DebugState).SourceHit before p := by
      unfold SourceHit
      refine and_congr_right fun h => and_congr_right fun _ => iff_of_true ?_ ?_
      · exact .inr ⟨q, List.mem_cons_self, hq⟩
      · exact .inl ⟨h, by simp only; omega⟩
    unfold stopReason BreakHit
    simp only [hhit]
    rfl
  · rw [if_neg hq]
    have hhit : d.SourceHit (q :: before) p ↔ d.SourceHit before p := by
      unfold SourceHit
      simp [hq]
    unfold stopReason BreakHit
    simp only [hhit]
    rfl

/-- No site gives a reason to pause when it is come to. -/
def PassesOver (d : DebugState) : List Site → Prop
  | [] => True
  | q :: qs => d.stopReason [] q = none ∧ (d.passed [q]).PassesOver qs

/-- None of the sites has a reason, after those before it. -/
theorem passesOver_iff {sites : List Site} : ∀ {d : DebugState}, d.PassesOver sites ↔
    ∀ before p after, sites = before ++ p :: after → d.stopReason before p = none := by
  induction sites with
  | nil =>
    intro d
    exact iff_of_true trivial fun before p after h => by simp at h
  | cons q qs ih =>
    intro d
    constructor
    · intro ⟨hq, hqs⟩ before p after h
      cases before with
      | nil =>
        obtain ⟨rfl, -⟩ : q = p ∧ qs = after := by simpa using h
        exact hq
      | cons q' before =>
        obtain ⟨rfl, hqs'⟩ : q = q' ∧ qs = before ++ p :: after := by simpa using h
        rw [stopReason_cons]
        exact ih.mp hqs before p after hqs'
    · intro h
      refine ⟨h [] q qs rfl, ih.mpr fun before p after hqs => ?_⟩
      rw [← stopReason_cons]
      exact h (q :: before) p after (by rw [hqs, List.cons_append])

@[simp] theorem passed_nil : d.passed [] = d := by
  unfold passed
  simp

theorem passed_append (xs ys : List Site) : d.passed (xs ++ ys) = (d.passed xs).passed ys := by
  induction xs generalizing d with
  | nil => simp
  | cons x xs ih => rw [List.cons_append, passed_cons, ih, ← passed_cons]

theorem passesOver_append (xs ys : List Site) :
    d.PassesOver (xs ++ ys) ↔ d.PassesOver xs ∧ (d.passed xs).PassesOver ys := by
  induction xs generalizing d with
  | nil => simp [PassesOver]
  | cons x xs ih => simp only [List.cons_append, PassesOver, ih, ← passed_cons, and_assoc]

theorem stopReason_append (xs ys : List Site) (p : Site) :
    d.stopReason (xs ++ ys) p = (d.passed xs).stopReason ys p := by
  induction xs generalizing d with
  | nil => simp
  | cons x xs ih => rw [List.cons_append, stopReason_cons, ih, ← passed_cons]

theorem pausedAt_append (xs ys : List Site) (p : Site) (reason : PauseReason) :
    d.pausedAt (xs ++ ys) p reason = (d.passed xs).pausedAt ys p reason := by
  have hb : (d.passed xs).breakpoints = d.breakpoints := by
    obtain ⟨n, hn⟩ := d.passed_with xs
    rw [hn]
  unfold pausedAt
  simp only [List.append_assoc, passed_append, hb]

end DebugState

/-! ## The machine between two questions -/

namespace Vm

/-- The instruction the debugger is asked about next; none when the frame is
at its end. -/
def site? (vm : Vm) : Option Site :=
  match vm.callStack with
  | [] => none
  | f :: _ => match vm.func? f.funcIndex with
    | none => none
    | some func => match func.instructions[f.pc]? with
      | none => none
      | some _ => some ⟨f.funcIndex, f.pc, vm.callStack.length, DebugState.sourceOffset func.sourceMap f.pc⟩

theorem outcomeWithDebug_halt {d : DebugState} {o : Outcome Vm Stop} {w : Vm}
    {r : Except Trap Value} (h : outcomeWithDebug d o = .halt (w, r)) :
    ∃ u, o = .halt (u, r) ∧ w = u.withDebug d := by
  cases o with
  | next t => cases h
  | halt q =>
    obtain ⟨rfl, rfl⟩ := Prod.mk.inj (Outcome.halt.inj h)
    exact ⟨q.1, rfl, rfl⟩

section

variable [F64Ops]

/-- What a question comes to. -/
inductive Asked (vm : Vm) : Option Site → Prop where
  | no (hsame : ∀ d, (vm.withDebug d).step = outcomeWithDebug d (vm.withDebug .new).step) :
    Asked vm none
  | yes (p : Site)
      (hpause : ∀ d reason, d.stopReason [] p = some reason → (vm.withDebug d).step =
        .halt (vm.withDebug (d.pausedAt [] p reason), .error (.error .halt)))
      (hnext : ∀ d, d.stopReason [] p = none →
        (vm.withDebug d).step = outcomeWithDebug (d.passed [p]) (vm.withDebug .new).step) :
    Asked vm (some p)

/-- The rest of an iteration, once the debugger has let it go on. -/
def ahead (vm : Vm) (func : Function) (f : CallFrame) (rest : List CallFrame) (i : Instruction)
    (d : DebugState) : Outcome Vm Stop :=
  if 0 < vm.config.maxInstructions ∧ vm.config.maxInstructions < vm.instructionCount + 1 then
    (vm.advance d f rest).trap (.error (.executionLimit vm.config.maxInstructions))
  else (vm.advance d f rest).exec func { f with pc := f.pc + 1 } rest i

theorem ahead_withDebug (vm : Vm) (func : Function) (f : CallFrame) (rest : List CallFrame)
    (i : Instruction) (d d' : DebugState) :
    vm.ahead func f rest i d = outcomeWithDebug d (vm.ahead func f rest i d') := by
  have hadv : vm.advance d f rest = (vm.advance d' f rest).withDebug d := rfl
  unfold ahead
  rw [hadv]
  split
  · rfl
  · exact exec_withDebug _ d _ _ _ i

/-- One iteration on an instruction. -/
theorem step_instr {vm : Vm} {f : CallFrame} {rest : List CallFrame} {func : Function}
    {i : Instruction} (hstack : vm.callStack = f :: rest)
    (hfunc : vm.func? f.funcIndex = some func) (hi : func.instructions[f.pc]? = some i)
    (d : DebugState) :
    (vm.withDebug d).step =
      match d.shouldPause f.funcIndex f.pc vm.callStack.length func.sourceMap with
      | (d', some reason) => .halt (vm.withDebug (d'.markPaused reason), .error (.error .halt))
      | (d', none) => vm.ahead func f rest i d' := by
  unfold step
  simp only [withDebug_callStack, hstack, withDebug_func?, hfunc, hi, withDebug_debug]
  rfl

theorem asked (vm : Vm) : Asked vm vm.site? := by
  unfold site?
  cases hstack : vm.callStack with
  | nil =>
    refine .no fun d => ?_
    unfold step
    simp only [withDebug_callStack, hstack]
    rfl
  | cons f rest =>
    simp only
    cases hfunc : vm.func? f.funcIndex with
    | none =>
      refine .no fun d => ?_
      unfold step
      simp only [withDebug_callStack, hstack, withDebug_func?, hfunc]
      rfl
    | some func =>
      simp only
      cases hi : func.instructions[f.pc]? with
      | none =>
        refine .no fun d => ?_
        unfold step
        simp only [withDebug_callStack, hstack, withDebug_func?, hfunc, hi]
        exact fallOff_withDebug (vm.withDebug .new) d rest
      | some i =>
        simp only
        rw [← hstack]
        generalize hsite : (⟨f.funcIndex, f.pc, vm.callStack.length,
          DebugState.sourceOffset func.sourceMap f.pc⟩ : Site) = p
        have ho : DebugState.sourceOffset func.sourceMap p.pc = p.offset := by rw [← hsite]
        have hs : ∀ d : DebugState, d.shouldPause f.funcIndex f.pc vm.callStack.length
            func.sourceMap = d.shouldPause p.funcIndex p.pc p.depth func.sourceMap := by
          rw [← hsite]
          exact fun _ => rfl
        refine .yes p (fun d reason h => ?_) fun d h => ?_
        · rw [step_instr hstack hfunc hi, hs]
          have hans := DebugState.shouldPause_answer (d := d) ho
          have hpause := DebugState.shouldPause_pauses ho h
          revert hans hpause
          rcases d.shouldPause p.funcIndex p.pc p.depth func.sourceMap with ⟨d', r⟩
          intro hans hpause
          obtain rfl : r = some reason := hans.trans h
          simp only at hpause
          simp only [hpause]
        · rw [step_instr hstack hfunc hi, step_instr hstack hfunc hi, DebugState.shouldPause_new,
            hs]
          have hans := DebugState.shouldPause_answer (d := d) ho
          have hgo := DebugState.shouldPause_goesOn ho h
          revert hans hgo
          rcases d.shouldPause p.funcIndex p.pc p.depth func.sourceMap with ⟨d', r⟩
          intro hans hgo
          obtain rfl : r = none := hans.trans h
          obtain rfl : d' = d.passed [p] := hgo
          exact ahead_withDebug vm func f rest i _ _

/-- A step that the debugger lets go on. -/
theorem step_goesOn {s : Vm} {d : DebugState} (h : d.PassesOver s.site?.toList) :
    (s.withDebug d).step =
      outcomeWithDebug (d.passed s.site?.toList) (s.withDebug .new).step := by
  have ha := asked s
  revert ha h
  generalize s.site? = q
  intro h ha
  cases ha with
  | no hsame => exact (hsame d).trans (by rw [Option.toList_none, DebugState.passed_nil])
  | yes p hpause hnext => exact hnext d h.1

/-- It lets it go on, or has a reason. -/
theorem goesOn_or_pauses (s : Vm) (d : DebugState) : d.PassesOver s.site?.toList ∨
    ∃ p reason, s.site? = some p ∧ d.stopReason [] p = some reason ∧
      (s.withDebug d).step =
        .halt (s.withDebug (d.pausedAt [] p reason), .error (.error .halt)) := by
  have ha := asked s
  revert ha
  generalize s.site? = q
  intro ha
  cases ha with
  | no hsame => exact .inl trivial
  | yes p hpause hnext =>
    cases h : d.stopReason [] p with
    | none => exact .inl ⟨h, trivial⟩
    | some reason => exact .inr ⟨p, reason, rfl, h, hpause d reason h⟩

/-- Without a debugger no step is a pause. -/
theorem step_new_ends (s : Vm) : Ends (s.withDebug .new).step := by
  unfold step
  simp only [withDebug_callStack, withDebug_func?, withDebug_debug]
  cases hstack : s.callStack with
  | nil => exact hstack
  | cons f rest =>
    have hne : (s.withDebug .new).callStack ≠ [] := by simp [hstack]
    simp only
    cases s.func? f.funcIndex with
    | none => exact ⟨hne, nofun⟩
    | some func =>
      simp only
      cases func.instructions[f.pc]? with
      | none => exact fallOff_ends
      | some i =>
        simp only [DebugState.shouldPause_new]
        split
        · exact ⟨nofun, nofun⟩
        · exact exec_ends (List.cons_ne_nil _ _) i

/-! ## Runs -/

/-- Steps of the plain machine, with the sites of the instructions that are
executed. -/
inductive Visits : Vm → List Site → Vm → Prop where
  | refl (s : Vm) : Visits s [] s
  | head {s t u : Vm} {sites : List Site} (hs : (s.withDebug .new).step = .next t)
      (h : Visits t sites u) : Visits s (s.site?.toList ++ sites) u

/-- The plain machine goes the way of the debugged one. -/
theorem visits_of_steps : ∀ {n : Nat} {s w : Vm} {d : DebugState},
    StepsTo step n (s.withDebug d) w →
      ∃ sites t, Visits s sites t ∧ d.PassesOver sites ∧ w = t.withDebug (d.passed sites)
  | 0, s, w, d, h => by
    obtain rfl : s.withDebug d = w := h
    exact ⟨[], s, .refl s, trivial, by rw [DebugState.passed_nil]⟩
  | n + 1, s, w, d, ⟨u, hu, h⟩ => by
    rcases goesOn_or_pauses s d with hgo | ⟨p, reason, -, -, hpause⟩
    · rw [step_goesOn hgo] at hu
      cases hplain : (s.withDebug .new).step with
      | halt r => simp [hplain, outcomeWithDebug] at hu
      | next t =>
        obtain rfl : t.withDebug (d.passed s.site?.toList) = u := by
          simpa [hplain, outcomeWithDebug] using hu
        obtain ⟨sites, v, hv, hover, rfl⟩ := visits_of_steps h
        refine ⟨_, v, .head hplain hv, (DebugState.passesOver_append _ _).mpr ⟨hgo, hover⟩, ?_⟩
        rw [DebugState.passed_append]
    · rw [hpause] at hu
      cases hu

/-- The debugged machine goes the way of the plain one, where nothing stops
it. -/
theorem reaches_of_visits {s t : Vm} {sites : List Site} (h : Visits s sites t) :
    ∀ {d : DebugState}, d.PassesOver sites →
      Reaches step (s.withDebug d) (t.withDebug (d.passed sites)) := by
  induction h with
  | refl s =>
    intro d _
    rw [DebugState.passed_nil]
    exact .refl _
  | @head s t u sites hs h ih =>
    intro d hover
    obtain ⟨hgo, hover⟩ := (DebugState.passesOver_append _ _).mp hover
    have hstep : (s.withDebug d).step = .next (t.withDebug (d.passed s.site?.toList)) := by
      rw [step_goesOn hgo, hs]
      rfl
    rw [DebugState.passed_append]
    exact (Reaches.single hstep).trans (ih hover)

/-- An execution pauses at the first site that has a reason. -/
theorem pauses_iff {s w : Vm} {d : DebugState} :
    HaltsWith step (s.withDebug d) (w, .error (.error .halt)) ↔
      ∃ sites t p reason, Visits s sites t ∧ d.PassesOver sites ∧ t.site? = some p ∧
        d.stopReason sites p = some reason ∧ w = t.withDebug (d.pausedAt sites p reason) := by
  constructor
  · intro ⟨v, ⟨n, hn⟩, hv⟩
    obtain ⟨sites, t, ht, hover, rfl⟩ := visits_of_steps hn
    rcases goesOn_or_pauses t (d.passed sites) with hgo | ⟨p, reason, hp, hreason, hpause⟩
    · obtain ⟨u, hplain, -⟩ := outcomeWithDebug_halt ((step_goesOn hgo).symm.trans hv)
      have hends := step_new_ends t
      rw [hplain] at hends
      exact absurd rfl hends.2
    · rw [hpause] at hv
      obtain rfl : t.withDebug _ = w := congrArg Prod.fst (Outcome.halt.inj hv)
      rw [← DebugState.stopReason_append, List.append_nil] at hreason
      refine ⟨sites, t, p, reason, ht, hover, hp, hreason, ?_⟩
      rw [← DebugState.pausedAt_append, List.append_nil]
  · intro ⟨sites, t, p, reason, ht, hover, hp, hreason, hw⟩
    rw [← List.append_nil sites, DebugState.stopReason_append] at hreason
    rw [← List.append_nil sites, DebugState.pausedAt_append] at hw
    refine ⟨_, reaches_of_visits ht hover, ?_⟩
    rcases goesOn_or_pauses t (d.passed sites) with hgo | ⟨p', reason', hp', hreason', hpause⟩
    · rw [hp] at hgo
      rw [hgo.1] at hreason
      cases hreason
    · obtain rfl : p = p' := Option.some.inj (hp.symm.trans hp')
      obtain rfl : reason = reason' := Option.some.inj (hreason.symm.trans hreason')
      rw [hpause, hw]

/-- It ends otherwise as the plain one does, when no site on the way has a
reason. -/
theorem ends_iff {s w : Vm} {d : DebugState} {r : Except Trap Value}
    (hr : r ≠ .error (.error .halt)) :
    HaltsWith step (s.withDebug d) (w, r) ↔
      ∃ sites t u, Visits s sites t ∧ d.PassesOver (sites ++ t.site?.toList) ∧
        (t.withDebug .new).step = .halt (u, r) ∧
        w = u.withDebug (d.passed (sites ++ t.site?.toList)) := by
  constructor
  · intro ⟨v, ⟨n, hn⟩, hv⟩
    obtain ⟨sites, t, ht, hover, rfl⟩ := visits_of_steps hn
    rcases goesOn_or_pauses t (d.passed sites) with hgo | ⟨p, reason, -, -, hpause⟩
    · obtain ⟨u, hplain, rfl⟩ := outcomeWithDebug_halt ((step_goesOn hgo).symm.trans hv)
      refine ⟨sites, t, u, ht, (DebugState.passesOver_append _ _).mpr ⟨hover, hgo⟩, hplain, ?_⟩
      rw [DebugState.passed_append]
    · rw [hpause] at hv
      exact absurd (congrArg Prod.snd (Outcome.halt.inj hv)).symm hr
  · intro ⟨sites, t, u, ht, hover, hplain, hw⟩
    obtain ⟨hover, hgo⟩ := (DebugState.passesOver_append _ _).mp hover
    refine ⟨_, reaches_of_visits ht hover, ?_⟩
    rw [step_goesOn hgo, hplain, hw, DebugState.passed_append]
    rfl

/-! ## The law -/

/-- No site gives a reason to pause, after those before it. -/
def Uneventful (vm : Vm) (sites : List Site) : Prop :=
  ∀ before p after, sites = before ++ p :: after → vm.debug.stopReason before p = none

/-- The plain machine comes to a site that gives the first reason to pause;
the machine is left there, before the instruction. -/
def PausesIn (vm w : Vm) : Prop :=
  ∃ sites t p reason, Visits vm sites t ∧ vm.Uneventful sites ∧ t.site? = some p ∧
    vm.debug.stopReason sites p = some reason ∧ w = t.withDebug (vm.debug.pausedAt sites p reason)

/-- The plain machine ends with `r`, and no site on its way gives a reason. -/
def RunsOut (vm w : Vm) (r : Except Trap Value) : Prop :=
  ∃ sites t u, Visits vm sites t ∧ vm.Uneventful (sites ++ t.site?.toList) ∧
    (t.withDebug .new).step = .halt (u, r) ∧
    w = u.withDebug (vm.debug.passed (sites ++ t.site?.toList))

theorem continueExecution_iff {vm : Vm} {stop : Stop} :
    (∃ fuel, vm.continueExecution fuel = some stop) ↔ HaltsWith step vm stop := by
  constructor
  · intro ⟨fuel, h⟩
    exact haltsWith_of_continueExecution h
  · intro h
    obtain ⟨fuel, hfuel⟩ := haltsWith_iff_run.mp h
    refine ⟨fuel, ?_⟩
    unfold continueExecution
    split
    · next hempty =>
      have hidle : HaltsWith step vm (vm, .ok .void) := by
        refine ⟨vm, .refl vm, ?_⟩
        unfold step
        rw [List.isEmpty_iff.mp hempty]
      rw [hidle.unique h]
    · exact hfuel

/-- **Stepping and breakpoints.** A resumed machine does what the plain one
does up to the first instruction with a reason to pause: one that ends the
step that was asked for, or a breakpoint that execution is not still standing
in. It pauses before that instruction, and it ends as the plain one where
there is none. -/
theorem stepping_law (vm w : Vm) (r : Except Trap Value) :
    (∃ fuel, vm.continueExecution fuel = some (w, r)) ↔
      r = .error (.error .halt) ∧ vm.PausesIn w ∨ vm.RunsOut w r := by
  have hover : ∀ sites, vm.debug.PassesOver sites ↔ vm.Uneventful sites := fun sites =>
    DebugState.passesOver_iff
  rw [continueExecution_iff]
  by_cases hr : r = .error (.error .halt)
  · subst hr
    have hno : ¬ vm.RunsOut w (.error (.error .halt)) := by
      intro ⟨_, t, _, _, _, hu, _⟩
      have hends := step_new_ends t
      rw [hu] at hends
      exact hends.2 rfl
    rw [or_iff_left hno]
    unfold PausesIn
    simpa only [withDebug_self, hover, true_and] using pauses_iff (s := vm) (w := w) (d := vm.debug)
  · rw [or_iff_right fun h => hr h.1]
    unfold RunsOut
    simpa only [withDebug_self, hover] using ends_iff (s := vm) (w := w) (d := vm.debug) hr

end

end Vm

end RustPlc.Engine
