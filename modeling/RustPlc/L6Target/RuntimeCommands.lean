import RustPlc.L6Target.Requests

/-!
# Commands to the runtime thread

The calls of `RuntimeManager` and the loops of the runtime thread that take the
commands (crates/st-target-agent/src/runtime_manager.rs): idle, between two cycles,
and while a debugger has paused the engine. A call looks at the status and sends its
command later; the steps of any number of clients and of the thread come in any order.

A call of `start` or `stop` returns `Ok` exactly when its command is in the queue, so
the commands of the queue are those that have been acknowledged. Engines are numbered in
the order in which they are built, and a `stop` command remembers the engine there was
when its status was checked.

Left out: shutdown and the replies to the other calls.

Results:
* `queueOk_idle`: the end of an engine spoils no command that is waiting;
* `commands_honoured`: when every command is sent at a moment at which the commands
  before it leave it its meaning, no command is ignored or hits the wrong engine.
-/
namespace RustPlc.Target

open RustPlc.Core RustPlc.Ir RustPlc.Engine

variable {R : Type}

/-! ## Commands and calls -/

/-- mirrors crates/st-target-agent/src/runtime_manager.rs:127-160; the channels of a debug
session and the replies are left out. `stop` has the engine at the check of the status. -/
inductive RuntimeCommand (R : Type) where
  | start (params : StartParams R)
  | stop (target : Option ℕ)
  | onlineChange (newModule : Module) (newProgramMeta : ProgramMetadata)
  | debugAttach
  | debugDetach
  | forceVariable (name value : String)
  | unforceVariable (name : String)
  | resetStats

inductive ApiCall (R : Type) where
  | start (params : StartParams R)
  | stop
  | onlineChange (newModule : Module) (newProgramMeta : ProgramMetadata)
  | debugAttach
  | forceVariable (name value : String)

/-- A client between two calls, before the check of the status, and before the send. -/
inductive ApiClient (R : Type) where
  | idle
  | calling (call : ApiCall R)
  | sending (command : RuntimeCommand R)
  | refused (error : ApiError)

/-! ## The runtime thread -/

structure EngineInstance (R : Type) where
  number : ℕ
  module : Module
  params : StartParams R

/-- Where the thread is: idle, building an engine, before a cycle, before the look at the
queue after a cycle, before the look at the queue while paused, waiting for the
debugger, and after the loop of an engine. `session`: a debugger is attached. -/
inductive ThreadPhase (R : Type) where
  | waiting
  | building (engine : EngineInstance R)
  | cycling (engine : EngineInstance R) (session : Bool)
  | polling (engine : EngineInstance R) (session : Bool)
  | paused (engine : EngineInstance R)
  | serving (engine : EngineInstance R)
  | ending (engine : EngineInstance R) (failed : Bool)

namespace ThreadPhase

/-- The engine that is built and not yet dropped. -/
def engine : ThreadPhase R → Option (EngineInstance R)
  | .waiting => none
  | .building e | .cycling e _ | .polling e _ | .paused e | .serving e | .ending e _ => some e

/-- The number of the engine whose loop has not been left. -/
def active : ThreadPhase R → Option ℕ
  | .waiting | .ending _ _ => none
  | .building e | .cycling e _ | .polling e _ | .paused e | .serving e => some e.number

end ThreadPhase

/-- What became of a command that was acknowledged: the engine and the metadata that a
start led to, and the engine that a stop ended. -/
inductive Taken (R : Type) where
  | start (params : StartParams R) (executed : Option (EngineInstance R × ProgramMetadata))
  | stop (target ended : Option ℕ)

/-- `nextNumber`, `alive` and `journal` are read by no step: the number of the next
engine, the engines that are built and whose loop has not been left, and what became of
the commands. -/
structure RuntimeSystem (R : Type) where
  status : RuntimeStatus
  program : Option ProgramMetadata
  thread : ThreadPhase R
  queue : List (RuntimeCommand R)
  clients : ℕ → ApiClient R
  nextNumber : ℕ
  alive : List ℕ
  journal : List (Taken R)

inductive CycleOutcome where
  | completed | halted | failed

inductive DebuggerCommand where
  /-- Continue or a step. -/
  | resume
  /-- Disconnect, the timeout, or the end of the channel. -/
  | detach
  /-- Any other. -/
  | query

inductive RuntimeLabel (R : Type) where
  | call (i : ℕ) (call : ApiCall R)
  | check (i : ℕ)
  | send (i : ℕ)
  | take
  | noCommand
  | built
  | cycle (outcome : CycleOutcome)
  | debugger (command : DebuggerCommand)
  | disconnect
  | ended

namespace RuntimeSystem

/-! ## Calls -/

/-- The check of the status, and the command that is sent after it.
mirrors crates/st-target-agent/src/runtime_manager.rs:271-313, 324-336, 366-393 -/
def checkStatus (s : RuntimeSystem R) : ApiCall R → ApiClient R
  | .start params =>
    if s.status = .running ∨ s.status = .starting then .refused .alreadyRunning
    else .sending (.start params)
  | .stop =>
    if s.status ≠ .running ∧ s.status ≠ .debugPaused then .refused .notRunning
    else .sending (.stop (s.thread.engine.map (·.number)))
  | .onlineChange newModule newProgramMeta =>
    if s.status ≠ .running ∧ s.status ≠ .debugPaused then .refused .notRunning
    else .sending (.onlineChange newModule newProgramMeta)
  | .debugAttach =>
    if s.status ≠ .running ∧ s.status ≠ .debugPaused then .refused .notRunning
    else .sending .debugAttach
  | .forceVariable name value => .sending (.forceVariable name value)

def setClient (s : RuntimeSystem R) (i : ℕ) (c : ApiClient R) : RuntimeSystem R :=
  { s with clients := Function.update s.clients i c }

/-! ## The thread -/

/-- The loop of the engine is left. -/
def leave (s : RuntimeSystem R) (e : EngineInstance R) (failed : Bool) : RuntimeSystem R :=
  { s with thread := .ending e failed, alive := s.alive.erase e.number }

/-- A command that the idle thread takes.
mirrors crates/st-target-agent/src/runtime_manager.rs:410-426, 511-525 -/
def takeIdle (s : RuntimeSystem R) : RuntimeCommand R → RuntimeSystem R
  | .start params =>
    let e : EngineInstance R := ⟨s.nextNumber, params.module, params⟩
    { s with
      status := .starting
      program := some params.programMeta
      thread := .building e
      nextNumber := s.nextNumber + 1
      alive := s.alive ++ [s.nextNumber]
      journal := .start params (some (e, params.programMeta)) :: s.journal }
  | .stop target => { s with journal := .stop target none :: s.journal }
  | _ => s

/-- A command that is taken after a cycle; `Start` is ignored while already running.
mirrors crates/st-target-agent/src/runtime_manager.rs:633-719 -/
def takeBetweenCycles (s : RuntimeSystem R) (e : EngineInstance R) (session : Bool) :
    RuntimeCommand R → RuntimeSystem R
  | .stop target =>
    { s with journal := .stop target (some e.number) :: s.journal }.leave e false
  | .start params =>
    { s with thread := .cycling e session, journal := .start params none :: s.journal }
  | .onlineChange newModule newProgramMeta =>
    match refusal e.module newModule with
    | none => { s with thread := .cycling { e with module := newModule } session,
                       program := some newProgramMeta }
    | some _ => { s with thread := .cycling e session }
  | .debugAttach => { s with thread := .cycling e true }
  | .debugDetach => { s with thread := .cycling e false }
  | _ => { s with thread := .cycling e session }

/-- A command that is taken while the debugger has paused the engine. A new debugger
takes the place of the old one and the engine resumes.
mirrors crates/st-target-agent/src/runtime_manager.rs:589-615, 800-838 -/
def takePaused (s : RuntimeSystem R) (e : EngineInstance R) : RuntimeCommand R → RuntimeSystem R
  | .stop target =>
    { s with journal := .stop target (some e.number) :: s.journal }.leave e false
  | .start params => { s with thread := .serving e, journal := .start params none :: s.journal }
  | .debugDetach => { s with status := .running, thread := .cycling e false }
  | .debugAttach => { s with status := .running, thread := .cycling e true }
  | _ => { s with thread := .serving e }

def takeCommand (s : RuntimeSystem R) (c : RuntimeCommand R) : Option (RuntimeSystem R) :=
  match s.thread with
  | .waiting => some (s.takeIdle c)
  | .polling e session => some (s.takeBetweenCycles e session c)
  | .paused e => some (s.takePaused e c)
  | _ => none

/-- mirrors crates/st-target-agent/src/runtime_manager.rs:404-525, 551-632, 838-926 -/
def step (s : RuntimeSystem R) : RuntimeLabel R → Option (RuntimeSystem R)
  | .call i call =>
    match s.clients i with
    | .idle | .refused _ => some (s.setClient i (.calling call))
    | _ => none
  | .check i =>
    match s.clients i with
    | .calling call => some (s.setClient i (s.checkStatus call))
    | _ => none
  | .send i =>
    match s.clients i with
    | .sending command =>
      if s.queue.length < 16 then some { s.setClient i .idle with queue := s.queue ++ [command] }
      else none
    | _ => none
  | .take =>
    match s.queue with
    | [] => none
    | c :: queue => { s with queue := queue }.takeCommand c
  | .noCommand =>
    match s.queue, s.thread with
    | [], .polling e session => some { s with thread := .cycling e session }
    | [], .paused e => some { s with thread := .serving e }
    | _, _ => none
  | .built =>
    match s.thread with
    | .building e => some { s with status := .running, thread := .cycling e false }
    | _ => none
  | .cycle outcome =>
    match s.thread, outcome with
    | .cycling e session, .completed => some { s with thread := .polling e session }
    | .cycling e true, .halted => some { s with status := .debugPaused, thread := .paused e }
    | .cycling e false, .halted => some { s with thread := .polling e false }
    | .cycling e _, .failed => some (s.leave e true)
    | _, _ => none
  | .debugger command =>
    match s.thread, command with
    | .serving e, .resume => some { s with status := .running, thread := .cycling e true }
    | .serving e, .detach => some { s with status := .running, thread := .cycling e false }
    | .serving e, .query => some { s with thread := .paused e }
    | _, _ => none
  | .disconnect =>
    match s.thread with
    | .cycling e true => some { s with thread := .cycling e false }
    | _ => none
  | .ended =>
    match s.thread with
    | .ending _ failed =>
      some { s with status := if failed then .error else .idle, thread := .waiting }
    | _ => none

end RuntimeSystem

/-- mirrors crates/st-target-agent/src/runtime_manager.rs:197-217 -/
def runtimeInit : RuntimeSystem R where
  status := .idle
  program := none
  thread := .waiting
  queue := []
  clients := fun _ => .idle
  nextNumber := 0
  alive := []
  journal := []

def runtimeLts : Lts (RuntimeSystem R) (RuntimeLabel R) :=
  Lts.ofFun (· = runtimeInit) RuntimeSystem.step

/-! ## What the clients rely on -/

/-- The command did what its sender was told. -/
def Taken.Honoured : Taken R → Prop
  | .start params executed =>
    ∃ e, executed = some (e, params.programMeta) ∧ e.params = params ∧ e.module = params.module
  | .stop target ended => ended = none ∨ ended = target

/-- Every command that was taken did what its sender was told, and at most one engine
is active. -/
def CommandsHonoured (s : RuntimeSystem R) : Prop :=
  (∀ t ∈ s.journal, t.Honoured) ∧ s.alive.length ≤ 1

/-! ## The meaning of a queue -/

/-- The active engine and the number of the next one. -/
structure Engines where
  active : Option ℕ
  next : ℕ
  deriving DecidableEq, Repr

def Engines.process (e : Engines) : RuntimeCommand R → Engines
  | .start _ => if e.active = none then ⟨some e.next, e.next + 1⟩ else e
  | .stop _ => ⟨none, e.next⟩
  | _ => e

/-- The engines once the commands of a queue have been taken, if no engine fails. -/
def Engines.after (e : Engines) (queue : List (RuntimeCommand R)) : Engines :=
  queue.foldl Engines.process e

/-- A command that is taken now does what its sender was told: a start finds no engine,
and a stop finds none or that of its check. -/
def Engines.Suits (e : Engines) : RuntimeCommand R → Prop
  | .start _ => e.active = none
  | .stop target => e.active = none ∨ e.active = target
  | _ => True

instance : ∀ (e : Engines) (c : RuntimeCommand R), Decidable (e.Suits c)
  | e, .start _ => inferInstanceAs (Decidable (e.active = none))
  | e, .stop target => inferInstanceAs (Decidable (e.active = none ∨ e.active = target))
  | _, .onlineChange _ _ | _, .debugAttach | _, .debugDetach | _, .forceVariable _ _
  | _, .unforceVariable _ | _, .resetStats => inferInstanceAs (Decidable True)

def RuntimeSystem.engines (s : RuntimeSystem R) : Engines := ⟨s.thread.active, s.nextNumber⟩

/-- A command is sent when the commands before it leave it its meaning. -/
def SentInTime (s : RuntimeSystem R) : RuntimeLabel R → Prop
  | .send i =>
    match s.clients i with
    | .sending command => (s.engines.after s.queue).Suits command
    | _ => True
  | _ => True

instance : ∀ (s : RuntimeSystem R) (a : RuntimeLabel R), Decidable (SentInTime s a)
  | s, .send i =>
    show Decidable (match s.clients i with
      | .sending command => (s.engines.after s.queue).Suits command
      | _ => True) from
    match s.clients i with
    | .sending command => inferInstanceAs (Decidable ((s.engines.after s.queue).Suits command))
    | .idle | .calling _ | .refused _ => inferInstanceAs (Decidable True)
  | _, .call _ _ | _, .check _ | _, .take | _, .noCommand | _, .built | _, .cycle _
  | _, .debugger _ | _, .disconnect | _, .ended => inferInstanceAs (Decidable True)

/-- Every command of a queue suits the engines at the time it is taken. -/
def QueueOk (e : Engines) : List (RuntimeCommand R) → Prop
  | [] => True
  | c :: queue => e.Suits c ∧ QueueOk (e.process c) queue

theorem queueOk_concat {e : Engines} {queue : List (RuntimeCommand R)} {c : RuntimeCommand R} :
    QueueOk e (queue ++ [c]) ↔ QueueOk e queue ∧ (e.after queue).Suits c := by
  induction queue generalizing e with
  | nil => simp [QueueOk, Engines.after]
  | cons d queue ih =>
    rw [List.cons_append, QueueOk, ih, QueueOk, and_assoc]
    rfl

/-- An engine that ends early spoils no command that is waiting. -/
theorem queueOk_idle {e : Engines} {queue : List (RuntimeCommand R)} (h : QueueOk e queue) :
    QueueOk ⟨none, e.next⟩ queue := by
  induction queue generalizing e with
  | nil => trivial
  | cons c queue ih =>
    obtain ⟨hc, hq⟩ := h
    cases c with
    | start params =>
      -- A start that suits finds no engine: nothing has changed for it.
      have he : e = ⟨none, e.next⟩ := by
        cases e
        simp only [Engines.Suits] at hc
        rw [hc]
      rw [he] at hq
      exact ⟨rfl, hq⟩
    | stop target => exact ⟨.inl rfl, hq⟩
    | _ => exact ⟨trivial, ih hq⟩

/-! ## Runs in which commands are sent in time -/

/-- What holds between the steps. -/
structure CommandsSound (s : RuntimeSystem R) : Prop where
  queue : QueueOk s.engines s.queue
  alive : s.alive = s.thread.active.toList
  journal : ∀ t ∈ s.journal, t.Honoured

theorem runtimeInit_sound : CommandsSound (runtimeInit : RuntimeSystem R) where
  queue := trivial
  alive := rfl
  journal := by
    intro t ht
    simp [runtimeInit] at ht

namespace CommandsSound

variable {s : RuntimeSystem R}

/-- A step that leaves the engine, the queue and the journal as they are. -/
theorem quiet (h : CommandsSound s) {t : RuntimeSystem R} (hqueue : t.queue = s.queue)
    (hactive : t.thread.active = s.thread.active) (hnext : t.nextNumber = s.nextNumber)
    (halive : t.alive = s.alive) (hjournal : t.journal = s.journal) : CommandsSound t where
  queue := by
    rw [RuntimeSystem.engines, hactive, hnext, hqueue]
    exact h.queue
  alive := by rw [halive, hactive, h.alive]
  journal := by
    rw [hjournal]
    exact h.journal

/-- The loop of the active engine is left. -/
theorem leave (h : CommandsSound s) {e : EngineInstance R}
    (hactive : s.thread.active = some e.number) (failed : Bool) : CommandsSound (s.leave e failed) where
  queue := queueOk_idle h.queue
  alive := by
    change s.alive.erase e.number = []
    rw [h.alive, hactive]
    simp
  journal := h.journal

/-- A stop that is taken with an engine active ends the one it was sent for. -/
theorem stop (h : CommandsSound s) {e : EngineInstance R} {target : Option ℕ}
    {queue : List (RuntimeCommand R)} (hactive : s.thread.active = some e.number)
    (hqueue : s.queue = .stop target :: queue) :
    CommandsSound ({ s with
      queue := queue
      journal := .stop target (some e.number) :: s.journal }.leave e false) := by
  obtain ⟨hsuits, hq⟩ : s.engines.Suits (.stop target) ∧
      QueueOk (s.engines.process (.stop target)) queue := by
    have := h.queue
    rwa [hqueue] at this
  refine ⟨hq, ?_, ?_⟩
  · change s.alive.erase e.number = []
    rw [h.alive, hactive]
    simp
  · intro t ht
    rcases List.mem_cons.mp ht with rfl | ht
    · rcases hsuits with hnone | htarget
      · exact absurd (hactive.symm.trans hnone) (by simp)
      · exact .inr (hactive.symm.trans htarget)
    · exact h.journal t ht

/-- A command that neither starts nor stops an engine leaves the rest of the queue its
meaning. -/
theorem drop (h : CommandsSound s) {c : RuntimeCommand R} {queue : List (RuntimeCommand R)}
    (hqueue : s.queue = c :: queue) (hprocess : s.engines.process c = s.engines) :
    CommandsSound { s with queue := queue } where
  queue := by
    have := h.queue
    rw [hqueue] at this
    obtain ⟨_, hq⟩ := this
    rw [hprocess] at hq
    exact hq
  alive := h.alive
  journal := h.journal

/-- The idle thread: a start is executed, and there is nothing to stop. -/
theorem takeIdle (h : CommandsSound s) (hthread : s.thread = .waiting) {c : RuntimeCommand R}
    {queue : List (RuntimeCommand R)} (hqueue : s.queue = c :: queue) :
    CommandsSound ({ s with queue := queue }.takeIdle c) := by
  have hengines : s.engines = ⟨none, s.nextNumber⟩ := by
    rw [RuntimeSystem.engines, hthread]
    rfl
  have halive : s.alive = [] := by
    rw [h.alive, hthread]
    rfl
  have hq : QueueOk (s.engines.process c) queue := by
    have := h.queue
    rw [hqueue] at this
    exact this.2
  cases c with
  | start params =>
    refine ⟨?_, ?_, ?_⟩
    · rw [hengines] at hq
      exact hq
    · change s.alive ++ [s.nextNumber] = [s.nextNumber]
      rw [halive]
      rfl
    · intro t ht
      rcases List.mem_cons.mp ht with rfl | ht
      · exact ⟨_, rfl, rfl, rfl⟩
      · exact h.journal t ht
  | stop target =>
    refine ⟨?_, h.alive, ?_⟩
    · rw [hengines] at hq
      change QueueOk s.engines queue
      rw [hengines]
      exact hq
    · intro t ht
      rcases List.mem_cons.mp ht with rfl | ht
      · exact .inl rfl
      · exact h.journal t ht
  | _ => exact h.drop hqueue rfl

/-- A start that waits while an engine is active has not been sent in time. -/
theorem no_start (h : CommandsSound s) {n : ℕ} (hactive : s.thread.active = some n)
    {params : StartParams R} {queue : List (RuntimeCommand R)}
    (hqueue : s.queue = .start params :: queue) : False := by
  have hq := h.queue
  rw [hqueue] at hq
  have hnone : s.thread.active = none := hq.1
  rw [hactive] at hnone
  cases hnone

theorem takeBetweenCycles (h : CommandsSound s) {e : EngineInstance R} {session : Bool}
    (hthread : s.thread = .polling e session) {c : RuntimeCommand R}
    {queue : List (RuntimeCommand R)} (hqueue : s.queue = c :: queue) :
    CommandsSound ({ s with queue := queue }.takeBetweenCycles e session c) := by
  have hactive : s.thread.active = some e.number := by rw [hthread]; rfl
  cases c with
  | start params => exact (h.no_start hactive hqueue).elim
  | stop target => exact h.stop hactive hqueue
  | onlineChange newModule newProgramMeta =>
    have hdrop := h.drop hqueue rfl
    simp only [RuntimeSystem.takeBetweenCycles]
    split
    · exact hdrop.quiet rfl hactive.symm rfl rfl rfl
    · exact hdrop.quiet rfl hactive.symm rfl rfl rfl
  | _ => exact (h.drop hqueue rfl).quiet rfl hactive.symm rfl rfl rfl

theorem takePaused (h : CommandsSound s) {e : EngineInstance R} (hthread : s.thread = .paused e)
    {c : RuntimeCommand R} {queue : List (RuntimeCommand R)} (hqueue : s.queue = c :: queue) :
    CommandsSound ({ s with queue := queue }.takePaused e c) := by
  have hactive : s.thread.active = some e.number := by rw [hthread]; rfl
  cases c with
  | start params => exact (h.no_start hactive hqueue).elim
  | stop target => exact h.stop hactive hqueue
  | _ => exact (h.drop hqueue rfl).quiet rfl hactive.symm rfl rfl rfl

theorem take (h : CommandsSound s) {c : RuntimeCommand R} {queue : List (RuntimeCommand R)}
    (hqueue : s.queue = c :: queue) {t : RuntimeSystem R}
    (hstep : { s with queue := queue }.takeCommand c = some t) : CommandsSound t := by
  unfold RuntimeSystem.takeCommand at hstep
  split at hstep
  · next hthread =>
    obtain rfl := Option.some.inj hstep
    exact h.takeIdle hthread hqueue
  · next hthread =>
    obtain rfl := Option.some.inj hstep
    exact h.takeBetweenCycles hthread hqueue
  · next hthread =>
    obtain rfl := Option.some.inj hstep
    exact h.takePaused hthread hqueue
  · simp at hstep

/-- A command that is sent in time joins the queue. -/
theorem send (h : CommandsSound s) {i : ℕ} {c : RuntimeCommand R}
    (hsuits : (s.engines.after s.queue).Suits c) :
    CommandsSound { s.setClient i .idle with queue := s.queue ++ [c] } where
  queue := queueOk_concat.mpr ⟨h.queue, hsuits⟩
  alive := h.alive
  journal := h.journal

/-- Every step in time keeps it. -/
theorem step (h : CommandsSound s) {a : RuntimeLabel R} (hin : SentInTime s a)
    {t : RuntimeSystem R} (hstep : s.step a = some t) : CommandsSound t := by
  cases a with
  | call i call =>
    simp only [RuntimeSystem.step] at hstep
    split at hstep
    · obtain rfl := Option.some.inj hstep
      exact h.quiet rfl rfl rfl rfl rfl
    · obtain rfl := Option.some.inj hstep
      exact h.quiet rfl rfl rfl rfl rfl
    · simp at hstep
  | check i =>
    simp only [RuntimeSystem.step] at hstep
    split at hstep
    · obtain rfl := Option.some.inj hstep
      exact h.quiet rfl rfl rfl rfl rfl
    · simp at hstep
  | send i =>
    simp only [RuntimeSystem.step] at hstep
    simp only [SentInTime] at hin
    split at hstep
    · next c hc =>
      rw [hc] at hin
      split at hstep
      · obtain rfl := Option.some.inj hstep
        exact h.send hin
      · simp at hstep
    · simp at hstep
  | take =>
    simp only [RuntimeSystem.step] at hstep
    split at hstep
    · simp at hstep
    · next hqueue => exact h.take hqueue hstep
  | noCommand =>
    simp only [RuntimeSystem.step] at hstep
    split at hstep
    · next hthread =>
      obtain rfl := Option.some.inj hstep
      exact h.quiet rfl (by rw [hthread]; rfl) rfl rfl rfl
    · next hthread =>
      obtain rfl := Option.some.inj hstep
      exact h.quiet rfl (by rw [hthread]; rfl) rfl rfl rfl
    · simp at hstep
  | built =>
    simp only [RuntimeSystem.step] at hstep
    split at hstep
    · next hthread =>
      obtain rfl := Option.some.inj hstep
      exact h.quiet rfl (by rw [hthread]; rfl) rfl rfl rfl
    · simp at hstep
  | cycle outcome =>
    simp only [RuntimeSystem.step] at hstep
    split at hstep
    · next hthread =>
      obtain rfl := Option.some.inj hstep
      exact h.quiet rfl (by rw [hthread]; rfl) rfl rfl rfl
    · next hthread =>
      obtain rfl := Option.some.inj hstep
      exact h.quiet rfl (by rw [hthread]; rfl) rfl rfl rfl
    · next hthread =>
      obtain rfl := Option.some.inj hstep
      exact h.quiet rfl (by rw [hthread]; rfl) rfl rfl rfl
    · next hthread =>
      obtain rfl := Option.some.inj hstep
      exact h.leave (by rw [hthread]; rfl) true
    · simp at hstep
  | debugger command =>
    simp only [RuntimeSystem.step] at hstep
    split at hstep
    · next hthread =>
      obtain rfl := Option.some.inj hstep
      exact h.quiet rfl (by rw [hthread]; rfl) rfl rfl rfl
    · next hthread =>
      obtain rfl := Option.some.inj hstep
      exact h.quiet rfl (by rw [hthread]; rfl) rfl rfl rfl
    · next hthread =>
      obtain rfl := Option.some.inj hstep
      exact h.quiet rfl (by rw [hthread]; rfl) rfl rfl rfl
    · simp at hstep
  | disconnect =>
    simp only [RuntimeSystem.step] at hstep
    split at hstep
    · next hthread =>
      obtain rfl := Option.some.inj hstep
      exact h.quiet rfl (by rw [hthread]; rfl) rfl rfl rfl
    · simp at hstep
  | ended =>
    simp only [RuntimeSystem.step] at hstep
    split at hstep
    · next hthread =>
      obtain rfl := Option.some.inj hstep
      exact h.quiet rfl (by rw [hthread]; rfl) rfl rfl rfl
    · simp at hstep

end CommandsSound

/-- **In every run in which each command is sent at a moment at which the commands before
it leave it its meaning, every start that was acknowledged is executed with its own
parameters, every stop ends the engine it was called for and no other, and at most one
engine is active.** -/
theorem commands_honoured {s : RuntimeSystem R}
    (h : (runtimeLts.restrict SentInTime).Reachable s) : CommandsHonoured s := by
  have hs : CommandsSound s := by
    apply Lts.Reachable.inv_restrict _ _ h
    · intro s hs
      obtain rfl : s = runtimeInit := hs
      exact runtimeInit_sound
    · intro s a t hs hin hstep
      exact hs.step hin hstep
  refine ⟨hs.journal, ?_⟩
  rw [hs.alive]
  cases s.thread.active <;> simp

/-! ## Two clients -/

def namedProgram (name : String) : StartParams Unit where
  module := ⟨[], .empty, [], []⟩
  programName := name
  cycleTime := 10
  programMeta := ⟨name, "1.0.0", "development", "", none, "", "", true⟩
  nativeFbs := none

/-- The state after some steps. -/
def afterCalls (labels : List (RuntimeLabel Unit)) : RuntimeSystem Unit :=
  (Lts.exec RuntimeSystem.step labels runtimeInit).getD runtimeInit

theorem reachable_afterCalls {labels : List (RuntimeLabel Unit)}
    (h : Lts.exec RuntimeSystem.step labels runtimeInit = some (afterCalls labels)) :
    runtimeLts.Reachable (afterCalls labels) := .exec (.init rfl) h

/-- Two clients look at the status before either has sent its start. -/
def twoStarts : List (RuntimeLabel Unit) :=
  [.call 0 (.start (namedProgram "Pump")), .call 1 (.start (namedProgram "Tank")), .check 0,
    .check 1, .send 0, .send 1, .take, .built, .cycle .completed, .take]

/-- A client looks at the status, and before it sends its stop the engine fails and another
client starts a new one. -/
def lateStop : List (RuntimeLabel Unit) :=
  [.call 0 (.start (namedProgram "Pump")), .check 0, .send 0, .take, .built, .call 1 .stop,
    .check 1, .cycle .failed, .ended, .call 0 (.start (namedProgram "Tank")), .check 0, .send 0,
    .take, .send 1, .built, .cycle .completed, .take]

/-- The second start was acknowledged and is ignored; and a stop that was called for one
engine ends the next. -/
theorem acknowledged_commands_lost :
    (∃ s : RuntimeSystem Unit, runtimeLts.Reachable s ∧
      Taken.start (namedProgram "Tank") none ∈ s.journal ∧ ¬ CommandsHonoured s) ∧
    ∃ s : RuntimeSystem Unit, runtimeLts.Reachable s ∧
      Taken.stop (some 0) (some 1) ∈ s.journal ∧ ¬ CommandsHonoured s := by
  constructor
  · have hmem : Taken.start (namedProgram "Tank") none ∈ (afterCalls twoStarts).journal :=
      List.mem_cons_self
    refine ⟨_, reachable_afterCalls rfl, hmem, fun h => ?_⟩
    obtain ⟨e, he, _⟩ := h.1 _ hmem
    cases he
  · have hmem : Taken.stop (some 0) (some 1) ∈ (afterCalls lateStop).journal :=
      List.mem_cons_self
    refine ⟨_, reachable_afterCalls rfl, hmem, fun h => ?_⟩
    rcases h.1 _ hmem with hnone | htarget
    · cases hnone
    · cases htarget

/-- One client starts an engine and stops it. -/
def startAndStop : List (RuntimeLabel Unit) :=
  [.call 0 (.start (namedProgram "Pump")), .check 0, .send 0, .take, .built, .call 0 .stop,
    .check 0, .send 0, .cycle .completed, .take]

theorem one_client_served : ∃ s : RuntimeSystem Unit, (runtimeLts.restrict SentInTime).Reachable s ∧
    Taken.stop (some 0) (some 0) ∈ s.journal ∧ CommandsHonoured s := by
  have hr : (runtimeLts.restrict SentInTime).Reachable (afterCalls startAndStop) :=
    Lts.Reachable.exec_guarded startAndStop rfl rfl
  exact ⟨_, hr, List.mem_cons_self, commands_honoured hr⟩

end RustPlc.Target
