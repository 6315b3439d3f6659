import RustPlc.Core.Broadcast
import RustPlc.Core.Lts
import RustPlc.L6Target.WatchTree

/-!
# The push task of a monitor client

For each WebSocket client of the monitor a task waits for the scan-cycle notifications
of the runtime thread and sends the client the variables it has subscribed to
(crates/st-target-agent/src/api/monitor_ws.rs). The runtime thread publishes a
completed cycle in three steps: the statistics, the variables and the notification
(crates/st-target-agent/src/runtime_manager.rs). The steps of the two come in any
order, and the client's socket takes a message after any time.

Whether the task has sent an update in the last 50 ms, what the client has subscribed
to when the task looks, and whether the socket takes a message are inputs of the steps.

Results:
* `overtaken_exits`: a task that has been overtaken by the notifications ends;
* `push_faithful`: otherwise, and when it reads the runtime state while that shows a
  cycle, the task ends for a reason and sends snapshots of completed cycles.
-/
namespace RustPlc.Target

open RustPlc.Core RustPlc.Ir

/-! ## What is published and what is sent -/

/-- mirrors crates/st-target-agent/src/runtime_manager.rs:24-36 -/
structure CycleStatsSnapshot where
  cycleCount : Nat := 0
  lastCycleTimeUs : Nat := 0
  minCycleTimeUs : Nat := 0
  maxCycleTimeUs : Nat := 0
  avgCycleTimeUs : Nat := 0
  targetCycleUs : Nat := 0
  lastPeriodUs : Nat := 0
  minPeriodUs : Nat := 0
  maxPeriodUs : Nat := 0
  jitterMaxUs : Nat := 0
  deriving DecidableEq

/-- mirrors crates/st-monitor/src/protocol.rs:111-138 -/
structure VariableUpdateData where
  cycle : Nat
  lastCycleUs : Nat
  minCycleUs : Nat
  maxCycleUs : Nat
  avgCycleUs : Nat
  targetCycleUs : Nat
  lastPeriodUs : Nat
  minPeriodUs : Nat
  maxPeriodUs : Nat
  jitterMaxUs : Nat
  variableValues : List VariableValue
  watchTree : List WatchNode

/-- The statistics and the variables after a scan cycle. -/
structure CompletedCycle where
  stats : CycleStatsSnapshot
  allVariables : List VariableValue
  deriving DecidableEq

/-- The update for a client's subscriptions. `unwrap_or(0)` is the default of each
number.
mirrors crates/st-target-agent/src/api/monitor_ws.rs:74-140 -/
def variableUpdate (subs : List String) (cycleStats : Option CycleStatsSnapshot)
    (allVariables : List VariableValue) : VariableUpdateData :=
  let cs := cycleStats.getD {}
  let map := varMap allVariables
  let forcedSet := (allVariables.filter (·.forced)).map fun v => toUppercase v.name
  { cycle := cs.cycleCount
    lastCycleUs := cs.lastCycleTimeUs
    minCycleUs := cs.minCycleTimeUs
    maxCycleUs := cs.maxCycleTimeUs
    avgCycleUs := cs.avgCycleTimeUs
    targetCycleUs := cs.targetCycleUs
    lastPeriodUs := cs.lastPeriodUs
    minPeriodUs := cs.minPeriodUs
    maxPeriodUs := cs.maxPeriodUs
    jitterMaxUs := cs.jitterMaxUs
    variableValues := collectWatchedVariables subs map
    watchTree := buildWatchTree subs map forcedSet }

/-! ## The two parties -/

/-- Where the runtime thread is. `idle`: its engine, if it has one, has completed no
cycle yet. -/
inductive WriterPhase where
  | idle
  | cycled (c : CompletedCycle)
  | published
  | cycling
  deriving DecidableEq

/-- Where the push task is. -/
inductive TaskPhase where
  | connecting
  | receiving
  | throttling
  | locking
  | reading (subs : List String)
  | sending (subs : List String) (update : VariableUpdateData)
  | exited
  | aborted

/-- `completed` has the cycles of the run and `pushed` the updates the socket took, each
with the subscriptions it was made for; no step reads them. -/
structure PushState where
  cycleStats : Option CycleStatsSnapshot
  allVariables : List VariableValue
  cycleNotify : Broadcast Unit
  writer : WriterPhase
  task : TaskPhase
  next : ℕ
  sendFailed : Bool
  completed : List CompletedCycle
  pushed : List (List String × VariableUpdateData)

inductive PushLabel where
  /-- `run_one_cycle` and `update_cycle_stats` -/
  | cycle (c : CompletedCycle)
  /-- `snapshot_all_variables` -/
  | snapshot
  /-- With the number of receivers of other clients. -/
  | notify (others : ℕ)
  /-- The engine is stopped or fails. -/
  | engineEnds
  /-- The last sender of the channel is dropped. -/
  | close
  | subscribe
  | recv
  | throttle (tooSoon : Bool)
  | lock (subs : List String)
  | read
  | send (ok : Bool)
  /-- The client's session ends. -/
  | abort

/-- The receivers of the channel that belong to this client. -/
def TaskPhase.receivers : TaskPhase → ℕ
  | .connecting | .exited | .aborted => 0
  | _ => 1

/-- mirrors crates/st-target-agent/src/runtime_manager.rs:192-210 -/
def pushInit : PushState where
  cycleStats := none
  allVariables := []
  cycleNotify := ⟨64, [], false⟩
  writer := .idle
  task := .connecting
  next := 0
  sendFailed := false
  completed := []
  pushed := []

/-- `cycle_rx.recv().await.is_err()` breaks the loop; with nothing to receive the task
waits. -/
def recvStep (s : PushState) : Option PushState :=
  match s.cycleNotify.recv s.next with
  | (.message (), n) => some { s with task := .throttling, next := n }
  | (.lagged _, n) => some { s with task := .exited, next := n }
  | (.closed, n) => some { s with task := .exited, next := n }
  | (.empty, _) => none

/-- What the task sends next, if there is anything to send. -/
def readStep (s : PushState) (subs : List String) : PushState :=
  let update := variableUpdate subs s.cycleStats s.allVariables
  if update.variableValues.isEmpty && update.watchTree.isEmpty then { s with task := .receiving }
  else { s with task := .sending subs update }

/-- mirrors crates/st-target-agent/src/runtime_manager.rs:488-493, 562-572 and
crates/st-target-agent/src/api/monitor_ws.rs:48-165, 212 -/
def pushStep (s : PushState) : PushLabel → Option PushState
  | .cycle c =>
    match s.writer with
    | .idle | .cycling => some { s with cycleStats := some c.stats,
                                        writer := .cycled c,
                                        completed := c :: s.completed }
    | _ => none
  | .snapshot =>
    match s.writer with
    | .cycled c => some { s with allVariables := c.allVariables, writer := .published }
    | _ => none
  | .notify others =>
    match s.writer with
    | .published =>
      if 0 < s.task.receivers + others then
        some { s with cycleNotify := s.cycleNotify.send (), writer := .cycling }
      else some { s with writer := .cycling }
    | _ => none
  | .engineEnds =>
    match s.writer with
    | .idle | .cycling => some { s with allVariables := [], writer := .idle }
    | _ => none
  | .close =>
    match s.writer with
    | .idle => some { s with cycleNotify := s.cycleNotify.close }
    | _ => none
  | .subscribe =>
    match s.task with
    | .connecting => some { s with task := .receiving, next := s.cycleNotify.sent.length }
    | _ => none
  | .recv =>
    match s.task with
    | .receiving => recvStep s
    | _ => none
  | .throttle tooSoon =>
    match s.task with
    | .throttling => some { s with task := if tooSoon then .receiving else .locking }
    | _ => none
  | .lock subs =>
    match s.task with
    | .locking => some { s with task := if subs.isEmpty then .receiving else .reading subs }
    | _ => none
  | .read =>
    match s.task with
    | .reading subs => some (readStep s subs)
    | _ => none
  | .send ok =>
    match s.task with
    | .sending subs update =>
      if ok then some { s with task := .receiving, pushed := (subs, update) :: s.pushed }
      else some { s with task := .exited, sendFailed := true }
    | _ => none
  | .abort => some { s with task := .aborted }

def pushLts : Lts PushState PushLabel := Lts.ofFun (· = pushInit) pushStep

/-! ## What a client relies on -/

/-- The task ends only when the channel has been closed or a send has failed. -/
def StopsForCause (s : PushState) : Prop :=
  s.task = .exited → s.cycleNotify.closed = true ∨ s.sendFailed = true

/-- An update that shows a completed cycle, its statistics and its variables. -/
def OfCycle (completed : List CompletedCycle) (subs : List String) (update : VariableUpdateData) :
    Prop :=
  ∃ c ∈ completed, update = variableUpdate subs (some c.stats) c.allVariables

/-- Every update that was sent shows a completed cycle. -/
def SnapshotsOnly (s : PushState) : Prop := ∀ p ∈ s.pushed, OfCycle s.completed p.1 p.2

/-- The runtime state shows a cycle: the engine has completed one, and is not between
the statistics and the variables of the next. -/
def ShowsCycle (s : PushState) : Prop := s.writer = .published ∨ s.writer = .cycling

/-- At most 64 notifications wait when the task receives, and it reads the runtime state
while that shows a cycle. -/
def InTime (s : PushState) : PushLabel → Prop
  | .recv => ¬ s.cycleNotify.Overtaken s.next
  | .read => ShowsCycle s
  | _ => True

instance : ∀ s a, Decidable (InTime s a)
  | s, .recv => inferInstanceAs (Decidable (¬ s.cycleNotify.Overtaken s.next))
  | s, .read => inferInstanceAs (Decidable (s.writer = .published ∨ s.writer = .cycling))
  | _, .cycle _ | _, .snapshot | _, .notify _ | _, .engineEnds | _, .close | _, .subscribe
  | _, .throttle _ | _, .lock _ | _, .send _ | _, .abort => inferInstanceAs (Decidable True)

/-- A task that has been overtaken takes the report for the end of the channel. -/
theorem overtaken_exits {s : PushState} (htask : s.task = .receiving)
    (h : s.cycleNotify.Overtaken s.next) :
    ∃ t, pushStep s .recv = some t ∧ t.task = .exited ∧
      t.cycleNotify = s.cycleNotify ∧ t.sendFailed = s.sendFailed := by
  refine ⟨{ s with task := .exited, next := s.cycleNotify.oldest }, ?_, rfl, rfl, rfl⟩
  unfold pushStep recvStep
  rw [htask, Broadcast.recv_lagged h]

/-- The channel keeps the notifications: had the task gone on, its next receive would
have given one. -/
theorem overtaken_could_go_on {s : PushState} (hcap : s.cycleNotify.capacity = 64)
    (h : s.cycleNotify.Overtaken s.next) :
    ∃ n, s.cycleNotify.recv s.cycleNotify.oldest = (.message (), n) := by
  obtain ⟨⟨⟩, ha⟩ := Broadcast.recv_oldest (by omega) h
  exact ⟨_, ha⟩

/-- With a subscription there is always something to send. -/
theorem readStep_sends {s : PushState} {subs : List String} (h : subs ≠ []) :
    readStep s subs =
      { s with task := .sending subs (variableUpdate subs s.cycleStats s.allVariables) } := by
  have htree : (variableUpdate subs s.cycleStats s.allVariables).watchTree.isEmpty = false := by
    rw [List.isEmpty_eq_false_iff, ← List.length_pos_iff]
    have hlen : 0 < subs.length := List.length_pos_iff.mpr h
    simpa [variableUpdate, buildWatchTree_length] using hlen
  unfold readStep
  dsimp only
  rw [htree, Bool.and_false]
  rfl

/-! ## Runs in time -/

/-- What holds between the steps. -/
structure Faithful (s : PushState) : Prop where
  stops : StopsForCause s
  snapshots : SnapshotsOnly s
  /-- The update the socket has not yet taken. -/
  sending : ∀ subs update, s.task = .sending subs update → OfCycle s.completed subs update
  cycled : ∀ c, s.writer = .cycled c → s.cycleStats = some c.stats ∧ c ∈ s.completed
  shown : ShowsCycle s →
    ∃ c ∈ s.completed, s.cycleStats = some c.stats ∧ s.allVariables = c.allVariables

theorem pushInit_faithful : Faithful pushInit where
  stops := by intro h; exact absurd h (by simp [pushInit])
  snapshots := by intro p hp; simp [pushInit] at hp
  sending := by intro _ _ h; simp [pushInit] at h
  cycled := by intro _ h; simp [pushInit] at h
  shown := by intro h; simp [ShowsCycle, pushInit] at h

theorem OfCycle.mono {completed : List CompletedCycle} {subs : List String}
    {update : VariableUpdateData} (c : CompletedCycle) (h : OfCycle completed subs update) :
    OfCycle (c :: completed) subs update := by
  obtain ⟨d, hd, he⟩ := h
  exact ⟨d, List.mem_cons_of_mem c hd, he⟩

/-- A cycle that is completed leaves what has been sent as it is. -/
theorem Faithful.cycle {s : PushState} (h : Faithful s) (c : CompletedCycle) :
    Faithful { s with cycleStats := some c.stats,
                      writer := .cycled c,
                      completed := c :: s.completed } where
  stops := h.stops
  snapshots := fun p hp => (h.snapshots p hp).mono c
  sending := fun subs update ht => (h.sending subs update ht).mono c
  cycled := by
    intro d hd
    obtain rfl : c = d := by simpa using hd
    exact ⟨rfl, List.mem_cons_self⟩
  shown := by intro hs; simp [ShowsCycle] at hs

/-- The snapshot makes the runtime state show the cycle. -/
theorem Faithful.snapshot {s : PushState} (h : Faithful s) {c : CompletedCycle}
    (hw : s.writer = .cycled c) :
    Faithful { s with allVariables := c.allVariables, writer := .published } where
  stops := h.stops
  snapshots := h.snapshots
  sending := h.sending
  cycled := by intro d hd; simp at hd
  shown := by
    intro _
    obtain ⟨hstats, hmem⟩ := h.cycled c hw
    exact ⟨c, hmem, hstats, rfl⟩

/-- A step of the runtime thread that publishes nothing. -/
theorem Faithful.writer {s : PushState} (h : Faithful s) {w : WriterPhase} {ch : Broadcast Unit}
    (hclosed : s.cycleNotify.closed = true → ch.closed = true) (hw : ∀ c, w ≠ .cycled c)
    (hshown : w = .published ∨ w = .cycling → ShowsCycle s) :
    Faithful { s with cycleNotify := ch, writer := w } where
  stops := fun ht => (h.stops ht).imp_left hclosed
  snapshots := h.snapshots
  sending := h.sending
  cycled := fun c hc => absurd hc (hw c)
  shown := fun hs => h.shown (hshown hs)

/-- A step of the task that neither ends it nor makes an update. -/
theorem Faithful.task {s : PushState} (h : Faithful s) {p : TaskPhase} {n : ℕ}
    (hexit : p = .exited → s.cycleNotify.closed = true ∨ s.sendFailed = true)
    (hsend : ∀ subs update, p = .sending subs update → OfCycle s.completed subs update) :
    Faithful { s with task := p, next := n } where
  stops := hexit
  snapshots := h.snapshots
  sending := hsend
  cycled := h.cycled
  shown := h.shown

theorem Faithful.recv {s t : PushState} (h : Faithful s) (hn : ¬ s.cycleNotify.Overtaken s.next)
    (hstep : recvStep s = some t) : Faithful t := by
  unfold recvStep at hstep
  split at hstep
  · obtain rfl := Option.some.inj hstep
    exact h.task (by simp) (by simp)
  · next hr => exact absurd (Broadcast.overtaken_of_recv hr) hn
  · next hr =>
    obtain rfl := Option.some.inj hstep
    exact h.task (fun _ => .inl (Broadcast.closed_of_recv hr)) (by simp)
  · simp at hstep

theorem Faithful.read {s : PushState} (h : Faithful s) (hshows : ShowsCycle s)
    (subs : List String) : Faithful (readStep s subs) := by
  obtain ⟨c, hc, hstats, hvars⟩ := h.shown hshows
  unfold readStep
  dsimp only
  split
  · exact h.task (n := s.next) (by simp) (by simp)
  · refine h.task (n := s.next) (by simp) ?_
    intro subs' update hu
    obtain ⟨rfl, rfl⟩ : subs = subs' ∧ _ = update := by simpa using hu
    exact ⟨c, hc, by rw [hstats, hvars]⟩

theorem Faithful.send {s : PushState} (h : Faithful s) {subs : List String}
    {update : VariableUpdateData} (ht : s.task = .sending subs update) :
    Faithful { s with task := .receiving, pushed := (subs, update) :: s.pushed } where
  stops := by intro he; simp at he
  snapshots := by
    intro p hp
    rcases List.mem_cons.mp hp with rfl | hp
    · exact h.sending _ _ ht
    · exact h.snapshots p hp
  sending := by intro _ _ he; simp at he
  cycled := h.cycled
  shown := h.shown

theorem Faithful.sendFails {s : PushState} (h : Faithful s) :
    Faithful { s with task := .exited, sendFailed := true } where
  stops := fun _ => .inr rfl
  snapshots := h.snapshots
  sending := by intro _ _ he; simp at he
  cycled := h.cycled
  shown := h.shown

/-- Every step in time keeps it. -/
theorem Faithful.step {s t : PushState} {a : PushLabel} (h : Faithful s) (hin : InTime s a)
    (hstep : pushStep s a = some t) : Faithful t := by
  cases a with
  | cycle c =>
    simp only [pushStep] at hstep
    split at hstep
    · obtain rfl := Option.some.inj hstep
      exact h.cycle c
    · obtain rfl := Option.some.inj hstep
      exact h.cycle c
    · simp at hstep
  | snapshot =>
    simp only [pushStep] at hstep
    split at hstep
    · next hw =>
      obtain rfl := Option.some.inj hstep
      exact h.snapshot hw
    · simp at hstep
  | notify others =>
    simp only [pushStep] at hstep
    split at hstep
    · next hw =>
      split at hstep <;> obtain rfl := Option.some.inj hstep
      · exact h.writer id (by simp) fun _ => .inl hw
      · have hkept : s.cycleNotify.closed = true → s.cycleNotify.closed = true := id
        exact h.writer hkept (by simp) fun _ => .inl hw
    · simp at hstep
  | engineEnds =>
    have hends : Faithful { s with allVariables := [], writer := .idle } :=
      { stops := h.stops
        snapshots := h.snapshots
        sending := h.sending
        cycled := by intro c hc; simp at hc
        shown := by intro hs; simp [ShowsCycle] at hs }
    simp only [pushStep] at hstep
    split at hstep
    · obtain rfl := Option.some.inj hstep
      exact hends
    · obtain rfl := Option.some.inj hstep
      exact hends
    · simp at hstep
  | close =>
    simp only [pushStep] at hstep
    split at hstep
    · next hw =>
      obtain rfl := Option.some.inj hstep
      exact h.writer (w := s.writer) (fun _ => rfl) (by simp [hw]) id
    · simp at hstep
  | subscribe =>
    simp only [pushStep] at hstep
    split at hstep
    · obtain rfl := Option.some.inj hstep
      exact h.task (by simp) (by simp)
    · simp at hstep
  | recv =>
    simp only [pushStep] at hstep
    split at hstep
    · exact h.recv hin hstep
    · simp at hstep
  | throttle tooSoon =>
    simp only [pushStep] at hstep
    split at hstep
    · obtain rfl := Option.some.inj hstep
      cases tooSoon <;> exact h.task (n := s.next) (by simp) (by simp)
    · simp at hstep
  | lock subs =>
    simp only [pushStep] at hstep
    split at hstep
    · obtain rfl := Option.some.inj hstep
      cases hs : subs.isEmpty <;> exact h.task (n := s.next) (by simp) (by simp)
    · simp at hstep
  | read =>
    simp only [pushStep] at hstep
    split at hstep
    · obtain rfl := Option.some.inj hstep
      exact h.read hin _
    · simp at hstep
  | send ok =>
    simp only [pushStep] at hstep
    split at hstep
    · next ht =>
      split at hstep <;> obtain rfl := Option.some.inj hstep
      · exact h.send ht
      · exact h.sendFails
    · simp at hstep
  | abort =>
    obtain rfl := Option.some.inj hstep
    exact h.task (n := s.next) (by simp) (by simp)

/-- **In every run in which the task is not overtaken and reads the runtime state while
that shows a cycle, it ends only for a cause and sends only snapshots of completed
cycles.** -/
theorem push_faithful {s : PushState} (h : (pushLts.restrict InTime).Reachable s) :
    StopsForCause s ∧ SnapshotsOnly s := by
  have hf : Faithful s := by
    apply Lts.Reachable.inv_restrict _ _ h
    · intro s hs
      obtain rfl : s = pushInit := hs
      exact pushInit_faithful
    · intro s a t hs hin hstep
      exact hs.step hin hstep
  exact ⟨hf.stops, hf.snapshots⟩

/-! ## Runs that are not -/

def levelVariable (value : String) : VariableValue :=
  ⟨"Main.level", value, "INT", false, false, false⟩

def firstCycle : CompletedCycle := ⟨{ cycleCount := 1 }, [levelVariable "10"]⟩

def secondCycle : CompletedCycle := ⟨{ cycleCount := 2 }, [levelVariable "20"]⟩

/-- One cycle and its notification. -/
def publish (c : CompletedCycle) : List PushLabel := [.cycle c, .snapshot, .notify 0]

/-- A client that has subscribed, and one cycle in which an update is sent. -/
def promptClient : List PushLabel :=
  .subscribe :: publish firstCycle ++ [.recv, .throttle false, .lock ["Main.level"]]

/-- 65 cycles while the task does not run. -/
def slowClient : List PushLabel := .subscribe :: (List.replicate 65 (publish firstCycle)).flatten

/-- The state after a list of steps. -/
def afterSteps (labels : List PushLabel) : PushState :=
  (Lts.exec pushStep labels pushInit).getD pushInit

theorem reachable_afterSteps {labels : List PushLabel}
    (h : (Lts.exec pushStep labels pushInit).isSome = true) :
    pushLts.Reachable (afterSteps labels) := by
  obtain ⟨s, hs⟩ := Option.isSome_iff_exists.mp h
  have hafter : afterSteps labels = s := by
    unfold afterSteps
    rw [hs, Option.getD_some]
  rw [hafter]
  exact Lts.Reachable.exec (.init rfl) hs

/-- Whether the task waits for a notification. -/
def TaskPhase.isReceiving : TaskPhase → Bool
  | .receiving => true
  | _ => false

theorem TaskPhase.of_isReceiving {p : TaskPhase} (h : p.isReceiving = true) : p = .receiving := by
  cases p <;> first | rfl | cases h

theorem send_accepted (s : PushState) (subs : List String) (update : VariableUpdateData) :
    pushStep { s with task := .sending subs update } (.send true) =
      some { s with task := .receiving, pushed := (subs, update) :: s.pushed } := rfl

/-- The update that is read after the statistics of the second cycle have been
written. -/
def mixedUpdate : VariableUpdateData :=
  variableUpdate ["Main.level"] (some secondCycle.stats) firstCycle.allVariables

theorem mixedUpdate_not_ofCycle :
    ¬ OfCycle [secondCycle, firstCycle] ["Main.level"] mixedUpdate := by
  rintro ⟨c, hc, he⟩
  rcases List.mem_cons.mp hc with rfl | hc
  · have hvalues := congrArg VariableUpdateData.variableValues he
    revert hvalues
    decide
  · obtain rfl : c = firstCycle := by simpa using hc
    have hcycle := congrArg VariableUpdateData.cycle he
    revert hcycle
    decide

/-- The task of a client that is 65 notifications behind ends, though the channel is
open and no send has failed; and an update can have the number of one cycle and the
variables of another. -/
theorem slow_client_dropped :
    (∃ s, pushLts.Reachable s ∧ ¬ StopsForCause s) ∧
      ∃ s, pushLts.Reachable s ∧ ¬ SnapshotsOnly s := by
  constructor
  · have hr : pushLts.Reachable (afterSteps slowClient) := reachable_afterSteps (by decide +kernel)
    have htask : (afterSteps slowClient).task = .receiving :=
      TaskPhase.of_isReceiving (by decide +kernel)
    obtain ⟨t, hstep, hexit, hch, hsend⟩ := overtaken_exits htask (by decide +kernel)
    refine ⟨t, .step hr hstep, ?_⟩
    intro hs
    rcases hs hexit with h | h
    · rw [hch] at h
      revert h
      decide +kernel
    · rw [hsend] at h
      revert h
      decide +kernel
  · have hr : pushLts.Reachable (afterSteps (promptClient ++ [.cycle secondCycle])) :=
      reachable_afterSteps rfl
    generalize hs : afterSteps (promptClient ++ [.cycle secondCycle]) = s at hr
    have hread : pushStep s .read = some (readStep s ["Main.level"]) := by rw [← hs]; rfl
    rw [readStep_sends (by simp)] at hread
    have hsent := (hr.step hread).step (send_accepted s _ _)
    refine ⟨_, hsent, fun h => ?_⟩
    subst hs
    exact mixedUpdate_not_ofCycle (h (["Main.level"], mixedUpdate) List.mem_cons_self)

/-- A client that is not behind has been sent the first cycle. -/
theorem prompt_client_served : ∃ s, (pushLts.restrict InTime).Reachable s ∧
    s.pushed.map (·.2.cycle) = [1] ∧ StopsForCause s ∧ SnapshotsOnly s := by
  have hr : (pushLts.restrict InTime).Reachable (afterSteps promptClient) :=
    Lts.Reachable.exec_guarded promptClient rfl rfl
  generalize hs : afterSteps promptClient = s at hr
  have hread : pushStep s .read = some (readStep s ["Main.level"]) := by rw [← hs]; rfl
  have hshows : InTime s .read := by rw [← hs]; exact .inr rfl
  rw [readStep_sends (by simp)] at hread
  have hin (u : PushState) : InTime u (.send true) := trivial
  have hsent := (hr.step ⟨hshows, hread⟩).step ⟨hin _, send_accepted s _ _⟩
  refine ⟨_, hsent, ?_, push_faithful hsent⟩
  subst hs
  rfl

end RustPlc.Target
