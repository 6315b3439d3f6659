import RustPlc.Core.Lts
import RustPlc.L6Target.Breakpoints

/-!
# An attach session

The handler of a debugger client that is attached to the running engine
(crates/st-target-agent/src/dap_attach_handler.rs). Two threads put what they read into
one channel: the client's messages and the end of its connection, and the engine's
events and the end of its channel. The handler takes them one by one; while it handles a
request that only the engine can answer it takes from the same channel until the answer
comes or two seconds have passed.

The steps of the client, the engine and the handler come in any order. An answer of the
engine remembers the request it was produced for; no step reads that.

Left out: what the answers contain, and how it is shown.

Results:
* `attach_served`: when no message and no disconnection comes while the handler waits,
  and no late answer is under way when it starts to wait, every request is answered once,
  with its own answer, and a disconnection ends the session.
-/
namespace RustPlc.Target

open RustPlc.Core RustPlc.Ir RustPlc.Engine

/-! ## Messages -/

/-- mirrors crates/st-engine/src/debug.rs:465-470 -/
inductive DebugScopeKind where
  | locals | globals
  deriving DecidableEq, Repr

/-- What only the engine can answer. -/
inductive QueryKind where
  | stackTrace | variables | evaluate
  deriving DecidableEq, Repr

/-- A request of the client, by its command. -/
inductive DapCommand where
  | initializeDap
  | attach (launch : Bool) (stopOnEntry : Option Bool) (localRoot : Option String)
  | configurationDone
  | loadedSources
  | setExceptionBreakpoints
  | threads
  | setBreakpoints (path : Option String) (breakpoints : Option (List (Option Nat)))
  | continue
  | next
  | stepIn
  | stepOut
  | pause
  | stackTrace
  | scopes
  | variables (variablesReference : Option Int)
  | evaluate (expression : Option String)
  | disconnect
  | other (command : String)
  deriving DecidableEq, Repr

def DapCommand.text : DapCommand → String
  | .initializeDap => "initialize"
  | .attach launch _ _ => if launch then "launch" else "attach"
  | .configurationDone => "configurationDone"
  | .loadedSources => "loadedSources"
  | .setExceptionBreakpoints => "setExceptionBreakpoints"
  | .threads => "threads"
  | .setBreakpoints _ _ => "setBreakpoints"
  | .continue => "continue"
  | .next => "next"
  | .stepIn => "stepIn"
  | .stepOut => "stepOut"
  | .pause => "pause"
  | .stackTrace => "stackTrace"
  | .scopes => "scopes"
  | .variables _ => "variables"
  | .evaluate _ => "evaluate"
  | .disconnect => "disconnect"
  | .other command => command

structure DapRequest where
  seq : Option Int
  command : DapCommand
  deriving DecidableEq, Repr

/-- `msg["seq"].as_i64().unwrap_or(0)` -/
def DapRequest.reqSeq (r : DapRequest) : Int := r.seq.getD 0

/-- mirrors crates/st-engine/src/debug.rs:472-503; a query has the number of the request it
was sent for. -/
inductive DebugCommand where
  | pause
  | continue
  | stepIn
  | stepOver
  | stepOut
  | setBreakpoints (command : SetBreakpointsCommand)
  | query (kind : QueryKind) (scope : DebugScopeKind) (expression : String) (origin : ℕ)
  | disconnect

/-- mirrors crates/st-engine/src/debug.rs:506-530; an answer has the number of the request
it was produced for. -/
inductive DebugResponse where
  | stopped (reason : PauseReason)
  | resumed
  | detached
  | breakpointsSet (verified : List Bool)
  | answer (kind : QueryKind) (origin : ℕ)

/-- mirrors crates/st-target-agent/src/dap_attach_handler.rs:21-26 -/
inductive Input where
  | dapMessage (r : DapRequest)
  | dapDisconnected
  | engineEvent (e : DebugResponse)
  | engineDisconnected

/-- The body of a response: a fixed value, the breakpoints, the engine's answer, or what
is said without one. -/
inductive ResponseBody where
  | fixed
  | breakpoints (bps : List Breakpoint)
  | children (variablesReference : Int)
  | answer (origin : ℕ)
  | noAnswer

inductive Outgoing where
  | response (requestSeq : Int) (command : String) (body : ResponseBody)
  | event (seq : Int) (name : String)

/-! ## The session -/

/-- Where the handler is; a request has its number among those taken from the channel. -/
inductive HandlerPhase where
  | serving
  | waiting (r : DapRequest) (number : ℕ) (kind : QueryKind)
  | ended

/-- `taken`, `gone`, `detached` and `used` are read by no step but for the numbers of the
requests: the requests taken from the channel, whether a disconnection has been taken,
whether the engine has been told to detach at the end, and for each answer that was used
the request it was used for and that it was produced for. -/
structure AttachSession where
  files : AttachSources
  inbox : List Input
  commands : List DebugCommand
  phase : HandlerPhase
  isPaused : Bool
  stopOnEntry : Bool
  seqCounter : Int
  sent : List Outgoing
  taken : List DapRequest
  gone : Bool
  detached : Bool
  used : List (ℕ × ℕ)

namespace AttachSession

/-- `send_dap_response` -/
def respond (s : AttachSession) (r : DapRequest) (body : ResponseBody) : AttachSession :=
  { s with sent := s.sent ++ [.response r.reqSeq r.command.text body] }

/-- `send_dap_event` -/
def event (s : AttachSession) (name : String) : AttachSession :=
  { s with seqCounter := s.seqCounter + 1, sent := s.sent ++ [.event (s.seqCounter + 1) name] }

/-- `cmd_tx.send(..)` -/
def command (s : AttachSession) (c : DebugCommand) : AttachSession :=
  { s with commands := s.commands ++ [c] }

/-- `trim_end_matches(c)` -/
def trimEnd (c : Char) (text : List Char) : List Char := (text.reverse.dropWhile (· == c)).reverse

/-- mirrors crates/st-target-agent/src/dap_attach_handler.rs:49-54 -/
def setLocalRoot (s : AttachSession) (localRoot : String) : AttachSession :=
  let trimmed := String.ofList (trimEnd '\\' (trimEnd '/' localRoot.toList))
  let pathMapper := { s.files.pathMapper with localRoot := some trimmed }
  { s with files := { s.files with pathMapper := pathMapper } }

/-- The arguments of an attach request.
mirrors crates/st-target-agent/src/dap_attach_handler.rs:370-378 -/
def configure (s : AttachSession) (stopOnEntry : Option Bool) (localRoot : Option String) :
    AttachSession :=
  let s := { s with stopOnEntry := stopOnEntry.getD false }
  match localRoot with
  | some root => s.setLocalRoot root
  | none => s

/-- A command for a paused engine, which is then taken to run. -/
def resumeWith (s : AttachSession) (c : DebugCommand) : AttachSession :=
  if s.isPaused then { s.command c with isPaused := false } else s

/-- Sends a query and waits, where the engine is taken to be paused. -/
def query (s : AttachSession) (r : DapRequest) (number : ℕ) (kind : QueryKind)
    (scope : DebugScopeKind) (expression : String) : AttachSession :=
  if s.isPaused then
    { s.command (.query kind scope expression number) with phase := .waiting r number kind }
  else s.respond r .fixed

/-- The loop is left. -/
def finish (s : AttachSession) : AttachSession :=
  { s.command .disconnect with phase := .ended, detached := true }

/-- mirrors crates/st-target-agent/src/dap_attach_handler.rs:342-652 -/
def handleDapRequest (s : AttachSession) (r : DapRequest) (number : ℕ) : AttachSession :=
  match r.command with
  | .initializeDap => s.respond r .fixed
  | .attach _ stopOnEntry localRoot =>
    ((s.configure stopOnEntry localRoot).respond r .fixed).event "initialized"
  | .configurationDone =>
    let s := s.respond r .fixed
    if s.stopOnEntry then s.command .pause else s
  | .loadedSources => s.respond r .fixed
  | .setExceptionBreakpoints => s.respond r .fixed
  | .threads => s.respond r .fixed
  | .setBreakpoints path breakpoints =>
    let answer := s.files.handleSetBreakpoints (path.getD "") breakpoints
    (s.command (.setBreakpoints answer.1)).respond r (.breakpoints answer.2)
  | .continue => (s.respond r .fixed).resumeWith .continue
  | .next => (s.respond r .fixed).resumeWith .stepOver
  | .stepIn => (s.respond r .fixed).resumeWith .stepIn
  | .stepOut => (s.respond r .fixed).resumeWith .stepOut
  | .pause => (s.command .pause).respond r .fixed
  | .stackTrace => s.query r number .stackTrace .locals ""
  | .scopes => s.respond r .fixed
  | .variables ref =>
    if s.isPaused ∧ 2000 ≤ ref.getD 0 then s.respond r (.children (ref.getD 0))
    else s.query r number .variables (if ref.getD 0 = 1001 then .globals else .locals) ""
  | .evaluate expression => s.query r number .evaluate .locals (expression.getD "")
  | .disconnect => (s.command .disconnect).respond r .fixed
  | .other _ => s.respond r .fixed

/-- mirrors crates/st-target-agent/src/dap_attach_handler.rs:660-712 -/
def handleEngineEvent (s : AttachSession) : DebugResponse → AttachSession
  | .stopped _ => { s with isPaused := true }.event "stopped"
  | .resumed => { s with isPaused := false }
  | .detached => { s with isPaused := false }.event "terminated"
  | .breakpointsSet _ => s
  | .answer _ _ => s

/-- The main loop takes an input.
mirrors crates/st-target-agent/src/dap_attach_handler.rs:292-334 -/
def takeInput (s : AttachSession) : Input → AttachSession
  | .dapMessage r =>
    let t := { s with taken := s.taken ++ [r] }.handleDapRequest r s.taken.length
    if r.command = .disconnect then t.finish else t
  | .engineEvent e => s.handleEngineEvent e
  | .dapDisconnected => { s with gone := true }.finish
  | .engineDisconnected => ({ s with gone := true }.event "terminated").finish

/-- What is answered without an answer of the engine, and back to the main loop. -/
def giveUp (s : AttachSession) (r : DapRequest) : AttachSession :=
  { s.respond r .noAnswer with phase := .serving }

/-- The wait for the engine takes an input. The comment there says that messages are
processed on the next iteration of the main loop, but they have left the channel.
mirrors crates/st-target-agent/src/dap_attach_handler.rs:777-814 -/
def takeWaiting (s : AttachSession) (r : DapRequest) (number : ℕ) (kind : QueryKind) :
    Input → AttachSession
  | .engineEvent (.answer k origin) =>
    if k = kind then
      { s.respond r (.answer origin) with phase := .serving, used := (number, origin) :: s.used }
    else s.handleEngineEvent (.answer k origin)
  | .engineEvent e => s.handleEngineEvent e
  | .dapMessage m => { s with taken := s.taken ++ [m] }
  | .dapDisconnected => { s with gone := true }.giveUp r
  | .engineDisconnected => { s with gone := true }.giveUp r

end AttachSession

inductive SessionLabel where
  /-- The reader thread reads a message, or the end of the stream. -/
  | message (r : DapRequest)
  | clientGone
  /-- The engine takes a command; a query is answered or dropped. -/
  | serve (answers : Bool)
  /-- The engine sends an event of its own. -/
  | engineEvent (e : DebugResponse)
  | engineGone
  /-- The handler takes an input, or its wait times out. -/
  | take
  | timeout

namespace AttachSession

/-- The answer to a command that the engine has taken. -/
def answerTo : DebugCommand → List Input
  | .query kind _ _ origin => [.engineEvent (.answer kind origin)]
  | _ => []

def step (s : AttachSession) : SessionLabel → Option AttachSession
  | .message r => some { s with inbox := s.inbox ++ [.dapMessage r] }
  | .clientGone => some { s with inbox := s.inbox ++ [.dapDisconnected] }
  | .serve answers =>
    match s.commands with
    | [] => none
    | c :: commands =>
      some { s with commands := commands, inbox := s.inbox ++ (if answers then answerTo c else []) }
  | .engineEvent e =>
    match e with
    | .answer _ _ => none
    | _ => some { s with inbox := s.inbox ++ [.engineEvent e] }
  | .engineGone => some { s with inbox := s.inbox ++ [.engineDisconnected] }
  | .take =>
    match s.inbox, s.phase with
    | i :: inbox, .serving => some ({ s with inbox := inbox }.takeInput i)
    | i :: inbox, .waiting r number kind =>
      some ({ s with inbox := inbox }.takeWaiting r number kind i)
    | _, _ => none
  | .timeout =>
    match s.phase with
    | .waiting r _ _ => some (s.giveUp r)
    | _ => none

end AttachSession

/-- A session that has just attached. -/
def AttachSession.init (files : AttachSources) : AttachSession where
  files := files
  inbox := []
  commands := []
  phase := .serving
  isPaused := false
  stopOnEntry := false
  seqCounter := 1
  sent := []
  taken := []
  gone := false
  detached := false
  used := []

def attachLts (files : AttachSources) : Lts AttachSession SessionLabel :=
  Lts.ofFun (· = AttachSession.init files) AttachSession.step

/-! ## What a client relies on -/

namespace AttachSession

/-- The sequence numbers of the requests that have been answered. -/
def responses (s : AttachSession) : List Int :=
  s.sent.filterMap fun
    | .response requestSeq _ _ => some requestSeq
    | .event _ _ => none

/-- The request that waits for the engine. -/
def pending (s : AttachSession) : List DapRequest :=
  match s.phase with
  | .waiting r _ _ => [r]
  | _ => []

/-- Every request that has been taken is answered once, but for the one that waits; a
disconnection that has been taken has ended the session; the engine has been told to
detach at the end; and every answer was used for the request it was produced for. -/
structure Served (s : AttachSession) : Prop where
  answered : s.responses ++ s.pending.map (·.reqSeq) = s.taken.map (·.reqSeq)
  ends : s.gone = true → s.phase = .ended
  detaches : s.phase = .ended → s.detached = true
  own : ∀ p ∈ s.used, p.1 = p.2

/-! ## Answers under way -/

def commandOrigin (kind : QueryKind) : DebugCommand → Option ℕ
  | .query k _ _ origin => if k = kind then some origin else none
  | _ => none

def inputOrigin (kind : QueryKind) : Input → Option ℕ
  | .engineEvent (.answer k origin) => if k = kind then some origin else none
  | _ => none

/-- The requests for which an answer of a kind is still to come, or waits in the
channel. -/
def underWay (s : AttachSession) (kind : QueryKind) : List ℕ :=
  s.commands.filterMap (commandOrigin kind) ++ s.inbox.filterMap (inputOrigin kind)

/-- The kind of answer for which a request will wait. -/
def asks (s : AttachSession) (r : DapRequest) : Option QueryKind :=
  if s.isPaused then
    match r.command with
    | .stackTrace => some .stackTrace
    | .variables ref => if 2000 ≤ ref.getD 0 then none else some .variables
    | .evaluate _ => some .evaluate
    | _ => none
  else none

/-- While the handler waits, no message and no disconnection comes; and when it takes a
request for which it will wait, no answer of that kind is under way. -/
def Undisturbed (s : AttachSession) : SessionLabel → Prop
  | .take =>
    match s.phase, s.inbox with
    | .waiting _ _ _, .dapMessage _ :: _ => False
    | .waiting _ _ _, .dapDisconnected :: _ => False
    | .waiting _ _ _, .engineDisconnected :: _ => False
    | .serving, .dapMessage r :: _ =>
      match s.asks r with
      | some kind => s.underWay kind = []
      | none => True
    | _, _ => True
  | _ => True

instance (s : AttachSession) (a : SessionLabel) : Decidable (s.Undisturbed a) := by
  unfold Undisturbed
  split
  · split
    · infer_instance
    · infer_instance
    · infer_instance
    · split <;> infer_instance
    · infer_instance
  · infer_instance

/-! ## What the pieces of the handler do -/

/-- Nothing that `Served` speaks of has changed, and no query has been sent. -/
structure Quiet (s t : AttachSession) : Prop where
  phase : t.phase = s.phase
  responses : t.responses = s.responses
  taken : t.taken = s.taken
  gone : t.gone = s.gone
  detached : t.detached = s.detached
  used : t.used = s.used
  inbox : t.inbox = s.inbox
  queries : ∀ kind, t.commands.filterMap (commandOrigin kind) =
    s.commands.filterMap (commandOrigin kind)

theorem Quiet.refl (s : AttachSession) : Quiet s s :=
  ⟨rfl, rfl, rfl, rfl, rfl, rfl, rfl, fun _ => rfl⟩

theorem Quiet.trans {s t u : AttachSession} (h1 : Quiet s t) (h2 : Quiet t u) : Quiet s u where
  phase := h2.phase.trans h1.phase
  responses := h2.responses.trans h1.responses
  taken := h2.taken.trans h1.taken
  gone := h2.gone.trans h1.gone
  detached := h2.detached.trans h1.detached
  used := h2.used.trans h1.used
  inbox := h2.inbox.trans h1.inbox
  queries kind := (h2.queries kind).trans (h1.queries kind)

theorem event_quiet (s : AttachSession) (name : String) : Quiet s (s.event name) where
  phase := rfl
  responses := by simp [event, AttachSession.responses]
  taken := rfl
  gone := rfl
  detached := rfl
  used := rfl
  inbox := rfl
  queries _ := rfl

theorem command_quiet (s : AttachSession) {c : DebugCommand}
    (h : ∀ kind, commandOrigin kind c = none) : Quiet s (s.command c) where
  phase := rfl
  responses := rfl
  taken := rfl
  gone := rfl
  detached := rfl
  used := rfl
  inbox := rfl
  queries kind := by simp [command, h kind]

theorem paused_quiet (s : AttachSession) (paused : Bool) : Quiet s { s with isPaused := paused } :=
  ⟨rfl, rfl, rfl, rfl, rfl, rfl, rfl, fun _ => rfl⟩

theorem configure_quiet (s : AttachSession) (stopOnEntry : Option Bool)
    (localRoot : Option String) : Quiet s (s.configure stopOnEntry localRoot) := by
  unfold configure
  cases localRoot <;> exact ⟨rfl, rfl, rfl, rfl, rfl, rfl, rfl, fun _ => rfl⟩

theorem resumeWith_quiet (s : AttachSession) {c : DebugCommand}
    (h : ∀ kind, commandOrigin kind c = none) : Quiet s (s.resumeWith c) := by
  unfold resumeWith
  split
  · exact (s.command_quiet h).trans (paused_quiet _ false)
  · exact .refl s

theorem handleEngineEvent_quiet (s : AttachSession) (e : DebugResponse) :
    Quiet s (s.handleEngineEvent e) := by
  cases e with
  | stopped reason => exact (s.paused_quiet true).trans (event_quiet _ "stopped")
  | resumed => exact s.paused_quiet false
  | detached => exact (s.paused_quiet false).trans (event_quiet _ "terminated")
  | breakpointsSet verified => exact .refl s
  | answer kind origin => exact .refl s

/-- A request has been answered and nothing else has changed. -/
def Answered (s : AttachSession) (r : DapRequest) (t : AttachSession) : Prop :=
  ∃ u, Quiet s u ∧ ∃ body, Quiet (u.respond r body) t

theorem answered_respond (s : AttachSession) (r : DapRequest) (body : ResponseBody) :
    Answered s r (s.respond r body) := ⟨s, .refl s, body, .refl _⟩

theorem Answered.quiet {s t u : AttachSession} {r : DapRequest} (h : Answered s r t)
    (hq : Quiet t u) : Answered s r u := by
  obtain ⟨v, hv, body, ht⟩ := h
  exact ⟨v, hv, body, ht.trans hq⟩

theorem Quiet.answered {s t u : AttachSession} {r : DapRequest} (hq : Quiet s t)
    (h : Answered t r u) : Answered s r u := by
  obtain ⟨v, hv, body, hu⟩ := h
  exact ⟨v, hq.trans hv, body, hu⟩

/-- The handler waits for the engine's answer to a request. -/
def Waits (s : AttachSession) (r : DapRequest) (number : ℕ) (t : AttachSession) : Prop :=
  ∃ kind scope expression, s.asks r = some kind ∧
    t = { s.command (.query kind scope expression number) with phase := .waiting r number kind }

theorem query_cases (s : AttachSession) (r : DapRequest) (number : ℕ) (kind : QueryKind)
    (scope : DebugScopeKind) (expression : String)
    (hasks : s.isPaused = true → s.asks r = some kind) :
    Answered s r (s.query r number kind scope expression) ∨
      Waits s r number (s.query r number kind scope expression) := by
  unfold query
  split
  · next hpaused => exact .inr ⟨kind, scope, expression, hasks hpaused, rfl⟩
  · exact .inl (s.answered_respond r _)

/-- What a request leads to: an answer, or a wait. -/
theorem handleDapRequest_cases (s : AttachSession) (r : DapRequest) (number : ℕ) :
    Answered s r (s.handleDapRequest r number) ∨
      Waits s r number (s.handleDapRequest r number) := by
  unfold handleDapRequest
  split
  · exact .inl (s.answered_respond r _)
  · exact .inl (((configure_quiet ..).answered (answered_respond _ r _)).quiet (event_quiet _ _))
  · left
    dsimp only
    split
    · exact (s.answered_respond r _).quiet (command_quiet _ fun _ => rfl)
    · exact s.answered_respond r _
  · exact .inl (s.answered_respond r _)
  · exact .inl (s.answered_respond r _)
  · exact .inl (s.answered_respond r _)
  · exact .inl ((s.command_quiet fun _ => rfl).answered (answered_respond _ r _))
  · exact .inl ((s.answered_respond r _).quiet (resumeWith_quiet _ fun _ => rfl))
  · exact .inl ((s.answered_respond r _).quiet (resumeWith_quiet _ fun _ => rfl))
  · exact .inl ((s.answered_respond r _).quiet (resumeWith_quiet _ fun _ => rfl))
  · exact .inl ((s.answered_respond r _).quiet (resumeWith_quiet _ fun _ => rfl))
  · exact .inl ((s.command_quiet fun _ => rfl).answered (answered_respond _ r _))
  · next hcommand => exact query_cases _ _ _ _ _ _ fun hpaused => by simp [asks, hpaused, hcommand]
  · exact .inl (s.answered_respond r _)
  · next ref hcommand =>
    split
    · exact .inl (s.answered_respond r _)
    · next hsmall =>
      refine query_cases _ _ _ _ _ _ fun hpaused => ?_
      have hlt : ¬ 2000 ≤ ref.getD 0 := fun h => hsmall ⟨hpaused, h⟩
      simp [asks, hpaused, hcommand, hlt]
  · next hcommand => exact query_cases _ _ _ _ _ _ fun hpaused => by simp [asks, hpaused, hcommand]
  · exact .inl ((s.command_quiet fun _ => rfl).answered (answered_respond _ r _))
  · exact .inl (s.answered_respond r _)

/-! ## Runs without disturbance -/

/-- What holds between the steps: besides, an answer that is under way while the handler
waits for its kind is that to the request it waits for. -/
structure Sound (s : AttachSession) : Prop extends Served s where
  waitingOwn : ∀ r number kind, s.phase = .waiting r number kind →
    ∀ origin ∈ s.underWay kind, origin = number

theorem init_sound (files : AttachSources) : Sound (init files) where
  answered := rfl
  ends := by simp [init]
  detaches := by simp [init]
  own := by simp [init]
  waitingOwn := by simp [init]

theorem Quiet.underWay {s t : AttachSession} (h : Quiet s t) (kind : QueryKind) :
    t.underWay kind = s.underWay kind := by
  rw [AttachSession.underWay, h.queries kind, h.inbox]
  rfl

theorem Quiet.pending {s t : AttachSession} (h : Quiet s t) : t.pending = s.pending := by
  rw [AttachSession.pending, h.phase]
  rfl

namespace Sound

variable {s t : AttachSession}

theorem quiet (h : Sound s) (hq : Quiet s t) : Sound t where
  answered := by rw [hq.responses, hq.pending, hq.taken, h.answered]
  ends := by
    rw [hq.gone, hq.phase]
    exact h.ends
  detaches := by
    rw [hq.phase, hq.detached]
    exact h.detaches
  own := by
    rw [hq.used]
    exact h.own
  waitingOwn := by
    intro r number kind hphase
    rw [hq.underWay]
    exact h.waitingOwn r number kind (hq.phase.symm.trans hphase)

/-- The channels change; no answer comes to be under way. -/
theorem channels (h : Sound s) {inbox : List Input} (commands : List DebugCommand)
    (hsub : ∀ kind,
      { s with inbox := inbox, commands := commands }.underWay kind ⊆ s.underWay kind) :
    Sound { s with inbox := inbox, commands := commands } where
  answered := h.answered
  ends := h.ends
  detaches := h.detaches
  own := h.own
  waitingOwn r number kind hphase origin ho :=
    h.waitingOwn r number kind hphase origin (hsub kind ho)

/-- An input that is no answer arrives. -/
theorem arrive (h : Sound s) {i : Input} (hi : ∀ kind, inputOrigin kind i = none) :
    Sound { s with inbox := s.inbox ++ [i] } := by
  refine h.channels s.commands fun kind => ?_
  simp [AttachSession.underWay, hi kind]

/-- The engine takes a command: its answer moves from one channel to the other, or is
never produced. -/
theorem serve (h : Sound s) {c : DebugCommand} {commands : List DebugCommand}
    (hc : s.commands = c :: commands) (answers : Bool) :
    Sound { s with commands := commands,
                   inbox := s.inbox ++ (if answers then answerTo c else []) } := by
  refine h.channels _ fun kind origin ho => ?_
  have hanswer : (answerTo c).filterMap (inputOrigin kind) =
      [c].filterMap (commandOrigin kind) := by
    cases c <;> rfl
  have hmem : origin ∈ (c :: commands).filterMap (commandOrigin kind) ++
      s.inbox.filterMap (inputOrigin kind) := by
    rw [← List.singleton_append, List.filterMap_append, ← hanswer]
    cases answers
    · simp only [AttachSession.underWay, Bool.false_eq_true, if_false, List.append_nil,
        List.mem_append] at ho ⊢
      rcases ho with ho | ho
      · exact .inl (.inr ho)
      · exact .inr ho
    · simp only [AttachSession.underWay, if_true, List.filterMap_append, List.mem_append] at ho ⊢
      rcases ho with ho | ho | ho
      · exact .inl (.inr ho)
      · exact .inr ho
      · exact .inl (.inl ho)
  rw [← hc] at hmem
  exact hmem

/-- The head of the channel is taken. -/
theorem underWay_tail {i : Input} {inbox : List Input} (hi : s.inbox = i :: inbox)
    (kind : QueryKind) : { s with inbox := inbox }.underWay kind ⊆ s.underWay kind := by
  intro origin ho
  simp only [AttachSession.underWay, List.mem_append] at ho ⊢
  rw [hi, List.filterMap_cons]
  rcases ho with ho | ho
  · exact .inl ho
  · right
    cases hk : inputOrigin kind i with
    | none => exact ho
    | some o => exact List.mem_cons_of_mem o ho

theorem tail (h : Sound s) {i : Input} {inbox : List Input} (hi : s.inbox = i :: inbox) :
    Sound { s with inbox := inbox } :=
  h.channels s.commands (underWay_tail hi)

/-- The loop is left, with or without a disconnection. -/
theorem finish (h : Sound s) (hpending : s.pending = []) (gone : Bool) :
    Sound { s with gone := gone }.finish where
  answered := by
    have := h.answered
    rw [hpending] at this
    exact this
  ends _ := rfl
  detaches _ := rfl
  own := h.own
  waitingOwn _ _ _ hphase := by cases hphase

theorem responses_respond (s : AttachSession) (r : DapRequest) (body : ResponseBody) :
    (s.respond r body).responses = s.responses ++ [r.reqSeq] := by
  simp [respond, AttachSession.responses]

/-- A request that is taken and answered at once. -/
theorem answer (h : Sound s) (hserving : s.phase = .serving) {r : DapRequest}
    (ha : Answered { s with taken := s.taken ++ [r] } r t) : Sound t := by
  obtain ⟨u, hu, body, ht⟩ := ha
  have hpending : s.pending = [] := by simp [AttachSession.pending, hserving]
  have hphase : u.phase = .serving := hu.phase.trans hserving
  have hrespond : Sound (u.respond r body) := by
    refine ⟨⟨?_, ?_, ?_, ?_⟩, ?_⟩
    · have hp : (u.respond r body).pending = [] := by
        simp [AttachSession.pending, respond, hphase]
      have hanswered := h.answered
      rw [hpending, List.map_nil, List.append_nil] at hanswered
      rw [responses_respond, hp, hu.responses]
      change s.responses ++ [r.reqSeq] ++ [] = u.taken.map (·.reqSeq)
      rw [hu.taken, hanswered]
      simp
    · intro hgone
      have hs : s.phase = .ended := h.ends (hu.gone.symm.trans hgone)
      rw [hserving] at hs
      cases hs
    · intro hended
      exact absurd (hphase.symm.trans hended) (by simp)
    · intro p hp
      refine h.own p ?_
      have hused := hu.used
      change p ∈ u.used at hp
      rw [hused] at hp
      exact hp
    · intro r' number kind hwaiting
      exact absurd (hphase.symm.trans hwaiting) (by simp)
  exact hrespond.quiet ht

/-- A request that is taken and for which the handler waits. -/
theorem wait (h : Sound s) (hserving : s.phase = .serving) {r : DapRequest}
    (hnone : ∀ kind, s.asks r = some kind → s.underWay kind = [])
    (hw : Waits { s with taken := s.taken ++ [r] } r s.taken.length t) : Sound t := by
  obtain ⟨kind, scope, expression, hasks, rfl⟩ := hw
  have hpending : s.pending = [] := by simp [AttachSession.pending, hserving]
  refine ⟨⟨?_, ?_, ?_, h.own⟩, ?_⟩
  · have hanswered := h.answered
    rw [hpending, List.map_nil, List.append_nil] at hanswered
    change s.responses ++ [r.reqSeq] = (s.taken ++ [r]).map (·.reqSeq)
    rw [hanswered]
    simp
  · intro hgone
    have hs : s.phase = .ended := h.ends hgone
    rw [hserving] at hs
    cases hs
  · intro hended
    cases hended
  · intro r' number kind' hwaiting origin ho
    cases hwaiting
    have hempty := hnone kind hasks
    simp only [AttachSession.underWay, List.append_eq_nil_iff] at hempty
    simp only [AttachSession.underWay, command, List.filterMap_append, hempty.1, hempty.2,
      List.nil_append, List.append_nil] at ho
    simpa [commandOrigin] using ho

theorem takeServing (h : Sound s) (hserving : s.phase = .serving) {i : Input}
    {inbox : List Input} (hi : s.inbox = i :: inbox)
    (hnone : ∀ r, i = .dapMessage r → ∀ kind, s.asks r = some kind → s.underWay kind = []) :
    Sound ({ s with inbox := inbox }.takeInput i) := by
  have htail := h.tail hi
  have hpending : { s with inbox := inbox }.pending = [] := by
    simp [AttachSession.pending, hserving]
  cases i with
  | dapMessage r =>
    have hhandled : Sound ({ s with inbox := inbox, taken := s.taken ++ [r] }.handleDapRequest r
        s.taken.length) := by
      rcases handleDapRequest_cases { s with inbox := inbox, taken := s.taken ++ [r] } r
        s.taken.length with ha | hw
      · exact htail.answer hserving ha
      · refine htail.wait hserving (fun kind hasks => ?_) hw
        exact List.subset_nil.mp (hnone r rfl kind hasks ▸ underWay_tail hi kind)
    simp only [takeInput]
    split
    · next hdisconnect =>
      refine hhandled.finish ?_ _
      simp [handleDapRequest, hdisconnect, respond, command, AttachSession.pending, hserving]
    · exact hhandled
  | dapDisconnected => exact htail.finish hpending true
  | engineEvent e => exact htail.quiet (handleEngineEvent_quiet _ e)
  | engineDisconnected =>
    have hevent := htail.quiet (event_quiet _ "terminated")
    have hquiet := event_quiet { s with inbox := inbox } "terminated"
    exact hevent.finish (hquiet.pending.trans hpending) true

/-- The wait ends with a response. -/
theorem respondWaiting (h : Sound s) {r : DapRequest} {number : ℕ} {kind : QueryKind}
    (hwaiting : s.phase = .waiting r number kind) (body : ResponseBody) {used : List (ℕ × ℕ)}
    (hused : ∀ p ∈ used, p.1 = p.2) :
    Sound { s.respond r body with phase := .serving, used := used } where
  answered := by
    have hanswered := h.answered
    have hpending : s.pending = [r] := by simp [AttachSession.pending, hwaiting]
    rw [hpending] at hanswered
    have hresponses : { s.respond r body with phase := .serving, used := used }.responses =
        s.responses ++ [r.reqSeq] := responses_respond s r body
    rw [hresponses]
    change s.responses ++ [r.reqSeq] ++ [] = s.taken.map (·.reqSeq)
    rw [List.append_nil]
    exact hanswered
  ends hgone := by
    have hended := h.ends hgone
    rw [hwaiting] at hended
    cases hended
  detaches hended := by cases hended
  own := hused
  waitingOwn _ _ _ hphase := by cases hphase

theorem takeEvent (h : Sound s) {r : DapRequest} {number : ℕ} {kind : QueryKind}
    (hwaiting : s.phase = .waiting r number kind) {e : DebugResponse} {inbox : List Input}
    (hi : s.inbox = .engineEvent e :: inbox) :
    Sound ({ s with inbox := inbox }.takeWaiting r number kind (.engineEvent e)) := by
  have htail := h.tail hi
  cases e with
  | answer k origin =>
    simp only [takeWaiting]
    split
    · next hkind =>
      refine htail.respondWaiting hwaiting _ fun p hp => ?_
      rcases List.mem_cons.mp hp with rfl | hp
      · refine (h.waitingOwn r number kind hwaiting origin ?_).symm
        simp [AttachSession.underWay, hi, inputOrigin, hkind]
      · exact h.own p hp
    · exact htail
  | stopped reason => exact htail.quiet (handleEngineEvent_quiet _ (.stopped reason))
  | resumed => exact htail.quiet (handleEngineEvent_quiet _ .resumed)
  | detached => exact htail.quiet (handleEngineEvent_quiet _ .detached)
  | breakpointsSet verified =>
    exact htail.quiet (handleEngineEvent_quiet _ (.breakpointsSet verified))

/-- Every undisturbed step keeps it. -/
theorem step (h : Sound s) {a : SessionLabel} (hin : s.Undisturbed a)
    (hstep : s.step a = some t) : Sound t := by
  cases a with
  | message r =>
    obtain rfl := Option.some.inj hstep
    exact h.arrive fun _ => rfl
  | clientGone =>
    obtain rfl := Option.some.inj hstep
    exact h.arrive fun _ => rfl
  | serve answers =>
    simp only [AttachSession.step] at hstep
    split at hstep
    · simp at hstep
    · next hc =>
      obtain rfl := Option.some.inj hstep
      exact h.serve hc answers
  | engineEvent e =>
    simp only [AttachSession.step] at hstep
    split at hstep
    · simp at hstep
    · next hanswer =>
      obtain rfl := Option.some.inj hstep
      refine h.arrive fun kind => ?_
      cases e with
      | answer k origin => exact absurd rfl (hanswer k origin)
      | _ => rfl
  | engineGone =>
    obtain rfl := Option.some.inj hstep
    exact h.arrive fun _ => rfl
  | take =>
    simp only [AttachSession.step] at hstep
    simp only [Undisturbed] at hin
    split at hstep
    · next hi hserving =>
      obtain rfl := Option.some.inj hstep
      refine h.takeServing hserving hi fun r hr kind hasks => ?_
      rw [hserving, hi, hr] at hin
      simp only [hasks] at hin
      exact hin
    · next i _ _ _ _ hi hwaiting =>
      obtain rfl := Option.some.inj hstep
      rw [hwaiting, hi] at hin
      cases i with
      | engineEvent e => exact h.takeEvent hwaiting hi
      | dapMessage m => exact hin.elim
      | dapDisconnected => exact hin.elim
      | engineDisconnected => exact hin.elim
    · simp at hstep
  | timeout =>
    simp only [AttachSession.step] at hstep
    split at hstep
    · next hwaiting =>
      obtain rfl := Option.some.inj hstep
      exact h.respondWaiting hwaiting _ h.own
    · simp at hstep

end Sound

end AttachSession

/-- **In every session in which no message and no disconnection comes while the handler
waits for the engine, and no late answer of the same kind is under way when it starts to
wait, every request is answered exactly once, with the answer that was produced for it,
and a disconnection ends the session and detaches from the engine.** -/
theorem attach_served (files : AttachSources) {s : AttachSession}
    (h : ((attachLts files).restrict AttachSession.Undisturbed).Reachable s) : s.Served := by
  have hs : s.Sound := by
    apply Lts.Reachable.inv_restrict _ _ h
    · intro s hs
      obtain rfl : s = AttachSession.init files := hs
      exact AttachSession.init_sound files
    · intro s a t hs hin hstep
      exact hs.step hin hstep
  exact hs.toServed

/-! ## An editor that sends several requests -/

def noSources : AttachSources := ⟨[], [], ⟨none, "/plc"⟩⟩

/-- The state after some steps. -/
def afterLabels (labels : List SessionLabel) : AttachSession :=
  (Lts.exec AttachSession.step labels (.init noSources)).getD (.init noSources)

theorem reachable_afterLabels (labels : List SessionLabel)
    (h : Lts.exec AttachSession.step labels (.init noSources) = some (afterLabels labels)) :
    (attachLts noSources).Reachable (afterLabels labels) := .exec (.init rfl) h

def dapRequest (seq : Int) (command : DapCommand) : DapRequest := ⟨some seq, command⟩

/-- The engine stops, and the handler has told the client. -/
def engineStops : List SessionLabel := [.engineEvent (.stopped .breakpoint), .take]

/-- Two requests at once: the second is taken while the first waits. -/
def twoRequests : List SessionLabel :=
  engineStops ++ [.message (dapRequest 1 .stackTrace), .message (dapRequest 2 .threads),
    .take, .take, .serve true, .take]

/-- The client hangs up while a request waits. -/
def hangUp : List SessionLabel :=
  engineStops ++ [.message (dapRequest 1 .stackTrace), .clientGone, .take, .take]

/-- The answer to the first request comes after the handler has given it up. -/
def lateAnswer : List SessionLabel :=
  engineStops ++ [.message (dapRequest 1 (.evaluate (some "x"))), .take, .timeout,
    .message (dapRequest 2 (.evaluate (some "y"))), .take, .serve true, .take]

/-- A request is dropped, a disconnection does not end the session, and a request is
answered with the value for another. -/
theorem requests_lost :
    ∃ s t u, (attachLts noSources).Reachable s ∧ s.phase = .serving ∧
      s.taken.map (·.reqSeq) = [1, 2] ∧ s.responses = [1] ∧ ¬ s.Served ∧
      (attachLts noSources).Reachable t ∧ t.gone = true ∧ t.phase = .serving ∧
      ¬ t.Served ∧
      (attachLts noSources).Reachable u ∧ u.used = [(1, 0)] ∧ ¬ u.Served := by
  refine ⟨_, _, _, reachable_afterLabels twoRequests rfl, rfl, rfl, rfl, ?_,
    reachable_afterLabels hangUp rfl, rfl, rfl, ?_,
    reachable_afterLabels lateAnswer rfl, rfl, ?_⟩
  · intro h
    have hanswered := h.answered
    revert hanswered
    decide +kernel
  · intro h
    have hended := h.ends rfl
    cases hended
  · intro h
    have hown := h.own (1, 0) List.mem_cons_self
    revert hown
    decide

/-- A client that waits for each answer. -/
def oneByOne : List SessionLabel :=
  engineStops ++ [.message (dapRequest 1 .stackTrace), .take, .serve true, .take,
    .message (dapRequest 2 (.evaluate (some "x"))), .take, .serve true, .take]

theorem one_by_one_served : ∃ s,
    ((attachLts noSources).restrict AttachSession.Undisturbed).Reachable s ∧
      s.responses = [1, 2] ∧ s.Served := by
  have hr : ((attachLts noSources).restrict AttachSession.Undisturbed).Reachable
      (afterLabels oneByOne) := Lts.Reachable.exec_guarded oneByOne rfl rfl
  exact ⟨_, hr, rfl, attach_served _ hr⟩

end RustPlc.Target
