import RustPlc.Core.Latest
import RustPlc.L3Vm.Debugger

/-!
# Source breakpoints

A debugger client sends, for one source file at a time, the lines that have
breakpoints. The engine keeps the breakpoints of all files in one set of byte offsets
in the concatenated sources, which each request clears and builds anew: in launch mode
(crates/st-dap/src/server.rs) from the latest lines of every path, in attach mode
(crates/st-target-agent/src/dap_attach_handler.rs and runtime_manager.rs) from the
lines of the request.

`functionNames` is `extract_function_names`, the names that a source text declares;
the results hold for any.

Results:
* `setLineBreakpoints_spec`: what one file's lines add;
* `breakpoints_requested_iff`: when the active breakpoints of a session are those of
  the latest requests of all files.
-/
namespace RustPlc.Engine

open RustPlc.Ir

/-! ## Lines -/

/-- The starts of the lines after the first, of the text from byte `i`. -/
def lineStarts : List Char → Nat → List Nat
  | [], _ => []
  | c :: cs, i =>
    if c = '\n' then (i + 1) :: lineStarts cs (i + 1) else lineStarts cs (i + c.utf8Size)

/-- mirrors crates/st-engine/src/debug.rs:449-457 -/
def computeLineOffsets (source : String) : List Nat := 0 :: lineStarts source.toList 0

variable (functionNames : String → List String)

/-- The source offset at which a breakpoint on a line is set: that of the first
instruction on the line of a function that the source declares.
mirrors crates/st-engine/src/debug.rs:118-159 -/
def resolveLine (m : Module) (source : String) (sourceOffset line : Nat) : Option Nat :=
  let lineOffsets := computeLineOffsets source
  let lineIdx := line - 1
  match lineOffsets[lineIdx]? with
  | none => none
  | some lineStart =>
    let lineEnd := lineOffsets[lineIdx + 1]?.getD source.utf8ByteSize
    let belonging := m.functions.filter fun func =>
      (functionNames source).any fun n => eqIgnoreAsciiCase n func.name
    belonging.findSome? fun func =>
      (func.sourceMap.find? fun sm => decide (lineStart + sourceOffset ≤ sm.byteOffset) &&
        decide (sm.byteOffset < lineEnd + sourceOffset) && decide (0 < sm.byteOffset)).map
        (·.byteOffset)

/-- mirrors crates/st-engine/src/debug.rs:111-161 -/
def DebugState.setLineBreakpoints (m : Module) (source : String) (sourceOffset : Nat) :
    List Nat → DebugState → DebugState × List (Option Nat)
  | [], d => (d, [])
  | line :: lines, d =>
    let found := resolveLine functionNames m source sourceOffset line
    let rest := setLineBreakpoints m source sourceOffset lines
      (match found with
        | some offset => d.setSourceBreakpoint offset
        | none => d)
    (rest.1, found :: rest.2)

/-- The offsets of the lines that can be resolved. -/
def lineBreakpoints (m : Module) (source : String) (sourceOffset : Nat) (lines : List Nat) :
    Set Nat :=
  { o | ∃ line ∈ lines, resolveLine functionNames m source sourceOffset line = some o }

/-- The lines that can be resolved are added, and the answer is line by line. -/
theorem setLineBreakpoints_spec (m : Module) (source : String) (sourceOffset : Nat)
    (lines : List Nat) (d : DebugState) :
    (∀ o, o ∈ (d.setLineBreakpoints functionNames m source sourceOffset lines).1.sourceBreakpoints ↔
      o ∈ d.sourceBreakpoints ∨ o ∈ lineBreakpoints functionNames m source sourceOffset lines) ∧
    (d.setLineBreakpoints functionNames m source sourceOffset lines).2 =
      lines.map (resolveLine functionNames m source sourceOffset) := by
  induction lines generalizing d with
  | nil => simp [DebugState.setLineBreakpoints, lineBreakpoints]
  | cons line lines ih =>
    unfold DebugState.setLineBreakpoints
    dsimp only
    constructor
    · intro o
      rw [(ih _).1 o]
      cases hfound : resolveLine functionNames m source sourceOffset line with
      | none => simp [lineBreakpoints, hfound]
      | some offset =>
        simp only [DebugState.setSourceBreakpoint, Finset.mem_insert, lineBreakpoints,
          Set.mem_ofPred_eq, List.mem_cons, exists_eq_or_imp, hfound, Option.some.injEq]
        rw [eq_comm (a := o), or_assoc, or_left_comm]
    · rw [(ih _).2, List.map_cons]

/-! ## What the debugger does between two requests -/

inductive BetweenRequests where
  | pause
  | resume (mode : StepMode) (depth : Nat)
  | resumeWithSource (mode : StepMode) (depth offset : Nat)
  /-- The check before an instruction. -/
  | check (funcIndex : UInt16) (pc depth : Nat) (sourceMap : List SourceLocation)
  | markPaused (reason : PauseReason)

def BetweenRequests.apply (d : DebugState) : BetweenRequests → DebugState
  | .pause => d.pause
  | .resume mode depth => d.resume mode depth
  | .resumeWithSource mode depth offset => d.resumeWithSource mode depth offset
  | .check funcIndex pc depth sourceMap => (d.shouldPause funcIndex pc depth sourceMap).1
  | .markPaused reason => d.markPaused reason

theorem checkBreakpoint_sourceBreakpoints (d : DebugState) (funcIndex : UInt16) (pc : Nat)
    (sourceMap : List SourceLocation) :
    (d.checkBreakpoint funcIndex pc sourceMap).1.sourceBreakpoints = d.sourceBreakpoints := by
  unfold DebugState.checkBreakpoint
  split
  · rfl
  · split
    · split <;> rfl
    · rfl

theorem shouldPause_sourceBreakpoints (d : DebugState) (funcIndex : UInt16) (pc depth : Nat)
    (sourceMap : List SourceLocation) :
    (d.shouldPause funcIndex pc depth sourceMap).1.sourceBreakpoints = d.sourceBreakpoints := by
  unfold DebugState.shouldPause
  extract_lets cur d'
  have hkept : d'.sourceBreakpoints = d.sourceBreakpoints := by
    unfold d'
    split <;> rfl
  rw [← hkept]
  split
  · rfl
  · split <;> rfl
  · split
    · rfl
    · exact checkBreakpoint_sourceBreakpoints ..
  · split
    · rfl
    · exact checkBreakpoint_sourceBreakpoints ..
  · exact checkBreakpoint_sourceBreakpoints ..

theorem BetweenRequests.apply_sourceBreakpoints (d : DebugState) (b : BetweenRequests) :
    (b.apply d).sourceBreakpoints = d.sourceBreakpoints := by
  cases b with
  | check => exact shouldPause_sourceBreakpoints ..
  | _ => rfl

end RustPlc.Engine

namespace RustPlc.Target

open RustPlc.Core RustPlc.Ir RustPlc.Engine

variable (functionNames : String → List String)

/-- A breakpoint in the answer to a request. -/
structure Breakpoint where
  id : Nat
  verified : Bool
  line : Int
  deriving DecidableEq, Repr

/-- `(i + 1, verified, line)` for each line. -/
def breakpointsOf (verified : List Bool) (lines : List Int) : List Breakpoint :=
  (verified.zip lines).zipIdx.map fun ((v, line), i) => ⟨i + 1, v, line⟩

/-- `line as u32` -/
def asU32 (line : Int) : Nat := (line % 2 ^ 32).toNat

/-! ## Launch mode -/

/-- What the debugger asks the file system: `canonicalize` and `read_to_string`. The
files do not change during a session. -/
structure Disk where
  canonicalize : String → Option String
  readToString : String → Option String

/-- The fields of a session that are set at launch.
mirrors crates/st-dap/src/server.rs:411-441 -/
structure LaunchSources where
  sourcePath : String
  source : String
  projectFiles : List (String × String)
  fileVirtualOffsets : List (String × Nat)

/-- mirrors crates/st-dap/src/server.rs:410-485; `vm` is the module of the machine and
its debug state. -/
structure DapSession where
  sources : LaunchSources
  pendingBreakpoints : List (String × String × List Nat)
  vm : Option (Module × DebugState)

namespace LaunchSources

/-- Two paths of one existing file. -/
def sameFile (disk : Disk) (p q : String) : Bool :=
  (disk.canonicalize p).isSome && disk.canonicalize p == disk.canonicalize q

/-- mirrors crates/st-dap/src/server.rs:1186-1198 -/
def sourceContent (disk : Disk) (s : LaunchSources) : Option String → String
  | none => s.source
  | some path =>
    match s.projectFiles.find? fun f => sameFile disk f.1 path with
    | some f => f.2
    | none => (disk.readToString path).getD s.source

/-- mirrors crates/st-dap/src/server.rs:653-672 -/
def resolveVirtualOffset (disk : Disk) (s : LaunchSources) (path : Option String) : Nat :=
  let primary := ((s.fileVirtualOffsets.find? (·.1 == s.sourcePath)).map (·.2)).getD 0
  match path with
  | none => primary
  | some p =>
    match s.fileVirtualOffsets.find? (·.1 == p) with
    | some f => f.2
    | none =>
      match s.fileVirtualOffsets.find? fun f => sameFile disk p f.1 with
      | some f => f.2
      | none => primary

end LaunchSources

namespace DapSession

/-- `for (path, (source, file_lines)) in &self.pending_breakpoints` -/
def applyPending (disk : Disk) (s : DapSession) (m : Module) (d : DebugState) : DebugState :=
  s.pendingBreakpoints.foldl (fun d entry =>
    (d.setLineBreakpoints functionNames m entry.2.1
      (s.sources.resolveVirtualOffset disk (some entry.1)) entry.2.2).1) d

/-- mirrors crates/st-dap/src/server.rs:1176-1249 -/
def handleSetBreakpoints (disk : Disk) (s : DapSession) (path : Option String)
    (sourceBps : Option (List Int)) : DapSession × List Breakpoint :=
  let content := s.sources.sourceContent disk path
  match sourceBps with
  | none => (s, [])
  | some bps =>
    let lines := bps.map asU32
    let s := { s with
      pendingBreakpoints := upsert (·.1) (path.getD s.sources.sourcePath, content, lines)
        s.pendingBreakpoints }
    match s.vm with
    | none => (s, [])
    | some (m, d) =>
      let d := s.applyPending functionNames disk m d.clearBreakpoints
      let results := d.setLineBreakpoints functionNames m content
        (s.sources.resolveVirtualOffset disk path) lines
      ({ s with vm := some (m, results.1) }, breakpointsOf (results.2.map (·.isSome)) bps)

end DapSession

/-! ## Attach mode -/

/-- mirrors crates/st-target-agent/src/dap_attach_handler.rs:32-37 -/
structure PathMapper where
  localRoot : Option String
  remoteRoot : String

/-- mirrors crates/st-target-agent/src/dap_attach_handler.rs:72-85 -/
def PathMapper.toRemote (mapper : PathMapper) (localPath : String) : String :=
  match mapper.localRoot with
  | none => localPath
  | some localRoot =>
    let normalized := localPath.toList.map fun c => if c = '\\' then '/' else c
    let front := localRoot.toList ++ ['/']
    if front.isPrefixOf normalized then
      mapper.remoteRoot ++ "/" ++ String.ofList (normalized.drop front.length)
    else localPath

/-- `Path::file_name().unwrap_or_default()` -/
def fileName (path : String) : String :=
  match ((path.splitOn "/").filter fun c => c ≠ "" ∧ c ≠ ".").getLast? with
  | some c => if c = ".." then "" else c
  | none => ""

/-- mirrors crates/st-target-agent/src/dap_attach_handler.rs:897-908 -/
def findSourceContent (sourceFiles : List (String × String)) (path : String) : String :=
  match sourceFiles.find? (·.1 == path) with
  | some f => f.2
  | none =>
    match sourceFiles.find? fun f => fileName f.1 == fileName path with
    | some f => f.2
    | none => ""

/-- What an attach session knows of the sources: the files of the source directory and
the offsets of the `SourceMap`. -/
structure AttachSources where
  sourceFiles : List (String × String)
  fileVirtualOffsets : List (String × Nat)
  pathMapper : PathMapper

/-- `DebugCommand::SetBreakpoints` -/
structure SetBreakpointsCommand where
  sourcePath : String
  source : String
  lines : List Nat
  sourceOffset : Nat

/-- The command for the engine and the answer to the client. An entry without a line is
dropped. The client is told that all its breakpoints are verified.
mirrors crates/st-target-agent/src/dap_attach_handler.rs:409-454 -/
def AttachSources.handleSetBreakpoints (files : AttachSources) (clientPath : String)
    (sourceBps : Option (List (Option Nat))) : SetBreakpointsCommand × List Breakpoint :=
  let sourcePath := files.pathMapper.toRemote clientPath
  let bpLines := ((sourceBps.getD []).filterMap id).map (· % 2 ^ 32)
  let command : SetBreakpointsCommand :=
    { sourcePath := sourcePath
      source := findSourceContent files.sourceFiles sourcePath
      lines := bpLines
      sourceOffset := ((files.fileVirtualOffsets.find? (·.1 == sourcePath)).map (·.2)).getD 0 }
  (command, breakpointsOf (bpLines.map fun _ => true) (bpLines.map (↑·)))

/-- The command in the engine, between two cycles and while paused alike; the flags go
to the session, which writes them to its log.
mirrors crates/st-target-agent/src/runtime_manager.rs:731-757, 901-921 -/
def engineSetBreakpoints (m : Module) (d : DebugState) (command : SetBreakpointsCommand) :
    DebugState × List Bool :=
  let results := d.clearBreakpoints.setLineBreakpoints functionNames m command.source
    command.sourceOffset command.lines
  (results.1, results.2.map (·.isSome))

/-! ## Sessions -/

/-- A step of a session: a request, or what the debugger does between two. -/
inductive DebugEvent (R : Type) where
  | request (r : R)
  | between (b : BetweenRequests)

/-- The requests of a session. -/
def requestsOf {R : Type} (events : List (DebugEvent R)) : List R :=
  events.filterMap fun
    | .request r => some r
    | .between _ => none

/-- One mode of debugging: the file that a request names, the offsets at which its lines
can be resolved and the right answer to it; and what the session does, the active
breakpoints after its steps and its answer. -/
structure BreakpointMode (R : Type) where
  file : R → String
  offsets : R → Set Nat
  rightAnswer : R → List Breakpoint
  active : List (DebugEvent R) → Finset Nat
  answer : List (DebugEvent R) → R → List Breakpoint

namespace BreakpointMode

variable {R : Type} (v : BreakpointMode R)

/-- What the latest requests of all files ask for. -/
def requested (requests : List R) : Set Nat := latestUnion v.file v.offsets requests

/-- What holds of one request, sent after some steps: the active breakpoints are those
of the latest requests of all files; no breakpoint has been added or removed but those
of the file; and the answer is about its lines. -/
structure Answers (before : List (DebugEvent R)) (r : R) : Prop where
  active : ∀ o, o ∈ v.active (before ++ [.request r]) ↔ o ∈ v.requested (requestsOf before ++ [r])
  others : ∀ o, o ∉ v.offsets r →
    (∀ q, Latest v.file (requestsOf before) q → v.file q = v.file r → o ∉ v.offsets q) →
    (o ∈ v.active (before ++ [.request r]) ↔ o ∈ v.active before)
  answer : v.answer before r = v.rightAnswer r

/-- Every request of a session is answered so. -/
def Faithful (events : List (DebugEvent R)) : Prop :=
  ∀ before r after, events = before ++ .request r :: after → v.Answers before r

/-- With the active breakpoints right after every request, they are right after every
step. -/
theorem active_of_requests (hnil : v.active [] = ∅)
    (hbetween : ∀ es b, v.active (es ++ [.between b]) = v.active es)
    {events : List (DebugEvent R)}
    (h : ∀ before r after, events = before ++ .request r :: after →
      ∀ o, o ∈ v.active (before ++ [.request r]) ↔ o ∈ v.requested (requestsOf before ++ [r])) :
    ∀ before rest, events = before ++ rest →
      ∀ o, o ∈ v.active before ↔ o ∈ v.requested (requestsOf before) := by
  intro before
  induction before using List.reverseRecOn with
  | nil =>
    intro rest _ o
    rw [hnil]
    constructor
    · intro ho
      simp at ho
    · rintro ⟨q, hq, _⟩
      exact absurd hq not_latest_nil
  | append_singleton before e ih =>
    intro rest he o
    rw [List.append_assoc, List.singleton_append] at he
    cases e with
    | request r =>
      have hreq : requestsOf (before ++ [.request r]) = requestsOf before ++ [r] := by
        simp [requestsOf]
      rw [h before r rest he o, hreq]
    | between b =>
      have hreq : requestsOf (before ++ [.between b]) = requestsOf before := by
        simp [requestsOf]
      rw [hbetween, hreq]
      exact ih _ he o

/-- When the active breakpoints are right after every request, no request touches those
of another file. -/
theorem faithful_iff (hnil : v.active [] = ∅)
    (hbetween : ∀ es b, v.active (es ++ [.between b]) = v.active es)
    (events : List (DebugEvent R)) :
    v.Faithful events ↔ ∀ before r after, events = before ++ .request r :: after →
      (∀ o, o ∈ v.active (before ++ [.request r]) ↔ o ∈ v.requested (requestsOf before ++ [r])) ∧
        v.answer before r = v.rightAnswer r := by
  constructor
  · intro h before r after he
    exact ⟨(h before r after he).active, (h before r after he).answer⟩
  · intro h before r after he
    refine ⟨(h before r after he).1, fun o hr hold => ?_, (h before r after he).2⟩
    have hbefore :=
      v.active_of_requests hnil hbetween (fun b r a he => (h b r a he).1) before _ he o
    rw [(h before r after he).1 o, hbefore]
    exact latestUnion_concat_of_notMem hr hold

end BreakpointMode

/-! ## Launch mode in a session -/

/-- A request for a source file; `none` when it has no list of breakpoints. -/
structure LaunchRequest where
  path : String
  sourceBps : Option (List Int)

namespace DapSession

variable (disk : Disk)

def step (s : DapSession) : DebugEvent LaunchRequest → DapSession
  | .request r => (s.handleSetBreakpoints functionNames disk (some r.path) r.sourceBps).1
  | .between b => { s with vm := s.vm.map fun (m, d) => (m, b.apply d) }

/-- A request with a list of breakpoints, for a session with a machine. -/
theorem handleSetBreakpoints_launched {s : DapSession} {m : Module} {d : DebugState}
    (hvm : s.vm = some (m, d)) (path : String) (bps : List Int) :
    s.handleSetBreakpoints functionNames disk (some path) (some bps) =
      let content := s.sources.sourceContent disk (some path)
      let pending := upsert (·.1) (path, content, bps.map asU32) s.pendingBreakpoints
      let applied := applyPending functionNames disk { s with pendingBreakpoints := pending } m
        d.clearBreakpoints
      let results := applied.setLineBreakpoints functionNames m content
        (s.sources.resolveVirtualOffset disk (some path)) (bps.map asU32)
      (⟨s.sources, pending, some (m, results.1)⟩,
        breakpointsOf (results.2.map (·.isSome)) bps) := by
  unfold handleSetBreakpoints
  dsimp only
  rw [hvm]
  rfl

/-- The active source breakpoints. -/
def activeBreakpoints (s : DapSession) : Finset Nat :=
  match s.vm with
  | some (_, d) => d.sourceBreakpoints
  | none => ∅

end DapSession

/-- A session after a successful launch. The client is told only then that it may send
breakpoints. -/
structure Launched where
  disk : Disk
  sources : LaunchSources
  module : Module
  debug : DebugState
  clear : debug.sourceBreakpoints = ∅

namespace Launched

variable (l : Launched)

def session : DapSession := ⟨l.sources, [], some (l.module, l.debug)⟩

/-- The session after some steps. -/
def after (events : List (DebugEvent LaunchRequest)) : DapSession :=
  events.foldl (DapSession.step functionNames l.disk) l.session

/-- `canonicalize(path)`, the path itself where there is no such file -/
def fileOf (path : String) : String := (l.disk.canonicalize path).getD path

def linesOf (r : LaunchRequest) : List Nat := (r.sourceBps.getD []).map asU32

/-- The offsets of the lines of a request that can be resolved. -/
def offsets (r : LaunchRequest) : Set Nat :=
  lineBreakpoints functionNames l.module (l.sources.sourceContent l.disk (some r.path))
    (l.sources.resolveVirtualOffset l.disk (some r.path)) (linesOf r)

/-- Launch mode. -/
def mode : BreakpointMode LaunchRequest where
  file r := l.fileOf r.path
  offsets := l.offsets functionNames
  rightAnswer r := breakpointsOf ((linesOf r).map fun line =>
    (resolveLine functionNames l.module (l.sources.sourceContent l.disk (some r.path))
      (l.sources.resolveVirtualOffset l.disk (some r.path)) line).isSome) (r.sourceBps.getD [])
  active events := (l.after functionNames events).activeBreakpoints
  answer before r :=
    ((l.after functionNames before).handleSetBreakpoints functionNames l.disk (some r.path)
      r.sourceBps).2

/-- The requests that have a list of breakpoints. -/
def withBreakpoints (requests : List LaunchRequest) : List LaunchRequest :=
  requests.filter (·.sourceBps.isSome)

/-- What is kept of a request. -/
def entryOf (r : LaunchRequest) : String × String × List Nat :=
  (r.path, l.sources.sourceContent l.disk (some r.path), linesOf r)

/-- The state of a session after some requests: it keeps the latest list for every
spelling of a path, and all of them are active. -/
structure Keeps (s : DapSession) (requests : List LaunchRequest) : Prop where
  sources : s.sources = l.sources
  pending : ∀ entry, entry ∈ s.pendingBreakpoints ↔
    ∃ q, Latest (·.path) (withBreakpoints requests) q ∧ entry = l.entryOf q
  vm : ∃ d, s.vm = some (l.module, d) ∧
    ∀ o, o ∈ d.sourceBreakpoints ↔ ∃ q, Latest (·.path) (withBreakpoints requests) q ∧
      o ∈ l.offsets functionNames q

theorem keeps_session : l.Keeps functionNames l.session [] where
  sources := rfl
  pending := by
    intro entry
    constructor
    · intro h
      simp [session] at h
    · rintro ⟨q, hq, _⟩
      exact absurd hq not_latest_nil
  vm := by
    refine ⟨l.debug, rfl, fun o => ?_⟩
    rw [l.clear]
    constructor
    · intro h
      simp at h
    · rintro ⟨q, hq, _⟩
      exact absurd hq not_latest_nil

/-- All lists that are kept are applied. -/
theorem applyPending_spec (s : DapSession) (m : Module) (d : DebugState) (o : Nat) :
    o ∈ (s.applyPending functionNames l.disk m d).sourceBreakpoints ↔
      o ∈ d.sourceBreakpoints ∨ ∃ entry ∈ s.pendingBreakpoints,
        o ∈ lineBreakpoints functionNames m entry.2.1
          (s.sources.resolveVirtualOffset l.disk (some entry.1)) entry.2.2 := by
  unfold DapSession.applyPending
  generalize s.pendingBreakpoints = pending
  induction pending generalizing d with
  | nil => simp
  | cons entry pending ih =>
    rw [List.foldl_cons, ih, (setLineBreakpoints_spec ..).1]
    simp only [List.mem_cons, exists_eq_or_imp, or_assoc]

variable {l} {functionNames}

theorem Keeps.between {s : DapSession} {requests : List LaunchRequest}
    (h : l.Keeps functionNames s requests) (b : BetweenRequests) :
    l.Keeps functionNames (s.step functionNames l.disk (.between b)) requests where
  sources := h.sources
  pending := h.pending
  vm := by
    obtain ⟨d, hvm, hd⟩ := h.vm
    refine ⟨b.apply d, by simp [DapSession.step, hvm], fun o => ?_⟩
    rw [BetweenRequests.apply_sourceBreakpoints, hd]

/-- The entries after a request with breakpoints. -/
theorem Keeps.pending_upsert {s : DapSession} {requests : List LaunchRequest}
    (h : l.Keeps functionNames s requests) {r : LaunchRequest}
    (hsome : withBreakpoints (requests ++ [r]) = withBreakpoints requests ++ [r])
    (entry : String × String × List Nat) :
    entry ∈ upsert (·.1) (l.entryOf r) s.pendingBreakpoints ↔
      ∃ q, Latest (·.path) (withBreakpoints (requests ++ [r])) q ∧ entry = l.entryOf q := by
  rw [mem_upsert, hsome]
  constructor
  · rintro (rfl | ⟨he, hne⟩)
    · exact ⟨r, latest_concat.mpr (.inl rfl), rfl⟩
    · obtain ⟨q, hq, rfl⟩ := (h.pending entry).mp he
      exact ⟨q, latest_concat.mpr (.inr ⟨hq, hne⟩), rfl⟩
  · rintro ⟨q, hq, rfl⟩
    rcases latest_concat.mp hq with rfl | ⟨hq, hne⟩
    · exact .inl rfl
    · exact .inr ⟨(h.pending _).mpr ⟨q, hq, rfl⟩, hne⟩

/-- A request without a list changes nothing; one with a list is kept and applied with
all others, and answered line by line. -/
theorem Keeps.request {s : DapSession} {requests : List LaunchRequest}
    (h : l.Keeps functionNames s requests) (r : LaunchRequest) :
    l.Keeps functionNames (s.handleSetBreakpoints functionNames l.disk (some r.path) r.sourceBps).1
        (requests ++ [r]) ∧
      (s.handleSetBreakpoints functionNames l.disk (some r.path) r.sourceBps).2 =
        (l.mode functionNames).rightAnswer r := by
  obtain ⟨d, hvm, hd⟩ := h.vm
  cases hbps : r.sourceBps with
  | none =>
    have hnone : withBreakpoints (requests ++ [r]) = withBreakpoints requests := by
      simp [withBreakpoints, hbps]
    refine ⟨⟨h.sources, ?_, ?_⟩, ?_⟩
    · rw [hnone]
      exact h.pending
    · rw [hnone]
      exact ⟨d, hvm, hd⟩
    · simp [DapSession.handleSetBreakpoints, mode, linesOf, hbps, breakpointsOf]
  | some bps =>
    have hsome : withBreakpoints (requests ++ [r]) = withBreakpoints requests ++ [r] := by
      simp [withBreakpoints, hbps]
    have hlines : linesOf r = bps.map asU32 := by simp [linesOf, hbps]
    have hpending := h.pending_upsert hsome
    have hentry : l.entryOf r =
        (r.path, s.sources.sourceContent l.disk (some r.path), bps.map asU32) := by
      rw [entryOf, hlines, h.sources]
    rw [hentry] at hpending
    rw [DapSession.handleSetBreakpoints_launched functionNames l.disk hvm r.path bps]
    refine ⟨⟨h.sources, hpending, ?_⟩, ?_⟩
    · refine ⟨_, rfl, fun o => ?_⟩
      rw [(setLineBreakpoints_spec ..).1, applyPending_spec]
      have hown : lineBreakpoints functionNames l.module
          (s.sources.sourceContent l.disk (some r.path))
          (s.sources.resolveVirtualOffset l.disk (some r.path)) (bps.map asU32) =
            l.offsets functionNames r := by
        rw [offsets, hlines, h.sources]
      rw [hown]
      constructor
      · rintro ((ho | ⟨entry, he, ho⟩) | ho)
        · simp [DebugState.clearBreakpoints] at ho
        · obtain ⟨q, hq, rfl⟩ := (hpending entry).mp he
          refine ⟨q, hq, ?_⟩
          rw [h.sources] at ho
          exact ho
        · refine ⟨r, ?_, ho⟩
          rw [hsome]
          exact latest_concat.mpr (.inl rfl)
      · rintro ⟨q, hq, ho⟩
        refine .inl (.inr ⟨l.entryOf q, (hpending _).mpr ⟨q, hq, rfl⟩, ?_⟩)
        rw [h.sources]
        exact ho
    · simp only [(setLineBreakpoints_spec ..).2, mode, hlines, hbps, h.sources, List.map_map,
        Option.getD_some]
      rfl

/-- After any steps of a session. -/
theorem keeps_after (events : List (DebugEvent LaunchRequest)) :
    l.Keeps functionNames (l.after functionNames events) (requestsOf events) := by
  induction events using List.reverseRecOn with
  | nil => exact l.keeps_session functionNames
  | append_singleton events e ih =>
    have hafter : l.after functionNames (events ++ [e]) =
        (l.after functionNames events).step functionNames l.disk e := by
      simp [after]
    rw [hafter]
    cases e with
    | request r =>
      have hreq : requestsOf (events ++ [.request r]) = requestsOf events ++ [r] := by
        simp [requestsOf]
      rw [hreq]
      exact (ih.request r).1
    | between b =>
      have hreq : requestsOf (events ++ [.between b]) = requestsOf events := by
        simp [requestsOf]
      rw [hreq]
      exact ih.between b

/-- The lists that are kept, one for every spelling of a path. -/
def kept (l : Launched) (functionNames : String → List String) (requests : List LaunchRequest) :
    Set Nat :=
  latestUnion (·.path) (l.offsets functionNames) (withBreakpoints requests)

theorem mem_active (events : List (DebugEvent LaunchRequest)) (o : Nat) :
    o ∈ (l.mode functionNames).active events ↔ o ∈ l.kept functionNames (requestsOf events) := by
  have hkeeps : l.Keeps functionNames (l.after functionNames events) (requestsOf events) :=
    keeps_after events
  obtain ⟨d, hvm, hd⟩ := hkeeps.vm
  have hactive : (l.mode functionNames).active events = d.sourceBreakpoints := by
    change (l.after functionNames events).activeBreakpoints = _
    unfold DapSession.activeBreakpoints
    rw [hvm]
  rw [hactive, hd]
  exact Iff.rfl

/-- What the latest requests of all files ask for is kept. -/
theorem requested_subset_kept (requests : List LaunchRequest) :
    (l.mode functionNames).requested requests ⊆ l.kept functionNames requests := by
  rintro o ⟨q, ⟨before, after, rfl, hafter⟩, ho⟩
  have hsome : q.sourceBps.isSome = true := by
    by_contra hnone
    have hlines : linesOf q = [] := by
      rw [Option.not_isSome_iff_eq_none] at hnone
      simp [linesOf, hnone]
    change o ∈ l.offsets functionNames q at ho
    rw [offsets, hlines] at ho
    obtain ⟨line, hline, _⟩ := ho
    simp at hline
  refine ⟨q, ⟨withBreakpoints before, withBreakpoints after, ?_, ?_⟩, ho⟩
  · simp [withBreakpoints, hsome]
  · intro p hp hpath
    refine hafter p (List.mem_filter.mp hp).1 ?_
    change l.fileOf p.path = l.fileOf q.path
    exact congrArg l.fileOf hpath

/-- No list is kept that has been superseded, by a request without a list or with another
spelling of the path, except for breakpoints that are still asked for. -/
def NothingStale (l : Launched) (functionNames : String → List String)
    (requests : List LaunchRequest) : Prop :=
  ∀ q, Latest (·.path) (withBreakpoints requests) q →
    l.offsets functionNames q ⊆ (l.mode functionNames).requested requests

theorem faithful_iff (events : List (DebugEvent LaunchRequest)) :
    (l.mode functionNames).Faithful events ↔
      ∀ before r after, events = before ++ .request r :: after →
        l.NothingStale functionNames (requestsOf before ++ [r]) := by
  have hnil : (l.mode functionNames).active [] = ∅ := l.clear
  have hbetween (es : List (DebugEvent LaunchRequest)) (b : BetweenRequests) :
      (l.mode functionNames).active (es ++ [.between b]) = (l.mode functionNames).active es := by
    ext o
    rw [mem_active, mem_active]
    simp [requestsOf]
  have hactive (before : List (DebugEvent LaunchRequest)) (r : LaunchRequest) :
      (∀ o, o ∈ (l.mode functionNames).active (before ++ [.request r]) ↔
        o ∈ (l.mode functionNames).requested (requestsOf before ++ [r])) ↔
      l.NothingStale functionNames (requestsOf before ++ [r]) := by
    have hreq : requestsOf (before ++ [.request r]) = requestsOf before ++ [r] := by
      simp [requestsOf]
    constructor
    · intro h q hq o ho
      rw [← h o, mem_active, hreq]
      exact ⟨q, hq, ho⟩
    · intro h o
      rw [mem_active, hreq]
      constructor
      · rintro ⟨q, hq, ho⟩
        exact h q hq ho
      · intro ho
        exact requested_subset_kept _ ho
  rw [BreakpointMode.faithful_iff _ hnil hbetween]
  constructor
  · intro h before r after he
    exact (hactive before r).mp (h before r after he).1
  · intro h before r after he
    exact ⟨(hactive before r).mpr (h before r after he), ((keeps_after before).request r).2⟩

end Launched

/-! ## Attach mode in a session -/

/-- The lines are those of the entries, `none` for an entry without one. -/
structure AttachRequest where
  clientPath : String
  sourceBps : Option (List (Option Nat))

/-- The engine a session is attached to. -/
structure Attached where
  files : AttachSources
  module : Module
  debug : DebugState
  clear : debug.sourceBreakpoints = ∅

namespace Attached

variable (a : Attached)

def commandOf (r : AttachRequest) : SetBreakpointsCommand :=
  (a.files.handleSetBreakpoints r.clientPath r.sourceBps).1

def step (d : DebugState) : DebugEvent AttachRequest → DebugState
  | .request r => (engineSetBreakpoints functionNames a.module d (a.commandOf r)).1
  | .between b => b.apply d

def resolved (r : AttachRequest) (line : Nat) : Option Nat :=
  resolveLine functionNames a.module (a.commandOf r).source (a.commandOf r).sourceOffset line

/-- The offsets of the lines of a request that can be resolved. -/
def offsets (r : AttachRequest) : Set Nat :=
  lineBreakpoints functionNames a.module (a.commandOf r).source (a.commandOf r).sourceOffset
    (a.commandOf r).lines

/-- Attach mode. -/
def mode : BreakpointMode AttachRequest where
  file r := (a.commandOf r).sourcePath
  offsets := a.offsets functionNames
  rightAnswer r := breakpointsOf ((a.commandOf r).lines.map fun line =>
    (a.resolved functionNames r line).isSome) ((a.commandOf r).lines.map (↑·))
  active events := (events.foldl (a.step functionNames) a.debug).sourceBreakpoints
  answer _ r := (a.files.handleSetBreakpoints r.clientPath r.sourceBps).2

/-- Only the lines of the request are active after it. -/
theorem mem_active (before : List (DebugEvent AttachRequest)) (r : AttachRequest) (o : Nat) :
    o ∈ (a.mode functionNames).active (before ++ [.request r]) ↔ o ∈ a.offsets functionNames r := by
  have hfold : (a.mode functionNames).active (before ++ [.request r]) =
      (engineSetBreakpoints functionNames a.module
        (before.foldl (a.step functionNames) a.debug) (a.commandOf r)).1.sourceBreakpoints := by
    simp [mode, step]
  rw [hfold, engineSetBreakpoints, (setLineBreakpoints_spec ..).1]
  simp only [DebugState.clearBreakpoints, Finset.notMem_empty, false_or]
  exact Iff.rfl

theorem verified_breakpointsOf {verified : List Bool} {lines : List Int}
    (h : verified.length = lines.length) :
    (breakpointsOf verified lines).map (·.verified) = verified := by
  have hfst : ((verified.zip lines).zipIdx.map Prod.fst).map Prod.fst = verified := by
    rw [List.zipIdx_map_fst, List.map_fst_zip (by omega)]
  rw [List.map_map] at hfst
  rw [breakpointsOf, List.map_map]
  exact hfst

/-- The client is told that all lines are verified, which is right when they are. -/
theorem answer_iff (before : List (DebugEvent AttachRequest)) (r : AttachRequest) :
    (a.mode functionNames).answer before r = (a.mode functionNames).rightAnswer r ↔
      ∀ line ∈ (a.commandOf r).lines, (a.resolved functionNames r line).isSome = true := by
  have hanswer : (a.mode functionNames).answer before r =
      breakpointsOf ((a.commandOf r).lines.map fun _ => true)
        ((a.commandOf r).lines.map (↑·)) := rfl
  rw [hanswer]
  constructor
  · intro h line hline
    have hflags := congrArg (List.map (·.verified)) h
    rw [verified_breakpointsOf (by simp), mode, verified_breakpointsOf (by simp)] at hflags
    exact (List.map_inj_left.mp hflags line hline).symm
  · intro h
    rw [mode, List.map_congr_left fun line hline => (h line hline).symm]

theorem faithful_iff (events : List (DebugEvent AttachRequest)) :
    (a.mode functionNames).Faithful events ↔
      ∀ before r after, events = before ++ .request r :: after →
        (∀ q, Latest (a.mode functionNames).file (requestsOf before ++ [r]) q →
          a.offsets functionNames q ⊆ a.offsets functionNames r) ∧
        ∀ line ∈ (a.commandOf r).lines, (a.resolved functionNames r line).isSome = true := by
  have hnil : (a.mode functionNames).active [] = ∅ := a.clear
  have hbetween (es : List (DebugEvent AttachRequest)) (b : BetweenRequests) :
      (a.mode functionNames).active (es ++ [.between b]) = (a.mode functionNames).active es := by
    simp [mode, step, BetweenRequests.apply_sourceBreakpoints]
  have hactive (before : List (DebugEvent AttachRequest)) (r : AttachRequest) :
      (∀ o, o ∈ (a.mode functionNames).active (before ++ [.request r]) ↔
        o ∈ (a.mode functionNames).requested (requestsOf before ++ [r])) ↔
      ∀ q, Latest (a.mode functionNames).file (requestsOf before ++ [r]) q →
        a.offsets functionNames q ⊆ a.offsets functionNames r := by
    constructor
    · intro h q hq o ho
      rw [← mem_active functionNames a before r, h o]
      exact ⟨q, hq, ho⟩
    · intro h o
      rw [mem_active]
      constructor
      · intro ho
        exact ⟨r, latest_concat.mpr (.inl rfl), ho⟩
      · rintro ⟨q, hq, ho⟩
        exact h q hq ho
  rw [BreakpointMode.faithful_iff _ hnil hbetween]
  constructor
  · intro h before r after he
    obtain ⟨h1, h2⟩ := h before r after he
    exact ⟨(hactive before r).mp h1, (answer_iff functionNames a before r).mp h2⟩
  · intro h before r after he
    obtain ⟨h1, h2⟩ := h before r after he
    exact ⟨(hactive before r).mpr h1, (answer_iff functionNames a before r).mpr h2⟩

end Attached

/-- **A session has the breakpoints that were asked for: in launch mode exactly when no
list that is kept has been superseded under another spelling of the path or by a request
without a list, in attach mode exactly when at every request the other files have no
breakpoints and all lines can be resolved.** -/
theorem breakpoints_requested_iff :
    (∀ (l : Launched) (events : List (DebugEvent LaunchRequest)),
      (l.mode functionNames).Faithful events ↔
        ∀ before r after, events = before ++ .request r :: after →
          l.NothingStale functionNames (requestsOf before ++ [r])) ∧
    ∀ (a : Attached) (events : List (DebugEvent AttachRequest)),
      (a.mode functionNames).Faithful events ↔
        ∀ before r after, events = before ++ .request r :: after →
          (∀ q, Latest (a.mode functionNames).file (requestsOf before ++ [r]) q →
            a.offsets functionNames q ⊆ a.offsets functionNames r) ∧
          ∀ line ∈ (a.commandOf r).lines, (a.resolved functionNames r line).isSome = true :=
  ⟨fun _ events => Launched.faithful_iff events,
    fun a events => a.faithful_iff functionNames events⟩

/-! ## Two files -/

def pumpText : String := "PROGRAM Pump\nVAR x : INT; END_VAR\nx := 1;\nEND_PROGRAM\n"

def tankText : String := "PROGRAM Tank\nVAR x : INT; END_VAR\nx := 2;\nEND_PROGRAM\n"

/-- A program whose one statement is at an offset. -/
def programAt (name : String) (offset : Nat) : Function :=
  ⟨name, .program, 0, [], [], ⟨[]⟩, [⟨offset, offset + 7⟩], 0⟩

/-- A session for the two programs, after a standard library of 1000 bytes. -/
def twoFiles : Attached where
  files :=
    { sourceFiles := [("/plc/pump.st", pumpText), ("/plc/tank.st", tankText)]
      fileVirtualOffsets := [("/plc/pump.st", 1000), ("/plc/tank.st", 1054)]
      pathMapper := ⟨none, "/plc"⟩ }
  module := ⟨[programAt "Pump" 1034, programAt "Tank" 1088], ⟨[]⟩, [], []⟩
  debug := .new
  clear := rfl

def declaredNames (source : String) : List String :=
  if source = pumpText then ["Pump"] else if source = tankText then ["Tank"] else []

def thirdLine (path : String) : AttachRequest := ⟨path, some [some 3]⟩

/-- A breakpoint in `tank.st` removes the one in `pump.st`. -/
theorem second_file_clears_first : ¬ (twoFiles.mode declaredNames).Faithful
    [.request (thirdLine "/plc/pump.st"), .request (thirdLine "/plc/tank.st")] := by
  intro h
  have hactive := (h [.request (thirdLine "/plc/pump.st")] (thirdLine "/plc/tank.st") [] rfl).active
    1034
  have hrequested : 1034 ∈ (twoFiles.mode declaredNames).requested
      (requestsOf [.request (thirdLine "/plc/pump.st")] ++ [thirdLine "/plc/tank.st"]) := by
    refine ⟨thirdLine "/plc/pump.st", ⟨[], [thirdLine "/plc/tank.st"], rfl, ?_⟩, 3, ?_, ?_⟩
    · decide +kernel
    · decide +kernel
    · decide +kernel
  rw [← hactive] at hrequested
  revert hrequested
  decide +kernel

end RustPlc.Target
