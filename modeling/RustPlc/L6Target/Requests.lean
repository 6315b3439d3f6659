import Mathlib.Logic.Function.Basic
import RustPlc.Core.Lts
import RustPlc.L5Engine.OnlineChange
import RustPlc.L6Target.ProgramStore

/-!
# Requests to the target agent

The handlers for upload, update, start and stop
(crates/st-target-agent/src/api/program.rs) and the runtime thread
(crates/st-target-agent/src/runtime_manager.rs), which share the program
store, the runtime state and a command channel. A handler runs between two
lock acquisitions, file reads or channel operations without interruption;
the steps of different handlers and of the thread come in any order.

`store_bundle` holds the write lock from its first file to the exchange of
the program in memory. `start` reads the project YAML and the profiles of the
store directory after it has given the lock back, so it may read them while a
bundle is being stored.

Of the store's files the model has those that make up a program and are read
again: the sources, the profiles and the project YAML. That writing a source
fails is possible in any upload that has sources (`sourcesFail`).

Left out: the requests to remove and to restart a program, the monitor's and
the debugger's own requests, shutdown, and clients that hang up.
-/
namespace RustPlc.Target

open RustPlc.Core RustPlc.Ir RustPlc.Engine

/-- mirrors crates/st-target-agent/src/runtime_manager.rs:10-20 -/
inductive RuntimeStatus where
  | idle | starting | running | debugPaused | stopping | error
  deriving DecidableEq, Repr

/-- mirrors crates/st-target-agent/src/error.rs:23-35, 48-53 -/
def ApiError.alreadyRunning : ApiError := ⟨"Runtime is already running", "runtime_already_running"⟩

def ApiError.notRunning : ApiError := ⟨"Runtime is not running", "runtime_not_running"⟩

def ApiError.onlineChangeIncompatible (msg : String) : ApiError := ⟨msg, "online_change_incompatible"⟩

/-- mirrors crates/st-target-agent/src/api/program.rs:213-226 -/
inductive UpdateMethod where
  | onlineChange | restart | coldReplace | initialDeploy
  deriving DecidableEq, Repr

/-- The files of a directory, by name. -/
abbrev NamedFiles := List (String × Bytes)

/-! ## What the runtime is started with -/

/-- mirrors crates/st-target-agent/src/runtime_manager.rs:162-170; the cycle
time is in milliseconds. -/
structure StartParams (R : Type) where
  module : Module
  programName : String
  cycleTime : Nat
  programMeta : ProgramMetadata
  nativeFbs : Option R

/-- What the handlers take from elsewhere: the libraries of the store, the
module in a bytecode file, the cycle time in a project YAML and the registry
for a directory of profiles. -/
structure Host (R : Type) where
  lib : Library
  dir : Path
  decodeModule : Bytes → Except String Module
  projectCycleTime : Bytes → Option Nat
  nativeFbRegistry : NamedFiles → Option R

/-- mirrors crates/st-target-agent/src/runtime_manager.rs:128-142 -/
inductive Command (R : Type) where
  | start (params : StartParams R)
  | stop
  /-- With the handler that waits for the reply. -/
  | onlineChange (newModule : Module) (newProgramMeta : ProgramMetadata) (reply : ℕ)

/-! ## The parties -/

/-- What `store_bundle` does next. -/
inductive StorePhase where
  | sources | profiles | yaml | memory
  deriving DecidableEq

/-- Why a bundle is stored. An update remembers the runtime's status and
whether there was a program. -/
inductive StoreJob where
  | upload
  | update (initialStatus : RuntimeStatus) (hadProgramBefore : Bool)

/-- What `start` has read and reads next.
mirrors crates/st-target-agent/src/api/program.rs:55-101 -/
inductive StartPhase (R : Type) where
  | load
  | metadata (module : Module) (programName : String)
  | yamlPath (module : Module) (programName : String) (programMeta : ProgramMetadata)
  | yaml (module : Module) (programName : String) (programMeta : ProgramMetadata)
  | profilesPath (module : Module) (programName : String) (programMeta : ProgramMetadata)
      (cycleTime : Nat)
  | profiles (module : Module) (programName : String) (programMeta : ProgramMetadata)
      (cycleTime : Nat)
  | check (params : StartParams R)
  | send (params : StartParams R)

/-- A start request, or the restart of an update. -/
inductive StartJob where
  | request
  | restart (newMeta : ProgramMetadata)

inductive Handler (R : Type) where
  | unused
  | store (data : Bytes) (now : String) (job : StoreJob)
  | storing (b : ProgramBundle) (now : String) (phase : StorePhase) (job : StoreJob)
  | start (phase : StartPhase R) (job : StartJob)
  | stop
  | stopSend
  | updateStatus (data : Bytes) (now : String)
  | updateHad (data : Bytes) (now : String) (initialStatus : RuntimeStatus)
  | dispatch (initialStatus : RuntimeStatus) (hadProgramBefore : Bool) (newMeta : ProgramMetadata)
  | updateLoad (newMeta : ProgramMetadata)
  | changeCheck (newModule : Module) (newMeta : ProgramMetadata)
  | changeSend (newModule : Module) (newMeta : ProgramMetadata)
  | changeWait (newMeta : ProgramMetadata)
  | changed (newMeta : ProgramMetadata) (result : Except String Unit)
  | restartStop (newMeta : ProgramMetadata)
  | restartSend (newMeta : ProgramMetadata)
  | restartWait (newMeta : ProgramMetadata)
  | done (result : Except ApiError Unit)
  | doneUpdate (result : Except ApiError (UpdateMethod × ProgramMetadata))

/-- Where the runtime thread is, and the module of its engine. -/
inductive Thread (R : Type) where
  | waiting
  | building (params : StartParams R)
  | cycling (module : Module)
  | paused (module : Module)

/-- What the handlers and the thread share. `history` has every bundle that
has been stored; no step reads it. -/
structure Shared (R : Type) where
  current : Option StoredProgram
  sources : Option NamedFiles
  profiles : NamedFiles
  yaml : Option Bytes
  writer : Option ℕ
  status : RuntimeStatus
  program : Option ProgramMetadata
  thread : Thread R
  queue : List (Command R)
  history : List (ProgramBundle × String)

structure TargetState (R : Type) where
  shared : Shared R
  handlers : ℕ → Handler R

/-! ## The handlers -/

section

variable {R : Type}

/-- The handler after an error. -/
def StoreJob.failed (e : ApiError) : StoreJob → Handler R
  | .upload => .done (.error e)
  | .update _ _ => .doneUpdate (.error e)

/-- The handler after `store_bundle`. -/
def StoreJob.stored (newMeta : ProgramMetadata) : StoreJob → Handler R
  | .upload => .done (.ok ())
  | .update initialStatus had => .dispatch initialStatus had newMeta

def StartJob.failed (e : ApiError) : StartJob → Handler R
  | .request => .done (.error e)
  | .restart _ => .doneUpdate (.error e)

def StartJob.started : StartJob → Handler R
  | .request => .done (.ok ())
  | .restart newMeta => .doneUpdate (.ok (.restart, newMeta))

/-- A step under the read lock. -/
def Shared.locked {α : Type} (g : Shared R) (x : α) : Option α :=
  if g.writer.isNone then some x else none

/-- The channel holds 16 commands.
mirrors crates/st-target-agent/src/runtime_manager.rs:199 -/
def Shared.send (g : Shared R) (c : Command R) : Option (Shared R) :=
  if g.queue.length < 16 then some { g with queue := g.queue ++ [c] } else none

/-- The runtime has an engine. -/
def Shared.active (g : Shared R) : Bool := g.status = .running ∨ g.status = .debugPaused

namespace Host

variable (e : Host R)

/-- mirrors crates/st-target-agent/src/program_store.rs:231-240 -/
def loadModule (g : Shared R) : Except ApiError (Module × String) :=
  match g.current with
  | none => .error (.notFound "No program deployed")
  | some stored => match e.decodeModule stored.bytecode with
    | .error msg => .error (.internal ("Cannot deserialize bytecode: " ++ msg))
    | .ok module => .ok (module, stored.entryPoint)

/-- mirrors crates/st-target-agent/src/api/program.rs:69-86 -/
def cycleTimeOf (yaml : Option Bytes) : Nat := (yaml.bind e.projectCycleTime).getD 10

/-- mirrors crates/st-target-agent/src/api/program.rs:55-104 and
runtime_manager.rs:271-296 -/
def advanceStart (g : Shared R) (job : StartJob) : StartPhase R → Option (Shared R × Handler R)
  | .load => g.locked (g, match e.loadModule g with
      | .error err => job.failed err
      | .ok (module, name) => .start (.metadata module name) job)
  | .metadata module name => g.locked (g, match g.current with
      | none => job.failed (.notFound "No program deployed")
      | some stored => .start (.yamlPath module name stored.metadata) job)
  | .yamlPath module name metadata => g.locked (g, .start (.yaml module name metadata) job)
  | .yaml module name metadata =>
    some (g, .start (.profilesPath module name metadata (e.cycleTimeOf g.yaml)) job)
  | .profilesPath module name metadata cycle => g.locked (g, .start (.profiles module name metadata cycle) job)
  | .profiles module name metadata cycle =>
    some (g, .start (.check ⟨module, name, cycle, metadata, e.nativeFbRegistry g.profiles⟩) job)
  | .check params =>
    some (g, if g.status = .running ∨ g.status = .starting then job.failed .alreadyRunning
      else .start (.send params) job)
  | .send params => (g.send (.start params)).map fun g' => (g', job.started)

/-- mirrors crates/st-target-agent/src/program_store.rs:94-204 -/
def advanceStore (g : Shared R) (b : ProgramBundle) (now : String) (job : StoreJob) :
    StorePhase → Shared R × Handler R
  | .sources => ({ g with sources := if b.sources = [] then g.sources else some b.sources },
      .storing b now .profiles job)
  | .profiles => ({ g with profiles := b.profiles }, .storing b now .yaml job)
  | .yaml => ({ g with yaml := b.projectYaml }, .storing b now .memory job)
  | .memory => ({ g with
      current := some (programOf e.dir b now)
      writer := none
      history := g.history ++ [(b, now)] }, job.stored (metadataOf b.manifest now))

/-- An error of the runtime that asks for a restart. -/
def asksRestart (msg : String) : Bool := "Incompatible change".toList <+: msg.toList

/-- The next step of the handler `i`.
mirrors crates/st-target-agent/src/api/program.rs:17-41, 191-194, 247-361 and
runtime_manager.rs:299-362 -/
def advance (g : Shared R) (i : ℕ) : Handler R → Option (Shared R × Handler R)
  | .store data now job => g.locked (match e.lib.extractBundle data with
      | .error msg => (g, job.failed (.invalidBundle msg))
      | .ok b => ({ g with writer := some i }, .storing b now .sources job))
  | .storing b now phase job => some (e.advanceStore g b now job phase)
  | .start phase job => e.advanceStart g job phase
  | .stop => some (g, if g.active then .stopSend else .done (.error .notRunning))
  | .stopSend => (g.send .stop).map fun g' => (g', .done (.ok ()))
  | .updateStatus data now => some (g, .updateHad data now g.status)
  | .updateHad data now initialStatus =>
    g.locked (g, .store data now (.update initialStatus g.current.isSome))
  | .dispatch initialStatus had newMeta => some (g, match initialStatus with
      | .running => .updateLoad newMeta
      | .debugPaused => .updateLoad newMeta
      | .idle => .doneUpdate (.ok (if had then .coldReplace else .initialDeploy, newMeta))
      | .error => .doneUpdate (.ok (if had then .coldReplace else .initialDeploy, newMeta))
      | .starting => .doneUpdate (.error
          (.internal "Runtime is transitioning state; retry update in a moment"))
      | .stopping => .doneUpdate (.error
          (.internal "Runtime is transitioning state; retry update in a moment")))
  | .updateLoad newMeta => g.locked (g, match e.loadModule g with
      | .error err => .doneUpdate (.error err)
      | .ok (module, _) => .changeCheck module newMeta)
  | .changeCheck module newMeta =>
    some (g, if g.active then .changeSend module newMeta else .doneUpdate (.error .notRunning))
  | .changeSend module newMeta =>
    (g.send (.onlineChange module newMeta i)).map fun g' => (g', .changeWait newMeta)
  | .changed newMeta (.ok _) => some (g, .doneUpdate (.ok (.onlineChange, newMeta)))
  | .changed newMeta (.error msg) =>
    some (g, if asksRestart msg then .restartStop newMeta else .doneUpdate (.error (.internal msg)))
  | .restartStop newMeta => some (g, if g.active then .restartSend newMeta else .restartWait newMeta)
  | .restartSend newMeta => (g.send .stop).map fun g' => (g', .restartWait newMeta)
  | .restartWait newMeta =>
    if g.status = .idle then some (g, .start .load (.restart newMeta)) else none
  | .unused => none
  | .changeWait _ => none
  | .done _ => none
  | .doneUpdate _ => none

end Host

/-! ## The runtime thread -/

/-- The engine's answer to a new module.
mirrors crates/st-engine/src/engine.rs:362-390 -/
def refusal (running newModule : Module) : Option String :=
  if (analyzeChange running newModule).compatible then none
  else some (incompatibleMessage (analyzeChange running newModule))

/-- The thread takes a command; with the reply to a handler.
mirrors crates/st-target-agent/src/runtime_manager.rs:410-523, 634-697, 800-836 -/
def takeCommand (g : Shared R) (c : Command R) :
    Option (Shared R × Option (ℕ × Except String Unit)) :=
  match g.thread, c with
  | .building _, _ => none
  | .waiting, .start params => some ({ g with
      thread := .building params, status := .starting, program := some params.programMeta }, none)
  | .waiting, .stop => some (g, none)
  | .waiting, .onlineChange _ _ i =>
    some (g, some (i, .error "Runtime is not running; cannot apply online change"))
  | .cycling _, .start _ => some (g, none)
  | .cycling _, .stop => some ({ g with thread := .waiting, status := .idle }, none)
  | .cycling running, .onlineChange newModule newMeta i => match refusal running newModule with
    | some msg => some (g, some (i, .error msg))
    | none => some ({ g with thread := .cycling newModule, program := some newMeta },
        some (i, .ok ()))
  | .paused _, .start _ => some (g, none)
  | .paused _, .stop => some ({ g with thread := .waiting, status := .idle }, none)
  | .paused _, .onlineChange _ _ i =>
    some (g, some (i, .error "Cannot apply online change while debug session is paused"))

/-! ## The system -/

inductive Request where
  | upload (data : Bytes) (now : String)
  | update (data : Bytes) (now : String)
  | start
  | stop

def Request.handler : Request → Handler R
  | .upload data now => .store data now .upload
  | .update data now => .updateStatus data now
  | .start => .start .load .request
  | .stop => .stop

inductive Label where
  | request (i : ℕ) (r : Request)
  | run (i : ℕ)
  /-- Part of the profiles is written. -/
  | profilesPart (i k : ℕ)
  /-- A source cannot be written; some of them are. -/
  | sourcesFail (i : ℕ) (written : NamedFiles) (msg : String)
  /-- The deadline of a restart. -/
  | giveUp (i : ℕ)
  | take
  | built
  | pause
  | resume
  | fault

namespace TargetState

/-- The handler `i` has made a step. -/
def after (s : TargetState R) (i : ℕ) (r : Shared R × Handler R) : TargetState R :=
  ⟨r.1, Function.update s.handlers i r.2⟩

@[simp] theorem after_shared (s : TargetState R) (i : ℕ) (r : Shared R × Handler R) :
    (s.after i r).shared = r.1 := rfl

@[simp] theorem after_self (s : TargetState R) (i : ℕ) (r : Shared R × Handler R) :
    (s.after i r).handlers i = r.2 := Function.update_self ..

theorem after_other (s : TargetState R) {i j : ℕ} (r : Shared R × Handler R) (h : j ≠ i) :
    (s.after i r).handlers j = s.handlers j := Function.update_of_ne h ..

/-- A reply reaches the handler that waits for it. -/
def replied (s : TargetState R) (r : Option (ℕ × Except String Unit)) : TargetState R :=
  match r with
  | none => s
  | some (i, result) => match s.handlers i with
    | .changeWait newMeta => { s with handlers := Function.update s.handlers i (.changed newMeta result) }
    | _ => s

end TargetState

namespace Host

variable (e : Host R)

def step (s : TargetState R) : Label → Option (TargetState R)
  | .request i r => match s.handlers i with
    | .unused => some (s.after i (s.shared, r.handler))
    | _ => none
  | .run i => (e.advance s.shared i (s.handlers i)).map (s.after i)
  | .profilesPart i k => match s.handlers i with
    | .storing b now .profiles job =>
      some (s.after i ({ s.shared with profiles := b.profiles.take k }, .storing b now .profiles job))
    | _ => none
  | .sourcesFail i written msg => match s.handlers i with
    | .storing b _ .sources job =>
      if b.sources = [] then none
      else some (s.after i
        ({ s.shared with sources := some written, writer := none }, job.failed (.internal msg)))
    | _ => none
  | .giveUp i => match s.handlers i with
    | .restartWait _ =>
      if s.shared.status = .idle then none
      else some (s.after i (s.shared, .doneUpdate (.error
        (.internal "Engine did not become idle within the restart deadline"))))
    | _ => none
  | .take => match s.shared.queue with
    | [] => none
    | c :: queue => (takeCommand { s.shared with queue := queue } c).map fun (g, reply) =>
        TargetState.replied { s with shared := g } reply
  | .built => match s.shared.thread with
    | .building params => some { s with shared := { s.shared with
        thread := .cycling params.module, status := .running } }
    | _ => none
  | .pause => match s.shared.thread with
    | .cycling module => some { s with shared := { s.shared with
        thread := .paused module, status := .debugPaused } }
    | _ => none
  | .resume => match s.shared.thread with
    | .paused module => some { s with shared := { s.shared with
        thread := .cycling module, status := .running } }
    | _ => none
  | .fault => match s.shared.thread with
    | .cycling _ => some { s with shared := { s.shared with thread := .waiting, status := .error } }
    | _ => none

/-- What a bundle is started with. -/
def paramsOf (x : ProgramBundle × String) : Except String (StartParams R) :=
  (e.decodeModule x.1.bytecode).map fun module =>
    ⟨module, entryPointOf x.1.manifest.entryPoint, e.cycleTimeOf x.1.projectYaml,
      metadataOf x.1.manifest x.2, e.nativeFbRegistry x.1.profiles⟩

/-- The store holds the bundle. -/
structure Holds (g : Shared R) (x : ProgramBundle × String) : Prop where
  stored : x ∈ g.history
  current : g.current = some (programOf e.dir x.1 x.2)
  yaml : g.yaml = x.1.projectYaml
  profiles : g.profiles = x.1.profiles

/-- The agent has come up, with the program it found or none. -/
structure Fresh (s : TargetState R) : Prop where
  handlers : ∀ i, s.handlers i = .unused
  thread : s.shared.thread = .waiting
  status : s.shared.status = .idle
  queue : s.shared.queue = []
  writer : s.shared.writer = none
  settled : s.shared.current = none ∨ ∃ x, e.Holds s.shared x

/-- Runs of the agent. -/
def targetLts : Lts (TargetState R) Label where
  init := e.Fresh
  step := fun s l t => e.step s l = some t

end Host

end

end RustPlc.Target
