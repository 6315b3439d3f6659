import RustPlc.L6Target.Requests

/-!
# What interleaved requests can do

`start` reads the parts of the stored bundle one by one, and `update` loads
the module after it has given the store back. If nobody stores a bundle in
between, the runtime is started with one bundle and reports the metadata of
the module it executes. An update replaces the stored program before it knows
what the runtime will do; an error that comes later leaves it replaced.

Results:
* `coherent_reachable`: **starts use one bundle**, in every run in which no
  bundle is stored while a handler is between its reads;
* `failed_update_untouched`: **a failed update has done nothing**, in every
  run in which no update fails behind `store_bundle`;
* `requests_consistent`: both;
* `update_and_start_mix_programs`: the runs in which they fail.
-/
namespace RustPlc.Target

open RustPlc.Core RustPlc.Ir RustPlc.Engine

section

variable {R : Type}

/-- The handler has read a part of the stored bundle and will read more. -/
def Handler.reads : Handler R → Bool
  | .start phase _ => match phase with
    | .load => false
    | .metadata _ _ => true
    | .yamlPath _ _ _ => true
    | .yaml _ _ _ => true
    | .profilesPath _ _ _ _ => true
    | .profiles _ _ _ _ => true
    | .check _ => false
    | .send _ => false
  | .dispatch initialStatus _ _ => initialStatus = .running ∨ initialStatus = .debugPaused
  | .updateLoad _ => true
  | _ => false

/-- A bundle is stored only while no handler is between its reads. -/
def StoresAlone (s : TargetState R) : Label → Prop
  | .run i => ∀ data now job, s.handlers i = .store data now job → ∀ j, (s.handlers j).reads = false
  | _ => True

namespace Host

variable (e : Host R)

/-! ## Coherence -/

/-- Every start uses one stored bundle, and the reported metadata is that of
the module being executed. -/
structure OneBundle (g : Shared R) : Prop where
  starts : ∀ params, (.start params ∈ g.queue ∨ g.thread = .building params) →
    ∃ x ∈ g.history, e.paramsOf x = .ok params
  reported : ∀ module, (g.thread = .cycling module ∨ g.thread = .paused module) →
    ∃ x ∈ g.history, e.decodeModule x.1.bytecode = .ok module ∧
      g.program = some (metadataOf x.1.manifest x.2)

def Settled (g : Shared R) : Prop := g.current = none ∨ ∃ x, e.Holds g x

/-- Nobody is storing, and what has been read is of the bundle that is there. -/
def ReadFrom (g : Shared R) (k : ProgramBundle × String → Prop) : Prop :=
  g.writer = none ∧ ∃ x, e.Holds g x ∧ k x

/-- The module and the metadata of one stored bundle. -/
def Matching (history : List (ProgramBundle × String)) (module : Module)
    (metadata : ProgramMetadata) : Prop :=
  ∃ x ∈ history, e.decodeModule x.1.bytecode = .ok module ∧ metadata = metadataOf x.1.manifest x.2

def StartOk (g : Shared R) : StartPhase R → Prop
  | .load => True
  | .metadata module name => e.ReadFrom g fun x =>
      e.decodeModule x.1.bytecode = .ok module ∧ name = entryPointOf x.1.manifest.entryPoint
  | .yamlPath module name metadata => e.ReadFrom g fun x =>
      e.decodeModule x.1.bytecode = .ok module ∧ name = entryPointOf x.1.manifest.entryPoint ∧
        metadata = metadataOf x.1.manifest x.2
  | .yaml module name metadata => e.ReadFrom g fun x =>
      e.decodeModule x.1.bytecode = .ok module ∧ name = entryPointOf x.1.manifest.entryPoint ∧
        metadata = metadataOf x.1.manifest x.2
  | .profilesPath module name metadata cycle => e.ReadFrom g fun x =>
      e.decodeModule x.1.bytecode = .ok module ∧ name = entryPointOf x.1.manifest.entryPoint ∧
        metadata = metadataOf x.1.manifest x.2 ∧ cycle = e.cycleTimeOf x.1.projectYaml
  | .profiles module name metadata cycle => e.ReadFrom g fun x =>
      e.decodeModule x.1.bytecode = .ok module ∧ name = entryPointOf x.1.manifest.entryPoint ∧
        metadata = metadataOf x.1.manifest x.2 ∧ cycle = e.cycleTimeOf x.1.projectYaml
  | .check params => ∃ x ∈ g.history, e.paramsOf x = .ok params
  | .send params => ∃ x ∈ g.history, e.paramsOf x = .ok params

def HandlerOk (g : Shared R) (i : ℕ) : Handler R → Prop
  | .storing b _ phase _ => g.writer = some i ∧ (phase = .sources → e.Settled g) ∧
      (phase = .yaml ∨ phase = .memory → g.profiles = b.profiles) ∧
      (phase = .memory → g.yaml = b.projectYaml)
  | .start phase _ => e.StartOk g phase
  | .dispatch initialStatus _ newMeta =>
      (initialStatus = .running ∨ initialStatus = .debugPaused) →
        e.ReadFrom g fun x => newMeta = metadataOf x.1.manifest x.2
  | .updateLoad newMeta => e.ReadFrom g fun x => newMeta = metadataOf x.1.manifest x.2
  | .changeCheck module newMeta => e.Matching g.history module newMeta
  | .changeSend module newMeta => e.Matching g.history module newMeta
  | _ => True

def CommandOk (g : Shared R) : Command R → Prop
  | .start params => ∃ x ∈ g.history, e.paramsOf x = .ok params
  | .stop => True
  | .onlineChange module newMeta _ => e.Matching g.history module newMeta

def ThreadOk (g : Shared R) : Thread R → Prop
  | .waiting => True
  | .building params => (∃ x ∈ g.history, e.paramsOf x = .ok params) ∧
      g.program = some params.programMeta
  | .cycling module => ∃ metadata, g.program = some metadata ∧ e.Matching g.history module metadata
  | .paused module => ∃ metadata, g.program = some metadata ∧ e.Matching g.history module metadata

structure Coherent (s : TargetState R) : Prop where
  settled : s.shared.writer = none → e.Settled s.shared
  handlers : ∀ i, e.HandlerOk s.shared i (s.handlers i)
  queue : ∀ c ∈ s.shared.queue, e.CommandOk s.shared c
  thread : e.ThreadOk s.shared s.shared.thread

variable {e} {g g' : Shared R} {s t : TargetState R} {i j : ℕ}

theorem Coherent.oneBundle (h : e.Coherent s) : e.OneBundle s.shared where
  starts := by
    rintro params (hmem | hthread)
    · exact h.queue _ hmem
    · have hok := h.thread
      rw [hthread] at hok
      exact hok.1
  reported := by
    rintro module (hthread | hthread) <;>
    · have hok := h.thread
      rw [hthread] at hok
      obtain ⟨metadata, hprogram, x, hx, hmodule, rfl⟩ := hok
      exact ⟨x, hx, hmodule, hprogram⟩

/-! ### What the facts depend on -/

/-- The parts of the shared state that the facts about handlers read. -/
structure SameStore (g g' : Shared R) : Prop where
  current : g'.current = g.current
  profiles : g'.profiles = g.profiles
  yaml : g'.yaml = g.yaml
  writer : g'.writer = g.writer
  history : g'.history = g.history

theorem SameStore.holds (h : SameStore g g') {x : ProgramBundle × String} (hx : e.Holds g x) :
    e.Holds g' x :=
  ⟨h.history ▸ hx.stored, h.current.trans hx.current, h.yaml.trans hx.yaml,
    h.profiles.trans hx.profiles⟩

theorem SameStore.settled (h : SameStore g g') (hs : e.Settled g) : e.Settled g' := by
  rcases hs with hnone | ⟨x, hx⟩
  · exact Or.inl (h.current.trans hnone)
  · exact Or.inr ⟨x, h.holds hx⟩

theorem SameStore.readFrom (h : SameStore g g') {k : ProgramBundle × String → Prop}
    (hr : e.ReadFrom g k) : e.ReadFrom g' k := by
  obtain ⟨hwriter, x, hx, hk⟩ := hr
  exact ⟨h.writer.trans hwriter, x, h.holds hx, hk⟩

theorem SameStore.handlerOk (h : SameStore g g') {hd : Handler R} (hok : e.HandlerOk g i hd) :
    e.HandlerOk g' i hd := by
  cases hd with
  | storing b now phase job =>
    exact ⟨h.writer.trans hok.1, fun hp => h.settled (hok.2.1 hp),
      fun hp => h.profiles.trans (hok.2.2.1 hp), fun hp => h.yaml.trans (hok.2.2.2 hp)⟩
  | start phase job =>
    cases phase with
    | load => trivial
    | metadata | yamlPath | yaml | profilesPath | profiles => exact h.readFrom hok
    | check params | send params =>
      obtain ⟨x, hx, hparams⟩ := hok
      exact ⟨x, h.history ▸ hx, hparams⟩
  | dispatch initialStatus had newMeta => exact fun hactive => h.readFrom (hok hactive)
  | updateLoad newMeta => exact h.readFrom hok
  | changeCheck module newMeta | changeSend module newMeta =>
    obtain ⟨x, hx, hmatch⟩ := hok
    exact ⟨x, h.history ▸ hx, hmatch⟩
  | _ => trivial

/-- A handler that is neither storing nor between its reads only knows stored
bundles. -/
theorem HandlerOk.of_apart {hd : Handler R} (hok : e.HandlerOk g i hd) (hreads : hd.reads = false)
    (hstoring : ∀ b now phase job, hd ≠ .storing b now phase job)
    (hhistory : g.history ⊆ g'.history) : e.HandlerOk g' i hd := by
  cases hd with
  | storing b now phase job => exact absurd rfl (hstoring b now phase job)
  | start phase job =>
    cases phase with
    | load => trivial
    | metadata | yamlPath | yaml | profilesPath | profiles => cases hreads
    | check params | send params =>
      obtain ⟨x, hx, hparams⟩ := hok
      exact ⟨x, hhistory hx, hparams⟩
  | dispatch initialStatus had newMeta =>
    intro hactive
    exact absurd hactive (of_decide_eq_false hreads)
  | updateLoad newMeta => cases hreads
  | changeCheck module newMeta | changeSend module newMeta =>
    obtain ⟨x, hx, hmatch⟩ := hok
    exact ⟨x, hhistory hx, hmatch⟩
  | _ => trivial

/-- While `i` stores, every other handler is apart. -/
theorem HandlerOk.apart {hd : Handler R} (hok : e.HandlerOk g j hd) (hwriter : g.writer = some i)
    (hne : j ≠ i) : hd.reads = false ∧ ∀ b now phase job, hd ≠ .storing b now phase job := by
  have hnone : g.writer ≠ none := by simp [hwriter]
  cases hd with
  | storing b now phase job =>
    have := hwriter.symm.trans hok.1
    exact absurd (Option.some.inj this).symm hne
  | start phase job =>
    refine ⟨?_, fun _ _ _ _ h => by cases h⟩
    cases phase with
    | load => rfl
    | metadata | yamlPath | yaml | profilesPath | profiles => exact absurd hok.1 hnone
    | check params => rfl
    | send params => rfl
  | dispatch initialStatus had newMeta =>
    refine ⟨?_, fun _ _ _ _ h => by cases h⟩
    by_contra hactive
    rw [Bool.not_eq_false] at hactive
    exact hnone (hok (of_decide_eq_true hactive)).1
  | updateLoad newMeta => exact absurd hok.1 hnone
  | _ => exact ⟨rfl, fun _ _ _ _ h => by cases h⟩

/-! ### Steps -/

/-- A step of the handler `i` that leaves the store alone. -/
theorem Coherent.after_same (h : e.Coherent s) (hsame : SameStore s.shared g)
    (hthread : e.ThreadOk g g.thread) (hqueue : ∀ c ∈ g.queue, e.CommandOk g c) {hd : Handler R}
    (hok : e.HandlerOk g i hd) : e.Coherent (s.after i (g, hd)) where
  settled := fun hwriter => hsame.settled (h.settled (hsame.writer ▸ hwriter))
  handlers := by
    intro j
    by_cases hj : j = i
    · subst hj
      rw [TargetState.after_self]
      exact hok
    · rw [TargetState.after_other s _ hj]
      exact hsame.handlerOk (h.handlers j)
  queue := hqueue
  thread := hthread

theorem SameStore.refl (g : Shared R) : SameStore g g := ⟨rfl, rfl, rfl, rfl, rfl⟩

/-- A step of the handler `i` that changes nothing it shares. -/
theorem Coherent.after_idle (h : e.Coherent s) {hd : Handler R}
    (hok : e.HandlerOk s.shared i hd) : e.Coherent (s.after i (s.shared, hd)) :=
  h.after_same (.refl _) h.thread h.queue hok

/-- A step of the handler `i` that sends a command. -/
theorem Coherent.after_send (h : e.Coherent s) {c : Command R} (hc : e.CommandOk s.shared c)
    (hsend : s.shared.send c = some g) {hd : Handler R} (hok : e.HandlerOk s.shared i hd) :
    e.Coherent (s.after i (g, hd)) := by
  unfold Shared.send at hsend
  split at hsend
  · cases hsend
    have hsame : SameStore s.shared { s.shared with queue := s.shared.queue ++ [c] } :=
      ⟨rfl, rfl, rfl, rfl, rfl⟩
    refine h.after_same hsame h.thread ?_ (hsame.handlerOk hok)
    intro d hd
    rcases List.mem_append.mp hd with hd | hd
    · exact h.queue d hd
    · rw [List.mem_singleton.mp hd]
      exact hc
  · cases hsend

/-- A step of the storing handler `i`. -/
theorem Coherent.after_store (h : e.Coherent s) (hwriter : s.shared.writer = some i)
    (hhistory : s.shared.history ⊆ g.history) (hsettled : g.writer = none → e.Settled g)
    (hqueue : g.queue = s.shared.queue) (hthread : g.thread = s.shared.thread)
    (hprogram : g.program = s.shared.program) {hd : Handler R} (hok : e.HandlerOk g i hd) :
    e.Coherent (s.after i (g, hd)) where
  settled := hsettled
  handlers := by
    intro j
    by_cases hj : j = i
    · subst hj
      rw [TargetState.after_self]
      exact hok
    · rw [TargetState.after_other s _ hj]
      obtain ⟨hreads, hstoring⟩ := (h.handlers j).apart hwriter hj
      exact (h.handlers j).of_apart hreads hstoring hhistory
  queue := by
    intro c hc
    have hold := h.queue c (hqueue ▸ hc)
    cases c with
    | start params =>
      obtain ⟨x, hx, hparams⟩ := hold
      exact ⟨x, hhistory hx, hparams⟩
    | stop => trivial
    | onlineChange module newMeta reply =>
      obtain ⟨x, hx, hmatch⟩ := hold
      exact ⟨x, hhistory hx, hmatch⟩
  thread := by
    have hold := h.thread
    show e.ThreadOk g g.thread
    rw [hthread]
    cases hcase : s.shared.thread with
    | waiting => trivial
    | building params =>
      rw [hcase] at hold
      obtain ⟨⟨x, hx, hparams⟩, hmeta⟩ := hold
      exact ⟨⟨x, hhistory hx, hparams⟩, hprogram.trans hmeta⟩
    | cycling module | paused module =>
      rw [hcase] at hold
      obtain ⟨metadata, hmeta, x, hx, hmatch⟩ := hold
      exact ⟨metadata, hprogram.trans hmeta, x, hhistory hx, hmatch⟩

theorem locked_some {α : Type} {x y : α} (h : g.locked x = some y) : g.writer = none ∧ y = x := by
  unfold Shared.locked at h
  split at h
  · next hnone => exact ⟨Option.isNone_iff_eq_none.mp hnone, (Option.some.inj h).symm⟩
  · cases h

/-- What `load_module` reads from the bundle that is there. -/
theorem loadModule_ok {x : ProgramBundle × String} (hx : e.Holds g x) {module : Module}
    {name : String} (h : e.loadModule g = .ok (module, name)) :
    e.decodeModule x.1.bytecode = .ok module ∧ name = entryPointOf x.1.manifest.entryPoint := by
  unfold loadModule at h
  rw [hx.current] at h
  have hbytecode : (programOf e.dir x.1 x.2).bytecode = x.1.bytecode := rfl
  dsimp only at h
  rw [hbytecode] at h
  split at h
  · cases h
  · next hdecode =>
    cases h
    exact ⟨hdecode, rfl⟩

/-- A module was loaded from a bundle. -/
theorem loadModule_settled (hsettled : e.Settled g) {r : Module × String}
    (h : e.loadModule g = .ok r) : ∃ x, e.Holds g x := by
  rcases hsettled with hnone | hx
  · rw [loadModule, hnone] at h
    cases h
  · exact hx

theorem StartJob.failed_ok (job : StartJob) (err : ApiError) :
    e.HandlerOk g i (job.failed err) := by
  cases job <;> trivial

theorem StoreJob.failed_ok (job : StoreJob) (err : ApiError) :
    e.HandlerOk g i (job.failed err) := by
  cases job <;> trivial

/-- A step of `start`. -/
theorem Coherent.advanceStart (h : e.Coherent s) {job : StartJob} {phase : StartPhase R}
    (hok : e.StartOk s.shared phase) {r : Shared R × Handler R}
    (hstep : e.advanceStart s.shared job phase = some r) : e.Coherent (s.after i r) := by
  cases phase with
  | load =>
    obtain ⟨hwriter, rfl⟩ := locked_some hstep
    refine h.after_idle ?_
    split
    · exact StartJob.failed_ok job _
    · next module name hload =>
      obtain ⟨x, hx⟩ := loadModule_settled (h.settled hwriter) hload
      exact ⟨hwriter, x, hx, loadModule_ok hx hload⟩
  | metadata module name =>
    obtain ⟨hwriter, rfl⟩ := locked_some hstep
    refine h.after_idle ?_
    split
    · exact StartJob.failed_ok job _
    · next stored hcurrent =>
      obtain ⟨-, x, hx, hmodule, hname⟩ := hok
      have hstored : stored = programOf e.dir x.1 x.2 :=
        Option.some.inj (hcurrent.symm.trans hx.current)
      exact ⟨hwriter, x, hx, hmodule, hname, by rw [hstored]; rfl⟩
  | yamlPath module name metadata =>
    obtain ⟨-, rfl⟩ := locked_some hstep
    exact h.after_idle hok
  | yaml module name metadata =>
    cases hstep
    obtain ⟨hwriter, x, hx, hmodule, hname, hmeta⟩ := hok
    exact h.after_idle ⟨hwriter, x, hx, hmodule, hname, hmeta, by rw [hx.yaml]⟩
  | profilesPath module name metadata cycle =>
    obtain ⟨-, rfl⟩ := locked_some hstep
    exact h.after_idle hok
  | profiles module name metadata cycle =>
    cases hstep
    obtain ⟨-, x, hx, hmodule, rfl, rfl, rfl⟩ := hok
    refine h.after_idle ⟨x, hx.stored, ?_⟩
    rw [paramsOf, hmodule, hx.profiles]
    rfl
  | check params =>
    cases hstep
    refine h.after_idle ?_
    split
    · exact StartJob.failed_ok job _
    · exact hok
  | send params =>
    obtain ⟨g, hsend, rfl⟩ := Option.map_eq_some_iff.mp hstep
    refine h.after_send (c := .start params) hok hsend ?_
    cases job <;> trivial

/-- A step of the storing handler `i` that keeps the lock. -/
theorem Coherent.after_storing (h : e.Coherent s) (hwriter : s.shared.writer = some i)
    (hlock : g.writer = s.shared.writer) (hhistory : g.history = s.shared.history)
    (hqueue : g.queue = s.shared.queue) (hthread : g.thread = s.shared.thread)
    (hprogram : g.program = s.shared.program) {hd : Handler R} (hok : e.HandlerOk g i hd) :
    e.Coherent (s.after i (g, hd)) := by
  refine h.after_store hwriter ?_ ?_ hqueue hthread hprogram hok
  · rw [hhistory]
    exact List.Subset.refl _
  · intro hnone
    rw [hlock, hwriter] at hnone
    cases hnone

/-- A step of `store_bundle`. -/
theorem Coherent.advanceStore (h : e.Coherent s) {b : ProgramBundle} {now : String}
    {job : StoreJob} {phase : StorePhase}
    (hok : e.HandlerOk s.shared i (.storing b now phase job)) :
    e.Coherent (s.after i (e.advanceStore s.shared b now job phase)) := by
  obtain ⟨hwriter, hsettled, hprofiles, hyaml⟩ := hok
  cases phase <;> dsimp only [Host.advanceStore]
  case sources =>
    apply h.after_storing hwriter <;> try rfl
    exact ⟨hwriter, nofun, nofun, nofun⟩
  case profiles =>
    apply h.after_storing hwriter <;> try rfl
    exact ⟨hwriter, nofun, fun _ => rfl, nofun⟩
  case yaml =>
    apply h.after_storing hwriter <;> try rfl
    exact ⟨hwriter, nofun, fun _ => hprofiles (Or.inl rfl), fun _ => rfl⟩
  case memory =>
    have hholds : e.Holds (e.advanceStore s.shared b now job .memory).1 (b, now) :=
      ⟨List.mem_append_right _ (List.mem_singleton_self _), rfl, hyaml rfl, hprofiles (Or.inr rfl)⟩
    refine h.after_store hwriter (List.subset_append_left _ _) (fun _ => Or.inr ⟨_, hholds⟩)
      rfl rfl rfl ?_
    cases job with
    | upload => trivial
    | update initialStatus had => exact fun _ => ⟨rfl, _, hholds, rfl⟩

/-- The handler `i` begins to store while nobody is between its reads. -/
theorem Coherent.beginStore (h : e.Coherent s) (hwriter : s.shared.writer = none)
    (halone : ∀ j, (s.handlers j).reads = false) (b : ProgramBundle) (now : String)
    (job : StoreJob) :
    e.Coherent (s.after i ({ s.shared with writer := some i }, .storing b now .sources job)) where
  settled := nofun
  handlers := by
    intro j
    by_cases hj : j = i
    · subst hj
      rw [TargetState.after_self]
      refine ⟨rfl, fun _ => ?_, nofun, nofun⟩
      rcases h.settled hwriter with hnone | ⟨x, hx⟩
      · exact Or.inl hnone
      · exact Or.inr ⟨x, hx.stored, hx.current, hx.yaml, hx.profiles⟩
    · rw [TargetState.after_other s _ hj]
      refine (h.handlers j).of_apart (halone j) ?_ (List.Subset.refl _)
      intro b' now' phase job' hstoring
      have hok := h.handlers j
      rw [hstoring] at hok
      cases hwriter.symm.trans hok.1
  queue := h.queue
  thread := h.thread

/-- A step of a handler. -/
theorem Coherent.advance (h : e.Coherent s) (halone : StoresAlone s (.run i))
    {r : Shared R × Handler R} (hstep : e.advance s.shared i (s.handlers i) = some r) :
    e.Coherent (s.after i r) := by
  have hok := h.handlers i
  cases hcase : s.handlers i with
  | unused | changeWait | done | doneUpdate =>
    rw [hcase] at hstep
    cases hstep
  | store data now job =>
    rw [hcase] at hstep
    obtain ⟨hwriter, rfl⟩ := locked_some hstep
    split
    · exact h.after_idle (StoreJob.failed_ok job _)
    · next b _ => exact h.beginStore hwriter (halone data now job hcase) b now job
  | storing b now phase job =>
    rw [hcase] at hstep hok
    cases hstep
    exact h.advanceStore hok
  | start phase job =>
    rw [hcase] at hstep hok
    exact h.advanceStart hok hstep
  | stop =>
    rw [hcase] at hstep
    cases hstep
    refine h.after_idle ?_
    split <;> trivial
  | stopSend =>
    rw [hcase] at hstep
    obtain ⟨g, hsend, rfl⟩ := Option.map_eq_some_iff.mp hstep
    exact h.after_send (c := .stop) trivial hsend trivial
  | updateStatus data now =>
    rw [hcase] at hstep
    cases hstep
    exact h.after_idle trivial
  | updateHad data now initialStatus =>
    rw [hcase] at hstep
    obtain ⟨-, rfl⟩ := locked_some hstep
    exact h.after_idle trivial
  | dispatch initialStatus had newMeta =>
    rw [hcase] at hstep hok
    cases hstep
    refine h.after_idle ?_
    cases initialStatus with
    | running => exact hok (Or.inl rfl)
    | debugPaused => exact hok (Or.inr rfl)
    | idle | error | starting | stopping => trivial
  | updateLoad newMeta =>
    rw [hcase] at hstep hok
    obtain ⟨hwriter, rfl⟩ := locked_some hstep
    refine h.after_idle ?_
    split
    · trivial
    · next module name hload =>
      obtain ⟨-, x, hx, hmeta⟩ := hok
      exact ⟨x, hx.stored, (loadModule_ok hx hload).1, hmeta⟩
  | changeCheck module newMeta =>
    rw [hcase] at hstep hok
    cases hstep
    refine h.after_idle ?_
    split
    · exact hok
    · trivial
  | changeSend module newMeta =>
    rw [hcase] at hstep hok
    obtain ⟨g, hsend, rfl⟩ := Option.map_eq_some_iff.mp hstep
    exact h.after_send (c := .onlineChange module newMeta i) hok hsend trivial
  | changed newMeta result =>
    rw [hcase] at hstep
    cases result with
    | ok _ =>
      cases hstep
      exact h.after_idle trivial
    | error msg =>
      cases hstep
      refine h.after_idle ?_
      split <;> trivial
  | restartStop newMeta =>
    rw [hcase] at hstep
    cases hstep
    refine h.after_idle ?_
    split <;> trivial
  | restartSend newMeta =>
    rw [hcase] at hstep
    obtain ⟨g, hsend, rfl⟩ := Option.map_eq_some_iff.mp hstep
    exact h.after_send (c := .stop) trivial hsend trivial
  | restartWait newMeta =>
    rw [hcase] at hstep
    simp only [Host.advance] at hstep
    split at hstep
    · cases hstep
      exact h.after_idle trivial
    · cases hstep

/-- A step of the runtime thread. -/
theorem Coherent.withShared (h : e.Coherent s) (hsame : SameStore s.shared g)
    (hthread : e.ThreadOk g g.thread) (hqueue : ∀ c ∈ g.queue, c ∈ s.shared.queue) :
    e.Coherent { s with shared := g } where
  settled := fun hwriter => hsame.settled (h.settled (hsame.writer ▸ hwriter))
  handlers := fun i => hsame.handlerOk (h.handlers i)
  queue := by
    intro c hc
    have hold := h.queue c (hqueue c hc)
    cases c with
    | start params =>
      obtain ⟨x, hx, hparams⟩ := hold
      exact ⟨x, hsame.history ▸ hx, hparams⟩
    | stop => trivial
    | onlineChange module newMeta reply =>
      obtain ⟨x, hx, hmatch⟩ := hold
      exact ⟨x, hsame.history ▸ hx, hmatch⟩
  thread := hthread

theorem Coherent.replied (h : e.Coherent s) (r : Option (ℕ × Except String Unit)) :
    e.Coherent (s.replied r) := by
  unfold TargetState.replied
  split
  · exact h
  · next i result =>
    split
    · exact h.after_idle (i := i) trivial
    · exact h

/-- What the thread makes of a command it takes. -/
theorem takeCommand_ok (hthread : e.ThreadOk g g.thread) {c : Command R} (hc : e.CommandOk g c)
    {reply : Option (ℕ × Except String Unit)} (hstep : takeCommand g c = some (g', reply)) :
    SameStore g g' ∧ e.ThreadOk g' g'.thread ∧ g'.queue = g.queue := by
  unfold takeCommand at hstep
  split at hstep
  · cases hstep
  · cases hstep
    exact ⟨⟨rfl, rfl, rfl, rfl, rfl⟩, ⟨hc, rfl⟩, rfl⟩
  · cases hstep
    exact ⟨.refl g, hthread, rfl⟩
  · cases hstep
    exact ⟨.refl g, hthread, rfl⟩
  · cases hstep
    exact ⟨.refl g, hthread, rfl⟩
  · cases hstep
    exact ⟨⟨rfl, rfl, rfl, rfl, rfl⟩, trivial, rfl⟩
  · split at hstep
    · cases hstep
      exact ⟨.refl g, hthread, rfl⟩
    · cases hstep
      exact ⟨⟨rfl, rfl, rfl, rfl, rfl⟩, ⟨_, rfl, hc⟩, rfl⟩
  · cases hstep
    exact ⟨.refl g, hthread, rfl⟩
  · cases hstep
    exact ⟨⟨rfl, rfl, rfl, rfl, rfl⟩, trivial, rfl⟩
  · cases hstep
    exact ⟨.refl g, hthread, rfl⟩

/-- The thread takes a command. -/
theorem Coherent.take (h : e.Coherent s) (hstep : e.step s .take = some t) : e.Coherent t := by
  simp only [Host.step] at hstep
  split at hstep
  · cases hstep
  · next c queue hqueue =>
    obtain ⟨⟨g, reply⟩, htake, rfl⟩ := Option.map_eq_some_iff.mp hstep
    have hpopped : e.Coherent { s with shared := { s.shared with queue := queue } } :=
      h.withShared ⟨rfl, rfl, rfl, rfl, rfl⟩ h.thread fun d hd => by
        rw [hqueue]
        exact List.mem_cons_of_mem _ hd
    have hc : e.CommandOk s.shared c := h.queue c (by rw [hqueue]; exact List.mem_cons_self)
    have htaken := takeCommand_ok (e := e) hpopped.thread (c := c)
      (by cases c <;> exact hc) htake
    exact (hpopped.withShared htaken.1 htaken.2.1 fun d hd => htaken.2.2 ▸ hd).replied reply

/-- A step of the system. -/
theorem Coherent.step (h : e.Coherent s) {l : Label} (halone : StoresAlone s l)
    (hstep : e.step s l = some t) : e.Coherent t := by
  cases l with
  | request i r =>
    simp only [Host.step] at hstep
    split at hstep
    · cases hstep
      refine h.after_idle ?_
      cases r <;> trivial
    · cases hstep
  | run i =>
    obtain ⟨r, hadvance, rfl⟩ := Option.map_eq_some_iff.mp hstep
    exact h.advance halone hadvance
  | profilesPart i k =>
    simp only [Host.step] at hstep
    split at hstep
    · next b now job hcase =>
      cases hstep
      have hok := h.handlers i
      rw [hcase] at hok
      apply h.after_storing hok.1 <;> try rfl
      exact ⟨hok.1, nofun, nofun, nofun⟩
    · cases hstep
  | sourcesFail i written msg =>
    simp only [Host.step] at hstep
    split at hstep
    · next b now job hcase =>
      split at hstep
      · cases hstep
      · cases hstep
        have hok := h.handlers i
        rw [hcase] at hok
        apply h.after_store hok.1
        · exact List.Subset.refl _
        · intro _
          rcases hok.2.1 rfl with hnone | ⟨x, hx⟩
          · exact Or.inl hnone
          · exact Or.inr ⟨x, hx.stored, hx.current, hx.yaml, hx.profiles⟩
        · rfl
        · rfl
        · rfl
        · exact StoreJob.failed_ok job _
    · cases hstep
  | giveUp i =>
    simp only [Host.step] at hstep
    split at hstep
    · split at hstep
      · cases hstep
      · cases hstep
        exact h.after_idle trivial
    · cases hstep
  | take => exact h.take hstep
  | built =>
    simp only [Host.step] at hstep
    split at hstep
    · next params hcase =>
      cases hstep
      have hok := h.thread
      rw [hcase] at hok
      obtain ⟨⟨x, hx, hparams⟩, hprogram⟩ := hok
      refine h.withShared ⟨rfl, rfl, rfl, rfl, rfl⟩ ⟨_, hprogram, x, hx, ?_⟩ fun c hc => hc
      unfold paramsOf at hparams
      cases hmodule : e.decodeModule x.1.bytecode with
      | error msg =>
        rw [hmodule] at hparams
        cases hparams
      | ok module =>
        rw [hmodule] at hparams
        cases hparams
        exact ⟨rfl, rfl⟩
    · cases hstep
  | pause =>
    simp only [Host.step] at hstep
    split at hstep
    · next module hcase =>
      cases hstep
      have hok := h.thread
      rw [hcase] at hok
      exact h.withShared ⟨rfl, rfl, rfl, rfl, rfl⟩ hok fun c hc => hc
    · cases hstep
  | resume =>
    simp only [Host.step] at hstep
    split at hstep
    · next module hcase =>
      cases hstep
      have hok := h.thread
      rw [hcase] at hok
      exact h.withShared ⟨rfl, rfl, rfl, rfl, rfl⟩ hok fun c hc => hc
    · cases hstep
  | fault =>
    simp only [Host.step] at hstep
    split at hstep
    · cases hstep
      exact h.withShared ⟨rfl, rfl, rfl, rfl, rfl⟩ trivial fun c hc => hc
    · cases hstep

theorem Fresh.coherent (h : e.Fresh s) : e.Coherent s where
  settled := fun _ => h.settled
  handlers := fun i => by rw [h.handlers i]; trivial
  queue := by simp [h.queue]
  thread := by rw [h.thread]; trivial

/-- **Every run in which no bundle is stored while a handler is between its
reads** starts the runtime with one bundle. -/
theorem coherent_reachable (h : (e.targetLts.restrict StoresAlone).Reachable s) : e.Coherent s :=
  h.inv_restrict (fun _ h0 => Fresh.coherent h0) fun _ _ _ hs hc hstep => hs.step hc hstep

end Host

/-! ## All or nothing -/

/-- The engine refuses with a message that asks for a restart. -/
theorem incompatible_asksRestart (a : ChangeAnalysis) :
    Host.asksRestart (incompatibleMessage a) = true := by
  have hfront : "Incompatible change".toList <+: "Incompatible change: ".toList := by decide
  have hmessage : "Incompatible change".toList <+: (incompatibleMessage a).toList := by
    unfold incompatibleMessage
    rw [String.toList_append]
    exact hfront.trans (List.prefix_append _ _)
  unfold Host.asksRestart
  exact decide_eq_true hmessage

/-- What a handler can change: the stored program, and the runtime through
the commands it sends. -/
def Shared.effects (g : Shared R) :
    Option StoredProgram × Option NamedFiles × NamedFiles × Option Bytes × List (Command R) :=
  (g.current, g.sources, g.profiles, g.yaml, g.queue)

/-- The handler that makes the step. -/
def Label.actor : Label → Option ℕ
  | .request i _ => some i
  | .run i => some i
  | .profilesPart i _ => some i
  | .sourcesFail i _ _ => some i
  | .giveUp i => some i
  | _ => none

/-- The update has not come as far as its bundle, or has failed. -/
def Handler.untouched : Handler R → Bool
  | .unused => true
  | .updateStatus _ _ => true
  | .updateHad _ _ _ => true
  | .store _ _ (.update _ _) => true
  | .doneUpdate (.error _) => true
  | _ => false

/-- The update has been refused with an error that does not ask for a restart. -/
def Handler.refused : Handler R → Bool
  | .changed _ (.error msg) => !Host.asksRestart msg
  | _ => false

namespace Host

variable (e : Host R)

/-- Runs of the agent, with the handlers that have had an effect. -/
def trackedLts : Lts (TargetState R × (ℕ → Prop)) Label where
  init := fun p => e.Fresh p.1 ∧ ∀ i, ¬ p.2 i
  step := fun p l q => e.step p.1 l = some q.1 ∧ ∀ i, q.2 i ↔
    p.2 i ∨ (l.actor = some i ∧ q.1.shared.effects ≠ p.1.shared.effects)

/-- An update that returned an error has had no effect. -/
def AllOrNothing (p : TargetState R × (ℕ → Prop)) : Prop :=
  ∀ i err, p.1.handlers i = .doneUpdate (.error err) → ¬ p.2 i

/-- Nothing goes wrong behind the `store_bundle` of an update: its sources can
be written, the runtime was not in transition, the stored bytecode is a module, the
runtime cycles until it has answered, and a restart finds it idle in time. -/
def AnswersUpdates (s : TargetState R) : Label → Prop
  | .run i => match s.handlers i with
    | .dispatch initialStatus _ _ => initialStatus ≠ .starting ∧ initialStatus ≠ .stopping
    | .updateLoad _ => ∃ r, e.loadModule s.shared = .ok r
    | .changeCheck _ _ => s.shared.active = true
    | .start .load (.restart _) => ∃ r, e.loadModule s.shared = .ok r
    | .start (.metadata _ _) (.restart _) => s.shared.current ≠ none
    | .start (.check _) (.restart _) => ¬ (s.shared.status = .running ∨ s.shared.status = .starting)
    | _ => True
  | .sourcesFail i _ _ => ∀ b now phase status had,
      s.handlers i ≠ .storing b now phase (.update status had)
  | .giveUp _ => False
  | .take => ∀ module newMeta i queue, s.shared.queue = .onlineChange module newMeta i :: queue →
      ∃ running, s.shared.thread = .cycling running
  | _ => True

/-- No step leads an update back to where it had no effect, or refuses it. -/
structure Keeps (s t : TargetState R) (l : Label) : Prop where
  untouched : ∀ i, (t.handlers i).untouched = true → (s.handlers i).untouched = true ∧
    (l.actor = some i → t.shared.effects = s.shared.effects)
  refused : ∀ i, (s.handlers i).refused = false → (t.handlers i).refused = false

variable {e} {s t : TargetState R} {i : ℕ} {g : Shared R}

theorem keeps_after {l : Label} (hactor : l.actor = some i) {r : Shared R × Handler R}
    (h : r.2.untouched = true → (s.handlers i).untouched = true ∧
      r.1.effects = s.shared.effects) (hrefused : r.2.refused = false) :
    Keeps s (s.after i r) l where
  untouched := by
    intro j hj
    by_cases hij : j = i
    · subst hij
      rw [TargetState.after_self] at hj
      exact ⟨(h hj).1, fun _ => (h hj).2⟩
    · rw [TargetState.after_other s r hij] at hj
      refine ⟨hj, fun hother => ?_⟩
      rw [hactor] at hother
      exact absurd (Option.some.inj hother).symm hij
  refused := by
    intro j hj
    by_cases hij : j = i
    · subst hij
      rw [TargetState.after_self]
      exact hrefused
    · rwa [TargetState.after_other s r hij]

/-- A handler that has stored its bundle goes on. -/
theorem keeps_touched {l : Label} (hactor : l.actor = some i) {r : Shared R × Handler R}
    (h : r.2.untouched = false ∧ r.2.refused = false) : Keeps s (s.after i r) l :=
  keeps_after hactor (fun hu => absurd hu (by simp [h.1])) h.2

/-- A step of `start`. -/
theorem keeps_advanceStart {phase : StartPhase R} {job : StartJob}
    (hanswers : match phase, job with
      | .load, .restart _ => ∃ r, e.loadModule s.shared = .ok r
      | .metadata _ _, .restart _ => s.shared.current ≠ none
      | .check _, .restart _ => ¬ (s.shared.status = .running ∨ s.shared.status = .starting)
      | _, _ => True)
    {r : Shared R × Handler R} (hstep : e.advanceStart s.shared job phase = some r) :
    Keeps s (s.after i r) (.run i) := by
  cases phase with
  | load =>
    obtain ⟨-, rfl⟩ := locked_some hstep
    apply keeps_touched rfl
    dsimp only
    cases job with
    | request => split <;> exact ⟨rfl, rfl⟩
    | restart newMeta =>
      obtain ⟨⟨module, name⟩, hload⟩ := hanswers
      rw [hload]
      exact ⟨rfl, rfl⟩
  | metadata module name =>
    obtain ⟨-, rfl⟩ := locked_some hstep
    apply keeps_touched rfl
    dsimp only
    cases job with
    | request => split <;> exact ⟨rfl, rfl⟩
    | restart newMeta =>
      split
      · next hnone => exact absurd hnone hanswers
      · exact ⟨rfl, rfl⟩
  | yamlPath | profilesPath =>
    obtain ⟨-, rfl⟩ := locked_some hstep
    exact keeps_touched rfl ⟨rfl, rfl⟩
  | yaml | profiles =>
    cases hstep
    exact keeps_touched rfl ⟨rfl, rfl⟩
  | check params =>
    cases hstep
    apply keeps_touched rfl
    dsimp only
    cases job with
    | request => split <;> exact ⟨rfl, rfl⟩
    | restart newMeta =>
      rw [if_neg hanswers]
      exact ⟨rfl, rfl⟩
  | send params =>
    obtain ⟨g, -, rfl⟩ := Option.map_eq_some_iff.mp hstep
    apply keeps_touched rfl
    cases job <;> exact ⟨rfl, rfl⟩

/-- A step of a handler. -/
theorem keeps_advance (hanswers : e.AnswersUpdates s (.run i))
    (hanswered : ∀ i, (s.handlers i).refused = false)
    {r : Shared R × Handler R} (hstep : e.advance s.shared i (s.handlers i) = some r) :
    Keeps s (s.after i r) (.run i) := by
  have hanswers : match s.handlers i with
    | .dispatch initialStatus _ _ => initialStatus ≠ .starting ∧ initialStatus ≠ .stopping
    | .updateLoad _ => ∃ r, e.loadModule s.shared = .ok r
    | .changeCheck _ _ => s.shared.active = true
    | .start .load (.restart _) => ∃ r, e.loadModule s.shared = .ok r
    | .start (.metadata _ _) (.restart _) => s.shared.current ≠ none
    | .start (.check _) (.restart _) => ¬ (s.shared.status = .running ∨ s.shared.status = .starting)
    | _ => True := hanswers
  cases hcase : s.handlers i with
  | unused | changeWait | done | doneUpdate =>
    rw [hcase] at hstep
    cases hstep
  | store data now job =>
    rw [hcase] at hstep
    obtain ⟨-, rfl⟩ := locked_some hstep
    split
    · cases job with
      | upload => exact keeps_touched rfl ⟨rfl, rfl⟩
      | update status had => exact keeps_after rfl (fun _ => ⟨by rw [hcase]; rfl, rfl⟩) rfl
    · exact keeps_touched rfl ⟨rfl, rfl⟩
  | storing b now phase job =>
    rw [hcase] at hstep
    cases hstep
    cases phase with
    | sources | profiles | yaml => exact keeps_touched rfl ⟨rfl, rfl⟩
    | memory => cases job <;> exact keeps_touched rfl ⟨rfl, rfl⟩
  | start phase job =>
    rw [hcase] at hstep hanswers
    refine keeps_advanceStart ?_ hstep
    cases phase <;> cases job <;> exact hanswers
  | stop =>
    rw [hcase] at hstep
    cases hstep
    apply keeps_touched rfl
    dsimp only
    split <;> exact ⟨rfl, rfl⟩
  | stopSend =>
    rw [hcase] at hstep
    obtain ⟨g, -, rfl⟩ := Option.map_eq_some_iff.mp hstep
    exact keeps_touched rfl ⟨rfl, rfl⟩
  | updateStatus data now =>
    rw [hcase] at hstep
    cases hstep
    exact keeps_after rfl (fun _ => ⟨by rw [hcase]; rfl, rfl⟩) rfl
  | updateHad data now initialStatus =>
    rw [hcase] at hstep
    obtain ⟨-, rfl⟩ := locked_some hstep
    exact keeps_after rfl (fun _ => ⟨by rw [hcase]; rfl, rfl⟩) rfl
  | dispatch initialStatus had newMeta =>
    rw [hcase] at hstep hanswers
    cases hstep
    cases initialStatus with
    | starting => exact absurd rfl hanswers.1
    | stopping => exact absurd rfl hanswers.2
    | running | debugPaused | idle | error => exact keeps_touched rfl ⟨rfl, rfl⟩
  | updateLoad newMeta =>
    rw [hcase] at hstep hanswers
    obtain ⟨-, rfl⟩ := locked_some hstep
    obtain ⟨⟨module, name⟩, hload⟩ := hanswers
    rw [hload]
    exact keeps_touched rfl ⟨rfl, rfl⟩
  | changeCheck module newMeta =>
    rw [hcase] at hstep hanswers
    cases hstep
    rw [if_pos hanswers]
    exact keeps_touched rfl ⟨rfl, rfl⟩
  | changeSend module newMeta =>
    rw [hcase] at hstep
    obtain ⟨g, -, rfl⟩ := Option.map_eq_some_iff.mp hstep
    exact keeps_touched rfl ⟨rfl, rfl⟩
  | changed newMeta result =>
    rw [hcase] at hstep
    cases result with
    | ok _ =>
      cases hstep
      exact keeps_touched rfl ⟨rfl, rfl⟩
    | error msg =>
      cases hstep
      have hrestart : asksRestart msg = true := by simpa [Handler.refused, hcase] using hanswered i
      rw [if_pos hrestart]
      exact keeps_touched rfl ⟨rfl, rfl⟩
  | restartStop newMeta =>
    rw [hcase] at hstep
    cases hstep
    apply keeps_touched rfl
    dsimp only
    split <;> exact ⟨rfl, rfl⟩
  | restartSend newMeta =>
    rw [hcase] at hstep
    obtain ⟨g, -, rfl⟩ := Option.map_eq_some_iff.mp hstep
    exact keeps_touched rfl ⟨rfl, rfl⟩
  | restartWait newMeta =>
    rw [hcase] at hstep
    simp only [Host.advance] at hstep
    split at hstep
    · cases hstep
      exact keeps_touched rfl ⟨rfl, rfl⟩
    · cases hstep

/-- A reply changes the handler that waits for it only. -/
theorem replied_handlers (s : TargetState R) (r : Option (ℕ × Except String Unit)) (i : ℕ) :
    (s.replied r).handlers i = s.handlers i ∨ ∃ newMeta result,
      s.handlers i = .changeWait newMeta ∧ r = some (i, result) ∧
        (s.replied r).handlers i = .changed newMeta result := by
  unfold TargetState.replied
  split
  · exact Or.inl rfl
  · next j result =>
    split
    · next newMeta hwait =>
      by_cases hij : i = j
      · subst hij
        exact Or.inr ⟨newMeta, result, hwait, rfl, Function.update_self ..⟩
      · exact Or.inl (Function.update_of_ne hij ..)
    · exact Or.inl rfl

/-- Only the cycling runtime answers, and it refuses with a reason that asks
for a restart. -/
theorem takeCommand_answer {c : Command R} (hthread : ∀ module newMeta i,
      c = .onlineChange module newMeta i → ∃ running, g.thread = .cycling running)
    {g' : Shared R} {msg : String} (hstep : takeCommand g c = some (g', some (i, .error msg))) :
    asksRestart msg = true := by
  cases c with
  | start params =>
    unfold takeCommand at hstep
    split at hstep <;> simp_all
  | stop =>
    unfold takeCommand at hstep
    split at hstep <;> simp_all
  | onlineChange module newMeta j =>
    obtain ⟨running, hcycling⟩ := hthread module newMeta j rfl
    simp only [takeCommand, hcycling] at hstep
    unfold refusal at hstep
    split at hstep
    · next msg' hrefused =>
      split at hrefused
      · cases hrefused
      · cases hrefused
        cases hstep
        exact incompatible_asksRestart _
    · cases hstep

/-- The thread takes a command. -/
theorem keeps_take (hanswers : e.AnswersUpdates s .take) (hstep : e.step s .take = some t) :
    Keeps s t .take := by
  simp only [Host.step] at hstep
  split at hstep
  · cases hstep
  · next c queue hqueue =>
    obtain ⟨⟨g, reply⟩, htake, rfl⟩ := Option.map_eq_some_iff.mp hstep
    constructor
    · intro i hi
      refine ⟨?_, nofun⟩
      rcases replied_handlers { s with shared := g } reply i with heq | ⟨newMeta, result, -, -, heq⟩
      · rwa [heq] at hi
      · rw [heq] at hi
        cases hi
    · intro i hi
      rcases replied_handlers { s with shared := g } reply i with heq | ⟨newMeta, result, -, hr, heq⟩
      · rw [heq]
        exact hi
      · rw [heq]
        subst hr
        cases result with
        | ok _ => rfl
        | error msg =>
          have hrestart : asksRestart msg = true := by
            refine takeCommand_answer ?_ htake
            rintro module newMeta' j rfl
            exact hanswers module newMeta' j queue hqueue
          simp [Handler.refused, hrestart]

/-- A step of the system. -/
theorem keeps_step {l : Label} (hanswers : e.AnswersUpdates s l)
    (hanswered : ∀ i, (s.handlers i).refused = false) (hstep : e.step s l = some t) :
    Keeps s t l := by
  cases l with
  | request i r =>
    simp only [Host.step] at hstep
    split at hstep
    · next hcase =>
      cases hstep
      exact keeps_after rfl (fun _ => ⟨by rw [hcase]; rfl, rfl⟩) (by cases r <;> rfl)
    · cases hstep
  | run i =>
    obtain ⟨r, hadvance, rfl⟩ := Option.map_eq_some_iff.mp hstep
    exact keeps_advance hanswers hanswered hadvance
  | profilesPart i k =>
    simp only [Host.step] at hstep
    split at hstep
    · cases hstep
      exact keeps_touched rfl ⟨rfl, rfl⟩
    · cases hstep
  | sourcesFail i written msg =>
    simp only [Host.step] at hstep
    split at hstep
    · next b now job hcase =>
      split at hstep
      · cases hstep
      · cases hstep
        cases job with
        | upload => exact keeps_touched rfl ⟨rfl, rfl⟩
        | update status had => exact absurd hcase (hanswers b now _ status had)
    · cases hstep
  | giveUp i => exact hanswers.elim
  | take => exact keeps_take hanswers hstep
  | built | pause | resume | fault =>
    simp only [Host.step] at hstep
    split at hstep
    · cases hstep
      exact ⟨fun i hi => ⟨hi, nofun⟩, fun i hi => hi⟩
    · cases hstep

/-- **Every run in which nothing goes wrong behind the `store_bundle` of an
update**: an update that failed has had no effect. -/
theorem failed_update_untouched {p : TargetState R × (ℕ → Prop)}
    (h : (e.trackedLts.restrict fun p l => e.AnswersUpdates p.1 l).Reachable p) :
    AllOrNothing p := by
  have hinv : (∀ i, (p.1.handlers i).untouched = true → ¬ p.2 i) ∧
      ∀ i, (p.1.handlers i).refused = false := by
    refine h.inv_restrict (I := fun p => (∀ i, (p.1.handlers i).untouched = true → ¬ p.2 i) ∧
      ∀ i, (p.1.handlers i).refused = false) ?_ ?_
    · rintro ⟨s, acted⟩ ⟨hfresh, hacted⟩
      refine ⟨fun i _ => hacted i, fun i => ?_⟩
      rw [hfresh.handlers i]
      rfl
    · rintro ⟨s, acted⟩ l ⟨t, acted'⟩ ⟨huntouched, hrefused⟩ hanswers ⟨hstep, hacted⟩
      have hkeeps := keeps_step hanswers hrefused hstep
      refine ⟨fun i hi hact => ?_, fun i => hkeeps.refused i (hrefused i)⟩
      obtain ⟨hbefore, hsame⟩ := hkeeps.untouched i hi
      rcases (hacted i).mp hact with hact | ⟨hactor, hchanged⟩
      · exact huntouched i hbefore hact
      · exact hchanged (hsame hactor)
  intro i err hdone
  refine hinv.1 i ?_
  rw [hdone]
  rfl

/-- **Updates and starts**: an update that fails has had no effect in every
run in which nothing goes wrong behind its `store_bundle`, and the runtime is
started with one stored bundle and reports the metadata of the module it
executes in every run in which no bundle is stored between a handler's reads. -/
theorem requests_consistent (e : Host R) :
    (∀ p, (e.trackedLts.restrict fun p l => e.AnswersUpdates p.1 l).Reachable p →
      AllOrNothing p) ∧
    ∀ s, (e.targetLts.restrict StoresAlone).Reachable s → e.OneBundle s.shared :=
  ⟨fun _ h => failed_update_untouched h, fun _ h => (coherent_reachable h).oneBundle⟩

/-- The state after some steps. -/
def steps (e : Host R) : TargetState R → List Label → Option (TargetState R)
  | s, [] => some s
  | s, l :: ls => (e.step s l).bind fun t => e.steps t ls

theorem steps_reachable (h : e.targetLts.Reachable s) (ls : List Label) :
    e.steps s ls = some t → e.targetLts.Reachable t := by
  induction ls generalizing s with
  | nil =>
    rintro ⟨⟩
    exact h
  | cons l ls ih =>
    intro hsteps
    obtain ⟨u, hu, hrest⟩ := Option.bind_eq_some_iff.mp hsteps
    exact ih (.step (a := l) h hu) hrest

end Host

end

/-! ## Two bundles -/

/-- The SHA-256 digests of two programs of one byte. -/
def plainDigest (bytecode : Bytes) : String :=
  if bytecode = [0] then "6e340b9cffb37a989ca544e6bb780a2c78901d3fb33738768511a30617afa01d"
  else "4bf5122f344554c53bde2ebb8cd2b7e3d1600ad631c385a5d7cce23c7785459a"

def plainManifest (bytecode : Bytes) : BundleManifest :=
  ⟨"pump", if bytecode = [0] then "1.0.0" else "2.0.0", .release, "2026-01-01T00:00:00+00:00",
    plainDigest bytecode, false, none⟩

/-- The second program has a native function block. -/
def plainModule (bytecode : Bytes) : Module :=
  ⟨[], .empty, [], if bytecode = [0] then [] else [0]⟩

/-- A target to which a program is uploaded as its bytecode. -/
def plainHost : Host Unit where
  lib := {
    entries := fun data => [.ok ("manifest.yaml", data), .ok ("program.stc", data)]
    manifest := fun data => .ok (plainManifest data)
    sha256Hex := plainDigest
    encodeMeta := fun _ => []
    decodeMeta := fun _ => none
    osError := "File exists (os error 17)" }
  dir := ["plc"]
  decodeModule := fun bytecode => .ok (plainModule bytecode)
  projectCycleTime := fun _ => none
  nativeFbRegistry := fun _ => none

def plainBundle (bytecode : Bytes) : ProgramBundle := ⟨plainManifest bytecode, bytecode, [], none, []⟩

def plainState : TargetState Unit where
  shared := ⟨none, none, [], none, none, .idle, none, .waiting, [], []⟩
  handlers := fun _ => .unused

theorem plainState_fresh : plainHost.Fresh plainState :=
  ⟨fun _ => rfl, rfl, rfl, rfl, rfl, Or.inl rfl⟩

def firstTime : String := "2026-01-02T00:00:00+00:00"

def secondTime : String := "2026-01-03T00:00:00+00:00"

/-- The first program is uploaded, started and stopped at a breakpoint. -/
def untilPaused : List Label :=
  .request 0 (.upload [0] firstTime) :: List.replicate 5 (.run 0) ++
    (.request 1 .start :: List.replicate 8 (.run 1) ++ [.take, .built, .pause])

/-- The second program comes as an update. -/
def updatePaused : List Label :=
  .request 2 (.update [1] secondTime) :: List.replicate 11 (.run 2) ++ [.take, .run 2]

/-- The second program is uploaded while the first one is being started. -/
def uploadDuringStart : List Label :=
  .request 0 (.upload [0] firstTime) :: List.replicate 5 (.run 0) ++
    ([.request 1 .start, .run 1, .request 2 (.upload [1] secondTime)] ++
      List.replicate 5 (.run 2) ++ List.replicate 7 (.run 1))

/-- **An update that fails at a breakpoint has replaced the stored program, and
a start that overlaps an upload combines two bundles.** -/
theorem update_and_start_mix_programs :
    (∃ s t, plainHost.targetLts.Reachable s ∧ plainHost.steps s updatePaused = some t ∧
      t.handlers 2 = .doneUpdate (.error
        (.internal "Cannot apply online change while debug session is paused")) ∧
      s.shared.current.map (·.metadata.version) = some "1.0.0" ∧
      t.shared.current.map (·.metadata.version) = some "2.0.0") ∧
    ∃ s, plainHost.targetLts.Reachable s ∧ ¬ plainHost.OneBundle s.shared := by
  have hinit : plainHost.targetLts.Reachable plainState := .init plainState_fresh
  constructor
  · refine ⟨(plainHost.steps plainState untilPaused).getD plainState,
      (plainHost.steps plainState (untilPaused ++ updatePaused)).getD plainState, ?_, rfl, rfl, rfl,
      rfl⟩
    exact Host.steps_reachable hinit untilPaused rfl
  · refine ⟨_, Host.steps_reachable hinit uploadDuringStart rfl, fun h => ?_⟩
    -- the module of the first bundle with the metadata of the second
    obtain ⟨x, hx, hparams⟩ := h.starts ⟨plainModule [0], "Main", 10,
      metadataOf (plainManifest [1]) secondTime, none⟩ (Or.inl List.mem_cons_self)
    have hstored : x ∈ [(plainBundle [0], firstTime), (plainBundle [1], secondTime)] := hx
    rcases List.mem_pair.mp hstored with rfl | rfl
    · have := congrArg (fun p => p.programMeta.version) (Except.ok.inj hparams)
      exact absurd this (by decide)
    · have := congrArg (fun p => p.module) (Except.ok.inj hparams)
      exact absurd this (by decide)

end RustPlc.Target
