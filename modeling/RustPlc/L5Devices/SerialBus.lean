import Mathlib.Data.List.Nodup
import RustPlc.Core.Lts

/-!
# One bus thread for each serial port

The devices of a port register on its bus in any order and at any time; one
thread passes through them and polls those that are due. Its steps are
interleaved with registrations, with the opening of ports, and with the
clock; a poll takes any time.

Results:
* `Bus.Sound.add`, `Bus.Sound.advance`: what a registration and a step of the thread keep;
* `BusManager.sound_of_reachable`: it holds in every run;
* `bus_law`: the polls of a port follow one another, at most one for each refresh
  interval of a device, and no device that is due is passed by twice.
-/
namespace RustPlc.Devices.SerialBus

open RustPlc.Core

/-! ## Buses -/

/-- Times are in nanoseconds. mirrors crates/st-comm-serial/src/bus.rs:36-40 -/
structure BusEntry where
  interval : Nat
  lastIo : Option Nat
  deriving DecidableEq

/-- mirrors crates/st-comm-serial/src/bus.rs:141-144 -/
def BusEntry.due (e : BusEntry) (now : Nat) : Bool :=
  match e.lastIo with
  | none => true
  | some last => e.interval ≤ now - last

/-- Where a thread is in `bus_thread_loop`: it waits for the transport, is
about to lock the devices, looks at device `k`, polls it since `start`, or
sleeps. -/
inductive Phase where
  | waiting
  | locking
  | scanning (k : Nat) (anyPolled : Bool)
  | polling (k start : Nat)
  | sleeping (wake : Nat)
  deriving DecidableEq

/-- The thread holds the lock of the devices. -/
def Phase.locks : Phase → Bool
  | .scanning _ _ | .polling _ _ => true
  | .waiting | .locking | .sleeping _ => false

/-- A poll, with the number of devices that were registered. -/
structure Poll where
  device : Nat
  start : Nat
  finish : Nat
  registered : Nat
  deriving DecidableEq

/-- A bus with its threads, and the polls so far.
mirrors crates/st-comm-serial/src/bus.rs:43-46 -/
structure Bus where
  devices : List BusEntry
  threadStarted : Bool
  threads : List Phase
  polls : List Poll
  deriving DecidableEq

def Bus.empty : Bus := ⟨[], false, [], []⟩

def Bus.intervals (b : Bus) : List Nat := b.devices.map BusEntry.interval

def Bus.locked (b : Bus) : Bool := b.threads.any Phase.locks

/-- A device is added, and the thread of the bus is spawned unless it has
been. mirrors crates/st-comm-serial/src/bus.rs:89-113 -/
def Bus.add (b : Bus) (interval : Nat) : Bus :=
  { b with
    devices := b.devices ++ [⟨interval, none⟩]
    threads := if b.threadStarted then b.threads else b.threads ++ [.waiting]
    threadStarted := true }

/-- `sleep(Duration::from_millis(1))` -/
def pause : Nat := 1000000

/-- The poll of device `k` ends.
mirrors crates/st-comm-serial/src/bus.rs:148-149 -/
def Bus.polled (b : Bus) (k start now : Nat) : Bus :=
  { b with
    devices := b.devices.modify k fun e => { e with lastIo := some now }
    polls := b.polls ++ [⟨k, start, now, b.devices.length⟩] }

/-- The next step of a thread; `none` while it waits.
mirrors crates/st-comm-serial/src/bus.rs:119-158 -/
def Bus.advance (b : Bus) (now : Nat) (opened : Bool) : Phase → Option (Bus × Phase)
  | .waiting => if opened then some (b, .locking) else none
  | .locking => if b.locked then none else some (b, .scanning 0 false)
  | .scanning k anyPolled => match b.devices[k]? with
    | none => some (b, if anyPolled then .locking else .sleeping (now + pause))
    | some e => some (b, if e.due now then .polling k now else .scanning (k + 1) anyPolled)
  | .polling k start => some (b.polled k start now, .scanning (k + 1) true)
  | .sleeping wake => if wake ≤ now then some (b, .locking) else none

/-- mirrors crates/st-comm-serial/src/bus.rs:53-56, with the clock and the
ports in the transport map. -/
structure BusManager where
  now : Nat
  transports : List String
  buses : List (String × Bus)
  deriving DecidableEq

def BusManager.new : BusManager := ⟨0, [], []⟩

def BusManager.bus? (m : BusManager) (port : String) : Option Bus :=
  (m.buses.find? fun e => e.1 == port).map (·.2)

/-- The entry of a port, put in place or added. -/
def BusManager.put (m : BusManager) (port : String) (b : Bus) : BusManager :=
  { m with buses := if (m.bus? port).isSome then
      m.buses.map fun e => if e.1 == port then (port, b) else e
    else m.buses ++ [(port, b)] }

/-- `register` waits while the bus is locked.
mirrors crates/st-comm-serial/src/bus.rs:72-115 -/
def BusManager.register (m : BusManager) (port : String) (interval : Nat) : Option BusManager :=
  let b := (m.bus? port).getD .empty
  if b.locked then none else some (m.put port (b.add interval))

/-- A step of thread `i` of a port. -/
def BusManager.thread (m : BusManager) (port : String) (i : Nat) : Option BusManager := do
  let b ← m.bus? port
  let phase ← b.threads[i]?
  let (b', phase') ← b.advance m.now (m.transports.contains port) phase
  return m.put port { b' with threads := b'.threads.set i phase' }

inductive BusStep where
  | tick
  | opened (port : String)
  | register (port : String) (interval : Nat)
  | thread (port : String) (i : Nat)

def BusManager.step (m : BusManager) : BusStep → Option BusManager
  | .tick => some { m with now := m.now + 1 }
  | .opened port => some { m with transports := port :: m.transports }
  | .register port interval => m.register port interval
  | .thread port i => m.thread port i

/-- The runs of a bus manager. -/
def busLts : Lts BusManager BusStep := Lts.ofFun (· = .new) BusManager.step

/-! ## What is asked of the polls -/

/-- A poll ends before the next one starts. -/
def Serial (polls : List Poll) : Prop :=
  (∀ p ∈ polls, p.start ≤ p.finish) ∧ polls.Pairwise fun p q => p.finish ≤ q.start

/-- Between two polls of a device there is its refresh interval. -/
def Spaced (intervals : List Nat) (polls : List Poll) : Prop :=
  polls.Pairwise fun p q => p.device = q.device →
    ∀ d ∈ intervals[p.device]?, p.finish + d ≤ q.start

/-- Device `j` with interval `d` is due at a poll: it was registered when that
started, and its polls before it are an interval ago. -/
def DueAt (j d : Nat) (before : List Poll) (p : Poll) : Prop :=
  j < p.registered ∧ ∀ r ∈ before, r.device = j → r.finish + d ≤ p.start

/-- A device that is due when another one is polled has its turn before that
one is polled again. -/
def Fair (intervals : List Nat) (polls : List Poll) : Prop :=
  ∀ before p between q after, polls = before ++ p :: (between ++ q :: after) →
    p.device = q.device → ∀ j, j ≠ p.device → ∀ d ∈ intervals[j]?, DueAt j d before p →
      ∃ r ∈ between, r.device = j

/-! ## Turns -/

/-- From position `k` on, in a circle, `j` comes before `i`. -/
def Turn (k j i : Nat) : Prop := k ≤ j ∧ j < i ∨ j < i ∧ i < k ∨ i < k ∧ k ≤ j

theorem Turn.ne {k j i : Nat} (h : Turn k j i) : k ≠ i := by
  unfold Turn at h
  omega

theorem Turn.next {k j i : Nat} (h : Turn k j i) (hj : k ≠ j) : Turn (k + 1) j i := by
  unfold Turn at h ⊢
  omega

theorem Turn.wrap {k j i : Nat} (h : Turn k j i) (hj : j < k) : Turn 0 j i := by
  unfold Turn at h ⊢
  omega

theorem turn_after {i j : Nat} (h : j ≠ i) : Turn (i + 1) j i := by
  unfold Turn
  omega

/-- Where the thread is, it comes to `j` before it polls `i`. -/
def Phase.Ahead (j i : Nat) : Phase → Prop
  | .scanning k _ => Turn k j i
  | .polling k _ => k = j ∨ k ≠ i ∧ Turn (k + 1) j i
  | .waiting | .locking | .sleeping _ => Turn 0 j i

/-- A device that was due at the latest poll of another one has had its turn,
or has it before that one. -/
def Pending (intervals : List Nat) (polls : List Poll) (phase : Phase) : Prop :=
  ∀ before p between, polls = before ++ p :: between → (∀ r ∈ between, r.device ≠ p.device) →
    ∀ j, j ≠ p.device → ∀ d ∈ intervals[j]?, DueAt j d before p →
      (∃ r ∈ between, r.device = j) ∨ phase.Ahead j p.device

/-! ## The polls of a bus -/

/-- What holds of the thread of a bus. -/
def Bus.At (b : Bus) (now : Nat) : Phase → Prop
  | .polling k start => k < b.devices.length ∧ start ≤ now ∧ (∀ r ∈ b.polls, r.finish ≤ start) ∧
    ∀ d ∈ b.intervals[k]?, ∀ r ∈ b.polls, r.device = k → r.finish + d ≤ start
  | .waiting | .locking | .scanning _ _ | .sleeping _ => True

/-- `last_io` is the end of the latest poll. -/
def Bus.Latest (b : Bus) : Prop :=
  ∀ j, ∀ e ∈ b.devices[j]?,
    (∀ l ∈ e.lastIo, ∃ p ∈ b.polls, p.device = j ∧ p.finish = l) ∧
    ∀ p ∈ b.polls, p.device = j → ∃ l ∈ e.lastIo, p.finish ≤ l

/-- The invariant of a bus. -/
structure Bus.Sound (b : Bus) (now : Nat) : Prop where
  single : b.threads.length ≤ 1
  started : b.threadStarted = !b.threads.isEmpty
  silent : b.threads = [] → b.polls = []
  serial : Serial b.polls
  spaced : Spaced b.intervals b.polls
  fair : Fair b.intervals b.polls
  past : ∀ p ∈ b.polls, p.finish ≤ now
  known : ∀ p ∈ b.polls, p.device < b.devices.length ∧ p.registered ≤ b.devices.length
  latest : b.Latest
  at_ : ∀ phase ∈ b.threads, b.At now phase
  pending : ∀ phase ∈ b.threads, Pending b.intervals b.polls phase

theorem sound_empty (now : Nat) : Bus.empty.Sound now where
  single := Nat.zero_le 1
  started := rfl
  silent := fun _ => rfl
  serial := ⟨nofun, .nil⟩
  spaced := .nil
  fair := fun before _ _ _ _ h => absurd h (by simp [Bus.empty])
  past := nofun
  known := nofun
  latest := fun j e he => absurd he (by simp [Bus.empty])
  at_ := nofun
  pending := nofun

theorem Bus.Sound.later {b : Bus} {now now' : Nat} (h : b.Sound now) (hle : now ≤ now') :
    b.Sound now' :=
  { h with
    past := fun p hp => Nat.le_trans (h.past p hp) hle
    at_ := fun phase hphase => by
      have hat := h.at_ phase hphase
      cases phase with
      | polling k start => exact ⟨hat.1, Nat.le_trans hat.2.1 hle, hat.2.2⟩
      | waiting | locking | scanning | sleeping => trivial }

/-! ### Registration -/

section

variable {intervals : List Nat} {polls : List Poll}

/-- A new device changes nothing for the polls before. -/
theorem Spaced.add (h : Spaced intervals polls) (hk : ∀ p ∈ polls, p.device < intervals.length)
    (d : Nat) : Spaced (intervals ++ [d]) polls := by
  refine List.Pairwise.imp_of_mem (fun {p q} hp _ hpq hd e he => ?_) h
  rw [List.getElem?_append_left (hk p hp)] at he
  exact hpq hd e he

theorem DueAt.known {j d : Nat} {before : List Poll} {p : Poll} (h : DueAt j d before p)
    (hk : p.registered ≤ intervals.length) (x : Nat) :
    (intervals ++ [x])[j]? = intervals[j]? :=
  List.getElem?_append_left (Nat.lt_of_lt_of_le h.1 hk)

theorem Fair.add (h : Fair intervals polls) (hk : ∀ p ∈ polls, p.registered ≤ intervals.length)
    (d : Nat) : Fair (intervals ++ [d]) polls := by
  intro before p between q after hpolls hpq j hj e he hdue
  rw [hdue.known (hk p (by simp [hpolls]))] at he
  exact h before p between q after hpolls hpq j hj e he hdue

theorem Pending.add {phase : Phase} (h : Pending intervals polls phase)
    (hk : ∀ p ∈ polls, p.registered ≤ intervals.length) (d : Nat) :
    Pending (intervals ++ [d]) polls phase := by
  intro before p between hpolls hbetween j hj e he hdue
  rw [hdue.known (hk p (by simp [hpolls]))] at he
  exact h before p between hpolls hbetween j hj e he hdue

end

theorem Bus.intervals_add (b : Bus) (interval : Nat) :
    (b.add interval).intervals = b.intervals ++ [interval] := by
  simp [Bus.add, Bus.intervals]

theorem Bus.add_threads {b : Bus} {now : Nat} (h : b.Sound now) (interval : Nat) :
    (b.add interval).threads = b.threads ∧ b.threads ≠ [] ∨
      (b.add interval).threads = [.waiting] ∧ b.polls = [] := by
  have hs := h.started
  cases ht : b.threads with
  | nil => exact .inr ⟨by simp [add, hs, ht], h.silent ht⟩
  | cons phase rest => exact .inl ⟨by simp [add, hs, ht], by simp⟩

theorem Bus.At.add {b : Bus} {now : Nat} {phase : Phase} (h : b.At now phase) (interval : Nat) :
    (b.add interval).At now phase := by
  cases phase with
  | polling k start =>
    obtain ⟨hk, hnow, hpast, hspaced⟩ := h
    refine ⟨?_, hnow, hpast, fun d hd => hspaced d ?_⟩
    · simp [Bus.add, Nat.lt_succ_of_lt hk]
    · rwa [intervals_add, List.getElem?_append_left (by simpa [Bus.intervals] using hk)] at hd
  | waiting | locking | scanning | sleeping => trivial

theorem Bus.Latest.add {b : Bus} (h : b.Latest) (hk : ∀ p ∈ b.polls, p.device < b.devices.length)
    (interval : Nat) : (b.add interval).Latest := by
  intro j e he
  by_cases hj : j < b.devices.length
  · exact h j e (by rwa [Bus.add, List.getElem?_append_left hj] at he)
  · have hj' : j = b.devices.length := by
      have := (List.getElem?_eq_some_iff.mp he).1
      simp only [Bus.add, List.length_append, List.length_singleton] at this
      omega
    obtain rfl : (⟨interval, none⟩ : BusEntry) = e := by simpa [Bus.add, hj'] using he
    exact ⟨nofun, fun p hp hdev => absurd (hk p hp) (by omega)⟩

theorem Bus.Sound.add {b : Bus} {now : Nat} (h : b.Sound now) (interval : Nat) :
    (b.add interval).Sound now := by
  have hlen : b.intervals.length = b.devices.length := List.length_map _
  have hreg : ∀ p ∈ b.polls, p.registered ≤ b.intervals.length := fun p hp =>
    hlen ▸ (h.known p hp).2
  have hdev : ∀ p ∈ b.polls, p.device < b.intervals.length := fun p hp => hlen ▸ (h.known p hp).1
  have hspaced := h.spaced.add hdev interval
  have hfair := h.fair.add hreg interval
  rw [← Bus.intervals_add] at hspaced hfair
  have hknown : ∀ p ∈ b.polls, p.device < (b.add interval).devices.length ∧
      p.registered ≤ (b.add interval).devices.length := by
    intro p hp
    have := h.known p hp
    simp only [Bus.add, List.length_append, List.length_singleton]
    omega
  have hlatest := h.latest.add (fun p hp => (h.known p hp).1) interval
  rcases Bus.add_threads h interval with ⟨ht, hne⟩ | ⟨ht, hnone⟩
  · refine ⟨ht ▸ h.single, ?_, fun hnil => absurd (ht ▸ hnil) hne, h.serial, hspaced, hfair, h.past,
      hknown, hlatest, ?_, ?_⟩
    · rw [ht]
      simp [Bus.add, List.isEmpty_eq_false_iff.mpr hne]
    · intro phase hphase
      exact (h.at_ phase (ht ▸ hphase)).add interval
    · intro phase hphase
      rw [Bus.intervals_add]
      exact (h.pending phase (ht ▸ hphase)).add hreg interval
  · refine ⟨by simp [ht], ?_, by simp [ht], h.serial, hspaced, hfair, h.past, hknown, hlatest, ?_, ?_⟩
    · rw [ht]
      rfl
    · rw [ht]
      exact List.forall_mem_singleton.mpr trivial
    · intro phase _ before p between hpolls
      exact absurd (hnone.symm.trans hpolls) (by simp)

/-! ### Steps of the thread -/

/-- A step of the thread that is no poll. -/
theorem Bus.Sound.move {b : Bus} {now : Nat} {phase phase' : Phase} (h : b.Sound now)
    (ht : b.threads = [phase]) (hat : b.At now phase')
    (hpending : Pending b.intervals b.polls phase') :
    ({ b with threads := [phase'] } : Bus).Sound now :=
  { h with
    single := Nat.le_refl 1
    started := by rw [h.started, ht]; rfl
    silent := nofun
    at_ := List.forall_mem_singleton.mpr hat
    pending := List.forall_mem_singleton.mpr hpending }

theorem Pending.imp {intervals : List Nat} {polls : List Poll} {phase phase' : Phase}
    (h : Pending intervals polls phase)
    (himp : ∀ j i, j < intervals.length → phase.Ahead j i → phase'.Ahead j i) :
    Pending intervals polls phase' := by
  intro before p between hpolls hbetween j hj d hd hdue
  have hlt : j < intervals.length := (List.getElem?_eq_some_iff.mp hd).1
  exact (h before p between hpolls hbetween j hj d hd hdue).imp_right (himp j p.device hlt)

/-- The latest poll of a device that is due at another poll. -/
theorem Bus.Sound.due {b : Bus} {now j : Nat} (h : b.Sound now) {e : BusEntry}
    (he : b.devices[j]? = some e) {before between : List Poll} {p : Poll}
    (hpolls : b.polls = before ++ p :: between) (hj : j ≠ p.device)
    (hno : ∀ r ∈ between, r.device ≠ j) (hdue : DueAt j e.interval before p) :
    e.due now = true := by
  unfold BusEntry.due
  cases hl : e.lastIo with
  | none => rfl
  | some l =>
    obtain ⟨r, hr, hrj, rfl⟩ := (h.latest j e he).1 l hl
    have hmem : r ∈ before := by
      rw [hpolls, List.mem_append, List.mem_cons] at hr
      rcases hr with hr | rfl | hr
      · exact hr
      · exact absurd hrj.symm hj
      · exact absurd hrj (hno r hr)
    have hp : p ∈ b.polls := by simp [hpolls]
    have h1 := hdue.2 r hmem hrj
    have h2 := h.serial.1 p hp
    have h3 := h.past p hp
    simp only [decide_eq_true_eq]
    omega

/-- The turn of a device that is not due goes by. -/
theorem Bus.Sound.skip {b : Bus} {now k : Nat} {anyPolled : Bool} (h : b.Sound now)
    (hpending : Pending b.intervals b.polls (.scanning k anyPolled)) {e : BusEntry}
    (he : b.devices[k]? = some e) (hdue : e.due now = false) :
    Pending b.intervals b.polls (.scanning (k + 1) anyPolled) := by
  intro before p between hpolls hbetween j hj d hd hdueAt
  by_cases hserved : ∃ r ∈ between, r.device = j
  · exact .inl hserved
  · right
    have hahead : Turn k j p.device :=
      (hpending before p between hpolls hbetween j hj d hd hdueAt).resolve_left hserved
    refine hahead.next fun hkj => ?_
    subst hkj
    obtain rfl : e.interval = d := by simpa [Bus.intervals, he] using hd
    have htrue := h.due he hpolls hj (fun r hr hrk => hserved ⟨r, hr, hrk⟩) hdueAt
    rw [hdue] at htrue
    cases htrue

/-- A device that is due gets its turn. -/
theorem Pending.take {intervals : List Nat} {polls : List Poll} {k now : Nat} {anyPolled : Bool}
    (h : Pending intervals polls (.scanning k anyPolled)) :
    Pending intervals polls (.polling k now) := by
  refine h.imp fun j i _ hahead => ?_
  by_cases hkj : k = j
  · exact .inl hkj
  · exact .inr ⟨Turn.ne hahead, Turn.next hahead hkj⟩

/-- Since its latest poll a device that is due has had its interval. -/
theorem Bus.Sound.at_polling {b : Bus} {now k : Nat} (h : b.Sound now) {e : BusEntry}
    (he : b.devices[k]? = some e) (hdue : e.due now = true) : b.At now (.polling k now) := by
  refine ⟨(List.getElem?_eq_some_iff.mp he).1, Nat.le_refl now, h.past, ?_⟩
  intro d hd r hr hrk
  obtain rfl : e.interval = d := by simpa [Bus.intervals, he] using hd
  obtain ⟨l, hl, hle⟩ := (h.latest k e he).2 r hr hrk
  obtain ⟨r', hr', -, rfl⟩ := (h.latest k e he).1 l hl
  have := h.past r' hr'
  simp only [BusEntry.due, Option.mem_def.mp hl, decide_eq_true_eq] at hdue
  omega

/-! ### The end of a poll -/

/-- A list that grows by one element, split at an element. -/
theorem append_singleton_split {α : Type} {xs before after : List α} {x p : α}
    (h : xs ++ [x] = before ++ p :: after) :
    after = [] ∧ p = x ∧ before = xs ∨ ∃ between, after = between ++ [x] ∧
      xs = before ++ p :: between := by
  rcases List.eq_nil_or_concat' after with rfl | ⟨between, y, rfl⟩
  · obtain ⟨rfl, rfl⟩ := List.append_singleton_inj.mp h
    exact .inl ⟨rfl, rfl, rfl⟩
  · rw [← List.cons_append, ← List.append_assoc] at h
    obtain ⟨rfl, rfl⟩ := List.append_singleton_inj.mp h
    exact .inr ⟨between, rfl, rfl⟩

section

variable {b : Bus} {now k start : Nat}

theorem Fair.finish {n : Nat} (h : Fair b.intervals b.polls)
    (hpending : Pending b.intervals b.polls (.polling k start)) :
    Fair b.intervals (b.polls ++ [⟨k, start, now, n⟩]) := by
  intro before p between q after hpolls hpq j hj d hd hdue
  rcases append_singleton_split hpolls with ⟨hnil, -, -⟩ | ⟨rest, hrest, hold⟩
  · simp at hnil
  rcases append_singleton_split hrest.symm with ⟨-, rfl, rfl⟩ | ⟨after', -, hrest'⟩
  · -- the new poll is the second one of the two
    by_cases hagain : ∃ r ∈ between, r.device = p.device
    · obtain ⟨r, hr, hrp⟩ := hagain
      obtain ⟨b1, b2, rfl⟩ := List.append_of_mem hr
      obtain ⟨r', hr', hj'⟩ := h before p b1 r b2 hold hrp.symm j hj d hd hdue
      exact ⟨r', List.mem_append_left _ hr', hj'⟩
    · have hp : p.device = k := hpq
      refine (hpending before p between hold (fun r hr hrp => hagain ⟨r, hr, hrp⟩) j hj d hd
        hdue).resolve_right fun hahead => ?_
      rcases hahead with rfl | ⟨hne, -⟩
      · exact hj hp.symm
      · exact hne hp.symm
  · rw [hrest'] at hold
    exact h before p between q after' hold hpq j hj d hd hdue

theorem Pending.finish {n : Nat} (h : Pending b.intervals b.polls (.polling k start)) :
    Pending b.intervals (b.polls ++ [⟨k, start, now, n⟩]) (.scanning (k + 1) true) := by
  intro before p between hpolls hbetween j hj d hd hdue
  rcases append_singleton_split hpolls with ⟨-, rfl, -⟩ | ⟨rest, rfl, hold⟩
  · exact .inr (turn_after hj)
  · rcases h before p rest hold (fun r hr => hbetween r (List.mem_append_left _ hr)) j hj d hd hdue
      with ⟨r, hr, hrj⟩ | rfl | ⟨-, hturn⟩
    · exact .inl ⟨r, List.mem_append_left _ hr, hrj⟩
    · exact .inl ⟨_, List.mem_append_right _ (List.mem_singleton_self _), rfl⟩
    · exact .inr hturn

theorem Bus.devices_polled (b : Bus) (k start now j : Nat) :
    (b.polled k start now).devices[j]? =
      b.devices[j]?.map fun e => if k = j then { e with lastIo := some now } else e := by
  unfold polled
  rw [List.getElem?_modify]
  cases b.devices[j]? <;> rfl

theorem Bus.intervals_polled (b : Bus) (k start now : Nat) :
    (b.polled k start now).intervals = b.intervals := by
  apply List.ext_getElem?
  intro j
  unfold intervals
  rw [List.getElem?_map, List.getElem?_map, devices_polled, Option.map_map]
  congr 1
  funext e
  simp only [Function.comp_apply]
  split <;> rfl

theorem Bus.Latest.finish (h : b.Latest) (hpast : ∀ p ∈ b.polls, p.finish ≤ now) :
    (b.polled k start now).Latest := by
  intro j e he
  rw [Bus.devices_polled, Option.mem_def, Option.map_eq_some_iff] at he
  obtain ⟨e', he', rfl⟩ := he
  obtain ⟨hl, hp⟩ := h j e' he'
  by_cases hkj : k = j
  · subst hkj
    rw [if_pos rfl]
    refine ⟨fun l hlnow => ?_, List.forall_mem_append.mpr ⟨fun p hmem _ => ?_, ?_⟩⟩
    · obtain rfl : now = l := Option.some.inj hlnow
      exact ⟨_, List.mem_append_right _ (List.mem_singleton_self _), rfl, rfl⟩
    · exact ⟨now, rfl, hpast p hmem⟩
    · exact List.forall_mem_singleton.mpr fun _ => ⟨now, rfl, Nat.le_refl now⟩
  · rw [if_neg hkj]
    refine ⟨fun l hlast => ?_, List.forall_mem_append.mpr ⟨hp, ?_⟩⟩
    · obtain ⟨p, hmem, hpj, hpl⟩ := hl l hlast
      exact ⟨p, List.mem_append_left _ hmem, hpj, hpl⟩
    · exact List.forall_mem_singleton.mpr fun hpj => absurd hpj hkj

theorem Bus.Sound.finish (h : b.Sound now) (ht : b.threads = [.polling k start]) :
    ({ b.polled k start now with threads := [.scanning (k + 1) true] } : Bus).Sound now := by
  have hmem : Phase.polling k start ∈ b.threads := by
    rw [ht]
    exact List.mem_singleton_self _
  have hpending := h.pending _ hmem
  obtain ⟨hk, hstart, hpast, hspaced⟩ := h.at_ _ hmem
  have hi := b.intervals_polled k start now
  have hlen : (b.polled k start now).devices.length = b.devices.length := List.length_modify ..
  refine ⟨Nat.le_refl 1, ?_, nofun, ⟨?_, ?_⟩, ?_, ?_, ?_, ?_, h.latest.finish h.past, ?_, ?_⟩
  · exact h.started.trans (by rw [ht]; rfl)
  · exact List.forall_mem_append.mpr ⟨h.serial.1, List.forall_mem_singleton.mpr hstart⟩
  · exact List.pairwise_append.mpr ⟨h.serial.2, List.pairwise_singleton _ _, fun p hp =>
      List.forall_mem_singleton.mpr (hpast p hp)⟩
  · show Spaced (b.polled k start now).intervals _
    rw [hi]
    refine List.pairwise_append.mpr ⟨h.spaced, List.pairwise_singleton _ _, fun p hp =>
      List.forall_mem_singleton.mpr fun hpk d hd => ?_⟩
    obtain rfl : p.device = k := hpk
    exact hspaced d hd p hp rfl
  · show Fair (b.polled k start now).intervals _
    rw [hi]
    exact h.fair.finish hpending
  · exact List.forall_mem_append.mpr ⟨h.past, List.forall_mem_singleton.mpr (Nat.le_refl now)⟩
  · show ∀ p ∈ b.polls ++ [_], p.device < (b.polled k start now).devices.length ∧
      p.registered ≤ (b.polled k start now).devices.length
    rw [hlen]
    exact List.forall_mem_append.mpr
      ⟨h.known, List.forall_mem_singleton.mpr ⟨hk, Nat.le_refl _⟩⟩
  · exact List.forall_mem_singleton.mpr trivial
  · refine List.forall_mem_singleton.mpr ?_
    show Pending (b.polled k start now).intervals _ _
    rw [hi]
    exact hpending.finish

end

theorem Bus.advance_threads {b b' : Bus} {now : Nat} {opened : Bool} {phase phase' : Phase}
    (hstep : b.advance now opened phase = some (b', phase')) : b'.threads = b.threads := by
  unfold Bus.advance at hstep
  split at hstep <;> (try split at hstep) <;> cases hstep <;> rfl

/-- Every step of the thread keeps the invariant. -/
theorem Bus.Sound.advance {b b' : Bus} {now : Nat} {opened : Bool} {phase phase' : Phase}
    (h : b.Sound now) (ht : b.threads = [phase])
    (hstep : b.advance now opened phase = some (b', phase')) :
    ({ b' with threads := [phase'] } : Bus).Sound now := by
  have hpending := h.pending phase (by simp [ht])
  have hlen : b.intervals.length = b.devices.length := List.length_map _
  cases phase with
  | waiting =>
    simp only [Bus.advance, Option.ite_none_right_eq_some, Option.some.injEq, Prod.mk.injEq] at hstep
    obtain ⟨-, rfl, rfl⟩ := hstep
    exact h.move ht trivial hpending
  | locking =>
    simp only [Bus.advance, Option.ite_none_left_eq_some, Option.some.injEq, Prod.mk.injEq] at hstep
    obtain ⟨-, rfl, rfl⟩ := hstep
    exact h.move ht trivial (hpending.imp fun _ _ _ h => h)
  | scanning k anyPolled =>
    simp only [Bus.advance] at hstep
    cases he : b.devices[k]? with
    | none =>
      simp only [he, Option.some.injEq, Prod.mk.injEq] at hstep
      obtain ⟨rfl, rfl⟩ := hstep
      have hk : b.devices.length ≤ k := List.getElem?_eq_none_iff.mp he
      have hturn : ∀ j i, j < b.intervals.length → Turn k j i → Turn 0 j i := fun j i hj hturn =>
        hturn.wrap (by omega)
      cases anyPolled with
      | true => exact h.move ht trivial (hpending.imp hturn)
      | false => exact h.move ht trivial (hpending.imp hturn)
    | some e =>
      simp only [he, Option.some.injEq, Prod.mk.injEq] at hstep
      obtain ⟨rfl, rfl⟩ := hstep
      cases hdue : e.due now with
      | true => exact h.move ht (h.at_polling he hdue) hpending.take
      | false => exact h.move ht trivial (h.skip hpending he hdue)
  | polling k start =>
    simp only [Bus.advance, Option.some.injEq, Prod.mk.injEq] at hstep
    obtain ⟨rfl, rfl⟩ := hstep
    exact h.finish ht
  | sleeping wake =>
    simp only [Bus.advance, Option.ite_none_right_eq_some, Option.some.injEq, Prod.mk.injEq] at hstep
    obtain ⟨-, rfl, rfl⟩ := hstep
    exact h.move ht trivial (hpending.imp fun _ _ _ h => h)

/-! ## All the buses -/

/-- The invariant of a bus manager: a bus for each port, and each of them sound. -/
structure BusManager.Sound (m : BusManager) : Prop where
  ports : (m.buses.map (·.1)).Nodup
  sound : ∀ e ∈ m.buses, e.2.Sound m.now

namespace BusManager

variable {m m' : BusManager} {port : String} {b : Bus}

theorem bus?_mem (h : m.bus? port = some b) : (port, b) ∈ m.buses := by
  obtain ⟨e, he, rfl⟩ := Option.map_eq_some_iff.mp h
  have hport : e.1 = port := by simpa using List.find?_some he
  rw [← hport]
  exact List.mem_of_find?_eq_some he

theorem Sound.bus? (h : m.Sound) (hb : m.bus? port = some b) : b.Sound m.now :=
  h.sound _ (bus?_mem hb)

theorem Sound.put (h : m.Sound) (hb : b.Sound m.now) : (m.put port b).Sound := by
  unfold BusManager.put
  split
  · refine ⟨?_, fun e he => ?_⟩
    · have hports : (m.buses.map fun e => if e.1 == port then (port, b) else e).map (·.1) =
          m.buses.map (·.1) := by
        rw [List.map_map]
        refine List.map_congr_left fun e _ => ?_
        simp only [Function.comp_apply]
        split
        · next heq => exact (eq_of_beq heq).symm
        · rfl
      simp only [hports]
      exact h.ports
    · obtain ⟨e', he', rfl⟩ := List.mem_map.mp he
      split
      · exact hb
      · exact h.sound e' he'
  · next hnew =>
    refine ⟨?_, ?_⟩
    · have hfresh : port ∉ m.buses.map (·.1) := by
        intro hmem
        obtain ⟨e, he, rfl⟩ := List.mem_map.mp hmem
        refine hnew ?_
        rw [BusManager.bus?, Option.isSome_map, List.find?_isSome]
        exact ⟨e, he, beq_self_eq_true _⟩
      simp only [List.map_append, List.map_cons, List.map_nil]
      exact List.concat_eq_append ▸ List.Nodup.concat hfresh h.ports
    · exact List.forall_mem_append.mpr ⟨h.sound, List.forall_mem_singleton.mpr hb⟩

theorem Sound.register (h : m.Sound) {interval : Nat} (hstep : m.register port interval = some m') :
    m'.Sound := by
  simp only [BusManager.register, Option.ite_none_left_eq_some, Option.some.injEq] at hstep
  obtain ⟨-, rfl⟩ := hstep
  refine h.put (Bus.Sound.add ?_ interval)
  cases hb : m.bus? port with
  | none => exact sound_empty m.now
  | some b => exact h.bus? hb

theorem Sound.thread (h : m.Sound) {i : Nat} (hstep : m.thread port i = some m') : m'.Sound := by
  simp only [BusManager.thread, Option.bind_eq_bind, Option.bind_eq_some_iff] at hstep
  obtain ⟨b, hb, phase, hphase, ⟨b', phase'⟩, hadv, heq⟩ := hstep
  obtain rfl := Option.some.inj heq
  have hs := h.bus? hb
  have hi : i = 0 := by
    have := (List.getElem?_eq_some_iff.mp hphase).1
    have := hs.single
    omega
  subst hi
  have ht : b.threads = [phase] := by
    have hsingle := hs.single
    match hthreads : b.threads, hphase, hsingle with
    | [p], hp, _ => exact congrArg (fun x => [x]) (Option.some.inj hp)
  have hset : b'.threads.set 0 phase' = [phase'] := by
    rw [Bus.advance_threads hadv, ht]
    rfl
  rw [hset]
  exact h.put (hs.advance ht hadv)

theorem Sound.step (h : m.Sound) {a : BusStep} (hstep : m.step a = some m') : m'.Sound := by
  cases a with
  | tick =>
    obtain rfl := Option.some.inj hstep
    exact ⟨h.ports, fun e he => (h.sound e he).later (Nat.le_succ _)⟩
  | opened port =>
    obtain rfl := Option.some.inj hstep
    exact ⟨h.ports, h.sound⟩
  | register port interval => exact h.register hstep
  | thread port i => exact h.thread hstep

theorem sound_of_reachable (h : busLts.Reachable m) : m.Sound := by
  refine h.inv (fun s hs => ?_) fun s a t hs hstep => hs.step hstep
  obtain rfl : s = .new := hs
  exact ⟨List.nodup_nil, nofun⟩

end BusManager

/-! ## The law -/

/-- **The bus threads are fair.** In every state that a run reaches, a port
has one bus and at most one thread; its polls do not overlap, no device is
polled again before its refresh interval is over, and a device that is due when
another one is polled is polled before that one is polled again. -/
theorem bus_law {m : BusManager} (h : busLts.Reachable m) :
    (m.buses.map (·.1)).Nodup ∧ ∀ e ∈ m.buses, e.2.threads.length ≤ 1 ∧ Serial e.2.polls ∧
      Spaced e.2.intervals e.2.polls ∧ Fair e.2.intervals e.2.polls := by
  have hs := BusManager.sound_of_reachable h
  refine ⟨hs.ports, fun e he => ?_⟩
  have hb := hs.sound e he
  exact ⟨hb.single, hb.serial, hb.spaced, hb.fair⟩

/-- Two devices with different intervals on one port, for two passes. -/
def twoDevices : List BusStep :=
  [.register "tty0" 3, .register "tty0" 1, .opened "tty0"] ++
    [.thread "tty0" 0, .thread "tty0" 0, .thread "tty0" 0, .tick, .thread "tty0" 0,
      .thread "tty0" 0, .tick, .thread "tty0" 0, .thread "tty0" 0, .thread "tty0" 0, .tick,
      .thread "tty0" 0, .thread "tty0" 0, .thread "tty0" 0]

/-- A run in which the second device is polled twice. -/
theorem bus_law_twoDevices : ∃ m, busLts.Reachable m ∧
    (m.bus? "tty0").map (fun b => b.polls.map (·.device)) = some [0, 1, 1] ∧
    ∀ e ∈ m.buses, Fair e.2.intervals e.2.polls := by
  have hrun : ((Lts.exec BusManager.step twoDevices .new).bind (·.bus? "tty0")).map
      (fun b => b.polls.map (·.device)) = some [0, 1, 1] := by
    decide
  obtain ⟨b, hb, hpolls⟩ := Option.map_eq_some_iff.mp hrun
  obtain ⟨m, hm, hbus⟩ := Option.bind_eq_some_iff.mp hb
  have hreach : busLts.Reachable m := Lts.Reachable.exec (.init rfl) hm
  refine ⟨m, hreach, by rw [hbus, Option.map_some, hpolls], fun e he => ?_⟩
  exact ((bus_law hreach).2 e he).2.2.2

end RustPlc.Devices.SerialBus
