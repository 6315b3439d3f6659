import RustPlc.Core.Sequences
import RustPlc.L5Engine.SystemTime

/-!
# The standard timers

`TON`, `TOF` and `TP` (stdlib/timers.st) as functions from one call to the
next, and what they show after a sequence of calls with arbitrary inputs,
presets and times. A finite sequence is the beginning of one without an end:
what a block shows after call `k` depends on the calls up to `k`.

The blocks keep a start time and a latch. What these mean for the calls so far
is the invariant of each block (`Ton.started`, `Tof.timed`, `Tp.pulsed`): the
latch says whether the stretch is under way, the start time when it began.

Results
* `standard_timers`: each timer shows what its history says, in every call.
-/
namespace RustPlc.Engine

open RustPlc.Core.Sequences

/-! ## Calls -/

/-- The inputs of a timer and `SYSTEM_TIME()` during the call, the milliseconds
that the engine has counted. -/
structure TimerCall where
  in1 : Bool
  pt : Int64
  systemTime : Int64
  counted : 0 ≤ systemTime.toInt

variable (calls : ℕ → TimerCall) (k : ℕ)

/-- `IN_k` -/
def On : Prop := (calls k).in1 = true

/-- `t_k` -/
def time : Int := (calls k).systemTime.toInt

/-- `PT_k` -/
def preset : Int := (calls k).pt.toInt

/-- At call `j`, less than its preset has passed since call `s`. -/
def Within (s j : ℕ) : Prop := time calls j - time calls s < preset calls j

/-! ## On-delay -/

/-- All fields of a new instance have their default. -/
def Ton.fresh : Ton := ⟨false, 0, 0, false⟩

def Ton.next (t : Ton) (c : TimerCall) : Ton := t.call c.in1 c.pt c.systemTime

/-- The timer after call `k`. -/
def ton : Ton := stateAfter Ton.next .fresh calls k

/-! ## Off-delay -/

/-- The off-delay timer. mirrors stdlib/timers.st:45-56 -/
structure Tof where
  q : Bool
  et : Int64
  startTime : Int64
  timing : Bool

def Tof.fresh : Tof := ⟨false, 0, 0, false⟩

/-- The first `IF` of the `ELSE` branch. mirrors stdlib/timers.st:62-65 -/
def Tof.arm (t : Tof) (systemTime : Int64) : Tof :=
  if t.q && !t.timing then { t with timing := true, startTime := systemTime } else t

/-- The second one. mirrors stdlib/timers.st:66-72 -/
def Tof.elapse (t : Tof) (pt systemTime : Int64) : Tof :=
  if t.timing then
    let et := systemTime - t.startTime
    if pt ≤ et then { t with et := et, q := false, timing := false } else { t with et := et }
  else t

/-- mirrors stdlib/timers.st:57-73 -/
def Tof.call (t : Tof) (c : TimerCall) : Tof :=
  if c.in1 then { t with q := true, et := 0, timing := false }
  else (t.arm c.systemTime).elapse c.pt c.systemTime

def tof : Tof := stateAfter Tof.call .fresh calls k

/-! ## Pulse -/

/-- The pulse timer. mirrors stdlib/timers.st:77-89 -/
structure Tp where
  q : Bool
  et : Int64
  startTime : Int64
  pulsing : Bool
  prevIn : Bool

def Tp.fresh : Tp := ⟨false, 0, 0, false, false⟩

/-- The condition of the first `IF`. mirrors stdlib/timers.st:90 -/
def Tp.starts (t : Tp) (in1 : Bool) : Bool := in1 && !t.prevIn && !t.pulsing

/-- mirrors stdlib/timers.st:90-95 -/
def Tp.trigger (t : Tp) (in1 : Bool) (systemTime : Int64) : Tp :=
  if t.starts in1 then { t with pulsing := true, startTime := systemTime, q := true } else t

/-- mirrors stdlib/timers.st:97-103 -/
def Tp.elapse (t : Tp) (pt systemTime : Int64) : Tp :=
  if t.pulsing then
    let et := systemTime - t.startTime
    if pt ≤ et then { t with et := et, pulsing := false, q := false } else { t with et := et }
  else t

/-- mirrors stdlib/timers.st:90-105 -/
def Tp.call (t : Tp) (c : TimerCall) : Tp :=
  { (t.trigger c.in1 c.systemTime).elapse c.pt c.systemTime with prevIn := c.in1 }

def tp : Tp := stateAfter Tp.call .fresh calls k

/-- Call `k` starts a pulse. -/
def Starts : Prop := (stateBefore Tp.call .fresh calls k).starts (calls k).in1 = true

/-! ## What the history says -/

/-- `Q` and `ET` of an on-delay timer from the stretch of true inputs that
reaches up to call `k`. -/
structure TonLaw : Prop where
  on : On calls k → ∃ s, Stretch (On calls) s k ∧
    (ton calls k).et.toInt = time calls k - time calls s ∧
      ((ton calls k).q = true ↔ preset calls k ≤ time calls k - time calls s)
  off : ¬ On calls k → (ton calls k).et = 0 ∧ (ton calls k).q = false

/-- Call `f` is the first one after the last true input, the inputs since then
are false, and no preset has passed. -/
structure OffSince (f : ℕ) : Prop where
  turnedOff : Prev (On calls) f
  off : Stretch (fun j => ¬ On calls j) f k
  within : Throughout (Within calls) f k

def OffDelay : Prop := ∃ f, OffSince calls k f

/-- `Q` of an off-delay timer. -/
def TofLaw : Prop := (tof calls k).q = true ↔ On calls k ∨ OffDelay calls k

/-- A pulse was started in call `s`, and no preset has passed since. -/
structure PulseSince (s : ℕ) : Prop where
  starts : Starts calls s
  within : Throughout (Within calls) s k

def Pulse : Prop := ∃ s, PulseSince calls k s

/-- The starts and `Q` of a pulse timer. -/
structure TpLaw : Prop where
  starts : Starts calls k ↔ On calls k ∧ ¬ Prev (On calls) k ∧ ¬ Prev (Pulse calls) k
  output : (tp calls k).q = true ↔ Pulse calls k

variable {calls k}

/-! ## Elapsed time -/

/-- Counted milliseconds are subtracted without overflow. -/
theorem elapsed {a b : Int64} (ha : 0 ≤ a.toInt) (hb : 0 ≤ b.toInt) :
    (a - b).toInt = a.toInt - b.toInt := by
  have := a.toInt_lt
  have := b.toInt_lt
  rw [Int64.toInt_sub, Int.bmod_eq_of_le] <;> omega

theorem elapsed_since (s : ℕ) :
    ((calls k).systemTime - (calls s).systemTime).toInt = time calls k - time calls s :=
  elapsed (calls k).counted (calls s).counted

/-- The preset has passed since call `s`. -/
theorem through_iff (s : ℕ) :
    (calls k).pt ≤ (calls k).systemTime - (calls s).systemTime ↔ ¬ Within calls s k := by
  rw [Int64.le_iff_toInt_le, elapsed_since, Within, Int.not_lt]
  rfl

/-! ## On-delay -/

/-- The state before a call: the latch says whether a stretch is under way, the
start time when it began. -/
structure Ton.Started (calls : ℕ → TimerCall) (k : ℕ) (t : Ton) : Prop where
  running : t.running = true ↔ Prev (On calls) k
  start : ∀ s, Prev (Stretch (On calls) s) k → t.startTime = (calls s).systemTime

theorem Ton.Started.next {t : Ton} (h : t.Started calls k) :
    (t.next (calls k)).Started calls (k + 1) := by
  cases hin : (calls k).in1 with
  | true =>
    refine ⟨by simp [Ton.next, Ton.call, On, hin], fun s hs => ?_⟩
    obtain ⟨-, ⟨rfl, hnew⟩ | hold⟩ := stretch_iff.mp (prev_succ.mp hs)
    · simp [Ton.next, Ton.call, mt h.running.mp hnew, hin]
    · simp [Ton.next, Ton.call, h.running.mpr (hold.mono fun _ h => h.last), h.start s hold, hin]
  | false =>
    have hoff : ¬ On calls k := by simp [On, hin]
    exact ⟨by simp [Ton.next, Ton.call, On, hin], fun s hs => absurd (prev_succ.mp hs).last hoff⟩

theorem Ton.started : Ton.Started calls (k + 1) (ton calls k) :=
  stateAfter_inv ⟨by simp [Ton.fresh], fun _ h => absurd h prev_zero⟩ (fun _ _ h => h.next) k

/-- What a timer shows whose input is true. -/
theorem Ton.next_on (t : Ton) {c : TimerCall} (hin : c.in1 = true) :
    (t.next c).et = c.systemTime - (t.next c).startTime ∧
      (t.next c).q = decide (c.pt ≤ c.systemTime - (t.next c).startTime) := by
  rw [Ton.next, hin]
  exact ⟨rfl, rfl⟩

theorem Ton.next_off (t : Ton) {c : TimerCall} (hin : c.in1 = false) :
    (t.next c).et = 0 ∧ (t.next c).q = false := by
  rw [Ton.next, hin]
  exact ⟨rfl, rfl⟩

theorem tonLaw : TonLaw calls k := by
  constructor
  · intro hon
    obtain ⟨s, hs⟩ := exists_stretch_iff.mpr hon
    have hstart : (ton calls k).startTime = _ := Ton.started.start s (prev_succ.mpr hs)
    obtain ⟨het, hq⟩ := Ton.next_on (stateBefore Ton.next .fresh calls k) (c := calls k) hon
    rw [show (stateBefore Ton.next .fresh calls k).next (calls k) = ton calls k from rfl, hstart] at het hq
    refine ⟨s, hs, ?_⟩
    rw [het, hq, elapsed_since, decide_eq_true_eq, through_iff, Within, Int.not_lt]
    exact ⟨rfl, Iff.rfl⟩
  · intro hoff
    exact Ton.next_off _ (by simpa [On] using hoff)

/-! ## Off-delay -/

theorem offSince_iff {f : ℕ} : OffSince calls k f ↔
    ¬ On calls k ∧ Within calls f k ∧
      (f = k ∧ Prev (On calls) k ∨ Prev (OffSince calls · f) k) := by
  constructor
  · rintro ⟨hturned, hoff, hwithin⟩
    obtain ⟨hk, hstretch⟩ := stretch_iff.mp hoff
    obtain ⟨hw, rfl | ⟨i, rfl, hthrough⟩⟩ := throughout_iff.mp hwithin
    · exact ⟨hk, hw, .inl ⟨rfl, hturned⟩⟩
    · have hprev : Stretch (fun j => ¬ On calls j) f i := by
        obtain ⟨rfl, -⟩ | hprev := hstretch
        · exact absurd hthrough.le (Nat.not_succ_le_self i)
        · exact prev_succ.mp hprev
      exact ⟨hk, hw, .inr ⟨i, rfl, hturned, hprev, hthrough⟩⟩
  · rintro ⟨hk, hw, ⟨rfl, hturned⟩ | ⟨i, rfl, hturned, hoff, hwithin⟩⟩
    · have hstarts : ¬ Prev (fun j => ¬ On calls j) f := by
        obtain ⟨i, rfl, hi⟩ := hturned
        exact fun h => prev_succ.mp h hi
      exact ⟨hturned, stretch_iff.mpr ⟨hk, .inl ⟨rfl, hstarts⟩⟩, throughout_iff.mpr ⟨hw, .inl rfl⟩⟩
    · exact ⟨hturned, stretch_iff.mpr ⟨hk, .inr ⟨i, rfl, hoff⟩⟩,
        throughout_iff.mpr ⟨hw, .inr ⟨i, rfl, hwithin⟩⟩⟩

/-- The state before a call: the output stands while the input does and during
the delay, the latch says which of the two. -/
structure Tof.Timed (calls : ℕ → TimerCall) (k : ℕ) (t : Tof) : Prop where
  q : t.q = true ↔ Prev (On calls) k ∨ Prev (OffDelay calls) k
  timing : t.timing = true ↔ Prev (OffDelay calls) k
  start : ∀ f, Prev (OffSince calls · f) k → t.startTime = (calls f).systemTime

theorem Tof.elapse_timing {t : Tof} {pt systemTime : Int64} (hq : t.q = true)
    (ht : t.timing = true) :
    (t.elapse pt systemTime).startTime = t.startTime ∧
      (t.elapse pt systemTime).timing = (t.elapse pt systemTime).q ∧
      ((t.elapse pt systemTime).q = true ↔ ¬ pt ≤ systemTime - t.startTime) := by
  rw [Tof.elapse, if_pos ht]
  by_cases h : pt ≤ systemTime - t.startTime
  · simp [h]
  · simp [h, hq, ht]

/-- A call with a false input that finds the output on. -/
theorem Tof.call_off {t : Tof} {c : TimerCall} (hin : c.in1 = false) (hq : t.q = true) :
    let start := if t.timing then t.startTime else c.systemTime
    (t.call c).startTime = start ∧ (t.call c).timing = (t.call c).q ∧
      ((t.call c).q = true ↔ ¬ c.pt ≤ c.systemTime - start) := by
  have hcall : t.call c = (t.arm c.systemTime).elapse c.pt c.systemTime := by simp [Tof.call, hin]
  rw [hcall]
  cases ht : t.timing with
  | true =>
    rw [show t.arm c.systemTime = t by simp [Tof.arm, ht]]
    exact Tof.elapse_timing hq ht
  | false =>
    rw [show t.arm c.systemTime = { t with timing := true, startTime := c.systemTime } by
      simp [Tof.arm, hq, ht]]
    exact Tof.elapse_timing hq rfl

/-- A call with a false input that finds the output off. -/
theorem Tof.call_idle {t : Tof} {c : TimerCall} (hin : c.in1 = false) (hq : t.q = false)
    (ht : t.timing = false) : t.call c = t := by
  simp [Tof.call, Tof.arm, Tof.elapse, hin, hq, ht]

/-- The call from which the delay counts, in a call with a false input that
finds the output on. -/
theorem Tof.Timed.origin {t : Tof} (h : t.Timed calls k) (hoff : ¬ On calls k) (hq : t.q = true) :
    ∃ f, (if t.timing then t.startTime else (calls k).systemTime) = (calls f).systemTime ∧
      ∀ g, OffSince calls k g ↔ g = f ∧ Within calls f k := by
  cases ht : t.timing with
  | true =>
    obtain ⟨i, rfl, f, hf⟩ := h.timing.mp ht
    refine ⟨f, h.start f (prev_succ.mpr hf), fun g => ?_⟩
    rw [offSince_iff, prev_succ, prev_succ]
    constructor
    · rintro ⟨-, hw, ⟨-, hon⟩ | hg⟩
      · exact absurd hon hf.off.last
      · obtain rfl := hg.off.unique hf.off
        exact ⟨rfl, hw⟩
    · rintro ⟨rfl, hw⟩
      exact ⟨hoff, hw, .inr hf⟩
  | false =>
    have hidle : ¬ Prev (OffDelay calls) k := fun hd => by simp [h.timing.mpr hd] at ht
    have hon : Prev (On calls) k := (h.q.mp hq).resolve_right hidle
    refine ⟨k, rfl, fun g => ?_⟩
    rw [offSince_iff]
    constructor
    · rintro ⟨-, hw, ⟨rfl, -⟩ | hg⟩
      · exact ⟨rfl, hw⟩
      · exact absurd (hg.mono fun _ h => ⟨g, h⟩) hidle
    · rintro ⟨rfl, hw⟩
      exact ⟨hoff, hw, .inl ⟨rfl, hon⟩⟩

theorem Tof.Timed.call {t : Tof} (h : t.Timed calls k) : (t.call (calls k)).Timed calls (k + 1) := by
  cases hin : (calls k).in1 with
  | true =>
    have hon : On calls k := hin
    have hdelay : ∀ f, ¬ OffSince calls k f := fun f hf => hf.off.last hon
    refine ⟨?_, ?_, fun f hf => absurd (prev_succ.mp hf) (hdelay f)⟩
    · simp [Tof.call, hin, hon]
    · simp [Tof.call, hin, OffDelay, hdelay]
  | false =>
    have hoff : ¬ On calls k := by simp [On, hin]
    cases hq : t.q with
    | true =>
      obtain ⟨f, hstart, hsince⟩ := h.origin hoff hq
      obtain ⟨hstart', htiming, hq'⟩ := Tof.call_off (c := calls k) hin hq
      rw [hstart] at hstart'
      rw [hstart, through_iff, not_not] at hq'
      have hdelay : OffDelay calls k ↔ Within calls f k := by simp [OffDelay, hsince]
      refine ⟨?_, ?_, fun g hg => ?_⟩
      · rw [hq', prev_succ, prev_succ, hdelay, or_iff_right hoff]
      · rw [htiming, hq', prev_succ, hdelay]
      · rw [hstart', ((hsince g).mp ((prev_succ (p := fun j => OffSince calls j g)).mp hg)).1]
    | false =>
      obtain ⟨hnotOn, hnotDelay⟩ := not_or.mp fun hd => by simp [h.q.mpr hd] at hq
      have ht : t.timing = false := by
        rw [← Bool.not_eq_true]
        exact fun ht => hnotDelay (h.timing.mp ht)
      have hdelay : ∀ f, ¬ OffSince calls k f := fun f hf => by
        obtain ⟨-, -, ⟨-, hon⟩ | hprev⟩ := offSince_iff.mp hf
        · exact hnotOn hon
        · exact hnotDelay (hprev.mono fun _ h => ⟨f, h⟩)
      rw [Tof.call_idle hin hq ht]
      refine ⟨?_, ?_, fun f hf => absurd (prev_succ.mp hf) (hdelay f)⟩
      · simp [hq, hoff, OffDelay, hdelay]
      · simp [ht, OffDelay, hdelay]

theorem Tof.timed : Tof.Timed calls (k + 1) (tof calls k) :=
  stateAfter_inv ⟨by simp [Tof.fresh], by simp [Tof.fresh], fun _ h => absurd h prev_zero⟩
    (fun _ _ h => h.call) k

theorem tofLaw : TofLaw calls k := by
  rw [TofLaw, Tof.timed.q, prev_succ, prev_succ]

/-! ## Pulse -/

theorem pulseSince_iff {s : ℕ} : PulseSince calls k s ↔
    Within calls s k ∧ (s = k ∧ Starts calls k ∨ Prev (PulseSince calls · s) k) := by
  constructor
  · rintro ⟨hstarts, hwithin⟩
    obtain ⟨hw, rfl | hprev⟩ := throughout_iff.mp hwithin
    · exact ⟨hw, .inl ⟨rfl, hstarts⟩⟩
    · exact ⟨hw, .inr (hprev.mono fun _ h => ⟨hstarts, h⟩)⟩
  · rintro ⟨hw, ⟨rfl, hstarts⟩ | ⟨i, rfl, h⟩⟩
    · exact ⟨hstarts, throughout_iff.mpr ⟨hw, .inl rfl⟩⟩
    · exact ⟨h.starts, throughout_iff.mpr ⟨hw, .inr ⟨i, rfl, h.within⟩⟩⟩

/-- The state before a call: the latch says whether a pulse is under way, the
start time when it began. -/
structure Tp.Pulsed (calls : ℕ → TimerCall) (k : ℕ) (t : Tp) : Prop where
  prevIn : t.prevIn = true ↔ Prev (On calls) k
  pulsing : t.pulsing = true ↔ Prev (Pulse calls) k
  q : t.q = t.pulsing
  start : ∀ s, Prev (PulseSince calls · s) k → t.startTime = (calls s).systemTime

/-- A pulse runs through call `k` from the start time of `t` on. -/
structure Tp.Running (calls : ℕ → TimerCall) (k : ℕ) (t : Tp) : Prop where
  q : t.q = true
  pulsing : t.pulsing = true
  start : ∀ s, PulseSince calls k s → t.startTime = (calls s).systemTime
  pulse : Pulse calls k ↔ ¬ (calls k).pt ≤ (calls k).systemTime - t.startTime

theorem Tp.elapse_running {t : Tp} (h : t.Running calls k) :
    let t' := t.elapse (calls k).pt (calls k).systemTime
    t'.startTime = t.startTime ∧ t'.q = t'.pulsing ∧ (t'.pulsing = true ↔ Pulse calls k) := by
  rw [Tp.elapse, if_pos h.pulsing, h.pulse]
  by_cases hthrough : (calls k).pt ≤ (calls k).systemTime - t.startTime
  · simp [hthrough]
  · simp [hthrough, h.q, h.pulsing]

/-- A call that starts a pulse. -/
theorem Tp.Pulsed.started {t : Tp} (h : t.Pulsed calls k) (hk : Starts calls k)
    (hs : t.starts (calls k).in1 = true) :
    (t.trigger (calls k).in1 (calls k).systemTime).Running calls k := by
  have htrigger : t.trigger (calls k).in1 (calls k).systemTime =
      { t with pulsing := true, startTime := (calls k).systemTime, q := true } := if_pos hs
  have hidle : ¬ Prev (Pulse calls) k := by
    rw [← h.pulsing]
    simp only [Tp.starts, Bool.and_eq_true, Bool.not_eq_true'] at hs
    simp [hs.2]
  have hsince : ∀ s, PulseSince calls k s ↔ s = k ∧ Within calls k k := by
    intro s
    rw [pulseSince_iff]
    constructor
    · rintro ⟨hw, ⟨rfl, -⟩ | hprev⟩
      · exact ⟨rfl, hw⟩
      · exact absurd (hprev.mono fun _ hp => ⟨s, hp⟩) hidle
    · rintro ⟨rfl, hw⟩
      exact ⟨hw, .inl ⟨rfl, hk⟩⟩
  rw [htrigger]
  refine ⟨rfl, rfl, fun s hp => by rw [((hsince s).mp hp).1], ?_⟩
  rw [through_iff, not_not, Pulse]
  simp [hsince]

/-- A call during a pulse. -/
theorem Tp.Pulsed.goesOn {t : Tp} (h : t.Pulsed calls k) (hk : ¬ Starts calls k)
    (hs : t.starts (calls k).in1 = false) (hp : t.pulsing = true) :
    (t.trigger (calls k).in1 (calls k).systemTime).Running calls k := by
  have htrigger : t.trigger (calls k).in1 (calls k).systemTime = t := if_neg (by simp [hs])
  have hsince : ∀ s, PulseSince calls k s ↔ Within calls s k ∧ Prev (PulseSince calls · s) k := by
    intro s
    rw [pulseSince_iff, or_iff_right fun hstart => hk hstart.2]
  rw [htrigger]
  refine ⟨h.q.trans hp, hp, fun s hs => h.start s ((hsince s).mp hs).2, ?_⟩
  constructor
  · rintro ⟨s, hs⟩
    obtain ⟨hw, hprev⟩ := (hsince s).mp hs
    rw [h.start s hprev, through_iff, not_not]
    exact hw
  · intro hthrough
    obtain ⟨i, rfl, s, hprev⟩ := h.pulsing.mp hp
    have hprev' : Prev (PulseSince calls · s) (i + 1) := ⟨i, rfl, hprev⟩
    rw [h.start s hprev', through_iff, not_not] at hthrough
    exact ⟨s, (hsince s).mpr ⟨hthrough, hprev'⟩⟩

/-- A call without a pulse. -/
theorem Tp.Pulsed.idle {t : Tp} (h : t.Pulsed calls k) (hk : ¬ Starts calls k)
    (hp : t.pulsing = false) (s : ℕ) : ¬ PulseSince calls k s := by
  intro hs
  obtain ⟨-, ⟨-, hstart⟩ | hprev⟩ := pulseSince_iff.mp hs
  · exact hk hstart
  · have hpulse : Prev (Pulse calls) k := hprev.mono fun _ h => ⟨s, h⟩
    simp [h.pulsing.mpr hpulse] at hp

theorem Tp.Running.pulsed {t : Tp} (h : t.Running calls k) :
    Tp.Pulsed calls (k + 1)
      { t.elapse (calls k).pt (calls k).systemTime with prevIn := (calls k).in1 } := by
  obtain ⟨hstart, hq, hpulsing⟩ := Tp.elapse_running h
  refine ⟨(prev_succ (p := On calls)).symm, ?_, hq, fun s hs => ?_⟩
  · rw [prev_succ]
    exact hpulsing
  · exact hstart.trans (h.start s ((prev_succ (p := fun j => PulseSince calls j s)).mp hs))

theorem Tp.Pulsed.call {t : Tp} (h : t.Pulsed calls k)
    (hk : Starts calls k ↔ t.starts (calls k).in1 = true) :
    (t.call (calls k)).Pulsed calls (k + 1) := by
  cases hs : t.starts (calls k).in1 with
  | true => exact (h.started (hk.mpr hs) hs).pulsed
  | false =>
    have hno : ¬ Starts calls k := by simp [hk, hs]
    cases hp : t.pulsing with
    | true => exact (h.goesOn hno hs hp).pulsed
    | false =>
      have hcall : t.call (calls k) = { t with prevIn := (calls k).in1 } := by
        simp [Tp.call, Tp.trigger, Tp.elapse, hs, hp]
      have hidle := h.idle hno hp
      rw [hcall]
      refine ⟨(prev_succ (p := On calls)).symm, ?_, h.q, fun s hprev => ?_⟩
      · simp [hp, Pulse, hidle]
      · exact absurd ((prev_succ (p := fun j => PulseSince calls j s)).mp hprev) (hidle s)

theorem Tp.pulsed (k : ℕ) : Tp.Pulsed calls k (stateBefore Tp.call .fresh calls k) := by
  induction k with
  | zero =>
    exact ⟨by simp [stateBefore, Tp.fresh], by simp [stateBefore, Tp.fresh], rfl, fun _ h => absurd h prev_zero⟩
  | succ k ih => exact ih.call Iff.rfl

theorem tpLaw : TpLaw calls k := by
  have hbefore : Tp.Pulsed calls k _ := Tp.pulsed k
  have hafter : Tp.Pulsed calls (k + 1) (tp calls k) := Tp.pulsed (k + 1)
  constructor
  · rw [← hbefore.prevIn, ← hbefore.pulsing, Starts, Tp.starts, On]
    simp [and_assoc]
  · rw [hafter.q, hafter.pulsing, prev_succ]

/-! ## The law -/

/-- **The standard timers** show in every call of every sequence what the inputs,
presets and times of the calls so far say. -/
theorem standard_timers (calls : ℕ → TimerCall) (k : ℕ) :
    TonLaw calls k ∧ TofLaw calls k ∧ TpLaw calls k :=
  ⟨tonLaw, tofLaw, tpLaw⟩

end RustPlc.Engine
