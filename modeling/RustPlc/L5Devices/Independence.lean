import RustPlc.L5Devices.DeviceFb

/-!
# Several instances of one device type

The shared state and the flag that a device is registered belong to the type, so
all instances of a type share them: the device of the first call is polled, and
every call queues its values for that device and copies what was read from it.

Where a value comes from is recorded beside the state: for a value that was read,
the device; for a value in the queue and in a poll, the address of the call that
queued it; for a value in a field of an instance, the address of the call that
copied it and the device it was read from. A value no poll has stored yet comes
from no device.

Results:
* `Origins.OneDevice.step`: while all calls give one address, every record names it;
* `independent_iff`: the instances are independent as long as every call gives the
  address that is registered, and the first call with another one ends it.
-/
namespace RustPlc.Devices

open RustPlc.Ir RustPlc.Agree RustPlc.Core

variable {ι : Type} [DecidableEq ι]

/-! ## Records -/

/-- Where the values come from. `configured` is the address that the last call of
an instance gave. -/
structure Origins (ι : Type) where
  configured : ι → Option DeviceAddress
  readFrom : Nat → Option DeviceAddress
  queuedFor : Nat → Option DeviceAddress
  polled : Nat → Option DeviceAddress
  copied : ι → Nat → Option (DeviceAddress × Option DeviceAddress)

namespace Origins

def unknown : Origins ι := ⟨fun _ => none, fun _ => none, fun _ => none, fun _ => none,
  fun _ _ => none⟩

/-- What a step adds to the records. -/
def track (fb : DeviceFb) (s : DeviceState ι) (o : Origins ι) : DeviceEvent ι → Origins ι
  | .enter i =>
    { o with configured := Function.update o.configured i (fb.address (s.slices i)).toOption }
  | .queue => match s.call with
    | some (i, a, _) =>
      let queued := (fb.queued (s.slices i) s.io.readValues).map Prod.fst
      { o with queuedFor := fun k => if k ∈ queued then some a else o.queuedFor k }
    | none => o
  | .copy => match s.call with
    | some (i, a, _) =>
      let copy := fun k => if k ∈ fb.copied then some (a, o.readFrom k) else o.copied i k
      { o with copied := Function.update o.copied i copy }
    | none => o
  | .pollBegin =>
    let left := fun k => if fb.clears then none else o.queuedFor k
    { o with polled := o.queuedFor, queuedFor := left }
  | .pollStore updates =>
    let stored := updates.map Prod.fst
    { o with readFrom := fun k => if k ∈ stored then s.registered else o.readFrom k }
  | _ => o

end Origins

/-- A step with its records. -/
def recordedStep (fb : DeviceFb) (p : DeviceState ι × Origins ι) (e : DeviceEvent ι) :
    Option (DeviceState ι × Origins ι) :=
  (fb.step p.1 e).map (·, p.2.track fb p.1 e)

/-- The instances of a device type under every interleaving of their calls with
the polls. -/
def instances (fb : DeviceFb) : Lts (DeviceState ι × Origins ι) (DeviceEvent ι) :=
  Lts.ofFun (fun p => ∃ slices, p = (fb.start slices, .unknown)) (recordedStep fb)

/-- What a call copies into an instance was read from the device with the address
of the call, what an instance queues is written to the device with the address of
the call only, and an instance with an address is registered. -/
structure Independent (p : DeviceState ι × Origins ι) : Prop where
  copied : ∀ i k own device, p.2.copied i k = some (own, some device) → device = own
  written : p.1.poll.isSome → ∀ k own, p.2.polled k = some own → p.1.registered = some own
  registered : ∀ i own, p.2.configured i = some own → p.1.registered = some own

/-- The call gives the address that is registered, if one is. -/
def OneAddress (fb : DeviceFb) (p : DeviceState ι × Origins ι) : DeviceEvent ι → Prop
  | .enter i => ∀ a, fb.address (p.1.slices i) = .ok a → p.1.registered = none ∨ p.1.registered = some a
  | _ => True

/-! ## One device -/

/-- Every record names the registered device. -/
structure Origins.OneDevice (s : DeviceState ι) (o : Origins ι) : Prop where
  call : ∀ c, s.call = some c → s.registered = some c.2.1
  configured : ∀ i a, o.configured i = some a → s.registered = some a
  readFrom : ∀ k a, o.readFrom k = some a → s.registered = some a
  queuedFor : ∀ k a, o.queuedFor k = some a → s.registered = some a
  polled : ∀ k a, o.polled k = some a → s.registered = some a
  copied : ∀ i k c, o.copied i k = some c →
    s.registered = some c.1 ∧ ∀ a, c.2 = some a → s.registered = some a

namespace Origins.OneDevice

omit [DecidableEq ι] in
theorem start (fb : DeviceFb) (slices : ι → List Value) : OneDevice (fb.start slices) .unknown where
  call := by simp [DeviceFb.start]
  configured := by simp [Origins.unknown]
  readFrom := by simp [Origins.unknown]
  queuedFor := by simp [Origins.unknown]
  polled := by simp [Origins.unknown]
  copied := by simp [Origins.unknown]

omit [DecidableEq ι] in
theorem independent {s : DeviceState ι} {o : Origins ι} (h : OneDevice s o) : Independent (s, o) where
  copied i k own device hc := by
    obtain ⟨hown, hdevice⟩ := h.copied i k _ hc
    exact Option.some.inj ((hdevice device rfl).symm.trans hown)
  written _ k own hk := h.polled k own hk
  registered i own hi := h.configured i own hi

/-- Once a call with the address of the registered device has been entered, its
device is registered, and it is the one the records name. -/
theorem enter {fb : DeviceFb} {s : DeviceState ι} {o : Origins ι} {i : ι} (h : OneDevice s o)
    (hone : OneAddress fb (s, o) (.enter i)) :
    OneDevice (fb.enter s i) (o.track fb s (.enter i)) := by
  simp only [DeviceFb.enter, Origins.track]
  cases ha : fb.address (s.slices i) with
  | error slice =>
    refine { h with configured := fun j a hj => ?_ }
    by_cases hji : j = i
    · simp [hji, Except.toOption] at hj
    · exact h.configured j a (by simpa [Function.update, hji] using hj)
  | ok a =>
    -- no record names a device before one is registered
    have hreg : ∀ b, s.registered = some b → b = a := fun b hb => by
      obtain hnone | hsome := hone a ha
      · simp_all
      · exact Option.some.inj (hb.symm.trans hsome)
    have hget : s.registered.getD a = a := by
      cases hb : s.registered with
      | none => rfl
      | some b => exact hreg b hb
    simp only [hget]
    have hnamed : ∀ b, s.registered = some b → some a = some b := fun b hb => by rw [hreg b hb]
    constructor
    · intro c hc
      obtain rfl := Option.some.inj hc
      rfl
    · intro j b hj
      by_cases hji : j = i
      · simpa [hji, Except.toOption] using hj
      · exact hnamed b (h.configured j b (by simpa [Function.update, hji] using hj))
    · exact fun k b hk => hnamed b (h.readFrom k b hk)
    · exact fun k b hk => hnamed b (h.queuedFor k b hk)
    · exact fun k b hk => hnamed b (h.polled k b hk)
    · intro j k c hc
      obtain ⟨hown, hdevice⟩ := h.copied j k c hc
      exact ⟨hnamed _ hown, fun b hb => hnamed b (hdevice b hb)⟩

theorem step {fb : DeviceFb} {s t : DeviceState ι} {o : Origins ι} {e : DeviceEvent ι}
    (h : OneDevice s o) (hone : OneAddress fb (s, o) e) (hstep : fb.step s e = some t) :
    OneDevice t (o.track fb s e) := by
  cases e with
  | assign i p v =>
    simp only [DeviceFb.step, Option.ite_none_right_eq_some, Option.some.injEq] at hstep
    obtain ⟨-, rfl⟩ := hstep
    exact { h with }
  | enter i =>
    simp only [DeviceFb.step, Option.ite_none_right_eq_some, Option.some.injEq] at hstep
    obtain ⟨-, rfl⟩ := hstep
    exact h.enter hone
  | queue =>
    simp only [DeviceFb.step] at hstep
    split at hstep
    · next i a hcall =>
      obtain rfl := Option.some.inj hstep
      have ha : s.registered = some a := h.call _ hcall
      simp only [Origins.track, hcall]
      refine { h with
        call := fun c hc => ?_
        queuedFor := fun k b hk => ?_ }
      · obtain rfl := Option.some.inj hc
        exact ha
      · simp only at hk
        split at hk
        · obtain rfl := Option.some.inj hk
          exact ha
        · exact h.queuedFor k b hk
    · cases hstep
  | copy =>
    simp only [DeviceFb.step] at hstep
    split at hstep
    · next i a hcall =>
      obtain rfl := Option.some.inj hstep
      have ha : s.registered = some a := h.call _ hcall
      simp only [Origins.track, hcall]
      refine { h with
        call := fun c hc => by cases hc
        copied := fun j k c hc => ?_ }
      by_cases hj : j = i ∧ k ∈ fb.copied
      · simp only [hj.1, Function.update_self, if_pos hj.2, Option.some.injEq] at hc
        obtain rfl := hc
        exact ⟨ha, fun b hb => h.readFrom k b hb⟩
      · refine h.copied j k c ?_
        by_cases hji : j = i
        · have hk : k ∉ fb.copied := fun hk => hj ⟨hji, hk⟩
          simpa [hji, hk] using hc
        · simpa [Function.update, hji] using hc
    · cases hstep
  | pollBegin =>
    simp only [DeviceFb.step, Option.ite_none_right_eq_some, Option.some.injEq] at hstep
    obtain ⟨-, rfl⟩ := hstep
    refine { h with
      polled := h.queuedFor
      queuedFor := fun k b hk => ?_ }
    simp only [Origins.track] at hk
    split at hk
    · cases hk
    · exact h.queuedFor k b hk
  | pollStore updates =>
    simp only [DeviceFb.step, Option.ite_none_right_eq_some, Option.some.injEq] at hstep
    obtain ⟨-, rfl⟩ := hstep
    refine { h with readFrom := fun k b hk => ?_ }
    simp only [Origins.track] at hk
    split at hk
    · exact hk
    · exact h.readFrom k b hk
  | pollEnd code ms =>
    simp only [DeviceFb.step, Option.ite_none_right_eq_some, Option.some.injEq] at hstep
    obtain ⟨-, rfl⟩ := hstep
    exact { h with }
  | linkDown =>
    simp only [DeviceFb.step, Option.ite_none_right_eq_some, Option.some.injEq] at hstep
    obtain ⟨-, rfl⟩ := hstep
    exact { h with }

end Origins.OneDevice

/-! ## Independence -/

theorem oneDevice_of_reachable {fb : DeviceFb} {p : DeviceState ι × Origins ι}
    (h : ((instances fb).restrict (OneAddress fb)).Reachable p) : Origins.OneDevice p.1 p.2 := by
  refine h.inv_restrict (I := fun p => Origins.OneDevice p.1 p.2) ?_ ?_
  · intro p hinit
    obtain ⟨slices, rfl⟩ := hinit
    exact .start fb slices
  · intro p e q hp hone hstep
    obtain ⟨t, ht, rfl⟩ := Option.map_eq_some_iff.mp hstep
    exact hp.step hone ht

/-- A call with another address than the registered one is not registered. -/
theorem not_independent_of_enter {fb : DeviceFb} {p q : DeviceState ι × Origins ι}
    {e : DeviceEvent ι} (hstep : (instances fb).step p e q) (hother : ¬ OneAddress fb p e) :
    ¬ Independent q := by
  obtain ⟨t, ht, rfl⟩ := Option.map_eq_some_iff.mp hstep
  intro hind
  cases e with
  | enter i =>
    simp only [OneAddress, not_forall, not_or] at hother
    obtain ⟨a, ha, hnone, hne⟩ := hother
    simp only [DeviceFb.step, Option.ite_none_right_eq_some, Option.some.injEq] at ht
    obtain ⟨-, rfl⟩ := ht
    have hreg := hind.registered i a (by simp [Origins.track, ha, Except.toOption])
    simp only [DeviceFb.enter, ha, Option.some.injEq] at hreg
    obtain ⟨b, hb⟩ := Option.ne_none_iff_exists'.mp hnone
    rw [hb, Option.getD_some] at hreg
    exact hne (by rw [hb, hreg])
  | _ => exact hother trivial

/-- **The instances of a device type are independent exactly as long as every call
gives the address that is registered.** In a run of such calls they are in every
state, and a call with another address leaves them in one where they are not. -/
theorem independent_iff (fb : DeviceFb) :
    (∀ p : DeviceState ι × Origins ι,
      ((instances fb).restrict (OneAddress fb)).Reachable p → Independent p) ∧
    ∀ (p q : DeviceState ι × Origins ι) (e : DeviceEvent ι),
      (instances fb).step p e q → ¬ OneAddress fb p e → ¬ Independent q :=
  ⟨fun _ h => (oneDevice_of_reachable h).independent,
    fun _ _ _ hstep hother => not_independent_of_enter hstep hother⟩

/-- Two drives of one type on one line, the first with slave number 1 and the second
with 2. -/
def drive : DeviceFb :=
  @modbusRtuFb default [⟨"speed", .int, .inout, some ⟨100, .holdingRegister, none, none⟩, 1⟩]

def driveInputs (second : Bool) : List Value :=
  [.string "ttyS0", .int (if second then 2 else 1), .time 50, .time 100, .time 5, .bool false,
    .int 0, .uint 0, .uint 0, .real F64.zero, .int (if second then 5 else 3)]

/-- The first drive is called and polled, then the second one is called, and a poll
takes what it has queued. -/
def driveRun : List (DeviceEvent Bool) :=
  [.enter false, .queue, .copy, .pollBegin, .pollStore [(0, .int 7)], .pollEnd 0 F64.zero,
    .enter true, .queue, .copy, .pollBegin]

/-- The second drive shows the speed of the first, its own speed is written to the
first, and it is not registered. -/
theorem second_drive_mixed_up :
    ∃ p, (instances drive).Reachable p ∧ ¬ Independent p ∧
      p.1.registered = some ⟨"ttyS0", 0, 1⟩ ∧
      p.2.configured true = some ⟨"ttyS0", 0, 2⟩ ∧
      p.2.copied true 0 = some (⟨"ttyS0", 0, 2⟩, some ⟨"ttyS0", 0, 1⟩) ∧
      p.1.poll = some [some (.int 5)] ∧ p.2.polled 0 = some ⟨"ttyS0", 0, 2⟩ := by
  have hinit : (instances drive).Reachable (drive.start driveInputs, .unknown) :=
    .init ⟨driveInputs, rfl⟩
  obtain ⟨p, hrun⟩ : ∃ p, Lts.exec (recordedStep drive) driveRun
      (drive.start driveInputs, .unknown) = some p := ⟨_, rfl⟩
  refine ⟨p, hinit.exec hrun, ?_⟩
  obtain rfl := Option.some.inj hrun
  refine ⟨fun hind => ?_, rfl, rfl, rfl, rfl, rfl⟩
  exact absurd (hind.registered true ⟨"ttyS0", 0, 2⟩ rfl) (by decide)

end RustPlc.Devices
