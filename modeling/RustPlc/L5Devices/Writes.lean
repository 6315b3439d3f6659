import RustPlc.L5Devices.DeviceFb

/-!
# Lost and spurious device writes

A scan cycle assigns to the fields of a device and calls `execute()`, which queues
the fields that are written and then copies the last readings over the fields that
are read. A field that is both is queued again in the next cycle with the reading,
unless the program assigns to it again.

What the program has assigned is recorded beside the state, with the assignments
that the next poll has to transmit.

Results:
* `modbus_lawful`, `upp_lawful`: what is queued is what stands in the field, and
  when it is queued;
* `Written.step`: as long as what is queued was assigned, the queue holds what the
  next poll has to transmit;
* `writes_faithful`: no write is lost and none is spurious.
-/
namespace RustPlc.Devices

open RustPlc.Ir RustPlc.Agree RustPlc.Core

/-! ## What is queued -/

/-- What the calls of a device rely on, for all three kinds. -/
structure DeviceFb.Lawful (fb : DeviceFb) : Prop where
  queued_slice : ∀ {slice reads : List Value} {k : Nat} {v : Value},
    (k, v) ∈ fb.queued slice reads → slice[fb.base + k]? = some v
  queued_of_written : ∀ {slice : List Value} (reads : List Value) {k : Nat} {v : Value}, k ∈ fb.written →
    slice[fb.base + k]? = some v →
      (k, v) ∈ fb.queued slice reads ∨ fb.clears = true ∧ valuesEqual v (reads[k]?.getD Value.void) = true
  written_of_canSend : ∀ {k : Nat} {v : Value}, fb.clears = false → fb.canSend k v = true → k ∈ fb.written
  queue_length : fb.initial.writeValues.length = totalExpandedValues fb.fields
  cleared_length : fb.clears = true → fb.fields.length = totalExpandedValues fb.fields
  queue_empty : ∀ {k : Nat} {v : Value}, fb.clears = true → fb.initial.writeValues[k]? ≠ some (some v)
  address_length : ∀ {slice slice' : List Value}, fb.address slice = .error slice' →
    slice'.length = slice.length
  address_fields : ∀ {slice slice' : List Value} {k : Nat}, fb.address slice = .error slice' →
    slice'[fb.base + k]? = slice[fb.base + k]?
  finish_queue : ∀ (code : Int64) (ms : F64) (io : IoState),
    (fb.finish code ms io).writeValues = io.writeValues

theorem DeviceFb.written_lt {fb : DeviceFb} {k : Nat} (h : k ∈ fb.written) :
    k < totalExpandedValues fb.fields := by
  simpa using fieldIndices_lt h

theorem failed_length (c e : Nat) (code : Int64) (slice : List Value) :
    (failed c e code slice).length = slice.length := by
  simp [failed]

theorem failed_get {c e k : Nat} {code : Int64} {slice : List Value} (hc : c ≠ k) (he : e ≠ k) :
    (failed c e code slice)[k]? = slice[k]? := by
  rw [failed, List.getElem?_set_ne he, List.getElem?_set_ne hc]

theorem mem_modbusQueued {fields : List ProfileField} {base k : Nat} {slice : List Value} {v : Value} :
    (k, v) ∈ modbusQueued fields base slice ↔
      k ∈ fieldIndices FieldDirection.isWritten 0 fields ∧ slice[base + k]? = some v := by
  simp only [modbusQueued, List.mem_filterMap, Option.map_eq_some_iff, Prod.mk.injEq]
  constructor
  · rintro ⟨j, hj, w, hw, rfl, rfl⟩
    exact ⟨hj, hw⟩
  · intro ⟨hk, hv⟩
    exact ⟨k, hk, v, hv, rfl, rfl⟩

theorem modbusInitial_length (fields : List ProfileField) :
    (modbusInitial fields).writeValues.length = totalExpandedValues fields := by
  simp [modbusInitial, totalExpandedValues, List.length_flatMap]

section

variable [F64Ops]

/-- An early return sets the diagnostics only. -/
theorem rtuAddress_error {slice slice' : List Value} (h : rtuAddress slice = .error slice') :
    ∃ code, slice' = failed 5 6 code slice := by
  unfold rtuAddress at h
  split at h
  · split at h
    · exact ⟨1, (Except.error.inj h).symm⟩
    · simp only at h
      split at h
      · exact ⟨2, (Except.error.inj h).symm⟩
      · cases h
  · exact ⟨1, (Except.error.inj h).symm⟩

theorem tcpAddress_error {slice slice' : List Value} (h : tcpAddress slice = .error slice') :
    ∃ code, slice' = failed 4 5 code slice := by
  unfold tcpAddress at h
  split at h
  · split at h
    · exact ⟨1, (Except.error.inj h).symm⟩
    · cases h
  · exact ⟨1, (Except.error.inj h).symm⟩

theorem uppAddress_error {profileError : Bool} {slice slice' : List Value}
    (h : uppAddress profileError slice = .error slice') : ∃ code, slice' = failed 5 6 code slice := by
  unfold uppAddress at h
  split at h
  · exact ⟨102, (Except.error.inj h).symm⟩
  · split at h
    · split at h
      · exact ⟨100, (Except.error.inj h).symm⟩
      · simp only at h
        split at h
        · cases h
        · exact ⟨101, (Except.error.inj h).symm⟩
    · exact ⟨100, (Except.error.inj h).symm⟩

theorem rtu_lawful (fields : List ProfileField) : (modbusRtuFb fields).Lawful where
  queued_slice h := (mem_modbusQueued.mp h).2
  queued_of_written {slice} reads {k v} hk hv := .inl (mem_modbusQueued.mpr ⟨hk, hv⟩)
  written_of_canSend _ h := sendable_written (of_decide_eq_true h)
  queue_length := modbusInitial_length fields
  cleared_length h := by cases h
  queue_empty h := by cases h
  address_length h := by
    obtain ⟨code, rfl⟩ := rtuAddress_error h
    exact failed_length 5 6 code _
  address_fields h := by
    obtain ⟨code, rfl⟩ := rtuAddress_error h
    exact failed_get (by simp only [modbusRtuFb]; omega) (by simp only [modbusRtuFb]; omega)
  finish_queue code ms io := rfl

theorem tcp_lawful (fields : List ProfileField) : (modbusTcpFb fields).Lawful where
  queued_slice h := (mem_modbusQueued.mp h).2
  queued_of_written {slice} reads {k v} hk hv := .inl (mem_modbusQueued.mpr ⟨hk, hv⟩)
  written_of_canSend _ h := sendable_written (of_decide_eq_true h)
  queue_length := modbusInitial_length fields
  cleared_length h := by cases h
  queue_empty h := by cases h
  address_length h := by
    obtain ⟨code, rfl⟩ := tcpAddress_error h
    exact failed_length 4 5 code _
  address_fields h := by
    obtain ⟨code, rfl⟩ := tcpAddress_error h
    exact failed_get (by simp only [modbusTcpFb]; omega) (by simp only [modbusTcpFb]; omega)
  finish_queue code ms io := rfl

omit [F64Ops] in
/-- A field number is the index of its value when no field has several. -/
theorem mem_fieldIndices_single {filter : FieldDirection → Bool} {fields : List ProfileField}
    {offset k : Nat} (hsingle : ∀ pf ∈ fields, pf.count ≤ 1) :
    k ∈ fieldIndices filter offset fields ↔
      ∃ pf, (pf, k) ∈ fields.zipIdx offset ∧ filter pf.direction = true := by
  induction fields generalizing offset with
  | nil => simp [fieldIndices]
  | cons pf fields ih =>
    have hsize : pf.size = 1 := by
      have := UInt16.le_iff_toNat_le.mp (hsingle pf List.mem_cons_self)
      simp only [ProfileField.size, UInt16.reduceToNat] at this ⊢
      omega
    have hhead : k ∈ (if filter pf.direction then (List.range pf.size).map (offset + ·) else []) ↔
        filter pf.direction = true ∧ k = offset := by
      split
      · next hf => simp [hf, hsize]
      · next hf => simp [hf]
    have hih : k ∈ fieldIndices filter (offset + pf.size) fields ↔ _ :=
      ih fun pf' h => hsingle pf' (List.mem_cons_of_mem pf h)
    rw [fieldIndices, List.mem_append, hhead, hih, hsize, List.zipIdx_cons]
    constructor
    · intro h
      obtain ⟨hf, rfl⟩ | ⟨pf', hmem, hf⟩ := h
      · exact ⟨pf, List.mem_cons_self, hf⟩
      · exact ⟨pf', List.mem_cons_of_mem _ hmem, hf⟩
    · intro ⟨pf', hmem, hf⟩
      obtain heq | hmem := List.mem_cons.mp hmem
      · cases heq
        exact .inl ⟨hf, rfl⟩
      · exact .inr ⟨pf', hmem, hf⟩

omit [F64Ops] in
theorem mem_uppQueued {fields : List ProfileField} {slice reads : List Value} {k : Nat} {v : Value} :
    (k, v) ∈ uppQueued fields slice reads ↔
      (∃ pf, (pf, k) ∈ fields.zipIdx ∧ pf.direction.isWritten = true) ∧ slice[10 + k]? = some v ∧
        valuesEqual v (reads[k]?.getD Value.void) = false := by
  simp only [uppQueued, List.mem_filterMap, List.mem_filter, Prod.exists]
  constructor
  · intro ⟨pf, i, ⟨hmem, hw⟩, hsome⟩
    split at hsome
    · cases hsome
    · next w hv =>
      split at hsome
      · cases hsome
      · next hne =>
        cases hsome
        exact ⟨⟨pf, hmem, hw⟩, hv, by simpa using hne⟩
  · intro ⟨⟨pf, hmem, hw⟩, hv, hne⟩
    exact ⟨pf, k, ⟨hmem, hw⟩, by simp [hv, hne]⟩

omit [F64Ops] in
theorem single_total {fields : List ProfileField} (hsingle : ∀ pf ∈ fields, pf.count ≤ 1) :
    fields.length = totalExpandedValues fields := by
  have hsizes : fields.map ProfileField.size = fields.map fun _ => 1 :=
    List.map_congr_left fun pf hpf => by
      have := UInt16.le_iff_toNat_le.mp (hsingle pf hpf)
      simp only [ProfileField.size, UInt16.reduceToNat] at this ⊢
      omega
  rw [totalExpandedValues, hsizes]
  simp

theorem upp_lawful {fields : List ProfileField} {bindings : List (Option WriteCmdKind)}
    {profileError : Bool} (hsingle : ∀ pf ∈ fields, pf.count ≤ 1) :
    (uppFb fields bindings profileError).Lawful where
  queued_slice h := (mem_uppQueued.mp h).2.1
  queued_of_written {slice} reads {k v} hk hv := by
    cases heq : valuesEqual v (reads[k]?.getD Value.void) with
    | true => exact .inr ⟨rfl, rfl⟩
    | false =>
      exact .inl (mem_uppQueued.mpr ⟨(mem_fieldIndices_single hsingle).mp hk, hv, heq⟩)
  written_of_canSend h := by cases h
  queue_length := by
    simpa [uppFb] using single_total hsingle
  cleared_length _ := single_total hsingle
  queue_empty {k v} _ hk := by
    simp only [uppFb, List.getElem?_map, Option.map_eq_some_iff] at hk
    obtain ⟨pf, -, hnone⟩ := hk
    cases hnone
  address_length h := by
    obtain ⟨code, rfl⟩ := uppAddress_error h
    exact failed_length 5 6 code _
  address_fields h := by
    obtain ⟨code, rfl⟩ := uppAddress_error h
    exact failed_get (by simp only [uppFb]; omega) (by simp only [uppFb]; omega)
  finish_queue code ms io := by
    simp only [uppFb]
    split <;> rfl

/-- The device blocks that are shipped meet it; a pyrometer does when none of its
fields has several values. -/
theorem DeviceFb.Shipped.lawful {fb : DeviceFb} (h : fb.Shipped)
    (hsingle : fb.clears = true → ∀ pf ∈ fb.fields, pf.count ≤ 1) : fb.Lawful := by
  cases h with
  | rtu fields => exact rtu_lawful fields
  | tcp fields => exact tcp_lawful fields
  | upp fields bindings profileError => exact upp_lawful (hsingle rfl)

end

/-! ## What the program has assigned -/

/-- `assigned`: all assignments to the fields, by the index of the value. `last`: the
last one. `fresh`: it was made after the last queueing. `stored`: a poll has stored a
reading. `due`: the next poll has to transmit the value; `duePoll`: the poll under
way. -/
structure Assigned where
  assigned : List (Nat × Value)
  last : Nat → Option Value
  fresh : Nat → Bool
  stored : Nat → Bool
  due : Nat → Option Value
  duePoll : Nat → Option Value
  executed : Bool

namespace Assigned

def none : Assigned :=
  ⟨[], fun _ => .none, fun _ => false, fun _ => false, fun _ => .none, fun _ => .none, false⟩

/-- The device has reported the value that was assigned last. -/
def reported (s : DeviceState Unit) (g : Assigned) (k : Nat) : Bool :=
  g.stored k && (g.last k).any fun v => valuesEqual v (s.io.readValues[k]?.getD Value.void)

/-- What a step adds. An assignment is due once `execute()` has queued the fields,
unless the device has reported its value. -/
def track (fb : DeviceFb) (s : DeviceState Unit) (g : Assigned) : DeviceEvent Unit → Assigned
  | .assign _ p v =>
    if fb.base ≤ p then
      let k := p - fb.base
      { g with
        assigned := (k, v) :: g.assigned
        last := Function.update g.last k (some v)
        fresh := Function.update g.fresh k true
        due := Function.update g.due k .none }
    else g
  | .queue =>
    let due := fun k =>
      if g.fresh k ∧ k ∈ fb.written then (if g.reported s k then .none else g.last k) else g.due k
    { g with due := due, fresh := fun _ => false, executed := true }
  | .pollBegin => { g with duePoll := g.due, due := fun _ => .none }
  | .pollStore updates =>
    let stored := updates.map Prod.fst
    { g with stored := fun k => g.stored k || decide (k ∈ stored) }
  | _ => g

end Assigned

/-- A step with its records. -/
def recordedScan (fb : DeviceFb) (p : DeviceState Unit × Assigned) (e : DeviceEvent Unit) :
    Option (DeviceState Unit × Assigned) :=
  (fb.step p.1 e).map (·, p.2.track fb p.1 e)

/-- The scan cycles of a program with one instance, interleaved with the polls. Its
vector has a place for each value of the layout. -/
def scans (fb : DeviceFb) : Lts (DeviceState Unit × Assigned) (DeviceEvent Unit) :=
  Lts.ofFun
    (fun p => ∃ slice : List Value, slice.length = fb.base + totalExpandedValues fb.fields ∧
      p = (fb.start fun _ => slice, .none))
    (recordedScan fb)

/-- A poll transmits the assignments it has to, and nothing that was not assigned. -/
structure Faithful (fb : DeviceFb) (p : DeviceState Unit × Assigned) : Prop where
  lost : ∀ snapshot, p.1.poll = some snapshot → ∀ k v, p.2.duePoll k = some v →
    snapshot[k]? = some (some v) ∧ fb.canSend k v = true
  spurious : ∀ snapshot, p.1.poll = some snapshot → ∀ k v, snapshot[k]? = some (some v) →
    fb.canSend k v = true → (k, v) ∈ p.2.assigned

/-- What `execute()` queues for the device, or in place of a value that is due, is
what the program assigned last. What was assigned since can be sent, and for a
pyrometer it is not a reading that no poll has made. -/
structure QueuesAssigned (fb : DeviceFb) (s : DeviceState Unit) (g : Assigned) : Prop where
  queued : ∀ k v, (k, v) ∈ fb.queued (s.slices ()) s.io.readValues →
    fb.canSend k v = true ∨ (g.due k).isSome → g.last k = some v
  sent : ∀ k ∈ fb.written, g.fresh k = true → ∀ v, g.last k = some v → fb.canSend k v = true
  read : fb.clears = true → ∀ k ∈ fb.written, g.fresh k = true → ∀ v, g.last k = some v →
    valuesEqual v (s.io.readValues[k]?.getD Value.void) = true → g.stored k = true

/-- The condition on a step. The fields of a pyrometer have one value each, and a
poll of a Modbus device comes after the first `execute()`. -/
def Undisturbed (fb : DeviceFb) (p : DeviceState Unit × Assigned) (e : DeviceEvent Unit) : Prop :=
  (fb.clears = true → ∀ pf ∈ fb.fields, pf.count ≤ 1) ∧
  match e with
  | .queue => QueuesAssigned fb p.1 p.2
  | .pollBegin => fb.clears = true ∨ p.2.executed = true
  | _ => True

/-! ## The invariant -/

/-- What is due is in the queue, and what is in the queue was assigned. Before the
first queueing the queue of a Modbus device holds its defaults. -/
structure Written (fb : DeviceFb) (s : DeviceState Unit) (g : Assigned) : Prop where
  slice_length : (s.slices ()).length = fb.base + totalExpandedValues fb.fields
  queue_length : s.io.writeValues.length = totalExpandedValues fb.fields
  fresh : ∀ k v, g.fresh k = true → k < totalExpandedValues fb.fields → g.last k = some v →
    (s.slices ())[fb.base + k]? = some v
  copying : ∀ c, s.call = some c → c.2.2 = .copy → ∀ k, g.fresh k = false
  last : ∀ k v, g.last k = some v → (k, v) ∈ g.assigned
  due : ∀ k v, g.due k = some v →
    g.last k = some v ∧ fb.canSend k v = true ∧ s.io.writeValues[k]? = some (some v)
  queue : fb.clears = true ∨ g.executed = true → ∀ k v, s.io.writeValues[k]? = some (some v) →
    fb.canSend k v = true → (k, v) ∈ g.assigned
  lost : ∀ snapshot, s.poll = some snapshot → ∀ k v, g.duePoll k = some v →
    snapshot[k]? = some (some v) ∧ fb.canSend k v = true
  spurious : ∀ snapshot, s.poll = some snapshot → ∀ k v, snapshot[k]? = some (some v) →
    fb.canSend k v = true → (k, v) ∈ g.assigned

namespace Written

variable {fb : DeviceFb} {s t : DeviceState Unit} {g : Assigned}

theorem start (hfb : fb.Lawful) {slice : List Value}
    (hlen : slice.length = fb.base + totalExpandedValues fb.fields) :
    Written fb (fb.start fun _ => slice) .none where
  slice_length := hlen
  queue_length := hfb.queue_length
  fresh k v h := by cases h
  copying c h := by cases h
  last k v h := by cases h
  due k v h := by cases h
  queue hclears k v hk := by
    obtain hclears | h := hclears
    · exact absurd hk (hfb.queue_empty hclears)
    · cases h
  lost snapshot h := by cases h
  spurious snapshot h := by cases h

theorem assign (h : Written fb s g) {p : Nat} {v : Value} (hcall : s.call = none)
    (ht : t = { s with slices := Function.update s.slices () ((s.slices ()).set p v) }) :
    Written fb t (g.track fb s (.assign () p v)) := by
  subst ht
  have hlen : ((s.slices ()).set p v).length = fb.base + totalExpandedValues fb.fields := by
    rw [List.length_set, h.slice_length]
  by_cases hp : fb.base ≤ p
  · simp only [Assigned.track, if_pos hp]
    obtain ⟨k₀, rfl⟩ := Nat.exists_eq_add_of_le hp
    rw [Nat.add_sub_cancel_left]
    constructor
    · simpa using hlen
    · exact h.queue_length
    · intro k w hfresh hk hlast
      by_cases hkk : k = k₀
      · subst hkk
        simp only [Function.update_self, Option.some.injEq] at hlast ⊢
        rw [← hlast]
        exact List.getElem?_set_self (by rw [h.slice_length]; omega)
      · simp only [Function.update_self, ne_eq, hkk, not_false_eq_true, Function.update_of_ne]
          at hfresh hlast ⊢
        rw [List.getElem?_set_ne (by omega)]
        exact h.fresh k w hfresh hk hlast
    · intro c hc
      rw [hcall] at hc
      cases hc
    · intro k w hlast
      by_cases hkk : k = k₀
      · subst hkk
        simp only [Function.update_self, Option.some.injEq] at hlast
        rw [← hlast]
        exact List.mem_cons_self
      · simp only [ne_eq, hkk, not_false_eq_true, Function.update_of_ne] at hlast
        exact List.mem_cons_of_mem _ (h.last k w hlast)
    · intro k w hdue
      by_cases hkk : k = k₀
      · subst hkk
        simp at hdue
      · simp only [ne_eq, hkk, not_false_eq_true, Function.update_of_ne] at hdue ⊢
        exact h.due k w hdue
    · exact fun hq k w hk hsend => List.mem_cons_of_mem _ (h.queue hq k w hk hsend)
    · exact h.lost
    · exact fun snapshot hs k w hk hsend =>
        List.mem_cons_of_mem _ (h.spurious snapshot hs k w hk hsend)
  · simp only [Assigned.track, if_neg hp]
    refine { h with
      slice_length := by simpa using hlen
      fresh := fun k w hfresh hk hlast => ?_ }
    simp only [Function.update_self]
    rw [List.getElem?_set_ne (by omega)]
    exact h.fresh k w hfresh hk hlast

theorem enter (h : Written fb s g) (hfb : fb.Lawful) :
    Written fb (fb.enter s ()) g := by
  unfold DeviceFb.enter
  cases ha : fb.address (s.slices ()) with
  | ok a =>
    simp only
    refine { h with copying := fun c hc hcopy => ?_ }
    obtain rfl := Option.some.inj hc
    cases hcopy
  | error slice =>
    refine { h with
      slice_length := ?_
      fresh := fun k v hfresh hk hlast => ?_ }
    · simp [hfb.address_length ha, h.slice_length]
    · simp only [Function.update_self]
      rw [hfb.address_fields ha]
      exact h.fresh k v hfresh hk hlast

/-- The queue after `execute()`: what has been queued stands in it, the rest is as
it was. -/
theorem queueWrites_cases (hfb : fb.Lawful) (slice : List Value) {io : IoState} {k : Nat}
    (hk : k < io.writeValues.length) :
    (∃ v, (k, v) ∈ fb.queued slice io.readValues ∧
      (fb.queueWrites slice io).writeValues[k]? = some (some v)) ∨
    (∀ v, (k, v) ∉ fb.queued slice io.readValues) ∧
      (fb.queueWrites slice io).writeValues[k]? = io.writeValues[k]? := by
  by_cases hq : ∃ v, (k, v) ∈ fb.queued slice io.readValues
  · obtain ⟨v, hv⟩ := hq
    refine .inl ⟨v, hv, applyUpdates_get (List.mem_map_of_mem hv) (fun w hw => ?_) hk⟩
    obtain ⟨⟨k', v'⟩, hv', heq⟩ := List.mem_map.mp hw
    cases heq
    have hsame := (hfb.queued_slice hv').symm.trans (hfb.queued_slice hv)
    exact hsame
  · refine .inr ⟨fun v hv => hq ⟨v, hv⟩, applyUpdates_other fun w hw => ?_⟩
    obtain ⟨⟨k', v'⟩, hv', heq⟩ := List.mem_map.mp hw
    cases heq
    exact hq ⟨v', hv'⟩

/-- What was assigned since the last queueing is queued, unless the device has
reported it. -/
theorem queued_of_fresh (h : Written fb s g) (hfb : fb.Lawful) (hq : QueuesAssigned fb s g) {k : Nat}
    {v : Value} (hfresh : g.fresh k = true) (hk : k ∈ fb.written) (hlast : g.last k = some v)
    (hnot : g.reported s k = false) : (k, v) ∈ fb.queued (s.slices ()) s.io.readValues := by
  have hslice := h.fresh k v hfresh (DeviceFb.written_lt hk) hlast
  obtain hqueued | ⟨hclears, hsame⟩ := hfb.queued_of_written s.io.readValues hk hslice
  · exact hqueued
  · have hstored := hq.read hclears k hk hfresh v hlast hsame
    simp [Assigned.reported, hstored, hlast, hsame] at hnot

theorem queueing (h : Written fb s g) (hfb : fb.Lawful) (hq : QueuesAssigned fb s g)
    {a : DeviceAddress} (ht : t = { s with
      io := fb.queueWrites (s.slices ()) s.io
      call := some ((), a, .copy) }) : Written fb t (g.track fb s .queue) := by
  subst ht
  have hlen : (fb.queueWrites (s.slices ()) s.io).writeValues.length =
      totalExpandedValues fb.fields := by
    rw [DeviceFb.queueWrites, applyUpdates_length, h.queue_length]
  have hinside : ∀ {k : Nat} {v : Value}, (fb.queueWrites (s.slices ()) s.io).writeValues[k]? =
      some (some v) → k < s.io.writeValues.length := fun hk => by
    obtain ⟨hlt, -⟩ := List.getElem?_eq_some_iff.mp hk
    rwa [hlen, ← h.queue_length] at hlt
  refine { h with
    queue_length := hlen
    fresh := fun k v hfresh => by cases hfresh
    copying := fun c _ _ k => rfl
    due := fun k v hdue => ?_
    queue := fun _ k v hk hsend => ?_ }
  · -- a new obligation is queued now; an older one is not replaced by another value
    simp only [Assigned.track] at hdue
    split at hdue
    · next hnew =>
      split at hdue
      · cases hdue
      · next hnot =>
        have hmem := h.queued_of_fresh hfb hq hnew.1 hnew.2 hdue (by simpa using hnot)
        have hlt : k < s.io.writeValues.length := h.queue_length ▸ DeviceFb.written_lt hnew.2
        refine ⟨hdue, hq.sent k hnew.2 hnew.1 v hdue, ?_⟩
        obtain ⟨w, hw, hget⟩ | ⟨hno, -⟩ := queueWrites_cases hfb (s.slices ()) hlt
        · have hvw : v = w :=
            Option.some.inj ((hfb.queued_slice hmem).symm.trans (hfb.queued_slice hw))
          rw [hvw]
          exact hget
        · exact absurd hmem (hno v)
    · obtain ⟨hlast, hsend, hget⟩ := h.due k v hdue
      refine ⟨hlast, hsend, ?_⟩
      obtain ⟨hlt, -⟩ := List.getElem?_eq_some_iff.mp hget
      obtain ⟨w, hw, hget'⟩ | ⟨-, hget'⟩ := queueWrites_cases hfb (s.slices ()) hlt
      · have hvw := hq.queued k w hw (.inr (by rw [hdue]; rfl))
        rw [hlast] at hvw
        rw [hvw]
        exact hget'
      · exact hget'.trans hget
  · obtain ⟨w, hw, hget⟩ | ⟨hno, hget⟩ := queueWrites_cases hfb (s.slices ()) (hinside hk)
    · obtain rfl : w = v := by simpa [hget] using hk
      exact h.last k w (hq.queued k w hw (.inl hsend))
    · rw [hget] at hk
      by_cases hdone : fb.clears = true ∨ g.executed = true
      · exact h.queue hdone k v hk hsend
      · -- the first queueing leaves no default that could be sent
        rw [not_or, Bool.not_eq_true] at hdone
        have hwritten := hfb.written_of_canSend hdone.1 hsend
        have hlt : fb.base + k < (s.slices ()).length := by
          have := DeviceFb.written_lt hwritten
          rw [h.slice_length]
          omega
        obtain hqueued | ⟨hclears, -⟩ := hfb.queued_of_written s.io.readValues hwritten
          (List.getElem?_eq_getElem hlt)
        · exact absurd hqueued (hno _)
        · exact absurd hclears (by simp [hdone.1])

theorem copying_reads (h : Written fb s g) {a : DeviceAddress} (hcall : s.call = some ((), a, .copy))
    (ht : t = { s with
      slices := Function.update s.slices () (fb.copyReads s.io (s.slices ()))
      call := none }) : Written fb t g := by
  subst ht
  refine { h with
    slice_length := by simp [DeviceFb.copyReads, h.slice_length]
    fresh := fun k v hfresh => ?_
    copying := fun c hc => by cases hc }
  rw [h.copying _ hcall rfl k] at hfresh
  cases hfresh

theorem pollBegin (h : Written fb s g) (hfb : fb.Lawful)
    (hready : fb.clears = true ∨ g.executed = true)
    (ht : t = { s with poll := some s.io.writeValues, io := fb.takeWrites s.io }) :
    Written fb t (g.track fb s .pollBegin) := by
  subst ht
  refine { h with
    queue_length := ?_
    due := fun k v hdue => by cases hdue
    queue := fun hq k v hk hsend => ?_
    lost := fun snapshot hs k v hdue => ?_
    spurious := fun snapshot hs k v hk hsend => ?_ }
  · simp only [DeviceFb.takeWrites]
    split
    · next hclears => simpa using hfb.cleared_length hclears
    · exact h.queue_length
  · simp only [DeviceFb.takeWrites] at hk
    split at hk
    · obtain ⟨pf, -, hnone⟩ := Option.map_eq_some_iff.mp (List.getElem?_map.symm.trans hk)
      cases hnone
    · exact h.queue hq k v hk hsend
  · obtain rfl := Option.some.inj hs
    obtain ⟨-, hsend, hget⟩ := h.due k v hdue
    exact ⟨hget, hsend⟩
  · obtain rfl := Option.some.inj hs
    exact h.queue hready k v hk hsend

theorem step (h : Written fb s g) (hfb : fb.Lawful) {e : DeviceEvent Unit}
    (hok : Undisturbed fb (s, g) e) (hstep : fb.step s e = some t) :
    Written fb t (g.track fb s e) := by
  cases e with
  | assign i p v =>
    simp only [DeviceFb.step, Option.ite_none_right_eq_some, Option.some.injEq,
      Option.isNone_iff_eq_none] at hstep
    exact h.assign hstep.1 hstep.2.symm
  | enter i =>
    simp only [DeviceFb.step, Option.ite_none_right_eq_some, Option.some.injEq] at hstep
    obtain ⟨-, rfl⟩ := hstep
    exact h.enter hfb
  | queue =>
    simp only [DeviceFb.step] at hstep
    split at hstep
    · exact h.queueing hfb hok.2 (Option.some.inj hstep).symm
    · cases hstep
  | copy =>
    simp only [DeviceFb.step] at hstep
    split at hstep
    · next hcall => exact h.copying_reads hcall (Option.some.inj hstep).symm
    · cases hstep
  | pollBegin =>
    simp only [DeviceFb.step, Option.ite_none_right_eq_some, Option.some.injEq] at hstep
    exact h.pollBegin hfb hok.2 hstep.2.symm
  | pollStore updates =>
    simp only [DeviceFb.step, Option.ite_none_right_eq_some, Option.some.injEq] at hstep
    obtain ⟨-, rfl⟩ := hstep
    exact { h with }
  | pollEnd code ms =>
    simp only [DeviceFb.step, Option.ite_none_right_eq_some, Option.some.injEq] at hstep
    obtain ⟨-, rfl⟩ := hstep
    refine { h with
      queue_length := by simpa only [hfb.finish_queue] using h.queue_length
      due := fun k v hdue => by
        simp only [hfb.finish_queue]
        exact h.due k v hdue
      queue := fun hq k v hk => h.queue hq k v (by simpa only [hfb.finish_queue] using hk)
      lost := fun snapshot hs => by cases hs
      spurious := fun snapshot hs => by cases hs }
  | linkDown =>
    simp only [DeviceFb.step, Option.ite_none_right_eq_some, Option.some.injEq] at hstep
    obtain ⟨-, rfl⟩ := hstep
    exact { h with }

end Written

/-! ## Runs -/

section

variable [F64Ops]

/-- **No write is lost and none is spurious, as long as every `execute()` queues what
the program assigned last.** -/
theorem writes_faithful {fb : DeviceFb} (hfb : fb.Shipped) {p : DeviceState Unit × Assigned}
    (h : ((scans fb).restrict (Undisturbed fb)).Reachable p) : Faithful fb p := by
  have hwritten : fb.Lawful → Written fb p.1 p.2 := by
    refine h.inv_restrict (I := fun p => fb.Lawful → Written fb p.1 p.2) ?_ ?_
    · intro p hinit hlawful
      obtain ⟨slice, hlen, rfl⟩ := hinit
      exact .start hlawful hlen
    · intro p e q hp hok hstep hlawful
      obtain ⟨t, ht, rfl⟩ := Option.map_eq_some_iff.mp hstep
      exact (hp hlawful).step hlawful hok ht
  cases h with
  | init hinit =>
    obtain ⟨slice, -, rfl⟩ := hinit
    exact ⟨fun snapshot hs => (by cases hs), fun snapshot hs => (by cases hs)⟩
  | step _ hstep =>
    have hw := hwritten (hfb.lawful hstep.1.1)
    exact ⟨hw.lost, hw.spurious⟩

end

/-- A drive with a set point that is read and written. -/
def heater : DeviceFb :=
  @modbusRtuFb default [⟨"setpoint", .int, .inout, some ⟨100, .holdingRegister, none, none⟩, 1⟩]

def heaterInputs : List Value :=
  [.string "ttyS0", .int 1, .time 50, .time 100, .time 5, .bool false, .int 0, .uint 0, .uint 0,
    .real F64.zero, .int 0]

/-- The set point is assigned, two cycles run, and a poll begins. -/
def heaterRun : List (DeviceEvent Unit) :=
  [.assign () 10 (.int 5), .enter (), .queue, .copy, .enter (), .queue, .copy, .pollBegin]

/-- A set point that is polled after its own cycle is transmitted. -/
theorem setpoint_written :
    ∃ p, Faithful heater p ∧ p.2.duePoll 0 = some (.int 5) ∧ p.1.poll = some [some (.int 5)] := by
  have hsingle : heater.clears = true → ∀ pf ∈ heater.fields, pf.count ≤ 1 := fun h => by cases h
  have hstep : ∀ p e q, ((scans heater).restrict (Undisturbed heater)).Reachable p →
      Undisturbed heater p e → recordedScan heater p e = some q →
        ((scans heater).restrict (Undisturbed heater)).Reachable q := fun p e q hp hok he =>
    hp.step ⟨hok, he⟩
  have hinit : ((scans heater).restrict (Undisturbed heater)).Reachable
      (heater.start fun _ => heaterInputs, .none) := .init ⟨heaterInputs, rfl, rfl⟩
  have hassign := hstep _ (.assign () 10 (.int 5)) _ hinit ⟨hsingle, trivial⟩ rfl
  have henter := hstep _ (.enter ()) _ hassign ⟨hsingle, trivial⟩ rfl
  have hqueue := hstep _ .queue _ henter ⟨hsingle, ?_⟩ rfl
  have hcopy := hstep _ .copy _ hqueue ⟨hsingle, trivial⟩ rfl
  have hpoll := hstep _ .pollBegin _ hcopy ⟨hsingle, .inr rfl⟩ rfl
  · exact ⟨_, @writes_faithful default _ (@DeviceFb.Shipped.rtu default _) _ hpoll, rfl, rfl⟩
  · refine ⟨fun k v hk _ => ?_, fun k hk _ v _ => ?_, fun h => by cases h⟩
    · obtain ⟨hk, hv⟩ := mem_modbusQueued.mp hk
      obtain rfl : k = 0 := List.mem_singleton.mp hk
      exact hv
    · obtain rfl : k = 0 := List.mem_singleton.mp hk
      exact (by decide : heater.canSend 0 (.int 5) = true)

/-- The second cycle queues the reading in place of the set point: the poll writes 0,
which the program never assigned, and not 5. -/
theorem setpoint_lost :
    ∃ p, (scans heater).Reachable p ∧ ¬ Faithful heater p ∧ p.2.assigned = [(0, .int 5)] ∧
      p.2.duePoll 0 = some (.int 5) ∧ p.1.poll = some [some (.int 0)] ∧
      heater.canSend 0 (.int 0) = true := by
  have hinit : (scans heater).Reachable (heater.start fun _ => heaterInputs, .none) :=
    .init ⟨heaterInputs, rfl, rfl⟩
  obtain ⟨p, hrun⟩ : ∃ p, Lts.exec (recordedScan heater) heaterRun
      (heater.start fun _ => heaterInputs, .none) = some p := ⟨_, rfl⟩
  refine ⟨p, hinit.exec hrun, ?_⟩
  obtain rfl := Option.some.inj hrun
  refine ⟨fun hf => ?_, rfl, rfl, rfl, by decide⟩
  obtain ⟨h, -⟩ := hf.lost _ rfl 0 (.int 5) rfl
  cases h

end RustPlc.Devices
