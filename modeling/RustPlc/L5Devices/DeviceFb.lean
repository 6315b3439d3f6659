import RustPlc.L5Devices.DeviceIo
import RustPlc.Core.Lts
import Mathlib.Logic.Function.Basic

/-!
# Device function blocks and their polls

A device type is one object in the registry: the state that `execute()` shares
with the background thread, and the flag that says the device is registered,
belong to the type. The scan thread calls `execute()` for one instance after the
other; the background thread polls the device that was registered. Both take the
lock of the shared state for a section at a time, so the sections interleave.

The three device function blocks differ in the inputs that give the address, in
what they queue and copy, and in whether a poll clears the queue.

Results:
* `applyUpdates_get`: what a sequence of stores leaves at an index;
* `storeEach_updates`, `sendable_sent`: what a poll reads and writes, in terms of the
  values of the process image;
* `DeviceFb.step`: the sections of the two threads.
-/
namespace RustPlc.Devices

open RustPlc.Ir RustPlc.Agree RustPlc.Core

/-! ## Updates of a vector -/

/-- Stores one value after the other. -/
def applyUpdates {α : Type} (updates : List (Nat × α)) (xs : List α) : List α :=
  updates.foldl (fun xs u => xs.set u.1 u.2) xs

@[simp] theorem applyUpdates_length {α : Type} (updates : List (Nat × α)) (xs : List α) :
    (applyUpdates updates xs).length = xs.length := by
  unfold applyUpdates
  induction updates generalizing xs with
  | nil => rfl
  | cons u us ih => rw [List.foldl_cons, ih, List.length_set]

/-- An index that is not stored to keeps its value. -/
theorem applyUpdates_other {α : Type} {updates : List (Nat × α)} {xs : List α} {k : Nat}
    (h : ∀ v, (k, v) ∉ updates) : (applyUpdates updates xs)[k]? = xs[k]? := by
  unfold applyUpdates
  induction updates generalizing xs with
  | nil => rfl
  | cons u us ih =>
    rw [List.foldl_cons, ih fun v hv => h v (List.mem_cons_of_mem u hv)]
    refine List.getElem?_set_ne fun heq => h u.2 ?_
    rw [← heq]
    exact List.mem_cons_self

/-- An index to which one value is stored, any number of times, holds it. -/
theorem applyUpdates_get {α : Type} {updates : List (Nat × α)} {xs : List α} {k : Nat} {v : α}
    (hmem : (k, v) ∈ updates) (hsame : ∀ v', (k, v') ∈ updates → v' = v) (hk : k < xs.length) :
    (applyUpdates updates xs)[k]? = some v := by
  induction updates generalizing xs with
  | nil => cases hmem
  | cons u us ih =>
    change (applyUpdates us (xs.set u.1 u.2))[k]? = some v
    by_cases hlater : (k, v) ∈ us
    · exact ih hlater (fun v' h => hsame v' (List.mem_cons_of_mem u h)) (by simpa using hk)
    · have hu : u = (k, v) := (List.mem_cons.mp hmem).resolve_right hlater |>.symm
      have hnone : ∀ v', (k, v') ∉ us := fun v' h =>
        hlater (hsame v' (List.mem_cons_of_mem u h) ▸ h)
      rw [applyUpdates_other hnone, hu]
      exact List.getElem?_set_self hk

/-- What a poll stores of a reply is a sequence of stores. -/
theorem storeEach_updates {α : Type} {value : ExpandedReg → α → Value} :
    ∀ {regs : List ExpandedReg} {vs : List α} {image image' : List Value},
      storeEach value regs vs image = some image' →
        image' = applyUpdates ((regs.zip vs).map fun u => (u.1.ioIdx, value u.1 u.2)) image := by
  intro regs
  induction regs with
  | nil =>
    intro vs image image' h
    cases vs with
    | nil => exact (Option.some.inj h).symm
    | cons v vs => cases h
  | cons r regs ih =>
    intro vs image image' h
    cases vs with
    | nil => exact (Option.some.inj h).symm
    | cons v vs =>
      simp only [storeEach, Option.ite_none_right_eq_some] at h
      exact ih h.2

/-! ## Device function blocks -/

/-- The device that is polled: the serial port and the slave or device number, or
the host, port and unit. -/
structure DeviceAddress where
  line : String
  port : UInt16
  unit : UInt8
  deriving DecidableEq, Repr

/-- What `execute()` and the poll share. A queue that is never cleared has a
value at every index.
mirrors crates/st-comm-modbus/src/device_fb.rs:77-91 and
crates/st-comm-upp/src/device_fb.rs:73-86 -/
structure IoState where
  readValues : List Value
  writeValues : List (Option Value)
  connected : Bool
  errorCode : Int64
  errorsCount : UInt64
  ioCycles : UInt64
  lastResponseMs : F64

/-- A device function block type: its profile, where the profile's fields start in
the slice, the address the inputs give (or the slice as an early return leaves
it), and what the sections of `execute()` and of a poll do with the shared state.
`reconnects`: the thread itself reports a connection it cannot open. -/
structure DeviceFb where
  fields : List ProfileField
  base : Nat
  address : List Value → Except (List Value) DeviceAddress
  initial : IoState
  queued : List Value → List Value → List (Nat × Value)
  copied : List Nat
  diagnostics : IoState → List (Nat × Value)
  clears : Bool
  canSend : Nat → Value → Bool
  finish : Int64 → F64 → IoState → IoState
  reconnects : Bool

/-- The indices of the values of the fields with this direction. -/
def fieldIndices (filter : FieldDirection → Bool) : Nat → List ProfileField → List Nat
  | _, [] => []
  | offset, pf :: fields =>
    (if filter pf.direction then (List.range pf.size).map (offset + ·) else []) ++
      fieldIndices filter (offset + pf.size) fields

def DeviceFb.written (fb : DeviceFb) : List Nat := fieldIndices FieldDirection.isWritten 0 fb.fields

/-- The values of the fields from `offset` on. -/
theorem fieldIndices_lt {filter : FieldDirection → Bool} {fields : List ProfileField} {offset k : Nat}
    (h : k ∈ fieldIndices filter offset fields) : k < offset + totalExpandedValues fields := by
  induction fields generalizing offset with
  | nil => cases h
  | cons pf fields ih =>
    have htotal : totalExpandedValues (pf :: fields) = pf.size + totalExpandedValues fields := by
      simp [totalExpandedValues]
    rcases List.mem_append.mp h with h | h
    · split at h
      · obtain ⟨j, hj, rfl⟩ := List.mem_map.mp h
        have := List.mem_range.mp hj
        omega
      · cases h
    · have := ih h
      omega

/-- A register of a pass is about a value of a field of the pass. -/
theorem expandRegisters_mem {filter : FieldDirection → Bool} {fields : List ProfileField} {offset : Nat}
    {regs : List ExpandedReg} (h : expandRegisters filter offset fields = some regs) {r : ExpandedReg}
    (hr : r ∈ regs) : r.ioIdx ∈ fieldIndices filter offset fields := by
  induction fields generalizing offset regs with
  | nil =>
    cases h
    cases hr
  | cons pf fields ih =>
    simp only [expandRegisters, Option.bind_eq_bind, Option.bind_eq_some_iff, Option.pure_def,
      Option.some.injEq] at h
    obtain ⟨here, hh, behind, hb, rfl⟩ := h
    unfold fieldIndices
    rcases List.mem_append.mp hr with hr | hr
    · unfold fieldRegisters at hh
      split at hh
      · next hfilter _ =>
        have := expandField_lt hh r hr
        refine List.mem_append_left _ ?_
        rw [if_pos hfilter]
        exact List.mem_map.mpr ⟨r.ioIdx - offset, List.mem_range.mpr (by omega), by omega⟩
      · obtain rfl := Option.some.inj hh
        cases hr
    · exact List.mem_append_right _ (ih hb hr)

/-- `connected` and `error_code` on an early return. -/
def failed (connectedSlot errorSlot : Nat) (code : Int64) (slice : List Value) : List Value :=
  (slice.set connectedSlot (.bool false)).set errorSlot (.int code)

/-- The defaults of a field. -/
def ProfileField.default (pf : ProfileField) : Value := Value.defaultForType pf.dataType.varType

/-- `n.saturating_add(1)` -/
def saturatingSucc (n : UInt64) : UInt64 := if n = 0xFFFFFFFFFFFFFFFF then n else n + 1

/-! ### Modbus -/

/-- mirrors crates/st-comm-modbus/src/device_fb.rs:111-137 -/
def modbusInitial (fields : List ProfileField) : IoState :=
  let defaults := fields.flatMap fun pf => List.replicate pf.size pf.default
  ⟨defaults, defaults.map some, false, 0, 0, 0, F64.zero⟩

/-- The output fields, with what stands in them.
mirrors crates/st-comm-modbus/src/device_fb.rs:195-211 -/
def modbusQueued (fields : List ProfileField) (base : Nat) (slice : List Value) : List (Nat × Value) :=
  (fieldIndices FieldDirection.isWritten 0 fields).filterMap fun k => (slice[base + k]?).map (k, ·)

/-- The registers the write pass of a poll sends: coils and holding registers. -/
def sendable (fields : List ProfileField) : List Nat :=
  match expandRegisters FieldDirection.isWritten 0 fields with
  | none => []
  | some regs => (regs.filter (·.kind.isWritable)).map (·.ioIdx)

theorem sendable_written {fields : List ProfileField} {k : Nat} (h : k ∈ sendable fields) :
    k ∈ fieldIndices FieldDirection.isWritten 0 fields := by
  unfold sendable at h
  split at h
  · cases h
  · next regs hregs =>
    obtain ⟨r, hr, rfl⟩ := List.mem_map.mp h
    exact expandRegisters_mem hregs (List.mem_of_mem_filter hr)

section

variable [F64Ops]

/-- The write pass of a poll sends the value of each of these registers, and of no
others. -/
theorem sendable_sent {fields : List ProfileField} {regs : List ExpandedReg} {values : List Value}
    {requests : List Request} (hregs : expandRegisters FieldDirection.isWritten 0 fields = some regs)
    (h : writeRequests values 0 regs = some requests) :
    (∀ k ∈ sendable fields, ∃ s ∈ requests.flatMap Request.sets, ∃ r ∈ regs,
      r.ioIdx = k ∧ SetTo values s r) ∧
    ∀ s ∈ requests.flatMap Request.sets, ∃ r ∈ regs, r.ioIdx ∈ sendable fields ∧ SetTo values s r := by
  have hsets := writeRequests_sets h
  simp only [sendable, hregs, List.drop_zero] at hsets ⊢
  constructor
  · intro k hk
    obtain ⟨r, hr, rfl⟩ := List.mem_map.mp hk
    obtain ⟨j, hj, rfl⟩ := List.getElem_of_mem hr
    have hjs : j < (requests.flatMap Request.sets).length := hsets.length_eq.symm ▸ hj
    exact ⟨_, List.getElem_mem hjs, _, List.mem_of_mem_filter hr, rfl, hsets.get hjs hj⟩
  · intro s hs
    obtain ⟨j, hj, rfl⟩ := List.getElem_of_mem hs
    have hjr := hsets.length_eq ▸ hj
    exact ⟨_, List.mem_of_mem_filter (List.getElem_mem hjr), List.mem_map_of_mem (List.getElem_mem hjr),
      hsets.get hj hjr⟩

/-- mirrors crates/st-comm-modbus/src/device_fb.rs:150-163 -/
def rtuAddress (slice : List Value) : Except (List Value) DeviceAddress :=
  match slice[0]?.getD Value.void with
  | .string link =>
    if link = "" then .error (failed 5 6 1 slice)
    else
      let slaveId := (slice[1]?.getD Value.void).asInt.toUInt64.toUInt8
      if slaveId = 0 then .error (failed 5 6 2 slice) else .ok ⟨link, 0, slaveId⟩
  | _ => .error (failed 5 6 1 slice)

/-- mirrors crates/st-comm-modbus/src/device_fb.rs:98-234 -/
def modbusRtuFb (fields : List ProfileField) : DeviceFb where
  fields := fields
  base := 10
  address := rtuAddress
  initial := modbusInitial fields
  queued slice _ := modbusQueued fields 10 slice
  copied := fieldIndices FieldDirection.isRead 0 fields
  diagnostics io := [(5, .bool io.connected), (6, .int io.errorCode), (7, .uint io.errorsCount),
    (8, .uint io.ioCycles), (9, .real io.lastResponseMs)]
  clears := false
  canSend k _ := k ∈ sendable fields
  finish code ms io := { io with
    connected := code == 0
    errorCode := code
    ioCycles := io.ioCycles + 1
    errorsCount := if code == 0 then io.errorsCount else saturatingSucc io.errorsCount
    lastResponseMs := ms }
  reconnects := false

/-- mirrors crates/st-comm-modbus-tcp/src/device_fb.rs:110-124 -/
def tcpAddress (slice : List Value) : Except (List Value) DeviceAddress :=
  match slice[0]?.getD Value.void with
  | .string host =>
    if host = "" then .error (failed 4 5 1 slice)
    else
      let p := (slice[1]?.getD Value.void).asInt
      let unitId := (slice[2]?.getD Value.void).asInt.toUInt64.toUInt8
      .ok ⟨host, if 0 < p then p.toUInt64.toUInt16 else 502, unitId⟩
  | _ => .error (failed 4 5 1 slice)

/-- mirrors crates/st-comm-modbus-tcp/src/device_fb.rs:66-193 -/
def modbusTcpFb (fields : List ProfileField) : DeviceFb where
  fields := fields
  base := 8
  address := tcpAddress
  initial := modbusInitial fields
  queued slice _ := modbusQueued fields 8 slice
  copied := fieldIndices FieldDirection.isRead 0 fields
  diagnostics io := [(4, .bool io.connected), (5, .int io.errorCode), (6, .uint io.ioCycles),
    (7, .real io.lastResponseMs)]
  clears := false
  canSend k _ := k ∈ sendable fields
  finish code ms io := { io with
    connected := code == 0
    errorCode := if code == 0 then 0 else 10
    ioCycles := io.ioCycles + 1
    lastResponseMs := ms }
  reconnects := true

/-! ### UPP -/

/-- mirrors crates/st-comm-upp/src/profile_binding.rs:35-55 -/
inductive WriteCmdKind where
  | em | et | ev | dw | aw | ez | lz | fh | ka | la | as | ga | br | m1 | m2 | lx
  deriving DecidableEq, Repr

/-- mirrors crates/st-comm-upp/src/device_fb.rs:470-480 -/
def realToMilli (v : Value) : Bool :=
  let limit : F64 := ⟨0x4050623D70A3D70A⟩
  let fits (f : F64) := F64.zero.le f && f.le limit
  match v with
  | .real r => fits r
  | .int i => fits (F64Ops.ofInt i)
  | _ => false

/-- mirrors crates/st-comm-upp/src/device_fb.rs:482-489 -/
def intAsU8 : Value → Bool
  | .int i => 0 ≤ i ∧ i ≤ 255
  | .uint u => u ≤ 255
  | .bool _ => true
  | _ => false

/-- mirrors crates/st-comm-upp/src/device_fb.rs:491-497 -/
def boolAsU8 : Value → Bool
  | .bool _ => true
  | .int i => i = 0 ∨ i = 1
  | _ => false

/-- Whether a command can be built of the value; its text is left out.
mirrors crates/st-comm-upp/src/device_fb.rs:436-465 -/
def buildWriteCommand (kind : WriteCmdKind) (v : Value) : Bool :=
  match kind with
  | .em | .et | .ev => realToMilli v
  | .dw | .aw | .ez | .lz | .fh | .ka | .as | .ga | .br => intAsU8 v
  | .la => boolAsU8 v
  | .m1 => false
  | .m2 | .lx => true

/-- mirrors crates/st-comm-upp/src/device_fb.rs:304-316 -/
def valuesEqual : Value → Value → Bool
  | .bool x, .bool y => x == y
  | .int x, .int y => x == y
  | .uint x, .uint y => x == y
  | .real x, .real y => x.bits == y.bits
  | .string x, .string y => x == y
  | .time x, .time y => x == y
  | _, _ => false

/-- mirrors crates/st-comm-upp/src/device_fb.rs:172-199, 274-284 -/
def uppAddress (profileError : Bool) (slice : List Value) : Except (List Value) DeviceAddress :=
  if profileError then .error (failed 5 6 102 slice)
  else match slice[0]?.getD Value.void with
    | .string link =>
      if link = "" then .error (failed 5 6 100 slice)
      else
        let n := (slice[1]?.getD Value.void).asInt
        if 0 ≤ n ∧ n ≤ 99 then .ok ⟨link, 0, n.toUInt64.toUInt8⟩ else .error (failed 5 6 101 slice)
    | _ => .error (failed 5 6 100 slice)

/-- The writable fields, by their number in the profile, whose value is not the
one last read. mirrors crates/st-comm-upp/src/device_fb.rs:228-247 -/
def uppQueued (fields : List ProfileField) (slice reads : List Value) : List (Nat × Value) :=
  (fields.zipIdx.filter (·.1.direction.isWritten)).filterMap fun (_, i) =>
    match slice[10 + i]? with
    | none => none
    | some v => if valuesEqual v (reads[i]?.getD Value.void) then none else some (i, v)

/-- A pyrometer; the bindings of the fields are resolved when the type is built.
mirrors crates/st-comm-upp/src/device_fb.rs:112-265 -/
def uppFb (fields : List ProfileField) (bindings : List (Option WriteCmdKind)) (profileError : Bool) :
    DeviceFb where
  fields := fields
  base := 10
  address := uppAddress profileError
  initial := ⟨fields.map ProfileField.default, fields.map fun _ => none, false,
    if profileError then 102 else 0, 0, 0, F64.zero⟩
  queued := uppQueued fields
  copied := List.range fields.length
  diagnostics io := [(5, .bool io.connected), (6, .int io.errorCode), (7, .uint io.errorsCount),
    (8, .uint io.ioCycles), (9, .real io.lastResponseMs)]
  clears := true
  canSend k v := match bindings[k]?.join with
    | none => false
    | some kind => buildWriteCommand kind v
  finish code ms io :=
    let io := { io with ioCycles := saturatingSucc io.ioCycles, lastResponseMs := ms }
    if code == 0 then { io with connected := true, errorCode := 0 }
    else { io with errorCode := code, errorsCount := saturatingSucc io.errorsCount, connected := false }
  reconnects := false

/-- The device function blocks that are shipped. -/
inductive DeviceFb.Shipped : DeviceFb → Prop where
  | rtu (fields : List ProfileField) : Shipped (modbusRtuFb fields)
  | tcp (fields : List ProfileField) : Shipped (modbusTcpFb fields)
  | upp (fields : List ProfileField) (bindings : List (Option WriteCmdKind)) (profileError : Bool) :
    Shipped (uppFb fields bindings profileError)

end

/-! ## Calls and polls -/

/-- The section of `execute()` that comes next. -/
inductive CallPhase where
  | queue | copy
  deriving DecidableEq, Repr

/-- A device type with its instances: the shared state, the device that was
registered, the fields of the instances, the call that is being executed with the
address its inputs give, and the values a poll under way has to write. -/
structure DeviceState (ι : Type) where
  io : IoState
  registered : Option DeviceAddress
  slices : ι → List Value
  call : Option (ι × DeviceAddress × CallPhase)
  poll : Option (List (Option Value))

/-- What the scan thread and the background thread do: the program assigns to a
field of an instance, `execute()` runs up to its next section, a poll takes the
values to write, stores what it has read, and ends. -/
inductive DeviceEvent (ι : Type) where
  | assign (i : ι) (p : Nat) (v : Value)
  | enter (i : ι)
  | queue
  | copy
  | pollBegin
  | pollStore (updates : List (Nat × Value))
  | pollEnd (code : Int64) (ms : F64)
  | linkDown

namespace DeviceFb

variable {ι : Type} [DecidableEq ι] (fb : DeviceFb)

/-- The inputs are read; the first call that gives an address registers the device. -/
def enter (s : DeviceState ι) (i : ι) : DeviceState ι :=
  match fb.address (s.slices i) with
  | .error slice => { s with slices := Function.update s.slices i slice }
  | .ok a => { s with registered := some (s.registered.getD a), call := some (i, a, .queue) }

def queueWrites (slice : List Value) (io : IoState) : IoState :=
  let queued := (fb.queued slice io.readValues).map fun u => (u.1, some u.2)
  { io with writeValues := applyUpdates queued io.writeValues }

def copyReads (io : IoState) (slice : List Value) : List Value :=
  let reads := fb.copied.filterMap fun k => (io.readValues[k]?).map (fb.base + k, ·)
  applyUpdates (fb.diagnostics io) (applyUpdates reads slice)

/-- What is left in the queue once a poll has taken it. -/
def takeWrites (io : IoState) : IoState :=
  { io with writeValues := if fb.clears then fb.fields.map fun _ => none else io.writeValues }

/-- One section of one of the two threads.
mirrors crates/st-comm-modbus/src/device_fb.rs:149-292,
crates/st-comm-modbus-tcp/src/device_fb.rs:109-280 and
crates/st-comm-upp/src/device_fb.rs:171-265, 328-430 -/
def step (s : DeviceState ι) : DeviceEvent ι → Option (DeviceState ι)
  | .assign i p v =>
    if s.call.isNone then some { s with slices := Function.update s.slices i ((s.slices i).set p v) }
    else none
  | .enter i => if s.call.isNone then some (fb.enter s i) else none
  | .queue => match s.call with
    | some (i, a, .queue) =>
      some { s with io := fb.queueWrites (s.slices i) s.io, call := some (i, a, .copy) }
    | _ => none
  | .copy => match s.call with
    | some (i, _, .copy) =>
      some { s with slices := Function.update s.slices i (fb.copyReads s.io (s.slices i)), call := none }
    | _ => none
  | .pollBegin =>
    if s.registered.isSome ∧ s.poll.isNone then
      some { s with poll := some s.io.writeValues, io := fb.takeWrites s.io }
    else none
  | .pollStore updates =>
    if s.poll.isSome then
      some { s with io := { s.io with readValues := applyUpdates updates s.io.readValues } }
    else none
  | .pollEnd code ms =>
    if s.poll.isSome then some { s with io := fb.finish code ms s.io, poll := none } else none
  | .linkDown =>
    if fb.reconnects ∧ s.registered.isSome ∧ s.poll.isNone then
      some { s with io := { s.io with connected := false, errorCode := 2 } }
    else none

/-- Nothing has run yet. -/
def start (slices : ι → List Value) : DeviceState ι := ⟨fb.initial, none, slices, none, none⟩

end DeviceFb

end RustPlc.Devices
