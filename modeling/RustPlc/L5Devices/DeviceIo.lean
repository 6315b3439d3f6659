import RustPlc.L4Agree.Parameters
import RustPlc.L5Devices.Modbus

/-!
# Device profiles and batched register access

A profile lists the fields of a device and the registers behind them. A field
with a count takes that many registers and that many values of the process
image. A poll reads runs of neighbouring registers of one kind with one request
each, and writes coils and holding registers the same way.

The source indexes the registers and the process image by what it received;
`none` is the panic of an index out of range, or of an address beyond 65535.

Results:
* `expandRegisters_lt`: the registers of a profile are inside the process image
  of the profile;
* `storeEach_ok`: values for no more than the registers at hand are stored without
  a panic, and nothing else changes;
* `writeRequests_sets`: the write pass sets each coil and each holding register to its
  value, and nothing else.
-/
namespace RustPlc.Devices

open RustPlc.Ir RustPlc.Agree

/-! ## Profiles -/

/-- mirrors crates/st-comm-api/src/profile.rs:171-178 -/
inductive FieldDirection where
  | input | output | inout
  deriving DecidableEq, Repr

def FieldDirection.isRead (d : FieldDirection) : Bool := d == .input || d == .inout

def FieldDirection.isWritten (d : FieldDirection) : Bool := d == .output || d == .inout

/-- mirrors crates/st-comm-api/src/profile.rs:217-224 -/
inductive RegisterKind where
  | coil | discreteInput | holdingRegister | inputRegister | virtual
  deriving DecidableEq, Repr

/-- mirrors crates/st-comm-api/src/profile.rs:182-212 -/
structure RegisterMapping where
  address : UInt32
  kind : RegisterKind
  scale : Option F64
  offset : Option F64
  deriving DecidableEq, Repr

/-- mirrors crates/st-comm-api/src/profile.rs:45-78 -/
structure ProfileField where
  name : String
  dataType : FieldDataType
  direction : FieldDirection
  register : Option RegisterMapping
  count : UInt16
  deriving DecidableEq, Repr

/-- mirrors crates/st-comm-api/src/profile.rs:11-29 -/
structure DeviceProfile where
  name : String
  protocol : Option String
  fields : List ProfileField
  deriving DecidableEq, Repr

/-- The number of values of a field. -/
def ProfileField.size (pf : ProfileField) : Nat := max pf.count.toNat 1

/-- Where the values of each field start.
mirrors crates/st-comm-modbus/src/device_fb.rs:61-69 -/
def computeFieldOffsets : Nat → List ProfileField → List Nat
  | _, [] => []
  | offset, pf :: fields => offset :: computeFieldOffsets (offset + pf.size) fields

/-- mirrors crates/st-comm-modbus/src/device_fb.rs:72-74 -/
def totalExpandedValues (fields : List ProfileField) : Nat := (fields.map ProfileField.size).sum

/-! ## Registers of a profile -/

/-- mirrors crates/st-comm-modbus/src/device_fb.rs:303-316 -/
structure ExpandedReg where
  ioIdx : Nat
  address : UInt16
  kind : RegisterKind
  dataType : FieldDataType
  register : RegisterMapping

/-- `start + n as u16`. -/
def addressAt (start : UInt16) (n : Nat) : Option UInt16 :=
  if start.toNat + n.toUInt16.toNat < 65536 then some (start + n.toUInt16) else none

/-- The registers of a field from its `j`-th on. -/
def expandField (offset : Nat) (pf : ProfileField) (register : RegisterMapping) :
    Nat → Nat → Option (List ExpandedReg)
  | _, 0 => some []
  | j, left + 1 => do
    let address ← addressAt register.address.toUInt16 j
    let behind ← expandField offset pf register (j + 1) left
    return ⟨offset + j, address, register.kind, pf.dataType, register⟩ :: behind

/-- The registers of a field, when the pass is about it. -/
def fieldRegisters (filter : FieldDirection → Bool) (offset : Nat) (pf : ProfileField) :
    Option (List ExpandedReg) :=
  match filter pf.direction, pf.register with
  | true, some register => expandField offset pf register 0 pf.size
  | _, _ => some []

/-- mirrors crates/st-comm-modbus/src/device_fb.rs:319-351 and
crates/st-comm-modbus-tcp/src/device_fb.rs:286-309 -/
def expandRegisters (filter : FieldDirection → Bool) : Nat → List ProfileField →
    Option (List ExpandedReg)
  | _, [] => some []
  | offset, pf :: fields => do
    let here ← fieldRegisters filter offset pf
    let behind ← expandRegisters filter (offset + pf.size) fields
    return here ++ behind

theorem expandField_lt {offset : Nat} {pf : ProfileField} {register : RegisterMapping} :
    ∀ {left j : Nat} {regs : List ExpandedReg}, expandField offset pf register j left = some regs →
      ∀ r ∈ regs, offset ≤ r.ioIdx ∧ r.ioIdx < offset + j + left := by
  intro left
  induction left with
  | zero =>
    intro j regs h
    cases h
    simp
  | succ left ih =>
    intro j regs h
    simp only [expandField, Option.bind_eq_bind, Option.bind_eq_some_iff, Option.pure_def,
      Option.some.injEq] at h
    obtain ⟨address, -, behind, hb, rfl⟩ := h
    intro r hr
    rcases List.mem_cons.mp hr with rfl | hr
    · simp only
      omega
    · have := ih hb r hr
      omega

/-- **The registers of a profile are inside its process image.** -/
theorem expandRegisters_lt {filter : FieldDirection → Bool} : ∀ {fields : List ProfileField}
    {offset : Nat} {regs : List ExpandedReg}, expandRegisters filter offset fields = some regs →
      ∀ r ∈ regs, r.ioIdx < offset + totalExpandedValues fields := by
  intro fields
  induction fields with
  | nil =>
    intro offset regs h
    cases h
    simp
  | cons pf fields ih =>
    intro offset regs h
    simp only [expandRegisters, Option.bind_eq_bind, Option.bind_eq_some_iff, Option.pure_def,
      Option.some.injEq] at h
    obtain ⟨here, hh, behind, hb, rfl⟩ := h
    have htotal : totalExpandedValues (pf :: fields) = pf.size + totalExpandedValues fields := by
      simp [totalExpandedValues]
    intro r hr
    rcases List.mem_append.mp hr with hr | hr
    · unfold fieldRegisters at hh
      split at hh
      · have := expandField_lt hh r hr
        omega
      · simp only [Option.some.injEq] at hh
        simp [← hh] at hr
    · have := ih hb r hr
      omega

/-! ## Batches -/

def RegisterKind.readKind : RegisterKind → Option ReadKind
  | .coil => some .coils
  | .discreteInput => some .discreteInputs
  | .holdingRegister => some .holdingRegisters
  | .inputRegister => some .inputRegisters
  | .virtual => none

/-- The number of registers of the batch that starts with `first`, when `n` of
them are known. -/
def batchLength (first : ExpandedReg) : List ExpandedReg → Nat → Option Nat
  | [], n => some n
  | next :: rest, n => do
    let expected ← addressAt first.address n
    if next.kind ≠ first.kind || next.address ≠ expected then some n
    else batchLength first rest (n + 1)

theorem batchLength_le {first : ExpandedReg} : ∀ {regs : List ExpandedReg} {n m : Nat},
    batchLength first regs n = some m → n ≤ m ∧ m ≤ n + regs.length := by
  intro regs
  induction regs with
  | nil =>
    intro n m h
    cases h
    simp
  | cons next rest ih =>
    intro n m h
    simp only [batchLength, Option.bind_eq_bind, Option.bind_eq_some_iff] at h
    obtain ⟨expected, -, h⟩ := h
    simp only [List.length_cons]
    split at h
    · cases h
      omega
    · have := ih h
      omega

/-! ## Storing values -/

/-- Stores the values in the process image, each where its register says. -/
def storeEach {α : Type} (value : ExpandedReg → α → Value) :
    List ExpandedReg → List α → List Value → Option (List Value)
  | _, [], image => some image
  | [], _ :: _, _ => none
  | r :: regs, v :: vs, image =>
    if r.ioIdx < image.length then storeEach value regs vs (image.set r.ioIdx (value r v)) else none

/-- Values for registers inside the process image are stored, and no other
value changes. -/
theorem storeEach_ok {α : Type} {value : ExpandedReg → α → Value} : ∀ {regs : List ExpandedReg}
    {vs : List α} {image : List Value}, vs.length ≤ regs.length →
      (∀ r ∈ regs, r.ioIdx < image.length) →
      ∃ image', storeEach value regs vs image = some image' ∧ image'.length = image.length ∧
        ∀ i, (∀ r ∈ regs.take vs.length, r.ioIdx ≠ i) → image'[i]? = image[i]? := by
  intro regs
  induction regs with
  | nil =>
    intro vs image hlen _
    obtain rfl : vs = [] := List.eq_nil_of_length_eq_zero (Nat.le_zero.mp hlen)
    exact ⟨image, by simp [storeEach], rfl, fun _ _ => rfl⟩
  | cons r regs ih =>
    intro vs image hlen hin
    cases vs with
    | nil => exact ⟨image, by simp [storeEach], rfl, fun _ _ => rfl⟩
    | cons v vs =>
      have hr := hin r List.mem_cons_self
      have hlen' : vs.length ≤ regs.length := by simpa using hlen
      have hin' : ∀ r' ∈ regs, r'.ioIdx < (image.set r.ioIdx (value r v)).length := fun r' hr' => by
        simpa using hin r' (List.mem_cons_of_mem r hr')
      obtain ⟨image', hok, hl, hsame⟩ := ih hlen' hin'
      refine ⟨image', by rw [storeEach, if_pos hr, hok], by simpa using hl, fun i hi => ?_⟩
      simp only [List.length_cons, List.take_succ_cons, List.mem_cons, forall_eq_or_imp] at hi
      rw [hsame i hi.2, List.getElem?_set_ne hi.1]

/-! ## Reading -/

section

variable [F64Ops]

/-- mirrors crates/st-comm-modbus/src/device_fb.rs:580-600 and
crates/st-comm-modbus-tcp/src/device_fb.rs:485-509 -/
def registerToValue (raw : UInt16) (dataType : FieldDataType) (reg : RegisterMapping) : Value :=
  let f := F64Ops.ofUInt raw.toUInt64
  let scaled := match reg.scale with
    | some scale => F64Ops.add (F64Ops.mul f scale) (reg.offset.getD F64.zero)
    | none => F64Ops.add f (reg.offset.getD F64.zero)
  match dataType with
  | .bool => .bool (raw ≠ 0)
  | .real | .lreal => .real scaled
  | .usint | .uint | .udint | .ulint | .byte | .word | .dword | .lword => .uint (F64Ops.toUInt scaled)
  | _ => .int (F64Ops.toInt scaled)

/-- The registers are those from the first one of the batch on. -/
def storeReply (regs : List ExpandedReg) (reply : Reply) (image : List Value) :
    Option (List Value) :=
  match reply with
  | .coils values => storeEach (fun _ b => .bool b) regs values image
  | .registers values => storeEach (fun r w => registerToValue w r.dataType r.register) regs values image
  | .written => some image

/-- What becomes of the process image after one batch has been read. -/
def readBatch (regs : List ExpandedReg) (result : Except String Reply) (image : List Value) :
    Option (List Value) :=
  match result with
  | .error _ => some image
  | .ok reply => storeReply regs reply image

/-- The read pass of a poll: what the client is left in, the process image and
the errors. The first `skip` registers belong to the batch before.
mirrors crates/st-comm-modbus/src/device_fb.rs:385-468 and
crates/st-comm-modbus-tcp/src/device_fb.rs:312-396 -/
def readBatchedIo {σ : Type} (ask : σ → Request → σ × Except String Reply) :
    Nat → List ExpandedReg → σ → List Value → Option (σ × List Value × List String)
  | _, [], s, image => some (s, image, [])
  | skip + 1, _ :: regs, s, image => readBatchedIo ask skip regs s image
  | 0, first :: regs, s, image =>
    match first.kind.readKind with
    | none => readBatchedIo ask 0 regs s image
    | some kind => do
      let n ← batchLength first regs 1
      let (s, result) := ask s (.read kind first.address n.toUInt16)
      let image ← readBatch (first :: regs) result image
      let (s, image, errors) ← readBatchedIo ask (n - 1) regs s image
      return (s, image, match result with
        | .error msg => msg :: errors
        | .ok _ => errors)

/-! ## Writing -/

/-- `x.clamp(0.0, 65535.0)`; not a number stays what it is. -/
def clampWord (x : F64) : F64 :=
  if x.lt F64.zero then F64.zero
  else if F64.lt ⟨0x40EFFFE000000000⟩ x then ⟨0x40EFFFE000000000⟩ else x

/-- mirrors crates/st-comm-modbus/src/device_fb.rs:603-630 and
crates/st-comm-modbus-tcp/src/device_fb.rs:511-536 -/
def valueToRegister (value : Value) (reg : RegisterMapping) : UInt16 :=
  let raw := match value with
    | .bool true => ⟨0x3FF0000000000000⟩
    | .bool false => F64.zero
    | .int i => F64Ops.ofInt i
    | .uint u => F64Ops.ofUInt u
    | .real r => r
    | _ => F64.zero
  let unscaled := match reg.scale with
    | some scale =>
      if scale.eq F64.zero then raw else F64Ops.div (F64Ops.sub raw (reg.offset.getD F64.zero)) scale
    | none => F64Ops.sub raw (reg.offset.getD F64.zero)
  (F64Ops.toUInt (clampWord unscaled)).toUInt16

/-- What a register is set to: a coil or a word. -/
inductive Datum where
  | coil (b : Bool)
  | word (w : UInt16)
  deriving DecidableEq, Repr

/-- The coils or words a write request sets, with their addresses. -/
def Request.sets : Request → List (UInt16 × Datum)
  | .read .. => []
  | .writeSingleCoil addr b => [(addr, .coil b)]
  | .writeSingleRegister addr w => [(addr, .word w)]
  | .writeMultipleCoils start coils =>
    coils.zipIdx.map fun (b, j) => (start + j.toUInt16, .coil b)
  | .writeMultipleRegisters start values =>
    values.zipIdx.map fun (w, j) => (start + j.toUInt16, .word w)

/-- One request for a run of coils, another function for a single one. -/
def coilRequest (start : UInt16) : List Bool → Request
  | [b] => .writeSingleCoil start b
  | coils => .writeMultipleCoils start coils

def wordRequest (start : UInt16) : List UInt16 → Request
  | [w] => .writeSingleRegister start w
  | values => .writeMultipleRegisters start values

/-- The request for a run of registers of one kind. -/
def writeRequest (first : ExpandedReg) (batch : List ExpandedReg) (values : List Value) :
    Option Request :=
  if first.kind = .coil then
    (batch.mapM fun r => (values[r.ioIdx]?).map Value.asBool).map (coilRequest first.address)
  else
    (batch.mapM fun r => (values[r.ioIdx]?).map (valueToRegister · r.register)).map
      (wordRequest first.address)

def RegisterKind.isWritable (kind : RegisterKind) : Bool := kind == .coil || kind == .holdingRegister

/-- The requests of the write pass of a poll. The first `skip` registers belong to
the batch before.
mirrors crates/st-comm-modbus/src/device_fb.rs:473-575 and
crates/st-comm-modbus-tcp/src/device_fb.rs:399-480 -/
def writeRequests (values : List Value) : Nat → List ExpandedReg → Option (List Request)
  | _, [] => some []
  | skip + 1, _ :: regs => writeRequests values skip regs
  | 0, first :: regs =>
    if first.kind.isWritable then do
      let n ← batchLength first regs 1
      let request ← writeRequest first (first :: regs.take (n - 1)) values
      let behind ← writeRequests values (n - 1) regs
      return request :: behind
    else writeRequests values 0 regs

/-- What the write pass sets a register to. -/
def ExpandedReg.datum (r : ExpandedReg) (values : List Value) : Option Datum :=
  if r.kind = .coil then (values[r.ioIdx]?).map fun v => .coil v.asBool
  else (values[r.ioIdx]?).map fun v => .word (valueToRegister v r.register)

omit [F64Ops] in
/-- The registers of a batch are of one kind, at one address after the other. -/
theorem batchLength_run {first : ExpandedReg} : ∀ {regs : List ExpandedReg} {m n : Nat},
    batchLength first regs m = some n → ∀ (j : Nat) (r : ExpandedReg),
      (regs.take (n - m))[j]? = some r →
        r.kind = first.kind ∧ r.address = first.address + (m + j).toUInt16 := by
  intro regs
  induction regs with
  | nil =>
    intro m n _ j r hr
    simp at hr
  | cons next rest ih =>
    intro m n h j r hr
    simp only [batchLength, Option.bind_eq_bind, Option.bind_eq_some_iff] at h
    obtain ⟨expected, hexpected, h⟩ := h
    split at h
    · cases h
      simp at hr
    · next hsame =>
      have hle := (batchLength_le h).1
      obtain ⟨hkind, haddr⟩ : next.kind = first.kind ∧ next.address = expected := by simpa using hsame
      rw [show n - m = n - (m + 1) + 1 by omega, List.take_succ_cons] at hr
      cases j with
      | zero =>
        obtain rfl := Option.some.inj hr
        refine ⟨hkind, ?_⟩
        unfold addressAt at hexpected
        split at hexpected
        · rw [haddr, ← Option.some.inj hexpected, Nat.add_zero]
        · cases hexpected
      | succ j =>
        obtain ⟨hk, ha⟩ := ih h j r hr
        exact ⟨hk, by rw [ha, show m + 1 + j = m + (j + 1) by omega]⟩

omit [F64Ops] in
theorem coilRequest_sets (start : UInt16) (coils : List Bool) :
    (coilRequest start coils).sets =
      coils.zipIdx.map fun (b, j) => (start + j.toUInt16, Datum.coil b) := by
  unfold coilRequest
  split
  · simp [Request.sets]
  · rfl

omit [F64Ops] in
theorem wordRequest_sets (start : UInt16) (values : List UInt16) :
    (wordRequest start values).sets =
      values.zipIdx.map fun (w, j) => (start + j.toUInt16, Datum.word w) := by
  unfold wordRequest
  split
  · simp [Request.sets]
  · rfl

/-- A register is set to its value. -/
def SetTo (values : List Value) (s : UInt16 × Datum) (r : ExpandedReg) : Prop :=
  s.1 = r.address ∧ r.datum values = some s.2

/-- What a run of registers is set to, from the values that are sent for them. -/
theorem run_sets {α : Type} {values : List Value} {value : ExpandedReg → Option α}
    {datum : α → Datum} {start : UInt16} : ∀ {batch : List ExpandedReg} {sent : List α} {k : Nat},
      batch.mapM value = some sent → (∀ r ∈ batch, r.datum values = (value r).map datum) →
      (∀ (j : Nat) (r : ExpandedReg), batch[j]? = some r → r.address = start + (k + j).toUInt16) →
      List.Forall₂ (SetTo values)
        ((sent.zipIdx k).map fun (x, j) => (start + j.toUInt16, datum x)) batch := by
  intro batch
  induction batch with
  | nil =>
    intro sent k h _ _
    obtain rfl : [] = sent := by simpa using h
    exact .nil
  | cons r batch ih =>
    intro sent k h hdatum haddr
    simp only [List.mapM_cons, Option.bind_eq_bind, Option.bind_eq_some_iff, Option.pure_def,
      Option.some.injEq] at h
    obtain ⟨x, hx, xs, hxs, rfl⟩ := h
    have hr : r.datum values = some (datum x) := by
      rw [hdatum r List.mem_cons_self, hx, Option.map_some]
    refine .cons ⟨(haddr 0 r rfl).symm, hr⟩ (ih hxs (fun r' h' => ?_) fun j r' hr' => ?_)
    · exact hdatum r' (List.mem_cons_of_mem r h')
    · rw [haddr (j + 1) r' (by simpa using hr'), show k + (j + 1) = k + 1 + j by omega]

theorem writeRequest_sets {first : ExpandedReg} {batch : List ExpandedReg} {values : List Value}
    {request : Request} (h : writeRequest first batch values = some request)
    (hkind : ∀ r ∈ batch, r.kind = first.kind)
    (haddr : ∀ (j : Nat) (r : ExpandedReg), batch[j]? = some r →
      r.address = first.address + (0 + j).toUInt16) :
    List.Forall₂ (SetTo values) request.sets batch := by
  unfold writeRequest at h
  split at h
  · next hcoil =>
    obtain ⟨sent, hsent, rfl⟩ := Option.map_eq_some_iff.mp h
    rw [coilRequest_sets]
    refine run_sets hsent (fun r hr => ?_) haddr
    rw [ExpandedReg.datum, if_pos ((hkind r hr).trans hcoil), Option.map_map]
    rfl
  · next hword =>
    obtain ⟨sent, hsent, rfl⟩ := Option.map_eq_some_iff.mp h
    rw [wordRequest_sets]
    refine run_sets hsent (fun r hr => ?_) haddr
    rw [ExpandedReg.datum, if_neg fun hr' => hword ((hkind r hr).symm.trans hr'), Option.map_map]
    rfl

/-- **The write pass sets each coil and each holding register once, in order, to its
value, and nothing else.** -/
theorem writeRequests_sets {values : List Value} : ∀ {regs : List ExpandedReg} {skip : Nat}
    {requests : List Request}, writeRequests values skip regs = some requests →
      List.Forall₂ (SetTo values) (requests.flatMap Request.sets)
        ((regs.drop skip).filter (·.kind.isWritable)) := by
  intro regs
  induction regs with
  | nil =>
    intro skip requests h
    simp only [writeRequests, Option.some.injEq] at h
    simp [← h]
  | cons first regs ih =>
    intro skip requests h
    cases skip with
    | succ skip => exact ih h
    | zero =>
      unfold writeRequests at h
      split at h
      · next hwritable =>
        simp only [Option.bind_eq_bind, Option.bind_eq_some_iff, Option.pure_def,
          Option.some.injEq] at h
        obtain ⟨n, hn, request, hrequest, behind, hbehind, rfl⟩ := h
        have hrun : ∀ (j : Nat) (r : ExpandedReg), (first :: regs.take (n - 1))[j]? = some r →
            r.kind = first.kind ∧ r.address = first.address + (0 + j).toUInt16 := by
          intro j r hr
          cases j with
          | zero =>
            obtain rfl := Option.some.inj hr
            simp
          | succ j =>
            obtain ⟨hk, ha⟩ := batchLength_run hn j r hr
            exact ⟨hk, by rw [ha, show 1 + j = 0 + (j + 1) by omega]⟩
        have hkind : ∀ r ∈ first :: regs.take (n - 1), r.kind = first.kind := fun r hr => by
          obtain ⟨j, hj⟩ := List.mem_iff_getElem?.mp hr
          exact (hrun j r hj).1
        have hall : (first :: regs.take (n - 1)).filter (·.kind.isWritable) =
            first :: regs.take (n - 1) :=
          List.filter_eq_self.mpr fun r hr => by rw [hkind r hr, hwritable]
        have hsplit : first :: regs = (first :: regs.take (n - 1)) ++ regs.drop (n - 1) := by
          rw [List.cons_append, List.take_append_drop]
        rw [List.drop_zero, hsplit, List.filter_append, hall, List.flatMap_cons]
        exact List.rel_append (writeRequest_sets hrequest hkind fun j r hr => (hrun j r hr).2)
          (ih hbehind)
      · next hskip =>
        rw [List.drop_zero, List.filter_cons, if_neg hskip]
        exact ih h

end

end RustPlc.Devices
