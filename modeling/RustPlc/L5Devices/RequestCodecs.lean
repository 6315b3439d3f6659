import RustPlc.L5Devices.Batching

/-!
# The codecs of multiple writes

The builders of the FC0F and FC10 requests of the RTU and the TCP client
(crates/st-comm-modbus/src/frame.rs:88-138,
crates/st-comm-modbus-tcp/src/frame.rs:33-49, 100-159), byte by byte as each
crate writes them, and the loops that take coils and registers apart again
(st-comm-modbus/src/frame.rs:195-217, st-comm-modbus-tcp/src/frame.rs:239-265).

Results
* `extractCoils_packed`, `extractRegisters_packed`: what was packed is
  extracted.
* `request_codecs_agree`: the two frames of a request carry the same bytes
  under consistent lengths, and the data are read back.
-/
namespace RustPlc.Devices

/-! ## Builders -/

/-- `div_ceil(8) as u8` -/
def coilByteCount (coils : List Bool) : UInt8 := ((coils.length + 7) / 8).toUInt8

/-- The bytes that the packing loop pushes. -/
def packedCoils (coils : List Bool) : Bytes :=
  (List.range (coilByteCount coils).toNat).map (coilByte coils)

def registerByteCount (values : List UInt16) : UInt8 := (values.length * 2).toUInt8

namespace Rtu

/-- `frame` with its CRC behind it. -/
def withCrc (frame : Bytes) : Bytes :=
  let crc := crc16 frame
  frame ++ [crc.1, crc.2]

/-- mirrors crates/st-comm-modbus/src/frame.rs:89-116 -/
def buildWriteMultipleCoils (slaveId : UInt8) (startAddr : UInt16) (coils : List Bool) : Bytes :=
  let count := coils.length.toUInt16
  withCrc ([slaveId, FunctionCode.writeMultipleCoils.code, highByte startAddr, lowByte startAddr,
    highByte count, lowByte count, coilByteCount coils] ++ packedCoils coils)

/-- mirrors crates/st-comm-modbus/src/frame.rs:119-138 -/
def buildWriteMultipleRegisters (slaveId : UInt8) (startAddr : UInt16) (values : List UInt16) :
    Bytes :=
  let count := values.length.toUInt16
  withCrc ([slaveId, FunctionCode.writeMultipleRegisters.code, highByte startAddr,
    lowByte startAddr, highByte count, lowByte count, registerByteCount values] ++
      values.flatMap fun val => [highByte val, lowByte val])

end Rtu

namespace Tcp

/-- mirrors crates/st-comm-modbus-tcp/src/frame.rs:37-49 -/
def buildMbapHeader (transactionId : UInt16) (unitId : UInt8) (pduLen : Nat) : Bytes :=
  let length := (pduLen + 1).toUInt16
  [highByte transactionId, lowByte transactionId, highByte 0, lowByte 0, highByte length,
    lowByte length, unitId]

/-- mirrors crates/st-comm-modbus-tcp/src/frame.rs:101-132 -/
def buildWriteMultipleCoils (transactionId : UInt16) (unitId : UInt8) (startAddr : UInt16)
    (coils : List Bool) : Bytes :=
  let count := coils.length.toUInt16
  let pduLen := 6 + (coilByteCount coils).toNat
  buildMbapHeader transactionId unitId pduLen ++
    [FunctionCode.writeMultipleCoils.code, highByte startAddr, lowByte startAddr, highByte count,
      lowByte count, coilByteCount coils] ++ packedCoils coils

/-- mirrors crates/st-comm-modbus-tcp/src/frame.rs:135-156 -/
def buildWriteMultipleRegisters (transactionId : UInt16) (unitId : UInt8) (startAddr : UInt16)
    (values : List UInt16) : Bytes :=
  let count := values.length.toUInt16
  let pduLen := 6 + (registerByteCount values).toNat
  buildMbapHeader transactionId unitId pduLen ++
    [FunctionCode.writeMultipleRegisters.code, highByte startAddr, lowByte startAddr,
      highByte count, lowByte count, registerByteCount values] ++
      values.flatMap fun val => [highByte val, lowByte val]

end Tcp

/-! ## Coils -/

/-- Pushes the bits of a byte until there are `count`. -/
def pushCoils (count : Nat) (result : List Bool) (byte : UInt8) : List Bool :=
  (List.range 8).foldl (fun result bit =>
    if count ≤ result.length then result
    else result ++ [decide (byte &&& ((1 : UInt8) <<< bit.toUInt8) ≠ 0)]) result

/-- The loops of `extract_coils`.
mirrors crates/st-comm-modbus/src/frame.rs:206-217 and
crates/st-comm-modbus-tcp/src/frame.rs:254-265 -/
def collectCoils (data : Bytes) (count : Nat) : List Bool := data.foldl (pushCoils count) []

/-- A loop that pushes up to a bound takes a beginning. -/
theorem foldl_push {α β : Type} (f : α → β) (count : Nat) (xs : List α) (acc : List β)
    (h : acc.length ≤ count) :
    xs.foldl (fun acc x => if count ≤ acc.length then acc else acc ++ [f x]) acc =
      (acc ++ xs.map f).take count := by
  induction xs generalizing acc with
  | nil => simp [List.take_of_length_le h]
  | cons x xs ih =>
    rw [List.foldl_cons]
    split
    · next hfull =>
      rw [ih acc h, List.take_append_of_le_length hfull, List.take_append_of_le_length hfull]
    · rw [ih _ (by simp; omega)]
      simp

theorem take_take_append {α : Type} (n : Nat) (xs ys : List α) :
    (xs.take n ++ ys).take n = (xs ++ ys).take n := by
  rcases Nat.le_total n xs.length with h | h
  · rw [List.take_append_of_le_length (by simp [h]), List.take_append_of_le_length h,
      List.take_take, Nat.min_self]
  · rw [List.take_of_length_le h]

theorem collectCoils_eq (data : Bytes) (count : Nat) :
    collectCoils data count = extractCoils data count := by
  have hbytes : ∀ (data : Bytes) (acc : List Bool), acc.length ≤ count →
      data.foldl (pushCoils count) acc = (acc ++ data.flatMap byteBits).take count := by
    intro data
    induction data with
    | nil => exact fun acc h => by simp [List.take_of_length_le h]
    | cons byte data ih =>
      intro acc h
      have hpush : pushCoils count acc byte = (acc ++ byteBits byte).take count :=
        foldl_push (fun bit : Nat => decide (byte &&& ((1 : UInt8) <<< bit.toUInt8) ≠ 0)) count
          (List.range 8) acc h
      rw [List.foldl_cons, hpush, ih _ (List.length_take_le ..), List.flatMap_cons,
        take_take_append, List.append_assoc]
  exact hbytes data [] (Nat.zero_le _)

/-- The bits of a packed byte are its coils, and `false` behind the last one. -/
theorem byteBits_coilByte (coils : List Bool) (chunk : Nat) : byteBits (coilByte coils chunk) =
    (List.range 8).map fun bit => (coils[chunk * 8 + bit]?).getD false := by
  have hbits : ∀ b0 b1 b2 b3 b4 b5 b6 b7 : Bool,
      byteBits ((List.range 8).foldl (fun byte bit =>
        if [b0, b1, b2, b3, b4, b5, b6, b7].getD bit false
        then byte ||| (1 : UInt8) <<< bit.toUInt8 else byte) 0) =
      [b0, b1, b2, b3, b4, b5, b6, b7] := by decide
  let coil (bit : Nat) : Bool := (coils[chunk * 8 + bit]?).getD false
  exact hbits (coil 0) (coil 1) (coil 2) (coil 3) (coil 4) (coil 5) (coil 6) (coil 7)

/-- The bits of `n` packed bytes are the coils, and `false` behind them. -/
theorem packed_bits (coils : List Bool) (n : Nat) :
    ((List.range n).map (coilByte coils)).flatMap byteBits =
      (List.range (n * 8)).map fun i => (coils[i]?).getD false := by
  induction n with
  | zero => rfl
  | succ n ih =>
    rw [List.range_succ, List.map_append, List.flatMap_append, ih, Nat.succ_mul, List.range_add,
      List.map_append, List.map_map]
    simp [byteBits_coilByte, Function.comp_def]

section

variable {coils : List Bool} {values : List UInt16}

theorem coilByteCount_toNat (h : coils.length ≤ 2040) :
    (coilByteCount coils).toNat = (coils.length + 7) / 8 := by
  simp only [coilByteCount, Nat.toUInt8, UInt8.toNat_ofNat']
  omega

theorem packedCoils_length : (packedCoils coils).length = (coilByteCount coils).toNat := by
  simp [packedCoils]

/-- **What was packed is extracted.** -/
theorem extractCoils_packed (h : coils.length ≤ 2040) :
    extractCoils (packedCoils coils) coils.length = coils := by
  have hbytes : coils.length ≤ (coilByteCount coils).toNat * 8 := by
    rw [coilByteCount_toNat h]
    omega
  rw [extractCoils, packedCoils, packed_bits, ← List.map_take, List.take_range,
    Nat.min_eq_left hbytes]
  refine List.ext_getElem (by simp) fun i hi hi' => ?_
  simp [hi']

/-- The bits behind the last coil are zero. -/
theorem packed_padding {i : Nat} (hi : coils.length ≤ i) (hi' : i < (packedCoils coils).length * 8) :
    ((packedCoils coils).flatMap byteBits)[i]? = some false := by
  rw [packedCoils_length] at hi'
  rw [packedCoils, packed_bits, List.getElem?_map, List.getElem?_range hi', Option.map_some,
    List.getElem?_eq_none hi]
  rfl

/-! ## Registers -/

theorem word_bytes (w : UInt16) : word (highByte w) (lowByte w) = w := by
  have hw := w.toNat_lt
  have hlow : w.toNat &&& 255 = w.toNat % 256 := Nat.and_two_pow_sub_one_eq_mod _ 8
  have hhigh : w.toNat >>> 8 < 256 := by
    rw [Nat.shiftRight_eq_div_pow]
    omega
  apply UInt16.toNat_inj.mp
  calc (word (highByte w) (lowByte w)).toNat
      = (w.toNat >>> 8 % 256) <<< 8 % 65536 ||| (w.toNat &&& 255) % 256 := by
        simp only [word, highByte, lowByte, UInt16.toNat_or, UInt16.toNat_shiftLeft,
          UInt8.toNat_toUInt16, UInt16.toNat_toUInt8, UInt16.toNat_shiftRight, UInt16.toNat_and]
        rfl
    _ = w.toNat >>> 8 <<< 8 ||| w.toNat % 256 := by
        rw [Nat.mod_eq_of_lt hhigh, hlow, Nat.mod_mod, Nat.mod_eq_of_lt]
        rw [Nat.shiftLeft_eq]
        omega
    _ = w.toNat >>> 8 <<< 8 + w.toNat % 256 :=
        (Nat.shiftLeft_add_eq_or_of_lt (Nat.mod_lt _ (by decide)) _).symm
    _ = w.toNat := by
        rw [Nat.shiftLeft_eq, Nat.shiftRight_eq_div_pow]
        omega

/-- **What was packed is extracted.** -/
theorem extractRegisters_packed (values : List UInt16) :
    extractRegisters (values.flatMap fun val => [highByte val, lowByte val]) = values := by
  induction values with
  | nil => rfl
  | cons val values ih =>
    rw [List.flatMap_cons]
    simp only [List.cons_append, List.nil_append, extractRegisters, word_bytes, ih]

theorem registerByteCount_toNat (h : values.length ≤ 127) :
    (registerByteCount values).toNat = values.length * 2 := by
  simp only [registerByteCount, Nat.toUInt8, UInt8.toNat_ofNat']
  omega

end

/-! ## Frames -/

/-- An RTU frame without the slave and the CRC. -/
def rtuBody (frame : Bytes) : Bytes := (frame.drop 1).take (frame.length - 3)

/-- A TCP frame without its MBAP header. -/
def tcpBody (frame : Bytes) : Bytes := frame.drop 7

/-- The length field of the MBAP header. -/
def mbapLength (frame : Bytes) : UInt16 := word (frame.getD 4 0) (frame.getD 5 0)

/-- The byte count of a multiple write, and the data behind it. -/
def byteCountField (body : Bytes) : UInt8 := body.getD 5 0

def dataBytes (body : Bytes) : Bytes := body.drop 6

/-- Two frames carry one request under lengths that are right. -/
structure FramesAgree (rtu tcp : Bytes) : Prop where
  body : rtuBody rtu = tcpBody tcp
  length : (mbapLength tcp).toNat = (tcp.drop 6).length
  byteCount : (byteCountField (tcpBody tcp)).toNat = (dataBytes (tcpBody tcp)).length

theorem rtuBody_withCrc (slaveId : UInt8) (body : Bytes) :
    rtuBody (Rtu.withCrc (slaveId :: body)) = body := by
  simp [rtuBody, Rtu.withCrc]

/-- A body behind the two headers. -/
theorem framesAgree_of_body {slaveId unitId : UInt8} {transactionId : UInt16} {body : Bytes}
    {pduLen : Nat} (hlen : pduLen = body.length) (hshort : pduLen < 65535)
    (hcount : (byteCountField body).toNat = (dataBytes body).length) :
    FramesAgree (Rtu.withCrc (slaveId :: body))
      (Tcp.buildMbapHeader transactionId unitId pduLen ++ body) where
  body := rtuBody_withCrc slaveId body
  length := by
    have hfield : mbapLength (Tcp.buildMbapHeader transactionId unitId pduLen ++ body) =
        (pduLen + 1).toUInt16 := word_bytes _
    have hrest : (Tcp.buildMbapHeader transactionId unitId pduLen ++ body).drop 6 =
        unitId :: body := rfl
    rw [hfield, hrest, List.length_cons, ← hlen, Nat.toUInt16_eq, UInt16.toNat_ofNat']
    omega
  byteCount := hcount

section

variable (slaveId unitId : UInt8) (transactionId startAddr : UInt16)

/-! The builders give the frames of the clients. -/

theorem coilsPdu_length (coils : List Bool) : 6 + (coilByteCount coils).toNat =
    (Request.pdu (.writeMultipleCoils startAddr coils)).length := by
  show 6 + (coilByteCount coils).toNat = (packedCoils coils).length + 6
  rw [packedCoils_length, Nat.add_comm]

theorem registersPdu_length {values : List UInt16} (h : values.length ≤ 127) :
    6 + (registerByteCount values).toNat =
      (Request.pdu (.writeMultipleRegisters startAddr values)).length := by
  show 6 + (registerByteCount values).toNat = (values.flatMap wordBytes).length + 6
  rw [flatMap_wordBytes_length, registerByteCount_toNat h, Nat.add_comm]

theorem coils_agree {coils : List Bool} (h : coils.length ≤ 2040) :
    let tcp := Tcp.buildWriteMultipleCoils transactionId unitId startAddr coils
    FramesAgree (Rtu.buildWriteMultipleCoils slaveId startAddr coils) tcp ∧
      dataBytes (tcpBody tcp) = packedCoils coils := by
  have hcount := coilByteCount_toNat h
  exact ⟨framesAgree_of_body (coilsPdu_length startAddr coils) (by omega) packedCoils_length.symm,
    rfl⟩

theorem registers_agree {values : List UInt16} (h : values.length ≤ 127) :
    let tcp := Tcp.buildWriteMultipleRegisters transactionId unitId startAddr values
    FramesAgree (Rtu.buildWriteMultipleRegisters slaveId startAddr values) tcp ∧
      dataBytes (tcpBody tcp) = values.flatMap fun val => [highByte val, lowByte val] := by
  have hcount := registerByteCount_toNat h
  exact ⟨framesAgree_of_body (registersPdu_length startAddr h) (by omega)
    (hcount.trans (flatMap_wordBytes_length values).symm), rfl⟩

/-- **The codecs of multiple writes agree and invert.** For the coils and the
registers that one request may carry, the two frames carry the same bytes under
lengths that are right, and the data give back the coils or the registers; the
bits behind the last coil are zero. -/
theorem request_codecs_agree :
    (∀ coils : List Bool, 1 ≤ coils.length → coils.length ≤ 1968 →
      let tcp := Tcp.buildWriteMultipleCoils transactionId unitId startAddr coils
      let data := dataBytes (tcpBody tcp)
      FramesAgree (Rtu.buildWriteMultipleCoils slaveId startAddr coils) tcp ∧
        collectCoils data coils.length = coils ∧
        ∀ i, coils.length ≤ i → i < data.length * 8 → (data.flatMap byteBits)[i]? = some false) ∧
    (∀ values : List UInt16, 1 ≤ values.length → values.length ≤ 123 →
      let tcp := Tcp.buildWriteMultipleRegisters transactionId unitId startAddr values
      FramesAgree (Rtu.buildWriteMultipleRegisters slaveId startAddr values) tcp ∧
        extractRegisters (dataBytes (tcpBody tcp)) = values) := by
  constructor
  · intro coils _ hmax
    have hlen : coils.length ≤ 2040 := by omega
    obtain ⟨hframes, hdata⟩ := coils_agree slaveId unitId transactionId startAddr hlen
    refine ⟨hframes, ?_, fun i hi hi' => ?_⟩
    · rw [hdata, collectCoils_eq, extractCoils_packed hlen]
    · rw [hdata] at hi' ⊢
      exact packed_padding hi hi'
  · intro values _ hmax
    have hlen : values.length ≤ 127 := by omega
    obtain ⟨hframes, hdata⟩ := registers_agree slaveId unitId transactionId startAddr hlen
    exact ⟨hframes, by rw [hdata, extractRegisters_packed]⟩

/-- Nine coils, of which the last is in a second byte. -/
theorem nine_coils_agree :
    let coils := [true, false, true, true, false, false, true, true, true]
    FramesAgree (Rtu.buildWriteMultipleCoils 17 19 coils)
      (Tcp.buildWriteMultipleCoils 1 255 19 coils) ∧
    FramesAgree (Rtu.buildWriteMultipleRegisters 17 1 [10, 258])
      (Tcp.buildWriteMultipleRegisters 1 255 1 [10, 258]) :=
  ⟨((request_codecs_agree 17 255 1 19).1 [true, false, true, true, false, false, true, true, true]
      (by decide) (by decide)).1,
    ((request_codecs_agree 17 255 1 1).2 [10, 258] (by decide) (by decide)).1⟩

end

end RustPlc.Devices
