import Mathlib.Logic.Function.Iterate
import RustPlc.L1Ir.Value

/-!
# Modbus requests and responses

The frames of the Modbus RTU and Modbus TCP clients. Both protocols carry the
same function code and data; RTU puts the slave in front and a CRC behind, TCP
a header with a transaction number, the length and the unit.

A response is read from a byte stream: the RTU parser is asked after every read
of the serial port, the TCP client reads a header and then as many bytes as it
announces. Where the source indexes a frame, the frame is matched here, so a
frame that is too short is one of the cases.
-/
namespace RustPlc.Devices

open RustPlc.Ir

abbrev Bytes := List UInt8

/-- mirrors crates/st-comm-modbus/src/frame.rs:6-17 and
crates/st-comm-modbus-tcp/src/frame.rs:20-31 -/
inductive FunctionCode where
  | readCoils | readDiscreteInputs | readHoldingRegisters | readInputRegisters
  | writeSingleCoil | writeSingleRegister | writeMultipleCoils | writeMultipleRegisters
  deriving DecidableEq, Repr

def FunctionCode.code : FunctionCode → UInt8
  | .readCoils => 0x01
  | .readDiscreteInputs => 0x02
  | .readHoldingRegisters => 0x03
  | .readInputRegisters => 0x04
  | .writeSingleCoil => 0x05
  | .writeSingleRegister => 0x06
  | .writeMultipleCoils => 0x0F
  | .writeMultipleRegisters => 0x10

def highByte (w : UInt16) : UInt8 := (w >>> 8).toUInt8

def lowByte (w : UInt16) : UInt8 := (w &&& 0xFF).toUInt8

/-- A big-endian register. -/
def word (hi lo : UInt8) : UInt16 := hi.toUInt16 <<< 8 ||| lo.toUInt16

/-! ## Requests -/

/-- The four tables a device can be read from, by function code. -/
inductive ReadKind where
  | coils | discreteInputs | holdingRegisters | inputRegisters
  deriving DecidableEq, Repr

def ReadKind.functionCode : ReadKind → FunctionCode
  | .coils => .readCoils
  | .discreteInputs => .readDiscreteInputs
  | .holdingRegisters => .readHoldingRegisters
  | .inputRegisters => .readInputRegisters

/-- The requests of the two clients.
mirrors crates/st-comm-modbus/src/rtu_client.rs:69-127 and
crates/st-comm-modbus-tcp/src/client.rs:28-148 -/
inductive Request where
  | read (kind : ReadKind) (start count : UInt16)
  | writeSingleCoil (addr : UInt16) (value : Bool)
  | writeSingleRegister (addr value : UInt16)
  | writeMultipleCoils (start : UInt16) (coils : List Bool)
  | writeMultipleRegisters (start : UInt16) (values : List UInt16)
  deriving DecidableEq, Repr

def Request.functionCode : Request → FunctionCode
  | .read kind _ _ => kind.functionCode
  | .writeSingleCoil _ _ => .writeSingleCoil
  | .writeSingleRegister _ _ => .writeSingleRegister
  | .writeMultipleCoils _ _ => .writeMultipleCoils
  | .writeMultipleRegisters _ _ => .writeMultipleRegisters

/-- Eight coils from `chunk * 8` on, the first in the lowest bit. -/
def coilByte (coils : List Bool) (chunk : Nat) : UInt8 :=
  (List.range 8).foldl (fun byte bit =>
    if (coils[chunk * 8 + bit]?).getD false then byte ||| (1 : UInt8) <<< bit.toUInt8 else byte) 0

def wordBytes (w : UInt16) : Bytes := [highByte w, lowByte w]

/-- Function code and data of a request.
mirrors crates/st-comm-modbus/src/frame.rs:42-137 and
crates/st-comm-modbus-tcp/src/frame.rs:51-159 -/
def Request.pdu (r : Request) : Bytes :=
  r.functionCode.code :: match r with
    | .read _ start count => wordBytes start ++ wordBytes count
    | .writeSingleCoil addr value => wordBytes addr ++ wordBytes (if value then 0xFF00 else 0)
    | .writeSingleRegister addr value => wordBytes addr ++ wordBytes value
    | .writeMultipleCoils start coils =>
      let byteCount := ((coils.length + 7) / 8).toUInt8
      wordBytes start ++ wordBytes coils.length.toUInt16 ++
        byteCount :: (List.range byteCount.toNat).map (coilByte coils)
    | .writeMultipleRegisters start values =>
      wordBytes start ++ wordBytes values.length.toUInt16 ++
        (values.length * 2).toUInt8 :: values.flatMap wordBytes

/-! ## The checksum of RTU frames -/

def crcShift (crc : UInt16) : UInt16 :=
  if crc &&& 1 ≠ 0 then crc >>> 1 ^^^ 0xA001 else crc >>> 1

/-- Low byte first. mirrors crates/st-comm-modbus/src/crc.rs:7-20 -/
def crc16 (data : Bytes) : UInt8 × UInt8 :=
  let crc := data.foldl (fun crc (byte : UInt8) => crcShift^[8] (crc ^^^ byte.toUInt16)) 0xFFFF
  ((crc &&& 0xFF).toUInt8, (crc >>> 8).toUInt8)

/-- mirrors crates/st-comm-modbus/src/crc.rs:24-31 -/
def verifyCrc (frame : Bytes) : Bool :=
  if frame.length < 3 then false
  else
    let crc := crc16 (frame.take (frame.length - 2))
    frame.drop (frame.length - 2) == [crc.1, crc.2]

/-- mirrors crates/st-comm-modbus/src/frame.rs:42-54 (and the other builders) -/
def rtuFrame (slaveId : UInt8) (pdu : Bytes) : Bytes :=
  let crc := crc16 (slaveId :: pdu)
  slaveId :: pdu ++ [crc.1, crc.2]

/-- mirrors crates/st-comm-modbus-tcp/src/frame.rs:37-48 -/
def tcpFrame (transactionId : UInt16) (unitId : UInt8) (pdu : Bytes) : Bytes :=
  wordBytes transactionId ++ [0, 0] ++ wordBytes (pdu.length + 1).toUInt16 ++ unitId :: pdu

/-! ## Texts -/

def hexDigit (n : Nat) : Char := "0123456789abcdef".toList.getD n '0'

/-- `{:02x}` -/
def hexByte (b : UInt8) : String := String.ofList [hexDigit (b.toNat / 16), hexDigit (b.toNat % 16)]

/-- `{:02X}` -/
def upperHexByte (b : UInt8) : String := (hexByte b).toUpper

/-- mirrors crates/st-comm-modbus/src/frame.rs:27-39 and
crates/st-comm-modbus-tcp/src/frame.rs:168-180 -/
def exceptionDescription (exceptionCode : UInt8) : String :=
  if exceptionCode = 0x01 then "Illegal function"
  else if exceptionCode = 0x02 then "Illegal data address"
  else if exceptionCode = 0x03 then "Illegal data value"
  else if exceptionCode = 0x04 then "Slave device failure"
  else if exceptionCode = 0x05 then "Acknowledge"
  else if exceptionCode = 0x06 then "Slave device busy"
  else "Unknown exception"

def exceptionMessage (exceptionCode : UInt8) : String :=
  "Modbus exception: " ++ exceptionDescription exceptionCode ++ " (code " ++
    toString exceptionCode.toNat ++ ")"

/-! ## Responses -/

/-- The data of an RTU read response.
mirrors crates/st-comm-modbus/src/frame.rs:142-170 -/
def parseReadResponse (frame : Bytes) : Except String Bytes :=
  match frame with
  | _ :: fc :: third :: rest =>
    if rest.length < 2 then .error "Response too short"
    else if !verifyCrc frame then .error "CRC mismatch"
    else if fc &&& 0x80 ≠ 0 then .error (exceptionMessage third)
    else if rest.length < third.toNat + 2 then
      .error ("Response truncated: expected " ++ toString third.toNat ++ " data bytes, got " ++
        toString (rest.length - 2))
    else .ok (rest.take third.toNat)
  | _ => .error "Response too short"

/-- mirrors crates/st-comm-modbus/src/frame.rs:174-193 -/
def parseWriteResponse (frame : Bytes) : Except String Unit :=
  match frame with
  | _ :: fc :: third :: rest =>
    if rest.length < 2 then .error "Response too short"
    else if !verifyCrc frame then .error "CRC mismatch"
    else if fc &&& 0x80 ≠ 0 then .error (exceptionMessage third)
    else .ok ()
  | _ => .error "Response too short"

/-- A TCP response: its transaction number and data.
mirrors crates/st-comm-modbus-tcp/src/frame.rs:186-241 -/
def parseResponse (frame : Bytes) : Except String (UInt16 × Bytes) :=
  match frame with
  | t1 :: t2 :: p1 :: p2 :: _ :: _ :: _ :: fc :: rest =>
    if word p1 p2 ≠ 0 then .error ("Invalid protocol ID: 0x" ++ hexByte p1 ++ hexByte p2)
    else if fc &&& 0x80 ≠ 0 then
      match rest with
      | [] => .error "Exception response too short"
      | code :: _ => .error (exceptionMessage code)
    else if fc ∈ [0x01, 0x02, 0x03, 0x04] then
      match rest with
      | [] => .error "Read response too short"
      | byteCount :: data =>
        if data.length < byteCount.toNat then
          .error ("Read response truncated: expected " ++ toString byteCount.toNat ++ " data bytes")
        else .ok (word t1 t2, data.take byteCount.toNat)
    else if fc ∈ [0x05, 0x06, 0x0F, 0x10] then .ok (word t1 t2, [])
    else .error ("Unknown function code: 0x" ++ hexByte fc)
  | _ => .error "Response too short for MBAP header"

/-- mirrors crates/st-comm-modbus/src/frame.rs:197-202 and
crates/st-comm-modbus-tcp/src/frame.rs:245-250 -/
def extractRegisters : Bytes → List UInt16
  | hi :: lo :: rest => word hi lo :: extractRegisters rest
  | _ => []

def byteBits (byte : UInt8) : List Bool :=
  (List.range 8).map fun bit => byte &&& ((1 : UInt8) <<< bit.toUInt8) ≠ 0

/-- mirrors crates/st-comm-modbus/src/frame.rs:206-217 and
crates/st-comm-modbus-tcp/src/frame.rs:254-265 -/
def extractCoils (data : Bytes) (count : Nat) : List Bool := (data.flatMap byteBits).take count

/-- What a request returns. -/
inductive Reply where
  | coils (values : List Bool)
  | registers (values : List UInt16)
  | written
  deriving DecidableEq, Repr

def ReadKind.extract (kind : ReadKind) (data : Bytes) (count : UInt16) : Reply :=
  match kind with
  | .coils | .discreteInputs => .coils (extractCoils data count.toNat)
  | .holdingRegisters | .inputRegisters => .registers (extractRegisters data)

end RustPlc.Devices
