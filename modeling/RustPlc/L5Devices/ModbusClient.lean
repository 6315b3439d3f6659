import RustPlc.L5Devices.Framing

/-!
# Which responses the Modbus clients accept

The RTU client binds its frame parser to the slave and the function code of the
request and checks the CRC; it does not compare the number of values. The TCP
client checks neither the transaction, nor the unit, the function code or the
number of values.

Results:
* `rtuRun_read_iff`, `rtuRun_write_iff`, `tcpRun_iff`: when the clients return a
  value, and which one, by the bytes they receive.
-/
namespace RustPlc.Devices

open RustPlc.Ir

/-! ## The RTU client -/

/-- The frame parser of a request.
mirrors crates/st-comm-modbus/src/frame_parser.rs:47-53, 71-136 -/
def rtuParse (slaveId fc : UInt8) (buf : Bytes) : FrameStatus :=
  match buf with
  | [] => .need 2
  | got :: rest =>
    if got ≠ slaveId then
      .invalid ("Slave ID mismatch: expected 0x" ++ upperHexByte slaveId ++ ", got 0x" ++
        upperHexByte got)
    else match rest with
      | [] => .need 2
      | gotFc :: rest =>
        if gotFc &&& 0x7F ≠ fc &&& 0x7F then
          .invalid ("Function code mismatch: expected 0x" ++ upperHexByte (fc &&& 0x7F) ++
            " (or exception), got 0x" ++ upperHexByte gotFc)
        else if gotFc &&& 0x80 ≠ 0 then
          if rest.length < 3 then .need 5 else .complete 5
        else if gotFc ∈ [0x01, 0x02, 0x03, 0x04] then
          match rest with
          | [] => .need 3
          | byteCount :: rest =>
            if rest.length < byteCount.toNat + 2 then .need (3 + byteCount.toNat + 2)
            else .complete (3 + byteCount.toNat + 2)
        else if gotFc ∈ [0x05, 0x06, 0x0F, 0x10] then
          if rest.length < 6 then .need 8 else .complete 8
        else .invalid ("Unrecognised Modbus function code 0x" ++ upperHexByte gotFc ++ " in response")

/-- The buffer of an RTU response. -/
def rtuCapacity : Nat := 256

/-- mirrors crates/st-comm-modbus/src/rtu_client.rs:137-159 -/
def rtuTransact (request : Bytes) (x : SerialExchange) : Except String Bytes :=
  match request with
  | slaveId :: fc :: _ => transactionFramed (rtuParse slaveId fc) rtuCapacity x
  | _ => .error "Request too short to extract slave_id/FC"

/-- A request of the RTU client.
mirrors crates/st-comm-modbus/src/rtu_client.rs:69-127 -/
def rtuRun (slaveId : UInt8) (r : Request) (x : SerialExchange) : Except String Reply := do
  let response ← rtuTransact (rtuFrame slaveId r.pdu) x
  match r with
  | .read kind _ count => (parseReadResponse response).map (kind.extract · count)
  | _ => (parseWriteResponse response).map fun _ => .written

/-! ## The TCP client -/

/-- A connection during one transaction: an error of sending the request, the
bytes that arrive before it falls silent, and the error of a read then. -/
structure Connection where
  sendError : Option String
  bytes : Bytes
  silence : String

/-- What a TCP transaction finds: the connection, if there is one, and what a
new connection would give. -/
structure TcpExchange where
  current : Option Connection
  reconnect : Except String Connection

def tcpCapacity : Nat := 512

/-- The bytes that come back are those of the connection, whatever the request.
mirrors crates/st-comm-modbus-tcp/src/transport.rs:158-193 -/
def transactionInner (_request : Bytes) (c : Option Connection) : Except String Bytes :=
  match c with
  | none => .error "Not connected"
  | some c => match c.sendError with
    | some msg => .error msg
    | none => match c.bytes with
      | b0 :: b1 :: b2 :: b3 :: hi :: lo :: unit :: rest =>
        let length := (word hi lo).toNat
        if length < 1 then .error "Invalid MBAP length field"
        else if tcpCapacity < 7 + (length - 1) then
          .error ("Response too large: " ++ toString (7 + (length - 1)) ++ " bytes, buffer is " ++
            toString tcpCapacity)
        else if rest.length < length - 1 then .error c.silence
        else .ok (b0 :: b1 :: b2 :: b3 :: hi :: lo :: unit :: rest.take (length - 1))
      | _ => .error c.silence

/-- A failed transaction is tried again on a new connection.
mirrors crates/st-comm-modbus-tcp/src/transport.rs:142-156 -/
def tcpTransaction (request : Bytes) (x : TcpExchange) : Except String Bytes :=
  match transactionInner request x.current with
  | .ok frame => .ok frame
  | .error _ => match x.reconnect with
    | .error msg => .error msg
    | .ok c => transactionInner request (some c)

/-- mirrors crates/st-comm-modbus-tcp/src/client.rs:151-158 -/
def tcpTransact (request : Bytes) (x : TcpExchange) : Except String (UInt16 × Bytes) := do
  let frame ← tcpTransaction request x
  if frame.length = 0 then throw "No response (timeout)"
  parseResponse frame

/-- A request of the TCP client whose last transaction number was
`transactionId`. mirrors crates/st-comm-modbus-tcp/src/client.rs:23-148 -/
def tcpRun (transactionId : UInt16) (unitId : UInt8) (r : Request) (x : TcpExchange) :
    UInt16 × Except String Reply :=
  (transactionId + 1, do
    let (_, data) ← tcpTransact (tcpFrame (transactionId + 1) unitId r.pdu) x
    return match r with
      | .read kind _ count => kind.extract data count
      | _ => .written)

/-! ## Responses to a request -/

/-- The number of data bytes in the response to a read. -/
def ReadKind.byteCount (kind : ReadKind) (count : UInt16) : Nat :=
  match kind with
  | .coils | .discreteInputs => (count.toNat + 7) / 8
  | .holdingRegisters | .inputRegisters => 2 * count.toNat

/-- `body` is what stands behind the function code in a response to the request:
a byte count and as many bytes as the number of values takes; for a write four
bytes, for several values their number in the last two. -/
def Request.AnsweredBy (r : Request) (body : Bytes) : Prop :=
  match r with
  | .read kind _ count => ∃ byteCount data, body = byteCount :: data ∧
      byteCount.toNat = kind.byteCount count ∧ data.length = kind.byteCount count
  | .writeSingleCoil _ _ | .writeSingleRegister _ _ => body.length = 4
  | .writeMultipleCoils _ coils => ∃ a b hi lo, body = [a, b, hi, lo] ∧
      (word hi lo).toNat = coils.length
  | .writeMultipleRegisters _ values => ∃ a b hi lo, body = [a, b, hi, lo] ∧
      (word hi lo).toNat = values.length

/-- What a response with this body means. -/
def Request.result (r : Request) (body : Bytes) : Reply :=
  match r with
  | .read kind _ count => kind.extract body.tail count
  | _ => .written

theorem extractRegisters_length : ∀ (n : Nat) (data : Bytes), data.length = 2 * n →
    (extractRegisters data).length = n := by
  intro n
  induction n with
  | zero =>
    intro data h
    obtain rfl : data = [] := List.eq_nil_of_length_eq_zero h
    rfl
  | succ n ih =>
    intro data h
    match data, h with
    | hi :: lo :: rest, h =>
      have hrest : rest.length = 2 * n := by simp only [List.length_cons] at h; omega
      simp [extractRegisters, ih rest hrest]

theorem extractCoils_length {data : Bytes} {n : Nat} (h : data.length = (n + 7) / 8) :
    (extractCoils data n).length = n := by
  have hbits : (data.flatMap byteBits).length = data.length * 8 := by
    simp [List.length_flatMap, byteBits]
  rw [extractCoils, List.length_take, hbits]
  omega

/-- The number of values in a reply. -/
def Reply.length : Reply → Nat
  | .coils values => values.length
  | .registers values => values.length
  | .written => 0

/-- A response to a read carries exactly the requested number of values. -/
theorem answeredBy_count {kind : ReadKind} {start count : UInt16} {body : Bytes}
    (h : (Request.read kind start count).AnsweredBy body) :
    ((Request.read kind start count).result body).length = count.toNat := by
  obtain ⟨byteCount, data, rfl, -, hlen⟩ := h
  cases kind with
  | coils | discreteInputs => exact extractCoils_length hlen
  | holdingRegisters | inputRegisters => exact extractRegisters_length _ _ hlen

/-! ## RTU -/

theorem split_mask (x : UInt8) : x = x &&& 0x7F ||| x &&& 0x80 := by
  obtain ⟨b⟩ := x
  apply UInt8.eq_of_toBitVec_eq
  revert b
  decide +kernel

theorem code_of_mask {fc : FunctionCode} {got : UInt8} (h : got &&& 0x7F = fc.code &&& 0x7F)
    (hexception : got &&& 0x80 = 0) : got = fc.code := by
  rw [split_mask got, h, hexception]
  cases fc <;> rfl

/-- A valid checksum makes a frame the frame of its first bytes. -/
theorem verifyCrc_iff {slaveId : UInt8} {rest : Bytes} (hlen : 2 ≤ rest.length) :
    verifyCrc (slaveId :: rest) = true ↔
      slaveId :: rest = rtuFrame slaveId (rest.take (rest.length - 2)) := by
  obtain ⟨n, hn⟩ : ∃ n, rest.length = n + 2 := ⟨rest.length - 2, by omega⟩
  have hsplit : rest = rest.take n ++ rest.drop n := (List.take_append_drop n rest).symm
  simp only [verifyCrc, rtuFrame, List.length_cons, hn]
  rw [if_neg (by omega)]
  simp only [Nat.add_sub_cancel, show n + 2 + 1 - 2 = n + 1 by omega, List.take_succ_cons,
    List.drop_succ_cons, beq_iff_eq, List.cons_append, List.cons.injEq, true_and]
  constructor
  · intro h
    rw [← h]
    exact hsplit
  · intro h
    exact List.append_cancel_left (hsplit.symm.trans h)

/-- When the parser finds a frame complete. -/
theorem rtuParse_complete {slaveId fc : UInt8} {buf : Bytes} {n : Nat}
    (h : rtuParse slaveId fc buf = .complete n) :
    ∃ got rest, buf = slaveId :: got :: rest ∧ got &&& 0x7F = fc &&& 0x7F ∧
      ((got &&& 0x80 ≠ 0 ∧ n = 5 ∧ 3 ≤ rest.length) ∨
        (got ∈ [0x01, 0x02, 0x03, 0x04] ∧ ∃ byteCount data, rest = byteCount :: data ∧
          byteCount.toNat + 2 ≤ data.length ∧ n = byteCount.toNat + 5) ∨
        (got ∈ [0x05, 0x06, 0x0F, 0x10] ∧ n = 8 ∧ 6 ≤ rest.length)) := by
  unfold rtuParse at h
  split at h
  · cases h
  · next first rest =>
    split at h
    · cases h
    · next hslave =>
      obtain rfl := not_ne_iff.mp hslave
      split at h
      · cases h
      · next got rest =>
        split at h
        · cases h
        · next hfc =>
          refine ⟨got, rest, rfl, not_ne_iff.mp hfc, ?_⟩
          split at h
          · next hexception =>
            split at h
            · cases h
            · next hlen =>
              cases h
              exact .inl ⟨hexception, rfl, by omega⟩
          · split at h
            · next hread =>
              split at h
              · cases h
              · next byteCount data =>
                split at h
                · cases h
                · next hlen =>
                  cases h
                  exact .inr (.inl ⟨hread, byteCount, data, rfl, by omega, by omega⟩)
            · split at h
              · next hwrite =>
                split at h
                · cases h
                · next hlen =>
                  cases h
                  exact .inr (.inr ⟨hwrite, rfl, by omega⟩)
              · cases h

theorem read_code (kind : ReadKind) : kind.functionCode.code ∈ [0x01, 0x02, 0x03, 0x04] ∧
    kind.functionCode.code &&& 0x80 = 0 := by
  cases kind <;> decide

/-- The parser waits for a read response until it is complete. -/
theorem framesAt_read (slaveId : UInt8) (kind : ReadKind) (byteCount : UInt8) (rest : Bytes)
    (hlen : byteCount.toNat + 2 ≤ rest.length) :
    FramesAt (rtuParse slaveId kind.functionCode.code)
      (slaveId :: kind.functionCode.code :: byteCount :: rest) (byteCount.toNat + 5) := by
  obtain ⟨hread, hplain⟩ := read_code kind
  generalize kind.functionCode.code = fc at hread hplain
  refine ⟨by simp only [List.length_cons]; omega, fun k hk => ?_, fun k hk => ?_⟩
  · match k with
    | 0 => exact ⟨2, rfl, by omega, by omega⟩
    | 1 => exact ⟨2, by simp [rtuParse], by omega, by omega⟩
    | 2 => exact ⟨3, by simp [rtuParse, hplain, hread], by omega, by omega⟩
    | k + 3 =>
      refine ⟨byteCount.toNat + 5, ?_, by omega, Nat.le_refl _⟩
      have htake : (rest.take k).length < byteCount.toNat + 2 := by
        rw [List.length_take]
        omega
      simp only [List.take_succ_cons, rtuParse, ne_eq, not_true_eq_false, if_false, hplain, if_pos hread,
        if_pos htake]
      congr 1
      omega
  · obtain ⟨k, rfl⟩ : ∃ j, k = j + 3 := ⟨k - 3, by omega⟩
    have htake : ¬ (rest.take k).length < byteCount.toNat + 2 := by
      rw [List.length_take]
      omega
    simp only [List.take_succ_cons, rtuParse, ne_eq, not_true_eq_false, if_false, hplain, if_pos hread,
      if_neg htake]
    congr 1
    omega

theorem write_code {fc : UInt8} (h : fc ∈ [0x05, 0x06, 0x0F, 0x10]) :
    fc ∉ [(0x01 : UInt8), 0x02, 0x03, 0x04] ∧ fc &&& 0x80 = 0 := by
  simp only [List.mem_cons, List.not_mem_nil, or_false] at h
  rcases h with rfl | rfl | rfl | rfl <;> decide

/-- The parser waits for the eight bytes of a write response. -/
theorem framesAt_write (slaveId : UInt8) {fc : UInt8} (hfc : fc ∈ [0x05, 0x06, 0x0F, 0x10])
    (rest : Bytes) (hlen : 6 ≤ rest.length) :
    FramesAt (rtuParse slaveId fc) (slaveId :: fc :: rest) 8 := by
  obtain ⟨hread, hplain⟩ := write_code hfc
  refine ⟨by simp only [List.length_cons]; omega, fun k hk => ?_, fun k hk => ?_⟩
  · match k with
    | 0 => exact ⟨2, rfl, by omega, by omega⟩
    | 1 => exact ⟨2, by simp [rtuParse], by omega, by omega⟩
    | k + 2 =>
      refine ⟨8, ?_, by omega, Nat.le_refl _⟩
      have htake : (rest.take k).length < 6 := by
        rw [List.length_take]
        omega
      simp only [List.take_succ_cons, rtuParse, ne_eq, not_true_eq_false, if_false, hplain,
        if_neg hread, if_pos hfc, if_pos htake]
  · obtain ⟨k, rfl⟩ : ∃ j, k = j + 2 := ⟨k - 2, by omega⟩
    have htake : ¬ (rest.take k).length < 6 := by
      rw [List.length_take]
      omega
    simp only [List.take_succ_cons, rtuParse, ne_eq, not_true_eq_false, if_false, hplain, if_neg hread,
      if_pos hfc, if_neg htake]

theorem rtuTransact_eq (slaveId : UInt8) (r : Request) (x : SerialExchange) :
    rtuTransact (rtuFrame slaveId r.pdu) x =
      transactionFramed (rtuParse slaveId r.functionCode.code) rtuCapacity x := rfl

/-- What the transport hands to the RTU client. -/
theorem rtuTransact_frame {slaveId : UInt8} {r : Request} {x : SerialExchange} {frame : Bytes}
    (h : rtuTransact (rtuFrame slaveId r.pdu) x = .ok frame) :
    frame <+: x.received ∧ frame.length ≤ rtuCapacity ∧
      ∃ got rest, frame = slaveId :: got :: rest ∧ got &&& 0x7F = r.functionCode.code &&& 0x7F ∧
        (got &&& 0x80 ≠ 0 ∨
          (got ∈ [0x01, 0x02, 0x03, 0x04] ∧
            ∃ byteCount data, rest = byteCount :: data ∧ data.length = byteCount.toNat + 2) ∨
          (got ∈ [0x05, 0x06, 0x0F, 0x10] ∧ rest.length = 6)) := by
  rw [rtuTransact_eq] at h
  obtain ⟨k, n, hp, hn, hcap, hk, rfl⟩ := transactionFramed_ok h
  obtain ⟨got, rest, hbuf, hfc, hcases⟩ := rtuParse_complete hp
  have htake : x.received.take n = (slaveId :: got :: rest).take n := by
    rw [← hbuf, List.take_take, Nat.min_eq_left hn]
  refine ⟨List.take_prefix _ _, by rw [List.length_take]; omega, got, rest.take (n - 2), ?_, hfc, ?_⟩
  · rw [htake]
    obtain ⟨m, rfl⟩ : ∃ m, n = m + 2 := ⟨n - 2, by
      rcases hcases with ⟨-, rfl, -⟩ | ⟨-, b, d, -, -, rfl⟩ | ⟨-, rfl, -⟩ <;> omega⟩
    rfl
  · rcases hcases with ⟨he, -, -⟩ | ⟨hread, byteCount, data, rfl, hlen, rfl⟩ | ⟨hwrite, rfl, hlen⟩
    · exact .inl he
    · refine .inr (.inl ⟨hread, byteCount, data.take (byteCount.toNat + 2), ?_, ?_⟩)
      · rw [show byteCount.toNat + 5 - 2 = byteCount.toNat + 2 + 1 by omega, List.take_succ_cons]
      · rw [List.length_take]
        omega
    · refine .inr (.inr ⟨hwrite, ?_⟩)
      rw [List.length_take]
      omega

theorem parseReadResponse_ok {frame data : Bytes} :
    parseReadResponse frame = .ok data ↔ ∃ slaveId fc byteCount rest,
      frame = slaveId :: fc :: byteCount :: rest ∧ verifyCrc frame = true ∧ fc &&& 0x80 = 0 ∧
      byteCount.toNat + 2 ≤ rest.length ∧ data = rest.take byteCount.toNat := by
  unfold parseReadResponse
  split
  · next slaveId fc byteCount rest =>
    constructor
    · intro h
      split at h
      · cases h
      · split at h
        · cases h
        · next hcrc =>
          split at h
          · cases h
          · next hplain =>
            split at h
            · cases h
            · next hlen =>
              cases h
              exact ⟨slaveId, fc, byteCount, rest, rfl, by simpa using hcrc, not_ne_iff.mp hplain,
                by omega, rfl⟩
    · rintro ⟨_, _, _, _, heq, hcrc, hplain, hlen, rfl⟩
      cases heq
      rw [if_neg (by omega), hcrc, if_neg (by simp), if_neg (not_ne_iff.mpr hplain),
        if_neg (by omega)]
  · next hshort =>
    constructor
    · intro h
      cases h
    · rintro ⟨slaveId, fc, byteCount, rest, rfl, -⟩
      exact absurd rfl (hshort slaveId fc byteCount rest)

theorem parseWriteResponse_ok {frame : Bytes} :
    parseWriteResponse frame = .ok () ↔ ∃ slaveId fc third rest,
      frame = slaveId :: fc :: third :: rest ∧ 2 ≤ rest.length ∧ verifyCrc frame = true ∧
      fc &&& 0x80 = 0 := by
  unfold parseWriteResponse
  split
  · next slaveId fc third rest =>
    constructor
    · intro h
      split at h
      · cases h
      · next hlen =>
        split at h
        · cases h
        · next hcrc =>
          split at h
          · cases h
          · next hplain =>
            exact ⟨slaveId, fc, third, rest, rfl, by omega, by simpa using hcrc, not_ne_iff.mp hplain⟩
    · rintro ⟨_, _, _, _, heq, hlen, hcrc, hplain⟩
      cases heq
      rw [if_neg (by omega), hcrc, if_neg (by simp), if_neg (not_ne_iff.mpr hplain)]
  · next hshort =>
    constructor
    · intro h
      cases h
    · rintro ⟨slaveId, fc, third, rest, rfl, -⟩
      exact absurd rfl (hshort slaveId fc third rest)

theorem setup_of_received {x : SerialExchange} {b : UInt8} {rest : Bytes}
    (h : x.received = b :: rest) : x.setup = none := by
  cases hs : x.setup with
  | none => rfl
  | some msg => simp [SerialExchange.received, hs] at h

/-- A read that returns a value has accepted a frame of the slave with the
function code of the request and a valid checksum. -/
theorem rtuRun_read_iff {slaveId : UInt8} {kind : ReadKind} {start count : UInt16}
    {x : SerialExchange} {reply : Reply} :
    rtuRun slaveId (.read kind start count) x = .ok reply ↔ ∃ byteCount rest,
      x.received = slaveId :: kind.functionCode.code :: byteCount :: rest ∧
      byteCount.toNat + 2 ≤ rest.length ∧ byteCount.toNat + 5 ≤ rtuCapacity ∧
      verifyCrc (x.received.take (byteCount.toNat + 5)) = true ∧
      reply = kind.extract (rest.take byteCount.toNat) count := by
  constructor
  · intro h
    unfold rtuRun at h
    cases hf : rtuTransact (rtuFrame slaveId (Request.read kind start count).pdu) x with
    | error msg => simp [hf, bind, Except.bind] at h
    | ok frame =>
      obtain ⟨⟨behind, hstart⟩, hcap, got, rest, rfl, hfc, hcases⟩ := rtuTransact_frame hf
      simp only [hf, bind, Except.bind] at h
      cases hp : parseReadResponse (slaveId :: got :: rest) with
      | error msg => simp [hp, Except.map] at h
      | ok data =>
        simp only [hp, Except.map, Except.ok.injEq] at h
        obtain ⟨_, _, byteCount, rest, heq, hcrc, hplain, hlen, rfl⟩ := parseReadResponse_ok.mp hp
        cases heq
        obtain rfl := code_of_mask hfc hplain
        have hlength : rest.length = byteCount.toNat + 2 := by
          rcases hcases with he | ⟨-, _, _, heq, hd⟩ | ⟨hwrite, -⟩
          · exact absurd hplain he
          · cases heq
            exact hd
          · exact absurd (read_code kind).1 (write_code hwrite).1
        have hcap' : byteCount.toNat + 5 ≤ rtuCapacity := by
          simp only [List.length_cons, hlength] at hcap
          omega
        refine ⟨byteCount, rest ++ behind, hstart.symm, by simp; omega, hcap', ?_, ?_⟩
        · rw [← hstart, List.take_left' (by simp [hlength])]
          exact hcrc
        · rw [List.take_append_of_le_length (by omega)]
          exact h.symm
  · rintro ⟨byteCount, rest, hr, hlen, hcap, hcrc, rfl⟩
    have hframes := framesAt_read slaveId kind byteCount rest hlen
    rw [← hr] at hframes
    have hok := transactionFramed_complete (setup_of_received hr) hframes hcap (by omega)
    have htake : x.received.take (byteCount.toNat + 5) =
        slaveId :: kind.functionCode.code :: byteCount :: rest.take (byteCount.toNat + 2) := by
      rw [hr]
      rfl
    have hparse : parseReadResponse (x.received.take (byteCount.toNat + 5)) =
        .ok (rest.take byteCount.toNat) := by
      refine parseReadResponse_ok.mpr ⟨_, _, _, _, htake, hcrc, (read_code kind).2, ?_, ?_⟩
      · rw [List.length_take]
        omega
      · rw [List.take_take, Nat.min_eq_left (by omega)]
    rw [rtuRun, rtuTransact_eq]
    change (do
      let response ← transactionFramed (rtuParse slaveId kind.functionCode.code) rtuCapacity x
      (parseReadResponse response).map (kind.extract · count)) = _
    rw [hok]
    simp [bind, Except.bind, hparse, Except.map]

/-- A write only asks for the function code and a valid checksum. -/
theorem rtuRun_write_iff {slaveId : UInt8} {r : Request} {x : SerialExchange} {reply : Reply}
    (hcode : r.functionCode.code ∈ [0x05, 0x06, 0x0F, 0x10]) :
    rtuRun slaveId r x = .ok reply ↔ ∃ rest,
      x.received = slaveId :: r.functionCode.code :: rest ∧ 6 ≤ rest.length ∧
      verifyCrc (x.received.take 8) = true ∧ reply = .written := by
  have hrun : rtuRun slaveId r x = (do
      let response ← rtuTransact (rtuFrame slaveId r.pdu) x
      (parseWriteResponse response).map fun _ => .written) := by
    cases r with
    | read kind start count => exact absurd (read_code kind).1 (write_code hcode).1
    | _ => rfl
  constructor
  · intro h
    rw [hrun] at h
    cases hf : rtuTransact (rtuFrame slaveId r.pdu) x with
    | error msg => simp [hf, bind, Except.bind] at h
    | ok frame =>
      obtain ⟨⟨behind, hstart⟩, -, got, rest, rfl, hfc, hcases⟩ := rtuTransact_frame hf
      simp only [hf, bind, Except.bind] at h
      cases hp : parseWriteResponse (slaveId :: got :: rest) with
      | error msg => simp [hp, Except.map] at h
      | ok u =>
        simp only [hp, Except.map, Except.ok.injEq] at h
        obtain ⟨_, _, third, rest, heq, hlen, hcrc, hplain⟩ := parseWriteResponse_ok.mp hp
        cases heq
        obtain rfl := code_of_mask hfc hplain
        have hlength : rest.length + 1 = 6 := by
          rcases hcases with he | ⟨hread, -⟩ | ⟨-, hd⟩
          · exact absurd hplain he
          · exact absurd hread (write_code hcode).1
          · exact hd
        refine ⟨third :: rest ++ behind, hstart.symm, by simp; omega, ?_, h.symm⟩
        rw [← hstart, List.take_left' (by simp; omega)]
        exact hcrc
  · rintro ⟨rest, hr, hlen, hcrc, rfl⟩
    have hframes := framesAt_write slaveId hcode rest hlen
    rw [← hr] at hframes
    have hok := transactionFramed_complete (setup_of_received hr) hframes (by decide :
      8 ≤ rtuCapacity) (by omega)
    obtain ⟨third, rest, rfl⟩ : ∃ third rest', rest = third :: rest' := by
      cases rest with
      | nil => simp at hlen
      | cons third rest => exact ⟨third, rest, rfl⟩
    have hparse : parseWriteResponse (x.received.take 8) = .ok () := by
      refine parseWriteResponse_ok.mpr ⟨slaveId, r.functionCode.code, third, rest.take 5, ?_, ?_,
        hcrc, (write_code hcode).2⟩
      · rw [hr]
        rfl
      · simp only [List.length_cons, List.length_take] at hlen ⊢
        omega
    rw [hrun, rtuTransact_eq, hok]
    simp [bind, Except.bind, hparse, Except.map]

/-! ## TCP -/

/-- A connection over which a whole frame arrives: its transaction and protocol
numbers, its unit, and what it carries. -/
structure Connection.Delivers (c : Connection) (t1 t2 p1 p2 unit : UInt8) (pdu : Bytes) : Prop where
  sent : c.sendError = none
  frame : ∃ hi lo behind, c.bytes = t1 :: t2 :: p1 :: p2 :: hi :: lo :: unit :: (pdu ++ behind) ∧
    (word hi lo).toNat = pdu.length + 1
  fits : pdu.length + 7 ≤ tcpCapacity

/-- The frame of the connection, or of the next one when that one has none. -/
def TcpExchange.Delivers (x : TcpExchange) (t1 t2 p1 p2 unit : UInt8) (pdu : Bytes) : Prop :=
  (∃ c, x.current = some c ∧ c.Delivers t1 t2 p1 p2 unit pdu) ∨
    ((∀ c, x.current = some c → ∀ t1 t2 p1 p2 unit pdu, ¬ c.Delivers t1 t2 p1 p2 unit pdu) ∧
      ∃ c, x.reconnect = .ok c ∧ c.Delivers t1 t2 p1 p2 unit pdu)

theorem Connection.Delivers.eq {c : Connection} {t1 t2 p1 p2 unit t1' t2' p1' p2' unit' : UInt8}
    {pdu pdu' : Bytes} (h : c.Delivers t1 t2 p1 p2 unit pdu)
    (h' : c.Delivers t1' t2' p1' p2' unit' pdu') :
    t1 = t1' ∧ t2 = t2' ∧ p1 = p1' ∧ p2 = p2' ∧ unit = unit' ∧ pdu = pdu' := by
  obtain ⟨hi, lo, behind, hb, hlen⟩ := h.frame
  obtain ⟨hi', lo', behind', hb', hlen'⟩ := h'.frame
  rw [hb] at hb'
  simp only [List.cons.injEq] at hb'
  obtain ⟨rfl, rfl, rfl, rfl, rfl, rfl, rfl, happ⟩ := hb'
  exact ⟨rfl, rfl, rfl, rfl, rfl, (List.append_inj happ (by omega)).1⟩

theorem TcpExchange.Delivers.eq {x : TcpExchange} {t1 t2 p1 p2 unit t1' t2' p1' p2' unit' : UInt8}
    {pdu pdu' : Bytes} (h : x.Delivers t1 t2 p1 p2 unit pdu)
    (h' : x.Delivers t1' t2' p1' p2' unit' pdu') :
    t1 = t1' ∧ t2 = t2' ∧ p1 = p1' ∧ p2 = p2' ∧ unit = unit' ∧ pdu = pdu' := by
  obtain ⟨c, hc, hd⟩ | ⟨hnone, c, hc, hd⟩ := h
  · obtain ⟨c', hc', hd'⟩ | ⟨hnone', -⟩ := h'
    · obtain rfl : c = c' := Option.some.inj (hc.symm.trans hc')
      exact hd.eq hd'
    · exact absurd hd (hnone' c hc _ _ _ _ _ _)
  · obtain ⟨c', hc', hd'⟩ | ⟨-, c', hc', hd'⟩ := h'
    · exact absurd hd' (hnone c' hc' _ _ _ _ _ _)
    · obtain rfl : c = c' := Except.ok.inj (hc.symm.trans hc')
      exact hd.eq hd'

/-- What the transport hands to the TCP client. -/
theorem transactionInner_ok {request frame : Bytes} {c : Connection}
    (h : transactionInner request (some c) = .ok frame) : ∃ t1 t2 p1 p2 unit pdu hi lo,
      c.Delivers t1 t2 p1 p2 unit pdu ∧ frame = t1 :: t2 :: p1 :: p2 :: hi :: lo :: unit :: pdu := by
  simp only [transactionInner] at h
  cases hsent : c.sendError with
  | some msg => simp [hsent] at h
  | none =>
    simp only [hsent] at h
    split at h
    · next b0 b1 b2 b3 hi lo unit rest hbytes =>
      split at h
      · cases h
      · split at h
        · cases h
        · split at h
          · cases h
          · cases h
            refine ⟨b0, b1, b2, b3, unit, rest.take ((word hi lo).toNat - 1), hi, lo, ⟨hsent,
              ⟨hi, lo, rest.drop ((word hi lo).toNat - 1), ?_, ?_⟩, ?_⟩, rfl⟩
            · rw [List.take_append_drop, hbytes]
            · rw [List.length_take]
              omega
            · rw [List.length_take]
              omega
    · cases h

/-- A frame that arrives is handed over. -/
theorem Connection.Delivers.transactionInner {c : Connection} {t1 t2 p1 p2 unit : UInt8}
    {pdu : Bytes} (h : c.Delivers t1 t2 p1 p2 unit pdu) (request : Bytes) :
    ∃ hi lo, transactionInner request (some c) =
      .ok (t1 :: t2 :: p1 :: p2 :: hi :: lo :: unit :: pdu) := by
  obtain ⟨hi, lo, behind, hb, hlen⟩ := h.frame
  have hfits := h.fits
  refine ⟨hi, lo, ?_⟩
  simp only [Devices.transactionInner, h.sent, hb, hlen, Nat.add_sub_cancel, List.take_left]
  rw [if_neg (by omega), if_neg (by omega), if_neg (by simp)]

theorem tcpTransaction_ok {request frame : Bytes} {x : TcpExchange}
    (h : tcpTransaction request x = .ok frame) : ∃ t1 t2 p1 p2 unit pdu hi lo,
      x.Delivers t1 t2 p1 p2 unit pdu ∧ frame = t1 :: t2 :: p1 :: p2 :: hi :: lo :: unit :: pdu := by
  unfold tcpTransaction at h
  cases hf : transactionInner request x.current with
  | ok frame' =>
    simp only [hf, Except.ok.injEq] at h
    subst h
    cases hc : x.current with
    | none => simp [hc, transactionInner] at hf
    | some c =>
      rw [hc] at hf
      obtain ⟨t1, t2, p1, p2, unit, pdu, hi, lo, hd, rfl⟩ := transactionInner_ok hf
      exact ⟨t1, t2, p1, p2, unit, pdu, hi, lo, .inl ⟨c, hc, hd⟩, rfl⟩
  | error msg =>
    simp only [hf] at h
    cases hr : x.reconnect with
    | error msg => simp [hr] at h
    | ok c =>
      simp only [hr] at h
      obtain ⟨t1, t2, p1, p2, unit, pdu, hi, lo, hd, rfl⟩ := transactionInner_ok h
      refine ⟨t1, t2, p1, p2, unit, pdu, hi, lo, .inr ⟨fun c' hc' _ _ _ _ _ _ hd' => ?_, c, hr, hd⟩, rfl⟩
      obtain ⟨hi, lo, hok⟩ := hd'.transactionInner request
      rw [hc', hok] at hf
      cases hf

theorem TcpExchange.Delivers.tcpTransaction {x : TcpExchange} {t1 t2 p1 p2 unit : UInt8}
    {pdu : Bytes} (h : x.Delivers t1 t2 p1 p2 unit pdu) (request : Bytes) :
    ∃ hi lo, tcpTransaction request x =
      .ok (t1 :: t2 :: p1 :: p2 :: hi :: lo :: unit :: pdu) := by
  obtain ⟨c, hc, hd⟩ | ⟨hnone, c, hc, hd⟩ := h
  · obtain ⟨hi, lo, hok⟩ := hd.transactionInner request
    exact ⟨hi, lo, by simp [Devices.tcpTransaction, hc, hok]⟩
  · obtain ⟨hi, lo, hok⟩ := hd.transactionInner request
    refine ⟨hi, lo, ?_⟩
    cases hf : transactionInner request x.current with
    | error msg => simp [Devices.tcpTransaction, hf, hc, hok]
    | ok frame =>
      cases hcur : x.current with
      | none => simp [hcur, Devices.transactionInner] at hf
      | some c' =>
        rw [hcur] at hf
        obtain ⟨_, _, _, _, _, _, _, _, hd', -⟩ := transactionInner_ok hf
        exact absurd hd' (hnone c' hcur _ _ _ _ _ _)

/-- The data the TCP client takes from a function code and what stands behind
it: as much as the byte count says, nothing for a write. -/
inductive TcpData (fc : UInt8) : Bytes → Bytes → Prop
  | read (byteCount : UInt8) (rest : Bytes) : fc ∈ [0x01, 0x02, 0x03, 0x04] →
      byteCount.toNat ≤ rest.length → TcpData fc (byteCount :: rest) (rest.take byteCount.toNat)
  | write (rest : Bytes) : fc ∈ [0x05, 0x06, 0x0F, 0x10] → TcpData fc rest []

theorem known_code {fc : UInt8} (h : fc ∈ [0x01, 0x02, 0x03, 0x04] ∨ fc ∈ [0x05, 0x06, 0x0F, 0x10]) :
    fc &&& 0x80 = 0 := by
  simp only [List.mem_cons, List.not_mem_nil, or_false] at h
  rcases h with (rfl | rfl | rfl | rfl) | (rfl | rfl | rfl | rfl) <;> decide

theorem TcpData.plain {fc : UInt8} {rest data : Bytes} (h : TcpData fc rest data) : fc &&& 0x80 = 0 := by
  cases h with
  | read byteCount rest hread hlen => exact known_code (.inl hread)
  | write rest hwrite => exact known_code (.inr hwrite)

theorem parseResponse_ok {t1 t2 p1 p2 hi lo unit : UInt8} {pdu data : Bytes} {transactionId : UInt16} :
    parseResponse (t1 :: t2 :: p1 :: p2 :: hi :: lo :: unit :: pdu) = .ok (transactionId, data) ↔
      ∃ fc rest, pdu = fc :: rest ∧ word p1 p2 = 0 ∧ TcpData fc rest data ∧
        transactionId = word t1 t2 := by
  cases pdu with
  | nil =>
    constructor
    · intro h
      cases h
    · rintro ⟨_, _, heq, -⟩
      cases heq
  | cons fc rest =>
    simp only [parseResponse]
    constructor
    · intro h
      split at h
      · cases h
      · next hprotocol =>
        split at h
        · cases rest <;> cases h
        · split at h
          · next hread =>
            cases rest with
            | nil => cases h
            | cons byteCount rest =>
              simp only at h
              split at h
              · cases h
              · next hlen =>
                cases h
                exact ⟨fc, _, rfl, not_ne_iff.mp hprotocol, .read byteCount rest hread (by omega), rfl⟩
          · split at h
            · next hwrite =>
              cases h
              exact ⟨fc, rest, rfl, not_ne_iff.mp hprotocol, .write rest hwrite, rfl⟩
            · cases h
    · rintro ⟨_, _, heq, hprotocol, hdata, rfl⟩
      cases heq
      rw [if_neg (not_ne_iff.mpr hprotocol), if_neg (not_ne_iff.mpr hdata.plain)]
      cases hdata with
      | read byteCount rest hread hlen =>
        rw [if_pos hread]
        simp only
        rw [if_neg (by omega)]
      | write rest hwrite => rw [if_neg (write_code hwrite).1, if_pos hwrite]

/-- The reply the TCP client makes of the data. -/
def Request.tcpReply (r : Request) (data : Bytes) : Reply :=
  match r with
  | .read kind _ count => kind.extract data count
  | _ => .written

/-- A request over TCP returns a value for every frame without an error, whatever
its transaction, unit and function code. -/
theorem tcpRun_iff {transactionId : UInt16} {unitId : UInt8} {r : Request} {x : TcpExchange}
    {reply : Reply} :
    (tcpRun transactionId unitId r x).2 = .ok reply ↔ ∃ t1 t2 p1 p2 unit fc rest data,
      x.Delivers t1 t2 p1 p2 unit (fc :: rest) ∧ word p1 p2 = 0 ∧ TcpData fc rest data ∧
      reply = r.tcpReply data := by
  generalize hrequest : tcpFrame (transactionId + 1) unitId r.pdu = request
  have hrun : (tcpRun transactionId unitId r x).2 = (do
      let (_, data) ← tcpTransact request x
      return r.tcpReply data) := by rw [← hrequest]; rfl
  rw [hrun]
  constructor
  · intro h
    cases hf : tcpTransaction request x with
    | error msg => simp [tcpTransact, hf, bind, Except.bind] at h
    | ok frame =>
      obtain ⟨t1, t2, p1, p2, unit, pdu, hi, lo, hd, rfl⟩ := tcpTransaction_ok hf
      simp only [tcpTransact, hf, bind, Except.bind, List.length_cons, Nat.add_one_ne_zero,
        if_false] at h
      cases hp : parseResponse (t1 :: t2 :: p1 :: p2 :: hi :: lo :: unit :: pdu) with
      | error msg => simp [hp] at h
      | ok result =>
        obtain ⟨id, data⟩ := result
        simp only [hp, pure, Except.pure, Except.ok.injEq] at h
        obtain ⟨fc, rest, rfl, hprotocol, hdata, -⟩ := parseResponse_ok.mp hp
        exact ⟨t1, t2, p1, p2, unit, fc, rest, data, hd, hprotocol, hdata, h.symm⟩
  · rintro ⟨t1, t2, p1, p2, unit, fc, rest, data, hd, hprotocol, hdata, rfl⟩
    obtain ⟨hi, lo, hok⟩ := hd.tcpTransaction request
    have hp : parseResponse (t1 :: t2 :: p1 :: p2 :: hi :: lo :: unit :: fc :: rest) =
        .ok (word t1 t2, data) := parseResponse_ok.mpr ⟨fc, rest, rfl, hprotocol, hdata, rfl⟩
    simp [tcpTransact, hok, bind, Except.bind, hp, pure, Except.pure]

end RustPlc.Devices
