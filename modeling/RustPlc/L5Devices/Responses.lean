import RustPlc.L5Devices.DeviceIo
import RustPlc.L5Devices.ModbusClient

/-!
# Only a response to the request is accepted

The RTU client checks the slave, the function code and the checksum of a frame,
but takes the number of values from the frame itself. The TCP client takes
whatever frame comes next: a late reply to an earlier request is the reply to
this one. The read pass then stores as many values as it got, counted from the
first register of the batch.

Results:
* `rtu_answered_iff`, `tcp_answered_iff`: when every value returned is from a
  response to the request, by the bytes that arrive;
* `readBatchedIo_ok`: a read pass over such replies;
* `accepts_only_iff`: under the same condition a read pass stores what it asked
  for, nothing on an error, and never panics.
-/
namespace RustPlc.Devices

open RustPlc.Ir

/-- The reply is what a frame of the slave that answers the request says, and
that frame is what was received first. -/
def RtuAnswered (slaveId : UInt8) (r : Request) (received : Bytes) (reply : Reply) : Prop :=
  ∃ body, rtuFrame slaveId (r.functionCode.code :: body) <+: received ∧ r.AnsweredBy body ∧
    reply = r.result body

/-- The reply is what a frame of the transaction and the unit that answers the
request says. -/
def TcpAnswered (transactionId : UInt16) (unitId : UInt8) (r : Request) (x : TcpExchange)
    (reply : Reply) : Prop :=
  ∃ t1 t2 p1 p2 body, x.Delivers t1 t2 p1 p2 unitId (r.functionCode.code :: body) ∧
    word t1 t2 = transactionId ∧ word p1 p2 = 0 ∧ r.AnsweredBy body ∧ reply = r.result body

/-- A frame of the slave with the function code of the request and a valid
checksum has the byte count of the request; for a write of several values it
repeats their number. -/
def RtuConsistent (slaveId : UInt8) (r : Request) (received : Bytes) : Prop :=
  match r with
  | .read kind _ count => ∀ byteCount rest,
      received = slaveId :: kind.functionCode.code :: byteCount :: rest →
      byteCount.toNat + 2 ≤ rest.length → byteCount.toNat + 5 ≤ rtuCapacity →
      verifyCrc (received.take (byteCount.toNat + 5)) = true →
      byteCount.toNat = kind.byteCount count
  | .writeSingleCoil _ _ | .writeSingleRegister _ _ => True
  | .writeMultipleCoils _ coils => ∀ a b hi lo rest,
      received = slaveId :: r.functionCode.code :: a :: b :: hi :: lo :: rest → 2 ≤ rest.length →
      verifyCrc (received.take 8) = true → (word hi lo).toNat = coils.length
  | .writeMultipleRegisters _ values => ∀ a b hi lo rest,
      received = slaveId :: r.functionCode.code :: a :: b :: hi :: lo :: rest → 2 ≤ rest.length →
      verifyCrc (received.take 8) = true → (word hi lo).toNat = values.length

/-- A frame without an error is one of the transaction, the unit and the function
code of the request, and answers it. -/
def TcpConsistent (transactionId : UInt16) (unitId : UInt8) (r : Request) (x : TcpExchange) : Prop :=
  ∀ t1 t2 p1 p2 unit fc rest data, x.Delivers t1 t2 p1 p2 unit (fc :: rest) → word p1 p2 = 0 →
    TcpData fc rest data →
    word t1 t2 = transactionId ∧ unit = unitId ∧ fc = r.functionCode.code ∧ r.AnsweredBy rest

/-! ## RTU -/

/-- A complete read response is the frame of its byte count and data. -/
theorem rtuFrame_of_crc {slaveId fc byteCount : UInt8} {rest : Bytes}
    (hlen : byteCount.toNat + 2 ≤ rest.length)
    (hcrc : verifyCrc ((slaveId :: fc :: byteCount :: rest).take (byteCount.toNat + 5)) = true) :
    rtuFrame slaveId (fc :: byteCount :: rest.take byteCount.toNat) <+:
      slaveId :: fc :: byteCount :: rest := by
  have htake : (slaveId :: fc :: byteCount :: rest).take (byteCount.toNat + 5) =
      slaveId :: fc :: byteCount :: rest.take (byteCount.toNat + 2) := rfl
  have hlength : (fc :: byteCount :: rest.take (byteCount.toNat + 2)).length =
      byteCount.toNat + 4 := by
    simp only [List.length_cons, List.length_take]
    omega
  rw [htake, verifyCrc_iff (by omega), hlength] at hcrc
  have hbody : (fc :: byteCount :: rest.take (byteCount.toNat + 2)).take (byteCount.toNat + 4 - 2) =
      fc :: byteCount :: rest.take byteCount.toNat := by
    rw [show byteCount.toNat + 4 - 2 = byteCount.toNat + 2 by omega]
    simp only [List.take_succ_cons, List.take_take]
    rw [Nat.min_eq_left (by omega)]
  rw [hbody, ← htake] at hcrc
  rw [← hcrc]
  exact List.take_prefix _ _

theorem rtu_read_answered_iff {slaveId : UInt8} {kind : ReadKind} {start count : UInt16}
    {x : SerialExchange} :
    (∀ reply, rtuRun slaveId (.read kind start count) x = .ok reply →
      RtuAnswered slaveId (.read kind start count) x.received reply) ↔
    RtuConsistent slaveId (.read kind start count) x.received := by
  constructor
  · intro h byteCount rest hr hlen hcap hcrc
    obtain ⟨body, hframe, ⟨byteCount', data, rfl, hcount, -⟩, -⟩ :=
      h _ (rtuRun_read_iff.mpr ⟨byteCount, rest, hr, hlen, hcap, hcrc, rfl⟩)
    rw [hr, rtuFrame, List.cons_append, List.cons_append, List.cons_append] at hframe
    have hsame := (List.cons_prefix_cons.mp (List.cons_prefix_cons.mp
      (List.cons_prefix_cons.mp hframe).2).2).1
    rw [← hsame]
    exact hcount
  · intro h reply hok
    obtain ⟨byteCount, rest, hr, hlen, hcap, hcrc, rfl⟩ := rtuRun_read_iff.mp hok
    have hcount := h byteCount rest hr hlen hcap hcrc
    refine ⟨byteCount :: rest.take byteCount.toNat, ?_, ⟨byteCount, _, rfl, hcount, ?_⟩, rfl⟩
    · rw [hr] at hcrc ⊢
      exact rtuFrame_of_crc hlen hcrc
    · rw [List.length_take]
      omega

/-- A write response that is accepted is a frame with four bytes behind the
function code. -/
theorem rtuFrame_of_write {slaveId fc a b hi lo : UInt8} {rest : Bytes} (hlen : 2 ≤ rest.length)
    (hcrc : verifyCrc ((slaveId :: fc :: a :: b :: hi :: lo :: rest).take 8) = true) :
    rtuFrame slaveId [fc, a, b, hi, lo] <+: slaveId :: fc :: a :: b :: hi :: lo :: rest := by
  have htake : (slaveId :: fc :: a :: b :: hi :: lo :: rest).take 8 =
      slaveId :: fc :: a :: b :: hi :: lo :: rest.take 2 := rfl
  have hlength : (fc :: a :: b :: hi :: lo :: rest.take 2).length = 7 := by
    simp only [List.length_cons, List.length_take]
    omega
  rw [htake, verifyCrc_iff (by omega), hlength] at hcrc
  have hbody : (fc :: a :: b :: hi :: lo :: rest.take 2).take (7 - 2) = [fc, a, b, hi, lo] := by
    simp
  rw [hbody, ← htake] at hcrc
  rw [← hcrc]
  exact List.take_prefix _ _

/-- The frame of a write response, when it carries four bytes. -/
theorem rtu_write_answered_iff {slaveId : UInt8} {r : Request} {x : SerialExchange}
    (hcode : r.functionCode.code ∈ [0x05, 0x06, 0x0F, 0x10]) :
    (∀ reply, rtuRun slaveId r x = .ok reply → RtuAnswered slaveId r x.received reply) ↔
    ∀ a b hi lo rest, x.received = slaveId :: r.functionCode.code :: a :: b :: hi :: lo :: rest →
      2 ≤ rest.length → verifyCrc (x.received.take 8) = true → r.AnsweredBy [a, b, hi, lo] := by
  have hresult : ∀ body, r.result body = .written := by
    intro body
    cases r with
    | read kind start count => exact absurd (read_code kind).1 (write_code hcode).1
    | _ => rfl
  constructor
  · intro h a b hi lo rest hr hlen hcrc
    obtain ⟨body, hframe, hbody, -⟩ := h .written ((rtuRun_write_iff hcode).mpr
      ⟨a :: b :: hi :: lo :: rest, hr, by simp; omega, hcrc, rfl⟩)
    have hfour : body.length = 4 := by
      cases r with
      | read kind start count => exact absurd (read_code kind).1 (write_code hcode).1
      | writeSingleCoil addr value => exact hbody
      | writeSingleRegister addr value => exact hbody
      | writeMultipleCoils start coils =>
        obtain ⟨_, _, _, _, rfl, -⟩ := hbody
        rfl
      | writeMultipleRegisters start values =>
        obtain ⟨_, _, _, _, rfl, -⟩ := hbody
        rfl
    obtain ⟨a', b', hi', lo', rfl⟩ := List.length_eq_four.mp hfour
    rw [hr] at hframe
    simp only [rtuFrame, List.cons_append, List.nil_append, List.cons_prefix_cons] at hframe
    obtain ⟨-, -, rfl, rfl, rfl, rfl, -⟩ := hframe
    exact hbody
  · intro h reply hok
    obtain ⟨rest, hr, hlen, hcrc, rfl⟩ := (rtuRun_write_iff hcode).mp hok
    obtain ⟨front, rest, hfront, rfl⟩ : ∃ front behind, front.length = 4 ∧
        rest = front ++ behind :=
      ⟨rest.take 4, rest.drop 4, by simp; omega, (List.take_append_drop 4 rest).symm⟩
    obtain ⟨a, b, hi, lo, rfl⟩ := List.length_eq_four.mp hfront
    have hlen' : 2 ≤ rest.length := by
      simp only [List.length_append, hfront] at hlen
      omega
    refine ⟨[a, b, hi, lo], ?_, h a b hi lo rest hr hlen' hcrc, (hresult _).symm⟩
    rw [hr] at hcrc ⊢
    exact rtuFrame_of_write hlen' hcrc

theorem answeredBy_four {a b hi lo : UInt8} {n : Nat} :
    (∃ a' b' hi' lo', [a, b, hi, lo] = [a', b', hi', lo'] ∧ (word hi' lo').toNat = n) ↔
      (word hi lo).toNat = n := by
  constructor
  · rintro ⟨_, _, _, _, heq, h⟩
    cases heq
    exact h
  · intro h
    exact ⟨a, b, hi, lo, rfl, h⟩

/-- Every value the RTU client returns is from a response to the request, exactly
when the frames agree with the request in their number of values. -/
theorem rtu_answered_iff (slaveId : UInt8) (r : Request) (x : SerialExchange) :
    (∀ reply, rtuRun slaveId r x = .ok reply → RtuAnswered slaveId r x.received reply) ↔
      RtuConsistent slaveId r x.received := by
  cases r with
  | read kind start count => exact rtu_read_answered_iff
  | writeSingleCoil addr value =>
    rw [rtu_write_answered_iff (by simp [Request.functionCode, FunctionCode.code])]
    exact iff_of_true (fun _ _ _ _ _ _ _ _ => rfl) trivial
  | writeSingleRegister addr value =>
    rw [rtu_write_answered_iff (by simp [Request.functionCode, FunctionCode.code])]
    exact iff_of_true (fun _ _ _ _ _ _ _ _ => rfl) trivial
  | writeMultipleCoils start coils =>
    rw [rtu_write_answered_iff (by simp [Request.functionCode, FunctionCode.code])]
    simp only [Request.AnsweredBy, answeredBy_four, RtuConsistent]
  | writeMultipleRegisters start values =>
    rw [rtu_write_answered_iff (by simp [Request.functionCode, FunctionCode.code])]
    simp only [Request.AnsweredBy, answeredBy_four, RtuConsistent]

/-! ## TCP -/

theorem TcpData.take {byteCount fc : UInt8} {rest data : Bytes}
    (h : TcpData fc (byteCount :: rest) data) (hread : fc ∈ [0x01, 0x02, 0x03, 0x04]) :
    data = rest.take byteCount.toNat := by
  cases h with
  | read _ _ _ _ => rfl
  | write _ hwrite => exact absurd hread (write_code hwrite).1

/-- A response that answers a request is read as what it means. -/
theorem tcpReply_of_answeredBy {r : Request} {rest data : Bytes}
    (hdata : TcpData r.functionCode.code rest data) (h : r.AnsweredBy rest) :
    r.tcpReply data = r.result rest := by
  cases r with
  | read kind start count =>
    obtain ⟨byteCount, values, rfl, hcount, hlen⟩ := h
    rw [hdata.take (read_code kind).1, List.take_of_length_le (by omega)]
    rfl
  | _ => rfl

/-- Every value the TCP client returns is from a response to the request, exactly
when the frame that arrives next is one. -/
theorem tcp_answered_iff (transactionId : UInt16) (unitId : UInt8) (r : Request) (x : TcpExchange) :
    (∀ reply, (tcpRun transactionId unitId r x).2 = .ok reply →
      TcpAnswered (transactionId + 1) unitId r x reply) ↔
      TcpConsistent (transactionId + 1) unitId r x := by
  constructor
  · intro h t1 t2 p1 p2 unit fc rest data hd hprotocol hdata
    obtain ⟨t1', t2', p1', p2', body, hd', hid, -, hbody, -⟩ :=
      h _ (tcpRun_iff.mpr ⟨t1, t2, p1, p2, unit, fc, rest, data, hd, hprotocol, hdata, rfl⟩)
    obtain ⟨rfl, rfl, -, -, rfl, heq⟩ := hd.eq hd'
    cases heq
    exact ⟨hid, rfl, rfl, hbody⟩
  · intro h reply hok
    obtain ⟨t1, t2, p1, p2, unit, fc, rest, data, hd, hprotocol, hdata, rfl⟩ := tcpRun_iff.mp hok
    obtain ⟨hid, rfl, rfl, hbody⟩ := h t1 t2 p1 p2 unit fc rest data hd hprotocol hdata
    exact ⟨t1, t2, p1, p2, rest, hd, hid, hprotocol, hbody, tcpReply_of_answeredBy hdata hbody⟩

/-! ## The process image -/

/-- The request of the read pass for the batch of `n` registers that `regs`
starts with. -/
def ReadsBatch (fields : List ProfileField) (regs : List ExpandedReg) (n : Nat) (r : Request) : Prop :=
  ∃ all first rest kind, expandRegisters FieldDirection.isRead 0 fields = some all ∧ regs <:+ all ∧
    regs = first :: rest ∧ first.kind.readKind = some kind ∧ batchLength first rest 1 = some n ∧
    r = .read kind first.address n.toUInt16

section

variable [F64Ops]

/-- What a request returns is data of a response to it or an error; the read
pass of any device stores it without a panic, in the fields it asked for, and
an error nowhere. -/
structure AcceptsOnly (r : Request) (result : Except String Reply) (answered : Reply → Prop) :
    Prop where
  response : ∀ reply, result = .ok reply → answered reply
  image : ∀ fields regs n image, ReadsBatch fields regs n r →
    image.length = totalExpandedValues fields →
    ∃ image', readBatch regs result image = some image' ∧ image'.length = image.length ∧
      (∀ i, (∀ reg ∈ regs.take n, reg.ioIdx ≠ i) → image'[i]? = image[i]?) ∧
      ∀ msg, result = .error msg → image' = image

theorem storeReply_ok {regs : List ExpandedReg} {reply : Reply} (image : List Value)
    (hlen : reply.length ≤ regs.length) (hin : ∀ reg ∈ regs, reg.ioIdx < image.length) :
    ∃ image', storeReply regs reply image = some image' ∧ image'.length = image.length ∧
      ∀ i, (∀ reg ∈ regs.take reply.length, reg.ioIdx ≠ i) → image'[i]? = image[i]? := by
  cases reply with
  | coils values => exact storeEach_ok hlen hin
  | registers values => exact storeEach_ok hlen hin
  | written => exact ⟨image, rfl, rfl, fun _ _ => rfl⟩

/-- A reply with the number of values of the batch is stored in the batch. -/
theorem readBatch_ok {fields : List ProfileField} {regs : List ExpandedReg} {n : Nat} {r : Request}
    {result : Except String Reply} {image : List Value} (hr : ReadsBatch fields regs n r)
    (himage : image.length = totalExpandedValues fields)
    (hanswered : ∀ reply, result = .ok reply → ∃ body, r.AnsweredBy body ∧ reply = r.result body) :
    ∃ image', readBatch regs result image = some image' ∧ image'.length = image.length ∧
      (∀ i, (∀ reg ∈ regs.take n, reg.ioIdx ≠ i) → image'[i]? = image[i]?) ∧
      ∀ msg, result = .error msg → image' = image := by
  cases result with
  | error msg => exact ⟨image, rfl, rfl, fun _ _ => rfl, fun _ _ => rfl⟩
  | ok reply =>
    obtain ⟨all, first, rest, kind, hall, hsuffix, rfl, -, hlength, rfl⟩ := hr
    obtain ⟨body, hbody, rfl⟩ := hanswered reply rfl
    have hcount := answeredBy_count hbody
    have hn := batchLength_le hlength
    have hle : n.toUInt16.toNat ≤ n := by
      rw [Nat.toUInt16_eq, UInt16.toNat_ofNat']
      exact Nat.mod_le _ _
    have hin : ∀ reg ∈ first :: rest, reg.ioIdx < image.length := by
      intro reg hreg
      have := expandRegisters_lt hall reg (hsuffix.subset hreg)
      omega
    obtain ⟨image', hok, hsize, hsame⟩ := storeReply_ok image
      (by rw [hcount, List.length_cons]; omega) hin
    refine ⟨image', hok, hsize, fun i hi => hsame i fun reg hreg => hi reg ?_, fun msg h => ?_⟩
    · rw [hcount] at hreg
      exact List.take_subset_take_left (first :: rest) hle hreg
    · cases h

/-- A whole read pass, when every reply is from a response: it ends, and changes
nothing but the fields it reads. The addresses of a batch must not pass 65535. -/
theorem readBatchedIo_ok {σ : Type} {ask : σ → Request → σ × Except String Reply}
    {fields : List ProfileField} {all : List ExpandedReg}
    (hall : expandRegisters FieldDirection.isRead 0 fields = some all)
    (haddress : ∀ first rest, first :: rest <:+ all → ∃ n, batchLength first rest 1 = some n)
    (hanswered : ∀ s r reply, (ask s r).2 = .ok reply →
      ∃ body, r.AnsweredBy body ∧ reply = r.result body) (regs : List ExpandedReg) :
    ∀ skip s image, regs <:+ all → image.length = totalExpandedValues fields →
      ∃ s' image' errors, readBatchedIo ask skip regs s image = some (s', image', errors) ∧
        image'.length = image.length ∧
        ∀ i, (∀ reg ∈ regs, reg.ioIdx ≠ i) → image'[i]? = image[i]? := by
  induction regs with
  | nil =>
    intro skip s image _ _
    exact ⟨s, image, [], by simp [readBatchedIo], rfl, fun _ _ => rfl⟩
  | cons first rest ih =>
    intro skip s image hsuffix himage
    have hrest : rest <:+ all := (List.suffix_cons first rest).trans hsuffix
    cases skip with
    | succ skip =>
      obtain ⟨s', image', errors, hok, hl, hsame⟩ := ih skip s image hrest himage
      exact ⟨s', image', errors, hok, hl, fun i hi => hsame i fun reg hreg =>
        hi reg (List.mem_cons_of_mem first hreg)⟩
    | zero =>
      cases hkind : first.kind.readKind with
      | none =>
        obtain ⟨s', image', errors, hok, hl, hsame⟩ := ih 0 s image hrest himage
        refine ⟨s', image', errors, by simpa only [readBatchedIo, hkind] using hok, hl, fun i hi => ?_⟩
        exact hsame i fun reg hreg => hi reg (List.mem_cons_of_mem first hreg)
      | some kind =>
        obtain ⟨n, hn⟩ := haddress first rest hsuffix
        cases hask : ask s (.read kind first.address n.toUInt16) with
        | mk s₁ result =>
          obtain ⟨image₁, hbatch, hl₁, hsame₁, -⟩ := readBatch_ok
            ⟨all, first, rest, kind, hall, hsuffix, rfl, hkind, hn, rfl⟩ himage
            fun reply h => hanswered s _ reply (by rw [hask]; exact h)
          obtain ⟨s', image', errors, hok, hl, hsame⟩ := ih (n - 1) s₁ image₁ hrest (hl₁.trans himage)
          refine ⟨s', image', match result with
            | .error msg => msg :: errors
            | .ok _ => errors, ?_, hl.trans hl₁, fun i hi => ?_⟩
          · simp only [readBatchedIo, hkind, Option.bind_eq_bind, hn, hask, Option.bind_some, hbatch, hok,
              Option.pure_def]
            cases result <;> rfl
          · rw [hsame i fun reg hreg => hi reg (List.mem_cons_of_mem first hreg)]
            exact hsame₁ i fun reg hreg => hi reg (List.mem_of_mem_take hreg)

/-- **Only a response to the request is accepted** by the two clients exactly
when the bytes that arrive contain no other frame the client takes for one. -/
theorem accepts_only_iff :
    (∀ slaveId r x, AcceptsOnly r (rtuRun slaveId r x) (RtuAnswered slaveId r x.received) ↔
      RtuConsistent slaveId r x.received) ∧
    (∀ transactionId unitId r x,
      AcceptsOnly r (tcpRun transactionId unitId r x).2 (TcpAnswered (transactionId + 1) unitId r x) ↔
        TcpConsistent (transactionId + 1) unitId r x) := by
  constructor
  · intro slaveId r x
    rw [← rtu_answered_iff]
    refine ⟨fun h => h.response, fun h => ⟨h, fun fields regs n image hr himage => ?_⟩⟩
    refine readBatch_ok hr himage fun reply hok => ?_
    obtain ⟨body, -, hbody, hreply⟩ := h reply hok
    exact ⟨body, hbody, hreply⟩
  · intro transactionId unitId r x
    rw [← tcp_answered_iff]
    refine ⟨fun h => h.response, fun h => ⟨h, fun fields regs n image hr himage => ?_⟩⟩
    refine readBatch_ok hr himage fun reply hok => ?_
    obtain ⟨t1, t2, p1, p2, body, -, -, -, hbody, hreply⟩ := h reply hok
    exact ⟨body, hbody, hreply⟩

/-- The late reply to transaction 1, which the next request gets. -/
def lateReply : TcpExchange where
  current := some ⟨none, [0, 1, 0, 0, 0, 5, 1, 0x03, 2, 0, 7], "timeout"⟩
  reconnect := .error "refused"

/-- Two registers for a request of one, with a valid checksum. -/
def surplusReply : SerialExchange where
  setup := none
  reads := [.data (rtuFrame 1 [0x03, 4, 0, 7, 0, 8])]
  timeout := "100ms"

/-- A device with one register. -/
def oneRegister : List ProfileField :=
  [⟨"SPEED", .int, .input, some ⟨0, .holdingRegister, none, none⟩, 1⟩]

omit [F64Ops] in
/-- A late reply over TCP is taken for the answer to the next request, and over
RTU a register too many stops the read pass. -/
theorem late_and_surplus_accepted :
    ¬ @AcceptsOnly default (.read .holdingRegisters 0 1)
        (tcpRun 1 1 (.read .holdingRegisters 0 1) lateReply).2
        (TcpAnswered 2 1 (.read .holdingRegisters 0 1) lateReply) ∧
      ¬ @AcceptsOnly default (.read .holdingRegisters 0 1)
        (rtuRun 1 (.read .holdingRegisters 0 1) surplusReply)
        (RtuAnswered 1 (.read .holdingRegisters 0 1) surplusReply.received) := by
  constructor
  · intro h
    have hdelivered : lateReply.Delivers 0 1 0 0 1 [0x03, 2, 0, 7] :=
      .inl ⟨_, rfl, rfl, ⟨0, 5, [], rfl, rfl⟩, by decide⟩
    obtain ⟨t1, t2, p1, p2, body, hd, hid, -⟩ :=
      @AcceptsOnly.response default _ _ _ h (.registers [7]) rfl
    obtain ⟨rfl, rfl, -⟩ := hdelivered.eq hd
    exact absurd hid (by decide)
  · intro h
    obtain ⟨image', hok, -⟩ := @AcceptsOnly.image default _ _ _ h oneRegister
      [⟨0, 0, .holdingRegister, .int, ⟨0, .holdingRegister, none, none⟩⟩] 1 [.int 0]
      ⟨_, _, _, _, rfl, List.suffix_refl _, rfl, rfl, rfl, rfl⟩ rfl
    have hsurplus : rtuRun 1 (.read .holdingRegisters 0 1) surplusReply = .ok (.registers [7, 8]) := by
      decide +kernel
    rw [hsurplus] at hok
    exact absurd hok (by simp [readBatch, storeReply, storeEach])

end

end RustPlc.Devices
