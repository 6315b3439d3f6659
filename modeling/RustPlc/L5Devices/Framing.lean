import Mathlib.Tactic.Common
import RustPlc.L5Devices.Modbus

/-!
# Reading a frame from a stream

`SerialTransport::transaction_framed` asks the parser of a protocol after every
read of the port whether the frame is complete. Reads deliver bytes in pieces
of any size, or nothing.

Results:
* `receive_ok`: a frame that is returned is the start of what was read, and the
  parser found it complete;
* `receive_complete`: a parser that asks for more bytes until the frame is there
  gets it, however the bytes are cut into reads.
-/
namespace RustPlc.Devices

/-- mirrors crates/st-comm-serial/src/framing.rs:32-41 -/
inductive FrameStatus where
  | complete (len : Nat)
  | need (total : Nat)
  | invalid (msg : String)
  deriving DecidableEq, Repr

/-- A read of the port. -/
inductive PortRead where
  | data (bytes : Bytes)
  | nothing
  | fault (msg : String)

/-- An exchange on the serial line: an error before the first read (the port is
not open, a buffer cannot be cleared, the request cannot be written), the reads
until the deadline, and the timeout as `{:?}` prints it. -/
structure SerialExchange where
  setup : Option String
  reads : List PortRead
  timeout : String

section

variable (parse : Bytes → FrameStatus) (capacity : Nat)

/-- What the transport makes of the parser's answer: the frame, or the number
of bytes to wait for.
mirrors crates/st-comm-serial/src/transport.rs:332-369 -/
def consult (buf : Bytes) : Except String (Bytes ⊕ Nat) :=
  match parse buf with
  | .complete n =>
    if buf.length < n then
      .error ("FrameParser returned Complete(" ++ toString n ++ ") but only " ++
        toString buf.length ++ " bytes were read")
    else .ok (.inl (buf.take n))
  | .invalid msg => .error msg
  | .need total =>
    if capacity < total then
      .error ("Frame requires " ++ toString total ++ " bytes, response buffer is " ++
        toString capacity ++ " bytes")
    else if total ≤ buf.length then
      .error ("FrameParser asked for Need(" ++ toString total ++ ") but already have " ++
        toString buf.length ++ " bytes — parser must request strictly more than current length")
    else .ok (.inr total)

/-- The reads of a transaction that waits for `total` bytes. A read takes what
the buffer has room for; the rest is not asked for any more.
mirrors crates/st-comm-serial/src/transport.rs:370-404 -/
def receive (timeout : String) : List PortRead → Nat → Bytes → Except String Bytes
  | [], total, buf =>
    .error ("Receive timeout: got " ++ toString buf.length ++ " of expected " ++ toString total ++
      "+ bytes within " ++ timeout)
  | .nothing :: reads, total, buf => receive timeout reads total buf
  | .fault msg :: _, _, _ => .error ("Serial read error: " ++ msg)
  | .data bytes :: reads, total, buf =>
    let buf' := buf ++ bytes.take (capacity - buf.length)
    if buf'.length < total then receive timeout reads total buf'
    else match consult parse capacity buf' with
      | .error msg => .error msg
      | .ok (.inl frame) => .ok frame
      | .ok (.inr total') => receive timeout reads total' buf'

/-- mirrors crates/st-comm-serial/src/transport.rs:296-407 -/
def transactionFramed (x : SerialExchange) : Except String Bytes :=
  match x.setup with
  | some msg => .error msg
  | none => match consult parse capacity [] with
    | .error msg => .error msg
    | .ok (.inl frame) => .ok frame
    | .ok (.inr total) => receive parse capacity x.timeout x.reads total []

end

/-- The bytes of the reads up to the first one that failed. -/
def readBytes : List PortRead → Bytes
  | [] => []
  | .nothing :: reads => readBytes reads
  | .fault _ :: _ => []
  | .data bytes :: reads => bytes ++ readBytes reads

/-- What can be read during the exchange. -/
def SerialExchange.received (x : SerialExchange) : Bytes :=
  if x.setup.isSome then [] else readBytes x.reads

section

variable {parse : Bytes → FrameStatus} {capacity : Nat}

theorem consult_frame {buf frame : Bytes} (h : consult parse capacity buf = .ok (.inl frame)) :
    ∃ n, parse buf = .complete n ∧ n ≤ buf.length ∧ frame = buf.take n := by
  unfold consult at h
  cases hp : parse buf with
  | complete n =>
    simp only [hp] at h
    split at h
    · cases h
    · next hn =>
      simp only [Except.ok.injEq, Sum.inl.injEq] at h
      exact ⟨n, rfl, by omega, h.symm⟩
  | need total =>
    simp only [hp] at h
    split at h
    · cases h
    · split at h <;> cases h
  | invalid msg => simp [hp] at h

theorem consult_need {buf : Bytes} {total : Nat} (h : consult parse capacity buf = .ok (.inr total)) :
    parse buf = .need total ∧ buf.length < total ∧ total ≤ capacity := by
  unfold consult at h
  cases hp : parse buf with
  | complete n =>
    simp only [hp] at h
    split at h <;> cases h
  | need total' =>
    simp only [hp] at h
    split at h
    · cases h
    · split at h
      · cases h
      · simp only [Except.ok.injEq, Sum.inr.injEq] at h
        subst h
        exact ⟨rfl, by omega, by omega⟩
  | invalid msg => simp [hp] at h

/-- The frame is the start of the bytes read, and complete for the parser when
the first `k` of them had been read. -/
theorem receive_ok {timeout : String} {frame : Bytes} (reads : List PortRead) :
    ∀ (total : Nat) (buf : Bytes), total ≤ capacity → buf.length ≤ capacity →
      receive parse capacity timeout reads total buf = .ok frame →
      ∃ k n, parse ((buf ++ readBytes reads).take k) = .complete n ∧ n ≤ k ∧ k ≤ capacity ∧
        k ≤ (buf ++ readBytes reads).length ∧ frame = (buf ++ readBytes reads).take n := by
  induction reads with
  | nil =>
    intro total buf _ _ h
    cases h
  | cons r reads ih =>
    intro total buf htotal hbuf h
    cases r with
    | nothing => exact ih total buf htotal hbuf h
    | fault msg => cases h
    | data bytes =>
      simp only [receive] at h
      generalize hbuf' : buf ++ bytes.take (capacity - buf.length) = buf' at h
      have hstart : buf' <+: buf ++ readBytes (.data bytes :: reads) := by
        rw [← hbuf', readBytes, ← List.append_assoc]
        exact ((List.prefix_append_right_inj buf).mpr (List.take_prefix _ bytes)).trans
          (List.prefix_append _ _)
      have hfit : buf'.length ≤ capacity := by
        rw [← hbuf', List.length_append, List.length_take]
        omega
      -- what the buffer has no room for is never waited for
      have hroom : ∀ total', total' ≤ capacity → buf'.length < total' →
          buf ++ readBytes (.data bytes :: reads) = buf' ++ readBytes reads := by
        intro total' htotal hlt
        rw [← hbuf'] at hlt ⊢
        rw [List.length_append, List.length_take] at hlt
        rw [List.take_of_length_le (by omega), readBytes, List.append_assoc]
      split at h
      · next hlt =>
        rw [hroom total htotal hlt]
        exact ih total buf' htotal hfit h
      · cases hc : consult parse capacity buf' with
        | error msg => simp [hc] at h
        | ok r =>
          cases r with
          | inl frame' =>
            simp only [hc, Except.ok.injEq] at h
            obtain ⟨n, hp, hn, hframe⟩ := consult_frame hc
            have htake := List.prefix_iff_eq_take.mp hstart
            refine ⟨buf'.length, n, htake ▸ hp, hn, hfit, hstart.length_le, ?_⟩
            rw [← h, hframe, htake, List.take_take, Nat.min_eq_left hn]
          | inr total' =>
            simp only [hc] at h
            obtain ⟨-, hlt, htotal'⟩ := consult_need hc
            rw [hroom total' htotal' hlt]
            exact ih total' buf' htotal' hfit h

/-- A parser that asks for more until `n` bytes of `whole` are there, and then
reports them as the frame. -/
structure FramesAt (parse : Bytes → FrameStatus) (whole : Bytes) (n : Nat) : Prop where
  length : n ≤ whole.length
  need : ∀ k < n, ∃ total, parse (whole.take k) = .need total ∧ k < total ∧ total ≤ n
  complete : ∀ k, n ≤ k → parse (whole.take k) = .complete n

theorem FramesAt.consult {whole : Bytes} {n : Nat} (h : FramesAt parse whole n) (hn : n ≤ capacity)
    {buf : Bytes} (hbuf : buf <+: whole) :
    (n ≤ buf.length → consult parse capacity buf = .ok (.inl (whole.take n))) ∧
      (buf.length < n → ∃ total ≤ n, consult parse capacity buf = .ok (.inr total)) := by
  have htake := List.prefix_iff_eq_take.mp hbuf
  constructor
  · intro hlen
    have hc := h.complete buf.length hlen
    rw [← htake] at hc
    rw [Devices.consult, hc]
    simp only [if_neg (Nat.not_lt.mpr hlen)]
    rw [htake, List.take_take, Nat.min_eq_left hlen]
  · intro hlen
    obtain ⟨total, hp, hk, hle⟩ := h.need buf.length hlen
    rw [← htake] at hp
    refine ⟨total, hle, ?_⟩
    rw [Devices.consult, hp]
    simp only [if_neg (show ¬ capacity < total by omega), if_neg (Nat.not_le.mpr hk)]

/-- The frame is found however the bytes are cut into reads. -/
theorem receive_complete {timeout : String} {whole : Bytes} {n : Nat} (hf : FramesAt parse whole n)
    (hn : n ≤ capacity) (reads : List PortRead) :
    ∀ (total : Nat) (buf : Bytes), total ≤ n → buf.length < n → whole = buf ++ readBytes reads →
      receive parse capacity timeout reads total buf = .ok (whole.take n) := by
  induction reads with
  | nil =>
    intro total buf _ hbuf hw
    have := hf.length
    rw [hw, readBytes, List.append_nil] at this
    omega
  | cons r reads ih =>
    intro total buf htotal hbuf hw
    cases r with
    | nothing => exact ih total buf htotal hbuf hw
    | fault msg =>
      have := hf.length
      rw [hw, readBytes, List.append_nil] at this
      omega
    | data bytes =>
      simp only [receive]
      generalize hbuf' : buf ++ bytes.take (capacity - buf.length) = buf'
      have hstart : buf' <+: whole := by
        rw [hw, ← hbuf', readBytes, ← List.append_assoc]
        exact ((List.prefix_append_right_inj buf).mpr (List.take_prefix _ bytes)).trans
          (List.prefix_append _ _)
      have hroom : buf'.length < n → whole = buf' ++ readBytes reads := by
        intro hlt
        rw [← hbuf', List.length_append, List.length_take] at hlt
        rw [hw, ← hbuf', List.take_of_length_le (by omega), readBytes, List.append_assoc]
      split
      · next hlt => exact ih total buf' htotal (by omega) (hroom (by omega))
      · by_cases hlen : n ≤ buf'.length
        · rw [(hf.consult hn hstart).1 hlen]
        · obtain ⟨total', htotal', hc⟩ := (hf.consult hn hstart).2 (by omega)
          rw [hc]
          exact ih total' buf' htotal' (by omega) (hroom (by omega))

/-- **A frame that is returned is the start of what was received**, and the
parser found it complete. -/
theorem transactionFramed_ok {x : SerialExchange} {frame : Bytes}
    (h : transactionFramed parse capacity x = .ok frame) :
    ∃ k n, parse (x.received.take k) = .complete n ∧ n ≤ k ∧ k ≤ capacity ∧
      k ≤ x.received.length ∧ frame = x.received.take n := by
  unfold transactionFramed at h
  cases hs : x.setup with
  | some msg => simp [hs] at h
  | none =>
    simp only [hs] at h
    have hr : x.received = readBytes x.reads := by simp [SerialExchange.received, hs]
    rw [hr]
    cases hc : consult parse capacity [] with
    | error msg => simp [hc] at h
    | ok r =>
      cases r with
      | inl frame' =>
        simp only [hc, Except.ok.injEq] at h
        obtain ⟨n, hp, hn, hframe⟩ := consult_frame hc
        refine ⟨0, n, by simpa using hp, hn, Nat.zero_le _, Nat.zero_le _, ?_⟩
        obtain rfl : n = 0 := Nat.le_zero.mp hn
        simp [← h, hframe]
      | inr total =>
        simp only [hc] at h
        exact receive_ok x.reads total [] (consult_need hc).2.2 (Nat.zero_le _) h

/-- **A frame that is there is returned.** -/
theorem transactionFramed_complete {x : SerialExchange} {n : Nat} (hs : x.setup = none)
    (hf : FramesAt parse x.received n) (hn : n ≤ capacity) (hpos : 0 < n) :
    transactionFramed parse capacity x = .ok (x.received.take n) := by
  have hr : x.received = readBytes x.reads := by simp [SerialExchange.received, hs]
  obtain ⟨total, htotal, hc⟩ := (hf.consult hn (List.nil_prefix)).2 hpos
  rw [transactionFramed, hs]
  simp only [hc]
  exact receive_complete hf hn x.reads total [] htotal hpos hr

end

end RustPlc.Devices
