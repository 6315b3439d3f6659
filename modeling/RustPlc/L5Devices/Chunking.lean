import RustPlc.L5Devices.ModbusClient

/-!
# Framing and the cutting of the stream

A parser sees the buffer after every read that reached its last milestone, so it
sees some of the prefixes of the stream. When what it has decided stays decided, and
what it asks for is never more than the frame, it does not matter which.

The RTU parser decides by the header. The UPP parser looks for the carriage return
and gives up at 64 bytes without one, but it looks first: a carriage return behind
those 64 bytes is found when it arrives together with them.

Results:
* `Settled.framesAt`, `results_agree`: what a parser needs for the cutting not to matter;
* `RtuFrameParser.settled`, `uppParse_settled`: when the two parsers have it;
* `framing_law_iff`: the milestones, and when what is decided stays and the cutting
  does not matter.
-/
namespace RustPlc.Devices

/-! ## Parsers that stay with their decision -/

/-- The parser asks for more than it has, and ends a frame in what it has. -/
structure Milestones (parse : Bytes → FrameStatus) : Prop where
  need : ∀ buf total, parse buf = .need total → buf.length < total
  complete : ∀ buf n, parse buf = .complete n → n ≤ buf.length

def FrameStatus.isFinal : FrameStatus → Bool
  | .need _ => false
  | _ => true

/-- What is decided at one prefix of the stream is decided at every longer one. -/
def StaysDecided (parse : Bytes → FrameStatus) (whole : Bytes) : Prop :=
  ∀ k l, k ≤ l → (parse (whole.take k)).isFinal = true → parse (whole.take l) = parse (whole.take k)

/-- No milestone lies behind the frame. -/
def AsksNoMore (parse : Bytes → FrameStatus) (whole : Bytes) : Prop :=
  ∀ k l total n, k ≤ l → parse (whole.take k) = .need total → parse (whole.take l) = .complete n →
    total ≤ n

/-- What makes a parser independent of the cutting of one stream. -/
structure Settled (parse : Bytes → FrameStatus) (whole : Bytes) : Prop where
  milestones : Milestones parse
  stays : StaysDecided parse whole
  asks : AsksNoMore parse whole

section

variable {parse : Bytes → FrameStatus} {whole : Bytes} {capacity : Nat}

/-- A frame that is found at one prefix is waited for before it is there, and found
from then on. -/
theorem Settled.framesAt (h : Settled parse whole) {k n : Nat}
    (hc : parse (whole.take k) = .complete n) : FramesAt parse whole n := by
  have hn : n ≤ (whole.take k).length := h.milestones.complete _ _ hc
  rw [List.length_take] at hn
  have hfinal : (parse (whole.take k)).isFinal = true := by rw [hc]; rfl
  refine ⟨by omega, fun j hj => ?_, fun j hj => ?_⟩
  · cases hp : parse (whole.take j) with
    | need total =>
      have hlt := h.milestones.need _ _ hp
      rw [List.length_take] at hlt
      exact ⟨total, rfl, by omega, h.asks j k total n (by omega) hp hc⟩
    | complete m =>
      have hm := h.milestones.complete _ _ hp
      have hsame := h.stays j k (by omega) (by rw [hp]; rfl)
      rw [hc, hp] at hsame
      rw [List.length_take] at hm
      cases hsame
      omega
    | invalid msg =>
      have hsame := h.stays j k (by omega) (by rw [hp]; rfl)
      rw [hc, hp] at hsame
      cases hsame
  · by_cases hjk : k ≤ j
    · exact (h.stays k j hjk hfinal).trans hc
    · cases hp : parse (whole.take j) with
      | need total =>
        have hlt := h.milestones.need _ _ hp
        rw [List.length_take] at hlt
        have := h.asks j k total n (by omega) hp hc
        omega
      | complete m =>
        have hsame := h.stays j k (by omega) (by rw [hp]; rfl)
        rw [hc, hp] at hsame
        exact hsame.symm
      | invalid msg =>
        have hsame := h.stays j k (by omega) (by rw [hp]; rfl)
        rw [hc, hp] at hsame
        cases hsame

/-! ## Cutting the stream -/

/-- The same frame, or an error in both cases. -/
def SameResult (r r' : Except String Bytes) : Prop :=
  ∀ frame, r = .ok frame ↔ r' = .ok frame

/-- The stream arrives in these reads before the deadline. -/
def arriving (timeout : String) (chunks : List Bytes) : SerialExchange :=
  ⟨none, chunks.map .data, timeout⟩

def bytewise (whole : Bytes) : List Bytes := whole.map fun b => [b]

/-- The result does not depend on how the stream is cut into reads. -/
def ChunkFree (parse : Bytes → FrameStatus) (capacity : Nat) (whole : Bytes) : Prop :=
  ∀ (timeout : String) (chunks : List Bytes), (∀ c ∈ chunks, c ≠ []) → chunks.flatten = whole →
    SameResult (transactionFramed parse capacity (arriving timeout chunks))
      (transactionFramed parse capacity (arriving timeout (bytewise whole)))

theorem arriving_received (timeout : String) (chunks : List Bytes) :
    (arriving timeout chunks).received = chunks.flatten := by
  have hread : ∀ cs : List Bytes, readBytes (cs.map .data) = cs.flatten := by
    intro cs
    induction cs with
    | nil => rfl
    | cons c cs ih => rw [List.map_cons, readBytes, ih, List.flatten_cons]
  exact hread chunks

theorem bytewise_flatten (whole : Bytes) : (bytewise whole).flatten = whole := by
  induction whole with
  | nil => rfl
  | cons b whole ih => exact congrArg (b :: ·) ih

/-- A stream in which every frame that is found within the buffer is found for good
gives the same result in all its cuttings. -/
theorem results_agree (hpos : ∀ n, parse [] ≠ .complete n)
    (h : ∀ k n, k ≤ capacity → parse (whole.take k) = .complete n → FramesAt parse whole n)
    {timeout timeout' : String} {chunks chunks' : List Bytes}
    (hc : chunks.flatten = whole) (hc' : chunks'.flatten = whole) :
    SameResult (transactionFramed parse capacity (arriving timeout chunks))
      (transactionFramed parse capacity (arriving timeout' chunks')) := by
  have hone : ∀ {t t' : String} {cs cs' : List Bytes} {frame : Bytes}, cs.flatten = whole →
      cs'.flatten = whole → transactionFramed parse capacity (arriving t cs) = .ok frame →
      transactionFramed parse capacity (arriving t' cs') = .ok frame := by
    intro t t' cs cs' frame hcs hcs' hok
    obtain ⟨k, n, hp, hnk, hcap, -, rfl⟩ := transactionFramed_ok hok
    rw [arriving_received, hcs] at hp ⊢
    have hn : 0 < n := by
      apply Nat.pos_of_ne_zero
      intro h0
      subst h0
      exact hpos 0 ((h k 0 hcap hp).complete 0 (Nat.le_refl 0))
    have hwhole := transactionFramed_complete (x := arriving t' cs') rfl
      (by rw [arriving_received, hcs']; exact h k n hcap hp) (Nat.le_trans hnk hcap) hn
    rwa [arriving_received, hcs'] at hwhole
  exact fun frame => ⟨hone hc hc', hone hc' hc⟩

end

/-! ## The RTU parser -/

/-- mirrors crates/st-comm-modbus/src/frame_parser.rs:31-39 -/
structure RtuFrameParser where
  expectedSlaveId : Option UInt8
  expectedFc : Option UInt8

namespace RtuFrameParser

/-- mirrors crates/st-comm-modbus/src/frame_parser.rs:47-52 -/
def forRequest (slaveId fc : UInt8) : RtuFrameParser := ⟨some slaveId, some (fc &&& 0x7F)⟩

/-- Slave and function code are compared as soon as they are there. -/
def mismatch (p : RtuFrameParser) : Bytes → Option String
  | [] => none
  | got :: rest =>
    match p.expectedSlaveId with
    | some expected =>
      if got ≠ expected then
        some ("Slave ID mismatch: expected 0x" ++ upperHexByte expected ++ ", got 0x" ++
          upperHexByte got)
      else fcMismatch rest
    | none => fcMismatch rest
where
  fcMismatch : Bytes → Option String
    | [] => none
    | fc :: _ =>
      match p.expectedFc with
      | some expected =>
        if fc &&& 0x7F ≠ expected then
          some ("Function code mismatch: expected 0x" ++ upperHexByte expected ++
            " (or exception), got 0x" ++ upperHexByte fc)
        else none
      | none => none

/-- Wait for `total` bytes, or end the frame with them. -/
def upTo (buf : Bytes) (total : Nat) : FrameStatus :=
  if buf.length < total then .need total else .complete total

/-- The length of a frame by its function code and what follows it.
mirrors crates/st-comm-modbus/src/frame_parser.rs:101-135 -/
def byFunctionCode (buf : Bytes) (fc : UInt8) (rest : Bytes) : FrameStatus :=
  if fc &&& 0x80 ≠ 0 then upTo buf 5
  else if fc ∈ [0x01, 0x02, 0x03, 0x04] then
    match rest with
    | [] => .need 3
    | byteCount :: _ => upTo buf (3 + byteCount.toNat + 2)
  else if fc ∈ [0x05, 0x06, 0x0F, 0x10] then upTo buf 8
  else .invalid ("Unrecognised Modbus function code 0x" ++ upperHexByte fc ++ " in response")

/-- mirrors crates/st-comm-modbus/src/frame_parser.rs:71-136 -/
def parse (p : RtuFrameParser) (buf : Bytes) : FrameStatus :=
  match p.mismatch buf with
  | some msg => .invalid msg
  | none =>
    match buf with
    | _ :: fc :: rest => byFunctionCode buf fc rest
    | _ => .need 2

theorem upTo_need {buf : Bytes} {total n : Nat} (h : upTo buf n = .need total) :
    total = n ∧ buf.length < n := by
  unfold upTo at h
  split at h
  · cases h
    exact ⟨rfl, by assumption⟩
  · cases h

theorem upTo_complete {buf : Bytes} {total n : Nat} (h : upTo buf n = .complete total) :
    total = n ∧ n ≤ buf.length := by
  unfold upTo at h
  split at h
  · cases h
  · cases h
    exact ⟨rfl, by omega⟩

theorem upTo_append {buf : Bytes} {n : Nat} (ext : Bytes) (h : (upTo buf n).isFinal = true) :
    upTo (buf ++ ext) n = upTo buf n := by
  unfold upTo at h ⊢
  split at h
  · cases h
  · next hlen => rw [if_neg hlen, if_neg (by rw [List.length_append]; omega)]

theorem mismatch_append {p : RtuFrameParser} {buf : Bytes} {msg : String} (ext : Bytes)
    (h : p.mismatch buf = some msg) : p.mismatch (buf ++ ext) = some msg := by
  match buf with
  | [] => cases h
  | [got] =>
    simp only [mismatch, mismatch.fcMismatch, List.cons_append] at h ⊢
    split at h
    · split at h
      · next hne => rw [if_pos hne]; exact h
      · cases h
    · cases h
  | _ :: _ :: _ => exact h

theorem parse_mismatch {p : RtuFrameParser} {buf : Bytes} {msg : String}
    (h : p.mismatch buf = some msg) : p.parse buf = .invalid msg := by
  unfold parse
  rw [h]

/-- What is left of the parser once slave and function code are right. -/
theorem parse_header {p : RtuFrameParser} {a fc : UInt8} {rest : Bytes}
    (h : p.mismatch (a :: fc :: rest) = none) :
    p.parse (a :: fc :: rest) = byFunctionCode (a :: fc :: rest) fc rest := by
  unfold parse
  rw [h]

theorem parse_short {p : RtuFrameParser} {buf : Bytes} (h : p.mismatch buf = none)
    (hlen : buf.length < 2) : p.parse buf = .need 2 := by
  unfold parse
  rw [h]
  match buf, hlen with
  | [], _ => rfl
  | [_], _ => rfl

theorem two_le {buf : Bytes} (h : ¬ buf.length < 2) : ∃ a fc rest, buf = a :: fc :: rest := by
  match buf, h with
  | a :: fc :: rest, _ => exact ⟨a, fc, rest, rfl⟩
  | [], h => exact absurd (by decide) h
  | [_], h => exact absurd (Nat.lt_succ_self 1) h

theorem byFunctionCode_need {buf rest : Bytes} {fc : UInt8} {total : Nat}
    (hlen : buf.length = rest.length + 2) (h : byFunctionCode buf fc rest = .need total) :
    buf.length < total := by
  unfold byFunctionCode at h
  split at h
  · obtain ⟨rfl, hlt⟩ := upTo_need h
    exact hlt
  · split at h
    · split at h
      · cases h
        rw [hlen, List.length_nil]
        omega
      · obtain ⟨rfl, hlt⟩ := upTo_need h
        exact hlt
    · split at h
      · obtain ⟨rfl, hlt⟩ := upTo_need h
        exact hlt
      · cases h

theorem byFunctionCode_complete {buf rest : Bytes} {fc : UInt8} {n : Nat}
    (h : byFunctionCode buf fc rest = .complete n) : n ≤ buf.length ∧ 5 ≤ n := by
  unfold byFunctionCode at h
  split at h
  · obtain ⟨rfl, hle⟩ := upTo_complete h
    exact ⟨hle, by omega⟩
  · split at h
    · split at h
      · cases h
      · obtain ⟨rfl, hle⟩ := upTo_complete h
        exact ⟨hle, by omega⟩
    · split at h
      · obtain ⟨rfl, hle⟩ := upTo_complete h
        exact ⟨hle, by omega⟩
      · cases h

theorem byFunctionCode_append {buf rest : Bytes} {fc : UInt8} (ext : Bytes)
    (h : (byFunctionCode buf fc rest).isFinal = true) :
    byFunctionCode (buf ++ ext) fc (rest ++ ext) = byFunctionCode buf fc rest := by
  unfold byFunctionCode at h ⊢
  by_cases hexception : fc &&& 0x80 ≠ 0
  · rw [if_pos hexception] at h ⊢
    rw [if_pos hexception]
    exact upTo_append ext h
  · rw [if_neg hexception] at h ⊢
    rw [if_neg hexception]
    by_cases hread : fc ∈ [0x01, 0x02, 0x03, 0x04]
    · rw [if_pos hread] at h ⊢
      rw [if_pos hread]
      match rest with
      | [] => cases h
      | _ :: _ => exact upTo_append ext h
    · rw [if_neg hread] at h ⊢
      rw [if_neg hread]
      by_cases hwrite : fc ∈ [0x05, 0x06, 0x0F, 0x10]
      · rw [if_pos hwrite] at h ⊢
        rw [if_pos hwrite]
        exact upTo_append ext h
      · rw [if_neg hwrite, if_neg hwrite]

theorem byFunctionCode_asks {buf rest ext : Bytes} {fc : UInt8} {total n : Nat}
    (h : byFunctionCode buf fc rest = .need total)
    (hc : byFunctionCode (buf ++ ext) fc (rest ++ ext) = .complete n) : total ≤ n := by
  have hfive := (byFunctionCode_complete hc).2
  unfold byFunctionCode at h hc
  by_cases hexception : fc &&& 0x80 ≠ 0
  · rw [if_pos hexception] at h hc
    exact Nat.le_of_eq ((upTo_need h).1.trans (upTo_complete hc).1.symm)
  · rw [if_neg hexception] at h hc
    by_cases hread : fc ∈ [0x01, 0x02, 0x03, 0x04]
    · rw [if_pos hread] at h hc
      match rest with
      | [] =>
        cases h
        omega
      | _ :: _ => exact Nat.le_of_eq ((upTo_need h).1.trans (upTo_complete hc).1.symm)
    · rw [if_neg hread] at h hc
      by_cases hwrite : fc ∈ [0x05, 0x06, 0x0F, 0x10]
      · rw [if_pos hwrite] at h hc
        exact Nat.le_of_eq ((upTo_need h).1.trans (upTo_complete hc).1.symm)
      · rw [if_neg hwrite] at h
        cases h

theorem milestones (p : RtuFrameParser) : Milestones p.parse where
  need := fun buf total h => by
    cases hm : p.mismatch buf with
    | some msg =>
      rw [parse_mismatch hm] at h
      cases h
    | none =>
      by_cases hlen : buf.length < 2
      · rw [parse_short hm hlen] at h
        cases h
        exact hlen
      · obtain ⟨a, fc, rest, rfl⟩ := two_le hlen
        rw [parse_header hm] at h
        exact byFunctionCode_need rfl h
  complete := fun buf n h => by
    cases hm : p.mismatch buf with
    | some msg =>
      rw [parse_mismatch hm] at h
      cases h
    | none =>
      by_cases hlen : buf.length < 2
      · rw [parse_short hm hlen] at h
        cases h
      · obtain ⟨a, fc, rest, rfl⟩ := two_le hlen
        rw [parse_header hm] at h
        exact (byFunctionCode_complete h).1

/-- **What the parser has decided stays decided.** -/
theorem parse_append {p : RtuFrameParser} {buf : Bytes} (ext : Bytes)
    (h : (p.parse buf).isFinal = true) : p.parse (buf ++ ext) = p.parse buf := by
  cases hm : p.mismatch buf with
  | some msg => rw [parse_mismatch hm, parse_mismatch (mismatch_append ext hm)]
  | none =>
    by_cases hlen : buf.length < 2
    · rw [parse_short hm hlen] at h
      cases h
    · obtain ⟨a, fc, rest, rfl⟩ := two_le hlen
      have hm' : p.mismatch (a :: fc :: (rest ++ ext)) = none := hm
      rw [parse_header hm] at h ⊢
      exact (parse_header hm').trans (byFunctionCode_append ext h)

/-- No milestone lies behind the frame. -/
theorem parse_asks {p : RtuFrameParser} {buf ext : Bytes} {total n : Nat}
    (h : p.parse buf = .need total) (hc : p.parse (buf ++ ext) = .complete n) : total ≤ n := by
  cases hm : p.mismatch buf with
  | some msg =>
    rw [parse_mismatch hm] at h
    cases h
  | none =>
    by_cases hlen : buf.length < 2
    · rw [parse_short hm hlen] at h
      cases h
      cases hm' : p.mismatch (buf ++ ext) with
      | some msg =>
        rw [parse_mismatch hm'] at hc
        cases hc
      | none =>
        by_cases hlong : (buf ++ ext).length < 2
        · rw [parse_short hm' hlong] at hc
          cases hc
        · obtain ⟨a, fc, rest, hrest⟩ := two_le hlong
          rw [hrest] at hm' hc
          rw [parse_header hm'] at hc
          have := (byFunctionCode_complete hc).2
          omega
    · obtain ⟨a, fc, rest, rfl⟩ := two_le hlen
      have hm' : p.mismatch (a :: fc :: (rest ++ ext)) = none := hm
      rw [parse_header hm] at h
      exact byFunctionCode_asks h ((parse_header hm').symm.trans hc)

/-- **The RTU parser is settled on every stream.** -/
theorem settled (p : RtuFrameParser) (whole : Bytes) : Settled p.parse whole where
  milestones := p.milestones
  stays := fun k l hkl h => by
    obtain ⟨ext, hext⟩ := List.take_prefix_take_left (l := whole) hkl
    rw [← hext, parse_append ext h]
  asks := fun k l total n hkl h hc => by
    obtain ⟨ext, hext⟩ := List.take_prefix_take_left (l := whole) hkl
    rw [← hext] at hc
    exact parse_asks h hc

/-- The parser of the client is bound to its request. -/
theorem rtuParse_eq (slaveId fc : UInt8) (buf : Bytes) :
    rtuParse slaveId fc buf = (forRequest slaveId fc).parse buf := by
  cases buf with
  | nil => rfl
  | cons got rest =>
    by_cases hslave : got ≠ slaveId
    · simp [rtuParse, parse, mismatch, forRequest, hslave]
    · cases rest with
      | nil => simp [rtuParse, parse, mismatch, mismatch.fcMismatch, forRequest, hslave]
      | cons gotFc rest =>
        by_cases hfc : gotFc &&& 0x7F ≠ fc &&& 0x7F
        · simp [rtuParse, parse, mismatch, mismatch.fcMismatch, forRequest, hslave, hfc]
        · have hm : (forRequest slaveId fc).mismatch (got :: gotFc :: rest) = none := by
            simp [mismatch, mismatch.fcMismatch, forRequest, hslave, hfc]
          rw [parse_header hm]
          have hupTo : ∀ m, upTo (got :: gotFc :: rest) (m + 2) =
              if rest.length < m then .need (m + 2) else .complete (m + 2) := by
            intro m
            unfold upTo
            simp only [List.length_cons, Nat.add_lt_add_iff_right]
          unfold rtuParse byFunctionCode
          simp only [if_neg hslave, if_neg hfc, hupTo 3, hupTo 6]
          cases rest with
          | nil => rfl
          | cons byteCount rest =>
            have hbytes := hupTo (byteCount.toNat + 2 + 1)
            simp only [List.length_cons, Nat.add_lt_add_iff_right] at hbytes ⊢
            rw [show 3 + byteCount.toNat + 2 = byteCount.toNat + 2 + 1 + 2 by omega, hbytes]

end RtuFrameParser

/-! ## The UPP parser -/

/-- mirrors crates/st-comm-upp/src/command.rs:27 -/
def carriageReturn : UInt8 := 0x0D

/-- mirrors crates/st-comm-upp/src/frame_parser.rs:33 -/
def maxResponseLen : Nat := 64

/-- mirrors crates/st-comm-upp/src/frame_parser.rs:39-57 -/
def uppParse (buf : Bytes) : FrameStatus :=
  match buf.findIdx? (· == carriageReturn) with
  | some idx => .complete (idx + 1)
  | none =>
    if maxResponseLen ≤ buf.length then
      .invalid ("UPP response exceeded " ++ toString maxResponseLen ++ " bytes without CR")
    else .need (buf.length + 1)

/-- The buffer of the UPP client.
mirrors crates/st-comm-upp/src/client.rs:191 -/
def uppCapacity : Nat := maxResponseLen + 1

/-- The carriage return comes behind the first 64 bytes. -/
def LateReturn (whole : Bytes) : Prop :=
  carriageReturn ∈ whole ∧ carriageReturn ∉ whole.take maxResponseLen

instance (whole : Bytes) : Decidable (LateReturn whole) := inferInstanceAs (Decidable (_ ∧ _))

section

variable {buf whole : Bytes} {capacity : Nat}

theorem findIdx?_none : buf.findIdx? (· == carriageReturn) = none ↔ carriageReturn ∉ buf := by
  rw [List.findIdx?_eq_none_iff]
  exact ⟨fun h hm => by simpa using h _ hm, fun h b hb => by
    rw [beq_eq_false_iff_ne]
    intro he
    exact h (he ▸ hb)⟩

theorem uppParse_found {idx : Nat} (h : buf.findIdx? (· == carriageReturn) = some idx) :
    uppParse buf = .complete (idx + 1) := by
  unfold uppParse
  rw [h]

theorem uppParse_missing (h : carriageReturn ∉ buf) : uppParse buf =
    if maxResponseLen ≤ buf.length then
      .invalid ("UPP response exceeded " ++ toString maxResponseLen ++ " bytes without CR")
    else .need (buf.length + 1) := by
  unfold uppParse
  rw [findIdx?_none.mpr h]

theorem uppParse_complete {n : Nat} (h : uppParse buf = .complete n) :
    ∃ idx, buf.findIdx? (· == carriageReturn) = some idx ∧ n = idx + 1 := by
  cases hidx : buf.findIdx? (· == carriageReturn) with
  | some idx =>
    rw [uppParse_found hidx] at h
    cases h
    exact ⟨idx, rfl, rfl⟩
  | none =>
    rw [uppParse_missing (findIdx?_none.mp hidx)] at h
    split at h <;> cases h

theorem uppParse_need {total : Nat} (h : uppParse buf = .need total) :
    carriageReturn ∉ buf ∧ total = buf.length + 1 := by
  cases hidx : buf.findIdx? (· == carriageReturn) with
  | some idx =>
    rw [uppParse_found hidx] at h
    cases h
  | none =>
    have hmissing := findIdx?_none.mp hidx
    rw [uppParse_missing hmissing] at h
    split at h
    · cases h
    · cases h
      exact ⟨hmissing, rfl⟩

theorem found_append {idx : Nat} (ext : Bytes)
    (h : buf.findIdx? (· == carriageReturn) = some idx) :
    (buf ++ ext).findIdx? (· == carriageReturn) = some idx := by
  rw [List.findIdx?_append, h]
  rfl

theorem uppParse_milestones : Milestones uppParse where
  need := fun buf total h => by
    rw [(uppParse_need h).2]
    exact Nat.lt_succ_self _
  complete := fun buf n h => by
    obtain ⟨idx, hidx, rfl⟩ := uppParse_complete h
    exact (List.findIdx?_eq_some_iff_getElem.mp hidx).1

theorem uppParse_asks : AsksNoMore uppParse whole := by
  intro k l total n hkl h hc
  obtain ⟨hmissing, rfl⟩ := uppParse_need h
  obtain ⟨idx, hidx, rfl⟩ := uppParse_complete hc
  obtain ⟨ext, hext⟩ := List.take_prefix_take_left (l := whole) hkl
  rw [← hext, List.findIdx?_append, findIdx?_none.mpr hmissing, Option.none_or] at hidx
  obtain ⟨j, -, rfl⟩ := Option.map_eq_some_iff.mp hidx
  omega

theorem missing_of_short {k : Nat} (hlate : ¬ LateReturn whole)
    (hmissing : carriageReturn ∉ whole.take k) (hlen : maxResponseLen ≤ (whole.take k).length) :
    carriageReturn ∉ whole := by
  intro hmem
  refine hlate ⟨hmem, fun hin => hmissing ?_⟩
  rw [List.length_take] at hlen
  exact (List.take_prefix_take_left (l := whole) (show maxResponseLen ≤ k by omega)).subset hin

theorem uppParse_stays (hlate : ¬ LateReturn whole) : StaysDecided uppParse whole := by
  intro k l hkl h
  obtain ⟨ext, hext⟩ := List.take_prefix_take_left (l := whole) hkl
  cases hidx : (whole.take k).findIdx? (· == carriageReturn) with
  | some idx => rw [← hext, uppParse_found hidx, uppParse_found (found_append ext hidx)]
  | none =>
    have hmissing := findIdx?_none.mp hidx
    rw [uppParse_missing hmissing] at h ⊢
    split at h
    · next hlen =>
      have hnowhere := missing_of_short hlate hmissing hlen
      have hlen' : maxResponseLen ≤ (whole.take l).length := by
        rw [← hext, List.length_append]
        omega
      rw [uppParse_missing fun hm => hnowhere (List.mem_of_mem_take hm), if_pos hlen', if_pos hlen]
    · cases h

/-- **The UPP parser is settled on streams without a late carriage return.** -/
theorem uppParse_settled (hlate : ¬ LateReturn whole) : Settled uppParse whole where
  milestones := uppParse_milestones
  stays := uppParse_stays hlate
  asks := uppParse_asks

theorem LateReturn.long (h : LateReturn whole) : maxResponseLen < whole.length := by
  apply Nat.lt_of_not_le
  intro hle
  rw [LateReturn, List.take_of_length_le hle] at h
  exact h.2 h.1

theorem LateReturn.invalid (h : LateReturn whole) : ∃ msg,
    uppParse (whole.take maxResponseLen) = .invalid msg := by
  have hlen : maxResponseLen ≤ (whole.take maxResponseLen).length := by
    rw [List.length_take]
    have := h.long
    omega
  rw [uppParse_missing h.2, if_pos hlen]
  exact ⟨_, rfl⟩

theorem uppParse_mem (h : carriageReturn ∈ buf) : ∃ n, uppParse buf = .complete n := by
  cases hidx : buf.findIdx? (· == carriageReturn) with
  | some idx => exact ⟨idx + 1, uppParse_found hidx⟩
  | none => exact absurd h (findIdx?_none.mp hidx)

theorem uppParse_stays_iff : StaysDecided uppParse whole ↔ ¬ LateReturn whole := by
  refine ⟨fun h hlate => ?_, uppParse_stays⟩
  obtain ⟨msg, hmsg⟩ := hlate.invalid
  obtain ⟨n, hn⟩ := uppParse_mem hlate.1
  have hsame := h maxResponseLen whole.length (Nat.le_of_lt hlate.long) (by rw [hmsg]; rfl)
  rw [List.take_length, hn, hmsg] at hsame
  cases hsame

/-- Byte by byte the parser gives up before a late carriage return is there. -/
theorem bytewise_gives_up {timeout : String} (hcap : maxResponseLen ≤ capacity)
    (hearly : carriageReturn ∉ whole.take maxResponseLen) : ∀ (rest buf : Bytes),
      whole = buf ++ rest → buf.length < maxResponseLen →
        ∀ frame, receive uppParse capacity timeout ((bytewise rest).map .data) (buf.length + 1) buf ≠
          .ok frame
  | [], _, _, _, _ => by
    intro h
    cases h
  | b :: rest, buf, hw, hlen, frame => by
    have hroom : [b].take (capacity - buf.length) = [b] :=
      List.take_of_length_le (by simp only [List.length_singleton]; omega)
    have hlong : (buf ++ [b]).length = buf.length + 1 := by simp
    have hstart : buf ++ [b] <+: whole.take maxResponseLen := by
      refine List.prefix_take_iff.mpr ⟨⟨rest, ?_⟩, by omega⟩
      rw [hw, List.append_assoc]
      rfl
    have hmissing : carriageReturn ∉ buf ++ [b] := fun hm => hearly (hstart.subset hm)
    intro h
    rw [bytewise, List.map_cons, List.map_cons, receive, hroom, if_neg (by omega)] at h
    by_cases hfull : maxResponseLen ≤ (buf ++ [b]).length
    · rw [consult, uppParse_missing hmissing, if_pos hfull] at h
      cases h
    · rw [consult, uppParse_missing hmissing, if_neg hfull] at h
      simp only [if_neg (show ¬ capacity < (buf ++ [b]).length + 1 by omega),
        if_neg (Nat.not_succ_le_self _)] at h
      exact bytewise_gives_up hcap hearly rest (buf ++ [b]) (by rw [hw]; simp) (by omega) frame h

theorem uppParse_start (h : 0 < capacity) : consult uppParse capacity [] = .ok (.inr 1) := by
  rw [consult, uppParse_missing List.not_mem_nil, if_neg (by decide)]
  simp only [List.length_nil, if_neg (show ¬ capacity < 0 + 1 by omega)]
  rfl

/-- In one piece the same stream is a frame. -/
theorem one_piece_found (timeout : String) (hlate : LateReturn (whole.take capacity)) :
    ∃ frame, transactionFramed uppParse capacity (arriving timeout [whole]) = .ok frame := by
  obtain ⟨n, hn⟩ := uppParse_mem hlate.1
  have hle := uppParse_milestones.complete _ _ hn
  have hlong := hlate.long
  have hcap : (whole.take capacity).length ≤ capacity := by
    rw [List.length_take]
    exact Nat.min_le_left _ _
  have hfirst := uppParse_start (show 0 < capacity by omega)
  have hread : consult uppParse capacity (whole.take capacity) =
      .ok (.inl ((whole.take capacity).take n)) := by
    rw [consult, hn]
    simp only [if_neg (Nat.not_lt.mpr hle)]
  refine ⟨(whole.take capacity).take n, ?_⟩
  have hexchange : transactionFramed uppParse capacity (arriving timeout [whole]) =
      receive uppParse capacity timeout [.data whole] 1 [] := by
    unfold transactionFramed arriving
    simp only [hfirst]
    rfl
  rw [hexchange, receive, List.nil_append, List.length_nil, Nat.sub_zero, if_neg (by omega), hread]

theorem uppParse_chunkFree_iff :
    ChunkFree uppParse capacity whole ↔ ¬ LateReturn (whole.take capacity) := by
  constructor
  · intro h hlate
    have hcap : maxResponseLen < capacity := by
      have := hlate.long
      rw [List.length_take] at this
      omega
    have htake : (whole.take capacity).take maxResponseLen = whole.take maxResponseLen := by
      rw [List.take_take, Nat.min_eq_left (by omega)]
    have hne : whole ≠ [] := by
      rintro rfl
      simp [LateReturn] at hlate
    obtain ⟨frame, hframe⟩ := one_piece_found "" hlate
    have hsame := (h "" [whole] (by simpa using hne) (by simp) frame).mp hframe
    have hfirst := uppParse_start (show 0 < capacity by omega)
    unfold transactionFramed arriving at hsame
    simp only [hfirst] at hsame
    exact bytewise_gives_up (Nat.le_of_lt hcap) (htake ▸ hlate.2) whole [] rfl (by decide) frame hsame
  · intro hlate timeout chunks _ hchunks
    refine results_agree (fun n h => ?_) (fun k n hk hc => ?_) hchunks (bytewise_flatten whole)
    · exact absurd (uppParse_milestones.complete _ _ h) (by
        obtain ⟨idx, hidx, rfl⟩ := uppParse_complete h
        cases hidx)
    · refine (uppParse_settled fun hl => hlate ⟨?_, ?_⟩).framesAt hc
      · obtain ⟨idx, hidx, -⟩ := uppParse_complete hc
        have hmem : carriageReturn ∈ whole.take k := by
          apply Decidable.byContradiction
          intro hm
          rw [findIdx?_none.mpr hm] at hidx
          cases hidx
        exact (List.take_prefix_take_left (l := whole) hk).subset hmem
      · intro hm
        rw [List.take_take] at hm
        exact hl.2 ((List.take_prefix_take_left (Nat.min_le_left _ _)).subset hm)

end

/-! ## Both parsers -/

/-- The two parsers of the repository. -/
inductive Framing where
  | rtu (p : RtuFrameParser)
  | upp

def Framing.parse : Framing → Bytes → FrameStatus
  | .rtu p => p.parse
  | .upp => uppParse

/-- A stream that the parser judges differently when it sees it in pieces. -/
def Framing.Late : Framing → Bytes → Prop
  | .rtu _, _ => False
  | .upp, whole => LateReturn whole

theorem rtu_chunkFree (p : RtuFrameParser) (capacity : Nat) (whole : Bytes) :
    ChunkFree p.parse capacity whole := by
  intro timeout chunks _ hchunks
  refine results_agree (fun n h => ?_) (fun k n _ hc => (p.settled whole).framesAt hc) hchunks
    (bytewise_flatten whole)
  cases h

/-- **The cutting of the stream does not matter**, and what a parser has decided stays
decided, exactly when the UPP parser does not meet a carriage return behind 64 other
bytes; for the RTU parser always. -/
theorem framing_law_iff (f : Framing) (whole : Bytes) :
    Milestones f.parse ∧ (StaysDecided f.parse whole ↔ ¬ f.Late whole) ∧
      ∀ capacity, ChunkFree f.parse capacity whole ↔ ¬ f.Late (whole.take capacity) := by
  cases f with
  | rtu p =>
    have hnot : ∀ w, ¬ (Framing.rtu p).Late w := fun _ h => h
    exact ⟨p.milestones, ⟨fun _ => hnot whole, fun _ => (p.settled whole).stays⟩,
      fun capacity => ⟨fun _ => hnot _, fun _ => rtu_chunkFree p capacity whole⟩⟩
  | upp => exact ⟨uppParse_milestones, uppParse_stays_iff, fun _ => uppParse_chunkFree_iff⟩

/-- A response of 64 digits. -/
def longResponse : Bytes := List.replicate 64 0x30 ++ [carriageReturn]

/-- Read at once it is a frame, byte by byte it is too long. -/
theorem long_response_cut : ¬ ∀ (f : Framing) (capacity : Nat) (whole : Bytes),
    ChunkFree f.parse capacity whole := by
  intro h
  have hone : transactionFramed uppParse uppCapacity (arriving "" [longResponse]) =
      .ok longResponse := by decide +kernel
  have hcut : transactionFramed uppParse uppCapacity (arriving "" (bytewise longResponse)) =
      .error "UPP response exceeded 64 bytes without CR" := by decide +kernel
  have hsame := (h .upp uppCapacity longResponse "" [longResponse] (by decide) (by decide)
    longResponse).mp hone
  rw [show Framing.upp.parse = uppParse from rfl, hcut] at hsame
  cases hsame

end RustPlc.Devices
