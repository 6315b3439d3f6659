import RustPlc.Core.Radix
import RustPlc.Core.Utf8
import RustPlc.L1Ir.Slices

/-!
# Answers of UPP devices

`Decoder::decode` of crates/st-comm-upp/src/parser.rs: the payload of an answer
on the RS-485 line, any bytes, read as the value its command asks for.

Results
* `decode_iff`: the payloads a decoder reads as the protocol says.
-/
namespace RustPlc.Devices.Upp

open RustPlc.Core.Radix RustPlc.Core.Utf8 RustPlc.Ir

/-- mirrors crates/st-comm-upp/src/parser.rs:17-23 -/
inductive MeasurementChannel where
  | oneChannel | ratio
  deriving DecidableEq

/-- mirrors crates/st-comm-upp/src/parser.rs:32-61 -/
inductive DecodedValue where
  | temperature (value : F64)
  | temperaturePair (oneChannel ratio : F64)
  | internalTemp (value : F64)
  | uint (value : UInt32)
  | per1000 (value : F64)
  | enum (value : UInt8)
  | bool (value : Bool)
  | hexPair (lo hi : UInt16)
  | ack (value : Bool)
  | text (value : List Char)

/-- mirrors crates/st-comm-upp/src/parser.rs:65-91 -/
inductive Decoder where
  | temp5dTenth
  | tempPair5dTenth (channel : MeasurementChannel)
  | temp3dInt
  | u16Dec4
  | u16DecMilli
  | enum1
  | enum1Wide
  | boolDigit
  | hexPair8
  | ack
  | text
  deriving DecidableEq

/-- Of the errors of the stack only `BadResponse` is made here. -/
inductive UppError where
  | badResponse (message : String)

/-- How a decoder ends without a value: with an error, or in a panic of a slice
or of `unreachable!`. -/
inductive Fault where
  | upp (e : UppError)
  | slice
  | unreachable

def bad (message : String) : Fault := .upp (.badResponse message)

/-- `String::from_utf8_lossy` under `{:?}`. -/
abbrev DebugLossy := List UInt8 → String

variable (lossy : DebugLossy)

/-! ## Decoding -/

/-- mirrors crates/st-comm-upp/src/parser.rs:131-143 -/
def decodeUNDec (payload : List UInt8) (n : Nat) : Except Fault UInt64 :=
  if payload.length ≠ n then
    .error (bad ("expected " ++ toString n ++ " decimal digits, got " ++
      toString payload.length ++ " bytes"))
  else match fromUtf8 payload with
    | none => .error (bad "non-ASCII decimal payload")
    | some s => match fromStrRadix 10 (2 ^ 64 - 1) (utf8 s) with
      | .ok v => .ok (UInt64.ofNat v)
      | .error e => .error (bad ("decimal parse: " ++ e.text))

/-- The literals `10.0` and `1000.0`. -/
def ten : F64 := ⟨0x4024000000000000⟩

def thousand : F64 := ⟨0x408F400000000000⟩

/-- mirrors crates/st-comm-upp/src/parser.rs:145-148 -/
def decodeTemp5d [F64Ops] (payload : List UInt8) : Except Fault F64 := do
  let v ← decodeUNDec payload 5
  return F64Ops.div (F64Ops.ofUInt v) ten

/-- mirrors crates/st-comm-upp/src/parser.rs:150-163 -/
def decodeTempPair5d [F64Ops] (payload : List UInt8) : Except Fault DecodedValue :=
  if payload.length ≠ 10 then
    .error (bad ("ek answer must be 10 digits, got " ++ toString payload.length))
  else do
    let one ← decodeTemp5d (payload.take 5)
    let two ← decodeTemp5d (payload.drop 5)
    return .temperaturePair one two

/-- mirrors crates/st-comm-upp/src/parser.rs:165-170 -/
def decodeTemp3d [F64Ops] (payload : List UInt8) : Except Fault F64 := do
  let v ← decodeUNDec payload 3
  return F64Ops.ofUInt v

/-- mirrors crates/st-comm-upp/src/parser.rs:172-181 -/
def decodeBoolDigit (payload : List UInt8) : Except Fault Bool :=
  if payload = [48] then .ok false
  else if payload = [49] then .ok true
  else .error (bad ("expected '0' or '1', got " ++ lossy payload))

/-- mirrors crates/st-comm-upp/src/parser.rs:183-197 -/
def decodeHexPair8 (payload : List UInt8) : Except Fault DecodedValue :=
  if payload.length ≠ 8 then
    .error (bad ("expected 8 hex digits (XXXXYYYY), got " ++ toString payload.length))
  else match fromUtf8 payload with
    | none => .error (bad "non-ASCII hex payload")
    | some s => match splitAtByte s 4 with
      | .error _ => .error .slice
      | .ok (front, back) => match fromStrRadix 16 (2 ^ 16 - 1) (utf8 front) with
        | .error e => .error (bad ("hex lo parse: " ++ e.text))
        | .ok lo => match fromStrRadix 16 (2 ^ 16 - 1) (utf8 back) with
          | .error e => .error (bad ("hex hi parse: " ++ e.text))
          | .ok hi => .ok (.hexPair (UInt16.ofNat lo) (UInt16.ofNat hi))

/-- mirrors crates/st-comm-upp/src/parser.rs:199-208 -/
def decodeAck (payload : List UInt8) : Except Fault Bool :=
  if payload = [111, 107] then .ok true
  else if payload = [110, 111] then .ok false
  else .error (bad ("expected 'ok' or 'no', got " ++ lossy payload))

/-- mirrors crates/st-comm-upp/src/parser.rs:96-126 -/
def decode [F64Ops] (d : Decoder) (payload : List UInt8) : Except Fault DecodedValue :=
  match d with
  | .temp5dTenth => (decodeTemp5d payload).map .temperature
  | .tempPair5dTenth channel => do
    match ← decodeTempPair5d payload with
    | .temperaturePair oneChannel ratio =>
      return match channel with
        | .oneChannel => .temperature oneChannel
        | .ratio => .temperature ratio
    | _ => .error .unreachable
  | .temp3dInt => (decodeTemp3d payload).map .internalTemp
  | .u16Dec4 => (decodeUNDec payload 4).map fun v => .uint v.toUInt32
  | .u16DecMilli => do
    let v ← decodeUNDec payload 4
    return .per1000 (F64Ops.div (F64Ops.ofUInt v) thousand)
  | .enum1 | .enum1Wide => (decodeUNDec payload 1).map fun v => .enum v.toUInt8
  | .boolDigit => (decodeBoolDigit lossy payload).map .bool
  | .hexPair8 => decodeHexPair8 payload
  | .ack => (decodeAck lossy payload).map .ack
  | .text => match fromUtf8 payload with
    | none => .error (bad "non-ASCII text payload")
    | some s => .ok (.text s)

/-! ## What the protocol says -/

/-- `n` decimal digits. -/
def Decimal (n : Nat) (p : List UInt8) : Prop := p.length = n ∧ Digits 10 p

/-- `n` hexadecimal digits. -/
def Hexadecimal (n : Nat) (p : List UInt8) : Prop := p.length = n ∧ Digits 16 p

def Ascii (p : List UInt8) : Prop := ∀ b ∈ p, b.toNat < 128

instance (n : Nat) (p : List UInt8) : Decidable (Decimal n p) := inferInstanceAs (Decidable (_ ∧ _))

instance (n : Nat) (p : List UInt8) : Decidable (Hexadecimal n p) :=
  inferInstanceAs (Decidable (_ ∧ _))

instance (p : List UInt8) : Decidable (Ascii p) :=
  decidable_of_iff (p.all fun b => b.toNat < 128)
    (List.all_eq_true.trans (forall₂_congr fun _ _ => decide_eq_true_iff))

/-- The number of decimal digits, as an `f64`. -/
def decimal [F64Ops] (p : List UInt8) : F64 := F64Ops.ofUInt (UInt64.ofNat (number 10 p))

def tenths [F64Ops] (p : List UInt8) : F64 := F64Ops.div (decimal p) ten

def thousandths [F64Ops] (p : List UInt8) : F64 := F64Ops.div (decimal p) thousand

/-- The digits of a channel. -/
def MeasurementChannel.half : MeasurementChannel → List UInt8 → List UInt8
  | .oneChannel, p => p.take 5
  | .ratio, p => p.drop 5

/-- The value of a payload that has the form of the decoder. -/
def Decoder.denotes [F64Ops] : Decoder → List UInt8 → Option DecodedValue
  | .temp5dTenth, p => if Decimal 5 p then some (.temperature (tenths p)) else none
  | .tempPair5dTenth channel, p =>
    if Decimal 10 p then some (.temperature (tenths (channel.half p))) else none
  | .temp3dInt, p => if Decimal 3 p then some (.internalTemp (decimal p)) else none
  | .u16Dec4, p => if Decimal 4 p then some (.uint (UInt32.ofNat (number 10 p))) else none
  | .u16DecMilli, p => if Decimal 4 p then some (.per1000 (thousandths p)) else none
  | .enum1, p | .enum1Wide, p =>
    if Decimal 1 p then some (.enum (UInt8.ofNat (number 10 p))) else none
  | .boolDigit, p =>
    if p = [48] then some (.bool false) else if p = [49] then some (.bool true) else none
  | .hexPair8, p =>
    if Hexadecimal 8 p then
      some (.hexPair (UInt16.ofNat (number 16 (p.take 4))) (UInt16.ofNat (number 16 (p.drop 4))))
    else none
  | .ack, p =>
    if p = [111, 107] then some (.ack true) else if p = [110, 111] then some (.ack false) else none
  | .text, p => if Ascii p then some (.text (p.map asciiChar)) else none

/-- The value where there is one, and else an error, not a panic. -/
structure Reads (denoted : Option DecodedValue) (result : Except Fault DecodedValue) : Prop where
  value : ∀ v, denoted = some v → result = .ok v
  error : denoted = none → ∃ e, result = .error (.upp e)

/-! ## Which payloads are misread -/

/-- A plus sign in the place of the first of `n` digits. -/
def PlusFor (radix n : Nat) (p : List UInt8) : Prop := p.length = n ∧ Signed radix p

/-- What the number parsers accept. -/
def Numeral (radix n : Nat) (p : List UInt8) : Prop :=
  p.length = n ∧ (Digits radix p ∨ Signed radix p)

/-- Two halves of `n` bytes that the parsers accept, a plus sign in one of them. -/
structure PlusInPair (radix n : Nat) (p : List UInt8) : Prop where
  front : Numeral radix n (p.take n)
  back : Numeral radix n (p.drop n)
  plus : Signed radix (p.take n) ∨ Signed radix (p.drop n)

/-- The UTF-8 bytes of a text of 8 bytes with a character across the middle. -/
def SplitsCharacter (p : List UInt8) : Prop :=
  p.length = 8 ∧ ∃ cs, utf8 cs = p ∧ ¬ IsBoundary cs 4

/-- The payloads a decoder takes for something else. -/
def Decoder.misreads : Decoder → List UInt8 → Prop
  | .temp5dTenth, p => PlusFor 10 5 p
  | .tempPair5dTenth _, p => PlusInPair 10 5 p
  | .temp3dInt, p => PlusFor 10 3 p
  | .u16Dec4, p | .u16DecMilli, p => PlusFor 10 4 p
  | .hexPair8, p => PlusInPair 16 4 p ∨ SplitsCharacter p
  | .text, p => ¬ Ascii p ∧ ∃ cs, utf8 cs = p
  | .enum1, _ | .enum1Wide, _ | .boolDigit, _ | .ack, _ => False

/-! ## Reading -/

section

variable {p : List UInt8}

theorem reads_iff {denoted : Option DecodedValue} {result : Except Fault DecodedValue}
    {form misread : Prop} (hform : form → ∃ v, denoted = some v ∧ result = .ok v)
    (hnone : ¬ form → denoted = none)
    (hmisread : misread → ¬ form ∧ ∀ e, result ≠ .error (.upp e))
    (herror : ¬ form → ¬ misread → ∃ e, result = .error (.upp e)) :
    Reads denoted result ↔ ¬ misread := by
  constructor
  · intro h hmis
    obtain ⟨hno, hne⟩ := hmisread hmis
    obtain ⟨e, he⟩ := h.error (hnone hno)
    exact hne e he
  · intro hmis
    by_cases hf : form
    · obtain ⟨v, hv, hresult⟩ := hform hf
      refine ⟨fun w hw => ?_, fun hno => ?_⟩
      · rw [hv, Option.some.injEq] at hw
        rw [hresult, hw]
      · rw [hv] at hno
        cases hno
    · refine ⟨fun w hw => ?_, fun _ => herror hf hmis⟩
      rw [hnone hf] at hw
      cases hw

theorem fromUtf8_ascii (h : Ascii p) : fromUtf8 p = some (p.map asciiChar) :=
  fromUtf8_iff.mpr (utf8_ascii h)

/-! ## Decimal numbers -/

variable {n : Nat}

/-- The numbers of `n` digits are on 64 bits. -/
theorem decimal_fits (hn : n ≤ 19) : 10 ^ n ≤ 2 ^ 64 - 1 + 1 :=
  Nat.le_trans (Nat.pow_le_pow_right (by decide) hn) (by decide)

theorem decodeUNDec_of_ascii (hlen : p.length = n) (h : Ascii p) {v : Nat}
    (hv : fromStrRadix 10 (2 ^ 64 - 1) p = .ok v) :
    decodeUNDec p n = .ok (UInt64.ofNat v) := by
  rw [decodeUNDec, if_neg (not_not_intro hlen), fromUtf8_ascii h]
  dsimp only
  rw [utf8_ascii h, hv]

theorem decodeUNDec_ok (hn : n ≤ 19) (h : Decimal n p) :
    decodeUNDec p n = .ok (UInt64.ofNat (number 10 p)) := by
  obtain ⟨hlen, hdigits⟩ := h
  exact decodeUNDec_of_ascii hlen hdigits.ascii
    (fromStrRadix_digits hdigits (hlen ▸ decimal_fits hn))

theorem decodeUNDec_plus (hn : n ≤ 19) (h : PlusFor 10 n p) :
    decodeUNDec p n = .ok (UInt64.ofNat (number 10 p.tail)) := by
  obtain ⟨hlen, hsigned⟩ := h
  refine decodeUNDec_of_ascii hlen hsigned.ascii (fromStrRadix_signed hsigned (decimal_fits ?_))
  rw [List.length_tail]
  omega

theorem decodeUNDec_error (h : ¬ Decimal n p) (hplus : ¬ PlusFor 10 n p) :
    ∃ e, decodeUNDec p n = .error (.upp e) := by
  unfold decodeUNDec
  split
  · exact ⟨_, rfl⟩
  next hlen =>
    rw [not_not] at hlen
    split
    · exact ⟨_, rfl⟩
    next s hs =>
      obtain ⟨e, he⟩ := @fromStrRadix_error 10 (2 ^ 64 - 1) (utf8 s)
        (by rw [fromUtf8_iff.mp hs]; exact fun hd => h ⟨hlen, hd⟩)
        (by rw [fromUtf8_iff.mp hs]; exact fun hd => hplus ⟨hlen, hd⟩)
      rw [he]
      exact ⟨_, rfl⟩

theorem Decimal.not_plus (h : Decimal n p) : ¬ PlusFor 10 n p := fun hplus => h.2.not_signed hplus.2

/-- A decoder of one number of `n` digits. -/
theorem reads_number (hn : n ≤ 19) (f : UInt64 → DecodedValue) :
    Reads (if Decimal n p then some (f (UInt64.ofNat (number 10 p))) else none)
      ((decodeUNDec p n).map f) ↔ ¬ PlusFor 10 n p := by
  refine reads_iff (fun h : Decimal n p => ⟨_, if_pos h, ?_⟩) (fun h => if_neg h)
    (fun h => ?_) fun h hplus => ?_
  · rw [decodeUNDec_ok hn h]
    rfl
  · refine ⟨fun hd => hd.not_plus h, fun e he => ?_⟩
    rw [decodeUNDec_plus hn h] at he
    cases he
  · obtain ⟨e, he⟩ := decodeUNDec_error h hplus
    rw [he]
    exact ⟨e, rfl⟩

/-- One digit leaves no room for a sign. -/
theorem not_plusFor_one : ¬ PlusFor 10 1 p := by
  rintro ⟨hlen, -, hne, -⟩
  refine hne (List.eq_nil_of_length_eq_zero ?_)
  rw [List.length_tail, hlen]

/-! ## Pairs -/

variable {radix : Nat}

/-- Digits of twice the length are two halves of digits. -/
theorem digits_halves (hlen : p.length = 2 * n) (hn : 0 < n) :
    Digits radix p ↔ Digits radix (p.take n) ∧ Digits radix (p.drop n) := by
  have hfront : p.take n ≠ [] := by
    intro h
    have hl := congrArg List.length h
    rw [List.length_take, List.length_nil] at hl
    omega
  have hback : p.drop n ≠ [] := by
    intro h
    have hl := congrArg List.length h
    rw [List.length_drop, List.length_nil] at hl
    omega
  have hall : (∀ b ∈ p, (toDigit radix b).isSome) ↔
      (∀ b ∈ p.take n, (toDigit radix b).isSome) ∧ ∀ b ∈ p.drop n, (toDigit radix b).isSome := by
    rw [← List.forall_mem_append, List.take_append_drop]
  constructor
  · rintro ⟨-, h⟩
    exact ⟨⟨hfront, (hall.mp h).1⟩, hback, (hall.mp h).2⟩
  · rintro ⟨⟨-, h⟩, -, h'⟩
    refine ⟨fun hp => hfront (by rw [hp, List.take_nil]), hall.mpr ⟨h, h'⟩⟩

theorem PlusInPair.length (h : PlusInPair radix n p) : p.length = 2 * n := by
  have hfront := h.front.1
  have hback := h.back.1
  rw [List.length_take] at hfront
  rw [List.length_drop] at hback
  omega

theorem PlusInPair.not_digits (h : PlusInPair radix n p) (hn : 0 < n) : ¬ Digits radix p := by
  intro hd
  obtain ⟨hfront, hback⟩ := (digits_halves h.length hn).mp hd
  exact h.plus.elim hfront.not_signed hback.not_signed

/-- Halves that the parsers accept without a plus sign are digits. -/
theorem digits_of_numerals (hn : 0 < n) (hlen : p.length = 2 * n)
    (hfront : Numeral radix n (p.take n)) (hback : Numeral radix n (p.drop n))
    (hplus : ¬ PlusInPair radix n p) : Digits radix p := by
  by_contra hd
  refine hplus ⟨hfront, hback, ?_⟩
  by_contra hno
  rw [not_or] at hno
  exact hd ((digits_halves hlen hn).mpr
    ⟨hfront.2.resolve_right hno.1, hback.2.resolve_right hno.2⟩)

/-- A number that `decodeUNDec` accepts, or an error. -/
theorem decodeUNDec_numeral (hn : n ≤ 19) (h : Numeral 10 n p) : ∃ v, decodeUNDec p n = .ok v := by
  obtain ⟨hlen, hdigits | hsigned⟩ := h
  · exact ⟨_, decodeUNDec_ok hn ⟨hlen, hdigits⟩⟩
  · exact ⟨_, decodeUNDec_plus hn ⟨hlen, hsigned⟩⟩

theorem decodeUNDec_no_numeral (h : ¬ Numeral 10 n p) :
    ∃ e, decodeUNDec p n = .error (.upp e) :=
  decodeUNDec_error (fun hd => h ⟨hd.1, .inl hd.2⟩) fun hs => h ⟨hs.1, .inr hs.2⟩

theorem decodeTemp5d_eq [F64Ops] (p : List UInt8) :
    decodeTemp5d p = (decodeUNDec p 5).map fun v => F64Ops.div (F64Ops.ofUInt v) ten := by
  unfold decodeTemp5d
  cases decodeUNDec p 5 <;> rfl

theorem decode_tempPair [F64Ops] (channel : MeasurementChannel) {p : List UInt8}
    (hlen : p.length = 10) {one two : UInt64} (hone : decodeUNDec (p.take 5) 5 = .ok one)
    (htwo : decodeUNDec (p.drop 5) 5 = .ok two) :
    decode lossy (.tempPair5dTenth channel) p = .ok (.temperature
      (F64Ops.div (F64Ops.ofUInt (if channel = .oneChannel then one else two)) ten)) := by
  rw [decode, decodeTempPair5d, if_neg (not_not_intro hlen), decodeTemp5d_eq, decodeTemp5d_eq, hone,
    htwo]
  cases channel <;> rfl

theorem decode_tempPair_error [F64Ops] (channel : MeasurementChannel)
    (h : p.length = 10 → ¬ (Numeral 10 5 (p.take 5) ∧ Numeral 10 5 (p.drop 5))) :
    ∃ e, decode lossy (.tempPair5dTenth channel) p = .error (.upp e) := by
  rw [decode, decodeTempPair5d, decodeTemp5d_eq, decodeTemp5d_eq]
  split
  · exact ⟨_, rfl⟩
  next hlen =>
    rw [not_not] at hlen
    by_cases hfront : Numeral 10 5 (p.take 5)
    · obtain ⟨one, hone⟩ := decodeUNDec_numeral (by decide) hfront
      obtain ⟨e, he⟩ := decodeUNDec_no_numeral fun hback => h hlen ⟨hfront, hback⟩
      rw [hone, he]
      exact ⟨e, rfl⟩
    · obtain ⟨e, he⟩ := decodeUNDec_no_numeral hfront
      rw [he]
      exact ⟨e, rfl⟩

theorem reads_tempPair [F64Ops] (channel : MeasurementChannel) (p : List UInt8) :
    Reads ((Decoder.tempPair5dTenth channel).denotes p) (decode lossy (.tempPair5dTenth channel) p) ↔
      ¬ PlusInPair 10 5 p := by
  refine reads_iff (fun h : Decimal 10 p => ⟨_, if_pos h, ?_⟩) (fun h => if_neg h)
    (fun h => ⟨fun hd => h.not_digits (by decide) hd.2, fun e he => ?_⟩) fun h hplus => ?_
  · obtain ⟨hlen, hdigits⟩ := h
    obtain ⟨hfront, hback⟩ := (digits_halves (n := 5) hlen (by decide)).mp hdigits
    rw [decode_tempPair lossy channel hlen
      (decodeUNDec_ok (by decide) ⟨by simp [hlen], hfront⟩)
      (decodeUNDec_ok (by decide) ⟨by simp [hlen], hback⟩)]
    cases channel <;> rfl
  · obtain ⟨one, hone⟩ := decodeUNDec_numeral (by decide) h.front
    obtain ⟨two, htwo⟩ := decodeUNDec_numeral (by decide) h.back
    rw [decode_tempPair lossy channel h.length hone htwo] at he
    cases he
  · exact decode_tempPair_error lossy channel fun hlen hnum =>
      h ⟨hlen, digits_of_numerals (by decide) hlen hnum.1 hnum.2 hplus⟩

theorem fromStrRadix_hex (h : Numeral 16 4 p) : ∃ v, fromStrRadix 16 (2 ^ 16 - 1) p = .ok v := by
  obtain ⟨hlen, hdigits | hsigned⟩ := h
  · exact ⟨_, fromStrRadix_digits hdigits (by rw [hlen]; decide)⟩
  · refine ⟨_, fromStrRadix_signed hsigned ?_⟩
    rw [List.length_tail, hlen]
    decide

/-- The halves of a text that falls apart in the middle. -/
theorem split_bytes {cs a b : List Char} (h : SplitsAt cs n a b) :
    utf8 a = (utf8 cs).take n ∧ utf8 b = (utf8 cs).drop n := by
  obtain ⟨rfl, rfl⟩ := h
  have hlen : (utf8 a).length = byteLen a := length_utf8 a
  rw [utf8_append, ← hlen, List.take_left, List.drop_left]
  exact ⟨rfl, rfl⟩

theorem decodeHexPair8_error (h : ¬ (Numeral 16 4 (p.take 4) ∧ Numeral 16 4 (p.drop 4)))
    (hsplit : ¬ SplitsCharacter p) : ∃ e, decodeHexPair8 p = .error (.upp e) := by
  unfold decodeHexPair8
  split
  · exact ⟨_, rfl⟩
  next hlen =>
    rw [not_not] at hlen
    split
    · exact ⟨_, rfl⟩
    next cs hcs =>
      obtain rfl := fromUtf8_iff.mp hcs
      rcases splitAtByte_cases cs 4 with ⟨a, b, hab, hsplits⟩ | ⟨hno, -⟩
      · obtain ⟨hfront, hback⟩ := split_bytes hab
        rw [hsplits]
        dsimp only
        rw [hfront, hback]
        by_cases hnum : Numeral 16 4 ((utf8 cs).take 4)
        · obtain ⟨lo, hlo⟩ := fromStrRadix_hex hnum
          have hno : ¬ Numeral 16 4 ((utf8 cs).drop 4) := fun hb => h ⟨hnum, hb⟩
          obtain ⟨e, he⟩ := @fromStrRadix_error 16 (2 ^ 16 - 1) _
            (fun hd => hno ⟨by simp [-length_utf8, hlen], .inl hd⟩)
            fun hd => hno ⟨by simp [-length_utf8, hlen], .inr hd⟩
          rw [hlo]
          dsimp only
          rw [he]
          exact ⟨_, rfl⟩
        · obtain ⟨e, he⟩ := @fromStrRadix_error 16 (2 ^ 16 - 1) _
            (fun hd => hnum ⟨by simp [-length_utf8, hlen], .inl hd⟩)
            fun hd => hnum ⟨by simp [-length_utf8, hlen], .inr hd⟩
          rw [he]
          exact ⟨_, rfl⟩
      · exact absurd ⟨hlen, cs, rfl, hno⟩ hsplit

/-- An ASCII text falls apart everywhere. -/
theorem ascii_splits (h : Ascii p) (n : Nat) (hn : n ≤ p.length) :
    SplitsAt (p.map asciiChar) n ((p.take n).map asciiChar) ((p.drop n).map asciiChar) := by
  refine ⟨by rw [← List.map_append, List.take_append_drop], ?_⟩
  have htake : Ascii (p.take n) := fun b hb => h b (List.mem_of_mem_take hb)
  have hlen := congrArg List.length (utf8_ascii htake)
  rw [length_utf8, List.length_take, Nat.min_eq_left hn] at hlen
  exact hlen

theorem decodeHexPair8_ok (hlen : p.length = 8) (h : Ascii p) {lo hi : Nat}
    (hlo : fromStrRadix 16 (2 ^ 16 - 1) (p.take 4) = .ok lo)
    (hhi : fromStrRadix 16 (2 ^ 16 - 1) (p.drop 4) = .ok hi) :
    decodeHexPair8 p = .ok (.hexPair (UInt16.ofNat lo) (UInt16.ofNat hi)) := by
  have hfront : Ascii (p.take 4) := fun b hb => h b (List.mem_of_mem_take hb)
  have hback : Ascii (p.drop 4) := fun b hb => h b (List.mem_of_mem_drop hb)
  rw [decodeHexPair8, if_neg (not_not_intro hlen), fromUtf8_ascii h]
  dsimp only
  rw [splitAtByte_iff.mpr (ascii_splits h 4 (by omega))]
  dsimp only
  rw [utf8_ascii hfront, utf8_ascii hback, hlo]
  dsimp only
  rw [hhi]

theorem decodeHexPair8_slice (h : SplitsCharacter p) : decodeHexPair8 p = .error .slice := by
  obtain ⟨hlen, cs, hcs, hno⟩ := h
  rw [decodeHexPair8, if_neg (not_not_intro hlen), fromUtf8_iff.mpr hcs]
  dsimp only
  rcases splitAtByte_cases cs 4 with ⟨a, b, hab, -⟩ | ⟨-, hslice⟩
  · exact absurd ⟨a, b, hab⟩ hno
  · rw [hslice]

theorem SplitsCharacter.not_digits (h : SplitsCharacter p) : ¬ Digits 16 p := by
  obtain ⟨hlen, cs, hcs, hno⟩ := h
  intro hd
  have hchars : fromUtf8 p = some cs := fromUtf8_iff.mpr hcs
  rw [fromUtf8_ascii hd.ascii, Option.some.injEq] at hchars
  exact hno (hchars ▸ ⟨_, _, ascii_splits hd.ascii 4 (by omega)⟩)

theorem PlusInPair.ascii (h : PlusInPair radix n p) : Ascii p := by
  have hhalf {q : List UInt8} (hq : Numeral radix n q) : Ascii q :=
    hq.2.elim Digits.ascii Signed.ascii
  rw [← List.take_append_drop n p]
  exact List.forall_mem_append.mpr ⟨hhalf h.front, hhalf h.back⟩

theorem reads_hexPair (p : List UInt8) :
    Reads (if Hexadecimal 8 p then
        some (.hexPair (UInt16.ofNat (number 16 (p.take 4))) (UInt16.ofNat (number 16 (p.drop 4))))
      else none) (decodeHexPair8 p) ↔ ¬ (PlusInPair 16 4 p ∨ SplitsCharacter p) := by
  refine reads_iff (fun h : Hexadecimal 8 p => ⟨_, if_pos h, ?_⟩) (fun h => if_neg h)
    ?_ fun h hmis => ?_
  · obtain ⟨hlen, hdigits⟩ := h
    obtain ⟨hfront, hback⟩ := (digits_halves (n := 4) hlen (by decide)).mp hdigits
    exact decodeHexPair8_ok hlen hdigits.ascii
      (fromStrRadix_digits hfront (by simp [hlen])) (fromStrRadix_digits hback (by simp [hlen]))
  · rintro (h | h)
    · refine ⟨fun hd => h.not_digits (by decide) hd.2, fun e he => ?_⟩
      obtain ⟨lo, hlo⟩ := fromStrRadix_hex h.front
      obtain ⟨hi, hhi⟩ := fromStrRadix_hex h.back
      rw [decodeHexPair8_ok h.length h.ascii hlo hhi] at he
      cases he
    · refine ⟨fun hd => h.not_digits hd.2, fun e he => ?_⟩
      rw [decodeHexPair8_slice h] at he
      cases he
  · rw [not_or] at hmis
    by_cases hlen : p.length = 8
    · exact decodeHexPair8_error (fun hnum =>
        h ⟨hlen, digits_of_numerals (by decide) hlen hnum.1 hnum.2 hmis.1⟩) hmis.2
    · rw [decodeHexPair8, if_pos hlen]
      exact ⟨_, rfl⟩

theorem reads_text [F64Ops] (p : List UInt8) :
    Reads (Decoder.text.denotes p) (decode lossy .text p) ↔ ¬ (¬ Ascii p ∧ ∃ cs, utf8 cs = p) := by
  refine reads_iff (fun h : Ascii p => ⟨_, if_pos h, ?_⟩) (fun h => if_neg h)
    ?_ fun h hmis => ?_
  · rw [decode, fromUtf8_ascii h]
  · rintro ⟨h, cs, hcs⟩
    refine ⟨h, fun e he => ?_⟩
    rw [decode, fromUtf8_iff.mpr hcs] at he
    cases he
  · cases hcs : fromUtf8 p with
    | none => exact ⟨_, by rw [decode, hcs]; rfl⟩
    | some cs => exact absurd ⟨h, cs, fromUtf8_iff.mp hcs⟩ hmis

/-- One of two tokens, or an error. -/
theorem reads_token (a b : List UInt8) (v w : DecodedValue) (e : UppError) (p : List UInt8) :
    Reads (if p = a then some v else if p = b then some w else none)
      (if p = a then .ok v else if p = b then .ok w else .error (.upp e)) := by
  split
  · exact ⟨fun _ h => congrArg Except.ok (Option.some.inj h), nofun⟩
  split
  · exact ⟨fun _ h => congrArg Except.ok (Option.some.inj h), nofun⟩
  · exact ⟨nofun, fun _ => ⟨e, rfl⟩⟩

theorem reads_temp [F64Ops] (p : List UInt8) :
    Reads (Decoder.temp5dTenth.denotes p) (decode lossy .temp5dTenth p) ↔ ¬ PlusFor 10 5 p := by
  have hmap : decode lossy .temp5dTenth p =
      (decodeUNDec p 5).map fun v => .temperature (F64Ops.div (F64Ops.ofUInt v) ten) := by
    rw [decode, decodeTemp5d_eq]
    cases decodeUNDec p 5 <;> rfl
  rw [hmap]
  exact reads_number (p := p) (show 5 ≤ 19 by decide) fun v =>
    .temperature (F64Ops.div (F64Ops.ofUInt v) ten)

theorem reads_internal [F64Ops] (p : List UInt8) :
    Reads (Decoder.temp3dInt.denotes p) (decode lossy .temp3dInt p) ↔ ¬ PlusFor 10 3 p := by
  have hmap : decode lossy .temp3dInt p =
      (decodeUNDec p 3).map fun v => .internalTemp (F64Ops.ofUInt v) := by
    rw [decode, decodeTemp3d]
    cases decodeUNDec p 3 <;> rfl
  rw [hmap]
  exact reads_number (p := p) (show 3 ≤ 19 by decide) fun v => .internalTemp (F64Ops.ofUInt v)

theorem reads_milli [F64Ops] (p : List UInt8) :
    Reads (Decoder.u16DecMilli.denotes p) (decode lossy .u16DecMilli p) ↔ ¬ PlusFor 10 4 p := by
  have hmap : decode lossy .u16DecMilli p =
      (decodeUNDec p 4).map fun v => .per1000 (F64Ops.div (F64Ops.ofUInt v) thousand) := by
    rw [decode]
    cases decodeUNDec p 4 <;> rfl
  rw [hmap]
  exact reads_number (p := p) (show 4 ≤ 19 by decide) fun v =>
    .per1000 (F64Ops.div (F64Ops.ofUInt v) thousand)

theorem reads_uint [F64Ops] (p : List UInt8) :
    Reads (Decoder.u16Dec4.denotes p) (decode lossy .u16Dec4 p) ↔ ¬ PlusFor 10 4 p := by
  have h := reads_number (p := p) (show 4 ≤ 19 by decide) fun v => .uint v.toUInt32
  rw [UInt64.toUInt32_ofNat'] at h
  exact h

theorem reads_enum [F64Ops] (p : List UInt8) :
    Reads (Decoder.enum1.denotes p) (decode lossy .enum1 p) := by
  have h := reads_number (p := p) (show 1 ≤ 19 by decide) fun v => .enum v.toUInt8
  rw [UInt64.toUInt8_ofNat'] at h
  exact h.mpr not_plusFor_one

theorem reads_bool [F64Ops] (p : List UInt8) :
    Reads (Decoder.boolDigit.denotes p) (decode lossy .boolDigit p) := by
  have hmap : decode lossy .boolDigit p = if p = [48] then .ok (.bool false)
      else if p = [49] then .ok (.bool true)
      else .error (bad ("expected '0' or '1', got " ++ lossy p)) := by
    rw [decode, decodeBoolDigit, apply_ite (Except.map DecodedValue.bool),
      apply_ite (Except.map DecodedValue.bool)]
    rfl
  rw [hmap]
  exact reads_token _ _ _ _ _ p

theorem reads_ack [F64Ops] (p : List UInt8) :
    Reads (Decoder.ack.denotes p) (decode lossy .ack p) := by
  have hmap : decode lossy .ack p = if p = [111, 107] then .ok (.ack true)
      else if p = [110, 111] then .ok (.ack false)
      else .error (bad ("expected 'ok' or 'no', got " ++ lossy p)) := by
    rw [decode, decodeAck, apply_ite (Except.map DecodedValue.ack),
      apply_ite (Except.map DecodedValue.ack)]
    rfl
  rw [hmap]
  exact reads_token _ _ _ _ _ p

end

/-! ## The decoder -/

/-- **A decoder reads a payload as the protocol says** exactly when it is none
of these: digits behind a plus sign, two halves of which one is, a character
across the middle of a hexadecimal pair, a text with other characters than
ASCII. -/
theorem decode_iff [F64Ops] (d : Decoder) (p : List UInt8) :
    Reads (d.denotes p) (decode lossy d p) ↔ ¬ d.misreads p := by
  cases d with
  | temp5dTenth => exact reads_temp lossy p
  | tempPair5dTenth channel => exact reads_tempPair lossy channel p
  | temp3dInt => exact reads_internal lossy p
  | u16Dec4 => exact reads_uint lossy p
  | u16DecMilli => exact reads_milli lossy p
  | enum1 => exact iff_of_true (reads_enum lossy p) not_false
  | enum1Wide => exact iff_of_true (reads_enum lossy p) not_false
  | boolDigit => exact iff_of_true (reads_bool lossy p) not_false
  | hexPair8 => exact reads_hexPair p
  | ack => exact iff_of_true (reads_ack lossy p) not_false
  | text => exact reads_text lossy p

/-- `000é000`, with the two bytes of `é` across the middle. -/
def accentAcross : List Char := ['0', '0', '0', 'é', '0', '0', '0']

theorem digits_nines : Digits 10 [57, 57, 57, 57] := by decide

theorem accentAcross_splits : SplitsCharacter (utf8 accentAcross) := by
  have hslice : splitAtByte accentAcross 4 = .error .strSlice := by decide
  refine ⟨by decide, accentAcross, rfl, fun ⟨a, b, h⟩ => ?_⟩
  rw [splitAtByte_iff.mpr h] at hslice
  cases hslice

/-- `+9999` is read as the temperature 999.9, and `000é000` as a hexadecimal
pair ends in a panic. -/
theorem sign_misread :
    (¬ ∀ (lossy : DebugLossy) [F64Ops] (d : Decoder) (p : List UInt8),
      Reads (d.denotes p) (decode lossy d p)) ∧
    decodeHexPair8 (utf8 accentAcross) = .error .slice := by
  refine ⟨fun h => ?_, decodeHexPair8_slice accentAcross_splits⟩
  let _ : F64Ops := default
  exact (reads_temp _ _).mp (h (fun _ => "") .temp5dTenth [43, 57, 57, 57, 57])
    ⟨rfl, rfl, digits_nines⟩

end RustPlc.Devices.Upp
