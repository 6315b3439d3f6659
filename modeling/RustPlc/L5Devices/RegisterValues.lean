import Mathlib.Data.Nat.Bitwise
import RustPlc.Core.Binary64
import RustPlc.L5Devices.DeviceIo

/-!
# Register contents and field values

A field of a device is one or more registers of 16 bits. `register_to_value` and
`value_to_register` take one of them through a double to the value of the field and back.
What they should do is the layout the profile declares: the words of the value in the byte
order of the mapping, two's complement below zero, or one bit of the register.

A mapping with `bit`, `byte_order` and `word_count` is a `RegisterLayout`; the conversions
read none of the three.

Results:
* `readField_word`, `writeField_word`: without a scale a register holds the number itself;
* `writeField_negative`: a negative value is written as zero;
* `conversion_law_iff`: the law holds of unsigned fields of one register, and of no signed
  field and no single bit.
-/
namespace RustPlc.Devices

open RustPlc.Ir RustPlc.Agree RustPlc.Core

/-! ## The layout of a field -/

/-- mirrors crates/st-comm-api/src/profile.rs:227-232 -/
inductive ByteOrder where
  | bigEndian | littleEndian
  deriving DecidableEq, Repr

/-- mirrors crates/st-comm-api/src/profile.rs:182-212, but for `unit`, which is documentation -/
structure RegisterLayout extends RegisterMapping where
  bit : Option UInt8
  byteOrder : ByteOrder
  wordCount : UInt8
  deriving DecidableEq, Repr

/-- No scale, and no offset but zero. -/
def RegisterLayout.Unscaled (m : RegisterLayout) : Prop :=
  m.scale = none ∧ ((m.offset.getD F64.zero).eq F64.zero) = true

/-- The value of a field whose registers hold `words`. -/
def readField [F64Ops] (m : RegisterLayout) (dt : FieldDataType) (words : List UInt16) : Value :=
  registerToValue (words.headD 0) dt m.toRegisterMapping

/-- The words that the registers of a field are set to. -/
def writeField [F64Ops] (m : RegisterLayout) (v : Value) : List UInt16 :=
  [valueToRegister v m.toRegisterMapping]

/-- The integer types with a sign. -/
def isSigned : FieldDataType → Bool
  | .sint | .int | .dint | .lint => true
  | _ => false

/-- The integer types without a sign and the bit strings. -/
def isUnsigned : FieldDataType → Bool
  | .usint | .uint | .udint | .ulint | .byte | .word | .dword | .lword => true
  | _ => false

/-- The width of an integer or bit string type. -/
def fieldBits : FieldDataType → Nat
  | .sint | .usint | .byte => 8
  | .int | .uint | .word => 16
  | .dint | .udint | .dword => 32
  | _ => 64

/-! ## What the layout promises -/

/-- A value of the type that the registers have room for. -/
def FitsField (m : RegisterLayout) (dt : FieldDataType) : Value → Prop
  | .int i =>
    isSigned dt = true ∧ -2 ^ min (fieldBits dt) (16 * m.wordCount.toNat) ≤ 2 * i.toInt ∧
      2 * i.toInt < 2 ^ min (fieldBits dt) (16 * m.wordCount.toNat)
  | .uint u => isUnsigned dt = true ∧ u.toNat < 2 ^ min (fieldBits dt) (16 * m.wordCount.toNat)
  | _ => False

/-- The bits of a number, below zero in two's complement. -/
def valueBits : Value → Nat
  | .int i => i.toUInt64.toNat
  | .uint u => u.toNat
  | _ => 0

/-- The words of a number in the order of the mapping. -/
def layoutWords (order : ByteOrder) (count bits : Nat) : List UInt16 :=
  let words := (List.range count).map fun k => (bits / 2 ^ (16 * k)).toUInt16
  match order with
  | .bigEndian => words.reverse
  | .littleEndian => words

/-- The register with one bit set to `b`. -/
def setBit (old : UInt16) (k : UInt8) (b : Bool) : UInt16 :=
  if b then old ||| (1 <<< k.toUInt16) else old &&& ~~~(1 <<< k.toUInt16)

section

variable [F64Ops]

/-- Values and register contents survive in both directions, in the declared layout. -/
structure RoundTrips (m : RegisterLayout) (dt : FieldDataType) : Prop where
  value : ∀ v, FitsField m dt v → readField m dt (writeField m v) = v
  raw : ∀ words : List UInt16, words.length = m.wordCount.toNat →
    writeField m (readField m dt words) = words
  layout : ∀ v, FitsField m dt v →
    writeField m v = layoutWords m.byteOrder m.wordCount.toNat (valueBits v)

/-- The bit `k` of the register is what is read, and all that is written. -/
structure OnlyBit (m : RegisterLayout) (k : UInt8) : Prop where
  read : ∀ r : UInt16, readField m .bool [r] = .bool (r.toNat.testBit k.toNat)
  write : ∀ (old : UInt16) (b : Bool), writeField m (.bool b) = [setBit old k b]

/-- What is asked of the conversions for a field of type `dt`. -/
def ConversionLaw (m : RegisterLayout) : FieldDataType → Prop
  | .bool => ∀ k, m.bit = some k → k.toNat < 16 → OnlyBit m k
  | .real | .lreal | .string | .time => True
  | dt => RoundTrips m dt

end

/-- The fields whose values survive. -/
def Convertible (m : RegisterLayout) : FieldDataType → Prop
  | .bool => ∀ k, m.bit = some k → 16 ≤ k.toNat
  | .real | .lreal | .string | .time => True
  | dt => isUnsigned dt = true ∧ m.wordCount = 1

/-! ## Whole numbers of one register -/

/-- What a double does with the numbers of one register. -/
structure WordReals [F64Ops] : Prop where
  add_zero : ∀ (u : UInt64) (z : F64), u.toNat < 65536 → z.eq F64.zero = true →
    F64Ops.add (F64Ops.ofUInt u) z = F64Ops.ofUInt u
  sub_zero : ∀ (u : UInt64) (z : F64), u.toNat < 65536 → z.eq F64.zero = true →
    F64Ops.sub (F64Ops.ofUInt u) z = F64Ops.ofUInt u
  not_below : ∀ u : UInt64, u.toNat < 65536 → (F64Ops.ofUInt u).lt F64.zero = false
  not_above : ∀ u : UInt64, u.toNat < 65536 →
    F64.lt ⟨0x40EFFFE000000000⟩ (F64Ops.ofUInt u) = false
  toUInt_ofUInt : ∀ u : UInt64, u.toNat < 65536 → F64Ops.toUInt (F64Ops.ofUInt u) = u
  toInt_ofUInt : ∀ u : UInt64, u.toNat < 65536 → F64Ops.toInt (F64Ops.ofUInt u) = u.toInt64
  minus_one : ∀ z : F64, z.eq F64.zero = true → (F64Ops.sub (F64Ops.ofInt (-1)) z).lt F64.zero = true
  toUInt_zero : F64Ops.toUInt F64.zero = 0

section

variable [F64Ops] {m : RegisterLayout}

omit [F64Ops] in
theorem lift_lt (r : UInt16) : r.toUInt64.toNat < 65536 := by
  rw [UInt16.toNat_toUInt64]
  exact r.toNat_lt

/-- A register holds the number itself. -/
theorem readField_word (R : WordReals) (hm : m.Unscaled) {dt : FieldDataType}
    (hdt : isUnsigned dt = true) (words : List UInt16) :
    readField m dt words = .uint (words.headD 0).toUInt64 := by
  have hadd := R.add_zero (words.headD 0).toUInt64 _ (lift_lt _) hm.2
  have hto := R.toUInt_ofUInt (words.headD 0).toUInt64 (lift_lt _)
  cases dt <;> first
    | exact absurd hdt (by decide)
    | simp only [readField, registerToValue, hm.1, hadd, hto]

theorem readField_signed (R : WordReals) (hm : m.Unscaled) {dt : FieldDataType}
    (hdt : isSigned dt = true) (words : List UInt16) :
    readField m dt words = .int (words.headD 0).toUInt64.toInt64 := by
  have hadd := R.add_zero (words.headD 0).toUInt64 _ (lift_lt _) hm.2
  have hto := R.toInt_ofUInt (words.headD 0).toUInt64 (lift_lt _)
  cases dt <;> first
    | exact absurd hdt (by decide)
    | simp only [readField, registerToValue, hm.1, hadd, hto]

/-- A number below `2 ^ 16` is written as it is. -/
theorem writeField_word (R : WordReals) (hm : m.Unscaled) {u : UInt64} (hu : u.toNat < 65536) :
    writeField m (.uint u) = [u.toUInt16] := by
  have hclamp : clampWord (F64Ops.ofUInt u) = F64Ops.ofUInt u := by
    simp only [clampWord, R.not_below u hu, R.not_above u hu, Bool.false_eq_true, if_false]
  simp only [writeField, valueToRegister, hm.1, R.sub_zero u _ hu hm.2, hclamp, R.toUInt_ofUInt u hu]

/-- A negative number is written as zero. -/
theorem writeField_negative (R : WordReals) (hm : m.Unscaled) :
    writeField m (.int (-1)) = [0] := by
  have hclamp : clampWord (F64Ops.sub (F64Ops.ofInt (-1)) (m.offset.getD F64.zero)) = F64.zero := by
    rw [clampWord, if_pos (R.minus_one _ hm.2)]
  simp only [writeField, valueToRegister, hm.1, hclamp, R.toUInt_zero]
  rfl

/-! ## When the law holds -/

theorem roundTrips_count {dt : FieldDataType} (h : RoundTrips m dt) : m.wordCount = 1 := by
  have hraw := h.raw (List.replicate m.wordCount.toNat 0) List.length_replicate
  have hlen := congrArg List.length hraw
  rw [List.length_replicate] at hlen
  exact UInt8.toNat_inj.mp hlen.symm

omit [F64Ops] in
theorem layoutWords_one (order : ByteOrder) (u : UInt64) :
    layoutWords order (1 : UInt8).toNat (valueBits (.uint u)) = [u.toUInt16] := by
  have hw : (u.toNat / 2 ^ (16 * 0)).toUInt16 = u.toUInt16 := by
    apply UInt16.toNat_inj.mp
    rw [Nat.mul_zero, Nat.pow_zero, Nat.div_one, UInt64.toNat_toUInt16]
    exact UInt16.toNat_ofNat'
  cases order with
  | bigEndian => exact congrArg (fun w => [w]) hw
  | littleEndian => exact congrArg (fun w => [w]) hw

theorem roundTrips_unsigned (R : WordReals) (hm : m.Unscaled) {dt : FieldDataType}
    (hdt : isUnsigned dt = true) (hone : m.wordCount = 1) : RoundTrips m dt := by
  have hword : ∀ v, FitsField m dt v → ∃ u : UInt64, v = .uint u ∧ u.toNat < 65536 := by
    intro v hv
    cases v with
    | uint u =>
      refine ⟨u, rfl, Nat.lt_of_lt_of_le hv.2 ?_⟩
      rw [hone]
      exact Nat.pow_le_pow_right (by decide) (Nat.min_le_right _ _)
    | int i =>
      have := hv.1
      cases dt <;> first
        | exact absurd this (by decide)
        | exact absurd hdt (by decide)
    | _ => exact absurd hv (by simp [FitsField])
  have hlow : ∀ u : UInt64, u.toNat < 65536 → u.toUInt16.toUInt64 = u := by
    intro u hu
    apply UInt64.toNat_inj.mp
    rw [UInt16.toNat_toUInt64, UInt64.toNat_toUInt16]
    omega
  constructor
  · intro v hv
    obtain ⟨u, rfl, hu⟩ := hword v hv
    rw [writeField_word R hm hu, readField_word R hm hdt, List.headD_cons, hlow u hu]
  · intro words hlen
    rw [hone] at hlen
    obtain ⟨r, rfl⟩ := List.length_eq_one_iff.mp hlen
    rw [readField_word R hm hdt, List.headD_cons, writeField_word R hm (lift_lt r)]
    congr 1
    apply UInt16.toNat_inj.mp
    rw [UInt64.toNat_toUInt16, UInt16.toNat_toUInt64]
    have := r.toNat_lt
    omega
  · intro v hv
    obtain ⟨u, rfl, hu⟩ := hword v hv
    rw [writeField_word R hm hu, hone]
    exact (layoutWords_one m.byteOrder u).symm

theorem not_roundTrips_signed (R : WordReals) (hm : m.Unscaled) {dt : FieldDataType}
    (hdt : isSigned dt = true) : ¬ RoundTrips m dt := by
  intro h
  have hfits : FitsField m dt (.int (-1)) := by
    have hone := roundTrips_count h
    cases dt <;> first
      | exact absurd hdt (by decide)
      | rw [FitsField, hone]; decide
  have := h.value _ hfits
  rw [writeField_negative R hm, readField_signed R hm hdt] at this
  exact absurd this (by decide)

/-- A bit of the register is read as one of all its bits. -/
theorem not_onlyBit {k : UInt8} : ¬ OnlyBit m k := by
  intro h
  have hread : ∀ r : UInt16, readField m .bool [r] = .bool (decide (r ≠ 0)) := fun _ => rfl
  by_cases h0 : k.toNat = 0
  · have := (hread 2).symm.trans (h.read 2)
    rw [h0] at this
    exact absurd this (by decide)
  · have := (hread 1).symm.trans (h.read 1)
    have hbit : (1 : UInt16).toNat.testBit k.toNat = false := by
      rw [show (1 : UInt16).toNat = 2 ^ 0 from rfl, Nat.testBit_two_pow]
      simpa using Ne.symm h0
    rw [hbit] at this
    exact absurd this (by decide)

/-- **A field that is neither scaled nor shifted survives both directions exactly when it is
unsigned and of one register**; a single bit of a register never does. -/
theorem conversion_law_iff (R : WordReals) (m : RegisterLayout) (dt : FieldDataType)
    (hm : m.Unscaled) : ConversionLaw m dt ↔ Convertible m dt := by
  have hnumber : ∀ dt : FieldDataType, isSigned dt = true ∨ isUnsigned dt = true →
      (RoundTrips m dt ↔ isUnsigned dt = true ∧ m.wordCount = 1) := by
    intro dt hdt
    constructor
    · intro h
      refine ⟨hdt.resolve_left fun hs => not_roundTrips_signed R hm hs h, roundTrips_count h⟩
    · intro h
      exact roundTrips_unsigned R hm h.1 h.2
  cases dt with
  | bool =>
    constructor
    · intro h k hk
      apply Nat.le_of_not_lt
      intro hlt
      exact not_onlyBit (h k hk hlt)
    · intro h k hk hlt
      exact absurd hlt (Nat.not_lt.mpr (h k hk))
  | real | lreal | string | time => exact Iff.rfl
  | sint | int | dint | lint => exact hnumber _ (.inl rfl)
  | usint | uint | udint | ulint | byte | word | dword | lword => exact hnumber _ (.inr rfl)

end

/-! ## Doubles that hold the numbers of one register -/

/-- The double of a whole number. -/
def wholeDouble (n : Nat) : F64 := ⟨(Binary64.natBits n).toUInt64⟩

/-- The whole part of a double without its sign. -/
def wholePart (x : F64) : Nat := Binary64.floor (x.bits &&& 0x7FFFFFFFFFFFFFFF).toNat

/-- Doubles for whole numbers that are neither scaled nor shifted. -/
@[reducible] def wholeReals : F64Ops :=
  { (default : F64Ops) with
    ofUInt := fun u => wholeDouble u.toNat
    ofInt := fun i => if i < 0 then (wholeDouble i.toInt.natAbs).neg else wholeDouble i.toInt.natAbs
    toUInt := fun x => if x.order < 0 then 0 else (wholePart x).toUInt64
    toInt := fun x => if x.order < 0 then -(wholePart x).toInt64 else (wholePart x).toInt64 }

theorem natBits_top : Binary64.natBits 65535 = 0x40EFFFE000000000 := by
  have : Nat.log 2 65535 = 15 := Nat.log_eq_of_pow_le_of_lt_pow (by decide) (by decide)
  rw [Binary64.natBits, if_neg (by decide), this]
  decide

theorem wholeDouble_mag {n : Nat} (hn : n < 65536) :
    ((wholeDouble n).bits &&& 0x7FFFFFFFFFFFFFFF).toNat = Binary64.natBits n := by
  have hlt := Binary64.natBits_lt (show n < 2 ^ 53 by omega)
  rw [UInt64.toNat_and, show (0x7FFFFFFFFFFFFFFF : UInt64).toNat = 2 ^ 63 - 1 from rfl,
    Nat.and_two_pow_sub_one_eq_mod]
  show (UInt64.ofNat (Binary64.natBits n)).toNat % 2 ^ 63 = _
  rw [UInt64.toNat_ofNat']
  omega

theorem wholeDouble_order {n : Nat} (hn : n < 65536) :
    (wholeDouble n).order = (Binary64.natBits n : Int) := by
  have hlt := Binary64.natBits_lt (show n < 2 ^ 53 by omega)
  have hsign : (wholeDouble n).bits &&& 0x8000000000000000 = 0 := by
    apply UInt64.toNat_inj.mp
    rw [UInt64.toNat_and]
    show (UInt64.ofNat (Binary64.natBits n)).toNat &&& 2 ^ 63 = 0
    rw [UInt64.toNat_ofNat', Nat.and_two_pow, Nat.mod_eq_of_lt (by omega),
      Nat.testBit_lt_two_pow (by omega)]
    rfl
  simp only [F64.order, hsign, if_true, wholeDouble_mag hn]

theorem wholePart_wholeDouble {n : Nat} (hn : n < 65536) : wholePart (wholeDouble n) = n := by
  rw [wholePart, wholeDouble_mag hn, Binary64.floor_natBits (by omega)]

theorem wholeReals_laws : @WordReals wholeReals := by
  refine @WordReals.mk wholeReals (fun _ _ _ _ => rfl) (fun _ _ _ _ => rfl) ?_ ?_ ?_ ?_ ?_ ?_
  · intro u hu
    show (wholeDouble u.toNat).lt F64.zero = false
    have h0 : F64.zero.order = 0 := by decide
    have : ¬ (wholeDouble u.toNat).order < F64.zero.order := by
      rw [wholeDouble_order hu, h0]
      omega
    simp only [F64.lt, decide_eq_false this, Bool.and_false]
  · intro u hu
    show F64.lt ⟨0x40EFFFE000000000⟩ (wholeDouble u.toNat) = false
    have htop : (⟨0x40EFFFE000000000⟩ : F64).order = 0x40EFFFE000000000 := by decide
    have hle := Binary64.natBits_le (show u.toNat ≤ 65535 by omega) (by decide)
    rw [natBits_top] at hle
    have : ¬ (⟨0x40EFFFE000000000⟩ : F64).order < (wholeDouble u.toNat).order := by
      rw [wholeDouble_order hu, htop]
      omega
    simp only [F64.lt, decide_eq_false this, Bool.and_false]
  · intro u hu
    show (if (wholeDouble u.toNat).order < 0 then 0 else (wholePart (wholeDouble u.toNat)).toUInt64) = u
    rw [if_neg (by rw [wholeDouble_order hu]; omega), wholePart_wholeDouble hu]
    simp
  · intro u hu
    show (if (wholeDouble u.toNat).order < 0 then _ else (wholePart (wholeDouble u.toNat)).toInt64) = _
    rw [if_neg (by rw [wholeDouble_order hu]; omega), wholePart_wholeDouble hu]
    exact congrArg UInt64.toInt64 UInt64.ofNat_toNat
  · intro z _
    show (wholeDouble 1).neg.lt F64.zero = true
    have : wholeDouble 1 = ⟨0x3FF0000000000000⟩ := by
      simp [wholeDouble, Binary64.natBits]
    rw [this]
    decide
  · decide

/-- An INT in one holding register. -/
def intField : RegisterLayout :=
  { address := 4, kind := .holdingRegister, scale := none, offset := none, bit := none
    byteOrder := .bigEndian, wordCount := 1 }

/-- A word of one register is such a field. -/
theorem word_converts :
    @ConversionLaw wholeReals intField .word ↔ Convertible intField .word :=
  @conversion_law_iff wholeReals wholeReals_laws intField .word ⟨rfl, by decide⟩

/-- The setpoint `-1` reaches the device as zero and comes back as zero. -/
theorem negative_setpoint_lost :
    intField.Unscaled ∧ FitsField intField .int (.int (-1)) ∧
      @writeField wholeReals intField (.int (-1)) = [0] ∧
      @readField wholeReals intField .int (@writeField wholeReals intField (.int (-1))) ≠
        .int (-1) := by
  have hm : intField.Unscaled := ⟨rfl, by decide⟩
  have hw := @writeField_negative wholeReals intField wholeReals_laws hm
  refine ⟨hm, by rw [FitsField]; decide, hw, ?_⟩
  rw [hw, @readField_signed wholeReals intField wholeReals_laws hm .int rfl]
  decide

end RustPlc.Devices
