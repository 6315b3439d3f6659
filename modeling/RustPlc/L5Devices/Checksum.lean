import RustPlc.Core.ShiftRegister
import RustPlc.L5Devices.Modbus

/-!
# Error detection of the Modbus checksum

The checksum is what a shift register of 16 bits holds after the bits of the data,
the least significant bit of each byte first. A frame passes the check when the
register is empty after its last bit. The register is linear, so what an error
pattern leaves in an empty register is added to that: a burst of up to 16 bits
leaves something.

Results:
* `register_toBitVec`: the loop over bytes is the register fed with bits;
* `verifyCrc_iff_empty`: what it means to pass the check;
* `crc_detects_bursts`: frames with their checksum pass, and no burst is missed.
-/
namespace RustPlc.Devices

open RustPlc.Core.ShiftRegister

/-- The bits of a frame in the order of their transmission. -/
def transmitted (frame : Bytes) : List Bool := frame.flatMap byteBits

/-- A frame with the bits of an error pattern turned over. -/
def corrupted (frame error : Bytes) : Bytes := List.zipWith (· ^^^ ·) frame error

/-! ## Bytes and bits -/

theorem forall_byte {p : UInt8 → Prop} (h : ∀ n : Fin 256, p (UInt8.ofFin n)) (b : UInt8) : p b :=
  h b.toFin

/-- The bits of a byte, checked for every byte. -/
theorem byteBits_all (b : UInt8) : byteBits b = (List.range 8).map b.toBitVec.getLsbD ∧
    (b ≠ 0 → true ∈ byteBits b) ∧ packed 16 (byteBits b) = b.toBitVec.setWidth 16 := by
  revert b
  exact forall_byte (by decide +kernel)

theorem byteBits_eq (b : UInt8) : byteBits b = (List.range 8).map b.toBitVec.getLsbD :=
  (byteBits_all b).1

theorem byteBits_length (b : UInt8) : (byteBits b).length = 8 := by simp [byteBits]

theorem byteBits_xor (a b : UInt8) :
    byteBits (a ^^^ b) = List.zipWith (· ^^ ·) (byteBits a) (byteBits b) := by
  simp only [byteBits_eq, UInt8.toBitVec_xor, List.zipWith_map, List.zipWith_self]
  exact List.map_congr_left fun i _ => BitVec.getLsbD_xor

theorem true_mem_byteBits (b : UInt8) (h : b ≠ 0) : true ∈ byteBits b :=
  (byteBits_all b).2.1 h

theorem packed_byteBits (b : UInt8) : packed 16 (byteBits b) = b.toBitVec.setWidth 16 :=
  (byteBits_all b).2.2

theorem transmitted_append (xs ys : Bytes) :
    transmitted (xs ++ ys) = transmitted xs ++ transmitted ys := List.flatMap_append

theorem transmitted_length : ∀ frame : Bytes, (transmitted frame).length = 8 * frame.length
  | [] => rfl
  | b :: frame => by
    have : transmitted (b :: frame) = byteBits b ++ transmitted frame := rfl
    rw [this, List.length_append, byteBits_length, transmitted_length frame, List.length_cons]
    omega

theorem transmitted_corrupted : ∀ {frame error : Bytes}, error.length = frame.length →
    transmitted (corrupted frame error) =
      List.zipWith (· ^^ ·) (transmitted frame) (transmitted error)
  | [], [], _ => rfl
  | a :: frame, b :: error, h => by
    have hcons : ∀ (c : UInt8) (cs : Bytes), transmitted (c :: cs) = byteBits c ++ transmitted cs :=
      fun _ _ => rfl
    have hrest := transmitted_corrupted (Nat.succ.inj h)
    rw [hcons, hcons, List.zipWith_append (by rw [byteBits_length, byteBits_length]), ← byteBits_xor,
      ← hrest]
    rfl

/-! ## The register -/

/-- The polynomial, reflected. -/
def crcPoly : BitVec 16 := 0xA001

theorem crcPoly_msb : crcPoly.msb = true := by decide

theorem crcShift_toBitVec (c : UInt16) : (crcShift c).toBitVec = shift crcPoly c.toBitVec := by
  have hlow : c &&& 1 ≠ 0 ↔ c.toBitVec.getLsbD 0 = true := by
    rw [Ne, ← UInt16.toBitVec_inj, UInt16.toBitVec_and]
    have hand : c.toBitVec &&& (1 : UInt16).toBitVec =
        BitVec.setWidth 16 (BitVec.ofBool (c.toBitVec.getLsbD 0)) :=
      BitVec.and_one_eq_setWidth_ofBool_getLsbD
    rw [hand]
    cases c.toBitVec.getLsbD 0 <;> decide
  unfold crcShift shift
  by_cases h : c &&& 1 ≠ 0
  · rw [if_pos h, if_pos (hlow.mp h)]
    rfl
  · rw [if_neg h, if_neg fun h' => h (hlow.mpr h')]
    rfl

theorem crcShift_iterate (n : Nat) : ∀ c : UInt16,
    (crcShift^[n] c).toBitVec = (shift crcPoly)^[n] c.toBitVec := by
  induction n with
  | zero => exact fun _ => rfl
  | succ n ih =>
    intro c
    rw [Function.iterate_succ_apply, Function.iterate_succ_apply, ih, crcShift_toBitVec]

/-- The loop of `crc16`, from any content of the register. -/
def register (c : UInt16) (data : Bytes) : UInt16 :=
  data.foldl (fun crc (byte : UInt8) => crcShift^[8] (crc ^^^ byte.toUInt16)) c

theorem crc16_eq (data : Bytes) :
    crc16 data = ((register 0xFFFF data &&& 0xFF).toUInt8, (register 0xFFFF data >>> 8).toUInt8) := rfl

/-- **The loop over bytes is the register fed with bits.** -/
theorem register_toBitVec : ∀ (data : Bytes) (c : UInt16),
    (register c data).toBitVec = feedAll crcPoly c.toBitVec (transmitted data)
  | [], _ => rfl
  | b :: data, c => by
    have hstep : register c (b :: data) = register (crcShift^[8] (c ^^^ b.toUInt16)) data := rfl
    have hbits : transmitted (b :: data) = byteBits b ++ transmitted data := rfl
    have hbyte : feedAll crcPoly c.toBitVec (byteBits b) =
        (crcShift^[8] (c ^^^ b.toUInt16)).toBitVec := by
      rw [feedAll_eq_iterate crcPoly _ (by rw [byteBits_length]; omega), byteBits_length,
        packed_byteBits, crcShift_iterate]
      rfl
    rw [hstep, register_toBitVec data, hbits, feedAll_append, hbyte]

/-! ## The check -/

/-- The two bytes of the register, low byte first. -/
def crcBytes (c : BitVec 16) : Bytes := [⟨c.setWidth 8⟩, ⟨(c >>> 8).setWidth 8⟩]

theorem crc16_bytes (data : Bytes) :
    [(crc16 data).1, (crc16 data).2] = crcBytes (feedAll crcPoly 0xFFFF (transmitted data)) := by
  have hreg : (register 0xFFFF data).toBitVec = feedAll crcPoly 0xFFFF (transmitted data) :=
    register_toBitVec data 0xFFFF
  rw [← hreg, crc16_eq]
  generalize register 0xFFFF data = c
  have hlow : (c &&& 0xFF).toUInt8 = ⟨c.toBitVec.setWidth 8⟩ := by
    apply UInt8.toBitVec_inj.mp
    rw [UInt16.toBitVec_toUInt8, UInt16.toBitVec_and]
    rw [BitVec.setWidth_and]
    exact BitVec.and_allOnes
  have hhigh : (c >>> 8).toUInt8 = ⟨(c.toBitVec >>> 8).setWidth 8⟩ := by
    apply UInt8.toBitVec_inj.mp
    rw [UInt16.toBitVec_toUInt8, UInt16.toBitVec_shiftRight]
    rfl
  rw [hlow, hhigh]
  rfl

theorem packed_two_bytes (x y : UInt8) :
    packed 16 (transmitted [x, y]) = y.toBitVec ++ x.toBitVec := by
  have hbits : transmitted [x, y] = byteBits x ++ byteBits y := by simp [transmitted]
  rw [hbits, packed_append, packed_byteBits, packed_byteBits, byteBits_length]
  apply BitVec.eq_of_getLsbD_eq
  intro i hi
  rw [BitVec.getLsbD_append, BitVec.getLsbD_xor, BitVec.getLsbD_shiftLeft, BitVec.getLsbD_setWidth,
    BitVec.getLsbD_setWidth]
  by_cases h : i < 8
  · simp [h, hi]
  · have hx : x.toBitVec.getLsbD i = false := BitVec.getLsbD_of_ge _ _ (by omega)
    have hy : i - 8 < 16 := by omega
    simp [h, hi, hx, hy]

theorem crcBytes_eq_iff (c : BitVec 16) (x y : UInt8) :
    [x, y] = crcBytes c ↔ c = y.toBitVec ++ x.toBitVec := by
  have happ : ∀ i, (y.toBitVec ++ x.toBitVec : BitVec (8 + 8)).getLsbD i =
      if i < 8 then x.toBitVec.getLsbD i else y.toBitVec.getLsbD (i - 8) :=
    fun _ => BitVec.getLsbD_append
  unfold crcBytes
  simp only [List.cons.injEq, and_true, ← UInt8.toBitVec_inj]
  constructor
  · intro ⟨hx, hy⟩
    apply BitVec.eq_of_getLsbD_eq
    intro i hi
    refine Eq.trans ?_ (happ i).symm
    rw [hx, hy]
    by_cases h : i < 8
    · simp [h]
    · have hi8 : i - 8 < 8 := by omega
      simp [h, hi8, show 8 + (i - 8) = i by omega]
  · intro h
    have hbit : ∀ i, c.getLsbD i = _ := fun i => (congrArg (BitVec.getLsbD · i) h).trans (happ i)
    constructor
    · apply BitVec.eq_of_getLsbD_eq
      intro i hi
      rw [BitVec.getLsbD_setWidth, hbit]
      simp [hi]
    · apply BitVec.eq_of_getLsbD_eq
      intro i hi
      rw [BitVec.getLsbD_setWidth, BitVec.getLsbD_ushiftRight, hbit]
      simp [hi]

/-- **A frame passes the check when the register is empty behind it.** -/
theorem verifyCrc_iff_empty {frame : Bytes} (hlen : 3 ≤ frame.length) :
    verifyCrc frame = true ↔ feedAll crcPoly 0xFFFF (transmitted frame) = 0#16 := by
  obtain ⟨x, y, hxy⟩ : ∃ x y, frame.drop (frame.length - 2) = [x, y] :=
    List.length_eq_two.mp (by rw [List.length_drop]; omega)
  have hsplit : frame = frame.take (frame.length - 2) ++ [x, y] := by
    rw [← hxy, List.take_append_drop]
  generalize frame.take (frame.length - 2) = data at hsplit
  have hverify : verifyCrc frame = ([x, y] == [(crc16 data).1, (crc16 data).2]) := by
    subst hsplit
    unfold verifyCrc
    rw [if_neg (by omega)]
    simp
  have hbits : (transmitted [x, y]).length = 16 := transmitted_length [x, y]
  rw [hverify, beq_iff_eq, crc16_bytes, crcBytes_eq_iff, hsplit, transmitted_append, feedAll_append,
    feedAll_eq_iterate crcPoly _ (Nat.le_of_eq hbits), packed_two_bytes]
  constructor
  · intro h
    rw [h, BitVec.xor_self]
    exact Function.iterate_fixed (shift_zero crcPoly) _
  · intro h
    exact BitVec.xor_eq_zero_iff.mp (iterate_shift_eq_zero crcPoly_msb h)

theorem corrupted_length {frame error : Bytes} (h : error.length = frame.length) :
    (corrupted frame error).length = frame.length := by
  rw [corrupted, List.length_zipWith, h, Nat.min_self]

/-- **Frames with their checksum pass, and no burst of up to 16 bits goes
unnoticed**, whatever the length of the frame and wherever the burst lies. -/
theorem crc_detects_bursts :
    (∀ data : Bytes, data ≠ [] → verifyCrc (data ++ [(crc16 data).1, (crc16 data).2]) = true) ∧
      ∀ frame error : Bytes, verifyCrc frame = true → error.length = frame.length →
        (∃ b ∈ error, b ≠ 0) → WithinWindow 16 (transmitted error) →
          verifyCrc (corrupted frame error) = false := by
  constructor
  · intro data hne
    have hpos := List.length_pos_iff.mpr hne
    unfold verifyCrc
    rw [if_neg (by simp; omega)]
    simp
  · intro frame error hv hlen ⟨b, hb, hne⟩ hwindow
    have hlong : 3 ≤ frame.length := by
      unfold verifyCrc at hv
      split at hv
      · cases hv
      · omega
    have hone : true ∈ transmitted error :=
      List.mem_flatMap.mpr ⟨b, hb, true_mem_byteBits b hne⟩
    have hframe := (verifyCrc_iff_empty hlong).mp hv
    have hbits : (transmitted frame).length = (transmitted error).length := by
      rw [transmitted_length, transmitted_length, hlen]
    have hsum : feedAll crcPoly 0xFFFF (transmitted (corrupted frame error)) =
        feedAll crcPoly 0#16 (transmitted error) := by
      have hxor := feedAll_xor crcPoly 0xFFFF 0#16 hbits
      rw [hframe, BitVec.zero_xor, BitVec.xor_zero] at hxor
      rw [transmitted_corrupted hlen, hxor]
    cases hc : verifyCrc (corrupted frame error) with
    | false => rfl
    | true =>
      have hempty := (verifyCrc_iff_empty (by rw [corrupted_length hlen]; exact hlong)).mp hc
      rw [hsum] at hempty
      exact absurd hempty (feedAll_ne_zero crcPoly_msb hwindow hone)

/-- A request for ten registers; the last bit of its address and the first bit behind
it are turned over. -/
theorem burst_detected :
    verifyCrc (corrupted [1, 3, 0, 0, 0, 10, 0xC5, 0xCD] [0, 0, 0, 0x80, 1, 0, 0, 0]) = false := by
  apply crc_detects_bursts.2
  · decide +kernel
  · rfl
  · exact ⟨1, by decide, by decide⟩
  · refine ⟨31, fun i hi => ?_⟩
    have hlt : i < 64 := (List.getElem?_eq_some_iff.mp hi).1
    have hall : ∀ i < 64, (transmitted [0, 0, 0, 0x80, 1, 0, 0, 0])[i]? = some true →
        31 ≤ i ∧ i < 31 + 16 := by decide +kernel
    exact hall i hlt hi

end RustPlc.Devices
