import RustPlc.L4Agree.Arithmetic

/-!
# Partial access

`.%X`, `.%B`, `.%W`, `.%D` and `.%L` (crates/st-compiler/src/compile.rs:899-931,
1227-1249; crates/st-engine/src/vm.rs:1767-1798) read and write a part of a
64-bit word. The shifts are arithmetic, and the mask takes their sign
extension away again.

A part is its bits (`partOf`, `withPart`), so that a law between reading and
writing is one about bits.

Results:
* `partOf_word`: a part is a quotient and a remainder of the unsigned word;
* `partial_access_laws`: what was written is read back, other parts stay, a
  part written back changes nothing, and the parts of a part are parts of the
  word;
* `sources_not_truncated`: a bit is written from a truth value, and the part of
  64 bits is a signed integer.
-/
namespace RustPlc.Ir

variable [F64Ops]

/-- The 64 bits of a value, read as an unsigned number. -/
def Value.word (v : Value) : Nat := v.asInt.toBitVec.toNat

theorem Value.testBit_word (v : Value) (k : Nat) :
    v.word.testBit k = (decide (k < 64) && v.bit k) := by
  unfold Value.word
  rw [BitVec.testBit_toNat]
  by_cases hk : k < 64
  · rw [v.bit_low hk]
    simp [hk]
  · rw [BitVec.getLsbD_of_ge _ _ (Nat.le_of_not_lt hk)]
    simp [hk]

theorem bit_fromBits (bits : Nat → Bool) {k : Nat} (hk : k < 64) :
    (Value.int (fromBits bits)).bit k = bits k := by
  rw [← Value.bit_low _ hk]
  exact getLsbD_fromBits bits hk

/-- A word is the integer with its bits. -/
theorem fromBits_bit (v : Value) : fromBits v.bit = v.asInt :=
  (fromBits_eq_iff.mpr fun _ hk => v.bit_low hk).symm

end RustPlc.Ir

namespace RustPlc.Engine

open RustPlc.Ir RustPlc.Syntax RustPlc.Compiler

section

variable [F64Ops] {kind : PartialAccessKind}

/-! ## Parts and their bits -/

/-- Part `index` starts in the word. -/
def PartExists (kind : PartialAccessKind) (index : UInt8) : Prop :=
  index.toNat * partWidth kind < 64

instance (kind : PartialAccessKind) (index : UInt8) : Decidable (PartExists kind index) :=
  inferInstanceAs (Decidable (_ < _))

theorem bit_partOf {i k : Nat} (hk : k < 64) (v : Value) :
    (partOf kind i v).bit k =
      (decide (k < partWidth kind) && v.bit (i * partWidth kind + k)) := by
  cases kind with
  | bit =>
    have hone : ∀ k < 64, (1 : Int64).toBitVec.getLsbD k = decide (k < 1) := by decide
    have hzero : ∀ k < 64, (0 : Int64).toBitVec.getLsbD k = false := by decide
    show (Value.bool (v.bit i)).bit k = (decide (k < 1) && v.bit (i * 1 + k))
    rw [← Value.bit_low _ hk, Nat.mul_one]
    by_cases hk0 : k = 0
    · subst hk0
      cases v.bit i with
      | false => exact hzero 0 hk
      | true => exact hone 0 hk
    · have hlt : decide (k < 1) = false := by simp [hk0]
      rw [hlt]
      cases v.bit i with
      | false => exact hzero k hk
      | true => exact (hone k hk).trans hlt
  | _ => exact bit_fromBits _ hk

/-- A part is a quotient and a remainder of the word. -/
theorem partOf_word {i : Nat} (h : i * partWidth kind < 64) (v : Value) :
    (partOf kind i v).word = v.word / 2 ^ (i * partWidth kind) % 2 ^ partWidth kind := by
  apply Nat.eq_of_testBit_eq
  intro k
  rw [Nat.testBit_mod_two_pow, Nat.testBit_div_two_pow, Value.testBit_word, Value.testBit_word]
  by_cases hk : k < partWidth kind
  · have hsum := part_end h hk
    rw [bit_partOf (by omega)]
    simp [hk, hsum, Nat.add_comm k, show k < 64 by omega]
  · by_cases hk64 : k < 64
    · rw [bit_partOf hk64]
      simp [hk]
    · simp [hk, hk64]

/-- Below bit 64 the base with a new part has the bits of the part in its
place. -/
theorem bit_withPart (i : Nat) (base v : Value) {k : Nat} (hk : k < 64) :
    (withPart kind i base v).bit k =
      if i * partWidth kind ≤ k ∧ k < i * partWidth kind + partWidth kind
      then newBit kind v (k - i * partWidth kind) else base.bit k :=
  bit_fromBits _ hk

/-- Bit `k` of a part that is written back. -/
theorem newBit_partOf {i k : Nat} (hk : k < partWidth kind) (v : Value) :
    newBit kind (partOf kind i v) k = v.bit (i * partWidth kind + k) := by
  cases kind with
  | bit =>
    have hk0 : k = 0 := Nat.lt_one_iff.mp hk
    rw [hk0]
    show v.bit i = v.bit (i * 1 + 0)
    rw [Nat.mul_one, Nat.add_zero]
  | _ =>
    refine (bit_partOf (Nat.lt_of_lt_of_le hk (partWidth_le _)) v).trans ?_
    simp [hk]

theorem partOf_congr {i j : Nat} {v w : Value}
    (h : ∀ k < partWidth kind, v.bit (i * partWidth kind + k) = w.bit (j * partWidth kind + k)) :
    partOf kind i v = partOf kind j w := by
  have hbits : fromBits (fun k => decide (k < partWidth kind) && v.bit (i * partWidth kind + k)) =
      fromBits (fun k => decide (k < partWidth kind) && w.bit (j * partWidth kind + k)) := by
    apply fromBits_inj.mpr
    intro k _
    by_cases hk : k < partWidth kind
    · rw [h k hk]
    · simp [hk]
  cases kind with
  | bit =>
    have h0 := h 0 Nat.one_pos
    simp only [partWidth, Nat.mul_one, Nat.add_zero] at h0
    exact congrArg Value.bool h0
  | _ => exact congrArg Value.int hbits

/-! ## The laws -/

/-- What a part holds after `v` has been written into it: the truth value for a
bit, and the low bits, unsigned, for a wider part. -/
def partWritten (kind : PartialAccessKind) (v : Value) : Value :=
  match kind with
  | .bit => .bool v.asBool
  | kind => .int (Int64.ofNat (v.word % 2 ^ partWidth kind))

theorem partWritten_eq (v : Value) {i : Nat} {u : Value}
    (h : ∀ k < partWidth kind, u.bit (i * partWidth kind + k) = newBit kind v k) :
    partOf kind i u = partWritten kind v := by
  have hword : kind ≠ .bit → Value.int (fromBits fun k =>
      decide (k < partWidth kind) && u.bit (i * partWidth kind + k)) =
        .int (Int64.ofNat (v.word % 2 ^ partWidth kind)) := by
    intro hne
    refine congrArg Value.int (fromBits_eq_iff.mpr fun k hk => ?_).symm
    have hnew : newBit kind v k = v.bit k := by
      cases kind with
      | bit => exact absurd rfl hne
      | _ => rfl
    show (BitVec.ofNat 64 _).getLsbD k = _
    rw [BitVec.getLsbD_ofNat, Nat.testBit_mod_two_pow, Value.testBit_word]
    by_cases hkw : k < partWidth kind
    · rw [h k hkw, hnew]
      simp [hk, hkw]
    · simp [hkw]
  cases kind with
  | bit =>
    have h0 := h 0 Nat.one_pos
    simp only [partWidth, Nat.mul_one, Nat.add_zero] at h0
    exact congrArg Value.bool h0
  | _ => exact hword (by simp)

omit [F64Ops] in
/-- The bits of two parts of one kind are apart. -/
theorem part_apart {i j k : Nat} (hne : j ≠ i) (hk : k < partWidth kind) :
    ¬ (i * partWidth kind ≤ j * partWidth kind + k ∧
      j * partWidth kind + k < i * partWidth kind + partWidth kind) := by
  cases kind <;> simp only [partWidth] at * <;> omega

omit [F64Ops] in
/-- The bits of a part of a part. -/
theorem part_of_part {sub : PartialAccessKind} {i j : Nat} (hi : i * partWidth kind < 64)
    (hj : (j + 1) * partWidth sub ≤ partWidth kind) :
    (i * (partWidth kind / partWidth sub) + j) * partWidth sub =
        i * partWidth kind + j * partWidth sub ∧
      i * (partWidth kind / partWidth sub) + j < 64 := by
  cases kind <;> cases sub <;> simp only [partWidth] at * <;> omega

/-- The value that is read back is the integer that the low bits of the source
stand for, unsigned. -/
def Truncates (kind : PartialAccessKind) (i : UInt8) (x v : Value) : Prop :=
  ∃ y p, insertOf kind i x v = .ok y ∧ extractOf kind i y = .ok p ∧
    p.number = (v.word % 2 ^ partWidth kind : Nat)

/-- The parts of one kind, over all words. -/
structure PartLaws (kind : PartialAccessKind) : Prop where
  /-- What was written is read back. -/
  put_get : ∀ (i : UInt8) (x v : Value), PartExists kind i →
    ∃ y, insertOf kind i x v = .ok y ∧ extractOf kind i y = .ok (partWritten kind v)
  /-- A byte, a word and a double word come back as unsigned numbers. -/
  truncates : kind ≠ .bit → kind ≠ .lword → ∀ (i : UInt8) (x v : Value), PartExists kind i →
    Truncates kind i x v
  /-- Another part stays as it was. -/
  put_other : ∀ (i j : UInt8) (x v : Value), PartExists kind i → PartExists kind j → j ≠ i →
    ∃ y p, insertOf kind i x v = .ok y ∧ extractOf kind j x = .ok p ∧ extractOf kind j y = .ok p
  /-- A part that is written back changes nothing. -/
  get_put : ∀ (i : UInt8) (x : Value), PartExists kind i →
    ∃ p, extractOf kind i x = .ok p ∧ insertOf kind i x p = .ok (.int x.asInt)
  /-- Part `j` of part `i` is a part of the word. -/
  views : ∀ (sub : PartialAccessKind) (i j : UInt8) (x : Value), PartExists kind i →
    (j.toNat + 1) * partWidth sub ≤ partWidth kind →
    ∃ p q, extractOf kind i x = .ok p ∧ extractOf sub j p = .ok q ∧
      extractOf sub (UInt8.ofNat (i.toNat * (partWidth kind / partWidth sub) + j.toNat)) x = .ok q

theorem insertOf_ok {i : UInt8} (h : PartExists kind i) (x v : Value) :
    insertOf kind i x v = .ok (withPart kind i.toNat x v) := by
  rw [insertOf_eq]
  exact if_pos h

theorem extractOf_ok {i : UInt8} (h : PartExists kind i) (x : Value) :
    extractOf kind i x = .ok (partOf kind i.toNat x) := by
  rw [extractOf_eq]
  exact if_pos h

theorem put_get {i : UInt8} (h : PartExists kind i) (x v : Value) :
    partOf kind i.toNat (withPart kind i.toNat x v) = partWritten kind v := by
  apply partWritten_eq
  intro k hk
  rw [bit_withPart _ _ _ (part_end h hk), if_pos ⟨Nat.le_add_right _ _, by omega⟩,
    Nat.add_sub_cancel_left]

theorem put_other {i j : UInt8} (hj : PartExists kind j) (hne : j ≠ i) (x v : Value) :
    partOf kind j.toNat (withPart kind i.toNat x v) = partOf kind j.toNat x := by
  apply partOf_congr
  intro k hk
  have hapart := part_apart (i := i.toNat) (fun he => hne (UInt8.toNat_inj.mp he)) hk
  rw [bit_withPart _ _ _ (part_end hj hk), if_neg hapart]

theorem get_put (i : UInt8) (x : Value) :
    withPart kind i.toNat x (partOf kind i.toNat x) = .int x.asInt := by
  unfold withPart
  rw [← fromBits_bit x]
  refine congrArg Value.int (fromBits_inj.mpr fun k _ => ?_)
  by_cases hin : i.toNat * partWidth kind ≤ k ∧ k < i.toNat * partWidth kind + partWidth kind
  · rw [if_pos hin, newBit_partOf (by omega), Nat.add_sub_cancel' hin.1]
  · rw [if_neg hin]

theorem views_agree {sub : PartialAccessKind} {i j : Nat} (hi : i * partWidth kind < 64)
    (hj : (j + 1) * partWidth sub ≤ partWidth kind) (x : Value) :
    partOf sub j (partOf kind i x) =
      partOf sub (i * (partWidth kind / partWidth sub) + j) x := by
  apply partOf_congr
  intro k hk
  have hin : j * partWidth sub + k < partWidth kind := by
    rw [Nat.succ_mul] at hj
    omega
  have hin64 := Nat.lt_of_lt_of_le hin (partWidth_le kind)
  rw [bit_partOf hin64, (part_of_part hi hj).1]
  simp [hin, Nat.add_assoc]

theorem partWritten_number (hbit : kind ≠ .bit) (hlword : kind ≠ .lword) (v : Value) :
    (partWritten kind v).number = (v.word % 2 ^ partWidth kind : Nat) := by
  have hlow : ∀ n < 2 ^ 32, (Int64.ofNat n).toInt = n := fun n hn =>
    Int64.toInt_ofNat_of_lt (by omega)
  cases kind with
  | bit => exact absurd rfl hbit
  | lword => exact absurd rfl hlword
  | byte | word | dword => exact hlow _ (by simp only [partWidth]; omega)

/-- **Reading and writing parts of a word obey the laws of a store.** -/
theorem partial_access_laws (kind : PartialAccessKind) : PartLaws kind where
  put_get i x v h := by
    refine ⟨_, insertOf_ok h x v, ?_⟩
    rw [extractOf_ok h, put_get h]
  truncates hbit hlword i x v h := by
    refine ⟨_, _, insertOf_ok h x v, extractOf_ok h _, ?_⟩
    rw [put_get h]
    exact partWritten_number hbit hlword v
  put_other i j x v hi hj hne := by
    refine ⟨_, _, insertOf_ok hi x v, extractOf_ok hj x, ?_⟩
    rw [extractOf_ok hj, put_other hj hne]
  get_put i x h := by
    refine ⟨_, extractOf_ok h x, ?_⟩
    rw [insertOf_ok h, get_put]
  views sub i j x hi hj := by
    obtain ⟨heq, hlt⟩ := part_of_part hi hj
    have hnat : (UInt8.ofNat (i.toNat * (partWidth kind / partWidth sub) + j.toNat)).toNat =
        i.toNat * (partWidth kind / partWidth sub) + j.toNat := by
      rw [UInt8.toNat_ofNat']
      omega
    have hpos : 0 < partWidth sub := by cases sub <;> decide
    have hend : (j.toNat + 1) * partWidth sub ≤ 64 := Nat.le_trans hj (partWidth_le kind)
    have hwhole := @part_end kind i.toNat (j.toNat * partWidth sub) hi (by
      rw [Nat.succ_mul] at hj
      omega)
    have hsub : PartExists sub j := by
      unfold PartExists
      rw [Nat.succ_mul] at hend
      omega
    have hword : PartExists sub
        (UInt8.ofNat (i.toNat * (partWidth kind / partWidth sub) + j.toNat)) := by
      unfold PartExists
      rw [hnat, heq]
      exact hwhole
    refine ⟨_, _, extractOf_ok hi x, extractOf_ok hsub _, ?_⟩
    rw [extractOf_ok hword, hnat, views_agree hi hj]

end

/-- 2 sets a bit whose low bit is clear, and the whole word comes back as the
signed integer. -/
theorem sources_not_truncated : let _ : F64Ops := default
    ¬ Truncates .bit 0 (.int 0) (.int 2) ∧ ¬ Truncates .lword 0 (.int 0) (.int (-1)) := by
  let _ : F64Ops := default
  constructor
  · rintro ⟨y, p, hy, hp, hn⟩
    obtain rfl := Except.ok.inj (hy.symm.trans (show _ = Except.ok (Value.int 1) by decide))
    obtain rfl := Except.ok.inj (hp.symm.trans (show _ = Except.ok (Value.bool true) by decide))
    exact absurd hn (by decide)
  · rintro ⟨y, p, hy, hp, hn⟩
    obtain rfl := Except.ok.inj (hy.symm.trans (show _ = Except.ok (Value.int (-1)) by decide))
    obtain rfl := Except.ok.inj (hp.symm.trans (show _ = Except.ok (Value.int (-1)) by decide))
    exact absurd hn (by decide)

end RustPlc.Engine
