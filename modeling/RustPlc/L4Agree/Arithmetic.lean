import RustPlc.Core.Wrapped
import RustPlc.L2Semantics.AnalyzeModule
import RustPlc.L3Vm.CompiledSafe

/-!
# Arithmetic that cannot stop the runtime

The arithmetic, partial-access, array and field instructions of `Vm::execute`
(crates/st-engine/src/vm.rs:1378-1426, 1767-1910) against what a source
program may rely on: a zero divisor is reported, every other result is the
mathematical one wrapped to 64 bits, and nothing panics.

`Operation` is an access or operator of the source with its registers,
`Operation.instruction` the instruction the compiler emits for it and
`Operation.specified` the behaviour to rely on. The integer of an operand is
`Value.number`: an unsigned value stands for itself, not for the negative
number the machine computes with.

A vector of values holds at most `capacity` of them; Rust panics where a
longer one is asked for.

Results
* `specified_reports`: the specified behaviour stops with no other trap than a
  division by zero.
* `arithmetic_specified_iff`: an instruction behaves as specified exactly when
  its operands meet `Operation.InRange`.
* `quotient_overflow_panics`: an accepted program divides the least number by
  minus one, and the process panics.
-/
namespace RustPlc.Ir

variable [F64Ops]

/-! ## The numbers of the operands -/

/-- The integer a value stands for. -/
def Value.number : Value → Int
  | .uint u => u.toNat
  | v => v.asInt.toInt

def Value.isReal : Value → Bool
  | .real _ => true
  | _ => false

/-- Bit `k` of the value, in two's complement of unbounded length. -/
def Value.bit (v : Value) (k : Nat) : Bool := decide (v.number / 2 ^ k % 2 = 1)

/-- The word with these bits. -/
def fromBits (bits : Nat → Bool) : Int64 :=
  .ofBitVec ((BitVec.ofBoolListLE ((List.range 64).map bits)).setWidth 64)

/-- `op` on the numbers, wrapped, in the variant `arith_op` chooses. -/
def wrapped (op : Int → Int → Int) (realOp : F64 → F64 → F64) (l r : Value) : Value :=
  match l, r with
  | .real _, _ | _, .real _ => .real (realOp l.asReal r.asReal)
  | .time _, _ | _, .time _ => .time (Int64.ofInt (op l.number r.number))
  | _, _ => .int (Int64.ofInt (op l.number r.number))

omit [F64Ops] in
theorem ofInt_eq_iff {x y : Int} : Int64.ofInt x = Int64.ofInt y ↔ Core.SameWord x y := by
  rw [← Int64.toInt_inj, Int64.toInt_ofInt, Int64.toInt_ofInt]
  simp only [Core.SameWord, Int64.size, Int.bmod]
  split <;> split <;> omega

omit [F64Ops] in
theorem toInt_toInt64 (u : UInt64) : u.toInt64.toInt = Core.signed u.toNat := by
  have h : u.toInt64.toInt = u.toBitVec.toInt := rfl
  rw [h, BitVec.toInt_eq_toNat_cond]
  unfold Core.signed
  simp only [UInt64.toNat]
  split <;> split <;> omega

omit [F64Ops] in
theorem toInt_word (i : Int64) :
    -9223372036854775808 ≤ i.toInt ∧ i.toInt < 9223372036854775808 := by
  have h1 := Int64.le_toInt i
  have h2 := Int64.toInt_lt i
  omega

theorem Value.number_eq {v : Value} (h : ∀ u, v ≠ .uint u) : v.number = v.asInt.toInt := by
  cases v with
  | uint u => exact absurd rfl (h u)
  | _ => rfl

theorem Value.number_word (v : Value) : Core.IsWord v.number := by
  by_cases h : ∃ u, v = .uint u
  · obtain ⟨u, rfl⟩ := h
    have := u.toNat_lt
    show Core.IsWord (u.toNat : Int)
    unfold Core.IsWord
    omega
  · rw [Value.number_eq fun u hu => h ⟨u, hu⟩]
    have := toInt_word v.asInt
    unfold Core.IsWord
    omega

/-- The machine's integer is the signed reading of the number. -/
theorem Value.signed_number (v : Value) : Core.signed v.number = v.asInt.toInt := by
  by_cases h : ∃ u, v = .uint u
  · obtain ⟨u, rfl⟩ := h
    exact (toInt_toInt64 u).symm
  · rw [Value.number_eq fun u hu => h ⟨u, hu⟩]
    exact Core.signed_small (toInt_word v.asInt).2

theorem Value.number_sameWord (v : Value) : Core.SameWord v.number v.asInt.toInt := by
  rw [← v.signed_number]
  unfold Core.signed Core.SameWord
  split <;> omega

theorem Value.asInt_eq (v : Value) : v.asInt = Int64.ofInt v.number := by
  rw [ofInt_eq_iff.mpr v.number_sameWord, Int64.ofInt_toInt]

/-! ## Bits -/

omit [F64Ops] in
theorem bit_of_sameWord {x y : Int} (h : Core.SameWord x y) {k : Nat} (hk : k < 64) :
    x / 2 ^ k % 2 = y / 2 ^ k % 2 := by
  obtain ⟨q, hq⟩ := h
  obtain rfl : x = y + 2 ^ k * (2 * (2 ^ (63 - k) * q)) := by
    have hp : (2 : Int) ^ k * (2 * 2 ^ (63 - k)) = 18446744073709551616 := by
      rw [← pow_succ', ← pow_add, show k + (63 - k + 1) = 64 by omega]
      norm_num
    rw [← mul_assoc 2, ← mul_assoc, hp]
    omega
  rw [Int.add_mul_ediv_left _ _ (by positivity), Int.add_mul_emod_self_left]

omit [F64Ops] in
theorem getLsbD_eq {a : Int64} {k : Nat} (hk : k < 64) :
    a.toBitVec.getLsbD k = decide (a.toInt / 2 ^ k % 2 = 1) := by
  have h : Core.SameWord a.toInt a.toBitVec.toNat := by
    show Core.SameWord a.toBitVec.toInt _
    rw [BitVec.toInt_eq_toNat_cond]
    unfold Core.SameWord
    split <;> omega
  rw [bit_of_sameWord h hk, BitVec.getLsbD, Nat.testBit_eq_decide_div_mod_eq]
  congr 1
  norm_cast

/-- Below bit 64 the machine's integer has the bits of the number. -/
theorem Value.bit_low (v : Value) {k : Nat} (hk : k < 64) :
    v.asInt.toBitVec.getLsbD k = v.bit k := by
  rw [getLsbD_eq hk, Value.bit, bit_of_sameWord v.number_sameWord hk]

/-- From bit 64 on the bits are the sign. -/
theorem Value.bit_high (v : Value) {k : Nat} (hk : 64 ≤ k) :
    v.bit k = decide (v.number < 0) := by
  obtain ⟨h1, h2⟩ := v.number_word
  have hp : (18446744073709551616 : Int) ≤ 2 ^ k := by
    calc (18446744073709551616 : Int) = 2 ^ 64 := by norm_num
      _ ≤ 2 ^ k := pow_le_pow_right₀ (by norm_num) hk
  unfold Value.bit
  generalize (2 : Int) ^ k = m at hp
  by_cases hneg : v.number < 0
  · rw [Int.ediv_eq_neg_one_of_neg_of_le hneg (by omega)]
    simp [hneg]
  · rw [Int.ediv_eq_zero_of_lt (by omega) (by omega)]
    simp [hneg]

omit [F64Ops] in
theorem getLsbD_fromBits (bits : Nat → Bool) {k : Nat} (hk : k < 64) :
    (fromBits bits).toBitVec.getLsbD k = bits k := by
  unfold fromBits
  rw [Int64.toBitVec_ofBitVec, BitVec.getLsbD_setWidth, BitVec.getLsbD_ofBoolListLE]
  simp [hk]

omit [F64Ops] in
theorem fromBits_eq_iff {bits : Nat → Bool} {a : Int64} :
    a = fromBits bits ↔ ∀ k < 64, a.toBitVec.getLsbD k = bits k := by
  rw [← Int64.toBitVec_inj]
  constructor
  · intro h k hk
    rw [h, getLsbD_fromBits bits hk]
  · intro h
    apply BitVec.eq_of_getLsbD_eq
    intro k hk
    rw [h k hk, getLsbD_fromBits bits hk]

end RustPlc.Ir

namespace RustPlc.Engine

open RustPlc.Ir RustPlc.Core RustPlc.Syntax RustPlc.Compiler RustPlc.Analysis

/-! ## Operations -/

/-- An arithmetic operator, a partial access or an access to an array or a
field, with the registers of its operands. -/
inductive Operation where
  | add (dst l r : Reg) | sub (dst l r : Reg) | mul (dst l r : Reg)
  | div (dst l r : Reg) | mod (dst l r : Reg) | neg (dst src : Reg)
  | readPart (kind : PartialAccessKind) (index : UInt32) (dst src : Reg)
  | writePart (kind : PartialAccessKind) (index : UInt32) (dst base val : Reg)
  | loadArray (dst : Reg) (slot : UInt16) (idx : Reg)
  | storeArray (slot : UInt16) (idx val : Reg)
  | loadField (dst : Reg) (slot field : UInt16)
  | storeField (slot field : UInt16) (val : Reg)
  | loadFieldIndex (dst : Reg) (slot offset : UInt16) (idx : Reg)
  | storeFieldIndex (slot offset : UInt16) (idx val : Reg)

namespace Operation

/-- What the compiler emits for it. -/
def instruction : Operation → Instruction
  | add dst l r => .add dst l r
  | sub dst l r => .sub dst l r
  | mul dst l r => .mul dst l r
  | div dst l r => .div dst l r
  | mod dst l r => .mod dst l r
  | neg dst src => .neg dst src
  | readPart kind index dst src => extractInstruction kind index.toUInt8 dst src
  | writePart kind index dst base val => insertInstruction kind index.toUInt8 dst base val
  | loadArray dst slot idx => .loadArray dst slot idx
  | storeArray slot idx val => .storeArray slot idx val
  | loadField dst slot field => .loadField dst slot field
  | storeField slot field val => .storeField slot field val
  | loadFieldIndex dst slot offset idx => .loadFieldIndex dst slot offset idx
  | storeFieldIndex slot offset idx val => .storeFieldIndex slot offset idx val

/-- The registers it reads and the one it fills. -/
def registers : Operation → List Reg
  | add dst l r | sub dst l r | mul dst l r | div dst l r | mod dst l r => [dst, l, r]
  | neg dst src => [dst, src]
  | readPart _ _ dst src => [dst, src]
  | writePart _ _ dst base val => [dst, base, val]
  | loadArray dst _ idx => [dst, idx]
  | storeArray _ idx val => [idx, val]
  | loadField dst _ _ => [dst]
  | storeField _ _ val => [val]
  | loadFieldIndex dst _ _ idx => [dst, idx]
  | storeFieldIndex _ _ idx val => [idx, val]

/-- The frame has the registers of the operation. -/
def Held (op : Operation) (f : CallFrame) : Prop :=
  ∀ r ∈ op.registers, r.toNat < f.registers.length

end Operation

/-- The content of a register; `Int(0)` stands where there is none. -/
def CallFrame.reg (f : CallFrame) (r : Reg) : Value := f.registers[r.toNat]?.getD Value.dflt

/-- The bits of a part. -/
def partWidth : PartialAccessKind → Nat
  | .bit => 1
  | .byte => 8
  | .word => 16
  | .dword => 32
  | .lword => 64

/-! ## The specified behaviour -/

section

variable [F64Ops]

/-- A divisor that stands for zero; a real one never does. -/
def isZero (v : Value) : Bool := !v.isReal && v.number == 0

/-- A quotient truncates towards zero. -/
def quotient (l r : Value) : Except Trap Value :=
  if isZero r then .error (.error .divisionByZero) else .ok (wrapped Int.tdiv F64Ops.div l r)

/-- A remainder has the sign of the dividend. -/
def remainder (l r : Value) : Except Trap Value :=
  if r.number = 0 then .error (.error .divisionByZero)
  else .ok (.int (Int64.ofInt (l.number.tmod r.number)))

def negated : Value → Value
  | .real r => .real r.neg
  | v => .int (Int64.ofInt (-v.number))

/-- Part `index` of the value. -/
def partOf (kind : PartialAccessKind) (index : Nat) (v : Value) : Value :=
  match kind with
  | .bit => .bool (v.bit index)
  | kind => .int (fromBits fun k =>
      decide (k < partWidth kind) && v.bit (index * partWidth kind + k))

/-- Bit `k` of the value written into a part. -/
def newBit (kind : PartialAccessKind) (v : Value) (k : Nat) : Bool :=
  match kind with
  | .bit => v.asBool
  | _ => v.bit k

/-- The base with part `index` replaced. -/
def withPart (kind : PartialAccessKind) (index : Nat) (base v : Value) : Value :=
  let start := index * partWidth kind
  .int (fromBits fun k =>
    if start ≤ k ∧ k < start + partWidth kind then newBit kind v (k - start) else base.bit k)

/-- An index wrapped to 64 bits. -/
def wrapIndex (z : Int) : Nat := (z % 18446744073709551616).toNat

/-- The number of indices of a dimension. -/
def dimSize (d : Int64 × Int64) : Nat := (d.2.toInt - d.1.toInt + 1).toNat

/-- The number of elements of an array, wrapped. -/
def elements (dims : List (Int64 × Int64)) : Nat :=
  (dims.map dimSize).prod % 18446744073709551616

def Vm.arrayElements (vm : Vm) (func : Function) (slot : UInt16) : Nat :=
  match vm.arrayDims func slot with
  | some dims => elements dims
  | none => 0

/-- The position of an array element. -/
def Vm.elementAt (vm : Vm) (func : Function) (slot : UInt16) (idx : Value) : Nat :=
  wrapIndex (idx.number - (vm.arrayLo func slot).toInt)

/-- The position of an element of an array field. -/
def fieldAt (offset : UInt16) (idx : Value) : Nat := wrapIndex (offset.toNat + idx.number)

/-- The machine goes on with the value in the register, or stops. -/
def delivered (vm : Vm) (f : CallFrame) (rest : List CallFrame) (dst : Reg) :
    Except Trap Value → Outcome Vm Stop
  | .ok v => .next (vm.withStack ({ f with registers := f.registers.set dst.toNat v } :: rest))
  | .error t => vm.trap t

namespace Operation

/-- The value an operation delivers, with the register that takes it. -/
def value? (vm : Vm) (func : Function) (f : CallFrame) :
    Operation → Option (Reg × Except Trap Value)
  | add dst l r => some (dst, .ok (wrapped (· + ·) F64Ops.add (f.reg l) (f.reg r)))
  | sub dst l r => some (dst, .ok (wrapped (· - ·) F64Ops.sub (f.reg l) (f.reg r)))
  | mul dst l r => some (dst, .ok (wrapped (· * ·) F64Ops.mul (f.reg l) (f.reg r)))
  | div dst l r => some (dst, quotient (f.reg l) (f.reg r))
  | mod dst l r => some (dst, remainder (f.reg l) (f.reg r))
  | neg dst src => some (dst, .ok (negated (f.reg src)))
  | readPart kind index dst src => some (dst, .ok (partOf kind index.toNat (f.reg src)))
  | writePart kind index dst base val =>
    some (dst, .ok (withPart kind index.toNat (f.reg base) (f.reg val)))
  | loadArray dst slot idx =>
    some (dst, .ok (vm.instanceGet (vm.instanceKey slot) (vm.elementAt func slot (f.reg idx))))
  | loadField dst slot field => some (dst, .ok (vm.instanceGet (vm.instanceKey slot) field.toNat))
  | loadFieldIndex dst slot offset idx =>
    some (dst, .ok (vm.instanceGet (vm.instanceKey slot) (fieldAt offset (f.reg idx))))
  | storeArray _ _ _ | storeField _ _ _ | storeFieldIndex _ _ _ _ => none

/-- The machine a storing operation leaves. -/
def stored (vm : Vm) (func : Function) (f : CallFrame) : Operation → Vm
  | storeArray slot idx val =>
    let entry := (Finmap.lookup (vm.instanceKey slot) vm.fbInstances).getD
      (List.replicate (vm.arrayElements func slot) Value.dflt)
    vm.putInstance (vm.instanceKey slot)
      (entry.set (vm.elementAt func slot (f.reg idx)) (f.reg val))
  | storeField slot field val => vm.instanceSet (vm.instanceKey slot) field.toNat (f.reg val)
  | storeFieldIndex slot offset idx val =>
    vm.instanceSet (vm.instanceKey slot) (fieldAt offset (f.reg idx)) (f.reg val)
  | _ => vm

/-- The behaviour a source program may rely on. -/
def specified (vm : Vm) (func : Function) (f : CallFrame) (rest : List CallFrame)
    (op : Operation) : Outcome Vm Stop :=
  match op.value? vm func f with
  | some (dst, x) => delivered vm f rest dst x
  | none => .next (op.stored vm func f)

end Operation

/-! ## The behaviour of the machine -/

/-- The length of the vector a store at position `i` has to build, 0 when the
position is there. -/
def Vm.growth (vm : Vm) (key : InstanceKey) (i : Nat) : Nat :=
  match Finmap.lookup key vm.fbInstances with
  | some xs => if xs.length ≤ i then i + 1 else 0
  | none => i + 1

namespace Operation

/-- The length of the vector the machine has to build. -/
def needed (vm : Vm) (func : Function) (f : CallFrame) : Operation → Nat
  | storeArray slot _ _ =>
    if (Finmap.lookup (vm.instanceKey slot) vm.fbInstances).isSome then 0
    else (vm.arrayTotal func slot).toOption.getD 0
  | storeField slot field _ => vm.growth (vm.instanceKey slot) field.toNat
  | storeFieldIndex slot offset idx _ =>
    vm.growth (vm.instanceKey slot) (offset.toNat + Vm.asUsize (f.reg idx).asInt)
  | _ => 0

/-- One instruction on a machine whose vectors hold at most `capacity`
values: Rust panics with "capacity overflow" beyond it. -/
def exec (capacity : Nat) (vm : Vm) (func : Function) (f : CallFrame) (rest : List CallFrame)
    (op : Operation) : Outcome Vm Stop :=
  match vm.exec func f rest op.instruction with
  | .next vm' =>
    if capacity < op.needed vm func f then vm.trap (.panic .arithmetic) else .next vm'
  | .halt s => .halt s

end Operation

/-! ## The operands in range -/

/-- The least number divided by minus one, as the machine reads the operands. -/
def Overflows (a b : Int) : Prop := signed a = -9223372036854775808 ∧ signed b = -1

/-- A zero divisor is an integer; other integers divide alike in their signed
readings. -/
def QuotientInRange (l r : Value) : Prop :=
  if r.isReal then True
  else if r.number = 0 then isIntZero r = true
  else if l.isReal then True
  else ¬ Overflows l.number r.number ∧ SameQuotient l.number r.number

def RemainderInRange (l r : Value) : Prop :=
  r.number = 0 ∨ (¬ Overflows l.number r.number ∧ SameRemainder l.number r.number)

/-- The part lies in the word. An index that a byte cannot hold names the part
at its remainder: the two parts agree where that part holds nothing but signs. -/
def PartInRange (kind : PartialAccessKind) (index : Nat) (v : Value) : Prop :=
  index % 256 * partWidth kind < 64 ∧
    (256 ≤ index → ∀ k < partWidth kind,
      v.bit (index % 256 * partWidth kind + k) = decide (v.number < 0))

/-- The same for a write: it must leave the part at the remainder alone. -/
def NewPartInRange (kind : PartialAccessKind) (index : Nat) (base v : Value) : Prop :=
  index % 256 * partWidth kind < 64 ∧
    (256 ≤ index → ∀ k < partWidth kind,
      base.bit (index % 256 * partWidth kind + k) = newBit kind v k)

/-- The distance of an index from the lower bound is a signed word. -/
def DistanceFits (idx : Value) (lo : Int64) : Prop :=
  -9223372036854775808 ≤ signed idx.number - lo.toInt ∧
    signed idx.number - lo.toInt < 9223372036854775808

/-- The size of a dimension is a signed word. -/
def DimFits (d : Int64 × Int64) : Prop :=
  -9223372036854775808 ≤ d.2.toInt - d.1.toInt ∧
    d.2.toInt - d.1.toInt + 1 < 9223372036854775808

/-- Every dimension has a signed word as its size, and the sizes multiplied
from the left stay below `2 ^ 64`. -/
def SizesFit (dims : List (Int64 × Int64)) : Prop :=
  (∀ d ∈ dims, DimFits d) ∧
    ∀ n ≤ dims.length, ((dims.take n).map dimSize).prod < 18446744073709551616

/-- The element of an array field, as an address. -/
def AddressFits (offset : UInt16) (idx : Value) : Prop :=
  offset.toNat + wrapIndex idx.number < 18446744073709551616

/-- The operands for which the machine behaves as specified. -/
def Operation.InRange (capacity : Nat) (vm : Vm) (func : Function) (f : CallFrame) :
    Operation → Prop
  | .add _ _ _ | .sub _ _ _ | .mul _ _ _ | .loadField _ _ _ => True
  | .div _ l r => QuotientInRange (f.reg l) (f.reg r)
  | .mod _ l r => RemainderInRange (f.reg l) (f.reg r)
  | .neg _ src => (f.reg src).isReal = true ∨ signed (f.reg src).number ≠ -9223372036854775808
  | .readPart kind index _ src => PartInRange kind index.toNat (f.reg src)
  | .writePart kind index _ base val => NewPartInRange kind index.toNat (f.reg base) (f.reg val)
  | .loadArray _ slot idx => DistanceFits (f.reg idx) (vm.arrayLo func slot)
  | .storeArray slot idx _ =>
    DistanceFits (f.reg idx) (vm.arrayLo func slot) ∧
      (∀ dims, vm.arrayDims func slot = some dims → SizesFit dims) ∧
      (Finmap.lookup (vm.instanceKey slot) vm.fbInstances = none →
        vm.arrayElements func slot ≤ capacity)
  | .storeField slot field _ => vm.growth (vm.instanceKey slot) field.toNat ≤ capacity
  | .loadFieldIndex _ _ offset idx => AddressFits offset (f.reg idx)
  | .storeFieldIndex slot offset idx _ =>
    AddressFits offset (f.reg idx) ∧ fieldAt offset (f.reg idx) + 1 < 18446744073709551616 ∧
      vm.growth (vm.instanceKey slot) (fieldAt offset (f.reg idx)) ≤ capacity

/-! ## The operators -/

omit [F64Ops] in
theorem map_ok_iff {α : Type} {g : Int64 → α} (hg : Function.Injective g) {x : Except Panic Int64}
    {a : Int64} : x.map g = .ok (g a) ↔ x = .ok a := by
  cases x with
  | error p => simp [Except.map]
  | ok b => simp [Except.map, hg.eq_iff]

theorem arithOp_iff {op : Int64 → Int64 → Except Panic Int64} {iop : Int → Int → Int}
    {realOp : F64 → F64 → F64} {l r : Value} :
    arithOp l r op realOp = .ok (wrapped iop realOp l r) ↔
      l.isReal = true ∨ r.isReal = true ∨
        op l.asInt r.asInt = .ok (Int64.ofInt (iop l.number r.number)) := by
  have htime : Function.Injective Value.time := fun _ _ h => by simpa using h
  have hint : Function.Injective Value.int := fun _ _ h => by simpa using h
  unfold arithOp wrapped
  split
  · simp [Value.isReal]
  · simp_all [Value.isReal]
  · simp_all [Value.isReal, map_ok_iff htime]
  · simp_all [Value.isReal, map_ok_iff htime]
  · simp_all [Value.isReal, map_ok_iff hint]

theorem addValues_wrapped (l r : Value) : addValues l r = .ok (wrapped (· + ·) F64Ops.add l r) :=
  arithOp_iff.mpr (.inr (.inr (by rw [l.asInt_eq, r.asInt_eq, Int64.ofInt_add])))

theorem subValues_wrapped (l r : Value) : subValues l r = .ok (wrapped (· - ·) F64Ops.sub l r) :=
  arithOp_iff.mpr (.inr (.inr (by rw [l.asInt_eq, r.asInt_eq, Int64.ofInt_sub])))

theorem mulValues_wrapped (l r : Value) : mulValues l r = .ok (wrapped (· * ·) F64Ops.mul l r) :=
  arithOp_iff.mpr (.inr (.inr (by rw [l.asInt_eq, r.asInt_eq, Int64.ofInt_mul])))

theorem asInt_eq_zero_iff (v : Value) : v.asInt = 0 ↔ v.number = 0 := by
  rw [← v.number_word.signed_eq_zero, v.signed_number, ← Int64.toInt_inj, Int64.toInt_zero]

theorem overflows_iff (l r : Value) :
    Overflows l.number r.number ↔ l.asInt = Int64.minValue ∧ r.asInt = -1 := by
  unfold Overflows
  rw [l.signed_number, r.signed_number, ← Int64.toInt_inj, ← Int64.toInt_inj]
  exact Iff.rfl

theorem checkedDiv_iff {l r : Value} (hr : r.number ≠ 0) :
    checkedDiv l.asInt r.asInt = .ok (Int64.ofInt (l.number.tdiv r.number)) ↔
      ¬ Overflows l.number r.number ∧ SameQuotient l.number r.number := by
  unfold checkedDiv
  rw [if_neg (mt (asInt_eq_zero_iff r).mp hr)]
  by_cases ho : Overflows l.number r.number
  · simp [ho, (overflows_iff l r).mp ho]
  · have hq : l.asInt / r.asInt = Int64.ofInt (l.asInt.toInt.tdiv r.asInt.toInt) := by
      rw [← Int64.toInt_inj, Int64.toInt_div, Int64.toInt_ofInt]
    rw [if_neg (mt (overflows_iff l r).mpr ho), Except.ok.injEq, hq, ofInt_eq_iff, SameWord.comm, ← l.signed_number,
      ← r.signed_number, tdiv_signed_iff l.number_word r.number_word hr]
    simp [ho]

theorem checkedRem_iff {l r : Value} (hr : r.number ≠ 0) :
    checkedRem l.asInt r.asInt = .ok (Int64.ofInt (l.number.tmod r.number)) ↔
      ¬ Overflows l.number r.number ∧ SameRemainder l.number r.number := by
  unfold checkedRem
  rw [if_neg (mt (asInt_eq_zero_iff r).mp hr)]
  by_cases ho : Overflows l.number r.number
  · simp [ho, (overflows_iff l r).mp ho]
  · have hq : l.asInt % r.asInt = Int64.ofInt (l.asInt.toInt.tmod r.asInt.toInt) := by
      rw [← Int64.toInt_mod, Int64.ofInt_toInt]
    rw [if_neg (mt (overflows_iff l r).mpr ho), Except.ok.injEq, hq, ofInt_eq_iff, SameWord.comm, ← l.signed_number,
      ← r.signed_number, tmod_signed_iff l.number_word r.number_word hr]
    simp [ho]

theorem isIntZero_number {v : Value} (h : isIntZero v = true) : v.isReal = false ∧ v.number = 0 := by
  cases v with
  | int i =>
    have hi : i = 0 := by simpa [isIntZero] using h
    subst hi
    exact ⟨rfl, rfl⟩
  | uint u =>
    have hu : u.toInt64 = 0 := by simpa [isIntZero] using h
    exact ⟨rfl, (asInt_eq_zero_iff (.uint u)).mp hu⟩
  | _ => simp [isIntZero] at h

omit [F64Ops] in
theorem liftPanic_ok_iff {α : Type} {x : Except Panic α} {a : α} :
    liftPanic x = .ok a ↔ x = .ok a := by
  cases x <;> simp [liftPanic]

omit [F64Ops] in
theorem liftPanic_ne_error {α : Type} {x : Except Panic α} {e : VmError} :
    liftPanic x ≠ .error (.error e) := by
  cases x <;> simp [liftPanic]

/-- `Div` on its operands. -/
theorem divide_iff {f : CallFrame} {l r : Reg} (hl : f.regGet l = .ok (f.reg l))
    (hr : f.regGet r = .ok (f.reg r)) :
    Vm.divide f l r = quotient (f.reg l) (f.reg r) ↔ QuotientInRange (f.reg l) (f.reg r) := by
  generalize f.reg l = a at hl
  generalize f.reg r = b at hr
  have hrun : Vm.divide f l r = if isIntZero b then .error (.error .divisionByZero)
      else liftPanic (divValues a b) := by
    simp only [Vm.divide, hl, hr]
    rfl
  rw [hrun]
  unfold quotient isZero QuotientInRange divValues
  by_cases hreal : b.isReal = true
  · have hz : ¬ isIntZero b = true := fun h => by simp [(isIntZero_number h).1] at hreal
    simp [hreal, hz, liftPanic_ok_iff, arithOp_iff]
  · by_cases h0 : b.number = 0
    · by_cases hz : isIntZero b = true
      · simp [hreal, h0, hz]
      · simp [hreal, h0, hz, liftPanic_ne_error]
    · have hz : ¬ isIntZero b = true := fun h => h0 (isIntZero_number h).2
      by_cases hl' : a.isReal = true
      · simp [hreal, h0, hz, hl', liftPanic_ok_iff, arithOp_iff]
      · simp [hreal, h0, hz, hl', liftPanic_ok_iff, arithOp_iff, checkedDiv_iff h0]

/-- `Mod` on its operands. -/
theorem modulo_iff {f : CallFrame} {l r : Reg} (hl : f.regGet l = .ok (f.reg l))
    (hr : f.regGet r = .ok (f.reg r)) :
    Vm.modulo f l r = remainder (f.reg l) (f.reg r) ↔ RemainderInRange (f.reg l) (f.reg r) := by
  generalize f.reg l = a at hl
  generalize f.reg r = b at hr
  have hrun : Vm.modulo f l r = if b.asInt = 0 then .error (.error .divisionByZero)
      else liftPanic (remValues a b) := by
    simp only [Vm.modulo, hl, hr]
    rfl
  have hint : Function.Injective Value.int := fun _ _ h => by simpa using h
  rw [hrun]
  unfold remainder RemainderInRange remValues
  by_cases h0 : b.number = 0
  · simp [h0, (asInt_eq_zero_iff b).mpr h0]
  · have hb := mt (asInt_eq_zero_iff b).mp h0
    simp [h0, hb, liftPanic_ok_iff, map_ok_iff hint, checkedRem_iff h0]

/-- `Neg` on its operand. -/
theorem negValue_iff (v : Value) :
    negValue v = .ok (negated v) ↔ v.isReal = true ∨ signed v.number ≠ -9223372036854775808 := by
  have hint : Function.Injective Value.int := fun _ _ h => by simpa using h
  have hmin : v.asInt = Int64.minValue ↔ signed v.number = -9223372036854775808 := by
    rw [v.signed_number, ← Int64.toInt_inj]
    exact Iff.rfl
  have hneg : -v.asInt = Int64.ofInt (-v.number) := by rw [Int64.ofInt_neg, ← v.asInt_eq]
  by_cases hreal : v.isReal = true
  · cases v <;> simp_all [Value.isReal, negValue, negated]
  · have hrun : negValue v = (checkedNeg v.asInt).map .int := by
      cases v with
      | real r => exact absurd rfl hreal
      | _ => rfl
    have hspec : negated v = .int (Int64.ofInt (-v.number)) := by
      cases v with
      | real r => exact absurd rfl hreal
      | _ => rfl
    have hne := not_congr hmin.symm
    rw [hrun, hspec, map_ok_iff hint, checkedNeg, ← hneg, ne_eq, hne]
    by_cases hm : v.asInt = Int64.minValue <;> simp [hreal, hm]

/-! ## Parts -/

omit [F64Ops] in
/-- A shift distance below 64 is the distance the processor shifts by. -/
theorem shift_distance (n : Nat) (hn : n < 64) :
    ((Int64.ofInt n).toBitVec.smod 64).toNat = n := by
  have hbits : (Int64.ofInt n).toBitVec = BitVec.ofNat 64 n := BitVec.ofInt_natCast 64 n
  have hpos : (BitVec.ofNat 64 n).msb = false :=
    BitVec.msb_eq_false_iff_two_mul_lt.mpr (by rw [BitVec.toNat_ofNat]; omega)
  rw [hbits, BitVec.smod_eq, hpos]
  show (BitVec.ofNat 64 n % 64#64).toNat = n
  rw [BitVec.toNat_umod, BitVec.toNat_ofNat, BitVec.toNat_ofNat, Nat.mod_eq_of_lt (by omega),
    Nat.mod_eq_of_lt (by omega)]

omit [F64Ops] in
theorem partMask_bit : ∀ w ∈ [8, 16, 32, 64], ∀ k < 64,
    (partMask (UInt8.ofNat w)).toBitVec.getLsbD k = decide (k < w) := by
  intro w hw k hk
  have hmask : (partMask (UInt8.ofNat w)).toBitVec = BitVec.ofNat 64 (2 ^ w - 1) := by
    simp only [List.mem_cons, List.not_mem_nil, or_false] at hw
    rcases hw with rfl | rfl | rfl | rfl <;> decide
  rw [hmask, BitVec.getLsbD_ofNat, Nat.testBit_two_pow_sub_one]
  simp [hk]

theorem shiftRight_bit (v : Value) {n k : Nat} (h : n + k < 64) :
    (v.asInt >>> Int64.ofInt (n : Nat)).toBitVec.getLsbD k = v.bit (n + k) := by
  rw [Int64.toBitVec_shiftRight, BitVec.sshiftRight_eq', shift_distance n (by omega),
    BitVec.getLsbD_sshiftRight, ← v.bit_low h]
  simp [h, show k < 64 by omega]

omit [F64Ops] in
theorem shiftLeft_bit (a : Int64) {n k : Nat} (hn : n < 64) (hk : k < 64) :
    (a <<< Int64.ofInt (n : Nat)).toBitVec.getLsbD k =
      (decide (n ≤ k) && a.toBitVec.getLsbD (k - n)) := by
  rw [Int64.toBitVec_shiftLeft, BitVec.shiftLeft_eq', shift_distance n hn,
    BitVec.getLsbD_shiftLeft]
  simp only [hk, decide_true, Bool.true_and, ← Nat.not_lt, decide_not]

/-- What the machine reads as part `index`. -/
def extractOf (kind : PartialAccessKind) (index : UInt8) (v : Value) : Except Panic Value :=
  match kind with
  | .bit => extractBitOf v index
  | kind => extractPartialOf v index (UInt8.ofNat (partWidth kind))

theorem extractPartial_part {w : Nat} (hw : w ∈ [8, 16, 32, 64]) (index : UInt8) (v : Value) :
    extractPartialOf v index (UInt8.ofNat w) =
      if index.toNat * w < 64 then
        .ok (.int (fromBits fun k => decide (k < w) && v.bit (index.toNat * w + k)))
      else .error .arithmetic := by
  have hw' : (UInt8.ofNat w).toNat = w := by
    simp only [List.mem_cons, List.not_mem_nil, or_false] at hw
    rcases hw with rfl | rfl | rfl | rfl <;> rfl
  unfold extractPartialOf checkedShr
  rw [hw']
  by_cases h : index.toNat * w < 64
  · have hcast : (0 : Int) ≤ index.toNat * w ∧ (index.toNat : Int) * w < 64 := by
      constructor
      · positivity
      · exact_mod_cast h
    rw [if_pos hcast, if_pos h, ← Nat.cast_mul]
    refine congrArg (fun x => Except.ok (Value.int x)) (fromBits_eq_iff.mpr fun k hk => ?_)
    rw [Int64.toBitVec_and, BitVec.getLsbD_and, partMask_bit w hw k hk, Bool.and_comm]
    by_cases hkw : k < w
    · have hsum : index.toNat * w + k < 64 := by
        simp only [List.mem_cons, List.not_mem_nil, or_false] at hw
        rcases hw with rfl | rfl | rfl | rfl <;> omega
      rw [shiftRight_bit v hsum]
    · simp [hkw]
  · have hcast : ¬ ((0 : Int) ≤ index.toNat * w ∧ (index.toNat : Int) * w < 64) := by
      rintro ⟨-, h'⟩
      exact h (by exact_mod_cast h')
    rw [if_neg hcast, if_neg h]
    rfl

omit [F64Ops] in
theorem low_bit (a : Int64) : (a &&& 1 != 0) = a.toBitVec.getLsbD 0 := by
  have h : (a &&& 1).toBitVec = BitVec.setWidth 64 (BitVec.ofBool (a.toBitVec.getLsbD 0)) := by
    rw [Int64.toBitVec_and, ← BitVec.and_one_eq_setWidth_ofBool_getLsbD]
    rfl
  have hne : (a &&& 1 != 0) = ((a &&& 1).toBitVec != 0) := by
    rw [Bool.eq_iff_iff, bne_iff_ne, bne_iff_ne, ne_eq, ne_eq, ← Int64.toBitVec_inj]
    rfl
  rw [hne, h]
  cases a.toBitVec.getLsbD 0 <;> rfl

theorem extractBit_part (index : UInt8) (v : Value) :
    extractBitOf v index =
      if index.toNat < 64 then .ok (.bool (v.bit index.toNat)) else .error .arithmetic := by
  unfold extractBitOf checkedShr
  by_cases h : index.toNat < 64
  · rw [if_pos (by omega), if_pos h]
    have hb : ((v.asInt >>> Int64.ofInt index.toNat) &&& 1 != 0) = v.bit index.toNat := by
      rw [low_bit, shiftRight_bit v (by omega)]
      rfl
    simp [Except.map, hb]
  · rw [if_neg (by omega), if_neg h]
    rfl

/-- The machine reads the part at the remainder of the index. -/
theorem extractOf_eq (kind : PartialAccessKind) (index : UInt8) (v : Value) :
    extractOf kind index v =
      if index.toNat * partWidth kind < 64 then .ok (partOf kind index.toNat v)
      else .error .arithmetic := by
  cases kind with
  | bit => exact (extractBit_part index v).trans (by rw [partWidth, Nat.mul_one]; rfl)
  | byte => exact extractPartial_part (w := 8) (by simp) index v
  | word => exact extractPartial_part (w := 16) (by simp) index v
  | dword => exact extractPartial_part (w := 32) (by simp) index v
  | lword => exact extractPartial_part (w := 64) (by simp) index v

/-- What the machine leaves in the base. -/
def insertOf (kind : PartialAccessKind) (index : UInt8) (base v : Value) : Except Panic Value :=
  match kind with
  | .bit => insertBitOf base index v
  | kind => insertPartialOf base index (UInt8.ofNat (partWidth kind)) v

omit [F64Ops] in
theorem checkedShl_eq (a : Int64) (n : Nat) :
    checkedShl a n = if n < 64 then .ok (a <<< Int64.ofInt n) else .error .arithmetic := by
  unfold checkedShl
  by_cases h : n < 64
  · rw [if_pos (by omega), if_pos h]
  · rw [if_neg (by omega), if_neg h]

theorem insertPartial_part {w : Nat} (hw : w ∈ [8, 16, 32, 64]) (index : UInt8) (base v : Value) :
    insertPartialOf base index (UInt8.ofNat w) v =
      if index.toNat * w < 64 then
        .ok (.int (fromBits fun k => if index.toNat * w ≤ k ∧ k < index.toNat * w + w
          then v.bit (k - index.toNat * w) else base.bit k))
      else .error .arithmetic := by
  have hw' : (UInt8.ofNat w).toNat = w := by
    simp only [List.mem_cons, List.not_mem_nil, or_false] at hw
    rcases hw with rfl | rfl | rfl | rfl <;> rfl
  generalize hn : index.toNat * w = n
  have hcast : (index.toNat : Int) * w = (n : Nat) := by rw [← hn]; norm_cast
  simp only [insertPartialOf, hw', hcast, checkedShl_eq]
  by_cases h : n < 64
  · rw [if_pos h, if_pos h, if_pos h]
    refine congrArg (fun x => Except.ok (Value.int x)) (fromBits_eq_iff.mpr fun k hk => ?_)
    rw [Int64.toBitVec_or, BitVec.getLsbD_or, Int64.toBitVec_and, BitVec.getLsbD_and,
      Int64.toBitVec_not, BitVec.getLsbD_not, shiftLeft_bit _ h hk, shiftLeft_bit _ h hk,
      Int64.toBitVec_and, BitVec.getLsbD_and, partMask_bit w hw _ (by omega), base.bit_low hk,
      v.bit_low (by omega)]
    by_cases hin : n ≤ k ∧ k < n + w
    · simp [hin, hk, show k - n < w by omega]
    · rw [if_neg hin]
      by_cases hle : n ≤ k
      · simp [hk, hle, show ¬ k - n < w by omega]
      · simp [hk, hle]
  · rw [if_neg h, if_neg h, if_neg h]
    rfl

omit [F64Ops] in
/-- The mask of one bit. -/
theorem one_bit {n k : Nat} (hn : n < 64) (hk : k < 64) :
    ((1 : Int64) <<< Int64.ofInt (n : Nat)).toBitVec.getLsbD k = decide (n = k) := by
  have hone : ∀ j < 64, (1 : Int64).toBitVec.getLsbD j = decide (j = 0) := by decide
  rw [shiftLeft_bit _ hn hk, hone _ (by omega)]
  by_cases h : n = k
  · simp [h]
  · simp only [h, decide_false, Bool.and_eq_false_iff, decide_eq_false_iff_not]
    omega

theorem insertBit_part (index : UInt8) (base v : Value) :
    insertBitOf base index v =
      if index.toNat < 64 then
        .ok (.int (fromBits fun k => if index.toNat ≤ k ∧ k < index.toNat + 1
          then v.asBool else base.bit k))
      else .error .arithmetic := by
  unfold insertBitOf
  generalize index.toNat = n
  rw [checkedShl_eq]
  by_cases h : n < 64
  · rw [if_pos h, if_pos h]
    simp only [Except.map]
    by_cases hv : v.asBool = true
    · rw [if_pos hv]
      refine congrArg (fun x => Except.ok (Value.int x)) (fromBits_eq_iff.mpr fun k hk => ?_)
      rw [Int64.toBitVec_or, BitVec.getLsbD_or, one_bit h hk, base.bit_low hk, hv]
      by_cases hnk : n = k
      · simp [hnk]
      · rw [if_neg (by omega)]
        simp [hnk]
    · rw [if_neg hv]
      refine congrArg (fun x => Except.ok (Value.int x)) (fromBits_eq_iff.mpr fun k hk => ?_)
      rw [Int64.toBitVec_and, BitVec.getLsbD_and, Int64.toBitVec_not, BitVec.getLsbD_not,
        one_bit h hk, base.bit_low hk, Bool.eq_false_iff.mpr hv]
      by_cases hnk : n = k
      · simp [hnk]
      · rw [if_neg (by omega)]
        simp [hnk, hk]
  · rw [if_neg h, if_neg h]
    rfl

/-- The machine writes the part at the remainder of the index. -/
theorem insertOf_eq (kind : PartialAccessKind) (index : UInt8) (base v : Value) :
    insertOf kind index base v =
      if index.toNat * partWidth kind < 64 then .ok (withPart kind index.toNat base v)
      else .error .arithmetic := by
  cases kind with
  | bit =>
    refine (insertBit_part index base v).trans ?_
    simp only [partWidth, withPart, Nat.mul_one]
    rfl
  | byte => exact insertPartial_part (w := 8) (by simp) index base v
  | word => exact insertPartial_part (w := 16) (by simp) index base v
  | dword => exact insertPartial_part (w := 32) (by simp) index base v
  | lword => exact insertPartial_part (w := 64) (by simp) index base v

omit [F64Ops] in
theorem fromBits_inj {b c : Nat → Bool} : fromBits b = fromBits c ↔ ∀ k < 64, b k = c k := by
  rw [fromBits_eq_iff]
  exact forall₂_congr fun k hk => by rw [getLsbD_fromBits b hk]

omit [F64Ops] in
/-- A part that starts in the word lies in it. -/
theorem part_end {kind : PartialAccessKind} {i k : Nat} (h : i * partWidth kind < 64)
    (hk : k < partWidth kind) : i * partWidth kind + k < 64 := by
  cases kind <;> simp only [partWidth] at * <;> omega

omit [F64Ops] in
theorem part_beyond {kind : PartialAccessKind} {i : Nat} (h : 256 ≤ i) (k : Nat) :
    64 ≤ i * partWidth kind + k := by
  cases kind <;> simp only [partWidth] <;> omega

omit [F64Ops] in
theorem partWidth_le (kind : PartialAccessKind) : partWidth kind ≤ 64 := by
  cases kind <;> simp [partWidth]

theorem partOf_eq_iff (kind : PartialAccessKind) (i j : Nat) (v : Value) :
    partOf kind i v = partOf kind j v ↔
      ∀ k < partWidth kind, v.bit (i * partWidth kind + k) = v.bit (j * partWidth kind + k) := by
  have hwide : fromBits (fun k => decide (k < partWidth kind) && v.bit (i * partWidth kind + k)) =
      fromBits (fun k => decide (k < partWidth kind) && v.bit (j * partWidth kind + k)) ↔
      ∀ k < partWidth kind, v.bit (i * partWidth kind + k) = v.bit (j * partWidth kind + k) := by
    rw [fromBits_inj]
    constructor
    · intro h k hk
      simpa [hk] using h k (by have := partWidth_le kind; omega)
    · intro h k _
      by_cases hk : k < partWidth kind
      · simpa [hk] using h k hk
      · simp [hk]
  cases kind with
  | bit => simp [partOf, partWidth]
  | _ => exact Iff.trans (by rw [partOf, partOf, Value.int.injEq] <;> simp) hwide

theorem withPart_eq_iff {kind : PartialAccessKind} {i j : Nat} {base v : Value}
    (hi : i * partWidth kind < 64) (hj : 256 ≤ j) :
    withPart kind i base v = withPart kind j base v ↔
      ∀ k < partWidth kind, base.bit (i * partWidth kind + k) = newBit kind v k := by
  unfold withPart
  rw [Value.int.injEq, fromBits_inj]
  have hbeyond : ∀ k < 64, ¬ j * partWidth kind ≤ k := fun k hk => by
    have := @part_beyond kind _ hj 0
    omega
  constructor
  · intro h k hk
    have hlow := part_end hi hk
    have := h _ hlow
    rw [if_pos ⟨by omega, by omega⟩, if_neg fun hc => hbeyond _ hlow hc.1] at this
    rw [← this, Nat.add_sub_cancel_left]
  · intro h k hk
    rw [if_neg (show ¬ (j * partWidth kind ≤ k ∧ k < j * partWidth kind + partWidth kind) from
      fun hc => hbeyond k hk hc.1)]
    by_cases hin : i * partWidth kind ≤ k ∧ k < i * partWidth kind + partWidth kind
    · have := h (k - i * partWidth kind) (by omega)
      rw [if_pos hin, ← this, Nat.add_sub_cancel' hin.1]
    · rw [if_neg hin]

omit [F64Ops] in
theorem toUInt8_mod (index : UInt32) : index.toUInt8.toNat = index.toNat % 256 := by
  simp

theorem extractOf_iff (kind : PartialAccessKind) (index : UInt32) (v : Value) :
    extractOf kind index.toUInt8 v = .ok (partOf kind index.toNat v) ↔
      PartInRange kind index.toNat v := by
  rw [extractOf_eq, toUInt8_mod]
  unfold PartInRange
  by_cases hlow : index.toNat % 256 * partWidth kind < 64
  · rw [if_pos hlow, Except.ok.injEq]
    by_cases hbig : 256 ≤ index.toNat
    · rw [partOf_eq_iff]
      have hsign : ∀ k, v.bit (index.toNat * partWidth kind + k) = decide (v.number < 0) :=
        fun k => v.bit_high (part_beyond hbig k)
      simp [hlow, hbig, hsign]
    · rw [Nat.mod_eq_of_lt (by omega)] at hlow ⊢
      simp [hlow, hbig]
  · simp [hlow]

theorem insertOf_iff (kind : PartialAccessKind) (index : UInt32) (base v : Value) :
    insertOf kind index.toUInt8 base v = .ok (withPart kind index.toNat base v) ↔
      NewPartInRange kind index.toNat base v := by
  rw [insertOf_eq, toUInt8_mod]
  unfold NewPartInRange
  by_cases hlow : index.toNat % 256 * partWidth kind < 64
  · rw [if_pos hlow, Except.ok.injEq]
    by_cases hbig : 256 ≤ index.toNat
    · rw [withPart_eq_iff hlow hbig]
      simp [hlow, hbig]
    · rw [Nat.mod_eq_of_lt (by omega)] at hlow ⊢
      simp [hlow, hbig]
  · simp [hlow]

/-! ## Positions -/

omit [F64Ops] in
theorem wrapIndex_congr {x y : Int} (h : SameWord x y) : wrapIndex x = wrapIndex y := by
  unfold wrapIndex SameWord at *
  omega

omit [F64Ops] in
theorem asUsize_eq (i : Int64) : Vm.asUsize i = wrapIndex i.toInt := by
  have h : i.toUInt64.toNat = i.toBitVec.toNat := rfl
  have hint : i.toInt = i.toBitVec.toInt := rfl
  unfold Vm.asUsize wrapIndex
  rw [h, hint, BitVec.toInt_eq_toNat_cond]
  have := i.toBitVec.isLt
  split <;> omega

/-- The distance from the lower bound is the wrapped one, or the subtraction
overflows. -/
theorem flatIndex_cases (v : Value) (lo : Int64) :
    (DistanceFits v lo ∧ Vm.flatIndex v.asInt lo = .ok (wrapIndex (v.number - lo.toInt))) ∨
    (¬ DistanceFits v lo ∧ Vm.flatIndex v.asInt lo = .error .arithmetic) := by
  unfold Vm.flatIndex checkedI64 DistanceFits
  rw [← v.signed_number]
  generalize hz : signed v.number - lo.toInt = z
  by_cases h : -9223372036854775808 ≤ z ∧ z < 9223372036854775808
  · have hsame : SameWord z (v.number - lo.toInt) := by
      have := v.number_sameWord
      rw [← v.signed_number] at this
      unfold SameWord at *
      omega
    left
    rw [if_pos (by omega)]
    simp only [Except.map, h, and_self, true_and]
    rw [asUsize_eq, Int64.toInt_ofInt_of_le (by omega) (by omega), wrapIndex_congr hsame]
  · right
    rw [if_neg (by omega)]
    exact ⟨h, rfl⟩

theorem fieldAt_eq {offset : UInt16} {v : Value} (h : AddressFits offset v) :
    fieldAt offset v = offset.toNat + Vm.asUsize v.asInt := by
  unfold fieldAt AddressFits at *
  rw [asUsize_eq, ← wrapIndex_congr v.number_sameWord]
  unfold wrapIndex at *
  omega

theorem address_cases (offset : UInt16) (v : Value) :
    (AddressFits offset v ∧
      checkedUsizeAdd offset.toNat (Vm.asUsize v.asInt) = .ok (fieldAt offset v)) ∨
    (¬ AddressFits offset v ∧
      checkedUsizeAdd offset.toNat (Vm.asUsize v.asInt) = .error .arithmetic) := by
  have hidx : Vm.asUsize v.asInt = wrapIndex v.number := by
    rw [asUsize_eq, ← wrapIndex_congr v.number_sameWord]
  have hiff : offset.toNat + Vm.asUsize v.asInt < 2 ^ 64 ↔ AddressFits offset v := by
    rw [hidx]
    rfl
  by_cases h : AddressFits offset v
  · exact .inl ⟨h, by rw [checkedUsizeAdd, if_pos (hiff.mpr h), fieldAt_eq h]⟩
  · exact .inr ⟨h, by rw [checkedUsizeAdd, if_neg (mt hiff.mp h)]⟩

/-! ## Array sizes -/

omit [F64Ops] in
theorem dimProductFrom_cons (acc : Nat) (d : Int64 × Int64) (ds : List (Int64 × Int64)) :
    (DimFits d ∧ acc * dimSize d < 18446744073709551616 ∧
      Vm.dimProductFrom acc (d :: ds) = Vm.dimProductFrom (acc * dimSize d) ds) ∨
    (¬ (DimFits d ∧ acc * dimSize d < 18446744073709551616) ∧
      Vm.dimProductFrom acc (d :: ds) = .error .arithmetic) := by
  obtain ⟨l, h⟩ := d
  simp only [Vm.dimProductFrom, checkedI64, DimFits, dimSize]
  generalize hz : h.toInt - l.toInt = z
  by_cases h1 : -9223372036854775808 ≤ z ∧ z ≤ 9223372036854775807
  · rw [if_pos h1]
    dsimp only [bind, Except.bind]
    rw [Int64.toInt_ofInt_of_le (by omega) (by omega)]
    by_cases h2 : z + 1 < 9223372036854775808
    · rw [if_pos (by omega)]
      dsimp only
      rw [Int64.toInt_ofInt_of_le (by omega) (by omega)]
      by_cases h3 : acc * (z + 1).toNat < 18446744073709551616
      · exact .inl ⟨⟨h1.1, h2⟩, h3, if_pos h3⟩
      · exact .inr ⟨fun h => h3 h.2, if_neg h3⟩
    · rw [if_neg (by omega)]
      exact .inr ⟨fun h => h2 h.1.2, rfl⟩
  · rw [if_neg h1]
    exact .inr ⟨fun h => by omega, rfl⟩

/-- The sizes multiplied from the left onto `acc` stay below `2 ^ 64`. -/
def FitFrom (acc : Nat) (dims : List (Int64 × Int64)) : Prop :=
  (∀ d ∈ dims, DimFits d) ∧
    ∀ k ≤ dims.length, acc * ((dims.take k).map dimSize).prod < 18446744073709551616

omit [F64Ops] in
theorem fitFrom_cons {acc : Nat} {d : Int64 × Int64} {ds : List (Int64 × Int64)}
    (hacc : acc < 18446744073709551616) :
    FitFrom acc (d :: ds) ↔ DimFits d ∧ FitFrom (acc * dimSize d) ds := by
  unfold FitFrom
  have hfirst : (∀ k ≤ (d :: ds).length,
      acc * (((d :: ds).take k).map dimSize).prod < 18446744073709551616) ↔
      ∀ k ≤ ds.length,
        acc * dimSize d * ((ds.take k).map dimSize).prod < 18446744073709551616 := by
    constructor
    · intro h k hk
      simpa [mul_assoc] using h (k + 1) (by simpa using hk)
    · intro h k hk
      cases k with
      | zero => simpa using hacc
      | succ k => simpa [mul_assoc] using h k (by simpa using hk)
  rw [hfirst, List.forall_mem_cons, and_assoc]

omit [F64Ops] in
theorem dimProductFrom_eq (dims : List (Int64 × Int64)) : ∀ {acc : Nat},
    acc < 18446744073709551616 →
    (FitFrom acc dims ∧ Vm.dimProductFrom acc dims = .ok (acc * (dims.map dimSize).prod)) ∨
    (¬ FitFrom acc dims ∧ Vm.dimProductFrom acc dims = .error .arithmetic) := by
  induction dims with
  | nil =>
    intro acc hacc
    left
    simp [FitFrom, Vm.dimProductFrom, hacc]
  | cons d ds ih =>
    intro acc hacc
    rw [fitFrom_cons hacc]
    rcases dimProductFrom_cons acc d ds with ⟨hd, hacc', he⟩ | ⟨hbad, he⟩
    · rw [he, List.map_cons, List.prod_cons, ← mul_assoc]
      simpa [hd] using ih hacc'
    · right
      refine ⟨fun ⟨hd, hfit⟩ => hbad ⟨hd, ?_⟩, he⟩
      simpa using hfit.2 0 (by omega)

omit [F64Ops] in
/-- The size of an array is the wrapped one, or the multiplication overflows. -/
theorem arrayTotal_eq (vm : Vm) (func : Function) (slot : UInt16) :
    ((∀ dims, vm.arrayDims func slot = some dims → SizesFit dims) ∧
      vm.arrayTotal func slot = .ok (vm.arrayElements func slot)) ∨
    (¬ (∀ dims, vm.arrayDims func slot = some dims → SizesFit dims) ∧
      vm.arrayTotal func slot = .error .arithmetic) := by
  unfold Vm.arrayTotal Vm.arrayElements
  cases hd : vm.arrayDims func slot with
  | none => simp
  | some dims =>
    have hfits : SizesFit dims ↔ FitFrom 1 dims := by simp [SizesFit, FitFrom]
    simp only [Option.some.injEq, forall_eq']
    rw [hfits]
    rcases @dimProductFrom_eq dims 1 (by omega) with ⟨hfit, he⟩ | ⟨hbad, he⟩
    · refine .inl ⟨hfit, he.trans ?_⟩
      have hlt := hfit.2 dims.length (Nat.le_refl _)
      rw [List.take_length] at hlt
      rw [elements, Nat.mod_eq_of_lt (by simpa using hlt), Nat.one_mul]
    · exact .inr ⟨hbad, he⟩

/-! ## Registers -/

section

variable {vm : Vm} {func : Function} {f : CallFrame} {rest : List CallFrame}

omit [F64Ops] in
theorem regGet_reg {r : Reg} (h : r.toNat < f.registers.length) : f.regGet r = .ok (f.reg r) := by
  unfold CallFrame.regGet index CallFrame.reg
  rw [List.getElem?_eq_getElem h]
  rfl

theorem exec_delivered {i : Instruction} {dst : Reg} {x : Except Trap Value}
    (hc : vm.compute func f i = some (dst, x)) (hdst : dst.toNat < f.registers.length) :
    vm.exec func f rest i = delivered vm f rest dst x := by
  simp only [Vm.exec, hc]
  cases x with
  | error t => rfl
  | ok v => simp [Vm.orTrap, delivered, CallFrame.regSet, indexSet, hdst, Except.map]

omit [F64Ops] in
theorem delivered_inj {dst : Reg} {x y : Except Trap Value}
    (hdst : dst.toNat < f.registers.length) :
    delivered vm f rest dst x = delivered vm f rest dst y ↔ x = y := by
  refine ⟨fun h => ?_, fun h => h ▸ rfl⟩
  cases x with
  | error t =>
    cases y with
    | error t' => simpa [delivered, Vm.trap] using h
    | ok w => simp [delivered, Vm.trap] at h
  | ok v =>
    cases y with
    | error t' => simp [delivered, Vm.trap] at h
    | ok w =>
      have hregs : f.registers.set dst.toNat v = f.registers.set dst.toNat w := by
        simpa [delivered, Vm.withStack] using h
      have := congrArg (·[dst.toNat]?) hregs
      simpa [hdst] using this

omit [F64Ops] in
theorem binary_reg {l r : Reg} {op : Value → Value → Except Panic Value}
    (hl : l.toNat < f.registers.length) (hr : r.toNat < f.registers.length) :
    f.binary l r op = liftPanic (op (f.reg l) (f.reg r)) := by
  simp only [CallFrame.binary, regGet_reg hl, regGet_reg hr]
  rfl

omit [F64Ops] in
theorem unary_reg {r : Reg} {op : Value → Except Panic Value}
    (hr : r.toNat < f.registers.length) : f.unary r op = liftPanic (op (f.reg r)) := by
  simp only [CallFrame.unary, regGet_reg hr]
  rfl

theorem compute_extract (kind : PartialAccessKind) (index : UInt8) (dst src : Reg) :
    vm.compute func f (extractInstruction kind index dst src) =
      some (dst, f.unary src (extractOf kind index)) := by
  cases kind <;> rfl

theorem compute_insert (kind : PartialAccessKind) (index : UInt8) (dst base val : Reg) :
    vm.compute func f (insertInstruction kind index dst base val) =
      some (dst, f.binary base val (insertOf kind index)) := by
  cases kind <;> rfl

theorem loadArray_iff {slot : UInt16} {idx : Reg} (hi : idx.toNat < f.registers.length) :
    vm.loadArray func f slot idx =
        .ok (vm.instanceGet (vm.instanceKey slot) (vm.elementAt func slot (f.reg idx))) ↔
      DistanceFits (f.reg idx) (vm.arrayLo func slot) := by
  have hrun : vm.loadArray func f slot idx = liftPanic (Vm.flatIndex (f.reg idx).asInt
      (vm.arrayLo func slot)) >>= fun flat => .ok (vm.instanceGet (vm.instanceKey slot) flat) := by
    simp only [Vm.loadArray, regGet_reg hi]
    rfl
  rw [hrun]
  rcases flatIndex_cases (f.reg idx) (vm.arrayLo func slot) with ⟨h, he⟩ | ⟨h, he⟩
  · rw [he]
    exact iff_of_true rfl h
  · rw [he]
    exact iff_of_false (by simp [liftPanic, bind, Except.bind]) h

theorem loadFieldIndex_iff {slot offset : UInt16} {idx : Reg}
    (hi : idx.toNat < f.registers.length) :
    vm.loadFieldIndex f slot offset idx =
        .ok (vm.instanceGet (vm.instanceKey slot) (fieldAt offset (f.reg idx))) ↔
      AddressFits offset (f.reg idx) := by
  have hrun : vm.loadFieldIndex f slot offset idx = liftPanic (checkedUsizeAdd offset.toNat
      (Vm.asUsize (f.reg idx).asInt)) >>= fun flat =>
        .ok (vm.instanceGet (vm.instanceKey slot) flat) := by
    simp only [Vm.loadFieldIndex, regGet_reg hi]
    rfl
  rw [hrun]
  rcases address_cases offset (f.reg idx) with ⟨h, he⟩ | ⟨h, he⟩
  · rw [he]
    exact iff_of_true rfl h
  · rw [he]
    exact iff_of_false (by simp [liftPanic, bind, Except.bind]) h

/-- The instruction of an operation that delivers a value puts one into the
same register, and it is the specified one on operands in range. -/
theorem compute_iff (capacity : Nat) {op : Operation} {dst : Reg} {y : Except Trap Value}
    (h : op.Held f) (hv : op.value? vm func f = some (dst, y)) :
    dst.toNat < f.registers.length ∧ ∃ x, vm.compute func f op.instruction = some (dst, x) ∧
      (x = y ↔ op.InRange capacity vm func f) := by
  unfold Operation.Held at h
  cases op with
  | add d l r =>
    simp only [Operation.registers, List.forall_mem_cons] at h
    obtain ⟨hd, hl, hr, -⟩ := h
    obtain ⟨rfl, rfl⟩ : d = dst ∧ _ = y := by simpa [Operation.value?] using hv
    refine ⟨hd, _, rfl, ?_⟩
    rw [binary_reg hl hr, addValues_wrapped]
    exact iff_of_true rfl trivial
  | sub d l r =>
    simp only [Operation.registers, List.forall_mem_cons] at h
    obtain ⟨hd, hl, hr, -⟩ := h
    obtain ⟨rfl, rfl⟩ : d = dst ∧ _ = y := by simpa [Operation.value?] using hv
    refine ⟨hd, _, rfl, ?_⟩
    rw [binary_reg hl hr, subValues_wrapped]
    exact iff_of_true rfl trivial
  | mul d l r =>
    simp only [Operation.registers, List.forall_mem_cons] at h
    obtain ⟨hd, hl, hr, -⟩ := h
    obtain ⟨rfl, rfl⟩ : d = dst ∧ _ = y := by simpa [Operation.value?] using hv
    refine ⟨hd, _, rfl, ?_⟩
    rw [binary_reg hl hr, mulValues_wrapped]
    exact iff_of_true rfl trivial
  | div d l r =>
    simp only [Operation.registers, List.forall_mem_cons] at h
    obtain ⟨hd, hl, hr, -⟩ := h
    obtain ⟨rfl, rfl⟩ : d = dst ∧ _ = y := by simpa [Operation.value?] using hv
    exact ⟨hd, _, rfl, divide_iff (regGet_reg hl) (regGet_reg hr)⟩
  | mod d l r =>
    simp only [Operation.registers, List.forall_mem_cons] at h
    obtain ⟨hd, hl, hr, -⟩ := h
    obtain ⟨rfl, rfl⟩ : d = dst ∧ _ = y := by simpa [Operation.value?] using hv
    exact ⟨hd, _, rfl, modulo_iff (regGet_reg hl) (regGet_reg hr)⟩
  | neg d src =>
    simp only [Operation.registers, List.forall_mem_cons] at h
    obtain ⟨hd, hs, -⟩ := h
    obtain ⟨rfl, rfl⟩ : d = dst ∧ _ = y := by simpa [Operation.value?] using hv
    refine ⟨hd, _, rfl, ?_⟩
    rw [unary_reg hs, liftPanic_ok_iff]
    exact negValue_iff _
  | readPart kind index d src =>
    simp only [Operation.registers, List.forall_mem_cons] at h
    obtain ⟨hd, hs, -⟩ := h
    obtain ⟨rfl, rfl⟩ : d = dst ∧ _ = y := by simpa [Operation.value?] using hv
    refine ⟨hd, _, compute_extract kind index.toUInt8 d src, ?_⟩
    rw [unary_reg hs, liftPanic_ok_iff]
    exact extractOf_iff kind index _
  | writePart kind index d base val =>
    simp only [Operation.registers, List.forall_mem_cons] at h
    obtain ⟨hd, hb, hv', -⟩ := h
    obtain ⟨rfl, rfl⟩ : d = dst ∧ _ = y := by simpa [Operation.value?] using hv
    refine ⟨hd, _, compute_insert kind index.toUInt8 d base val, ?_⟩
    rw [binary_reg hb hv', liftPanic_ok_iff]
    exact insertOf_iff kind index _ _
  | loadArray d slot idx =>
    simp only [Operation.registers, List.forall_mem_cons] at h
    obtain ⟨hd, hi, -⟩ := h
    obtain ⟨rfl, rfl⟩ : d = dst ∧ _ = y := by simpa [Operation.value?] using hv
    exact ⟨hd, _, rfl, loadArray_iff hi⟩
  | loadField d slot field =>
    simp only [Operation.registers, List.forall_mem_cons] at h
    obtain ⟨rfl, rfl⟩ : d = dst ∧ _ = y := by simpa [Operation.value?] using hv
    exact ⟨h.1, _, rfl, iff_of_true rfl trivial⟩
  | loadFieldIndex d slot offset idx =>
    simp only [Operation.registers, List.forall_mem_cons] at h
    obtain ⟨hd, hi, -⟩ := h
    obtain ⟨rfl, rfl⟩ : d = dst ∧ _ = y := by simpa [Operation.value?] using hv
    exact ⟨hd, _, rfl, loadFieldIndex_iff hi⟩
  | storeArray slot idx val => simp [Operation.value?] at hv
  | storeField slot field val => simp [Operation.value?] at hv
  | storeFieldIndex slot offset idx val => simp [Operation.value?] at hv

/-! ## Stores -/

/-- A store goes through when the vector it builds is not too long. -/
theorem exec_next {capacity : Nat} {op : Operation} {vm' : Vm}
    (h : vm.exec func f rest op.instruction = .next vm') :
    op.exec capacity vm func f rest = .next vm' ↔ op.needed vm func f ≤ capacity := by
  unfold Operation.exec
  rw [h]
  by_cases hcap : capacity < op.needed vm func f
  · simp [hcap, Vm.trap]
  · simp [hcap, Nat.le_of_not_lt hcap]

theorem exec_trap {capacity : Nat} {op : Operation} {t : Trap} {vm' : Vm}
    (h : vm.exec func f rest op.instruction = vm.trap t) :
    op.exec capacity vm func f rest ≠ .next vm' := by
  unfold Operation.exec
  rw [h]
  simp [Vm.trap]

theorem storeArray_iff {capacity : Nat} {slot : UInt16} {idx val : Reg}
    (hi : idx.toNat < f.registers.length) (hv : val.toNat < f.registers.length) :
    (Operation.storeArray slot idx val).exec capacity vm func f rest =
        .next ((Operation.storeArray slot idx val).stored vm func f) ↔
      (Operation.storeArray slot idx val).InRange capacity vm func f := by
  have hrun : vm.exec func f rest (.storeArray slot idx val) =
      vm.orTrap (liftPanic (vm.arrayTotal func slot)) fun total =>
        vm.orTrap (liftPanic (Vm.flatIndex (f.reg idx).asInt (vm.arrayLo func slot))) fun flat =>
          .next (vm.putInstance (vm.instanceKey slot)
            (((Finmap.lookup (vm.instanceKey slot) vm.fbInstances).getD
              (List.replicate total Value.dflt)).set flat (f.reg val))) := by
    show vm.storeArray func f slot idx val = _
    simp only [Vm.storeArray, regGet_reg hi, regGet_reg hv]
    rfl
  simp only [Operation.InRange]
  rcases arrayTotal_eq vm func slot with ⟨hfit, ht⟩ | ⟨hbad, ht⟩
  · rcases flatIndex_cases (f.reg idx) (vm.arrayLo func slot) with ⟨hd, hf⟩ | ⟨hd, hf⟩
    · rw [exec_next (by rw [Operation.instruction, hrun, ht, hf]; rfl)]
      simp only [Operation.needed, ht, Except.toOption, Option.getD_some]
      constructor
      · intro h
        exact ⟨hd, hfit, fun hn => by simpa [hn] using h⟩
      · rintro ⟨-, -, hcap⟩
        cases hl : Finmap.lookup (vm.instanceKey slot) vm.fbInstances with
        | none => simpa using hcap hl
        | some xs => simp
    · exact iff_of_false (exec_trap (by rw [Operation.instruction, hrun, ht, hf]; rfl))
        fun h => hd h.1
  · exact iff_of_false (exec_trap (by rw [Operation.instruction, hrun, ht]; rfl))
      fun h => hbad h.2.1

theorem storeField_iff {capacity : Nat} {slot field : UInt16} {val : Reg}
    (hv : val.toNat < f.registers.length) :
    (Operation.storeField slot field val).exec capacity vm func f rest =
        .next ((Operation.storeField slot field val).stored vm func f) ↔
      (Operation.storeField slot field val).InRange capacity vm func f := by
  have hrun : vm.exec func f rest (.storeField slot field val) =
      .next (vm.instanceSet (vm.instanceKey slot) field.toNat (f.reg val)) := by
    show (vm.orTrap (f.regGet val) fun v =>
      .next (vm.instanceSet (vm.instanceKey slot) field.toNat v)) = _
    rw [regGet_reg hv]
    rfl
  exact exec_next hrun

theorem storeFieldIndex_iff {capacity : Nat} {slot offset : UInt16} {idx val : Reg}
    (hi : idx.toNat < f.registers.length) (hv : val.toNat < f.registers.length) :
    (Operation.storeFieldIndex slot offset idx val).exec capacity vm func f rest =
        .next ((Operation.storeFieldIndex slot offset idx val).stored vm func f) ↔
      (Operation.storeFieldIndex slot offset idx val).InRange capacity vm func f := by
  have hrun : vm.exec func f rest (.storeFieldIndex slot offset idx val) =
      vm.orTrap (liftPanic (checkedUsizeAdd offset.toNat (Vm.asUsize (f.reg idx).asInt)))
        fun flat => vm.orTrap (liftPanic (checkedUsizeAdd flat 1)) fun _ =>
          .next (vm.instanceSet (vm.instanceKey slot) flat (f.reg val)) := by
    show vm.storeFieldIndex f slot offset idx val = _
    simp only [Vm.storeFieldIndex, regGet_reg hi, regGet_reg hv]
    rfl
  simp only [Operation.InRange]
  rcases address_cases offset (f.reg idx) with ⟨ha, he⟩ | ⟨ha, he⟩
  · by_cases hnext : fieldAt offset (f.reg idx) + 1 < 18446744073709551616
    · have hone : checkedUsizeAdd (fieldAt offset (f.reg idx)) 1 =
          .ok (fieldAt offset (f.reg idx) + 1) := if_pos hnext
      have hnexts : vm.exec func f rest (.storeFieldIndex slot offset idx val) =
          .next (vm.instanceSet (vm.instanceKey slot) (fieldAt offset (f.reg idx))
            (f.reg val)) := by
        rw [hrun, he]
        simp only [liftPanic, Vm.orTrap, hone]
      refine (exec_next hnexts).trans ?_
      simp [Operation.needed, ← fieldAt_eq ha, ha, hnext]
    · have hone : checkedUsizeAdd (fieldAt offset (f.reg idx)) 1 = .error .arithmetic :=
        if_neg hnext
      have htraps : vm.exec func f rest (.storeFieldIndex slot offset idx val) =
          vm.trap (.panic .arithmetic) := by
        rw [hrun, he]
        simp only [liftPanic, Vm.orTrap, hone]
      exact iff_of_false (exec_trap htraps) fun h => hnext h.2.1
  · exact iff_of_false (exec_trap (by rw [Operation.instruction, hrun, he]; rfl)) fun h => ha h.1

/-! ## All operations -/

/-- The specified behaviour stops with no other trap than a division by zero. -/
theorem specified_reports {op : Operation} {s : Vm} {t : Trap}
    (h : op.specified vm func f rest = .halt (s, .error t)) : t = .error .divisionByZero := by
  unfold Operation.specified at h
  cases hv : op.value? vm func f with
  | none => simp [hv] at h
  | some dy =>
    obtain ⟨dst, y⟩ := dy
    rw [hv] at h
    have hy : y = .error t := by
      cases y with
      | ok v => simp [delivered] at h
      | error t' => simp_all [delivered, Vm.trap]
    subst hy
    cases op with
    | div d l r =>
      simp only [Operation.value?, quotient, Option.some.injEq, Prod.mk.injEq] at hv
      obtain ⟨-, hq⟩ := hv
      split at hq
      · simpa using hq.symm
      · simp at hq
    | mod d l r =>
      simp only [Operation.value?, remainder, Option.some.injEq, Prod.mk.injEq] at hv
      obtain ⟨-, hq⟩ := hv
      split at hq
      · simpa using hq.symm
      · simp at hq
    | _ => simp [Operation.value?] at hv

/-- **Arithmetic as specified.** On a frame that has its registers, the
instruction of an operation reports a zero divisor and otherwise delivers or
stores what the operation is specified to, exactly when the operands are in
range. -/
theorem arithmetic_specified_iff {capacity : Nat} {op : Operation} (h : op.Held f) :
    (op.exec capacity vm func f rest = op.specified vm func f rest ↔
      op.InRange capacity vm func f) ∧
    ∀ s t, op.specified vm func f rest = .halt (s, .error t) → t = .error .divisionByZero := by
  refine ⟨?_, fun s t => specified_reports⟩
  cases hv : op.value? vm func f with
  | some dy =>
    obtain ⟨dst, y⟩ := dy
    obtain ⟨hdst, x, hc, hiff⟩ := compute_iff capacity h hv
    have hneed : op.needed vm func f = 0 := by
      cases op <;> first | rfl | simp [Operation.value?] at hv
    have hexec : op.exec capacity vm func f rest = delivered vm f rest dst x := by
      unfold Operation.exec
      rw [exec_delivered hc hdst, hneed]
      cases x <;> rfl
    rw [hexec, Operation.specified, hv, delivered_inj hdst, hiff]
  | none =>
    have hstored : op.specified vm func f rest = .next (op.stored vm func f) := by
      rw [Operation.specified, hv]
    rw [hstored]
    unfold Operation.Held at h
    cases op with
    | storeArray slot idx val =>
      simp only [Operation.registers, List.forall_mem_cons] at h
      exact storeArray_iff h.1 h.2.1
    | storeField slot field val =>
      simp only [Operation.registers, List.forall_mem_cons] at h
      exact storeField_iff h.1
    | storeFieldIndex slot offset idx val =>
      simp only [Operation.registers, List.forall_mem_cons] at h
      exact storeFieldIndex_iff h.1 h.2.1
    | _ => simp [Operation.value?] at hv

end

end

/-! ## Divisions -/

/-- The frame of a function with these two operands in registers 1 and 2. -/
def operandFrame (l r : Value) : CallFrame where
  funcIndex := 0
  registers := [Value.dflt, l, r]
  locals := []
  pc := 0
  returnReg := none
  instanceSlot := none

/-- A machine without functions. -/
def bareMachine : Vm := Vm.new ⟨[], .empty, [], []⟩ .default

/-- Minus seven by two, on the machine and as specified. -/
theorem minus_seven_by_two :
    (@Operation.exec default 1000 bareMachine (stub "Main" .program)
        (operandFrame (.int (-7)) (.int 2)) [] (.div 0 1 2) =
      @Operation.specified default bareMachine (stub "Main" .program)
        (operandFrame (.int (-7)) (.int 2)) [] (.div 0 1 2)) ∧
    @quotient default (.int (-7)) (.int 2) = .ok (.int (-3)) := by
  have hheld : (Operation.div 0 1 2).Held (operandFrame (.int (-7)) (.int 2)) := by
    simp [Operation.Held, Operation.registers, operandFrame]
  refine ⟨((@arithmetic_specified_iff default _ _ _ _ 1000 _ hheld).1).mpr ?_, by decide⟩
  show @QuotientInRange default (.int (-7)) (.int 2)
  unfold QuotientInRange Overflows SameQuotient
  decide

/-- `x := -9223372036854775807 - 1; y := x / (-1);` -/
def overflowSource : SourceFile := ⟨[
  .program ⟨"Main", [.of [.plain "x" (.elementary .lint), .plain "y" (.elementary .lint)]],
    [.assign "x" (.binary .sub (.unary .neg (.ofInt 9223372036854775807) noRange) (.ofInt 1) noRange),
     .assign "y" (.binary .div (.ofName "x") (.unary .neg (.ofInt 1) noRange) noRange)]⟩]⟩

/-- The analyzer accepts the program, and its first scan cycle panics. -/
theorem quotient_overflow_panics :
    ¬ ∀ (_ : F64Ops) (source : SourceFile) (m : Module), accepts source = true →
      compile source = .ok m → ∀ fuel p, mainResult fuel m ≠ some (.error (.panic p)) := by
  intro h
  have hacc : accepts overflowSource = true := by decide +kernel
  have hrun : @yields default overflowSource (fun m =>
      decide (@mainResult default 100 m = some (.error (.panic .arithmetic)))) = true := by
    decide +kernel
  obtain ⟨m, hm, hp⟩ := (@yields_iff default _ _).mp hrun
  exact h default _ m hacc hm 100 _ (of_decide_eq_true hp)

end RustPlc.Engine
