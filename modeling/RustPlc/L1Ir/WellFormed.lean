import RustPlc.L1Ir.Module

/-!
# Well-formed bytecode

The operands of an instruction, by what they index, and the condition that
every operand stays inside the table it indexes. `Function.WellFormed` is
what the interpreter relies on when it indexes registers, locals, globals,
functions and label positions without a check.
-/
namespace RustPlc.Ir

namespace Instruction

/-- The register operands. -/
def regs : Instruction → List Reg
  | .nop | .jump _ | .retVoid => []
  | .loadConst a _ | .loadLocal a _ | .storeLocal _ a | .loadGlobal a _ | .storeGlobal _ a
  | .systemTime a | .jumpIf a _ | .jumpIfNot a _ | .ret a | .makeRefLocal a _
  | .makeRefGlobal a _ | .loadNull a | .loadField a _ _ | .storeField _ _ a => [a]
  | .move a b | .neg a b | .not a b | .sqrt a b | .sin a b | .cos a b | .tan a b | .asin a b
  | .acos a b | .atan a b | .ln a b | .log a b | .exp a b | .toInt a b | .toReal a b
  | .toBool a b | .toTime a b | .toTod a b | .dtExtractDate a b | .dtExtractTod a b
  | .dayOfWeek a b | .stringLen a b | .stringTrim a b | .stringLTrim a b | .stringRTrim a b
  | .stringToUpper a b | .stringToLower a b | .intToString a b | .uintToString a b
  | .realToString a b | .boolToString a b | .stringToInt a b | .stringToUInt a b
  | .stringToReal a b | .stringToBool a b | .toString a b | .deref a b | .derefStore a b
  | .extractBit a b _ | .extractPartial a b _ _ | .loadArray a _ b | .storeArray _ a b
  | .loadFieldIndex a _ _ b | .storeFieldIndex _ _ a b => [a, b]
  | .add a b c | .sub a b c | .mul a b c | .div a b c | .mod a b c | .pow a b c | .cmpEq a b c
  | .cmpNe a b c | .cmpLt a b c | .cmpGt a b c | .cmpLe a b c | .cmpGe a b c | .and a b c
  | .or a b c | .xor a b c | .stringConcat a b c | .stringLeft a b c | .stringRight a b c
  | .stringFind a b c | .insertBit a b _ c | .insertPartial a b _ _ c => [a, b, c]
  | .stringMid a b c d | .stringInsert a b c d | .stringDelete a b c d => [a, b, c, d]
  | .stringReplace a b c d e => [a, b, c, d, e]
  | .call _ dst args => dst :: args.map (·.2)
  | .callFb _ _ args => args.map (·.2)
  | .callMethod _ _ _ dst args => dst :: args.map (·.2)

/-- The label operands. -/
def labels : Instruction → List Label
  | .jump l | .jumpIf _ l | .jumpIfNot _ l => [l]
  | _ => []

/-- The operands that index the locals of the running function. -/
def localSlots : Instruction → List UInt16
  | .loadLocal _ s | .storeLocal s _ | .makeRefLocal _ s | .loadArray _ s _ | .storeArray s _ _
  | .loadField _ s _ | .storeField s _ _ | .loadFieldIndex _ s _ _ | .storeFieldIndex s _ _ _
  | .callFb s _ _ | .callMethod s _ _ _ _ => [s]
  | _ => []

/-- The operands that index the globals. -/
def globalSlots : Instruction → List UInt16
  | .loadGlobal _ s | .storeGlobal s _ | .makeRefGlobal _ s => [s]
  | _ => []

/-- The operands that index the functions of the module. -/
def callees : Instruction → List UInt16
  | .call f _ _ | .callFb _ f _ => [f]
  | .callMethod _ c f _ _ => [c, f]
  | _ => []

/-- The constants. -/
def consts : Instruction → List Value
  | .loadConst _ v => [v]
  | _ => []

end Instruction

def Value.isRef : Value → Bool
  | .ref _ _ => true
  | _ => false

/-- The sizes of the tables an instruction indexes. -/
structure Limits where
  regs : Nat
  labels : Nat
  locals : Nat
  globals : Nat
  functions : Nat

/-- Every operand is inside its table, and no constant is a reference. -/
structure Instruction.Fits (b : Limits) (i : Instruction) : Prop where
  regs : ∀ r ∈ i.regs, r.toNat < b.regs
  labels : ∀ l ∈ i.labels, l.toNat < b.labels
  localSlots : ∀ s ∈ i.localSlots, s.toNat < b.locals
  globalSlots : ∀ s ∈ i.globalSlots, s.toNat < b.globals
  callees : ∀ f ∈ i.callees, f.toNat < b.functions
  consts : ∀ v ∈ i.consts, v.isRef = false

/-- `b` is no larger than `b'` in any table. -/
structure Limits.Le (b b' : Limits) : Prop where
  regs : b.regs ≤ b'.regs
  labels : b.labels ≤ b'.labels
  locals : b.locals ≤ b'.locals
  globals : b.globals ≤ b'.globals
  functions : b.functions ≤ b'.functions

theorem Instruction.Fits.mono {b b' : Limits} {i : Instruction} (h : i.Fits b) (hb : b.Le b') :
    i.Fits b' where
  regs := fun r hr => Nat.lt_of_lt_of_le (h.regs r hr) hb.regs
  labels := fun l hl => Nat.lt_of_lt_of_le (h.labels l hl) hb.labels
  localSlots := fun s hs => Nat.lt_of_lt_of_le (h.localSlots s hs) hb.locals
  globalSlots := fun s hs => Nat.lt_of_lt_of_le (h.globalSlots s hs) hb.globals
  callees := fun f hf => Nat.lt_of_lt_of_le (h.callees f hf) hb.functions
  consts := h.consts

/-- The registers are the only operands. -/
structure Instruction.OnlyRegs (i : Instruction) (rs : List Reg) : Prop where
  regs : i.regs = rs
  labels : i.labels = []
  localSlots : i.localSlots = []
  globalSlots : i.globalSlots = []
  callees : i.callees = []
  consts : i.consts = []

theorem Instruction.OnlyRegs.fits {b : Limits} {i : Instruction} {l : List Reg}
    (h : i.OnlyRegs l) (hr : ∀ r ∈ l, r.toNat < b.regs) : i.Fits b where
  regs := by rw [h.regs]; exact hr
  labels := by simp [h.labels]
  localSlots := by simp [h.localSlots]
  globalSlots := by simp [h.globalSlots]
  callees := by simp [h.callees]
  consts := by simp [h.consts]

/-- The tables of `f` in module `m`. -/
def Function.limits (m : Module) (f : Function) : Limits :=
  ⟨f.registerCount.toNat, f.labelPositions.length, f.locals.slots.length,
    m.globals.slots.length, m.functions.length⟩

/-- Every operand is in range, and every label is placed inside the code. -/
structure Function.WellFormed (m : Module) (f : Function) : Prop where
  fits : ∀ i ∈ f.instructions, i.Fits (f.limits m)
  placed : ∀ p ∈ f.labelPositions, p ≤ f.instructions.length

def Module.WellFormed (m : Module) : Prop := ∀ f ∈ m.functions, f.WellFormed m

end RustPlc.Ir
