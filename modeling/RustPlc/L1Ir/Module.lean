import RustPlc.L1Ir.Value

/-!
# Bytecode modules

The register-based IR of crates/st-ir/src/lib.rs: memory layouts, type
definitions, instructions, functions and modules. Registers, slots and
function indices are `u16`, labels are `u32`, program counters and vector
lengths are `usize` (`Nat` here).

Names are compared without regard to ASCII case (`eqIgnoreAsciiCase`), and a
position found in a vector is cast to `u16`, as the source does.
-/
namespace RustPlc.Ir

abbrev Reg := UInt16
abbrev Label := UInt32

/-- `str::eq_ignore_ascii_case`. -/
def eqIgnoreAsciiCase (a b : String) : Bool :=
  a.toList.map Char.toLower == b.toList.map Char.toLower

/-- `str::to_uppercase` on identifiers, which the grammar limits to ASCII. -/
def toUppercase (s : String) : String := String.ofList (s.toList.map Char.toUpper)

/-- The first position of `xs` satisfying `p`, with the element there. -/
def findIdx {α : Type} (p : α → Bool) : List α → Option (Nat × α)
  | [] => none
  | x :: xs => if p x then some (0, x) else (findIdx p xs).map fun (i, y) => (i + 1, y)

/-! ## Layouts -/

/-- mirrors crates/st-ir/src/lib.rs:68-84 -/
structure VarSlot where
  name : String
  ty : VarType
  offset : Nat
  size : Nat
  retain : Bool
  persistent : Bool
  intWidth : IntWidth
  deriving DecidableEq, Repr

/-- mirrors crates/st-ir/src/lib.rs:62-64 -/
structure MemoryLayout where
  slots : List VarSlot
  deriving DecidableEq, Repr

namespace MemoryLayout

def empty : MemoryLayout := ⟨[]⟩

/-- mirrors crates/st-ir/src/lib.rs:515-521 -/
def findSlot (l : MemoryLayout) (name : String) : Option (UInt16 × VarSlot) :=
  (findIdx (fun s => eqIgnoreAsciiCase s.name name) l.slots).map fun (i, s) => (i.toUInt16, s)

/-- mirrors crates/st-ir/src/lib.rs:525-527 -/
def hasExpandedArrays (l : MemoryLayout) : Bool :=
  l.slots.any fun s => match s.ty with
    | .array _ => decide (s.size > 1)
    | _ => false

/-- mirrors crates/st-ir/src/lib.rs:534-539 -/
def expandedIndex (l : MemoryLayout) (slotIdx : Nat) : Nat :=
  if !l.hasExpandedArrays then slotIdx
  else match l.slots[slotIdx]? with
    | some s => s.offset
    | none => slotIdx

/-- mirrors crates/st-ir/src/lib.rs:552-554 -/
def totalSize (l : MemoryLayout) : Nat :=
  (l.slots.map fun s => s.offset + s.size).foldl max 0

/-- One default value per slot, the initial content of a frame's locals. -/
def defaults (l : MemoryLayout) : List Value := l.slots.map fun s => Value.defaultForType s.ty

@[simp] theorem defaults_length (l : MemoryLayout) : l.defaults.length = l.slots.length := by
  simp [defaults]

end MemoryLayout

/-- mirrors crates/st-ir/src/lib.rs:499-512 -/
inductive TypeDef where
  | struct (name : String) (fields : List VarSlot)
  | enum (name : String) (variants : List (String × Int64))
  | array (elementType : VarType) (dimensions : List (Int64 × Int64))
  deriving DecidableEq, Repr

/-! ## Instructions -/

/-- mirrors crates/st-ir/src/lib.rs:258-488. Destination registers come
first. -/
inductive Instruction where
  | nop
  | loadConst (dst : Reg) (val : Value)
  | move (dst src : Reg)
  | loadLocal (dst : Reg) (slot : UInt16)
  | storeLocal (slot : UInt16) (src : Reg)
  | loadGlobal (dst : Reg) (slot : UInt16)
  | storeGlobal (slot : UInt16) (src : Reg)
  | add (dst l r : Reg)
  | sub (dst l r : Reg)
  | mul (dst l r : Reg)
  | div (dst l r : Reg)
  | mod (dst l r : Reg)
  | pow (dst l r : Reg)
  | neg (dst src : Reg)
  | cmpEq (dst l r : Reg)
  | cmpNe (dst l r : Reg)
  | cmpLt (dst l r : Reg)
  | cmpGt (dst l r : Reg)
  | cmpLe (dst l r : Reg)
  | cmpGe (dst l r : Reg)
  | and (dst l r : Reg)
  | or (dst l r : Reg)
  | xor (dst l r : Reg)
  | not (dst src : Reg)
  | sqrt (dst src : Reg)
  | sin (dst src : Reg)
  | cos (dst src : Reg)
  | tan (dst src : Reg)
  | asin (dst src : Reg)
  | acos (dst src : Reg)
  | atan (dst src : Reg)
  | systemTime (dst : Reg)
  | ln (dst src : Reg)
  | log (dst src : Reg)
  | exp (dst src : Reg)
  | toInt (dst src : Reg)
  | toReal (dst src : Reg)
  | toBool (dst src : Reg)
  | toTime (dst src : Reg)
  | toTod (dst src : Reg)
  | dtExtractDate (dst src : Reg)
  | dtExtractTod (dst src : Reg)
  | dayOfWeek (dst src : Reg)
  | stringLen (dst src : Reg)
  | stringConcat (dst l r : Reg)
  | stringLeft (dst str size : Reg)
  | stringRight (dst str size : Reg)
  | stringMid (dst str len pos : Reg)
  | stringFind (dst hay needle : Reg)
  | stringInsert (dst s1 s2 pos : Reg)
  | stringDelete (dst str len pos : Reg)
  | stringReplace (dst str1 str2 len pos : Reg)
  | stringTrim (dst src : Reg)
  | stringLTrim (dst src : Reg)
  | stringRTrim (dst src : Reg)
  | stringToUpper (dst src : Reg)
  | stringToLower (dst src : Reg)
  | intToString (dst src : Reg)
  | uintToString (dst src : Reg)
  | realToString (dst src : Reg)
  | boolToString (dst src : Reg)
  | stringToInt (dst src : Reg)
  | stringToUInt (dst src : Reg)
  | stringToReal (dst src : Reg)
  | stringToBool (dst src : Reg)
  | toString (dst src : Reg)
  | jump (label : Label)
  | jumpIf (reg : Reg) (label : Label)
  | jumpIfNot (reg : Reg) (label : Label)
  | call (funcIndex : UInt16) (dst : Reg) (args : List (UInt16 × Reg))
  | callFb (instanceSlot funcIndex : UInt16) (args : List (UInt16 × Reg))
  | ret (reg : Reg)
  | callMethod (instanceSlot classFuncIndex funcIndex : UInt16) (dst : Reg)
      (args : List (UInt16 × Reg))
  | retVoid
  | makeRefLocal (dst : Reg) (slot : UInt16)
  | makeRefGlobal (dst : Reg) (slot : UInt16)
  | deref (dst ptr : Reg)
  | derefStore (ptr val : Reg)
  | loadNull (dst : Reg)
  | extractBit (dst src : Reg) (bit : UInt8)
  | insertBit (dst src : Reg) (bit : UInt8) (val : Reg)
  | extractPartial (dst src : Reg) (index sizeBits : UInt8)
  | insertPartial (dst src : Reg) (index sizeBits : UInt8) (val : Reg)
  | loadArray (dst : Reg) (baseSlot : UInt16) (idx : Reg)
  | storeArray (baseSlot : UInt16) (idx val : Reg)
  | loadField (dst : Reg) (instanceSlot fieldIdx : UInt16)
  | storeField (instanceSlot fieldIdx : UInt16) (val : Reg)
  | loadFieldIndex (dst : Reg) (instanceSlot baseOffset : UInt16) (idx : Reg)
  | storeFieldIndex (instanceSlot baseOffset : UInt16) (idx val : Reg)
  deriving DecidableEq, Repr

/-! ## Functions and modules -/

/-- mirrors crates/st-ir/src/lib.rs:52-58 -/
inductive PouKind where
  | function | functionBlock | program | cls | method
  deriving DecidableEq, Repr

/-- mirrors crates/st-ir/src/lib.rs:492-495 -/
structure SourceLocation where
  byteOffset : Nat
  byteEnd : Nat
  deriving DecidableEq, Repr

def SourceLocation.default : SourceLocation := ⟨0, 0⟩

/-- `usize::MAX`, the position of a label that has not been placed. -/
def usizeMax : Nat := 2 ^ 64 - 1

/-- mirrors crates/st-ir/src/lib.rs:33-49 -/
structure Function where
  name : String
  kind : PouKind
  registerCount : UInt16
  instructions : List Instruction
  labelPositions : List Nat
  locals : MemoryLayout
  sourceMap : List SourceLocation
  bodyStartPc : Nat
  deriving DecidableEq, Repr

/-- mirrors crates/st-ir/src/lib.rs:17-29 -/
structure Module where
  functions : List Function
  globals : MemoryLayout
  typeDefs : List TypeDef
  nativeFbIndices : List UInt16
  deriving DecidableEq, Repr

/-- mirrors crates/st-ir/src/lib.rs:558-564 -/
def Module.findFunction (m : Module) (name : String) : Option (UInt16 × Function) :=
  (findIdx (fun f => eqIgnoreAsciiCase f.name name) m.functions).map fun (i, f) => (i.toUInt16, f)

/-! ## Positions found in a vector -/

theorem findIdx_some {α : Type} {p : α → Bool} :
    ∀ {xs : List α} {i : Nat} {x : α}, findIdx p xs = some (i, x) →
      xs[i]? = some x ∧ p x = true ∧ ∀ j, j < i → ∀ y, xs[j]? = some y → p y = false
  | [], _, _, h => by simp [findIdx] at h
  | y :: ys, i, x, h => by
    unfold findIdx at h
    split at h
    · next hp =>
      simp only [Option.some.injEq, Prod.mk.injEq] at h
      obtain ⟨rfl, rfl⟩ := h
      exact ⟨rfl, hp, fun j hj => absurd hj (Nat.not_lt_zero j)⟩
    · next hp =>
      simp only [Option.map_eq_some_iff, Prod.mk.injEq, Prod.exists] at h
      obtain ⟨k, z, hk, rfl, rfl⟩ := h
      obtain ⟨h1, h2, h3⟩ := findIdx_some hk
      refine ⟨by simpa using h1, h2, fun j hj w hw => ?_⟩
      cases j with
      | zero => simp at hw; subst hw; simpa using hp
      | succ j => exact h3 j (by omega) w (by simpa using hw)

theorem findIdx_none {α : Type} {p : α → Bool} :
    ∀ {xs : List α}, findIdx p xs = none → ∀ x ∈ xs, p x = false
  | [], _ => by simp
  | y :: ys, h => by
    unfold findIdx at h
    split at h
    · cases h
    · next hp =>
      simp only [Option.map_eq_none_iff] at h
      intro x hx
      rcases List.mem_cons.mp hx with rfl | hx
      · simpa using hp
      · exact findIdx_none h x hx

theorem findIdx_lt {α : Type} {p : α → Bool} {xs : List α} {i : Nat} {x : α}
    (h : findIdx p xs = some (i, x)) : i < xs.length := by
  have := (findIdx_some h).1
  exact (List.getElem?_eq_some_iff.mp this).1

/-- The cast to `u16` never leaves the vector. -/
theorem toUInt16_lt_of_lt {i n : Nat} (h : i < n) : i.toUInt16.toNat < n := by
  have : i.toUInt16.toNat = i % 65536 := by simp [Nat.toUInt16]
  omega

theorem MemoryLayout.findSlot_lt {l : MemoryLayout} {name : String} {i : UInt16} {s : VarSlot}
    (h : l.findSlot name = some (i, s)) : i.toNat < l.slots.length := by
  unfold findSlot at h
  simp only [Option.map_eq_some_iff, Prod.mk.injEq, Prod.exists] at h
  obtain ⟨k, z, hk, rfl, rfl⟩ := h
  exact toUInt16_lt_of_lt (findIdx_lt hk)

/-- With at most 65536 functions, an index found is the position found. -/
theorem Module.findFunction_some {m : Module} {name : String} {i : UInt16} {f : Function}
    (hm : m.functions.length ≤ 65536) (h : m.findFunction name = some (i, f)) :
    m.functions[i.toNat]? = some f := by
  unfold findFunction at h
  simp only [Option.map_eq_some_iff, Prod.mk.injEq, Prod.exists] at h
  obtain ⟨k, z, hk, rfl, rfl⟩ := h
  have hlt := findIdx_lt hk
  have hto : k.toUInt16.toNat = k := by
    simp only [Nat.toUInt16, UInt16.toNat_ofNat']
    omega
  rw [hto]
  exact (findIdx_some hk).1

end RustPlc.Ir
