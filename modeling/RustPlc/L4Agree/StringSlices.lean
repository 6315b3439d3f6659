import RustPlc.L1Ir.Slices
import RustPlc.L4Agree.Comparison

/-!
# String functions and where they cut

`LEFT`, `RIGHT`, `MID`, `INSERT`, `DELETE`, `REPLACE` and `FIND`
(crates/st-engine/src/vm.rs:1561-1641). Sizes and positions count bytes and
are clamped to the length of the text, and then the text is sliced there. A
literal may hold any character, so a clamped position can be inside one.

Results
* `string_delivers_iff`: an operation delivers the documented value exactly
  when every position it cuts at is between two characters; at another
  position the slice panics, and nothing else does.
* `first_byte_panics`: an accepted program takes the first byte of `'é'`, and
  the process panics.
-/
namespace RustPlc.Engine

open RustPlc.Ir RustPlc.Syntax RustPlc.Compiler RustPlc.Analysis

/-- A string function with the registers of its arguments. -/
inductive StringOp where
  | left (dst str size : Reg) | right (dst str size : Reg) | mid (dst str len pos : Reg)
  | insert (dst str1 str2 pos : Reg) | delete (dst str len pos : Reg)
  | replace (dst str1 str2 len pos : Reg) | find (dst hay needle : Reg)

namespace StringOp

/-- What the compiler emits for it.
mirrors crates/st-compiler/src/compile.rs:1528-1569 -/
def instruction : StringOp → Instruction
  | left dst str size => .stringLeft dst str size
  | right dst str size => .stringRight dst str size
  | mid dst str len pos => .stringMid dst str len pos
  | insert dst str1 str2 pos => .stringInsert dst str1 str2 pos
  | delete dst str len pos => .stringDelete dst str len pos
  | replace dst str1 str2 len pos => .stringReplace dst str1 str2 len pos
  | find dst hay needle => .stringFind dst hay needle

def dst : StringOp → Reg
  | left dst _ _ | right dst _ _ | mid dst _ _ _ | insert dst _ _ _ | delete dst _ _ _
  | replace dst _ _ _ _ | find dst _ _ => dst

/-- The registers it reads. -/
def arguments : StringOp → List Reg
  | left _ a b | right _ a b | find _ a b => [a, b]
  | mid _ a b c | insert _ a b c | delete _ a b c => [a, b, c]
  | replace _ a b c d => [a, b, c, d]

/-- The register of the text it cuts. -/
def subject : StringOp → Reg
  | left _ str _ | right _ str _ | mid _ str _ _ | insert _ str _ _ | delete _ str _ _
  | replace _ str _ _ _ | find _ str _ => str

/-- The frame has the registers it reads. -/
def Held (op : StringOp) (f : CallFrame) : Prop :=
  ∀ r ∈ op.arguments, r.toNat < f.registers.length

end StringOp

/-- The text in a register. -/
def CallFrame.text (f : CallFrame) (r : Reg) : List Char := regStr (f.reg r)

/-! ## The documented values -/

section

variable [F64Ops]

/-- The integer in a register. -/
def CallFrame.count (f : CallFrame) (r : Reg) : Int := (f.reg r).asInt.toInt

/-- A number clamped to a length. -/
def clamped (n : Int) (size : Nat) : Nat := min n.toNat size

/-- Nothing of a text of this size is `len` bytes from `pos` on. -/
def NothingAt (len pos : Int) (size : Nat) : Prop := pos < 1 ∨ len ≤ 0 ∨ (size : Int) < pos

instance (len pos : Int) (size : Nat) : Decidable (NothingAt len pos size) :=
  inferInstanceAs (Decidable (_ ∨ _))

/-- The end of `len` bytes from `start` on, clamped. -/
def stopAt (start : Nat) (len : Int) (size : Nat) : Nat := min (start + len.toNat) size

/-- `len` bytes from `pos` on, with what is around them; `none` where nothing
is there. -/
def SectionValue (cs : List Char) (len pos : Int) (none : Value)
    (out : List Char → List Char → List Char → Value) (v : Value) : Prop :=
  if NothingAt len pos (byteLen cs) then v = none
  else ∃ a m b, SectionAt cs (pos - 1).toNat (stopAt (pos - 1).toNat len (byteLen cs)) a m b ∧
    v = out a m b

/-- The ends of these bytes. -/
def sectionCuts (cs : List Char) (len pos : Int) : List Nat :=
  if NothingAt len pos (byteLen cs) then []
  else [(pos - 1).toNat, stopAt (pos - 1).toNat len (byteLen cs)]

namespace StringOp

/-- The value the documentation gives. Positions are from 1 on. -/
def Delivers (f : CallFrame) (v : Value) : StringOp → Prop
  | left _ str size => ∃ a b,
    SplitsAt (f.text str) (clamped (f.count size) (byteLen (f.text str))) a b ∧ v = strValue a
  | right _ str size => ∃ a b,
    SplitsAt (f.text str)
      (byteLen (f.text str) - clamped (f.count size) (byteLen (f.text str))) a b ∧
    v = strValue b
  | mid _ str len pos =>
    SectionValue (f.text str) (f.count len) (f.count pos) (strValue []) (fun _ m _ => strValue m) v
  | insert _ str1 str2 pos => ∃ a b,
    SplitsAt (f.text str1) (clamped (f.count pos) (byteLen (f.text str1))) a b ∧
    v = strValue (a ++ f.text str2 ++ b)
  | delete _ str len pos =>
    SectionValue (f.text str) (f.count len) (f.count pos) (strValue (f.text str))
      (fun a _ b => strValue (a ++ b)) v
  | replace _ str1 str2 len pos =>
    let cut := clamped (f.count pos - 1) (byteLen (f.text str1))
    ∃ a m b,
      SectionAt (f.text str1) cut (stopAt cut (f.count len) (byteLen (f.text str1))) a m b ∧
      v = strValue (a ++ f.text str2 ++ b)
  | find _ hay needle =>
    (v = .int 0 ∧ (f.text needle = [] ∨ ∀ a, ¬ OccursBehind (f.text needle) (f.text hay) a)) ∨
    (f.text needle ≠ [] ∧ ∃ a, OccursBehind (f.text needle) (f.text hay) a ∧
      (∀ a', OccursBehind (f.text needle) (f.text hay) a' → byteLen a ≤ byteLen a') ∧
      v = .int (Int64.ofNat (byteLen a + 1)))

/-- The positions at which it cuts its text. -/
def cuts (f : CallFrame) : StringOp → List Nat
  | left _ str size => [clamped (f.count size) (byteLen (f.text str))]
  | right _ str size =>
    [byteLen (f.text str) - clamped (f.count size) (byteLen (f.text str))]
  | mid _ str len pos | delete _ str len pos =>
    sectionCuts (f.text str) (f.count len) (f.count pos)
  | insert _ str1 _ pos => [clamped (f.count pos) (byteLen (f.text str1))]
  | replace _ str1 _ len pos =>
    let cut := clamped (f.count pos - 1) (byteLen (f.text str1))
    [cut, stopAt cut (f.count len) (byteLen (f.text str1))]
  | find _ _ _ => []

/-- It cuts between characters only. -/
def OnBoundaries (op : StringOp) (f : CallFrame) : Prop :=
  ∀ n ∈ op.cuts f, IsBoundary (f.text op.subject) n

end StringOp

/-! ## The slices of the machine -/

omit [F64Ops] in
/-- An index sum of two words fits. -/
theorem checkedUsizeAdd_ok {a b : Nat} (h : a + b < 18446744073709551616) :
    checkedUsizeAdd a b = .ok (a + b) := if_pos h

/-- A result that is as documented on boundaries, and a panic of the slice
elsewhere. -/
def Sliced (x : Except Panic Value) (D : Value → Prop) (B : Prop) : Prop :=
  (B ∧ ∃ v, D v ∧ x = .ok v) ∨ (¬ B ∧ x = .error .strSlice)

omit [F64Ops] in
theorem sliced_once (cs : List Char) (n : Nat) (out : List Char → List Char → Value) :
    Sliced ((splitAtByte cs n).map fun p => out p.1 p.2)
      (fun v => ∃ a b, SplitsAt cs n a b ∧ v = out a b) (IsBoundary cs n) := by
  rcases splitAtByte_cases cs n with ⟨a, b, hs, he⟩ | ⟨hno, he⟩
  · exact .inl ⟨⟨a, b, hs⟩, _, ⟨a, b, hs, rfl⟩, by rw [he]; rfl⟩
  · exact .inr ⟨hno, by rw [he]; rfl⟩

omit [F64Ops] in
/-- Two slices of one text keep what is around a section. -/
theorem sliced_around {cs : List Char} {i j : Nat} (hle : i ≤ j)
    (out : List Char → List Char → Value) :
    Sliced (do
        let (a, _) ← splitAtByte cs i
        let (_, b) ← splitAtByte cs j
        return out a b)
      (fun v => ∃ a m b, SectionAt cs i j a m b ∧ v = out a b)
      (IsBoundary cs i ∧ IsBoundary cs j) := by
  by_cases hi : IsBoundary cs i
  · by_cases hj : IsBoundary cs j
    · obtain ⟨a, m, b, h⟩ := hi.between hj hle
      refine .inl ⟨⟨hi, hj⟩, _, ⟨a, m, b, h, rfl⟩, ?_⟩
      rw [splitAtByte_iff.mpr h.splits.1, splitAtByte_iff.mpr h.splits.2]
      rfl
    · obtain ⟨a, r, h⟩ := hi
      have hno : splitAtByte cs j = .error .strSlice :=
        (splitAtByte_cases cs j).elim (fun ⟨a, b, hs, _⟩ => absurd ⟨a, b, hs⟩ hj) (·.2)
      refine .inr ⟨fun hb => hj hb.2, ?_⟩
      rw [splitAtByte_iff.mpr h, hno]
      rfl
  · have hno : splitAtByte cs i = .error .strSlice :=
      (splitAtByte_cases cs i).elim (fun ⟨a, b, hs, _⟩ => absurd ⟨a, b, hs⟩ hi) (·.2)
    refine .inr ⟨fun hb => hi hb.1, ?_⟩
    rw [hno]
    rfl

omit [F64Ops] in
/-- A slice of a slice is a section of the text. -/
theorem sliced_inside {cs : List Char} {i j : Nat} (hle : i ≤ j)
    (out : List Char → Value) :
    Sliced (do
        let (_, rest) ← splitAtByte cs i
        let (m, _) ← splitAtByte rest (j - i)
        return out m)
      (fun v => ∃ a m b, SectionAt cs i j a m b ∧ v = out m)
      (IsBoundary cs i ∧ IsBoundary cs j) := by
  rcases splitAtByte_cases cs i with ⟨a, r, hs, he⟩ | ⟨hno, he⟩
  · rcases splitAtByte_cases r (j - i) with ⟨m, b, hr, her⟩ | ⟨hno, her⟩
    · have h := SectionAt.of_rest hs hr hle
      refine .inl ⟨⟨⟨a, r, hs⟩, _, _, h.splits.2⟩, _, ⟨a, m, b, h, rfl⟩, ?_⟩
      rw [he]
      show (do let (m, _) ← splitAtByte r (j - i); return out m) = _
      rw [her]
      rfl
    · refine .inr ⟨fun hb => hno ?_, ?_⟩
      · -- the section between the two cuts begins where the text was cut
        obtain ⟨a', m, b, h⟩ := hb.1.between hb.2 hle
        have hsame := splitAtByte_iff.mpr h.splits.1
        rw [he, Except.ok.injEq, Prod.mk.injEq] at hsame
        obtain ⟨rfl, rfl⟩ := hsame
        exact ⟨m, b, h.rest⟩
      · rw [he]
        show (do let (m, _) ← splitAtByte r (j - i); return out m) = _
        rw [her]
        rfl
  · refine .inr ⟨fun hb => hno hb.1, ?_⟩
    rw [he]
    rfl

/-! ## Every operation -/

variable {f : CallFrame}

omit [F64Ops] in
theorem Sliced.congr {x y : Except Panic Value} {D : Value → Prop} {B C : Prop}
    (h : Sliced x D B) (hxy : y = x) (hbc : B ↔ C) : Sliced y D C := by
  rw [hxy, ← hbc]
  exact h

omit [F64Ops] in
theorem sliced_section {cs : List Char} {len pos : Int} {none : Value}
    {out : List Char → List Char → List Char → Value} {x : Except Panic Value}
    (hnone : NothingAt len pos (byteLen cs) → x = .ok none)
    (hsome : ¬ NothingAt len pos (byteLen cs) →
      Sliced x
        (fun v => ∃ a m b,
          SectionAt cs (pos - 1).toNat (stopAt (pos - 1).toNat len (byteLen cs)) a m b ∧
          v = out a m b)
        (IsBoundary cs (pos - 1).toNat ∧
          IsBoundary cs (stopAt (pos - 1).toNat len (byteLen cs)))) :
    Sliced x (SectionValue cs len pos none out)
      (∀ n ∈ sectionCuts cs len pos, IsBoundary cs n) := by
  unfold SectionValue sectionCuts
  by_cases h : NothingAt len pos (byteLen cs)
  · exact .inl ⟨by simp [h], none, by simp [h], hnone h⟩
  · simp only [h, if_false]
    exact (hsome h).congr rfl (by simp)

omit [F64Ops] in
/-- A section of a text begins no later than it stops. -/
theorem le_stopAt {len pos : Int} {size : Nat} (h : ¬ NothingAt len pos size) :
    (pos - 1).toNat ≤ stopAt (pos - 1).toNat len size := by
  unfold NothingAt at h
  unfold stopAt
  omega

/-- The guard of `StringMid` and `StringDelete`. -/
theorem nothingAt_iff (s len pos : Value) :
    NothingAt len.asInt.toInt pos.asInt.toInt (byteLen (regStr s)) ↔
      pos.asInt.toInt < 1 ∨ len.asInt.toInt ≤ 0 ∨
        byteLen (regStr s) < pos.asInt.toInt.toNat := by
  unfold NothingAt
  omega

theorem mid_sliced (s len pos : Value) :
    Sliced (stringMidOf s len pos)
      (SectionValue (regStr s) len.asInt.toInt pos.asInt.toInt (strValue [])
        (fun _ m _ => strValue m))
      (∀ n ∈ sectionCuts (regStr s) len.asInt.toInt pos.asInt.toInt,
        IsBoundary (regStr s) n) := by
  have hl := toInt_word len.asInt
  have hp := toInt_word pos.asInt
  unfold stringMidOf
  apply sliced_section
  · intro h
    exact if_pos ((nothingAt_iff s len pos).mp h)
  · intro h
    apply (sliced_inside (le_stopAt h) strValue).congr _ Iff.rfl
    have hadd : checkedUsizeAdd (pos.asInt.toInt - 1).toNat len.asInt.toInt.toNat =
        .ok ((pos.asInt.toInt - 1).toNat + len.asInt.toInt.toNat) :=
      checkedUsizeAdd_ok (by omega)
    rw [if_neg (mt (nothingAt_iff s len pos).mpr h)]
    simp only [hadd]
    rfl

theorem delete_sliced (s len pos : Value) :
    Sliced (stringDeleteOf s len pos)
      (SectionValue (regStr s) len.asInt.toInt pos.asInt.toInt (strValue (regStr s))
        (fun a _ b => strValue (a ++ b)))
      (∀ n ∈ sectionCuts (regStr s) len.asInt.toInt pos.asInt.toInt,
        IsBoundary (regStr s) n) := by
  have hl := toInt_word len.asInt
  have hp := toInt_word pos.asInt
  unfold stringDeleteOf
  apply sliced_section
  · intro h
    exact if_pos ((nothingAt_iff s len pos).mp h)
  · intro h
    apply (sliced_around (le_stopAt h) fun a b => strValue (a ++ b)).congr _ Iff.rfl
    have hadd : checkedUsizeAdd (pos.asInt.toInt - 1).toNat len.asInt.toInt.toNat =
        .ok ((pos.asInt.toInt - 1).toNat + len.asInt.toInt.toNat) :=
      checkedUsizeAdd_ok (by omega)
    rw [if_neg (mt (nothingAt_iff s len pos).mpr h)]
    simp only [hadd]
    rfl

theorem insert_sliced (s1 s2 pos : Value) :
    let cut := clamped pos.asInt.toInt (byteLen (regStr s1))
    Sliced (stringInsertOf s1 s2 pos)
      (fun v => ∃ a b, SplitsAt (regStr s1) cut a b ∧ v = strValue (a ++ regStr s2 ++ b))
      (IsBoundary (regStr s1) cut) := by
  intro cut
  apply (sliced_once (regStr s1) cut fun a b => strValue (a ++ regStr s2 ++ b)).congr _ Iff.rfl
  have hsrc : stringInsertOf s1 s2 pos = splitAtByte (regStr s1) cut >>= fun p =>
      .ok (strValue (p.1 ++ regStr s2 ++ p.2)) := rfl
  rw [hsrc]
  cases splitAtByte (regStr s1) cut <;> rfl

theorem replace_sliced (s1 s2 len pos : Value) :
    let cut := clamped (pos.asInt.toInt - 1) (byteLen (regStr s1))
    let stop := stopAt cut len.asInt.toInt (byteLen (regStr s1))
    Sliced (stringReplaceOf s1 s2 len pos)
      (fun v => ∃ a m b, SectionAt (regStr s1) cut stop a m b ∧
        v = strValue (a ++ regStr s2 ++ b))
      (∀ n ∈ [cut, stop], IsBoundary (regStr s1) n) := by
  intro cut stop
  have hl := toInt_word len.asInt
  have hp := toInt_word pos.asInt
  have hcut : (if pos.asInt.toInt < 1 then 0
      else min (pos.asInt.toInt - 1).toNat (byteLen (regStr s1))) = cut := by
    show _ = min _ _
    split <;> omega
  have hword : cut < 9223372036854775808 := by
    show min _ _ < _
    omega
  have hle : cut ≤ stop := by
    show min _ _ ≤ min (min _ _ + _) _
    omega
  apply (sliced_around hle fun a b => strValue (a ++ regStr s2 ++ b)).congr _ (by simp)
  have hadd : checkedUsizeAdd cut len.asInt.toInt.toNat = .ok (cut + len.asInt.toInt.toNat) :=
    checkedUsizeAdd_ok (by omega)
  unfold stringReplaceOf
  simp only [hcut, hadd]
  rfl

omit [F64Ops] in
theorem find_sliced (hay needle : Value) :
    Sliced (.ok (stringFindOf hay needle))
      (fun v => (v = .int 0 ∧ (regStr needle = [] ∨
          ∀ a, ¬ OccursBehind (regStr needle) (regStr hay) a)) ∨
        (regStr needle ≠ [] ∧ ∃ a, OccursBehind (regStr needle) (regStr hay) a ∧
          (∀ a', OccursBehind (regStr needle) (regStr hay) a' → byteLen a ≤ byteLen a') ∧
          v = .int (Int64.ofNat (byteLen a + 1))))
      (∀ n ∈ ([] : List Nat), IsBoundary (regStr hay) n) := by
  refine .inl ⟨by simp, _, ?_, rfl⟩
  unfold stringFindOf
  by_cases hn : regStr needle = []
  · exact .inl ⟨by simp [hn], .inl hn⟩
  · have hne : (regStr needle).isEmpty = false := by simpa using hn
    rw [hne]
    cases hfind : findSub (regStr needle) (regStr hay) with
    | none => exact .inl ⟨rfl, .inr (findSub_none hfind)⟩
    | some i =>
      obtain ⟨a, ha, rfl, hmin⟩ := findSub_some hfind
      exact .inr ⟨hn, a, ha, hmin, rfl⟩

omit [F64Ops] in
theorem ternary_reg {a b c : Reg} {op : Value → Value → Value → Except Panic Value}
    (ha : a.toNat < f.registers.length) (hb : b.toNat < f.registers.length)
    (hc : c.toNat < f.registers.length) :
    f.ternary a b c op = liftPanic (op (f.reg a) (f.reg b) (f.reg c)) := by
  simp only [CallFrame.ternary, regGet_reg ha, regGet_reg hb, regGet_reg hc]
  rfl

/-- The machine computes a slice. -/
theorem compute_sliced (vm : Vm) (func : Function) {op : StringOp} (h : op.Held f) :
    ∃ x, vm.compute func f op.instruction = some (op.dst, liftPanic x) ∧
      Sliced x (op.Delivers f) (op.OnBoundaries f) := by
  have hput : ∀ {dst : Reg} {x : Except Trap Value} {y : Except Panic Value}, x = liftPanic y →
      some (dst, x) = some (dst, liftPanic y) := fun hx => by rw [hx]
  unfold StringOp.Held at h
  cases op with
  | left dst str size =>
    simp only [StringOp.arguments, List.forall_mem_cons] at h
    obtain ⟨hs, hn, -⟩ := h
    refine ⟨_, hput (binary_reg hs hn), ?_⟩
    exact (sliced_once _ _ fun a _ => strValue a).congr rfl (by
      simp [StringOp.OnBoundaries, StringOp.cuts, StringOp.subject])
  | right dst str size =>
    simp only [StringOp.arguments, List.forall_mem_cons] at h
    obtain ⟨hs, hn, -⟩ := h
    refine ⟨_, hput (binary_reg hs hn), ?_⟩
    exact (sliced_once _ _ fun _ b => strValue b).congr rfl (by
      simp [StringOp.OnBoundaries, StringOp.cuts, StringOp.subject])
  | mid dst str len pos =>
    simp only [StringOp.arguments, List.forall_mem_cons] at h
    obtain ⟨hs, hl, hp, -⟩ := h
    exact ⟨_, hput (ternary_reg hs hl hp), mid_sliced _ _ _⟩
  | insert dst str1 str2 pos =>
    simp only [StringOp.arguments, List.forall_mem_cons] at h
    obtain ⟨hs, ht, hp, -⟩ := h
    refine ⟨_, hput (ternary_reg hs ht hp), ?_⟩
    exact (insert_sliced (f.reg str1) (f.reg str2) (f.reg pos)).congr rfl (by
      simp [StringOp.OnBoundaries, StringOp.cuts, StringOp.subject]; rfl)
  | delete dst str len pos =>
    simp only [StringOp.arguments, List.forall_mem_cons] at h
    obtain ⟨hs, hl, hp, -⟩ := h
    exact ⟨_, hput (ternary_reg hs hl hp), delete_sliced _ _ _⟩
  | replace dst str1 str2 len pos =>
    simp only [StringOp.arguments, List.forall_mem_cons] at h
    obtain ⟨hs, ht, hl, hp, -⟩ := h
    refine ⟨_, hput ?_, replace_sliced (f.reg str1) (f.reg str2) (f.reg len) (f.reg pos)⟩
    rw [regGet_reg hp]
    exact ternary_reg hs ht hl
  | find dst hay needle =>
    simp only [StringOp.arguments, List.forall_mem_cons] at h
    obtain ⟨hh, hn, -⟩ := h
    exact ⟨_, hput (binary_reg hh hn), find_sliced _ _⟩

/-- **Slices are on boundaries or panic.** An operation delivers the
documented value exactly when it cuts between characters; else the slice
panics. No index sum overflows. -/
theorem string_delivers_iff {vm : Vm} {func : Function} {op : StringOp} (h : op.Held f) :
    ((∃ v, op.Delivers f v ∧ vm.compute func f op.instruction = some (op.dst, .ok v)) ↔
      op.OnBoundaries f) ∧
    (¬ op.OnBoundaries f →
      vm.compute func f op.instruction = some (op.dst, .error (.panic .strSlice))) := by
  obtain ⟨x, hx, hsliced⟩ := compute_sliced vm func h
  rw [hx]
  rcases hsliced with ⟨hb, v, hv, rfl⟩ | ⟨hb, rfl⟩
  · exact ⟨iff_of_true ⟨v, hv, rfl⟩ hb, fun hno => absurd hb hno⟩
  · refine ⟨iff_of_false ?_ hb, fun _ => rfl⟩
    rintro ⟨v, -, hv⟩
    cases hv

end

/-- `LEFT('ab', 1)` on the machine. -/
theorem left_of_two_letters :
    ((∃ v, @StringOp.Delivers default (operandFrame (.string "ab") (.int 1)) v (.left 0 1 2) ∧
        @Vm.compute default bareMachine (stub "Main" .program)
          (operandFrame (.string "ab") (.int 1)) (StringOp.left 0 1 2).instruction =
            some (0, .ok v)) ↔
      @StringOp.OnBoundaries default (.left 0 1 2) (operandFrame (.string "ab") (.int 1))) ∧
    (¬ @StringOp.OnBoundaries default (.left 0 1 2) (operandFrame (.string "ab") (.int 1)) →
      @Vm.compute default bareMachine (stub "Main" .program)
        (operandFrame (.string "ab") (.int 1)) (StringOp.left 0 1 2).instruction =
          some (0, .error (.panic .strSlice))) :=
  @string_delivers_iff default _ _ _ (.left 0 1 2) (by
    simp [StringOp.Held, StringOp.arguments, operandFrame])

/-! ## Half a character -/

/-- `s := LEFT(text, n);` -/
def leftSource (text : String) (n : Int64) : SourceFile := ⟨[
  .program ⟨"Main", [.of [.plain "s" (.string false none)]],
    [.assign "s" (.functionCall ["LEFT"]
      [.positional (.literal (.string text) noRange), .positional (.ofInt n)] noRange)]⟩]⟩

/-- The analyzer accepts `LEFT('é', 1)`; its first scan cycle panics. -/
theorem first_byte_panics :
    ¬ ∀ (_ : F64Ops) (text : String) (n : Int64) (m : Module),
      accepts (leftSource text n) = true → compile (leftSource text n) = .ok m →
        ∀ fuel p, mainResult fuel m ≠ some (.error (.panic p)) := by
  intro h
  have hacc : accepts (leftSource "é" 1) = true := by decide +kernel
  have hrun : @yields default (leftSource "é" 1) (fun m =>
      decide (@mainResult default 100 m = some (.error (.panic .strSlice)))) = true := by
    decide +kernel
  obtain ⟨m, hm, hp⟩ := (@yields_iff default _ _).mp hrun
  exact h default _ _ m hacc hm 100 _ (of_decide_eq_true hp)

end RustPlc.Engine
