import RustPlc.L4Agree.Arithmetic

/-!
# Comparisons and the order of what is compared

`CmpEq` to `CmpGe` (crates/st-engine/src/vm.rs:1428-1452) compare what
`as_int` makes of their operands. Here they are compared with the order of
the operands themselves: numbers as integers of any size, strings by their
characters.

`as_int` keeps the order of two numbers on the same side of `2 ^ 63`, turns
an unsigned number from `2 ^ 63` on into a negative one, and makes the number
0 of every string.

Results
* `comparison_right_iff`: a comparison delivers the truth about its operands
  exactly when `Comparison.RightOn` holds of them.
* `equal_iff`, `order_swap`: the specified order tells different strings apart
  and is antisymmetric, so exactly one of less, equal and greater holds.
* `different_strings_equal`: an accepted program finds two different strings
  equal.
-/
namespace RustPlc.Engine

open RustPlc.Ir RustPlc.Core RustPlc.Syntax RustPlc.Compiler RustPlc.Analysis

/-! ## Comparisons -/

inductive Comparison where
  | eq | ne | lt | gt | le | ge

namespace Comparison

/-- The operator of the source. -/
def op : Comparison → BinaryOp
  | eq => .eq
  | ne => .ne
  | lt => .lt
  | gt => .gt
  | le => .le
  | ge => .ge

/-- What it says about two operands in this order. -/
def test : Comparison → Ordering → Bool
  | eq, o => o == .eq
  | ne, o => o != .eq
  | lt, o => o == .lt
  | gt, o => o == .gt
  | le, o => o != .gt
  | ge, o => o != .lt

end Comparison

/-! ## Operands -/

/-- A signed or unsigned integer, a time or a truth value. -/
def IsNumber : Value → Prop
  | .int _ | .uint _ | .time _ | .bool _ => True
  | _ => False

/-- Two numbers, or two strings. -/
inductive Comparable : Value → Value → Prop where
  | numbers {l r : Value} (hl : IsNumber l) (hr : IsNumber r) : Comparable l r
  | strings (a b : String) : Comparable (.string a) (.string b)

/-- The operands for which the comparison of the signed readings is right. On
either side of `2 ^ 63` it always is; across, the larger number reads as a
negative one. -/
def Comparison.RightNumbers (c : Comparison) (a b : Int) : Prop :=
  (a < 9223372036854775808 ↔ b < 9223372036854775808) ∨
  (b < a ∧ match c with
    | eq | ne => b ≠ a - 18446744073709551616
    | lt | ge => b ≤ a - 18446744073709551616
    | gt | le => b < a - 18446744073709551616) ∨
  (a < b ∧ match c with
    | eq | ne => a ≠ b - 18446744073709551616
    | lt | ge => a < b - 18446744073709551616
    | gt | le => a ≤ b - 18446744073709551616)

/-- The lexicographic order by code points, which is that of the UTF-8 bytes. -/
def compareText : List Char → List Char → Ordering
  | [], [] => .eq
  | [], _ :: _ => .lt
  | _ :: _, [] => .gt
  | a :: as, b :: bs => (compare a.toNat b.toNat).then (compareText as bs)

/-- The strings for which the verdict on two equal strings is right. -/
def Comparison.RightStrings (c : Comparison) (a b : String) : Prop :=
  match c with
  | eq | ne => a = b
  | lt | ge => compareText a.toList b.toList ≠ .lt
  | gt | le => compareText a.toList b.toList ≠ .gt

section

variable [F64Ops]

/-- The operands for which the machine's comparison is right. -/
def Comparison.RightOn (c : Comparison) : Value → Value → Prop
  | .string a, .string b => c.RightStrings a b
  | l, r => c.RightNumbers l.number r.number

/-- The order of two operands: strings by their characters, numbers as
integers. -/
def order : Value → Value → Ordering
  | .string a, .string b => compareText a.toList b.toList
  | l, r => compare l.number r.number

/-! ## The specified order -/

omit [F64Ops] in
theorem compareText_eq_iff : ∀ {as bs : List Char}, compareText as bs = .eq ↔ as = bs
  | [], [] => by simp [compareText]
  | [], _ :: _ => by simp [compareText]
  | _ :: _, [] => by simp [compareText]
  | a :: as, b :: bs => by
    have ih := @compareText_eq_iff as bs
    have hchar : a.toNat = b.toNat ↔ a = b := by rw [Char.toNat_inj]
    simp only [compareText, Ordering.then_eq_eq, compare_eq_iff_eq, ih, hchar, List.cons.injEq]

/-- Different strings are not equal. -/
theorem equal_iff (a b : String) :
    Comparison.eq.test (order (.string a) (.string b)) = true ↔ a = b := by
  show ((compareText a.toList b.toList == Ordering.eq) = true) ↔ a = b
  rw [beq_iff_eq, compareText_eq_iff, String.toList_inj]

/-! ## The machine's comparison -/

/-- The comparison of two integers. -/
def Comparison.Holds (c : Comparison) (a b : Int) : Prop :=
  match c with
  | eq => a = b
  | ne => a ≠ b
  | lt => a < b
  | gt => b < a
  | le => a ≤ b
  | ge => b ≤ a

omit [F64Ops] in
theorem test_compare (c : Comparison) (a b : Int) :
    c.test (compare a b) = true ↔ c.Holds a b := by
  unfold Comparison.Holds
  rcases Int.lt_trichotomy a b with h | h | h
  · rw [compare_lt_iff_lt.mpr h]
    cases c <;> simp [Comparison.test] <;> omega
  · rw [compare_eq_iff_eq.mpr h]
    cases c <;> simp [Comparison.test] <;> omega
  · rw [compare_gt_iff_gt.mpr h]
    cases c <;> simp [Comparison.test] <;> omega

omit [F64Ops] in
/-- The verdict is right when one side of `2 ^ 63` holds both numbers, else
when the signed readings happen to be in the order of the numbers. -/
theorem numbers_iff (c : Comparison) {a b : Int} (ha : IsWord a) (hb : IsWord b) :
    c.test (compare (signed a) (signed b)) = c.test (compare a b) ↔ c.RightNumbers a b := by
  rw [Bool.eq_iff_iff, test_compare, test_compare]
  obtain ⟨ha1, ha2⟩ := ha
  obtain ⟨hb1, hb2⟩ := hb
  by_cases hla : a < 9223372036854775808
  · by_cases hlb : b < 9223372036854775808
    · rw [signed_small hla, signed_small hlb]
      exact iff_of_true Iff.rfl (.inl (iff_of_true hla hlb))
    · rw [signed_small hla, signed_large hlb]
      have hlt : a < b := by omega
      unfold Comparison.RightNumbers Comparison.Holds
      cases c <;> simp [hla, hlb, hlt, hlt.le, hlt.ne, hlt.not_gt, hlt.not_ge]
      omega
  · by_cases hlb : b < 9223372036854775808
    · rw [signed_large hla, signed_small hlb]
      have hlt : b < a := by omega
      unfold Comparison.RightNumbers Comparison.Holds
      cases c <;> simp [hla, hlb, hlt, hlt.le, hlt.ne', hlt.not_gt, hlt.not_ge, eq_comm]
      omega
    · rw [signed_large hla, signed_large hlb]
      refine iff_of_true ?_ (.inl (iff_of_false hla hlb))
      unfold Comparison.Holds
      cases c <;> simp only [] <;> omega

omit [F64Ops] in
theorem strings_iff (c : Comparison) (a b : String) :
    c.test .eq = c.test (compareText a.toList b.toList) ↔ c.RightStrings a b := by
  have heq : compareText a.toList b.toList = .eq ↔ a = b := by
    rw [compareText_eq_iff, String.toList_inj]
  unfold Comparison.RightStrings
  cases ho : compareText a.toList b.toList with
  | lt =>
    rw [ho] at heq
    cases c <;> (simp_all [Comparison.test]; try rfl)
  | eq =>
    rw [ho] at heq
    cases c <;> simp_all [Comparison.test]
  | gt =>
    rw [ho] at heq
    cases c <;> (simp_all [Comparison.test]; try rfl)

theorem cmpOp_comparable {a b : Value} (h : Comparable a b) (intCmp : Int64 → Int64 → Bool)
    (realCmp : F64 → F64 → Bool) : cmpOp a b intCmp realCmp = intCmp a.asInt b.asInt := by
  cases h with
  | numbers hl hr => cases a <;> cases b <;> first | rfl | exact hl.elim | exact hr.elim
  | strings x y => rfl

omit [F64Ops] in
theorem test_int64 (x y : Int64) :
    (x == y) = Comparison.eq.test (compare x.toInt y.toInt) ∧
    (x != y) = Comparison.ne.test (compare x.toInt y.toInt) ∧
    decide (x < y) = Comparison.lt.test (compare x.toInt y.toInt) ∧
    decide (y < x) = Comparison.gt.test (compare x.toInt y.toInt) ∧
    decide (x ≤ y) = Comparison.le.test (compare x.toInt y.toInt) ∧
    decide (y ≤ x) = Comparison.ge.test (compare x.toInt y.toInt) := by
  refine ⟨?_, ?_, ?_, ?_, ?_, ?_⟩ <;> rw [Bool.eq_iff_iff, test_compare]
  · exact beq_iff_eq.trans Int64.toInt_inj.symm
  · exact bne_iff_ne.trans (not_congr Int64.toInt_inj.symm)
  · exact decide_eq_true_iff.trans Int64.lt_iff_toInt_lt
  · exact decide_eq_true_iff.trans Int64.lt_iff_toInt_lt
  · exact decide_eq_true_iff.trans Int64.le_iff_toInt_le
  · exact decide_eq_true_iff.trans Int64.le_iff_toInt_le

/-- On operands that are compared at all the machine compares what `as_int`
makes of them. -/
theorem compute_comparison {vm : Vm} {func : Function} {f : CallFrame} {dst l r : Reg}
    {a b : Value} (c : Comparison) (hl : f.regGet l = .ok a) (hr : f.regGet r = .ok b)
    (h : Comparable a b) :
    vm.compute func f (binaryInstruction c.op dst l r) =
      some (dst, .ok (.bool (c.test (compare a.asInt.toInt b.asInt.toInt)))) := by
  have hbin : ∀ op : Value → Value → Value,
      f.binary l r (fun a b => .ok (op a b)) = .ok (op a b) := fun op => by
    simp only [CallFrame.binary, hl, hr]
    rfl
  obtain ⟨heq, hne, hlt, hgt, hle, hge⟩ := test_int64 a.asInt b.asInt
  cases c with
  | eq => exact congrArg (fun x => some (dst, x)) ((hbin eqValues).trans (by
      rw [eqValues, cmpOp_comparable h, heq]))
  | ne => exact congrArg (fun x => some (dst, x)) ((hbin neValues).trans (by
      rw [neValues, cmpOp_comparable h, hne]))
  | lt => exact congrArg (fun x => some (dst, x)) ((hbin ltValues).trans (by
      rw [ltValues, cmpOp_comparable h, hlt]))
  | gt => exact congrArg (fun x => some (dst, x)) ((hbin gtValues).trans (by
      rw [gtValues, cmpOp_comparable h, hgt]))
  | le => exact congrArg (fun x => some (dst, x)) ((hbin leValues).trans (by
      rw [leValues, cmpOp_comparable h, hle]))
  | ge => exact congrArg (fun x => some (dst, x)) ((hbin geValues).trans (by
      rw [geValues, cmpOp_comparable h, hge]))

/-- **Comparisons follow the order.** The compiled comparison of two numbers
or of two strings delivers the truth about them exactly when `RightOn` holds. -/
theorem comparison_right_iff {vm : Vm} {func : Function} {f : CallFrame} {dst l r : Reg}
    {a b : Value} (c : Comparison) (hl : f.regGet l = .ok a) (hr : f.regGet r = .ok b)
    (h : Comparable a b) :
    vm.compute func f (binaryInstruction c.op dst l r) =
        some (dst, .ok (.bool (c.test (order a b)))) ↔ c.RightOn a b := by
  rw [compute_comparison c hl hr h]
  simp only [Option.some.injEq, Prod.mk.injEq, true_and, Except.ok.injEq, Value.bool.injEq]
  cases h with
  | numbers hla hrb =>
    have horder : order a b = compare a.number b.number := by
      cases a <;> first | rfl | exact hla.elim
    have hright : c.RightOn a b = c.RightNumbers a.number b.number := by
      cases a <;> first | rfl | exact hla.elim
    rw [horder, hright, ← a.signed_number, ← b.signed_number]
    exact numbers_iff c a.number_word b.number_word
  | strings x y => exact strings_iff c x y

end

/-- One and two, compared on the machine. -/
theorem one_less_two : @Vm.compute default bareMachine (stub "Main" .program)
    (operandFrame (.int 1) (.uint 2)) (binaryInstruction Comparison.lt.op 0 1 2) =
      some (0, .ok (.bool (Comparison.lt.test (@order default (.int 1) (.uint 2))))) := by
  have h : Comparable (.int 1) (.uint 2) := .numbers trivial trivial
  refine (@comparison_right_iff default _ _ _ 0 1 2 _ _ .lt rfl rfl h).mpr ?_
  show Comparison.RightNumbers .lt 1 2
  exact .inl (by decide)

/-! ## Two strings -/

/-- `same := a = b;` -/
def comparingSource (a b : String) : SourceFile := ⟨[
  .program ⟨"Main", [.of [.plain "same" (.elementary .bool)]],
    [.assign "same" (.binary .eq (.literal (.string a) noRange) (.literal (.string b) noRange)
      noRange)]⟩]⟩

/-- What the first scan cycle leaves in the first variable of `Main`. -/
def firstLocal [F64Ops] (fuel : Nat) (m : Module) : Option Value :=
  (Vm.run fuel (Vm.new m .default) "Main").bind fun s =>
    (Finmap.lookup 0 s.1.retainedLocals).bind (·[0]?)

/-- The analyzer accepts the comparison of `'a'` and `'b'`; it comes out true. -/
theorem different_strings_equal :
    ¬ ∀ (_ : F64Ops) (a b : String) (m : Module), accepts (comparingSource a b) = true →
      compile (comparingSource a b) = .ok m → ∀ fuel v, firstLocal fuel m = some v →
        v = .bool (Comparison.eq.test (order (.string a) (.string b))) := by
  intro h
  have hacc : accepts (comparingSource "a" "b") = true := by decide +kernel
  have hrun : @yields default (comparingSource "a" "b") (fun m =>
      decide (@firstLocal default 100 m = some (.bool true))) = true := by
    decide +kernel
  obtain ⟨m, hm, hp⟩ := (@yields_iff default _ _).mp hrun
  have := h default "a" "b" m hacc hm 100 _ (of_decide_eq_true hp)
  have heq := (@equal_iff default "a" "b").mp (Value.bool.inj this).symm
  simp at heq

end RustPlc.Engine
