import Mathlib
import RustPlc.L2Semantics.CallSites
import RustPlc.L2Syntax.Lower
import RustPlc.L4Agree.Durations

/-!
# Literals and their values

A literal is turned into a constant in two places: the lowering reads integers,
reals, strings and words (crates/st-syntax/src/lower.rs:1291-1352), and
`literal_to_value` reads the texts of durations, dates and typed literals
(crates/st-compiler/src/compile.rs:1632-1653). A text that cannot be read gives
0, and the analyzer does not look at the value.

Results:
* `integerValue_eq`, `literalToValue_typed`: what integers and typed literals
  are compiled to;
* `unescape_eq_iff`: a string is its text just when it has no `$`;
* `literal_exact_iff`: for which literals the constant is what they denote;
* `hexadecimal_byte_zero`: `BYTE#16#FF` is 0.
-/
namespace RustPlc.Compiler

open RustPlc.Ir RustPlc.Syntax RustPlc.Core

/-! ## Integers -/

/-- The radix of an integer literal. -/
inductive Radix where
  | decimal | hexadecimal | octal | binary
  deriving DecidableEq, Repr

namespace Radix

def base : Radix → Nat
  | decimal => 10
  | hexadecimal => 16
  | octal => 8
  | binary => 2

/-- What stands in front of the digits. -/
def tag : Radix → List Char
  | decimal => []
  | hexadecimal => ['1', '6', '#']
  | octal => ['8', '#']
  | binary => ['2', '#']

def isDigit (r : Radix) (c : Char) : Bool := (digitValue c).any (· < r.base)

end Radix

/-- The number that digits of a radix stand for. -/
def radixNumber (base : Nat) (cs : List Char) : Nat :=
  cs.foldl (fun n c => n * base + (digitValue c).getD 0) 0

/-- mirrors crates/st-grammar/grammar.js:692-704 -/
structure IntText where
  radix : Radix
  numeral : Numeral radix.isDigit

namespace IntText

def chars (t : IntText) : List Char := t.radix.tag ++ t.numeral.chars

def value (t : IntText) : Nat := radixNumber t.radix.base t.numeral.digits

/-- A decimal number without underscores. -/
def Plain (t : IntText) : Prop := t.radix = .decimal ∧ '_' ∉ t.numeral.chars

end IntText

theorem isDigit_underscore (r : Radix) : r.isDigit '_' = false := by cases r <;> decide

theorem foldl_digits {base : Nat} : ∀ {cs : List Char} {n : Nat},
    (∀ c ∈ cs, (digitValue c).any (· < base) = true) →
      cs.foldl (fun acc c => acc.bind fun n =>
        (digitValue c).bind fun d => if d < base then some (n * base + d) else none) (some n) =
        some (cs.foldl (fun n c => n * base + (digitValue c).getD 0) n)
  | [], n, _ => rfl
  | c :: cs, n, h => by
    obtain ⟨d, hd, hlt⟩ := (Option.any_eq_true ..).mp (h c List.mem_cons_self)
    rw [List.foldl_cons, Option.bind_some, hd, Option.bind_some, if_pos (of_decide_eq_true hlt),
      foldl_digits fun c hc => h c (List.mem_cons_of_mem _ hc), List.foldl_cons, hd]
    rfl

/-- Digits of a radix are read as their number, when that fits. -/
theorem parseRadix_digits {base : Nat} {cs : List Char} (hne : cs ≠ [])
    (h : ∀ c ∈ cs, (digitValue c).any (· < base) = true) :
    parseRadix base cs = if radixNumber base cs < 2 ^ 63 then
      some (Int64.ofNat (radixNumber base cs)) else none := by
  have hfold := foldl_digits (n := 0) h
  obtain ⟨c, cs, rfl⟩ := List.exists_cons_of_ne_nil hne
  have hc := h c List.mem_cons_self
  have hsign : c ≠ '-' ∧ c ≠ '+' := by
    constructor
    · rintro rfl
      exact absurd (show false = true from hc) (by decide)
    · rintro rfl
      exact absurd (show false = true from hc) (by decide)
  unfold parseRadix
  dsimp only
  split
  · next heq => exact absurd (List.cons.inj heq).1 hsign.1
  · next heq => exact absurd (List.cons.inj heq).1 hsign.2
  · rw [hfold]
    show (if -9223372036854775808 ≤ ((radixNumber base (c :: cs) : Nat) : Int) ∧
      ((radixNumber base (c :: cs) : Nat) : Int) ≤ 9223372036854775807 then
        some (Int64.ofInt (radixNumber base (c :: cs) : Nat)) else none) = _
    generalize radixNumber base (c :: cs) = n
    by_cases hn : n < 2 ^ 63
    · rw [if_pos (by omega), if_pos hn, Int64.ofInt_eq_ofNat]
    · rw [if_neg (by omega), if_neg hn]

theorem digitValue_digit {c : Char} (h : c.isDigit = true) : digitValue c = some (c.toNat - 48) :=
  if_pos h

theorem isDigit_decimal {c : Char} (h : Radix.decimal.isDigit c = true) : c.isDigit = true := by
  by_contra hd
  obtain ⟨d, hd', hlt⟩ := (Option.any_eq_true ..).mp h
  have hlt : d < 10 := of_decide_eq_true hlt
  unfold digitValue at hd'
  rw [if_neg hd] at hd'
  split at hd'
  · next hl =>
    have : 97 ≤ c.toNat := by
      simp only [Char.isLower, Bool.and_eq_true, decide_eq_true_eq] at hl
      exact UInt32.le_iff_toNat_le.mp hl.1
    cases hd'
    omega
  · split at hd'
    · next hu =>
      have : 65 ≤ c.toNat := by
        simp only [Char.isUpper, decide_eq_true_eq] at hu
        exact UInt32.le_iff_toNat_le.mp hu.1
      cases hd'
      omega
    · cases hd'

theorem radixNumber_decimal {cs : List Char} (h : ∀ c ∈ cs, c.isDigit = true) :
    radixNumber 10 cs = Nat.ofDigitChars 10 cs 0 := by
  have hfold : ∀ (cs : List Char) (n : Nat), (∀ c ∈ cs, c.isDigit = true) →
      cs.foldl (fun n c => n * 10 + (digitValue c).getD 0) n = Nat.ofDigitChars 10 cs n := by
    intro cs
    induction cs with
    | nil => exact fun _ _ => rfl
    | cons c cs ih =>
      intro n h
      rw [List.foldl_cons, digitValue_digit (h c List.mem_cons_self), Option.getD_some,
        ih _ fun d hd => h d (List.mem_cons_of_mem c hd), Nat.ofDigitChars_cons, Nat.mul_comm]
      rfl
  exact hfold cs 0 h

theorem IntText.digits_ne (t : IntText) : t.numeral.digits ≠ [] :=
  t.numeral.digits_ne (isDigit_underscore t.radix)

/-- **An integer is read as its number below 2^63, and as 0 from there on.** -/
theorem integerValue_eq (t : IntText) :
    integerValue t.chars = if t.value < 2 ^ 63 then Int64.ofNat t.value else 0 := by
  have hfilter : t.chars.filter (· ≠ '_') = t.radix.tag ++ t.numeral.digits := by
    rw [IntText.chars, List.filter_append, Numeral.digits]
    congr 1
    cases t.radix <;> rfl
  have hparse := parseRadix_digits t.digits_ne t.numeral.digit
  have hne := t.digits_ne
  obtain ⟨r, num⟩ := t
  unfold integerValue IntText.value
  rw [hfilter]
  cases r with
  | hexadecimal | octal | binary =>
    refine (congrArg (Option.getD · 0) hparse).trans ?_
    dsimp only
    split <;> rfl
  | decimal =>
    have hdigit : ∀ c ∈ num.digits, c.isDigit = true := fun c hc => isDigit_decimal (num.digit c hc)
    -- a decimal number has no `#`
    have hno : '#' ∉ num.digits := fun hc => isDigit_ne (hdigit _ hc) (by decide) rfl
    simp only [Radix.tag, List.nil_append]
    split
    · next heq => exact absurd (by simp [heq]) hno
    · next heq => exact absurd (by simp [heq]) hno
    · next heq => exact absurd (by simp [heq]) hno
    · rw [parseI64_ofDigits hne hdigit, ← radixNumber_decimal hdigit]
      show Option.getD (if radixNumber 10 _ < _ then _ else _) 0 = if radixNumber 10 _ < _ then _ else _
      split <;> rfl

/-- A text that is no plain number has an underscore or a `#`. -/
theorem IntText.marked {t : IntText} (h : ¬ t.Plain) : '_' ∈ t.chars ∨ '#' ∈ t.chars := by
  by_cases hu : '_' ∈ t.numeral.chars
  · exact .inl (List.mem_append_right _ hu)
  · right
    refine List.mem_append_left _ ?_
    cases hr : t.radix with
    | decimal => exact absurd ⟨hr, hu⟩ h
    | hexadecimal | octal | binary => simp [Radix.tag]

/-- An integer literal starts with a digit. -/
theorem IntText.starts (t : IntText) : ∃ c cs, t.chars = c :: cs ∧ c ≠ '-' ∧ c ≠ '+' := by
  obtain ⟨r, num⟩ := t
  cases r with
  | hexadecimal | octal | binary => exact ⟨_, _, rfl, by decide, by decide⟩
  | decimal =>
    have hd := isDigit_decimal num.first_digit
    exact ⟨_, _, rfl, isDigit_ne hd (by decide), isDigit_ne hd (by decide)⟩

/-- `parse::<i64>` reads digits only. -/
theorem parseI64_none {c : Char} {cs : List Char} (hsign : c ≠ '-' ∧ c ≠ '+') {d : Char}
    (hd : d ∈ c :: cs) (hno : d.isDigit = false) : parseI64 (c :: cs) = none := by
  have hdigits : parseDigits (c :: cs) = none := by
    cases hp : parseDigits (c :: cs) with
    | none => rfl
    | some n =>
      rw [digits_of_parseDigits hp d hd] at hno
      cases hno
  unfold parseI64
  split
  · next heq => exact absurd (List.cons.inj heq).1 hsign.1
  · next heq => exact absurd (List.cons.inj heq).1 hsign.2
  · rw [hdigits]
    rfl

theorem IntText.parse_marked {t : IntText} (h : ¬ t.Plain) : parseI64 t.chars = none := by
  obtain ⟨c, cs, hcs, hm, hp⟩ := t.starts
  have hmark := t.marked h
  rw [hcs] at hmark ⊢
  rcases hmark with hd | hd
  · exact parseI64_none ⟨hm, hp⟩ hd (by decide)
  · exact parseI64_none ⟨hm, hp⟩ hd (by decide)

/-- A plain number is its digits. -/
theorem IntText.Plain.digits {t : IntText} (h : t.Plain) :
    t.numeral.digits = t.chars ∧ ∀ c ∈ t.chars, c.isDigit = true := by
  obtain ⟨r, num⟩ := t
  obtain ⟨hr, hu⟩ := h
  cases hr
  have hfilter : num.digits = num.chars := by
    refine List.filter_eq_self.mpr fun c hc => decide_eq_true ?_
    rintro rfl
    exact hu hc
  refine ⟨hfilter, fun c hc => ?_⟩
  have hc : c ∈ num.digits := by rwa [hfilter]
  exact isDigit_decimal (num.digit c hc)

theorem IntText.Plain.value {t : IntText} (h : t.Plain) :
    t.value = Nat.ofDigitChars 10 t.chars 0 := by
  obtain ⟨hd, hdigit⟩ := h.digits
  rw [IntText.value, hd, h.1]
  exact radixNumber_decimal hdigit

theorem IntText.Plain.parse {t : IntText} (h : t.Plain) :
    parseI64 t.chars = if t.value < 2 ^ 63 then some (Int64.ofNat t.value) else none := by
  obtain ⟨c, cs, hcs, -⟩ := t.starts
  rw [h.value, parseI64_ofDigits (by rw [hcs]; exact List.cons_ne_nil _ _) h.digits.2]

/-! ## Reals -/

/-- mirrors crates/st-grammar/grammar.js:706-714 -/
structure RealNumeral where
  whole : Numeral Char.isDigit
  fraction : Numeral Char.isDigit
  exponent : Option (Bool × List Char × Numeral Char.isDigit)
  sign : ∀ x ∈ exponent, x.2.1 ∈ [[], ['+'], ['-']]

namespace RealNumeral

/-- The flag is set for a capital letter. -/
def chars (t : RealNumeral) : List Char :=
  t.whole.chars ++ '.' :: (t.fraction.chars ++ match t.exponent with
    | none => []
    | some (capital, sign, ds) => (if capital then 'E' else 'e') :: (sign ++ ds.chars))

def digits (t : RealNumeral) : List Char := t.chars.filter (· ≠ '_')

theorem decimal (t : RealNumeral) : Decimal t.digits := by
  unfold digits chars
  rw [List.filter_append, List.filter_cons_of_pos (by decide), List.filter_append]
  refine .point (t.whole.digits_ne (by decide)) t.whole.digit t.fraction.digit ?_
  cases he : t.exponent with
  | none => exact .none
  | some x =>
    obtain ⟨capital, sign, ds⟩ := x
    have hsign := t.sign _ he
    have hkeep : (sign ++ ds.chars).filter (· ≠ '_') = sign ++ ds.digits := by
      rw [List.filter_append, List.filter_eq_self.mpr]
      · rfl
      · intro c hc
        simp only [List.mem_cons, List.not_mem_nil, or_false] at hsign
        rcases hsign with rfl | rfl | rfl
        · cases hc
        · rw [List.mem_singleton.mp hc]
          decide
        · rw [List.mem_singleton.mp hc]
          decide
    cases capital with
    | false =>
      show Exponent ('e' :: (sign ++ ds.chars).filter (· ≠ '_'))
      rw [hkeep]
      exact .some (.inl rfl) hsign (ds.digits_ne (by decide)) ds.digit
    | true =>
      show Exponent ('E' :: (sign ++ ds.chars).filter (· ≠ '_'))
      rw [hkeep]
      exact .some (.inr rfl) hsign (ds.digits_ne (by decide)) ds.digit

/-- A real is no number to `parse::<i64>`. -/
theorem parse_none (t : RealNumeral) : parseI64 t.chars = none := by
  have hd := t.whole.first_digit
  exact parseI64_none ⟨isDigit_ne hd (by decide), isDigit_ne hd (by decide)⟩
    (List.mem_cons_of_mem _ (List.mem_append_right _ List.mem_cons_self)) (by decide : '.'.isDigit = _)

end RealNumeral

/-! ## Strings -/

/-- What a letter behind a `$` stands for. -/
def escaped : Char → Option Char
  | '$' => some '$'
  | '\'' => some '\''
  | '"' => some '"'
  | 'L' | 'l' | 'N' | 'n' => some '\n'
  | 'P' | 'p' => some (Char.ofNat 12)
  | 'R' | 'r' => some '\r'
  | 'T' | 't' => some '\t'
  | _ => none

/-- The characters a text with escapes stands for; behind a `$` there is a
letter, or hexadecimal digits, `width` of them. -/
def unescape (width : Nat) : List Char → Option (List Char)
  | [] => some []
  | c :: cs =>
    if c = '$' then
      match cs with
      | [] => none
      | d :: ds => match escaped d with
        | some e => (unescape width ds).map (e :: ·)
        | none =>
          if ((d :: ds).take width).length = width ∧
              ∀ x ∈ (d :: ds).take width, Radix.hexadecimal.isDigit x = true then
            (unescape width ((d :: ds).drop width)).map
              (Char.ofNat (radixNumber 16 ((d :: ds).take width)) :: ·)
          else none
    else (unescape width cs).map (c :: ·)
termination_by cs => cs.length
decreasing_by all_goals simp_wf; try omega

theorem unescape_plain {width : Nat} : ∀ {cs : List Char}, '$' ∉ cs → unescape width cs = some cs
  | [], _ => by rw [unescape]
  | c :: cs, h => by
    have hc : c ≠ '$' := fun he => h (he ▸ List.mem_cons_self)
    have hcs : '$' ∉ cs := fun hd => h (List.mem_cons_of_mem c hd)
    unfold unescape
    rw [if_neg hc, unescape_plain hcs]
    rfl

/-- An escape is longer than what it stands for. -/
theorem unescape_length {width : Nat} (hw : 0 < width) (cs : List Char) : ∀ {out : List Char},
    unescape width cs = some out →
      out.length ≤ cs.length ∧ ('$' ∈ cs → out.length < cs.length) := by
  fun_induction unescape width cs with
  | case1 =>
    intro out h
    cases h
    exact ⟨Nat.le_refl _, fun hd => absurd hd List.not_mem_nil⟩
  | case2 => exact fun h => nomatch h
  | case3 d ds e he ih =>
    intro out h
    obtain ⟨out, hout, rfl⟩ := Option.map_eq_some_iff.mp h
    have := (ih hout).1
    simp only [List.length_cons]
    omega
  | case4 d ds he hhex ih =>
    intro out h
    obtain ⟨out, hout, rfl⟩ := Option.map_eq_some_iff.mp h
    have hlen := (ih hout).1
    have htake := hhex.1
    rw [List.length_drop] at hlen
    rw [List.length_take] at htake
    simp only [List.length_cons] at hlen htake ⊢
    omega
  | case5 => exact fun h => nomatch h
  | case6 c cs hc ih =>
    intro out h
    obtain ⟨out, hout, rfl⟩ := Option.map_eq_some_iff.mp h
    obtain ⟨hle, hlt⟩ := ih hout
    simp only [List.length_cons]
    refine ⟨by omega, fun hd => ?_⟩
    have := hlt ((List.mem_cons.mp hd).resolve_left (Ne.symm hc))
    omega

/-- **A string is its text just when it has no `$`.** -/
theorem unescape_eq_iff {width : Nat} (hw : 0 < width) (cs : List Char) :
    unescape width cs = some cs ↔ '$' ∉ cs := by
  constructor
  · intro h hd
    exact absurd ((unescape_length hw cs h).2 hd) (Nat.lt_irrefl _)
  · exact unescape_plain

end RustPlc.Compiler

namespace RustPlc.Syntax

/-! ## Where literals stand -/

/-- An expression is part of another one. -/
inductive PartOf (e : Expression) : Expression → Prop
  | here : PartOf e e
  | argument {name : QualifiedName} {args : List Argument} {range : TextRange} {arg : Argument}
    (mem : arg ∈ args) (h : PartOf e arg.value) : PartOf e (.functionCall name args range)
  | operand {op : UnaryOp} {x : Expression} {range : TextRange} (h : PartOf e x) :
    PartOf e (.unary op x range)
  | left {op : BinaryOp} {l r : Expression} {range : TextRange} (h : PartOf e l) :
    PartOf e (.binary op l r range)
  | right {op : BinaryOp} {l r : Expression} {range : TextRange} (h : PartOf e r) :
    PartOf e (.binary op l r range)
  | inner {x : Expression} (h : PartOf e x) : PartOf e (.parenthesized x)
  | index {parts : List AccessPart} {range : TextRange} {es : List Expression} {x : Expression}
    (mem : .index es ∈ parts) (hx : x ∈ es) (h : PartOf e x) : PartOf e (.var parts range)

/-- An expression is part of a statement, at any depth. -/
inductive StandsIn (e : Expression) : Statement → Prop
  | direct {s : Statement} {x : Expression} (hx : x ∈ s.expressions) (h : PartOf e x) :
    StandsIn e s
  | nested {s s' : Statement} {body : List Statement} (hb : body ∈ s.bodies) (hs : s' ∈ body)
    (h : StandsIn e s') : StandsIn e s

def ClassDecl.accessors (c : ClassDecl) : List PropertyAccessor :=
  c.properties.flatMap fun p => p.getBody.toList ++ p.setBody.toList

/-- The statement lists of an item. -/
def TopLevelItem.bodies : TopLevelItem → List (List Statement)
  | .program p => [p.body]
  | .function f => [f.body]
  | .functionBlock fb => [fb.body]
  | .classDecl c => c.methods.map (·.body) ++ c.accessors.map (·.body)
  | .interface _ | .typeDeclaration _ | .globalVarDeclaration _ => []

/-- The variable blocks of an item. -/
def TopLevelItem.blocks : TopLevelItem → List VarBlock
  | .program p => p.varBlocks
  | .function f => f.varBlocks
  | .functionBlock fb => fb.varBlocks
  | .classDecl c =>
    c.varBlocks ++ c.methods.flatMap (·.varBlocks) ++ c.accessors.flatMap (·.varBlocks)
  | .globalVarDeclaration vb => [vb]
  | .interface _ | .typeDeclaration _ => []

/-- A literal of the source: in a statement, or in an initial value. -/
def Occurs (kind : LiteralKind) (source : SourceFile) : Prop :=
  ∃ item ∈ source.items, ∃ range,
    (∃ body ∈ item.bodies, ∃ s ∈ body, StandsIn (.literal kind range) s) ∨
      ∃ vb ∈ item.blocks, ∃ decl ∈ vb.declarations, ∃ e ∈ decl.initialValue,
        PartOf (.literal kind range) e

end RustPlc.Syntax

namespace RustPlc.Analysis

open RustPlc.Ir RustPlc.Syntax

/-! ## No literal is rejected -/

/-- Every source with this literal is rejected. -/
def Rejected (kind : LiteralKind) : Prop := ∀ source, Occurs kind source → accepts source = false

/-- `TO_INT(kind);` -/
def conversion (kind : LiteralKind) : Statement :=
  .functionCall ["TO_INT"] [.positional (.literal kind noRange)] noRange

/-- `PROGRAM P TO_INT(kind); END_PROGRAM` -/
def converting (kind : LiteralKind) : SourceFile := ⟨[.program ⟨"P", [], [conversion kind]⟩]⟩

/-- A function of one parameter of any type. -/
def takesAny (sym : Symbol) : Bool :=
  match sym.kind with
  | .function _ [p] => p.ty.isUnknown
  | _ => false

theorem checkArgs_unknown {p : ParamDef} (hp : p.ty.isUnknown = true) (callee : String)
    (kind : LiteralKind) :
    checkArgs [p] callee [] 0 [.positional (.literal kind noRange)] = pure ([], 1) := by
  have hty (label : String) (ty : Ty) : checkParamType label ty p.ty noRange = pure () := by
    simp [checkParamType, hp, errorIf]
  simp only [checkArgs, checkExpression, List.getElem?_cons_zero, Expression.range, hty, pure_bind]

/-- A call of a function of one parameter of any type does not look at the
literal that is passed. -/
theorem plainCall_literal {a : Analyzer} {r : Nat × Symbol}
    (hr : a.symbols.resolve a.currentScope "TO_INT" = some r) (ht : takesAny r.2 = true)
    {check check' : ArgChecker}
    (h : ∀ p callee, p.ty.isUnknown = true → check [p] callee = check' [p] callee) :
    checkPlainCall ["TO_INT"] noRange check a = checkPlainCall ["TO_INT"] noRange check' a := by
  obtain ⟨id, name, ty, k, range, used, assigned⟩ := r
  have hsym : resolveHere (QualifiedName.asStr ["TO_INT"]) a =
      (some ⟨name, ty, k, range, used, assigned⟩, a) := by
    show resolveHere (QualifiedName.asStr ⟨["TO_INT"], noRange⟩) a = _
    rw [asStr_single]
    show ((a.symbols.resolve a.currentScope "TO_INT").map (·.2), a) = _
    rw [hr]
    rfl
  unfold takesAny at ht
  split at ht
  · next returnType p hk =>
    cases hk
    simp only [checkPlainCall, bind, StateT.bind, hsym, h p _ ht]
  · cases ht

/-- What is passed is checked. -/
def passing (kind : LiteralKind) : ArgChecker := fun params callee => do
  let (seen, positional) ← checkArgs params callee [] 0 [.positional (.literal kind noRange)]
  checkRequired params callee noRange seen positional params

theorem conversion_checks (kind : LiteralKind) : analyzeStatement (conversion kind) = (do
    let _ ← checkPlainCall ["TO_INT"] noRange (passing kind)) := by
  unfold conversion analyzeStatement checkExpression checkCall
  rfl

/-- What is converted is not looked at. -/
theorem conversion_literal {a : Analyzer} {r : Nat × Symbol}
    (hr : a.symbols.resolve a.currentScope "TO_INT" = some r) (ht : takesAny r.2 = true)
    (kind kind' : LiteralKind) :
    analyzeStatement (conversion kind) a = analyzeStatement (conversion kind') a := by
  have hcall : checkPlainCall ["TO_INT"] noRange (passing kind) a =
      checkPlainCall ["TO_INT"] noRange (passing kind') a := by
    refine plainCall_literal hr ht fun p callee hp => ?_
    rw [passing, passing, checkArgs_unknown hp, checkArgs_unknown hp]
  rw [conversion_checks, conversion_checks]
  simp only [bind, StateT.bind, hcall]

/-- The analyzer in the body of a program without variables. -/
def inProgram (a : Analyzer) : Analyzer :=
  (enterScope (registerTopLevel (.program ⟨"P", [], []⟩) a).2).2

theorem statements_single (s : Statement) (a : Analyzer) :
    analyzeStatements false [s] a = ((), (analyzeStatement s a).2) := by
  unfold analyzeStatements analyzeStatements
  rfl

theorem analyze_converting (kind : LiteralKind) (a : Analyzer) :
    (analyzeSourceFile (converting kind) a).2 =
      { (analyzeStatements false [conversion kind] (inProgram a)).2 with
        currentScope := (registerTopLevel (.program ⟨"P", [], []⟩) a).2.currentScope } := rfl

/-- All literals are analyzed alike when they are converted. -/
theorem accepts_converting (kind kind' : LiteralKind) :
    accepts (converting kind) = accepts (converting kind') := by
  have hsees : ((inProgram initialAnalyzer).symbols.resolve
      (inProgram initialAnalyzer).currentScope "TO_INT").any (takesAny ·.2) = true := by
    decide +kernel
  obtain ⟨r, hr, ht⟩ := (Option.any_eq_true ..).mp hsees
  have hbody : analyzeStatements false [conversion kind] (inProgram initialAnalyzer) =
      analyzeStatements false [conversion kind'] (inProgram initialAnalyzer) := by
    rw [statements_single, statements_single, conversion_literal hr ht kind kind']
  have hanalyze : analyze (converting kind) = analyze (converting kind') := by
    rw [analyze, analyze, analyze_converting, analyze_converting, hbody]
  rw [accepts, accepts, hanalyze]

/-- **No literal is rejected.** -/
theorem not_rejected (kind : LiteralKind) : ¬ Rejected kind := by
  intro h
  have hocc : Occurs kind (converting kind) := ⟨_, .head _, noRange, .inl ⟨_, .head _, _, .head _,
    .direct (.head _) (.argument (.head _) .here)⟩⟩
  have hacc : accepts (converting (.integer 0)) = true := by decide +kernel
  rw [← accepts_converting kind, h _ hocc] at hacc
  cases hacc

end RustPlc.Analysis

namespace RustPlc.Compiler

open RustPlc.Ir RustPlc.Syntax RustPlc.Core RustPlc.Analysis RustPlc.Engine

/-! ## Literals -/

/-- The texts of the literals of the grammar.
mirrors crates/st-grammar/grammar.js:668-786 -/
inductive LiteralText where
  | integer (t : IntText)
  | real (t : RealNumeral)
  | string (wide : Bool) (body : List Char)
  | bool (b : Bool)
  | null
  | time (t : DurationText)
  | date (k : Keyword) (d : DateText)
  | tod (k : Keyword) (t : TimeText)
  | dt (k : Keyword) (d : DateText) (t : TimeText)
  | typedInteger (ty : ElementaryType) (t : IntText)
  | typedReal (ty : ElementaryType) (t : RealNumeral)

/-- A TOD literal. -/
def todLiteral (k : Keyword) (t : TimeText) : String := String.ofList (k.letters ++ '#' :: t.chars)

/-- The quotation mark of a string. -/
def quote (wide : Bool) : Char := if wide then '"' else '\''

/-- A typed literal: the word of its type, and its value. -/
structure TypedAs (n : Node) (ty : ElementaryType) (value : List Char) : Prop where
  type : ∃ c, n.childByFieldName .type = some c ∧ tryParseElementaryType c.text = some ty
  value : ∃ c, n.childByFieldName .value = some c ∧ c.chars = value

/-- The node is that of the literal. -/
def LiteralText.Spelled (n : Node) : LiteralText → Prop
  | integer t => n.kind = .integerLiteral ∧ n.chars = t.chars
  | real t => n.kind = .realLiteral ∧ n.chars = t.chars
  | string wide body => n.kind = .stringLiteral ∧ n.chars = quote wide :: (body ++ [quote wide])
  | bool b => n.kind = .booleanLiteral ∧ toUppercase n.text = if b then "TRUE" else "FALSE"
  | null => n.kind = .nullLiteral
  | time t => n.kind = .timeLiteral ∧ n.text = t.text
  | date k d => n.kind = .dateLiteral ∧ n.text = dateLiteral k d
  | tod k t => n.kind = .todLiteral ∧ n.text = todLiteral k t
  | dt k d t => n.kind = .dtLiteral ∧ n.text = dtLiteral k d t
  | typedInteger ty t => n.kind = .typedLiteral ∧ TypedAs n ty t.chars
  | typedReal ty t => n.kind = .typedLiteral ∧ TypedAs n ty t.chars

/-! ## What they denote -/

/-- The largest value of an integer or bit-string type. -/
def largestValue : ElementaryType → Option Nat
  | .sint => some (2 ^ 7 - 1)
  | .int => some (2 ^ 15 - 1)
  | .dint => some (2 ^ 31 - 1)
  | .lint => some (2 ^ 63 - 1)
  | .usint | .byte => some (2 ^ 8 - 1)
  | .uint | .word => some (2 ^ 16 - 1)
  | .udint | .dword => some (2 ^ 32 - 1)
  | .ulint | .lword => some (2 ^ 64 - 1)
  | _ => none

/-- The number of an integer. -/
def wholeNumber : Value → Option Int
  | .int i => some i.toInt
  | .uint u => some u.toNat
  | _ => none

theorem wholeNumber_int {n : Nat} (h : n < 2 ^ 63) :
    wholeNumber (.int (Int64.ofNat n)) = some (n : Int) := by
  rw [wholeNumber, toInt_ofNat h]

/-- Hours, minutes and seconds of a day. -/
def InDay (t : TimeText) : Prop := t.hours.value < 24 ∧ t.minutes.value < 60 ∧ t.seconds.value < 60

/-- The milliseconds of a fraction of a second. -/
def fractionExact (t : TimeText) : ℚ :=
  Nat.ofDigitChars 10 t.fraction 0 * 1000 / 10 ^ t.fraction.length

section

variable [F64Ops]

/-- The double next to a number. -/
def Nearest (digits : List Char) (v : Value) : Prop :=
  ∃ r, F64Ops.parse (String.ofList digits) = some r ∧ v = .real r

/-- The value of the literal by IEC 61131-3. Underscores do not count, and the
parts of a duration are added in any order. -/
def LiteralText.Denotes : LiteralText → Value → Prop
  | integer t, v => wholeNumber v = some (t.value : Int)
  | real t, v => Nearest t.digits v
  | string wide body, v =>
    ∃ cs, unescape (if wide then 4 else 2) body = some cs ∧ v = .string (String.ofList cs)
  | bool b, v => v = .bool b
  | null, v => v = .null
  | time t, v => ∃ ms : Int64, v = .time ms ∧ t.millis = some (ms.toInt : ℚ)
  | date _ d, v => ∃ day, d.Denotes day ∧ ∃ ms : Int64, v = .time ms ∧
      ms.toInt = sinceEpoch day * 86400000
  | tod _ t, v => InDay t ∧ ∃ ms : Int64, v = .time ms ∧
      (ms.toInt : ℚ) = t.clockMs + fractionExact t
  | dt _ d t, v => ∃ day, d.Denotes day ∧ InDay t ∧ ∃ ms : Int64, v = .time ms ∧
      (ms.toInt : ℚ) = sinceEpoch day * 86400000 + t.clockMs + fractionExact t
  | typedInteger ty t, v =>
    (∃ max ∈ largestValue ty, t.value ≤ max ∧ wholeNumber v = some (t.value : Int)) ∨
      (ty = .bool ∧ ∃ b, v = .bool b ∧ t.value = b.toNat) ∨
      (isRealType ty = true ∧ t.radix = .decimal ∧ Nearest t.numeral.digits v)
  | typedReal ty t, v => isRealType ty = true ∧ Nearest t.digits v

/-- The literal is compiled to the value it denotes. -/
def Exact (l : LiteralText) (kind : LiteralKind) : Prop :=
  ∃ v, literalToValue kind = .ok v ∧ l.Denotes v

/-- The literals that are compiled to what they denote. -/
def LiteralText.Fits : LiteralText → Prop
  | integer t => t.value < 2 ^ 63
  | real _ | bool _ | null => True
  | string _ body => '$' ∉ body
  | time t => ∃ ms : Int, doubleMs t.parts = some ms ∧ ms < 2 ^ 63 ∧ t.millis = some (ms : ℚ)
  | date _ d => ∃ day, d.Denotes day
  | tod _ t => InDay t ∧ (t.fractionMs : ℚ) = fractionExact t
  | dt _ d t => (∃ day, d.Denotes day) ∧ InDay t ∧ (t.fractionMs : ℚ) = fractionExact t
  | typedInteger ty t =>
    (∃ max ∈ largestValue ty, t.value ≤ max ∧ (t.Plain ∧ t.value < 2 ^ 63 ∨ t.value = 0)) ∨
      (isRealType ty = true ∧ t.Plain ∧ 2 ^ 63 ≤ t.value)
  | typedReal ty t => isRealType ty = true ∧ '_' ∉ t.chars

/-! ## What they are compiled to -/

section

variable {ty : ElementaryType} {cs : List Char}

theorem typed_int {v : Int64} (h : parseI64 cs = some v) :
    literalToValue (.typed ty (String.ofList cs)) = .ok (.int v) := by
  simp [literalToValue, h]

theorem typed_real {r : F64} (h : parseI64 cs = none)
    (hr : F64Ops.parse (String.ofList cs) = some r) :
    literalToValue (.typed ty (String.ofList cs)) = .ok (.real r) := by
  simp [literalToValue, h, hr]

theorem typed_zero (h : parseI64 cs = none) (hr : F64Ops.parse (String.ofList cs) = none) :
    literalToValue (.typed ty (String.ofList cs)) = .ok (.int 0) := by
  simp [literalToValue, h, hr]

end

/-- **A typed integer is read when it is plain, and 0 when it is not.** -/
theorem literalToValue_typed (hr : RealLaws) (ty : ElementaryType) (t : IntText) :
    (t.Plain ∧ t.value < 2 ^ 63 ∧
      literalToValue (.typed ty (String.ofList t.chars)) = .ok (.int (Int64.ofNat t.value))) ∨
    (t.Plain ∧ 2 ^ 63 ≤ t.value ∧ ∃ r, F64Ops.parse (String.ofList t.chars) = some r ∧
      literalToValue (.typed ty (String.ofList t.chars)) = .ok (.real r)) ∨
    (¬ t.Plain ∧ literalToValue (.typed ty (String.ofList t.chars)) = .ok (.int 0)) := by
  by_cases hp : t.Plain
  · have hparse := hp.parse
    by_cases hn : t.value < 2 ^ 63
    · rw [if_pos hn] at hparse
      exact .inl ⟨hp, hn, typed_int hparse⟩
    · obtain ⟨c, cs, hcs, -⟩ := t.starts
      have hdec : Decimal t.chars := .whole (by rw [hcs]; exact List.cons_ne_nil _ _) hp.digits.2
      obtain ⟨r, hreal⟩ := hr.decimal _ hdec
      rw [if_neg hn] at hparse
      exact .inr (.inl ⟨hp, Nat.le_of_not_lt hn, r, hreal, typed_real hparse hreal⟩)
  · have hmarked := hr.marked (String.ofList t.chars) (by
      rw [String.toList_ofList]
      exact t.marked hp)
    exact .inr (.inr ⟨hp, typed_zero (t.parse_marked hp) hmarked⟩)

theorem exact_typedInteger (hr : RealLaws) (ty : ElementaryType) (t : IntText) :
    Exact (.typedInteger ty t) (.typed ty (String.ofList t.chars)) ↔
      (LiteralText.typedInteger ty t).Fits := by
  unfold Exact LiteralText.Denotes LiteralText.Fits
  rcases literalToValue_typed hr ty t with ⟨hp, hn, hv⟩ | ⟨hp, hn, r, hreal, hv⟩ | ⟨hp, hv⟩
  · rw [hv]
    constructor
    · rintro ⟨v, h, hden⟩
      cases h
      rcases hden with ⟨max, hmax, hle, -⟩ | ⟨-, b, h, -⟩ | ⟨-, -, r, -, h⟩
      · exact .inl ⟨max, hmax, hle, .inl ⟨hp, hn⟩⟩
      · cases h
      · cases h
    · rintro (⟨max, hmax, hle, -⟩ | ⟨-, -, hge⟩)
      · exact ⟨_, rfl, .inl ⟨max, hmax, hle, wholeNumber_int hn⟩⟩
      · omega
  · have hdigits := hp.digits.1
    rw [hv]
    constructor
    · rintro ⟨v, h, hden⟩
      cases h
      rcases hden with ⟨max, hmax, hle, h⟩ | ⟨-, b, h, -⟩ | ⟨hty, -, -⟩
      · cases h
      · cases h
      · exact .inr ⟨hty, hp, hn⟩
    · rintro (⟨max, hmax, hle, ⟨-, hlt⟩ | h0⟩ | ⟨hty, -, -⟩)
      · omega
      · omega
      · exact ⟨_, rfl, .inr (.inr ⟨hty, hp.1, r, by rw [hdigits]; exact hreal, rfl⟩)⟩
  · rw [hv]
    constructor
    · rintro ⟨v, h, hden⟩
      cases h
      rcases hden with ⟨max, hmax, hle, h⟩ | ⟨-, b, h, -⟩ | ⟨-, -, r, -, h⟩
      · have hzero : (0 : Int) = t.value := Option.some.inj h
        exact .inl ⟨max, hmax, hle, .inr (by omega)⟩
      · cases h
      · cases h
    · rintro (⟨max, hmax, hle, ⟨hplain, -⟩ | h0⟩ | ⟨-, hplain, -⟩)
      · exact absurd hplain hp
      · refine ⟨_, rfl, .inl ⟨max, hmax, hle, ?_⟩⟩
        rw [h0]
        rfl
      · exact absurd hplain hp

theorem exact_typedReal (hr : RealLaws) (ty : ElementaryType) (t : RealNumeral) :
    Exact (.typedReal ty t) (.typed ty (String.ofList t.chars)) ↔
      (LiteralText.typedReal ty t).Fits := by
  show (∃ v, literalToValue (.typed ty (String.ofList t.chars)) = .ok v ∧
    isRealType ty = true ∧ Nearest t.digits v) ↔ isRealType ty = true ∧ '_' ∉ t.chars
  by_cases hu : '_' ∈ t.chars
  · have hmarked := hr.marked (String.ofList t.chars) (.inl (by rwa [String.toList_ofList]))
    rw [typed_zero t.parse_none hmarked]
    constructor
    · rintro ⟨v, h, -, r, -, hv⟩
      cases h
      cases hv
    · exact fun h => absurd hu h.2
  · have hdigits : t.digits = t.chars := by
      refine List.filter_eq_self.mpr fun c hc => decide_eq_true ?_
      rintro rfl
      exact hu hc
    obtain ⟨r, hreal⟩ := hr.decimal _ t.decimal
    rw [hdigits] at hreal
    rw [typed_real t.parse_none hreal, hdigits]
    constructor
    · rintro ⟨v, -, hty, -⟩
      exact ⟨hty, hu⟩
    · rintro ⟨hty, -⟩
      exact ⟨_, rfl, hty, r, hreal, rfl⟩

theorem exact_integer (t : IntText) :
    Exact (.integer t) (.integer (integerValue t.chars)) ↔ (LiteralText.integer t).Fits := by
  show (∃ v, Except.ok (Value.int (integerValue t.chars)) = Except.ok v ∧
    wholeNumber v = some (t.value : Int)) ↔ t.value < 2 ^ 63
  rw [integerValue_eq]
  by_cases hn : t.value < 2 ^ 63
  · rw [if_pos hn]
    exact iff_of_true ⟨_, rfl, wholeNumber_int hn⟩ hn
  · rw [if_neg hn]
    refine iff_of_false ?_ hn
    rintro ⟨v, h, hv⟩
    cases h
    have hzero : (0 : Int) = t.value := Option.some.inj hv
    omega

/-- The parts of a duration have a number in doubles when they have one. -/
theorem doubleMs_of_exactMs : ∀ {ps : List DurationPart} {q : ℚ}, exactMs ps = some q →
    ∃ s, doubleMs ps = some s
  | [], _, _ => ⟨0, rfl⟩
  | p :: ps, q, h => by
    obtain ⟨u, hu, h⟩ := Option.bind_eq_some_iff.mp h
    obtain ⟨q', hq, -⟩ := Option.map_eq_some_iff.mp h
    obtain ⟨s, hs⟩ := doubleMs_of_exactMs hq
    exact ⟨_, by rw [doubleMs, hu, hs]; rfl⟩

theorem exact_time (hr : RealLaws) (t : DurationText) :
    Exact (.time t) (.time t.text) ↔ (LiteralText.time t).Fits := by
  show (∃ v, (parseTimeLiteral t.text).map Value.time = .ok v ∧
    ∃ ms : Int64, v = .time ms ∧ t.millis = some (ms.toInt : ℚ)) ↔
      ∃ ms : Int, doubleMs t.parts = some ms ∧ ms < 2 ^ 63 ∧ t.millis = some (ms : ℚ)
  constructor
  · rintro ⟨v, hv, ms, rfl, hms⟩
    obtain ⟨q, hq, -⟩ := Option.map_eq_some_iff.mp hms
    obtain ⟨s, hs⟩ := doubleMs_of_exactMs hq
    rw [parse_duration hr t hs] at hv
    cases hc : checkedI64 s with
    | error e => rw [hc] at hv; cases hv
    | ok y =>
      rw [hc] at hv
      cases hv
      have hy := checkedI64_iff.mp hc
      have := Int64.toInt_lt ms
      exact ⟨s, hs, by omega, by rw [← hy]; exact hms⟩
  · rintro ⟨s, hs, hlt, hms⟩
    have h0 := doubleMs_sum_nonneg hr hs
    refine ⟨.time (Int64.ofInt s), ?_, _, rfl, ?_⟩
    · rw [parse_duration hr t hs, checkedI64_ok (by omega) (by omega)]
      rfl
    · rw [toInt_checked (by omega) (by omega)]
      exact hms

omit [F64Ops] in
theorem days_denoted {d : DateText} {day : Date} (h : d.Denotes day) : d.days = sinceEpoch day := by
  obtain ⟨hy, hm, hd⟩ := h
  rw [sinceEpoch_eq, DateText.days, hy, hm, hd]

theorem exact_date (k : Keyword) (d : DateText) :
    Exact (.date k d) (.date (dateLiteral k d)) ↔ (LiteralText.date k d).Fits := by
  have hdays := d.days_bounds
  show (∃ v, (parseDateLiteral (dateLiteral k d)).map Value.time = .ok v ∧
    ∃ day, d.Denotes day ∧ ∃ ms : Int64, v = .time ms ∧
      ms.toInt = sinceEpoch day * 86400000) ↔ ∃ day, d.Denotes day
  constructor
  · rintro ⟨v, -, day, hday, -⟩
    exact ⟨day, hday⟩
  · rintro ⟨day, hday⟩
    refine ⟨_, by rw [parse_date]; rfl, day, hday, _, rfl, ?_⟩
    rw [toInt_checked (by omega) (by omega), days_denoted hday]

omit [F64Ops] in
theorem fractionExact_bounds (t : TimeText) : 0 ≤ fractionExact t ∧ fractionExact t < 1000 := by
  have hlt : ((Nat.ofDigitChars 10 t.fraction 0 : Nat) : ℚ) < 10 ^ t.fraction.length := by
    exact_mod_cast ofDigits_lt t.fraction_digit
  have hpow : (0 : ℚ) < 10 ^ t.fraction.length := by positivity
  unfold fractionExact
  constructor
  · exact div_nonneg (mul_nonneg (Nat.cast_nonneg _) (by norm_num)) hpow.le
  · rw [div_lt_iff₀ hpow]
    linarith

/-- A time of day is exact when its fraction is: no sum goes over the day. -/
theorem todMs_exact (hr : RealLaws) {t : TimeText} (h : InDay t) :
    (t.todMs : ℚ) = t.clockMs + fractionExact t ↔ (t.fractionMs : ℚ) = fractionExact t := by
  obtain ⟨hh, hm, hs⟩ := h
  obtain ⟨hf0, hf1⟩ := hr.fractions.real t
  obtain ⟨h0, h1⟩ := fractionExact_bounds t
  have hfraction : 0 ≤ t.fractionMs ∧ t.fractionMs ≤ 1000 := ⟨hf0, hf1⟩
  have hclock : 0 ≤ t.clockMs ∧ t.clockMs ≤ 86399000 := by
    unfold TimeText.clockMs
    omega
  by_cases hday : t.clockMs + t.fractionMs < 86400000
  · have htod : t.todMs = t.clockMs + t.fractionMs := Int.emod_eq_of_lt (by omega) hday
    rw [htod]
    push_cast
    constructor <;> intro h <;> linarith
  · have htod : t.todMs = 0 := by
      unfold TimeText.todMs
      omega
    have hc : t.clockMs = 86399000 := by omega
    have hms : t.fractionMs = 1000 := by omega
    rw [htod, hc, hms]
    push_cast
    constructor <;> intro h <;> linarith

theorem parse_todLiteral (hr : RealLaws) (k : Keyword) (t : TimeText) :
    parseTodLiteral (todLiteral k t) = .ok (Int64.ofInt t.todMs) := by
  rw [parseTodLiteral, todLiteral, String.toList_ofList, afterHash_trim k t.clean,
    parse_tod hr.fractions t]

theorem exact_tod (hr : RealLaws) (k : Keyword) (t : TimeText) :
    Exact (.tod k t) (.tod (todLiteral k t)) ↔ (LiteralText.tod k t).Fits := by
  obtain ⟨h0, hlt⟩ := t.todMs_bounds
  show (∃ v, (parseTodLiteral (todLiteral k t)).map Value.time = .ok v ∧ InDay t ∧
    ∃ ms : Int64, v = .time ms ∧ (ms.toInt : ℚ) = t.clockMs + fractionExact t) ↔
      InDay t ∧ (t.fractionMs : ℚ) = fractionExact t
  rw [parse_todLiteral hr]
  constructor
  · rintro ⟨v, hv, hin, ms, rfl, hms⟩
    cases hv
    rw [toInt_checked (by omega) (by omega)] at hms
    exact ⟨hin, (todMs_exact hr hin).mp hms⟩
  · rintro ⟨hin, hf⟩
    refine ⟨_, rfl, hin, _, rfl, ?_⟩
    rw [toInt_checked (by omega) (by omega)]
    exact (todMs_exact hr hin).mpr hf

theorem exact_dt (hr : RealLaws) (k : Keyword) (d : DateText) (t : TimeText) :
    Exact (.dt k d t) (.dt (dtLiteral k d t)) ↔ (LiteralText.dt k d t).Fits := by
  obtain ⟨h0, hlt⟩ := t.todMs_bounds
  have hdays := d.days_bounds
  have hsum {day : Date} (hday : d.Denotes day) :
      ((d.days * 86400000 + t.todMs : Int) : ℚ) =
        sinceEpoch day * 86400000 + t.clockMs + fractionExact t ↔
      (t.todMs : ℚ) = t.clockMs + fractionExact t := by
    rw [days_denoted hday]
    push_cast
    constructor <;> intro h <;> linarith
  show (∃ v, (parseDtLiteral (dtLiteral k d t)).map Value.time = .ok v ∧
    ∃ day, d.Denotes day ∧ InDay t ∧ ∃ ms : Int64, v = .time ms ∧
      (ms.toInt : ℚ) = sinceEpoch day * 86400000 + t.clockMs + fractionExact t) ↔
        (∃ day, d.Denotes day) ∧ InDay t ∧ (t.fractionMs : ℚ) = fractionExact t
  rw [parse_dt hr.fractions]
  constructor
  · rintro ⟨v, hv, day, hday, hin, ms, rfl, hms⟩
    cases hv
    rw [toInt_checked (by omega) (by omega), hsum hday] at hms
    exact ⟨⟨day, hday⟩, hin, (todMs_exact hr hin).mp hms⟩
  · rintro ⟨⟨day, hday⟩, hin, hf⟩
    refine ⟨_, rfl, day, hday, hin, _, rfl, ?_⟩
    rw [toInt_checked (by omega) (by omega), hsum hday]
    exact (todMs_exact hr hin).mpr hf

omit [F64Ops] in
theorem ofList_inj {cs ds : List Char} : String.ofList cs = String.ofList ds ↔ cs = ds :=
  ⟨fun h => by simpa using congrArg String.toList h, fun h => by rw [h]⟩

theorem exact_string (wide : Bool) (body : List Char) :
    Exact (.string wide body) (.string (String.ofList body)) ↔
      (LiteralText.string wide body).Fits := by
  have hw : 0 < if wide then 4 else 2 := by cases wide <;> decide
  show (∃ v, Except.ok (Value.string (String.ofList body)) = Except.ok v ∧
    ∃ cs, unescape (if wide then 4 else 2) body = some cs ∧ v = .string (String.ofList cs)) ↔
      '$' ∉ body
  rw [← unescape_eq_iff hw body]
  constructor
  · rintro ⟨v, hv, cs, hcs, hv'⟩
    have htext := Value.string.inj ((Except.ok.inj hv).trans hv')
    rw [hcs, ofList_inj.mp htext]
  · intro h
    exact ⟨_, rfl, body, h, rfl⟩

/-! ## The lowering -/

/-- What the literal is lowered to. -/
def LiteralText.lowered : LiteralText → LiteralKind
  | integer t => .integer (integerValue t.chars)
  | real t => .real ((F64Ops.parse (String.ofList t.digits)).getD F64.zero).bits
  | string _ body => .string (String.ofList body)
  | bool b => .bool b
  | null => .null
  | time t => .time t.text
  | date k d => .date (dateLiteral k d)
  | tod k t => .tod (todLiteral k t)
  | dt k d t => .dt (dtLiteral k d t)
  | typedInteger ty t => .typed ty (String.ofList t.chars)
  | typedReal ty t => .typed ty (String.ofList t.chars)

omit [F64Ops] in
theorem lowerTypedLiteral_eq {n : Node} {ty : ElementaryType} {cs : List Char}
    (h : TypedAs n ty cs) : lowerTypedLiteral n = .typed ty (String.ofList cs) := by
  obtain ⟨c, hc, hty⟩ := h.type
  obtain ⟨v, hv, rfl⟩ := h.value
  rw [lowerTypedLiteral, hc, hv, Option.map_some, Option.map_some, parseElementaryType, hty]
  rfl

theorem lowerExpression_literal {n : Node} {l : LiteralText} (h : l.Spelled n) :
    lowerExpression n = .literal l.lowered n.range := by
  cases l with
  | integer t =>
    obtain ⟨hk, hc⟩ := h
    rw [lowerExpression, hk, LiteralText.lowered, ← hc]
    rfl
  | real t =>
    obtain ⟨hk, hc⟩ := h
    rw [lowerExpression, hk, LiteralText.lowered, RealNumeral.digits, ← hc]
    rfl
  | string wide body =>
    obtain ⟨hk, hc⟩ := h
    rw [lowerExpression, hk, LiteralText.lowered]
    simp only [lowerStringLiteral, hc, List.length_cons, List.length_append, List.length_nil,
      List.drop_succ_cons, List.drop_zero, List.dropLast_concat]
    rw [if_pos (by omega)]
  | bool b =>
    obtain ⟨hk, hc⟩ := h
    rw [lowerExpression, hk, LiteralText.lowered]
    simp only [lowerBooleanLiteral, hc]
    cases b <;> rfl
  | null =>
    rw [lowerExpression, show n.kind = .nullLiteral from h]
    rfl
  | time t | date k d | tod k t | dt k d t =>
    obtain ⟨hk, hc⟩ := h
    rw [lowerExpression, hk, LiteralText.lowered, ← hc]
  | typedInteger ty t | typedReal ty t =>
    obtain ⟨hk, ht⟩ := h
    rw [lowerExpression, hk, LiteralText.lowered, ← lowerTypedLiteral_eq ht]

/-- A literal is compiled to the value it denotes just when it fits. -/
theorem exact_iff (hr : RealLaws) (l : LiteralText) : Exact l l.lowered ↔ l.Fits := by
  cases l with
  | integer t => exact exact_integer t
  | real t =>
    obtain ⟨r, hreal⟩ := hr.decimal _ t.decimal
    refine iff_of_true ⟨_, rfl, r, hreal, ?_⟩ trivial
    rw [hreal]
    rfl
  | string wide body => exact exact_string wide body
  | bool b => exact iff_of_true ⟨_, rfl, rfl⟩ trivial
  | null => exact iff_of_true ⟨_, rfl, rfl⟩ trivial
  | time t => exact exact_time hr t
  | date k d => exact exact_date k d
  | tod k t => exact exact_tod hr k t
  | dt k d t => exact exact_dt hr k d t
  | typedInteger ty t => exact exact_typedInteger hr ty t
  | typedReal ty t => exact exact_typedReal hr ty t

/-- **Literal exactness.** No literal is rejected, so the sources with it are
rejected or it is compiled to the value it denotes just when it fits. -/
theorem literal_exact_iff (hr : RealLaws) {n : Node} {l : LiteralText} (h : l.Spelled n) :
    ∃ kind, lowerExpression n = .literal kind n.range ∧
      (Rejected kind ∨ Exact l kind ↔ l.Fits) := by
  refine ⟨l.lowered, lowerExpression_literal h, ?_⟩
  rw [or_iff_right (not_rejected l.lowered)]
  exact exact_iff hr l

end

/-! ## Examples -/

theorem Decimal.unmarked {cs : List Char} (h : Decimal cs) : cs ≠ [] ∧ '_' ∉ cs ∧ '#' ∉ cs := by
  have hdigit {ds : List Char} (h : ∀ c ∈ ds, c.isDigit = true) : '_' ∉ ds ∧ '#' ∉ ds :=
    ⟨fun hc => isDigit_ne (h _ hc) (by decide) rfl, fun hc => isDigit_ne (h _ hc) (by decide) rfl⟩
  have hexp {es : List Char} (h : Exponent es) : '_' ∉ es ∧ '#' ∉ es := by
    cases h with
    | none => exact ⟨List.not_mem_nil, List.not_mem_nil⟩
    | some he hsign _ hds =>
      obtain ⟨hu, hh⟩ := hdigit hds
      simp only [List.mem_cons, List.not_mem_nil, or_false] at hsign
      rcases he with rfl | rfl <;> rcases hsign with rfl | rfl | rfl <;> simp [hu, hh]
  cases h with
  | whole hne hds => exact ⟨hne, hdigit hds⟩
  | point hne hds hfs hes =>
    obtain ⟨hu, hh⟩ := hdigit hds
    obtain ⟨hu', hh'⟩ := hdigit hfs
    obtain ⟨hu'', hh''⟩ := hexp hes
    simp [hu, hh, hu', hh', hu'', hh'']

/-- Arithmetic that reads every number as 0. -/
@[reducible] def zeroReals : F64Ops :=
  { (default : F64Ops) with
    parse := fun s =>
      if s.toList = [] ∨ '_' ∈ s.toList ∨ '#' ∈ s.toList then none else some F64.zero }

theorem zeroReals_decimal {cs : List Char} (h : Decimal cs) :
    ∃ r, zeroReals.parse (String.ofList cs) = some r := by
  obtain ⟨hne, hu, hh⟩ := h.unmarked
  refine ⟨F64.zero, if_neg ?_⟩
  rw [String.toList_ofList]
  simp [hne, hu, hh]

theorem zeroReals_laws : @RealLaws zeroReals :=
  letI := zeroReals
  { empty := rfl
    marked := fun _ h => if_pos (.inr h)
    decimal := fun _ h => zeroReals_decimal h
    zero := rfl
    zero_mul := fun _ => rfl
    zero_div := fun _ _ => rfl
    nonneg := fun _ _ => Int.le_refl 0
    mul_nonneg := fun _ _ _ _ => Int.le_refl 0
    div_nonneg := fun _ _ _ _ => Int.le_refl 0
    fractions := @FractionMillis.mk zeroReals (by decide) fun _ _ =>
      (by decide : 0 ≤ (0 : Int64).toInt ∧ (0 : Int64).toInt ≤ 1000) }

/-- `16#7F` -/
def hexText : IntText :=
  ⟨.hexadecimal, ⟨'7', ['F'], by decide, fun _ hc => List.mem_singleton.mp hc ▸ by decide⟩⟩

def hexNode : Node := .mk .integerLiteral true none noRange "16#7F" []

theorem hexadecimal_read : ∃ kind, @lowerExpression zeroReals hexNode = .literal kind noRange ∧
    (Rejected kind ∨ @Exact zeroReals (.integer hexText) kind ↔
      @LiteralText.Fits zeroReals (.integer hexText)) :=
  @literal_exact_iff zeroReals zeroReals_laws hexNode (.integer hexText) ⟨rfl, rfl⟩

/-- `BYTE#16#7F` -/
def byteNode : Node :=
  .mk .typedLiteral true none noRange ""
    [.mk .token false (some .type) noRange "BYTE" [], .mk .token false none noRange "#" [],
      .mk .integerLiteral true (some .value) noRange "16#7F" []]

/-- `BYTE#16#7F` is accepted and is 0. -/
theorem hexadecimal_byte_zero :
    (LiteralText.typedInteger .byte hexText).Spelled byteNode ∧
      @lowerExpression default byteNode = .literal (.typed .byte "16#7F") noRange ∧
      @literalToValue default (.typed .byte "16#7F") = .ok (.int 0) ∧
      ¬ (Rejected (.typed .byte "16#7F") ∨
        @Exact default (.typedInteger .byte hexText) (.typed .byte "16#7F")) := by
  have hspelled : (LiteralText.typedInteger .byte hexText).Spelled byteNode :=
    ⟨rfl, ⟨_, rfl, by decide⟩, ⟨_, rfl, rfl⟩⟩
  refine ⟨hspelled, @lowerExpression_literal default _ _ hspelled, by decide +kernel, ?_⟩
  rintro (h | ⟨v, hv, hden⟩)
  · exact not_rejected _ h
  · have hzero : @literalToValue default (.typed .byte "16#7F") = .ok (.int 0) := by decide +kernel
    rw [hzero] at hv
    cases hv
    rcases hden with ⟨max, -, -, h⟩ | ⟨h, -⟩ | ⟨h, -⟩
    · exact absurd h (by decide)
    · cases h
    · cases h

end RustPlc.Compiler
