import RustPlc.L4Agree.StringSlices

/-!
# The algebra of the string functions

`LEN`, `CONCAT`, `LEFT`, `RIGHT`, `MID`, `FIND`, `INSERT`, `DELETE` and
`REPLACE` (crates/st-engine/src/vm.rs:1552-1641) on strings of ASCII
characters. There a position is a number of characters, no slice panics, and
each function is a `take` and a `drop` of the list of characters: the
conversion of a position and its clamping are in the lemma of the function,
and the laws are facts about lists.

Results:
* `left_ascii`, `right_ascii`, `mid_ascii`, `insert_ascii`, `delete_ascii`,
  `replace_ascii`: the functions on lists of characters;
* `find_ascii`: `FIND` is the first position at which `MID` is the needle;
* `string_algebra`: the laws between them.
-/
namespace RustPlc.Engine

open RustPlc.Ir

/-! ## The functions -/

/-- mirrors crates/st-engine/src/vm.rs:1552-1555 -/
def stringLenOf (v : Value) : Value := .int (Int64.ofNat (byteLen (regStr v)))

/-- mirrors crates/st-engine/src/vm.rs:1556-1560 -/
def stringConcatOf (a b : Value) : Value := strValue (regStr a ++ regStr b)

/-- A string of ASCII characters. As every string of the process it has less
than `2^63` bytes. -/
structure AsciiText where
  chars : List Char
  ascii : ∀ c ∈ chars, c.toNat < 128
  fits : chars.length < 9223372036854775808

namespace AsciiText

variable (s : AsciiText)

/-- The string in a register. -/
def value : Value := strValue s.chars

def size : Nat := s.chars.length

end AsciiText

/-! ## Positions -/

theorem regStr_strValue (cs : List Char) : regStr (strValue cs) = cs := String.toList_ofList

theorem strValue_inj {as bs : List Char} (h : strValue as = strValue bs) : as = bs := by
  have := congrArg regStr h
  rwa [regStr_strValue, regStr_strValue] at this

/-- The bytes of ASCII characters are the characters. -/
theorem byteLen_ascii : ∀ {cs : List Char}, (∀ c ∈ cs, c.toNat < 128) →
    byteLen cs = cs.length
  | [], _ => rfl
  | c :: cs, h => by
    have hc : c.utf8Size = 1 := by
      have hlt := h c List.mem_cons_self
      have hle : c.val ≤ 127 := by
        show c.toNat ≤ 127
        omega
      exact if_pos hle
    rw [byteLen_cons, hc, byteLen_ascii fun d hd => h d (List.mem_cons_of_mem c hd),
      List.length_cons, Nat.add_comm]

section

variable {cs : List Char}

theorem splitAtByte_ascii (h : ∀ c ∈ cs, c.toNat < 128) {n : Nat} (hn : n ≤ cs.length) :
    splitAtByte cs n = .ok (cs.take n, cs.drop n) := by
  apply splitAtByte_iff.mpr
  refine ⟨(List.take_append_drop n cs).symm, ?_⟩
  rw [byteLen_ascii fun c hc => h c (List.mem_of_mem_take hc), List.length_take]
  omega

theorem isBoundary_ascii (h : ∀ c ∈ cs, c.toNat < 128) {n : Nat} (hn : n ≤ cs.length) :
    IsBoundary cs n :=
  ⟨_, _, splitAtByte_iff.mp (splitAtByte_ascii h hn)⟩

/-- A section of ASCII characters is found by counting them. -/
theorem section_ascii (h : ∀ c ∈ cs, c.toNat < 128) {i j : Nat} {a m b : List Char}
    (hs : SectionAt cs i j a m b) :
    a = cs.take i ∧ m = (cs.drop i).take (j - i) ∧ b = cs.drop j := by
  have htext := hs.text
  have hsub : ∀ xs : List Char, (∀ c ∈ xs, c ∈ cs) → byteLen xs = xs.length :=
    fun xs hx => byteLen_ascii fun c hc => h c (hx c hc)
  have ha := hs.start
  have hm := hs.stop
  rw [hsub a fun c hc => by rw [htext]; simp [hc]] at ha
  rw [hsub m fun c hc => by rw [htext]; simp [hc]] at hm
  have hj : j - i = m.length := by omega
  have hjlen : j = (a ++ m).length := by
    rw [List.length_append]
    omega
  subst htext ha
  refine ⟨?_, ?_, ?_⟩
  · rw [List.append_assoc, List.take_left]
  · rw [List.append_assoc, List.drop_left, hj, List.take_left]
  · rw [hjlen, List.drop_left]

/-- A function that slices ASCII characters delivers its value. -/
theorem delivers_ascii (h : ∀ c ∈ cs, c.toNat < 128) {x : Except Panic Value}
    {D : Value → Prop} {ns : List Nat} (hs : Sliced x D (∀ n ∈ ns, IsBoundary cs n))
    (hns : ∀ n ∈ ns, n ≤ cs.length) : ∃ v, D v ∧ x = .ok v := by
  rcases hs with ⟨-, hv⟩ | ⟨hno, -⟩
  · exact hv
  · exact absurd (fun n hn => isBoundary_ascii h (hns n hn)) hno

/-- The ends of a section are in the text. -/
theorem sectionCuts_le (l p : Int) : ∀ n ∈ sectionCuts cs l p, n ≤ byteLen cs := by
  intro n hn
  unfold sectionCuts at hn
  split at hn
  · exact absurd hn List.not_mem_nil
  · rename_i hsome
    unfold NothingAt at hsome
    simp only [List.mem_cons, List.not_mem_nil, or_false] at hn
    rcases hn with rfl | rfl
    · omega
    · exact Nat.min_le_right _ _

theorem take_min (cs : List Char) (n : Nat) : cs.take (min n cs.length) = cs.take n := by
  rw [← List.take_take, List.take_length]

theorem drop_min (cs : List Char) (n : Nat) : cs.drop (min n cs.length) = cs.drop n := by
  rcases Nat.le_total n cs.length with h | h
  · rw [Nat.min_eq_left h]
  · rw [Nat.min_eq_right h, List.drop_length, List.drop_eq_nil_of_le h]

end

section

variable [F64Ops] {cs : List Char}

/-! ## The functions on lists -/

theorem left_ascii (h : ∀ c ∈ cs, c.toNat < 128) (n : Int64) :
    stringLeftOf (strValue cs) (.int n) = .ok (strValue (cs.take n.toInt.toNat)) := by
  have hcut : clampLen n cs.length ≤ cs.length := Nat.min_le_right _ _
  have hsrc : stringLeftOf (strValue cs) (.int n) =
      (splitAtByte (regStr (strValue cs)) (clampLen n (byteLen (regStr (strValue cs))))).map
        fun p => strValue p.1 := rfl
  rw [hsrc, regStr_strValue, byteLen_ascii h, splitAtByte_ascii h hcut]
  show Except.ok (strValue (cs.take (min _ _))) = _
  rw [take_min]

theorem right_ascii (h : ∀ c ∈ cs, c.toNat < 128) (n : Int64) :
    stringRightOf (strValue cs) (.int n) =
      .ok (strValue (cs.drop (cs.length - n.toInt.toNat))) := by
  have hcut : cs.length - clampLen n cs.length = cs.length - n.toInt.toNat := by
    unfold clampLen
    omega
  have hsrc : stringRightOf (strValue cs) (.int n) =
      (splitAtByte (regStr (strValue cs)) (byteLen (regStr (strValue cs)) -
        clampLen n (byteLen (regStr (strValue cs))))).map fun p => strValue p.2 := rfl
  rw [hsrc, regStr_strValue, byteLen_ascii h, hcut, splitAtByte_ascii h (Nat.sub_le _ _)]
  rfl

theorem mid_ascii (h : ∀ c ∈ cs, c.toNat < 128) (l p : Int64) :
    stringMidOf (strValue cs) (.int l) (.int p) = .ok (strValue
      (if p.toInt < 1 then [] else (cs.drop (p.toInt - 1).toNat).take l.toInt.toNat)) := by
  have hs := mid_sliced (strValue cs) (.int l) (.int p)
  rw [regStr_strValue] at hs
  obtain ⟨v, hv, hx⟩ := delivers_ascii h hs fun n hn =>
    byteLen_ascii h ▸ sectionCuts_le _ _ n hn
  rw [hx]
  change SectionValue cs l.toInt p.toInt _ _ v at hv
  unfold SectionValue at hv
  rw [byteLen_ascii h] at hv
  split at hv
  · rename_i hnone
    rw [hv]
    unfold NothingAt at hnone
    split
    · rfl
    · rcases hnone with hp | hl | hlen
      · omega
      · rw [Int.toNat_of_nonpos hl, List.take_zero]
      · rw [List.drop_eq_nil_of_le (by omega), List.take_nil]
  · rename_i hsome
    obtain ⟨a, m, b, hsec, rfl⟩ := hv
    obtain ⟨-, rfl, -⟩ := section_ascii h hsec
    unfold NothingAt at hsome
    rw [if_neg (by omega)]
    have hstop : stopAt (p.toInt - 1).toNat l.toInt cs.length - (p.toInt - 1).toNat =
        min l.toInt.toNat (cs.drop (p.toInt - 1).toNat).length := by
      unfold stopAt
      rw [List.length_drop]
      omega
    rw [hstop, take_min]

theorem delete_ascii (h : ∀ c ∈ cs, c.toNat < 128) (l : Int64) {p : Int64} (hp : 1 ≤ p.toInt) :
    stringDeleteOf (strValue cs) (.int l) (.int p) = .ok (strValue
      (cs.take (p.toInt - 1).toNat ++ cs.drop ((p.toInt - 1).toNat + l.toInt.toNat))) := by
  have hs := delete_sliced (strValue cs) (.int l) (.int p)
  rw [regStr_strValue] at hs
  obtain ⟨v, hv, hx⟩ := delivers_ascii h hs fun n hn =>
    byteLen_ascii h ▸ sectionCuts_le _ _ n hn
  rw [hx]
  change SectionValue cs l.toInt p.toInt _ _ v at hv
  unfold SectionValue at hv
  rw [byteLen_ascii h] at hv
  split at hv
  · rename_i hnone
    rw [hv]
    unfold NothingAt at hnone
    rcases hnone with hlow | hl | hlen
    · omega
    · rw [Int.toNat_of_nonpos hl, Nat.add_zero, List.take_append_drop]
    · rw [List.take_of_length_le (by omega), List.drop_eq_nil_of_le (by omega),
        List.append_nil]
  · obtain ⟨a, m, b, hsec, rfl⟩ := hv
    obtain ⟨rfl, -, rfl⟩ := section_ascii h hsec
    unfold stopAt
    rw [drop_min]

theorem insert_ascii (h : ∀ c ∈ cs, c.toNat < 128) (ts : List Char) (p : Int64) :
    stringInsertOf (strValue cs) (strValue ts) (.int p) = .ok (strValue
      (cs.take p.toInt.toNat ++ ts ++ cs.drop p.toInt.toNat)) := by
  have hcut : clampLen p cs.length ≤ cs.length := Nat.min_le_right _ _
  have hsrc : stringInsertOf (strValue cs) (strValue ts) (.int p) =
      splitAtByte (regStr (strValue cs)) (clampLen p (byteLen (regStr (strValue cs)))) >>=
        fun q => .ok (strValue (q.1 ++ regStr (strValue ts) ++ q.2)) := rfl
  rw [hsrc, regStr_strValue, regStr_strValue, byteLen_ascii h, splitAtByte_ascii h hcut]
  show Except.ok (strValue (cs.take (min _ _) ++ ts ++ cs.drop (min _ _))) = _
  rw [take_min, drop_min]

theorem replace_ascii (h : ∀ c ∈ cs, c.toNat < 128) (ts : List Char) (l p : Int64) :
    stringReplaceOf (strValue cs) (strValue ts) (.int l) (.int p) = .ok (strValue
      (cs.take (p.toInt - 1).toNat ++ ts ++
        cs.drop ((p.toInt - 1).toNat + l.toInt.toNat))) := by
  have hs := replace_sliced (strValue cs) (strValue ts) (.int l) (.int p)
  rw [regStr_strValue, regStr_strValue] at hs
  obtain ⟨v, hv, hx⟩ := delivers_ascii h hs (by
    rw [byteLen_ascii h]
    simp only [List.mem_cons, List.not_mem_nil, or_false, forall_eq_or_imp, forall_eq]
    exact ⟨Nat.min_le_right _ _, Nat.min_le_right _ _⟩)
  rw [hx]
  obtain ⟨a, m, b, hsec, rfl⟩ := hv
  rw [byteLen_ascii h] at hsec
  obtain ⟨rfl, -, rfl⟩ := section_ascii h hsec
  unfold stopAt clamped
  show Except.ok (strValue (cs.take (min (p.toInt - 1).toNat cs.length) ++ ts ++
    cs.drop (min (min (p.toInt - 1).toNat cs.length + l.toInt.toNat) cs.length))) = _
  rw [take_min, drop_min]
  rcases Nat.le_total (p.toInt - 1).toNat cs.length with hle | hle
  · rw [Nat.min_eq_left hle]
  · -- behind the end there is nothing either way
    rw [Nat.min_eq_right hle, List.drop_eq_nil_of_le (Nat.le_add_right _ _),
      List.drop_eq_nil_of_le (by omega)]

/-! ## Searching -/

omit [F64Ops] in
/-- The needle is the section of its length at `k`. -/
theorem occursBehind_iff {needle hay : List Char} (hne : needle ≠ []) {k : Nat} :
    (∃ a, OccursBehind needle hay a ∧ a.length = k) ↔
      (hay.drop k).take needle.length = needle := by
  constructor
  · rintro ⟨a, ⟨b, rfl⟩, rfl⟩
    rw [List.append_assoc, List.drop_left, List.take_left]
  · intro hmid
    have hk : k ≤ hay.length := by
      by_contra hlt
      rw [List.drop_eq_nil_of_le (by omega), List.take_nil] at hmid
      exact hne hmid.symm
    refine ⟨hay.take k, ⟨(hay.drop k).drop needle.length, ?_⟩, ?_⟩
    · conv_lhs => rw [← List.take_append_drop k hay,
        ← List.take_append_drop needle.length (hay.drop k), hmid]
      rw [List.append_assoc]
    · rw [List.length_take]
      omega

omit [F64Ops] in
theorem toInt_sub {a b : Int64} (h : -9223372036854775808 ≤ a.toInt - b.toInt)
    (h' : a.toInt - b.toInt < 9223372036854775808) : (a - b).toInt = a.toInt - b.toInt := by
  rw [Int64.toInt_sub, Int.bmod_eq_of_le (by omega) (by omega)]

omit [F64Ops] in
theorem toInt_add {a b : Int64} (h : -9223372036854775808 ≤ a.toInt + b.toInt)
    (h' : a.toInt + b.toInt < 9223372036854775808) : (a + b).toInt = a.toInt + b.toInt := by
  rw [Int64.toInt_add, Int.bmod_eq_of_le (by omega) (by omega)]

omit [F64Ops] in
theorem AsciiText.len (s : AsciiText) : stringLenOf s.value = .int (Int64.ofNat s.size) := by
  unfold stringLenOf AsciiText.value AsciiText.size
  rw [regStr_strValue, byteLen_ascii s.ascii]

omit [F64Ops] in
theorem AsciiText.toInt_size (s : AsciiText) : (Int64.ofNat s.size).toInt = s.size :=
  Int64.toInt_ofNat_of_lt s.fits

/-! ## The laws -/

/-- `RIGHT(s, LEN(s) - p + 1)` -/
def rightFromOf (s p : Value) : Except Panic Value := do
  let m ← subValues (stringLenOf s) p
  let m ← addValues m (.int 1)
  stringRightOf s m

/-- What relates the functions on two strings, at all positions. -/
structure StringAlgebra (s t : Value) : Prop where
  /-- `CONCAT(LEFT(s, n), RIGHT(s, LEN(s) - n)) = s` -/
  concat_left_right : ∀ n : Int64, 0 ≤ n.toInt → n.toInt ≤ (stringLenOf s).asInt.toInt →
    (do
      let a ← stringLeftOf s (.int n)
      let m ← subValues (stringLenOf s) (.int n)
      let b ← stringRightOf s m
      return stringConcatOf a b) = .ok s
  /-- `REPLACE(s, t, l, p) = INSERT(DELETE(s, l, p), t, p - 1)` -/
  replace_eq : ∀ l p : Int64, 0 ≤ l.toInt → 1 ≤ p.toInt →
    p.toInt ≤ (stringLenOf s).asInt.toInt →
    ∃ v, stringReplaceOf s t (.int l) (.int p) = .ok v ∧
      (do
        let d ← stringDeleteOf s (.int l) (.int p)
        let q ← subValues (.int p) (.int 1)
        stringInsertOf d t q) = .ok v
  /-- `MID(s, l, p) = LEFT(RIGHT(s, LEN(s) - p + 1), l)` -/
  mid_eq : ∀ l p : Int64, 0 ≤ l.toInt → 1 ≤ p.toInt →
    p.toInt ≤ (stringLenOf s).asInt.toInt →
    ∃ v, stringMidOf s (.int l) (.int p) = .ok v ∧
      (do
        let r ← rightFromOf s (.int p)
        stringLeftOf r (.int l)) = .ok v
  /-- `CONCAT(LEFT(s, p - 1), CONCAT(MID(s, l, p), RIGHT(d, LEN(d) - p + 1))) = s`
  where `d = DELETE(s, l, p)` -/
  concat_mid_delete : ∀ l p : Int64, 0 ≤ l.toInt → 1 ≤ p.toInt →
    p.toInt ≤ (stringLenOf s).asInt.toInt →
    (do
      let q ← subValues (.int p) (.int 1)
      let a ← stringLeftOf s q
      let m ← stringMidOf s (.int l) (.int p)
      let d ← stringDeleteOf s (.int l) (.int p)
      let b ← rightFromOf d (.int p)
      return stringConcatOf a (stringConcatOf m b)) = .ok s
  /-- `FIND(s, t)` is the first position at which `MID` is `t`. -/
  find_iff : ∀ p : Int64, stringFindOf s t = .int p ∧ 0 < p.toInt ↔
    t ≠ strValue [] ∧ stringMidOf s (stringLenOf t) (.int p) = .ok t ∧
      ∀ q : Int64, q.toInt < p.toInt → stringMidOf s (stringLenOf t) (.int q) ≠ .ok t

section

variable (s t : AsciiText)

theorem concat_left_right_ascii {n : Int64} (h0 : 0 ≤ n.toInt) (hn : n.toInt ≤ s.size) :
    (do
      let a ← stringLeftOf s.value (.int n)
      let m ← subValues (stringLenOf s.value) (.int n)
      let b ← stringRightOf s.value m
      return stringConcatOf a b) = .ok s.value := by
  have hsize := s.toInt_size
  have hfits := s.fits
  have hm : (Int64.ofNat s.size - n).toInt = s.size - n.toInt := by
    rw [toInt_sub (by omega) (by unfold AsciiText.size at *; omega), hsize]
  have hcut : s.chars.length - (Int64.ofNat s.size - n).toInt.toNat = n.toInt.toNat := by
    rw [hm]
    unfold AsciiText.size at *
    omega
  have hr := right_ascii s.ascii (Int64.ofNat s.size - n)
  rw [hcut] at hr
  rw [s.len]
  show (do
    let a ← stringLeftOf (strValue s.chars) (.int n)
    let b ← stringRightOf (strValue s.chars) (.int (Int64.ofNat s.size - n))
    return stringConcatOf a b) = _
  rw [left_ascii s.ascii, hr]
  show Except.ok (stringConcatOf _ _) = _
  unfold stringConcatOf
  rw [regStr_strValue, regStr_strValue, List.take_append_drop]
  rfl

/-- `RIGHT(s, LEN(s) - p + 1)` is the rest from position `p` on. -/
theorem right_from {p : Int64} (h1 : 1 ≤ p.toInt) (hp : p.toInt ≤ s.size + 1) :
    rightFromOf s.value (.int p) = .ok (strValue (s.chars.drop (p.toInt - 1).toNat)) := by
  have hsize := s.toInt_size
  have hlt : (s.size : Int) < 9223372036854775808 := Int.ofNat_lt.mpr s.fits
  have hm : (Int64.ofNat s.size - p).toInt = s.size - p.toInt := by
    rw [toInt_sub (by omega) (by omega), hsize]
  have hm1 : (Int64.ofNat s.size - p + 1).toInt = s.size - p.toInt + 1 := by
    have h1' : (1 : Int64).toInt = 1 := by decide
    rw [toInt_add (by omega) (by omega), hm, h1']
  have hcut : s.chars.length - (Int64.ofNat s.size - p + 1).toInt.toNat =
      (p.toInt - 1).toNat := by
    rw [hm1]
    show s.size - _ = _
    omega
  have hr := right_ascii s.ascii (Int64.ofNat s.size - p + 1)
  rw [hcut] at hr
  unfold rightFromOf
  rw [s.len]
  exact hr

/-- What is left of a string when `k` characters behind the first `i` are
taken out. -/
def AsciiText.without (s : AsciiText) (i k : Nat) : AsciiText where
  chars := s.chars.take i ++ s.chars.drop (i + k)
  ascii := by
    intro c hc
    rcases List.mem_append.mp hc with hc | hc
    · exact s.ascii c (List.mem_of_mem_take hc)
    · exact s.ascii c (List.mem_of_mem_drop hc)
  fits := by
    have hfits := s.fits
    rw [List.length_append, List.length_take, List.length_drop]
    omega

theorem delete_without {l p : Int64} (h1 : 1 ≤ p.toInt) :
    stringDeleteOf s.value (.int l) (.int p) =
      .ok (s.without (p.toInt - 1).toNat l.toInt.toNat).value :=
  delete_ascii s.ascii l h1

omit [F64Ops] in
theorem AsciiText.without_split {i k : Nat} (hi : i ≤ s.size) :
    (s.without i k).chars.take i = s.chars.take i ∧
      (s.without i k).chars.drop i = s.chars.drop (i + k) := by
  have hlen : (s.chars.take i).length = i := by
    rw [List.length_take]
    exact Nat.min_eq_left hi
  exact ⟨List.take_left' hlen, List.drop_left' hlen⟩

omit [F64Ops] in
/-- The position in front of `p`. -/
theorem toInt_pred {p : Int64} (h1 : 1 ≤ p.toInt) : (p - 1).toInt = p.toInt - 1 := by
  have hp := toInt_word p
  have h1' : (1 : Int64).toInt = 1 := by decide
  rw [toInt_sub (by omega) (by omega), h1']

theorem replace_ascii_eq {l p : Int64} (h1 : 1 ≤ p.toInt) (hp : p.toInt ≤ s.size) :
    ∃ v, stringReplaceOf s.value t.value (.int l) (.int p) = .ok v ∧
      (do
        let d ← stringDeleteOf s.value (.int l) (.int p)
        let q ← subValues (.int p) (.int 1)
        stringInsertOf d t.value q) = .ok v := by
  refine ⟨_, replace_ascii s.ascii t.chars l p, ?_⟩
  have hcut := s.without_split (i := (p.toInt - 1).toNat) (k := l.toInt.toNat) (by omega)
  have hins := insert_ascii (s.without (p.toInt - 1).toNat l.toInt.toNat).ascii t.chars (p - 1)
  rw [toInt_pred h1, hcut.1, hcut.2] at hins
  rw [delete_without s h1]
  exact hins

theorem mid_ascii_eq {l p : Int64} (h1 : 1 ≤ p.toInt) (hp : p.toInt ≤ s.size) :
    ∃ v, stringMidOf s.value (.int l) (.int p) = .ok v ∧
      (do
        let r ← rightFromOf s.value (.int p)
        stringLeftOf r (.int l)) = .ok v := by
  refine ⟨_, mid_ascii s.ascii l p, ?_⟩
  have hascii : ∀ c ∈ s.chars.drop (p.toInt - 1).toNat, c.toNat < 128 :=
    fun c hc => s.ascii c (List.mem_of_mem_drop hc)
  rw [right_from s h1 (by omega), if_neg (by omega)]
  exact left_ascii hascii l

theorem concat_mid_delete_ascii {l p : Int64} (h1 : 1 ≤ p.toInt) (hp : p.toInt ≤ s.size) :
    (do
      let q ← subValues (.int p) (.int 1)
      let a ← stringLeftOf s.value q
      let m ← stringMidOf s.value (.int l) (.int p)
      let d ← stringDeleteOf s.value (.int l) (.int p)
      let b ← rightFromOf d (.int p)
      return stringConcatOf a (stringConcatOf m b)) = .ok s.value := by
  have hcut := s.without_split (i := (p.toInt - 1).toNat) (k := l.toInt.toNat) (by omega)
  have hd : p.toInt ≤ (s.without (p.toInt - 1).toNat l.toInt.toNat).size + 1 := by
    have hlen : (p.toInt - 1).toNat ≤ (s.chars.take (p.toInt - 1).toNat ++
        s.chars.drop ((p.toInt - 1).toNat + l.toInt.toNat)).length := by
      rw [List.length_append, List.length_take]
      show _ ≤ min _ s.size + _
      omega
    show _ ≤ (((s.chars.take _ ++ s.chars.drop _).length : Nat) : Int) + 1
    omega
  have hright := right_from _ h1 hd
  have hq : subValues (.int p) (.int 1) = .ok (.int (p - 1)) := rfl
  have hl : stringLeftOf s.value _ = _ := left_ascii s.ascii (p - 1)
  have hm : stringMidOf s.value _ _ = _ := mid_ascii s.ascii l p
  rw [toInt_pred h1] at hl
  rw [if_neg (by omega)] at hm
  rw [hcut.2] at hright
  have hconcat : stringConcatOf (strValue (s.chars.take (p.toInt - 1).toNat))
      (stringConcatOf (strValue ((s.chars.drop (p.toInt - 1).toNat).take l.toInt.toNat))
        (strValue (s.chars.drop ((p.toInt - 1).toNat + l.toInt.toNat)))) = s.value := by
    unfold stringConcatOf
    rw [regStr_strValue, regStr_strValue, regStr_strValue, regStr_strValue,
      ← List.drop_drop, List.take_append_drop, List.take_append_drop]
    rfl
  simp only [hq, hl, hm, delete_without s h1, hright, hconcat, bind, Except.bind, pure,
    Except.pure]

/-- `MID(s, LEN(t), p)` is `t` where `t` occurs behind `p - 1` characters. -/
theorem mid_is_needle (hne : t.chars ≠ []) (p : Int64) :
    stringMidOf s.value (stringLenOf t.value) (.int p) = .ok t.value ↔
      1 ≤ p.toInt ∧ ∃ a, OccursBehind t.chars s.chars a ∧ a.length = (p.toInt - 1).toNat := by
  have hsize : (Int64.ofNat t.size).toInt.toNat = t.chars.length := by
    rw [t.toInt_size]
    rfl
  rw [t.len, occursBehind_iff hne]
  have hm := mid_ascii s.ascii (Int64.ofNat t.size) p
  rw [hsize] at hm
  rw [show stringMidOf s.value _ _ = _ from hm, Except.ok.injEq]
  by_cases h1 : p.toInt < 1
  · rw [if_pos h1]
    constructor
    · intro h
      exact absurd (strValue_inj h).symm hne
    · intro h
      omega
  · rw [if_neg h1]
    constructor
    · intro h
      exact ⟨by omega, strValue_inj h⟩
    · intro h
      rw [h.2]
      rfl

omit [F64Ops] in
/-- `FIND` is one more than the length of what is in front of the first
occurrence. -/
theorem find_ascii (hne : t.chars ≠ []) :
    (stringFindOf s.value t.value = .int 0 ∧ ∀ a, ¬ OccursBehind t.chars s.chars a) ∨
    ∃ k : Nat, stringFindOf s.value t.value = .int (Int64.ofNat (k + 1)) ∧ k < s.size ∧
      (∃ a, OccursBehind t.chars s.chars a ∧ a.length = k) ∧
      ∀ a, OccursBehind t.chars s.chars a → k ≤ a.length := by
  have hbytes : ∀ {a}, OccursBehind t.chars s.chars a → byteLen a = a.length := by
    intro a ⟨b, hb⟩
    exact byteLen_ascii fun c hc => s.ascii c (by rw [hb]; simp [hc])
  have hfalse : (regStr t.value).isEmpty = false := by
    rw [AsciiText.value, regStr_strValue]
    simpa using hne
  have hfind : stringFindOf s.value t.value =
      (findSub t.chars s.chars).elim (.int 0) fun i => .int (Int64.ofNat (i + 1)) := by
    unfold stringFindOf
    rw [hfalse, AsciiText.value, AsciiText.value, regStr_strValue, regStr_strValue]
    cases findSub t.chars s.chars <;> rfl
  rw [hfind]
  cases hsub : findSub t.chars s.chars with
  | none => exact .inl ⟨rfl, findSub_none hsub⟩
  | some i =>
    obtain ⟨a, ha, rfl, hmin⟩ := findSub_some hsub
    refine .inr ⟨byteLen a, rfl, ?_, ⟨a, ha, (hbytes ha).symm⟩, fun a' ha' => ?_⟩
    · obtain ⟨b, hb⟩ := ha
      have hpos := List.length_pos_of_ne_nil hne
      rw [hbytes ⟨b, hb⟩, AsciiText.size, hb, List.length_append, List.length_append]
      omega
    · rw [← hbytes ha']
      exact hmin a' ha'

theorem find_iff_ascii (p : Int64) :
    stringFindOf s.value t.value = .int p ∧ 0 < p.toInt ↔
      t.value ≠ strValue [] ∧
        stringMidOf s.value (stringLenOf t.value) (.int p) = .ok t.value ∧
        ∀ q : Int64, q.toInt < p.toInt →
          stringMidOf s.value (stringLenOf t.value) (.int q) ≠ .ok t.value := by
  by_cases hne : t.chars = []
  · -- nothing is looked for
    have hzero : stringFindOf s.value t.value = .int 0 := by
      unfold stringFindOf AsciiText.value
      rw [regStr_strValue, hne]
      rfl
    have hvalue : t.value = strValue [] := by rw [AsciiText.value, hne]
    rw [hzero]
    constructor
    · intro h
      obtain ⟨he, hpos⟩ := h
      cases he
      exact absurd hpos (by decide)
    · intro h
      exact absurd hvalue h.1
  · have hvalue : t.value ≠ strValue [] := fun h => hne (strValue_inj h)
    have hfits := s.fits
    rw [mid_is_needle s t hne]
    rcases find_ascii s t hne with ⟨hzero, hno⟩ | ⟨k, hk, hlt, hat, hmin⟩
    · rw [hzero]
      constructor
      · intro h
        obtain ⟨he, hpos⟩ := h
        cases he
        exact absurd hpos (by decide)
      · intro h
        obtain ⟨-, ⟨-, a, ha, -⟩, -⟩ := h
        exact absurd ha (hno a)
    · have hk1 : (Int64.ofNat (k + 1)).toInt = k + 1 :=
        Int64.toInt_ofNat_of_lt (by unfold AsciiText.size at hlt; omega)
      rw [hk]
      constructor
      · intro h
        obtain ⟨he, hpos⟩ := h
        cases he
        have hkeq : ((Int64.ofNat (k + 1)).toInt - 1).toNat = k := by omega
        refine ⟨hvalue, ⟨by omega, by rwa [hkeq]⟩, fun q hq hmid => ?_⟩
        obtain ⟨hq1, a, ha, hlen⟩ := (mid_is_needle s t hne q).mp hmid
        have := hmin a ha
        omega
      · intro h
        obtain ⟨-, ⟨hp1, a, ha, hlen⟩, hfirst⟩ := h
        have hle := hmin a ha
        -- an earlier occurrence would be an earlier position
        have heq : p.toInt = k + 1 := by
          by_contra hneq
          apply hfirst (Int64.ofNat (k + 1)) (by omega)
          apply (mid_is_needle s t hne _).mpr
          have hkeq : ((Int64.ofNat (k + 1)).toInt - 1).toNat = k := by omega
          exact ⟨by omega, by rwa [hkeq]⟩
        have hp : Int64.ofNat (k + 1) = p := Int64.toInt_inj.mp (by omega)
        exact ⟨by rw [hp], by omega⟩

/-- **The string functions keep their algebra on ASCII strings.** -/
theorem string_algebra : StringAlgebra s.value t.value := by
  have hlen : (stringLenOf s.value).asInt.toInt = s.size := by
    rw [s.len]
    exact s.toInt_size
  refine ⟨?_, ?_, ?_, ?_, find_iff_ascii s t⟩
  · intro n h0 hn
    exact concat_left_right_ascii s h0 (hlen ▸ hn)
  · intro l p _ h1 hp
    exact replace_ascii_eq s t h1 (hlen ▸ hp)
  · intro l p _ h1 hp
    exact mid_ascii_eq s h1 (hlen ▸ hp)
  · intro l p _ h1 hp
    exact concat_mid_delete_ascii s h1 (hlen ▸ hp)

end

end

end RustPlc.Engine
