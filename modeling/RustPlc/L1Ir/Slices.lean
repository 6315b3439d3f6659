import RustPlc.L1Ir.Ops

/-!
# Slices of a text

`&s[..n]` and `&s[n..]` count bytes and panic where `n` is inside a
character (`splitAtByte`). A text is a list of characters here, so a position
is where the text falls into two lists, the first of which is that long.

Results
* `splitAtByte_iff`: a split succeeds exactly at such a position.
* `findSub_some`, `findSub_none`: `str::find` finds the first occurrence.
-/
namespace RustPlc.Ir

@[simp] theorem byteLen_nil : byteLen [] = 0 := rfl

@[simp] theorem byteLen_cons (c : Char) (cs : List Char) :
    byteLen (c :: cs) = c.utf8Size + byteLen cs := by
  simp only [byteLen, List.map_cons, List.sum_cons]

@[simp] theorem byteLen_append (as bs : List Char) :
    byteLen (as ++ bs) = byteLen as + byteLen bs := by
  simp only [byteLen, List.map_append, List.sum_append]

theorem byteLen_eq_zero {cs : List Char} (h : byteLen cs = 0) : cs = [] := by
  cases cs with
  | nil => rfl
  | cons c cs =>
    have := c.utf8Size_pos
    rw [byteLen_cons] at h
    omega

/-- The text falls into `a` and `b` behind `n` bytes. -/
structure SplitsAt (cs : List Char) (n : Nat) (a b : List Char) : Prop where
  text : cs = a ++ b
  length : byteLen a = n

/-- `n` is between two characters, or at an end. -/
def IsBoundary (cs : List Char) (n : Nat) : Prop := ∃ a b, SplitsAt cs n a b

theorem splitAtByte_append (front back : List Char) :
    splitAtByte (front ++ back) (byteLen front) = .ok (front, back) := by
  induction front with
  | nil =>
    cases back <;> rfl
  | cons c front ih =>
    have hpos := c.utf8Size_pos
    have hlen : byteLen (c :: front) = byteLen front + (c.utf8Size - 1) + 1 := by
      rw [byteLen_cons]
      omega
    have hrest : byteLen front + (c.utf8Size - 1) + 1 - c.utf8Size = byteLen front := by omega
    rw [hlen, List.cons_append, splitAtByte, if_pos (by omega), hrest, ih]
    rfl

/-- A split has the parts of the text at a boundary, or it panics. -/
theorem splitAtByte_cases (cs : List Char) (n : Nat) :
    (∃ a b, SplitsAt cs n a b ∧ splitAtByte cs n = .ok (a, b)) ∨
    (¬ IsBoundary cs n ∧ splitAtByte cs n = .error .strSlice) := by
  induction cs generalizing n with
  | nil =>
    cases n with
    | zero => exact .inl ⟨[], [], ⟨rfl, rfl⟩, rfl⟩
    | succ n =>
      refine .inr ⟨fun ⟨a, b, h⟩ => ?_, rfl⟩
      obtain ⟨rfl, -⟩ := List.append_eq_nil_iff.mp h.text.symm
      have := h.length
      rw [byteLen_nil] at this
      omega
  | cons c cs ih =>
    cases n with
    | zero => exact .inl ⟨[], c :: cs, ⟨rfl, rfl⟩, rfl⟩
    | succ n =>
      have hpos := c.utf8Size_pos
      -- a boundary of the rest is one of the text, `c` further on
      have hiff : IsBoundary (c :: cs) (n + 1) ↔
          c.utf8Size ≤ n + 1 ∧ IsBoundary cs (n + 1 - c.utf8Size) := by
        constructor
        · rintro ⟨a, b, h⟩
          cases a with
          | nil =>
            have := h.length
            rw [byteLen_nil] at this
            omega
          | cons d a =>
            have ht := h.text
            have hl := h.length
            rw [List.cons_append, List.cons.injEq] at ht
            obtain ⟨rfl, ht⟩ := ht
            rw [byteLen_cons] at hl
            exact ⟨by omega, a, b, ht, by omega⟩
        · rintro ⟨hle, a, b, h⟩
          refine ⟨c :: a, b, by rw [h.text, List.cons_append], ?_⟩
          rw [byteLen_cons, h.length]
          omega
      rw [splitAtByte, hiff]
      by_cases hle : c.utf8Size ≤ n + 1
      · rw [if_pos hle]
        rcases ih (n + 1 - c.utf8Size) with ⟨a, b, h, he⟩ | ⟨hno, he⟩
        · refine .inl ⟨c :: a, b, ⟨by rw [h.text, List.cons_append], ?_⟩, by rw [he]; rfl⟩
          rw [byteLen_cons, h.length]
          omega
        · exact .inr ⟨fun h => hno h.2, by rw [he]; rfl⟩
      · exact .inr ⟨fun h => hle h.1, if_neg hle⟩

theorem splitAtByte_iff {cs a b : List Char} {n : Nat} :
    splitAtByte cs n = .ok (a, b) ↔ SplitsAt cs n a b := by
  constructor
  · intro h
    rcases splitAtByte_cases cs n with ⟨a', b', hs, he⟩ | ⟨-, he⟩
    · rw [he, Except.ok.injEq, Prod.mk.injEq] at h
      obtain ⟨rfl, rfl⟩ := h
      exact hs
    · rw [he] at h
      cases h
  · rintro ⟨rfl, rfl⟩
    exact splitAtByte_append a b

/-- The text falls into `a`, `mid` and `b`; `mid` is from `i` to `j`. -/
structure SectionAt (cs : List Char) (i j : Nat) (a mid b : List Char) : Prop where
  text : cs = a ++ mid ++ b
  start : byteLen a = i
  stop : i + byteLen mid = j

/-- Two boundaries have a section between them. -/
theorem IsBoundary.between {cs : List Char} {i j : Nat} (hi : IsBoundary cs i)
    (hj : IsBoundary cs j) (hle : i ≤ j) : ∃ a mid b, SectionAt cs i j a mid b := by
  obtain ⟨a, r, h1⟩ := hi
  obtain ⟨l, b, h2⟩ := hj
  have htext : a ++ r = l ++ b := h1.text.symm.trans h2.text
  have hla := h1.length
  have hll := h2.length
  rcases List.append_eq_append_iff.mp htext with ⟨mid, rfl, rfl⟩ | ⟨mid, rfl, rfl⟩
  · rw [byteLen_append] at hll
    exact ⟨a, mid, b, by rw [h1.text, List.append_assoc], hla, by omega⟩
  · -- the cuts are at one place
    rw [byteLen_append] at hla
    obtain rfl := byteLen_eq_zero (show byteLen mid = 0 by omega)
    exact ⟨l, [], r, by simpa using h2.text, by simp at hla; omega, by simp; omega⟩

theorem SectionAt.splits {cs a mid b : List Char} {i j : Nat} (h : SectionAt cs i j a mid b) :
    SplitsAt cs i a (mid ++ b) ∧ SplitsAt cs j (a ++ mid) b := by
  refine ⟨⟨by rw [h.text, List.append_assoc], h.start⟩, h.text, ?_⟩
  rw [byteLen_append, h.start, h.stop]

theorem SectionAt.of_rest {cs a r mid b : List Char} {i j : Nat} (h : SplitsAt cs i a r)
    (hr : SplitsAt r (j - i) mid b) (hle : i ≤ j) : SectionAt cs i j a mid b := by
  refine ⟨by rw [h.text, hr.text, List.append_assoc], h.length, ?_⟩
  rw [hr.length]
  omega

theorem SectionAt.rest {cs a mid b : List Char} {i j : Nat} (h : SectionAt cs i j a mid b) :
    SplitsAt (mid ++ b) (j - i) mid b := by
  have := h.stop
  exact ⟨rfl, by omega⟩

/-! ## Searching -/

theorem isPrefixOf_iff {as bs : List Char} : as.isPrefixOf bs = true ↔ ∃ cs, bs = as ++ cs := by
  rw [List.isPrefixOf_iff_prefix]
  exact ⟨fun ⟨cs, h⟩ => ⟨cs, h.symm⟩, fun ⟨cs, h⟩ => ⟨cs, h.symm⟩⟩

/-- The needle occurs behind `a`. -/
def OccursBehind (needle hay a : List Char) : Prop := ∃ b, hay = a ++ needle ++ b

theorem occursBehind_cons {needle hay a : List Char} {c : Char} :
    OccursBehind needle (c :: hay) (c :: a) ↔ OccursBehind needle hay a := by
  simp [OccursBehind]

/-- `str::find` on a text: the length of what is in front of the first
occurrence. -/
theorem findSub_some {needle : List Char} : ∀ {hay : List Char} {i : Nat},
    findSub needle hay = some i → ∃ a, OccursBehind needle hay a ∧ byteLen a = i ∧
      ∀ a', OccursBehind needle hay a' → i ≤ byteLen a'
  | [], i, h => by
    unfold findSub at h
    split at h
    · rename_i hn
      obtain rfl : needle = [] := List.isEmpty_iff.mp hn
      cases h
      exact ⟨[], ⟨[], rfl⟩, rfl, fun _ _ => Nat.zero_le _⟩
    · cases h
  | c :: hay, i, h => by
    unfold findSub at h
    split at h
    · rename_i hp
      cases h
      obtain ⟨b, hb⟩ := isPrefixOf_iff.mp hp
      exact ⟨[], ⟨b, hb⟩, rfl, fun _ _ => Nat.zero_le _⟩
    · rename_i hp
      obtain ⟨j, hj, rfl⟩ := Option.map_eq_some_iff.mp h
      obtain ⟨a, ha, rfl, hmin⟩ := findSub_some hj
      refine ⟨c :: a, occursBehind_cons.mpr ha, by rw [byteLen_cons]; omega, fun a' ha' => ?_⟩
      cases a' with
      | nil =>
        obtain ⟨b, hb⟩ := ha'
        exact absurd (isPrefixOf_iff.mpr ⟨b, hb⟩) hp
      | cons d a' =>
        obtain ⟨b, hb⟩ := ha'
        rw [List.cons_append, List.cons_append, List.cons.injEq] at hb
        obtain ⟨rfl, hb⟩ := hb
        have := hmin a' ⟨b, hb⟩
        rw [byteLen_cons]
        omega

theorem findSub_none {needle : List Char} : ∀ {hay : List Char},
    findSub needle hay = none → ∀ a, ¬ OccursBehind needle hay a
  | [], h, a, ⟨b, hb⟩ => by
    unfold findSub at h
    have hnil : needle = [] := by
      have := List.append_eq_nil_iff.mp hb.symm
      exact (List.append_eq_nil_iff.mp this.1).2
    simp [hnil] at h
  | c :: hay, h, a, ⟨b, hb⟩ => by
    unfold findSub at h
    split at h
    · cases h
    · rename_i hp
      cases a with
      | nil => exact absurd (isPrefixOf_iff.mpr ⟨b, hb⟩) hp
      | cons d a =>
        rw [List.cons_append, List.cons_append, List.cons.injEq] at hb
        obtain ⟨rfl, hb⟩ := hb
        exact findSub_none (Option.map_eq_none_iff.mp h) a ⟨b, hb⟩

end RustPlc.Ir
