import Mathlib.Computability.Language

/-!
# Terminators of two characters

A text that is closed by a mark `a` and a closer `b`, as the body of a comment
is by `*` and `)`. It ends at the first terminator; a scanner that takes a
mark together with the character behind it may pass over that one.

`terminators` lists the terminators of a text, each with the length of the run
of marks it ends and the text behind it. Both ways to end a text are read off
this list: the first terminator, and the first one whose run is odd.

Results
* `firstTerminated_iff`: the texts that end at their first terminator.
* `pairScanned_iff`: the texts that the scanner of pairs takes.
-/
namespace RustPlc.Core.Terminators

variable {α : Type} {a b c d : α} {t u r : List α}

/-! ## Two languages -/

/-- One character of a class. -/
def oneOf (p : α → Prop) : Language α := {w | ∃ c, p c ∧ w = [c]}

/-- The texts with a terminator at their end and nowhere before. -/
def firstTerminated (a b : α) : Language α :=
  {u | (∃ v, u = v ++ [a, b]) ∧ ∀ v w, u = v ++ a :: b :: w → w = []}

/-- A mark with the character behind it, unless that is the closer, or any
character but the mark. -/
def pairOrPlain (a b : α) : Language α := {[a]} * oneOf (· ≠ b) + oneOf (· ≠ a)

/-- The texts in which pairs and plain characters are taken up to a terminator. -/
def pairScanned (a b : α) : Language α := KStar.kstar (pairOrPlain a b) * {[a, b]}

/-- The rest of a text that ends at its first terminator, where `p` says that a
mark stands before it. -/
def FirstFrom (a b : α) (p : Prop) (u : List α) : Prop :=
  p ∧ u = [b] ∨ u ∈ firstTerminated a b ∧ ¬(p ∧ ∃ w, u = b :: w)

theorem nil_firstTerminated : [] ∉ firstTerminated a b := by
  rintro ⟨⟨v, hv⟩, -⟩
  simp at hv

theorem cons_firstTerminated : c :: u ∈ firstTerminated a b ↔ FirstFrom a b (c = a) u := by
  constructor
  · rintro ⟨⟨v, hv⟩, hfirst⟩
    by_cases hstart : c = a ∧ ∃ w, u = b :: w
    · obtain ⟨rfl, w, rfl⟩ := hstart
      exact .inl ⟨rfl, by rw [hfirst [] w rfl]⟩
    · right
      refine ⟨⟨?_, fun v w hu => hfirst (c :: v) w (by rw [hu]; rfl)⟩, hstart⟩
      cases v with
      | nil =>
        obtain ⟨rfl, rfl⟩ := List.cons.inj hv
        exact absurd ⟨rfl, [], rfl⟩ hstart
      | cons x v => exact ⟨v, (List.cons.inj hv).2⟩
  · rintro (⟨rfl, rfl⟩ | ⟨⟨⟨v, hv⟩, hfirst⟩, hstart⟩)
    · refine ⟨⟨[], rfl⟩, fun v w h => ?_⟩
      have hlen := congrArg List.length h
      simp only [List.length_cons, List.length_nil, List.length_append] at hlen
      exact List.length_eq_zero_iff.mp (by omega)
    · refine ⟨⟨c :: v, by rw [hv]; rfl⟩, fun v w h => ?_⟩
      cases v with
      | nil =>
        obtain ⟨rfl, rfl⟩ := List.cons.inj h
        exact absurd ⟨rfl, w, rfl⟩ hstart
      | cons x v => exact hfirst v w (List.cons.inj h).2

theorem firstFrom_nil {p : Prop} : ¬ FirstFrom a b p [] := by
  simp [FirstFrom, nil_firstTerminated]

theorem firstFrom_end {p : Prop} (hp : p) : FirstFrom a b p (b :: u) ↔ u = [] := by
  simp [FirstFrom, hp]

theorem firstFrom_cons {p : Prop} (h : ¬(p ∧ c = b)) :
    FirstFrom a b p (c :: u) ↔ FirstFrom a b (c = a) u := by
  rw [← cons_firstTerminated]
  constructor
  · rintro (⟨hp, hu⟩ | ⟨hu, -⟩)
    · exact absurd ⟨hp, (List.cons.inj hu).1⟩ h
    · exact hu
  · intro hu
    refine .inr ⟨hu, ?_⟩
    rintro ⟨hp, w, hw⟩
    exact h ⟨hp, (List.cons.inj hw).1⟩

theorem mem_pairOrPlain_mul {L : Language α} : u ∈ pairOrPlain a b * L ↔
    (∃ c v, c ≠ b ∧ u = a :: c :: v ∧ v ∈ L) ∨ ∃ c v, c ≠ a ∧ u = c :: v ∧ v ∈ L := by
  rw [pairOrPlain, add_mul, mul_assoc, Language.mem_add]
  simp only [Language.mem_mul, oneOf]
  constructor
  · rintro (⟨_, rfl, _, ⟨_, ⟨c, hc, rfl⟩, v, hv, rfl⟩, rfl⟩ | ⟨_, ⟨c, hc, rfl⟩, v, hv, rfl⟩)
    · exact .inl ⟨c, v, hc, rfl, hv⟩
    · exact .inr ⟨c, v, hc, rfl, hv⟩
  · rintro (⟨c, v, hc, rfl, hv⟩ | ⟨c, v, hc, rfl, hv⟩)
    · exact .inl ⟨[a], rfl, c :: v, ⟨[c], ⟨c, hc, rfl⟩, v, hv, rfl⟩, rfl⟩
    · exact .inr ⟨[c], ⟨c, hc, rfl⟩, v, hv, rfl⟩

theorem mem_pairScanned : u ∈ pairScanned a b ↔ u = [a, b] ∨
    (∃ c v, c ≠ b ∧ u = a :: c :: v ∧ v ∈ pairScanned a b) ∨
      ∃ c v, c ≠ a ∧ u = c :: v ∧ v ∈ pairScanned a b := by
  have h : pairScanned a b = {[a, b]} + pairOrPlain a b * pairScanned a b := by
    conv_lhs => rw [pairScanned, ← Language.one_add_self_mul_kstar_eq_kstar, add_mul, one_mul,
      mul_assoc]
    rfl
  rw [← mem_pairOrPlain_mul]
  conv_lhs => rw [h, Language.mem_add]
  rfl

/-- The rest of a scanned text, where `p` says that a mark waits for its
second character. -/
def PairFrom (a b : α) (p : Prop) (u : List α) : Prop :=
  p ∧ a :: u ∈ pairScanned a b ∨ ¬ p ∧ u ∈ pairScanned a b

theorem pairFrom_nil {p : Prop} : ¬ PairFrom a b p [] := by
  rw [PairFrom, mem_pairScanned, mem_pairScanned]
  simp

theorem pairFrom_end {p : Prop} (hp : p) : PairFrom a b p (b :: u) ↔ u = [] := by
  rw [PairFrom, mem_pairScanned]
  simp [hp]

theorem pairFrom_second {p : Prop} (hp : p) (hc : c ≠ b) :
    PairFrom a b p (c :: u) ↔ PairFrom a b False u := by
  rw [PairFrom, PairFrom, mem_pairScanned]
  simp [hp, hc]

theorem pairFrom_mark {p : Prop} (hp : ¬ p) :
    PairFrom a b p (a :: u) ↔ PairFrom a b True u := by
  simp [PairFrom, hp]

theorem pairFrom_plain {p : Prop} (hp : ¬ p) (hc : c ≠ a) :
    PairFrom a b p (c :: u) ↔ PairFrom a b False u := by
  rw [PairFrom, PairFrom, mem_pairScanned (u := c :: u)]
  simp [hp, hc]

/-! ## The terminators of a text -/

variable [DecidableEq α]

/-- The terminators of a text behind `n` marks: the length of the run of marks
that each one ends, and the text behind it. -/
def terminators (a b : α) : Nat → List α → List (Nat × List α)
  | _, [] => []
  | n, c :: rest =>
    if c = a then terminators a b (n + 1) rest
    else if c = b ∧ n ≠ 0 then (n, rest) :: terminators a b 0 rest
    else terminators a b 0 rest

section

variable {n : Nat}

theorem terminators_mark : terminators a b n (a :: t) = terminators a b (n + 1) t := by
  simp [terminators]

theorem terminators_end (hab : a ≠ b) (hn : n ≠ 0) :
    terminators a b n (b :: t) = (n, t) :: terminators a b 0 t := by
  simp [terminators, hab.symm, hn]

theorem terminators_plain (hc : c ≠ a) (h : ¬(n ≠ 0 ∧ c = b)) :
    terminators a b n (c :: t) = terminators a b 0 t := by
  rw [terminators, if_neg hc, if_neg fun h' => h h'.symm]

/-- The text behind a terminator is a proper end of the text, and each one is
longer than those behind later terminators. -/
theorem terminators_shorter (t : List α) (n : Nat) :
    (∀ x ∈ terminators a b n t, x.2.length < t.length) ∧
      (terminators a b n t).Pairwise fun x y => y.2.length < x.2.length := by
  induction t generalizing n with
  | nil => simp [terminators]
  | cons c t ih =>
    have hlonger : ∀ n, ∀ x ∈ terminators a b n t, x.2.length < (c :: t).length := fun n x hx =>
      Nat.lt_succ_of_lt ((ih n).1 x hx)
    rw [terminators]
    split
    · exact ⟨hlonger _, (ih _).2⟩
    · split
      · refine ⟨fun x hx => ?_, List.pairwise_cons.mpr ⟨(ih 0).1, (ih 0).2⟩⟩
        rcases List.mem_cons.mp hx with rfl | hx
        · exact Nat.lt_succ_self _
        · exact hlonger 0 x hx
      · exact ⟨hlonger 0, (ih 0).2⟩

end

omit [DecidableEq α] in
/-- A beginning that is not empty has the first character. -/
theorem exists_cons {P : List α → Prop} (h : ¬ P []) :
    (∃ u, c :: t = u ++ r ∧ P u) ↔ ∃ u, t = u ++ r ∧ P (c :: u) := by
  constructor
  · rintro ⟨u, hu, hP⟩
    cases u with
    | nil => exact absurd hP h
    | cons x u =>
      obtain ⟨rfl, rfl⟩ := List.cons.inj hu
      exact ⟨u, rfl, hP⟩
  · rintro ⟨u, rfl, hP⟩
    exact ⟨c :: u, rfl, hP⟩

/-- A text behind `n` marks ends first at the first of its terminators. -/
theorem head_terminators (hab : a ≠ b) (t : List α) (n : Nat) :
    (terminators a b n t).head?.map (·.2) = some r ↔
      ∃ u, t = u ++ r ∧ FirstFrom a b (n ≠ 0) u := by
  induction t generalizing n with
  | nil =>
    have hnil : ∀ u, [] = u ++ r → ¬ FirstFrom a b (n ≠ 0) u := by
      intro u hu
      rw [(List.append_eq_nil_iff.mp hu.symm).1]
      exact firstFrom_nil
    simpa [terminators] using hnil
  | cons c t ih =>
    rw [exists_cons firstFrom_nil]
    by_cases hc : c = a
    · subst hc
      rw [terminators_mark, ih]
      simp [firstFrom_cons fun h : n ≠ 0 ∧ c = b => hab h.2]
    · by_cases hend : n ≠ 0 ∧ c = b
      · obtain ⟨hn, rfl⟩ := hend
        rw [terminators_end hab hn]
        simp [firstFrom_end hn, eq_comm]
      · rw [terminators_plain hc hend, ih]
        simp [firstFrom_cons hend, hc]

/-- A text behind `n` marks is scanned up to the first of its terminators
whose run is odd: the second of two marks waits for nothing. -/
theorem odd_terminators (hab : a ≠ b) (t : List α) (n : Nat) :
    ((terminators a b n t).find? fun x => x.1 % 2 = 1).map (·.2) = some r ↔
      ∃ u, t = u ++ r ∧ PairFrom a b (n % 2 = 1) u := by
  induction t generalizing n with
  | nil =>
    have hnil : ∀ u, [] = u ++ r → ¬ PairFrom a b (n % 2 = 1) u := by
      intro u hu
      rw [(List.append_eq_nil_iff.mp hu.symm).1]
      exact pairFrom_nil
    simpa [terminators] using hnil
  | cons c t ih =>
    rw [exists_cons pairFrom_nil]
    by_cases hc : c = a
    · subst hc
      rw [terminators_mark, ih]
      by_cases hodd : n % 2 = 1
      · have heven : ¬(n + 1) % 2 = 1 := by omega
        simp only [pairFrom_second hodd hab, heven]
      · have hodd' : (n + 1) % 2 = 1 := by omega
        simp only [pairFrom_mark hodd, hodd']
    · by_cases hend : n ≠ 0 ∧ c = b
      · obtain ⟨hn, rfl⟩ := hend
        rw [terminators_end hab hn, List.find?_cons]
        by_cases hodd : n % 2 = 1
        · simp only [pairFrom_end hodd]
          simp [hodd, eq_comm]
        · simp only [pairFrom_plain hodd hc]
          simp [hodd, ih]
      · rw [terminators_plain hc hend, ih]
        by_cases hodd : n % 2 = 1
        · have hcb : c ≠ b := fun h => hend ⟨by omega, h⟩
          simp [pairFrom_second hodd hcb]
        · simp [pairFrom_plain hodd hc]

/-! ## Texts without marks before them -/

/-- The text behind the first terminator. -/
def behindFirst (a b : α) (t : List α) : Option (List α) := (terminators a b 0 t).head?.map (·.2)

/-- The text behind the first terminator with an odd run of marks. -/
def behindOdd (a b : α) (t : List α) : Option (List α) :=
  ((terminators a b 0 t).find? fun x => x.1 % 2 = 1).map (·.2)

/-- The first terminator, if there is one, ends an odd run of marks. -/
def OddFirst (a b : α) (t : List α) : Prop := ∀ x ∈ (terminators a b 0 t).head?, x.1 % 2 = 1

instance (a b : α) (t : List α) : Decidable (OddFirst a b t) :=
  inferInstanceAs (Decidable (∀ x ∈ (terminators a b 0 t).head?, x.1 % 2 = 1))

theorem firstTerminated_iff (hab : a ≠ b) :
    u ∈ firstTerminated a b ↔ behindFirst a b (u ++ r) = some r := by
  rw [behindFirst, head_terminators hab]
  simp [FirstFrom]

theorem pairScanned_iff (hab : a ≠ b) :
    u ∈ pairScanned a b ↔ behindOdd a b (u ++ r) = some r := by
  rw [behindOdd, odd_terminators hab]
  simp [PairFrom]

theorem behindFirst_split (hab : a ≠ b) (h : behindFirst a b t = some r) : ∃ u, t = u ++ r :=
  ((head_terminators hab t 0).mp h).imp fun _ h => h.1

theorem behindOdd_split (hab : a ≠ b) (h : behindOdd a b t = some r) : ∃ u, t = u ++ r :=
  ((odd_terminators hab t 0).mp h).imp fun _ h => h.1

/-- The scanner stops at the first terminator exactly when that one ends an odd
run. -/
theorem behindOdd_eq_iff : behindOdd a b t = behindFirst a b t ↔ OddFirst a b t := by
  have hsorted := (terminators_shorter (a := a) (b := b) t 0).2
  unfold behindOdd behindFirst OddFirst
  cases hl : terminators a b 0 t with
  | nil => simp
  | cons x l =>
    rw [hl, List.pairwise_cons] at hsorted
    by_cases hodd : x.1 % 2 = 1
    · simp [hodd]
    · -- a later terminator leaves a shorter text
      have hlater : ∀ y ∈ l, y.2 ≠ x.2 := fun y hy h => by
        have := hsorted.1 y hy
        rw [h] at this
        omega
      simp only [List.find?_cons, hodd, decide_false, List.head?_cons, Option.map_some,
        Option.mem_def, Option.some.injEq, forall_eq', iff_false]
      intro h
      obtain ⟨y, hy, hyx⟩ := Option.map_eq_some_iff.mp h
      exact hlater y (List.mem_of_find?_eq_some hy) hyx

end RustPlc.Core.Terminators
