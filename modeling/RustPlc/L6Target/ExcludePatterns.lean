import RustPlc.Core.Wildcards
import RustPlc.L6Target.Project

/-!
# Exclude patterns

`is_excluded` of crates/st-syntax/src/project.rs reads a pattern by its shape:
one that ends in `/` is the name of a directory, `*.` stands before an
extension, another asterisk between a front and a back. `Excludes` is what
a pattern says when an asterisk stands for any characters.

Results
* `matchesPattern_of_excludes`: a pattern is read as it says, unless it has
  several asterisks, one in the name of a directory or an extension in two parts.
* `excludes_of_matchesPattern`: what is read from a pattern is what it says, but
  for a file with the name of a directory and a name in which the front and the
  back overlap.
-/
namespace RustPlc.Project

open RustPlc.Core RustPlc.Core.Wildcards

/-! ## What patterns say -/

def endsInSlash (pattern : String) : Bool := pattern.toList.getLast? = some '/'

/-- The pattern without the separators at its end. -/
def trimSlashes (pattern : String) : List Char :=
  (pattern.toList.reverse.dropWhile (· = '/')).reverse

/-- The pattern excludes the entry: one that ends in `/` is about directories. -/
def Excludes (pattern : String) (isDir : Bool) (name : String) : Prop :=
  if endsInSlash pattern then isDir = true ∧ Matches '*' (trimSlashes pattern) name.toList
  else Matches '*' pattern.toList name.toList

instance (pattern : String) (isDir : Bool) (name : String) :
    Decidable (Excludes pattern isDir name) := by
  unfold Excludes
  infer_instance

/-- The shapes that are read as a text without asterisks or not at all. -/
def Unread (pattern : String) : Prop :=
  (endsInSlash pattern = true ∧ '*' ∈ pattern.toList) ∨ 2 ≤ pattern.toList.count '*' ∨
    ∃ ext, pattern.toList = '*' :: '.' :: ext ∧ '.' ∈ ext

/-- The name begins with what stands before the asterisk and ends with what
stands behind it, but the two overlap. -/
def Overlaps (pattern name : String) : Prop :=
  ∃ front back, pattern.toList = front ++ '*' :: back ∧ '*' ∉ front ∧ '*' ∉ back ∧
    front <+: name.toList ∧ back <:+ name.toList ∧
    name.toList.length < front.length + back.length

/-- The file has the name of the directory that the pattern excludes. -/
def NamesAsDir (pattern : String) (isDir : Bool) (name : String) : Prop :=
  endsInSlash pattern = true ∧ isDir = false ∧ name.toList = trimSlashes pattern

/-! ## Extensions -/

theorem extension_stem {name : String} {stem ext : List Char}
    (h : name.toList = stem ++ '.' :: ext) (hext : '.' ∉ ext) :
    extension name = if stem = [] then none else some (String.ofList ext) := by
  rw [extension, h, List.splitOn_append_cons_self, List.splitOn_eq_singleton hext,
    List.reverse_append, List.reverse_singleton, List.singleton_append]
  cases hparts : (stem.splitOn '.').reverse with
  | nil => exact absurd (List.reverse_eq_nil_iff.mp hparts) (List.splitOn_ne_nil '.' stem)
  | cons front rest =>
    have hempty : (rest = [] ∧ front = []) ↔ stem = [] := by
      constructor
      · rintro ⟨rfl, rfl⟩
        have hstem : _ = stem := List.intercalate_splitOn '.'
        rw [List.reverse_eq_iff.mp hparts] at hstem
        exact hstem.symm
      · rintro rfl
        cases hparts
        exact ⟨rfl, rfl⟩
    simp only [hempty]

theorem exists_last {c : Char} {cs : List Char} (h : c ∈ cs) :
    ∃ front back, cs = front ++ c :: back ∧ c ∉ back := by
  obtain ⟨back, front, hcs, hback⟩ := List.eq_append_cons_of_mem (List.mem_reverse.mpr h)
  refine ⟨front.reverse, back.reverse, ?_, by simpa using hback⟩
  rw [← List.reverse_reverse cs, hcs]
  simp

/-- A name with an extension has a stem before it. -/
theorem extension_eq_some {name : String} {ext : List Char}
    (h : extension name = some (String.ofList ext)) :
    ∃ stem, stem ≠ [] ∧ name.toList = stem ++ '.' :: ext := by
  by_cases hdot : '.' ∈ name.toList
  · obtain ⟨stem, ext', hname, hext'⟩ := exists_last hdot
    rw [extension_stem hname hext'] at h
    split at h
    next => cases h
    next hstem =>
      obtain rfl : ext' = ext := String.ofList_injective (Option.some.inj h)
      exact ⟨stem, hstem, hname⟩
  · rw [extension, List.splitOn_eq_singleton hdot] at h
    cases h

/-! ## What is read -/

variable {pattern name : String} {isDir : Bool} {front back ext : List Char}

theorem matchesPattern_slash (h : endsInSlash pattern = true) :
    matchesPattern name pattern = true ↔ name.toList = trimSlashes pattern := by
  have hlast : pattern.toList.getLast? = some '/' := of_decide_eq_true h
  simp [matchesPattern, trimSlashes, hlast]

theorem matchesPattern_extension (h : endsInSlash pattern = false)
    (hp : pattern.toList = '*' :: '.' :: ext) :
    matchesPattern name pattern = true ↔ extension name = some (String.ofList ext) := by
  have hlast : ¬ pattern.toList.getLast? = some '/' := of_decide_eq_false h
  have hext : ['*', '.'] <+: pattern.toList := ⟨ext, hp.symm⟩
  have hdrop : pattern.toList.drop 2 = ext := by simp [hp]
  simp [matchesPattern, hlast, hext, hdrop]

theorem matchesPattern_one (h : endsInSlash pattern = false)
    (hp : pattern.toList = front ++ '*' :: back) (hext : ¬ ['*', '.'] <+: pattern.toList)
    (hfront : '*' ∉ front) (hback : '*' ∉ back) :
    matchesPattern name pattern = true ↔ front <+: name.toList ∧ back <:+ name.toList := by
  have hlast : ¬ pattern.toList.getLast? = some '/' := of_decide_eq_false h
  have hstar : '*' ∈ pattern.toList := by simp [hp]
  have hsplit : pattern.toList.splitOn '*' = [front, back] := by
    rw [hp, List.splitOn_append_cons_self, List.splitOn_eq_singleton hfront,
      List.splitOn_eq_singleton hback, List.singleton_append]
  simp [matchesPattern, hlast, hext, hstar, hsplit]

theorem matchesPattern_plain (h : endsInSlash pattern = false) (hp : '*' ∉ pattern.toList) :
    matchesPattern name pattern = true ↔ name = pattern := by
  have hlast : ¬ pattern.toList.getLast? = some '/' := of_decide_eq_false h
  have hext : ¬ ['*', '.'] <+: pattern.toList := fun hpre =>
    hp (hpre.subset List.mem_cons_self)
  simp [matchesPattern, hlast, hext, hp]

/-- Several asterisks are not read. -/
theorem matchesPattern_many (h : endsInSlash pattern = false)
    (hp : pattern.toList = front ++ '*' :: back) (hext : ¬ ['*', '.'] <+: pattern.toList)
    (hfront : '*' ∉ front) (hback : '*' ∈ back) : matchesPattern name pattern = false := by
  have hlast : ¬ pattern.toList.getLast? = some '/' := of_decide_eq_false h
  have hstar : '*' ∈ pattern.toList := by simp [hp]
  obtain ⟨mid, rest, rfl, hmid⟩ := List.eq_append_cons_of_mem hback
  obtain ⟨last, more, hmore⟩ := List.exists_cons_of_ne_nil (List.splitOn_ne_nil '*' rest)
  have hsplit : pattern.toList.splitOn '*' = front :: mid :: last :: more := by
    rw [hp, List.splitOn_append_cons_self, List.splitOn_eq_singleton hfront,
      List.splitOn_append_cons_self, List.splitOn_eq_singleton hmid, hmore]
    rfl
  simp [matchesPattern, hlast, hext, hstar, hsplit]

/-! ## Reading and meaning -/

theorem star_notMem_trim (h : '*' ∉ pattern.toList) : '*' ∉ trimSlashes pattern := by
  intro hmem
  rw [trimSlashes, List.mem_reverse] at hmem
  exact h (List.mem_reverse.mp ((List.dropWhile_sublist _).subset hmem))

theorem front_of_star {p : List Char} (hfront : '*' ∉ front) (h : '*' :: p = front ++ '*' :: back) :
    front = [] ∧ back = p := by
  cases front with
  | nil => exact ⟨rfl, (List.cons.inj h).2.symm⟩
  | cons c front =>
    rw [List.cons_append] at h
    exact absurd ((List.cons.inj h).1 ▸ List.mem_cons_self) hfront

/-- A name that is no extension alone. -/
def HasStem (name : String) : Prop := ∀ ext, '.' ∉ ext → name.toList ≠ '.' :: ext

theorem matchesPattern_of_excludes (hstem : HasStem name) (hread : ¬ Unread pattern)
    (h : Excludes pattern isDir name) : matchesPattern name pattern = true := by
  rw [Unread, not_or, not_or, not_and, not_le] at hread
  obtain ⟨hslash, hcount, hext⟩ := hread
  unfold Excludes at h
  split at h
  next hs =>
    have hplain := star_notMem_trim (hslash hs)
    exact (matchesPattern_slash hs).mpr ((matches_plain hplain).mp h.2)
  next hs =>
    rw [Bool.not_eq_true] at hs
    by_cases hstar : '*' ∈ pattern.toList
    · obtain ⟨front, back, hp, hfront⟩ := List.eq_append_cons_of_mem hstar
      have hback : '*' ∉ back := by
        rw [hp, List.count_append, List.count_cons_self] at hcount
        exact List.count_eq_zero.mp (by omega)
      rw [hp, matches_one hfront hback] at h
      obtain ⟨x, hx⟩ := h
      by_cases hshape : ['*', '.'] <+: pattern.toList
      · obtain ⟨ext, hp'⟩ := hshape
        obtain ⟨rfl, rfl⟩ := front_of_star hfront (hp'.trans hp)
        have hdot : '.' ∉ ext := fun hmem => hext ⟨ext, hp, hmem⟩
        rw [List.nil_append] at hx
        rw [matchesPattern_extension hs hp, extension_stem hx hdot, if_neg]
        rintro rfl
        exact hstem ext hdot hx
      · refine (matchesPattern_one hs hp hshape hfront hback).mpr ⟨⟨_, hx.symm⟩, ?_⟩
        rw [hx, ← List.append_assoc]
        exact List.suffix_append _ back
    · rw [matches_plain hstar] at h
      exact (matchesPattern_plain hs hstar).mpr (String.toList_inj.mp h)

theorem excludes_of_matchesPattern (h : matchesPattern name pattern = true) :
    Excludes pattern isDir name ∨ NamesAsDir pattern isDir name ∨ Overlaps pattern name := by
  unfold Excludes
  split
  next hs =>
    rw [matchesPattern_slash hs] at h
    cases isDir with
    | true => exact .inl ⟨rfl, h ▸ matches_self _⟩
    | false => exact .inr (.inl ⟨hs, rfl, h⟩)
  next hs =>
    rw [Bool.not_eq_true] at hs
    by_cases hstar : '*' ∈ pattern.toList
    · by_cases hshape : ['*', '.'] <+: pattern.toList
      · obtain ⟨ext, hp⟩ := hshape
        rw [matchesPattern_extension hs hp.symm] at h
        obtain ⟨stem, -, hname⟩ := extension_eq_some h
        rw [hname, ← hp]
        refine .inl (matches_star.mpr ⟨'.' :: ext, List.suffix_append _ _, matches_self _⟩)
      · obtain ⟨front, back, hp, hfront⟩ := List.eq_append_cons_of_mem hstar
        by_cases hback : '*' ∈ back
        · rw [matchesPattern_many hs hp hshape hfront hback] at h
          cases h
        · obtain ⟨hpre, hsuf⟩ := (matchesPattern_one hs hp hshape hfront hback).mp h
          by_cases hlen : front.length + back.length ≤ name.toList.length
          · rw [hp, matches_one hfront hback]
            exact .inl ((exists_between hpre hsuf).mpr hlen)
          · exact .inr (.inr ⟨front, back, hp, hfront, hback, hpre, hsuf, not_le.mp hlen⟩)
    · rw [matchesPattern_plain hs hstar] at h
      exact .inl ((matches_plain hstar).mpr (h ▸ rfl))

theorem matchesPattern_of_namesAsDir (h : NamesAsDir pattern isDir name) :
    matchesPattern name pattern = true := (matchesPattern_slash h.1).mpr h.2.2

theorem matchesPattern_of_overlaps (hname : '/' ∉ name.toList) (h : Overlaps pattern name) :
    matchesPattern name pattern = true := by
  obtain ⟨front, back, hp, hfront, hback, hpre, hsuf, hlen⟩ := h
  have hs : endsInSlash pattern = false := by
    refine decide_eq_false fun hlast => ?_
    rw [hp, List.getLast?_append_cons] at hlast
    cases back using List.reverseRecOn with
    | nil => cases hlast
    | append_singleton back c =>
      rw [← List.cons_append, List.getLast?_concat, Option.some.injEq] at hlast
      exact hname (hsuf.subset (by simp [hlast]))
  have hshape : ¬ ['*', '.'] <+: pattern.toList := by
    rintro ⟨ext, hp'⟩
    obtain ⟨rfl, -⟩ := front_of_star hfront (hp'.trans hp)
    exact absurd hsuf.length_le (by simpa using hlen)
  exact (matchesPattern_one hs hp hshape hfront hback).mpr ⟨hpre, hsuf⟩

end RustPlc.Project
