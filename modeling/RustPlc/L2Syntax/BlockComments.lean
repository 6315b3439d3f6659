import RustPlc.Core.Terminators

/-!
# Block comments

The tokens `_paren_block_comment` and `_c_block_comment`
(crates/st-grammar/grammar.js:793-803), as the languages of their regular
expressions. The scanner takes the longest beginning of the text that matches.

The expression `\*[^)]|[^*]` takes an asterisk together with the character
behind it, so of a run of asterisks before the closing character it leaves one
only when their number is odd. A comment that closes with an even run goes on
to the next terminator with an odd one, or is no comment.

Results
* `isToken_iff`: what a token leaves of a text.
* `block_comments_iff`: which strings the token takes as the first terminator
  would have it, and in which texts it ends there.
-/
namespace RustPlc.Syntax

open RustPlc.Core.Terminators

/-- The two kinds of block comments. -/
inductive BlockComment where
  | paren | c
  deriving DecidableEq, Repr

namespace BlockComment

def opener : BlockComment → Char
  | .paren => '('
  | .c => '/'

def closer : BlockComment → Char
  | .paren => ')'
  | .c => '/'

def opening (k : BlockComment) : List Char := [k.opener, '*']

def closing (k : BlockComment) : List Char := ['*', k.closer]

/-- mirrors crates/st-grammar/grammar.js:799-803:
`token(seq("(*", /(\*[^)]|[^*])*/, "*)"))` and
`token(seq("/*", /(\*[^/]|[^*])*/, "*/"))`. -/
def token (k : BlockComment) : Language Char :=
  {k.opening} * (KStar.kstar ({['*']} * oneOf (· ≠ k.closer) + oneOf (· ≠ '*')) * {k.closing})

/-- The delimiters around a body, and no closing delimiter before the last one. -/
def EndsAtFirst (k : BlockComment) (s : List Char) : Prop :=
  ∃ body, s = k.opening ++ body ++ k.closing ∧
    ∀ v w, body ++ k.closing = v ++ k.closing ++ w → w = []

/-- The longest match of the token at the beginning of a text. -/
def IsToken (k : BlockComment) (text tok : List Char) : Prop :=
  tok <+: text ∧ tok ∈ k.token ∧
    ∀ tok', tok' <+: text → tok' ∈ k.token → tok'.length ≤ tok.length

/-- The text behind the opening delimiter has an odd run of asterisks before
its first closing character that follows one, or has no terminator. -/
def Odd (k : BlockComment) (t : List Char) : Prop := OddFirst '*' k.closer t

/-- The text ends neither at its first terminator nor at the first one with an
odd run of asterisks. -/
def EndsElsewhere (k : BlockComment) (t : List Char) : Prop :=
  behindFirst '*' k.closer t ≠ some [] ∧ behindOdd '*' k.closer t ≠ some []

variable {k : BlockComment} {L : List Char → Prop} {s t u r text tok : List Char}

theorem star_ne_closer (k : BlockComment) : '*' ≠ k.closer := by cases k <;> decide

theorem mem_token : s ∈ k.token ↔ ∃ u, s = k.opening ++ u ∧ u ∈ pairScanned '*' k.closer := by
  constructor
  · rintro ⟨_, rfl, u, hu, rfl⟩
    exact ⟨u, rfl, hu⟩
  · rintro ⟨u, rfl, hu⟩
    exact ⟨k.opening, rfl, u, hu, rfl⟩

theorem endsAtFirst_iff : k.EndsAtFirst s ↔
    ∃ u, s = k.opening ++ u ∧ u ∈ firstTerminated '*' k.closer := by
  constructor
  · rintro ⟨body, rfl, hfirst⟩
    exact ⟨body ++ k.closing, List.append_assoc .., ⟨body, rfl⟩, fun v w h =>
      hfirst v w (by rw [h, List.append_assoc]; rfl)⟩
  · rintro ⟨u, rfl, ⟨body, rfl⟩, hfirst⟩
    exact ⟨body, (List.append_assoc ..).symm, fun v w h =>
      hfirst v w (h.trans (List.append_assoc ..))⟩

/-- The beginnings of a text that open a comment and go on in a certain way. -/
theorem opened_prefix : (tok <+: k.opening ++ t ∧ ∃ u, tok = k.opening ++ u ∧ L u) ↔
    ∃ u r, tok = k.opening ++ u ∧ t = u ++ r ∧ L u := by
  constructor
  · rintro ⟨⟨r, hr⟩, u, rfl, hu⟩
    rw [List.append_assoc, List.append_cancel_left_eq] at hr
    exact ⟨u, r, rfl, hr.symm, hu⟩
  · rintro ⟨u, r, rfl, rfl, hu⟩
    exact ⟨⟨r, List.append_assoc ..⟩, u, rfl, hu⟩

/-- A token at the beginning of a text leaves what is behind the first
terminator with an odd run. -/
theorem token_prefix : tok <+: k.opening ++ t ∧ tok ∈ k.token ↔
    ∃ u r, tok = k.opening ++ u ∧ t = u ++ r ∧ behindOdd '*' k.closer t = some r := by
  rw [mem_token, opened_prefix]
  refine exists₂_congr fun u r => and_congr_right fun _ => and_congr_right fun ht => ?_
  rw [ht, pairScanned_iff (star_ne_closer k)]

theorem endsAtFirst_prefix : tok <+: k.opening ++ t ∧ k.EndsAtFirst tok ↔
    ∃ u r, tok = k.opening ++ u ∧ t = u ++ r ∧ behindFirst '*' k.closer t = some r := by
  rw [endsAtFirst_iff, opened_prefix]
  refine exists₂_congr fun u r => and_congr_right fun _ => and_congr_right fun ht => ?_
  rw [ht, firstTerminated_iff (star_ne_closer k)]

/-- There is one match at most, so the longest is any. -/
theorem isToken_iff : k.IsToken (k.opening ++ t) tok ↔
    tok <+: k.opening ++ t ∧ tok ∈ k.token := by
  refine ⟨fun h => ⟨h.1, h.2.1⟩, fun h => ⟨h.1, h.2, fun tok' hp hmem => ?_⟩⟩
  obtain ⟨u, r, rfl, hu, hr⟩ := token_prefix.mp h
  obtain ⟨u', r', rfl, hu', hr'⟩ := token_prefix.mp ⟨hp, hmem⟩
  obtain rfl : r = r' := Option.some.inj (hr.symm.trans hr')
  obtain rfl : u = u' := List.append_cancel_right (hu.symm.trans hu')
  exact Nat.le_refl _

theorem token_iff : k.opening ++ t ∈ k.token ↔ behindOdd '*' k.closer t = some [] := by
  have h := pairScanned_iff (r := []) (u := t) (star_ne_closer k)
  rw [List.append_nil] at h
  simp [mem_token, h]

theorem endsAtFirst_opened : k.EndsAtFirst (k.opening ++ t) ↔
    behindFirst '*' k.closer t = some [] := by
  have h := firstTerminated_iff (r := []) (u := t) (star_ne_closer k)
  rw [List.append_nil] at h
  simp [endsAtFirst_iff, h]

/-- Behind the opening delimiter the two agree on a text that ends at both, so
with an odd run, or at neither. -/
theorem agree_iff : (k.opening ++ t ∈ k.token ↔ k.EndsAtFirst (k.opening ++ t)) ↔
    k.Odd t ∨ k.EndsElsewhere t := by
  rw [token_iff, endsAtFirst_opened, Odd, EndsElsewhere, ← behindOdd_eq_iff]
  constructor
  · intro h
    by_cases hend : behindFirst '*' k.closer t = some []
    · exact .inl ((h.mpr hend).trans hend.symm)
    · exact .inr ⟨hend, fun hodd => hend (h.mp hodd)⟩
  · rintro (h | ⟨hfirst, hodd⟩)
    · rw [h]
    · exact ⟨fun h => absurd h hodd, fun h => absurd h hfirst⟩

/-- The token of every text ends at the first terminator exactly behind an odd
run. -/
theorem ends_iff : (∀ tok, k.IsToken (k.opening ++ t) tok ↔
    tok <+: k.opening ++ t ∧ k.EndsAtFirst tok) ↔ k.Odd t := by
  rw [Odd, ← behindOdd_eq_iff]
  simp only [isToken_iff, token_prefix, endsAtFirst_prefix]
  refine ⟨fun h => Option.ext fun r => ⟨fun hodd => ?_, fun hfirst => ?_⟩, fun h tok => by rw [h]⟩
  · obtain ⟨u, hu⟩ := behindOdd_split (star_ne_closer k) hodd
    obtain ⟨u', r', htok, hu', hr'⟩ := (h (k.opening ++ u)).mp ⟨u, r, rfl, hu, hodd⟩
    obtain rfl := List.append_cancel_left htok
    rwa [List.append_cancel_left (hu.symm.trans hu')]
  · obtain ⟨u, hu⟩ := behindFirst_split (star_ne_closer k) hfirst
    obtain ⟨u', r', htok, hu', hr'⟩ := (h (k.opening ++ u)).mpr ⟨u, r, rfl, hu, hfirst⟩
    obtain rfl := List.append_cancel_left htok
    rwa [List.append_cancel_left (hu.symm.trans hu')]

/-- **Block comments.** A string is taken as the first terminator would have it
exactly when it does not open a comment, or the first terminator behind the
opening has an odd run of asterisks, or it ends neither there nor at the first
terminator with one. In a text the token ends at the first terminator exactly
when that one has an odd run. -/
theorem block_comments_iff (k : BlockComment) :
    (∀ s, (s ∈ k.token ↔ k.EndsAtFirst s) ↔
      ∀ t, s = k.opening ++ t → k.Odd t ∨ k.EndsElsewhere t) ∧
    ∀ t, (∀ tok, k.IsToken (k.opening ++ t) tok ↔
      tok <+: k.opening ++ t ∧ k.EndsAtFirst tok) ↔ k.Odd t := by
  refine ⟨fun s => ?_, fun t => ends_iff⟩
  by_cases hs : ∃ t, s = k.opening ++ t
  · obtain ⟨t, rfl⟩ := hs
    rw [agree_iff]
    simp
  · have htoken : s ∉ k.token := fun h => hs ((mem_token.mp h).imp fun _ h => h.1)
    have hends : ¬ k.EndsAtFirst s := fun h => hs ((endsAtFirst_iff.mp h).imp fun _ h => h.1)
    exact iff_of_true (iff_of_false htoken hends) fun t ht => absurd ⟨t, ht⟩ hs

/-- A boxed header and a later comment. -/
def boxedText : List Char := "(***)x:=1;(* c *)".toList

/-- The token does not take the header `(***)`, and in a text it goes on
through the code to the end of the next comment. -/
theorem boxed_header_swallows :
    ¬("(***)".toList ∈ paren.token ↔ paren.EndsAtFirst "(***)".toList) ∧
      paren.IsToken boxedText boxedText ∧ ¬ paren.EndsAtFirst boxedText := by
  have hheader : "(***)".toList = paren.opening ++ ['*', '*', ')'] := by decide
  have htext : boxedText = paren.opening ++ boxedText.drop 2 := by decide
  refine ⟨?_, ?_, ?_⟩
  · rw [hheader, agree_iff]
    rintro (hodd | ⟨hfirst, -⟩)
    · exact absurd hodd (by unfold Odd; decide)
    · exact hfirst (by decide)
  · rw [htext, isToken_iff, token_iff]
    exact ⟨List.prefix_refl _, by decide⟩
  · rw [htext, endsAtFirst_opened]
    decide

end BlockComment

end RustPlc.Syntax
