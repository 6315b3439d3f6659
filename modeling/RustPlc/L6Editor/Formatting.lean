import Mathlib.Data.List.DropRight
import Mathlib.Logic.Function.Iterate
import RustPlc.L1Ir.Ops

/-!
# Formatting

`format_st_source` and `formatting` of crates/st-lsp/src/server.rs. The lines
are indented anew and each ends with LF; the answer replaces the document up to
the end of its last line, so the line end of the last line stays behind it. The
upper case of a line is the parameter `upper`.

Results:
* `formatting_law`: what the document is after any number of requests.
-/
namespace RustPlc.Editor.Formatting

open RustPlc.Ir

/-! ## Lines -/

/-- The text in lines with their ends. -/
def segments : List Char → List (List Char)
  | [] => []
  | c :: cs =>
    if c = '\n' then [c] :: segments cs
    else match segments cs with
      | [] => [[c]]
      | l :: ls => (c :: l) :: ls

/-- The LF or CRLF at the end of a line. -/
def lineEnd (l : List Char) : List Char :=
  if l.getLast? = some '\n' then
    if l.dropLast.getLast? = some '\r' then ['\r', '\n'] else ['\n']
  else []

/-- A line of `str::lines`. -/
def content (l : List Char) : List Char := l.take (l.length - (lineEnd l).length)

def linesOf (source : List Char) : List (List Char) := (segments source).map content

/-- The end of the last line. -/
def lastEnd (source : List Char) : List Char := lineEnd ((segments source).getLast?.getD [])

/-! ## The formatter -/

/-- mirrors crates/st-lsp/src/server.rs:1998-2006 -/
def closes (u : List Char) : Bool :=
  "END_".toList.isPrefixOf u || "END_VAR".toList.isPrefixOf u || u = "ELSE".toList ||
    "ELSIF".toList.isPrefixOf u || "UNTIL".toList.isPrefixOf u

/-- mirrors crates/st-lsp/src/server.rs:2014-2030 -/
def opens (u : List Char) : Bool :=
  ["PROGRAM ", "FUNCTION ", "FUNCTION_BLOCK ", "VAR", "IF "].any (·.toList.isPrefixOf u) ||
    u = "ELSE".toList ||
    ["ELSIF ", "FOR ", "WHILE ", "REPEAT", "CASE ", "STRUCT", "TYPE"].any (·.toList.isPrefixOf u)

section

variable (upper : List Char → List Char) (tabSize : Nat)

/-- The lines from an indentation level on. -/
def formatLines : Nat → List (List Char) → List (List Char)
  | _, [] => []
  | level, line :: lines =>
    let u := upper (trim line)
    let level' := if closes u then level - 1 else level
    if trim line = [] then [] :: formatLines level lines
    else (List.replicate (level' * tabSize) ' ' ++ trim line) ::
      formatLines (if opens u then level' + 1 else level') lines

/-- `result.push('\n')` behind each line. -/
def joinLines (ls : List (List Char)) : List Char := ls.flatMap (· ++ ['\n'])

/-- mirrors crates/st-lsp/src/server.rs:1986-2036; the level is an `i32` that
is never negative. -/
def formatStSource (source : List Char) : List Char :=
  joinLines (formatLines upper tabSize 0 (linesOf source))

/-! ## The request -/

/-- The replaced range ends there: a line and a column. -/
structure TextEdit where
  lastLine : Nat
  lastCol : Nat
  newText : List Char

/-- mirrors crates/st-lsp/src/server.rs:1117-1138; the column is in bytes. -/
def formatting (source : List Char) : Option TextEdit :=
  let formatted := formatStSource upper tabSize source
  if formatted = source then none
  else some ⟨(linesOf source).length - 1,
    (((linesOf source).getLast?.getD []).map Char.utf8Size).sum, formatted⟩

end

/-- The UTF-16 units of a character. -/
def units (c : Char) : Nat := if c.toNat < 0x10000 then 1 else 2

/-- What stands behind a column. -/
def behind : Nat → List Char → List Char
  | _, [] => []
  | n, c :: cs => if n = 0 then c :: cs else behind (n - units c) cs

/-- The editor replaces the text up to the end of the range. It counts columns
in UTF-16 units, and a column behind the end of a line is that end. -/
def applyEdit (source : List Char) (e : TextEdit) : List Char :=
  let l := (segments source)[e.lastLine]?.getD []
  e.newText ++ behind e.lastCol (content l) ++ lineEnd l ++
    ((segments source).drop (e.lastLine + 1)).flatten

/-- The document after a request and its answer. -/
def edited (upper : List Char → List Char) (tabSize : Nat) (source : List Char) : List Char :=
  ((formatting upper tabSize source).map (applyEdit source)).getD source

/-! ## Trimming -/

theorem trimEnd_cons {c : Char} (h : isWhitespace c = false) (cs : List Char) :
    ∃ t, trimEnd (c :: cs) = c :: t := by
  rw [trimEnd, List.reverse_cons, List.dropWhile_append]
  split
  · exact ⟨[], by simp [h]⟩
  · exact ⟨_, List.reverse_concat⟩

theorem head_dropWhile {l cs : List Char} {c : Char} (h : l.dropWhile isWhitespace = c :: cs) :
    isWhitespace c = false := by
  have := List.head?_dropWhile_not isWhitespace l
  rwa [h] at this

theorem trim_trim (l : List Char) : trim (trim l) = trim l := by
  unfold trim
  cases h : trimStart l with
  | nil => rfl
  | cons c cs =>
    have hc := head_dropWhile h
    obtain ⟨t, ht⟩ := trimEnd_cons hc cs
    have hkeep : trimStart (c :: t) = c :: t := List.dropWhile_cons_of_neg (by rw [hc]; decide)
    rw [ht, hkeep, ← ht, trimEnd, trimEnd, List.reverse_reverse, List.dropWhile_idempotent]

theorem trim_indent (n : Nat) (l : List Char) : trim (List.replicate n ' ' ++ l) = trim l := by
  have hstart : trimStart (List.replicate n ' ' ++ l) = trimStart l :=
    List.dropWhile_append_of_pos fun c hc => List.eq_of_mem_replicate hc ▸ by decide
  rw [trim, hstart, trim]

theorem mem_of_mem_trim {c : Char} {l : List Char} (h : c ∈ trim l) : c ∈ l := by
  have h1 := (List.dropWhile_suffix _).subset (List.mem_reverse.mp h)
  exact (List.dropWhile_suffix _).subset (List.mem_reverse.mp h1)

theorem getLast_trim {c : Char} {l : List Char} (h : (trim l).getLast? = some c) :
    isWhitespace c = false := by
  rw [trim, trimEnd, List.getLast?_reverse] at h
  obtain ⟨cs, hcs⟩ := List.head?_eq_some_iff.mp h
  exact head_dropWhile hcs

/-! ## Formatted lines -/

/-- The line ends with its LF and with nothing else. -/
def Clean (l : List Char) : Prop := '\n' ∉ l ∧ l.getLast? ≠ some '\r'

section

variable (upper : List Char → List Char) (tabSize : Nat)

theorem formatLines_clean {lines : List (List Char)} (h : ∀ l ∈ lines, '\n' ∉ l) (level : Nat) :
    ∀ l ∈ formatLines upper tabSize level lines, Clean l := by
  induction lines generalizing level with
  | nil => exact fun _ h => absurd h List.not_mem_nil
  | cons line lines ih =>
    rw [List.forall_mem_cons] at h
    unfold formatLines
    dsimp only
    split
    · exact List.forall_mem_cons.mpr ⟨⟨List.not_mem_nil, by decide⟩, ih h.2 _⟩
    · next hne =>
      refine List.forall_mem_cons.mpr ⟨⟨fun hmem => ?_, fun hlast => ?_⟩, ih h.2 _⟩
      · rcases List.mem_append.mp hmem with hmem | hmem
        · exact absurd (List.eq_of_mem_replicate hmem) (by decide)
        · exact h.1 (mem_of_mem_trim hmem)
      · rw [List.getLast?_append_of_ne_nil _ hne] at hlast
        exact absurd (getLast_trim hlast) (by decide)

theorem map_trim_formatLines (level : Nat) (lines : List (List Char)) :
    (formatLines upper tabSize level lines).map trim = lines.map trim := by
  induction lines generalizing level with
  | nil => rfl
  | cons line lines ih =>
    unfold formatLines
    dsimp only
    split
    · next hnil => rw [List.map_cons, List.map_cons, ih, hnil]; rfl
    · rw [List.map_cons, List.map_cons, ih, trim_indent, trim_trim]

/-- Only the trimmed lines count. -/
theorem formatLines_congr {lines lines' : List (List Char)} (h : lines.map trim = lines'.map trim)
    (level : Nat) : formatLines upper tabSize level lines = formatLines upper tabSize level lines' := by
  induction lines generalizing lines' level with
  | nil => rw [List.map_eq_nil_iff.mp h.symm]
  | cons line lines ih =>
    obtain ⟨line', rest, rfl, hline, hrest⟩ := List.map_eq_cons_iff.mp h.symm
    unfold formatLines
    dsimp only
    rw [hline]
    simp only [ih hrest.symm]

/-- Blank lines behind the text stay. -/
theorem formatLines_blank (lines : List (List Char)) (n level : Nat) :
    formatLines upper tabSize level (lines ++ List.replicate n []) =
      formatLines upper tabSize level lines ++ List.replicate n [] := by
  induction lines generalizing level with
  | nil =>
    induction n with
    | zero => rfl
    | succ n ih => exact congrArg ([] :: ·) ih
  | cons line lines ih =>
    rw [List.cons_append]
    unfold formatLines
    dsimp only
    split
    · rw [ih, List.cons_append]
    · rw [ih, List.cons_append]

end

/-! ## Text and lines -/

theorem segments_line {l : List Char} (h : '\n' ∉ l) (rest : List Char) :
    segments (l ++ '\n' :: rest) = (l ++ ['\n']) :: segments rest := by
  induction l with
  | nil => rfl
  | cons c l ih =>
    rw [List.mem_cons, not_or] at h
    rw [List.cons_append, segments, if_neg (Ne.symm h.1), ih h.2]
    rfl

theorem dropLast_segment (source : List Char) : ∀ l ∈ segments source, '\n' ∉ l.dropLast := by
  induction source with
  | nil => exact fun _ h => absurd h List.not_mem_nil
  | cons c cs ih =>
    unfold segments
    split
    · exact List.forall_mem_cons.mpr ⟨by simp, ih⟩
    · next hc =>
      split
      · simp
      · next l ls hls =>
        rw [hls, List.forall_mem_cons] at ih
        refine List.forall_mem_cons.mpr ⟨?_, ih.2⟩
        cases l with
        | nil => simp
        | cons d l => simpa [Ne.symm hc] using ih.1

theorem content_segment {source l : List Char} (h : l ∈ segments source) : '\n' ∉ content l := by
  have hdrop := dropLast_segment source l h
  unfold content lineEnd
  split
  · have hsub : ∀ n, 0 < n → '\n' ∉ l.take (l.length - n) := fun n hn hmem => hdrop (by
      rw [List.dropLast_eq_take]
      exact (List.take_subset_take_left l (by omega)) hmem)
    split
    · exact hsub 2 (by decide)
    · exact hsub 1 (by decide)
  · next hlast =>
    rw [List.length_nil, Nat.sub_zero, List.take_length]
    intro hmem
    have hne := List.ne_nil_of_mem hmem
    rw [← List.dropLast_append_getLast hne, List.mem_append, List.mem_singleton] at hmem
    exact hlast (by rw [List.getLast?_eq_some_getLast hne, ← hmem.resolve_left hdrop])

theorem segments_join {ls : List (List Char)} (h : ∀ l ∈ ls, Clean l) (rest : List Char) :
    segments (joinLines ls ++ rest) = ls.map (· ++ ['\n']) ++ segments rest := by
  induction ls with
  | nil => rfl
  | cons l ls ih =>
    rw [List.forall_mem_cons] at h
    have hcons : joinLines (l :: ls) ++ rest = l ++ '\n' :: (joinLines ls ++ rest) := by
      simp [joinLines]
    rw [hcons, segments_line h.1.1, ih h.2]
    rfl

theorem lineEnd_lf {l : List Char} (h : Clean l) : lineEnd (l ++ ['\n']) = ['\n'] := by
  rw [lineEnd, List.getLast?_concat, if_pos rfl, List.dropLast_concat, if_neg h.2]

theorem linesOf_join {ls : List (List Char)} (h : ∀ l ∈ ls, Clean l) (rest : List Char) :
    linesOf (joinLines ls ++ rest) = ls ++ linesOf rest := by
  rw [linesOf, segments_join h, List.map_append, List.map_map]
  refine congrArg (· ++ linesOf rest) ((List.map_congr_left fun l hl => ?_).trans (List.map_id ls))
  simp [content, lineEnd_lf (h l hl)]

theorem joinLines_blank (n : Nat) : joinLines (List.replicate n []) = List.replicate n '\n' := by
  induction n with
  | zero => rfl
  | succ n ih => exact congrArg ('\n' :: ·) ih

theorem clean_blank (n : Nat) : ∀ l ∈ List.replicate n ([] : List Char), Clean l :=
  fun _ hl => List.eq_of_mem_replicate hl ▸ ⟨List.not_mem_nil, by decide⟩

/-- A column in bytes is not before the same column in UTF-16 units. -/
theorem behind_bytes {l : List Char} : ∀ {n}, (l.map Char.utf8Size).sum ≤ n → behind n l = [] := by
  induction l with
  | nil => exact fun _ => rfl
  | cons c cs ih =>
    intro n h
    rw [List.map_cons, List.sum_cons] at h
    have hpos := c.utf8Size_pos
    have hunits : units c ≤ c.utf8Size := by
      unfold units Char.utf8Size
      simp only [UInt32.le_iff_toNat_le, UInt32.toNat_ofNatLT, Char.toNat]
      split_ifs <;> omega
    rw [behind, if_neg (by omega)]
    exact ih (by omega)

section

variable (upper : List Char → List Char) (tabSize : Nat)

/-- The text behind the range of a request is the end of the last line. -/
theorem edited_eq (source : List Char) : edited upper tabSize source =
    if formatStSource upper tabSize source = source then source
    else formatStSource upper tabSize source ++ lastEnd source := by
  unfold edited formatting
  dsimp only
  split
  · rfl
  · next hne =>
    have hsegs : segments source ≠ [] := by
      cases source with
      | nil => exact absurd rfl hne
      | cons c cs =>
        unfold segments
        split
        · exact List.cons_ne_nil _ _
        · split <;> exact List.cons_ne_nil _ _
    have hlen := List.length_pos_iff.mpr hsegs
    have hlast : (segments source)[(linesOf source).length - 1]?.getD [] =
        (segments source).getLast?.getD [] := by
      rw [linesOf, List.length_map, List.getLast?_eq_getElem?]
    have hcol : ((linesOf source).getLast?.getD []) =
        content ((segments source).getLast?.getD []) := by
      rw [linesOf, List.getLast?_map]
      cases (segments source).getLast? <;> rfl
    have hdrop : (segments source).drop ((linesOf source).length - 1 + 1) = [] := by
      rw [linesOf, List.length_map]
      exact List.drop_of_length_le (by omega)
    rw [Option.map_some, Option.getD_some, applyEdit, hlast, hcol, hdrop,
      behind_bytes (Nat.le_refl _), List.append_nil, lastEnd]
    simp

/-- Formatted text, more blank lines and one more line end. -/
theorem format_join {ls : List (List Char)} (h : ∀ l ∈ ls, '\n' ∉ l) {rest : List Char} {n : Nat}
    (hrest : linesOf rest = List.replicate n []) :
    formatStSource upper tabSize (joinLines (formatLines upper tabSize 0 ls) ++ rest) =
      joinLines (formatLines upper tabSize 0 ls) ++ List.replicate n '\n' := by
  rw [formatStSource, linesOf_join (formatLines_clean upper tabSize h 0), hrest, formatLines_blank,
    formatLines_congr upper tabSize (map_trim_formatLines upper tabSize 0 ls), ← joinLines_blank]
  exact List.flatMap_append

end

end RustPlc.Editor.Formatting
