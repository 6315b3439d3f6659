import RustPlc.Core.Utf8
import RustPlc.L1Ir.Slices
import RustPlc.L6Editor.Diagnostics

/-!
# Positions of the editor protocol

`Document::offset_to_position` and `Document::position_to_offset` of
crates/st-lsp/src/document.rs, and the positions the protocol means: a line
ends at LF or CRLF, a column counts UTF-16 units. Both scans count bytes, on
32 bits as `Position` has them; a column is added to its line's start as it is.

Results
* `positionToOffset_eq`: a position leads its column in bytes behind its line's
  start, however long the line is.
* `editor_positions_iff`: when an offset is shown at its place, when it comes
  back, and when a position leads into its line.
-/
namespace RustPlc.Editor

open RustPlc.Core.Utf8 RustPlc.Ir RustPlc.Syntax.Ranged

/-! ## The scans -/

/-- `tower_lsp::lsp_types::Position` -/
structure LspPosition where
  line : UInt32
  character : UInt32
  deriving DecidableEq

def advanceU32 (p : LspPosition) (b : UInt8) : LspPosition :=
  if b = 10 then ⟨p.line + 1, 0⟩ else ⟨p.line, p.character + 1⟩

/-- mirrors crates/st-lsp/src/document.rs:332-346 -/
def offsetToPositionU32 (source : Text) (offset : Nat) : LspPosition :=
  (source.take (min offset source.length)).foldl advanceU32 ⟨0, 0⟩

/-- The loop of `position_to_offset`: how far it goes. -/
def skipLines (target line : UInt32) : Text → Nat
  | [] => 0
  | b :: bs =>
    if line < target then skipLines target (if b = 10 then line + 1 else line) bs + 1 else 0

/-- mirrors crates/st-lsp/src/document.rs:357-368 -/
def positionToOffset (source : Text) (pos : LspPosition) : Nat :=
  skipLines pos.line 0 source + pos.character.toNat

/-! ## Lines -/

/-- The text before line `n`, and from there on. -/
def splitAtLine : Nat → List Char → List Char × List Char
  | 0, cs => ([], cs)
  | _ + 1, [] => ([], [])
  | n + 1, c :: cs =>
    let rest := splitAtLine (if c = '\n' then n else n + 1) cs
    (c :: rest.1, rest.2)

def lineBefore (n : Nat) (text : List Char) : List Char := (splitAtLine n text).1

def lineFrom (n : Nat) (text : List Char) : List Char := (splitAtLine n text).2

/-- Line `n` without its LF or CRLF. -/
def lineContent (n : Nat) (text : List Char) : List Char :=
  let line := (lineFrom n text).takeWhile (· ≠ '\n')
  if line.length < (lineFrom n text).length ∧ line.getLast? = some '\r' then line.dropLast else line

/-! ## What the protocol says -/

/-- UTF-16 code units. -/
def units (c : Char) : Nat := if c.val.toNat < 0x10000 then 1 else 2

def unitLen (cs : List Char) : Nat := (cs.map units).sum

/-- The number of the line the text ends in. -/
def lastLine (pre : List Char) : Nat := pre.count '\n'

/-- What the text has of the line it ends in. -/
def lastLineText (pre : List Char) : List Char := lineFrom (lastLine pre) pre

/-- The place behind `pre`. -/
structure IsPosition (pre : List Char) (p : LspPosition) : Prop where
  line : p.line.toNat = lastLine pre
  character : p.character.toNat = unitLen (lastLineText pre)

/-- An offset on a boundary, within line `n` and within the text. -/
structure InLine (text : List Char) (n : Nat) (o : Nat) : Prop where
  boundary : IsBoundary text o
  line : o ≤ byteLen (lineBefore n text) + byteLen (lineContent n text)
  text : o ≤ byteLen text

/-! ## Splitting at a line -/

@[simp] theorem lineBefore_zero (text : List Char) : lineBefore 0 text = [] := by
  rw [lineBefore, splitAtLine]

@[simp] theorem lineFrom_zero (text : List Char) : lineFrom 0 text = text := by
  rw [lineFrom, splitAtLine]

theorem lineBefore_lf (n : Nat) (cs : List Char) :
    lineBefore (n + 1) ('\n' :: cs) = '\n' :: lineBefore n cs := rfl

theorem lineFrom_lf (n : Nat) (cs : List Char) :
    lineFrom (n + 1) ('\n' :: cs) = lineFrom n cs := rfl

theorem lineBefore_plain {c : Char} (hc : c ≠ '\n') (n : Nat) (cs : List Char) :
    lineBefore (n + 1) (c :: cs) = c :: lineBefore (n + 1) cs := by
  simp only [lineBefore, splitAtLine, if_neg hc]

theorem lineFrom_plain {c : Char} (hc : c ≠ '\n') (n : Nat) (cs : List Char) :
    lineFrom (n + 1) (c :: cs) = lineFrom (n + 1) cs := by
  simp only [lineFrom, splitAtLine, if_neg hc]

theorem lineBefore_lineFrom (n : Nat) (text : List Char) :
    lineBefore n text ++ lineFrom n text = text := by
  induction text generalizing n with
  | nil => cases n <;> rfl
  | cons c cs ih =>
    cases n with
    | zero => rfl
    | succ n =>
      by_cases hc : c = '\n'
      · subst hc
        rw [lineBefore_lf, lineFrom_lf, List.cons_append, ih]
      · rw [lineBefore_plain hc, lineFrom_plain hc, List.cons_append, ih]

/-- A line that begins in `pre` begins there in every text with it. -/
theorem lineBefore_append {n : Nat} {pre : List Char} (h : n ≤ lastLine pre) (post : List Char) :
    lineBefore n (pre ++ post) = lineBefore n pre := by
  induction pre generalizing n with
  | nil =>
    obtain rfl : n = 0 := Nat.le_zero.mp h
    rw [lineBefore_zero, lineBefore_zero]
  | cons c cs ih =>
    cases n with
    | zero => rfl
    | succ n =>
      by_cases hc : c = '\n'
      · subst hc
        rw [lastLine, List.count_cons_self] at h
        rw [List.cons_append, lineBefore_lf, lineBefore_lf, ih (Nat.le_of_succ_le_succ h)]
      · rw [lastLine, List.count_cons_of_ne hc] at h
        rw [List.cons_append, lineBefore_plain hc, lineBefore_plain hc, ih h]

/-- Later lines begin later. -/
theorem lineBefore_lt {m n : Nat} {text : List Char} (hmn : m < n) (hn : n ≤ lastLine text) :
    byteLen (lineBefore m text) < byteLen (lineBefore n text) := by
  induction text generalizing m n with
  | nil => exact absurd (Nat.le_zero.mp hn) (Nat.ne_of_gt (Nat.zero_lt_of_lt hmn))
  | cons c cs ih =>
    obtain ⟨n, rfl⟩ := Nat.exists_eq_add_one_of_ne_zero (Nat.ne_of_gt (Nat.zero_lt_of_lt hmn))
    have hpos := c.utf8Size_pos
    by_cases hc : c = '\n'
    · subst hc
      rw [lastLine, List.count_cons_self] at hn
      cases m with
      | zero =>
        rw [lineBefore_lf, lineBefore_zero, byteLen_nil, byteLen_cons]
        omega
      | succ m =>
        have := ih (Nat.lt_of_succ_lt_succ hmn) (Nat.le_of_succ_le_succ hn)
        simpa [lineBefore_lf] using this
    · rw [lastLine, List.count_cons_of_ne hc] at hn
      cases m with
      | zero =>
        rw [lineBefore_plain hc, lineBefore_zero, byteLen_nil, byteLen_cons]
        omega
      | succ m =>
        have := ih hmn hn
        simpa [lineBefore_plain hc] using this

/-! ## The scans over characters -/

@[simp] theorem utf8_length_byteLen (cs : List Char) : (utf8 cs).length = byteLen cs :=
  length_utf8 cs

theorem skipLines_self (line : UInt32) (bs : Text) : skipLines line line bs = 0 := by
  cases bs with
  | nil => rfl
  | cons b bs => exact if_neg (UInt32.lt_irrefl line)

theorem skipLines_plain {target line : UInt32} (h : line < target) (rest : Text) :
    ∀ {bs : Text}, (∀ b ∈ bs, b ≠ 10) →
      skipLines target line (bs ++ rest) = bs.length + skipLines target line rest
  | [], _ => (Nat.zero_add _).symm
  | b :: bs, hbs => by
    obtain ⟨hb, hbs⟩ := List.forall_mem_cons.mp hbs
    rw [List.cons_append, skipLines, if_pos h, if_neg hb, skipLines_plain h rest hbs,
      List.length_cons]
    omega

theorem skipLines_utf8 (text : List Char) {target line : UInt32} (h : line ≤ target) :
    skipLines target line (utf8 text) =
      byteLen (lineBefore (target.toNat - line.toNat) text) := by
  induction text generalizing line with
  | nil => cases target.toNat - line.toNat <;> rfl
  | cons c cs ih =>
    rcases Nat.eq_or_lt_of_le (UInt32.le_iff_toNat_le.mp h) with heq | hlt
    · obtain rfl := UInt32.toNat_inj.mp heq
      rw [skipLines_self, Nat.sub_self, lineBefore_zero, byteLen_nil]
    · obtain ⟨n, hn⟩ : ∃ n, target.toNat - line.toNat = n + 1 :=
        Nat.exists_eq_add_one_of_ne_zero (by omega)
      have hlt' : line < target := UInt32.lt_iff_toNat_lt.mpr hlt
      rw [hn, utf8_cons]
      by_cases hc : c = '\n'
      · subst hc
        have hnext : (line + 1).toNat = line.toNat + 1 := by
          have := target.toNat_lt
          rw [UInt32.toNat_add]
          exact Nat.mod_eq_of_lt (by simp; omega)
        rw [encode_lf, List.singleton_append, skipLines, if_pos hlt', if_pos rfl,
          ih (UInt32.le_iff_toNat_le.mpr (by omega)), lineBefore_lf, byteLen_cons,
          show target.toNat - (line + 1).toNat = n by omega, Nat.add_comm]
        rfl
      · rw [skipLines_plain hlt' _ (lf_notMem_encode hc), ih h, hn, lineBefore_plain hc, byteLen_cons,
          String.length_utf8EncodeChar]

/-- A position leads its column in bytes behind the start of its line. -/
theorem positionToOffset_eq (text : List Char) (pos : LspPosition) :
    positionToOffset (utf8 text) pos =
      byteLen (lineBefore pos.line.toNat text) + pos.character.toNat := by
  rw [positionToOffset, skipLines_utf8 text (UInt32.le_iff_toNat_le.mpr (Nat.zero_le _))]
  rfl

/-- The counters of the code are those of `offsetToPosition` on 32 bits. -/
def Position.low (p : Position) : LspPosition :=
  ⟨UInt32.ofNat p.line, UInt32.ofNat p.character⟩

@[simp] theorem low_line (p : Position) : p.low.line.toNat = p.line % 2 ^ 32 :=
  UInt32.toNat_ofNat'

@[simp] theorem low_character (p : Position) : p.low.character.toNat = p.character % 2 ^ 32 :=
  UInt32.toNat_ofNat'

theorem advanceU32_low (p : Position) (b : UInt8) : advanceU32 p.low b = (advance p b).low := by
  unfold advanceU32 advance Position.low
  by_cases hb : b = 10
  · rw [if_pos hb, if_pos hb, UInt32.ofNat_add]
    rfl
  · rw [if_neg hb, if_neg hb, UInt32.ofNat_add]
    rfl

theorem offsetToPositionU32_low (source : Text) (offset : Nat) :
    offsetToPositionU32 source offset = (offsetToPosition source offset).low := by
  unfold offsetToPositionU32 offsetToPosition
  rw [← List.take_eq_take_min]
  exact (List.foldl_hom Position.low advanceU32_low).symm ▸ rfl

theorem foldl_advance_plain (p : Position) : ∀ {bs : Text}, (∀ b ∈ bs, b ≠ 10) →
    bs.foldl advance p = ⟨p.line, p.character + bs.length⟩
  | [], _ => rfl
  | b :: bs, hbs => by
    obtain ⟨hb, hbs⟩ := List.forall_mem_cons.mp hbs
    rw [List.foldl_cons, foldl_advance_plain _ hbs, advance, if_neg hb, List.length_cons]
    simp only [Position.mk.injEq, true_and]
    omega

theorem lastLine_lf (cs : List Char) : lastLine ('\n' :: cs) = lastLine cs + 1 :=
  List.count_cons_self

theorem lastLine_plain {c : Char} (hc : c ≠ '\n') (cs : List Char) :
    lastLine (c :: cs) = lastLine cs := List.count_cons_of_ne hc

theorem lastLineText_lf (cs : List Char) : lastLineText ('\n' :: cs) = lastLineText cs := by
  rw [lastLineText, lastLine_lf, lineFrom_lf, lastLineText]

theorem lastLineText_plain {c : Char} (hc : c ≠ '\n') {cs : List Char} (h : lastLine cs ≠ 0) :
    lastLineText (c :: cs) = lastLineText cs := by
  obtain ⟨n, hn⟩ := Nat.exists_eq_add_one_of_ne_zero h
  rw [lastLineText, lastLineText, lastLine_plain hc, hn, lineFrom_plain hc]

theorem lastLineText_single {cs : List Char} (h : lastLine cs = 0) : lastLineText cs = cs := by
  rw [lastLineText, h, lineFrom_zero]

/-- The scan from `p` on: its column goes on until a line ends. -/
theorem foldl_advance_utf8 (cs : List Char) (p : Position) :
    (utf8 cs).foldl advance p = ⟨p.line + lastLine cs,
      if lastLine cs = 0 then p.character + byteLen cs else byteLen (lastLineText cs)⟩ := by
  induction cs generalizing p with
  | nil => rfl
  | cons c cs ih =>
    rw [utf8_cons, List.foldl_append]
    by_cases hc : c = '\n'
    · subst hc
      rw [encode_lf, ih, lastLineText_lf, lastLine_lf, if_neg (Nat.succ_ne_zero _)]
      simp only [List.foldl_cons, List.foldl_nil, advance, if_true, Position.mk.injEq]
      refine ⟨by omega, ?_⟩
      split
      next h => rw [lastLineText_single h, Nat.zero_add]
      next => rfl
    · rw [foldl_advance_plain _ (lf_notMem_encode hc), ih, lastLine_plain hc,
        String.length_utf8EncodeChar, byteLen_cons]
      simp only [Position.mk.injEq, true_and]
      split
      next => omega
      next h => rw [lastLineText_plain hc h]

theorem take_byteLen (pre post : List Char) : (utf8 (pre ++ post)).take (byteLen pre) = utf8 pre := by
  rw [utf8_append, ← utf8_length_byteLen, List.take_left]

/-- The scan behind `pre`. -/
theorem offsetToPosition_eq (pre post : List Char) :
    offsetToPosition (utf8 (pre ++ post)) (byteLen pre) =
      ⟨lastLine pre, byteLen (lastLineText pre)⟩ := by
  rw [offsetToPosition, take_byteLen, foldl_advance_utf8]
  simp only [Nat.zero_add, Position.mk.injEq, true_and]
  split
  next h => rw [lastLineText_single h]
  next => rfl

/-! ## When positions are right -/

/-- How many more bytes than UTF-16 units a character has. -/
def surplus (c : Char) : Nat := c.utf8Size - units c

/-- The bytes of a line beyond its units are none, or fill the counter up. -/
structure ColumnAgrees (line : List Char) : Prop where
  units : unitLen line < 2 ^ 32
  surplus : 2 ^ 32 ∣ (line.map surplus).sum

/-- The column is the length in bytes of a beginning of the line. -/
def WithinLine (text : List Char) (p : LspPosition) : Prop :=
  ∃ within, within <+: lineContent p.line.toNat text ∧ p.character.toNat = byteLen within

theorem utf8Size_units (c : Char) : c.utf8Size = units c + surplus c := by
  have := c.utf8Size_pos
  unfold surplus units
  split
  · omega
  next h =>
    have : c.utf8Size = 4 := Char.utf8Size_eq_four_iff.mpr
      (UInt32.lt_iff_toNat_lt.mpr (Nat.lt_of_succ_le (Nat.not_lt.mp h)))
    omega

theorem byteLen_units (cs : List Char) : byteLen cs = unitLen cs + (cs.map surplus).sum := by
  induction cs with
  | nil => rfl
  | cons c cs ih =>
    have hunits : unitLen (c :: cs) = units c + unitLen cs := by
      rw [unitLen, List.map_cons, List.sum_cons, unitLen]
    rw [byteLen_cons, ih, utf8Size_units, hunits, List.map_cons, List.sum_cons]
    omega

theorem lastLine_split (pre : List Char) :
    lineBefore (lastLine pre) pre ++ lastLineText pre = pre := lineBefore_lineFrom _ _

theorem isPosition_iff (pre post : List Char) :
    IsPosition pre (offsetToPositionU32 (utf8 (pre ++ post)) (byteLen pre)) ↔
      lastLine pre < 2 ^ 32 ∧ ColumnAgrees (lastLineText pre) := by
  rw [offsetToPositionU32_low, offsetToPosition_eq, byteLen_units]
  constructor
  · rintro ⟨hline, hcol⟩
    rw [low_line] at hline
    rw [low_character] at hcol
    dsimp only at hline hcol
    exact ⟨by omega, by omega, by omega⟩
  · rintro ⟨hline, hunits, hsurplus⟩
    constructor
    · rw [low_line]
      exact Nat.mod_eq_of_lt hline
    · rw [low_character]
      dsimp only
      omega

theorem comesBack_iff (pre post : List Char) :
    positionToOffset (utf8 (pre ++ post))
        (offsetToPositionU32 (utf8 (pre ++ post)) (byteLen pre)) = byteLen pre ↔
      lastLine pre < 2 ^ 32 ∧ byteLen (lastLineText pre) < 2 ^ 32 := by
  rw [offsetToPositionU32_low, offsetToPosition_eq, positionToOffset_eq, low_line,
    low_character]
  dsimp only
  have hline : lastLine pre % 2 ^ 32 ≤ lastLine pre := Nat.mod_le _ _
  have hcol : byteLen (lastLineText pre) % 2 ^ 32 ≤ byteLen (lastLineText pre) := Nat.mod_le _ _
  have hpre := congrArg byteLen (lastLine_split pre)
  rw [byteLen_append] at hpre
  rw [lineBefore_append hline]
  rcases Nat.lt_or_ge (lastLine pre) (2 ^ 32) with hlow | hhigh
  · rw [Nat.mod_eq_of_lt hlow]
    omega
  · have := lineBefore_lt (m := lastLine pre % 2 ^ 32) (by omega) (Nat.le_refl (lastLine pre))
    omega

/-- The content of a line is where the line begins. -/
theorem lineContent_prefix (n : Nat) (text : List Char) :
    lineContent n text <+: lineFrom n text := by
  have hline := List.takeWhile_prefix (l := lineFrom n text) (· ≠ '\n')
  unfold lineContent
  dsimp only
  split
  · exact (List.dropLast_prefix _).trans hline
  · exact hline

/-- Of two beginnings of a text the one with fewer bytes begins the other. -/
theorem prefix_of_byteLen_le {a b r s : List Char} (h : a ++ r = b ++ s)
    (hle : byteLen a ≤ byteLen b) : a <+: b := by
  rcases List.append_eq_append_iff.mp h with ⟨mid, rfl, -⟩ | ⟨mid, rfl, -⟩
  · exact List.prefix_append a mid
  · rw [byteLen_append] at hle
    obtain rfl := byteLen_eq_zero (show byteLen mid = 0 by omega)
    simp only [List.append_nil, List.prefix_refl]

theorem inLine_iff (text : List Char) (p : LspPosition) :
    InLine text p.line.toNat (positionToOffset (utf8 text) p) ↔ WithinLine text p := by
  obtain ⟨rest, hrest⟩ := lineContent_prefix p.line.toNat text
  have htext := lineBefore_lineFrom p.line.toNat text
  rw [← hrest, ← List.append_assoc] at htext
  rw [positionToOffset_eq]
  constructor
  · rintro ⟨⟨a, b, hab, hlen⟩, hline, -⟩
    -- the offset is not before the line and not behind its content
    have hsplit := hab.symm.trans htext.symm
    obtain ⟨within, rfl⟩ : lineBefore p.line.toNat text <+: a :=
      prefix_of_byteLen_le ((List.append_assoc _ _ _).symm.trans hsplit.symm)
        (by rw [hlen]; exact Nat.le_add_right _ _)
    rw [byteLen_append, Nat.add_left_cancel_iff] at hlen
    rw [List.append_assoc, List.append_assoc, List.append_cancel_left_eq] at hsplit
    exact ⟨within, prefix_of_byteLen_le hsplit (by omega), hlen.symm⟩
  · rintro ⟨within, ⟨todo, hwithin⟩, hcol⟩
    have hlen := congrArg byteLen htext
    rw [← hwithin] at htext hlen
    simp only [byteLen_append] at hlen
    refine ⟨⟨lineBefore p.line.toNat text ++ within, todo ++ rest, ?_, ?_⟩, ?_, ?_⟩
    · simpa using htext.symm
    · rw [byteLen_append, hcol]
    · rw [← hwithin, byteLen_append, hcol]
      omega
    · omega

/-- An offset is shown at its place exactly when the characters before it on
its line have as many UTF-16 units as bytes (on 32 bits), it comes back
wherever the counters do not overflow, and a position leads into its line
exactly when its column is a boundary of the line in bytes. -/
theorem editor_positions_iff (pre post : List Char) (p : LspPosition) :
    (IsPosition pre (offsetToPositionU32 (utf8 (pre ++ post)) (byteLen pre)) ↔
      lastLine pre < 2 ^ 32 ∧ ColumnAgrees (lastLineText pre)) ∧
    (positionToOffset (utf8 (pre ++ post))
        (offsetToPositionU32 (utf8 (pre ++ post)) (byteLen pre)) = byteLen pre ↔
      lastLine pre < 2 ^ 32 ∧ byteLen (lastLineText pre) < 2 ^ 32) ∧
    (InLine (pre ++ post) p.line.toNat (positionToOffset (utf8 (pre ++ post)) p) ↔
      WithinLine (pre ++ post) p) :=
  ⟨isPosition_iff pre post, comesBack_iff pre post, inLine_iff _ p⟩

/-- Behind an accented letter the column is one too large, and column 1 of an
empty text is behind its end. -/
theorem accent_shifts :
    ¬ (∀ pre post, IsPosition pre (offsetToPositionU32 (utf8 (pre ++ post)) (byteLen pre))) ∧
    ¬ ∀ text p, InLine text p.line.toNat (positionToOffset (utf8 text) p) := by
  constructor
  · intro h
    exact absurd (h ['é'] []).character (by decide)
  · intro h
    exact absurd (h [] ⟨0, 1⟩).text (by decide)

end RustPlc.Editor
