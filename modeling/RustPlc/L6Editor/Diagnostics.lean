import Mathlib.Data.List.Nodup
import Mathlib.Data.List.TakeWhile
import RustPlc.L2Semantics.AnalyzeModule
import RustPlc.L2Syntax.MultiFile

/-!
# Diagnostics of the language server

`Document` of crates/st-lsp/src/document.rs and `publish_diagnostics` of
crates/st-lsp/src/server.rs. A document is analyzed behind the standard
library and the other files of its project; what is found is in the positions
of the merged text, and the slice of the document is published.

Results:
* `offsetToPosition_injective`: two offsets of a text are not shown at one
  position.
* `Document.update_eq_new`: an edit without errors gives the document that
  opening the new text gives.
* `merging_iff`: when positions, errors and publications are right.
-/
namespace RustPlc.Editor

open RustPlc.Syntax RustPlc.Syntax.Ranged RustPlc.Analysis

/-! ## Positions -/

structure Position where
  line : Nat
  character : Nat
  deriving DecidableEq, Repr

structure LspRange where
  start : Position
  stop : Position
  deriving DecidableEq, Repr

def advance (p : Position) (b : UInt8) : Position :=
  if b = 10 then ⟨p.line + 1, 0⟩ else ⟨p.line, p.character + 1⟩

/-- mirrors crates/st-lsp/src/document.rs:334-347 -/
def offsetToPosition (source : Text) (offset : Nat) : Position :=
  (source.take offset).foldl advance ⟨0, 0⟩

/-- mirrors crates/st-lsp/src/document.rs:350-355 -/
def textRangeToLsp (source : Text) (r : TextRange) : LspRange :=
  ⟨offsetToPosition source r.start, offsetToPosition source r.stop⟩

/-- Reading order of positions. -/
def Position.before (p q : Position) : Prop :=
  p.line < q.line ∨ p.line = q.line ∧ p.character < q.character

theorem advance_before (p : Position) (b : UInt8) : p.before (advance p b) := by
  unfold advance Position.before
  by_cases hb : b = 10
  · rw [if_pos hb]
    exact .inl (Nat.lt_succ_self _)
  · rw [if_neg hb]
    exact .inr ⟨rfl, Nat.lt_succ_self _⟩

theorem Position.before.trans {p q r : Position} (h : p.before q) (h' : q.before r) :
    p.before r := by
  unfold before at *
  omega

theorem offsetToPosition_succ (source : Text) {offset : Nat} (h : offset < source.length) :
    offsetToPosition source (offset + 1) =
      advance (offsetToPosition source offset) source[offset] := by
  unfold offsetToPosition
  rw [List.take_add_one, List.getElem?_eq_getElem h, Option.toList_some, List.foldl_append]
  rfl

theorem offsetToPosition_before (source : Text) {a b : Nat} (hab : a < b)
    (hb : b ≤ source.length) : (offsetToPosition source a).before (offsetToPosition source b) := by
  induction hab with
  | refl =>
    rw [offsetToPosition_succ source (by omega)]
    exact advance_before _ _
  | step hab ih =>
    rw [offsetToPosition_succ source (by omega)]
    exact (ih (by omega)).trans (advance_before _ _)

theorem offsetToPosition_injective (source : Text) {a b : Nat} (ha : a ≤ source.length)
    (hb : b ≤ source.length) (h : offsetToPosition source a = offsetToPosition source b) :
    a = b := by
  have hirrefl (p : Position) : ¬p.before p := by
    unfold Position.before
    omega
  rcases Nat.lt_trichotomy a b with hlt | heq | hlt
  · exact absurd (h ▸ offsetToPosition_before source hlt hb) (hirrefl _)
  · exact heq
  · exact absurd (h ▸ offsetToPosition_before source hlt ha) (hirrefl _)

/-! ## Documents -/

/-- mirrors crates/st-lsp/src/document.rs:11-30, without the trees. -/
structure Document where
  source : Text
  lowerErrors : List LowerError
  analysis : Analyzer
  version : Option Int
  projectFiles : List (String × Text)
  filePath : Option String
  virtualOffset : Nat

/-- The files merged for a document: the library, its siblings, itself. -/
def documentSources (F : Frontend) (siblings : List Text) (source : Text) : List Text :=
  F.builtinStdlib ++ siblings ++ [source]

/-- The offset of the document in the merged text. -/
def documentOffset (F : Frontend) (siblings : List Text) : Nat :=
  Frontend.totalLength (F.builtinStdlib ++ siblings)

/-- What analyzing a text behind its siblings gives. -/
def Document.analyzed (F : Frontend) (siblings : List Text) (source : Text)
    (version : Option Int) (projectFiles : List (String × Text)) (filePath : Option String) :
    Document :=
  let merged := F.parseMulti (documentSources F siblings source)
  { source, version, projectFiles, filePath
    lowerErrors := merged.errors
    analysis := analyze merged.sourceFile.bare
    virtualOffset := documentOffset F siblings }

def siblingsOf (files : List (String × Text)) (path : String) : List (String × Text) :=
  files.filter fun f => f.1 != path

/-- The files of the project, the file of the document last. -/
def projectFilesOf (project : List (String × Text)) (path : String) : List (String × Text) :=
  siblingsOf project path ++ (project.filter fun f => f.1 == path).getLast?.toList

/-- mirrors crates/st-lsp/src/document.rs:41-46, 130-231: `project` is what
`discover_project` and `load_project_sources` find for the file. -/
def Document.newWithUri (F : Frontend) (project : List (String × Text)) (source : Text)
    (version : Option Int) (path : String) : Document :=
  .analyzed F ((siblingsOf project path).map (·.2)) source version (projectFilesOf project path)
    (some path)

/-- mirrors crates/st-lsp/src/document.rs:57-124. The analysis of a text with
errors is dropped. -/
def Document.update (F : Frontend) (treeHasError : Bool) (doc : Document) (source : Text)
    (version : Option Int) : Document :=
  let siblings := match doc.filePath with
    | some path => siblingsOf doc.projectFiles path
    | none => doc.projectFiles
  let fresh := Document.analyzed F (siblings.map (·.2)) source version doc.projectFiles doc.filePath
  if !fresh.lowerErrors.isEmpty || treeHasError then { fresh with analysis := doc.analysis }
  else fresh

/-! ## `publish_diagnostics` -/

structure LspDiagnostic where
  range : LspRange
  severity : Severity
  code : Option DiagnosticCode
  message : String
  deriving DecidableEq, Repr

/-- mirrors crates/st-lsp/src/server.rs:36-50 -/
def publishError (doc : Document) (err : LowerError) : Option LspDiagnostic :=
  let fileStart := doc.virtualOffset
  let fileEnd := fileStart + doc.source.length
  if err.range.start < fileStart ∨ fileEnd < err.range.start then none
  else some ⟨textRangeToLsp doc.source ⟨err.range.start - fileStart,
    min (err.range.stop - fileStart) doc.source.length⟩, .error, none, err.message⟩

/-- mirrors crates/st-lsp/src/server.rs:54-76 -/
def publishSemantic (doc : Document) (d : Diagnostic) : Option LspDiagnostic :=
  let fileStart := doc.virtualOffset
  let fileEnd := fileStart + doc.source.length
  if d.range.start < fileStart ∨ fileEnd < d.range.stop then none
  else some ⟨textRangeToLsp doc.source ⟨d.range.start - fileStart, d.range.stop - fileStart⟩,
    d.severity, some d.code, d.message⟩

/-- mirrors crates/st-lsp/src/server.rs:27-83 -/
def publishDiagnostics (doc : Document) : List LspDiagnostic :=
  doc.lowerErrors.filterMap (publishError doc) ++
    doc.analysis.diagnostics.filterMap (publishSemantic doc)

/-! ## Edits -/

theorem siblingsOf_projectFilesOf (project : List (String × Text)) (path : String) :
    siblingsOf (projectFilesOf project path) path = siblingsOf project path := by
  have hlast : ((project.filter fun f => f.1 == path).getLast?.toList.filter
      fun f => f.1 != path) = [] := by
    rw [List.filter_eq_nil_iff]
    intro f hf
    have hmem := List.mem_of_getLast? (Option.mem_toList.mp hf)
    simpa using (List.mem_filter.mp hmem).2
  simp only [projectFilesOf, siblingsOf, List.filter_append, List.filter_filter, Bool.and_self,
    hlast, List.append_nil]

/-- **An edit is an opening.** A document that was opened, and edited any
number of times, shows after an edit what opening the new text shows; an edit
with errors keeps the analysis of the last text without. -/
theorem Document.update_eq_new (F : Frontend) (project : List (String × Text)) (path : String)
    (treeHasError : Bool) (doc : Document) (source : Text) (version : Option Int)
    (hpath : doc.filePath = some path) (hfiles : doc.projectFiles = projectFilesOf project path) :
    let fresh := Document.newWithUri F project source version path
    doc.update F treeHasError source version =
      if !fresh.lowerErrors.isEmpty || treeHasError then { fresh with analysis := doc.analysis }
      else fresh := by
  simp only [Document.update, hpath, hfiles, siblingsOf_projectFilesOf, Document.newWithUri]
  rfl

/-! ## Projects -/

/-- The files of a project under their paths. -/
structure Workspace where
  files : List (String × Text)
  nodup : (files.map (·.1)).Nodup

namespace Workspace

variable (F : Frontend) (W : Workspace)

def siblings (j : String × Text) : List (String × Text) := siblingsOf W.files j.1

/-- The document of a file, opened with the text the project has. -/
def document (j : String × Text) : Document := .newWithUri F W.files j.2 none j.1

/-- The files before `k` in the text merged for `j`. -/
def filesBefore (j k : String × Text) : List Text :=
  F.builtinStdlib ++ (if k.1 = j.1 then (W.siblings j).map (·.2)
    else ((W.siblings j).takeWhile fun f => f.1 != k.1).map (·.2))

/-- Where file `k` begins in the text merged for `j`. -/
def offsetIn (j k : String × Text) : Nat := Frontend.totalLength (filesBefore F W j k)

/-- The files between `k` and `j` in the text merged for `j`. -/
def filesBetween (j k : String × Text) : List Text :=
  ((W.siblings j).dropWhile fun f => f.1 != k.1).tail.map (·.2)

def gap (j k : String × Text) : Nat := Frontend.totalLength (W.filesBetween j k)

/-- An error as it is shown in its own file. -/
def shownError (source : Text) (e : LowerError) : LspDiagnostic :=
  ⟨textRangeToLsp source ⟨e.range.start, min e.range.stop source.length⟩, .error, none, e.message⟩

/-- A diagnostic reported at a range of a file. -/
def shownSemantic (source : Text) (severity : Severity) (code : DiagnosticCode) (message : String)
    (r : TextRange) : LspDiagnostic :=
  ⟨textRangeToLsp source r, severity, some code, message⟩

/-- Each error of a file, and each diagnostic reported at a range of its
part of the merged tree, is published for the file, at its place, and for no
other file. -/
def PublishesRight : Prop :=
  ∀ j ∈ W.files, ∀ k ∈ W.files,
    (∀ e ∈ F.errors k.2,
      Frontend.shiftError (offsetIn F W j k) e ∈ (document F W j).lowerErrors ∧
      publishError (document F W j) (Frontend.shiftError (offsetIn F W j k) e) =
        if k.1 = j.1 then some (shownError k.2 e) else none) ∧
    (∀ r ∈ (ranges (F.items k.2)).zip (ranges (F.mergedItems (offsetIn F W j k) k.2)),
      ∀ severity code message,
        publishSemantic (document F W j) ⟨severity, code, message, r.2⟩ =
          if k.1 = j.1 then some (shownSemantic k.2 severity code message r.1) else none)

/-- Nothing stands before a file, or the shift reaches all of its tree; and
what begins at the very end of a file has text between itself and the file of
another document. -/
def SlicesApart : Prop :=
  ∀ k ∈ W.files,
    (offsetIn F W k k = 0 ∨ ∀ p ∈ places (F.items k.2), p.shifted = true) ∧
    ∀ r, r ∈ (F.errors k.2).map LowerError.range ∨ r ∈ ranges (F.items k.2) →
      r.start = k.2.length → ∀ j ∈ W.files, j.1 ≠ k.1 → 0 < W.gap j k

/-! ### Where the files stand -/

theorem siblings_split {j k : String × Text} (hk : k ∈ W.files) (hne : k.1 ≠ j.1) :
    W.siblings j = ((W.siblings j).takeWhile fun f => f.1 != k.1) ++
      k :: ((W.siblings j).dropWhile fun f => f.1 != k.1).tail := by
  have hmem : k ∈ W.siblings j := List.mem_filter.mpr ⟨hk, by simpa using hne⟩
  have hdrop : ((W.siblings j).dropWhile fun f => f.1 != k.1) ≠ [] := by
    rw [ne_eq, List.dropWhile_eq_nil_iff]
    intro h
    simpa using h k hmem
  obtain ⟨f, rest, hrest⟩ := List.exists_cons_of_ne_nil hdrop
  have hf : f.1 = k.1 := by
    have := List.head_dropWhile_not (fun f : String × Text => f.1 != k.1) hdrop
    simpa [hrest] using this
  have hfmem : f ∈ W.files := by
    have hd : f ∈ (W.siblings j).dropWhile fun f => f.1 != k.1 := by rw [hrest]; exact .head _
    exact (List.mem_filter.mp ((List.dropWhile_suffix _).subset hd)).1
  have hfk : f = k := List.inj_on_of_nodup_map W.nodup hfmem hk hf
  subst hfk
  conv => lhs; rw [← List.takeWhile_append_dropWhile (p := fun g => g.1 != f.1) (l := W.siblings j)]
  rw [hrest, List.tail_cons]

theorem offsetIn_self (k : String × Text) :
    offsetIn F W k k = (document F W k).virtualOffset := by
  simp only [offsetIn, filesBefore, if_true]
  rfl

theorem eq_of_path {j k : String × Text} (hj : j ∈ W.files) (hk : k ∈ W.files) (h : k.1 = j.1) :
    k = j :=
  List.inj_on_of_nodup_map W.nodup hk hj h

theorem documentSources_other {j k : String × Text} (hk : k ∈ W.files) (hne : k.1 ≠ j.1) :
    documentSources F ((W.siblings j).map (·.2)) j.2 =
      filesBefore F W j k ++ k.2 :: (W.filesBetween j k ++ [j.2]) := by
  conv => lhs; rw [W.siblings_split hk hne]
  simp only [documentSources, filesBefore, filesBetween, if_neg hne, List.map_append, List.map_cons,
    List.append_assoc, List.cons_append]

/-- The files before `k`, file `k` and the files between make up the text
before the document. -/
theorem offsetIn_other {j k : String × Text} (hk : k ∈ W.files) (hne : k.1 ≠ j.1) :
    offsetIn F W j k + k.2.length + W.gap j k = (document F W j).virtualOffset := by
  have hsplit := congrArg Frontend.totalLength (W.documentSources_other F hk hne)
  have hdoc : (document F W j).virtualOffset =
      Frontend.totalLength (F.builtinStdlib ++ (W.siblings j).map (·.2)) := rfl
  have hcons (t : Text) (ts : List Text) :
      Frontend.totalLength (t :: ts) = t.length + Frontend.totalLength ts := by
    simp only [Frontend.totalLength, List.map_cons, List.sum_cons]
  simp only [documentSources, Frontend.totalLength_append, hcons] at hsplit
  rw [hdoc, offsetIn, gap, Frontend.totalLength_append]
  omega

theorem totalLength_le_of_sublist {a b : List Text} (h : a.Sublist b) :
    Frontend.totalLength a ≤ Frontend.totalLength b := by
  induction h with
  | slnil => exact Nat.le_refl _
  | cons t _ ih =>
    simp only [Frontend.totalLength, List.map_cons, List.sum_cons] at *
    omega
  | cons_cons t _ ih =>
    simp only [Frontend.totalLength, List.map_cons, List.sum_cons] at *
    omega

/-- No document has more text before a file than the document of the file. -/
theorem offsetIn_le (j k : String × Text) : offsetIn F W j k ≤ offsetIn F W k k := by
  by_cases hne : k.1 = j.1
  · have hsib : W.siblings k = W.siblings j := by rw [siblings, siblings, hne]
    simp only [offsetIn, filesBefore, if_pos hne, if_true, hsib]
    exact Nat.le_refl _
  · refine totalLength_le_of_sublist ?_
    simp only [filesBefore, if_neg hne, if_true]
    refine List.Sublist.append (List.Sublist.refl _) (List.Sublist.map _ ?_)
    have hall : ∀ f ∈ (W.siblings j).takeWhile (fun f => f.1 != k.1), (f.1 != k.1) = true :=
      fun f hf => List.mem_takeWhile_imp (p := fun f : String × Text => f.1 != k.1) hf
    rw [← List.filter_eq_self.mpr hall]
    exact ((List.takeWhile_sublist _).trans List.filter_sublist).filter _

/-! ### What is published -/

theorem publishSemantic_none_iff {doc : Document} {d : Diagnostic} :
    publishSemantic doc d = none ↔ d.range.start < doc.virtualOffset ∨
      doc.virtualOffset + doc.source.length < d.range.stop := by
  unfold publishSemantic
  simp only [ite_eq_left_iff, reduceCtorEq, imp_false, not_not]

theorem publishError_none_iff {doc : Document} {e : LowerError} :
    publishError doc e = none ↔ e.range.start < doc.virtualOffset ∨
      doc.virtualOffset + doc.source.length < e.range.start := by
  unfold publishError
  simp only [ite_eq_left_iff, reduceCtorEq, imp_false, not_not]

theorem publishSemantic_some {doc : Document} {d : Diagnostic} {shown : LspDiagnostic}
    (h : publishSemantic doc d = some shown) :
    doc.virtualOffset ≤ d.range.start ∧ d.range.stop ≤ doc.virtualOffset + doc.source.length ∧
      shown.range = textRangeToLsp doc.source
        ⟨d.range.start - doc.virtualOffset, d.range.stop - doc.virtualOffset⟩ := by
  unfold publishSemantic at h
  simp only at h
  split at h
  · cases h
  next hin =>
    cases h
    exact ⟨by omega, by omega, rfl⟩

theorem move_range_of {offset : Nat} {p : Place} (h : offset = 0 ∨ p.shifted = true) :
    (p.move offset).range = shift offset p.range :=
  (Frontend.move_range_iff offset p).mpr h

/-- In the document of its own file a range is shown at its place exactly
when the shift reaches it, or there is nothing to shift over. -/
theorem published_own_iff (k : String × Text) {p : Place} (hstart : p.range.start ≤ k.2.length)
    (hstop : p.range.stop ≤ k.2.length) :
    (∀ severity code message, publishSemantic (document F W k)
        ⟨severity, code, message, (p.move (offsetIn F W k k)).range⟩ =
      some (shownSemantic k.2 severity code message p.range)) ↔
    offsetIn F W k k = 0 ∨ p.shifted = true := by
  have hoff := W.offsetIn_self F k
  have hsource : (document F W k).source = k.2 := rfl
  constructor
  · intro h
    by_cases hzero : offsetIn F W k k = 0
    · exact .inl hzero
    · refine .inr (by_contra fun hleft => ?_)
      have hrange : (p.move (offsetIn F W k k)).range = p.range := by
        rw [Place.move, if_neg hleft]
      rw [hrange] at h
      obtain ⟨hbegin, -, hshown⟩ := publishSemantic_some (h .error .deadCode "")
      replace hbegin : (document F W k).virtualOffset ≤ p.range.start := hbegin
      have hpos : offsetToPosition k.2 p.range.start =
          offsetToPosition k.2 (p.range.start - (document F W k).virtualOffset) :=
        congrArg LspRange.start hshown
      have heq := offsetToPosition_injective k.2 hstart (by omega) hpos
      omega
  · intro hreached severity code message
    have hin : ¬(p.range.start + offsetIn F W k k < (document F W k).virtualOffset ∨
        (document F W k).virtualOffset + k.2.length < p.range.stop + offsetIn F W k k) := by omega
    rw [move_range_of hreached]
    simp only [publishSemantic, shift, hsource]
    rw [if_neg hin, shownSemantic, hoff, Nat.add_sub_cancel, Nat.add_sub_cancel]

/-- In the document of another file a range that was shifted is not shown,
unless it begins where its file ends and no text stands between. -/
theorem published_other_iff {j k : String × Text} (hk : k ∈ W.files) (hne : k.1 ≠ j.1) {p : Place}
    (hstart : p.range.start ≤ p.range.stop) (hstop : p.range.stop ≤ k.2.length)
    (hreached : offsetIn F W k k = 0 ∨ p.shifted = true) :
    (∀ severity code message, publishSemantic (document F W j)
        ⟨severity, code, message, (p.move (offsetIn F W j k)).range⟩ = none) ↔
    (p.range.start = k.2.length → 0 < W.gap j k) := by
  have hoff := W.offsetIn_other F hk hne
  have hle := W.offsetIn_le F j k
  have hrange : (p.move (offsetIn F W j k)).range = shift (offsetIn F W j k) p.range :=
    move_range_of (hreached.imp_left fun hzero => by omega)
  rw [hrange]
  constructor
  · intro h hend
    have hout := publishSemantic_none_iff.mp (h .error .deadCode "")
    simp only [shift] at hout
    omega
  · intro h severity code message
    refine publishSemantic_none_iff.mpr ?_
    simp only [shift]
    omega

theorem publishError_own {k : String × Text} {e : LowerError} (h : e.range.start ≤ k.2.length) :
    publishError (document F W k) (Frontend.shiftError (offsetIn F W k k) e) =
      some (shownError k.2 e) := by
  have hoff := W.offsetIn_self F k
  have hsource : (document F W k).source = k.2 := rfl
  have hin : ¬(e.range.start + offsetIn F W k k < (document F W k).virtualOffset ∨
      (document F W k).virtualOffset + k.2.length < e.range.start + offsetIn F W k k) := by omega
  simp only [publishError, Frontend.shiftError, shift, hsource]
  rw [if_neg hin, shownError, hoff, Nat.add_sub_cancel, Nat.add_sub_cancel]

theorem publishError_other_iff {j k : String × Text} (hk : k ∈ W.files) (hne : k.1 ≠ j.1)
    {e : LowerError} (h : e.range.start ≤ k.2.length) :
    publishError (document F W j) (Frontend.shiftError (offsetIn F W j k) e) = none ↔
      (e.range.start = k.2.length → 0 < W.gap j k) := by
  have hoff := W.offsetIn_other F hk hne
  rw [publishError_none_iff]
  simp only [Frontend.shiftError, shift]
  omega

theorem documentSources_split {j k : String × Text} (hj : j ∈ W.files) (hk : k ∈ W.files) :
    ∃ after, documentSources F ((W.siblings j).map (·.2)) j.2 =
      filesBefore F W j k ++ k.2 :: after := by
  by_cases hpath : k.1 = j.1
  · refine ⟨[], ?_⟩
    rw [W.eq_of_path hj hk hpath]
    simp only [documentSources, filesBefore, if_true]
  · exact ⟨_, W.documentSources_other F hk hpath⟩

theorem error_reported {j k : String × Text} (hj : j ∈ W.files) (hk : k ∈ W.files)
    {e : LowerError} (he : e ∈ F.errors k.2) :
    Frontend.shiftError (offsetIn F W j k) e ∈ (document F W j).lowerErrors := by
  obtain ⟨after, hsplit⟩ := W.documentSources_split F hj hk
  have hall : (document F W j).lowerErrors =
      F.placedErrors 0 (documentSources F ((W.siblings j).map (·.2)) j.2) := by
    have h := F.reportsErrors_of_stdlib ((W.siblings j).map (·.2) ++ [j.2])
    rw [← List.append_assoc] at h
    exact h
  have h := F.mem_placedErrors k.2 after he (filesBefore F W j k) 0
  rw [hall, hsplit, offsetIn]
  rwa [Nat.zero_add] at h

/-- The ranges of a file beside those of its part of a merged tree. -/
theorem zip_ranges (offset : Nat) (source : Text) :
    (ranges (F.items source)).zip (ranges (F.mergedItems offset source)) =
      (places (F.items source)).map fun p => (p.range, (p.move offset).range) := by
  simp only [ranges, Frontend.places_mergedItems, List.map_map, List.zip_map', Function.comp_apply]

theorem publishesRight_iff : W.PublishesRight F ↔ W.SlicesApart F := by
  have hplace {k : String × Text} {p : Place} (hp : p ∈ places (F.items k.2)) :
      p.range.start ≤ p.range.stop ∧ p.range.stop ≤ k.2.length :=
    F.ranges_in_text k.2 p.range (List.mem_map_of_mem hp)
  simp only [PublishesRight, zip_ranges, List.forall_mem_map]
  constructor
  · intro h k hk
    have hreached : offsetIn F W k k = 0 ∨ ∀ p ∈ places (F.items k.2), p.shifted = true := by
      by_cases hzero : offsetIn F W k k = 0
      · exact .inl hzero
      · refine .inr fun p hp => ?_
        obtain ⟨hstart, hstop⟩ := hplace hp
        have hown := (h k hk k hk).2 p hp
        simp only [if_true] at hown
        exact ((W.published_own_iff F k (by omega) hstop).mp hown).resolve_left hzero
    refine ⟨hreached, fun r hr hend j hj hne => ?_⟩
    rcases hr with hr | hr
    · obtain ⟨e, he, rfl⟩ := List.mem_map.mp hr
      have hother := ((h j hj k hk).1 e he).2
      rw [if_neg (Ne.symm hne)] at hother
      exact (W.publishError_other_iff F hk (Ne.symm hne) (by omega)).mp hother hend
    · obtain ⟨p, hp, rfl⟩ := List.mem_map.mp hr
      obtain ⟨hstart, hstop⟩ := hplace hp
      have hother := (h j hj k hk).2 p hp
      simp only [if_neg (Ne.symm hne)] at hother
      exact (W.published_other_iff F hk (Ne.symm hne) hstart hstop
        (hreached.imp_right fun hall => hall p hp)).mp hother hend
  · intro h j hj k hk
    obtain ⟨hreached, hend⟩ := h k hk
    by_cases hpath : k.1 = j.1
    · obtain rfl := W.eq_of_path hj hk hpath
      refine ⟨fun e he => ⟨W.error_reported F hk hk he, ?_⟩, fun p hp => ?_⟩
      · rw [if_pos rfl]
        exact W.publishError_own F (F.errors_in_text k.2 e he)
      · obtain ⟨hstart, hstop⟩ := hplace hp
        simp only [if_true]
        exact (W.published_own_iff F k (by omega) hstop).mpr
          (hreached.imp_right fun hall => hall p hp)
    · refine ⟨fun e he => ⟨W.error_reported F hj hk he, ?_⟩, fun p hp => ?_⟩
      · rw [if_neg hpath]
        refine (W.publishError_other_iff F hk hpath (F.errors_in_text k.2 e he)).mpr fun hlast => ?_
        exact hend _ (.inl (List.mem_map_of_mem he)) hlast j hj (Ne.symm hpath)
      · obtain ⟨hstart, hstop⟩ := hplace hp
        simp only [if_neg hpath]
        refine (W.published_other_iff F hk hpath hstart hstop
          (hreached.imp_right fun hall => hall p hp)).mpr fun hlast => ?_
        exact hend _ (.inr (List.mem_map_of_mem hp)) hlast j hj (Ne.symm hpath)

end Workspace

/-- **Merging files.** For every list of files and every project: the ranges
of the merged tree are those of the files behind one another, no error is
lost, and every error and every diagnostic of a file is published for that
file and no other, if and only if the shift reaches every range of the files
that have text before them, no file in the place of the library has errors,
and nothing that begins at the very end of a file touches the file of another
document. -/
theorem merging_iff (F : Frontend) (sources : List Text) (W : Workspace) :
    F.KeepsPositions sources ∧ F.ReportsErrors sources ∧ W.PublishesRight F ↔
      F.ShiftReaches sources ∧ F.SwallowsNothing sources ∧ W.SlicesApart F := by
  rw [F.keepsPositions_iff, F.reportsErrors_iff, W.publishesRight_iff F]

/-- A program that calls a function nobody declares. -/
def callerText : Text := "PROGRAM Main\n  Foo();\nEND_PROGRAM\n".toUTF8.data.toList

def callerTree : Ranged.SourceFile :=
  ⟨[.program ⟨⟨"Main", ⟨8, 12⟩⟩, [],
    [.functionCall ⟨[⟨"Foo", ⟨15, 18⟩⟩], ⟨15, 18⟩⟩ [] ⟨15, 20⟩], ⟨0, 33⟩⟩], ⟨0, 34⟩⟩

/-- The parser on the program, behind a library that declares nothing. -/
def callerFrontend : Frontend where
  parse t := if t = callerText then ⟨callerTree, []⟩ else ⟨⟨[], ⟨0, t.length⟩⟩, []⟩
  builtinStdlib := ["(* mathematics library *)\n".toUTF8.data.toList]
  ranges_in_text t r hr := by
    by_cases ht : t = callerText
    · subst ht
      rw [if_pos rfl] at hr
      revert r
      decide +kernel
    · rw [if_neg ht] at hr
      cases hr
  errors_in_text t e he := by
    split at he <;> cases he
  stdlib_parses t _ := by
    split <;> rfl

def callerProject : Workspace := ⟨[("main.st", callerText)], by decide⟩

/-- The name of the call keeps its position in the file, which the merged
text gives to the library: the program's only error is found there, and is
published for no file. -/
theorem undeclared_call_lost :
    ¬(callerFrontend.KeepsPositions (callerFrontend.builtinStdlib ++ [callerText]) ∧
      callerFrontend.ReportsErrors (callerFrontend.builtinStdlib ++ [callerText]) ∧
      callerProject.PublishesRight callerFrontend) ∧
    (callerProject.document callerFrontend ("main.st", callerText)).analysis.diagnostics =
      [⟨.error, .undeclaredPou, "undeclared function or function block 'Foo'", ⟨15, 18⟩⟩] ∧
    publishDiagnostics (callerProject.document callerFrontend ("main.st", callerText)) = [] := by
  refine ⟨fun h => ?_, by decide +kernel, by decide +kernel⟩
  have hranges := h.1
  unfold Frontend.KeepsPositions at hranges
  revert hranges
  decide +kernel

end RustPlc.Editor
