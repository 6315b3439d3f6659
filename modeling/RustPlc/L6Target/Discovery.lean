import Mathlib.Data.List.Lex
import Mathlib.Data.List.Perm.Basic
import Mathlib.Data.List.Sort
import Mathlib.Order.WithBot
import RustPlc.Core.Listings
import RustPlc.L6Target.ExcludePatterns

/-!
# Project discovery in a tree

`load_project_yaml`, `autodiscover`, `walk_dir` and `resolve_source_globs` of
crates/st-syntax/src/project.rs on a directory tree with the order in which its
entries are enumerated. Every directory can be read; names are texts.

Which paths a glob pattern stands for is the parameter `matching`, and what the
glob crate returns the parameter `glob`: each matching file once, in any order.

Results
* `walkDir_eq`: the walk finds the sources of the tree that no pattern excludes
  and no skipped directory holds.
* `discovery_iff`: the list has each file once and exactly the files that the
  configuration says when no two of its entries select the same file and no
  file's exclusion is misread. It never depends on the order of enumeration.
-/
namespace RustPlc.Discovery

open RustPlc.Core
open RustPlc.Project (ProjectConfig isExcluded isSource isSkipped found extension matchesPattern
  Excludes Unread NamesAsDir Overlaps HasStem)

/-! ## Paths -/

/-- The components of a path, `..` among them. -/
abbrev PathBuf := List String

/-- `..` stands before every name. -/
def rank (c : String) : WithBot String := if c = ".." then ⊥ else c

theorem rank_injective : Function.Injective rank := by
  intro a b h
  unfold rank at h
  split at h <;> split at h
  next ha hb => rw [ha, hb]
  next => cases h
  next => cases h
  next => exact WithBot.coe_injective h

/-- The order of `PathBuf`. -/
def pathLe (a b : PathBuf) : Prop := a.map rank ≤ b.map rank

instance (a b : PathBuf) : Decidable (pathLe a b) := inferInstanceAs (Decidable (_ ≤ _))

instance : Std.Total pathLe := ⟨fun a b => le_total (a.map rank) (b.map rank)⟩

instance : IsTrans PathBuf pathLe := ⟨fun _ _ _ => le_trans (α := List (WithBot String))⟩

theorem sort_eq_of_perm {a b : List PathBuf} (h : a.Perm b) :
    a.insertionSort pathLe = b.insertionSort pathLe := by
  have hperm := (List.perm_insertionSort pathLe a).trans
    (h.trans (List.perm_insertionSort pathLe b).symm)
  refine hperm.eq_of_pairwise (fun x y _ _ hxy hyx => ?_) (List.pairwise_insertionSort _ a)
    (List.pairwise_insertionSort _ b)
  exact List.map_injective_iff.mpr rank_injective (le_antisymm hxy hyx)

/-- The file a path leads to. -/
def resolved (p : PathBuf) : Path := lexical [] p

/-- `root.join(pattern)` as a text. -/
def joinText (root : PathBuf) (pattern : String) : String :=
  if pattern.toList.head? = some '/' then pattern
  else root.foldr (fun c text => "/" ++ c ++ text) ("/" ++ pattern)

/-! ## The walk -/

/-- mirrors crates/st-syntax/src/project.rs:160-188 -/
def walkDir (exclude : List String) : PathBuf → Listing → List PathBuf
  | _, .nil => []
  | dir, .file name rest =>
    (if isExcluded exclude name then []
      else if isSource name then [dir ++ [name]]
      else []) ++ walkDir exclude dir rest
  | dir, .dir name entries rest =>
    (if isExcluded exclude name then []
      else if isSkipped name then []
      else walkDir exclude (dir ++ [name]) entries) ++ walkDir exclude dir rest

/-- mirrors crates/st-syntax/src/project.rs:153-158 -/
def discoverStFiles (exclude : List String) (dir : PathBuf) (entries : Listing) : List PathBuf :=
  (walkDir exclude dir entries).insertionSort pathLe

section

variable (t : DirTree)

/-- The entries of the directory that is opened. -/
def openDir (opened : List String) : Option Listing :=
  (t.files.walk [] opened).bind t.listing.entriesAt

/-- `path.is_file()` -/
def isFileAt (p : PathBuf) : Bool := (t.files.walk [] p).any fun q => Files.isFile (t.files q)

/-- `path.exists()` -/
def existsAt (opened : List String) : Bool :=
  (t.files.walk [] opened).any fun q => (t.files q).isSome

variable (glob : DirTree → String → Except String (List PathBuf)) (root : PathBuf)

/-- mirrors crates/st-syntax/src/project.rs:223-246, one pattern. -/
def resolvePattern (pattern : String) : Except String (List PathBuf) :=
  if '*' ∈ (joinText root pattern).toList then
    match glob t (joinText root pattern) with
    | .error e => .error ("Invalid glob pattern '" ++ pattern ++ "': " ++ e)
    | .ok paths => .ok (paths.filter (isFileAt t))
  else if existsAt t (openPath root pattern) then .ok [joinPath root pattern]
  else .error ("Source file not found: " ++ joinText root pattern)

def resolvePatterns : List String → Except String (List PathBuf)
  | [] => .ok []
  | pattern :: patterns => do
    let files ← resolvePattern t glob root pattern
    let rest ← resolvePatterns patterns
    return files ++ rest

/-- mirrors crates/st-syntax/src/project.rs:221-249 -/
def resolveSourceGlobs (patterns : List String) : Except String (List PathBuf) :=
  (resolvePatterns t glob root patterns).map fun files => files.insertionSort pathLe

/-- The files before those of the libraries.
mirrors crates/st-syntax/src/project.rs:98-106 -/
def mainFiles (config : ProjectConfig) : Except String (List PathBuf) :=
  match config.sources with
  | some patterns => resolveSourceGlobs t glob root patterns
  | none => match openDir t root with
    | some entries => .ok (discoverStFiles (config.exclude.getD []) root entries)
    | none => .error ("Cannot read directory " ++ joinText root "")

/-- The files of one library directory.
mirrors crates/st-syntax/src/project.rs:111-115 -/
def libraryFiles (lib : String) : List PathBuf :=
  match openDir t (openPath root lib) with
  | some entries => discoverStFiles [] (joinPath root lib) entries
  | none => []

/-- mirrors crates/st-syntax/src/project.rs:88-125 -/
def loadProjectYaml (config : ProjectConfig) : Except String (List PathBuf) := do
  let files ← mainFiles t glob root config
  return files ++ (config.libraries.getD []).flatMap (libraryFiles t root)

/-- mirrors crates/st-syntax/src/project.rs:128-150 -/
def autodiscover (exclude : List String) (extraLibDirs : List PathBuf) :
    Except String (List PathBuf) :=
  match openDir t root with
  | none => .error ("Cannot read directory " ++ joinText root "")
  | some entries => .ok (discoverStFiles exclude root entries ++ extraLibDirs.flatMap fun libDir =>
      match openDir t libDir with
      | some entries => discoverStFiles [] libDir entries
      | none => [])

/-- The source files of the directory `root`, with its configuration if it has one.
mirrors crates/st-syntax/src/project.rs:70-82 -/
def discoverProject : Option ProjectConfig → Except String (List PathBuf)
  | some config => loadProjectYaml t glob root config
  | none => autodiscover t root [] []

/-- `ProjectConfig::default()` -/
def defaultConfig : ProjectConfig := ⟨none, none, none, none⟩

end

/-! ## What the walk finds -/

theorem found_file (exclude : List String) (name : String) :
    found exclude [] [name] = (!isExcluded exclude name && isSource name) := by
  simp [found]

theorem found_dir (exclude : List String) (name : String) {rest : Path} (h : rest ≠ []) :
    found exclude [] (name :: rest) =
      ((!isExcluded exclude name && !isSkipped name) && found exclude [] rest) := by
  obtain ⟨c, cs, rfl⟩ := List.exists_cons_of_ne_nil h
  simp [found, Bool.and_assoc]

/-- **The walk** finds the files of the tree that are found one by one. -/
theorem walkDir_eq (exclude : List String) (dir : PathBuf) (l : Listing) :
    walkDir exclude dir l = (l.filePaths.filter (found exclude [])).map (dir ++ ·) := by
  induction l generalizing dir with
  | nil => rfl
  | file name rest ih =>
    rw [walkDir, ih, Listing.filePaths, List.filter_cons, found_file]
    cases isExcluded exclude name <;> cases isSource name <;> simp
  | dir name entries rest ihentries ih =>
    have hfilter : (entries.filePaths.map (name :: ·)).filter (found exclude []) =
        if isExcluded exclude name ∨ isSkipped name then []
        else (entries.filePaths.filter (found exclude [])).map (name :: ·) := by
      rw [List.filter_map]
      have hdir : ∀ p ∈ entries.filePaths, (found exclude [] ∘ (name :: ·)) p =
          ((!isExcluded exclude name && !isSkipped name) && found exclude [] p) := fun p hp =>
        found_dir exclude name (Listing.ne_nil_of_mem_filePaths hp)
      rw [List.filter_congr hdir]
      cases isExcluded exclude name <;> cases isSkipped name <;> simp
    rw [walkDir, ih, ihentries, Listing.filePaths, List.filter_append, hfilter, List.map_append]
    cases isExcluded exclude name <;> cases isSkipped name <;> simp

/-! ## What is selected -/

/-- The matching files, each once; a pattern is valid or not whatever the tree. -/
structure Exact (glob : DirTree → String → Except String (List PathBuf))
    (matching : String → PathBuf → Prop) : Prop where
  nodup : ∀ {t text paths}, glob t text = .ok paths → paths.Nodup
  mem : ∀ {t text paths p}, glob t text = .ok paths → isFileAt t p = true →
    (p ∈ paths ↔ matching text p)
  valid : ∀ {t text paths}, glob t text = .ok paths → ∀ t', ∃ paths', glob t' text = .ok paths'

/-- An entry of a configuration: a source pattern or a directory that is walked. -/
inductive Selection where
  | pattern (pattern : String)
  | below (opened : List String) (dir : PathBuf) (exclude : List String)

/-- The entries of a configuration; without source patterns the root is walked. -/
def selections (root : PathBuf) (config : ProjectConfig) : List Selection :=
  (match config.sources with
    | some patterns => patterns.map .pattern
    | none => [.below root root (config.exclude.getD [])]) ++
  (config.libraries.getD []).map fun lib => .below (openPath root lib) (joinPath root lib) []

/-- The path is one of those the entry stands for. -/
def Selects (t : DirTree) (matching : String → PathBuf → Prop) (root : PathBuf) :
    Selection → PathBuf → Prop
  | .pattern pattern, p =>
    if '*' ∈ (joinText root pattern).toList then
      matching (joinText root pattern) p ∧ isFileAt t p = true
    else p = joinPath root pattern
  | .below opened dir exclude, p => ∃ entries, openDir t opened = some entries ∧
      ∃ rest ∈ entries.filePaths, found exclude [] rest = true ∧ p = dir ++ rest

/-- The list has the paths of the entry, each once. -/
structure Lists (t : DirTree) (matching : String → PathBuf → Prop) (root : PathBuf)
    (s : Selection) (paths : List PathBuf) : Prop where
  nodup : paths.Nodup
  mem : ∀ p, p ∈ paths ↔ Selects t matching root s p

section

variable {t t' : DirTree} {glob : DirTree → String → Except String (List PathBuf)}
  {matching : String → PathBuf → Prop} {root : PathBuf} {config config' : ProjectConfig}
  {opened : List String} {dir : PathBuf} {exclude : List String} {entries : Listing}
  {paths files : List PathBuf} {pattern : String}

theorem openDir_entriesAt (h : openDir t opened = some entries) :
    t.listing.entriesAt (resolved opened) = some entries := by
  obtain ⟨q, hq, h⟩ := Option.bind_eq_some_iff.mp h
  rwa [Files.walk_eq_lexical hq] at h

theorem openDir_congr (hfiles : t'.files = t.files) (h : openDir t opened = some entries) :
    ∃ entries', openDir t' opened = some entries' ∧
      entries'.filePaths.Perm entries.filePaths := by
  obtain ⟨q, hq, h⟩ := Option.bind_eq_some_iff.mp h
  obtain ⟨entries', h', hperm⟩ := DirTree.exists_entriesAt hfiles h
  exact ⟨entries', by rw [openDir, hfiles, hq]; exact h', hperm⟩

theorem openDir_congr_none (hfiles : t'.files = t.files) (h : openDir t opened = none) :
    openDir t' opened = none := by
  cases h' : openDir t' opened with
  | none => rfl
  | some entries' =>
    obtain ⟨entries, hentries, -⟩ := openDir_congr hfiles.symm h'
    rw [h] at hentries
    cases hentries

theorem isFileAt_congr (hfiles : t'.files = t.files) : isFileAt t' = isFileAt t := by
  funext p
  rw [isFileAt, isFileAt, hfiles]

theorem selects_congr (hfiles : t'.files = t.files) (s : Selection) (p : PathBuf)
    (h : Selects t matching root s p) : Selects t' matching root s p := by
  cases s with
  | pattern pattern =>
    rwa [Selects, isFileAt_congr hfiles]
  | below opened dir exclude =>
    obtain ⟨entries, hentries, rest, hrest, hp⟩ := h
    obtain ⟨entries', hentries', hperm⟩ := openDir_congr hfiles hentries
    exact ⟨entries', hentries', rest, hperm.mem_iff.mpr hrest, hp⟩

theorem Lists.perm (hfiles : t'.files = t.files) {s : Selection} {paths' : List PathBuf}
    (h : Lists t matching root s paths) (h' : Lists t' matching root s paths') :
    paths'.Perm paths := by
  rw [List.perm_ext_iff_of_nodup h'.nodup h.nodup]
  intro p
  rw [h.mem, h'.mem]
  exact ⟨selects_congr hfiles.symm s p, selects_congr hfiles s p⟩

theorem mem_discoverStFiles {p : PathBuf} :
    p ∈ discoverStFiles exclude dir entries ↔
      ∃ rest ∈ entries.filePaths, found exclude [] rest = true ∧ p = dir ++ rest := by
  rw [discoverStFiles, List.mem_insertionSort, walkDir_eq, List.mem_map]
  constructor
  · rintro ⟨rest, hrest, rfl⟩
    obtain ⟨hmem, hfound⟩ := List.mem_filter.mp hrest
    exact ⟨rest, hmem, hfound, rfl⟩
  · rintro ⟨rest, hmem, hfound, rfl⟩
    exact ⟨rest, List.mem_filter.mpr ⟨hmem, hfound⟩, rfl⟩

theorem discoverStFiles_lists (h : openDir t opened = some entries) :
    Lists t matching root (.below opened dir exclude) (discoverStFiles exclude dir entries) := by
  constructor
  · rw [discoverStFiles, (List.perm_insertionSort pathLe _).nodup_iff, walkDir_eq]
    have hnodup := (t.wellFormed.entriesAt (openDir_entriesAt h)).nodup_filePaths
    exact (hnodup.filter _).map (List.append_right_injective dir)
  · intro p
    rw [mem_discoverStFiles]
    constructor
    · intro hp
      exact ⟨entries, h, hp⟩
    · rintro ⟨entries', h', hp⟩
      obtain rfl := Option.some.inj (h.symm.trans h')
      exact hp

theorem libraryFiles_lists (lib : String) :
    Lists t matching root (.below (openPath root lib) (joinPath root lib) [])
      (libraryFiles t root lib) := by
  unfold libraryFiles
  split
  next h => exact discoverStFiles_lists h
  next h =>
    refine ⟨List.nodup_nil, fun p => iff_of_false List.not_mem_nil ?_⟩
    rintro ⟨entries, hentries, -⟩
    rw [h] at hentries
    cases hentries

theorem resolvePattern_lists (hglob : Exact glob matching)
    (h : resolvePattern t glob root pattern = .ok paths) :
    Lists t matching root (.pattern pattern) paths := by
  unfold resolvePattern at h
  split at h
  next hstar =>
    split at h
    next => cases h
    next all hall =>
      obtain rfl := Except.ok.inj h
      refine ⟨(hglob.nodup hall).filter _, fun p => ?_⟩
      rw [List.mem_filter, Selects, if_pos hstar]
      exact and_congr_left fun hp => hglob.mem hall hp
  next hstar =>
    split at h
    next =>
      obtain rfl := Except.ok.inj h
      refine ⟨List.nodup_singleton _, fun p => ?_⟩
      rw [List.mem_singleton, Selects, if_neg hstar]
    next => cases h

theorem resolvePattern_congr (hglob : Exact glob matching) (hfiles : t'.files = t.files)
    (h : resolvePattern t glob root pattern = .ok paths) :
    ∃ paths', resolvePattern t' glob root pattern = .ok paths' ∧ paths'.Perm paths := by
  obtain ⟨paths', h'⟩ : ∃ paths', resolvePattern t' glob root pattern = .ok paths' := by
    unfold resolvePattern at h ⊢
    split at h
    next hstar =>
      rw [if_pos hstar]
      split at h
      next => cases h
      next all hall =>
        obtain ⟨all', hall'⟩ := hglob.valid hall t'
        rw [hall']
        exact ⟨_, rfl⟩
    next hstar =>
      rw [if_neg hstar, existsAt, hfiles]
      split at h
      next hexists => exact ⟨_, if_pos hexists⟩
      next => cases h
  exact ⟨paths', h', (resolvePattern_lists hglob h).perm hfiles (resolvePattern_lists hglob h')⟩

theorem resolvePatterns_parts {patterns : List String}
    (h : resolvePatterns t glob root patterns = .ok files) :
    ∃ parts, List.Forall₂ (fun pattern paths => resolvePattern t glob root pattern = .ok paths)
      patterns parts ∧ files = parts.flatten := by
  induction patterns generalizing files with
  | nil => exact ⟨[], .nil, (Except.ok.inj h).symm⟩
  | cons pattern patterns ih =>
    unfold resolvePatterns at h
    cases hone : resolvePattern t glob root pattern with
    | error e =>
      rw [hone] at h
      cases h
    | ok paths =>
      cases hrest : resolvePatterns t glob root patterns with
      | error e =>
        rw [hone, hrest] at h
        cases h
      | ok rest =>
        rw [hone, hrest] at h
        obtain ⟨parts, hparts, rfl⟩ := ih hrest
        exact ⟨paths :: parts, .cons hone hparts, (Except.ok.inj h).symm⟩

theorem resolvePatterns_of_parts {patterns : List String} {parts : List (List PathBuf)}
    (h : List.Forall₂ (fun pattern paths => ∃ paths',
      resolvePattern t glob root pattern = .ok paths' ∧ paths'.Perm paths) patterns parts) :
    ∃ files, resolvePatterns t glob root patterns = .ok files ∧ files.Perm parts.flatten := by
  induction h with
  | nil => exact ⟨[], rfl, .refl _⟩
  | cons hone _ ih =>
    obtain ⟨paths', hpaths', hperm⟩ := hone
    obtain ⟨files, hfiles, hrest⟩ := ih
    refine ⟨paths' ++ files, ?_, hperm.append hrest⟩
    unfold resolvePatterns
    rw [hpaths', hfiles]
    rfl

/-! ## Selections side by side -/

/-- No two entries select the same file, and none selects one by two paths. -/
def Apart (t : DirTree) (matching : String → PathBuf → Prop) (root : PathBuf)
    (ss : List Selection) : Prop :=
  (∀ s ∈ ss, ∀ p p', Selects t matching root s p → Selects t matching root s p' →
    resolved p = resolved p' → p = p') ∧
  ss.Pairwise fun s s' => ∀ p p', Selects t matching root s p → Selects t matching root s' p' →
    resolved p ≠ resolved p'

theorem mem_flatten_lists {ss : List Selection} {parts : List (List PathBuf)}
    (h : List.Forall₂ (Lists t matching root) ss parts) {p : PathBuf} :
    p ∈ parts.flatten ↔ ∃ s ∈ ss, Selects t matching root s p := by
  induction h with
  | nil => simp
  | cons hone _ ih => simp [ih, hone.mem]

theorem nodup_resolved_iff {ss : List Selection} {parts : List (List PathBuf)}
    (h : List.Forall₂ (Lists t matching root) ss parts) :
    (parts.flatten.map resolved).Nodup ↔ Apart t matching root ss := by
  induction h with
  | nil => simp [Apart]
  | @cons s paths ss parts hone hrest ih =>
    have hself : (paths.map resolved).Nodup ↔ ∀ p p', Selects t matching root s p →
        Selects t matching root s p' → resolved p = resolved p' → p = p' := by
      rw [List.nodup_map_iff_inj_on hone.nodup]
      simp only [hone.mem]
      exact ⟨fun h p p' hp hp' => h p hp p' hp', fun h p hp p' hp' => h p p' hp hp'⟩
    have hother : (∀ a ∈ paths.map resolved, ∀ b ∈ parts.flatten.map resolved, a ≠ b) ↔
        ∀ s' ∈ ss, ∀ p p', Selects t matching root s p → Selects t matching root s' p' →
          resolved p ≠ resolved p' := by
      simp only [List.forall_mem_map, hone.mem, mem_flatten_lists hrest]
      exact ⟨fun h s' hs' p p' hp hp' => h p hp p' ⟨s', hs', hp'⟩,
        fun h p hp p' ⟨s', hs', hp'⟩ => h s' hs' p p' hp hp'⟩
    rw [List.flatten_cons, List.map_append, List.nodup_append, ih, hself, hother, Apart, Apart,
      List.forall_mem_cons, List.pairwise_cons]
    tauto

theorem mainFiles_parts (hglob : Exact glob matching)
    (h : mainFiles t glob root config = .ok files) :
    ∃ parts, List.Forall₂ (Lists t matching root) (match config.sources with
      | some patterns => patterns.map .pattern
      | none => [.below root root (config.exclude.getD [])]) parts ∧ files.Perm parts.flatten := by
  unfold mainFiles at h
  cases hs : config.sources with
  | some patterns =>
    rw [hs] at h
    cases hall : resolvePatterns t glob root patterns with
    | error e =>
      simp only [resolveSourceGlobs, hall] at h
      cases h
    | ok all =>
      simp only [resolveSourceGlobs, hall] at h
      obtain rfl := Except.ok.inj h
      obtain ⟨parts, hparts, rfl⟩ := resolvePatterns_parts hall
      refine ⟨parts, List.forall₂_map_left_iff.mpr ?_, List.perm_insertionSort pathLe _⟩
      exact hparts.imp fun _ _ hone => resolvePattern_lists hglob hone
  | none =>
    rw [hs] at h
    cases hopen : openDir t root with
    | none =>
      simp only [hopen] at h
      cases h
    | some entries =>
      simp only [hopen] at h
      obtain rfl := Except.ok.inj h
      exact ⟨[_], .cons (discoverStFiles_lists hopen) .nil, by rw [List.flatten_singleton]⟩

theorem loadProjectYaml_ok (h : loadProjectYaml t glob root config = .ok files) :
    ∃ main, mainFiles t glob root config = .ok main ∧
      files = main ++ (config.libraries.getD []).flatMap (libraryFiles t root) := by
  unfold loadProjectYaml at h
  cases hmain : mainFiles t glob root config with
  | error e =>
    rw [hmain] at h
    cases h
  | ok main =>
    rw [hmain] at h
    exact ⟨main, rfl, (Except.ok.inj h).symm⟩

/-- The list is made of what the entries of the configuration select. -/
theorem loadProjectYaml_parts (hglob : Exact glob matching)
    (h : loadProjectYaml t glob root config = .ok files) :
    ∃ parts, List.Forall₂ (Lists t matching root) (selections root config) parts ∧
      files.Perm parts.flatten := by
  obtain ⟨main, hmain, rfl⟩ := loadProjectYaml_ok h
  obtain ⟨parts, hparts, hperm⟩ := mainFiles_parts hglob hmain
  refine ⟨parts ++ (config.libraries.getD []).map (libraryFiles t root),
    List.rel_append hparts ?_, ?_⟩
  · rw [List.forall₂_map_left_iff, List.forall₂_map_right_iff, List.forall₂_same]
    exact fun lib _ => libraryFiles_lists lib
  · rw [List.flatten_append, ← List.flatMap_def]
    exact hperm.append_right _

theorem mem_loadProjectYaml (hglob : Exact glob matching)
    (h : loadProjectYaml t glob root config = .ok files) {p : PathBuf} :
    p ∈ files ↔ ∃ s ∈ selections root config, Selects t matching root s p := by
  obtain ⟨parts, hparts, hperm⟩ := loadProjectYaml_parts hglob h
  rw [hperm.mem_iff, mem_flatten_lists hparts]

/-! ## The order of enumeration -/

/-- The same configuration, its patterns in any order. -/
structure SameEntries (config config' : ProjectConfig) : Prop where
  sources : Option.Rel List.Perm config.sources config'.sources
  exclude : (config.exclude.getD []).Perm (config'.exclude.getD [])
  libraries : config'.libraries = config.libraries

theorem found_perm {exclude' : List String} (h : exclude.Perm exclude') :
    found exclude' = found exclude := by
  have hex : isExcluded exclude' = isExcluded exclude := by
    funext name
    exact h.symm.any_eq
  funext base path
  rw [found, found, hex]

theorem discoverStFiles_congr {exclude' : List String} {entries' : Listing}
    (hexclude : exclude.Perm exclude') (h : entries'.filePaths.Perm entries.filePaths) :
    discoverStFiles exclude' dir entries' = discoverStFiles exclude dir entries := by
  rw [discoverStFiles, discoverStFiles, walkDir_eq, walkDir_eq, found_perm hexclude]
  exact sort_eq_of_perm ((h.filter _).map _)

theorem libraryFiles_congr (hfiles : t'.files = t.files) (lib : String) :
    libraryFiles t' root lib = libraryFiles t root lib := by
  unfold libraryFiles
  cases h : openDir t (openPath root lib) with
  | none => rw [openDir_congr_none hfiles h]
  | some entries =>
    obtain ⟨entries', h', hperm⟩ := openDir_congr hfiles h
    rw [h']
    exact discoverStFiles_congr (.refl _) hperm

theorem resolveSourceGlobs_congr (hglob : Exact glob matching) (hfiles : t'.files = t.files)
    {patterns patterns' : List String} (hperm : patterns.Perm patterns')
    (h : resolveSourceGlobs t glob root patterns = .ok files) :
    resolveSourceGlobs t' glob root patterns' = .ok files := by
  cases hall : resolvePatterns t glob root patterns with
  | error e =>
    simp only [resolveSourceGlobs, hall] at h
    cases h
  | ok all =>
    simp only [resolveSourceGlobs, hall] at h
    obtain rfl := Except.ok.inj h
    obtain ⟨parts, hparts, rfl⟩ := resolvePatterns_parts hall
    have hcongr := hparts.imp fun _ _ hone => resolvePattern_congr hglob hfiles hone
    obtain ⟨parts', hparts', hperm'⟩ := List.perm_comp_forall₂ hperm.symm hcongr
    obtain ⟨all', hall', hsame⟩ := resolvePatterns_of_parts hparts'
    rw [resolveSourceGlobs, hall']
    exact congrArg Except.ok (sort_eq_of_perm (hsame.trans hperm'.flatten))

theorem mainFiles_congr (hglob : Exact glob matching) (hfiles : t'.files = t.files)
    (hconfig : SameEntries config config') (h : mainFiles t glob root config = .ok files) :
    mainFiles t' glob root config' = .ok files := by
  obtain ⟨hsources, hexclude, -⟩ := hconfig
  unfold mainFiles at h ⊢
  cases hs : config.sources with
  | some patterns =>
    rw [hs] at h hsources
    cases hs' : config'.sources with
    | none =>
      rw [hs'] at hsources
      cases hsources
    | some patterns' =>
      rw [hs'] at hsources
      cases hsources with
      | some hperm => exact resolveSourceGlobs_congr hglob hfiles hperm h
  | none =>
    rw [hs] at h hsources
    cases hs' : config'.sources with
    | some patterns' =>
      rw [hs'] at hsources
      cases hsources
    | none =>
      cases hopen : openDir t root with
      | none =>
        simp only [hopen] at h
        cases h
      | some entries =>
        simp only [hopen] at h
        obtain ⟨entries', hopen', hperm⟩ := openDir_congr hfiles hopen
        simp only [hopen']
        rw [discoverStFiles_congr hexclude hperm]
        exact h

/-- The list is the same in every order. -/
theorem loadProjectYaml_congr (hglob : Exact glob matching) (hfiles : t'.files = t.files)
    (hconfig : SameEntries config config') (h : loadProjectYaml t glob root config = .ok files) :
    loadProjectYaml t' glob root config' = .ok files := by
  obtain ⟨main, hmain, rfl⟩ := loadProjectYaml_ok h
  have hlibs : libraryFiles t' root = libraryFiles t root := by
    funext lib
    exact libraryFiles_congr hfiles lib
  rw [loadProjectYaml, mainFiles_congr hglob hfiles hconfig hmain, hconfig.libraries, hlibs]
  rfl

/-! ## What a configuration says -/

/-- The name of a directory, or of the file, on the way `rest`. -/
def OnWay (rest : Path) (isDir : Bool) (name : String) : Prop :=
  if isDir then name ∈ rest.dropLast else rest.getLast? = some name

/-- A source file inside no skipped directory. -/
def SourceBelow (rest : Path) : Prop :=
  (∀ d, OnWay rest true d → isSkipped d = false) ∧
    ∃ name, OnWay rest false name ∧ isSource name = true

/-- Something on the way is excluded. -/
def ExcludedBy (excludes : Bool → String → Prop) (rest : Path) : Prop :=
  ∃ isDir name, OnWay rest isDir name ∧ excludes isDir name

/-- What the patterns say. -/
def Stated (exclude : List String) (isDir : Bool) (name : String) : Prop :=
  ∃ pattern ∈ exclude, Excludes pattern isDir name

/-- What is read from them. -/
def Taken (exclude : List String) (_ : Bool) (name : String) : Prop :=
  isExcluded exclude name = true

theorem found_iff {rest : Path} :
    found exclude [] rest = true ↔ SourceBelow rest ∧ ¬ ExcludedBy (Taken exclude) rest := by
  cases rest using List.reverseRecOn with
  | nil => simp [found, SourceBelow, OnWay]
  | append_singleton front name =>
    simp only [found, SourceBelow, ExcludedBy, OnWay, Taken, Bool.exists_bool]
    simp
    grind

/-- A pattern excludes the file that is not read so. -/
def Missed (exclude : List String) (rest : Path) : Prop :=
  ExcludedBy (fun isDir name => ∃ pattern ∈ exclude, Unread pattern ∧ Excludes pattern isDir name)
    rest ∧ ¬ ExcludedBy (Taken exclude) rest

/-- The file has the name of an excluded directory, or the parts of a pattern
overlap in its name, and no pattern excludes it. -/
def Overread (exclude : List String) (rest : Path) : Prop :=
  ExcludedBy (fun isDir name => ∃ pattern ∈ exclude,
    NamesAsDir pattern isDir name ∨ Overlaps pattern name) rest ∧ ¬ ExcludedBy (Stated exclude) rest

section

variable {rest : Path} {isDir : Bool} {name : String}

theorem mem_of_onWay (h : OnWay rest isDir name) : name ∈ rest := by
  cases isDir with
  | true => exact List.mem_of_mem_dropLast h
  | false => exact List.mem_of_getLast? h

theorem hasStem_of_onWay (hrest : SourceBelow rest) (h : OnWay rest isDir name) : HasStem name := by
  intro ext hext hname
  cases isDir with
  | true =>
    have hskip := hrest.1 name h
    simp [isSkipped, hname] at hskip
  | false =>
    obtain ⟨name', hlast, hsource⟩ := hrest.2
    obtain rfl : name' = name := Option.some.inj (hlast.symm.trans h)
    have hnone : extension name' = none := by
      rw [@Project.extension_stem name' [] ext hname hext, if_pos rfl]
    simp [isSource, hnone] at hsource

theorem missed_iff (hrest : SourceBelow rest) :
    Missed exclude rest ↔
      ExcludedBy (Stated exclude) rest ∧ ¬ ExcludedBy (Taken exclude) rest := by
  refine and_congr_left fun hno => ⟨?_, ?_⟩
  · rintro ⟨isDir, name, hway, pattern, hmem, -, hex⟩
    exact ⟨isDir, name, hway, pattern, hmem, hex⟩
  · rintro ⟨isDir, name, hway, pattern, hmem, hex⟩
    refine ⟨isDir, name, hway, pattern, hmem, ?_, hex⟩
    by_contra hread
    have htaken := Project.matchesPattern_of_excludes (hasStem_of_onWay hrest hway) hread hex
    exact hno ⟨isDir, name, hway, List.any_eq_true.mpr ⟨pattern, hmem, htaken⟩⟩

theorem overread_iff (hnames : ∀ c ∈ rest, Listing.IsName c) :
    Overread exclude rest ↔
      ExcludedBy (Taken exclude) rest ∧ ¬ ExcludedBy (Stated exclude) rest := by
  refine and_congr_left fun hno => ⟨?_, ?_⟩
  · rintro ⟨isDir, name, hway, pattern, hmem, hex⟩
    refine ⟨isDir, name, hway, List.any_eq_true.mpr ⟨pattern, hmem, ?_⟩⟩
    rcases hex with hex | hex
    · exact Project.matchesPattern_of_namesAsDir hex
    · exact Project.matchesPattern_of_overlaps (hnames name (mem_of_onWay hway)).2.1 hex
  · rintro ⟨isDir, name, hway, htaken⟩
    obtain ⟨pattern, hmem, hmatch⟩ := List.any_eq_true.mp htaken
    refine ⟨isDir, name, hway, pattern, hmem, ?_⟩
    exact (Project.excludes_of_matchesPattern hmatch).resolve_left fun hex =>
      hno ⟨isDir, name, hway, pattern, hmem, hex⟩

end

/-- The directory that is opened has the source file `rest` below it. -/
def HasSource (t : DirTree) (opened : List String) (rest : Path) : Prop :=
  SourceBelow rest ∧ ∃ entries, openDir t opened = some entries ∧ rest ∈ entries.filePaths

/-- A library directory has the file. -/
def InLibrary (t : DirTree) (root : PathBuf) (config : ProjectConfig) (q : Path) : Prop :=
  ∃ lib ∈ config.libraries.getD [], ∃ rest, HasSource t (openPath root lib) rest ∧
    q = resolved (joinPath root lib) ++ rest

/-- The root has the file and no pattern excludes it, or a library has it. -/
def Wanted (t : DirTree) (root : PathBuf) (config : ProjectConfig) (q : Path) : Prop :=
  (∃ rest, HasSource t root rest ∧ q = resolved root ++ rest ∧
    ¬ ExcludedBy (Stated (config.exclude.getD [])) rest) ∨ InLibrary t root config q

/-- A file of the root that no pattern excludes as it says, nor a library makes up for. -/
def Misread (t : DirTree) (root : PathBuf) (config : ProjectConfig) : Prop :=
  ∃ rest, HasSource t root rest ∧ (Missed (config.exclude.getD []) rest ∨
    (Overread (config.exclude.getD []) rest ∧ ¬ InLibrary t root config (resolved root ++ rest)))

theorem HasSource.isName {rest : Path} (h : HasSource t opened rest) :
    ∀ c ∈ rest, Listing.IsName c := by
  obtain ⟨-, entries, hopen, hrest⟩ := h
  exact (t.wellFormed.entriesAt (openDir_entriesAt hopen)).isName hrest

theorem resolved_append {rest : Path} (h : ∀ c ∈ rest, Listing.IsName c) :
    resolved (dir ++ rest) = resolved dir ++ rest := by
  rw [resolved, lexical_append, lexical_of_plain (Listing.plain_of_isName h), resolved]

theorem selects_below {p : PathBuf} :
    Selects t matching root (.below opened dir exclude) p ↔
      ∃ rest, HasSource t opened rest ∧ ¬ ExcludedBy (Taken exclude) rest ∧ p = dir ++ rest := by
  constructor
  · rintro ⟨entries, hopen, rest, hrest, hfound, hp⟩
    obtain ⟨hsource, hno⟩ := found_iff.mp hfound
    exact ⟨rest, ⟨hsource, entries, hopen, hrest⟩, hno, hp⟩
  · rintro ⟨rest, ⟨hsource, entries, hopen, hrest⟩, hno, hp⟩
    exact ⟨entries, hopen, rest, hrest, found_iff.mpr ⟨hsource, hno⟩, hp⟩

theorem not_excludedBy_nil (rest : Path) : ¬ ExcludedBy (Taken []) rest := by
  rintro ⟨isDir, name, -, h⟩
  cases h

theorem inLibrary_iff {q : Path} :
    InLibrary t root config q ↔ ∃ lib ∈ config.libraries.getD [], ∃ p,
      Selects t matching root (.below (openPath root lib) (joinPath root lib) []) p ∧
        resolved p = q := by
  simp only [selects_below]
  constructor
  · rintro ⟨lib, hlib, rest, hrest, rfl⟩
    exact ⟨lib, hlib, _, ⟨rest, hrest, not_excludedBy_nil rest, rfl⟩, resolved_append hrest.isName⟩
  · rintro ⟨lib, hlib, p, ⟨rest, hrest, -, rfl⟩, rfl⟩
    exact ⟨lib, hlib, rest, hrest, resolved_append hrest.isName⟩

/-- The files of the list, under autodiscovery. -/
theorem listed_iff (hglob : Exact glob matching) (hsources : config.sources = none)
    (h : loadProjectYaml t glob root config = .ok files) {q : Path} :
    (∃ p ∈ files, resolved p = q) ↔
      (∃ rest, HasSource t root rest ∧ q = resolved root ++ rest ∧
        ¬ ExcludedBy (Taken (config.exclude.getD [])) rest) ∨ InLibrary t root config q := by
  have hmem : ∀ p, p ∈ files ↔
      Selects t matching root (.below root root (config.exclude.getD [])) p ∨
        ∃ lib ∈ config.libraries.getD [],
          Selects t matching root (.below (openPath root lib) (joinPath root lib) []) p := by
    intro p
    rw [mem_loadProjectYaml hglob h, selections, hsources]
    simp
  rw [@inLibrary_iff t matching]
  constructor
  · rintro ⟨p, hp, rfl⟩
    rcases (hmem p).mp hp with hp | ⟨lib, hlib, hp⟩
    · obtain ⟨rest, hrest, hno, rfl⟩ := selects_below.mp hp
      exact .inl ⟨rest, hrest, resolved_append hrest.isName, hno⟩
    · exact .inr ⟨lib, hlib, p, hp, rfl⟩
  · rintro (⟨rest, hrest, rfl, hno⟩ | ⟨lib, hlib, p, hp, rfl⟩)
    · exact ⟨root ++ rest, (hmem _).mpr (.inl (selects_below.mpr ⟨rest, hrest, hno, rfl⟩)),
        resolved_append hrest.isName⟩
    · exact ⟨p, (hmem p).mpr (.inr ⟨lib, hlib, hp⟩), rfl⟩

/-- A project without a configuration is one with an empty configuration. -/
theorem discoverProject_eq (config : Option ProjectConfig) :
    discoverProject t glob root config =
      loadProjectYaml t glob root (config.getD defaultConfig) := by
  cases config with
  | some config => rfl
  | none =>
    rw [discoverProject, autodiscover, Option.getD_none, loadProjectYaml, mainFiles, defaultConfig]
    dsimp only
    cases openDir t root <;> rfl

/-! ## Each file once -/

/-- The list has each file once, is the same in every order, and under
autodiscovery has exactly the files that are wanted. -/
structure SelectsOnce (t : DirTree) (glob : DirTree → String → Except String (List PathBuf))
    (root : PathBuf) (config : Option ProjectConfig) (files : List PathBuf) : Prop where
  once : (files.map resolved).Nodup
  order : ∀ (t' : DirTree) (config' : Option ProjectConfig), t'.files = t.files →
    SameEntries (config.getD defaultConfig) (config'.getD defaultConfig) →
    discoverProject t' glob root config' = .ok files
  exact : (config.getD defaultConfig).sources = none → ∀ q,
    (∃ p ∈ files, resolved p = q) ↔ Wanted t root (config.getD defaultConfig) q

/-- No two entries of the configuration select the same file, and no exclusion
is misread. -/
structure Clear (t : DirTree) (matching : String → PathBuf → Prop) (root : PathBuf)
    (config : ProjectConfig) : Prop where
  apart : Apart t matching root (selections root config)
  read : config.sources = none → ¬ Misread t root config

/-- A file of the root is not one of a library. -/
theorem Apart.not_inLibrary (h : Apart t matching root (selections root config))
    (hsources : config.sources = none) {rest : Path} (hrest : HasSource t root rest)
    (hno : ¬ ExcludedBy (Taken (config.exclude.getD [])) rest) :
    ¬ InLibrary t root config (resolved root ++ rest) := by
  rw [@inLibrary_iff t matching]
  rintro ⟨lib, hlib, p, hp, hq⟩
  have hpairs := h.2
  rw [selections, hsources, List.singleton_append, List.pairwise_cons] at hpairs
  refine hpairs.1 _ (List.mem_map_of_mem hlib) (root ++ rest) p
    (selects_below.mpr ⟨rest, hrest, hno, rfl⟩) hp ?_
  rw [hq, resolved_append hrest.isName]

/-- **Discovery** selects each file once, and the right ones, exactly when the
entries of the configuration are clear of each other and of misreadings. -/
theorem discovery_iff {config : Option ProjectConfig} (hglob : Exact glob matching)
    (h : discoverProject t glob root config = .ok files) :
    SelectsOnce t glob root config files ↔
      Clear t matching root (config.getD defaultConfig) := by
  rw [discoverProject_eq] at h
  obtain ⟨parts, hparts, hperm⟩ := loadProjectYaml_parts hglob h
  have honce : (files.map resolved).Nodup ↔
      Apart t matching root (selections root (config.getD defaultConfig)) := by
    rw [(hperm.map resolved).nodup_iff, nodup_resolved_iff hparts]
  constructor
  · intro hsel
    have hapart := honce.mp hsel.once
    refine ⟨hapart, fun hsources hmis => ?_⟩
    obtain ⟨rest, hrest, hmis⟩ := hmis
    have hexact := hsel.exact hsources (resolved root ++ rest)
    rw [listed_iff hglob hsources h] at hexact
    rcases hmis with hmissed | ⟨hover, hnolib⟩
    · -- it is listed, and neither wanted nor in a library
      obtain ⟨hstated, hno⟩ := (missed_iff hrest.1).mp hmissed
      rcases hexact.mp (.inl ⟨rest, hrest, rfl, hno⟩) with ⟨rest', -, heq, hno'⟩ | hlib
      · rw [← List.append_cancel_left heq] at hno'
        exact hno' hstated
      · exact hapart.not_inLibrary hsources hrest hno hlib
    · -- it is wanted, and not listed
      obtain ⟨htaken, hno⟩ := (overread_iff hrest.isName).mp hover
      rcases hexact.mpr (.inl ⟨rest, hrest, rfl, hno⟩) with ⟨rest', -, heq, hno'⟩ | hlib
      · rw [← List.append_cancel_left heq] at hno'
        exact hno' htaken
      · exact hnolib hlib
  · intro hclear
    refine ⟨honce.mpr hclear.apart, fun t' config' hfiles hconfig => ?_, fun hsources q => ?_⟩
    · rw [discoverProject_eq]
      exact loadProjectYaml_congr hglob hfiles hconfig h
    · rw [listed_iff hglob hsources h, Wanted]
      constructor
      · rintro (⟨rest, hrest, rfl, hno⟩ | hlib)
        · refine .inl ⟨rest, hrest, rfl, fun hstated => ?_⟩
          exact hclear.read hsources ⟨rest, hrest, .inl ((missed_iff hrest.1).mpr ⟨hstated, hno⟩)⟩
        · exact .inr hlib
      · rintro (⟨rest, hrest, rfl, hno⟩ | hlib)
        · by_cases htaken : ExcludedBy (Taken ((config.getD defaultConfig).exclude.getD [])) rest
          · have hover := (overread_iff hrest.isName).mpr ⟨htaken, hno⟩
            exact .inr (by_contra fun hnolib =>
              hclear.read hsources ⟨rest, hrest, .inr ⟨hover, hnolib⟩⟩)
          · exact .inl ⟨rest, hrest, rfl, htaken⟩
        · exact .inr hlib

end

/-- The names of a path, each by its component of the pattern. -/
def matchesNames : List String → Path → Bool
  | [], [] => true
  | c :: cs, name :: path => Wildcards.wildMatch '*' c.toList name.toList && matchesNames cs path
  | _, _ => false

/-- A glob of patterns whose asterisks stand within a component. -/
def starGlob (t : DirTree) (text : String) : Except String (List PathBuf) :=
  .ok (t.listing.filePaths.filter fun p => matchesNames (components text) p)

theorem mem_filePaths_of_isFile {t : DirTree} {q : Path}
    (h : (some q).any (fun q => Files.isFile (t.files q)) = true) : q ∈ t.listing.filePaths := by
  rw [Option.any_some] at h
  rw [← DirTree.files_eq_file]
  cases hnode : t.files q with
  | none =>
    rw [hnode] at h
    cases h
  | some node =>
    cases node with
    | file => rfl
    | dir =>
      rw [hnode] at h
      cases h

theorem starGlob_exact :
    Exact starGlob fun text p => matchesNames (components text) p = true ∧ Plain p := by
  constructor
  · intro t text paths h
    obtain rfl := Except.ok.inj h
    exact t.wellFormed.nodup_filePaths.filter _
  · intro t text paths p h hp
    obtain rfl := Except.ok.inj h
    rw [List.mem_filter]
    constructor
    · exact fun ⟨hmem, hmatch⟩ => ⟨hmatch, Listing.plain_of_isName (t.wellFormed.isName hmem)⟩
    · rintro ⟨hmatch, hplain⟩
      unfold isFileAt at hp
      cases hwalk : t.files.walk [] p with
      | none =>
        rw [hwalk] at hp
        cases hp
      | some q =>
        obtain rfl : q = p := by
          rw [Files.walk_eq_lexical hwalk, lexical_of_plain hplain, List.nil_append]
        rw [hwalk] at hp
        exact ⟨mem_filePaths_of_isFile hp, hmatch⟩
  · exact fun _ t' => ⟨_, rfl⟩

/-- The files `main.st` and `lib/util.st` of a project at `/p`. -/
def twoFiles : DirTree where
  listing := .dir "p" (.file "main.st" (.dir "lib" (.file "util.st" .nil) .nil)) .nil
  wellFormed := .dir (by decide) (by decide) (.file (by decide) (by decide) (.dir (by decide)
    (by decide) (.file (by decide) (by decide) .nil) .nil)) .nil

def overlapping : ProjectConfig := ⟨some ["main.st", "*.st"], none, none, none⟩

/-- `main.st` is listed twice where `*.st` stands for it too. -/
theorem main_listed_twice :
    ¬ ∀ (glob : DirTree → String → Except String (List PathBuf)) (matching : String → PathBuf → Prop)
      (t : DirTree) (root : PathBuf) (config : Option ProjectConfig) (files : List PathBuf),
      Exact glob matching → discoverProject t glob root config = .ok files →
        SelectsOnce t glob root config files := by
  intro h
  have hlist : discoverProject twoFiles starGlob ["p"] (some overlapping) =
      .ok [["p", "main.st"], ["p", "main.st"]] := by decide
  have honce := (h _ _ _ _ _ _ starGlob_exact hlist).once
  exact absurd honce (by decide)

def withLibrary : ProjectConfig := ⟨none, none, some ["lib"], some ["lib/"]⟩

theorem discovery_iff_withLibrary :
    SelectsOnce twoFiles starGlob ["p"] (some withLibrary)
      [["p", "main.st"], ["p", "lib", "util.st"]] ↔
    Clear twoFiles (fun text p => matchesNames (components text) p = true ∧ Plain p) ["p"]
      withLibrary :=
  @discovery_iff _ _ _ _ _ (some withLibrary) starGlob_exact (by decide)

end RustPlc.Discovery
