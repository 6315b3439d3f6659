import Mathlib.Data.List.Lex
import Mathlib.Data.List.Sort
import Mathlib.Data.String.Basic
import RustPlc.Core.Files

/-!
# Project discovery

`discover_project` and `load_project_sources`
(crates/st-syntax/src/project.rs) on the files below one directory, given by
the components of their paths. The order in which the files are listed is the
order in which they are compiled.

What is done outside this repository is a parameter: which files a glob
pattern matches. There are no links, and the directories of a configuration
lie below the project's own.

Results:
* `discover_unpacked`: a project made of the listed files only lists the same
  files in the same order.
-/
namespace RustPlc.Project

open RustPlc.Core

/-! ## Configuration -/

/-- mirrors crates/st-syntax/src/project.rs:24-43 -/
structure ProjectConfig where
  sources : Option (List String)
  entryPoint : Option String
  libraries : Option (List String)
  exclude : Option (List String)

/-- A file the project lists, with the text of its path below the root. -/
structure Listed where
  path : Path
  text : String
  deriving DecidableEq, Repr

/-- The path as a text without `.` and repeated separators. -/
def plainText (path : Path) : String := "/".intercalate path

/-! ## Names -/

/-- `path.extension()` for a file name. -/
def extension (name : String) : Option String :=
  match (name.toList.splitOn '.').reverse with
  | ext :: front :: rest => if rest = [] ∧ front = [] then none else some (String.ofList ext)
  | _ => none

def isSource (name : String) : Bool := extension name = some "st" ∨ extension name = some "scl"

/-- mirrors crates/st-syntax/src/project.rs:183-212, one pattern. -/
def matchesPattern (name pattern : String) : Bool :=
  let cs := pattern.toList
  if cs.getLast? = some '/' then name.toList = (cs.reverse.dropWhile (· = '/')).reverse
  else if ['*', '.'] <+: cs then extension name = some (String.ofList (cs.drop 2))
  else if '*' ∈ cs then match cs.splitOn '*' with
    | [front, back] => front <+: name.toList ∧ back <:+ name.toList
    | _ => false
  else name = pattern

/-- mirrors crates/st-syntax/src/project.rs:183-212 -/
def isExcluded (exclude : List String) (name : String) : Bool :=
  exclude.any (matchesPattern name)

/-- Hidden directories and those without sources. -/
def isSkipped (name : String) : Bool :=
  name.toList.head? = some '.' ∨ name = "target" ∨ name = "node_modules"

/-- The walk from the directory `base` finds the file.
mirrors crates/st-syntax/src/project.rs:154-181 -/
def found (exclude : List String) (base path : Path) : Bool :=
  let rest := path.drop base.length
  decide (base <+: path) &&
    rest.dropLast.all (fun d => !isExcluded exclude d && !isSkipped d) &&
    rest.getLast?.any fun name => !isExcluded exclude name && isSource name

/-! ## Discovery -/

/-- The order of `PathBuf`. -/
def Listed.le (a b : Listed) : Prop := a.path ≤ b.path

instance (a b : Listed) : Decidable (a.le b) := inferInstanceAs (Decidable (_ ≤ _))

instance : Std.Total Listed.le := ⟨fun a b => le_total a.path b.path⟩

instance : IsTrans Listed Listed.le := ⟨fun _ _ _ => le_trans (α := Path)⟩

/-- `root.join(dir)` and the entries below it, as text below the root. -/
def below (dir : String) (rest : Path) : String :=
  if dir = "" ∨ dir.toList.getLast? = some '/' then dir ++ plainText rest
  else dir ++ "/" ++ plainText rest

/-- mirrors crates/st-syntax/src/project.rs:146-152 -/
def discoverStFiles (exclude : List String) (dir : String) (paths : List Path) : List Listed :=
  ((paths.filter (found exclude (components dir))).map fun p =>
    ⟨p, below dir (p.drop (components dir).length)⟩).insertionSort Listed.le

section

variable (glob : String → Path → Bool)

/-- The files one pattern stands for.
mirrors crates/st-syntax/src/project.rs:217-240 -/
def resolvePattern (paths : List Path) (pattern : String) : Except String (List Listed) :=
  if '*' ∈ pattern.toList then .ok ((paths.filter (glob pattern)).map fun p => ⟨p, plainText p⟩)
  else if paths.any fun p => components pattern <+: p then .ok [⟨components pattern, pattern⟩]
  else .error ("Source file not found: " ++ pattern)

def resolvePatterns (paths : List Path) : List String → Except String (List Listed)
  | [] => .ok []
  | pattern :: patterns => do
    let files ← resolvePattern glob paths pattern
    let rest ← resolvePatterns paths patterns
    return files ++ rest

/-- mirrors crates/st-syntax/src/project.rs:214-244 -/
def resolveSourceGlobs (paths : List Path) (patterns : List String) :
    Except String (List Listed) :=
  (resolvePatterns glob paths patterns).map fun files => files.insertionSort Listed.le

/-- The files before those of the libraries.
mirrors crates/st-syntax/src/project.rs:92-98 -/
def mainFiles (config : ProjectConfig) (paths : List Path) : Except String (List Listed) :=
  match config.sources with
  | some patterns => resolveSourceGlobs glob paths patterns
  | none => .ok (discoverStFiles (config.exclude.getD []) "" paths)

def libraryFiles (config : ProjectConfig) (paths : List Path) : List Listed :=
  (config.libraries.getD []).flatMap fun lib => discoverStFiles [] lib paths

/-- The source files of a directory, with its configuration if it has one.
mirrors crates/st-syntax/src/project.rs:76-115, 121-144 -/
def discover (config : Option ProjectConfig) (paths : List Path) : Except String (List Listed) :=
  match config with
  | none => .ok (discoverStFiles [] "" paths)
  | some config => (mainFiles glob config paths).map (· ++ libraryFiles config paths)

/-! ## A project of the listed files only -/

theorem insertionSort_eq_of_perm {a b : List Listed} (h : a.Perm b) (hnodup : (a.map (·.path)).Nodup) :
    a.insertionSort Listed.le = b.insertionSort Listed.le := by
  have hperm : (a.insertionSort Listed.le).Perm (b.insertionSort Listed.le) :=
    (List.perm_insertionSort _ a).trans (h.trans (List.perm_insertionSort _ b).symm)
  refine hperm.eq_of_pairwise (fun x y hx hy hxy hyx => ?_) (List.pairwise_insertionSort _ a)
    (List.pairwise_insertionSort _ b)
  have hxa : x ∈ a := (List.perm_insertionSort _ a).subset hx
  have hya : y ∈ a := h.symm.subset ((List.perm_insertionSort _ b).subset hy)
  exact List.inj_on_of_nodup_map hnodup hxa hya (le_antisymm hxy hyx)

/-- The listed files among some of the files are those among all of them, when
all that are listed are there. -/
theorem filter_perm {paths some_ : List Path} {p : Path → Bool} (hpaths : paths.Nodup)
    (hsome : some_.Nodup) (hsub : some_ ⊆ paths) (hall : ∀ x ∈ paths, p x = true → x ∈ some_) :
    (some_.filter p).Perm (paths.filter p) := by
  rw [List.perm_ext_iff_of_nodup (hsome.filter _) (hpaths.filter _)]
  intro x
  simp only [List.mem_filter]
  constructor
  · intro h
    exact ⟨hsub h.1, h.2⟩
  · intro h
    exact ⟨hall x h.1 h.2, h.2⟩

theorem mem_discoverStFiles {exclude : List String} {dir : String} {paths : List Path} {p : Path} :
    (∃ f ∈ discoverStFiles exclude dir paths, f.path = p) ↔
      p ∈ paths ∧ found exclude (components dir) p = true := by
  unfold discoverStFiles
  simp only [List.mem_insertionSort, List.mem_map, List.mem_filter]
  constructor
  · rintro ⟨_, ⟨q, hq, rfl⟩, rfl⟩
    exact hq
  · intro h
    exact ⟨_, ⟨p, h, rfl⟩, rfl⟩

theorem discoverStFiles_unpacked {exclude : List String} {dir : String} {paths some_ : List Path}
    (hpaths : paths.Nodup) (hsome : some_.Nodup) (hsub : some_ ⊆ paths)
    (hall : ∀ f ∈ discoverStFiles exclude dir paths, f.path ∈ some_) :
    discoverStFiles exclude dir some_ = discoverStFiles exclude dir paths := by
  have hperm := filter_perm hpaths hsome hsub fun p hp hfound => by
    obtain ⟨f, hf, rfl⟩ := mem_discoverStFiles.mpr ⟨hp, hfound⟩
    exact hall f hf
  refine insertionSort_eq_of_perm (hperm.map _) ?_
  simp only [List.map_map, Function.comp_def, List.map_id']
  exact hsome.filter _

theorem resolvePattern_unpacked {paths some_ : List Path} {pattern : String} {files : List Listed}
    (hpaths : paths.Nodup) (hsome : some_.Nodup) (hsub : some_ ⊆ paths)
    (h : resolvePattern glob paths pattern = .ok files) (hall : ∀ f ∈ files, f.path ∈ some_) :
    ∃ files', resolvePattern glob some_ pattern = .ok files' ∧ files'.Perm files := by
  unfold resolvePattern at h ⊢
  by_cases hstar : '*' ∈ pattern.toList
  · rw [if_pos hstar, Except.ok.injEq] at h
    subst h
    rw [if_pos hstar]
    refine ⟨_, rfl, (filter_perm hpaths hsome hsub fun p hp hglob => ?_).map _⟩
    exact hall ⟨p, plainText p⟩ (List.mem_map_of_mem (List.mem_filter.mpr ⟨hp, hglob⟩))
  · rw [if_neg hstar] at h ⊢
    split at h
    · cases h
      have hmem : components pattern ∈ some_ := hall ⟨_, pattern⟩ (.head _)
      have hany : (some_.any fun p => decide (components pattern <+: p)) = true :=
        List.any_eq_true.mpr ⟨_, hmem, by simp⟩
      rw [if_pos hany]
      exact ⟨_, rfl, .refl _⟩
    · cases h

theorem resolvePatterns_unpacked {paths some_ : List Path} (hpaths : paths.Nodup)
    (hsome : some_.Nodup) (hsub : some_ ⊆ paths) : ∀ (patterns : List String) {files : List Listed},
      resolvePatterns glob paths patterns = .ok files → (∀ f ∈ files, f.path ∈ some_) →
      ∃ files', resolvePatterns glob some_ patterns = .ok files' ∧ files'.Perm files
  | [], files, h, _ => ⟨files, h, .refl _⟩
  | pattern :: patterns, files, h, hall => by
    unfold resolvePatterns at h
    cases hone : resolvePattern glob paths pattern with
    | error e =>
      rw [hone] at h
      cases h
    | ok one =>
      cases hrest : resolvePatterns glob paths patterns with
      | error e =>
        rw [hone, hrest] at h
        cases h
      | ok rest =>
        rw [hone, hrest] at h
        obtain rfl : one ++ rest = files := Except.ok.inj h
        obtain ⟨one', hone', hperm⟩ := resolvePattern_unpacked glob hpaths hsome hsub hone
          fun f hf => hall f (List.mem_append_left _ hf)
        obtain ⟨rest', hrest', hperm'⟩ := resolvePatterns_unpacked hpaths hsome hsub patterns hrest
          fun f hf => hall f (List.mem_append_right _ hf)
        refine ⟨one' ++ rest', ?_, hperm.append hperm'⟩
        unfold resolvePatterns
        rw [hone', hrest']
        rfl

theorem mainFiles_unpacked {config : ProjectConfig} {paths some_ : List Path} {main : List Listed}
    (hpaths : paths.Nodup) (hsome : some_.Nodup) (hsub : some_ ⊆ paths)
    (h : mainFiles glob config paths = .ok main) (hall : ∀ f ∈ main, f.path ∈ some_)
    (hnodup : (main.map (·.path)).Nodup) : mainFiles glob config some_ = .ok main := by
  unfold mainFiles at h ⊢
  split at h
  · unfold resolveSourceGlobs at h ⊢
    next patterns _ =>
    cases hfiles : resolvePatterns glob paths patterns with
    | error e =>
      rw [hfiles] at h
      cases h
    | ok files =>
      rw [hfiles] at h
      obtain rfl : files.insertionSort Listed.le = main := Except.ok.inj h
      obtain ⟨files', hfiles', hperm⟩ := resolvePatterns_unpacked glob hpaths hsome hsub patterns
        hfiles fun f hf => hall f ((List.mem_insertionSort _).mpr hf)
      have hnodup' : (files.map (·.path)).Nodup :=
        ((List.perm_insertionSort Listed.le files).map _).nodup_iff.mp hnodup
      rw [hfiles']
      exact congrArg Except.ok (insertionSort_eq_of_perm hperm.symm hnodup').symm
  · obtain rfl := Except.ok.inj h
    exact congrArg Except.ok (discoverStFiles_unpacked hpaths hsome hsub hall)

/-- **The unpacked project.** A directory with the listed files only, and the
same configuration, lists these files in this order, when no file is listed
twice. -/
theorem discover_unpacked {config : Option ProjectConfig} {paths : List Path} {listed : List Listed}
    (hpaths : paths.Nodup) (h : discover glob config paths = .ok listed)
    (hfiles : ∀ f ∈ listed, f.path ∈ paths) (hnodup : (listed.map (·.path)).Nodup) :
    discover glob config (listed.map (·.path)) = .ok listed := by
  have hsub : listed.map (·.path) ⊆ paths := by
    intro p hp
    obtain ⟨f, hf, rfl⟩ := List.mem_map.mp hp
    exact hfiles f hf
  have hmem {f : Listed} (hf : f ∈ listed) : f.path ∈ listed.map (·.path) := List.mem_map_of_mem hf
  cases config with
  | none =>
    obtain rfl : discoverStFiles [] "" paths = listed := Except.ok.inj h
    exact congrArg Except.ok (discoverStFiles_unpacked hpaths hnodup hsub fun f hf => hmem hf)
  | some config =>
    cases hmain : mainFiles glob config paths with
    | error e =>
      simp only [discover, hmain] at h
      cases h
    | ok main =>
      simp only [discover, hmain] at h
      have hlisted : main ++ libraryFiles config paths = listed := Except.ok.inj h
      have hmain' : mainFiles glob config (listed.map (·.path)) = .ok main := by
        refine mainFiles_unpacked glob hpaths hnodup hsub hmain (fun f hf => hmem ?_) ?_
        · rw [← hlisted]
          exact List.mem_append_left _ hf
        · rw [← hlisted, List.map_append] at hnodup
          exact (List.nodup_append.mp hnodup).1
      have hlibs : libraryFiles config (listed.map (·.path)) = libraryFiles config paths := by
        refine List.flatMap_congr fun lib hlib => ?_
        refine discoverStFiles_unpacked hpaths hnodup hsub fun f hf => hmem ?_
        rw [← hlisted]
        exact List.mem_append_right _ (List.mem_flatMap.mpr ⟨lib, hlib, hf⟩)
      simp only [discover, hmain', hlibs]
      exact congrArg Except.ok hlisted

end

end RustPlc.Project
