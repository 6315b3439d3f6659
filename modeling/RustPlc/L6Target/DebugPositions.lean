import RustPlc.Core.Lts
import RustPlc.L1Ir.Slices
import RustPlc.L2Semantics.AnalyzeModule
import RustPlc.L2Syntax.MultiFile
import RustPlc.L6Target.Breakpoints
import RustPlc.L6Target.ProgramStore
import RustPlc.L6Target.Project

/-!
# Positions of the running program

`create_bundle` (crates/st-deploy/src/bundle.rs) compiles the files of a
project behind one another; the module has their positions in the merged
text. A debug session on the target computes the offsets of the files anew,
from the sources on its disk (`SourceMap::build` of
crates/st-target-agent/src/dap_attach_handler.rs). The disk has the sources
of the latest bundle that has any, the engine executes a module that was
loaded from the store at some time.

A `Build` is a bundle with the files it was made of. What an engine executes
is recorded as the build its module comes from.

Results:
* `Portable.rebuilt`: the target lists the files of an unpacked bundle as the
  bundler did.
* `positionsRight_of_portable`: a session on the sources of the executing
  build shows its positions.
* `debug_positions`: in runs whose sessions begin on the sources of the
  executing build and keep them, a session shows its positions.
-/
namespace RustPlc.Target

open RustPlc.Core RustPlc.Ir RustPlc.Engine RustPlc.Project RustPlc.Syntax
open RustPlc.Syntax.Ranged (Text Frontend)

/-! ## Making a bundle -/

/-- The UTF-8 bytes of a text. -/
def bytesOf (s : String) : Text := s.toList.flatMap String.utf8EncodeChar

/-- What the tools take from elsewhere: the parser, the matching of glob
patterns and the reading of a project YAML. -/
structure Toolchain extends Frontend where
  glob : String → Path → Bool
  parseConfig : String → Except String ProjectConfig

/-- What `create_bundle` is asked to bundle: a directory, with the project
YAML it has; a project YAML; a source file. -/
inductive ProjectArg where
  | directory (yaml : Option String)
  | configFile (yaml : String)
  | sourceFile (name : String)

/-- The project YAML the bundle gets: `read_optional_file` looks for it below
the argument.
mirrors crates/st-deploy/src/bundle.rs:134-136 -/
def ProjectArg.bundledYaml : ProjectArg → Option String
  | .directory yaml => yaml
  | .configFile _ => none
  | .sourceFile _ => none

namespace Toolchain

variable (T : Toolchain)

/-- mirrors crates/st-syntax/src/project.rs:247-256, for one file. -/
def loadSource (files : List (Path × String)) (f : Listed) : Except String (Listed × String) :=
  match files.find? (·.1 == f.path) with
  | some file => .ok (f, file.2)
  | none => .error ("Cannot read " ++ f.text)

/-- The configuration of a directory with the project YAML it has. -/
def configOf : Option String → Except String (Option ProjectConfig)
  | some text => (T.parseConfig text).map some
  | none => .ok none

/-- `discover_project` and `load_project_sources` on a directory. -/
def loadProject (yaml : Option String) (files : List (Path × String)) :
    Except String (List (Listed × String)) := do
  let config ← T.configOf yaml
  let listed ← discover T.glob config (files.map (·.1))
  listed.mapM (loadSource files)

/-- mirrors crates/st-deploy/src/bundle.rs:131-132, 150 -/
def projectSources (files : List (Path × String)) :
    ProjectArg → Except String (List (Listed × String))
  | .directory yaml => T.loadProject yaml files
  | .configFile yaml => T.loadProject (some yaml) files
  | .sourceFile name =>
    if isSource name then (loadSource files ⟨[name], name⟩).map ([·])
    else .error "Not a .st, .scl, or .yaml file"

def texts (compiled : List (Listed × String)) : List Text := compiled.map fun f => bytesOf f.2

/-- Parse, analyze and compile.
mirrors crates/st-deploy/src/bundle.rs:146-186, without native function
blocks. -/
def compileSources [F64Ops] (compiled : List (Listed × String)) : Except String Module :=
  let merged := T.parseMulti (T.builtinStdlib ++ texts compiled)
  if merged.errors ≠ [] then .error "Parse errors"
  else if (Analysis.analyze merged.sourceFile.bare).errors ≠ [] then .error "Semantic errors"
  else match Compiler.compile merged.sourceFile.bare with
    | .ok module => .ok module
    | .error _ => .error "Compilation error"

/-- Where the file behind `before` begins in the merged text. -/
def placedAt (before : List (Listed × String)) : Nat :=
  Frontend.totalLength (T.builtinStdlib ++ texts before)

end Toolchain

/-- A bundle with the run of `create_bundle` that made it.
mirrors crates/st-deploy/src/bundle.rs:126-269 -/
structure Build [F64Ops] (T : Toolchain) where
  files : List (Path × String)
  nodup : (files.map (·.1)).Nodup
  proper : ∀ f ∈ files, components (plainText f.1) = f.1
  arg : ProjectArg
  mode : BundleMode
  compiled : List (Listed × String)
  module : Module
  loaded : T.projectSources files arg = .ok compiled
  made : T.compileSources compiled = .ok module

/-- mirrors crates/st-deploy/src/bundle.rs:218-230 -/
def Build.sources [F64Ops] {T : Toolchain} (b : Build T) : List (Path × String) :=
  if b.mode = .development then b.compiled.map fun f => (f.1.path, f.2) else []

/-! ## The source map of a session -/

/-- The directory with the sources, as the configuration spells it and as the
system resolves it. -/
structure SourceDir where
  spelled : String
  canonical : String

/-- The source directory, if there is one, with what is in it. -/
structure SourceDisk where
  isDir : Bool
  yaml : Option String
  files : List (Path × String)

/-- mirrors crates/st-target-agent/src/dap_attach_handler.rs:139-155 -/
def functionNamesOf : Ranged.TopLevelItem → List String
  | .program p => [p.name.name]
  | .function f => [f.name.name]
  | .functionBlock fb => [fb.name.name]
  | .classDecl cls => cls.name.name :: cls.methods.map fun m => cls.name.name ++ "." ++ m.name.name
  | _ => []

/-- The names of the functions a text declares, in upper case. -/
def declaredFunctions (T : Toolchain) (text : String) : List String :=
  ((T.items (bytesOf text)).flatMap functionNamesOf).map toUppercase

/-- What a session knows: the files, their offsets and the file of each
function. A later entry of a map stands before an earlier one. -/
structure AttachMap where
  sources : AttachSources
  funcToFile : List (String × String × String)

/-- The files behind one another from `offset` on. -/
def fileOffsets (path : Listed → String) : Nat → List (Listed × String) → List (String × Nat)
  | _, [] => []
  | offset, (f, text) :: files =>
    fileOffsets path (offset + (bytesOf text).length) files ++ [(path f, offset)]

def functionFiles (T : Toolchain) (path : Listed → String) :
    List (Listed × String) → List (String × String × String)
  | [] => []
  | (f, text) :: files =>
    functionFiles T path files ++ ((declaredFunctions T text).map fun n => (n, path f, text)).reverse

def SourceDir.remoteRoot (dir : SourceDir) : String :=
  String.ofList (dir.spelled.toList.reverse.dropWhile (· = '/')).reverse

/-- `load_source_files`, `PathMapper::new` and `SourceMap::build` on the
sources on disk.
mirrors crates/st-target-agent/src/dap_attach_handler.rs:38-60, 107-179, 870-895 -/
def attachMap (T : Toolchain) (dir : SourceDir) (localRoot : Option String) (disk : SourceDisk) :
    AttachMap :=
  let projectFiles := match T.loadProject disk.yaml disk.files with
    | .ok sources => sources
    | .error _ => []
  let path := fun f : Listed => dir.canonical ++ "/" ++ f.text
  { sources := {
      sourceFiles := (disk.files.filter fun f => f.1.getLast?.any isSource).map fun f =>
        (dir.spelled ++ "/" ++ plainText f.1, f.2)
      fileVirtualOffsets := fileOffsets path (Frontend.totalLength T.builtinStdlib) projectFiles
      pathMapper := ⟨localRoot, dir.remoteRoot⟩ }
    funcToFile := functionFiles T path projectFiles }

/-- mirrors crates/st-target-agent/src/dap_attach_handler.rs:182-184 -/
def AttachMap.virtualOffset (m : AttachMap) (path : String) : Nat :=
  ((m.sources.fileVirtualOffsets.find? (·.1 == path)).map (·.2)).getD 0

/-- mirrors crates/st-target-agent/src/dap_attach_handler.rs:187-189 -/
def AttachMap.fileForFunc (m : AttachMap) (funcName : String) : Option (String × String) :=
  (m.funcToFile.find? (·.1 == toUppercase funcName)).map (·.2)

/-- A line from 1; slicing inside a character panics.
mirrors crates/st-target-agent/src/dap_attach_handler.rs:856-859 -/
def byteOffsetToLine (source : String) (offset : Nat) : Except Panic Nat :=
  (splitAtByte source.toList (min offset (bytesOf source).length)).map fun p => p.1.count '\n' + 1

/-- mirrors crates/st-target-agent/src/dap_attach_handler.rs:821-853 -/
def AttachMap.resolveFrameLocation (m : AttachMap) (funcName : String) (sourceOffset : Nat) :
    Except Panic (Nat × String) :=
  let locate := fun (path, content) =>
    (byteOffsetToLine content
      (min (sourceOffset - m.virtualOffset path) (bytesOf content).length)).map (·, path)
  match m.fileForFunc funcName with
  | some file => locate file
  | none => match m.sources.sourceFiles.head? with
    | some file => locate file
    | none => .ok (1, "")

/-! ## Lookups -/

theorem length_bytesOf (s : String) : (bytesOf s).length = byteLen s.toList := by
  unfold bytesOf byteLen
  simp only [List.length_flatMap, String.length_utf8EncodeChar]

theorem find_of_nodup {β : Type} {l : List (String × β)} (hnodup : (l.map (·.1)).Nodup)
    {k : String} {v : β} (h : (k, v) ∈ l) : l.find? (·.1 == k) = some (k, v) := by
  have hsome : (l.find? (·.1 == k)).isSome := by
    rw [List.find?_isSome]
    exact ⟨_, h, by simp⟩
  obtain ⟨e, he⟩ := Option.isSome_iff_exists.mp hsome
  have hkey : e.1 = k := by simpa using List.find?_some he
  rw [he, List.inj_on_of_nodup_map hnodup (List.mem_of_find?_eq_some he) h hkey]

theorem keys_fileOffsets (path : Listed → String) : ∀ (files : List (Listed × String)) (offset : Nat),
    (fileOffsets path offset files).map (·.1) = (files.map fun f => path f.1).reverse
  | [], _ => rfl
  | (f, text) :: files, offset => by
    simp only [fileOffsets, List.map_append, List.map_cons, List.map_nil, List.reverse_cons,
      keys_fileOffsets path files]

theorem mem_fileOffsets (path : Listed → String) (f : Listed) (text : String)
    (after : List (Listed × String)) : ∀ (before : List (Listed × String)) (offset : Nat),
      (path f, offset + Frontend.totalLength (Toolchain.texts before)) ∈
        fileOffsets path offset (before ++ (f, text) :: after)
  | [], offset => List.mem_append_right _ (.head _)
  | (g, t) :: before, offset => by
    have h := mem_fileOffsets path f text after before (offset + (bytesOf t).length)
    rw [List.cons_append]
    refine List.mem_append_left _ ?_
    simp only [Toolchain.texts, Frontend.totalLength, List.map_cons, List.sum_cons] at h ⊢
    rw [← Nat.add_assoc]
    exact h

theorem mem_functionFiles (T : Toolchain) (path : Listed → String) {e : String × String × String} :
    ∀ {files : List (Listed × String)}, e ∈ functionFiles T path files ↔
      ∃ f ∈ files, e.1 ∈ declaredFunctions T f.2 ∧ e.2 = (path f.1, f.2)
  | [] => by simp [functionFiles]
  | (f, text) :: files => by
    obtain ⟨n, p, t⟩ := e
    simp only [functionFiles, List.mem_append, mem_functionFiles T path, List.mem_reverse,
      List.mem_map, List.mem_cons, Prod.mk.injEq, exists_eq_or_imp]
    constructor
    · rintro (h | ⟨m, hm, rfl, rfl, rfl⟩)
      · exact .inr h
      · exact .inl ⟨hm, rfl, rfl⟩
    · rintro (⟨hm, rfl, rfl⟩ | h)
      · exact .inr ⟨n, hm, rfl, rfl, rfl⟩
      · exact .inl h

theorem mapM_loadSource {files : List (Path × String)} : ∀ {listed : List Listed}
    {compiled : List (Listed × String)}, listed.mapM (Toolchain.loadSource files) = .ok compiled →
      compiled.map (·.1) = listed ∧ ∀ f ∈ compiled, (f.1.path, f.2) ∈ files
  | [], compiled, h => by
    obtain rfl : [] = compiled := Except.ok.inj h
    exact ⟨rfl, by simp⟩
  | f :: listed, compiled, h => by
    rw [List.mapM_cons] at h
    cases hf : Toolchain.loadSource files f with
    | error e =>
      rw [hf] at h
      cases h
    | ok one =>
      cases hrest : listed.mapM (Toolchain.loadSource files) with
      | error e =>
        rw [hf, hrest] at h
        cases h
      | ok rest =>
        rw [hf, hrest] at h
        obtain rfl : one :: rest = compiled := Except.ok.inj h
        obtain ⟨hlisted, hfiles⟩ := mapM_loadSource hrest
        unfold Toolchain.loadSource at hf
        split at hf
        next file hfile =>
          obtain rfl := Except.ok.inj hf
          have hkey : file.1 = f.path := by simpa using List.find?_some hfile
          refine ⟨by rw [List.map_cons, hlisted], List.forall_mem_cons.mpr ⟨?_, hfiles⟩⟩
          rw [← hkey]
          exact List.mem_of_find?_eq_some hfile
        · cases hf

/-- A directory with exactly the files of a list gives their texts back. -/
theorem mapM_loadSource_self {files : List (Path × String)} (hnodup : (files.map (·.1)).Nodup) :
    ∀ {compiled : List (Listed × String)}, (∀ f ∈ compiled, (f.1.path, f.2) ∈ files) →
      (compiled.map (·.1)).mapM (Toolchain.loadSource files) = .ok compiled
  | [], _ => rfl
  | f :: compiled, h => by
    obtain ⟨hf, hrest⟩ := List.forall_mem_cons.mp h
    have hsome : (files.find? (·.1 == f.1.path)).isSome := by
      rw [List.find?_isSome]
      exact ⟨_, hf, by simp⟩
    obtain ⟨e, he⟩ := Option.isSome_iff_exists.mp hsome
    have hkey : e.1 = f.1.path := by simpa using List.find?_some he
    obtain rfl := List.inj_on_of_nodup_map hnodup (List.mem_of_find?_eq_some he) hf hkey
    rw [List.map_cons, List.mapM_cons, mapM_loadSource_self hnodup hrest, Toolchain.loadSource, he]
    rfl

theorem Toolchain.loadProject_ok {T : Toolchain} {yaml : Option String}
    {files : List (Path × String)} {compiled : List (Listed × String)} :
    T.loadProject yaml files = .ok compiled ↔ ∃ config listed, T.configOf yaml = .ok config ∧
      discover T.glob config (files.map (·.1)) = .ok listed ∧
      listed.mapM (Toolchain.loadSource files) = .ok compiled := by
  unfold Toolchain.loadProject
  cases T.configOf yaml with
  | error e =>
    constructor
    · intro h
      simp only [bind, Except.bind] at h
      cases h
    · rintro ⟨_, _, hc, -⟩
      cases hc
  | ok config =>
    cases hlisted : discover T.glob config (files.map (·.1)) with
    | error e =>
      constructor
      · intro h
        simp only [bind, Except.bind, hlisted] at h
        cases h
      · rintro ⟨_, _, hc, hd, -⟩
        cases hc
        rw [hlisted] at hd
        cases hd
    | ok listed =>
      constructor
      · intro h
        simp only [bind, Except.bind, hlisted] at h
        exact ⟨config, listed, rfl, hlisted, h⟩
      · rintro ⟨_, _, hc, hd, hm⟩
        cases hc
        rw [hlisted] at hd
        cases hd
        simp only [bind, Except.bind, hlisted]
        exact hm

theorem byteOffsetToLine_ok {text : String} {front back : List Char}
    (htext : text.toList = front ++ back) :
    byteOffsetToLine text (byteLen front) = .ok (front.count '\n' + 1) := by
  have hlen : (bytesOf text).length = byteLen front + byteLen back := by
    rw [length_bytesOf, htext]
    simp only [byteLen, List.map_append, List.sum_append]
  rw [byteOffsetToLine, min_eq_left (by omega), htext, splitAtByte_append]
  rfl

theorem placedAt_append (T : Toolchain) (before after : List (Listed × String)) :
    T.placedAt (before ++ after) =
      T.placedAt before + Frontend.totalLength (Toolchain.texts after) := by
  simp only [Toolchain.placedAt, Toolchain.texts, List.map_append, Frontend.totalLength_append,
    Nat.add_assoc]

theorem placedAt_cons (T : Toolchain) (before : List (Listed × String)) (f : Listed) (text : String)
    (after : List (Listed × String)) :
    T.placedAt before + byteLen text.toList ≤ T.placedAt (before ++ (f, text) :: after) := by
  rw [placedAt_append, ← length_bytesOf]
  simp only [Toolchain.texts, List.map_cons, Frontend.totalLength, List.sum_cons]
  omega

/-! ## The target -/

section

variable [F64Ops]

/-- The conditions on a bundle under which the target finds its files as the
bundler did: it is a development bundle, of a directory or a source file; no
file is listed twice, under another text than that of its path, or with
another ending; and no two files declare one function. -/
structure Build.Portable {T : Toolchain} (b : Build T) : Prop where
  development : b.mode = .development
  unpacked : ∀ yaml, b.arg ≠ .configFile yaml
  once : (b.compiled.map (·.1.path)).Nodup
  plain : ∀ f ∈ b.compiled, f.1.text = plainText f.1.path
  ending : ∀ f ∈ b.compiled, f.1.path.getLast?.any isSource = true
  distinct : ∀ f ∈ b.compiled, ∀ g ∈ b.compiled, ∀ n ∈ declaredFunctions T f.2,
    n ∈ declaredFunctions T g.2 → f = g

/-- The sources a bundle leaves on disk. -/
def Build.disk {T : Toolchain} (b : Build T) : SourceDisk := ⟨true, b.arg.bundledYaml, b.sources⟩

/-- The program store, the engine and the debug session. `executing` is the
build the engine's module comes from. -/
structure DebugTarget (T : Toolchain) where
  disk : SourceDisk
  /-- The mode of the stored bundle and whether it has a source directory. -/
  stored : Option (BundleMode × Bool)
  history : List (Build T)
  executing : Option (Build T)
  session : Option AttachMap

inductive DebugLabel (T : Toolchain) where
  | upload (b : Build T)
  /-- The upload fails at a file, before which the project YAML and `k` of the
  sources have been written, or nothing. -/
  | uploadFails (b : Build T) (k : Option Nat)
  /-- The engine is started with a module that was loaded from the store. -/
  | start (b : Build T)
  /-- The engine goes on with another module from the store. -/
  | onlineChange (b : Build T)
  /-- The engine stops, which ends the session. -/
  | halt
  /-- The agent is started again. -/
  | reopen
  | attach (localRoot : Option String)
  | detach

/-- mirrors crates/st-target-agent/src/program_store.rs:94-150, 66-90,
dap_proxy.rs:62-117 and runtime_manager.rs:547-780 -/
inductive DebugStep (T : Toolchain) (dir : SourceDir) :
    DebugTarget T → DebugLabel T → DebugTarget T → Prop where
  | upload (s : DebugTarget T) (b : Build T) :
      DebugStep T dir s (.upload b) { s with
        disk := if b.sources = [] then s.disk else b.disk
        stored := some (b.mode, !b.sources.isEmpty)
        history := s.history ++ [b] }
  | uploadFails (s : DebugTarget T) (b : Build T) (k : Option Nat) : b.sources ≠ [] →
      DebugStep T dir s (.uploadFails b k) { s with
        disk := ⟨true, k.bind fun _ => b.arg.bundledYaml, b.sources.take (k.getD 0)⟩ }
  | start (s : DebugTarget T) (b : Build T) : b ∈ s.history → s.executing = none →
      DebugStep T dir s (.start b) { s with executing := some b }
  | onlineChange (s : DebugTarget T) (b : Build T) : b ∈ s.history → s.executing ≠ none →
      DebugStep T dir s (.onlineChange b) { s with executing := some b }
  | halt (s : DebugTarget T) :
      DebugStep T dir s .halt { s with
        executing := none
        session := none }
  | reopen (s : DebugTarget T) :
      DebugStep T dir s .reopen { s with
        stored := s.stored.map fun p => (p.1, s.disk.isDir)
        executing := none
        session := none }
  | attach (s : DebugTarget T) (localRoot : Option String) (mode : BundleMode) :
      s.stored = some (mode, true) → mode ≠ .release → s.executing ≠ none → s.session = none →
      DebugStep T dir s (.attach localRoot) { s with
        session := some (attachMap T dir localRoot s.disk) }
  | detach (s : DebugTarget T) : DebugStep T dir s .detach { s with session := none }

/-- A target that has not stored anything yet. -/
structure DebugTarget.Fresh {T : Toolchain} (s : DebugTarget T) : Prop where
  disk : s.disk = ⟨false, none, []⟩
  stored : s.stored = none
  history : s.history = []
  executing : s.executing = none
  session : s.session = none

def debugLts (T : Toolchain) (dir : SourceDir) : Lts (DebugTarget T) (DebugLabel T) :=
  ⟨DebugTarget.Fresh, DebugStep T dir⟩

/-- The file of a build behind `before`, with its text. -/
def Build.At {T : Toolchain} (b : Build T) (before : List (Listed × String)) (f : Listed)
    (text : String) : Prop :=
  ∃ after, b.compiled = before ++ (f, text) :: after

/-- A position in the merged text of a build: in the library, or between two
characters of a file. -/
def Build.Offset {T : Toolchain} (b : Build T) (offset : Nat) : Prop :=
  offset < Frontend.totalLength T.builtinStdlib ∨
    ∃ before f text front back, b.At before f text ∧ text.toList = front ++ back ∧
      offset = T.placedAt before + byteLen front

/-- The session shows the positions of the module that was compiled from the
build: the offset of each of its files is the one the bundler placed it at; a
breakpoint request for a file goes to the engine with its text and offset;
a frame at a statement of a file, in a function the file declares, is shown in
the file, at the line of the statement; and no frame makes the session
panic. -/
structure PositionsRight {T : Toolchain} (dir : SourceDir) (b : Build T) (m : AttachMap) :
    Prop where
  offset : ∀ before f text, b.At before f text →
    m.virtualOffset (dir.canonical ++ "/" ++ plainText f.path) = T.placedAt before
  breakpoints : ∀ before f text, b.At before f text → ∀ clientPath lines,
    m.sources.pathMapper.toRemote clientPath = dir.remoteRoot ++ "/" ++ plainText f.path →
    (m.sources.handleSetBreakpoints clientPath lines).1.source = text ∧
      (m.sources.handleSetBreakpoints clientPath lines).1.sourceOffset = T.placedAt before
  frames : ∀ before f text, b.At before f text → ∀ funcName,
    toUppercase funcName ∈ declaredFunctions T text → ∀ front back, text.toList = front ++ back →
    m.resolveFrameLocation funcName (T.placedAt before + byteLen front) =
      .ok (front.count '\n' + 1, dir.canonical ++ "/" ++ plainText f.path)
  resolves : ∀ funcName offset, b.Offset offset →
    ∃ shown, m.resolveFrameLocation funcName offset = .ok shown

/-! ## A session on the sources of the executing build -/

theorem Build.Portable.nodup_disk {T : Toolchain} {b : Build T} (h : b.Portable) :
    (b.disk.files.map (·.1)).Nodup := by
  simp only [Build.disk, Build.sources, if_pos h.development, List.map_map]
  exact h.once

theorem Build.Portable.mem_disk {T : Toolchain} {b : Build T} (h : b.Portable) :
    ∀ f ∈ b.compiled, (f.1.path, f.2) ∈ b.disk.files := by
  intro f hf
  simp only [Build.disk, Build.sources, if_pos h.development]
  exact List.mem_map_of_mem hf

/-- **The unpacked bundle.** From the sources and the project YAML of a
portable bundle the target lists the files that were compiled, in the order
in which they were. -/
theorem Build.Portable.rebuilt {T : Toolchain} {b : Build T} (h : b.Portable) :
    T.loadProject b.disk.yaml b.disk.files = .ok b.compiled := by
  have hpaths : b.disk.files.map (·.1) = (b.compiled.map (·.1)).map (·.path) := by
    simp only [Build.disk, Build.sources, if_pos h.development, List.map_map, Function.comp_def]
  have hself := mapM_loadSource_self h.nodup_disk h.mem_disk
  have hloaded := b.loaded
  rw [Toolchain.loadProject_ok, hpaths]
  cases harg : b.arg with
  | configFile yaml => exact absurd harg (h.unpacked yaml)
  | directory yaml =>
    rw [harg] at hloaded
    obtain ⟨config, listed, hconfig, hdiscover, hload⟩ := Toolchain.loadProject_ok.mp hloaded
    obtain ⟨hlisted, hfiles⟩ := mapM_loadSource hload
    have hyaml : b.disk.yaml = yaml := by rw [Build.disk, harg]; rfl
    refine ⟨config, b.compiled.map (·.1), by rw [hyaml]; exact hconfig, ?_, hself⟩
    have honce : ((b.compiled.map (·.1)).map (·.path)).Nodup := by
      rw [List.map_map]
      exact h.once
    rw [hlisted] at honce ⊢
    refine discover_unpacked T.glob b.nodup hdiscover (fun f hf => ?_) honce
    rw [← hlisted] at hf
    obtain ⟨g, hg, rfl⟩ := List.mem_map.mp hf
    exact List.mem_map_of_mem (hfiles g hg)
  | sourceFile name =>
    rw [harg] at hloaded
    have hyaml : b.disk.yaml = none := by rw [Build.disk, harg]; rfl
    simp only [Toolchain.projectSources] at hloaded
    split at hloaded
    next hname =>
      cases hone : Toolchain.loadSource b.files ⟨[name], name⟩ with
      | error e =>
        rw [hone] at hloaded
        cases hloaded
      | ok one =>
        rw [hone] at hloaded
        have hcompiled : [one] = b.compiled := Except.ok.inj hloaded
        have hlisted : one.1 = ⟨[name], name⟩ := by
          unfold Toolchain.loadSource at hone
          split at hone
          · rw [← Except.ok.inj hone]
          · cases hone
        refine ⟨none, b.compiled.map (·.1), by rw [hyaml]; rfl, ?_, hself⟩
        rw [← hcompiled, List.map_singleton, List.map_singleton, hlisted]
        have hempty : components "" = [] := by decide +kernel
        have hfound : found [] [] [name] = true := by simp [found, isExcluded, hname]
        have hbelow : below "" [name] = name := by simp [below, plainText]
        simp only [discover, discoverStFiles, hempty, List.length_nil, List.drop_zero,
          List.filter_cons, hfound, if_true, List.filter_nil, List.map_cons, List.map_nil, hbelow,
          List.insertionSort_cons, List.insertionSort_nil, List.orderedInsert_nil]
    · cases hloaded

theorem Build.mem_files {T : Toolchain} (b : Build T) :
    ∀ f ∈ b.compiled, (f.1.path, f.2) ∈ b.files := by
  have hproject {yaml : Option String} (h : T.loadProject yaml b.files = .ok b.compiled) :
      ∀ f ∈ b.compiled, (f.1.path, f.2) ∈ b.files := by
    obtain ⟨_, _, -, -, hload⟩ := Toolchain.loadProject_ok.mp h
    exact (mapM_loadSource hload).2
  have hloaded := b.loaded
  cases harg : b.arg with
  | configFile yaml =>
    rw [harg] at hloaded
    exact hproject hloaded
  | directory yaml =>
    rw [harg] at hloaded
    exact hproject hloaded
  | sourceFile name =>
    rw [harg, Toolchain.projectSources] at hloaded
    split at hloaded
    · have hload : [⟨[name], name⟩].mapM (Toolchain.loadSource b.files) = .ok b.compiled := by
        cases hone : Toolchain.loadSource b.files ⟨[name], name⟩ with
        | error e =>
          rw [hone] at hloaded
          cases hloaded
        | ok one =>
          rw [hone] at hloaded
          rw [List.mapM_cons, hone]
          exact hloaded
      exact (mapM_loadSource hload).2
    · cases hloaded

/-- Different files of a portable bundle have different names in a session. -/
theorem Build.Portable.names_inj {T : Toolchain} {b : Build T} (h : b.Portable) (dir : String)
    {f g : Listed × String} (hf : f ∈ b.compiled) (hg : g ∈ b.compiled)
    (heq : dir ++ "/" ++ plainText f.1.path = dir ++ "/" ++ plainText g.1.path) : f = g := by
  have hplain := String.append_right_inj _ |>.mp heq
  have hpath : f.1.path = g.1.path := calc
    f.1.path = components (plainText f.1.path) := (b.proper _ (b.mem_files f hf)).symm
    _ = components (plainText g.1.path) := congrArg components hplain
    _ = g.1.path := b.proper _ (b.mem_files g hg)
  exact List.inj_on_of_nodup_map h.once hf hg hpath

theorem Build.Portable.nodup_names {T : Toolchain} {b : Build T} (h : b.Portable) (dir : String) :
    (b.compiled.map fun f => dir ++ "/" ++ plainText f.1.path).Nodup :=
  (List.Nodup.of_map _ h.once).map_on fun _ hf _ hg heq => h.names_inj dir hf hg heq

section

variable {T : Toolchain} {dir : SourceDir} {b : Build T} {localRoot : Option String}

theorem Build.At.mem {before : List (Listed × String)} {f : Listed} {text : String}
    (hat : b.At before f text) : (f, text) ∈ b.compiled := by
  obtain ⟨after, hcompiled⟩ := hat
  rw [hcompiled]
  exact List.mem_append_right _ (.head _)

theorem Build.at_of_mem {f : Listed} {text : String} (hf : (f, text) ∈ b.compiled) :
    ∃ before, b.At before f text := by
  obtain ⟨before, after, hcompiled⟩ := List.append_of_mem hf
  exact ⟨before, after, hcompiled⟩

theorem Build.Portable.path_eq (h : b.Portable) {f : Listed × String} (hf : f ∈ b.compiled) :
    dir.canonical ++ "/" ++ f.1.text = dir.canonical ++ "/" ++ plainText f.1.path := by
  rw [h.plain f hf]

theorem Build.Portable.attachMap_eq (h : b.Portable) :
    (attachMap T dir localRoot b.disk).sources.fileVirtualOffsets =
        fileOffsets (fun f => dir.canonical ++ "/" ++ f.text)
          (Frontend.totalLength T.builtinStdlib) b.compiled ∧
      (attachMap T dir localRoot b.disk).funcToFile =
        functionFiles T (fun f => dir.canonical ++ "/" ++ f.text) b.compiled := by
  simp only [attachMap, h.rebuilt, and_self]

theorem Build.Portable.find_offset (h : b.Portable) {before : List (Listed × String)} {f : Listed}
    {text : String} (hat : b.At before f text) :
    (attachMap T dir localRoot b.disk).sources.fileVirtualOffsets.find?
        (·.1 == dir.canonical ++ "/" ++ plainText f.path) =
      some (dir.canonical ++ "/" ++ plainText f.path, T.placedAt before) := by
  have hf := hat.mem
  obtain ⟨after, hcompiled⟩ := hat
  rw [h.attachMap_eq.1]
  refine find_of_nodup ?_ ?_
  · rw [keys_fileOffsets, List.nodup_reverse, List.map_congr_left fun g hg => h.path_eq hg]
    exact h.nodup_names dir.canonical
  · have hmem := mem_fileOffsets (fun f => dir.canonical ++ "/" ++ f.text) f text after before
      (Frontend.totalLength T.builtinStdlib)
    rw [← hcompiled, ← Frontend.totalLength_append] at hmem
    rw [← h.plain _ hf]
    exact hmem

theorem Build.Portable.sourceFiles_eq (h : b.Portable) :
    (attachMap T dir localRoot b.disk).sources.sourceFiles =
      b.compiled.map fun f => (dir.spelled ++ "/" ++ plainText f.1.path, f.2) := by
  have hall : (b.disk.files.filter fun f => f.1.getLast?.any isSource) = b.disk.files := by
    refine List.filter_eq_self.mpr fun g hg => ?_
    simp only [Build.disk, Build.sources, if_pos h.development, List.mem_map] at hg
    obtain ⟨c, hc, rfl⟩ := hg
    exact h.ending c hc
  simp only [attachMap, hall]
  simp only [Build.disk, Build.sources, if_pos h.development, List.map_map, Function.comp_def]

theorem Build.Portable.find_source (h : b.Portable) {before : List (Listed × String)} {f : Listed}
    {text : String} (hat : b.At before f text) :
    findSourceContent (attachMap T dir localRoot b.disk).sources.sourceFiles
      (dir.spelled ++ "/" ++ plainText f.path) = text := by
  have hf := hat.mem
  have hfind := find_of_nodup (k := dir.spelled ++ "/" ++ plainText f.path) (v := text)
    (l := b.compiled.map fun f => (dir.spelled ++ "/" ++ plainText f.1.path, f.2)) (by
      rw [List.map_map]
      exact h.nodup_names dir.spelled) (List.mem_map.mpr ⟨(f, text), hf, rfl⟩)
  rw [findSourceContent, h.sourceFiles_eq, hfind]

theorem Build.Portable.fileForFunc_eq (h : b.Portable) {f : Listed} {text funcName : String}
    (hf : (f, text) ∈ b.compiled) (hdecl : toUppercase funcName ∈ declaredFunctions T text) :
    (attachMap T dir localRoot b.disk).fileForFunc funcName =
      some (dir.canonical ++ "/" ++ plainText f.path, text) := by
  have hmem : (toUppercase funcName, dir.canonical ++ "/" ++ f.text, text) ∈
      functionFiles T (fun f => dir.canonical ++ "/" ++ f.text) b.compiled :=
    (mem_functionFiles T _).mpr ⟨(f, text), hf, hdecl, rfl⟩
  rw [AttachMap.fileForFunc, h.attachMap_eq.2]
  have hsome : ((functionFiles T (fun f => dir.canonical ++ "/" ++ f.text) b.compiled).find?
      (·.1 == toUppercase funcName)).isSome := by
    rw [List.find?_isSome]
    exact ⟨_, hmem, by simp⟩
  obtain ⟨e, he⟩ := Option.isSome_iff_exists.mp hsome
  have hkey : e.1 = toUppercase funcName := by simpa using List.find?_some he
  obtain ⟨g, hg, hn, hvalue⟩ := (mem_functionFiles T _).mp (List.mem_of_find?_eq_some he)
  obtain rfl := h.distinct g hg (f, text) hf _ hn (by rw [hkey]; exact hdecl)
  rw [he, Option.map_some, hvalue, ← h.plain _ hf]

/-- A position of a build, seen from one of its files: before it, behind it,
or between two of its characters. -/
theorem Build.Offset.seen {offset : Nat} (hoffset : b.Offset offset)
    {before : List (Listed × String)} {f : Listed} {text : String} (hat : b.At before f text) :
    offset ≤ T.placedAt before ∨ T.placedAt before + byteLen text.toList ≤ offset ∨
      ∃ front back, text.toList = front ++ back ∧ offset = T.placedAt before + byteLen front := by
  rcases hoffset with hlib | ⟨before', g, text', front, back, ⟨after', hcompiled'⟩, htext, rfl⟩
  · have hle := placedAt_append T [] before
    have hnil : T.placedAt [] = Frontend.totalLength T.builtinStdlib := by
      simp only [Toolchain.placedAt, Toolchain.texts, List.map_nil, List.append_nil]
    rw [List.nil_append] at hle
    exact .inl (by omega)
  · have hfront : byteLen front ≤ byteLen text'.toList := by
      rw [htext]
      simp only [byteLen, List.map_append, List.sum_append]
      omega
    obtain ⟨after, hcompiled⟩ := hat
    rw [hcompiled] at hcompiled'
    rcases List.append_eq_append_iff.mp hcompiled' with ⟨gap, rfl, hgap⟩ | ⟨gap, rfl, hgap⟩
    · cases gap with
      | nil =>
        cases hgap
        rw [List.append_nil]
        exact .inr (.inr ⟨front, back, htext, rfl⟩)
      | cons c gap =>
        cases hgap
        have hle := placedAt_cons T before f text gap
        exact .inr (.inl (by omega))
    · cases gap with
      | nil =>
        cases hgap
        rw [List.append_nil]
        exact .inr (.inr ⟨front, back, htext, rfl⟩)
      | cons c gap =>
        cases hgap
        have hle := placedAt_cons T before' g text' gap
        exact .inl (by omega)

theorem Build.Offset.line_ok {offset : Nat} (hoffset : b.Offset offset)
    {before : List (Listed × String)} {f : Listed} {text : String} (hat : b.At before f text) :
    ∃ line, byteOffsetToLine text (min (offset - T.placedAt before) (bytesOf text).length) =
      .ok line := by
  rw [length_bytesOf]
  rcases hoffset.seen hat with hbefore | hbehind | ⟨front, back, htext, rfl⟩
  · rw [Nat.sub_eq_zero_of_le hbefore, Nat.zero_min]
    exact ⟨_, byteOffsetToLine_ok (List.nil_append _).symm⟩
  · rw [min_eq_right (by omega)]
    exact ⟨_, byteOffsetToLine_ok (List.append_nil _).symm⟩
  · have hfront : byteLen front ≤ byteLen text.toList := by
      rw [htext]
      simp only [byteLen, List.map_append, List.sum_append]
      omega
    rw [Nat.add_sub_cancel_left, min_eq_left hfront]
    exact ⟨_, byteOffsetToLine_ok htext⟩

theorem Build.Portable.virtualOffset_eq (h : b.Portable) {before : List (Listed × String)}
    {f : Listed} {text : String} (hat : b.At before f text) :
    (attachMap T dir localRoot b.disk).virtualOffset
      (dir.canonical ++ "/" ++ plainText f.path) = T.placedAt before := by
  rw [AttachMap.virtualOffset, h.find_offset hat]
  rfl

/-- A function that several files might declare is shown in a file of the
build. -/
theorem Build.Portable.fileForFunc_some (h : b.Portable) {funcName : String}
    {file : String × String}
    (hfile : (attachMap T dir localRoot b.disk).fileForFunc funcName = some file) :
    ∃ f, (f, file.2) ∈ b.compiled ∧ file.1 = dir.canonical ++ "/" ++ plainText f.path := by
  rw [AttachMap.fileForFunc, h.attachMap_eq.2, Option.map_eq_some_iff] at hfile
  obtain ⟨e, he, rfl⟩ := hfile
  obtain ⟨g, hg, -, hvalue⟩ := (mem_functionFiles T _).mp (List.mem_of_find?_eq_some he)
  rw [hvalue]
  exact ⟨g.1, hg, h.path_eq hg⟩

/-- **Positions.** A session that begins on the sources of a portable bundle
shows the positions of its module, when the source directory is spelled as
the system resolves it. -/
theorem positionsRight_of_portable (h : b.Portable) (hspelled : dir.spelled = dir.canonical)
    (hroot : dir.remoteRoot = dir.canonical) :
    PositionsRight dir b (attachMap T dir localRoot b.disk) where
  offset before f text hat := h.virtualOffset_eq hat
  breakpoints before f text hat clientPath lines hpath := by
    rw [hroot] at hpath
    simp only [AttachSources.handleSetBreakpoints, hpath, h.find_offset hat, Option.map_some,
      Option.getD_some, and_true]
    rw [← hspelled]
    exact h.find_source hat
  frames before f text hat funcName hdecl front back htext := by
    have hlen : (bytesOf text).length = byteLen front + byteLen back := by
      rw [length_bytesOf, htext]
      simp only [byteLen, List.map_append, List.sum_append]
    have hlocal : min (T.placedAt before + byteLen front - T.placedAt before)
        (bytesOf text).length = byteLen front := by omega
    simp only [AttachMap.resolveFrameLocation, h.fileForFunc_eq hat.mem hdecl,
      h.virtualOffset_eq hat, hlocal, byteOffsetToLine_ok htext]
    rfl
  resolves funcName offset hoffset := by
    have hlocate {f : Listed} {text : String} (hf : (f, text) ∈ b.compiled) :
        ∃ shown, (byteOffsetToLine text (min (offset - (attachMap T dir localRoot
          b.disk).virtualOffset (dir.canonical ++ "/" ++ plainText f.path))
            (bytesOf text).length)).map (·, dir.canonical ++ "/" ++ plainText f.path) =
          .ok shown := by
      obtain ⟨before, hat⟩ := Build.at_of_mem hf
      obtain ⟨line, hline⟩ := hoffset.line_ok hat
      rw [h.virtualOffset_eq hat, hline]
      exact ⟨_, rfl⟩
    unfold AttachMap.resolveFrameLocation
    cases hfile : (attachMap T dir localRoot b.disk).fileForFunc funcName with
    | some file =>
      obtain ⟨f, hf, hpath⟩ := h.fileForFunc_some hfile
      obtain ⟨path, text⟩ := file
      subst hpath
      exact hlocate hf
    | none =>
      rw [h.sourceFiles_eq, List.head?_map, hspelled]
      cases hhead : b.compiled.head? with
      | none => exact ⟨_, rfl⟩
      | some f => exact hlocate (List.mem_of_head? hhead)

end

/-! ## Runs -/

/-- A session begins when the source directory is spelled as the system
resolves it and has the sources of the executing build, which is portable; and
while it lasts the engine only goes on with modules of portable builds with
the same sources. -/
def KeepsSources {T : Toolchain} (dir : SourceDir) (s : DebugTarget T) : DebugLabel T → Prop
  | .attach _ => dir.spelled = dir.canonical ∧ dir.remoteRoot = dir.canonical ∧
      ∀ b, s.executing = some b → b.Portable ∧ s.disk = b.disk
  | .onlineChange b => s.session ≠ none →
      b.Portable ∧ ∀ old, s.executing = some old → old.disk = b.disk
  | _ => True

/-- What is true of a session: it began on the sources of the executing
build. -/
def DebugTarget.OnSources {T : Toolchain} (dir : SourceDir) (s : DebugTarget T) : Prop :=
  ∀ m, s.session = some m → dir.spelled = dir.canonical ∧ dir.remoteRoot = dir.canonical ∧
    ∃ b localRoot, s.executing = some b ∧ b.Portable ∧ m = attachMap T dir localRoot b.disk

theorem DebugStep.onSources {T : Toolchain} {dir : SourceDir} {s t : DebugTarget T}
    {a : DebugLabel T} (hs : s.OnSources dir) (hkeeps : KeepsSources dir s a)
    (hstep : DebugStep T dir s a t) : t.OnSources dir := by
  cases hstep with
  | upload b => exact hs
  | uploadFails b k hb => exact hs
  | halt =>
    intro m hm
    cases hm
  | reopen =>
    intro m hm
    cases hm
  | detach =>
    intro m hm
    cases hm
  | start b hb hnone =>
    intro m hm
    obtain ⟨-, -, old, -, hold, -⟩ := hs m hm
    rw [hnone] at hold
    cases hold
  | onlineChange b hb hsome =>
    intro m hm
    obtain ⟨hspelled, hroot, old, localRoot, hold, -, hmap⟩ := hs m hm
    have hsession : s.session ≠ none := by
      intro hnone
      rw [show s.session = some m from hm] at hnone
      cases hnone
    obtain ⟨hportable, hdisk⟩ := hkeeps hsession
    refine ⟨hspelled, hroot, b, localRoot, rfl, hportable, ?_⟩
    rw [hmap, hdisk old hold]
  | attach localRoot mode hstored hmode hexec hnone =>
    intro m hm
    obtain ⟨b, hb⟩ := Option.ne_none_iff_exists'.mp hexec
    obtain ⟨hspelled, hroot, hall⟩ := hkeeps
    obtain ⟨hportable, hdisk⟩ := hall b hb
    refine ⟨hspelled, hroot, b, localRoot, hb, hportable, ?_⟩
    rw [← hdisk]
    exact (Option.some.inj hm).symm

end

/-! ## A station and its alarms -/

def stationText : String := "PROGRAM Main\nEND_PROGRAM\n"

def stationTree : Ranged.SourceFile :=
  ⟨[.program ⟨⟨"Main", ⟨8, 12⟩⟩, [], [], ⟨0, 24⟩⟩], ⟨0, 25⟩⟩

/-- The parser on the program. -/
def stationTools : Toolchain where
  parse t := if t = bytesOf stationText then ⟨stationTree, []⟩ else ⟨⟨[], ⟨0, t.length⟩⟩, []⟩
  builtinStdlib := [bytesOf "(* mathematics library *)\n"]
  ranges_in_text t r hr := by
    by_cases ht : t = bytesOf stationText
    · subst ht
      rw [if_pos rfl] at hr
      revert r
      decide +kernel
    · rw [if_neg ht] at hr
      cases hr
  errors_in_text t e he := by
    split at he <;> cases he
  stdlib_parses t _ := by
    split <;> rfl
  glob _ _ := false
  parseConfig _ := .error "no configuration"

theorem eq_ok_get {ε α : Type} {x : Except ε α} (h : x.toOption.isSome) :
    x = .ok (x.toOption.get h) := by
  cases x with
  | error e => cases h
  | ok a => rfl

/-- A development bundle of a directory without a configuration. -/
def Toolchain.developed (T : Toolchain) (files : List (Path × String))
    (compiled : List (Listed × String)) (hnodup : (files.map (·.1)).Nodup)
    (hproper : ∀ f ∈ files, components (plainText f.1) = f.1)
    (hloaded : T.projectSources files (.directory none) = .ok compiled)
    (hmade : (@Toolchain.compileSources T default compiled).toOption.isSome) : @Build default T :=
  @Build.mk default T files hnodup hproper (.directory none) .development compiled _ hloaded
    (eq_ok_get hmade)

def mainFile : Listed × String := (⟨["main.st"], "main.st"⟩, stationText)

def alarmFile : Listed × String :=
  (⟨["alarms.st"], "alarms.st"⟩, "(* the alarms of the station *)\n")

def station : @Build default stationTools :=
  stationTools.developed [(["main.st"], stationText)] [mainFile] (by decide) (by decide +kernel)
    (by decide +kernel) (by decide +kernel)

/-- The station with a file that comes before the program. -/
def alarmStation : @Build default stationTools :=
  stationTools.developed [(["main.st"], stationText), (["alarms.st"], alarmFile.2)]
    [alarmFile, mainFile] (by decide) (by decide +kernel) (by decide +kernel) (by decide +kernel)

def sourceDir : SourceDir := ⟨"/var/lib/plc/current_source", "/var/lib/plc/current_source"⟩

def blank : @DebugTarget default stationTools :=
  @DebugTarget.mk default _ ⟨false, none, []⟩ none [] none none

/-- The station has been uploaded. -/
def uploaded : @DebugTarget default stationTools :=
  @DebugTarget.mk default _ (@Build.disk default _ station) (some (.development, true)) [station]
    none none

/-- The station has been started. -/
def running : @DebugTarget default stationTools :=
  @DebugTarget.mk default _ (@Build.disk default _ station) (some (.development, true)) [station]
    (some station) none

/-- The alarms have been uploaded while the station was running. -/
def replaced : @DebugTarget default stationTools :=
  @DebugTarget.mk default _ (@Build.disk default _ alarmStation) (some (.development, true))
    [station, alarmStation] (some station) none

/-- A session of a target. -/
def debugged (s : @DebugTarget default stationTools) : @DebugTarget default stationTools :=
  @DebugTarget.mk default _ (@DebugTarget.disk default _ s) (@DebugTarget.stored default _ s)
    (@DebugTarget.history default _ s) (@DebugTarget.executing default _ s)
    (some (attachMap stationTools sourceDir none (@DebugTarget.disk default _ s)))

theorem station_portable : @Build.Portable default _ station :=
  @Build.Portable.mk default _ station rfl (fun _ h => by cases h) (by decide +kernel)
    (by decide +kernel) (by decide +kernel) (by decide +kernel)

theorem running_reachable : ((@debugLts default stationTools sourceDir).restrict
    (@KeepsSources default _ sourceDir)).Reachable running := by
  have hfresh : ((@debugLts default stationTools sourceDir).restrict
      (@KeepsSources default _ sourceDir)).Reachable blank :=
    .init (@DebugTarget.Fresh.mk default _ blank rfl rfl rfl rfl rfl)
  have hupload : @DebugStep default stationTools sourceDir blank
      (@DebugLabel.upload default _ station) uploaded := @DebugStep.upload default _ _ blank station
  have hstart : @DebugStep default stationTools sourceDir uploaded
      (@DebugLabel.start default _ station) running := @DebugStep.start default _ _ uploaded station (.head _) rfl
  have huploaded : ((@debugLts default stationTools sourceDir).restrict
      (@KeepsSources default _ sourceDir)).Reachable uploaded :=
    .step (a := @DebugLabel.upload default _ station) hfresh ⟨trivial, hupload⟩
  exact .step (a := @DebugLabel.start default _ station) huploaded ⟨trivial, hstart⟩

theorem attach_step {s : @DebugTarget default stationTools}
    (hstored : @DebugTarget.stored default _ s = some (.development, true))
    (hexec : @DebugTarget.executing default _ s = some station)
    (hsession : @DebugTarget.session default _ s = none) :
    @DebugStep default stationTools sourceDir s (@DebugLabel.attach default _ none) (debugged s) :=
  @DebugStep.attach default _ _ s none .development hstored (by simp) (by simp [hexec]) hsession

/-- The alarms are uploaded while the station is running, and a debugger is
attached: the session places the running program behind the alarms. -/
theorem replaced_misplaced :
    (@debugLts default stationTools sourceDir).Reachable (debugged replaced) ∧
    @DebugTarget.executing default _ (debugged replaced) = some station ∧
    ¬ @PositionsRight default _ sourceDir station
      (attachMap stationTools sourceDir none (@Build.disk default _ alarmStation)) := by
  have hupload : @DebugStep default stationTools sourceDir running
      (@DebugLabel.upload default _ alarmStation) replaced := @DebugStep.upload default _ _ running alarmStation
  refine ⟨?_, rfl, fun h => ?_⟩
  · exact .step (.step running_reachable.of_restrict hupload) (attach_step rfl rfl rfl)
  · have hoffset := @PositionsRight.offset default _ _ _ _ h [] ⟨["main.st"], "main.st"⟩
      stationText ⟨[], rfl⟩
    revert hoffset
    decide +kernel

end RustPlc.Target
