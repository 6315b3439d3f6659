import RustPlc.Core.Files

/-!
# The program store

`extract_bundle` (crates/st-deploy/src/bundle.rs:378-459) and `ProgramStore`
(crates/st-target-agent/src/program_store.rs). An upload is written to a
temporary file, extracted and checked, and then persisted by a sequence of
file operations, some required and some best effort (`storePlan`).

What is done outside this repository is in `Library`: reading a gzipped tar,
YAML and JSON, and SHA-256. A file operation fails when the files it finds do
not allow it; the text of the system's error is `Library.osError`.

Left out: the manifest's compiler version and file lists and the debug map,
which the store does not read.
-/
namespace RustPlc.Target

open RustPlc.Core

abbrev Bytes := List UInt8

/-! ## Bundles -/

/-- mirrors crates/st-deploy/src/bundle.rs:25-35 -/
inductive BundleMode where
  | development | release | releaseDebug
  deriving DecidableEq, Repr

/-- mirrors crates/st-deploy/src/bundle.rs:37-45 -/
def BundleMode.text : BundleMode → String
  | .development => "development"
  | .release => "release"
  | .releaseDebug => "release-debug"

/-- mirrors crates/st-deploy/src/bundle.rs:49-71 -/
structure BundleManifest where
  name : String
  version : String
  mode : BundleMode
  compiledAt : String
  bytecodeChecksum : String
  hasDebugMap : Bool
  entryPoint : Option String
  deriving DecidableEq, Repr

/-- mirrors crates/st-deploy/src/bundle.rs:92-107 -/
structure ProgramBundle where
  manifest : BundleManifest
  bytecode : Bytes
  sources : List (String × Bytes)
  projectYaml : Option Bytes
  profiles : List (String × Bytes)
  deriving DecidableEq, Repr

/-- mirrors crates/st-target-agent/src/program_store.rs:38-47; the persisted
metadata has the same fields. -/
structure ProgramMetadata where
  name : String
  version : String
  mode : String
  compiledAt : String
  entryPoint : Option String
  bytecodeChecksum : String
  deployedAt : String
  hasDebugMap : Bool
  deriving DecidableEq, Repr

/-- The libraries the store rests on. `entries` is the stream of a gzipped
tar archive. -/
structure Library where
  entries : Bytes → List (Except String (String × Bytes))
  manifest : Bytes → Except String BundleManifest
  sha256Hex : Bytes → String
  encodeMeta : ProgramMetadata → Bytes
  decodeMeta : Bytes → Option ProgramMetadata
  osError : String

/-- `p.strip_prefix(front)` -/
def cutFront (front p : String) : Option String :=
  if front.toList <+: p.toList then some (String.ofList (p.toList.drop front.length)) else none

/-- What the loop of `extract_bundle` has found so far. -/
structure Extracted where
  manifest : Option BundleManifest
  bytecode : Option Bytes
  sources : List (String × Bytes)
  projectYaml : Option Bytes
  profiles : List (String × Bytes)

namespace Library

variable (lib : Library)

/-- mirrors crates/st-deploy/src/bundle.rs:404-436 -/
def extractEntry (acc : Extracted) (path : String) (content : Bytes) : Except String Extracted :=
  if path = "manifest.yaml" then
    (lib.manifest content).map fun m => { acc with manifest := some m }
  else if path = "program.stc" then .ok { acc with bytecode := some content }
  else if path = "debug.map" then .ok acc
  else if path = "plc-project.yaml" then .ok { acc with projectYaml := some content }
  else if path = "_io_map.st" then .ok acc
  else match cutFront "source/" path, cutFront "profiles/" path with
    | some rel, _ => .ok { acc with sources := acc.sources ++ [(rel, content)] }
    | none, some filename => .ok { acc with profiles := acc.profiles ++ [(filename, content)] }
    | none, none => .ok acc

/-- mirrors crates/st-deploy/src/bundle.rs:391-437 -/
def extractEntries (acc : Extracted) : List (Except String (String × Bytes)) →
    Except String Extracted
  | [] => .ok acc
  | .error e :: _ => .error e
  | .ok (path, content) :: es => do
    let acc' ← lib.extractEntry acc path content
    extractEntries acc' es

/-- mirrors crates/st-deploy/src/bundle.rs:378-459 -/
def extractBundle (data : Bytes) : Except String ProgramBundle := do
  let found ← lib.extractEntries ⟨none, none, [], none, []⟩ (lib.entries data)
  match found.manifest, found.bytecode with
  | none, _ => .error "Bundle is missing manifest.yaml"
  | some _, none => .error "Bundle is missing program.stc"
  | some manifest, some bytecode =>
    if lib.sha256Hex bytecode ≠ manifest.bytecodeChecksum then
      .error ("Bytecode checksum mismatch: expected " ++ manifest.bytecodeChecksum ++ ", got " ++
        lib.sha256Hex bytecode)
    else .ok ⟨manifest, bytecode, found.sources, found.projectYaml, found.profiles⟩

end Library

/-! ## Errors -/

/-- mirrors crates/st-target-agent/src/error.rs:9-12 -/
structure ApiError where
  error : String
  code : String
  deriving DecidableEq, Repr

def ApiError.internal (msg : String) : ApiError := ⟨msg, "internal_error"⟩

def ApiError.invalidBundle (msg : String) : ApiError := ⟨msg, "invalid_bundle"⟩

def ApiError.notFound (msg : String) : ApiError := ⟨msg, "program_not_found"⟩

/-! ## The store -/

/-- mirrors crates/st-target-agent/src/program_store.rs:28-34 -/
structure StoredProgram where
  metadata : ProgramMetadata
  bytecode : Bytes
  entryPoint : String
  sourceDir : Option Path
  deriving DecidableEq, Repr

/-- A directory by its resolved path. -/
structure Directory where
  path : Path
  plain : Plain path

/-- mirrors crates/st-target-agent/src/program_store.rs:22-25 -/
structure ProgramStore where
  programDir : Directory
  current : Option StoredProgram

/-- The files of a store directory. -/
def uploadPath (dir : Path) : Path := dir ++ ["_upload.st-bundle"]
def sourcePath (dir : Path) : Path := dir ++ ["current_source"]
def profilesPath (dir : Path) : Path := dir ++ ["current_profiles"]
def yamlPath (dir : Path) : Path := dir ++ ["current.project.yaml"]
def bytecodePath (dir : Path) : Path := dir ++ ["current.bytecode"]
def metaPath (dir : Path) : Path := dir ++ ["current.meta.json"]

/-- `fs::read` -/
def readFile (fs : Files Bytes) (path : List String) : Option Bytes :=
  (Files.walk fs [] path).bind fun p => Files.content (fs p)

/-- `path.is_dir()` -/
def pathIsDir (fs : Files Bytes) (path : List String) : Bool :=
  ((Files.walk fs [] path).map fun p => Files.isDir (fs p)).getD false

/-- mirrors crates/st-target-agent/src/program_store.rs:106-110, 86 -/
def entryPointOf (entryPoint : Option String) : String := entryPoint.getD "Main"

/-- mirrors crates/st-target-agent/src/program_store.rs:66-90 -/
def loadPersisted (lib : Library) (dir : Path) (fs : Files Bytes) : Option StoredProgram := do
  let bytecode ← readFile fs (bytecodePath dir)
  let text ← readFile fs (metaPath dir)
  let persisted ← lib.decodeMeta text
  return {
    metadata := persisted
    bytecode := bytecode
    entryPoint := entryPointOf persisted.entryPoint
    sourceDir := if pathIsDir fs (sourcePath dir) then some (sourcePath dir) else none }

/-- mirrors crates/st-target-agent/src/program_store.rs:52-62 -/
def openStore (lib : Library) (dir : Directory) (fs : Files Bytes) :
    Files Bytes × Except String ProgramStore :=
  match (FileOp.createDirAll dir.path).run fs with
  | (fs', false) => (fs', .error ("Cannot create program dir /" ++ "/".intercalate dir.path ++
      ": " ++ lib.osError))
  | (fs', true) => (fs', .ok ⟨dir, loadPersisted lib dir.path fs'⟩)

/-! ## Storing a bundle -/

/-- mirrors crates/st-target-agent/src/program_store.rs:112-121 -/
def metadataOf (manifest : BundleManifest) (now : String) : ProgramMetadata where
  name := manifest.name
  version := manifest.version
  mode := manifest.mode.text
  compiledAt := manifest.compiledAt
  entryPoint := manifest.entryPoint
  bytecodeChecksum := manifest.bytecodeChecksum
  deployedAt := now
  hasDebugMap := manifest.hasDebugMap

abbrev StoreTask := Task Bytes ApiError

/-- An operation whose failure is ignored. -/
def bestEffort (op : FileOp Bytes) : StoreTask := ⟨op, none⟩

/-- An operation whose failure ends the upload. -/
def required (lib : Library) (what : String) (op : FileOp Bytes) : StoreTask :=
  ⟨op, some (.internal (what ++ ": " ++ lib.osError))⟩

/-- mirrors crates/st-target-agent/src/program_store.rs:137-145 -/
def sourceTasks (lib : Library) (dir : Path) (rel : String) (content : Bytes) : List StoreTask :=
  [bestEffort (.createDirAll (joinPath (sourcePath dir) rel).dropLast),
    required lib ("Cannot write source " ++ rel) (.write (openPath (sourcePath dir) rel) content)]

/-- mirrors crates/st-target-agent/src/program_store.rs:130-145 -/
def writeSources (lib : Library) (dir : Path) (b : ProgramBundle) : List StoreTask :=
  (match b.projectYaml with
    | some yaml => [required lib "Cannot write project yaml"
        (.write (sourcePath dir ++ ["plc-project.yaml"]) yaml)]
    | none => []) ++
  b.sources.flatMap fun (rel, content) => sourceTasks lib dir rel content

/-- mirrors crates/st-target-agent/src/program_store.rs:123-150 -/
def sourcesPlan (lib : Library) (dir : Path) (b : ProgramBundle) : List StoreTask :=
  if b.sources = [] then []
  else bestEffort (.removeDirAll (sourcePath dir)) ::
    required lib "Cannot create source dir" (.createDirAll (sourcePath dir)) ::
    writeSources lib dir b

/-- mirrors crates/st-target-agent/src/program_store.rs:155-167 -/
def profilesPlan (dir : Path) (b : ProgramBundle) : List StoreTask :=
  bestEffort (.removeDirAll (profilesPath dir)) ::
    if b.profiles = [] then []
    else bestEffort (.createDirAll (profilesPath dir)) ::
      b.profiles.map fun (filename, content) =>
        bestEffort (.write (openPath (profilesPath dir) filename) content)

/-- mirrors crates/st-target-agent/src/program_store.rs:171-175 -/
def yamlTask (dir : Path) (b : ProgramBundle) : StoreTask :=
  match b.projectYaml with
  | some yaml => bestEffort (.write (yamlPath dir) yaml)
  | none => bestEffort (.removeFile (yamlPath dir))

/-- The file operations behind the extraction of a bundle.
mirrors crates/st-target-agent/src/program_store.rs:104, 123-194 -/
def storePlan (lib : Library) (dir : Path) (b : ProgramBundle) (now : String) : List StoreTask :=
  bestEffort (.removeFile (uploadPath dir)) ::
    (sourcesPlan lib dir b ++ profilesPlan dir b ++
      [yamlTask dir b,
       bestEffort (.write (bytecodePath dir) b.bytecode),
       bestEffort (.write (metaPath dir) (lib.encodeMeta (metadataOf b.manifest now)))])

/-- The program of a bundle as the store remembers it.
mirrors crates/st-target-agent/src/program_store.rs:196-201 -/
def programOf (dir : Path) (b : ProgramBundle) (now : String) : StoredProgram where
  metadata := metadataOf b.manifest now
  bytecode := b.bytecode
  entryPoint := entryPointOf b.manifest.entryPoint
  sourceDir := if b.sources = [] then none else some (sourcePath dir)

/-- mirrors crates/st-target-agent/src/program_store.rs:94-204 -/
def storeBundle (lib : Library) (fs : Files Bytes) (store : ProgramStore) (data : Bytes)
    (now : String) : Files Bytes × ProgramStore × Except ApiError ProgramMetadata :=
  let dir := store.programDir.path
  match (FileOp.write (uploadPath dir) data).run fs with
  | (fs1, false) =>
    (fs1, store, .error (.internal ("Cannot write temp bundle: " ++ lib.osError)))
  | (fs1, true) => match lib.extractBundle data with
    | .error msg => (fs1, store, .error (.invalidBundle msg))
    | .ok b => match runPlan fs1 (storePlan lib dir b now) with
      | (fs2, .error e) => (fs2, store, .error e)
      | (fs2, .ok _) =>
        (fs2, { store with current := some (programOf dir b now) }, .ok (metadataOf b.manifest now))

/-- mirrors crates/st-target-agent/src/program_store.rs:244-250 -/
def removeCurrent (store : ProgramStore) : ProgramStore × Except ApiError Unit :=
  if store.current.isNone then (store, .error (.notFound "No program deployed"))
  else ({ store with current := none }, .ok ())

end RustPlc.Target
