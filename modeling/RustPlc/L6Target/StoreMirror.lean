import Mathlib.Data.Countable.Basic
import Mathlib.Logic.Equiv.List
import RustPlc.Core.Lts
import RustPlc.L6Target.Upload

/-!
# The store on disk and in memory

Uploads, removals and re-openings of the program store in any order. A store
is mirrored when `ProgramStore::new` on its directory gives it back. An upload
writes the program's bytecode and metadata last; what a re-opened store
believes about the sources is read from the directory.

Results:
* `storeBundle_disk`: what a successful upload leaves on disk;
* `store_mirrors_iff`: after a successful upload the store is mirrored exactly
  when it has sources or no source directory was left behind;
* `store_mirrored`: **every run of operations that meet the condition**;
* `reboot_brings_another_program`: the runs that leave a different program.
-/
namespace RustPlc.Target

open RustPlc.Core

/-! ## Files of the program directory -/

section

variable {dir : Path} (hdir : Plain dir)
include hdir

theorem plain_child {c : String} (hc : c ≠ ".." ∧ c ≠ ".") : Plain (dir ++ [c]) :=
  hdir.append (by simpa [Plain] using hc)

omit hdir in
theorem above_ne_child {p : Path} (hp : p <+: dir) (c : String) : p ≠ dir ++ [c] := by
  rintro rfl
  have := hp.length_le
  rw [List.length_append, List.length_singleton] at this
  omega

theorem walk_child {fs : Files Bytes} (hfs : DirExists fs dir) {c : String}
    (hc : c ≠ ".." ∧ c ≠ ".") : Files.walk fs [] (dir ++ [c]) = some (dir ++ [c]) := by
  refine Files.walk_of_dirs (plain_child hdir hc) fun as has hne => hfs as ?_
  rcases List.prefix_concat_iff.mp has with heq | hpre
  · exact absurd heq hne
  · exact hpre

theorem readFile_child {fs : Files Bytes} (hfs : DirExists fs dir) {c : String}
    (hc : c ≠ ".." ∧ c ≠ ".") : readFile fs (dir ++ [c]) = Files.content (fs (dir ++ [c])) := by
  rw [readFile, walk_child hdir hfs hc]
  rfl

theorem pathIsDir_child {fs : Files Bytes} (hfs : DirExists fs dir) {c : String}
    (hc : c ≠ ".." ∧ c ≠ ".") : pathIsDir fs (dir ++ [c]) = Files.isDir (fs (dir ++ [c])) := by
  rw [pathIsDir, walk_child hdir hfs hc]
  rfl

/-- A file of the directory is written unless a directory is in its place. -/
theorem write_child_run {fs : Files Bytes} (hfs : DirExists fs dir) {c : String}
    (hc : c ≠ ".." ∧ c ≠ ".") (hfile : Files.isDir (fs (dir ++ [c])) = false) (content : Bytes) :
    (FileOp.write (dir ++ [c]) content).run fs =
      (fs.put (dir ++ [c]) (some (.file content)), true) := by
  simp only [FileOp.run, walk_child hdir hfs hc]
  rw [hfile]
  rfl

/-- Creating one entry of the directory does not pass through another. -/
theorem child_not_on_way {c d : String} (hc : c ≠ ".." ∧ c ≠ ".") (hne : d ≠ c) (k : ℕ) :
    dir ++ [d] ≠ lexical [] ((dir ++ [c]).take k) := by
  have hway : (dir ++ [c]).take k <+: dir ++ [c] := List.take_prefix k _
  rw [lexical_of_plain ((plain_child hdir hc).of_subset hway.subset), List.nil_append]
  intro heq
  rw [← heq] at hway
  have hsame := hway.eq_of_length (by simp)
  exact hne (by simpa using hsame)

/-- An entry of the directory is not above it, nor above another entry. -/
theorem child_not_above {c : String} (hc : c ≠ ".." ∧ c ≠ ".") {p : Path} (hp : p <+: dir) :
    ¬ lexical [] (dir ++ [c]) <+: p := by
  rw [lexical_of_plain (plain_child hdir hc), List.nil_append]
  intro hpre
  have := (hpre.trans hp).length_le
  rw [List.length_append, List.length_singleton] at this
  omega

theorem child_not_above_child {c d : String} (hc : c ≠ ".." ∧ c ≠ ".") (hne : c ≠ d) :
    ¬ lexical [] (dir ++ [c]) <+: dir ++ [d] := by
  rw [lexical_of_plain (plain_child hdir hc), List.nil_append]
  intro hpre
  have hsame := hpre.eq_of_length (by simp)
  exact hne (by simpa using hsame)

end

/-! ## The operations of an upload -/

section

variable {lib : Library} {dir : Path} {b : ProgramBundle} {now : String} {t : StoreTask}

theorem profilesPlan_op (ht : t ∈ profilesPlan dir b) :
    t.op = .removeDirAll (profilesPath dir) ∨ t.op = .createDirAll (profilesPath dir) ∨
      ∃ path content, t.op = .write path content := by
  unfold profilesPlan at ht
  rcases List.mem_cons.mp ht with rfl | ht
  · exact Or.inl rfl
  · split at ht
    · cases ht
    · rcases List.mem_cons.mp ht with rfl | ht
      · exact Or.inr (Or.inl rfl)
      · obtain ⟨p, _, rfl⟩ := List.mem_map.mp ht
        exact Or.inr (Or.inr ⟨_, _, rfl⟩)

/-- The operations behind the creation of the source directory. -/
theorem writeSources_op (ht : t ∈ writeSources lib dir b) :
    (∃ s ∈ b.sources, t.op = .createDirAll (joinPath (sourcePath dir) s.1).dropLast) ∨
      ∃ path content, t.op = .write path content := by
  rcases List.mem_append.mp ht with ht | ht
  · split at ht
    · rw [List.mem_singleton.mp ht]
      exact Or.inr ⟨_, _, rfl⟩
    · cases ht
  · obtain ⟨s, hs, ht⟩ := List.mem_flatMap.mp ht
    rcases List.mem_pair.mp ht with rfl | rfl
    · exact Or.inl ⟨s, hs, rfl⟩
    · exact Or.inr ⟨_, _, rfl⟩

theorem yamlTask_op (dir : Path) (b : ProgramBundle) : (∃ path, (yamlTask dir b).op = .removeFile path) ∨
    ∃ path content, (yamlTask dir b).op = .write path content := by
  unfold yamlTask
  split
  · exact Or.inr ⟨_, _, rfl⟩
  · exact Or.inl ⟨_, rfl⟩

/-- What the operations of an upload remove and create. -/
theorem storePlan_op (ht : t ∈ storePlan lib dir b now) :
    (∃ path content, t.op = .write path content) ∨ (∃ path, t.op = .removeFile path) ∨
    (t.op = .removeDirAll (profilesPath dir) ∨ t.op = .createDirAll (profilesPath dir)) ∨
    (b.sources ≠ [] ∧
      (t.op = .removeDirAll (sourcePath dir) ∨ t.op = .createDirAll (sourcePath dir) ∨
        ∃ s ∈ b.sources, t.op = .createDirAll (joinPath (sourcePath dir) s.1).dropLast)) := by
  unfold storePlan at ht
  rcases List.mem_cons.mp ht with rfl | ht
  · exact Or.inr (Or.inl ⟨_, rfl⟩)
  rcases List.mem_append.mp ht with ht | ht
  · rcases List.mem_append.mp ht with ht | ht
    · unfold sourcesPlan at ht
      split at ht
      · cases ht
      · next hsources =>
        rcases List.mem_cons.mp ht with rfl | ht
        · exact Or.inr (Or.inr (Or.inr ⟨hsources, Or.inl rfl⟩))
        rcases List.mem_cons.mp ht with rfl | ht
        · exact Or.inr (Or.inr (Or.inr ⟨hsources, Or.inr (Or.inl rfl)⟩))
        rcases writeSources_op ht with hmk | hw
        · exact Or.inr (Or.inr (Or.inr ⟨hsources, Or.inr (Or.inr hmk)⟩))
        · exact Or.inl hw
    · rcases profilesPlan_op ht with hrm | hmk | hw
      · exact Or.inr (Or.inr (Or.inl (Or.inl hrm)))
      · exact Or.inr (Or.inr (Or.inl (Or.inr hmk)))
      · exact Or.inl hw
  · rcases List.mem_cons.mp ht with rfl | ht
    · exact (yamlTask_op dir b).elim (fun h => Or.inr (Or.inl h)) Or.inl
    · rcases List.mem_pair.mp ht with rfl | rfl
      · exact Or.inl ⟨_, _, rfl⟩
      · exact Or.inl ⟨_, _, rfl⟩

variable {data : Bytes} (hx : lib.extractBundle data = .ok b)
include hx

theorem uploadTasks_cons : uploadTasks lib dir data now =
    required lib "Cannot write temp bundle" (.write (uploadPath dir) data) ::
      storePlan lib dir b now := by
  rw [uploadTasks, hx]

variable (hdir : Plain dir)
include hdir

/-- The program directory survives every operation of an upload. -/
theorem uploadTasks_keep_dirExists (ht : t ∈ uploadTasks lib dir data now) {fs : Files Bytes}
    (hfs : DirExists fs dir) : DirExists (t.op.run fs).1 dir := by
  intro p hp
  refine run_keeps_dir (hfs p hp) fun path hop => ?_
  rw [uploadTasks_cons hx] at ht
  rcases List.mem_cons.mp ht with rfl | ht
  · cases hop
  rcases storePlan_op ht with ⟨_, _, h⟩ | ⟨_, h⟩ | (h | h) | ⟨_, h | h | ⟨_, _, h⟩⟩ <;>
    rw [h] at hop <;> cases hop
  · exact child_not_above hdir (by decide) hp
  · exact child_not_above hdir (by decide) hp

/-- No directory appears where no source has one on its way. -/
theorem uploadTasks_keep_notDir (ht : t ∈ uploadTasks lib dir data now) {c : String}
    (hprofiles : c ≠ "current_profiles") (hsource : c = "current_source" → b.sources = [])
    (hnames : ∀ s ∈ b.sources, ∀ k,
      dir ++ [c] ≠ lexical [] ((joinPath (sourcePath dir) s.1).dropLast.take k))
    {fs : Files Bytes} (hfs : Files.isDir (fs (dir ++ [c])) = false) :
    Files.isDir ((t.op.run fs).1 (dir ++ [c])) = false := by
  refine run_keeps_notDir hfs fun path hop => ?_
  rw [uploadTasks_cons hx] at ht
  rcases List.mem_cons.mp ht with rfl | ht
  · cases hop
  rcases storePlan_op ht with ⟨_, _, h⟩ | ⟨_, h⟩ | (h | h) | ⟨hne, h | h | ⟨s, hs, h⟩⟩ <;>
    rw [h] at hop <;> cases hop
  · exact child_not_on_way hdir (by decide) hprofiles
  · exact child_not_on_way hdir (by decide) fun heq => hne (hsource heq)
  · exact hnames s hs

/-- An upload starts only in a directory that exists. -/
theorem dirExists_of_ok {fs : Files Bytes}
    (hok : (runPlan fs (uploadTasks lib dir data now)).2 = .ok ()) : DirExists fs dir := by
  rw [uploadTasks_cons hx] at hok
  exact write_child (c := "_upload.st-bundle") hdir (by decide) (runPlan_required hok).1

end

/-! ## What an upload leaves -/

/-- The program's own files can be written: no directory is in their place,
and the way to no source makes one. -/
structure Placed (dir : Path) (fs : Files Bytes) (b : ProgramBundle) : Prop where
  bytecode : Files.isDir (fs (bytecodePath dir)) = false
  metadata : Files.isDir (fs (metaPath dir)) = false
  names : ∀ s ∈ b.sources, ∀ k, lexical [] ((joinPath (sourcePath dir) s.1).dropLast.take k) ∉
    [bytecodePath dir, metaPath dir]

/-- The disk holds the program of the bundle. -/
structure Persisted (lib : Library) (dir : Path) (fs : Files Bytes) (b : ProgramBundle)
    (now : String) : Prop where
  dirExists : DirExists fs dir
  bytecode : fs (bytecodePath dir) = some (.file b.bytecode)
  metadata : fs (metaPath dir) = some (.file (lib.encodeMeta (metadataOf b.manifest now)))

section

variable {lib : Library} {dir : Path} (hdir : Plain dir) {b : ProgramBundle} {now : String}
include hdir

/-- The last two operations of an upload. -/
theorem persist_run {fs : Files Bytes} (hfs : DirExists fs dir)
    (hbytecode : Files.isDir (fs (bytecodePath dir)) = false)
    (hmeta : Files.isDir (fs (metaPath dir)) = false) (content text : Bytes) :
    runPlan fs [bestEffort (.write (bytecodePath dir) content),
        bestEffort (.write (metaPath dir) text)] =
      ((fs.put (bytecodePath dir) (some (.file content))).put (metaPath dir) (some (.file text)),
        .ok ()) := by
  have hexists : DirExists (fs.put (bytecodePath dir) (some (.file content))) dir := fun p hp =>
    (Files.put_other fs (above_ne_child hp _) _).trans (hfs p hp)
  have hfirst : (FileOp.write (bytecodePath dir) content).run fs =
      (fs.put (bytecodePath dir) (some (.file content)), true) :=
    write_child_run hdir hfs (by decide) hbytecode content
  have hsecond : (FileOp.write (metaPath dir) text).run
      (fs.put (bytecodePath dir) (some (.file content))) =
      ((fs.put (bytecodePath dir) (some (.file content))).put (metaPath dir) (some (.file text)),
        true) := by
    refine write_child_run hdir hexists (by decide) ?_ text
    rw [Files.put_other fs (by simp [bytecodePath])]
    exact hmeta
  rw [bestEffort, bestEffort, runPlan_bestEffort, hfirst, runPlan_bestEffort, hsecond]
  rfl

omit hdir in
theorem persisted_put {fs : Files Bytes} (hfs : DirExists fs dir) :
    Persisted lib dir ((fs.put (bytecodePath dir) (some (.file b.bytecode))).put (metaPath dir)
      (some (.file (lib.encodeMeta (metadataOf b.manifest now))))) b now where
  dirExists := fun p hp =>
    (Files.put_other _ (above_ne_child hp _) _).trans
      ((Files.put_other _ (above_ne_child hp _) _).trans (hfs p hp))
  bytecode := by
    rw [Files.put_other _ (by simp [bytecodePath, metaPath]), Files.put_same]
  metadata := Files.put_same _ _ _

end

/-- The operations of an upload before it writes bytecode and metadata. -/
def frontPlan (lib : Library) (dir : Path) (data : Bytes) (b : ProgramBundle) : List StoreTask :=
  [required lib "Cannot write temp bundle" (.write (uploadPath dir) data),
    bestEffort (.removeFile (uploadPath dir))] ++
  (sourcesPlan lib dir b ++ profilesPlan dir b ++ [yamlTask dir b])

section

variable {lib : Library} {dir : Path} {data : Bytes} {b : ProgramBundle} {now : String}
  {fs : Files Bytes}

theorem uploadTasks_front (hx : lib.extractBundle data = .ok b) :
    uploadTasks lib dir data now = frontPlan lib dir data b ++
      [bestEffort (.write (bytecodePath dir) b.bytecode),
       bestEffort (.write (metaPath dir) (lib.encodeMeta (metadataOf b.manifest now)))] := by
  simp [uploadTasks_cons hx, storePlan, frontPlan]

theorem frontPlan_subset (now : String) (hx : lib.extractBundle data = .ok b) {t : StoreTask}
    (ht : t ∈ frontPlan lib dir data b) : t ∈ uploadTasks lib dir data now := by
  rw [uploadTasks_front hx]
  exact List.mem_append_left _ ht

/-- The source directory of a bundle without sources is not touched. -/
theorem frontPlan_source_kept (hdir : Plain dir) (hx : lib.extractBundle data = .ok b)
    (hnil : b.sources = []) :
    Files.isDir ((runPlan fs (frontPlan lib dir data b)).1 (sourcePath dir)) =
      Files.isDir (fs (sourcePath dir)) := by
  cases hsource : Files.isDir (fs (sourcePath dir)) with
  | false =>
    refine runPlan_inv (P := fun fs' => Files.isDir (fs' (sourcePath dir)) = false) _ ?_ hsource
    intro t ht fs' hfs'
    exact uploadTasks_keep_notDir hx hdir (frontPlan_subset "" hx ht) (by decide)
      (fun _ => hnil) (by simp [hnil]) hfs'
  | true =>
    rw [Files.isDir_iff] at hsource ⊢
    refine runPlan_inv (P := fun fs' => fs' (sourcePath dir) = some .dir) _ ?_ hsource
    intro t ht fs' hfs'
    refine run_keeps_dir hfs' fun path hop => ?_
    have hmem := frontPlan_subset "" hx ht
    rw [uploadTasks_cons hx] at hmem
    rcases List.mem_cons.mp hmem with rfl | hmem
    · cases hop
    rcases storePlan_op hmem with ⟨_, _, h⟩ | ⟨_, h⟩ | (h | h) | ⟨hne, _⟩
    · rw [h] at hop
      cases hop
    · rw [h] at hop
      cases hop
    · rw [h] at hop
      cases hop
      exact child_not_above_child hdir (by decide) (by decide)
    · rw [h] at hop
      cases hop
    · exact absurd hnil hne

/-- The source directory of a bundle with sources exists. -/
theorem frontPlan_source_made (hdir : Plain dir) (hsources : b.sources ≠ [])
    (hok : (runPlan fs (frontPlan lib dir data b)).2 = .ok ()) :
    Files.isDir ((runPlan fs (frontPlan lib dir data b)).1 (sourcePath dir)) = true := by
  have hplan : frontPlan lib dir data b =
      [required lib "Cannot write temp bundle" (.write (uploadPath dir) data),
        bestEffort (.removeFile (uploadPath dir)),
        bestEffort (.removeDirAll (sourcePath dir))] ++
      (required lib "Cannot create source dir" (.createDirAll (sourcePath dir)) ::
        (writeSources lib dir b ++ (profilesPlan dir b ++ [yamlTask dir b]))) := by
    rw [frontPlan, sourcesPlan, if_neg hsources]
    simp
  rw [hplan] at hok ⊢
  obtain ⟨-, hok, hend⟩ := runPlan_append_ok hok
  obtain ⟨hmade, hrun⟩ := runPlan_required hok
  rw [hend, Files.isDir_iff]
  refine (congrArg (fun r => r.1 (sourcePath dir)) hrun).trans ?_
  refine runPlan_inv (P := fun fs' => fs' (sourcePath dir) = some .dir) _ ?_ ?_
  · intro t ht fs' hfs'
    refine run_keeps_dir hfs' fun path hop => ?_
    rcases List.mem_append.mp ht with ht | ht
    · rcases writeSources_op ht with ⟨_, _, h⟩ | ⟨_, _, h⟩ <;> rw [h] at hop <;> cases hop
    rcases List.mem_append.mp ht with ht | ht
    · rcases profilesPlan_op ht with h | h | ⟨_, _, h⟩ <;> rw [h] at hop <;> cases hop
      exact child_not_above_child hdir (by decide) (by decide)
    · rw [List.mem_singleton.mp ht] at hop
      rcases yamlTask_op dir b with ⟨_, h⟩ | ⟨_, _, h⟩ <;>
        rw [h] at hop <;> cases hop
  · exact Files.mkdirs_made (plain_child hdir (by decide)) (Prod.ext rfl hmade) _ List.prefix_rfl
      (by simp)

/-- **What a successful upload leaves on disk.** -/
theorem storeBundle_disk {store : ProgramStore} {m : ProgramMetadata}
    (hok : (storeBundle lib fs store data now).2.2 = .ok m) (hx : lib.extractBundle data = .ok b)
    (hplaced : Placed store.programDir.path fs b) :
    Persisted lib store.programDir.path (storeBundle lib fs store data now).1 b now ∧
      Files.isDir ((storeBundle lib fs store data now).1 (sourcePath store.programDir.path)) =
        if b.sources = [] then Files.isDir (fs (sourcePath store.programDir.path)) else true := by
  have hdir := store.programDir.plain
  have hplan := (storeBundle_ok hok).1
  have hexists := dirExists_of_ok hx hdir hplan
  rw [uploadTasks_front hx] at hplan
  obtain ⟨hfront, -, hend⟩ := runPlan_append_ok hplan
  have hinv := runPlan_inv (P := fun fs' => DirExists fs' store.programDir.path ∧
      Files.isDir (fs' (bytecodePath store.programDir.path)) = false ∧
      Files.isDir (fs' (metaPath store.programDir.path)) = false)
    (frontPlan lib store.programDir.path data b) (fun t ht fs' hfs' => by
      have hmem := frontPlan_subset now hx ht
      refine ⟨uploadTasks_keep_dirExists hx hdir hmem hfs'.1, ?_, ?_⟩
      · exact uploadTasks_keep_notDir hx hdir hmem (by decide) (by simp)
          (fun s hs k heq => hplaced.names s hs k (by simp [← heq, bytecodePath])) hfs'.2.1
      · exact uploadTasks_keep_notDir hx hdir hmem (by decide) (by simp)
          (fun s hs k heq => hplaced.names s hs k (by simp [← heq, metaPath])) hfs'.2.2)
    ⟨hexists, hplaced.bytecode, hplaced.metadata⟩
  have hsource : Files.isDir ((runPlan fs (frontPlan lib store.programDir.path data b)).1
      (sourcePath store.programDir.path)) =
      if b.sources = [] then Files.isDir (fs (sourcePath store.programDir.path)) else true := by
    split
    · next hnil => exact frontPlan_source_kept hdir hx hnil
    · next hsources => exact frontPlan_source_made hdir hsources hfront
  rw [storeBundle_eq, uploadTasks_front hx, hend, persist_run hdir hinv.1 hinv.2.1 hinv.2.2]
  refine ⟨persisted_put hinv.1, ?_⟩
  dsimp only
  rw [Files.put_other _ (by simp [sourcePath, metaPath]),
    Files.put_other _ (by simp [sourcePath, bytecodePath])]
  exact hsource

end

/-! ## Re-opening -/

/-- serde_json reads back the metadata it has written. -/
def Library.JsonRoundTrips (lib : Library) : Prop :=
  ∀ m, lib.decodeMeta (lib.encodeMeta m) = some m

section

variable {lib : Library} {fs : Files Bytes}

theorem loadPersisted_eq (hjson : lib.JsonRoundTrips) {dir : Path} (hdir : Plain dir)
    {b : ProgramBundle} {now : String} (h : Persisted lib dir fs b now) :
    loadPersisted lib dir fs = some { programOf dir b now with
      sourceDir := if Files.isDir (fs (sourcePath dir)) then some (sourcePath dir) else none } := by
  have hbytecode : readFile fs (bytecodePath dir) = some b.bytecode := by
    rw [bytecodePath, readFile_child hdir h.dirExists (by decide)]
    exact congrArg Files.content h.bytecode
  have hmeta : readFile fs (metaPath dir) =
      some (lib.encodeMeta (metadataOf b.manifest now)) := by
    rw [metaPath, readFile_child hdir h.dirExists (by decide)]
    exact congrArg Files.content h.metadata
  have hsource : pathIsDir fs (sourcePath dir) = Files.isDir (fs (sourcePath dir)) :=
    pathIsDir_child hdir h.dirExists (by decide)
  rw [loadPersisted, hbytecode, hmeta, hsource]
  have htext := hjson (metadataOf b.manifest now)
  simp only [Option.bind_eq_bind, Option.bind_some, htext]
  rfl

/-- Re-opening a store whose directory exists changes no file. -/
theorem openStore_existing (lib : Library) (dir : Directory) (hfs : DirExists fs dir.path) :
    openStore lib dir fs = (fs, .ok ⟨dir, loadPersisted lib dir.path fs⟩) := by
  have hrun : (FileOp.createDirAll dir.path).run fs = (fs, true) :=
    Files.mkdirs_existing dir.plain fun as has _ => hfs as has
  rw [openStore, hrun]

/-- What an opened store was opened with. -/
theorem openStore_ok {dir : Directory} {fs' : Files Bytes} {store : ProgramStore}
    (h : openStore lib dir fs = (fs', .ok store)) :
    (FileOp.createDirAll dir.path).run fs = (fs', true) ∧
      store = ⟨dir, loadPersisted lib dir.path fs'⟩ := by
  unfold openStore at h
  split at h
  · cases h
  · next fs'' hrun =>
    cases h
    exact ⟨hrun, rfl⟩

end

/-! ## Runs -/

structure StoreState where
  files : Files Bytes
  store : ProgramStore

inductive StoreEvent where
  | store (data : Bytes) (now : String)
  | remove
  | reopen

/-- The calls that succeed. -/
inductive StoreStep (lib : Library) : StoreState → StoreEvent → StoreState → Prop where
  | store {s : StoreState} {data : Bytes} {now : String} {m : ProgramMetadata}
      (hok : (storeBundle lib s.files s.store data now).2.2 = .ok m) :
      StoreStep lib s (.store data now) ⟨(storeBundle lib s.files s.store data now).1,
        (storeBundle lib s.files s.store data now).2.1⟩
  | remove {s : StoreState} (hok : (removeCurrent s.store).2 = .ok ()) :
      StoreStep lib s .remove ⟨s.files, (removeCurrent s.store).1⟩
  | reopen {s : StoreState} {fs : Files Bytes} {store : ProgramStore}
      (hok : openStore lib s.store.programDir s.files = (fs, .ok store)) :
      StoreStep lib s .reopen ⟨fs, store⟩

/-- Stores from the opening of a directory on. -/
def storeLts (lib : Library) : Lts StoreState StoreEvent where
  init := fun s => ∃ dir fs, openStore lib dir fs = (s.files, .ok s.store)
  step := StoreStep lib

/-- `ProgramStore::new` on the store's directory gives the store back, with
every file, the profiles among them, as it was. -/
def Mirrored (lib : Library) (s : StoreState) : Prop :=
  openStore lib s.store.programDir s.files = (s.files, .ok s.store)

/-- The program's own files can be written. -/
def Writable (lib : Library) (s : StoreState) : StoreEvent → Prop
  | .store data _ => ∀ b, lib.extractBundle data = .ok b →
      Placed s.store.programDir.path s.files b
  | .remove => True
  | .reopen => True

/-- An upload has sources, or finds no source directory of an earlier one;
nothing is removed. -/
def KeepsProgram (lib : Library) (s : StoreState) : StoreEvent → Prop
  | .store data _ => ∀ b, lib.extractBundle data = .ok b → b.sources ≠ [] ∨
      Files.isDir (s.files (sourcePath s.store.programDir.path)) = false
  | .remove => False
  | .reopen => True

section

variable {lib : Library} {s t : StoreState}

theorem opened_mirrored {dir : Directory} {fs : Files Bytes}
    (h : openStore lib dir fs = (s.files, .ok s.store)) : Mirrored lib s := by
  obtain ⟨hrun, hstore⟩ := openStore_ok h
  have hmade := Files.mkdirs_made dir.plain hrun
  have hagain : (FileOp.createDirAll dir.path).run s.files = (s.files, true) :=
    Files.mkdirs_existing dir.plain fun as has hne => hmade as has hne
  rw [Mirrored, hstore, openStore, hagain]

/-- After a successful upload the store is mirrored exactly when the upload
had sources or no source directory was there. -/
theorem store_mirrors_iff (hjson : lib.JsonRoundTrips) {data : Bytes} {now : String}
    (hw : Writable lib s (.store data now)) (h : StoreStep lib s (.store data now) t) :
    Mirrored lib t ↔ KeepsProgram lib s (.store data now) := by
  cases h with
  | store hok =>
    obtain ⟨-, b, hx, -, hstore⟩ := storeBundle_ok hok
    obtain ⟨hdisk, hsource⟩ := storeBundle_disk hok hx (hw b hx)
    have hopen := openStore_existing lib s.store.programDir hdisk.dirExists
    rw [loadPersisted_eq hjson s.store.programDir.plain hdisk, hsource] at hopen
    rw [Mirrored, hstore, hopen]
    simp only [KeepsProgram, hx, Except.ok.injEq, forall_eq', Prod.mk.injEq, true_and,
      ProgramStore.mk.injEq, Option.some.injEq]
    by_cases hnil : b.sources = []
    · cases hleft : Files.isDir (s.files (sourcePath s.store.programDir.path)) <;>
        simp [programOf, hnil]
    · simp [programOf, hnil]

theorem remove_not_mirrored (hs : Mirrored lib s) (h : StoreStep lib s .remove t) :
    ¬ Mirrored lib t := by
  cases h with
  | remove hok =>
    unfold removeCurrent at hok ⊢
    split at hok
    · cases hok
    · next hsome =>
      rw [if_neg hsome]
      intro ht
      have hsame : s.store = ⟨s.store.programDir, none⟩ := by simpa using hs.symm.trans ht
      have hnone : s.store.current = none := congrArg ProgramStore.current hsame
      simp [hnone] at hsome

/-- **The store on disk mirrors the one in memory** through every run of
uploads that have sources or find no source directory, and re-openings; from
there on a step keeps the mirror exactly under that condition. -/
theorem store_mirrored (lib : Library) (hjson : lib.JsonRoundTrips) {s : StoreState}
    (h : ((storeLts lib).restrict fun s ev => Writable lib s ev ∧ KeepsProgram lib s ev).Reachable
      s) :
    Mirrored lib s ∧ ∀ ev t, Writable lib s ev → StoreStep lib s ev t →
      (Mirrored lib t ↔ KeepsProgram lib s ev) := by
  have hstep : ∀ s ev t, Mirrored lib s → Writable lib s ev → StoreStep lib s ev t →
      (Mirrored lib t ↔ KeepsProgram lib s ev) := by
    intro s ev t hs hw hst
    cases ev with
    | store data now => exact store_mirrors_iff hjson hw hst
    | remove => exact iff_of_false (remove_not_mirrored hs hst) not_false
    | reopen =>
      cases hst with
      | reopen hok => exact iff_of_true (opened_mirrored hok) trivial
  have hmirrored : Mirrored lib s :=
    h.inv_restrict (fun s ⟨dir, fs, hopen⟩ => opened_mirrored hopen)
      fun s ev t hs hc hst => (hstep s ev t hs hc.1 hst).mpr hc.2
  exact ⟨hmirrored, fun ev t => hstep s ev t hmirrored⟩

end

/-! ## A development bundle, a release bundle and a removal -/

/-- The bytes of a text without characters beyond ASCII. -/
def ascii (text : String) : Bytes := text.toList.map fun c => UInt8.ofNat c.toNat

/-- `serde_json::to_string_pretty` of metadata with plain texts and an entry
point. -/
def jsonText (m : ProgramMetadata) : Bytes :=
  let field (key value : String) := ascii "  \"" ++ ascii key ++ ascii "\": \"" ++ ascii value ++
    ascii "\",\n"
  ascii "\x7b\n" ++ field "name" m.name ++ field "version" m.version ++ field "mode" m.mode ++
    field "compiled_at" m.compiledAt ++ field "entry_point" (m.entryPoint.getD "") ++
    field "bytecode_checksum" m.bytecodeChecksum ++ field "deployed_at" m.deployedAt ++
    ascii "  \"has_debug_map\": " ++ ascii (if m.hasDebugMap then "true" else "false") ++
    ascii "\n\x7d"

def pumpManifest (mode : BundleMode) : BundleManifest :=
  ⟨"pump", "1.0.0", mode, "2026-01-01T00:00:00+00:00", emptyDigest, false, some "Main"⟩

def pumpTime : String := "2026-01-02T00:00:00+00:00"

def laterTime : String := "2026-01-03T00:00:00+00:00"

theorem countable_metadata : Countable ProgramMetadata := by
  have : Countable Char :=
    Function.Injective.countable (f := Char.toNat) fun _ _ h => Char.toNat_inj.mp h
  have : Countable String :=
    Function.Injective.countable (f := String.toList) fun _ _ h => String.toList_inj.mp h
  refine Function.Injective.countable (f := fun m : ProgramMetadata =>
    (m.name, m.version, m.mode, m.compiledAt, m.entryPoint, m.bytecodeChecksum, m.deployedAt,
      m.hasDebugMap)) ?_
  rintro ⟨⟩ ⟨⟩ h
  simpa using h

/-- The pump's metadata at its two times. -/
def PumpMetadata (m : ProgramMetadata) : Prop :=
  ∃ mode, ∃ now ∈ [pumpTime, laterTime], m = metadataOf (pumpManifest mode) now

theorem jsonText_mode_length {a b : BundleMode} {s t : String}
    (hlength : (ascii s).length = (ascii t).length)
    (h : jsonText (metadataOf (pumpManifest a) s) = jsonText (metadataOf (pumpManifest b) t)) :
    (ascii a.text).length = (ascii b.text).length := by
  have hsame := congrArg List.length h
  simp only [jsonText, metadataOf, pumpManifest, List.length_append, hlength, Bool.false_eq_true,
    if_false] at hsame
  omega

theorem jsonText_pump_inj {m m' : ProgramMetadata} (hm : PumpMetadata m) (hm' : PumpMetadata m')
    (h : jsonText m = jsonText m') : m = m' := by
  obtain ⟨a, s, hs, rfl⟩ := hm
  obtain ⟨b, t, ht, rfl⟩ := hm'
  have hlength : ∀ now ∈ [pumpTime, laterTime], (ascii now).length = 25 := by decide
  have hmode : a = b := by
    have := jsonText_mode_length ((hlength s hs).trans (hlength t ht).symm) h
    revert this
    cases a <;> cases b <;> decide
  subst hmode
  have htime : ascii s = ascii t := by
    simpa [jsonText, metadataOf, pumpManifest] using h
  have hsame : s = t := by
    revert htime
    rcases List.mem_pair.mp hs with rfl | rfl <;> rcases List.mem_pair.mp ht with rfl | rfl <;> decide
  rw [hsame]

theorem jsonText_bounded : ∃ n, ∀ m, PumpMetadata m → (jsonText m).length ≤ n := by
  let length mode now := (jsonText (metadataOf (pumpManifest mode) now)).length
  refine ⟨length .development pumpTime + length .release pumpTime + length .releaseDebug pumpTime +
    length .development laterTime + length .release laterTime + length .releaseDebug laterTime, ?_⟩
  rintro _ ⟨mode, now, hnow, rfl⟩
  have hself : (jsonText (metadataOf (pumpManifest mode) now)).length = length mode now := rfl
  rcases List.mem_pair.mp hnow with rfl | rfl <;> cases mode <;> omega

/-- Texts for all metadata that are the real ones for the pump's. -/
theorem exists_metaText : ∃ encode : ProgramMetadata → Bytes, Function.Injective encode ∧
    ∀ m, PumpMetadata m → encode m = jsonText m := by
  classical
  have := countable_metadata
  obtain ⟨f, hf⟩ := exists_injective_nat ProgramMetadata
  obtain ⟨longest, hlongest⟩ := jsonText_bounded
  -- every other text is longer than the pump's
  refine ⟨fun m => if PumpMetadata m then jsonText m else List.replicate (longest + 1 + f m) 0, ?_,
    fun m hm => if_pos hm⟩
  have hlong : ∀ m n, PumpMetadata m → jsonText m ≠ List.replicate (longest + 1 + n) 0 := by
    intro m n hm heq
    have hlength := congrArg List.length heq
    rw [List.length_replicate] at hlength
    have := hlongest m hm
    omega
  intro m m' h
  dsimp only at h
  split at h <;> split at h
  · next hm hm' => exact jsonText_pump_inj hm hm' h
  · next hm _ => exact absurd h (hlong m _ hm)
  · next _ hm => exact absurd h.symm (hlong m' _ hm)
  · have hlength := congrArg List.length h
    rw [List.length_replicate, List.length_replicate] at hlength
    exact hf (by omega)

noncomputable def metaText : ProgramMetadata → Bytes := exists_metaText.choose

/-- A library whose archive 0 is the pump with its source, and any other the
pump released. -/
noncomputable def pumpLibrary : Library where
  entries := fun data =>
    if data = [0] then
      [.ok ("manifest.yaml", [0]), .ok ("program.stc", []), .ok ("source/main.st", [7])]
    else [.ok ("manifest.yaml", [1]), .ok ("program.stc", [])]
  manifest := fun text => .ok (pumpManifest (if text = [0] then .development else .release))
  sha256Hex := fun _ => emptyDigest
  encodeMeta := metaText
  decodeMeta := Function.partialInv metaText
  osError := "File exists (os error 17)"

theorem pumpLibrary_json : pumpLibrary.JsonRoundTrips :=
  Function.partialInv_left exists_metaText.choose_spec.1

/-- The state after an upload. -/
def StoreState.upload (lib : Library) (s : StoreState) (data : Bytes) (now : String) : StoreState :=
  ⟨(storeBundle lib s.files s.store data now).1, (storeBundle lib s.files s.store data now).2.1⟩

def emptyPlc : StoreState := ⟨hostFiles, plcStore⟩

noncomputable def developed : StoreState := emptyPlc.upload pumpLibrary [0] pumpTime

theorem emptyPlc_opened : (storeLts pumpLibrary).init emptyPlc :=
  ⟨plcStore.programDir, hostFiles, rfl⟩

theorem developed_step : StoreStep pumpLibrary emptyPlc (.store [0] pumpTime) developed :=
  .store (m := metadataOf (pumpManifest .development) pumpTime) rfl

theorem developed_writable : Writable pumpLibrary emptyPlc (.store [0] pumpTime) := by
  intro b hx
  have hb : b = ⟨pumpManifest .development, [], [("main.st", [7])], none, []⟩ :=
    (Except.ok.inj hx).symm
  refine ⟨rfl, rfl, ?_⟩
  intro s hs k hmem
  rw [hb] at hs
  rw [List.mem_singleton.mp hs] at hmem
  have hparent : (joinPath (sourcePath ["plc"]) "main.st").dropLast = ["plc"] ++ ["current_source"] := by
    decide
  have hplain : Plain ["plc"] := by decide
  have hway : lexical [] ((["plc"] ++ ["current_source"]).take k) ∈
      [bytecodePath ["plc"], metaPath ["plc"]] := hparent ▸ hmem
  rcases List.mem_pair.mp hway with heq | heq
  · exact child_not_on_way hplain (by decide) (by decide) k heq.symm
  · exact child_not_on_way hplain (by decide) (by decide) k heq.symm

theorem developed_reachable : ((storeLts pumpLibrary).restrict fun s ev =>
    Writable pumpLibrary s ev ∧ KeepsProgram pumpLibrary s ev).Reachable developed := by
  refine .step (.init emptyPlc_opened) ⟨⟨developed_writable, ?_⟩, developed_step⟩
  intro b _
  exact Or.inr rfl

/-- The uploaded pump is there after a reboot. -/
theorem developed_mirrored : developed.store.current.isSome ∧ Mirrored pumpLibrary developed :=
  ⟨rfl, (store_mirrored pumpLibrary pumpLibrary_json developed_reachable).1⟩

/-- **Two runs after which a reboot brings another program**: a release bundle
over a development bundle gets the old sources, and a removed program
returns. -/
theorem reboot_brings_another_program :
    (∃ s, StoreStep pumpLibrary developed (.store [1] pumpTime) s ∧
      (storeLts pumpLibrary).Reachable s ∧ ¬ Mirrored pumpLibrary s) ∧
    (∃ s, StoreStep pumpLibrary developed .remove s ∧
      (storeLts pumpLibrary).Reachable s ∧ ¬ Mirrored pumpLibrary s) := by
  have hreach := developed_reachable.of_restrict
  have hmirrored : Mirrored pumpLibrary developed :=
    (store_mirrors_iff pumpLibrary_json developed_writable developed_step).mpr
      fun _ _ => Or.inr rfl
  have hrelease : StoreStep pumpLibrary developed (.store [1] pumpTime)
      (developed.upload pumpLibrary [1] pumpTime) :=
    .store (m := metadataOf (pumpManifest .release) pumpTime) rfl
  have hremove : StoreStep pumpLibrary developed .remove
      ⟨developed.files, (removeCurrent developed.store).1⟩ := .remove rfl
  refine ⟨⟨_, hrelease, .step hreach hrelease, ?_⟩,
    ⟨_, hremove, .step hreach hremove, remove_not_mirrored hmirrored hremove⟩⟩
  have hwritable : Writable pumpLibrary developed (.store [1] pumpTime) := by
    intro b hx
    have hb : b = ⟨pumpManifest .release, [], [], none, []⟩ := (Except.ok.inj hx).symm
    refine ⟨rfl, rfl, ?_⟩
    simp [hb]
  rw [store_mirrors_iff pumpLibrary_json hwritable hrelease]
  intro hkeeps
  rcases hkeeps ⟨pumpManifest .release, [], [], none, []⟩ rfl with hsources | hdir
  · exact hsources rfl
  · cases hdir

end RustPlc.Target
