import RustPlc.L6Target.StoreMirror

/-!
# A crash during an upload

An upload replaces the program's files one after another: the sources, the
profiles, the project YAML, the bytecode and last the metadata. A crash leaves
the files as they are between two of these operations (`planStates`), and
nothing is checked when the store is opened again.

Results:
* `mixed_point`: a point at which some file has changed and the metadata has
  not is neither the old nor the new program;
* `crash_consistent_iff`: **exactly the uploads that change nothing but the
  metadata are safe at every point**;
* `crash_mixes_programs`: a crash between bytecode and metadata.
-/
namespace RustPlc.Target

open RustPlc.Core

/-- The files that make up the program of a store. -/
def ProgramFile (dir : Path) (q : Path) : Prop :=
  sourcePath dir <+: q ∨ profilesPath dir <+: q ∨
    q ∈ [yamlPath dir, bytecodePath dir, metaPath dir]

/-- Re-opening finds the program that was there before, with all its files. -/
structure OldProgram (lib : Library) (dir : Path) (fs fs' : Files Bytes) : Prop where
  reopened : loadPersisted lib dir fs' = loadPersisted lib dir fs
  files : ∀ q, ProgramFile dir q → fs' q = fs q

/-- Re-opening finds the program of the bundle, whose bytecode has the
checksum of its metadata, with the files of the finished upload. -/
structure NewProgram (lib : Library) (dir : Path) (fs fs' : Files Bytes) (data : Bytes)
    (b : ProgramBundle) (now : String) : Prop where
  reopened : loadPersisted lib dir fs' = some (programOf dir b now)
  checksum : lib.sha256Hex b.bytecode = (metadataOf b.manifest now).bytecodeChecksum
  files : ∀ q, ProgramFile dir q → fs' q = (runPlan fs (uploadTasks lib dir data now)).1 q

/-- The directory of a store: its files are not directories, nor its
directories files. -/
structure StoreDir (dir : Path) (fs : Files Bytes) : Prop where
  dirExists : DirExists fs dir
  upload : Files.isDir (fs (uploadPath dir)) = false
  yaml : Files.isDir (fs (yamlPath dir)) = false
  source : Files.isFile (fs (sourcePath dir)) = false
  profiles : Files.isFile (fs (profilesPath dir)) = false

/-- The upload has no sources and no profiles, finds none, and finds its own
project YAML and bytecode. -/
structure OnlyMetadata (dir : Path) (fs : Files Bytes) (b : ProgramBundle) : Prop where
  sources : b.sources = []
  sourceDir : Files.isDir (fs (sourcePath dir)) = false
  profiles : b.profiles = []
  profilesDir : Files.isDir (fs (profilesPath dir)) = false
  yaml : Files.content (fs (yamlPath dir)) = b.projectYaml
  bytecode : Files.content (fs (bytecodePath dir)) = some b.bytecode

/-- The operations on the temporary file. -/
def tempTasks (lib : Library) (dir : Path) (data : Bytes) : List StoreTask :=
  [required lib "Cannot write temp bundle" (.write (uploadPath dir) data),
    bestEffort (.removeFile (uploadPath dir))]

/-! ## Reading a program -/

theorem content_of_notFile {n : Option (Node Bytes)} (h : Files.isFile n = false) :
    Files.content n = none := by
  rcases n with _ | ⟨_ | _⟩
  · rfl
  · cases h
  · rfl

theorem file_of_content {n : Option (Node Bytes)} {c : Bytes} (h : Files.content n = some c) :
    n = some (.file c) := by
  rcases n with _ | ⟨_ | _⟩ <;> simp_all [Files.content]

section

variable {lib : Library} {dir : Path} (hdir : Plain dir) {fs fs' : Files Bytes}
include hdir

/-- A stored program and the files it is read from. -/
theorem loadPersisted_some (hfs : DirExists fs dir) {p : StoredProgram}
    (h : loadPersisted lib dir fs = some p) :
    fs (bytecodePath dir) = some (.file p.bytecode) ∧
      ∃ text, fs (metaPath dir) = some (.file text) ∧ lib.decodeMeta text = some p.metadata := by
  simp only [loadPersisted, Option.bind_eq_bind, Option.bind_eq_some_iff, Option.pure_def,
    Option.some.injEq] at h
  obtain ⟨bytecode, hbytecode, text, htext, m, hm, rfl⟩ := h
  rw [bytecodePath, readFile_child hdir hfs (by decide)] at hbytecode
  rw [metaPath, readFile_child hdir hfs (by decide)] at htext
  exact ⟨file_of_content hbytecode, text, file_of_content htext, hm⟩

/-- Re-opening depends on the directory and three of its entries only. -/
theorem loadPersisted_congr (hfs : DirExists fs dir) (hfs' : DirExists fs' dir)
    (hbytecode : fs' (bytecodePath dir) = fs (bytecodePath dir))
    (hmeta : fs' (metaPath dir) = fs (metaPath dir))
    (hsource : fs' (sourcePath dir) = fs (sourcePath dir)) :
    loadPersisted lib dir fs' = loadPersisted lib dir fs := by
  have hread : ∀ c : String, c ≠ ".." ∧ c ≠ "." → fs' (dir ++ [c]) = fs (dir ++ [c]) →
      readFile fs' (dir ++ [c]) = readFile fs (dir ++ [c]) := by
    intro c hc heq
    rw [readFile_child hdir hfs' hc, readFile_child hdir hfs hc, heq]
  have hisDir : pathIsDir fs' (sourcePath dir) = pathIsDir fs (sourcePath dir) := by
    rw [sourcePath, pathIsDir_child hdir hfs' (by decide), pathIsDir_child hdir hfs (by decide)]
    exact congrArg Files.isDir hsource
  have hb : readFile fs' (bytecodePath dir) = readFile fs (bytecodePath dir) :=
    hread "current.bytecode" (by decide) hbytecode
  have hm : readFile fs' (metaPath dir) = readFile fs (metaPath dir) :=
    hread "current.meta.json" (by decide) hmeta
  rw [loadPersisted, loadPersisted, hb, hm, hisDir]

/-- **A point at which some file has changed and the metadata has not** is
neither the old nor the new program. -/
theorem mixed_point {old : StoredProgram} {data : Bytes} {b : ProgramBundle} {now : String}
    (hfs : DirExists fs dir) (hold : loadPersisted lib dir fs = some old)
    (hnew : old.metadata ≠ metadataOf b.manifest now) (hfs' : DirExists fs' dir)
    (hmeta : fs' (metaPath dir) = fs (metaPath dir)) {q : Path} (hq : ProgramFile dir q)
    (hchanged : fs' q ≠ fs q) :
    ¬ (OldProgram lib dir fs fs' ∨ NewProgram lib dir fs fs' data b now) := by
  rintro (h | h)
  · exact hchanged (h.files q hq)
  · obtain ⟨-, text, htext, hdecode⟩ := loadPersisted_some hdir hfs hold
    obtain ⟨-, text', htext', hdecode'⟩ := loadPersisted_some hdir hfs' h.reopened
    rw [hmeta, htext] at htext'
    have hsame : text = text' := by simpa using htext'
    rw [hsame, hdecode'] at hdecode
    exact hnew (Option.some.inj hdecode).symm

/-- Files that differ in the temporary file only hold the same program. -/
theorem oldProgram_of_agree (hfs : DirExists fs dir)
    (h : ∀ q, q ≠ uploadPath dir → fs' q = fs q) : OldProgram lib dir fs fs' := by
  have hfs' : DirExists fs' dir := fun p hp => (h p (above_ne_child hp _)).trans (hfs p hp)
  have hchild : ∀ c, c ≠ "_upload.st-bundle" → fs' (dir ++ [c]) = fs (dir ++ [c]) := fun c hc =>
    h _ (by simpa [uploadPath] using hc)
  refine ⟨loadPersisted_congr hdir hfs hfs' (hchild _ (by decide)) (hchild _ (by decide))
    (hchild _ (by decide)), fun q hq => h q ?_⟩
  have hbelow : ∀ c : String, c ≠ "_upload.st-bundle" → dir ++ [c] <+: q → q ≠ uploadPath dir := by
    rintro c hc hpre rfl
    have hsame := hpre.eq_of_length (by simp [uploadPath])
    exact hc (by simpa [uploadPath] using hsame)
  rcases hq with hq | hq | hq
  · exact hbelow "current_source" (by decide) hq
  · exact hbelow "current_profiles" (by decide) hq
  · intro heq
    simp [heq, uploadPath, yamlPath, bytecodePath, metaPath] at hq

/-! ## The operations -/

/-- The temporary file is written and removed. -/
theorem temp_run (lib : Library) (hfs : StoreDir dir fs) (data : Bytes) :
    runPlan fs (tempTasks lib dir data) = (fs.put (uploadPath dir) none, .ok ()) := by
  have hwrite : (FileOp.write (uploadPath dir) data).run fs =
      (fs.put (uploadPath dir) (some (.file data)), true) :=
    write_child_run hdir hfs.dirExists (by decide) hfs.upload data
  have hexists : DirExists (fs.put (uploadPath dir) (some (.file data))) dir := fun p hp =>
    (Files.put_other fs (above_ne_child hp _) _).trans (hfs.dirExists p hp)
  have hwalk : Files.walk (fs.put (uploadPath dir) (some (.file data))) [] (uploadPath dir) =
      some (uploadPath dir) := walk_child hdir hexists (by decide)
  have hremove : (FileOp.removeFile (uploadPath dir)).run
      (fs.put (uploadPath dir) (some (.file data))) = (fs.put (uploadPath dir) none, true) := by
    simp only [FileOp.run, hwalk, Files.put_same, Files.isFile, if_true, Files.put_put]
  rw [tempTasks, runPlan_done hwrite, runPlan_done hremove]
  rfl

omit hdir in
theorem entry_without_temp {c : String} (hne : c ≠ "_upload.st-bundle") :
    fs.put (uploadPath dir) none (dir ++ [c]) = fs (dir ++ [c]) :=
  Files.put_other fs (by simpa [uploadPath] using hne) _

omit hdir in
theorem StoreDir.without_temp (hfs : StoreDir dir fs) :
    StoreDir dir (fs.put (uploadPath dir) none) where
  dirExists := fun p hp => (Files.put_other fs (above_ne_child hp _) _).trans (hfs.dirExists p hp)
  upload := by rw [Files.put_same]; rfl
  yaml := by rw [yamlPath, entry_without_temp (by decide)]; exact hfs.yaml
  source := by rw [sourcePath, entry_without_temp (by decide)]; exact hfs.source
  profiles := by rw [profilesPath, entry_without_temp (by decide)]; exact hfs.profiles

theorem removeDir_child {c : String} (hc : c ≠ ".." ∧ c ≠ ".") (hfs : DirExists fs dir) :
    ((FileOp.removeDirAll (dir ++ [c])).run fs).1 =
      if Files.isDir (fs (dir ++ [c])) then fs.prune (dir ++ [c]) else fs := by
  simp only [FileOp.run, walk_child hdir hfs hc]
  split <;> rfl

theorem removeFile_child {c : String} (hfs : DirExists fs dir) (hc : c ≠ ".." ∧ c ≠ ".") :
    ((FileOp.removeFile (dir ++ [c])).run fs).1 =
      if Files.isFile (fs (dir ++ [c])) then fs.put (dir ++ [c]) none else fs := by
  simp only [FileOp.run, walk_child hdir hfs hc]
  split <;> rfl

/-- A directory is made where nothing else is. -/
theorem makeDir_child {c : String} (hc : c ≠ ".." ∧ c ≠ ".") (hfs : DirExists fs dir)
    (hfree : Files.isFile (fs (dir ++ [c])) = false) :
    ((FileOp.createDirAll (dir ++ [c])).run fs).2 = true ∧
      ((FileOp.createDirAll (dir ++ [c])).run fs).1 (dir ++ [c]) = some .dir := by
  have hok : (Files.mkdirs fs [] (dir ++ [c])).2 = true := by
    refine Files.mkdirs_free (plain_child hdir hc) fun as has _ => ?_
    rcases List.prefix_concat_iff.mp has with heq | hpre
    · rw [heq]
      exact hfree
    · rw [List.nil_append, hfs as hpre]
      rfl
  exact ⟨hok, Files.mkdirs_made (plain_child hdir hc) (Prod.ext rfl hok) _ List.prefix_rfl
    (by simp)⟩

/-- An operation on one entry of the directory does not touch another. -/
theorem child_untouched {c d : String} (hc : c ≠ ".." ∧ c ≠ ".") (hne : c ≠ d) {op : FileOp Bytes}
    (hop : op.path = dir ++ [c]) : ¬ op.Touches (dir ++ [d]) := by
  have hlexical : lexical [] (dir ++ [c]) = dir ++ [c] := lexical_of_plain (plain_child hdir hc) []
  cases op <;> cases hop
  · exact fun h => hne (by simpa [FileOp.Touches, hlexical] using h.symm)
  · exact fun h => hne (by simpa [FileOp.Touches, hlexical] using h.symm)
  · exact child_not_above_child hdir hc hne
  · rintro ⟨k, hk⟩
    exact child_not_on_way hdir hc (Ne.symm hne) k hk

end

/-! ## Uploads without sources and profiles -/

section

variable {lib : Library} {dir : Path} {fs : Files Bytes} {data : Bytes} {b : ProgramBundle}
  {now : String}

/-- The plan of an upload without sources. -/
theorem uploadTasks_no_sources (hx : lib.extractBundle data = .ok b) (hsources : b.sources = []) :
    uploadTasks lib dir data now = tempTasks lib dir data ++
      (profilesPlan dir b ++ [yamlTask dir b, bestEffort (.write (bytecodePath dir) b.bytecode),
        bestEffort (.write (metaPath dir) (lib.encodeMeta (metadataOf b.manifest now)))]) := by
  rw [uploadTasks_cons hx, storePlan, sourcesPlan, if_pos hsources]
  simp [tempTasks]

/-- The plan of an upload without sources and profiles. -/
theorem uploadTasks_plain (dir : Path) (now : String) (hx : lib.extractBundle data = .ok b)
    (hsources : b.sources = []) (hprofiles : b.profiles = []) : uploadTasks lib dir data now = tempTasks lib dir data ++
      [bestEffort (.removeDirAll (profilesPath dir)), yamlTask dir b,
        bestEffort (.write (bytecodePath dir) b.bytecode),
        bestEffort (.write (metaPath dir) (lib.encodeMeta (metadataOf b.manifest now)))] := by
  rw [uploadTasks_no_sources hx hsources, profilesPlan, if_pos hprofiles]
  rfl

theorem yamlTask_bestEffort : yamlTask dir b = ⟨(yamlTask dir b).op, none⟩ := by
  unfold yamlTask
  split <;> rfl

theorem yamlTask_path : (yamlTask dir b).op.path = yamlPath dir := by
  unfold yamlTask
  split <;> rfl

variable (hdir : Plain dir) (hfs : StoreDir dir fs)
include hdir hfs

/-- Absent profiles are not removed. -/
theorem profiles_idle (h : Files.isDir (fs (profilesPath dir)) = false) :
    ((FileOp.removeDirAll (profilesPath dir)).run (fs.put (uploadPath dir) none)).1 =
      fs.put (uploadPath dir) none := by
  rw [profilesPath] at h ⊢
  rw [removeDir_child hdir (by decide) hfs.without_temp.dirExists, entry_without_temp (by decide), h]
  rfl

/-- The project YAML that is there is not changed. -/
theorem yaml_idle (h : Files.content (fs (yamlPath dir)) = b.projectYaml) :
    ((yamlTask dir b).op.run (fs.put (uploadPath dir) none)).1 = fs.put (uploadPath dir) none := by
  have hentry : fs.put (uploadPath dir) none (dir ++ ["current.project.yaml"]) =
      fs (dir ++ ["current.project.yaml"]) := entry_without_temp (by decide)
  rw [yamlPath] at h
  unfold yamlTask yamlPath
  cases hyaml : b.projectYaml with
  | some yaml =>
    rw [hyaml] at h
    simp only [bestEffort]
    rw [write_child_run hdir hfs.without_temp.dirExists (by decide) hfs.without_temp.yaml]
    exact Files.put_self (hentry.trans (file_of_content h))
  | none =>
    rw [hyaml] at h
    simp only [bestEffort]
    rw [removeFile_child hdir hfs.without_temp.dirExists (by decide), hentry]
    cases hn : fs (dir ++ ["current.project.yaml"]) with
    | none => rfl
    | some n =>
      rw [hn] at h
      cases n with
      | file c => cases h
      | dir => rfl

end

/-! ## The points of an upload -/

/-- The task works on an entry of the directory other than the metadata. -/
def OnEntry (dir : Path) (t : StoreTask) : Prop :=
  ∃ c : String, (c ≠ ".." ∧ c ≠ ".") ∧ c ≠ "current.meta.json" ∧ t.op.path = dir ++ [c]

section

variable {lib : Library} {dir : Path} {fs : Files Bytes} {data : Bytes} {b : ProgramBundle}
  {now : String} {old : StoredProgram}

/-- Every point of the upload holds the old or the new program. -/
def CrashConsistent (lib : Library) (dir : Path) (fs : Files Bytes) (data : Bytes)
    (b : ProgramBundle) (now : String) : Prop :=
  ∀ fs' ∈ planStates fs (uploadTasks lib dir data now),
    OldProgram lib dir fs fs' ∨ NewProgram lib dir fs fs' data b now

variable (hdir : Plain dir) (hfs : StoreDir dir fs) (hx : lib.extractBundle data = .ok b)
  (hold : loadPersisted lib dir fs = some old) (hnew : old.metadata ≠ metadataOf b.manifest now)
  (hall : CrashConsistent lib dir fs data b now)
include hdir hfs hx hold hnew hall

/-- As long as the metadata is the old one, no file may have changed. -/
theorem unchanged_until (ts us : List StoreTask)
    (hplan : uploadTasks lib dir data now = tempTasks lib dir data ++ (ts ++ us))
    (hok : (runPlan (fs.put (uploadPath dir) none) ts).2 = .ok ()) (hon : ∀ t ∈ ts, OnEntry dir t)
    {q : Path} (hq : ProgramFile dir q) : (runPlan (fs.put (uploadPath dir) none) ts).1 q = fs q := by
  have htemp := temp_run hdir lib hfs data
  have hrun : runPlan fs (tempTasks lib dir data ++ ts) =
      runPlan (fs.put (uploadPath dir) none) ts := by
    rw [runPlan_append (by rw [htemp]), htemp]
  have honTemp : ∀ t ∈ tempTasks lib dir data ++ ts, OnEntry dir t := by
    intro t ht
    rcases List.mem_append.mp ht with ht | ht
    · rcases List.mem_pair.mp ht with rfl | rfl <;>
        exact ⟨"_upload.st-bundle", by decide, by decide, rfl⟩
    · exact hon t ht
  rw [← hrun] at hok ⊢
  rw [← List.append_assoc] at hplan
  have hpoint : (runPlan fs (tempTasks lib dir data ++ ts)).1 ∈
      planStates fs (uploadTasks lib dir data now) := by
    rw [hplan]
    exact planStates_append hok (planStates_head us _)
  have hexists : DirExists (runPlan fs (tempTasks lib dir data ++ ts)).1 dir := by
    refine runPlan_inv (P := fun fs' => DirExists fs' dir) _ (fun t ht fs' hfs' => ?_) hfs.dirExists
    have htask : t ∈ uploadTasks lib dir data now := by
      rw [hplan]
      exact List.mem_append_left _ ht
    exact uploadTasks_keep_dirExists hx hdir htask hfs'
  have hmeta : (runPlan fs (tempTasks lib dir data ++ ts)).1 (metaPath dir) =
      fs (metaPath dir) := by
    refine planStates_frame (fun t ht => ?_) _ (runPlan_mem _ fs)
    obtain ⟨c, hc, hne, hop⟩ := honTemp t ht
    exact child_untouched hdir hc hne hop
  by_contra hchanged
  exact mixed_point hdir hfs.dirExists hold hnew hexists hmeta hq hchanged (hall _ hpoint)

/-- A directory that is removed was not there. -/
theorem removed_absent {c : String} (hc : c ≠ ".." ∧ c ≠ ".")
    (hne : c ≠ "current.meta.json" ∧ c ≠ "_upload.st-bundle") (hq : ProgramFile dir (dir ++ [c]))
    (us : List StoreTask) (hplan : uploadTasks lib dir data now =
      tempTasks lib dir data ++ ([bestEffort (.removeDirAll (dir ++ [c]))] ++ us)) :
    Files.isDir (fs (dir ++ [c])) = false := by
  have hkept := unchanged_until hdir hfs hx hold hnew hall _ us hplan
    (by rw [bestEffort, runPlan_bestEffort]; rfl) (fun t ht => by
      rw [List.mem_singleton.mp ht]
      exact ⟨c, hc, hne.1, rfl⟩) hq
  have hentry : fs.put (uploadPath dir) none (dir ++ [c]) = fs (dir ++ [c]) :=
    entry_without_temp hne.2
  rw [bestEffort, runPlan_bestEffort, removeDir_child hdir hc (hfs.without_temp).dirExists,
    hentry] at hkept
  cases hdirEntry : Files.isDir (fs (dir ++ [c])) with
  | false => rfl
  | true =>
    rw [hdirEntry, if_pos rfl] at hkept
    have hpruned : (fs.put (uploadPath dir) none).prune (dir ++ [c]) (dir ++ [c]) = none :=
      if_pos List.prefix_rfl
    have hnone : fs (dir ++ [c]) = none := hkept.symm.trans hpruned
    rw [hnone] at hdirEntry
    cases hdirEntry

/-- No directory of the program is removed and made again. -/
theorem not_replaced {c : String} (hc : c ≠ ".." ∧ c ≠ ".")
    (hne : c ≠ "current.meta.json" ∧ c ≠ "_upload.st-bundle") (hq : ProgramFile dir (dir ++ [c]))
    (hfree : Files.isFile (fs (dir ++ [c])) = false) (make : StoreTask)
    (hmake : make.op = .createDirAll (dir ++ [c])) (us : List StoreTask) :
    uploadTasks lib dir data now ≠ tempTasks lib dir data ++
      ([bestEffort (.removeDirAll (dir ++ [c])), make] ++ us) := by
  intro hplan
  have habsent := removed_absent hdir hfs hx hold hnew hall hc hne hq (make :: us) hplan
  have hentry : fs.put (uploadPath dir) none (dir ++ [c]) = fs (dir ++ [c]) :=
    entry_without_temp hne.2
  obtain ⟨hok, hmade⟩ := makeDir_child hdir hc hfs.without_temp.dirExists (by rwa [hentry])
  have hremove : ((FileOp.removeDirAll (dir ++ [c])).run (fs.put (uploadPath dir) none)).1 =
      fs.put (uploadPath dir) none := by
    rw [removeDir_child hdir hc hfs.without_temp.dirExists, hentry, habsent]
    rfl
  have hrun : runPlan (fs.put (uploadPath dir) none)
      [bestEffort (.removeDirAll (dir ++ [c])), make] =
      (((FileOp.createDirAll (dir ++ [c])).run (fs.put (uploadPath dir) none)).1, .ok ()) := by
    rw [bestEffort, runPlan_bestEffort, hremove, runPlan_done (by rw [hmake]; exact Prod.ext rfl hok)]
    rfl
  have hkept := unchanged_until hdir hfs hx hold hnew hall _ us hplan (by rw [hrun])
    (fun t ht => by
      rcases List.mem_pair.mp ht with rfl | rfl
      · exact ⟨c, hc, hne.1, rfl⟩
      · exact ⟨c, hc, hne.1, by rw [hmake]; rfl⟩) hq
  rw [hrun, hmade] at hkept
  rw [← hkept] at habsent
  cases habsent

theorem consistent_sources : b.sources = [] := by
  by_contra hsources
  refine not_replaced hdir hfs hx hold hnew hall (c := "current_source") (by decide) (by decide)
    (Or.inl List.prefix_rfl) hfs.source
    (required lib "Cannot create source dir" (.createDirAll (sourcePath dir))) rfl
    (writeSources lib dir b ++ (profilesPlan dir b ++
      [yamlTask dir b, bestEffort (.write (bytecodePath dir) b.bytecode),
        bestEffort (.write (metaPath dir) (lib.encodeMeta (metadataOf b.manifest now)))])) ?_
  rw [uploadTasks_cons hx, storePlan, sourcesPlan, if_neg hsources]
  simp [tempTasks, sourcePath]

theorem consistent_profiles : b.profiles = [] := by
  by_contra hprofiles
  obtain ⟨writes, hplan⟩ : ∃ writes, profilesPlan dir b =
      bestEffort (.removeDirAll (profilesPath dir)) ::
        bestEffort (.createDirAll (profilesPath dir)) :: writes :=
    ⟨_, by rw [profilesPlan, if_neg hprofiles]⟩
  refine not_replaced hdir hfs hx hold hnew hall (c := "current_profiles") (by decide) (by decide)
    (Or.inr (Or.inl List.prefix_rfl)) hfs.profiles
    (bestEffort (.createDirAll (profilesPath dir))) rfl
    (writes ++ [yamlTask dir b, bestEffort (.write (bytecodePath dir) b.bytecode),
      bestEffort (.write (metaPath dir) (lib.encodeMeta (metadataOf b.manifest now)))]) ?_
  rw [uploadTasks_no_sources hx (consistent_sources hdir hfs hx hold hnew hall), hplan]
  simp [profilesPath]

theorem consistent_plan : uploadTasks lib dir data now = tempTasks lib dir data ++
    [bestEffort (.removeDirAll (profilesPath dir)), yamlTask dir b,
      bestEffort (.write (bytecodePath dir) b.bytecode),
      bestEffort (.write (metaPath dir) (lib.encodeMeta (metadataOf b.manifest now)))] :=
  uploadTasks_plain dir now hx (consistent_sources hdir hfs hx hold hnew hall)
    (consistent_profiles hdir hfs hx hold hnew hall)

theorem consistent_profilesDir : Files.isDir (fs (profilesPath dir)) = false :=
  removed_absent hdir hfs hx hold hnew hall (by decide) (by decide)
    (Or.inr (Or.inl List.prefix_rfl)) _ (consistent_plan hdir hfs hx hold hnew hall)

theorem consistent_yaml : Files.content (fs (yamlPath dir)) = b.projectYaml := by
  have hprofiles := profiles_idle hdir hfs (consistent_profilesDir hdir hfs hx hold hnew hall)
  have hentry : fs.put (uploadPath dir) none (yamlPath dir) = fs (yamlPath dir) :=
    entry_without_temp (by decide)
  have hrun : runPlan (fs.put (uploadPath dir) none)
      [bestEffort (.removeDirAll (profilesPath dir)), yamlTask dir b] =
      (((yamlTask dir b).op.run (fs.put (uploadPath dir) none)).1, .ok ()) := by
    rw [bestEffort, runPlan_bestEffort, hprofiles, yamlTask_bestEffort, runPlan_bestEffort]
    rfl
  have hkept := unchanged_until hdir hfs hx hold hnew hall (q := yamlPath dir)
    [bestEffort (.removeDirAll (profilesPath dir)), yamlTask dir b] _
    (consistent_plan hdir hfs hx hold hnew hall) (by rw [hrun])
    (fun t ht => by
      rcases List.mem_pair.mp ht with rfl | rfl
      · exact ⟨"current_profiles", by decide, by decide, rfl⟩
      · exact ⟨"current.project.yaml", by decide, by decide, yamlTask_path⟩)
    (Or.inr (Or.inr List.mem_cons_self))
  rw [hrun] at hkept
  dsimp only at hkept
  unfold yamlTask at hkept
  cases hyaml : b.projectYaml with
  | some yaml =>
    simp only [hyaml, bestEffort] at hkept
    rw [yamlPath, write_child_run hdir hfs.without_temp.dirExists (by decide)
      hfs.without_temp.yaml] at hkept
    rw [yamlPath, ← hkept]
    exact congrArg Files.content (Files.put_same _ _ _)
  | none =>
    simp only [hyaml, bestEffort] at hkept
    rw [yamlPath, removeFile_child hdir hfs.without_temp.dirExists (by decide)] at hkept
    cases hfile : Files.isFile (fs (yamlPath dir)) with
    | false => exact content_of_notFile hfile
    | true =>
      rw [yamlPath] at hentry hfile
      rw [hentry, hfile, if_pos rfl, Files.put_same] at hkept
      rw [← hkept] at hfile
      cases hfile

theorem consistent_bytecode : Files.content (fs (bytecodePath dir)) = some b.bytecode := by
  have hprofiles := profiles_idle hdir hfs (consistent_profilesDir hdir hfs hx hold hnew hall)
  have hyaml := yaml_idle hdir hfs (consistent_yaml hdir hfs hx hold hnew hall)
  have hfile := (loadPersisted_some hdir hfs.dirExists hold).1
  have hentry : fs.put (uploadPath dir) none (bytecodePath dir) = fs (bytecodePath dir) :=
    entry_without_temp (by decide)
  have hwrite : (FileOp.write (bytecodePath dir) b.bytecode).run (fs.put (uploadPath dir) none) =
      ((fs.put (uploadPath dir) none).put (bytecodePath dir) (some (.file b.bytecode)), true) := by
    refine write_child_run hdir hfs.without_temp.dirExists (by decide) ?_ b.bytecode
    rw [bytecodePath] at hentry hfile
    rw [hentry, hfile]
    rfl
  have hrun : runPlan (fs.put (uploadPath dir) none)
      [bestEffort (.removeDirAll (profilesPath dir)), yamlTask dir b,
        bestEffort (.write (bytecodePath dir) b.bytecode)] =
      ((fs.put (uploadPath dir) none).put (bytecodePath dir) (some (.file b.bytecode)), .ok ()) := by
    rw [bestEffort, runPlan_bestEffort, hprofiles, yamlTask_bestEffort, runPlan_bestEffort, hyaml,
      bestEffort, runPlan_bestEffort, hwrite]
    rfl
  have hkept := unchanged_until hdir hfs hx hold hnew hall (q := bytecodePath dir)
    [bestEffort (.removeDirAll (profilesPath dir)), yamlTask dir b,
      bestEffort (.write (bytecodePath dir) b.bytecode)] _
    (consistent_plan hdir hfs hx hold hnew hall) (by rw [hrun])
    (fun t ht => by
      rcases List.mem_cons.mp ht with rfl | ht
      · exact ⟨"current_profiles", by decide, by decide, rfl⟩
      rcases List.mem_pair.mp ht with rfl | rfl
      · exact ⟨"current.project.yaml", by decide, by decide, yamlTask_path⟩
      · exact ⟨"current.bytecode", by decide, by decide, rfl⟩)
    (Or.inr (Or.inr (by simp)))
  rw [hrun] at hkept
  dsimp only at hkept
  rw [← hkept, Files.put_same]
  rfl

end

/-! ## The theorem -/

section

variable {lib : Library} {dir : Path} {fs : Files Bytes} {data : Bytes} {b : ProgramBundle}
  {now : String} {old : StoredProgram}

theorem extractBundle_checksum (hx : lib.extractBundle data = .ok b) :
    lib.sha256Hex b.bytecode = b.manifest.bytecodeChecksum := by
  unfold Library.extractBundle at hx
  cases hfound : lib.extractEntries ⟨none, none, [], none, []⟩ (lib.entries data) with
  | error e =>
    rw [hfound] at hx
    cases hx
  | ok found =>
    rw [hfound] at hx
    simp only [bind, Except.bind] at hx
    split at hx
    · cases hx
    · cases hx
    · split at hx
      · cases hx
      · next hsum =>
        cases hx
        exact not_not.mp hsum

variable (hjson : lib.JsonRoundTrips) (hdir : Plain dir) (hfs : StoreDir dir fs)
  (hx : lib.extractBundle data = .ok b) (hold : loadPersisted lib dir fs = some old)
include hjson hdir hfs hx hold

/-- What a finished upload without sources and profiles leaves. -/
theorem finished_upload (now : String) (hsources : b.sources = []) (hprofiles : b.profiles = []) :
    Persisted lib dir (runPlan fs (uploadTasks lib dir data now)).1 b now ∧
      loadPersisted lib dir (runPlan fs (uploadTasks lib dir data now)).1 =
        some { programOf dir b now with
          sourceDir := if Files.isDir (fs (sourcePath dir)) then some (sourcePath dir) else none } := by
  have hok : (runPlan fs (uploadTasks lib dir data now)).2 = .ok () := by
    have htemp := temp_run hdir lib hfs data
    rw [uploadTasks_plain dir now hx hsources hprofiles, runPlan_append (by rw [htemp]), bestEffort,
      bestEffort, bestEffort, runPlan_bestEffort, yamlTask_bestEffort, runPlan_bestEffort,
      runPlan_bestEffort, runPlan_bestEffort]
    rfl
  let store : ProgramStore := ⟨⟨dir, hdir⟩, none⟩
  have hstored : (storeBundle lib fs store data now).2.2 = .ok (metadataOf b.manifest now) := by
    rw [storeBundle_eq, show (runPlan fs (uploadTasks lib store.programDir.path data now)).2 =
      .ok () from hok, hx]
  obtain ⟨hbytecode, text, hmeta, -⟩ := loadPersisted_some hdir hfs.dirExists hold
  have hplaced : Placed dir fs b := by
    refine ⟨?_, ?_, by simp [hsources]⟩
    · rw [hbytecode]
      rfl
    · rw [hmeta]
      rfl
  obtain ⟨hdisk, hsource⟩ := storeBundle_disk hstored hx hplaced
  rw [storeBundle_eq] at hdisk hsource
  rw [if_pos hsources] at hsource
  refine ⟨hdisk, ?_⟩
  rw [loadPersisted_eq hjson hdir hdisk]
  exact congrArg (fun d => some { programOf dir b now with
    sourceDir := if d = true then some (sourcePath dir) else none }) hsource

/-- At the last point only the new program can be found. -/
theorem consistent_sourceDir (hnew : old.metadata ≠ metadataOf b.manifest now)
    (hall : CrashConsistent lib dir fs data b now) :
    Files.isDir (fs (sourcePath dir)) = false := by
  have hsources := consistent_sources hdir hfs hx hold hnew hall
  obtain ⟨hdisk, hload⟩ := finished_upload hjson hdir hfs hx hold now hsources
    (consistent_profiles hdir hfs hx hold hnew hall)
  rcases hall _ (runPlan_mem _ fs) with h | h
  · have hmetadata := h.reopened
    rw [hload, hold] at hmetadata
    exact absurd (congrArg StoredProgram.metadata (Option.some.inj hmetadata)).symm hnew
  · have hreopened := h.reopened
    rw [hload] at hreopened
    have hdirs := congrArg StoredProgram.sourceDir (Option.some.inj hreopened)
    cases hsource : Files.isDir (fs (sourcePath dir)) with
    | false => rfl
    | true => simp [hsource, programOf, hsources] at hdirs

omit hjson hx hold in
/-- The operations before the metadata leave everything as it is. -/
theorem onlyMetadata_idle (h : OnlyMetadata dir fs b) :
    ∀ t ∈ [bestEffort (.removeDirAll (profilesPath dir)), yamlTask dir b,
      bestEffort (.write (bytecodePath dir) b.bytecode)],
    ∀ fs', fs' = fs.put (uploadPath dir) none → (t.op.run fs').1 = fs.put (uploadPath dir) none := by
  rintro t ht _ rfl
  rcases List.mem_cons.mp ht with rfl | ht
  · exact profiles_idle hdir hfs h.profilesDir
  rcases List.mem_pair.mp ht with rfl | rfl
  · exact yaml_idle hdir hfs h.yaml
  · have hfile : fs.put (uploadPath dir) none (bytecodePath dir) = some (.file b.bytecode) :=
      (entry_without_temp (by decide)).trans (file_of_content h.bytecode)
    have hnotDir : Files.isDir (fs.put (uploadPath dir) none (bytecodePath dir)) = false := by
      rw [hfile]
      rfl
    have hwrite := write_child_run (c := "current.bytecode") hdir hfs.without_temp.dirExists
      (by decide) hnotDir b.bytecode
    exact (congrArg Prod.fst hwrite).trans (Files.put_self hfile)

/-- An upload that changes nothing but the metadata. -/
theorem onlyMetadata_consistent (h : OnlyMetadata dir fs b) :
    CrashConsistent lib dir fs data b now := by
  intro fs' hmem
  have hagree : ∀ {fs' : Files Bytes}, (∀ q, q ≠ uploadPath dir → fs' q = fs q) →
      OldProgram lib dir fs fs' := oldProgram_of_agree hdir hfs.dirExists
  have htemp := temp_run hdir lib hfs data
  have hplan := uploadTasks_plain dir now hx h.sources h.profiles
  have hidle := onlyMetadata_idle hdir hfs h
  have hrun := runPlan_inv (P := fun fs'' => fs'' = fs.put (uploadPath dir) none) _ hidle rfl
  rw [hplan] at hmem
  rcases mem_planStates_append _ _ hmem with hmem | ⟨-, hmem⟩
  · -- only the temporary file has been touched
    refine Or.inl (hagree fun q hq => planStates_frame (fun t ht => ?_) fs' hmem)
    have hlexical : lexical [] (uploadPath dir) = uploadPath dir :=
      lexical_of_plain (plain_child hdir (by decide)) []
    rcases List.mem_pair.mp ht with rfl | rfl <;>
      exact fun htouch => hq (Eq.trans htouch hlexical)
  rw [htemp] at hmem
  rcases mem_planStates_append [bestEffort (.removeDirAll (profilesPath dir)),
    yamlTask dir b, bestEffort (.write (bytecodePath dir) b.bytecode)] _ hmem with hmem | ⟨hok, hmem⟩
  · have hsame := planStates_inv hidle rfl fs' hmem
    exact Or.inl (hagree fun q hq => by rw [hsame]; exact Files.put_other fs hq _)
  · have hfinal : (runPlan fs (uploadTasks lib dir data now)).1 =
        ((FileOp.write (metaPath dir) (lib.encodeMeta (metadataOf b.manifest now))).run
          (fs.put (uploadPath dir) none)).1 := by
      have hparts := runPlan_append hok
        [bestEffort (.write (metaPath dir) (lib.encodeMeta (metadataOf b.manifest now)))]
      rw [hplan, runPlan_append (by rw [htemp]), htemp]
      refine (congrArg Prod.fst hparts).trans ?_
      rw [hrun, bestEffort, runPlan_bestEffort]
      rfl
    rw [hrun, bestEffort, planStates_bestEffort] at hmem
    rcases List.mem_pair.mp hmem with rfl | rfl
    · exact Or.inl (hagree fun q hq => Files.put_other fs hq _)
    · right
      rw [← hfinal]
      obtain ⟨-, hload⟩ := finished_upload hjson hdir hfs hx hold now h.sources h.profiles
      refine ⟨?_, extractBundle_checksum hx, fun q _ => rfl⟩
      rw [hload, h.sourceDir]
      simp [programOf, h.sources]

end

/-- **A deployment is safe at every point exactly when it changes nothing but
the metadata.** -/
theorem crash_consistent_iff (lib : Library) (hjson : lib.JsonRoundTrips) (dir : Directory)
    {fs : Files Bytes} (hfs : StoreDir dir.path fs) {old : StoredProgram}
    (hold : loadPersisted lib dir.path fs = some old) {data : Bytes} {b : ProgramBundle}
    (hx : lib.extractBundle data = .ok b) {now : String}
    (hnew : old.metadata ≠ metadataOf b.manifest now) :
    CrashConsistent lib dir.path fs data b now ↔ OnlyMetadata dir.path fs b := by
  have hdir := dir.plain
  constructor
  · intro hall
    exact ⟨consistent_sources hdir hfs hx hold hnew hall,
      consistent_sourceDir hjson hdir hfs hx hold hnew hall,
      consistent_profiles hdir hfs hx hold hnew hall,
      consistent_profilesDir hdir hfs hx hold hnew hall,
      consistent_yaml hdir hfs hx hold hnew hall,
      consistent_bytecode hdir hfs hx hold hnew hall⟩
  · intro h
    exact onlyMetadata_consistent hjson hdir hfs hx hold h

/-! ## Deploying again -/

/-- The pump released on an empty directory. -/
noncomputable def released : StoreState := emptyPlc.upload pumpLibrary [1] pumpTime

def developmentBundle : ProgramBundle :=
  ⟨pumpManifest .development, [], [("main.st", [7])], none, []⟩

def releaseBundle : ProgramBundle := ⟨pumpManifest .release, [], [], none, []⟩

theorem above_plc {p : Path} (hp : p <+: ["plc"]) : p = [] ∨ p = ["plc"] := by
  rcases List.prefix_concat_iff.mp (show p <+: [] ++ ["plc"] from hp) with heq | hpre
  · exact Or.inr heq
  · exact Or.inl (List.prefix_nil.mp hpre)

theorem developed_storeDir : StoreDir ["plc"] developed.files where
  dirExists := fun p hp => by rcases above_plc hp with rfl | rfl <;> rfl
  upload := rfl
  yaml := rfl
  source := rfl
  profiles := rfl

theorem released_storeDir : StoreDir ["plc"] released.files where
  dirExists := fun p hp => by rcases above_plc hp with rfl | rfl <;> rfl
  upload := rfl
  yaml := rfl
  source := rfl
  profiles := rfl

theorem developed_persisted : Persisted pumpLibrary ["plc"] developed.files developmentBundle pumpTime :=
  ⟨developed_storeDir.dirExists, rfl, rfl⟩

theorem released_persisted : Persisted pumpLibrary ["plc"] released.files releaseBundle pumpTime :=
  ⟨released_storeDir.dirExists, rfl, rfl⟩

theorem later_metadata (manifest : BundleManifest) :
    metadataOf manifest pumpTime ≠ metadataOf manifest laterTime := by
  intro heq
  exact absurd (congrArg ProgramMetadata.deployedAt heq) (by decide : pumpTime ≠ laterTime)

/-- Releasing the same program again changes only its metadata. -/
theorem release_again_safe : OnlyMetadata ["plc"] released.files releaseBundle ∧
    CrashConsistent pumpLibrary ["plc"] released.files [1] releaseBundle laterTime := by
  have hsame : OnlyMetadata ["plc"] released.files releaseBundle := ⟨rfl, rfl, rfl, rfl, rfl, rfl⟩
  exact ⟨hsame, (crash_consistent_iff pumpLibrary pumpLibrary_json plcStore.programDir
    released_storeDir (loadPersisted_eq pumpLibrary_json (by decide) released_persisted) rfl
    (later_metadata _)).mpr hsame⟩

/-- A development bundle deployed again: some crash leaves neither program. -/
theorem crash_mixes_programs :
    (loadPersisted pumpLibrary ["plc"] developed.files).isSome ∧
      pumpLibrary.extractBundle [0] = .ok developmentBundle ∧
      ∃ fs' ∈ planStates developed.files (uploadTasks pumpLibrary ["plc"] [0] laterTime),
        ¬ (OldProgram pumpLibrary ["plc"] developed.files fs' ∨
          NewProgram pumpLibrary ["plc"] developed.files fs' [0] developmentBundle laterTime) := by
  have hold := loadPersisted_eq pumpLibrary_json (by decide) developed_persisted
  refine ⟨by rw [hold]; rfl, rfl, ?_⟩
  by_contra hnone
  have hall : CrashConsistent pumpLibrary ["plc"] developed.files [0] developmentBundle laterTime := by
    intro fs' hmem
    by_contra hmixed
    exact hnone ⟨fs', hmem, hmixed⟩
  exact List.cons_ne_nil _ _ (consistent_sources (by decide) developed_storeDir rfl hold
    (later_metadata _) hall)

end RustPlc.Target
