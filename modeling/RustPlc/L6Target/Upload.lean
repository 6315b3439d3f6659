import RustPlc.L6Target.ProgramStore

/-!
# Where an upload writes

The names of a bundle's sources and profiles come from the archive, are cut
behind `source/` and `profiles/` and joined to the directories of the store.
`Contained` is the condition on these names under which every operation of an
upload stays below the program directory.

Results:
* `uploadTasks_run`: an upload is its plan;
* `staysBelow_frame`: a plan that stays below a directory changes nothing outside;
* `upload_stays_below_iff`: **the exact condition on the entry names**;
* `upload_overwrites_outside`: a bundle with `..` in a name replaces a file
  outside the program directory.
-/
namespace RustPlc.Target

open RustPlc.Core

/-- The file operations of an upload: `store_bundle` from its first line on. -/
def uploadTasks (lib : Library) (dir : Path) (data : Bytes) (now : String) : List StoreTask :=
  required lib "Cannot write temp bundle" (.write (uploadPath dir) data) ::
    match lib.extractBundle data with
    | .error _ => []
    | .ok b => storePlan lib dir b now

/-- What the operation creates, overwrites or deletes is below the directory.
A directory that has to exist may also be one above it. -/
def StaysBelow (dir : Path) : FileOp Bytes → Prop
  | .createDirAll path => ∀ k, lexical [] (path.take k) <+: dir ∨ Below dir (lexical [] (path.take k))
  | .write path _ => Below dir (lexical [] path)
  | .removeFile path => Below dir (lexical [] path)
  | .removeDirAll path => Below dir (lexical [] path)

/-- The file of a source lies below the program directory, and so does every
directory created on the way to it. -/
structure SourceInside (dir : Path) (rel : String) : Prop where
  target : Below dir (lexical [] (openPath (sourcePath dir) rel))
  parents : ∀ k, lexical [] ((joinPath (sourcePath dir) rel).dropLast.take k) <+: dir ∨
    Below dir (lexical [] ((joinPath (sourcePath dir) rel).dropLast.take k))

/-- The file of a profile lies below the program directory. -/
def ProfileInside (dir : Path) (filename : String) : Prop :=
  Below dir (lexical [] (openPath (profilesPath dir) filename))

/-- No entry of the bundle leads out of the program directory. -/
structure Contained (dir : Path) (b : ProgramBundle) : Prop where
  sources : ∀ s ∈ b.sources, SourceInside dir s.1
  profiles : ∀ p ∈ b.profiles, ProfileInside dir p.1

/-! ## The plan is the upload -/

/-- An upload runs its plan; the store changes only when the plan ends well
and the bundle is a valid one. -/
theorem storeBundle_eq (lib : Library) (fs : Files Bytes) (store : ProgramStore) (data : Bytes)
    (now : String) :
    storeBundle lib fs store data now =
      ((runPlan fs (uploadTasks lib store.programDir.path data now)).1,
        match (runPlan fs (uploadTasks lib store.programDir.path data now)).2, lib.extractBundle data with
        | .error e, _ => (store, .error e)
        | .ok _, .error msg => (store, .error (.invalidBundle msg))
        | .ok _, .ok b => ({ store with current := some (programOf store.programDir.path b now) },
            .ok (metadataOf b.manifest now))) := by
  have hcons := runPlan_cons fs
    (required lib "Cannot write temp bundle" (.write (uploadPath store.programDir.path) data))
  unfold storeBundle uploadTasks
  rw [hcons]
  cases hw : (FileOp.write (uploadPath store.programDir.path) data).run fs with
  | mk fs1 ok =>
    cases ok with
    | false => simp [required, Task.stops, hw]
    | true =>
      simp only [required, Task.stops, hw, if_true]
      cases lib.extractBundle data with
      | error msg => rfl
      | ok b =>
        dsimp only
        cases runPlan fs1 (storePlan lib store.programDir.path b now) with
        | mk fs2 r => cases r <;> rfl

theorem storeBundle_ok {lib : Library} {fs : Files Bytes} {store : ProgramStore} {data : Bytes}
    {now : String} {m : ProgramMetadata} (h : (storeBundle lib fs store data now).2.2 = .ok m) :
    (runPlan fs (uploadTasks lib store.programDir.path data now)).2 = .ok () ∧
      ∃ b, lib.extractBundle data = .ok b ∧ m = metadataOf b.manifest now ∧
        (storeBundle lib fs store data now).2.1 =
          { store with current := some (programOf store.programDir.path b now) } := by
  rw [storeBundle_eq] at h ⊢
  split at h
  · cases h
  · cases h
  · next u b hrun hx =>
    rw [hrun, hx]
    exact ⟨rfl, b, rfl, (Except.ok.inj h).symm, rfl⟩

/-! ## Staying below a directory -/

/-- The directory and those above it exist. -/
def DirExists (fs : Files Bytes) (dir : Path) : Prop := ∀ p, p <+: dir → fs p = some .dir

theorem StaysBelow.keeps_dirExists {dir : Path} {op : FileOp Bytes} (h : StaysBelow dir op)
    {fs : Files Bytes} (hfs : DirExists fs dir) : DirExists (op.run fs).1 dir := by
  intro p hp
  refine run_keeps_dir (hfs p hp) ?_
  rintro path rfl hpre
  have hbelow : Below dir (lexical [] path) := h
  -- a removed tree would contain the directory itself
  exact hbelow.2 (hbelow.1.eq_of_length_le (hpre.trans hp).length_le)

/-- An operation that stays below the directory leaves everything else. -/
theorem StaysBelow.frame {dir : Path} {op : FileOp Bytes} (h : StaysBelow dir op)
    {fs : Files Bytes} (hfs : DirExists fs dir) {q : Path} (hq : ¬ Below dir q) :
    (op.run fs).1 q = fs q := by
  by_cases hup : q <+: dir
  · rw [h.keeps_dirExists hfs q hup, hfs q hup]
  · apply run_frame
    intro htouch
    cases op with
    | write path b => exact hq (htouch ▸ h)
    | removeFile path => exact hq (htouch ▸ h)
    | removeDirAll path =>
      have hbelow : Below dir (lexical [] path) := h
      refine hq ⟨hbelow.1.trans htouch, ?_⟩
      rintro rfl
      exact hbelow.2 (hbelow.1.eq_of_length_le htouch.length_le)
    | createDirAll path =>
      obtain ⟨k, rfl⟩ := htouch
      exact (h k).elim hup hq

theorem staysBelow_frame {dir : Path} {ts : List StoreTask} (h : ∀ t ∈ ts, StaysBelow dir t.op)
    {fs : Files Bytes} (hfs : DirExists fs dir) {q : Path} (hq : ¬ Below dir q) :
    (runPlan fs ts).1 q = fs q := by
  have hinv := runPlan_inv (P := fun fs' => DirExists fs' dir ∧ fs' q = fs q) ts
    (fun t ht fs' hfs' =>
      ⟨(h t ht).keeps_dirExists hfs'.1, ((h t ht).frame hfs'.1 hq).trans hfs'.2⟩) ⟨hfs, rfl⟩
  exact hinv.2

/-- A file can only be written into a directory that exists. -/
theorem write_child {dir : Path} (hdir : Plain dir) {c : String} (hc : c ≠ ".." ∧ c ≠ ".")
    {fs : Files Bytes} {content : Bytes}
    (h : ((FileOp.write (dir ++ [c]) content).run fs).2 = true) : DirExists fs dir := by
  have hplain : Plain (dir ++ [c]) := hdir.append (by simpa [Plain] using hc)
  simp only [FileOp.run] at h
  cases hw : Files.walk fs [] (dir ++ [c]) with
  | none => simp [hw] at h
  | some q =>
    intro p hp
    have hne : p ≠ dir ++ [c] := by
      rintro rfl
      have := hp.length_le
      rw [List.length_append, List.length_singleton] at this
      omega
    exact Files.dirs_of_walk hplain hw p (hp.trans (List.prefix_append dir [c])) hne

/-! ## Which operations stay below -/

section

variable {dir : Path} (hdir : Plain dir)
include hdir

/-- The file `c` of the directory. -/
theorem below_child {c : String} (hc : c ≠ ".." ∧ c ≠ ".") : Below dir (lexical [] (dir ++ [c])) := by
  have hplain : Plain (dir ++ [c]) := hdir.append (by simpa [Plain] using hc)
  rw [lexical_of_plain hplain, List.nil_append]
  refine ⟨List.prefix_append dir [c], fun heq => ?_⟩
  have := congrArg List.length heq
  simp at this

theorem createDir_child {c : String} (hc : c ≠ ".." ∧ c ≠ ".") :
    StaysBelow dir (.createDirAll (dir ++ [c])) := by
  intro k
  have hplain : Plain (dir ++ [c]) := hdir.append (by simpa [Plain] using hc)
  have htake : (dir ++ [c]).take k <+: dir ++ [c] := List.take_prefix k _
  rw [lexical_of_plain (hplain.of_subset htake.subset), List.nil_append]
  rcases List.prefix_concat_iff.mp htake with heq | hpre
  · right
    have hbelow := below_child hdir hc
    rw [lexical_of_plain hplain, List.nil_append] at hbelow
    rwa [heq]
  · exact Or.inl hpre

theorem sourcesPlan_stays_iff (lib : Library) (b : ProgramBundle) :
    (∀ t ∈ sourcesPlan lib dir b, StaysBelow dir t.op) ↔ ∀ s ∈ b.sources, SourceInside dir s.1 := by
  have hchild := below_child hdir (c := "current_source") (by decide)
  have hyaml : Below dir (lexical [] (sourcePath dir ++ ["plc-project.yaml"])) := by
    rw [lexical_append]
    refine ⟨hchild.1.trans (List.prefix_append _ _), fun heq => ?_⟩
    have hle := hchild.1.length_le
    have := congrArg List.length heq
    simp [lexical, descend, sourcePath] at this hle
    omega
  unfold sourcesPlan
  split
  · next hnil => simp [hnil]
  · constructor
    · intro h s hs
      have htasks : ∀ t ∈ sourceTasks lib dir s.1 s.2, StaysBelow dir t.op := fun t ht =>
        h t (List.mem_cons_of_mem _ (List.mem_cons_of_mem _
          (List.mem_append_right _ (List.mem_flatMap.mpr ⟨s, hs, ht⟩))))
      have hparents := htasks _ List.mem_cons_self
      have htarget := htasks _ (List.mem_cons_of_mem _ List.mem_cons_self)
      exact ⟨htarget, hparents⟩
    · intro h t ht
      rcases List.mem_cons.mp ht with rfl | ht
      · exact hchild
      rcases List.mem_cons.mp ht with rfl | ht
      · exact createDir_child hdir (by decide)
      rcases List.mem_append.mp ht with ht | ht
      · split at ht
        · rw [List.mem_singleton.mp ht]
          exact hyaml
        · cases ht
      · obtain ⟨s, hs, ht⟩ := List.mem_flatMap.mp ht
        rcases List.mem_pair.mp ht with rfl | rfl
        · exact (h s hs).parents
        · exact (h s hs).target

theorem profilesPlan_stays_iff (b : ProgramBundle) :
    (∀ t ∈ profilesPlan dir b, StaysBelow dir t.op) ↔ ∀ p ∈ b.profiles, ProfileInside dir p.1 := by
  have hremove : StaysBelow dir (.removeDirAll (profilesPath dir)) :=
    below_child hdir (c := "current_profiles") (by decide)
  have hcreate : StaysBelow dir (.createDirAll (profilesPath dir)) :=
    createDir_child hdir (c := "current_profiles") (by decide)
  unfold profilesPlan
  rw [List.forall_mem_cons]
  refine (and_iff_right hremove).trans ?_
  split
  · next hnil => simp [hnil]
  · rw [List.forall_mem_cons]
    refine (and_iff_right hcreate).trans ?_
    rw [List.forall_mem_map]
    exact Iff.rfl

/-- The operations of a stored bundle stay below the program directory
exactly when its entries do. -/
theorem storePlan_stays_iff (lib : Library) (b : ProgramBundle) (now : String) :
    (∀ t ∈ storePlan lib dir b now, StaysBelow dir t.op) ↔ Contained dir b := by
  have hupload : StaysBelow dir (.removeFile (uploadPath dir)) :=
    below_child hdir (c := "_upload.st-bundle") (by decide)
  have hbytecode : StaysBelow dir (.write (bytecodePath dir) b.bytecode) :=
    below_child hdir (c := "current.bytecode") (by decide)
  have hmeta : StaysBelow dir
      (.write (metaPath dir) (lib.encodeMeta (metadataOf b.manifest now))) :=
    below_child hdir (c := "current.meta.json") (by decide)
  have hyaml : StaysBelow dir (yamlTask dir b).op := by
    unfold yamlTask
    split <;> exact below_child hdir (c := "current.project.yaml") (by decide)
  unfold storePlan
  rw [List.forall_mem_cons, List.forall_mem_append, List.forall_mem_append,
    sourcesPlan_stays_iff hdir, profilesPlan_stays_iff hdir]
  constructor
  · rintro ⟨_, ⟨hsources, hprofiles⟩, _⟩
    exact ⟨hsources, hprofiles⟩
  · intro h
    refine ⟨hupload, ⟨h.sources, h.profiles⟩, ?_⟩
    simp only [List.forall_mem_cons]
    exact ⟨hyaml, hbytecode, hmeta, fun _ h => absurd h List.not_mem_nil⟩

theorem uploadTasks_stay_iff (lib : Library) (data : Bytes) (now : String) :
    (∀ t ∈ uploadTasks lib dir data now, StaysBelow dir t.op) ↔
      ∀ b, lib.extractBundle data = .ok b → Contained dir b := by
  have hupload : StaysBelow dir (.write (uploadPath dir) data) :=
    below_child hdir (c := "_upload.st-bundle") (by decide)
  unfold uploadTasks
  rw [List.forall_mem_cons]
  refine (and_iff_right hupload).trans ?_
  cases lib.extractBundle data with
  | error msg => simp
  | ok b =>
    rw [storePlan_stays_iff hdir]
    constructor
    · rintro h _ ⟨⟩
      exact h
    · intro h
      exact h b rfl

end

/-- The operations of every source are part of the upload. -/
theorem uploadTasks_source (lib : Library) (dir : Path) {data : Bytes} (now : String)
    {b : ProgramBundle} (hx : lib.extractBundle data = .ok b) {s : String × Bytes}
    (hs : s ∈ b.sources) {t : StoreTask} (ht : t ∈ sourceTasks lib dir s.1 s.2) :
    t ∈ uploadTasks lib dir data now := by
  have hplan : t ∈ sourcesPlan lib dir b := by
    unfold sourcesPlan
    rw [if_neg (List.ne_nil_of_mem hs)]
    exact List.mem_cons_of_mem _ (List.mem_cons_of_mem _
      (List.mem_append_right _ (List.mem_flatMap.mpr ⟨s, hs, ht⟩)))
  unfold uploadTasks
  rw [hx]
  exact List.mem_cons_of_mem _ (List.mem_cons_of_mem _
    (List.mem_append_left _ (List.mem_append_left _ hplan)))

/-- An upload into a directory that is not there changes nothing. -/
theorem storeBundle_dirExists {lib : Library} {fs : Files Bytes} {store : ProgramStore}
    {data : Bytes} {now : String} (h : ¬ DirExists fs store.programDir.path) :
    (storeBundle lib fs store data now).1 = fs := by
  have hfail : ((FileOp.write (uploadPath store.programDir.path) data).run fs).2 = false := by
    by_contra hok
    exact h (write_child store.programDir.plain (by decide) (eq_true_of_ne_false hok))
  rw [storeBundle_eq, uploadTasks, runPlan_cons]
  simp only [required, Task.stops, hfail, Bool.false_eq_true, if_false]
  exact write_failed hfail

/-- **Where an upload writes.** Its operations stay below the program
directory exactly when no entry of the bundle leads out of it; nothing outside
is then changed. An upload that succeeds has written every source where its
name leads, so an entry that leads out of the directory is written there. -/
theorem upload_stays_below_iff (lib : Library) (store : ProgramStore) (data : Bytes)
    (now : String) :
    ((∀ t ∈ uploadTasks lib store.programDir.path data now, StaysBelow store.programDir.path t.op) ↔
      ∀ b, lib.extractBundle data = .ok b → Contained store.programDir.path b) ∧
    ((∀ b, lib.extractBundle data = .ok b → Contained store.programDir.path b) →
      ∀ fs q, (storeBundle lib fs store data now).1 q ≠ fs q → Below store.programDir.path q) ∧
    (∀ fs m b, (storeBundle lib fs store data now).2.2 = .ok m → lib.extractBundle data = .ok b →
      ∀ s ∈ b.sources, ∃ fs' ∈ planStates fs (uploadTasks lib store.programDir.path data now),
        fs' (lexical [] (openPath (sourcePath store.programDir.path) s.1)) = some (.file s.2)) := by
  have hiff := uploadTasks_stay_iff store.programDir.plain lib data now
  refine ⟨hiff, ?_, ?_⟩
  · intro hcontained fs q hchanged
    by_contra hq
    apply hchanged
    by_cases hdir : DirExists fs store.programDir.path
    · rw [storeBundle_eq]
      exact staysBelow_frame (hiff.mpr hcontained) hdir hq
    · rw [storeBundle_dirExists hdir]
  · intro fs m b hok hx s hs
    have hmem := uploadTasks_source lib store.programDir.path now hx hs
      (List.mem_cons_of_mem _ List.mem_cons_self)
    exact runPlan_wrote (storeBundle_ok hok).1 _ hmem _ _ rfl (Option.some_ne_none _)

/-! ## A name that leads out -/

/-- The SHA-256 digest of no bytes. -/
def emptyDigest : String := "e3b0c44298fc1c149afbf4c8996fb92427ae41e4649b934ca495991b7852b855"

/-- A library for which every upload is an archive with a manifest, an empty
program and the given entries. -/
def archiveOf (entries : List (String × Bytes)) : Library where
  entries := fun _ => (("manifest.yaml", []) :: ("program.stc", []) :: entries).map .ok
  manifest := fun _ => .ok ⟨"pump", "1.0.0", .development, "2026-01-01", emptyDigest, false, none⟩
  sha256Hex := fun _ => emptyDigest
  encodeMeta := fun _ => []
  decodeMeta := fun _ => none
  osError := "File exists (os error 17)"

/-- `/etc/passwd` and `/plc`, the program directory. -/
def hostFiles : Files Bytes
  | [] => some .dir
  | ["etc"] => some .dir
  | ["etc", "passwd"] => some (.file [0])
  | ["plc"] => some .dir
  | _ => none

def plcStore : ProgramStore := ⟨⟨["plc"], by decide⟩, none⟩

/-- The upload of `source/../../etc/passwd` replaces `/etc/passwd`. -/
theorem upload_overwrites_outside :
    let r := storeBundle (archiveOf [("source/../../etc/passwd", [1])]) hostFiles plcStore [] ""
    r.2.2.isOk ∧ hostFiles ["etc", "passwd"] = some (.file [0]) ∧
      r.1 ["etc", "passwd"] = some (.file [1]) ∧ ¬ Below plcStore.programDir.path ["etc", "passwd"] := by
  decide

end RustPlc.Target
