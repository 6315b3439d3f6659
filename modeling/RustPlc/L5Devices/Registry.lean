import RustPlc.L5Devices.DeviceIo

/-!
# Native function blocks at bundling time and on the target

The bundler compiles against the profiles of one directory, the project's own or
the nearest one above, with the layout of a simulated device for each. It ships
the profiles of all these directories. The target agent lists what it was sent,
in the order of its file system, and takes the implementation by the protocol of
the profile.

Results:
* `registered_iff`: the names that are registered on the target;
* `layouts_agree_iff`: when the layout of the implementation is the one compiled
  against, in whichever order the files are listed.
-/
namespace RustPlc.Devices

open RustPlc.Ir RustPlc.Agree

/-! ## Layouts of a profile -/

/-- The fields of a profile, as they stand behind the fixed fields of a layout. -/
def DeviceProfile.nativeFields (p : DeviceProfile) : List NativeFbField :=
  p.fields.map fun pf =>
    ⟨pf.name, pf.dataType, false, if 1 < pf.count then some [(0, pf.count.toUInt64.toInt64 - 1)] else none⟩

/-- mirrors crates/st-comm-api/src/native_fb.rs:138-197 -/
def DeviceProfile.toNativeFbLayout (p : DeviceProfile) : NativeFbLayout where
  typeName := p.name
  fields :=
    [⟨"refresh_rate", .time, true, none⟩, ⟨"connected", .bool, false, none⟩,
      ⟨"error_code", .int, false, none⟩, ⟨"io_cycles", .udint, false, none⟩,
      ⟨"last_response_ms", .real, false, none⟩] ++ p.nativeFields

/-- mirrors crates/st-comm-api/src/native_fb.rs:257-296 -/
def DeviceProfile.toUppDeviceLayout (p : DeviceProfile) : NativeFbLayout where
  typeName := p.name
  fields :=
    [⟨"link", .string, true, none⟩, ⟨"device_id", .int, true, none⟩, ⟨"refresh_rate", .time, true, none⟩,
      ⟨"timeout", .time, true, none⟩, ⟨"cooldown", .time, true, none⟩, ⟨"connected", .bool, false, none⟩,
      ⟨"error_code", .int, false, none⟩, ⟨"errors_count", .udint, false, none⟩,
      ⟨"io_cycles", .udint, false, none⟩, ⟨"last_response_ms", .real, false, none⟩] ++ p.nativeFields

/-- mirrors crates/st-comm-serial/src/link_fb.rs:54-102 -/
def serialLinkLayout : NativeFbLayout where
  typeName := "SerialLink"
  fields :=
    [⟨"port", .string, true, none⟩, ⟨"baud", .int, true, none⟩, ⟨"parity", .string, true, none⟩,
      ⟨"data_bits", .int, true, none⟩, ⟨"stop_bits", .int, true, none⟩, ⟨"connected", .bool, false, none⟩,
      ⟨"error_code", .int, false, none⟩]

/-- The first type of the name.
mirrors crates/st-comm-api/src/native_fb.rs:99-104 -/
def findNative (registry : List NativeFbLayout) (typeName : String) : Option NativeFbLayout :=
  registry.find? fun l => eqIgnoreAsciiCase l.typeName typeName

/-! ## Directories -/

/-- `std::path::Path::extension`: what stands behind the last dot, unless that is
the first character. -/
def extension (filename : String) : Option String :=
  match filename.toList.reverse.span (· ≠ '.') with
  | (_, []) | (_, [_]) => none
  | (behind, _ :: _) => some (String.ofList behind.reverse)

/-- A file of a profiles directory, with what `DeviceProfile::from_file` makes
of it. -/
structure ProfileFile where
  filename : String
  profile : Option DeviceProfile
  deriving DecidableEq

def ProfileFile.isYaml (f : ProfileFile) : Bool :=
  extension f.filename = some "yaml" || extension f.filename = some "yml"

/-- The profile of a file with the right extension. -/
def ProfileFile.listed (f : ProfileFile) : Option DeviceProfile := if f.isYaml then f.profile else none

/-- The files of a directory, in the order it is listed. -/
structure ProfileDir where
  files : List ProfileFile
  distinct : (files.map ProfileFile.filename).Nodup

/-- A project: its `profiles` directory, and those of the directories above it,
nearest first. -/
structure Project where
  own : Option ProfileDir
  parents : List (Option ProfileDir)

/-- The directory the bundler compiles against.
mirrors crates/st-deploy/src/bundle.rs:535-556 -/
def Project.registryDir (project : Project) : Option ProfileDir :=
  (project.own :: project.parents.take 6).findSome? id

/-- mirrors crates/st-deploy/src/bundle.rs:558-583 -/
def Project.bundlerProfiles (project : Project) : List DeviceProfile :=
  match project.registryDir with
  | none => []
  | some dir => dir.files.filterMap ProfileFile.listed

def Project.bundlerRegistry (project : Project) : List NativeFbLayout :=
  project.bundlerProfiles.map DeviceProfile.toNativeFbLayout

/-- The first file of a name stays. -/
def addFile (shipped : List ProfileFile) (f : ProfileFile) : List ProfileFile :=
  if f.isYaml && !shipped.any (·.filename == f.filename) then shipped ++ [f] else shipped

/-- The files shipped with the bundle, by name.
mirrors crates/st-deploy/src/bundle.rs:473-514 -/
def Project.collectProfiles (project : Project) : List ProfileFile :=
  let files := (project.own :: project.parents.take 6).flatMap fun dir =>
    match dir with
    | none => []
    | some dir => dir.files
  (files.foldl addFile []).mergeSort fun f g => decide (f.filename ≤ g.filename)

/-! ## The target -/

def DeviceProfile.protocolName (p : DeviceProfile) : String := p.protocol.getD "simulated"

/-- The implementation the target has for a profile, by its layout. -/
def targetFb (p : DeviceProfile) : Option NativeFbLayout :=
  if p.protocolName = "simulated" then some p.toNativeFbLayout
  else if p.protocolName = "upp" then some p.toUppDeviceLayout
  else none

/-- mirrors crates/st-target-agent/src/api/program.rs:127-189 -/
def targetRegistry (listing : List ProfileFile) : List NativeFbLayout :=
  let profiles := listing.filterMap ProfileFile.listed
  let fbs := profiles.filterMap targetFb
  if profiles.any (·.protocolName == "upp") then fbs ++ [serialLinkLayout] else fbs

/-! ## What is shipped -/

theorem addFile_mem {shipped : List ProfileFile} {f g : ProfileFile} (h : g ∈ shipped) :
    g ∈ addFile shipped f := by
  unfold addFile
  split
  · exact List.mem_append_left [f] h
  · exact h

theorem addFiles_mem {g : ProfileFile} : ∀ {files shipped : List ProfileFile}, g ∈ shipped →
    g ∈ files.foldl addFile shipped := by
  intro files
  induction files with
  | nil => exact id
  | cons f files ih => exact fun h => ih (addFile_mem h)

/-- The files of a directory are shipped, when no earlier one has their name. -/
theorem dir_shipped {files : List ProfileFile} (hnodup : (files.map ProfileFile.filename).Nodup) :
    ∀ {shipped : List ProfileFile}, (∀ f ∈ files, ∀ g ∈ shipped, g.filename ≠ f.filename) →
      ∀ f ∈ files, f.isYaml = true → f ∈ files.foldl addFile shipped := by
  induction files with
  | nil =>
    intro _ _ f hf
    cases hf
  | cons first files ih =>
    intro shipped hnew f hf hyaml
    rw [List.map_cons, List.nodup_cons] at hnodup
    rcases List.mem_cons.mp hf with rfl | hf
    · rw [List.foldl_cons]
      apply addFiles_mem
      have hany : shipped.any (·.filename == f.filename) = false := by
        rw [List.any_eq_false]
        intro g hg
        exact fun heq => hnew f List.mem_cons_self g hg (beq_iff_eq.mp heq)
      simp [addFile, hyaml, hany]
    · refine ih hnodup.2 (fun f hf g hg => ?_) f hf hyaml
      unfold addFile at hg
      split at hg
      · rcases List.mem_append.mp hg with hg | hg
        · exact hnew f (List.mem_cons_of_mem first hf) g hg
        · rw [List.mem_singleton.mp hg]
          intro heq
          exact hnodup.1 (heq ▸ List.mem_map_of_mem hf)
      · exact hnew f (List.mem_cons_of_mem first hf) g hg

/-- The profiles that are shipped. -/
def Project.shippedProfiles (project : Project) : List DeviceProfile :=
  project.collectProfiles.filterMap ProfileFile.listed

theorem firstDir_files {dir : ProfileDir} : ∀ {dirs : List (Option ProfileDir)},
    dirs.findSome? id = some dir → ∃ rest, (dirs.flatMap fun dir =>
      match dir with
      | none => []
      | some dir => dir.files) = dir.files ++ rest := by
  intro dirs
  induction dirs with
  | nil =>
    intro h
    cases h
  | cons d dirs ih =>
    intro h
    cases d with
    | none => exact ih h
    | some d =>
      cases h
      exact ⟨_, rfl⟩

/-- The directory the bundler compiles against is shipped whole. -/
theorem bundled_shipped {project : Project} {p : DeviceProfile} (h : p ∈ project.bundlerProfiles) :
    p ∈ project.shippedProfiles := by
  unfold Project.bundlerProfiles at h
  cases hdir : project.registryDir with
  | none => simp [hdir] at h
  | some dir =>
    simp only [hdir, List.mem_filterMap] at h
    obtain ⟨f, hf, hp⟩ := h
    have hyaml : f.isYaml = true := by
      unfold ProfileFile.listed at hp
      split at hp
      · next hyaml => exact hyaml
      · cases hp
    obtain ⟨rest, hfiles⟩ := firstDir_files hdir
    refine List.mem_filterMap.mpr ⟨f, ?_, hp⟩
    unfold Project.collectProfiles
    rw [List.mem_mergeSort, hfiles, List.foldl_append]
    apply addFiles_mem
    exact dir_shipped dir.distinct (fun _ _ _ hg => absurd hg List.not_mem_nil) f hf hyaml

/-! ## What is registered -/

def DeviceProfile.isSupported (p : DeviceProfile) : Prop :=
  p.protocolName = "simulated" ∨ p.protocolName = "upp"

def DeviceProfile.named (p : DeviceProfile) (typeName : String) : Prop :=
  eqIgnoreAsciiCase p.name typeName = true

theorem targetFb_name {p : DeviceProfile} {l : NativeFbLayout} (h : targetFb p = some l) :
    l.typeName = p.name ∧ p.isSupported := by
  unfold targetFb at h
  split at h
  · next hs =>
    cases h
    exact ⟨rfl, .inl hs⟩
  · split at h
    · next hu =>
      cases h
      exact ⟨rfl, .inr hu⟩
    · cases h

theorem targetFb_supported {p : DeviceProfile} (h : p.isSupported) : ∃ l, targetFb p = some l := by
  unfold targetFb
  by_cases hs : p.protocolName = "simulated"
  · exact ⟨_, if_pos hs⟩
  · rw [if_neg hs, if_pos (h.resolve_left hs)]
    exact ⟨_, rfl⟩

section

variable {project : Project} {listing : List ProfileFile} (hlisting : listing.Perm project.collectProfiles)

include hlisting

theorem listed_shipped (q : DeviceProfile) :
    q ∈ listing.filterMap ProfileFile.listed ↔ q ∈ project.shippedProfiles :=
  (hlisting.filterMap _).mem_iff

/-- The implementation that runs is that of a shipped profile of the name, when
there is one. -/
theorem findNative_shipped {typeName : String}
    (h : ∃ q ∈ project.shippedProfiles, q.isSupported ∧ q.named typeName) :
    ∃ q ∈ project.shippedProfiles, ∃ l, q.named typeName ∧ targetFb q = some l ∧
      findNative (targetRegistry listing) typeName = some l := by
  obtain ⟨p, hp, hsupported, hname⟩ := h
  obtain ⟨lp, hlp⟩ := targetFb_supported hsupported
  have hmem : lp ∈ (listing.filterMap ProfileFile.listed).filterMap targetFb :=
    List.mem_filterMap.mpr ⟨p, (listed_shipped hlisting p).mpr hp, hlp⟩
  have hsome : ∃ l, findNative ((listing.filterMap ProfileFile.listed).filterMap targetFb) typeName =
      some l := by
    rw [← Option.isSome_iff_exists, findNative, List.find?_isSome]
    exact ⟨lp, hmem, by rw [(targetFb_name hlp).1]; exact hname⟩
  obtain ⟨l, hl⟩ := hsome
  obtain ⟨q, hq, hlq⟩ := List.mem_filterMap.mp (List.mem_of_find?_eq_some hl)
  refine ⟨q, (listed_shipped hlisting q).mp hq, l, ?_, hlq, ?_⟩
  · have := List.find?_some hl
    rw [(targetFb_name hlq).1] at this
    exact this
  · unfold targetRegistry
    simp only
    split
    · rw [findNative, List.find?_append]
      unfold findNative at hl
      rw [hl]
      rfl
    · exact hl

/-- An implementation that is found is that of a shipped profile, or the serial
line. -/
theorem findNative_cases {typeName : String} {l : NativeFbLayout}
    (hl : findNative (targetRegistry listing) typeName = some l) :
    (∃ q ∈ project.shippedProfiles, q.named typeName ∧ targetFb q = some l) ∨
      (l = serialLinkLayout ∧ eqIgnoreAsciiCase serialLinkLayout.typeName typeName = true ∧
        ∃ q ∈ project.shippedProfiles, q.protocolName = "upp") := by
  have hname := List.find?_some hl
  have hmem := List.mem_of_find?_eq_some hl
  have hfb : l ∈ (listing.filterMap ProfileFile.listed).filterMap targetFb →
      ∃ q ∈ project.shippedProfiles, q.named typeName ∧ targetFb q = some l := by
    intro h
    obtain ⟨q, hq, hlq⟩ := List.mem_filterMap.mp h
    rw [(targetFb_name hlq).1] at hname
    exact ⟨q, (listed_shipped hlisting q).mp hq, hname, hlq⟩
  unfold targetRegistry at hmem
  simp only at hmem
  split at hmem
  · next hupp =>
    rcases List.mem_append.mp hmem with h | h
    · exact .inl (hfb h)
    · obtain rfl := List.mem_singleton.mp h
      obtain ⟨q, hq, hqupp⟩ := List.any_eq_true.mp hupp
      exact .inr ⟨rfl, hname, q, (listed_shipped hlisting q).mp hq, beq_iff_eq.mp hqupp⟩
  · exact .inl (hfb hmem)

/-- **The names registered on the target**: those of the shipped profiles with a
protocol the agent has, and the serial line when there is a pyrometer. -/
theorem registered_iff {typeName : String} :
    (∃ l, findNative (targetRegistry listing) typeName = some l) ↔
      (∃ q ∈ project.shippedProfiles, q.isSupported ∧ q.named typeName) ∨
      (eqIgnoreAsciiCase serialLinkLayout.typeName typeName = true ∧
        ∃ q ∈ project.shippedProfiles, q.protocolName = "upp") := by
  constructor
  · rintro ⟨l, hl⟩
    rcases findNative_cases hlisting hl with ⟨q, hq, hname, hlq⟩ | ⟨-, hname, hupp⟩
    · exact .inl ⟨q, hq, (targetFb_name hlq).2, hname⟩
    · exact .inr ⟨hname, hupp⟩
  · rintro (h | ⟨hname, q, hq, hupp⟩)
    · obtain ⟨_, _, l, _, _, hl⟩ := findNative_shipped hlisting h
      exact ⟨l, hl⟩
    · have hany : (listing.filterMap ProfileFile.listed).any (·.protocolName == "upp") = true :=
        List.any_eq_true.mpr ⟨q, (listed_shipped hlisting q).mpr hq, beq_iff_eq.mpr hupp⟩
      rw [← Option.isSome_iff_exists, findNative, List.find?_isSome]
      refine ⟨serialLinkLayout, ?_, hname⟩
      unfold targetRegistry
      simp only [hany, if_true]
      exact List.mem_append_right _ (List.mem_singleton.mpr rfl)

end

/-! ## Agreement -/

/-- The profile of a native type in the program that is compiled. -/
def Project.compiledProfile (project : Project) (typeName : String) : Option DeviceProfile :=
  project.bundlerProfiles.find? fun p => eqIgnoreAsciiCase p.name typeName

/-- Every implementation the target could take for the name is that of a
simulated device with the same fields. -/
def Unanimous (project : Project) (typeName : String) (p : DeviceProfile) : Prop :=
  ∀ q ∈ project.shippedProfiles, q.isSupported → q.named typeName →
    q.protocolName = "simulated" ∧ q.nativeFields = p.nativeFields

theorem upp_layout_ne (p q : DeviceProfile) :
    q.toUppDeviceLayout.fields ≠ p.toNativeFbLayout.fields := by
  intro h
  have := congrArg (fun fs => fs.head?.map NativeFbField.name) h
  simp [DeviceProfile.toUppDeviceLayout, DeviceProfile.toNativeFbLayout] at this

theorem native_layout_inj {p q : DeviceProfile} :
    q.toNativeFbLayout.fields = p.toNativeFbLayout.fields ↔ q.nativeFields = p.nativeFields := by
  simp [DeviceProfile.toNativeFbLayout]

theorem compiledProfile_layout {project : Project} {typeName : String} {p : DeviceProfile}
    (h : project.compiledProfile typeName = some p) :
    findNative project.bundlerRegistry typeName = some p.toNativeFbLayout ∧
      p ∈ project.shippedProfiles ∧ p.named typeName := by
  refine ⟨?_, bundled_shipped (List.mem_of_find?_eq_some h),
    List.find?_some (p := fun q : DeviceProfile => eqIgnoreAsciiCase q.name typeName) h⟩
  have hfind : findNative project.bundlerRegistry typeName =
      (project.bundlerProfiles.find? fun p => eqIgnoreAsciiCase p.name typeName).map
        DeviceProfile.toNativeFbLayout := List.find?_map ..
  rw [hfind]
  unfold Project.compiledProfile at h
  rw [h]
  rfl

theorem targetFb_fields {p q : DeviceProfile} {l : NativeFbLayout} (h : targetFb q = some l) :
    l.fields = p.toNativeFbLayout.fields ↔
      q.protocolName = "simulated" ∧ q.nativeFields = p.nativeFields := by
  unfold targetFb at h
  by_cases hs : q.protocolName = "simulated"
  · rw [if_pos hs] at h
    cases h
    rw [native_layout_inj]
    exact (and_iff_right hs).symm
  · rw [if_neg hs] at h
    split at h
    · cases h
      exact iff_of_false (upp_layout_ne p q) fun h => hs h.1
    · cases h

/-- Any file can be listed first. -/
theorem listed_first {files : List ProfileFile} {f : ProfileFile} (hf : f ∈ files) :
    (f :: files.erase f).Perm files := (List.perm_cons_erase hf).symm

/-- **The layout that runs is the one compiled against**, in whichever order the
target lists the files, exactly when there is an implementation and every
profile it could be taken from is a simulated device with the same fields. -/
theorem layouts_agree_iff {project : Project} {typeName : String} {p : DeviceProfile} :
    (∀ listing : List ProfileFile, listing.Perm project.collectProfiles →
      ∃ l, findNative (targetRegistry listing) typeName = some l ∧
        l.fields = p.toNativeFbLayout.fields) ↔
    (∃ q ∈ project.shippedProfiles, q.isSupported ∧ q.named typeName) ∧
      Unanimous project typeName p := by
  constructor
  · intro h
    refine ⟨?_, fun q hq hsupported hname => ?_⟩
    · obtain ⟨l, hl, hfields⟩ := h _ (List.Perm.refl _)
      rcases findNative_cases (List.Perm.refl _) hl with ⟨q, hq, hname, hlq⟩ | ⟨rfl, -, -⟩
      · exact ⟨q, hq, (targetFb_name hlq).2, hname⟩
      · have := congrArg (fun fs => fs.head?.map NativeFbField.name) hfields
        simp [serialLinkLayout, DeviceProfile.toNativeFbLayout] at this
    · obtain ⟨f, hf, hlisted⟩ := List.mem_filterMap.mp hq
      obtain ⟨lq, hlq⟩ := targetFb_supported hsupported
      obtain ⟨l, hl, hfields⟩ := h _ (listed_first hf)
      have hmatch : eqIgnoreAsciiCase lq.typeName typeName = true := by
        rw [(targetFb_name hlq).1]
        exact hname
      have hfirst : findNative (targetRegistry (f :: project.collectProfiles.erase f)) typeName =
          some lq := by
        unfold targetRegistry
        simp only [List.filterMap_cons, hlisted, hlq]
        split <;> exact List.find?_cons_of_pos hmatch
      obtain rfl : lq = l := Option.some.inj (hfirst.symm.trans hl)
      exact (targetFb_fields hlq).mp hfields
  · rintro ⟨hex, hall⟩ listing hlisting
    obtain ⟨q, hq, l, hname, hlq, hl⟩ := findNative_shipped hlisting hex
    exact ⟨l, hl, (targetFb_fields hlq).mpr (hall q hq (targetFb_name hlq).2 hname)⟩

/-- The slots of a type are given by its fields. -/
theorem layoutToMemoryLayout_congr {l l' : NativeFbLayout} (h : l.fields = l'.fields) (td : Nat) :
    layoutToMemoryLayout l td = layoutToMemoryLayout l' td := by
  rw [layoutToMemoryLayout, layoutToMemoryLayout, h]

/-- **Bundler and target agree** on the types of simulated devices and
pyrometers: each is registered, and a simulated device whose name no other
device contradicts has the fields and slots it was compiled with. -/
theorem bundled_type_registered {project : Project} {typeName : String} {p : DeviceProfile}
    {listing : List ProfileFile} (hcompiled : project.compiledProfile typeName = some p)
    (hsupported : p.isSupported) (hlisting : listing.Perm project.collectProfiles) :
    findNative project.bundlerRegistry typeName = some p.toNativeFbLayout ∧
      ∃ l, findNative (targetRegistry listing) typeName = some l ∧
        (Unanimous project typeName p → l.fields = p.toNativeFbLayout.fields ∧
          ∀ td, layoutToMemoryLayout l td = layoutToMemoryLayout p.toNativeFbLayout td) := by
  obtain ⟨hlayout, hshipped, hname⟩ := compiledProfile_layout hcompiled
  obtain ⟨l, hl⟩ := (registered_iff hlisting).mpr (.inl ⟨p, hshipped, hsupported, hname⟩)
  refine ⟨hlayout, l, hl, fun hall => ?_⟩
  obtain ⟨l', hl', hfields⟩ :=
    layouts_agree_iff.mpr ⟨⟨p, hshipped, hsupported, hname⟩, hall⟩ listing hlisting
  obtain rfl : l = l' := Option.some.inj (hl.symm.trans hl')
  exact ⟨hfields, layoutToMemoryLayout_congr hfields⟩

/-- A project with one device of the protocol. -/
def oneDevice (protocol : Option String) : Project where
  own := some ⟨[⟨"pump.yaml", some ⟨"Pump", protocol, []⟩⟩], List.nodup_singleton _⟩
  parents := []

theorem oneDevice_files (protocol : Option String) :
    (oneDevice protocol).collectProfiles = [⟨"pump.yaml", some ⟨"Pump", protocol, []⟩⟩] := by
  have hext : extension "pump.yaml" = some "yaml" := by decide
  simp [Project.collectProfiles, oneDevice, addFile, ProfileFile.isYaml, hext]

/-- A simulated pump is registered with the layout it was compiled with. -/
theorem simulated_pump_registered :
    findNative (oneDevice none).bundlerRegistry "PUMP" =
        some (DeviceProfile.toNativeFbLayout ⟨"Pump", none, []⟩) ∧
      ∃ l, findNative (targetRegistry (oneDevice none).collectProfiles) "PUMP" = some l ∧
        (Unanimous (oneDevice none) "PUMP" ⟨"Pump", none, []⟩ →
          l.fields = (DeviceProfile.toNativeFbLayout ⟨"Pump", none, []⟩).fields ∧
          ∀ td, layoutToMemoryLayout l td =
            layoutToMemoryLayout (DeviceProfile.toNativeFbLayout ⟨"Pump", none, []⟩) td) :=
  bundled_type_registered rfl (.inl rfl) (List.Perm.refl _)

/-- A Modbus device that is compiled against is not there on the target. -/
theorem modbus_pump_missing :
    ¬ ∀ (project : Project) (typeName : String) (compiled : NativeFbLayout) (listing : List ProfileFile),
      findNative project.bundlerRegistry typeName = some compiled →
      listing.Perm project.collectProfiles →
      ∃ l, findNative (targetRegistry listing) typeName = some l ∧ l.fields = compiled.fields := by
  intro h
  obtain ⟨l, hl, -⟩ := h (oneDevice (some "modbus-rtu")) "Pump" _ _ rfl (List.Perm.refl _)
  have hmissing : findNative (targetRegistry
      [⟨"pump.yaml", some ⟨"Pump", some "modbus-rtu", []⟩⟩]) "Pump" = none := rfl
  rw [oneDevice_files, hmissing] at hl
  cases hl

end RustPlc.Devices
