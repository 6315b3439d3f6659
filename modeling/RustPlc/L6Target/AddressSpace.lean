import RustPlc.L5Engine.Catalog

/-!
# The OPC-UA address space

`build_layout` makes a variable node of every entry of the catalog, and a folder
of every dotted prefix of its name. Folders and variables share one space of
node ids: the id is the dotted name.

Results:
* `buildLayout_built`: what the nodes are, by the names of the catalog;
* `layout_isTree_iff_separate`: when the layout is a tree, by these names;
* `addressSpace_isTree_iff`: the same by the module.
-/
namespace RustPlc.Target

open RustPlc.Ir RustPlc.Engine RustPlc.Syntax RustPlc.Compiler

/-! ## Dotted names -/

/-- `str::split('.')` -/
def splitDot : List Char → List (List Char)
  | [] => [[]]
  | c :: cs =>
    if c = '.' then [] :: splitDot cs
    else match splitDot cs with
      | [] => [[c]]
      | seg :: segs => (c :: seg) :: segs

/-- `join(".")` -/
def joinDot : List (List Char) → List Char
  | [] => []
  | [seg] => seg
  | seg :: segs => seg ++ '.' :: joinDot segs

theorem splitDot_ne_nil (cs : List Char) : splitDot cs ≠ [] := by
  cases cs with
  | nil => simp [splitDot]
  | cons c cs =>
    unfold splitDot
    split
    · simp
    · split <;> simp

theorem joinDot_cons {seg : List Char} {segs : List (List Char)} (h : segs ≠ []) :
    joinDot (seg :: segs) = seg ++ '.' :: joinDot segs := by
  cases segs with
  | nil => exact absurd rfl h
  | cons s ss => rfl

theorem joinDot_append {xs ys : List (List Char)} (hx : xs ≠ []) (hy : ys ≠ []) :
    joinDot (xs ++ ys) = joinDot xs ++ '.' :: joinDot ys := by
  induction xs with
  | nil => exact absurd rfl hx
  | cons seg segs ih =>
    rw [List.cons_append]
    by_cases hsegs : segs = []
    · subst hsegs
      exact joinDot_cons hy
    · rw [joinDot_cons (by simp [hsegs]), joinDot_cons hsegs, ih hsegs, List.append_assoc]
      rfl

theorem joinDot_splitDot (cs : List Char) : joinDot (splitDot cs) = cs := by
  induction cs with
  | nil => rfl
  | cons c cs ih =>
    unfold splitDot
    by_cases hc : c = '.'
    · rw [if_pos hc, joinDot_cons (splitDot_ne_nil cs), ih, hc]
      rfl
    · rw [if_neg hc]
      cases hs : splitDot cs with
      | nil => exact absurd hs (splitDot_ne_nil cs)
      | cons seg segs =>
        rw [hs] at ih
        simp only
        by_cases hsegs : segs = []
        · subst hsegs
          exact congrArg (c :: ·) ih
        · rw [joinDot_cons hsegs] at ih ⊢
          exact congrArg (c :: ·) ih

theorem splitDot_append (p rest : List Char) :
    splitDot (p ++ '.' :: rest) = splitDot p ++ splitDot rest := by
  induction p with
  | nil => simp [splitDot]
  | cons c p ih =>
    simp only [List.cons_append, splitDot]
    by_cases hc : c = '.'
    · rw [if_pos hc, if_pos hc, ih, List.cons_append]
    · rw [if_neg hc, if_neg hc, ih]
      cases hs : splitDot p with
      | nil => exact absurd hs (splitDot_ne_nil p)
      | cons seg segs => rfl

/-- `p` is the part of `name` before one of its dots. -/
def DotPrefix (p name : String) : Prop := ∃ rest, name.toList = p.toList ++ '.' :: rest

/-- The paths of the folders above a name, with the last segment of each.
mirrors crates/st-opcua-server/src/address_space.rs:113-121 -/
def folderPaths (name : String) : List (String × String) :=
  let segments := splitDot name.toList
  (List.range (segments.length - 1)).map fun i =>
    (String.ofList (joinDot (segments.take (i + 1))), String.ofList (segments.getD i []))

/-- The folders above a name are its dotted prefixes. -/
theorem mem_folderPaths {p name : String} :
    (∃ seg, (p, seg) ∈ folderPaths name) ↔ DotPrefix p name := by
  constructor
  · rintro ⟨seg, h⟩
    simp only [folderPaths, List.mem_map, List.mem_range, Prod.mk.injEq] at h
    obtain ⟨i, hi, rfl, -⟩ := h
    refine ⟨joinDot ((splitDot name.toList).drop (i + 1)), ?_⟩
    rw [String.toList_ofList, ← joinDot_append, List.take_append_drop, joinDot_splitDot]
    · intro h
      rw [List.take_eq_nil_iff] at h
      exact h.elim (by omega) (splitDot_ne_nil _)
    · rw [Ne, List.drop_eq_nil_iff]
      omega
  · rintro ⟨rest, h⟩
    have hsplit := splitDot_append p.toList rest
    rw [← h] at hsplit
    have hp : 0 < (splitDot p.toList).length := List.length_pos_of_ne_nil (splitDot_ne_nil _)
    have hrest : 0 < (splitDot rest).length := List.length_pos_of_ne_nil (splitDot_ne_nil _)
    have htake : (splitDot name.toList).take ((splitDot p.toList).length - 1 + 1) = splitDot p.toList := by
      rw [Nat.sub_add_cancel hp, hsplit, List.take_left]
    refine ⟨_, List.mem_map.mpr ⟨(splitDot p.toList).length - 1, ?_, Prod.ext ?_ rfl⟩⟩
    · rw [List.mem_range, hsplit, List.length_append]
      omega
    · simp only
      rw [htake, joinDot_splitDot, String.ofList_toList]

/-! ## The layout -/

structure NodeId where
  ns : UInt16
  name : String
  deriving DecidableEq, Repr

/-- A node of the PLC namespace. -/
def plcNode (name : String) : NodeId := ⟨2, name⟩

theorem plcNode_inj {a b : String} : plcNode a = plcNode b ↔ a = b := by simp [plcNode]

/-- mirrors crates/st-opcua-server/src/address_space.rs:57-79 -/
def plcRuntimeFolder : NodeId := plcNode "PLCRuntime"

def globalsFolder : NodeId := plcNode "Globals"

def programsFolder : NodeId := plcNode "Programs"

def statusNodeIds : List NodeId := [plcNode "_status", plcNode "_cycle_count", plcNode "_cycle_time_us"]

inductive DataTypeId where
  | boolean | sByte | int16 | int32 | int64 | byte | uint16 | uint32 | uint64 | float | double | string
  deriving DecidableEq, Repr

/-- mirrors crates/st-opcua-server/src/type_map.rs:12-33 -/
def iecTypeToOpcuaDataType (iecType : String) : DataTypeId :=
  let ty := toUppercase iecType
  if ty = "BOOL" then .boolean
  else if ty = "SINT" then .sByte
  else if ty = "INT" then .int16
  else if ty = "DINT" then .int32
  else if ty = "LINT" then .int64
  else if ty = "USINT" then .byte
  else if ty = "UINT" then .uint16
  else if ty = "UDINT" then .uint32
  else if ty = "ULINT" then .uint64
  else if ty = "REAL" then .float
  else if ty = "LREAL" then .double
  else if ty = "STRING" then .string
  else if ty = "TIME" then .int64
  else if ty = "BYTE" then .byte
  else if ty = "WORD" then .uint16
  else if ty = "DWORD" then .uint32
  else if ty = "LWORD" then .uint64
  else .string

/-- mirrors crates/st-opcua-server/src/address_space.rs:17-32 -/
structure VariableNodeInfo where
  nodeId : NodeId
  browseName : String
  displayName : String
  plcName : String
  iecType : String
  dataType : DataTypeId
  parentFolder : NodeId
  deriving DecidableEq, Repr

/-- mirrors crates/st-opcua-server/src/address_space.rs:36-43 -/
structure FolderNodeInfo where
  nodeId : NodeId
  name : String
  parent : NodeId
  deriving DecidableEq, Repr

/-- mirrors crates/st-opcua-server/src/address_space.rs:47-54 -/
structure AddressSpaceLayout where
  rootFolder : NodeId
  folders : List FolderNodeInfo
  variableNodes : List VariableNodeInfo
  deriving DecidableEq, Repr

/-- The folders above a name, from the outside in; `created` are the paths of the
folders there are, and what is returned last is the innermost folder.
mirrors crates/st-opcua-server/src/address_space.rs:112-129 -/
def addFolders : List (String × String) → List FolderNodeInfo → List String → NodeId →
    List FolderNodeInfo × List String × NodeId
  | [], folders, created, parent => (folders, created, parent)
  | (path, seg) :: paths, folders, created, parent =>
    if path ∈ created then addFolders paths folders created (plcNode path)
    else addFolders paths (folders ++ [⟨plcNode path, seg, parent⟩]) (created ++ [path]) (plcNode path)

/-- The nodes of one entry, which stands below the globals or the programs.
mirrors crates/st-opcua-server/src/address_space.rs:106-155 -/
def addEntry (layout : AddressSpaceLayout × List String) (entry : CatalogVariable) :
    AddressSpaceLayout × List String :=
  let (space, created) := layout
  if '.' ∈ entry.name.toList then
    let (folders, created, parent) :=
      addFolders (folderPaths entry.name) space.folders created programsFolder
    let leaf := String.ofList ((splitDot entry.name.toList).getLast?.getD [])
    ({ space with
        folders := folders
        variableNodes := space.variableNodes ++ [⟨plcNode entry.name, leaf, leaf, entry.name, entry.ty,
          iecTypeToOpcuaDataType entry.ty, parent⟩] }, created)
  else
    ({ space with
        variableNodes := space.variableNodes ++ [⟨plcNode entry.name, entry.name, entry.name, entry.name,
          entry.ty, iecTypeToOpcuaDataType entry.ty, globalsFolder⟩] }, created)

def emptyLayout : AddressSpaceLayout where
  rootFolder := plcRuntimeFolder
  folders := [⟨globalsFolder, "Globals", plcRuntimeFolder⟩, ⟨programsFolder, "Programs", plcRuntimeFolder⟩]
  variableNodes := []

/-- mirrors crates/st-opcua-server/src/address_space.rs:87-163 -/
def buildLayout (catalog : List CatalogVariable) : AddressSpaceLayout :=
  (catalog.foldl addEntry (emptyLayout, ["Globals", "Programs"])).1

/-! ## The nodes -/

def AddressSpaceLayout.folderIds (l : AddressSpaceLayout) : List NodeId := l.folders.map (·.nodeId)

/-- A node that can be a parent: the root, or a folder of the layout. -/
def AddressSpaceLayout.IsFolder (l : AddressSpaceLayout) (id : NodeId) : Prop :=
  id = l.rootFolder ∨ id ∈ l.folderIds

/-- What has been built of the entries with these names. -/
structure Built (names : List String) (layout : AddressSpaceLayout × List String) : Prop where
  root : layout.1.rootFolder = plcRuntimeFolder
  created : layout.1.folderIds = layout.2.map plcNode
  nodup : layout.2.Nodup
  fixed : "Globals" ∈ layout.2 ∧ "Programs" ∈ layout.2
  paths : ∀ p, p ∈ layout.2 ↔ p ∈ ["Globals", "Programs"] ∨ ∃ n ∈ names, DotPrefix p n
  ids : layout.1.variableNodes.map (·.nodeId) = names.map plcNode
  plcNames : layout.1.variableNodes.map (·.plcName) = names
  folderParents : ∀ f ∈ layout.1.folders, layout.1.IsFolder f.parent
  variableParents : ∀ v ∈ layout.1.variableNodes, v.parentFolder ∈ layout.1.folderIds

/-- What is left of the folders when those above a name have been added. -/
structure FoldersAdded (paths : List (String × String)) (folders : List FolderNodeInfo)
    (created : List String) (r : List FolderNodeInfo × List String × NodeId) : Prop where
  ids : r.1.map (·.nodeId) = r.2.1.map plcNode
  nodup : r.2.1.Nodup
  paths : ∀ p, p ∈ r.2.1 ↔ p ∈ created ∨ ∃ seg, (p, seg) ∈ paths
  parent : r.2.2 ∈ r.1.map (·.nodeId)
  keep : folders ⊆ r.1
  parents : ∀ f ∈ r.1, f ∈ folders ∨ f.parent ∈ r.1.map (·.nodeId)

theorem addFolders_added (paths : List (String × String)) : ∀ {folders : List FolderNodeInfo}
    {created : List String} {parent : NodeId}, folders.map (·.nodeId) = created.map plcNode →
      created.Nodup → parent ∈ folders.map (·.nodeId) →
      FoldersAdded paths folders created (addFolders paths folders created parent) := by
  induction paths with
  | nil =>
    intro folders created parent hc hn hp
    exact ⟨hc, hn, by simp [addFolders], hp, List.Subset.refl _, fun f hf => .inl hf⟩
  | cons path paths ih =>
    obtain ⟨path, seg⟩ := path
    intro folders created parent hc hn hp
    unfold addFolders
    by_cases hin : path ∈ created
    · rw [if_pos hin]
      have hpath : plcNode path ∈ folders.map (·.nodeId) := by
        rw [hc]
        exact List.mem_map_of_mem hin
      have h := ih hc hn hpath
      refine ⟨h.ids, h.nodup, fun p => ?_, h.parent, h.keep, h.parents⟩
      rw [h.paths]
      simp only [List.mem_cons, Prod.mk.injEq]
      constructor
      · rintro (h | ⟨s, h⟩)
        · exact .inl h
        · exact .inr ⟨s, .inr h⟩
      · rintro (h | ⟨s, ⟨rfl, -⟩ | h⟩)
        · exact .inl h
        · exact .inl hin
        · exact .inr ⟨s, h⟩
    · rw [if_neg hin]
      have hc' : (folders ++ [(⟨plcNode path, seg, parent⟩ : FolderNodeInfo)]).map (·.nodeId) =
          (created ++ [path]).map plcNode := by simp [hc]
      have hp' : plcNode path ∈
          (folders ++ [(⟨plcNode path, seg, parent⟩ : FolderNodeInfo)]).map (·.nodeId) := by simp
      have hn' : (created ++ [path]).Nodup :=
        List.nodup_append.mpr ⟨hn, List.nodup_singleton _, by
          intro a ha b hb heq
          rw [List.mem_singleton.mp hb] at heq
          exact hin (heq ▸ ha)⟩
      have h := ih hc' hn' hp'
      refine ⟨h.ids, h.nodup, fun p => ?_, h.parent,
        List.Subset.trans (List.subset_append_left _ _) h.keep, fun f hf => ?_⟩
      · rw [h.paths]
        simp only [List.mem_append, List.mem_cons, List.not_mem_nil, or_false, Prod.mk.injEq]
        constructor
        · rintro ((h | rfl) | ⟨s, h⟩)
          · exact .inl h
          · exact .inr ⟨seg, .inl ⟨rfl, rfl⟩⟩
          · exact .inr ⟨s, .inr h⟩
        · rintro (h | ⟨s, ⟨rfl, -⟩ | h⟩)
          · exact .inl (.inl h)
          · exact .inl (.inr rfl)
          · exact .inr ⟨s, h⟩
      · rcases h.parents f hf with hold | hparent
        · rcases List.mem_append.mp hold with hold | hnew
          · exact .inl hold
          · obtain rfl := List.mem_singleton.mp hnew
            refine .inr ?_
            obtain ⟨g, hg, rfl⟩ := List.mem_map.mp hp
            exact List.mem_map_of_mem (h.keep (List.mem_append_left _ hg))
        · exact .inr hparent

/-! ## One entry after the other -/

theorem built_empty : Built [] (emptyLayout, ["Globals", "Programs"]) where
  root := rfl
  created := rfl
  nodup := by decide
  fixed := by decide
  paths := by simp
  ids := rfl
  plcNames := rfl
  folderParents := by
    intro f hf
    simp only [emptyLayout, List.mem_cons, List.not_mem_nil, or_false] at hf
    rcases hf with rfl | rfl <;> exact .inl rfl
  variableParents := fun v hv => absurd hv List.not_mem_nil

theorem not_dotPrefix {p name : String} (h : '.' ∉ name.toList) : ¬ DotPrefix p name := by
  rintro ⟨rest, hr⟩
  exact h (hr ▸ by simp)

theorem addEntry_built {names : List String} {layout : AddressSpaceLayout × List String}
    (h : Built names layout) (entry : CatalogVariable) :
    Built (names ++ [entry.name]) (addEntry layout entry) := by
  obtain ⟨space, created⟩ := layout
  unfold addEntry
  simp only
  by_cases hdot : '.' ∈ entry.name.toList
  · rw [if_pos hdot]
    have hprograms : programsFolder ∈ space.folders.map (·.nodeId) := by
      have := h.created
      unfold AddressSpaceLayout.folderIds at this
      rw [this]
      exact List.mem_map_of_mem h.fixed.2
    have hadded := addFolders_added (folderPaths entry.name) h.created h.nodup hprograms
    generalize addFolders (folderPaths entry.name) space.folders created programsFolder = r at hadded
    obtain ⟨folders, created', parent⟩ := r
    have hsub : ∀ id ∈ space.folderIds, id ∈ folders.map (·.nodeId) := fun id hid =>
      List.map_subset _ hadded.keep hid
    refine ⟨h.root, hadded.ids, hadded.nodup, ⟨?_, ?_⟩, fun p => ?_, ?_, ?_, fun f hf => ?_, ?_⟩
    · exact (hadded.paths _).mpr (.inl h.fixed.1)
    · exact (hadded.paths _).mpr (.inl h.fixed.2)
    · rw [hadded.paths, h.paths, mem_folderPaths]
      simp only [List.mem_append, List.mem_singleton, or_and_right, exists_or, exists_eq_left]
      exact or_assoc
    · simp [h.ids]
    · simp [h.plcNames]
    · rcases hadded.parents f hf with hold | hparent
      · exact (h.folderParents f hold).imp id (hsub _)
      · exact .inr hparent
    · intro v hv
      rcases List.mem_append.mp hv with hold | hnew
      · exact hsub _ (h.variableParents v hold)
      · obtain rfl := List.mem_singleton.mp hnew
        exact hadded.parent
  · rw [if_neg hdot]
    refine ⟨h.root, h.created, h.nodup, h.fixed, fun p => ?_, ?_, ?_, h.folderParents, ?_⟩
    · rw [h.paths]
      simp [or_and_right, exists_or, not_dotPrefix hdot]
    · simp [h.ids]
    · simp [h.plcNames]
    · intro v hv
      rcases List.mem_append.mp hv with hold | hnew
      · exact h.variableParents v hold
      · obtain rfl := List.mem_singleton.mp hnew
        rw [AddressSpaceLayout.folderIds]
        have := h.created
        rw [AddressSpaceLayout.folderIds] at this
        rw [this]
        exact List.mem_map_of_mem h.fixed.1

/-- **The nodes of a layout**, by the names of the catalog. -/
theorem buildLayout_built (catalog : List CatalogVariable) :
    ∃ created, Built (catalogNames catalog) (buildLayout catalog, created) := by
  have hfold : ∀ (entries : List CatalogVariable) (names : List String)
      (layout : AddressSpaceLayout × List String), Built names layout →
      Built (names ++ catalogNames entries) (entries.foldl addEntry layout) := by
    intro entries
    induction entries with
    | nil =>
      intro names layout h
      simpa [catalogNames] using h
    | cons entry entries ih =>
      intro names layout h
      have := ih _ _ (addEntry_built h entry)
      simpa [catalogNames] using this
  exact ⟨_, hfold catalog [] _ built_empty⟩

/-! ## Trees -/

/-- The fixed root and status nodes. -/
def fixedIds : List NodeId := plcRuntimeFolder :: statusNodeIds

/-- The node ids of the server: the fixed ones, folders and variables. -/
def AddressSpaceLayout.nodeIds (l : AddressSpaceLayout) : List NodeId :=
  fixedIds ++ l.folderIds ++ l.variableNodes.map (·.nodeId)

/-- A tree: the ids differ, the parents are there, and every entry has one
variable node. -/
structure AddressSpaceLayout.IsTree (l : AddressSpaceLayout) (catalog : List CatalogVariable) :
    Prop where
  ids : l.nodeIds.Nodup
  folderParents : ∀ f ∈ l.folders, l.IsFolder f.parent
  variableParents : ∀ v ∈ l.variableNodes, l.IsFolder v.parentFolder
  entries : ∀ e ∈ catalog, (l.variableNodes.map (·.plcName)).count e.name = 1

/-- Names that do not meet as node ids: none twice, none of a fixed node or folder,
and none the dotted prefix of another. -/
structure Separate (names : List String) : Prop where
  nodup : names.Nodup
  fixed : ∀ n ∈ names,
    n ∉ ["PLCRuntime", "_status", "_cycle_count", "_cycle_time_us", "Globals", "Programs"]
  prefixes : ∀ n ∈ names, ∀ p, DotPrefix p n →
    p ∉ names ∧ p ∉ ["PLCRuntime", "_status", "_cycle_count", "_cycle_time_us"]

/-- **When a layout is a tree**, by the names of the catalog. -/
theorem layout_isTree_iff_separate (catalog : List CatalogVariable) :
    (buildLayout catalog).IsTree catalog ↔ Separate (catalogNames catalog) := by
  obtain ⟨created, h⟩ := buildLayout_built catalog
  have hids : (buildLayout catalog).nodeIds =
      (["PLCRuntime", "_status", "_cycle_count", "_cycle_time_us"] ++ created ++
        catalogNames catalog).map plcNode := by
    unfold AddressSpaceLayout.nodeIds
    rw [h.created, h.ids, List.map_append, List.map_append]
    rfl
  have hinj : Function.Injective plcNode := fun a b hab => plcNode_inj.mp hab
  have hnodup : (buildLayout catalog).nodeIds.Nodup ↔
      (["PLCRuntime", "_status", "_cycle_count", "_cycle_time_us"] ++ created ++
        catalogNames catalog).Nodup := by
    rw [hids, List.nodup_map_iff hinj]
  constructor
  · intro ht
    have hall := hnodup.mp ht.ids
    obtain ⟨hleft, hnames, hdisjoint⟩ := List.nodup_append.mp hall
    obtain ⟨-, -, hfixed⟩ := List.nodup_append.mp hleft
    refine ⟨hnames, fun n hn hmem => ?_, fun n hn p hp => ?_⟩
    · simp only [List.mem_cons, List.not_mem_nil, or_false] at hmem
      rcases hmem with rfl | rfl | rfl | rfl | rfl | rfl
      · exact hdisjoint _ (List.mem_append_left _ (by simp)) _ hn rfl
      · exact hdisjoint _ (List.mem_append_left _ (by simp)) _ hn rfl
      · exact hdisjoint _ (List.mem_append_left _ (by simp)) _ hn rfl
      · exact hdisjoint _ (List.mem_append_left _ (by simp)) _ hn rfl
      · exact hdisjoint _ (List.mem_append_right _ h.fixed.1) _ hn rfl
      · exact hdisjoint _ (List.mem_append_right _ h.fixed.2) _ hn rfl
    · have hcreated : p ∈ created := (h.paths p).mpr (.inr ⟨n, hn, hp⟩)
      exact ⟨fun hin => hdisjoint p (List.mem_append_right _ hcreated) p hin rfl,
        fun hin => hfixed p hin p hcreated rfl⟩
  · intro hs
    refine ⟨hnodup.mpr ?_, h.folderParents, fun v hv => .inr (h.variableParents v hv), fun e he => ?_⟩
    · refine List.nodup_append.mpr ⟨List.nodup_append.mpr ⟨by decide, h.nodup, ?_⟩, hs.nodup, ?_⟩
      · rintro a ha b hb rfl
        rcases (h.paths a).mp hb with hroot | ⟨n, hn, hp⟩
        · exact absurd hroot (by
            simp only [List.mem_cons, List.not_mem_nil, or_false] at ha
            rcases ha with rfl | rfl | rfl | rfl <;> decide)
        · exact (hs.prefixes n hn a hp).2 ha
      · rintro a ha b hb rfl
        rcases List.mem_append.mp ha with hfixed | hcreated
        · exact hs.fixed a hb (List.mem_append_left ["Globals", "Programs"] hfixed)
        · rcases (h.paths a).mp hcreated with hroot | ⟨n, hn, hp⟩
          · exact hs.fixed a hb (List.mem_append_right
              ["PLCRuntime", "_status", "_cycle_count", "_cycle_time_us"] hroot)
          · exact (hs.prefixes n hn a hp).1 hb
    · rw [h.plcNames]
      exact List.count_eq_one_of_mem hs.nodup (List.mem_map_of_mem he)

/-! ## Modules -/

theorem dotPrefix_member (path name : String) : DotPrefix path (member path name) :=
  ⟨name.toList, by simp [member]⟩

/-- **When the address space of a module is a tree**: no program has a variable
but class instances, and the globals and programs have names that do not meet.
Any other variable makes a folder with the id of its program's own node. -/
theorem addressSpace_isTree_iff (m : Module) :
    (∃ fuel catalog, monitorableCatalog fuel m = some catalog ∧ (buildLayout catalog).IsTree catalog) ↔
      OnlyClassVariables m ∧ Separate (ownNames m) := by
  constructor
  · rintro ⟨fuel, catalog, hcatalog, htree⟩
    have hs := (layout_isTree_iff_separate catalog).mp htree
    have hclass : OnlyClassVariables m := by
      intro func hfunc hkind slot hslot
      by_contra hother
      obtain ⟨hprogram, hslots⟩ := catalog_entries hcatalog hfunc hkind
      have hmember := hslots slot hslot fun i hi => hother ⟨i, hi⟩
      exact (hs.prefixes _ hmember func.name (dotPrefix_member _ _)).1 hprogram
    obtain ⟨catalog', hcatalog', hnames⟩ := catalog_of_classes fuel hclass
    obtain rfl : catalog = catalog' := Option.some.inj (hcatalog.symm.trans hcatalog')
    exact ⟨hclass, hnames ▸ hs⟩
  · rintro ⟨hclass, hs⟩
    obtain ⟨catalog, hcatalog, hnames⟩ := catalog_of_classes 0 hclass
    exact ⟨0, catalog, hcatalog, (layout_isTree_iff_separate catalog).mpr (hnames ▸ hs)⟩

/-- A program with one variable. -/
def counterSource : SourceFile := ⟨[
  .program ⟨"Main", [.of [.plain "counter" .int]], []⟩]⟩

/-- The program is a variable node and a folder of the same id. -/
theorem program_node_twice :
    ¬ ∀ (_ : F64Ops) (source : SourceFile) (m : Module) (fuel : Nat) (catalog : List CatalogVariable),
      compile source = .ok m → monitorableCatalog fuel m = some catalog →
        (buildLayout catalog).IsTree catalog := by
  intro h
  have hrun : @yields default counterSource (fun m =>
      match monitorableCatalog 1 m with
      | some catalog => !decide (buildLayout catalog).nodeIds.Nodup
      | none => false) = true := by
    decide +kernel
  obtain ⟨m, hm, hp⟩ := (@yields_iff default _ _).mp hrun
  split at hp
  · next catalog hcatalog =>
    have htree := h default counterSource m 1 catalog hm hcatalog
    simp [htree.ids] at hp
  · cases hp

end RustPlc.Target
