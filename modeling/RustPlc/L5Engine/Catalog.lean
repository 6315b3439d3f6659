import RustPlc.L5Engine.ForceSound

/-!
# The catalog of monitorable variables

`Vm::monitorable_catalog` lists the globals and, for every program, the program
itself, its variables and the parts of the function blocks, structs and arrays
among them, with names and types but without values.

The walk through nested function blocks does not end when a type contains
itself; `fuel` bounds the depth, and `none` is a walk that needs more, or that
finds a function index outside the module.

Results:
* `catalog_entries`: each program and each of its variables that is not a class
  instance has an entry;
* `catalog_of_classes`: programs without other variables have only their own.
-/
namespace RustPlc.Engine

open RustPlc.Ir

/-- mirrors crates/st-engine/src/debug.rs:358-364 -/
structure CatalogVariable where
  name : String
  ty : String
  retain : Bool
  persistent : Bool
  deriving DecidableEq, Repr

/-- mirrors crates/st-engine/src/debug.rs:424-439 -/
def formatVarTypeFull (ty : VarType) (width : IntWidth) (typeDefs : List TypeDef) : String :=
  match ty with
  | .array td => match typeDefs[td.toNat]? with
    | some (.array elementType dimensions) =>
      "ARRAY[" ++ String.intercalate ", " (dimensions.map fun d =>
        toString d.1.toInt ++ ".." ++ toString d.2.toInt) ++ "] OF " ++ formatVarType elementType
    | _ => formatVarTypeWithWidth ty width
  | _ => formatVarTypeWithWidth ty width

/-- `{path}.{name}` -/
def member (path name : String) : String := path ++ "." ++ name

/-- mirrors crates/st-engine/src/vm.rs:501-509 -/
def structTypeFields (m : Module) (td : UInt16) : Option (String × List VarSlot) :=
  match m.typeDefs[td.toNat]? with
  | some (.struct name fields) => some (name, fields)
  | _ => none

/-- mirrors crates/st-engine/src/vm.rs:513-524, without the number of elements -/
def arrayTypeInfo (m : Module) (td : UInt16) : Option (VarType × List (Int64 × Int64)) :=
  match m.typeDefs[td.toNat]? with
  | some (.array elementType dimensions) => some (elementType, dimensions)
  | _ => none

/-- The numbers from `lo` to `hi`. -/
def rangeInclusive (lo hi : Int64) : List Int :=
  (List.range (hi.toInt - lo.toInt + 1).toNat).map fun k => lo.toInt + k

/-- mirrors crates/st-engine/src/vm.rs:712-735 -/
def catalogArrayElements (m : Module) (td : UInt16) (path : String) (retain persistent : Bool) :
    List CatalogVariable :=
  match arrayTypeInfo m td with
  | some (elementType, [(lo, hi)]) => (rangeInclusive lo hi).map fun idx =>
    ⟨path ++ "[" ++ toString idx ++ "]", formatVarType elementType, retain, persistent⟩
  | _ => []

/-- mirrors crates/st-engine/src/vm.rs:738-757 -/
def catalogStructFields (m : Module) (td : UInt16) (path : String) (retain persistent : Bool) :
    List CatalogVariable :=
  match structTypeFields m td with
  | some (_, fields) => fields.map fun field =>
    ⟨member path field.name, formatVarTypeWithWidth field.ty field.intWidth, retain, persistent⟩
  | none => []

/-- mirrors crates/st-engine/src/vm.rs:845-889 -/
def catalogFbFields (m : Module) : Nat → UInt16 → String → Bool → Bool → Option (List CatalogVariable)
  | 0, _, _, _, _ => none
  | fuel + 1, fb, path, retain, persistent => do
    let func ← m.functions[fb.toNat]?
    let entries ← func.locals.slots.mapM fun slot =>
      match slot.ty with
      | .fbInstance nested => do
        let nestedFunc ← m.functions[nested.toNat]?
        let inner ← catalogFbFields m fuel nested (member path slot.name) retain persistent
        return ⟨member path slot.name, nestedFunc.name, retain, persistent⟩ :: inner
      | .classInstance _ => some []
      | _ => some [⟨member path slot.name, formatVarTypeWithWidth slot.ty slot.intWidth, retain,
        persistent⟩]
    return entries.flatten

/-- A variable of a program. -/
def catalogSlot (m : Module) (fuel : Nat) (program : String) (slot : VarSlot) :
    Option (List CatalogVariable) :=
  let path := member program slot.name
  match slot.ty with
  | .fbInstance fb => do
    let func ← m.functions[fb.toNat]?
    let inner ← catalogFbFields m fuel fb path slot.retain slot.persistent
    return ⟨path, func.name, slot.retain, slot.persistent⟩ :: inner
  | .classInstance _ => some []
  | .struct td =>
    some (⟨path, ((structTypeFields m td).map (·.1)).getD "STRUCT", slot.retain, slot.persistent⟩ ::
      catalogStructFields m td path slot.retain slot.persistent)
  | .array td =>
    some (⟨path, formatVarTypeFull slot.ty slot.intWidth m.typeDefs, slot.retain, slot.persistent⟩ ::
      catalogArrayElements m td path slot.retain slot.persistent)
  | _ => some [⟨path, formatVarTypeWithWidth slot.ty slot.intWidth, slot.retain, slot.persistent⟩]

/-- A program and its variables. -/
def catalogProgram (m : Module) (fuel : Nat) (func : Function) : Option (List CatalogVariable) :=
  if func.kind ≠ .program then some []
  else do
    let entries ← func.locals.slots.mapM (catalogSlot m fuel func.name)
    return ⟨func.name, "PROGRAM", false, false⟩ :: entries.flatten

/-- mirrors crates/st-engine/src/vm.rs:609-709 -/
def monitorableCatalog (fuel : Nat) (m : Module) : Option (List CatalogVariable) := do
  let programs ← m.functions.mapM (catalogProgram m fuel)
  return (m.globals.slots.map fun slot =>
    ⟨slot.name, formatVarTypeWithWidth slot.ty slot.intWidth, slot.retain, slot.persistent⟩) ++
      programs.flatten

/-! ## Entries -/

/-- What `mapM` gives for an element. -/
theorem mapM_some_mem {α β : Type} {f : α → Option β} : ∀ {xs : List α} {ys : List β},
    xs.mapM f = some ys → ∀ x ∈ xs, ∃ y ∈ ys, f x = some y := by
  intro xs
  induction xs with
  | nil =>
    intro ys _ x hx
    cases hx
  | cons x xs ih =>
    intro ys h z hz
    simp only [List.mapM_cons, Option.bind_eq_bind, Option.bind_eq_some_iff, Option.pure_def,
      Option.some.injEq] at h
    obtain ⟨y, hy, rest, hrest, rfl⟩ := h
    rcases List.mem_cons.mp hz with rfl | hz
    · exact ⟨y, List.mem_cons_self, hy⟩
    · obtain ⟨y', hy', hf⟩ := ih hrest z hz
      exact ⟨y', List.mem_cons_of_mem y hy', hf⟩

theorem mapM_some_of {α β : Type} {f : α → Option β} {g : α → β} : ∀ {xs : List α},
    (∀ x ∈ xs, f x = some (g x)) → xs.mapM f = some (xs.map g) := by
  intro xs
  induction xs with
  | nil => exact fun _ => rfl
  | cons x xs ih =>
    intro h
    rw [List.mapM_cons, h x List.mem_cons_self, ih fun y hy => h y (List.mem_cons_of_mem x hy)]
    rfl

/-- The names of a catalog. -/
def catalogNames (catalog : List CatalogVariable) : List String := catalog.map (·.name)

theorem catalogSlot_name {m : Module} {fuel : Nat} {program : String} {slot : VarSlot}
    {entries : List CatalogVariable} (h : catalogSlot m fuel program slot = some entries)
    (hty : ∀ i, slot.ty ≠ .classInstance i) :
    ∃ e ∈ entries, e.name = member program slot.name := by
  unfold catalogSlot at h
  split at h
  · simp only [Option.bind_eq_bind, Option.bind_eq_some_iff, Option.pure_def, Option.some.injEq] at h
    obtain ⟨func, -, inner, -, rfl⟩ := h
    exact ⟨_, List.mem_cons_self, rfl⟩
  · next i hclass => exact absurd hclass (hty i)
  · cases h
    exact ⟨_, List.mem_cons_self, rfl⟩
  · cases h
    exact ⟨_, List.mem_cons_self, rfl⟩
  · cases h
    exact ⟨_, List.mem_singleton.mpr rfl, rfl⟩

/-- The entries of a program and of its variables. -/
theorem catalog_entries {m : Module} {fuel : Nat} {catalog : List CatalogVariable}
    (h : monitorableCatalog fuel m = some catalog) {func : Function} (hfunc : func ∈ m.functions)
    (hkind : func.kind = .program) :
    func.name ∈ catalogNames catalog ∧ ∀ slot ∈ func.locals.slots,
      (∀ i, slot.ty ≠ .classInstance i) → member func.name slot.name ∈ catalogNames catalog := by
  simp only [monitorableCatalog, Option.bind_eq_bind, Option.bind_eq_some_iff, Option.pure_def,
    Option.some.injEq] at h
  obtain ⟨programs, hprograms, rfl⟩ := h
  obtain ⟨entries, hmem, hentries⟩ := mapM_some_mem hprograms func hfunc
  have hin : ∀ e ∈ entries, e.name ∈ catalogNames ((m.globals.slots.map fun slot =>
      CatalogVariable.mk slot.name (formatVarTypeWithWidth slot.ty slot.intWidth) slot.retain
        slot.persistent) ++ programs.flatten) := by
    intro e he
    apply List.mem_map_of_mem
    exact List.mem_append_right _ (List.mem_flatten.mpr ⟨entries, hmem, he⟩)
  unfold catalogProgram at hentries
  rw [if_neg (not_not.mpr hkind)] at hentries
  simp only [Option.bind_eq_bind, Option.bind_eq_some_iff, Option.pure_def,
    Option.some.injEq] at hentries
  obtain ⟨slots, hslots, rfl⟩ := hentries
  refine ⟨hin _ List.mem_cons_self, fun slot hslot hty => ?_⟩
  obtain ⟨own, hown, hslotEntries⟩ := mapM_some_mem hslots slot hslot
  obtain ⟨e, he, hname⟩ := catalogSlot_name hslotEntries hty
  rw [← hname]
  exact hin e (List.mem_cons_of_mem _ (List.mem_flatten.mpr ⟨own, hown, he⟩))

/-- The names of the globals and of the programs. -/
def ownNames (m : Module) : List String :=
  m.globals.slots.map (·.name) ++ (m.functions.filter (·.kind = .program)).map (·.name)

/-- No program has a variable but instances of classes. -/
def OnlyClassVariables (m : Module) : Prop :=
  ∀ func ∈ m.functions, func.kind = .program → ∀ slot ∈ func.locals.slots,
    ∃ i, slot.ty = .classInstance i

theorem catalogProgram_of_classes {m : Module} (fuel : Nat) {func : Function}
    (h : func.kind = .program → ∀ slot ∈ func.locals.slots, ∃ i, slot.ty = .classInstance i) :
    catalogProgram m fuel func = some (if func.kind = .program then
      [⟨func.name, "PROGRAM", false, false⟩] else []) := by
  unfold catalogProgram
  by_cases hkind : func.kind = .program
  · rw [if_neg (not_not.mpr hkind), if_pos hkind]
    have hslots : func.locals.slots.mapM (catalogSlot m fuel func.name) =
        some (func.locals.slots.map fun _ => []) := by
      refine mapM_some_of fun slot hslot => ?_
      obtain ⟨i, hi⟩ := h hkind slot hslot
      simp [catalogSlot, hi]
    rw [hslots]
    simp
  · rw [if_pos hkind, if_neg hkind]

/-- Programs with only instances of classes add only themselves. -/
theorem catalog_of_classes {m : Module} (fuel : Nat) (h : OnlyClassVariables m) :
    ∃ catalog, monitorableCatalog fuel m = some catalog ∧ catalogNames catalog = ownNames m := by
  have hprograms := mapM_some_of fun func hfunc => catalogProgram_of_classes (m := m) fuel (h func hfunc)
  refine ⟨_, by rw [monitorableCatalog, hprograms]; rfl, ?_⟩
  rw [catalogNames, ownNames, List.map_append, List.map_map]
  congr 1
  induction m.functions with
  | nil => rfl
  | cons func functions ih =>
    by_cases hkind : func.kind = .program
    · simp only [List.map_cons, List.flatten_cons, List.map_append, List.filter_cons, hkind, if_true,
        ih, decide_true]
      rfl
    · simp only [List.map_cons, List.flatten_cons, List.filter_cons, hkind, if_false, ih, decide_false,
        List.nil_append]
      rfl

end RustPlc.Engine
