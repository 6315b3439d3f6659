import RustPlc.L5Engine.Catalog

/-!
# What the monitor shows

`Vm::monitorable_variables` lists the globals and, for every program that has run,
its variables and the parts of the function blocks, structs and arrays among them,
with the current values. It walks the same layouts as the catalog with code of its
own.

A line names the place where its value is kept; the places depend on the module
and on which programs have run, the values are read when the lines are formatted.
As in `Catalog`, `fuel` bounds the nesting of function blocks, and the retained
locals are visited in the order of the functions of the module.

Results:
* `snapshot_congr`: machines with the same module and the same programs that have run
  show the same lines;
* `force_read`: a force changes the value at its target and nothing else.
-/
namespace RustPlc.Engine

open RustPlc.Ir

/-- Where a value is kept between cycles. -/
inductive Place where
  | global (i : Nat)
  | retained (program : UInt16) (j : Nat)
  | field (key : InstanceKey) (i : Nat)
  deriving DecidableEq

/-- `globals.get(i)`, `locals.get(i)`, `fb_instances.get(key).and_then(|s| s.get(i))` -/
def Place.read (vm : Vm) : Place → Option Value
  | .global i => vm.globals[i]?
  | .retained p j => (Finmap.lookup p vm.retainedLocals).bind (·[j]?)
  | .field key i => (Finmap.lookup key vm.fbInstances).bind (·[i]?)

/-- A line of the monitor. `source` is the place of its value and what is shown when
nothing is there; what has parts has none. -/
structure Line where
  name : String
  source : Option (Place × Value)
  ty : String
  retain : Bool
  persistent : Bool

/-- The value of a line: `place.cloned().unwrap_or(d)`. -/
def Line.value (vm : Vm) (line : Line) : Option Value :=
  line.source.map fun (p, d) => (p.read vm).getD d

/-- `value: debug::format_value(&value)`, or the empty string -/
def Line.info (fixed6 : F64 → String) (vm : Vm) (line : Line) : VariableInfo where
  name := line.name
  value := ((line.value vm).map (formatValue fixed6)).getD ""
  ty := line.ty
  retain := line.retain
  persistent := line.persistent

/-- `((slot as u32) << 16) | (func as u32)`: the identity of the frame that runs an
instance. -/
def instanceIdentity (slot : Nat) (fb : UInt16) : UInt32 := slot.toUInt32 <<< 16 ||| fb.toUInt32

section

variable (m : Module) (retain persistent : Bool)

/-- mirrors crates/st-engine/src/vm.rs:998-1028 -/
def snapshotArrayElements (td : UInt16) (path : String) (key : InstanceKey) : List Line :=
  match arrayTypeInfo m td with
  | some (elementType, [(lo, hi)]) => (rangeInclusive lo hi).map fun idx =>
    ⟨path ++ "[" ++ toString idx ++ "]",
      some (.field key (idx - lo.toInt).toNat, Value.defaultForType elementType),
      formatVarType elementType, retain, persistent⟩
  | _ => []

/-- mirrors crates/st-engine/src/vm.rs:1031-1059 -/
def snapshotStructFields (td : UInt16) (path : String) (key : InstanceKey) : List Line :=
  match structTypeFields m td with
  | some (_, fields) => fields.zipIdx.map fun (field, j) =>
    ⟨member path field.name, some (.field key j, Value.defaultForType field.ty),
      formatVarTypeWithWidth field.ty field.intWidth, retain, persistent⟩
  | none => []

/-- The elements of an array field of a function block. -/
def snapshotArrayField (slot : VarSlot) (td : UInt16) (path : String) (key : InstanceKey)
    (start : Nat) : List Line :=
  (List.range slot.size).map fun k =>
    ⟨member path slot.name ++ "[" ++ toString k ++ "]", some (.field key (start + k), .void),
      "Array(" ++ toString td.toNat ++ ")", retain, persistent⟩

/-- mirrors crates/st-engine/src/vm.rs:766-840; `key` is where the instance is kept,
`caller` the identity of its frame. -/
def snapshotFbFields : Nat → UInt16 → String → InstanceKey → UInt32 → Option (List Line)
  | 0, _, _, _, _ => none
  | fuel + 1, fb, path, key, caller => do
    let func ← m.functions[fb.toNat]?
    let entries ← func.locals.slots.zipIdx.mapM fun (slot, j) =>
      match slot.ty with
      | .fbInstance nested =>
        snapshotFbFields fuel nested (member path slot.name) (caller, j.toUInt16)
          (instanceIdentity j nested)
      | .classInstance _ => some []
      | .array td => some (snapshotArrayField retain persistent slot td path key
          (func.locals.expandedIndex j))
      | _ => some [⟨member path slot.name, some (.field key (func.locals.expandedIndex j), .void),
        formatVarTypeWithWidth slot.ty slot.intWidth, retain, persistent⟩]
    return entries.flatten

end

/-- A variable of program `i`. -/
def snapshotSlot (m : Module) (fuel : Nat) (i : UInt16) (program : String) (slot : VarSlot)
    (j : Nat) : Option (List Line) :=
  let path := member program slot.name
  let key : InstanceKey := (programIdentity i, j.toUInt16)
  match slot.ty with
  | .fbInstance fb => do
    let func ← m.functions[fb.toNat]?
    let inner ← snapshotFbFields m slot.retain slot.persistent fuel fb path key (instanceIdentity j fb)
    return ⟨path, none, func.name, slot.retain, slot.persistent⟩ :: inner
  | .classInstance _ => some []
  | .struct td =>
    some (⟨path, none, ((structTypeFields m td).map (·.1)).getD "STRUCT", slot.retain,
      slot.persistent⟩ :: snapshotStructFields m slot.retain slot.persistent td path key)
  | .array td =>
    some (⟨path, none, formatVarTypeFull slot.ty slot.intWidth m.typeDefs, slot.retain,
      slot.persistent⟩ :: snapshotArrayElements m slot.retain slot.persistent td path key)
  | _ => some [⟨path, some (.retained i j, .void), formatVarTypeWithWidth slot.ty slot.intWidth,
      slot.retain, slot.persistent⟩]

/-- The variables of a program that has run. -/
def snapshotProgram (m : Module) (fuel : Nat) (i : UInt16) (func : Function) : Option (List Line) :=
  (func.locals.slots.zipIdx.mapM fun (slot, j) =>
    snapshotSlot m fuel i func.name slot j).map List.flatten

/-- mirrors crates/st-engine/src/vm.rs:577-596 -/
def snapshotGlobals (m : Module) : List Line :=
  m.globals.slots.zipIdx.map fun (slot, i) =>
    ⟨slot.name, some (.global i, .void), formatVarTypeWithWidth slot.ty slot.intWidth, slot.retain,
      slot.persistent⟩

/-- mirrors crates/st-engine/src/vm.rs:896-995, before formatting -/
def snapshot (fuel : Nat) (vm : Vm) : Option (List Line) :=
  if ∃ i ∈ vm.retainedLocals.keys, vm.module.functions.length ≤ i.toNat then none
  else do
    let programs ← vm.retainedPrograms.mapM fun p => snapshotProgram vm.module fuel p.1 p.2.1
    return snapshotGlobals vm.module ++ programs.flatten

/-- mirrors crates/st-engine/src/vm.rs:896-995 -/
def monitorableVariables (fixed6 : F64 → String) (fuel : Nat) (vm : Vm) :
    Option (List VariableInfo) :=
  (snapshot fuel vm).map (List.map (Line.info fixed6 vm))

/-! ## Forces -/

namespace Vm

variable (vm : Vm)

/-- Where `"instance.field"` of a program is written, and with which width. -/
def fieldTarget (i : UInt16) (prog : Function) (instanceName fieldName : String) :
    Option (Except Trap (Option (Place × IntWidth))) := do
  let (j, slot) ← findIdx (fun s => eqIgnoreAsciiCase s.name instanceName) prog.locals.slots
  let key : InstanceKey := (programIdentity i, j.toUInt16)
  match slot.ty with
  | .struct td => some (.ok (match vm.structTypeFields td with
    | some fields => (findIdx (fun f => eqIgnoreAsciiCase f.name fieldName) fields).map
      fun (pos, field) => (.field key pos, field.intWidth)
    | none => none))
  | .fbInstance fb => some ((index vm.module.functions fb.toNat).map fun func =>
    (func.locals.findSlot fieldName).map fun (pos, field) =>
      (.field key pos.toNat, field.intWidth))
  | _ => none

/-- Where the local of a program is written. -/
def scalarTarget (i : UInt16) (prog : Function) (localName : String) : Option (Place × IntWidth) :=
  (findIdx (fun s => eqIgnoreAsciiCase s.name localName) prog.locals.slots).map fun (j, slot) =>
    (.retained i j, slot.intWidth)

/-- Where a name that is no global is written. -/
def localTarget (name : String) : Except Trap (Option (Place × IntWidth)) :=
  match splitDot name with
  | none => .ok none
  | some (progName, localName) =>
    match findIdx (fun f => f.kind == .program && eqIgnoreAsciiCase f.name progName)
        vm.module.functions with
    | none => .ok none
    | some (i, prog) =>
      let field := (splitDot localName).bind fun (instanceName, fieldName) =>
        vm.fieldTarget i.toUInt16 prog instanceName fieldName
      field.getD (.ok (scalarTarget i.toUInt16 prog localName))

/-- Where `force_variable` writes a name. -/
def forceTarget (name : String) : Except Trap (Option (Place × IntWidth)) :=
  match vm.module.globals.findSlot name with
  | some (slot, slotDef) => .ok (some (.global slot.toNat, slotDef.intWidth))
  | none => vm.localTarget name

end Vm

/-- What a write does to the content of a place: `p` changes when it is the target and
something is there. -/
def written (target : Option (Place × IntWidth)) (v : Value) (p : Place) (old : Option Value) :
    Option Value :=
  match target with
  | some (q, w) => if p = q then old.map fun _ => narrowValue v w else old
  | none => old

/-- `vm'` is `vm` after the write of `v` to the target. -/
structure Vm.WrittenTo (vm vm' : Vm) (target : Option (Place × IntWidth)) (v : Value) : Prop where
  module : vm'.module = vm.module
  keys : ∀ i, i ∈ vm'.retainedLocals.keys ↔ i ∈ vm.retainedLocals.keys
  read : ∀ p : Place, p.read vm' = written target v p (p.read vm)

theorem set_getElem? {xs : List Value} {i j : Nat} {x : Value} :
    (xs.set i x)[j]? = if j = i then xs[j]?.map fun _ => x else xs[j]? := by
  rw [List.getElem?_set]
  by_cases hij : i = j
  · subst hij
    by_cases hlen : i < xs.length
    · simp [hlen]
    · simp [hlen]
  · simp [hij, Ne.symm hij]

theorem writtenTo_none {vm vm' : Vm} (v : Value) (hm : vm'.module = vm.module)
    (hg : vm'.globals = vm.globals) (hr : vm'.retainedLocals = vm.retainedLocals)
    (hf : vm'.fbInstances = vm.fbInstances) : vm.WrittenTo vm' none v where
  module := hm
  keys i := by rw [hr]
  read p := by cases p <;> simp only [Place.read, hg, hr, hf, written]

theorem patchInstance_writtenTo (vm : Vm) (key : InstanceKey) (i : Nat) (v : Value) (w : IntWidth) :
    vm.WrittenTo (vm.patchInstance key i (narrowValue v w)) (some (.field key i, w)) v := by
  unfold Vm.patchInstance
  cases hstate : Finmap.lookup key vm.fbInstances with
  | none =>
    refine ⟨rfl, fun _ => Iff.rfl, fun p => ?_⟩
    by_cases hp : p = .field key i
    · subst hp
      simp only [written, if_true, Place.read, hstate, Option.bind_none, Option.map_none]
    · simp only [written, if_neg hp]
  | some state =>
    refine ⟨rfl, fun _ => Iff.rfl, fun p => ?_⟩
    cases p with
    | global j => rfl
    | retained q j => rfl
    | field key' j =>
      by_cases hkey : key' = key
      · subst hkey
        simp only [Place.read, Vm.putInstance, Finmap.lookup_insert, hstate, Option.bind_some,
          set_getElem?, written, Place.field.injEq, true_and]
      · simp only [Place.read, Vm.putInstance, Finmap.lookup_insert_of_ne _ hkey, written,
          Place.field.injEq, hkey, false_and, if_false]

theorem setRetained_writtenTo (vm : Vm) {i : UInt16} {locals : List Value}
    (h : Finmap.lookup i vm.retainedLocals = some locals) (j : Nat) (v : Value) (w : IntWidth) :
    vm.WrittenTo (vm.setRetainedLocals i (locals.set j (narrowValue v w)))
      (some (.retained i j, w)) v := by
  refine ⟨rfl, fun k => ?_, fun p => ?_⟩
  · have hi : i ∈ vm.retainedLocals := Finmap.mem_of_lookup_eq_some h
    simp only [Vm.setRetainedLocals, Finmap.mem_keys, Finmap.mem_insert]
    exact or_iff_right_of_imp fun hk => hk ▸ hi
  · cases p with
    | global j => rfl
    | field key j => rfl
    | retained i' j' =>
      by_cases hi : i' = i
      · subst hi
        simp only [Place.read, Vm.setRetainedLocals, Finmap.lookup_insert, h, Option.bind_some,
          set_getElem?, written, Place.retained.injEq, true_and]
      · simp only [Place.read, Vm.setRetainedLocals, Finmap.lookup_insert_of_ne _ hi, written,
          Place.retained.injEq, hi, false_and, if_false]

theorem forceScalar_writtenTo (vm : Vm) (i : UInt16) (prog : Function) (localName : String)
    (v : Value) :
    vm.WrittenTo (vm.forceScalar i prog localName v) (Vm.scalarTarget i prog localName) v := by
  unfold Vm.forceScalar Vm.scalarTarget
  cases hslot : findIdx (fun s => eqIgnoreAsciiCase s.name localName) prog.locals.slots with
  | none =>
    cases Finmap.lookup i vm.retainedLocals <;> exact writtenTo_none v rfl rfl rfl rfl
  | some found =>
    obtain ⟨j, slot⟩ := found
    cases hlocals : Finmap.lookup i vm.retainedLocals with
    | none =>
      refine ⟨rfl, fun _ => Iff.rfl, fun p => ?_⟩
      by_cases hp : p = .retained i j
      · subst hp
        simp only [Option.map_some, written, if_true, Place.read, hlocals, Option.bind_none,
          Option.map_none]
      · simp only [Option.map_some, written, if_neg hp]
    | some locals => exact setRetained_writtenTo vm hlocals j v slot.intWidth

/-- A force on a field: it is none, it fails, or it writes its target. -/
theorem forceField_writtenTo (vm : Vm) (i : UInt16) (prog : Function) (inst field : String)
    (v : Value) :
    match vm.fieldTarget i prog inst field with
    | none => vm.forceField i prog inst field v = none
    | some (.error e) => vm.forceField i prog inst field v = some (.error e)
    | some (.ok target) => ∃ vm', vm.forceField i prog inst field v = some (.ok vm') ∧
        vm.WrittenTo vm' target v := by
  unfold Vm.fieldTarget Vm.forceField
  cases hslot : findIdx (fun s => eqIgnoreAsciiCase s.name inst) prog.locals.slots with
  | none => rfl
  | some found =>
    obtain ⟨j, slot⟩ := found
    simp only [bind, Option.bind]
    cases hty : slot.ty with
    | struct td =>
      cases hfields : vm.structTypeFields td with
      | none =>
        simp only [hfields]
        exact ⟨vm, rfl, writtenTo_none v rfl rfl rfl rfl⟩
      | some fields =>
        cases hfield : findIdx (fun f => eqIgnoreAsciiCase f.name field) fields with
        | none =>
          simp only [hfields, hfield]
          exact ⟨vm, rfl, writtenTo_none v rfl rfl rfl rfl⟩
        | some p =>
          simp only [hfields, hfield]
          exact ⟨_, rfl, patchInstance_writtenTo ..⟩
    | fbInstance fb =>
      cases hfunc : index vm.module.functions fb.toNat with
      | error e => simp only [hfunc, Except.map]
      | ok func =>
        simp only [hfunc, Except.map]
        cases hfield : func.locals.findSlot field with
        | none => exact ⟨vm, rfl, writtenTo_none v rfl rfl rfl rfl⟩
        | some p => exact ⟨_, rfl, patchInstance_writtenTo ..⟩
    | _ => rfl

theorem forceLocal_writtenTo (vm : Vm) (name : String) (v : Value) :
    match vm.localTarget name with
    | .error e => vm.forceLocal name v = .error e
    | .ok target => ∃ vm', vm.forceLocal name v = .ok vm' ∧ vm.WrittenTo vm' target v := by
  unfold Vm.localTarget Vm.forceLocal
  cases splitDot name with
  | none => exact ⟨vm, rfl, writtenTo_none v rfl rfl rfl rfl⟩
  | some parts =>
    obtain ⟨progName, localName⟩ := parts
    cases hprog : findIdx (fun f => f.kind == .program && eqIgnoreAsciiCase f.name progName)
        vm.module.functions with
    | none =>
      simp only [hprog]
      exact ⟨vm, rfl, writtenTo_none v rfl rfl rfl rfl⟩
    | some found =>
      obtain ⟨i, prog⟩ := found
      simp only [hprog]
      have hscalar := forceScalar_writtenTo vm i.toUInt16 prog localName v
      cases splitDot localName with
      | none => exact ⟨_, rfl, hscalar⟩
      | some parts =>
        have hfield := forceField_writtenTo vm i.toUInt16 prog parts.1 parts.2 v
        simp only [Option.bind_some]
        cases ht : vm.fieldTarget i.toUInt16 prog parts.1 parts.2 with
        | none =>
          simp only [ht] at hfield
          simp only [hfield, Option.getD_none]
          exact ⟨_, rfl, hscalar⟩
        | some result =>
          cases result with
          | error e =>
            simp only [ht] at hfield
            simp only [hfield, Option.getD_some]
          | ok target =>
            simp only [ht] at hfield
            obtain ⟨vm', hok, hwritten⟩ := hfield
            exact ⟨vm', by simp only [hok, Option.getD_some], hwritten⟩

/-- **A force** writes its target, and nothing else that the monitor shows. -/
theorem force_read (vm : Vm) (name : String) (v : Value) :
    match vm.forceTarget name with
    | .error e => vm.forceVariable name v = .error e
    | .ok target => ∃ vm', vm.forceVariable name v = .ok vm' ∧ vm.WrittenTo vm' target v := by
  unfold Vm.forceTarget Vm.forceVariable
  cases vm.module.globals.findSlot name with
  | some found =>
    obtain ⟨slot, slotDef⟩ := found
    refine ⟨_, rfl, rfl, fun _ => Iff.rfl, fun p => ?_⟩
    cases p with
    | global i => simp only [Place.read, set_getElem?, written, Place.global.injEq]
    | retained q j => rfl
    | field key j => rfl
  | none =>
    -- only the table of forces differs, which no place reads
    let vm1 := { vm with forcedVariables := Finmap.insert (toUppercase name) v vm.forcedVariables }
    have hlocal := forceLocal_writtenTo vm1 name v
    have htarget : vm1.localTarget name = vm.localTarget name := rfl
    rw [htarget] at hlocal
    simp only
    cases ht : vm.localTarget name with
    | error e =>
      simp only [ht] at hlocal
      exact hlocal
    | ok target =>
      simp only [ht] at hlocal
      obtain ⟨vm', hok, hwritten⟩ := hlocal
      have hplaces : ∀ p : Place, p.read vm1 = p.read vm := fun p => by cases p <;> rfl
      exact ⟨vm', hok, hwritten.module, hwritten.keys, fun p => hplaces p ▸ hwritten.read p⟩

/-! ## The same lines -/

theorem retainedPrograms_congr {vm vm' : Vm} (hm : vm'.module = vm.module)
    (hkeys : ∀ i, i ∈ vm'.retainedLocals.keys ↔ i ∈ vm.retainedLocals.keys) :
    vm'.retainedPrograms.map (fun p => (p.1, p.2.1)) =
      vm.retainedPrograms.map (fun p => (p.1, p.2.1)) := by
  unfold Vm.retainedPrograms
  rw [hm, List.map_filterMap, List.map_filterMap]
  refine List.filterMap_congr fun p _ => ?_
  obtain ⟨func, i⟩ := p
  by_cases hp : func.kind = .program ∧ i < 65536
  · simp only [if_pos hp, Option.map_map]
    have hi := hkeys i.toUInt16
    rw [Finmap.mem_keys, Finmap.mem_keys, ← Finmap.lookup_isSome, ← Finmap.lookup_isSome] at hi
    cases hl : Finmap.lookup i.toUInt16 vm.retainedLocals with
    | none =>
      cases hl' : Finmap.lookup i.toUInt16 vm'.retainedLocals with
      | none => rfl
      | some ls => simp [hl, hl'] at hi
    | some ls =>
      cases hl' : Finmap.lookup i.toUInt16 vm'.retainedLocals with
      | none => simp [hl, hl'] at hi
      | some ls' => rfl
  · simp only [if_neg hp]

/-- The lines depend on the module and on which programs have run. -/
theorem snapshot_congr {vm vm' : Vm} (hm : vm'.module = vm.module)
    (hkeys : ∀ i, i ∈ vm'.retainedLocals.keys ↔ i ∈ vm.retainedLocals.keys) (fuel : Nat) :
    snapshot fuel vm' = snapshot fuel vm := by
  have hprograms : ∀ w : Vm, (w.retainedPrograms.mapM fun p => snapshotProgram w.module fuel p.1 p.2.1) =
      (w.retainedPrograms.map fun p => (p.1, p.2.1)).mapM
        fun p => snapshotProgram w.module fuel p.1 p.2 := fun w => by rw [List.mapM_map]; rfl
  simp only [snapshot, hm, hkeys]
  rw [← hm, hprograms, retainedPrograms_congr hm hkeys, hm, hprograms]

end RustPlc.Engine
