import RustPlc.L3Vm.Instances
import RustPlc.L4Agree.Parameters
import RustPlc.L5Engine.Retain

/-!
# Addressing the fields of native function blocks

The values of a native block are one vector: one value for a scalar field, the
elements in a row for an array field. Four numberings meet in it. The compiler
numbers the fields for loads and stores and the arguments for calls; an indexed
access uses the offset of the field; forces on a running block and the monitor
use the expanded index; a force from outside and the retain store use the number of
the field again. They are the same as long as every field has one value.

Results:
* `slot_of_field`, `nativeDefaults_length`: the offset of a slot is where the values
  of its field start in the vector of a new instance;
* `resolve_native`, `callFb_vector`, `forceField_vector`, `instanceFields_position`, with
  `instanceGet_vector`, `storeField_vector` and `storeFieldIndex_vector`: what the compiler,
  the machine and the host do is `FieldUse.addresses` and `FieldUse.apply`;
* `uses_consistent`: every use addresses the field it is meant for, and the vector has
  the length of the layout, exactly when every use meets `FieldUse.Plain`: no array of
  several elements stands before a field that is addressed by its number, an indexed
  array has one dimension that starts at 0, and no store comes before the first call.
-/
namespace RustPlc.Devices

open RustPlc.Ir RustPlc.Core RustPlc.Engine RustPlc.Compiler RustPlc.Agree

/-! ## The vector of a layout -/

/-- Where the values of field `k` start. -/
def fieldStart (fields : List NativeFbField) (k : Nat) : Nat :=
  ((fields.take k).map NativeFbField.size).sum

/-- mirrors crates/st-comm-api/src/native_fb.rs:432-440 -/
def expandedFieldCount (l : NativeFbLayout) : Nat := (l.fields.map NativeFbField.size).sum

theorem fieldStart_lt {fields : List NativeFbField} {k : Nat} {f : NativeFbField}
    (h : fields[k]? = some f) : fieldStart fields k + f.size ≤ (fields.map NativeFbField.size).sum := by
  obtain ⟨hk, rfl⟩ := List.getElem?_eq_some_iff.mp h
  have hsum := List.sum_take_add_sum_drop (fields.map NativeFbField.size) k
  rw [List.drop_eq_getElem_cons (by simpa using hk), List.sum_cons] at hsum
  simp only [List.getElem_map] at hsum
  simp only [fieldStart, List.map_take]
  omega

/-- The slot of a field. -/
theorem layoutSlots_get : ∀ (fields : List NativeFbField) (td offset : Nat) {k : Nat}
    {f : NativeFbField}, fields[k]? = some f →
      ∃ s, (layoutSlots td offset fields)[k]? = some s ∧ s.name = f.name ∧
        s.offset = offset + fieldStart fields k ∧ s.size = f.size ∧
        s.intWidth = f.dataType.intWidth ∧ ((∃ t, s.ty = .array t) ↔ f.dimensions.isSome = true) := by
  intro fields
  induction fields with
  | nil =>
    intro td offset k f h
    simp at h
  | cons g fields ih =>
    intro td offset k f h
    cases k with
    | zero =>
      obtain rfl := Option.some.inj h
      refine ⟨_, rfl, rfl, by simp [fieldStart], rfl, rfl, ?_⟩
      cases g.dimensions with
      | some dims => simp
      | none => cases g.dataType <;> simp [FieldDataType.varType]
    | succ k =>
      obtain ⟨s, hs, hname, hoffset, hrest⟩ :=
        ih (if g.dimensions.isSome then td + 1 else td) (offset + g.size) (by simpa using h)
      refine ⟨s, by simpa [layoutSlots] using hs, hname, ?_, hrest⟩
      rw [hoffset, fieldStart, fieldStart, List.take_succ_cons, List.map_cons, List.sum_cons]
      omega

theorem layoutSlots_length (fields : List NativeFbField) (td offset : Nat) :
    (layoutSlots td offset fields).length = fields.length := by
  simpa using congrArg List.length (layoutSlots_names fields td offset)

section

variable (l : NativeFbLayout) (td : Nat)

/-- A slot of the layout is a field, and its offset is where the field starts. -/
theorem slot_of_field {k : Nat} {s : VarSlot} (h : (layoutToMemoryLayout l td).slots[k]? = some s) :
    ∃ f, l.fields[k]? = some f ∧ s.name = f.name ∧ s.offset = fieldStart l.fields k ∧
      s.size = f.size ∧ s.intWidth = f.dataType.intWidth ∧
      ((∃ t, s.ty = .array t) ↔ f.dimensions.isSome = true) := by
  have hk : k < l.fields.length := by
    have := (List.getElem?_eq_some_iff.mp h).1
    rwa [layoutToMemoryLayout, layoutSlots_length] at this
  obtain ⟨s', hs', hname, hoffset, hrest⟩ :=
    layoutSlots_get l.fields td 0 (List.getElem?_eq_getElem hk)
  obtain rfl : s' = s := Option.some.inj (hs'.symm.trans h)
  exact ⟨_, List.getElem?_eq_getElem hk, hname, by rw [hoffset, Nat.zero_add], hrest⟩

theorem nativeDefaults_length (vm : Vm) :
    (vm.nativeDefaults (layoutToMemoryLayout l td)).length = expandedFieldCount l := by
  have hslots : ∀ (fields : List NativeFbField) (td offset : Nat),
      (vm.nativeDefaults ⟨layoutSlots td offset fields⟩).length =
        (fields.map NativeFbField.size).sum := by
    intro fields
    induction fields with
    | nil => exact fun _ _ => rfl
    | cons f fields ih =>
      intro td offset
      have hrest := ih (if f.dimensions.isSome then td + 1 else td) (offset + f.size)
      simp only [Vm.nativeDefaults] at hrest ⊢
      simp only [layoutSlots, List.flatMap_cons, List.length_append, hrest, List.map_cons,
        List.sum_cons, Nat.add_right_cancel_iff]
      cases hd : f.dimensions with
      | some dims => simp
      | none =>
        have hsize : f.size = 1 := by simp [NativeFbField.size, hd]
        cases f.dataType <;> simp [FieldDataType.varType, hsize]
  exact hslots l.fields td 0

/-! ## Uses of fields -/

/-- What is done with the fields of one instance. An argument and a forced value are
given with the field they are for, an indexed access with all its indices. `force` is
the host's, `enforce` what is written again after each cycle; the monitor is
crates/st-engine/src/vm.rs:766-832, the retain store
crates/st-engine/src/retain_store.rs:57-92. -/
inductive FieldUse where
  | load (k : Nat)
  | store (k : Nat) (v : Value)
  | loadIndex (k : Nat) (indices : List Int64)
  | storeIndex (k : Nat) (indices : List Int64) (v : Value)
  | call (args forced : List (Nat × Value))
  | force (k : Nat) (v : Value)
  | enforce (k : Nat) (v : Value)
  | monitor (k e : Nat)
  | retain (k : Nat)

/-- The number of an element, row by row, when the indices are in the bounds. -/
def elementNumber : List (Int64 × Int64) → List Int64 → Option Nat
  | [], [] => some 0
  | (lo, hi) :: dims, i :: indices =>
    if lo ≤ i ∧ i ≤ hi then
      (elementNumber dims indices).map fun e =>
        (i.toInt - lo.toInt).toNat * (dims.map fun d => (d.2.toInt - d.1.toInt + 1).toNat).prod + e
    else none
  | _, _ => none

/-- Where element `e` of field `k` is in the vector. -/
def valuePlace (k e : Nat) : Option Nat :=
  match l.fields[k]? with
  | some f => if e < f.size then some (fieldStart l.fields k + e) else none
  | none => none

/-- Where the element with these indices is. -/
def elementPlace (k : Nat) (indices : List Int64) : Option Nat :=
  ((l.fields[k]?).bind fun f => elementNumber (f.dimensions.getD []) indices).bind (valuePlace l k)

/-- `base_offset as usize + raw_idx as usize`; the compiler passes the first index only. -/
def indexedAddress (k : Nat) (indices : List Int64) : Nat :=
  (fieldStart l.fields k).toUInt16.toNat + Vm.asUsize (indices.headD 0)

namespace FieldUse

/-- The positions that a use reads or writes, each with the place it is meant for. -/
def addresses : FieldUse → List (Nat × Option Nat)
  | .load k | .store k _ | .force k _ => [(k.toUInt16.toNat, valuePlace l k 0)]
  | .loadIndex k indices | .storeIndex k indices _ =>
    [(indexedAddress l k indices, elementPlace l k indices)]
  | .call args forced =>
    (args.zipIdx.map fun (arg, n) => (n.toUInt16.toNat, valuePlace l arg.1 0)) ++
      forced.map fun p => ((layoutToMemoryLayout l td).expandedIndex p.1, valuePlace l p.1 0)
  | .enforce k _ => [((layoutToMemoryLayout l td).expandedIndex k, valuePlace l k 0)]
  | .monitor k e => [((layoutToMemoryLayout l td).expandedIndex k + e, valuePlace l k e)]
  | .retain k => [(k, valuePlace l k 0)]

end FieldUse

/-- A call: the arguments over what is there, `execute()`, and the forced values over
what it left. -/
def callVector (defaults : List Value) (execute : List Value → List Value)
    (args forced : List (Nat × Value)) (vector : Option (List Value)) : List Value :=
  let before := Vm.padTo l.fields.length (vector.getD defaults)
  let start := args.zipIdx.foldl (fun xs (arg, n) => xs.set n.toUInt16.toNat arg.2) before
  forced.foldl (fun xs p => xs.set ((layoutToMemoryLayout l td).expandedIndex p.1) p.2) (execute start)

/-- The vector after a use. -/
def FieldUse.apply (defaults : List Value) (execute : List Value → List Value)
    (vector : Option (List Value)) : FieldUse → Option (List Value)
  | .store k v => some (storeAt k.toUInt16.toNat v vector)
  | .storeIndex k indices v => some (storeAt (indexedAddress l k indices) v vector)
  | .call args forced => some (callVector l td defaults execute args forced vector)
  | .force k v => vector.map (·.set k.toUInt16.toNat v)
  | .enforce k v => vector.map (·.set ((layoutToMemoryLayout l td).expandedIndex k) v)
  | _ => vector

/-! ## What the compiler, the machine and the host do -/

section

variable [F64Ops] {l : NativeFbLayout} {td : Nat}

omit [F64Ops] in
/-- The compiler numbers a field for loads and stores and takes its offset for
indexed accesses; both are cut to 16 bits. -/
theorem resolve_native {env : ModuleEnv} {typeName fieldName : String} {p : Nat × Function}
    (hpos : env.position typeName = some p) (hl : p.2.locals = layoutToMemoryLayout l td)
    {i : UInt16} {s : VarSlot} (h : p.2.locals.findSlot fieldName = some (i, s))
    (typeDefs : List TypeDef) :
    ∃ k f, l.fields[k]? = some f ∧ eqIgnoreAsciiCase f.name fieldName = true ∧
      resolveFieldIndex env typeDefs typeName fieldName = some k.toUInt16 ∧
      resolveFieldExpandedOffset env typeName fieldName =
        some (fieldStart l.fields k).toUInt16 := by
  obtain ⟨⟨k, s'⟩, hfind, hs⟩ := Option.map_eq_some_iff.mp h
  obtain ⟨rfl, rfl⟩ := Prod.mk.inj hs
  obtain ⟨hget, hname, -⟩ := findIdx_some hfind
  rw [hl] at hget
  obtain ⟨f, hf, hfname, hoffset, -⟩ := slot_of_field l td hget
  refine ⟨k, f, hf, hfname ▸ hname, ?_, ?_⟩
  · simp only [resolveFieldIndex, hpos, Option.bind_some, h]
  · simp only [resolveFieldExpandedOffset, hpos, Option.bind_some, h, Option.map_some, hoffset]

/-- The registers of the arguments hold their values, in order. -/
def ArgsIn (f : CallFrame) (regs : List (UInt16 × Reg)) (us : List ((Nat × Value) × Nat)) : Prop :=
  List.Forall₂ (fun p u => p.1 = u.2.toUInt16 ∧ f.regGet p.2 = .ok u.1.2) regs us

omit [F64Ops] in
theorem bindArgs_vector {f : CallFrame} {regs : List (UInt16 × Reg)}
    {us : List ((Nat × Value) × Nat)} (h : ArgsIn f regs us) (before : List Value) :
    Vm.bindArgs f 0 regs before =
      .ok (us.foldl (fun xs u => xs.set u.2.toUInt16.toNat u.1.2) before) := by
  induction h generalizing before with
  | nil => rfl
  | @cons p u regs us hp _ ih =>
    obtain ⟨hslot, hval⟩ := hp
    have hzero : (0 : Nat).toUInt16.toNat = 0 := rfl
    have hfit : ¬ 65535 < p.1.toNat := by
      have := p.1.toNat_lt
      omega
    simp only [Vm.bindArgs, hzero, Nat.zero_add, if_neg hfit, hval, bind, Except.bind]
    rw [ih, hslot, List.foldl_cons]

omit [F64Ops] in
/-- The forced values are written over what `execute()` left, in the order of the
fields. -/
theorem applyNativeForces_vector (vm : Vm) (prog fb : Function) (slot : UInt16)
    (xs : List Value) :
    ∃ forced : List (Nat × Value), (∀ p ∈ forced, p.1 < fb.locals.slots.length) ∧
      vm.applyNativeForces prog fb slot xs =
        forced.foldl (fun xs p => xs.set (fb.locals.expandedIndex p.1) p.2) xs := by
  unfold Vm.applyNativeForces
  cases prog.locals.slots[slot.toNat]? with
  | none => exact ⟨[], by simp, rfl⟩
  | some inst =>
    let value (p : VarSlot × Nat) := vm.forced? (prog.name ++ "." ++ inst.name ++ "." ++ p.1.name)
    refine ⟨fb.locals.slots.zipIdx.filterMap fun p => (value p).map fun v => (p.2, v), ?_, ?_⟩
    · intro q hq
      obtain ⟨p, hp, hv⟩ := List.mem_filterMap.mp hq
      obtain ⟨v, -, rfl⟩ := Option.map_eq_some_iff.mp hv
      exact (List.getElem?_eq_some_iff.mp (List.mem_zipIdx_iff_getElem?.mp hp)).1
    · rw [List.foldl_filterMap]
      refine congrArg (fun g => List.foldl g xs fb.locals.slots.zipIdx) ?_
      funext acc p
      cases hv : value p with
      | none => simp only [value] at hv; simp [hv]
      | some v => simp only [value] at hv; simp [hv]

omit [F64Ops] in
/-- **A call of a native block** changes the vector as `FieldUse.call` says. -/
theorem callFb_vector {vm vm' : Vm} {f : CallFrame} {fi slot : UInt16} {func caller : Function}
    {regs : List (UInt16 × Reg)} {args : List (Nat × Value)} (hfunc : vm.func? fi = some func)
    (hnative : fi ∈ vm.module.nativeFbIndices) (hl : func.locals = layoutToMemoryLayout l td)
    (hargs : ArgsIn f regs args.zipIdx) (h : vm.callFb f fi slot regs caller = .next vm') :
    ∃ forced, Finmap.lookup (vm.instanceKey slot) vm'.fbInstances =
      (FieldUse.call args forced).apply l td (vm.nativeDefaults (layoutToMemoryLayout l td))
        (vm.nativeExecute func.name) (Finmap.lookup (vm.instanceKey slot) vm.fbInstances) := by
  have hslots : (layoutToMemoryLayout l td).slots.length = l.fields.length :=
    layoutSlots_length l.fields td 0
  unfold Vm.callFb at h
  by_cases hdepth : vm.config.maxCallDepth ≤ vm.callStack.length
  · rw [if_pos hdepth] at h
    cases h
  · rw [if_neg hdepth] at h
    simp only [hfunc, bindArgs_vector hargs, Vm.orTrap, if_pos hnative] at h
    have hvm := (Outcome.next.inj h).symm
    obtain ⟨forced, -, hforced⟩ := applyNativeForces_vector vm caller func slot
      (vm.nativeExecute func.name (args.zipIdx.foldl (fun xs u => xs.set u.2.toUInt16.toNat u.1.2)
        (vm.instanceLocals (vm.instanceKey slot) fi func)))
    refine ⟨forced, ?_⟩
    rw [hvm, hforced]
    simp only [Vm.putInstance, Finmap.lookup_insert, FieldUse.apply, callVector,
      Vm.instanceLocals, hnative, if_true, hslots, hl]

omit [F64Ops] in
/-- A force from outside on a field of a block. -/
theorem forceField_vector {vm : Vm} {i : UInt16} {prog func : Function} {inst field : String}
    {j : Nat} {slot fieldSlot : VarSlot} {fb : UInt16} {k : UInt16} {v : Value}
    (hslot : findIdx (fun s => eqIgnoreAsciiCase s.name inst) prog.locals.slots = some (j, slot))
    (hty : slot.ty = .fbInstance fb) (hfunc : index vm.module.functions fb.toNat = .ok func)
    (hfield : func.locals.findSlot field = some (k, fieldSlot)) :
    ∃ vm', vm.forceField i prog inst field v = some (.ok vm') ∧
      Finmap.lookup (programIdentity i, j.toUInt16) vm'.fbInstances =
        (FieldUse.force k.toNat (narrowValue v fieldSlot.intWidth)).apply l td [] id
          (Finmap.lookup (programIdentity i, j.toUInt16) vm.fbInstances) := by
  have hforce : vm.forceField i prog inst field v = some (.ok (vm.patchInstance
      (programIdentity i, j.toUInt16) k.toNat (narrowValue v fieldSlot.intWidth))) := by
    simp only [Vm.forceField, hslot, bind, Option.bind, hty, hfunc, Except.map, hfield]
  refine ⟨_, hforce, ?_⟩
  have hk : k.toNat.toUInt16.toNat = k.toNat := by simp
  simp only [FieldUse.apply, hk, Vm.patchInstance]
  cases hstate : Finmap.lookup (programIdentity i, j.toUInt16) vm.fbInstances with
  | none => exact hstate
  | some xs => exact Finmap.lookup_insert _

omit [F64Ops] in
/-- The fields into which the forces are written again after a cycle. -/
theorem instanceFields_position {vm : Vm} {fb : UInt16} {func : Function}
    (hfunc : index vm.module.functions fb.toNat = .ok func) {k : Nat} {s : VarSlot}
    (hs : func.locals.slots[k]? = some s) :
    ∃ fs, vm.instanceFields (.fbInstance fb) = .ok fs ∧
      (func.locals.expandedIndex k, s) ∈ fs := by
  refine ⟨_, by simp only [Vm.instanceFields, hfunc]; rfl, ?_⟩
  exact List.mem_map.mpr ⟨(s, k), List.mem_zipIdx_iff_getElem?.mpr hs, rfl⟩

end

/-! ## When the numberings agree -/

/-- Field `k` has an element of this number. -/
def HasValue (k e : Nat) : Prop := ∃ f, l.fields[k]? = some f ∧ e < f.size

/-- The fields before field `k` have `n` values, as a number of 16 bits. -/
def Numbered (k n : Nat) : Prop := HasValue l k 0 ∧ fieldStart l.fields k = n % 65536

/-- Some array has several elements, or the fields before field `k` have one value
each. -/
def Expanded (k e : Nat) : Prop :=
  HasValue l k e ∧ ((layoutToMemoryLayout l td).hasExpandedArrays = true ∨ fieldStart l.fields k = k)

/-- The first index is the number of the element, up to what 16 bits lose of the
offset. -/
def Indexed (k : Nat) (indices : List Int64) : Prop :=
  ∃ f e, l.fields[k]? = some f ∧ elementNumber (f.dimensions.getD []) indices = some e ∧
    e < f.size ∧ fieldStart l.fields k % 65536 + Vm.asUsize (indices.headD 0) = fieldStart l.fields k + e

/-- What a store to position `i` needs: an instance that has been called, or the
last position. -/
def Stored (vector : Option (List Value)) (i : Nat) : Prop :=
  vector.isSome ∨ i + 1 = expandedFieldCount l

/-- The condition on a use. -/
def FieldUse.Plain (vector : Option (List Value)) : FieldUse → Prop
  | .load k => Numbered l k k
  | .store k _ => Numbered l k k ∧ Stored l vector (k % 65536)
  | .loadIndex k indices => Indexed l k indices
  | .storeIndex k indices _ => Indexed l k indices ∧ Stored l vector (indexedAddress l k indices)
  | .call args forced => (∀ n arg, args[n]? = some arg → Numbered l arg.1 n) ∧
    (∀ p ∈ forced, Expanded l td p.1 0) ∧ l.fields.length ≤ expandedFieldCount l
  | .force k _ => Numbered l k k
  | .enforce k _ => Expanded l td k 0
  | .monitor k e => Expanded l td k e
  | .retain k => HasValue l k 0 ∧ fieldStart l.fields k = k

theorem valuePlace_iff {k e n : Nat} :
    valuePlace l k e = some n ↔ HasValue l k e ∧ fieldStart l.fields k + e = n := by
  unfold valuePlace HasValue
  cases l.fields[k]? with
  | none => simp
  | some f =>
    by_cases he : e < f.size <;> simp [he]

theorem numbered_iff {k n : Nat} :
    valuePlace l k 0 = some n.toUInt16.toNat ↔ Numbered l k n := by
  have hn : n.toUInt16.toNat = n % 65536 := by simp [Nat.toUInt16]
  rw [valuePlace_iff, hn]
  rfl

theorem expandedIndex_eq {k : Nat} (hk : k < l.fields.length) :
    (layoutToMemoryLayout l td).expandedIndex k =
      if (layoutToMemoryLayout l td).hasExpandedArrays then fieldStart l.fields k else k := by
  have hslot : k < (layoutToMemoryLayout l td).slots.length := by
    rwa [layoutToMemoryLayout, layoutSlots_length]
  obtain ⟨f, -, -, hoffset, -⟩ := slot_of_field l td (List.getElem?_eq_getElem hslot)
  unfold MemoryLayout.expandedIndex
  rw [List.getElem?_eq_getElem hslot]
  cases (layoutToMemoryLayout l td).hasExpandedArrays with
  | true => simp [hoffset]
  | false => simp

theorem expanded_iff {k e : Nat} :
    valuePlace l k e = some ((layoutToMemoryLayout l td).expandedIndex k + e) ↔ Expanded l td k e := by
  rw [valuePlace_iff, Expanded]
  refine and_congr_right fun ⟨f, hf, he⟩ => ?_
  rw [expandedIndex_eq l td (List.getElem?_eq_some_iff.mp hf).1]
  split
  · next hexp => simp [hexp]
  · next hexp =>
    rw [or_iff_right hexp]
    omega

theorem indexed_iff {k : Nat} {indices : List Int64} :
    elementPlace l k indices = some (indexedAddress l k indices) ↔ Indexed l k indices := by
  have hstart : (fieldStart l.fields k).toUInt16.toNat = fieldStart l.fields k % 65536 := by
    simp [Nat.toUInt16]
  unfold indexedAddress
  rw [hstart]
  constructor
  · intro h
    obtain ⟨e, he, hplace⟩ := Option.bind_eq_some_iff.mp h
    obtain ⟨f, hf, he⟩ := Option.bind_eq_some_iff.mp he
    obtain ⟨⟨f', hf', hlt⟩, haddr⟩ := (valuePlace_iff l).mp hplace
    obtain rfl : f = f' := Option.some.inj (hf.symm.trans hf')
    exact ⟨f, e, hf, he, hlt, haddr.symm⟩
  · rintro ⟨f, e, hf, he, hlt, haddr⟩
    have hplace := (valuePlace_iff l).mpr ⟨⟨f, hf, hlt⟩, haddr.symm⟩
    simp only [elementPlace, hf, Option.bind_some, he, hplace]

/-! ## Runs -/

/-- Every position is the place it is meant for. -/
def FieldUse.Placed (u : FieldUse) : Prop := ∀ a ∈ u.addresses l td, a.2 = some a.1

/-- The vector has the length of the layout. -/
def FullLength (vector : Option (List Value)) : Prop :=
  ∀ xs, vector = some xs → xs.length = expandedFieldCount l

theorem storeAt_length {i : Nat} {v : Value} {vector : Option (List Value)}
    (hfull : FullLength l vector) (hi : i < expandedFieldCount l) :
    (storeAt i v vector).length = expandedFieldCount l ↔ Stored l vector i := by
  unfold storeAt Stored Vm.padTo
  cases vector with
  | none => simp
  | some xs =>
    have := hfull xs rfl
    simp only [Option.getD_some, List.length_set, List.length_append, List.length_replicate,
      Option.isSome_some, true_or, iff_true]
    omega

theorem foldl_set_length {α : Type} (pos : α → Nat) (value : α → Value) (us : List α)
    (xs : List Value) : (us.foldl (fun xs u => xs.set (pos u) (value u)) xs).length = xs.length := by
  induction us generalizing xs with
  | nil => rfl
  | cons u us ih => rw [List.foldl_cons, ih, List.length_set]

theorem callVector_length {defaults : List Value} {execute : List Value → List Value}
    (hexec : ∀ xs, (execute xs).length = xs.length) (hdef : defaults.length = expandedFieldCount l)
    {vector : Option (List Value)} (hfull : FullLength l vector) (args forced : List (Nat × Value)) :
    (callVector l td defaults execute args forced vector).length =
      max (expandedFieldCount l) l.fields.length := by
  have hbefore : (vector.getD defaults).length = expandedFieldCount l := by
    cases vector with
    | none => exact hdef
    | some xs => exact hfull xs rfl
  simp only [callVector, foldl_set_length, hexec]
  simp only [Vm.padTo, List.length_append, List.length_replicate, hbefore]
  omega

theorem placed_lt {k e n : Nat} (h : valuePlace l k e = some n) : n < expandedFieldCount l := by
  obtain ⟨⟨f, hf, he⟩, rfl⟩ := (valuePlace_iff l).mp h
  have := fieldStart_lt hf
  rw [expandedFieldCount]
  omega

/-- **One use**: under the condition its positions are the places it is meant for
and the vector keeps its length. -/
theorem FieldUse.placed_of_plain {u : FieldUse} {vector : Option (List Value)}
    {defaults : List Value} {execute : List Value → List Value}
    (hexec : ∀ xs, (execute xs).length = xs.length) (hdef : defaults.length = expandedFieldCount l)
    (hfull : FullLength l vector) (h : u.Plain l td vector) :
    u.Placed l td ∧ FullLength l (u.apply l td defaults execute vector) := by
  cases u with
  | load k =>
    exact ⟨List.forall_mem_singleton.mpr ((numbered_iff l).mpr h), hfull⟩
  | store k v =>
    have hplace := (numbered_iff l).mpr h.1
    have hk : k.toUInt16.toNat = k % 65536 := by simp [Nat.toUInt16]
    refine ⟨List.forall_mem_singleton.mpr hplace, fun xs hxs => ?_⟩
    obtain rfl := Option.some.inj hxs
    exact (storeAt_length l hfull (placed_lt l hplace)).mpr (hk ▸ h.2)
  | loadIndex k indices =>
    exact ⟨List.forall_mem_singleton.mpr ((indexed_iff l).mpr h), hfull⟩
  | storeIndex k indices v =>
    have hplace := (indexed_iff l).mpr h.1
    obtain ⟨e, -, he⟩ := Option.bind_eq_some_iff.mp hplace
    refine ⟨List.forall_mem_singleton.mpr hplace, fun xs hxs => ?_⟩
    obtain rfl := Option.some.inj hxs
    exact (storeAt_length l hfull (placed_lt l he)).mpr h.2
  | call args forced =>
    obtain ⟨hargs, hforced, hcount⟩ := h
    refine ⟨fun a ha => ?_, fun xs hxs => ?_⟩
    · rcases List.mem_append.mp ha with ha | ha
      · obtain ⟨⟨arg, n⟩, hmem, rfl⟩ := List.mem_map.mp ha
        exact (numbered_iff l).mpr (hargs n arg (List.mem_zipIdx_iff_getElem?.mp hmem))
      · obtain ⟨p, hp, rfl⟩ := List.mem_map.mp ha
        exact (expanded_iff l td).mpr (hforced p hp)
    · obtain rfl := Option.some.inj hxs
      rw [callVector_length l td hexec hdef hfull]
      omega
  | force k v =>
    refine ⟨List.forall_mem_singleton.mpr ((numbered_iff l).mpr h), fun xs hxs => ?_⟩
    obtain ⟨ys, hys, rfl⟩ := Option.map_eq_some_iff.mp hxs
    rw [List.length_set, hfull ys hys]
  | enforce k v =>
    refine ⟨List.forall_mem_singleton.mpr ((expanded_iff l td).mpr h), fun xs hxs => ?_⟩
    obtain ⟨ys, hys, rfl⟩ := Option.map_eq_some_iff.mp hxs
    rw [List.length_set, hfull ys hys]
  | monitor k e =>
    exact ⟨List.forall_mem_singleton.mpr ((expanded_iff l td).mpr h), hfull⟩
  | retain k =>
    exact ⟨List.forall_mem_singleton.mpr ((valuePlace_iff l).mpr h), hfull⟩

/-- The condition is needed. -/
theorem FieldUse.plain_of_placed {u : FieldUse} {vector : Option (List Value)}
    {defaults : List Value} {execute : List Value → List Value}
    (hexec : ∀ xs, (execute xs).length = xs.length) (hdef : defaults.length = expandedFieldCount l)
    (hfull : FullLength l vector) (hplaced : u.Placed l td)
    (hlen : FullLength l (u.apply l td defaults execute vector)) : u.Plain l td vector := by
  cases u with
  | load k => exact (numbered_iff l).mp (hplaced _ List.mem_cons_self)
  | store k v =>
    have hplace := hplaced _ List.mem_cons_self
    have hk : k.toUInt16.toNat = k % 65536 := by simp [Nat.toUInt16]
    refine ⟨(numbered_iff l).mp hplace, ?_⟩
    rw [← hk]
    exact (storeAt_length l hfull (placed_lt l hplace)).mp (hlen _ rfl)
  | loadIndex k indices => exact (indexed_iff l).mp (hplaced _ List.mem_cons_self)
  | storeIndex k indices v =>
    have hplace : elementPlace l k indices = some (indexedAddress l k indices) :=
      hplaced _ List.mem_cons_self
    obtain ⟨e, -, he⟩ := Option.bind_eq_some_iff.mp hplace
    refine ⟨(indexed_iff l).mp hplace, ?_⟩
    exact (storeAt_length l hfull (placed_lt l he)).mp (hlen _ rfl)
  | call args forced =>
    refine ⟨fun n arg harg => ?_, fun p hp => ?_, ?_⟩
    · have harg' : (arg, n) ∈ args.zipIdx := List.mem_zipIdx_iff_getElem?.mpr harg
      have hmem := List.mem_map_of_mem (f := fun a : (Nat × Value) × Nat =>
        (a.2.toUInt16.toNat, valuePlace l a.1.1 0)) harg'
      exact (numbered_iff l).mp (hplaced _ (List.mem_append_left _ hmem))
    · have hmem := List.mem_map_of_mem (f := fun a : Nat × Value =>
        ((layoutToMemoryLayout l td).expandedIndex a.1, valuePlace l a.1 0)) hp
      exact (expanded_iff l td).mp (hplaced _ (List.mem_append_right _ hmem))
    · have h := hlen _ rfl
      rw [callVector_length l td hexec hdef hfull] at h
      omega
  | force k v => exact (numbered_iff l).mp (hplaced _ List.mem_cons_self)
  | enforce k v => exact (expanded_iff l td).mp (hplaced _ List.mem_cons_self)
  | monitor k e => exact (expanded_iff l td).mp (hplaced _ List.mem_cons_self)
  | retain k => exact (valuePlace_iff l).mp (hplaced _ List.mem_cons_self)

variable (defaults : List Value) (fb : NativeFb)

/-- In a sequence of uses every position is the place it is meant for, and the
vector always has the length of the layout. `n` counts the uses. -/
def Consistent : Nat → Option (List Value) → List FieldUse → Prop
  | _, _, [] => True
  | n, vector, u :: us =>
    u.Placed l td ∧ FullLength l (u.apply l td defaults (fb.execute n) vector) ∧
      Consistent (n + 1) (u.apply l td defaults (fb.execute n) vector) us

/-- Every use of a sequence meets the condition. -/
def AllPlain : Nat → Option (List Value) → List FieldUse → Prop
  | _, _, [] => True
  | n, vector, u :: us =>
    u.Plain l td vector ∧ AllPlain (n + 1) (u.apply l td defaults (fb.execute n) vector) us

theorem consistent_of_allPlain (hdef : defaults.length = expandedFieldCount l) (us : List FieldUse)
    {n : Nat} {vector : Option (List Value)} (hfull : FullLength l vector)
    (h : AllPlain l td defaults fb n vector us) : Consistent l td defaults fb n vector us := by
  induction us generalizing n vector with
  | nil => trivial
  | cons u us ih =>
    obtain ⟨hplaced, hlen⟩ := u.placed_of_plain l td (fb.execute_length n) hdef hfull h.1
    exact ⟨hplaced, hlen, ih hlen h.2⟩

theorem allPlain_of_consistent
    (hdef : defaults.length = expandedFieldCount l) (us : List FieldUse) {n : Nat}
    {vector : Option (List Value)} (hfull : FullLength l vector)
    (h : Consistent l td defaults fb n vector us) : AllPlain l td defaults fb n vector us := by
  induction us generalizing n vector with
  | nil => trivial
  | cons u us ih =>
    obtain ⟨hplaced, hlen, hrest⟩ := h
    exact ⟨u.plain_of_placed l td (fb.execute_length n) hdef hfull hplaced hlen,
      ih hlen hrest⟩

end

/-- **The numberings agree in a run exactly when every use meets the condition.** -/
theorem uses_consistent (l : NativeFbLayout) (td : Nat) (vm : Vm) (fb : NativeFb)
    (us : List FieldUse) :
    Consistent l td (vm.nativeDefaults (layoutToMemoryLayout l td)) fb 0 none us ↔
      AllPlain l td (vm.nativeDefaults (layoutToMemoryLayout l td)) fb 0 none us := by
  have hdef := nativeDefaults_length l td vm
  have hfull : FullLength l none := fun xs h => by cases h
  exact ⟨allPlain_of_consistent l td _ fb hdef us hfull,
    consistent_of_allPlain l td _ fb hdef us hfull⟩

/-- An array of three elements, then a scalar. -/
def arrayThenScalar : NativeFbLayout where
  typeName := "Probe"
  fields := [{ name := "samples", dataType := .int, input := false, dimensions := some [(0, 2)] },
    { name := "count", dataType := .int, input := false, dimensions := none }]

/-- `count` is at place 3; the program stores it at 1, into `samples`. A store before
the first call leaves a vector of one value, and no call makes it longer than the
two fields. -/
theorem count_stored_into_samples :
    (FieldUse.store 1 (.int 5)).addresses arrayThenScalar 0 = [(1, some 3)] ∧
    storeAt 0 (.int 5) none = [.int 5] ∧
    ∀ (vm : Vm) (fb : NativeFb),
      ¬ Consistent arrayThenScalar 0 (vm.nativeDefaults (layoutToMemoryLayout arrayThenScalar 0)) fb 0
        none [.call [] [], .store 1 (.int 5)] := by
  refine ⟨by decide, by decide, fun vm fb h => ?_⟩
  have hplaced := h.2.2.1 (1, some 3) (by decide)
  cases hplaced

end RustPlc.Devices
