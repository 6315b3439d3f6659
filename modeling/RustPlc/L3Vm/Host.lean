import RustPlc.L1Ir.Names
import RustPlc.L3Vm.Step

/-!
# What the host does to a machine

The operations of `Vm` that the engine, the monitor and the retain store
call between scan cycles (crates/st-engine/src/vm.rs:175-467, 1225-1257):
reading and writing globals by name or slot, forcing variables, and
replacing the module.

An indexing outside a vector is an error, as in `Step`. The retained locals
are a hash map in the source; here they are visited in the order of the
functions of the module (`retainedPrograms`).

The rules at the end say what an invariant needs to survive a force and
`enforce_retained_locals`.
-/
namespace RustPlc.Engine

open RustPlc.Ir RustPlc.Core

/-- `caller_id` of a frame that runs program `i` itself. -/
def programIdentity (i : UInt16) : UInt32 := (0xFFFF : UInt16).toUInt32 <<< 16 ||| i.toUInt32

/-- `name.find('.')`: what stands before and after the first dot. -/
def splitDot (name : String) : Option (String × String) :=
  let cs := name.toList
  if '.' ∈ cs then
    some (String.ofList (cs.takeWhile (· != '.')), String.ofList ((cs.dropWhile (· != '.')).drop 1))
  else none

namespace Vm

/-! ## Globals -/

/-- mirrors crates/st-engine/src/vm.rs:194-199 -/
def getGlobal (vm : Vm) (name : String) : Except Trap (Option Value) :=
  match vm.module.globals.findSlot name with
  | some (i, _) => (index vm.globals i.toNat).map some
  | none => .ok none

/-- mirrors crates/st-engine/src/vm.rs:202-212 -/
def setGlobal (vm : Vm) (name : String) (v : Value) : Except Trap Vm :=
  match vm.module.globals.findSlot name with
  | some (i, slot) =>
    if i ∈ vm.forcedGlobalSlots then .ok vm
    else (indexSet vm.globals i.toNat (narrowValue v slot.intWidth)).map
      fun gs => { vm with globals := gs }
  | none => .ok vm

/-- mirrors crates/st-engine/src/vm.rs:218-233 -/
def setGlobalBySlot (vm : Vm) (slot : UInt16) (v : Value) : Vm :=
  if vm.globals.length ≤ slot.toNat then vm
  else if slot ∈ vm.forcedGlobalSlots then vm
  else { vm with
    globals := vm.globals.set slot.toNat (narrowValue v (slotWidth vm.module.globals slot)) }

/-- mirrors crates/st-engine/src/vm.rs:1231-1235: neither forces nor the
width are looked at. -/
def setGlobalUnchecked (vm : Vm) (slot : UInt16) (v : Value) : Vm :=
  { vm with globals := vm.globals.set slot.toNat v }

/-! ## Retained locals -/

/-- mirrors crates/st-engine/src/vm.rs:246-249 -/
def getRetainedLocals (vm : Vm) (funcName : String) : Option (List Value) :=
  (vm.module.findFunction funcName).bind fun (i, _) => Finmap.lookup i vm.retainedLocals

/-- mirrors crates/st-engine/src/vm.rs:1243-1245 -/
def setRetainedLocals (vm : Vm) (i : UInt16) (locals : List Value) : Vm :=
  { vm with retainedLocals := Finmap.insert i locals vm.retainedLocals }

/-- The PROGRAMs with retained locals: index, function and locals. -/
def retainedPrograms (vm : Vm) : List (UInt16 × Function × List Value) :=
  vm.module.functions.zipIdx.filterMap fun (func, i) =>
    if func.kind = .program ∧ i < 65536 then
      (Finmap.lookup i.toUInt16 vm.retainedLocals).map fun ls => (i.toUInt16, func, ls)
    else none

/-! ## Forces -/

/-- The fields of a struct or function block variable, each with its place
in the instance. mirrors crates/st-engine/src/vm.rs:396-430 -/
def instanceFields (vm : Vm) : VarType → Except Trap (List (Nat × VarSlot))
  | .struct td => .ok (match vm.structTypeFields td with
    | some fields => fields.zipIdx.map fun (s, j) => (j, s)
    | none => [])
  | .fbInstance fb => (index vm.module.functions fb.toNat).map fun func =>
    func.locals.slots.zipIdx.map fun (s, j) => (func.locals.expandedIndex j, s)
  | _ => .ok []

/-- Overwrite one field of an instance that exists. -/
def patchInstance (vm : Vm) (key : InstanceKey) (i : Nat) (v : Value) : Vm :=
  match Finmap.lookup key vm.fbInstances with
  | some state => vm.putInstance key (state.set i v)
  | none => vm

/-- `"instance.field"` of a program: `none` when the slot is not a struct or
function block, and the scalar case goes on.
mirrors crates/st-engine/src/vm.rs:296-337 -/
def forceField (vm : Vm) (i : UInt16) (prog : Function) (instanceName fieldName : String)
    (v : Value) : Option (Except Trap Vm) := do
  let (j, slot) ← findIdx (fun s => eqIgnoreAsciiCase s.name instanceName) prog.locals.slots
  let key := (programIdentity i, j.toUInt16)
  match slot.ty with
  | .struct td => some (.ok (match vm.structTypeFields td with
    | some fields => match findIdx (fun f => eqIgnoreAsciiCase f.name fieldName) fields with
      | some (pos, field) => vm.patchInstance key pos (narrowValue v field.intWidth)
      | none => vm
    | none => vm))
  | .fbInstance fb => some ((index vm.module.functions fb.toNat).map fun func =>
    match func.locals.findSlot fieldName with
    | some (pos, field) => vm.patchInstance key pos.toNat (narrowValue v field.intWidth)
    | none => vm)
  | _ => none

/-- A scalar local of a program that has run.
mirrors crates/st-engine/src/vm.rs:339-346 -/
def forceScalar (vm : Vm) (i : UInt16) (prog : Function) (localName : String) (v : Value) : Vm :=
  match Finmap.lookup i vm.retainedLocals with
  | some locals =>
    match findIdx (fun s => eqIgnoreAsciiCase s.name localName) prog.locals.slots with
    | some (j, slot) => vm.setRetainedLocals i (locals.set j (narrowValue v slot.intWidth))
    | none => vm
  | none => vm

/-- The write into the storage of a program local or of a field of one.
mirrors crates/st-engine/src/vm.rs:280-350 -/
def forceLocal (vm : Vm) (name : String) (v : Value) : Except Trap Vm :=
  match splitDot name with
  | none => .ok vm
  | some (progName, localName) =>
    match findIdx (fun f => f.kind == .program && eqIgnoreAsciiCase f.name progName)
        vm.module.functions with
    | none => .ok vm
    | some (i, prog) =>
      let field := (splitDot localName).bind fun (instanceName, fieldName) =>
        vm.forceField i.toUInt16 prog instanceName fieldName v
      field.getD (.ok (vm.forceScalar i.toUInt16 prog localName v))

/-- mirrors crates/st-engine/src/vm.rs:258-352 -/
def forceVariable (vm : Vm) (name : String) (v : Value) : Except Trap Vm :=
  match vm.module.globals.findSlot name with
  | some (slot, slotDef) =>
    let narrowed := narrowValue v slotDef.intWidth
    .ok { vm with
      forcedVariables := Finmap.insert (toUppercase name) narrowed vm.forcedVariables
      forcedGlobalSlots := insert slot vm.forcedGlobalSlots
      globals := vm.globals.set slot.toNat narrowed }
  | none =>
    forceLocal { vm with
      forcedVariables := Finmap.insert (toUppercase name) v vm.forcedVariables } name v

/-- mirrors crates/st-engine/src/vm.rs:355-360 -/
def unforceVariable (vm : Vm) (name : String) : Vm :=
  { vm with
    forcedVariables := Finmap.erase (toUppercase name) vm.forcedVariables
    forcedGlobalSlots := match vm.module.globals.findSlot name with
      | some (slot, _) => vm.forcedGlobalSlots.erase slot
      | none => vm.forcedGlobalSlots }

/-- The forced values over the locals of program `prog`. -/
def enforceLocals (vm : Vm) (prog : Function) (locals : List Value) : List Value :=
  prog.locals.slots.zipIdx.foldl (fun acc (slot, i) =>
    match vm.forced? (prog.name ++ "." ++ slot.name) with
    | some v => acc.set i (narrowValue v slot.intWidth)
    | none => acc) locals

/-- The forces on the fields of the instance variable of slot `j`. -/
def slotForces (vm : Vm) (i : UInt16) (prog : Function) (slot : VarSlot) (j : Nat) :
    Except Trap (List (InstanceKey × Nat × Value)) :=
  (vm.instanceFields slot.ty).map fun fields => fields.filterMap fun (pos, field) =>
    (vm.forced? (prog.name ++ "." ++ slot.name ++ "." ++ field.name)).map fun v =>
      ((programIdentity i, j.toUInt16), pos, narrowValue v field.intWidth)

/-- The forces on the fields of the instances of program `prog`. -/
def fieldForces (vm : Vm) (i : UInt16) (prog : Function) :
    Except Trap (List (InstanceKey × Nat × Value)) :=
  (prog.locals.slots.zipIdx.mapM fun (slot, j) => vm.slotForces i prog slot j).map List.flatten

/-- mirrors crates/st-engine/src/vm.rs:370-443 -/
def enforceRetainedLocals (vm : Vm) : Except Trap Vm :=
  if vm.forcedVariables.keys = ∅ then .ok vm
  else if ∃ i ∈ vm.retainedLocals.keys, vm.module.functions.length ≤ i.toNat then
    .error .indexOutOfBounds
  else do
    let progs := vm.retainedPrograms
    let forces ← progs.mapM fun (i, prog, _) => vm.fieldForces i prog
    let vm' : Vm := { vm with
      retainedLocals := progs.foldl (fun m (i, prog, ls) =>
        Finmap.insert i (vm.enforceLocals prog ls) m) vm.retainedLocals }
    return forces.flatten.foldl (fun w (key, pos, v) => w.patchInstance key pos v) vm'

/-! ## Replacing the module -/

/-- mirrors crates/st-engine/src/vm.rs:457-467 -/
def swapModule (vm : Vm) (newModule : Module) (migratedLocals : Map UInt16 (List Value))
    (newGlobals : List Value) : Vm :=
  { vm with
    module := newModule
    globals := newGlobals
    retainedLocals := migratedLocals
    callStack := [] }

/-! ## Scan cycles -/

section

variable [F64Ops]

/-- mirrors crates/st-engine/src/vm.rs:175-179 -/
def scanCycle (fuel : Nat) (vm : Vm) (programName : String) : Option Stop :=
  vm.run fuel programName

end

/-! ## Rules -/

section

variable {vm vm' : Vm} {P : Vm → Prop}

theorem mem_retainedPrograms {i : UInt16} {prog : Function} {ls : List Value}
    (h : (i, prog, ls) ∈ vm.retainedPrograms) :
    vm.module.functions[i.toNat]? = some prog ∧ prog.kind = .program ∧
      Finmap.lookup i vm.retainedLocals = some ls := by
  unfold retainedPrograms at h
  obtain ⟨⟨func, k⟩, hmem, hx⟩ := List.mem_filterMap.mp h
  simp only at hx
  split at hx
  · next hc =>
    simp only [Option.map_eq_some_iff, Prod.mk.injEq] at hx
    obtain ⟨ls', hl, rfl, rfl, rfl⟩ := hx
    rw [toNat_toUInt16 hc.2]
    exact ⟨List.mem_zipIdx_iff_getElem?.mp hmem, hc.1, hl⟩
  · cases hx

/-- The places where the host finds a field of a struct or function block:
a force counts the slots, `enforce_retained_locals` also the elements of
array slots. -/
def FieldPlace (vm : Vm) (ty : VarType) (pos : Nat) (field : VarSlot) : Prop :=
  match ty with
  | .struct td => ∃ fields, vm.structTypeFields td = some fields ∧ fields[pos]? = some field
  | .fbInstance fb => ∃ func, vm.module.functions[fb.toNat]? = some func ∧
    ((∃ name p, func.locals.findSlot name = some (p, field) ∧ pos = p.toNat) ∨
      ∃ k, func.locals.slots[k]? = some field ∧ pos = func.locals.expandedIndex k)
  | _ => False

/-- A write to a field of an instance variable of a program. -/
def FieldWrite (vm : Vm) (key : InstanceKey) (pos : Nat) (field : VarSlot) : Prop :=
  ∃ (i : Nat) (prog : Function) (j : Nat) (slot : VarSlot),
    vm.module.functions[i]? = some prog ∧ prog.kind = .program ∧
    prog.locals.slots[j]? = some slot ∧ key = (programIdentity i.toUInt16, j.toUInt16) ∧
    FieldPlace vm slot.ty pos field

theorem index_ok {α : Type} {xs : List α} {i : Nat} {x : α} (h : index xs i = .ok x) :
    xs[i]? = some x := by
  unfold index at h
  split at h
  · next hx => exact Except.ok.inj h ▸ hx
  · cases h

theorem mapM_mem {α β ε : Type} {f : α → Except ε β} : ∀ {xs : List α} {ys : List β},
    xs.mapM f = .ok ys → ∀ y ∈ ys, ∃ x ∈ xs, f x = .ok y
  | [], ys, h, y, hy => by
    cases h
    cases hy
  | x :: xs, ys, h, y, hy => by
    rw [List.mapM_cons] at h
    cases hx : f x with
    | error e => simp [hx, bind, Except.bind] at h
    | ok b =>
      cases hxs : xs.mapM f with
      | error e => simp [hx, hxs, bind, Except.bind] at h
      | ok bs =>
        simp only [hx, hxs, bind, Except.bind, pure, Except.pure, Except.ok.injEq] at h
        subst h
        rcases List.mem_cons.mp hy with rfl | hy
        · exact ⟨x, List.mem_cons_self .., hx⟩
        · obtain ⟨z, hz, hfz⟩ := mapM_mem hxs y hy
          exact ⟨z, List.mem_cons_of_mem x hz, hfz⟩

theorem mem_instanceFields {ty : VarType} {fields : List (Nat × VarSlot)}
    (h : vm.instanceFields ty = .ok fields) {pos : Nat} {field : VarSlot}
    (hmem : (pos, field) ∈ fields) : FieldPlace vm ty pos field := by
  unfold instanceFields at h
  split at h
  · next td =>
    cases h
    split at hmem
    · next fs hfs =>
      obtain ⟨⟨s, j⟩, hs, heq⟩ := List.mem_map.mp hmem
      cases heq
      exact ⟨fs, hfs, List.mem_zipIdx_iff_getElem?.mp hs⟩
    · cases hmem
  · next fb =>
    cases hfb : index vm.module.functions fb.toNat with
    | error t => simp [hfb, Except.map] at h
    | ok func =>
      simp only [hfb, Except.map, Except.ok.injEq] at h
      subst h
      obtain ⟨⟨s, j⟩, hs, heq⟩ := List.mem_map.mp hmem
      cases heq
      exact ⟨func, index_ok hfb, .inr ⟨j, List.mem_zipIdx_iff_getElem?.mp hs, rfl⟩⟩
  · cases h
    cases hmem

/-- A force of a program local writes a retained local or an instance field,
with the value narrowed. -/
theorem forceLocal_inv {name : String} {v : Value} (h0 : P vm)
    (hscalar : ∀ (i : Nat) (prog : Function) (j : Nat) (slot : VarSlot) (locals : List Value),
      vm.module.functions[i]? = some prog → prog.kind = .program → prog.locals.slots[j]? = some slot →
      Finmap.lookup i.toUInt16 vm.retainedLocals = some locals →
      P (vm.setRetainedLocals i.toUInt16 (locals.set j (narrowValue v slot.intWidth))))
    (hfield : ∀ key pos (field : VarSlot), FieldWrite vm key pos field →
      P (vm.patchInstance key pos (narrowValue v field.intWidth)))
    (h : vm.forceLocal name v = .ok vm') : P vm' := by
  unfold forceLocal at h
  split at h
  · exact Except.ok.inj h ▸ h0
  · next progName localName _ =>
    split at h
    · exact Except.ok.inj h ▸ h0
    · next i prog hprog =>
      have hat := (findIdx_some hprog).1
      have hkind := (findIdx_some hprog).2.1
      simp only [Bool.and_eq_true, beq_iff_eq] at hkind
      simp only at h
      cases hx : (splitDot localName).bind fun (a, b) => vm.forceField i.toUInt16 prog a b v with
      | none =>
        rw [hx] at h
        simp only [Option.getD_none, Except.ok.injEq, forceScalar] at h
        subst h
        split
        · next locals hl =>
          split
          · next j slot hj =>
            exact hscalar i prog j slot locals hat hkind.1 (findIdx_some hj).1 hl
          · exact h0
        · exact h0
      | some r =>
        rw [hx] at h
        simp only [Option.getD_some] at h
        subst h
        obtain ⟨⟨instName, fieldName⟩, -, hf⟩ := Option.bind_eq_some_iff.mp hx
        simp only [forceField, bind, Option.bind_eq_some_iff] at hf
        obtain ⟨⟨j, slot⟩, hj, hf⟩ := hf
        have hslot := (findIdx_some hj).1
        simp only at hf
        split at hf
        · next td hty =>
          simp only [Option.some.injEq, Except.ok.injEq] at hf
          subst hf
          split
          · next fields hfields =>
            split
            · next pos field hpos =>
              refine hfield _ _ field ⟨i, prog, j, slot, hat, hkind.1, hslot, rfl, ?_⟩
              rw [hty]
              exact ⟨fields, hfields, (findIdx_some hpos).1⟩
            · exact h0
          · exact h0
        · next fb hty =>
          cases hfb : index vm.module.functions fb.toNat with
          | error t => simp [hfb, Except.map] at hf
          | ok func =>
            simp only [hfb, Except.map, Option.some.injEq, Except.ok.injEq] at hf
            subst hf
            split
            · next pos field hpos =>
              refine hfield _ _ field ⟨i, prog, j, slot, hat, hkind.1, hslot, rfl, ?_⟩
              rw [hty]
              exact ⟨func, index_ok hfb, .inl ⟨fieldName, pos, hpos, rfl⟩⟩
            · exact h0
        · cases hf

/-- A forced value of a name with this key. -/
def IsForced (vm : Vm) (v : Value) : Prop := ∃ name, vm.forced? name = some v

/-- The forces on fields are narrowed writes to fields. -/
theorem mem_fieldForces {i : UInt16} {prog : Function} {forces : List (InstanceKey × Nat × Value)}
    (hat : vm.module.functions[i.toNat]? = some prog) (hkind : prog.kind = .program)
    (h : vm.fieldForces i prog = .ok forces) : ∀ p ∈ forces, ∃ field v,
      FieldWrite vm p.1 p.2.1 field ∧ IsForced vm v ∧ p.2.2 = narrowValue v field.intWidth := by
  unfold fieldForces at h
  cases hm : prog.locals.slots.zipIdx.mapM fun (slot, j) => vm.slotForces i prog slot j with
  | error t => simp [hm, Except.map] at h
  | ok xs =>
    simp only [hm, Except.map, Except.ok.injEq] at h
    subst h
    intro p hp
    obtain ⟨ys, hys, hp⟩ := List.mem_flatten.mp hp
    obtain ⟨⟨slot, j⟩, hslot, hy⟩ := mapM_mem hm ys hys
    rw [List.mem_zipIdx_iff_getElem?] at hslot
    simp only [slotForces] at hy
    cases hf : vm.instanceFields slot.ty with
    | error t => simp [hf, Except.map] at hy
    | ok fields =>
      simp only [hf, Except.map, Except.ok.injEq] at hy
      subst hy
      obtain ⟨⟨pos, field⟩, hpos, hmap⟩ := List.mem_filterMap.mp hp
      obtain ⟨v, hforced, rfl⟩ := Option.map_eq_some_iff.mp hmap
      refine ⟨field, v, ⟨i.toNat, prog, j, slot, hat, hkind, hslot, by simp, ?_⟩, ⟨_, hforced⟩, rfl⟩
      exact mem_instanceFields hf hpos

/-- `enforce_retained_locals` replaces the locals of programs by the enforced
ones and overwrites instance fields, always with narrowed forced values. -/
theorem enforceRetainedLocals_inv (h0 : P vm)
    (hlocals : ∀ w i prog ls, P w → (i, prog, ls) ∈ vm.retainedPrograms →
      P (w.setRetainedLocals i (vm.enforceLocals prog ls)))
    (hfield : ∀ w key pos (field : VarSlot) v, P w → FieldWrite vm key pos field → IsForced vm v →
      P (w.patchInstance key pos (narrowValue v field.intWidth)))
    (h : vm.enforceRetainedLocals = .ok vm') : P vm' := by
  unfold enforceRetainedLocals at h
  split at h
  · exact Except.ok.inj h ▸ h0
  · split at h
    · cases h
    · cases hf : vm.retainedPrograms.mapM fun (i, prog, _) => vm.fieldForces i prog with
      | error t => simp [hf, bind, Except.bind] at h
      | ok forces =>
        simp only [hf, bind, Except.bind, pure, Except.pure, Except.ok.injEq] at h
        subst h
        refine List.foldlRecOn (motive := P) _ _ ?_ ?_
        · refine List.foldlRecOn
            (motive := fun r : Map UInt16 (List Value) => P { vm with retainedLocals := r })
            _ _ h0 ?_
          rintro r hr ⟨i, prog, ls⟩ hmem
          exact hlocals _ i prog ls hr hmem
        · rintro w hw ⟨key, pos, x⟩ hmem
          obtain ⟨ys, hys, hmem⟩ := List.mem_flatten.mp hmem
          obtain ⟨⟨i, prog, ls⟩, hprog, hy⟩ := mapM_mem hf ys hys
          obtain ⟨hat, hkind, -⟩ := mem_retainedPrograms hprog
          obtain ⟨field, v, hwrite, hv, heq⟩ := mem_fieldForces hat hkind hy _ hmem
          simp only at heq
          exact heq ▸ hfield w key pos field v hw hwrite hv

end

end Vm

end RustPlc.Engine
