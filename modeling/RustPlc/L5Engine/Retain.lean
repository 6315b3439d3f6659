import RustPlc.L3Vm.Host

/-!
# Retain snapshots

`capture_snapshot` and `restore_snapshot`
(crates/st-engine/src/retain_store.rs:57-448). The maps of a snapshot are
association lists with one entry per name; the source iterates over hash
maps, whose order it does not fix, and here the order is that of the
insertions. The snapshot's version and time stamp are not read by the
restore and are left out, and so is the JSON file between the two.

Names are compared exactly here, not without regard to case.

`restoreSnapshot_inv` says what an invariant of the machine needs to survive
a restore.
-/
namespace RustPlc.Engine

open RustPlc.Ir RustPlc.Core

/-! ## Snapshots -/

/-- mirrors crates/st-engine/src/retain_store.rs:30-34 -/
structure RetainEntry where
  value : Value
  retain : Bool
  persistent : Bool
  deriving DecidableEq, Repr

/-- `HashMap<String, α>`. -/
abbrev Named (α : Type) := List (String × α)

namespace Named

variable {α : Type}

/-- `map.insert(name, a)` -/
def insert (name : String) (a : α) : Named α → Named α
  | [] => [(name, a)]
  | (k, b) :: xs => if k = name then (name, a) :: xs else (k, b) :: insert name a xs

/-- `map.get(name)` -/
def get (name : String) (xs : Named α) : Option α := (xs.find? fun p => p.1 == name).map (·.2)

end Named

/-- mirrors crates/st-engine/src/retain_store.rs:38-53 -/
structure RetainSnapshot where
  globals : Named RetainEntry
  programLocals : Named (Named RetainEntry)
  instanceFields : Named (Named (Named RetainEntry))
  deriving DecidableEq, Repr

/-- Whether a variable has one of the two qualifiers. -/
def retainable (s : VarSlot) : Bool := s.retain || s.persistent

/-- The entry of a variable of `slot` with value `v`. -/
def entryOf (slot : VarSlot) (v : Value) : RetainEntry := ⟨v, slot.retain, slot.persistent⟩

/-- A function block, class, struct or array: kept outside the locals. -/
def isComposite : VarType → Bool
  | .fbInstance _ | .classInstance _ | .struct _ | .array _ => true
  | _ => false

/-- The scalar fields of an instance; a field without a stored value has its
type's default. mirrors crates/st-engine/src/retain_store.rs:57-92, 156-176 -/
def captureFields (slot : VarSlot) (fields : List VarSlot) (state : Option (List Value)) :
    Named RetainEntry :=
  fields.zipIdx.foldl (fun acc (field, j) =>
    if isComposite field.ty then acc
    else acc.insert field.name
      (entryOf slot (((state.bind (·[j]?)).getD (Value.defaultForType field.ty))))) []

/-- What one program contributes to a snapshot. -/
structure Captured where
  vars : Named RetainEntry
  instances : Named (Named RetainEntry)
  deriving DecidableEq, Repr

/-- mirrors crates/st-engine/src/retain_store.rs:128-196, one slot. -/
def captureSlot (vm : Vm) (i : UInt16) (locals : List Value) (acc : Captured)
    (slot : VarSlot) (j : Nat) : Except Trap Captured :=
  let state := Finmap.lookup (programIdentity i, j.toUInt16) vm.fbInstances
  let addFields := fun fields : List VarSlot => match captureFields slot fields state with
    | [] => acc
    | entries => { acc with instances := acc.instances.insert slot.name entries }
  if !retainable slot then .ok acc
  else match slot.ty with
    | .struct td => .ok (match vm.structTypeFields td with
      | some fields => addFields fields
      | none => acc)
    | .fbInstance fb => (index vm.module.functions fb.toNat).map fun func => addFields func.locals.slots
    | .classInstance _ | .array _ => .ok acc
    | _ => .ok { acc with
      vars := acc.vars.insert slot.name (entryOf slot (locals[j]?.getD .void)) }

/-- mirrors crates/st-engine/src/retain_store.rs:118-200, one program. -/
def captureProgram (vm : Vm) (i : UInt16) (prog : Function) (locals : List Value) :
    Except Trap Captured :=
  prog.locals.slots.zipIdx.foldlM (fun acc (slot, j) => captureSlot vm i locals acc slot j) ⟨[], []⟩

/-- mirrors crates/st-engine/src/retain_store.rs:99-113 -/
def captureGlobals (vm : Vm) : Named RetainEntry :=
  vm.module.globals.slots.zipIdx.foldl (fun acc (slot, i) =>
    if !retainable slot then acc
    else acc.insert slot.name (entryOf slot (vm.globals[i]?.getD .void))) []

/-- mirrors crates/st-engine/src/retain_store.rs:94-213 -/
def captureSnapshot (vm : Vm) : Except Trap RetainSnapshot :=
  if ∃ i ∈ vm.retainedLocals.keys, vm.module.functions.length ≤ i.toNat then
    .error .indexOutOfBounds
  else vm.retainedPrograms.foldlM (fun snap (i, prog, locals) => do
    let c ← captureProgram vm i prog locals
    return { snap with
      programLocals := match c.vars with
        | [] => snap.programLocals
        | vars => snap.programLocals.insert prog.name vars
      instanceFields := match c.instances with
        | [] => snap.instanceFields
        | instances => snap.instanceFields.insert prog.name instances })
    ⟨captureGlobals vm, [], []⟩

/-! ## Restoring -/

/-- mirrors crates/st-engine/src/retain_store.rs:480-491 -/
def isCompatible : Value → VarType → Bool
  | .bool _, .bool => true
  | .int _, .int => true
  | .uint _, .uint => true
  | .real _, .real => true
  | .string _, .string => true
  | .time _, .time => true
  | _, _ => false

/-- Whether a warm or a cold restart restores the entry. -/
def RetainEntry.dominated (e : RetainEntry) (warm : Bool) : Bool :=
  if warm then e.retain else e.persistent

/-- The first slot of exactly this name. -/
def exactSlot (slots : List VarSlot) (name : String) : Option (Nat × VarSlot) :=
  findIdx (fun s => s.name == name) slots

/-- The PROGRAM of exactly this name. -/
def exactProgram (m : Module) (name : String) : Option (Nat × Function) :=
  findIdx (fun f => f.kind == .program && f.name == name) m.functions

/-- A vector of `defaults` with the values of `existing` over it. -/
def carryOver (defaults existing : List Value) : List Value :=
  existing.take defaults.length ++ defaults.drop existing.length

/-- The entries written over `values`, each into the slot of its name; with
the warnings. mirrors crates/st-engine/src/retain_store.rs:305-329, 372-395 -/
def restoreEntries (path : String) (slots : List VarSlot) (select : RetainEntry → Bool)
    (entries : Named RetainEntry) (values : List Value) : List Value × List String :=
  entries.foldl (fun (values, warnings) (name, entry) =>
    if !select entry then (values, warnings)
    else match exactSlot slots name with
      | some (j, slot) =>
        if isCompatible entry.value slot.ty then (values.set j entry.value, warnings)
        else (values, warnings ++ [path ++ "." ++ name ++ ": type mismatch, skipped"])
      | none => (values, warnings ++ [path ++ "." ++ name ++ ": no longer exists, skipped"]))
    (values, [])

/-- mirrors crates/st-engine/src/retain_store.rs:261-279 -/
def restoreGlobals (warm : Bool) (entries : Named RetainEntry) (vm : Vm) : Vm × List String :=
  entries.foldl (fun (vm, warnings) (name, entry) =>
    if !entry.dominated warm then (vm, warnings)
    else match exactSlot vm.module.globals.slots name with
      | some (i, slot) =>
        if isCompatible entry.value slot.ty then
          (vm.setGlobalUnchecked i.toUInt16 entry.value, warnings)
        else (vm, warnings ++ ["Global '" ++ name ++ "': type mismatch, skipped"])
      | none => (vm, warnings ++ ["Global '" ++ name ++ "': no longer exists, skipped"]))
    (vm, [])

/-- mirrors crates/st-engine/src/retain_store.rs:282-334 -/
def restoreProgram (warm : Bool) (progName : String) (vars : Named RetainEntry) (vm : Vm) :
    Vm × List String :=
  match exactProgram vm.module progName with
  | none => (vm, [])
  | some (i, prog) =>
    let existing := (Finmap.lookup i.toUInt16 vm.retainedLocals).getD []
    let (locals, warnings) := restoreEntries progName prog.locals.slots (·.dominated warm) vars
      (carryOver prog.locals.defaults existing)
    (vm.setRetainedLocals i.toUInt16 locals, warnings)

/-- The fields of one instance over its state, its state over the defaults.
mirrors crates/st-engine/src/retain_store.rs:365-396, 398-434 -/
def restoreFields (path : String) (key : InstanceKey) (slots : List VarSlot)
    (fields : Named RetainEntry) (vm : Vm) : Vm × List String :=
  let existing := (Finmap.lookup key vm.fbInstances).getD []
  let (state, warnings) := restoreEntries path slots (fun _ => true) fields
    (carryOver (slots.map fun s => Value.defaultForType s.ty) existing)
  (vm.putInstance key state, warnings)

/-- mirrors crates/st-engine/src/retain_store.rs:343-443, one instance; the
first field decides whether it is restored. -/
def restoreInstance (warm : Bool) (progName : String) (i : UInt16) (prog : Function)
    (instName : String) (fields : Named RetainEntry) (vm : Vm) : Except Trap (Vm × List String) :=
  let path := progName ++ "." ++ instName
  match fields with
  | [] => .ok (vm, [])
  | (_, first) :: _ =>
    if !first.dominated warm then .ok (vm, [])
    else match exactSlot prog.locals.slots instName with
      | none => .ok (vm, [path ++ ": no longer exists, skipped"])
      | some (j, slot) =>
        let key := (programIdentity i, j.toUInt16)
        match slot.ty with
        | .struct td => .ok (match vm.structTypeFields td with
          | some typeFields => restoreFields path key typeFields fields vm
          | none => (vm, []))
        | .fbInstance fb => (index vm.module.functions fb.toNat).map fun func =>
          restoreFields path key func.locals.slots fields vm
        | _ => .ok (vm, [path ++ ": not a struct/FB, skipped instance fields"])

/-- mirrors crates/st-engine/src/retain_store.rs:338-445, one program. -/
def restoreInstances (warm : Bool) (progName : String) (instances : Named (Named RetainEntry))
    (vm : Vm) : Except Trap (Vm × List String) :=
  match exactProgram vm.module progName with
  | none => .ok (vm, [])
  | some (i, prog) => instances.foldlM (fun (vm, warnings) (instName, fields) => do
    let (vm', w) ← restoreInstance warm progName i.toUInt16 prog instName fields vm
    return (vm', warnings ++ w)) (vm, [])

/-- mirrors crates/st-engine/src/retain_store.rs:225-448 -/
def restoreSnapshot (vm : Vm) (snapshot : RetainSnapshot) (warm : Bool) :
    Except Trap (Vm × List String) := do
  let (vm, w) := restoreGlobals warm snapshot.globals vm
  let (vm, w) := snapshot.programLocals.foldl (fun (vm, w) (progName, vars) =>
    let (vm', w') := restoreProgram warm progName vars vm
    (vm', w ++ w')) (vm, w)
  snapshot.instanceFields.foldlM (fun (vm, w) (progName, instances) => do
    let (vm', w') ← restoreInstances warm progName instances vm
    return (vm', w ++ w')) (vm, w)

/-! ## The rule of a restore -/

/-- What a fold of fallible steps keeps. -/
theorem foldlM_inv {α β ε : Type} {P : β → Prop} {f : β → α → Except ε β} {xs : List α} :
    ∀ {b b' : β}, (∀ b a b', a ∈ xs → P b → f b a = .ok b' → P b') → P b →
      xs.foldlM f b = .ok b' → P b' := by
  induction xs with
  | nil =>
    intro b b' _ hb h
    exact Except.ok.inj h ▸ hb
  | cons x xs ih =>
    intro b b' hstep hb h
    rw [List.foldlM_cons] at h
    cases hx : f b x with
    | error e => simp [hx, bind, Except.bind] at h
    | ok c =>
      simp only [hx, bind, Except.bind] at h
      exact ih (fun b a b' ha => hstep b a b' (List.mem_cons_of_mem x ha))
        (hstep b x c (List.mem_cons_self ..) hb hx) h

/-- The restored values: the old ones with entries of the right kind written
over them. -/
inductive Restored (slots : List VarSlot) : List Value → List Value → Prop where
  | refl (xs) : Restored slots xs xs
  | set {xs ys : List Value} (j : Nat) (slot : VarSlot) (v : Value) (h : Restored slots xs ys)
      (hs : slots[j]? = some slot) (hv : isCompatible v slot.ty = true) :
    Restored slots xs (ys.set j v)

theorem restoreEntries_restored (path : String) (slots : List VarSlot)
    (select : RetainEntry → Bool) (entries : Named RetainEntry) (values : List Value) :
    Restored slots values (restoreEntries path slots select entries values).1 := by
  unfold restoreEntries
  refine List.foldlRecOn
    (motive := fun p : List Value × List String => Restored slots values p.1) _ _ (.refl _) ?_
  rintro ⟨vs, w⟩ hvs ⟨name, entry⟩ -
  simp only
  split
  · exact hvs
  · split
    · next j slot hj =>
      split
      · next hc => exact .set j slot entry.value hvs (findIdx_some hj).1 hc
      · exact hvs
    · exact hvs

theorem Restored.length {slots : List VarSlot} {xs ys : List Value} (h : Restored slots xs ys) :
    ys.length = xs.length := by
  induction h with
  | refl => rfl
  | set j slot v _ _ _ ih => simpa using ih

theorem carryOver_length (ds xs : List Value) : (carryOver ds xs).length = ds.length := by
  simp only [carryOver, List.length_append, List.length_take, List.length_drop]
  omega

/-- The fields a restore writes under a key: those of the struct or function
block variable of a program. -/
def RestoredFields (m : Module) (key : InstanceKey) (fields : List VarSlot) : Prop :=
  ∃ (i : Nat) (prog : Function) (j : Nat) (slot : VarSlot),
    m.functions[i]? = some prog ∧ prog.kind = .program ∧ prog.locals.slots[j]? = some slot ∧
    key = (programIdentity i.toUInt16, j.toUInt16) ∧
    ((∃ td name, slot.ty = .struct td ∧ m.typeDefs[td.toNat]? = some (.struct name fields)) ∨
      ∃ fb func, slot.ty = .fbInstance fb ∧ m.functions[fb.toNat]? = some func ∧
        fields = func.locals.slots)

section

variable {P : Vm → Prop} {m : Module} {vm vm' : Vm}

theorem structTypeFields_some {td : UInt16} {fields : List VarSlot}
    (h : vm.structTypeFields td = some fields) :
    ∃ name, vm.module.typeDefs[td.toNat]? = some (.struct name fields) := by
  unfold Vm.structTypeFields at h
  split at h
  · next name fs hx => exact ⟨name, Option.some.inj h ▸ hx⟩
  · cases h

/-- What an invariant of a machine of module `m` needs to survive a restore:
a compatible value in a global, the restored locals of a program, and the
restored fields of an instance. -/
structure RestoreKeeps (m : Module) (P : Vm → Prop) : Prop where
  module : ∀ vm, P vm → vm.module = m
  globals : ∀ vm (i : Nat) slot v, P vm → m.globals.slots[i]? = some slot →
    isCompatible v slot.ty = true → P (vm.setGlobalUnchecked i.toUInt16 v)
  locals : ∀ vm (i : Nat) prog xs, P vm → m.functions[i]? = some prog → prog.kind = .program →
    Restored prog.locals.slots (carryOver prog.locals.defaults
      ((Finmap.lookup i.toUInt16 vm.retainedLocals).getD [])) xs →
    P (vm.setRetainedLocals i.toUInt16 xs)
  fields : ∀ vm key (slots : List VarSlot) xs, P vm → RestoredFields m key slots →
    Restored slots (carryOver (slots.map fun s => Value.defaultForType s.ty)
      ((Finmap.lookup key vm.fbInstances).getD [])) xs →
    P (vm.putInstance key xs)

theorem restoreGlobals_inv (hP : RestoreKeeps m P) (h : P vm) (warm : Bool)
    (entries : Named RetainEntry) : P (restoreGlobals warm entries vm).1 := by
  unfold restoreGlobals
  refine List.foldlRecOn (motive := fun p : Vm × List String => P p.1) _ _ h ?_
  rintro ⟨w, ws⟩ hw ⟨name, entry⟩ -
  simp only
  split
  · exact hw
  · split
    · next i slot hi =>
      split
      · next hc =>
        refine hP.globals w i slot entry.value hw ?_ hc
        rw [← hP.module w hw]
        exact (findIdx_some hi).1
      · exact hw
    · exact hw

theorem exactProgram_some {name : String} {i : Nat} {prog : Function}
    (h : exactProgram m name = some (i, prog)) :
    m.functions[i]? = some prog ∧ prog.kind = .program := by
  have hkind := (findIdx_some h).2.1
  simp only [Bool.and_eq_true, beq_iff_eq] at hkind
  exact ⟨(findIdx_some h).1, hkind.1⟩

theorem restoreProgram_inv (hP : RestoreKeeps m P) (h : P vm) (warm : Bool) (name : String)
    (vars : Named RetainEntry) : P (restoreProgram warm name vars vm).1 := by
  unfold restoreProgram
  split
  · exact h
  · next i prog hx =>
    rw [hP.module vm h] at hx
    obtain ⟨hat, hkind⟩ := exactProgram_some hx
    exact hP.locals vm i prog _ h hat hkind (restoreEntries_restored ..)

theorem restoreFields_inv (hP : RestoreKeeps m P) (h : P vm) {key : InstanceKey}
    {slots : List VarSlot} (hk : RestoredFields m key slots) (path : String)
    (fields : Named RetainEntry) : P (restoreFields path key slots fields vm).1 := by
  have hr := restoreEntries_restored path slots (fun _ => true) fields
    (carryOver (slots.map fun s => Value.defaultForType s.ty)
      ((Finmap.lookup key vm.fbInstances).getD []))
  exact hP.fields vm key slots _ h hk hr

theorem restoreInstance_inv (hP : RestoreKeeps m P) (h : P vm) {warm : Bool} {progName : String}
    {i : Nat} {prog : Function} (hat : m.functions[i]? = some prog) (hkind : prog.kind = .program)
    {instName : String} {fields : Named RetainEntry} {w : List String}
    (hr : restoreInstance warm progName i.toUInt16 prog instName fields vm = .ok (vm', w)) :
    P vm' := by
  unfold restoreInstance at hr
  split at hr
  · cases hr
    exact h
  · split at hr
    · cases hr
      exact h
    · split at hr
      · cases hr
        exact h
      · next j slot hj =>
        have hslot := (findIdx_some hj).1
        split at hr
        · next td hty =>
          split at hr
          · next typeFields htf =>
            obtain ⟨name, hname⟩ := structTypeFields_some htf
            rw [hP.module vm h] at hname
            have hinv := fun path => restoreFields_inv hP h ⟨i, prog, j, slot, hat, hkind, hslot,
              rfl, .inl ⟨td, name, hty, hname⟩⟩ path
            exact (congrArg Prod.fst (Except.ok.inj hr) ▸ hinv _ _ : P (vm', w).1)
          · cases hr
            exact h
        · next fb hty =>
          cases hx : index vm.module.functions fb.toNat with
          | error t => simp [hx, Except.map] at hr
          | ok func =>
            simp only [hx, Except.map, Except.ok.injEq] at hr
            have hfb := Vm.index_ok hx
            rw [hP.module vm h] at hfb
            have hinv := fun path => restoreFields_inv hP h ⟨i, prog, j, slot, hat, hkind, hslot,
              rfl, .inr ⟨fb, func, hty, hfb, rfl⟩⟩ path
            exact (congrArg Prod.fst hr ▸ hinv _ _ : P (vm', w).1)
        · cases hr
          exact h

theorem restoreInstances_inv (hP : RestoreKeeps m P) (h : P vm) {warm : Bool} {progName : String}
    {instances : Named (Named RetainEntry)} {w : List String}
    (hr : restoreInstances warm progName instances vm = .ok (vm', w)) : P vm' := by
  unfold restoreInstances at hr
  split at hr
  · cases hr
    exact h
  · next i prog hx =>
    rw [hP.module vm h] at hx
    obtain ⟨hat, hkind⟩ := exactProgram_some hx
    refine foldlM_inv (P := fun p : Vm × List String => P p.1) ?_ h hr
    rintro ⟨u, us⟩ ⟨instName, fields⟩ ⟨u', us'⟩ - hu hstep
    simp only [bind, Except.bind] at hstep
    split at hstep
    · cases hstep
    · next p hp =>
      cases hstep
      exact restoreInstance_inv hP hu hat hkind hp

/-- **The rule of a restore.** -/
theorem restoreSnapshot_inv (hP : RestoreKeeps m P) (h : P vm) {snapshot : RetainSnapshot}
    {warm : Bool} {w : List String} (hr : restoreSnapshot vm snapshot warm = .ok (vm', w)) :
    P vm' := by
  unfold restoreSnapshot at hr
  refine foldlM_inv (P := fun p : Vm × List String => P p.1) ?_ ?_ hr
  · rintro ⟨u, us⟩ ⟨progName, instances⟩ ⟨u', us'⟩ - hu hstep
    simp only [bind, Except.bind] at hstep
    split at hstep
    · cases hstep
    · next p hp =>
      cases hstep
      exact restoreInstances_inv hP hu hp
  · refine List.foldlRecOn (motive := fun p : Vm × List String => P p.1) _ _
      (restoreGlobals_inv hP h warm _) ?_
    rintro ⟨u, us⟩ hu ⟨progName, vars⟩ -
    exact restoreProgram_inv hP hu warm progName vars

end

end RustPlc.Engine
