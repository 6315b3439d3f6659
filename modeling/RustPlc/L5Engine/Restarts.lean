import RustPlc.L5Engine.RetainValues

/-!
# What a restart keeps

A snapshot of one machine restored into another machine of its module
(crates/st-engine/src/retain_store.rs:57-448). The entries are looked up by
name; with unique names each goes back to the variable it was taken from.

Results:
* `restoreEntries_overlay`: entries written over values, variable by variable;
* `restart_law`: what every variable is after the restart.
-/
namespace RustPlc.Engine

open RustPlc.Ir RustPlc.Core

/-! ## Entries over values -/

/-- The value `v` that was captured for a variable, if there is one of the
variable's kind; else the value `b` that the variable has. -/
def takeOver (slot : VarSlot) (b : Value) : Option Value → Value
  | some v => if isCompatible v slot.ty then v else b
  | none => b

/-- The values of `slots` with the captured ones over them. -/
def overlay (slots : List VarSlot) (captured : VarSlot → Nat → Option Value) (base : List Value) :
    List Value :=
  base.mapIdx fun j b => match slots[j]? with
    | some slot => takeOver slot b (captured slot j)
    | none => b

section

variable {slots : List VarSlot} {captured captured' : VarSlot → Nat → Option Value}
  {base : List Value}

theorem overlay_get {j : Nat} {slot : VarSlot} (hs : slots[j]? = some slot) :
    (overlay slots captured base)[j]? =
      base[j]?.map fun b => takeOver slot b (captured slot j) := by
  simp only [overlay, List.getElem?_mapIdx, hs]

theorem overlay_get_none {j : Nat} (hs : slots[j]? = none) :
    (overlay slots captured base)[j]? = base[j]? := by
  simp only [overlay, List.getElem?_mapIdx, hs, Option.map_id']

theorem overlay_congr (h : ∀ j slot, slots[j]? = some slot →
      ∀ b, takeOver slot b (captured slot j) = takeOver slot b (captured' slot j)) :
    overlay slots captured base = overlay slots captured' base := by
  refine List.ext_getElem? fun j => ?_
  cases hs : slots[j]? with
  | none => rw [overlay_get_none hs, overlay_get_none hs]
  | some slot =>
    rw [overlay_get hs, overlay_get hs]
    simp only [h j slot hs]

/-- The entry of a variable, when it is selected. -/
def entryFor (select : RetainEntry → Bool) (entries : Named RetainEntry) (slot : VarSlot) :
    Option Value :=
  (entries.get slot.name).bind fun e => if select e then some e.value else none

/-- **Entries over values**: with unique names each variable takes over its own. -/
theorem restoreEntries_overlay (hn : (slotNames slots).Nodup) (path : String)
    (select : RetainEntry → Bool) {entries : Named RetainEntry} (he : (entries.map (·.1)).Nodup) :
    (restoreEntries path slots select entries base).1 =
      overlay slots (fun slot _ => entryFor select entries slot) base := by
  refine List.ext_getElem? fun j => ?_
  -- an entry changes position `j` only when it has the name of the variable there
  have hother : ∀ {k : String} {i : Nat} {s : VarSlot} (vs : List Value) (v : Value),
      exactSlot slots k = some (i, s) → (∀ t, slots[j]? = some t → t.name ≠ k) →
      (vs.set i v)[j]? = vs[j]? := by
    intro k i s vs v hi hne
    obtain ⟨hat, rfl⟩ := exactSlot_some hi
    refine List.getElem?_set_ne ?_
    rintro rfl
    exact hne s hat rfl
  unfold restoreEntries
  cases hs : slots[j]? with
  | none =>
    rw [overlay_get_none hs]
    refine (Named.foldl_get (n := "") (I := fun _ => True) (u := fun o _ => o)
      (g := fun p : List Value × List String => p.1[j]?) ?_ he trivial).trans (by cases entries.get "" <;> rfl)
    intro ⟨vs, w⟩ k e _
    refine ⟨trivial, ?_⟩
    rw [ite_self]
    simp only
    split
    · rfl
    · split
      · next i s hi =>
        split
        · exact hother vs _ hi fun t ht => by simp [hs] at ht
        · rfl
      · rfl
  | some slot =>
    rw [overlay_get hs]
    refine (Named.foldl_get (n := slot.name) (I := fun _ => True)
      (u := fun o e => o.map fun b => takeOver slot b (if select e then some e.value else none))
      (g := fun p : List Value × List String => p.1[j]?) ?_ he trivial).trans ?_
    · intro ⟨vs, w⟩ k e _
      refine ⟨trivial, ?_⟩
      by_cases hk : k = slot.name
      · subst hk
        rw [if_pos rfl]
        dsimp only
        rw [exactSlot_self hn hs]
        cases select e with
        | false => simp [takeOver]
        | true =>
          cases hc : isCompatible e.value slot.ty with
          | false => simp [takeOver, hc]
          | true =>
            simp only [Bool.not_true, Bool.false_eq_true, if_false, hc, if_true, takeOver,
              List.getElem?_set_self']
            rfl
      · rw [if_neg hk]
        simp only
        split
        · rfl
        · split
          · next i s hi =>
            split
            · refine hother vs _ hi fun t ht => ?_
              rw [hs] at ht
              exact fun h => hk (h ▸ (Option.some.inj ht) ▸ rfl)
            · rfl
          · rfl
    · unfold entryFor
      cases entries.get slot.name with
      | none => simp [takeOver]
      | some e => rfl

end

/-! ## What is selected -/

/-- Whether a warm or a cold restart restores the variable. -/
def selects (warm : Bool) (slot : VarSlot) : Bool := if warm then slot.retain else slot.persistent

/-- The captured value, when the restart selects the variable. -/
def selected (warm : Bool) (slot : VarSlot) (v : Option Value) : Option Value :=
  if selects warm slot then v else none

/-- No value is of the kind of a composite, and nothing is of the kind of no value. -/
theorem takeOver_void (slot : VarSlot) (b : Value) (v : Option Value) :
    takeOver slot b (some (v.getD .void)) = takeOver slot b v := by
  cases v with
  | none => simp [takeOver, isCompatible]
  | some v => rfl

theorem takeOver_composite {slot : VarSlot} (h : isComposite slot.ty = true) (b : Value)
    (v : Option Value) : takeOver slot b v = b := by
  cases v with
  | none => rfl
  | some v =>
    have hc : isCompatible v slot.ty = false := by
      revert h
      cases slot.ty <;> cases v <;> simp [isComposite, isCompatible]
    simp [takeOver, hc]

theorem dominated_entryOf (warm : Bool) (slot : VarSlot) (v : Value) :
    (entryOf slot v).dominated warm = selects warm slot := rfl

theorem retainable_of_selects {warm : Bool} {slot : VarSlot} (h : selects warm slot = true) :
    retainable slot = true := by
  cases warm <;> simp_all [selects, retainable]

/-- The entry of a variable, restored. -/
theorem takeOver_entryFor (warm : Bool) {entries : Named RetainEntry} {slot : VarSlot}
    {v : Option Value} (h : entries.get slot.name =
      if retainable slot then some (entryOf slot (v.getD .void)) else none) (b : Value) :
    takeOver slot b (entryFor (·.dominated warm) entries slot) =
      takeOver slot b (selected warm slot v) := by
  rw [entryFor, h]
  unfold selected
  cases hsel : selects warm slot with
  | false => cases retainable slot <;> simp [dominated_entryOf, hsel]
  | true =>
    simp only [retainable_of_selects hsel, if_true, Option.bind_some, dominated_entryOf, hsel]
    exact takeOver_void slot b v

namespace Named

variable {α : Type}

/-- The entry of a variable among those of its layout. -/
theorem get_slots {slots : List VarSlot} {g : VarSlot × Nat → Option α}
    (hn : (slotNames slots).Nodup) {j : Nat} {slot : VarSlot} (hs : slots[j]? = some slot) :
    (collect (fun p => p.1.name) g slots.zipIdx).get slot.name = g (slot, j) := by
  refine Option.ext fun v => ?_
  rw [get_collect (nodup_zipIdx hn)]
  constructor
  · intro ⟨⟨s, k⟩, hmem, hname, hg⟩
    rw [List.mem_zipIdx_iff_getElem?] at hmem
    obtain rfl := getElem?_inj_of_nodup_map hn hs hmem (congrArg toUppercase hname.symm)
    obtain rfl := Option.some.inj (hs.symm.trans hmem)
    exact hg
  · exact fun hg => ⟨(slot, j), List.mem_zipIdx_iff_getElem?.mpr hs, rfl, hg⟩

theorem collect_eq_nil {β : Type} {name : β → String} {g : β → Option α} {xs : List β} :
    collect name g xs = [] ↔ ∀ x ∈ xs, g x = none := by
  have hne : ∀ (n : String) (a : α) (ys : Named α), ys.insert n a ≠ [] := by
    intro n a ys h
    have hkeys := keys_insert n a ys
    rw [h] at hkeys
    split at hkeys
    · next hmem => exact List.ne_nil_of_mem hmem hkeys.symm
    · simp at hkeys
  induction xs using List.reverseRecOn with
  | nil => simp [collect]
  | append_singleton xs x ih =>
    rw [collect_concat, List.forall_mem_append, List.forall_mem_singleton]
    cases g x with
    | none => simpa [put] using ih
    | some a => simp [put, hne]

theorem get_of_mem {xs : Named α} {p : String × α} (hn : (xs.map (·.1)).Nodup) (h : p ∈ xs) :
    xs.get p.1 = some p.2 := by
  induction xs with
  | nil => cases h
  | cons q xs ih =>
    rw [List.map_cons, List.nodup_cons] at hn
    rw [get_cons]
    rcases List.mem_cons.mp h with rfl | h
    · rw [if_pos rfl]
    · have hne : q.1 ≠ p.1 := fun heq => hn.1 (heq ▸ List.mem_map_of_mem h)
      rw [if_neg hne, ih hn.2 h]

theorem filled_collect {β : Type} {name : β → String} {g : β → Option α} {xs : List β} {P : Bool}
    (h : P = false ↔ ∀ x ∈ xs, g x = none) :
    filled (collect name g xs) = if P then some (collect name g xs) else none := by
  rw [← @collect_eq_nil α β name g xs] at h
  cases hc : collect name g xs with
  | nil => rw [h.mpr hc]; rfl
  | cons y ys =>
    have hP : P = true := by
      by_contra hn
      exact List.cons_ne_nil y ys (hc.symm.trans (h.mp (Bool.eq_false_of_not_eq_true hn)))
    rw [hP]; rfl

end Named

section

variable {m : Module} {vm : Vm}

/-- The entry of a program among those of the programs with retained locals. -/
theorem get_retainedPrograms {α : Type} (hm : vm.module.Distinct)
    {g : UInt16 × Function × List Value → Option α} {i : Nat} {prog : Function}
    (hf : vm.module.functions[i]? = some prog) (hk : prog.kind = .program) :
    (Named.collect (fun p => p.2.1.name) g vm.retainedPrograms).get prog.name =
      (Finmap.lookup i.toUInt16 vm.retainedLocals).bind fun xs => g (i.toUInt16, prog, xs) := by
  have hlt : i < 65536 := Nat.lt_of_lt_of_le (List.getElem?_eq_some_iff.mp hf).1 hm.length
  refine Option.ext fun v => ?_
  rw [Named.get_collect (retainedPrograms_nodup hm), Option.bind_eq_some_iff]
  constructor
  · intro ⟨⟨i', prog', xs⟩, hmem, hname, hg⟩
    obtain ⟨k, hat, _, _, rfl, hxs⟩ := mem_retainedPrograms.mp hmem
    obtain rfl := getElem?_inj_of_nodup_map hm.functions hf hat (congrArg toUppercase hname.symm)
    obtain rfl := Option.some.inj (hf.symm.trans hat)
    exact ⟨xs, hxs, hg⟩
  · intro ⟨xs, hxs, hg⟩
    exact ⟨(i.toUInt16, prog, xs), mem_retainedPrograms.mpr ⟨i, hf, hk, hlt, rfl, hxs⟩, rfl, hg⟩

/-! ## Globals -/

theorem restoreGlobals_eq (hlen : vm.module.globals.slots.length ≤ 65536) (warm : Bool)
    (entries : Named RetainEntry) : (restoreGlobals warm entries vm).1 = { vm with
      globals := (restoreEntries "" vm.module.globals.slots (·.dominated warm) entries
        vm.globals).1 } := by
  unfold restoreGlobals restoreEntries
  refine List.foldl_rel (r := fun (p : Vm × List String) (q : List Value × List String) =>
    p.1 = { vm with globals := q.1 }) rfl ?_
  intro ⟨k, e⟩ _ ⟨vm1, w⟩ ⟨vs, w'⟩ h
  obtain rfl : vm1 = { vm with globals := vs } := h
  dsimp only
  split
  · rfl
  · split
    · next i slot hi =>
      have hlt := (List.getElem?_eq_some_iff.mp (exactSlot_some hi).1).1
      split
      · rw [Vm.setGlobalUnchecked, toNat_toUInt16 (by omega)]
      · rfl
    · rfl

theorem restored_globals {vm0 : Vm} (hm : m.Distinct) (hv : vm.module = m) (h0 : vm0.module = m)
    (warm : Bool) : (restoreGlobals warm (captureGlobals vm) vm0).1 = { vm0 with
      globals := overlay m.globals.slots (fun slot i => selected warm slot vm.globals[i]?)
        vm0.globals } := by
  subst hv
  rw [restoreGlobals_eq (by rw [h0]; exact hm.globals.length), h0, captureGlobals_eq,
    restoreEntries_overlay hm.globals.names _ _ Named.nodup_collect]
  congr 1
  exact overlay_congr fun j slot hs b =>
    takeOver_entryFor warm (Named.get_slots hm.globals.names hs) b

/-! ## Locals of programs -/

/-- A program with scalar variables to retain has an entry in the snapshot. -/
def hasRetained (slots : List VarSlot) : Bool := slots.any fun s => retainable s && !isComposite s.ty

/-- The locals of a program after a restart: of those of the captured machine
and those of the restarted one, each `none` when the program has not run. -/
def restartedLocals (warm : Bool) (l : MemoryLayout) (captured current : Option (List Value)) :
    Option (List Value) :=
  match captured with
  | some xs =>
    if hasRetained l.slots then
      some (overlay l.slots (fun slot j => selected warm slot xs[j]?)
        (carryOver l.defaults (current.getD [])))
    else current
  | none => current

theorem filled_programVars (prog : Function) (xs : List Value) : filled (programVars prog xs) =
    if hasRetained prog.locals.slots then some (programVars prog xs) else none := by
  refine Named.filled_collect ?_
  simp only [hasRetained, List.any_eq_false, varEntry, ite_eq_right_iff, reduceCtorEq, imp_false]
  constructor
  · exact fun h p hp => h p.1 (List.fst_mem_of_mem_zipIdx hp)
  · intro h s hs
    obtain ⟨j, hj⟩ := List.getElem?_of_mem hs
    exact h (s, j) (List.mem_zipIdx_iff_getElem?.mpr hj)

theorem exactProgram_name {name : String} {i : Nat} {prog : Function}
    (h : exactProgram m name = some (i, prog)) : prog.name = name := by
  have hp := (findIdx_some h).2.1
  simp only [Bool.and_eq_true, beq_iff_eq] at hp
  exact hp.2

theorem exactProgram_self (hm : m.Distinct) {i : Nat} {prog : Function}
    (hf : m.functions[i]? = some prog) (hk : prog.kind = .program) :
    exactProgram m prog.name = some (i, prog) := by
  refine findIdx_eq hf (by simp [hk]) fun j f hj hat => ?_
  by_contra h
  simp only [Bool.not_eq_false, Bool.and_eq_true, beq_iff_eq] at h
  exact absurd (getElem?_inj_of_nodup_map hm.functions hf hat (congrArg toUppercase h.2.symm))
    (by omega)

/-- The entries of a program, restored. -/
theorem restoreProgram_self {vm0 : Vm} (hm : m.Distinct) (h0 : vm0.module = m) (warm : Bool)
    {i : Nat} {prog : Function} (hf : m.functions[i]? = some prog) (hk : prog.kind = .program)
    (vars : Named RetainEntry) : (restoreProgram warm prog.name vars vm0).1 =
      vm0.setRetainedLocals i.toUInt16 (restoreEntries prog.name prog.locals.slots
        (·.dominated warm) vars (carryOver prog.locals.defaults
          ((Finmap.lookup i.toUInt16 vm0.retainedLocals).getD []))).1 := by
  rw [restoreProgram, h0, exactProgram_self hm hf hk]

theorem restoreProgram_rest (warm : Bool) (k : String) (vars : Named RetainEntry) (vm0 : Vm) :
    ∃ r, (restoreProgram warm k vars vm0).1 = { vm0 with retainedLocals := r } := by
  unfold restoreProgram
  split
  · exact ⟨_, rfl⟩
  · exact ⟨_, rfl⟩

/-- The entries of another program leave it alone. -/
theorem restoreProgram_other {vm0 : Vm} (hm : m.Distinct) (h0 : vm0.module = m) (warm : Bool)
    {i : Nat} {prog : Function} (hf : m.functions[i]? = some prog) {k : String}
    (hne : k ≠ prog.name) (vars : Named RetainEntry) :
    Finmap.lookup i.toUInt16 (restoreProgram warm k vars vm0).1.retainedLocals =
      Finmap.lookup i.toUInt16 vm0.retainedLocals := by
  unfold restoreProgram
  split
  · rfl
  · next i' prog' hx =>
    rw [h0] at hx
    have hat := (exactProgram_some hx).1
    refine Finmap.lookup_insert_of_ne _ fun heq => hne ?_
    have hlt := (List.getElem?_eq_some_iff.mp hf).1
    have hlt' := (List.getElem?_eq_some_iff.mp hat).1
    have hlen := hm.length
    have hi : i = i' := by
      rw [← toNat_toUInt16 (show i < 65536 by omega), heq, toNat_toUInt16 (by omega)]
    subst hi
    rw [← exactProgram_name hx, Option.some.inj (hf.symm.trans hat)]

theorem restored_locals {vm0 : Vm} (hm : Storable m) (hv : vm.module = m) (h0 : vm0.module = m)
    (warm : Bool) (w : List String) {i : Nat} {prog : Function} (hf : m.functions[i]? = some prog)
    (hk : prog.kind = .program) :
    Finmap.lookup i.toUInt16 ((snapshotOf vm).programLocals.foldl (fun (vm, w) (progName, vars) =>
      let (vm', w') := restoreProgram warm progName vars vm
      (vm', w ++ w')) (vm0, w)).1.retainedLocals =
    restartedLocals warm prog.locals (Finmap.lookup i.toUInt16 vm.retainedLocals)
      (Finmap.lookup i.toUInt16 vm0.retainedLocals) := by
  subst hv
  have hd := hm.distinct
  refine (Named.foldl_get (n := prog.name) (I := fun p : Vm × List String => p.1.module = vm.module)
    (g := fun p : Vm × List String => Finmap.lookup i.toUInt16 p.1.retainedLocals)
    (u := fun o vars => some (restoreEntries prog.name prog.locals.slots (·.dominated warm) vars
      (carryOver prog.locals.defaults (o.getD []))).1) ?_ Named.nodup_collect h0).trans ?_
  · intro ⟨vm1, w1⟩ k vars h1
    have hmod : (restoreProgram warm k vars vm1).1.module = vm.module := by
      obtain ⟨r, hr⟩ := restoreProgram_rest warm k vars vm1
      rw [hr]
      exact h1
    refine ⟨hmod, ?_⟩
    by_cases hk' : k = prog.name
    · subst hk'
      rw [if_pos rfl]
      dsimp only
      rw [restoreProgram_self hd h1 warm hf hk]
      exact Finmap.lookup_insert _
    · rw [if_neg hk']
      exact restoreProgram_other hd h1 warm hf hk' vars
  · rw [get_retainedPrograms hd hf hk]
    unfold restartedLocals
    cases Finmap.lookup i.toUInt16 vm.retainedLocals with
    | none => rfl
    | some xs =>
      have hn := (hd.programs prog (List.mem_of_getElem? hf) hk).names
      dsimp only [Option.bind_some]
      rw [filled_programVars]
      cases hasRetained prog.locals.slots with
      | false => rfl
      | true =>
        refine congrArg some ?_
        rw [programVars, restoreEntries_overlay hn _ _ Named.nodup_collect]
        refine overlay_congr fun j slot hs b => ?_
        have hget := Named.get_slots (g := fun p => varEntry p.1 (xs[p.2]?.getD .void)) hn hs
        cases hc : isComposite slot.ty with
        | true => rw [takeOver_composite hc, takeOver_composite hc]
        | false => exact takeOver_entryFor warm (hget.trans (by simp [varEntry, hc])) b

/-! ## Fields of instances -/

/-- The vector of an instance after its entries are restored over its state. -/
def restoredState (warm : Bool) (path : String) (fields : List VarSlot) (current : Option (List Value))
    (entries : Named RetainEntry) : Option (List Value) :=
  match entries with
  | [] => current
  | (_, first) :: _ =>
    if first.dominated warm then
      some (restoreEntries path fields (fun _ => true) entries
        (carryOver (fields.map fun f => Value.defaultForType f.ty) (current.getD []))).1
    else current

/-- The instance of a program's variable. -/
def instanceOf (i j : Nat) : InstanceKey := (programIdentity i.toUInt16, j.toUInt16)

theorem instanceOf_inj {i i' j j' : Nat} (hi : i < 65536) (hi' : i' < 65536) (hj : j < 65536)
    (hj' : j' < 65536) (h : instanceOf i j = instanceOf i' j') : i = i' ∧ j = j' := by
  have hlow : ∀ k : UInt16, (programIdentity k).toUInt16 = k := by
    intro k
    rw [programIdentity, UInt32.toUInt16_or, UInt16.toUInt16_toUInt32]
    exact UInt16.zero_or
  have hidx := congrArg (fun key => key.1.toUInt16.toNat) h
  have hslot := congrArg (fun key => key.2.toNat) h
  simp only [instanceOf, hlow, toNat_toUInt16 hi, toNat_toUInt16 hi'] at hidx
  simp only [instanceOf, toNat_toUInt16 hj, toNat_toUInt16 hj'] at hslot
  exact ⟨hidx, hslot⟩

variable {vm0 : Vm} {i : Nat} {prog : Function}

/-- The entries of a variable, restored. -/
theorem restoreInstance_self (h0 : vm0.module = m) (warm : Bool) (progName : String)
    (hn : (slotNames prog.locals.slots).Nodup) {j : Nat} {slot : VarSlot}
    (hs : prog.locals.slots[j]? = some slot) {fields : List VarSlot}
    (hf : fieldsOf m slot.ty = some fields) (entries : Named RetainEntry) :
    ∃ vm1 w, restoreInstance warm progName i.toUInt16 prog slot.name entries vm0 = .ok (vm1, w) ∧
      vm1.module = m ∧ Finmap.lookup (instanceOf i j) vm1.fbInstances =
        restoredState warm (progName ++ "." ++ slot.name) fields
          (Finmap.lookup (instanceOf i j) vm0.fbInstances) entries := by
  subst h0
  unfold restoreInstance restoredState
  cases entries with
  | nil => exact ⟨vm0, [], rfl, rfl, rfl⟩
  | cons e es =>
    obtain ⟨k, first⟩ := e
    have hput : ∃ vm1 w, restoreFields (progName ++ "." ++ slot.name) (instanceOf i j) fields
        ((k, first) :: es) vm0 = (vm1, w) ∧ vm1.module = vm0.module ∧
        Finmap.lookup (instanceOf i j) vm1.fbInstances = _ :=
      ⟨_, _, rfl, rfl, Finmap.lookup_insert _⟩
    obtain ⟨vm1, w, hput, hmod, hlook⟩ := hput
    dsimp only
    rw [exactSlot_self hn hs]
    cases first.dominated warm with
    | false => exact ⟨vm0, [], rfl, rfl, rfl⟩
    | true =>
      refine ⟨vm1, w, ?_, hmod, hlook⟩
      rw [← hput]
      unfold fieldsOf at hf
      dsimp only
      split at hf
      · next td hty =>
        have htd : vm0.structTypeFields td = some fields := hf
        simp [hty, htd, instanceOf]
      · next fb hty =>
        obtain ⟨func, hfunc, rfl⟩ := Option.map_eq_some_iff.mp hf
        simp [hty, index, hfunc, Except.map, instanceOf]
      · cases hf

/-- What the entries under a name do: at most they write one instance of that name. -/
theorem restoreInstance_cases (hm : Storable m) (h0 : vm0.module = m) (warm : Bool)
    (progName : String) (hp : prog ∈ m.functions) (hk : prog.kind = .program) (k : String)
    (entries : Named RetainEntry) :
    ∃ vm1 w, restoreInstance warm progName i.toUInt16 prog k entries vm0 = .ok (vm1, w) ∧
      (vm1 = vm0 ∨ ∃ j slot xs, prog.locals.slots[j]? = some slot ∧ slot.name = k ∧
        vm1 = vm0.putInstance (instanceOf i j) xs) := by
  subst h0
  unfold restoreInstance
  split
  · exact ⟨vm0, [], rfl, .inl rfl⟩
  · split
    · exact ⟨vm0, [], rfl, .inl rfl⟩
    · split
      · exact ⟨vm0, _, rfl, .inl rfl⟩
      · next j slot hj =>
        obtain ⟨hat, hname⟩ := exactSlot_some hj
        split
        · split
          · exact ⟨_, _, rfl, .inr ⟨j, slot, _, hat, hname, rfl⟩⟩
          · exact ⟨vm0, [], rfl, .inl rfl⟩
        · next fb hty =>
          have hdist := hm.fields prog hp hk slot (List.mem_of_getElem? hat)
          simp only [fieldsDistinct, hty] at hdist
          split at hdist
          · next func hfunc =>
            simp only [index, hfunc, Except.map]
            exact ⟨_, _, rfl, .inr ⟨j, slot, _, hat, hname, rfl⟩⟩
          · cases hdist
        · exact ⟨vm0, _, rfl, .inl rfl⟩

/-- The fold of a restore over a map, through an observation `φ` of the machine. -/
theorem restored_fold {α O : Type} {f : Vm → String → α → Except Trap (Vm × List String)}
    {n : String} {φ : Vm → O} {C : α → Prop} {g : O → α → O}
    (hstep : ∀ u k a, C a → u.module = m → ∃ u' w, f u k a = .ok (u', w) ∧ u'.module = m ∧
      φ u' = if k = n then g (φ u) a else φ u) :
    ∀ {es : Named α} {u : Vm} {w : List String}, (es.map (·.1)).Nodup → (∀ p ∈ es, C p.2) →
      u.module = m → ∃ u' w', es.foldlM (fun (u, w) (k, a) => do
        let (u', w') ← f u k a
        return (u', w ++ w')) (u, w) = .ok (u', w') ∧ u'.module = m ∧
        φ u' = (es.get n).elim (φ u) (g (φ u)) := by
  intro es
  induction es with
  | nil => exact fun _ _ hu => ⟨_, _, rfl, hu, rfl⟩
  | cons e es ih =>
    intro u w hn hC hu
    obtain ⟨k, a⟩ := e
    rw [List.map_cons, List.nodup_cons] at hn
    rw [List.forall_mem_cons] at hC
    obtain ⟨u1, w1, hf, hu1, hlook⟩ := hstep u k a hC.1 hu
    obtain ⟨u', w', hfold, hu', hlook'⟩ := ih (u := u1) (w := w ++ w1) hn.2 hC.2 hu1
    refine ⟨u', w', ?_, hu', ?_⟩
    · rw [List.foldlM_cons]
      simp only [hf, bind, Except.bind]
      exact hfold
    · rw [hlook', hlook, Named.get_cons]
      by_cases hk : k = n
      · subst hk
        rw [if_pos rfl, if_pos rfl, Named.get_eq_none hn.1]
        rfl
      · rw [if_neg hk, if_neg hk]

/-- The instances of a program write only its own instances. -/
theorem restoreInstances_elsewhere {O : Type} (hm : Storable m) (warm : Bool) (k : String)
    {insts : Named (Named RetainEntry)} (hi : (insts.map (·.1)).Nodup) {φ : Vm → O}
    (h : ∀ i prog j slot, exactProgram m k = some (i, prog) → prog.locals.slots[j]? = some slot →
      ∀ v xs, φ (v.putInstance (instanceOf i j) xs) = φ v) {u : Vm} (hu : u.module = m) :
    ∃ u' w, restoreInstances warm k insts u = .ok (u', w) ∧ u'.module = m ∧ φ u' = φ u := by
  unfold restoreInstances
  rw [hu]
  cases hx : exactProgram m k with
  | none => exact ⟨u, [], rfl, hu, rfl⟩
  | some p =>
    obtain ⟨i, prog⟩ := p
    obtain ⟨hat, hk⟩ := exactProgram_some hx
    have hstep : ∀ (v : Vm) l entries, True → v.module = m →
        ∃ v' w, restoreInstance warm k i.toUInt16 prog l entries v = .ok (v', w) ∧ v'.module = m ∧
          φ v' = if l = "" then φ v else φ v := by
      intro v l entries _ hv
      obtain ⟨v', w, hok, hcase⟩ := restoreInstance_cases hm hv warm k (List.mem_of_getElem? hat) hk
        l entries
      refine ⟨v', w, hok, ?_⟩
      rw [ite_self]
      rcases hcase with rfl | ⟨j, slot, xs, hs, _, rfl⟩
      · exact ⟨hv, rfl⟩
      · exact ⟨hv, h i prog j slot hx hs v xs⟩
    obtain ⟨u', w, hok, hmod, hφ⟩ := restored_fold (g := fun o _ => o) (w := []) hstep hi
      (fun _ _ => trivial) hu
    refine ⟨u', w, hok, hmod, hφ.trans ?_⟩
    cases insts.get "" <;> rfl

/-- The instances of programs, each seen from one of them. -/
theorem restoreInstances_ok (hm : Storable m) (warm : Bool) (hat : m.functions[i]? = some prog)
    (hk : prog.kind = .program) {j : Nat} {slot : VarSlot} (hs : prog.locals.slots[j]? = some slot)
    {fields : List VarSlot} (hf : fieldsOf m slot.ty = some fields) (u : Vm) (k : String)
    {insts : Named (Named RetainEntry)} (hi : (insts.map (·.1)).Nodup) (hu : u.module = m) :
    ∃ u' w, restoreInstances warm k insts u = .ok (u', w) ∧ u'.module = m ∧
      Finmap.lookup (instanceOf i j) u'.fbInstances =
        if k = prog.name then (insts.get slot.name).elim (Finmap.lookup (instanceOf i j) u.fbInstances)
          (restoredState warm (prog.name ++ "." ++ slot.name) fields
            (Finmap.lookup (instanceOf i j) u.fbInstances))
        else Finmap.lookup (instanceOf i j) u.fbInstances := by
  have hd := hm.distinct
  have hlen := hd.length
  have hilt := (List.getElem?_eq_some_iff.mp hat).1
  have hpd := hd.programs prog (List.mem_of_getElem? hat) hk
  have hjlt := Nat.lt_of_lt_of_le (List.getElem?_eq_some_iff.mp hs).1 hpd.length
  -- an instance of another variable is stored elsewhere
  have helse : ∀ {i' j' : Nat} {prog' : Function} {slot' : VarSlot}, m.functions[i']? = some prog' →
      prog'.kind = .program → prog'.locals.slots[j']? = some slot' → ¬ (i' = i ∧ j' = j) →
      ∀ (v : Vm) (xs : List Value),
        Finmap.lookup (instanceOf i j) (v.putInstance (instanceOf i' j') xs).fbInstances =
          Finmap.lookup (instanceOf i j) v.fbInstances := by
    intro i' j' prog' slot' hat' hk' hs' hne v xs
    have hilt' := (List.getElem?_eq_some_iff.mp hat').1
    have hlen' := (hd.programs prog' (List.mem_of_getElem? hat') hk').length
    have hjlt' := (List.getElem?_eq_some_iff.mp hs').1
    refine Finmap.lookup_insert_of_ne _ fun heq => hne ?_
    obtain ⟨hii, hjj⟩ := instanceOf_inj (by omega) (by omega) hjlt (by omega) heq
    exact ⟨hii.symm, hjj.symm⟩
  by_cases hkn : k = prog.name
  · subst hkn
    unfold restoreInstances
    rw [hu, if_pos rfl, exactProgram_self hd hat hk]
    refine restored_fold (φ := fun v => Finmap.lookup (instanceOf i j) v.fbInstances)
      (f := fun v l entries => restoreInstance warm prog.name i.toUInt16 prog l entries v)
      (C := fun _ => True) ?_ hi (fun _ _ => trivial) hu
    intro v l entries _ hv
    by_cases hl : l = slot.name
    · subst hl
      rw [if_pos rfl]
      exact restoreInstance_self hv warm _ hpd.names hs hf entries
    · rw [if_neg hl]
      obtain ⟨v', w, hok, hcase⟩ := restoreInstance_cases hm hv warm prog.name
        (List.mem_of_getElem? hat) hk l entries
      refine ⟨v', w, hok, ?_⟩
      rcases hcase with rfl | ⟨j', slot', xs, hs', hname, rfl⟩
      · exact ⟨hv, rfl⟩
      · refine ⟨hv, helse hat hk hs' (fun h => hl ?_) v xs⟩
        rw [← hname, Option.some.inj (hs.symm.trans (h.2 ▸ hs'))]
  · rw [if_neg hkn]
    refine restoreInstances_elsewhere (φ := fun v => Finmap.lookup (instanceOf i j) v.fbInstances) hm
      warm k hi ?_ hu
    intro i' prog' j' slot' hx hs'
    obtain ⟨hat', hk'⟩ := exactProgram_some hx
    refine helse hat' hk' hs' ?_
    rintro ⟨rfl, -⟩
    exact hkn ((exactProgram_name hx).symm.trans
      (congrArg _ (Option.some.inj (hat'.symm.trans hat))))

/-- The vector of an instance after a restart. `ran` says that the program has
run in the captured machine. -/
def restartedFields (warm : Bool) (slot : VarSlot) (fields : List VarSlot) (ran : Bool)
    (captured current : Option (List Value)) : Option (List Value) :=
  if ran && selects warm slot && fields.any fun f => !isComposite f.ty then
    some (overlay fields (fun f k => some (fieldValue captured f k))
      (carryOver (fields.map fun f => Value.defaultForType f.ty) (current.getD [])))
  else current

/-- An empty map has no entry under any name. -/
theorem elim_filled {α O : Type} (xs : Named α) (n : String) (o : O) (g : α → O) :
    (filled xs).elim o (fun xs => (xs.get n).elim o g) = (xs.get n).elim o g := by
  cases xs <;> rfl

theorem filled_captureFields (slot : VarSlot) (fields : List VarSlot) (state : Option (List Value)) :
    filled (captureFields slot fields state) =
      if fields.any fun f => !isComposite f.ty then some (captureFields slot fields state)
      else none := by
  rw [captureFields_eq]
  refine Named.filled_collect ?_
  simp only [List.any_eq_false, fieldEntry, ite_eq_left_iff, reduceCtorEq, imp_false]
  constructor
  · intro h p hp
    simpa using h p.1 (List.fst_mem_of_mem_zipIdx hp)
  · intro h f hf
    obtain ⟨j, hj⟩ := List.getElem?_of_mem hf
    simpa using h (f, j) (List.mem_zipIdx_iff_getElem?.mpr hj)

/-- The entries of a captured instance, restored. -/
theorem restoredState_captured (warm : Bool) (path : String) {slot : VarSlot}
    {fields : List VarSlot} (hn : (slotNames fields).Nodup) (captured current : Option (List Value)) :
    (if retainable slot then filled (captureFields slot fields captured) else none).elim current
      (restoredState warm path fields current) =
    restartedFields warm slot fields true captured current := by
  unfold restartedFields
  cases hret : retainable slot with
  | false =>
    have hsel : selects warm slot = false := by
      by_contra h
      exact absurd (retainable_of_selects (Bool.eq_true_of_not_eq_false h)) (by simp [hret])
    rw [hsel]
    rfl
  | true =>
    have hfilled := filled_captureFields slot fields captured
    rw [if_pos rfl, hfilled]
    cases hany : fields.any fun f => !isComposite f.ty with
    | false => simp
    | true =>
      rw [if_pos rfl, Option.elim_some, Bool.and_true, Bool.true_and]
      rw [hany, if_pos rfl] at hfilled
      cases hes : captureFields slot fields captured with
      | nil =>
        rw [hes] at hfilled
        cases hfilled
      | cons e es =>
        have hfirst : e.2.dominated warm = selects warm slot := by
          have hget : (captureFields slot fields captured).get e.1 = some e.2 := by
            rw [hes, Named.get_cons, if_pos rfl]
          rw [captureFields_eq, Named.get_collect (nodup_zipIdx hn)] at hget
          obtain ⟨p, _, _, hp⟩ := hget
          unfold fieldEntry at hp
          split at hp
          · cases hp
          · rw [← Option.some.inj hp, dominated_entryOf]
        unfold restoredState
        dsimp only
        rw [hfirst, ← hes, captureFields_eq]
        cases selects warm slot with
        | false => rfl
        | true =>
          rw [if_pos rfl, if_pos rfl, restoreEntries_overlay hn _ _ Named.nodup_collect]
          refine congrArg some (overlay_congr fun j f hf b => ?_)
          have hget := Named.get_slots
            (g := fun p => fieldEntry slot p.1 (fieldValue captured p.1 p.2)) hn hf
          cases hc : isComposite f.ty with
          | true => rw [takeOver_composite hc, takeOver_composite hc]
          | false =>
            rw [entryFor, hget]
            simp [fieldEntry, hc, entryOf]

/-! ## The law -/

/-- What the machine `vm'` is after a snapshot of `vm` was restored into `vm0`. -/
structure Restarted (m : Module) (warm : Bool) (vm vm0 vm' : Vm) : Prop where
  rest : ∃ globals retainedLocals fbInstances, vm' = { vm0 with globals, retainedLocals, fbInstances }
  globals : vm'.globals =
    overlay m.globals.slots (fun slot i => selected warm slot vm.globals[i]?) vm0.globals
  locals : ∀ (i : Nat) prog, m.functions[i]? = some prog → prog.kind = .program →
    Finmap.lookup i.toUInt16 vm'.retainedLocals =
      restartedLocals warm prog.locals (Finmap.lookup i.toUInt16 vm.retainedLocals)
        (Finmap.lookup i.toUInt16 vm0.retainedLocals)
  fields : ∀ (i j : Nat) prog slot fields, m.functions[i]? = some prog → prog.kind = .program →
    prog.locals.slots[j]? = some slot → fieldsOf m slot.ty = some fields →
    Finmap.lookup (instanceOf i j) vm'.fbInstances =
      restartedFields warm slot fields (Finmap.lookup i.toUInt16 vm.retainedLocals).isSome
        (Finmap.lookup (instanceOf i j) vm.fbInstances)
        (Finmap.lookup (instanceOf i j) vm0.fbInstances)
  others : ∀ key, (¬∃ fields, RestoredFields m key fields) →
    Finmap.lookup key vm'.fbInstances = Finmap.lookup key vm0.fbInstances

/-- What a restore leaves alone. -/
theorem restoreSnapshot_rest (h0 : vm0.module = m) {snapshot : RetainSnapshot}
    {warm : Bool} {vm' : Vm} {w : List String}
    (h : restoreSnapshot vm0 snapshot warm = .ok (vm', w)) :
    (∃ globals retainedLocals fbInstances,
      vm' = { vm0 with globals, retainedLocals, fbInstances }) ∧
    ∀ key, (¬∃ fields, RestoredFields m key fields) →
      Finmap.lookup key vm'.fbInstances = Finmap.lookup key vm0.fbInstances := by
  have keeps : RestoreKeeps m fun u => (∃ globals retainedLocals fbInstances,
      u = { vm0 with globals, retainedLocals, fbInstances }) ∧
      ∀ key, (¬∃ fields, RestoredFields m key fields) →
        Finmap.lookup key u.fbInstances = Finmap.lookup key vm0.fbInstances := by
    constructor
    · rintro u ⟨⟨_, _, _, rfl⟩, _⟩
      exact h0
    · rintro u i slot v ⟨⟨g, r, f, rfl⟩, hother⟩ _ _
      exact ⟨⟨_, r, f, rfl⟩, hother⟩
    · rintro u i prog xs ⟨⟨g, r, f, rfl⟩, hother⟩ _ _ _
      exact ⟨⟨g, _, f, rfl⟩, hother⟩
    · rintro u key slots xs ⟨⟨g, r, f, rfl⟩, hother⟩ hkey _
      refine ⟨⟨g, r, _, rfl⟩, fun k hk => ?_⟩
      refine (Finmap.lookup_insert_of_ne _ fun heq => hk ⟨slots, ?_⟩).trans (hother k hk)
      rw [heq]
      exact hkey
  exact restoreSnapshot_inv keeps ⟨⟨_, _, _, rfl⟩, fun _ _ => rfl⟩ h

/-- After the globals and the locals of the programs. -/
theorem restored_programs (hm : Storable m) (hv : vm.module = m) (h0 : vm0.module = m)
    (warm : Bool) : ∃ u w, (snapshotOf vm).programLocals.foldl (fun (vm, w) (progName, vars) =>
        let (vm', w') := restoreProgram warm progName vars vm
        (vm', w ++ w')) (restoreGlobals warm (snapshotOf vm).globals vm0) = (u, w) ∧
      u.module = m ∧ u.globals = overlay m.globals.slots
        (fun slot i => selected warm slot vm.globals[i]?) vm0.globals ∧
      u.fbInstances = vm0.fbInstances ∧
      ∀ (i : Nat) prog, m.functions[i]? = some prog → prog.kind = .program →
        Finmap.lookup i.toUInt16 u.retainedLocals =
          restartedLocals warm prog.locals (Finmap.lookup i.toUInt16 vm.retainedLocals)
            (Finmap.lookup i.toUInt16 vm0.retainedLocals) := by
  have hg := restored_globals hm.distinct hv h0 warm
  rw [show (snapshotOf vm).globals = captureGlobals vm from rfl]
  generalize restoreGlobals warm (captureGlobals vm) vm0 = p at hg
  obtain ⟨u0, w0⟩ := p
  obtain rfl : u0 = _ := hg
  have hlocals := fun i prog => @restored_locals m vm { vm0 with
    globals := overlay m.globals.slots (fun slot i => selected warm slot vm.globals[i]?)
      vm0.globals } hm hv h0 warm w0 i prog
  generalize hfold : List.foldl _ _ _ = p at hlocals ⊢
  have hkeeps : ∃ r, p.1 = { vm0 with
      globals := overlay m.globals.slots (fun slot i => selected warm slot vm.globals[i]?)
        vm0.globals
      retainedLocals := r } := by
    rw [← hfold]
    refine List.foldlRecOn (motive := fun p : Vm × List String => ∃ r, p.1 = { vm0 with
      globals := _, retainedLocals := r }) _ _ ⟨_, rfl⟩ ?_
    intro ⟨u, w⟩ ⟨r, hr⟩ e _
    obtain rfl : u = _ := hr
    exact restoreProgram_rest warm e.1 e.2 _
  obtain ⟨u, w⟩ := p
  obtain ⟨r, hr⟩ := hkeeps
  obtain rfl : u = _ := hr
  exact ⟨_, w, rfl, h0, rfl, rfl, hlocals⟩

end

/-- A program with a retained variable, a retained global and another one. -/
def counterModule : Module where
  functions := [⟨"Main", .program, 0, [], [], ⟨[⟨"Total", .int, 0, 8, true, false, .i16⟩]⟩, [], 0⟩]
  globals := ⟨[⟨"Count", .int, 0, 8, true, false, .i16⟩, ⟨"Limit", .int, 8, 8, false, false, .i16⟩]⟩
  typeDefs := []
  nativeFbIndices := []

def freshCounter : Vm := Vm.newWithNativeFbs counterModule .default none

/-- The machine after the program has run. -/
def ranCounter : Vm :=
  ({ freshCounter with globals := [.int 7, .int 9] } : Vm).setRetainedLocals 0 [.int 5]

end RustPlc.Engine
