import RustPlc.L5Engine.EngineRun

/-!
# What a snapshot holds

The maps of a snapshot have one entry per name. With unique names each entry
is the one of a single variable (`Named.get_collect`), and a fold over the map
looks at each variable once (`Named.foldl_get`).

Results:
* `captureSnapshot_ok`: a snapshot can be taken of every machine of a module
  with unique names, and `snapshotOf` is what it holds.
-/
namespace RustPlc.Engine

open RustPlc.Ir RustPlc.Core

/-! ## Maps by name -/

namespace Named

variable {α β : Type}

/-- `map.insert(name, a)`, when there is something to insert. -/
def put (name : String) (a : Option α) (xs : Named α) : Named α :=
  match a with
  | some a => xs.insert name a
  | none => xs

theorem get_cons (n k : String) (a : α) (xs : Named α) :
    Named.get n ((k, a) :: xs) = if k = n then some a else Named.get n xs := by
  by_cases h : k = n
  · simp [Named.get, h]
  · simp [Named.get, h]

theorem get_insert (n m : String) (a : α) (xs : Named α) :
    Named.get n (xs.insert m a) = if n = m then some a else xs.get n := by
  induction xs with
  | nil =>
    rw [Named.insert, get_cons]
    by_cases h : n = m
    · simp [h]
    · simp [h, Ne.symm h, Named.get]
  | cons p xs ih =>
    obtain ⟨k, b⟩ := p
    unfold Named.insert
    by_cases hk : k = m
    · subst hk
      rw [if_pos rfl, get_cons, get_cons]
      by_cases h : n = k
      · simp [h]
      · simp [h, Ne.symm h]
    · rw [if_neg hk, get_cons, get_cons, ih]
      by_cases h : k = n
      · subst h
        simp [hk]
      · simp [h]

theorem keys_insert (m : String) (a : α) (xs : Named α) :
    (xs.insert m a).map (·.1) =
      if m ∈ xs.map (·.1) then xs.map (·.1) else xs.map (·.1) ++ [m] := by
  induction xs with
  | nil => simp [Named.insert]
  | cons p xs ih =>
    obtain ⟨k, b⟩ := p
    unfold Named.insert
    by_cases hk : k = m
    · simp [hk]
    · rw [if_neg hk, List.map_cons, ih]
      simp only [List.map_cons, List.mem_cons, Ne.symm hk, false_or]
      split <;> rfl

/-- Inserting keeps one entry per name. -/
theorem nodup_insert {m : String} {a : α} {xs : Named α} (h : (xs.map (·.1)).Nodup) :
    ((xs.insert m a).map (·.1)).Nodup := by
  rw [keys_insert]
  split
  · exact h
  · next hm => exact List.concat_eq_append ▸ List.Nodup.concat hm h

theorem nodup_put {m : String} {a : Option α} {xs : Named α} (h : (xs.map (·.1)).Nodup) :
    ((xs.put m a).map (·.1)).Nodup := by
  cases a with
  | none => exact h
  | some a => exact nodup_insert h

/-- The map with the entries `g x` under the names `name x`. -/
def collect (name : β → String) (g : β → Option α) (xs : List β) : Named α :=
  xs.foldl (fun acc x => acc.put (name x) (g x)) []

variable {name : β → String} {g : β → Option α} {xs : List β}

theorem collect_concat (x : β) :
    collect name g (xs ++ [x]) = (collect name g xs).put (name x) (g x) := by
  simp [collect]

theorem nodup_collect : ((collect name g xs).map (·.1)).Nodup := by
  unfold collect
  refine List.foldlRecOn (motive := fun acc : Named α => (acc.map (·.1)).Nodup) xs _ ?_ ?_
  · exact List.nodup_nil
  · intro acc hacc x _
    exact nodup_put hacc

/-- With unique names, what stands under a name is the entry of its element. -/
theorem get_collect (hn : (xs.map name).Nodup) {n : String} {v : α} :
    (collect name g xs).get n = some v ↔ ∃ x ∈ xs, name x = n ∧ g x = some v := by
  induction xs using List.reverseRecOn with
  | nil => simp [collect, Named.get]
  | append_singleton xs x ih =>
    rw [List.map_append, List.nodup_append] at hn
    obtain ⟨hxs, -, hnew⟩ := hn
    have hmem : (∃ y ∈ xs ++ [x], name y = n ∧ g y = some v) ↔
        (∃ y ∈ xs, name y = n ∧ g y = some v) ∨ name x = n ∧ g x = some v := by
      simp [or_and_right, exists_or]
    rw [collect_concat, hmem, ← ih hxs]
    cases hg : g x with
    | none => simp [put]
    | some a =>
      simp only [put, get_insert]
      by_cases h : n = name x
      · subst h
        have hfresh : ¬ ∃ y ∈ xs, name y = name x ∧ g y = some v := by
          intro ⟨y, hy, hyx, _⟩
          exact hnew (name y) (List.mem_map_of_mem hy) (name x) (by simp) hyx
        simp [ih hxs, hfresh]
      · simp [h, Ne.symm h]

theorem get_eq_none {n : String} {xs : Named α} (h : n ∉ xs.map (·.1)) : xs.get n = none := by
  refine Option.map_eq_none_iff.mpr (List.find?_eq_none.mpr fun p hp heq => h ?_)
  rw [beq_iff_eq] at heq
  exact List.mem_map.mpr ⟨p, hp, heq⟩

/-- What a fold over a map with one entry per name does to an observation `g`
that only the entry of one name changes. -/
theorem foldl_get {S O : Type} {f : S → String × β → S} {g : S → O} {u : O → β → O} {n : String}
    {I : S → Prop} (hstep : ∀ s k b, I s →
      I (f s (k, b)) ∧ g (f s (k, b)) = if k = n then u (g s) b else g s) :
    ∀ {es : Named β} {s : S}, (es.map (·.1)).Nodup → I s →
      g (es.foldl f s) = (es.get n).elim (g s) (u (g s))
  | [], _, _, _ => rfl
  | (k, b) :: es, s, hn, hs => by
    rw [List.map_cons, List.nodup_cons] at hn
    obtain ⟨ht, hobs⟩ := hstep s k b hs
    rw [List.foldl_cons, foldl_get hstep hn.2 ht, hobs, get_cons]
    by_cases hk : k = n
    · subst hk
      rw [if_pos rfl, if_pos rfl, get_eq_none hn.1]
      rfl
    · rw [if_neg hk, if_neg hk]

end Named

/-- The names of a list of slots, as look ups compare them. -/
abbrev slotNames (slots : List VarSlot) : List String := slots.map fun s => toUppercase s.name

/-- With unique names a slot is found by its own name. -/
theorem exactSlot_self {slots : List VarSlot} (hn : (slotNames slots).Nodup) {j : Nat}
    {s : VarSlot} (hs : slots[j]? = some s) : exactSlot slots s.name = some (j, s) := by
  refine findIdx_eq hs (by simp) fun k t hk ht => ?_
  by_contra h
  have hname : t.name = s.name := by simpa using h
  have := getElem?_inj_of_nodup_map hn ht hs (congrArg toUppercase hname)
  omega

theorem exactSlot_some {slots : List VarSlot} {name : String} {j : Nat} {s : VarSlot}
    (h : exactSlot slots name = some (j, s)) : slots[j]? = some s ∧ s.name = name := by
  have hx := findIdx_some h
  exact ⟨hx.1, by simpa using hx.2.1⟩

/-- Names that differ even without regard to case differ. -/
theorem nodup_names {α : Type} {name : α → String} {xs : List α}
    (h : (xs.map fun x => toUppercase (name x)).Nodup) : (xs.map name).Nodup :=
  List.Nodup.of_map toUppercase (by rwa [List.map_map])

theorem nodup_zipIdx {α : Type} {name : α → String} {xs : List α}
    (h : (xs.map fun x => toUppercase (name x)).Nodup) :
    (xs.zipIdx.map fun p => name p.1).Nodup := by
  rw [← Function.comp_def name Prod.fst, ← List.map_map, List.zipIdx_map_fst]
  exact nodup_names h

/-! ## Fields -/

/-- The fields of a struct or function block variable. -/
def fieldsOf (m : Module) : VarType → Option (List VarSlot)
  | .struct td => match m.typeDefs[td.toNat]? with
    | some (.struct _ fields) => some fields
    | _ => none
  | .fbInstance fb => (m.functions[fb.toNat]?).map (·.locals.slots)
  | _ => none

/-- The type of the variable exists and its fields have unique names. -/
def fieldsDistinct (m : Module) (s : VarSlot) : Bool :=
  match s.ty with
  | .struct td => match m.typeDefs[td.toNat]? with
    | some (.struct _ fields) => decide (slotNames fields).Nodup
    | _ => true
  | .fbInstance fb => match m.functions[fb.toNat]? with
    | some func => decide (slotNames func.locals.slots).Nodup
    | none => false
  | _ => true

/-- What the analyzer, the compiler and the 16-bit indices promise of a module
whose state is saved: names are unique, those of the fields of its programs'
instances too. -/
@[mk_iff]
structure Storable (m : Module) : Prop where
  distinct : m.Distinct
  fields : ∀ f ∈ m.functions, f.kind = .program → ∀ s ∈ f.locals.slots, fieldsDistinct m s = true

instance (m : Module) : Decidable (Storable m) := decidable_of_iff' _ (storable_iff m)

theorem fieldsOf_nodup {m : Module} {s : VarSlot} (h : fieldsDistinct m s = true)
    {fields : List VarSlot} (hf : fieldsOf m s.ty = some fields) : (slotNames fields).Nodup := by
  unfold fieldsDistinct at h
  unfold fieldsOf at hf
  split at h
  · next td hty =>
    simp only [hty] at hf
    split at hf
    · next name fs hx =>
      simp only [hx, decide_eq_true_eq] at h
      exact Option.some.inj hf ▸ h
    · cases hf
  · next fb hty =>
    simp only [hty, Option.map_eq_some_iff] at hf
    obtain ⟨func, hx, rfl⟩ := hf
    simp only [hx, decide_eq_true_eq] at h
    exact h
  · next hstruct hfb =>
    split at hf
    · next td hty => exact absurd hty (hstruct td)
    · next fb hty => exact absurd hty (hfb fb)
    · cases hf

theorem structTypeFields_eq (vm : Vm) (td : UInt16) :
    vm.structTypeFields td = fieldsOf vm.module (.struct td) := rfl

/-! ## Taking a snapshot -/

/-- The entry of a scalar variable. -/
def varEntry (slot : VarSlot) (v : Value) : Option RetainEntry :=
  if retainable slot && !isComposite slot.ty then some (entryOf slot v) else none

/-- The entry of a field of the variable `slot`. -/
def fieldEntry (slot field : VarSlot) (v : Value) : Option RetainEntry :=
  if isComposite field.ty then none else some (entryOf slot v)

/-- A map that is left out when it is empty. -/
def filled {α : Type} : Named α → Option (Named α)
  | [] => none
  | xs => some xs

/-- The value of field `j` of an instance. -/
def fieldValue (state : Option (List Value)) (field : VarSlot) (j : Nat) : Value :=
  (state.bind (·[j]?)).getD (Value.defaultForType field.ty)

/-- The entries of an instance variable. -/
def instanceEntries (m : Module) (slot : VarSlot) (state : Option (List Value)) :
    Option (Named RetainEntry) :=
  if retainable slot then
    (fieldsOf m slot.ty).bind fun fields => filled (captureFields slot fields state)
  else none

theorem captureFields_eq (slot : VarSlot) (fields : List VarSlot) (state : Option (List Value)) :
    captureFields slot fields state = Named.collect (fun p => p.1.name)
      (fun p => fieldEntry slot p.1 (fieldValue state p.1 p.2)) fields.zipIdx := by
  unfold captureFields Named.collect
  congr 1
  funext acc ⟨field, j⟩
  by_cases h : isComposite field.ty = true
  · simp [h, fieldEntry, Named.put]
  · simp [h, fieldEntry, Named.put, fieldValue]

theorem captureGlobals_eq (vm : Vm) :
    captureGlobals vm = Named.collect (fun p => p.1.name)
      (fun p => if retainable p.1 then some (entryOf p.1 (vm.globals[p.2]?.getD .void)) else none)
      vm.module.globals.slots.zipIdx := by
  unfold captureGlobals Named.collect
  congr 1
  funext acc ⟨slot, i⟩
  by_cases h : retainable slot = true
  · simp [h, Named.put]
  · simp [h, Named.put]

section

variable {m : Module} {vm : Vm}

theorem captureSlot_ok (hv : vm.module = m) {slot : VarSlot} (hs : fieldsDistinct m slot = true)
    (i : UInt16) (locals : List Value) (acc : Captured) (j : Nat) :
    captureSlot vm i locals acc slot j = .ok
      ⟨acc.vars.put slot.name (varEntry slot (locals[j]?.getD .void)),
        acc.instances.put slot.name (instanceEntries m slot
          (Finmap.lookup (programIdentity i, j.toUInt16) vm.fbInstances))⟩ := by
  subst hv
  by_cases hr : retainable slot = true
  · unfold captureSlot
    simp only [hr, Bool.not_true, Bool.false_eq_true, if_false]
    split
    · next td hty =>
      rw [structTypeFields_eq]
      cases hf : fieldsOf vm.module (.struct td) with
      | none => simp [varEntry, instanceEntries, hr, hty, hf, isComposite, Named.put]
      | some fields =>
        cases hc : captureFields slot fields
            (Finmap.lookup (programIdentity i, j.toUInt16) vm.fbInstances) with
        | nil => simp [varEntry, instanceEntries, hr, hty, hf, hc, isComposite, Named.put, filled]
        | cons e es =>
          simp [varEntry, instanceEntries, hr, hty, hf, hc, isComposite, Named.put, filled]
    · next fb hty =>
      unfold fieldsDistinct at hs
      simp only [hty] at hs
      split at hs
      · next func hx =>
        have hf : fieldsOf vm.module (.fbInstance fb) = some func.locals.slots := by
          simp [fieldsOf, hx]
        cases hc : captureFields slot func.locals.slots
            (Finmap.lookup (programIdentity i, j.toUInt16) vm.fbInstances) with
        | nil =>
          simp [varEntry, instanceEntries, hr, hty, hf, hc, isComposite, Named.put, filled, index,
            hx, Except.map]
        | cons e es =>
          simp [varEntry, instanceEntries, hr, hty, hf, hc, isComposite, Named.put, filled, index,
            hx, Except.map]
      · cases hs
    · next n hty => simp [varEntry, instanceEntries, hr, hty, fieldsOf, isComposite, Named.put]
    · next n hty => simp [varEntry, instanceEntries, hr, hty, fieldsOf, isComposite, Named.put]
    · next h1 h2 h3 h4 =>
      have hplain : isComposite slot.ty = false ∧ fieldsOf vm.module slot.ty = none := by
        cases hty : slot.ty <;> simp_all [isComposite, fieldsOf]
      simp [varEntry, instanceEntries, hr, hplain, Named.put]
  · simp [captureSlot, varEntry, instanceEntries, hr, Named.put]

theorem foldlM_ok {α β ε : Type} {f : β → α → Except ε β} {g : β → α → β} :
    ∀ {xs : List α} {b : β}, (∀ b, ∀ a ∈ xs, f b a = .ok (g b a)) →
      xs.foldlM f b = .ok (xs.foldl g b)
  | [], b, _ => rfl
  | x :: xs, b, h => by
    rw [List.foldlM_cons, h b x (List.mem_cons_self ..), List.foldl_cons]
    exact foldlM_ok fun b a ha => h b a (List.mem_cons_of_mem x ha)

/-- The entries of the scalar variables of a program. -/
def programVars (prog : Function) (locals : List Value) : Named RetainEntry :=
  .collect (fun p => p.1.name) (fun p => varEntry p.1 (locals[p.2]?.getD .void))
    prog.locals.slots.zipIdx

/-- The entries of the instances of program `i`. -/
def programInstances (vm : Vm) (i : UInt16) (prog : Function) : Named (Named RetainEntry) :=
  .collect (fun p => p.1.name) (fun p => instanceEntries vm.module p.1
    (Finmap.lookup (programIdentity i, p.2.toUInt16) vm.fbInstances)) prog.locals.slots.zipIdx

theorem foldl_captured {α : Type} (name : α → String) (g : α → Option RetainEntry)
    (h : α → Option (Named RetainEntry)) (xs : List α) (acc : Captured) :
    xs.foldl (fun acc x => ⟨acc.vars.put (name x) (g x), acc.instances.put (name x) (h x)⟩) acc =
      (⟨xs.foldl (fun a x => a.put (name x) (g x)) acc.vars,
        xs.foldl (fun a x => a.put (name x) (h x)) acc.instances⟩ : Captured) := by
  induction xs generalizing acc with
  | nil => rfl
  | cons x xs ih => exact ih _

theorem captureProgram_ok (hm : Storable m) (hv : vm.module = m) {prog : Function}
    (hp : prog ∈ m.functions) (hk : prog.kind = .program) (i : UInt16) (locals : List Value) :
    captureProgram vm i prog locals = .ok ⟨programVars prog locals, programInstances vm i prog⟩ := by
  unfold captureProgram
  have hslot : ∀ (acc : Captured), ∀ p ∈ prog.locals.slots.zipIdx,
      captureSlot vm i locals acc p.1 p.2 = .ok
        ⟨acc.vars.put p.1.name (varEntry p.1 (locals[p.2]?.getD .void)),
          acc.instances.put p.1.name (instanceEntries vm.module p.1
            (Finmap.lookup (programIdentity i, p.2.toUInt16) vm.fbInstances))⟩ := by
    intro acc p hmem
    have hs := List.fst_mem_of_mem_zipIdx hmem
    rw [hv]
    exact captureSlot_ok hv (hm.fields prog hp hk p.1 hs) i locals acc p.2
  rw [foldlM_ok hslot]
  exact congrArg Except.ok (foldl_captured _ _ _ _ _)

theorem mem_retainedPrograms {i : UInt16} {prog : Function} {locals : List Value} :
    (i, prog, locals) ∈ vm.retainedPrograms ↔ ∃ k : Nat, vm.module.functions[k]? = some prog ∧
      prog.kind = .program ∧ k < 65536 ∧ i = k.toUInt16 ∧
      Finmap.lookup i vm.retainedLocals = some locals := by
  unfold Vm.retainedPrograms
  rw [List.mem_filterMap]
  constructor
  · intro ⟨⟨func, k⟩, hmem, h⟩
    rw [List.mem_zipIdx_iff_getElem?] at hmem
    dsimp only at h
    split at h
    · next hcond =>
      simp only [Option.map_eq_some_iff, Prod.mk.injEq] at h
      obtain ⟨ls, hls, rfl, rfl, rfl⟩ := h
      exact ⟨k, hmem, hcond.1, hcond.2, rfl, hls⟩
    · cases h
  · rintro ⟨k, hf, hk, hlt, rfl, hls⟩
    refine ⟨(prog, k), List.mem_zipIdx_iff_getElem?.mpr hf, ?_⟩
    simp [hk, hlt, hls]

/-- No two of the programs with retained locals share a name. -/
theorem retainedPrograms_nodup (hm : vm.module.Distinct) :
    (vm.retainedPrograms.map fun p => p.2.1.name).Nodup := by
  have hall := List.pairwise_map.mp (nodup_zipIdx hm.functions)
  have hname : ∀ (x : Function × Nat) p, (if x.1.kind = .program ∧ x.2 < 65536 then
      (Finmap.lookup x.2.toUInt16 vm.retainedLocals).map fun ls => (x.2.toUInt16, x.1, ls)
      else none) = some p → p.2.1 = x.1 := by
    intro x p h
    split at h
    · obtain ⟨ls, -, rfl⟩ := Option.map_eq_some_iff.mp h
      rfl
    · cases h
  rw [List.Nodup, List.pairwise_map, Vm.retainedPrograms, List.pairwise_filterMap]
  refine hall.imp fun {x y} hne p hp q hq => ?_
  rw [hname x p hp, hname y q hq]
  exact hne

/-- The snapshot of a machine. -/
def snapshotOf (vm : Vm) : RetainSnapshot where
  globals := captureGlobals vm
  programLocals := .collect (fun p => p.2.1.name) (fun p => filled (programVars p.2.1 p.2.2))
    vm.retainedPrograms
  instanceFields := .collect (fun p => p.2.1.name)
    (fun p => filled (programInstances vm p.1 p.2.1)) vm.retainedPrograms

theorem foldl_snapshot {α : Type} (name : α → String) (g : α → Option (Named RetainEntry))
    (h : α → Option (Named (Named RetainEntry))) (xs : List α) (acc : RetainSnapshot) :
    xs.foldl (fun acc x => { acc with
        programLocals := acc.programLocals.put (name x) (g x)
        instanceFields := acc.instanceFields.put (name x) (h x) }) acc =
      { acc with
        programLocals := xs.foldl (fun a x => a.put (name x) (g x)) acc.programLocals
        instanceFields := xs.foldl (fun a x => a.put (name x) (h x)) acc.instanceFields } := by
  induction xs generalizing acc with
  | nil => rfl
  | cons x xs ih => exact ih _

/-- The entries of one program are added to the snapshot. -/
theorem captureSnapshot_step (hm : Storable m) (hv : vm.Shaped m) (snap : RetainSnapshot)
    {p : UInt16 × Function × List Value} (hmem : p ∈ vm.retainedPrograms) :
    (do
      let c ← captureProgram vm p.1 p.2.1 p.2.2
      return { snap with
        programLocals := match c.vars with
          | [] => snap.programLocals
          | vars => snap.programLocals.insert p.2.1.name vars
        instanceFields := match c.instances with
          | [] => snap.instanceFields
          | instances => snap.instanceFields.insert p.2.1.name instances } : Except Trap _) =
    .ok { snap with
      programLocals := snap.programLocals.put p.2.1.name (filled (programVars p.2.1 p.2.2))
      instanceFields :=
        snap.instanceFields.put p.2.1.name (filled (programInstances vm p.1 p.2.1)) } := by
  obtain ⟨i, prog, locals⟩ := p
  obtain ⟨k, hf, hk, -⟩ := mem_retainedPrograms.mp hmem
  rw [hv.module] at hf
  rw [captureProgram_ok hm hv.module (List.mem_of_getElem? hf) hk]
  cases hvars : programVars prog locals with
  | nil =>
    cases hinst : programInstances vm i prog with
    | nil => rfl
    | cons => rfl
  | cons =>
    cases hinst : programInstances vm i prog with
    | nil => rfl
    | cons => rfl

/-- **A snapshot can be taken** of every machine of such a module. -/
theorem captureSnapshot_ok (hm : Storable m) (hv : vm.Shaped m) :
    captureSnapshot vm = .ok (snapshotOf vm) := by
  have hkeys : ¬ ∃ i ∈ vm.retainedLocals.keys, vm.module.functions.length ≤ i.toNat := by
    intro ⟨i, hi, hlen⟩
    obtain ⟨xs, hxs⟩ := Finmap.mem_iff.mp (Finmap.mem_keys.mp hi)
    obtain ⟨func, hf, -⟩ := hv.retained i xs hxs
    have := (List.getElem?_eq_some_iff.mp hf).1
    rw [hv.module] at hlen
    omega
  unfold captureSnapshot
  rw [if_neg hkeys]
  exact (foldlM_ok fun snap _ hmem => captureSnapshot_step hm hv snap hmem).trans
    (congrArg Except.ok (foldl_snapshot _ _ _ _ _))

end

end RustPlc.Engine
