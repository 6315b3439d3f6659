import RustPlc.L3Vm.Returns
import RustPlc.L3Vm.SafeRun

/-!
# Stores to the fields of instances

`StoreField` and `StoreFieldIndex` write one position of the vector of an
instance (crates/st-engine/src/vm.rs:1865-1910). An instance that does not exist
yet is created, with no more positions than the store needs and `Int(0)` in all
of them.

Results:
* `instanceGet_vector`, `instanceSet_vector`: loads and stores on the vector;
* `FieldWrite.stored`: what an iteration that stores to a field leaves;
* `Before.vector`: what is in an instance to whose fields has been stored, when
  nothing else happened to it.
-/
namespace RustPlc.Engine

open RustPlc.Ir RustPlc.Core

/-- A store to an instance that may not exist yet. -/
def storeAt (i : Nat) (v : Value) (vector : Option (List Value)) : List Value :=
  (Vm.padTo (i + 1) (vector.getD (List.replicate (i + 1) Value.dflt))).set i v

/-- What a load finds at a position. -/
def vectorAt (vector : Option (List Value)) (i : Nat) : Value :=
  (vector.bind (·[i]?)).getD Value.dflt

@[simp] theorem vectorAt_none (i : Nat) : vectorAt none i = Value.dflt := rfl

theorem padTo_field (n : Nat) (xs : List Value) (i : Nat) :
    ((Vm.padTo n xs)[i]?).getD Value.dflt = (xs[i]?).getD Value.dflt := by
  unfold Vm.padTo
  by_cases hi : i < xs.length
  · rw [List.getElem?_append_left hi]
  · rw [List.getElem?_append_right (by omega), List.getElem?_eq_none (l := xs) (by omega),
      List.getElem?_replicate]
    split <;> rfl

theorem padTo_get {n : Nat} (xs : List Value) {i : Nat} (hi : i < n) :
    (Vm.padTo n xs)[i]? = some ((xs[i]?).getD Value.dflt) := by
  have hlen : i < (Vm.padTo n xs).length := by
    unfold Vm.padTo
    rw [List.length_append, List.length_replicate]
    omega
  rw [← padTo_field n, List.getElem?_eq_getElem hlen]
  rfl

/-- A store changes no other position. -/
theorem storeAt_other {i k : Nat} (v : Value) (vector : Option (List Value)) (hk : k ≠ i) :
    vectorAt (some (storeAt i v vector)) k = vectorAt vector k := by
  show ((storeAt i v vector)[k]?).getD Value.dflt = _
  unfold storeAt
  rw [List.getElem?_set_ne hk.symm, padTo_field]
  cases vector with
  | none =>
    rw [Option.getD_none, List.getElem?_replicate]
    split <;> rfl
  | some xs => rfl

/-- A load reads the vector of the instance. -/
theorem instanceGet_vector (vm : Vm) (key : InstanceKey) (i : Nat) :
    vm.instanceGet key i = vectorAt (Finmap.lookup key vm.fbInstances) i := by
  unfold Vm.instanceGet
  cases Finmap.lookup key vm.fbInstances <;> rfl

theorem instanceSet_vector (vm : Vm) (key : InstanceKey) (i : Nat) (v : Value) :
    Finmap.lookup key (vm.instanceSet key i v).fbInstances =
      some (storeAt i v (Finmap.lookup key vm.fbInstances)) :=
  Finmap.lookup_insert _

theorem checkedUsizeAdd_eq {a b n : Nat} (h : checkedUsizeAdd a b = .ok n) : n = a + b := by
  unfold checkedUsizeAdd at h
  by_cases hfits : a + b < 2 ^ 64
  · rw [if_pos hfits] at h
    exact (Except.ok.inj h).symm
  · rw [if_neg hfits] at h
    cases h

section

variable [F64Ops]

theorem storeField_vector {vm vm' : Vm} (func : Function) {f : CallFrame} (rest : List CallFrame)
    {slot field : UInt16} {val : Reg} {v : Value} (hv : f.regGet val = .ok v)
    (h : vm.control func f rest (.storeField slot field val) = .next vm') :
    Finmap.lookup (vm.instanceKey slot) vm'.fbInstances =
      some (storeAt field.toNat v (Finmap.lookup (vm.instanceKey slot) vm.fbInstances)) := by
  change vm.orTrap (f.regGet val)
    (fun v => .next (vm.instanceSet (vm.instanceKey slot) field.toNat v)) = _ at h
  rw [hv] at h
  obtain rfl := Outcome.next.inj h
  exact instanceSet_vector ..

theorem storeFieldIndex_vector {vm : Vm} {f : CallFrame} {slot off : UInt16} {idx val : Reg}
    {raw v : Value} (hraw : f.regGet idx = .ok raw) (hv : f.regGet val = .ok v) {vm' : Vm}
    (h : vm.storeFieldIndex f slot off idx val = .next vm') :
    Finmap.lookup (vm.instanceKey slot) vm'.fbInstances =
      some (storeAt (off.toNat + Vm.asUsize raw.asInt) v
        (Finmap.lookup (vm.instanceKey slot) vm.fbInstances)) := by
  simp only [Vm.storeFieldIndex, Vm.orTrap, hraw, hv] at h
  cases hflat : checkedUsizeAdd off.toNat (Vm.asUsize raw.asInt) with
  | error p =>
    rw [hflat] at h
    cases h
  | ok flat =>
    obtain rfl := checkedUsizeAdd_eq hflat
    rw [hflat] at h
    cases hnext : checkedUsizeAdd (off.toNat + Vm.asUsize raw.asInt) 1 with
    | error p =>
      simp only [liftPanic, hnext] at h
      cases h
    | ok n =>
      simp only [liftPanic, hnext] at h
      obtain rfl := Outcome.next.inj h
      exact instanceSet_vector ..

/-! ## An iteration that stores to a field -/

/-- The next iteration stores `v` at position `i` of the instance. -/
inductive FieldWrite (vm : Vm) (key : InstanceKey) : Nat → Value → Prop where
  | field {f : CallFrame} {rest : List CallFrame} {slot field : UInt16} {val : Reg} {v : Value}
    (hstack : vm.callStack = f :: rest) (hkey : vm.instanceKey slot = key)
    (hnext : vm.nextInstr = some (.storeField slot field val)) (hv : f.regGet val = .ok v) :
    FieldWrite vm key field.toNat v
  | element {f : CallFrame} {rest : List CallFrame} {slot off : UInt16} {idx val : Reg}
    {raw v : Value} (hstack : vm.callStack = f :: rest) (hkey : vm.instanceKey slot = key)
    (hnext : vm.nextInstr = some (.storeFieldIndex slot off idx val))
    (hraw : f.regGet idx = .ok raw) (hv : f.regGet val = .ok v) :
    FieldWrite vm key (off.toNat + Vm.asUsize raw.asInt) v

/-- An iteration that goes on executes the next instruction. -/
theorem step_exec {vm vm' : Vm} {f : CallFrame} {rest : List CallFrame} {i : Instruction}
    (hstack : vm.callStack = f :: rest) (hnext : vm.nextInstr = some i)
    (h : vm.step = .next vm') : ∃ func d, vm.func? f.funcIndex = some func ∧
      (vm.advance d f rest).exec func { f with pc := f.pc + 1 } rest i = .next vm' := by
  have hcase := vm.stepCase
  rw [hnext] at hcase
  generalize vm.step = o at h hcase
  cases hcase with
  | instr f0 rest0 func d _ hstack0 hfunc hi =>
    obtain ⟨rfl, rfl⟩ := List.cons.inj (hstack.symm.trans hstack0)
    exact ⟨func, d, hfunc, h⟩

theorem FieldWrite.stored {vm vm' : Vm} {key : InstanceKey} {i : Nat} {v : Value}
    (hw : FieldWrite vm key i v) (h : vm.step = .next vm') :
    Finmap.lookup key vm'.fbInstances =
      some (storeAt i v (Finmap.lookup key vm.fbInstances)) := by
  cases hw with
  | @field f rest slot field val _ hstack hkey hnext hv =>
    obtain ⟨func, d, -, hexec⟩ := step_exec hstack hnext h
    subst hkey
    rw [← advance_instanceKey d hstack slot]
    exact storeField_vector (f := { f with pc := f.pc + 1 }) func rest hv hexec
  | @element f rest slot off idx val raw _ hstack hkey hnext hraw hv =>
    obtain ⟨func, d, -, hexec⟩ := step_exec hstack hnext h
    subst hkey
    rw [← advance_instanceKey d hstack slot]
    exact storeFieldIndex_vector (f := { f with pc := f.pc + 1 }) hraw hv hexec

/-! ## Before the first call -/

/-- What happens to an instance before it is called, from a machine that does
not have it: stores to its fields, one by one, and anything that leaves it
alone. -/
inductive Before (key : InstanceKey) (vm0 : Vm) : List (Nat × Value) → Vm → Prop where
  | start (h : Finmap.lookup key vm0.fbInstances = none) : Before key vm0 [] vm0
  | write {ws : List (Nat × Value)} {vm vm' : Vm} {i : Nat} {v : Value}
    (hbefore : Before key vm0 ws vm) (hw : FieldWrite vm key i v) (h : vm.step = .next vm') :
    Before key vm0 (ws ++ [(i, v)]) vm'
  | other {ws : List (Nat × Value)} {vm vm' : Vm} (hbefore : Before key vm0 ws vm)
    (h : Vm.Move vm () vm')
    (hsame : Finmap.lookup key vm'.fbInstances = Finmap.lookup key vm.fbInstances) :
    Before key vm0 ws vm'

/-- **The instance before its first call.** Without a store it does not exist;
with one, every position that was not stored to has `Int(0)`. -/
theorem Before.vector {key : InstanceKey} {vm0 vm : Vm} {ws : List (Nat × Value)}
    (h : Before key vm0 ws vm) :
    (ws = [] → Finmap.lookup key vm.fbInstances = none) ∧
      (ws ≠ [] → ∃ xs, Finmap.lookup key vm.fbInstances = some xs) ∧
      ∀ k, k ∉ ws.map Prod.fst →
        vectorAt (Finmap.lookup key vm.fbInstances) k = Value.dflt := by
  induction h with
  | start h => exact ⟨fun _ => h, fun hne => absurd rfl hne, fun k _ => by rw [h, vectorAt_none]⟩
  | @write ws vm vm' i v hbefore hw hstep ih =>
    have hstored := hw.stored hstep
    refine ⟨fun h => absurd h (by simp), fun _ => ⟨_, hstored⟩, fun k hk => ?_⟩
    rw [List.map_append, List.mem_append, not_or] at hk
    rw [hstored, storeAt_other v _ fun h => hk.2 (List.mem_singleton.mpr h)]
    exact ih.2.2 k hk.1
  | other hbefore hmove hsame ih =>
    rw [hsame]
    exact ih

end

end RustPlc.Engine
