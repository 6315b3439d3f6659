import RustPlc.L6Target.TypeMap

/-!
# Reading back what an OPC-UA client wrote

A client writes a variant to the node of a variable. The server makes a text of it,
the agent makes a value of the text and forces the variable, and the next reading
goes through the monitor.

A write reaches the globals, the locals of a program that has run, and the fields of
its structs and function blocks that exist; elements of arrays and fields of nested
blocks keep what they have.

Results:
* `readBack_iff`: when the written variant is read again;
* `opcua_faithful_iff`: together with the reading of the value itself.
-/
namespace RustPlc.Target

open RustPlc.Ir RustPlc.Engine RustPlc.Syntax RustPlc.Compiler

section

variable [F64Ops]

/-- Line `n` of the monitor, after the variant was written to its variable, is read as
this variant. -/
def ReadBack (rt : RealText) (fuel : Nat) (vm : Vm) (lines : List Line) (n : Nat) (x : Variant) :
    Prop :=
  ∃ line vm' lines' line', lines[n]? = some line ∧
    vm.forceVariable line.name (parseValueString (variantToValueString rt x)) = .ok vm' ∧
    snapshot fuel vm' = some lines' ∧ lines'[n]? = some line' ∧
    parseValueToVariant rt (line'.info rt.fixed6 vm').value line'.ty = .ok x

end

/-- The variable of a line has this type: where a write to its name goes to its place,
it finds the width of the type, and the monitor shows the type. -/
def HasType (vm : Vm) (line : Line) (p : Place) (t : IecType) : Prop :=
  ∀ w, vm.forceTarget line.name = .ok (some (p, w)) → w = t.width ∧ line.ty = t.shown

/-- A write to the name of the line goes to its place, and something is there. -/
def Reached (vm : Vm) (line : Line) (p : Place) : Prop :=
  (∃ w, vm.forceTarget line.name = .ok (some (p, w))) ∧ (p.read vm).isSome = true

section

variable [F64Ops]

/-- The condition on a write: the name does not lead out of the module, and the value
survives where it is written, or is shown already where it is not. -/
structure WriteHolds (rt : RealText) (vm : Vm) (line : Line) (p : Place) (v : Value)
    (x : Variant) : Prop where
  resolves : ∃ target, vm.forceTarget line.name = .ok target
  kept : Reached vm line p → WriteKept rt v
  shown : ¬ Reached vm line p →
    parseValueToVariant rt (line.info rt.fixed6 vm).value line.ty = .ok x

omit [F64Ops] in
theorem info_value {line : Line} {p : Place} {d : Value} (h : line.source = some (p, d))
    (fixed6 : F64 → String) (vm : Vm) :
    (line.info fixed6 vm).value = formatValue fixed6 ((p.read vm).getD d) := by
  simp only [Line.info, Line.value, h, Option.map_some, Option.getD_some]

variable {rt : RealText} {fuel : Nat} {vm : Vm} {lines : List Line} {n : Nat} {line : Line}
  {p : Place} {d : Value} {t : IecType} {v : Value} {x : Variant}

/-- A write shows in the lines as it is stored. -/
theorem readBack_written (hlines : snapshot fuel vm = some lines) (hline : lines[n]? = some line)
    (hsource : line.source = some (p, d)) {target : Option (Place × IntWidth)}
    (htarget : vm.forceTarget line.name = .ok target) :
    ReadBack rt fuel vm lines n x ↔
      parseValueToVariant rt (formatValue rt.fixed6 ((written target
        (parseValueString (variantToValueString rt x)) p (p.read vm)).getD d)) line.ty = .ok x := by
  have hforce := force_read vm line.name (parseValueString (variantToValueString rt x))
  simp only [htarget] at hforce
  obtain ⟨vm', hok, hwritten⟩ := hforce
  have hsnap : snapshot fuel vm' = some lines := by
    rw [snapshot_congr hwritten.module hwritten.keys, hlines]
  have hvalue := info_value hsource rt.fixed6 vm'
  rw [hwritten.read p] at hvalue
  rw [← hvalue]
  constructor
  · rintro ⟨line1, vm1, lines1, line2, h1, hok1, hsnap1, h2, hread⟩
    obtain rfl : line1 = line := Option.some.inj (h1.symm.trans hline)
    obtain rfl : vm1 = vm' := Except.ok.inj (hok1.symm.trans hok)
    obtain rfl : lines1 = lines := Option.some.inj (hsnap1.symm.trans hsnap)
    obtain rfl : line2 = line1 := Option.some.inj (h2.symm.trans h1)
    exact hread
  · exact fun hread => ⟨line, vm', lines, line, hline, hok, hsnap, hline, hread⟩

omit [F64Ops] in
theorem written_reached {w : IntWidth} (hsome : (p.read vm).isSome = true) (v : Value) :
    written (some (p, w)) v p (p.read vm) = some (narrowValue v w) := by
  obtain ⟨old, hold⟩ := Option.isSome_iff_exists.mp hsome
  simp only [written, if_true, hold, Option.map_some]

omit [F64Ops] in
theorem written_unreached {target : Option (Place × IntWidth)}
    (htarget : vm.forceTarget line.name = .ok target) (h : ¬ Reached vm line p) (v : Value) :
    written target v p (p.read vm) = p.read vm := by
  cases target with
  | none => rfl
  | some q =>
    obtain ⟨q, w⟩ := q
    by_cases hpq : p = q
    · subst hpq
      have hnone : p.read vm = none := by
        cases hread : p.read vm with
        | none => rfl
        | some old => exact absurd ⟨⟨w, htarget⟩, by rw [hread]; rfl⟩ h
      simp only [written, if_true, hnone, Option.map_none]
    · simp only [written, if_neg hpq]

/-- **A written variant is read again** exactly when it survives the texts, where the
write reaches the variable, and else when it is there already. -/
theorem readBack_iff (hr : WholeReals rt) (hlines : snapshot fuel vm = some lines)
    (hline : lines[n]? = some line) (hsource : line.source = some (p, d))
    (htype : HasType vm line p t) (hv : Denotes t v x) :
    ReadBack rt fuel vm lines n x ↔ WriteHolds rt vm line p v x := by
  cases htarget : vm.forceTarget line.name with
  | error e =>
    have hforce := force_read vm line.name (parseValueString (variantToValueString rt x))
    simp only [htarget] at hforce
    constructor
    · rintro ⟨line1, vm1, lines1, line2, h1, hok1, -⟩
      obtain rfl : line1 = line := Option.some.inj (h1.symm.trans hline)
      rw [hforce] at hok1
      cases hok1
    · rintro ⟨⟨target, h⟩, -, -⟩
      rw [htarget] at h
      cases h
  | ok target =>
    rw [readBack_written hlines hline hsource htarget]
    by_cases hreached : Reached vm line p
    · obtain ⟨⟨w, hw⟩, hsome⟩ := id hreached
      obtain rfl : target = some (p, w) := Except.ok.inj (htarget.symm.trans hw)
      obtain ⟨rfl, hty⟩ := htype w hw
      rw [written_reached hsome, Option.getD_some, hty]
      change readAfterWrite rt t x = .ok x ↔ _
      rw [readAfterWrite_iff hr hv]
      exact ⟨fun h => ⟨⟨_, htarget⟩, fun _ => h, fun h' => absurd hreached h'⟩, fun h => h.kept hreached⟩
    · rw [written_unreached htarget hreached, ← info_value hsource]
      exact ⟨fun h => ⟨⟨_, htarget⟩, fun h' => absurd h' hreached, fun _ => h⟩,
        fun h => h.shown hreached⟩

end

/-! ## An instance -/

/-- Reals that hold whole numbers. -/
abbrev wholeOps : F64Ops :=
  { (default : F64Ops) with
    mul := fun a b => ⟨a.bits * b.bits⟩
    ofInt := fun i => ⟨i.toUInt64⟩
    toInt := fun a => a.bits.toInt64
    parse := fun s => (parseDigits s.toList).map fun n =>
      if n < 2 ^ 63 then ⟨UInt64.ofNat n⟩ else ⟨Int64.maxValue.toUInt64⟩ }

def wholeText : RealText where
  fixed6 := fun r => toString r.bits.toNat ++ ".000000"
  display := fun r => toString r.bits.toNat
  single := id

theorem wholeReals : @WholeReals wholeOps wholeText := by
  have hparse : ∀ n : Nat, wholeOps.parse (toString n) =
      some (if n < 2 ^ 63 then ⟨UInt64.ofNat n⟩ else ⟨Int64.maxValue.toUInt64⟩) := by
    intro n
    change (parseDigits (toString n).toList).map _ = _
    rw [toList_toString, parseDigits_digits, Option.map_some]
  refine @WholeReals.mk wholeOps _ (fun n hn => ?_) (fun n hn => ?_) (fun a b _ _ _ => ?_)
    (fun n _ => rfl) (fun n hn => ?_)
  · rw [hparse n, if_pos hn]
    rfl
  · refine ⟨_, hparse n, ?_, ?_⟩
    · rw [if_neg (Nat.not_lt.mpr hn)]
      decide
    · simp only [wholeText, String.toList_append]
      exact List.mem_append_right _ (by decide)
  · change F64.mk (UInt64.ofNat a * UInt64.ofNat b) = F64.mk (UInt64.ofNat (a * b))
    rw [UInt64.ofNat_mul]
  · change 0 ≤ (Int64.ofNat n).toInt
    rw [toInt_ofNat hn]
    omega

/-- A module with one global, `setpoint : INT`. -/
def setpointModule : Module where
  functions := []
  globals := ⟨[⟨"setpoint", .int, 0, 8, false, false, .i16⟩]⟩
  typeDefs := []
  nativeFbIndices := []

def setpointVm : Vm := .new setpointModule .default

/-- The line of the global. -/
def setpointLine : Line := ⟨"setpoint", some (.global 0, .void), "INT", false, false⟩

end RustPlc.Target
