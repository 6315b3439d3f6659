import RustPlc.L1Ir.Module
import Mathlib.Data.List.Nodup

/-!
# Names

The source compares names in two ways: `eq_ignore_ascii_case` and equality
of `to_uppercase`. Both are the same relation, and with unique names a look
up by name finds the position it was given.
-/
namespace RustPlc.Ir

theorem toLower_toUpper (c : Char) : c.toUpper.toLower = c.toLower := by
  unfold Char.toUpper
  split
  · next h =>
    apply Char.ext
    unfold Char.toLower
    rw [dif_pos, dif_neg]
    · show c.val + ('A'.val - 'a'.val) + ('a'.val - 'A'.val) = c.val
      rw [UInt32.add_assoc]
      exact UInt32.add_zero _
    · simp [UInt32.le_iff_toNat_le] at h ⊢
      omega
    · simp [UInt32.le_iff_toNat_le, UInt32.toNat_add] at h ⊢
      omega
  · rfl

theorem toUpper_toLower (c : Char) : c.toLower.toUpper = c.toUpper := by
  unfold Char.toLower
  split
  · next h =>
    apply Char.ext
    unfold Char.toUpper
    rw [dif_pos, dif_neg]
    · show c.val + ('a'.val - 'A'.val) + ('A'.val - 'a'.val) = c.val
      rw [UInt32.add_assoc]
      exact UInt32.add_zero _
    · simp [UInt32.le_iff_toNat_le] at h ⊢
      omega
    · simp [UInt32.le_iff_toNat_le, UInt32.toNat_add] at h ⊢
      omega
  · rfl

/-- The two comparisons of names agree. -/
theorem eqIgnoreAsciiCase_upper {a b : String} :
    eqIgnoreAsciiCase a b = true ↔ toUppercase a = toUppercase b := by
  unfold eqIgnoreAsciiCase toUppercase
  rw [beq_iff_eq, String.ofList_inj]
  constructor
  · intro h
    have := congrArg (List.map Char.toUpper) h
    simpa [Function.comp_def, toUpper_toLower] using this
  · intro h
    have := congrArg (List.map Char.toLower) h
    simpa [Function.comp_def, toLower_toUpper] using this

theorem toUpper_idem (c : Char) : c.toUpper.toUpper = c.toUpper := by
  rw [← toUpper_toLower c.toUpper, toLower_toUpper, toUpper_toLower]

@[simp] theorem toUppercase_idem (s : String) : toUppercase (toUppercase s) = toUppercase s := by
  simp only [toUppercase, String.toList_ofList, List.map_map, Function.comp_def, toUpper_idem]

theorem eqIgnoreAsciiCase_congr {a b : String} (h : toUppercase a = toUppercase b) (c : String) :
    eqIgnoreAsciiCase c a = eqIgnoreAsciiCase c b := by
  rw [Bool.eq_iff_iff, eqIgnoreAsciiCase_upper, eqIgnoreAsciiCase_upper, h]

/-- A look up depends on the name up to case only. -/
theorem MemoryLayout.findSlot_congr (l : MemoryLayout) {a b : String}
    (h : toUppercase a = toUppercase b) : l.findSlot a = l.findSlot b := by
  simp only [findSlot, eqIgnoreAsciiCase_congr h]

theorem Module.findFunction_congr (m : Module) {a b : String}
    (h : toUppercase a = toUppercase b) : m.findFunction a = m.findFunction b := by
  simp only [findFunction, eqIgnoreAsciiCase_congr h]

/-! ## Unique names -/

section

variable {α : Type} {p : α → Bool} {xs : List α} {i : Nat} {x : α}

/-- The first position is the given one when no earlier element fits. -/
theorem findIdx_eq (hx : xs[i]? = some x) (hp : p x = true)
    (h : ∀ j y, j < i → xs[j]? = some y → p y = false) : findIdx p xs = some (i, x) := by
  induction xs generalizing i with
  | nil => simp at hx
  | cons z zs ih =>
    unfold findIdx
    cases i with
    | zero =>
      simp only [List.getElem?_cons_zero, Option.some.injEq] at hx
      subst hx
      simp [hp]
    | succ i =>
      have hz : p z = false := h 0 z (by omega) rfl
      rw [if_neg (by simp [hz]), ih (i := i) (by simpa using hx)
        fun j y hj hy => h (j + 1) y (by omega) (by simpa using hy)]
      rfl

theorem getElem?_inj_of_nodup_map {β : Type} {key : α → β} (hn : (xs.map key).Nodup) {j : Nat}
    {y : α} (hx : xs[i]? = some x) (hy : xs[j]? = some y) (h : key x = key y) : i = j := by
  have hi : (xs.map key)[i]? = some (key x) := by simp [hx]
  have hj : (xs.map key)[j]? = some (key x) := by simp [hy, h]
  have hlt := (List.getElem?_eq_some_iff.mp hi).1
  exact (List.getElem?_inj hlt hn).mp (hi.trans hj.symm)

/-- With unique keys a look up by a key finds where the key is. -/
theorem findIdx_of_nodup {name : α → String} (hn : (xs.map fun y => toUppercase (name y)).Nodup)
    (hx : xs[i]? = some x) {n : String} (h : toUppercase (name x) = toUppercase n) :
    findIdx (fun y => eqIgnoreAsciiCase (name y) n) xs = some (i, x) := by
  refine findIdx_eq hx (eqIgnoreAsciiCase_upper.mpr h) fun j y hj hy => ?_
  by_contra hp
  have hyn := eqIgnoreAsciiCase_upper.mp (Bool.of_not_eq_false hp)
  exact absurd (getElem?_inj_of_nodup_map hn hx hy (h.trans hyn.symm)) (by omega)

theorem toNat_toUInt16 {n : Nat} (h : n < 65536) : n.toUInt16.toNat = n := by
  simp only [Nat.toUInt16, UInt16.toNat_ofNat']
  omega

end

namespace MemoryLayout

/-- No two variables of a layout share a name, and every slot number fits
the `u16` it is cast to. -/
@[mk_iff]
structure Distinct (l : MemoryLayout) : Prop where
  names : (l.slots.map fun s => toUppercase s.name).Nodup
  length : l.slots.length ≤ 65536

instance (l : MemoryLayout) : Decidable l.Distinct := decidable_of_iff' _ (distinct_iff l)

variable {l : MemoryLayout} {name : String} {i : UInt16} {s : VarSlot}

theorem findSlot_of_nodup (hn : (l.slots.map fun s => toUppercase s.name).Nodup) {k : Nat}
    (hs : l.slots[k]? = some s) (h : toUppercase s.name = toUppercase name) :
    l.findSlot name = some (k.toUInt16, s) := by
  unfold findSlot
  rw [findIdx_of_nodup hn hs h]
  rfl

theorem Distinct.findSlot (h : l.Distinct) {k : Nat} (hs : l.slots[k]? = some s)
    (hn : toUppercase s.name = toUppercase name) : l.findSlot name = some (k.toUInt16, s) :=
  findSlot_of_nodup h.names hs hn

/-- What a look up finds is a slot of the layout and has the name. -/
theorem findSlot_mem {l : MemoryLayout} {name : String} {i : UInt16} {s : VarSlot}
    (h : l.findSlot name = some (i, s)) :
    s ∈ l.slots ∧ toUppercase s.name = toUppercase name := by
  unfold MemoryLayout.findSlot at h
  simp only [Option.map_eq_some_iff, Prod.mk.injEq, Prod.exists] at h
  obtain ⟨k, z, hk, rfl, rfl⟩ := h
  exact ⟨List.mem_of_getElem? (findIdx_some hk).1,
    eqIgnoreAsciiCase_upper.mp (findIdx_some hk).2.1⟩

theorem findSlot_some (hl : l.slots.length ≤ 65536) (h : l.findSlot name = some (i, s)) :
    l.slots[i.toNat]? = some s ∧ toUppercase s.name = toUppercase name := by
  refine ⟨?_, (findSlot_mem h).2⟩
  unfold MemoryLayout.findSlot at h
  simp only [Option.map_eq_some_iff, Prod.mk.injEq, Prod.exists] at h
  obtain ⟨k, z, hk, rfl, rfl⟩ := h
  have hlt := findIdx_lt hk
  rw [toNat_toUInt16 (by omega)]
  exact (findIdx_some hk).1

end MemoryLayout

namespace Module

/-- What the analyzer and the 16-bit indices promise of a module: unique
names of functions, globals and program variables, and no more of them than
can be numbered. -/
@[mk_iff]
structure Distinct (m : Module) : Prop where
  functions : (m.functions.map fun f => toUppercase f.name).Nodup
  length : m.functions.length ≤ 65536
  globals : m.globals.Distinct
  programs : ∀ f ∈ m.functions, f.kind = .program → f.locals.Distinct

instance (m : Module) : Decidable m.Distinct := decidable_of_iff' _ (distinct_iff m)

variable {m : Module} {name : String} {f : Function} {i : Nat}

theorem Distinct.findFunction (h : m.Distinct) (hf : m.functions[i]? = some f)
    (hn : toUppercase f.name = toUppercase name) :
    m.findFunction name = some (i.toUInt16, f) := by
  unfold Module.findFunction
  rw [findIdx_of_nodup h.functions hf hn]
  rfl

end Module

end RustPlc.Ir
