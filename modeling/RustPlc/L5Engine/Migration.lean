import RustPlc.Core.Relayout
import RustPlc.L1Ir.NumberText
import RustPlc.L5Engine.OnlineChange

/-!
# State migration by name

`migrate_locals` (crates/st-engine/src/online_change.rs:242-267) finds the old
value of every slot of the new layout by the slot's name. Under layouts with
unique names it is a move of a vector between two key lists (`Core.Relayout`):
a key is the name up to case with the type, and a position is numbered by the
`u16` that `MemoryLayout::find_slot` casts it to.

So a slot of the old layout at position 65536 or beyond is looked for at its
position modulo 65536, and the value of another variable is migrated in place
of its own. `compare_functions` and `check_globals_compat`, which compare
slots without that number, report it as preserved.

Results
* `migrateLocals_eq_relay`: the migration is a move of a numbered vector.
* `byName_iff`: what a migration by name gives, as a move.
* `migration_by_name_iff`: when the migration is one by name, when it is undone
  by the one back to a permuted layout, and when it goes through a layout
  between.
-/
namespace RustPlc.Engine

open RustPlc.Ir RustPlc.Core.Relayout

/-! ## Layouts as lists of keys -/

/-- No two slots of a layout have one name, ignoring case. -/
def UniqueNames (l : MemoryLayout) : Prop := l.slots.Pairwise fun s t => sameName s t = false

instance (l : MemoryLayout) : Decidable (UniqueNames l) := by
  unfold UniqueNames
  infer_instance

/-- What a slot is known by: its name up to case, and its type. -/
def slotKey (s : VarSlot) : String × VarType := (toUppercase s.name, s.ty)

def layoutKeys (l : MemoryLayout) : List (String × VarType) := l.slots.map slotKey

/-- The layout has a slot of the name and the type of `s`. -/
def Kept (l : MemoryLayout) (s : VarSlot) : Prop := ∃ t ∈ l.slots, sameVar t s = true

/-- The value of a new variable. -/
def initial (k : String × VarType) : Value := Value.defaultForType k.2

/-- The `u16` slot numbers of `find_slot`. -/
def slotNumbers : Numbering := .modulo 65536

/-- The position in the old layout from which the value of a slot is taken. -/
def oldSlot (old : MemoryLayout) (s : VarSlot) : Option UInt16 :=
  match old.findSlot s.name with
  | some (i, t) => if t.ty = s.ty then some i else none
  | none => none

section

variable {l : MemoryLayout} {s t : VarSlot} {p : Nat}

theorem sameName_iff : sameName s t = true ↔ toUppercase s.name = toUppercase t.name :=
  eqIgnoreAsciiCase_upper

theorem sameVar_iff : sameVar s t = true ↔ slotKey s = slotKey t := by
  simp [sameVar, slotKey, sameName_iff]

theorem uniqueNames_iff :
    UniqueNames l ↔ (l.slots.map fun s => toUppercase s.name).Nodup := by
  rw [List.Nodup, List.pairwise_map]
  simp only [UniqueNames, ← Bool.not_eq_true, sameName_iff]

theorem UniqueNames.keys (h : UniqueNames l) : (layoutKeys l).Nodup := by
  apply List.Nodup.of_map Prod.fst
  rw [layoutKeys, List.map_map]
  exact uniqueNames_iff.mp h

theorem layoutKeys_getElem? : (layoutKeys l)[p]? = l.slots[p]?.map slotKey := List.getElem?_map

theorem layoutKeys_get (hs : l.slots[p]? = some s) : (layoutKeys l)[p]? = some (slotKey s) := by
  rw [layoutKeys_getElem?, hs, Option.map_some]

theorem layoutKeys_length : (layoutKeys l).length = l.slots.length := List.length_map _

theorem mem_layoutKeys : slotKey s ∈ layoutKeys l ↔ Kept l s := by
  simp only [layoutKeys, Kept, List.mem_map, sameVar_iff]

theorem not_mem_layoutKeys : slotKey s ∉ layoutKeys l ↔ ∀ t ∈ l.slots, sameVar t s = false := by
  simp only [mem_layoutKeys, Kept, not_exists, not_and, Bool.not_eq_true]

/-- The number of a slot is the source of its key. -/
theorem oldSlot_source (h : UniqueNames l) (s : VarSlot) :
    (oldSlot l s).map UInt16.toNat = source slotNumbers (layoutKeys l) (slotKey s) := by
  by_cases hk : slotKey s ∈ layoutKeys l
  · obtain ⟨t, ht, hts⟩ := List.mem_map.mp hk
    obtain ⟨p, hp⟩ := List.mem_iff_getElem?.mp ht
    obtain ⟨hname, hty⟩ := Prod.mk.inj hts
    rw [oldSlot, MemoryLayout.findSlot_of_nodup (uniqueNames_iff.mp h) hp hname,
      source_of_get h.keys ((layoutKeys_get hp).trans (congrArg some hts))]
    simp [hty, slotNumbers]
  · rw [source_of_notMem hk, oldSlot]
    cases hf : l.findSlot s.name with
    | none => rfl
    | some r =>
      obtain ⟨i, t⟩ := r
      obtain ⟨ht, hname⟩ := MemoryLayout.findSlot_mem hf
      have hty : t.ty ≠ s.ty := fun hty =>
        hk (mem_layoutKeys.mpr ⟨t, ht, sameVar_iff.mpr (Prod.ext hname hty)⟩)
      simp [hty]

end

/-! ## The migration as a move -/

section

variable {old mid new : MemoryLayout} {vs ws : List Value}

theorem migrateLocals_eq_fetch : migrateLocals vs old new =
    new.slots.map fun s =>
      fetch vs (Value.defaultForType s.ty) ((oldSlot old s).map UInt16.toNat) := by
  refine List.map_congr_left fun s _ => ?_
  unfold oldSlot
  cases old.findSlot s.name with
  | none => rfl
  | some r =>
    by_cases hty : r.2.ty = s.ty
    · simp [hty, fetch]
    · simp [hty]

theorem migrateLocals_eq_relay (ho : UniqueNames old) : migrateLocals vs old new =
    relay slotNumbers initial (layoutKeys old) vs (layoutKeys new) := by
  have hnew : relay slotNumbers initial (layoutKeys old) vs (layoutKeys new) =
      new.slots.map fun s => read slotNumbers initial (layoutKeys old) vs (slotKey s) :=
    List.map_map
  rw [migrateLocals_eq_fetch, hnew]
  refine List.map_congr_left fun s _ => ?_
  rw [oldSlot_source ho]
  rfl

/-- What migration by name should give: the value of the slot of the same
name where there is one of the same type, and the default otherwise. -/
structure ByName (old new : MemoryLayout) (vs ws : List Value) : Prop where
  length : ws.length = new.slots.length
  kept : ∀ (p : Nat) (t : VarSlot) (i : Nat) (s : VarSlot), old.slots[p]? = some t →
    new.slots[i]? = some s → sameVar t s = true → ws[i]? = vs[p]?
  fresh : ∀ (i : Nat) (s : VarSlot), new.slots[i]? = some s →
    (∀ t ∈ old.slots, sameVar t s = false) → ws[i]? = some (Value.defaultForType s.ty)

theorem relay_get {a : Numbering} {i : Nat} {s : VarSlot} (hs : new.slots[i]? = some s) :
    (relay a initial (layoutKeys old) vs (layoutKeys new))[i]? =
      some (read a initial (layoutKeys old) vs (slotKey s)) := by
  rw [relay, write, List.getElem?_map, layoutKeys_get hs, Option.map_some]

/-- The values that migration by name should give are those of a move in which
every position has its own number. -/
theorem byName_iff (ho : UniqueNames old) (hvs : vs.length = old.slots.length) :
    ByName old new vs ws ↔
      ws = relay .exact initial (layoutKeys old) vs (layoutKeys new) := by
  have hlen : vs.length = (layoutKeys old).length := hvs.trans layoutKeys_length.symm
  constructor
  · intro h
    refine List.ext_getElem? fun i => ?_
    cases hs : new.slots[i]? with
    | none =>
      have hi := List.getElem?_eq_none_iff.mp hs
      rw [List.getElem?_eq_none (h.length ▸ hi), List.getElem?_eq_none (by
        rw [relay_length, layoutKeys_length]
        exact hi)]
    | some s =>
      rw [relay_get hs]
      by_cases hk : slotKey s ∈ layoutKeys old
      · obtain ⟨t, ht, hts⟩ := mem_layoutKeys.mp hk
        obtain ⟨p, hp⟩ := List.mem_iff_getElem?.mp ht
        have hkey := (layoutKeys_get hp).trans (congrArg some (sameVar_iff.mp hts))
        rw [h.kept p t i s hp hs hts, read_of_get ho.keys hlen hkey, Numbering.exact_num]
      · rw [h.fresh i s hs (not_mem_layoutKeys.mp hk), read_of_notMem hk]
        rfl
  · rintro rfl
    refine ⟨relay_length.trans layoutKeys_length, fun p t i s hp hs hts => ?_, fun i s hs h => ?_⟩
    · have hkey := (layoutKeys_get hp).trans (congrArg some (sameVar_iff.mp hts))
      rw [relay_get hs, read_of_get ho.keys hlen hkey, Numbering.exact_num]
    · rw [relay_get hs, read_of_notMem (not_mem_layoutKeys.mpr h)]
      rfl

instance : Nontrivial Value := ⟨.null, .void, by decide⟩

/-- The new slot of a variable gets the value at the number of its old one. -/
theorem migrateLocals_kept (ho : UniqueNames old) (hvs : vs.length = old.slots.length) {p i : Nat}
    {t s : VarSlot} (hp : old.slots[p]? = some t) (hs : new.slots[i]? = some s)
    (hts : sameVar t s = true) : (migrateLocals vs old new)[i]? = vs[p % 65536]? := by
  have hkey := (layoutKeys_get hp).trans (congrArg some (sameVar_iff.mp hts))
  rw [migrateLocals_eq_relay ho, relay_get hs,
    read_of_get ho.keys (hvs.trans layoutKeys_length.symm) hkey]
  rfl

/-- The values of a vector in which the migration is right: a slot that is kept
holds what stands at its position modulo 65536. -/
theorem migrateLocals_byName_at_iff (ho : UniqueNames old) (hvs : vs.length = old.slots.length) :
    ByName old new vs (migrateLocals vs old new) ↔
      ∀ p s, old.slots[p]? = some s → Kept new s → vs[p % 65536]? = vs[p]? := by
  rw [byName_iff ho hvs, migrateLocals_eq_relay ho,
    relay_eq_iff ho.keys (hvs.trans layoutKeys_length.symm)]
  constructor
  · intro h p s hs hk
    exact h p (slotKey s) (layoutKeys_get hs) (mem_layoutKeys.mpr hk)
  · intro h p k hp hk
    obtain ⟨s, hs, rfl⟩ := Option.map_eq_some_iff.mp (layoutKeys_getElem?.symm.trans hp)
    exact h p s hs (mem_layoutKeys.mp hk)

/-! ## The conditions -/

/-- Every old slot that the new layout keeps has a slot number of its own. -/
def Numbered (old new : MemoryLayout) : Prop :=
  ∀ p s, old.slots[p]? = some s → Kept new s → p < 65536

/-- The new layout has the variables of the old one, in any order. -/
def Permuted (old new : MemoryLayout) : Prop := (layoutKeys old).Perm (layoutKeys new)

/-- The layout between has every variable that the two others share. -/
def Covers (old mid new : MemoryLayout) : Prop := ∀ s ∈ old.slots, Kept new s → Kept mid s

/-- Two slots take their values from one old slot, or both start anew with
one default. -/
def SameOrigin (old : MemoryLayout) (s t : VarSlot) : Prop :=
  oldSlot old s = oldSlot old t ∧
    (oldSlot old t = none → Value.defaultForType s.ty = Value.defaultForType t.ty)

/-- Every slot of the layout between that the new layout keeps has the origin
of the slot at its number. -/
def Settled (old mid new : MemoryLayout) : Prop :=
  ∀ q t t', mid.slots[q]? = some t → Kept new t → mid.slots[q % 65536]? = some t' →
    SameOrigin old t' t

theorem sameOrigin_iff (ho : UniqueNames old) {s t : VarSlot} : SameOrigin old s t ↔
    source slotNumbers (layoutKeys old) (slotKey s) =
        source slotNumbers (layoutKeys old) (slotKey t) ∧
      (source slotNumbers (layoutKeys old) (slotKey t) = none →
        initial (slotKey s) = initial (slotKey t)) := by
  have hinj : Function.Injective (Option.map UInt16.toNat) :=
    Option.map_injective fun _ _ h => UInt16.toNat_inj.mp h
  rw [← oldSlot_source ho, ← oldSlot_source ho, hinj.eq_iff, Option.map_eq_none_iff]
  rfl

/-! ## The laws -/

theorem num_eq_self {p : Nat} : slotNumbers.num p = p ↔ p < 65536 := by
  simp only [slotNumbers, Numbering.modulo_num]
  omega

theorem migrateLocals_byName_iff (ho : UniqueNames old) :
    (∀ vs : List Value, vs.length = old.slots.length →
      ByName old new vs (migrateLocals vs old new)) ↔ Numbered old new := by
  have hmove : (∀ vs : List Value, vs.length = old.slots.length →
      ByName old new vs (migrateLocals vs old new)) ↔
      ∀ vs : List Value, vs.length = (layoutKeys old).length →
        relay slotNumbers initial (layoutKeys old) vs (layoutKeys new) =
          relay .exact initial (layoutKeys old) vs (layoutKeys new) := by
    rw [layoutKeys_length]
    exact forall₂_congr fun vs hvs => by rw [byName_iff ho hvs, migrateLocals_eq_relay ho]
  rw [hmove, relay_exact_iff ho.keys]
  constructor
  · intro h p s hs hk
    exact num_eq_self.mp (h p (slotKey s) (layoutKeys_get hs) (mem_layoutKeys.mpr hk))
  · intro h p k hp hk
    obtain ⟨s, hs, rfl⟩ := Option.map_eq_some_iff.mp (layoutKeys_getElem?.symm.trans hp)
    exact num_eq_self.mpr (h p s hs (mem_layoutKeys.mp hk))

theorem migrateLocals_back_iff (ho : UniqueNames old) (hn : UniqueNames new)
    (hperm : Permuted old new) :
    (∀ vs : List Value, vs.length = old.slots.length →
      migrateLocals (migrateLocals vs old new) new old = vs) ↔ old.slots.length ≤ 65536 := by
  simp only [migrateLocals_eq_relay ho, migrateLocals_eq_relay hn, ← layoutKeys_length (l := old)]
  rw [relay_back_iff ho.keys hperm]
  simp only [num_eq_self]
  constructor
  · intro h
    by_contra hlt
    exact absurd (h 65536 (by omega)) (by omega)
  · intro h p hp
    omega

theorem migrateLocals_through_iff (ho : UniqueNames old) (hm : UniqueNames mid)
    (hcovers : Covers old mid new) :
    (∀ vs : List Value, vs.length = old.slots.length →
      migrateLocals (migrateLocals vs old mid) mid new = migrateLocals vs old new) ↔
      Settled old mid new := by
  have hkeys : ∀ k ∈ layoutKeys old, k ∈ layoutKeys new → k ∈ layoutKeys mid := by
    intro k hk hnew
    obtain ⟨s, hs, rfl⟩ := List.mem_map.mp hk
    exact mem_layoutKeys.mpr (hcovers s hs (mem_layoutKeys.mp hnew))
  simp only [migrateLocals_eq_relay ho, migrateLocals_eq_relay hm, ← layoutKeys_length (l := old)]
  rw [relay_through_iff hm.keys hkeys]
  constructor
  · intro h q t t' ht hk ht'
    exact (sameOrigin_iff ho).mpr (h q (slotKey t) (slotKey t') (layoutKeys_get ht)
      (mem_layoutKeys.mpr hk) (layoutKeys_get ht'))
  · intro h q k k' hq hk hq'
    obtain ⟨t, ht, rfl⟩ := Option.map_eq_some_iff.mp (layoutKeys_getElem?.symm.trans hq)
    obtain ⟨t', ht', rfl⟩ := Option.map_eq_some_iff.mp (layoutKeys_getElem?.symm.trans hq')
    exact (sameOrigin_iff ho).mp (h q t t' ht (mem_layoutKeys.mp hk) ht')

/-- A layout whose slots all have numbers. -/
theorem numbered_of_length (h : old.slots.length ≤ 65536) : Numbered old new := fun _ _ hs _ =>
  Nat.lt_of_lt_of_le (List.getElem?_eq_some_iff.mp hs).1 h

/-- A layout between whose kept slots have numbers of their own is settled. -/
theorem Numbered.settled (h : Numbered mid new) : Settled old mid new := by
  intro q t t' ht hk ht'
  rw [Nat.mod_eq_of_lt (h q t ht hk), ht] at ht'
  obtain rfl := Option.some.inj ht'
  exact ⟨rfl, fun _ => rfl⟩

/-- **Migration by name.** For the values of a vector the migration is one by
name exactly when every kept slot holds what stands at its position modulo
65536, and for all values exactly when no kept slot is beyond the numbers. It
is undone by the migration back from a permuted layout exactly when the layout
has at most 65536 slots, and it goes through a layout with the shared
variables exactly when that layout is settled. -/
theorem migration_by_name_iff (ho : UniqueNames old) (hm : UniqueNames mid)
    (hn : UniqueNames new) :
    (∀ vs : List Value, vs.length = old.slots.length →
      (ByName old new vs (migrateLocals vs old new) ↔
        ∀ p s, old.slots[p]? = some s → Kept new s → vs[p % 65536]? = vs[p]?)) ∧
    ((∀ vs : List Value, vs.length = old.slots.length →
      ByName old new vs (migrateLocals vs old new)) ↔ Numbered old new) ∧
    (Permuted old new → ((∀ vs : List Value, vs.length = old.slots.length →
      migrateLocals (migrateLocals vs old new) new old = vs) ↔ old.slots.length ≤ 65536)) ∧
    (Covers old mid new → ((∀ vs : List Value, vs.length = old.slots.length →
      migrateLocals (migrateLocals vs old mid) mid new = migrateLocals vs old new) ↔
        Settled old mid new)) :=
  ⟨fun _ hvs => migrateLocals_byName_at_iff ho hvs, migrateLocals_byName_iff ho,
    migrateLocals_back_iff ho hn, migrateLocals_through_iff ho hm⟩

end

/-! ## A reordered layout and a wide one -/

instance (l : MemoryLayout) (s : VarSlot) : Decidable (Kept l s) := by
  unfold Kept
  infer_instance

instance (old new : MemoryLayout) : Decidable (Permuted old new) := by
  unfold Permuted
  infer_instance

instance (old mid new : MemoryLayout) : Decidable (Covers old mid new) := by
  unfold Covers
  infer_instance

/-- A variable of type INT. -/
def intSlot (name : String) (offset : Nat) : VarSlot :=
  ⟨name, .int, offset, 8, false, false, .i16⟩

/-- The layout of online_change.rs:526-542 before the change, after it, and
one between. -/
def layoutAB : MemoryLayout := ⟨[intSlot "a" 0, intSlot "b" 8]⟩

def layoutBA : MemoryLayout := ⟨[intSlot "B" 0, intSlot "A" 8]⟩

def layoutBCA : MemoryLayout := ⟨[intSlot "b" 0, intSlot "c" 8, intSlot "a" 16]⟩

theorem reordered_layout_migrates :
    ByName layoutAB layoutBA [.int 10, .int 20]
        (migrateLocals [.int 10, .int 20] layoutAB layoutBA) ∧
      migrateLocals (migrateLocals [.int 10, .int 20] layoutAB layoutBA) layoutBA layoutAB =
        [.int 10, .int 20] ∧
      migrateLocals (migrateLocals [.int 10, .int 20] layoutAB layoutBCA) layoutBCA layoutBA =
        migrateLocals [.int 10, .int 20] layoutAB layoutBA := by
  have hold : UniqueNames layoutAB := by decide +kernel
  have hmid : UniqueNames layoutBCA := by decide +kernel
  have hnew : UniqueNames layoutBA := by decide +kernel
  obtain ⟨-, hname, hback, hthrough⟩ := migration_by_name_iff hold hmid hnew
  exact ⟨hname.mpr (numbered_of_length (by decide)) _ rfl,
    (hback (by decide +kernel)).mpr (by decide) _ rfl,
    (hthrough (by decide +kernel)).mpr (numbered_of_length (by decide)).settled _ rfl⟩

/-- The layout of a PROGRAM with the variables v0 to v65536. -/
def wideLayout : MemoryLayout :=
  ⟨(List.range 65537).map fun i => intSlot ("v" ++ toString i) (8 * i)⟩

theorem wideLayout_get {i : Nat} (h : i < 65537) :
    wideLayout.slots[i]? = some (intSlot ("v" ++ toString i) (8 * i)) := by
  rw [wideLayout, List.getElem?_map, List.getElem?_range h, Option.map_some]

theorem sameVar_wide {i j m n : Nat} :
    sameVar (intSlot ("v" ++ toString i) m) (intSlot ("v" ++ toString j) n) = decide (i = j) := by
  have htext : ∀ i : Nat, ("v" ++ toString i).toList.map Char.toLower = 'v' :: digits i := by
    intro i
    rw [String.toList_append, toList_toString, List.map_append,
      List.map_congr_left fun c hc => toLower_digit (isDigit_of_mem_digits hc)]
    simp
  have hdigits : digits i = digits j ↔ i = j :=
    ⟨fun h => Option.some.inj (by rw [← parseDigits_digits i, h, parseDigits_digits]), congrArg _⟩
  simp only [sameVar, sameName, eqIgnoreAsciiCase, intSlot]
  rw [htext, htext, Bool.eq_iff_iff]
  simp [hdigits]

theorem wideLayout_unique : UniqueNames wideLayout := by
  rw [UniqueNames, wideLayout, List.pairwise_map]
  refine List.pairwise_lt_range.imp fun {i j} hij => ?_
  have hvar := sameVar_wide (i := i) (j := j) (m := 8 * i) (n := 8 * j)
  rw [decide_eq_false (by omega)] at hvar
  simpa [sameVar, intSlot] using hvar

theorem wideLayout_length : wideLayout.slots.length = 65537 := by simp [wideLayout]

/-- The layout of the last variable alone. -/
def lastLayout : MemoryLayout := ⟨[intSlot ("v" ++ toString 65536) 0]⟩

/-- The last variable is 1, the others are 0. -/
def wideValues : List Value :=
  (List.range 65537).map fun i => .int (if i = 65536 then 1 else 0)

/-- A change to the running layout gives v65536 the value of v0, and so does
a detour of v65536 alone through the layout. -/
theorem last_of_wide_lost :
    UniqueNames wideLayout ∧ wideValues.length = wideLayout.slots.length ∧
      ¬ ByName wideLayout wideLayout wideValues
        (migrateLocals wideValues wideLayout wideLayout) ∧
      Permuted wideLayout wideLayout ∧
      migrateLocals (migrateLocals wideValues wideLayout wideLayout) wideLayout wideLayout ≠
        wideValues ∧
      UniqueNames lastLayout ∧ Covers lastLayout wideLayout lastLayout ∧
      migrateLocals (migrateLocals [.int 1] lastLayout wideLayout) wideLayout lastLayout ≠
        migrateLocals [.int 1] lastLayout lastLayout := by
  have hlen : wideValues.length = wideLayout.slots.length := by
    rw [wideLayout_length, wideValues, List.length_map, List.length_range]
  have hvalue : ∀ i, i < 65537 → wideValues[i]? = some (.int (if i = 65536 then 1 else 0)) := by
    intro i hi
    rw [wideValues, List.getElem?_map, List.getElem?_range hi, Option.map_some]
  have hdiffer : wideValues[0]? ≠ wideValues[65536]? := by
    rw [hvalue 0 (by decide), hvalue 65536 (by decide)]
    decide
  -- what a change to the running layout reads
  have hself : ∀ i, i < 65537 → ∀ vs : List Value, vs.length = wideLayout.slots.length →
      (migrateLocals vs wideLayout wideLayout)[i]? = vs[i % 65536]? := by
    intro i hi vs hvs
    exact migrateLocals_kept wideLayout_unique hvs (wideLayout_get hi) (wideLayout_get hi)
      (sameVar_iff.mpr rfl)
  have hcovers : Kept wideLayout (intSlot ("v" ++ toString 65536) 0) :=
    ⟨_, List.mem_of_getElem? (wideLayout_get (i := 65536) (by decide)), by rw [sameVar_wide]; rfl⟩
  refine ⟨wideLayout_unique, hlen, fun h => ?_, List.Perm.refl _, fun h => ?_, by decide +kernel,
    fun s hs _ => ?_, fun h => ?_⟩
  · have hkept := h.kept 65536 _ 65536 _ (wideLayout_get (by decide)) (wideLayout_get (by decide))
      (sameVar_iff.mpr rfl)
    exact hdiffer ((hself 65536 (by decide) _ hlen).symm.trans hkept)
  · have hback := hself 65536 (by decide) _ (migrateLocals_length wideValues wideLayout _)
    rw [h, hself 0 (by decide) _ hlen] at hback
    exact hdiffer hback.symm
  · obtain rfl := List.mem_singleton.mp hs
    exact hcovers
  · have hlast : UniqueNames lastLayout := by decide +kernel
    have hmid : ByName lastLayout wideLayout [.int 1]
        (migrateLocals [.int 1] lastLayout wideLayout) :=
      (migrateLocals_byName_iff hlast).mpr (numbered_of_length (by decide)) _ rfl
    -- v0 stands where v65536 is looked for
    have hzero : (migrateLocals [.int 1] lastLayout wideLayout)[0]? = some (.int 0) :=
      hmid.fresh 0 _ (wideLayout_get (by decide)) fun t ht => by
        obtain rfl := List.mem_singleton.mp ht
        rw [sameVar_wide]
        rfl
    have hthrough : (migrateLocals (migrateLocals [.int 1] lastLayout wideLayout) wideLayout
        lastLayout)[0]? = (migrateLocals [.int 1] lastLayout wideLayout)[0]? :=
      migrateLocals_kept (p := 65536) wideLayout_unique hmid.length (wideLayout_get (by decide)) rfl
        (by rw [sameVar_wide]; rfl)
    have hdirect : (migrateLocals [.int 1] lastLayout lastLayout)[0]? = some (.int 1) :=
      migrateLocals_kept (p := 0) hlast rfl rfl rfl (sameVar_iff.mpr rfl)
    rw [h, hdirect, hzero] at hthrough
    exact absurd hthrough (by decide)

end RustPlc.Engine
