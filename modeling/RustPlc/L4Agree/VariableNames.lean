import RustPlc.L2Semantics.Bodies
import RustPlc.L2Compiler.Registration

/-!
# Which variable a name means

The analyzer looks a name up from the scope of the body outwards: the variables
of the body, those of the class and its ancestors, the global ones. The compiler
takes the first slot of that name in one list, the variables of the ancestors
(all their sections), of the class, of the body, and else a global one.

Results:
* `first_slot_agrees`: the two agree on a list of slots exactly when only one
  level has the name;
* `variable_slots_agree`: the same for every body of an accepted source.
-/
namespace RustPlc.Agree

open RustPlc.Ir RustPlc.Syntax RustPlc.Analysis RustPlc.Compiler

/-! ## Slots with levels -/

/-- Whose variable a slot of a body is: `hidden` is for the sections of an
ancestor that its heirs do not see. -/
inductive Level where
  | hidden
  | cls
  | body
  deriving DecidableEq, Repr

def Level.rank : Level → Nat
  | .hidden => 0
  | .cls => 1
  | .body => 2

/-- A variable of a body or a global one, by its number. -/
inductive Slot where
  | «local» (i : Nat)
  | «global» (i : Nat)
  | unknown
  deriving DecidableEq, Repr

/-- The slot a compiled access uses: every load and store of a variable looks
the name up like this. mirrors crates/st-compiler/src/compile.rs:1260-1270 and
933-940 -/
def compiledSlot (env : ModuleEnv) (s : FunctionCompiler) (x : String) : Slot :=
  match s.findLocal x, env.findGlobal x with
  | some slot, _ => .local slot.toNat
  | none, some slot => .global slot.toNat
  | none, none => .unknown

/-- The variable a load or a store of an instruction is about. -/
def accessedSlot : Instruction → Slot
  | .loadLocal _ slot | .storeLocal slot _ => .local slot.toNat
  | .loadGlobal _ slot | .storeGlobal slot _ => .global slot.toNat
  | _ => .unknown

def isNamed (x : String) (n : String) : Bool := eqIgnoreAsciiCase n x

/-- The first slot of a level and a name. -/
def levelSlot (slots : List (Level × String)) (l : Level) (x : String) : Option Nat :=
  (findIdx (fun p => p.1 == l && isNamed x p.2) slots).map (·.1)

def globalSlot (globals : List String) (x : String) : Option Nat :=
  (findIdx (isNamed x) globals).map (·.1)

/-- The slot of the declaration the analyzer finds: a variable of the body, of
the class, or a global one. -/
def declaredSlot (a : Analyzer) (slots : List (Level × String)) (globals : List String)
    (x : String) : Slot :=
  match a.symbols.resolve a.currentScope x with
  | some (scope, sym) =>
    if sym.isVariable then
      if scope = 0 then ((globalSlot globals x).map Slot.global).getD .unknown
      else if scope = a.currentScope then ((levelSlot slots .body x).map Slot.local).getD .unknown
      else ((levelSlot slots .cls x).map Slot.local).getD .unknown
    else .unknown
  | none => .unknown

/-- Some slot of this level has the name. -/
def HasLevel (slots : List (Level × String)) (l : Level) (x : String) : Prop :=
  ∃ n, (l, n) ∈ slots ∧ toUppercase n = toUppercase x

/-- The slots of a name stand in the order of their levels. -/
def Sorted (slots : List (Level × String)) : Prop :=
  ∀ (i j : Nat) (l k : Level) (n n' : String), slots[i]? = some (l, n) →
    slots[j]? = some (k, n') → toUppercase n = toUppercase n' → l.rank < k.rank → i < j

/-- The analyzer resolves a name to the innermost level that has it. -/
structure Innermost (a : Analyzer) (slots : List (Level × String)) (globals : List String)
    (x : String) : Prop where
  body : HasLevel slots .body x → ∃ scope sym, a.symbols.resolve a.currentScope x =
    some (scope, sym) ∧ sym.isVariable = true ∧ scope ≠ 0 ∧ scope = a.currentScope
  cls : ¬ HasLevel slots .body x → HasLevel slots .cls x → ∃ scope sym,
    a.symbols.resolve a.currentScope x = some (scope, sym) ∧ sym.isVariable = true ∧ scope ≠ 0 ∧
      scope ≠ a.currentScope
  shared : ¬ HasLevel slots .body x → ¬ HasLevel slots .cls x →
    (∃ n ∈ globals, toUppercase n = toUppercase x) → ∃ sym,
      a.symbols.resolve a.currentScope x = some (0, sym) ∧ sym.isVariable = true
  unknown : ¬ HasLevel slots .body x → ¬ HasLevel slots .cls x →
    (¬ ∃ n ∈ globals, toUppercase n = toUppercase x) → ∀ r,
      a.symbols.resolve a.currentScope x = some r → r.2.isVariable = false

section

variable {slots : List (Level × String)} {globals : List String} {x : String} {l : Level}

theorem levelSlot_some {i : Nat} (h : levelSlot slots l x = some i) :
    ∃ n, slots[i]? = some (l, n) ∧ toUppercase n = toUppercase x := by
  obtain ⟨⟨j, k, n⟩, hf, rfl⟩ := Option.map_eq_some_iff.mp h
  obtain ⟨hget, hp, -⟩ := findIdx_some hf
  simp only [Bool.and_eq_true, beq_iff_eq] at hp
  exact ⟨n, by rw [hget, hp.1], eqIgnoreAsciiCase_upper.mp hp.2⟩

theorem levelSlot_isSome (h : HasLevel slots l x) : ∃ i, levelSlot slots l x = some i := by
  obtain ⟨n, hn, hx⟩ := h
  cases hf : levelSlot slots l x with
  | some i => exact ⟨i, rfl⟩
  | none =>
    have := findIdx_none (Option.map_eq_none_iff.mp hf) (l, n) hn
    simp [isNamed, eqIgnoreAsciiCase_upper.mpr hx] at this

theorem globalSlot_isSome (h : ∃ n ∈ globals, toUppercase n = toUppercase x) :
    ∃ i, globalSlot globals x = some i := by
  obtain ⟨n, hn, hx⟩ := h
  cases hf : globalSlot globals x with
  | some i => exact ⟨i, rfl⟩
  | none =>
    have := findIdx_none (Option.map_eq_none_iff.mp hf) n hn
    simp [isNamed, eqIgnoreAsciiCase_upper.mpr hx] at this

theorem HasLevel.of_get {i : Nat} {n : String} (h : slots[i]? = some (l, n))
    (hn : toUppercase n = toUppercase x) : HasLevel slots l x :=
  ⟨n, List.mem_of_getElem? h, hn⟩

/-- The slot of the innermost level, by cases. -/
theorem declaredSlot_eq {a : Analyzer} (h : Innermost a slots globals x) :
    (∃ i, HasLevel slots .body x ∧ levelSlot slots .body x = some i ∧
      declaredSlot a slots globals x = .local i) ∨
    (∃ i, ¬ HasLevel slots .body x ∧ HasLevel slots .cls x ∧ levelSlot slots .cls x = some i ∧
      declaredSlot a slots globals x = .local i) ∨
    (∃ i, ¬ HasLevel slots .body x ∧ ¬ HasLevel slots .cls x ∧ globalSlot globals x = some i ∧
      declaredSlot a slots globals x = .global i) ∨
    (¬ HasLevel slots .body x ∧ ¬ HasLevel slots .cls x ∧ globalSlot globals x = none ∧
      declaredSlot a slots globals x = .unknown) := by
  by_cases hb : HasLevel slots .body x
  · obtain ⟨scope, sym, hr, hv, h0, hs⟩ := h.body hb
    obtain ⟨i, hi⟩ := levelSlot_isSome hb
    refine .inl ⟨i, hb, hi, ?_⟩
    rw [declaredSlot, hr]
    simp [hv, ← hs, h0, hi]
  by_cases hc : HasLevel slots .cls x
  · obtain ⟨scope, sym, hr, hv, h0, hs⟩ := h.cls hb hc
    obtain ⟨i, hi⟩ := levelSlot_isSome hc
    refine .inr (.inl ⟨i, hb, hc, hi, ?_⟩)
    rw [declaredSlot, hr]
    simp [hv, hs, h0, hi]
  by_cases hg : ∃ n ∈ globals, toUppercase n = toUppercase x
  · obtain ⟨sym, hr, hv⟩ := h.shared hb hc hg
    obtain ⟨i, hi⟩ := globalSlot_isSome hg
    refine .inr (.inr (.inl ⟨i, hb, hc, hi, ?_⟩))
    rw [declaredSlot, hr]
    simp [hv, hi]
  · refine .inr (.inr (.inr ⟨hb, hc, ?_, ?_⟩))
    · rw [globalSlot, Option.map_eq_none_iff]
      cases hf : findIdx (isNamed x) globals with
      | none => rfl
      | some r =>
        obtain ⟨hget, hp, -⟩ := findIdx_some hf
        exact absurd ⟨r.2, List.mem_of_getElem? hget, eqIgnoreAsciiCase_upper.mp hp⟩ hg
    · rw [declaredSlot]
      cases hr : a.symbols.resolve a.currentScope x with
      | none => rfl
      | some r => simp [h.unknown hb hc hg r hr]

/-- What the compiler finds in a layout with these names. -/
theorem findSlot_names {layout : MemoryLayout} {names : List String}
    (h : layoutNames layout = names) (x : String) :
    (layout.findSlot x).map (·.1.toNat) = (globalSlot names x).map (· % 65536) := by
  subst h
  have hidx : ∀ ss : List VarSlot,
      (findIdx (fun s => eqIgnoreAsciiCase s.name x) ss).map (·.1) =
        (findIdx (isNamed x) (ss.map (·.name))).map (·.1) := by
    intro ss
    induction ss with
    | nil => rfl
    | cons s ss ih =>
      cases hc : eqIgnoreAsciiCase s.name x with
      | true => simp [findIdx, isNamed, hc]
      | false =>
        have := congrArg (Option.map (· + 1)) ih
        simpa [findIdx, isNamed, hc, Option.map_map, Function.comp_def] using this
  have := congrArg (Option.map (· % 65536)) (hidx layout.slots)
  simpa [MemoryLayout.findSlot, globalSlot, layoutNames, Option.map_map, Function.comp_def,
    Nat.toUInt16, UInt16.toNat_ofNat'] using this

theorem compiledSlot_eq {env : ModuleEnv} {s : FunctionCompiler}
    (hs : layoutNames s.locals = slots.map (·.2)) (hg : layoutNames env.globals = globals) :
    compiledSlot env s x = match globalSlot (slots.map (·.2)) x, globalSlot globals x with
      | some i, _ => .local (i % 65536)
      | none, some i => .global (i % 65536)
      | none, none => .unknown := by
  have hl := findSlot_names hs x
  have hg' := findSlot_names hg x
  unfold compiledSlot FunctionCompiler.findLocal ModuleEnv.findGlobal
  cases h1 : s.locals.findSlot x with
  | some r =>
    rw [h1] at hl
    cases h2 : globalSlot (slots.map (·.2)) x with
    | none => rw [h2] at hl; cases hl
    | some i =>
      rw [h2] at hl
      simp only [Option.map_some, Option.some.injEq] at hl ⊢
      rw [hl]
  | none =>
    rw [h1] at hl
    cases h2 : globalSlot (slots.map (·.2)) x with
    | some i => rw [h2] at hl; cases hl
    | none =>
      cases h3 : env.globals.findSlot x with
      | some r =>
        rw [h3] at hg'
        cases h4 : globalSlot globals x with
        | none => rw [h4] at hg'; cases hg'
        | some i =>
          rw [h4] at hg'
          simp only [Option.map_some, Option.some.injEq] at hg'
          simp [hg']
      | none =>
        rw [h3] at hg'
        cases h4 : globalSlot globals x with
        | some i => rw [h4] at hg'; cases hg'
        | none => rfl

/-- The first slot of a name, of any level. -/
theorem firstSlot_some {i : Nat} (h : globalSlot (slots.map (·.2)) x = some i) :
    ∃ l n, slots[i]? = some (l, n) ∧ toUppercase n = toUppercase x ∧
      ∀ j k m, slots[j]? = some (k, m) → toUppercase m = toUppercase x → i ≤ j := by
  obtain ⟨⟨j, n⟩, hf, rfl⟩ := Option.map_eq_some_iff.mp h
  obtain ⟨hget, hp, hmin⟩ := findIdx_some hf
  rw [List.getElem?_map] at hget
  obtain ⟨⟨l, n'⟩, hl, rfl⟩ := Option.map_eq_some_iff.mp hget
  refine ⟨l, n', hl, eqIgnoreAsciiCase_upper.mp hp, fun k lk m hk hm => ?_⟩
  by_contra hlt
  have := hmin k (by omega) m (by rw [List.getElem?_map, hk]; rfl)
  rw [isNamed, eqIgnoreAsciiCase_upper.mpr hm] at this
  cases this

theorem firstSlot_isSome (h : HasLevel slots l x) :
    ∃ i, globalSlot (slots.map (·.2)) x = some i := by
  obtain ⟨n, hn, hx⟩ := h
  exact globalSlot_isSome ⟨n, List.mem_map.mpr ⟨_, hn, rfl⟩, hx⟩

theorem firstSlot_none (h : ∀ l, ¬ HasLevel slots l x) : globalSlot (slots.map (·.2)) x = none := by
  cases hf : globalSlot (slots.map (·.2)) x with
  | none => rfl
  | some i =>
    obtain ⟨l, n, hn, hx, -⟩ := firstSlot_some hf
    exact absurd (.of_get hn hx) (h l)

/-- A name whose slots are all of one level: its first slot is the first of the
level. -/
theorem firstSlot_level {i : Nat} (hi : levelSlot slots l x = some i)
    (honly : ∀ k, k ≠ l → ¬ HasLevel slots k x) : globalSlot (slots.map (·.2)) x = some i := by
  obtain ⟨n, hn, hx⟩ := levelSlot_some hi
  obtain ⟨j, hj⟩ := firstSlot_isSome (HasLevel.of_get hn hx)
  obtain ⟨k, m, hm, hmx, hmin⟩ := firstSlot_some hj
  have hk : k = l := by
    by_contra hne
    exact honly k hne (.of_get hm hmx)
  subst hk
  obtain ⟨⟨i', q⟩, hf, rfl⟩ := Option.map_eq_some_iff.mp hi
  obtain ⟨-, -, hfirst⟩ := findIdx_some hf
  have hle : j ≤ i' := hmin i' k n hn hx
  rcases Nat.lt_or_eq_of_le hle with hlt | rfl
  · have := hfirst j hlt (k, m) hm
    simp [isNamed, eqIgnoreAsciiCase_upper.mpr hmx] at this
  · exact hj

/-- A slot of an earlier level stands before the first slot of a level. -/
theorem firstSlot_lt (hsort : Sorted slots) {k : Level} {i : Nat}
    (hi : levelSlot slots l x = some i) (hk : HasLevel slots k x) (hlt : k.rank < l.rank) :
    ∃ j, globalSlot (slots.map (·.2)) x = some j ∧ j < i := by
  obtain ⟨n, hn, hx⟩ := levelSlot_some hi
  obtain ⟨m, hm, hmx⟩ := hk
  obtain ⟨p, hp⟩ := List.mem_iff_getElem?.mp hm
  obtain ⟨j, hj⟩ := firstSlot_isSome (HasLevel.of_get hn hx)
  obtain ⟨-, -, -, -, hmin⟩ := firstSlot_some hj
  have h1 := hmin p k m hp hmx
  have h2 := hsort p i k l m n hp hn (hmx.trans hx.symm) hlt
  exact ⟨j, hj, by omega⟩

/-- The number of the slot fits the 16 bits of an instruction. -/
def Slot.Fits : Slot → Prop
  | .local i | .global i => i < 65536
  | .unknown => True

/-- A name is found by the compiler where the analyzer finds it: no section that
is hidden from heirs has it, it is not both in the body and in the class, and its
number fits. -/
structure Plain (a : Analyzer) (slots : List (Level × String)) (globals : List String)
    (x : String) : Prop where
  seen : ¬ HasLevel slots .hidden x
  once : ¬ (HasLevel slots .cls x ∧ HasLevel slots .body x)
  fits : (declaredSlot a slots globals x).Fits

theorem mod_eq_self {i : Nat} : i % 65536 = i ↔ i < 65536 := by omega

/-- **The first slot of a name is that of its innermost declaration exactly when
the name is plain.** -/
theorem first_slot_agrees {a : Analyzer} {env : ModuleEnv} {s : FunctionCompiler}
    (hs : layoutNames s.locals = slots.map (·.2)) (hg : layoutNames env.globals = globals)
    (hin : Innermost a slots globals x) (hsort : Sorted slots) :
    compiledSlot env s x = declaredSlot a slots globals x ↔ Plain a slots globals x := by
  rw [compiledSlot_eq hs hg]
  -- a slot of an outer level stands before the one that is meant
  have hlt : ∀ {l k : Level} {i : Nat}, levelSlot slots l x = some i → HasLevel slots k x →
      k.rank < l.rank → (match globalSlot (slots.map (·.2)) x, globalSlot globals x with
        | some i, _ => Slot.local (i % 65536)
        | none, some i => Slot.global (i % 65536)
        | none, none => Slot.unknown) ≠ .local i := by
    intro l k i hi hk hr heq
    obtain ⟨j, hj, hji⟩ := firstSlot_lt hsort hi hk hr
    rw [hj] at heq
    have := Slot.local.inj heq
    omega
  rcases declaredSlot_eq hin with ⟨i, hb, hi, hd⟩ | ⟨i, hb, hc, hi, hd⟩ | ⟨i, hb, hc, hi, hd⟩ |
    ⟨hb, hc, hi, hd⟩
  · constructor
    · intro heq
      rw [hd] at heq
      have hseen : ¬ HasLevel slots .hidden x := fun h => hlt hi h (by decide) heq
      have honce : ¬ HasLevel slots .cls x := fun h => hlt hi h (by decide) heq
      refine ⟨hseen, fun h => honce h.1, ?_⟩
      rw [firstSlot_level hi fun k hk => by cases k <;> first | exact hseen | exact honce |
        exact absurd rfl hk] at heq
      rw [hd]
      exact mod_eq_self.mp (Slot.local.inj heq)
    · intro h
      have honce : ¬ HasLevel slots .cls x := fun hc => h.once ⟨hc, hb⟩
      rw [firstSlot_level hi fun k hk => by cases k <;> first | exact h.seen | exact honce |
        exact absurd rfl hk, hd]
      have hfit := h.fits
      rw [hd] at hfit
      exact congrArg Slot.local (mod_eq_self.mpr hfit)
  · constructor
    · intro heq
      rw [hd] at heq
      have hseen : ¬ HasLevel slots .hidden x := fun h => hlt hi h (by decide) heq
      refine ⟨hseen, fun h => hb h.2, ?_⟩
      rw [firstSlot_level hi fun k hk => by cases k <;> first | exact hseen | exact hb |
        exact absurd rfl hk] at heq
      rw [hd]
      exact mod_eq_self.mp (Slot.local.inj heq)
    · intro h
      rw [firstSlot_level hi fun k hk => by cases k <;> first | exact h.seen | exact hb |
        exact absurd rfl hk, hd]
      have hfit := h.fits
      rw [hd] at hfit
      exact congrArg Slot.local (mod_eq_self.mpr hfit)
  · constructor
    · intro heq
      have hseen : ¬ HasLevel slots .hidden x := by
        intro h
        obtain ⟨j, hj⟩ := firstSlot_isSome h
        rw [hj, hd] at heq
        cases heq
      rw [firstSlot_none fun k => by cases k <;> assumption, hi, hd] at heq
      refine ⟨hseen, fun h => hb h.2, ?_⟩
      rw [hd]
      exact mod_eq_self.mp (Slot.global.inj heq)
    · intro h
      have hseen := h.seen
      rw [firstSlot_none fun k => by cases k <;> assumption, hi, hd]
      have hfit := h.fits
      rw [hd] at hfit
      exact congrArg Slot.global (mod_eq_self.mpr hfit)
  · constructor
    · intro heq
      refine ⟨fun h => ?_, fun h => hb h.2, by rw [hd]; trivial⟩
      obtain ⟨j, hj⟩ := firstSlot_isSome h
      rw [hj, hd] at heq
      cases heq
    · intro h
      have hseen := h.seen
      rw [firstSlot_none fun k => by cases k <;> assumption, hi, hd]

end

/-! ## Global variables -/

def globalNames (source : SourceFile) : List String :=
  (declared (globalBlocks source.items)).map (·.1)

theorem mem_globalNames {source : SourceFile} {n : String} :
    n ∈ globalNames source ↔ ∃ vb k, .globalVarDeclaration vb ∈ source.items ∧
      (k, n) ∈ kindNames [vb] := by
  simp only [globalNames, declared, globalBlocks, kindNames, List.mem_map, List.mem_flatMap,
    List.mem_filterMap, List.mem_singleton]
  constructor
  · rintro ⟨p, ⟨vb, ⟨item, hi, heq⟩, decl, hd, id, hid, rfl⟩, rfl⟩
    cases item with
    | globalVarDeclaration vb' =>
      cases heq
      exact ⟨vb, vb.kind, hi, vb, rfl, decl, hd, id, hid, rfl⟩
    | _ => cases heq
  · rintro ⟨vb, k, hvb, vb', rfl, decl, hd, id, hid, heq⟩
    cases heq
    exact ⟨_, ⟨vb', ⟨_, hvb, rfl⟩, decl, hd, id, hid, rfl⟩, rfl⟩

theorem declSymbols_block (ty : DataType → Ty) (vb : VarBlock) :
    declSymbols ty vb.kind vb.declarations = blockSymbols ty [vb] := by
  simp [blockSymbols]

section

variable {source : SourceFile} {syms : List (List Symbol)} {a : Analyzer} {x : String}

/-- A global variable of the source is found as a variable. -/
theorem global_found (hr : Registered source syms a)
    (h : ∃ n ∈ globalNames source, toUppercase n = toUppercase x) :
    ∃ sym, a.symbols.lookupIn 0 x = some sym ∧ sym.isVariable = true := by
  obtain ⟨n, hn, hx⟩ := h
  obtain ⟨vb, k, hvb, hk⟩ := mem_globalNames.mp hn
  obtain ⟨ss, hss, hi⟩ := Registered.forall₂_mem_left hr.items hvb
  cases hi with
  | globalVars t =>
    have hmem : ∃ s ∈ blockSymbols (resolveDataType t) [vb], s.name = n :=
      mem_blockSymbols.mpr ⟨k, hk⟩
    obtain ⟨s, hs, rfl⟩ := hmem
    rw [← declSymbols_block] at hs
    have hf := hr.found (List.mem_flatten.mpr ⟨_, hss, hs⟩) hx
    obtain ⟨sym, hsym, rfl⟩ := Option.map_eq_some_iff.mp hf
    have hv : sym.plain.isVariable = true := declSymbols_variable _ hs
    exact ⟨sym, hsym, hv⟩

/-- A global symbol that is a variable is a global variable of the source. -/
theorem found_global (hr : Registered source syms a) {sym : Symbol}
    (h : a.symbols.lookupIn 0 x = some sym) (hv : sym.isVariable = true) :
    ∃ n ∈ globalNames source, toUppercase n = toUppercase x := by
  rcases hr.of_found h with ⟨hmem, hname⟩ | ⟨n, ps, r, hb⟩
  · obtain ⟨ss, hss, hs⟩ := List.mem_flatten.mp hmem
    obtain ⟨item, hitem, hi⟩ := Registered.forall₂_mem_right hr.items hss
    have hv' : sym.plain.isVariable = true := hv
    cases hi with
    | globalVars t vb =>
      rw [declSymbols_block] at hs
      obtain ⟨k, hk⟩ := mem_blockSymbols.mp ⟨sym.plain, hs, rfl⟩
      exact ⟨sym.name, mem_globalNames.mpr ⟨vb, k, hitem, hk⟩, hname⟩
    | types defs tys hlen =>
      obtain ⟨j, hj, heq⟩ := List.mem_iff_getElem.mp hs
      rw [← heq] at hv'
      simp [typeSymbol, itemSymbol, Symbol.isVariable] at hv'
    | function t f | functionBlock t fb | interface t i | program t p | classDecl t c =>
      rw [List.mem_singleton.mp hs] at hv'
      cases hv'
  · have hv' : sym.plain.isVariable = true := hv
    rw [hb] at hv'
    cases hv'

end

/-! ## Ancestors -/

section

variable {source : SourceFile}

/-- The classes of an accepted source have names of their own. -/
theorem classes_only (hacc : accepts source = true) {cls : ClassDecl}
    (hc : .classDecl cls ∈ source.items) : Only cls source.items := by
  obtain ⟨syms, hreg⟩ := accepts_registered hacc
  intro cls' hc' hn
  exact (hreg (afterRegister source) fun _ => rfl).class_unique hc' hc hn

/-- The ancestors of a class are determined by the source. -/
theorem ancestors_unique (hacc : accepts source = true) {base : Option String}
    {ds ds' : List ClassDecl} (h : Ancestors source base ds) (h' : Ancestors source base ds') :
    ds = ds' := by
  induction h generalizing ds' with
  | none => cases h'; rfl
  | some hmem hname _ ih =>
    cases h' with
    | some hmem' hname' hrest' =>
      have heq := classes_only hacc hmem _ hmem' (hname'.trans hname.symm)
      subst heq
      rw [ih hrest']

omit source in
theorem except_bind_ok {ε α β : Type} {x : Except ε α} {f : α → Except ε β} {r : β}
    (h : (x >>= f) = .ok r) : ∃ y, x = .ok y ∧ f y = .ok r := by
  cases x with
  | error e => cases h
  | ok y => exact ⟨y, rfl, h⟩

/-- The compiler finds the blocks of the ancestors. -/
theorem ancestorBlocks_eq (hacc : accepts source = true) {base : Option String}
    {ds : List ClassDecl} (h : Ancestors source base ds) :
    ∀ {fuel : Nat} {bs : List (List VarBlock)},
      ancestorBlocks (registered source) fuel (base.map toUppercase) = .ok bs →
        bs = ds.map (·.varBlocks) := by
  induction h with
  | none =>
    intro fuel bs hb
    rw [Option.map_none, ancestorBlocks] at hb
    cases hb
    rfl
  | @some name cls ds hmem hname _ ih =>
    intro fuel bs hb
    cases fuel with
    | zero => cases hb
    | succ fuel =>
      rw [Option.map_some, ← hname, ancestorBlocks, registered_bases (classes_only hacc hmem) hmem,
        registered_varBlocks (classes_only hacc hmem) hmem] at hb
      obtain ⟨rest, hrest, hb⟩ := except_bind_ok hb
      cases hb
      rw [ih hrest]
      rfl

theorem collectInherited_eq (hacc : accepts source = true) {cls : ClassDecl}
    (hc : .classDecl cls ∈ source.items) {ds : List ClassDecl}
    (h : Ancestors source cls.baseClass ds) {inherited : List VarBlock}
    (hi : collectInheritedVarBlocks (registered source) cls.name.name = .ok inherited) :
    inherited = (ds.map (·.varBlocks)).reverse.flatten := by
  rw [collectInheritedVarBlocks, registered_bases (classes_only hacc hc) hc] at hi
  obtain ⟨chain, hchain, hi⟩ := except_bind_ok hi
  cases hi
  rw [ancestorBlocks_eq hacc h hchain]

end

/-! ## The slots of bodies -/

/-- The slots of variable blocks, each with the level of its section. -/
def slotsAt (level : VarKind → Level) (blocks : List VarBlock) : List (Level × String) :=
  (kindNames blocks).map fun p => (level p.1, p.2)

/-- The variables of an ancestor belong to the class, as far as they are seen. -/
def inheritedLevel (k : VarKind) : Level := if isVisible k then .cls else .hidden

def methodSlots (inherited own : List VarBlock) (m : MethodDecl) : List (Level × String) :=
  slotsAt inheritedLevel inherited ++ slotsAt (fun _ => .cls) own ++
    slotsAt (fun _ => .body) m.varBlocks ++ (MethodDecl.resultName m).map (.body, ·)

def functionSlots (f : FunctionDecl) : List (Level × String) :=
  slotsAt (fun _ => .body) f.varBlocks ++ [(.body, f.name.name)]

theorem kindNames_declared (blocks : List VarBlock) :
    (kindNames blocks).map (·.2) = (declared blocks).map (·.1) := by
  simp [kindNames, declared, List.map_flatMap, Function.comp_def]

theorem slotsAt_names (level : VarKind → Level) (blocks : List VarBlock) :
    (slotsAt level blocks).map (·.2) = (declared blocks).map (·.1) := by
  rw [← kindNames_declared, slotsAt, List.map_map]
  rfl

theorem methodSlots_names (inherited own : List VarBlock) (m : MethodDecl) :
    (methodSlots inherited own m).map (·.2) = (declared inherited).map (·.1) ++
      (declared own).map (·.1) ++ (declared m.varBlocks).map (·.1) ++ MethodDecl.resultName m := by
  simp only [methodSlots, List.map_append, slotsAt_names, List.map_map]
  simp [Function.comp_def]

/-- Slots of one level are in order. -/
theorem sorted_of_level {slots : List (Level × String)} {l : Level} (h : ∀ p ∈ slots, p.1 = l) :
    Sorted slots := by
  intro i j k k' n n' hi hj _ hr
  have h1 : k = l := h _ (List.mem_of_getElem? hi)
  have h2 : k' = l := h _ (List.mem_of_getElem? hj)
  subst h1
  subst h2
  exact absurd hr (Nat.lt_irrefl _)

/-- Slots with names of their own are in order. -/
theorem sorted_of_distinct {slots : List (Level × String)}
    (h : (slots.map fun p => toUppercase p.2).Nodup) : Sorted slots := by
  intro i j k k' n n' hi hj hn hr
  have hij := getElem?_inj_of_nodup_map h hi hj hn
  subst hij
  rw [hi] at hj
  cases hj
  exact absurd hr (Nat.lt_irrefl _)

theorem Sorted.append {xs ys : List (Level × String)} (hx : Sorted xs) (hy : Sorted ys)
    (h : ∀ l n k n', (l, n) ∈ ys → (k, n') ∈ xs → toUppercase n = toUppercase n' →
      ¬ l.rank < k.rank) : Sorted (xs ++ ys) := by
  intro i j l k n n' hi hj hn hr
  rw [List.getElem?_append] at hi hj
  split at hi
  · split at hj
    · exact hx i j l k n n' hi hj hn hr
    · omega
  · split at hj
    · exact absurd hr (h l n k n' (List.mem_of_getElem? hi) (List.mem_of_getElem? hj) hn)
    · have := hy _ _ l k n n' hi hj hn hr
      omega

theorem mem_slotsAt {level : VarKind → Level} {blocks : List VarBlock} {l : Level} {n : String} :
    (l, n) ∈ slotsAt level blocks ↔ ∃ k, level k = l ∧ (k, n) ∈ kindNames blocks := by
  simp only [slotsAt, List.mem_map, Prod.mk.injEq, Prod.exists]
  constructor
  · rintro ⟨k, n', hk, hl, rfl⟩
    exact ⟨k, hl, hk⟩
  · rintro ⟨k, hl, hk⟩
    exact ⟨k, n, hk, hl, rfl⟩

theorem kindNames_append (xs ys : List VarBlock) :
    kindNames (xs ++ ys) = kindNames xs ++ kindNames ys := by
  simp [kindNames]

/-- The slots of the ancestors, root first. -/
def inheritedSlots (ds : List ClassDecl) : List (Level × String) :=
  slotsAt inheritedLevel (ds.map (·.varBlocks)).reverse.flatten

theorem inheritedSlots_cons (d : ClassDecl) (ds : List ClassDecl) :
    inheritedSlots (d :: ds) = inheritedSlots ds ++ slotsAt inheritedLevel d.varBlocks := by
  simp [inheritedSlots, slotsAt, kindNames_append]

theorem inheritedLevel_cls {k : VarKind} : inheritedLevel k = .cls ↔ isVisible k = true := by
  cases k <;> simp [inheritedLevel, isVisible]

theorem mem_inheritedSlots {ds : List ClassDecl} {l : Level} {n : String} :
    (l, n) ∈ inheritedSlots ds ↔ ∃ d ∈ ds, (l, n) ∈ slotsAt inheritedLevel d.varBlocks := by
  induction ds with
  | nil => simp [inheritedSlots, slotsAt, kindNames]
  | cons d ds ih =>
    rw [inheritedSlots_cons, List.mem_append, ih]
    simp [or_comm]

/-- The kind a slot of the ancestors has its level from. -/
theorem kind_of_inheritedSlot {ds : List ClassDecl} {l : Level} {n : String}
    (h : (l, n) ∈ inheritedSlots ds) : ∃ k, inheritedLevel k = l := by
  rw [mem_inheritedSlots] at h
  obtain ⟨d, -, hm⟩ := h
  rw [mem_slotsAt] at hm
  obtain ⟨k, hl, -⟩ := hm
  exact ⟨k, hl⟩

theorem inherits_iff {ds : List ClassDecl} {x : String} :
    Inherits ds x ↔ HasLevel (inheritedSlots ds) .cls x := by
  constructor
  · rintro ⟨d, hd, k, n, hv, hk, hx⟩
    rw [← inheritedLevel_cls] at hv
    refine ⟨n, ?_, hx⟩
    rw [mem_inheritedSlots]
    refine ⟨d, hd, ?_⟩
    rw [mem_slotsAt]
    exact ⟨k, hv, hk⟩
  · rintro ⟨n, hn, hx⟩
    rw [mem_inheritedSlots] at hn
    obtain ⟨d, hd, hm⟩ := hn
    rw [mem_slotsAt] at hm
    obtain ⟨k, hl, hk⟩ := hm
    rw [inheritedLevel_cls] at hl
    exact ⟨d, hd, k, n, hl, hk, hx⟩

/-- The variables of the ancestors are in order: what an ancestor hides stands
before what a nearer one declares again. -/
theorem inheritedSlots_sorted {source : SourceFile} (hacc : accepts source = true)
    {base : Option String} {ds : List ClassDecl} (h : Ancestors source base ds) :
    Sorted (inheritedSlots ds) := by
  induction h with
  | none => exact sorted_of_distinct (by simp [inheritedSlots, slotsAt, kindNames])
  | @some name cls ds hmem hname hrest ih =>
    obtain ⟨ds', hcls⟩ := class_names hacc hmem
    rw [ancestors_unique hacc hcls.ancestors hrest] at hcls
    rw [inheritedSlots_cons]
    refine ih.append (sorted_of_distinct ?_) fun l n k n' hl hk hn hr => ?_
    · simpa [slotsAt, Function.comp_def] using hcls.distinct
    · rw [mem_slotsAt] at hl
      obtain ⟨kd, hlev, hkd⟩ := hl
      -- only a visible variable of an ancestor is of a higher level
      have hc : k = .cls := by
        obtain ⟨kd', hlev'⟩ := kind_of_inheritedSlot hk
        subst hlev'
        unfold inheritedLevel at hr ⊢
        split at hr
        · next h => simp [h]
        · simp [Level.rank] at hr
      subst hc
      exact hcls.fresh kd n hkd (inherits_iff.mpr ⟨n', hk, hn.symm⟩)

theorem slotsAt_level {l : Level} {blocks : List VarBlock} :
    ∀ p ∈ slotsAt (fun _ => l) blocks, p.1 = l := by
  rintro ⟨k, n⟩ hp
  rw [mem_slotsAt] at hp
  obtain ⟨kd, hk, -⟩ := hp
  exact hk.symm

theorem slotsAt_sorted (l : Level) (blocks : List VarBlock) : Sorted (slotsAt (fun _ => l) blocks) :=
  sorted_of_level slotsAt_level

theorem Level.rank_le (l : Level) : l.rank ≤ 2 := by cases l <;> decide

/-- Slots of a body come last. -/
theorem Sorted.body {xs ys : List (Level × String)} (hx : Sorted xs) (hy : ∀ p ∈ ys, p.1 = .body) :
    Sorted (xs ++ ys) := by
  refine hx.append (sorted_of_level hy) fun l n k n' hl _ _ hr => ?_
  have hb : l = .body := hy _ hl
  subst hb
  have := k.rank_le
  simp only [Level.rank] at hr this
  omega

theorem functionSlots_sorted (f : FunctionDecl) : Sorted (functionSlots f) :=
  (slotsAt_sorted .body f.varBlocks).body (by simp)

theorem inheritedLevel_rank (k : VarKind) : (inheritedLevel k).rank ≤ 1 := by
  cases k <;> decide

theorem methodSlots_sorted {inherited own : List VarBlock} {m : MethodDecl} {ds : List ClassDecl}
    (hinh : slotsAt inheritedLevel inherited = inheritedSlots ds) (h : Sorted (inheritedSlots ds)) :
    Sorted (methodSlots inherited own m) := by
  have hown : Sorted (inheritedSlots ds ++ slotsAt (fun _ => .cls) own) := by
    refine h.append (slotsAt_sorted .cls own) fun l n k n' hl hk _ hr => ?_
    have hc : l = .cls := slotsAt_level _ hl
    obtain ⟨kd, rfl⟩ := kind_of_inheritedSlot hk
    have := inheritedLevel_rank kd
    subst hc
    simp only [Level.rank] at hr this
    omega
  rw [methodSlots, hinh]
  exact (hown.body slotsAt_level).body (by simp)

theorem hasLevel_append {xs ys : List (Level × String)} {l : Level} {x : String} :
    HasLevel (xs ++ ys) l x ↔ HasLevel xs l x ∨ HasLevel ys l x := by
  simp only [HasLevel, List.mem_append, or_and_right, exists_or]

theorem hasLevel_const {l k : Level} {blocks : List VarBlock} {x : String} :
    HasLevel (slotsAt (fun _ => l) blocks) k x ↔ l = k ∧ Declares blocks x := by
  constructor
  · rintro ⟨n, hn, hx⟩
    rw [mem_slotsAt] at hn
    obtain ⟨kd, hl, hk⟩ := hn
    exact ⟨hl, kd, n, hk, hx⟩
  · rintro ⟨rfl, kd, n, hk, hx⟩
    exact ⟨n, mem_slotsAt.mpr ⟨kd, rfl, hk⟩, hx⟩

theorem hasLevel_result {m : MethodDecl} {k : Level} {x : String} :
    HasLevel ((MethodDecl.resultName m).map (Level.body, ·)) k x ↔
      k = .body ∧ ResultNamed m.name m.returnType x := by
  unfold MethodDecl.resultName ResultNamed HasLevel
  cases m.returnType with
  | none => simp
  | some dt => simp [and_assoc]

theorem inheritedSlots_body {ds : List ClassDecl} {x : String} :
    ¬ HasLevel (inheritedSlots ds) .body x := by
  rintro ⟨n, hn, -⟩
  obtain ⟨k, hl⟩ := kind_of_inheritedSlot hn
  unfold inheritedLevel at hl
  split at hl <;> cases hl

section

variable {source : SourceFile} {pre post : List TopLevelItem} {x : String}

/-- A scope of variables inside the global one. -/
theorem pou_innermost (hacc : accepts source = true) {a b : Analyzer} (ha : AtTop source a)
    (hk : KeepsGlobals source a) {syms : List Symbol}
    (hd : Defines a.symbols.scopes.length syms (enterScope a).2 b)
    (hv : ∀ s ∈ syms, s.isVariable = true) {slots : List (Level × String)}
    (hslots : ∀ x, (∃ s ∈ syms, keyOf s = toUppercase x) ↔ HasLevel slots .body x)
    (hcls : ∀ x, ¬ HasLevel slots .cls x) : Innermost b slots (globalNames source) x := by
  obtain ⟨gsyms, hreg⟩ := accepts_registered hacc
  have hr := hreg b (within_keepsGlobals hk ha.length hd)
  have hold := holds_new hd hv hslots
  have hres := pou_scope ha hd x
  have hscope : b.currentScope = a.symbols.scopes.length := hd.scope
  have hpos : a.symbols.scopes.length ≠ 0 := Nat.ne_of_gt ha.length
  -- a name that is not in the scope is looked up among the global ones
  have hglob : ¬ HasLevel slots .body x → b.symbols.resolve b.currentScope x =
      (b.symbols.lookupIn 0 x).map (Prod.mk 0) := by
    intro hb
    rw [hres]
    cases hl : b.symbols.lookupIn a.symbols.scopes.length x with
    | none => rfl
    | some s => exact absurd ((hold.isSome_iff x).mp (by rw [hl]; rfl)) hb
  refine ⟨fun hb => ?_, fun _ hc => absurd hc (hcls x), fun hb _ hg => ?_, fun hb _ hg r hrr => ?_⟩
  · obtain ⟨s, hs⟩ := Option.isSome_iff_exists.mp ((hold.isSome_iff x).mpr hb)
    exact ⟨_, s, by rw [hres, hs]; rfl, hold.vars x s hs, hpos, hscope.symm⟩
  · obtain ⟨s, hs, hv⟩ := global_found hr hg
    exact ⟨s, by rw [hglob hb, hs]; rfl, hv⟩
  · rw [hglob hb] at hrr
    obtain ⟨s, hs, rfl⟩ := Option.map_eq_some_iff.mp hrr
    cases hv : s.isVariable with
    | false => rfl
    | true => exact absurd (found_global hr hs hv) hg

/-- A scope of a method inside that of its class. -/
theorem method_innermost (hacc : accepts source = true) {cls : ClassDecl} {m : MethodDecl}
    {n c : Nat} {b : Analyzer} {ds : List ClassDecl} (h : MethodScope source cls m n c b ds)
    {slots : List (Level × String)}
    (hbody : HasLevel slots .body x ↔ ResultNamed m.name m.returnType x ∨ Declares m.varBlocks x)
    (hcls : HasLevel slots .cls x ↔ Inherits ds x ∨ Declares cls.varBlocks x) :
    Innermost b slots (globalNames source) x := by
  obtain ⟨gsyms, hreg⟩ := accepts_registered hacc
  have hr := hreg b h.keeps
  have hres := h.resolve x
  have hown : ¬ HasLevel slots .body x → b.symbols.lookupIn n x = none := by
    intro hb
    cases hl : b.symbols.lookupIn n x with
    | none => rfl
    | some s => exact absurd (hbody.mpr ((h.own.isSome_iff x).mp (by rw [hl]; rfl))) hb
  have hcl : ¬ HasLevel slots .cls x → b.symbols.lookupIn c x = none := by
    intro hc
    cases hl : b.symbols.lookupIn c x with
    | none => rfl
    | some s => exact absurd (hcls.mpr ((h.cls.isSome_iff x).mp (by rw [hl]; rfl))) hc
  have hlt := h.lt
  have hpos := h.pos
  refine ⟨fun hb => ?_, fun hb hc => ?_, fun hb hc hg => ?_, fun hb hc hg r hrr => ?_⟩
  · obtain ⟨s, hs⟩ := Option.isSome_iff_exists.mp ((h.own.isSome_iff x).mpr (hbody.mp hb))
    exact ⟨n, s, by rw [hres, hs]; rfl, h.own.vars x s hs, by omega, h.scope.symm⟩
  · obtain ⟨s, hs⟩ := Option.isSome_iff_exists.mp ((h.cls.isSome_iff x).mpr (hcls.mp hc))
    exact ⟨c, s, by rw [hres, hown hb, hs]; rfl, h.cls.vars x s hs, by omega,
      by rw [h.scope]; omega⟩
  · obtain ⟨s, hs, hv⟩ := global_found hr hg
    exact ⟨s, by rw [hres, hown hb, hcl hc, hs]; rfl, hv⟩
  · rw [hres, hown hb, hcl hc] at hrr
    obtain ⟨s, hs, rfl⟩ := Option.map_eq_some_iff.mp hrr
    cases hv : s.isVariable with
    | false => rfl
    | true => exact absurd (found_global hr hs hv) hg

end

/-! ## Bodies -/

section

variable [F64Ops]

/-- The bodies of a source: the analyzer when it starts on the statements, the
slots of the variables, and the code. -/
inductive Body (source : SourceFile) :
    Analyzer → List (Level × String) → (ModuleEnv → CompileM Nat) → Prop
  | program {pre post : List TopLevelItem} {p : ProgramDecl}
    (item : source.items = pre ++ .program p :: post) :
    Body source (within (beforeItem source pre) (defineVarBlocks · p.varBlocks))
      (slotsAt (fun _ => .body) p.varBlocks) (fun env => pouBody env p.varBlocks p.body)
  | functionBlock {pre post : List TopLevelItem} {fb : FunctionBlockDecl}
    (item : source.items = pre ++ .functionBlock fb :: post) :
    Body source (within (beforeItem source pre) (defineVarBlocks · fb.varBlocks))
      (slotsAt (fun _ => .body) fb.varBlocks) (fun env => pouBody env fb.varBlocks fb.body)
  | function {pre post : List TopLevelItem} {f : FunctionDecl}
    (item : source.items = pre ++ .function f :: post) :
    Body source (within (beforeItem source pre) (declareFunction f)) (functionSlots f)
      (fun env => functionBody env f)
  | method {pre post : List TopLevelItem} {cls : ClassDecl} {mpre mpost : List MethodDecl}
    {m : MethodDecl} {inherited : List VarBlock}
    (item : source.items = pre ++ .classDecl cls :: post) (mem : cls.methods = mpre ++ m :: mpost)
    (concrete : m.isAbstract = false)
    (base : collectInheritedVarBlocks (registered source) cls.name.name = .ok inherited) :
    Body source (within (beforeMethod source pre cls mpre) (declareMethod cls m))
      (methodSlots inherited cls.varBlocks m)
      (fun env => methodBody env inherited cls.varBlocks m)

/-- The environment of a body: after the first pass only the functions change. -/
def bodyEnv (source : SourceFile) (functions : List Function) : ModuleEnv :=
  { (registered source).env with functions := functions }

omit [F64Ops] in
/-- The variables of a program or function block, and how the analyzer finds
them. -/
theorem blocks_innermost {source : SourceFile} (hacc : accepts source = true)
    (pre : List TopLevelItem) {blocks : List VarBlock}
    (h : NoError (within (beforeItem source pre) (defineVarBlocks · blocks))) (x : String) :
    Innermost (within (beforeItem source pre) (defineVarBlocks · blocks))
      (slotsAt (fun _ => .body) blocks) (globalNames source) x := by
  have htop := beforeItem_atTop hacc pre
  refine pou_innermost hacc htop (beforeItem_keepsGlobals source pre)
    (blocks_within htop.length h) blockSymbols_variable (fun x => ?_) fun x hx => ?_
  · rw [declares_iff, hasLevel_const]
    simp
  · exact absurd (hasLevel_const.mp hx).1 (by simp)

omit [F64Ops] in
theorem function_innermost {source : SourceFile} (hacc : accepts source = true)
    (pre : List TopLevelItem) {f : FunctionDecl}
    (h : NoError (within (beforeItem source pre) (declareFunction f))) (x : String) :
    Innermost (within (beforeItem source pre) (declareFunction f)) (functionSlots f)
      (globalNames source) x := by
  have htop := beforeItem_atTop hacc pre
  have hresult : ∀ k x, HasLevel [(Level.body, f.name.name)] k x ↔
      k = .body ∧ ResultNamed f.name (some f.returnType) x := by
    intro k x
    simp [HasLevel, ResultNamed, and_assoc]
  refine pou_innermost hacc htop (beforeItem_keepsGlobals source pre)
    (function_within htop.length h) ?_ (fun x => ?_) fun x hx => ?_
  · intro s hs
    rcases List.mem_append.mp hs with hs | hs
    · exact resultSymbols_variable s hs
    · exact blockSymbols_variable s hs
  · rw [functionSymbols, exists_mem_append, resultNamed_iff, declares_iff, functionSlots,
      hasLevel_append, hasLevel_const, hresult, or_comm]
    simp
  · rcases hasLevel_append.mp hx with hx | hx
    · exact absurd (hasLevel_const.mp hx).1 (by simp)
    · exact absurd ((hresult _ _).mp hx).1 (by simp)

/-- **The compiler uses the variable the analyzer found, in every body of an
accepted source and for every name that is plain there, and for no other
name.** -/
theorem variable_slots_agree {source : SourceFile} (hacc : accepts source = true) {a : Analyzer}
    {slots : List (Level × String)} {code : ModuleEnv → CompileM Nat} (hb : Body source a slots code)
    {functions : List Function} {typeDefs : List TypeDef} {start : Nat} {s : FunctionCompiler}
    (hcode : code (bodyEnv source functions) (.new typeDefs) = .ok (start, s)) (x : String) :
    compiledSlot (bodyEnv source functions) s x = declaredSlot a slots (globalNames source) x ↔
      Plain a slots (globalNames source) x := by
  have hglob : layoutNames (bodyEnv source functions).globals = globalNames source :=
    registered_globals source
  cases hb with
  | @program pre post p item =>
    obtain ⟨hno, -⟩ := analyzeTopLevel_noError hacc item
    have hn : NoError (within (beforeItem source pre) (defineVarBlocks · p.varBlocks)) :=
      (analyzeStatements_silent false p.body).noError hno
    refine first_slot_agrees ?_ hglob (blocks_innermost hacc pre hn x)
      (slotsAt_sorted _ _)
    rw [pouBody_names hcode, slotsAt_names]
  | @functionBlock pre post fb item =>
    obtain ⟨hno, -⟩ := analyzeTopLevel_noError hacc item
    have hn : NoError (within (beforeItem source pre) (defineVarBlocks · fb.varBlocks)) :=
      (analyzeStatements_silent false fb.body).noError hno
    refine first_slot_agrees ?_ hglob (blocks_innermost hacc pre hn x)
      (slotsAt_sorted _ _)
    rw [pouBody_names hcode, slotsAt_names]
  | @function pre post f item =>
    obtain ⟨hno, -⟩ := analyzeTopLevel_noError hacc item
    have hn : NoError (within (beforeItem source pre) (declareFunction f)) :=
      (analyzeStatements_silent false f.body).noError hno
    refine first_slot_agrees ?_ hglob (function_innermost hacc pre hn x) (functionSlots_sorted f)
    rw [functionBody_names hcode, functionSlots, List.map_append, slotsAt_names]
    rfl
  | @method pre post cls mpre mpost m inherited item mem concrete base =>
    obtain ⟨n, c, ds, hm⟩ := method_scope hacc item mem
    have hc : .classDecl cls ∈ source.items := by rw [item]; simp
    have hinh : slotsAt inheritedLevel inherited = inheritedSlots ds := by
      rw [collectInherited_eq hacc hc hm.classNames.ancestors base]
      rfl
    refine first_slot_agrees ?_ hglob (method_innermost hacc hm ?_ ?_) ?_
    · rw [methodBody_names hcode, methodSlots_names]
    · rw [methodSlots, hinh, hasLevel_append, hasLevel_append, hasLevel_append, hasLevel_const,
        hasLevel_const, hasLevel_result]
      simp [inheritedSlots_body, or_comm]
    · rw [methodSlots, hinh, hasLevel_append, hasLevel_append, hasLevel_append, hasLevel_const,
        hasLevel_const, hasLevel_result, inherits_iff]
      simp
    · exact methodSlots_sorted hinh (inheritedSlots_sorted hacc hm.classNames.ancestors)

end

/-- The compiled body passes a test. -/
def bodyYields (code : CompileM Nat) (p : FunctionCompiler → Bool) : Bool :=
  match code (.new []) with
  | .ok (_, s) => p s
  | .error _ => false

theorem bodyYields_iff {code : CompileM Nat} {p : FunctionCompiler → Bool} :
    bodyYields code p = true ↔ ∃ start s, code (.new []) = .ok (start, s) ∧ p s = true := by
  unfold bodyYields
  cases code (.new []) with
  | error e => simp
  | ok r =>
    obtain ⟨start, s⟩ := r
    simp

/-- A program and the global variable it adds to its own. -/
def addGlobal : SourceFile := ⟨[
  .globalVarDeclaration (.inSection .varGlobal [.plain "g" .int, .plain "h" .int]),
  .program ⟨"Main", [.of [.plain "x" .int]],
    [.assign "x" (.binary .add (.ofName "x") (.ofName "h") noRange)]⟩]⟩

/-- In `addGlobal` the name `h` is the second global variable for both. -/
theorem global_slot_found : ∃ start s,
    @pouBody default (bodyEnv addGlobal []) [.of [.plain "x" .int]]
      [.assign "x" (.binary .add (.ofName "x") (.ofName "h") noRange)] (.new []) = .ok (start, s) ∧
    compiledSlot (bodyEnv addGlobal []) s "h" = .global 1 := by
  have hacc : accepts addGlobal = true := by decide +kernel
  let p : ProgramDecl := ⟨"Main", [.of [.plain "x" .int]],
    [.assign "x" (.binary .add (.ofName "x") (.ofName "h") noRange)]⟩
  have hitem : addGlobal.items = [.globalVarDeclaration (.inSection .varGlobal
      [.plain "g" .int, .plain "h" .int])] ++ .program p :: [] := rfl
  have hcode : bodyYields (@pouBody default (bodyEnv addGlobal []) p.varBlocks p.body)
      (fun _ => true) = true := by
    decide +kernel
  obtain ⟨start, s, hs, -⟩ := bodyYields_iff.mp hcode
  have hdecl : declaredSlot (within (beforeItem addGlobal [.globalVarDeclaration
      (.inSection .varGlobal [.plain "g" .int, .plain "h" .int])]) (defineVarBlocks · p.varBlocks))
      (slotsAt (fun _ => .body) p.varBlocks) (globalNames addGlobal) "h" = .global 1 := by
    decide +kernel
  refine ⟨start, s, hs, ?_⟩
  have hagree := @variable_slots_agree default addGlobal hacc _ _ _ (@Body.program default _ _ _ _ hitem)
    [] [] start s hs "h"
  rw [hdecl] at hagree
  refine hagree.mpr ⟨fun h => absurd (hasLevel_const.mp h).1 (by simp),
    fun h => absurd (hasLevel_const.mp h.1).1 (by simp), ?_⟩
  rw [hdecl]
  exact (by decide : (1 : Nat) < 65536)

/-- A method with a variable of the name of a variable of its class. -/
def shadowing : SourceFile := ⟨[
  .classDecl (.plain "C" none [.of [.plain "x" .int]]
    [.plain "M" (some .int) [.of [.init "x" .int (.ofInt 5)]] [.assign "M" (.ofName "x")]])]⟩

/-- In the method of `shadowing`, `x` is the variable of the method for the
analyzer and the variable of the class for the compiler. -/
theorem method_variable_not_found : ∃ a slots code, accepts shadowing = true ∧
    @Body default shadowing a slots code ∧ declaredSlot a slots (globalNames shadowing) "x" =
      .local 1 ∧ ∃ start s, code (bodyEnv shadowing []) (.new []) = .ok (start, s) ∧
        compiledSlot (bodyEnv shadowing []) s "x" = .local 0 := by
  let m : MethodDecl := .plain "M" (some .int) [.of [.init "x" .int (.ofInt 5)]]
    [.assign "M" (.ofName "x")]
  let cls : ClassDecl := .plain "C" none [.of [.plain "x" .int]] [m]
  have hitem : shadowing.items = [] ++ .classDecl cls :: [] := rfl
  have hm : cls.methods = [] ++ m :: [] := rfl
  have hinh : collectInheritedVarBlocks (registered shadowing) cls.name.name = .ok [] := rfl
  refine ⟨_, _, _, by decide +kernel, @Body.method default _ _ _ _ _ _ _ _ hitem hm rfl hinh,
    by decide +kernel, ?_⟩
  have hcode : bodyYields (@methodBody default (bodyEnv shadowing []) [] cls.varBlocks m)
      (fun s => decide (compiledSlot (bodyEnv shadowing []) s "x" = .local 0)) = true := by
    decide +kernel
  obtain ⟨start, s, hs, hp⟩ := bodyYields_iff.mp hcode
  exact ⟨start, s, hs, of_decide_eq_true hp⟩

end RustPlc.Agree
