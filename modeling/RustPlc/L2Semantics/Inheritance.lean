import RustPlc.Core.Chains
import RustPlc.L2Semantics.Hierarchy

/-!
# Cycles of classes

The walks up a class hierarchy follow the name of the base class and keep no record of the
classes they have been to. The flag `endless` of the analyzer stands for a walk that never ends:
`methodUp_endless` and `ancestors_endless` say that the bound on the number of steps makes no
difference.

Results:
* `climbs_of_acyclic`: without a cycle among the classes of the source every walk ends;
* `analyze_ends`: neither does the analyzer walk on, and it reports no cycle;
* `analyze_never_reports`: the analyzer reports no cycle, whatever the source.
-/
namespace RustPlc.Analysis

open RustPlc.Ir RustPlc.Core RustPlc.Syntax
open Relation

/-! ## Walks by steps -/

/-- The data of the class under an upper-case name. -/
def classAt (t : SymbolTable) (key : String) : Option ClassInfo :=
  match t.scopes[0]?.bind fun s => SymbolMap.get s.symbols key with
  | some ⟨_, _, .cls info, _, _, _⟩ => some info
  | _ => none

theorem classAt_plain (t : SymbolTable) (key : String) : classAt t.plain key = classAt t key := by
  unfold classAt
  rw [SymbolTable.plain, List.getElem?_map]
  cases t.scopes[0]? with
  | none => rfl
  | some s =>
    have hget : SymbolMap.get s.plain.symbols key = (SymbolMap.get s.symbols key).map Symbol.plain :=
      SymbolMap.get_map Symbol.plain s.symbols key
    rw [Option.map_some, Option.bind_some, Option.bind_some, hget]
    cases SymbolMap.get s.symbols key with
    | none => rfl
    | some sym =>
      obtain ⟨n, ty, kind, range, used, assigned⟩ := sym
      cases kind <;> rfl

theorem resolveClass_eq (t : SymbolTable) (name : String) :
    t.resolveClass name = classAt t (toUppercase name) := rfl

/-- The upper-case name of the base class. -/
def baseKey (t : SymbolTable) (key : String) : Option String :=
  (classAt t key).bind fun info => info.baseClass.map toUppercase

/-- The same, for a class without the method. -/
def baseKeyWithout (t : SymbolTable) (method key : String) : Option String :=
  (classAt t key).bind fun info =>
    if (findMethod info.methods method).isSome then none else info.baseClass.map toUppercase

section

variable (t : SymbolTable)

theorem methodUp_none (method : String) : ∀ k cls, methodUp t method k cls = none ↔
    climb (baseKeyWithout t method) k (toUppercase cls) ≠ none
  | 0, cls => by simp [methodUp, climb]
  | k + 1, cls => by
    rw [methodUp, resolveClass_eq, climb, baseKeyWithout]
    cases classAt t (toUppercase cls) with
    | none => simp
    | some info =>
      cases hm : findMethod info.methods method with
      | some m => simp [hm]
      | none =>
        cases hb : info.baseClass with
        | none => simp [hm, hb]
        | some base => simpa [hm, hb] using methodUp_none method k base

theorem ancestors_none : ∀ k cls, ancestors t k (some cls) = none ↔
    climb (baseKey t) k (toUppercase cls) ≠ none
  | 0, cls => by simp [ancestors, climb]
  | k + 1, cls => by
    rw [ancestors, resolveClass_eq, climb, baseKey]
    cases classAt t (toUppercase cls) with
    | none => simp
    | some info =>
      cases hb : info.baseClass with
      | none => simp [hb, ancestors]
      | some base => simpa [hb] using ancestors_none k base

/-- The upper-case names of the global symbols. -/
def globalKeys : List String := (t.scopes[0]?.map fun s => s.symbols.map (·.1)).getD []

theorem globalKeys_length : (globalKeys t).length < hierarchyFuel t := by
  unfold globalKeys hierarchyFuel
  cases t.scopes[0]? with
  | none => simp
  | some s => simp

theorem classAt_mem {key : String} {info : ClassInfo} (h : classAt t key = some info) :
    key ∈ globalKeys t := by
  unfold classAt at h
  unfold globalKeys
  cases hs : t.scopes[0]? with
  | none => simp [hs] at h
  | some s =>
    rw [hs, Option.bind_some] at h
    cases hg : SymbolMap.get s.symbols key with
    | none => simp [hg] at h
    | some sym =>
      obtain ⟨e, he, -⟩ := Option.map_eq_some_iff.mp hg
      have hkey : e.1 = key := by simpa using List.find?_some he
      exact List.mem_map.mpr ⟨e, List.mem_of_find?_eq_some he, hkey⟩

theorem baseKey_mem {key key' : String} (h : Link (baseKey t) key key') : key ∈ globalKeys t := by
  obtain ⟨info, hi, -⟩ := Option.bind_eq_some_iff.mp h
  exact classAt_mem t hi

theorem baseKeyWithout_link {method key key' : String} (h : Link (baseKeyWithout t method) key key') :
    Link (baseKey t) key key' := by
  obtain ⟨info, hi, hb⟩ := Option.bind_eq_some_iff.mp h
  split at hb
  · cases hb
  · exact Option.bind_eq_some_iff.mpr ⟨info, hi, hb⟩

/-- **The bound makes no difference**: a search that has not ended within it never does. -/
theorem methodUp_endless (method cls : String) :
    methodUp t method (hierarchyFuel t) cls = none ↔ ∀ k, methodUp t method k cls = none := by
  constructor
  · intro h k
    rw [methodUp_none] at h
    have := (climb_or_endless (fun x y hxy => baseKey_mem t (baseKeyWithout_link t hxy))
      (globalKeys_length t) (toUppercase cls)).resolve_left h
    exact (methodUp_none t method k cls).mpr (this k)
  · intro h
    exact h _

theorem ancestors_endless (base : Option String) :
    ancestors t (hierarchyFuel t) base = none ↔ base ≠ none ∧ ∀ k, ancestors t k base = none := by
  cases base with
  | none => simp [ancestors]
  | some cls =>
    constructor
    · intro h
      rw [ancestors_none] at h
      have := (climb_or_endless (fun x y => baseKey_mem t) (globalKeys_length t)
        (toUppercase cls)).resolve_left h
      exact ⟨Option.some_ne_none cls, fun k => (ancestors_none t k cls).mpr (this k)⟩
    · intro h
      exact h.2 _

/-- Where no class leads back to itself every walk ends. -/
theorem climbs_of_acyclic (h : ∀ key, ¬ TransGen (Link (baseKey t)) key key) : Climbs t := by
  constructor
  · intro cls method hnone
    refine (methodUp_none t method _ cls).mp hnone ?_
    exact climb_ends (fun x y hxy => baseKey_mem t (baseKeyWithout_link t hxy))
      (fun x hx => h x (hx.lift id fun _ _ => baseKeyWithout_link t)) (globalKeys_length t) _
  · intro base hnone
    cases base with
    | none => cases hf : hierarchyFuel t <;> simp [hf, ancestors] at hnone
    | some cls =>
      refine (ancestors_none t _ cls).mp hnone ?_
      exact climb_ends (fun x y => baseKey_mem t) h (globalKeys_length t) _

/-- From every class the links to base classes end within the bound. -/
def BasesEnd : Prop := ∀ cls, climb (baseKey t) (hierarchyFuel t) (toUppercase cls) = none

theorem Climbs.basesEnd {t : SymbolTable} (h : Climbs t) : BasesEnd t := by
  intro cls
  by_contra hne
  exact h.ancestors (some cls) ((ancestors_none t _ cls).mpr hne)

end

/-! ## The classes of the source -/

/-- A class of the source is its own ancestor. -/
def Cyclic (source : SourceFile) : Prop :=
  ∃ cls, .classDecl cls ∈ source.items ∧ Ancestor source cls cls

/-- A class of the source with the first name extends the second. -/
def Parent (source : SourceFile) (key key' : String) : Prop :=
  ∃ cls base, .classDecl cls ∈ source.items ∧ toUppercase cls.name.name = key ∧
    cls.baseClass = some base ∧ toUppercase base = key'

section

variable {source : SourceFile}

theorem ancestor_of_parents {key key' : String} (h : TransGen (Parent source) key key') :
    ∃ cls, .classDecl cls ∈ source.items ∧ toUppercase cls.name.name = key ∧
      ∀ d, .classDecl d ∈ source.items → toUppercase d.name.name = key' → Ancestor source cls d := by
  induction h using TransGen.head_induction_on with
  | single h =>
    obtain ⟨cls, base, hmem, hkey, hb, hbase⟩ := h
    exact ⟨cls, hmem, hkey, fun d hd hname => .single ⟨base, hb, hd, hname.trans hbase.symm⟩⟩
  | head h _ ih =>
    obtain ⟨cls, base, hmem, hkey, hb, hbase⟩ := h
    obtain ⟨c, hc, hckey, hall⟩ := ih
    exact ⟨cls, hmem, hkey, fun d hd hname =>
      .head ⟨base, hb, hc, hckey.trans hbase.symm⟩ (hall d hd hname)⟩

theorem parents_acyclic (h : ¬ Cyclic source) (key : String) :
    ¬ TransGen (Parent source) key key := by
  intro hc
  obtain ⟨cls, hmem, hkey, hall⟩ := ancestor_of_parents hc
  exact h ⟨cls, hmem, hall cls hmem hkey⟩

/-- The classes of a table extend what classes of the source extend. -/
def BasesOf (source : SourceFile) (t : SymbolTable) : Prop :=
  ∀ key key', Link (baseKey t) key key' → Parent source key key'

theorem BasesOf.climbs {t : SymbolTable} (h : BasesOf source t) (hc : ¬ Cyclic source) : Climbs t :=
  climbs_of_acyclic t fun key hk => parents_acyclic hc key (hk.lift id fun _ _ => h _ _)

end

/-! ## The first pass -/

theorem get_replace {key key' : String} (hne : key ≠ key') (s : Symbol) (m : SymbolMap) :
    SymbolMap.get (m.map fun e => if e.1 == key then (key, s) else e) key' = SymbolMap.get m key' := by
  induction m with
  | nil => rfl
  | cons e m ih =>
    simp only [SymbolMap.get, List.map_cons, List.find?_cons] at ih ⊢
    by_cases he : e.1 = key
    · simp only [he, beq_self_eq_true, if_true, beq_false_of_ne hne]
      exact ih
    · rw [if_neg (by simpa using he)]
      cases e.1 == key' with
      | true => rfl
      | false => exact ih

/-- What is found after an insertion was inserted or was there. -/
theorem get_insert {m : SymbolMap} {key key' : String} {s sym : Symbol}
    (h : SymbolMap.get (m.insert key s) key' = some sym) :
    key' = key ∧ sym = s ∨ SymbolMap.get m key' = some sym := by
  by_cases hk : key = key'
  · subst hk
    left
    refine ⟨rfl, ?_⟩
    obtain ⟨e, he, rfl⟩ := Option.map_eq_some_iff.mp h
    have hkey : e.1 = key := by simpa using List.find?_some he
    have hmem := List.mem_of_find?_eq_some he
    unfold SymbolMap.insert at hmem he
    split at hmem
    · obtain ⟨e', -, heq⟩ := List.mem_map.mp hmem
      split at heq
      · rw [← heq]
      · next hne =>
        subst heq
        exact absurd hkey (by simpa using hne)
    · next hnone =>
      rw [if_neg hnone, List.find?_cons, beq_self_eq_true] at he
      cases he
      rfl
  · right
    unfold SymbolMap.insert at h
    split at h
    · rwa [get_replace hk] at h
    · simp only [SymbolMap.get, List.find?_cons, beq_false_of_ne hk] at h
      exact h

/-- A class symbol names a class of the source. -/
def Names (source : SourceFile) (symbol : Symbol) : Prop :=
  ∀ info, symbol.kind = .cls info → ∀ base, info.baseClass = some base →
    Parent source (toUppercase symbol.name) (toUppercase base)

/-- So far the first pass has followed the source. -/
structure FirstPass (source : SourceFile) (a : Analyzer) : Prop where
  bases : BasesOf source a.symbols
  endless : a.endless = false
  codes : ∀ d ∈ a.diagnostics, d.code ≠ .circularInheritance

section

variable {source : SourceFile} {a : Analyzer}

theorem basesOf_define {t : SymbolTable} (h : BasesOf source t) {symbol : Symbol}
    (hs : Names source symbol) : BasesOf source (t.define 0 symbol) := by
  intro key key' hlink
  obtain ⟨info, hi, hb⟩ := Option.bind_eq_some_iff.mp hlink
  obtain ⟨base, hbase, rfl⟩ := Option.map_eq_some_iff.mp hb
  have hold : classAt t key = some info → Parent source key (toUppercase base) := fun ht =>
    h key _ (Option.bind_eq_some_iff.mpr ⟨info, ht, Option.map_eq_some_iff.mpr ⟨base, hbase, rfl⟩⟩)
  unfold classAt at hi
  split at hi
  · next n ty inf range used assigned hsome =>
    cases hi
    rw [SymbolTable.define, List.getElem?_modify] at hsome
    cases hscope : t.scopes[0]? with
    | none => simp [hscope] at hsome
    | some s =>
      rw [hscope] at hsome
      simp only [Option.map_eq_map, Option.map_some, if_true, Option.bind_some, Scope.define] at hsome
      cases get_insert hsome with
      | inl hnew =>
        obtain ⟨hkey, hsym⟩ := hnew
        have := hs info (by rw [← hsym]) base hbase
        rwa [← hkey] at this
      | inr hget =>
        refine hold ?_
        rw [classAt, hscope, Option.bind_some, hget]
  · cases hi

theorem FirstPass.silent {α : Type} {m : AnalyzeM α} (h : FirstPass source a) (hm : Silent m)
    (hc : ¬ Cyclic source) : FirstPass source (m a).2 := by
  have hq := hm.quiet a
  refine ⟨?_, ?_, fun d hd => (hq.tame.codes d hd).elim (h.codes d) id⟩
  · intro key key' hlink
    refine h.bases key key' ?_
    rw [Link, baseKey, ← classAt_plain, hq.symbols, classAt_plain] at hlink
    exact hlink
  · rw [(hq.tame.climbs (h.bases.climbs hc)).1]
    exact h.endless

theorem FirstPass.define {symbol : Symbol} (h : FirstPass source a) (hs : Names source symbol) :
    FirstPass source { a with symbols := a.symbols.define 0 symbol } :=
  ⟨basesOf_define h.bases hs, h.endless, h.codes⟩

end

/-- A step of the first pass. -/
structure Registers1 (source : SourceFile) {α : Type} (m : AnalyzeM α) : Prop where
  keep : ∀ a, FirstPass source a → FirstPass source (m a).2

namespace Registers1

variable {α β : Type} {source : SourceFile}

theorem pure (x : α) : Registers1 source (Pure.pure x : AnalyzeM α) := ⟨fun _ h => h⟩

theorem get : Registers1 source (MonadState.get : AnalyzeM Analyzer) := ⟨fun _ h => h⟩

theorem bind {m : AnalyzeM α} {f : α → AnalyzeM β} (hm : Registers1 source m)
    (hf : ∀ x, Registers1 source (f x)) : Registers1 source (m >>= f) :=
  ⟨fun a h => (hf (m a).1).keep (m a).2 (hm.keep a h)⟩

theorem silent (hc : ¬ Cyclic source) {m : AnalyzeM α} (hm : Silent m) : Registers1 source m :=
  ⟨fun _ h => h.silent hm hc⟩

theorem defineOrReport (hc : ¬ Cyclic source) {symbol : Symbol} (hs : Names source symbol)
    (what : String) (range : TextRange) :
    Registers1 source (Analysis.defineOrReport 0 symbol what range) :=
  get.bind fun _ => bind ⟨fun _ h => h.define hs⟩ fun _ => silent hc (.errorIf (by decide) ..)

end Registers1

section

variable {source : SourceFile} (hc : ¬ Cyclic source)

include hc

theorem declareVar_registers (kind : VarKind) (ty : Ty) (initialised : Bool) (id : Identifier) :
    Registers1 source (declareVar 0 kind ty initialised id) := by
  refine Registers1.get.bind fun a => ?_
  have hnames : Names source ⟨id.name, ty, .variable kind, id.range, false,
      initialised || kind == .varInput || kind == .varInOut || kind == .varExternal⟩ := by
    intro info h
    cases h
  have hdef := Registers1.defineOrReport hc hnames "variable" id.range
  split
  · split
    · exact (Registers1.silent hc (.warning (by decide) ..)).bind fun _ => hdef
    · exact hdef
  · exact hdef

theorem declareVars_registers (kind : VarKind) (ty : Ty) (initialised : Bool) : ∀ ids,
    Registers1 source (declareVars 0 kind ty initialised ids)
  | [] => .pure _
  | id :: ids => (declareVar_registers hc kind ty initialised id).bind fun _ =>
    declareVars_registers kind ty initialised ids

theorem declareDecls_registers (kind : VarKind) (isConstant : Bool) : ∀ decls,
    Registers1 source (declareDecls 0 kind isConstant decls)
  | [] => .pure _
  | decl :: decls => by
    refine Registers1.get.bind fun a => (declareVars_registers hc kind _ _ _).bind fun _ => ?_
    have hrest := declareDecls_registers kind isConstant decls
    cases decl.initialValue with
    | some e => exact (Registers1.silent hc (checkExpression_silent e)).bind fun _ =>
        (Registers1.silent hc (.errorIf (by decide) ..)).bind fun _ => hrest
    | none =>
      cases isConstant with
      | true => exact (Registers1.silent hc (requireInit_silent _)).bind fun _ => hrest
      | false => exact hrest

theorem registerTypes_registers : ∀ defs, Registers1 source (registerTypes defs)
  | [] => .pure _
  | _ :: ds => Registers1.get.bind fun _ =>
    (Registers1.defineOrReport hc (by intro info h; cases h) _ _).bind fun _ =>
      registerTypes_registers ds

theorem registerTopLevel_registers {item : TopLevelItem} (hi : item ∈ source.items) :
    Registers1 source (registerTopLevel item) := by
  cases item with
  | typeDeclaration defs => exact registerTypes_registers hc defs
  | classDecl cls =>
    refine Registers1.get.bind fun a => Registers1.defineOrReport hc ?_ _ _
    intro info hinfo base hbase
    cases hinfo
    exact ⟨cls, base, hi, rfl, hbase, rfl⟩
  | globalVarDeclaration vb => exact declareDecls_registers hc vb.kind _ vb.declarations
  | _ => exact Registers1.get.bind fun _ =>
      Registers1.defineOrReport hc (by intro info h; cases h) _ _

theorem registerAll_registers : ∀ items, (∀ item ∈ items, item ∈ source.items) →
    Registers1 source (registerAll items)
  | [], _ => .pure _
  | item :: items, h => (registerTopLevel_registers hc (h item List.mem_cons_self)).bind fun _ =>
    registerAll_registers items fun i hi => h i (List.mem_cons_of_mem item hi)

omit hc in
theorem firstPass_initial : FirstPass source initialAnalyzer := by
  refine ⟨fun key key' hlink => ?_, rfl, fun d hd => absurd hd List.not_mem_nil⟩
  obtain ⟨info, hi, -⟩ := Option.bind_eq_some_iff.mp hlink
  unfold classAt at hi
  split at hi
  · next hsome =>
    obtain ⟨e, he, hsym⟩ := Option.map_eq_some_iff.mp hsome
    obtain ⟨s, hs, rfl⟩ := List.mem_map.mp (List.mem_of_find?_eq_some he)
    obtain ⟨n, ps, r, rfl⟩ := mem_intrinsics hs
    cases hsym
  · cases hi

/-- **Without a cycle the analyzer ends.** -/
theorem analyze_ends : (analyze source).endless = false ∧ BasesEnd (analyze source).symbols := by
  have h1 : FirstPass source (afterRegister source) :=
    (registerAll_registers hc source.items fun _ h => h).keep _ firstPass_initial
  have hclimbs := h1.bases.climbs hc
  have hadds := analyzeAll_adds (n := 1) source.items
  have hlen := afterRegister_length source
  have hend := (hadds.ends _ Nat.zero_lt_one hlen hclimbs).trans h1.endless
  exact ⟨hend, ((hadds.later _ hlen).climbs Nat.zero_lt_one hclimbs).basesEnd⟩

end

/-! ## Reports -/

theorem unusedWarnings_code (symbol : Symbol) {d : Diagnostic} (hd : d ∈ unusedWarnings symbol) :
    d.code ≠ .circularInheritance := by
  unfold unusedWarnings at hd
  split at hd
  · cases List.mem_append.mp hd with
    | inl hd =>
      split at hd
      · rw [List.mem_singleton.mp hd]
        dsimp only
        split <;> nofun
      · cases hd
    | inr hd =>
      split at hd
      · rw [List.mem_singleton.mp hd]
        nofun
      · cases hd
  · cases hd

/-- **The analyzer never reports a cycle.** -/
theorem analyze_never_reports {source : SourceFile} {d : Diagnostic}
    (hd : d ∈ (analyze source).diagnostics) : d.code ≠ .circularInheritance := by
  have hlen := afterRegister_length source
  cases List.mem_append.mp hd with
  | inl hd =>
    refine ((analyzeAll_adds (n := 1) source.items).codes _ hlen d hd).elim (fun hd => ?_) id
    exact ((registerAll_adds source.items).codes initialAnalyzer (Nat.zero_le _) d hd).elim
      (fun hd => absurd hd List.not_mem_nil) id
  | inr hd =>
    obtain ⟨s, -, hd⟩ := List.mem_flatMap.mp hd
    obtain ⟨e, -, hd⟩ := List.mem_flatMap.mp hd
    exact unusedWarnings_code e.2 hd

end RustPlc.Analysis
