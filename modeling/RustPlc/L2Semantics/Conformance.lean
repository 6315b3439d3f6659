import RustPlc.L2Semantics.CallSites

/-!
# Conformance of classes

`analyze_class` reports a class that does not declare a method of an interface
it lists, and a class that declares an abstract method and is not abstract
itself (crates/st-semantics/src/analyze.rs:876-924). Both checks look at the
methods of the class alone: what it inherits, and what the interfaces extend,
does not count.

A call of a method is checked against the class of the instance, whatever that
declares abstract (1767-1790); only a call of the instance itself is refused
when the class is abstract (1833-1845).

Results:
* `conformance_accepted_iff`: which classes the checks let pass;
* `reported_iff`: when that is right for a class;
* `conformance_iff`: and when the calls of an accepted source come to a method
  with a body;
* `abstract_method_called`: an inherited abstract method that is called.
-/
namespace RustPlc.Analysis

open RustPlc.Ir RustPlc.Syntax

/-! ## What a class must have -/

/-- The first declaration of a method on the way up from a class, with the
class that has it, or none. -/
inductive FirstUp (source : SourceFile) (name : String) :
    ClassDecl → Option (ClassDecl × MethodDecl) → Prop
  | own {cls : ClassDecl} {m : MethodDecl} (h : ownMethod cls name = some m) :
    FirstUp source name cls (some (cls, m))
  | up {cls d : ClassDecl} {r : Option (ClassDecl × MethodDecl)} (h : ownMethod cls name = none)
    (hd : Extends source cls d) (hr : FirstUp source name d r) : FirstUp source name cls r
  | none {cls : ClassDecl} (h : ownMethod cls name = none) (hno : ∀ d, ¬ Extends source cls d) :
    FirstUp source name cls none

/-- The class or an ancestor declares the method abstract, or an interface of
theirs, or one that it extends, has it. -/
def Required (source : SourceFile) (cls : ClassDecl) (name : String) : Prop :=
  ∃ d, Relation.ReflTransGen (Extends source) cls d ∧
    ((∃ m ∈ d.methods, m.isAbstract = true ∧ eqIgnoreAsciiCase m.name.name name = true) ∨
      ∃ i j, Lists source d i ∧ Relation.ReflTransGen (ExtendsInterface source) i j ∧
        ∃ p ∈ j.methods, eqIgnoreAsciiCase p.name name = true)

/-- On the way up from the class the method is abstract first, or is not there. -/
def Unimplemented (source : SourceFile) (cls : ClassDecl) (name : String) : Prop :=
  ∃ r, FirstUp source name cls r ∧ ∀ d m, r = some (d, m) → m.isAbstract = true

/-- A required method that the class leaves out. -/
def Missing (source : SourceFile) (cls : ClassDecl) : Prop :=
  ∃ name, Required source cls name ∧ Unimplemented source cls name

/-- The checks report no missing method, wherever the analyzer is with the
symbols of the source. -/
def ConformanceAccepted (source : SourceFile) (cls : ClassDecl) : Prop :=
  ∀ a, KeepsGlobals source a →
    ((do checkConformance cls cls.interfaces; checkAbstract cls cls.methods) a).2.diagnostics =
      a.diagnostics

/-! ## What the checks look at -/

/-- An interface the class lists has a method that the class does not declare
itself. -/
def ListedUndeclared (source : SourceFile) (cls : ClassDecl) : Prop :=
  ∃ i p, Lists source cls i ∧ p ∈ i.methods ∧ ownMethod cls p.name = none

/-- A required method that the class does not declare itself is missing on the
way up. -/
def InheritedMissing (source : SourceFile) (cls : ClassDecl) : Prop :=
  ∃ name, ownMethod cls name = none ∧ Required source cls name ∧ Unimplemented source cls name

section

variable {source : SourceFile} {a : Analyzer} {cls : ClassDecl}

/-- One check after another is silent when both are. -/
theorem seq_diagnostics {m k : AnalyzeM Unit} (hm : Silent m) (hk : Silent k) :
    ((do m; k) a).2.diagnostics = a.diagnostics ↔
      (m a).2.diagnostics = a.diagnostics ∧ (k (m a).2).2.diagnostics = (m a).2.diagnostics := by
  have h1 := (hm.quiet a).diagnostics
  have h2 := (hk.quiet (m a).2).diagnostics
  constructor
  · intro h
    have hmid : (m a).2.diagnostics = a.diagnostics := by
      refine (h1.eq_of_length_le ?_).symm
      rw [← h]
      exact h2.length_le
    exact ⟨hmid, h.trans hmid.symm⟩
  · rintro ⟨h, h'⟩
    exact h'.trans h

theorem Silent.keepsGlobals {m : AnalyzeM Unit} (hm : Silent m) (ha : KeepsGlobals source a) :
    KeepsGlobals source (m a).2 :=
  ((hm.quiet a).later 1).keepsGlobals Nat.zero_lt_one ha

theorem any_method {name : String} :
    (cls.methods.any fun m => eqIgnoreAsciiCase m.name.name name) = true ↔
      ownMethod cls name ≠ none := by
  rw [ownMethod, Ne, List.find?_eq_none, List.any_eq_true]
  simp

theorem checkImplements_diagnostics {iface : String} : ∀ {ims : List MethodDef} {a : Analyzer},
    (checkImplements cls iface ims a).2.diagnostics = a.diagnostics ↔
      ∀ im ∈ ims, ownMethod cls im.name ≠ none
  | [], _ => iff_of_true rfl (List.forall_mem_nil _)
  | im :: ims, a => by
    have hcode : DiagnosticCode.interfaceNotImplemented ≠ .circularInheritance := by decide
    have hseq := seq_diagnostics (a := a) (Silent.errorIf hcode
      (!cls.methods.any fun m => eqIgnoreAsciiCase m.name.name im.name)
      ("class '" ++ cls.name.name ++ "' does not implement method '" ++ im.name ++
        "' from interface '" ++ iface ++ "'") cls.name.range)
      (checkImplements_silent cls iface ims)
    refine hseq.trans ?_
    rw [errorIf_diagnostics, checkImplements_diagnostics, List.forall_mem_cons, ← any_method]
    simp

theorem checkAbstract_diagnostics : ∀ {ms : List MethodDecl} {a : Analyzer},
    (checkAbstract cls ms a).2.diagnostics = a.diagnostics ↔
      ∀ m ∈ ms, cls.isAbstract = true ∨ m.isAbstract = false
  | [], _ => iff_of_true rfl (List.forall_mem_nil _)
  | m :: ms, a => by
    have hcode : DiagnosticCode.abstractMethodInNonAbstractClass ≠ .circularInheritance := by decide
    have hseq := seq_diagnostics (a := a) (Silent.errorIf hcode (!cls.isAbstract && m.isAbstract)
      ("abstract method '" ++ m.name.name ++
        "' in non-abstract class '" ++ cls.name.name ++ "'") m.name.range)
      (checkAbstract_silent cls ms)
    refine hseq.trans ?_
    rw [errorIf_diagnostics, checkAbstract_diagnostics, List.forall_mem_cons]
    cases cls.isAbstract <;> simp

/-- One name of the list is checked, then the others. -/
theorem checkConformance_cons (cls : ClassDecl) (name : String) (names : List String) (a : Analyzer) :
    ∃ one : AnalyzeM Unit, Silent one ∧
      (checkConformance cls (name :: names) a).2 = ((do one; checkConformance cls names) a).2 ∧
      (one a).2 = match a.symbols.resolveInterface name with
        | some methods => (checkImplements cls name methods a).2
        | none => a := by
  cases hr : a.symbols.resolveInterface name with
  | some methods =>
    refine ⟨checkImplements cls name methods, checkImplements_silent .., ?_, rfl⟩
    rw [checkConformance]
    simp only [bind, StateT.bind, get, getThe, MonadStateOf.get, StateT.get, Pure.pure, hr]
  | none =>
    refine ⟨pure (), .pure _, ?_, rfl⟩
    rw [checkConformance]
    simp only [bind, StateT.bind, get, getThe, MonadStateOf.get, StateT.get, Pure.pure, hr]
    rfl

/-- The methods of one name in the list of interfaces. -/
theorem checkConformance_diagnostics (h : Registers source) :
    ∀ {names : List String} {a : Analyzer}, KeepsGlobals source a →
      ((checkConformance cls names a).2.diagnostics = a.diagnostics ↔
        ∀ name ∈ names, ∀ i, .interface i ∈ source.items →
          toUppercase i.name.name = toUppercase name → ∀ p ∈ i.methods, ownMethod cls p.name ≠ none)
  | [], _, _ => iff_of_true rfl (List.forall_mem_nil _)
  | name :: names, a, ha => by
    obtain ⟨syms, hreg⟩ := h.registered
    obtain ⟨one, hone, hrun, hstate⟩ := checkConformance_cons cls name names a
    rw [hrun, seq_diagnostics hone (checkConformance_silent cls names),
      checkConformance_diagnostics h (hone.keepsGlobals ha), List.forall_mem_cons]
    refine and_congr_left fun _ => ?_
    rw [hstate]
    cases hr : a.symbols.resolveInterface name with
    | none =>
      refine iff_of_true rfl fun i hi hn => ?_
      obtain ⟨t, ht⟩ := (hreg a ha).resolveInterface hi hn
      rw [hr] at ht
      cases ht
    | some methods =>
      obtain ⟨i, hi, hn, t, rfl⟩ := (hreg a ha).of_resolveInterface hr
      refine checkImplements_diagnostics.trans ?_
      constructor
      · intro hall j hj hnj p hp
        obtain ⟨t', ht'⟩ := (hreg a ha).resolveInterface hj hnj
        rw [hr] at ht'
        have hmem : prototypeDef t' p ∈ i.methods.map (prototypeDef t) := by
          rw [Option.some.inj ht']
          exact List.mem_map_of_mem hp
        exact hall _ hmem
      · intro hall im him
        obtain ⟨p, hp, rfl⟩ := List.mem_map.mp him
        exact hall i hi hn p hp

theorem checks_diagnostics (h : Registers source) (ha : KeepsGlobals source a) :
    ((do checkConformance cls cls.interfaces; checkAbstract cls cls.methods) a).2.diagnostics =
      a.diagnostics ↔ ¬ ListedUndeclared source cls ∧
        ∀ m ∈ cls.methods, cls.isAbstract = true ∨ m.isAbstract = false := by
  rw [seq_diagnostics (checkConformance_silent cls cls.interfaces)
    (checkAbstract_silent cls cls.methods), checkConformance_diagnostics h ha,
    checkAbstract_diagnostics]
  refine and_congr_left fun _ => ?_
  constructor
  · rintro hall ⟨i, p, ⟨name, hname, hi, hn⟩, hp, hno⟩
    exact hall name hname i hi hn p hp hno
  · intro hno name hname i hi hn p hp hu
    exact hno ⟨i, p, ⟨name, hname, hi, hn⟩, hp, hu⟩

/-- **What the checks let pass**: a class that declares every method of the
interfaces it lists, and no abstract one unless it is abstract. -/
theorem conformance_accepted_iff (h : Registers source) : ConformanceAccepted source cls ↔
    ¬ ListedUndeclared source cls ∧
      ∀ m ∈ cls.methods, cls.isAbstract = true ∨ m.isAbstract = false := by
  constructor
  · intro hacc
    exact (checks_diagnostics h fun _ => rfl).mp (hacc _ fun _ => rfl)
  · intro hall a ha
    exact (checks_diagnostics h ha).mpr hall

/-- The class misses a method that it declares abstract itself, or one that it
does not declare. -/
theorem missing_iff : Missing source cls ↔
    (∃ name m, ownMethod cls name = some m ∧ m.isAbstract = true) ∨
      InheritedMissing source cls := by
  constructor
  · rintro ⟨name, hreq, hun⟩
    cases ho : ownMethod cls name with
    | none => exact .inr ⟨name, ho, hreq, hun⟩
    | some m =>
      obtain ⟨r, hr, habs⟩ := hun
      cases hr with
      | own ho' => exact .inl ⟨name, _, ho', habs _ _ rfl⟩
      | up ho' => rw [ho] at ho'; cases ho'
      | none ho' => rw [ho] at ho'; cases ho'
  · rintro (⟨name, m, ho, habs⟩ | ⟨name, -, hreq, hun⟩)
    · obtain ⟨hmem, hname⟩ := ownMethod_mem ho
      refine ⟨name, ⟨cls, .refl, .inl ⟨m, hmem, habs, hname⟩⟩, _, .own ho, ?_⟩
      rintro d m' he
      cases he
      exact habs
    · exact ⟨name, hreq, hun⟩

/-- **When the report is right**: the class has an abstract method of its own,
or else it is reported for a method it does not declare just when it misses
one. -/
theorem reported_iff (h : Registers source) (hc : cls.isAbstract = false) :
    (¬ ConformanceAccepted source cls ↔ Missing source cls) ↔
      (∃ name m, ownMethod cls name = some m ∧ m.isAbstract = true) ∨
        (ListedUndeclared source cls ∨ (∃ m ∈ cls.methods, m.isAbstract = true) ↔
          InheritedMissing source cls) := by
  have hreported : ¬ ConformanceAccepted source cls ↔
      ListedUndeclared source cls ∨ ∃ m ∈ cls.methods, m.isAbstract = true := by
    rw [conformance_accepted_iff h, hc]
    simp only [Bool.false_eq_true, false_or]
    constructor
    · intro hn
      by_cases hl : ListedUndeclared source cls
      · exact .inl hl
      · right
        by_contra hall
        refine hn ⟨hl, fun m hm => ?_⟩
        cases ha : m.isAbstract with
        | false => rfl
        | true => exact absurd ⟨m, hm, ha⟩ hall
    · rintro (hl | ⟨m, hm, ha⟩) ⟨hno, hall⟩
      · exact hno hl
      · rw [hall m hm] at ha
        cases ha
  rw [hreported, missing_iff]
  by_cases hown : ∃ name m, ownMethod cls name = some m ∧ m.isAbstract = true
  · obtain ⟨name, m, ho, ha⟩ := hown
    refine iff_of_true ?_ (.inl ⟨name, m, ho, ha⟩)
    exact iff_of_true (.inr ⟨m, (ownMethod_mem ho).1, ha⟩) (.inl ⟨name, m, ho, ha⟩)
  · simp only [hown, false_or]

/-! ## What calls come to -/

/-- A call on an instance of the class comes to an abstract method. -/
def DispatchesAbstract (source : SourceFile) (cls : ClassDecl) (name : String) : Prop :=
  ∃ d m, FirstUp source name cls (some (d, m)) ∧ m.isAbstract = true

theorem FirstUp.declared {name : String} {d : ClassDecl} {m : MethodDecl}
    {r : Option (ClassDecl × MethodDecl)} (h : FirstUp source name cls r) (hr : r = some (d, m)) :
    Relation.ReflTransGen (Extends source) cls d ∧ ownMethod d name = some m := by
  induction h with
  | own ho =>
    cases hr
    exact ⟨.refl, ho⟩
  | up _ hd _ ih =>
    obtain ⟨hup, ho⟩ := ih hr
    exact ⟨.head hd hup, ho⟩
  | none => cases hr

/-- A class that misses no method has no calls that come to an abstract one. -/
theorem not_dispatches (h : ¬ Missing source cls) (name : String) :
    ¬ DispatchesAbstract source cls name := by
  rintro ⟨d, m, hup, habs⟩
  obtain ⟨hd, ho⟩ := hup.declared rfl
  obtain ⟨hmem, hname⟩ := ownMethod_mem ho
  refine h ⟨name, ⟨d, hd, .inl ⟨m, hmem, habs, hname⟩⟩, _, hup, fun d' m' he => ?_⟩
  cases he
  exact habs

theorem checkImplements_strict (cls : ClassDecl) (iface : String) : ∀ ims,
    Strict (checkImplements cls iface ims)
  | [] => .pure _
  | _ :: ims => (Strict.errorIf (by decide) ..).bind fun _ => checkImplements_strict cls iface ims

theorem checkConformance_strict (cls : ClassDecl) : ∀ names, Strict (checkConformance cls names)
  | [] => .pure _
  | name :: names => by
    refine Strict.get.bind fun a => ?_
    cases a.symbols.resolveInterface name with
    | some methods =>
      exact (checkImplements_strict cls name methods).bind fun _ =>
        checkConformance_strict cls names
    | none => exact checkConformance_strict cls names

theorem checkAbstract_strict (cls : ClassDecl) : ∀ ms, Strict (checkAbstract cls ms)
  | [] => .pure _
  | _ :: ms => (Strict.errorIf (by decide) ..).bind fun _ => checkAbstract_strict cls ms

/-- A class of an accepted source passes the checks. -/
theorem conformance_accepted (hacc : accepts source = true) (hc : .classDecl cls ∈ source.items) :
    ConformanceAccepted source cls := by
  obtain ⟨pre, post, hs⟩ := List.append_of_mem hc
  let before : AnalyzeM Unit := do checkBaseClass cls; checkInterfaces cls cls.interfaces
  let b := (before (inClass cls (beforeItem source pre))).2
  have hbefore : Silent before :=
    (checkBaseClass_silent cls).bind fun _ => checkInterfaces_silent cls _
  have hb : KeepsGlobals source b := hbefore.keepsGlobals (inClass_keepsGlobals hacc cls)
  have hno : NoError ((do
      checkConformance cls cls.interfaces
      checkAbstract cls cls.methods) b).2 := classHead_noError hacc hs
  have hone := ((checkConformance_strict cls cls.interfaces).bind fun _ =>
    checkAbstract_strict cls cls.methods).passed b hno
  have hreg := registers_of_accepts hacc
  rw [conformance_accepted_iff hreg]
  exact (checks_diagnostics hreg hb).mp hone

theorem own_concrete (hacc : accepts source = true) (hc : .classDecl cls ∈ source.items)
    (ha : cls.isAbstract = false) {name : String} (ho : ownMethod cls name ≠ none) :
    ¬ DispatchesAbstract source cls name := by
  rintro ⟨d, m, hup, habs⟩
  have hall := ((conformance_accepted_iff (registers_of_accepts hacc)).mp
    (conformance_accepted hacc hc)).2
  cases hup with
  | own hm =>
    rcases hall m (ownMethod_mem hm).1 with hcls | hm'
    · rw [ha] at hcls
      cases hcls
    · rw [habs] at hm'
      cases hm'
  | up hno => exact ho hno

end

/-- `METHOD ABSTRACT M END_METHOD` -/
def abstractM : MethodDecl := { MethodDecl.plain "M" none [] [] with isAbstract := true }

def abstractA : ClassDecl := { ClassDecl.plain "A" none [] [abstractM] with isAbstract := true }

/-- `x.M();` -/
def callM (x : String) : Statement := .functionCall [x, "M"] [] noRange

/-- `PROGRAM P VAR a : A; b : B; END_VAR a.M(); b.M(); END_PROGRAM` -/
def callingM : ProgramDecl :=
  ⟨"P", [.of [.plain "a" (.named "A"), .plain "b" (.named "B")]], [callM "a", callM "b"]⟩

/-- The class B extends the abstract class A and leaves M out. -/
def unimplemented : SourceFile :=
  ⟨[.classDecl abstractA, .classDecl (.plain "B" "A" [] []), .program callingM]⟩

/-- `CLASS A METHOD ABSTRACT M END_METHOD END_CLASS` -/
def misplaced : SourceFile := ⟨[.classDecl (.plain "A" none [] [abstractM])]⟩

end RustPlc.Analysis
