import RustPlc.L2Compiler.CompileWellFormed

/-!
# Where a compiled body ends up

The second pass puts each body in the place of the first function of its
name, and neither pass ever renames, moves or removes a function that is
already there. So the function a module finds under the name of a program is
that program's body, unless a later program has the same name.

Results:
* `compileItems_keeps`: the names and the globals stay as registered;
* `compile_program`: the body of a program is found under its name.
-/
namespace RustPlc.Compiler

open RustPlc.Ir RustPlc.Syntax

/-! ## Names -/

/-- A name, with ASCII case ignored. -/
def nameKey (s : String) : List Char := s.toList.map Char.toLower

theorem eqIgnoreAsciiCase_iff {a b : String} :
    eqIgnoreAsciiCase a b = true ↔ nameKey a = nameKey b := by
  simp [eqIgnoreAsciiCase, nameKey]

/-- The names of the functions of a module, in order. -/
def nameKeys (fs : List Function) : List (List Char) := fs.map fun f => nameKey f.name

theorem nameKeys_set {fs : List Function} {i : Nat} {f g : Function} (hi : fs[i]? = some f)
    (hg : nameKey g.name = nameKey f.name) : nameKeys (fs.set i g) = nameKeys fs := by
  unfold nameKeys
  rw [List.map_set, hg]
  apply List.ext_getElem?
  intro k
  by_cases hk : i = k
  · subst hk
    have hlt : i < fs.length := (List.getElem?_eq_some_iff.mp hi).1
    rw [List.getElem?_set_self (by simpa using hlt), List.getElem?_map, hi]
    rfl
  · rw [List.getElem?_set_ne hk]

/-- A search by name finds the same place in lists with the same names. -/
theorem findIdx_name {name : String} : ∀ {fs gs : List Function} {i : Nat} {f : Function},
    nameKeys gs = nameKeys fs → findIdx (fun f => eqIgnoreAsciiCase f.name name) fs = some (i, f) →
    ∃ g, findIdx (fun f => eqIgnoreAsciiCase f.name name) gs = some (i, g) ∧ gs[i]? = some g
  | [], gs, i, f, _, h => by simp [findIdx] at h
  | f0 :: fs, [], i, f, hk, _ => by simp [nameKeys] at hk
  | f0 :: fs, g0 :: gs, i, f, hk, h => by
    simp only [nameKeys, List.map_cons, List.cons.injEq] at hk
    have hsame : eqIgnoreAsciiCase g0.name name = eqIgnoreAsciiCase f0.name name := by
      rw [Bool.eq_iff_iff, eqIgnoreAsciiCase_iff, eqIgnoreAsciiCase_iff, hk.1]
    unfold findIdx at h ⊢
    rw [hsame]
    by_cases hp : eqIgnoreAsciiCase f0.name name = true
    · rw [if_pos hp] at h ⊢
      obtain ⟨rfl, -⟩ := Prod.mk.inj (Option.some.inj h)
      exact ⟨g0, rfl, rfl⟩
    · rw [if_neg hp] at h ⊢
      obtain ⟨⟨k, f'⟩, hf', heq⟩ := Option.map_eq_some_iff.mp h
      obtain ⟨rfl, -⟩ := Prod.mk.inj heq
      obtain ⟨g, hg, hget⟩ := findIdx_name hk.2 hf'
      exact ⟨g, by rw [hg]; rfl, by simpa using hget⟩

theorem findIdx_append {α : Type} {p : α → Bool} : ∀ {xs : List α} (ys : List α) {r : Nat × α},
    findIdx p xs = some r → findIdx p (xs ++ ys) = some r
  | [], ys, r, h => by simp [findIdx] at h
  | x :: xs, ys, r, h => by
    rw [List.cons_append]
    unfold findIdx at h ⊢
    by_cases hp : p x = true
    · rw [if_pos hp] at h ⊢
      exact h
    · rw [if_neg hp] at h ⊢
      obtain ⟨q, hq, rfl⟩ := Option.map_eq_some_iff.mp h
      rw [findIdx_append ys hq]
      rfl

/-! ## The second pass -/

/-- The names, the globals and the inheritance map are as before. -/
structure Keeps (mc mc' : ModuleCompiler) : Prop where
  names : nameKeys mc'.functions = nameKeys mc.functions
  globals : mc'.globals = mc.globals

theorem Keeps.refl (mc : ModuleCompiler) : Keeps mc mc := ⟨rfl, rfl⟩

theorem Keeps.trans {a b c : ModuleCompiler} (h : Keeps a b) (h' : Keeps b c) : Keeps a c :=
  ⟨h'.names.trans h.names, h'.globals.trans h.globals⟩

/-- What compiling one body changes: the function at the place of its name. -/
theorem compilePou_spec {mc mc' : ModuleCompiler} {name : String} {kind : PouKind}
    {body : CompileM Nat} (h : compilePou mc name kind body = .ok mc') :
    ∃ i g start s, mc.env.position name = some (i, g) ∧
      body (.new mc.typeDefs) = .ok (start, s) ∧
      mc'.functions = mc.functions.set i (s.finish name kind start) ∧ Keeps mc mc' := by
  unfold compilePou at h
  cases hpos : mc.env.position name with
  | none =>
    simp only [hpos] at h
    cases h
  | some p =>
    obtain ⟨i, g⟩ := p
    simp only [hpos] at h
    cases hrun : body (.new mc.typeDefs) with
    | error e =>
      simp only [hrun] at h
      cases h
    | ok r =>
      obtain ⟨start, s⟩ := r
      simp only [hrun, Bind.bind, Except.bind, Pure.pure, Except.pure, Except.ok.injEq] at h
      subst h
      obtain ⟨hget, hname, -⟩ := findIdx_some hpos
      refine ⟨i, g, start, s, rfl, rfl, rfl, ⟨?_, rfl⟩⟩
      exact nameKeys_set hget (eqIgnoreAsciiCase_iff.mp hname).symm

section

variable [F64Ops]

omit [F64Ops] in
theorem compilePou_keeps {mc mc' : ModuleCompiler} {name : String} {kind : PouKind}
    {body : CompileM Nat} (h : compilePou mc name kind body = .ok mc') : Keeps mc mc' := by
  obtain ⟨_, _, _, _, _, _, _, hk⟩ := compilePou_spec h
  exact hk

theorem compileMethods_keeps {cls : ClassDecl} {inherited : List VarBlock} :
    ∀ (ms : List MethodDecl) {mc mc' : ModuleCompiler},
    compileMethods cls inherited ms mc = .ok mc' → Keeps mc mc'
  | [], mc, mc', h => by
    obtain rfl := Except.ok.inj h
    exact .refl mc
  | m :: ms, mc, mc', h => by
    unfold compileMethods at h
    split at h
    · exact compileMethods_keeps ms h
    · cases hp : compilePou mc (methodName cls m) .method
          (methodBody mc.env inherited cls.varBlocks m) with
      | error e =>
        rw [hp] at h
        cases h
      | ok mc1 =>
        rw [hp] at h
        exact (compilePou_keeps hp).trans (compileMethods_keeps ms h)

theorem compileItem_keeps {mc mc' : ModuleCompiler} (item : TopLevelItem)
    (h : compileItem mc item = .ok mc') : Keeps mc mc' := by
  cases item with
  | program p => exact compilePou_keeps h
  | function f => exact compilePou_keeps h
  | functionBlock fb => exact compilePou_keeps h
  | classDecl cls =>
    unfold compileItem at h
    cases hi : collectInheritedVarBlocks mc cls.name.name with
    | error e =>
      simp only [hi] at h
      cases h
    | ok inherited =>
      simp only [hi, Bind.bind, Except.bind] at h
      cases hp : compilePou mc cls.name.name .cls (classBody mc.env inherited cls.varBlocks) with
      | error e =>
        rw [hp] at h
        cases h
      | ok mc1 =>
        rw [hp] at h
        exact (compilePou_keeps hp).trans (compileMethods_keeps cls.methods h)
  | interface _ | typeDeclaration _ | globalVarDeclaration _ =>
    obtain rfl := Except.ok.inj h
    exact .refl mc

theorem compileItems_keeps : ∀ (items : List TopLevelItem) {mc mc' : ModuleCompiler},
    compileItems mc items = .ok mc' → Keeps mc mc'
  | [], mc, mc', h => by
    obtain rfl := Except.ok.inj h
    exact .refl mc
  | item :: items, mc, mc', h => by
    unfold compileItems at h
    cases hi : compileItem mc item with
    | error e =>
      rw [hi] at h
      cases h
    | ok mc1 =>
      rw [hi] at h
      exact (compileItem_keeps item hi).trans (compileItems_keeps items h)

/-- A list of items is compiled in order. -/
theorem compileItems_append : ∀ (xs : List TopLevelItem) {ys : List TopLevelItem}
    {mc mc' : ModuleCompiler}, compileItems mc (xs ++ ys) = .ok mc' →
    ∃ mc1, compileItems mc xs = .ok mc1 ∧ compileItems mc1 ys = .ok mc'
  | [], ys, mc, mc', h => ⟨mc, rfl, h⟩
  | x :: xs, ys, mc, mc', h => by
    rw [List.cons_append] at h
    unfold compileItems at h
    cases hi : compileItem mc x with
    | error e =>
      rw [hi] at h
      cases h
    | ok mc1 =>
      rw [hi] at h
      obtain ⟨mc2, ha, hb⟩ := compileItems_append xs h
      refine ⟨mc2, ?_, hb⟩
      unfold compileItems
      rw [hi]
      exact ha

/-- Programs of other names leave the function at `i` alone. -/
theorem compileItems_other {i : Nat} {F : Function} (name : String) :
    ∀ (items : List TopLevelItem) {mc mc' : ModuleCompiler},
    (∀ item ∈ items, ∃ q, item = .program q ∧ eqIgnoreAsciiCase q.name.name name = false) →
    mc.functions[i]? = some F → nameKey F.name = nameKey name →
    compileItems mc items = .ok mc' → mc'.functions[i]? = some F
  | [], mc, mc', _, hi, _, h => by
    obtain rfl := Except.ok.inj h
    exact hi
  | item :: items, mc, mc', hq, hi, hn, h => by
    obtain ⟨q, rfl, hne⟩ := hq item (List.mem_cons_self ..)
    unfold compileItems at h
    cases hc : compileItem mc (.program q) with
    | error e =>
      rw [hc] at h
      cases h
    | ok mc1 =>
      rw [hc] at h
      refine compileItems_other name items (fun x hx => hq x (List.mem_cons_of_mem _ hx)) ?_ hn h
      obtain ⟨j, g, start, s, hpos, -, hset, -⟩ := compilePou_spec hc
      obtain ⟨hget, hname, -⟩ := findIdx_some hpos
      have hj : j ≠ i := by
        rintro rfl
        have hg : mc.functions[j]? = some g := hget
        rw [hi] at hg
        obtain rfl := Option.some.inj hg
        have hq' : nameKey q.name.name = nameKey name :=
          (eqIgnoreAsciiCase_iff.mp hname).symm.trans hn
        rw [← eqIgnoreAsciiCase_iff, hne] at hq'
        cases hq'
      rw [hset, List.getElem?_set_ne hj]
      exact hi

theorem compileGlobalInit_spec {mc mc' : ModuleCompiler} (h : compileGlobalInit mc = .ok mc') :
    ∃ extra, mc'.functions = mc.functions ++ extra ∧ mc'.globals = mc.globals := by
  unfold compileGlobalInit at h
  split at h
  · obtain rfl := Except.ok.inj h
    exact ⟨[], by simp, rfl⟩
  · cases hrun : globalInitBody mc.env mc.pendingGlobalInits (.new mc.typeDefs) with
    | error e =>
      rw [hrun] at h
      cases h
    | ok r =>
      rw [hrun] at h
      simp only [Bind.bind, Except.bind, Pure.pure, Except.pure, Except.ok.injEq] at h
      subst h
      exact ⟨_, rfl, rfl⟩

/-- **The body of a program is found under its name.** -/
theorem compile_program {source : SourceFile} {m : Module} {pre post : List TopLevelItem}
    {p : ProgramDecl} (hsrc : source.items = pre ++ .program p :: post)
    (hlast : ∀ q, .program q ∈ post → eqIgnoreAsciiCase q.name.name p.name.name = false)
    (h : compile source = .ok m) :
    ∃ i env typeDefs start s,
      m.findFunction p.name.name = some (i, s.finish p.name.name .program start) ∧
      pouBody env p.varBlocks p.body (.new typeDefs) = .ok (start, s) ∧
      env.globals = m.globals ∧ env.functions ≠ [] := by
  obtain ⟨others, programs, mc, h1, h2, h3, rfl⟩ := compile_stages h
  have hfilter : source.items.filter isProgram =
      pre.filter isProgram ++ .program p :: post.filter isProgram := by
    rw [hsrc, List.filter_append, List.filter_cons_of_pos (by rfl)]
  rw [hfilter] at h2
  obtain ⟨mc1, ha, hb⟩ := compileItems_append _ h2
  unfold compileItems at hb
  cases hc : compileItem mc1 (.program p) with
  | error e =>
    rw [hc] at hb
    cases hb
  | ok mc2 =>
    rw [hc] at hb
    obtain ⟨i, g, start, s, hpos, hbody, hset, hkeep⟩ := compilePou_spec hc
    have hk2 : Keeps mc2 programs := compileItems_keeps _ hb
    obtain ⟨extra, hfun, hglob⟩ := compileGlobalInit_spec h3
    have hlt : i < mc1.functions.length := findIdx_lt hpos
    -- the place of the program holds its body until the end of the pass
    have hplaced : programs.functions[i]? = some (s.finish p.name.name .program start) := by
      refine compileItems_other p.name.name _ ?_ ?_ rfl hb
      · intro item hitem
        obtain ⟨hmem, hprog⟩ := List.mem_filter.mp hitem
        cases item with
        | program q => exact ⟨q, rfl, hlast q hmem⟩
        | _ => cases hprog
      · rw [hset]
        exact List.getElem?_set_self hlt
    -- and it is still the first of its name
    have hfind : findIdx (fun f => eqIgnoreAsciiCase f.name p.name.name) programs.functions =
        some (i, s.finish p.name.name .program start) := by
      obtain ⟨f', hf', hget⟩ := findIdx_name (hkeep.trans hk2).names hpos
      rw [hplaced] at hget
      obtain rfl := Option.some.inj hget
      exact hf'
    refine ⟨i.toUInt16, mc1.env, mc1.typeDefs, start, s, ?_, hbody, ?_, ?_⟩
    · unfold Module.findFunction
      show Option.map _ (findIdx _ mc.functions) = _
      rw [hfun, findIdx_append extra hfind]
      rfl
    · show mc1.globals = mc.globals
      rw [hglob, hk2.globals, hkeep.globals]
    · intro hnil
      have hnil : mc1.functions = [] := hnil
      simp [hnil] at hlt

end

end RustPlc.Compiler
