import RustPlc.L3Vm.SafeRun
import RustPlc.L4Agree.InitialValues

/-!
# The first state of a class instance

`init_class_instance` (crates/st-engine/src/vm.rs:2299-2317) does not run the
code of a class. It knows constants and stores only, has a register file of
its own with 256 registers, narrows nothing, and starts from `Int(0)` whatever
the type of the variable.

Results:
* `initClassLoop_inits`: what `init_class_instance` makes of initialisers;
* `class_init_agrees_iff`: it agrees with a run of the same code exactly when
  every register it uses is in the file and every variable holds what it has
  for it;
* `negative_value_lost`: a variable of an accepted class that starts with -5
  starts with 0.
-/
namespace RustPlc.Agree

open RustPlc.Ir RustPlc.Syntax RustPlc.Compiler RustPlc.Engine RustPlc.Correct RustPlc.Analysis

/-! ## The interpreter of `init_class_instance` -/

/-- The register file of `init_class_instance` has the registers that the
instruction uses there. -/
def InFile : Instruction → Prop
  | .loadConst dst _ => dst.toNat < 256
  | .storeLocal _ src => src.toNat < 256
  | _ => True

instance : DecidablePred InFile := fun i => by
  unfold InFile
  split <;> infer_instance

/-- What the constants among the instructions make of register `r`. -/
def loaded (r : Reg) : List Instruction → Value → Value
  | [], v => v
  | .loadConst dst w :: is, v => loaded r is (if dst = r then w else v)
  | _ :: is, v => loaded r is v

/-- The constant that the code of the value loads into its register, else
`Int(0)`. -/
def constant (p : Initialiser) : Value := loaded p.reg p.code Value.dflt

/-- The fields that `init_class_instance` stores to. -/
def freshFields (ps : List Initialiser) (locals : List Value) : List Value :=
  ps.foldl (fun ls p => ls.set p.slot.toNat (constant p)) locals

/-- An instruction that is neither a constant, a store nor a return is skipped. -/
theorem initClassLoop_skip {n b : Nat} {i : Instruction} (hi : Ordinary b i)
    (hconst : ∀ dst v, i ≠ .loadConst dst v) (is : List Instruction) (regs locals : List Value) :
    Vm.initClassLoop n (i :: is) regs locals = Vm.initClassLoop n is regs locals := by
  cases i with
  | loadConst dst v => exact absurd rfl (hconst dst v)
  | storeLocal slot src => cases hi.storesLocal
  | ret r => cases hi.straight
  | retVoid => cases hi.straight
  | _ => rfl

theorem loaded_skip {i : Instruction} (hconst : ∀ dst v, i ≠ .loadConst dst v) (r : Reg)
    (is : List Instruction) (v : Value) : loaded r (i :: is) v = loaded r is v := by
  cases i with
  | loadConst dst w => exact absurd rfl (hconst dst w)
  | _ => rfl

/-- The code of a value is skipped but for its constants. -/
theorem initClassLoop_ordinary {n b : Nat} (rest : List Instruction) (locals : List Value) :
    ∀ (code : List Instruction) {regs : List Value}, (∀ i ∈ code, Ordinary b i) →
      (∀ i ∈ code, InFile i) → regs.length = 256 →
      ∃ regs', regs'.length = 256 ∧
        (∀ r : Reg, regs'[r.toNat]? = (regs[r.toNat]?).map (loaded r code)) ∧
        Vm.initClassLoop n (code ++ rest) regs locals = Vm.initClassLoop n rest regs' locals
  | [], regs, _, _, hlen => ⟨regs, hlen, fun r => by simp [loaded], rfl⟩
  | i :: is, regs, hord, hfile, hlen => by
    obtain ⟨hi, his⟩ := List.forall_mem_cons.mp hord
    obtain ⟨hin, hins⟩ := List.forall_mem_cons.mp hfile
    by_cases hconst : ∃ dst v, i = .loadConst dst v
    · obtain ⟨dst, v, rfl⟩ := hconst
      have hdst : dst.toNat < regs.length := by
        rw [hlen]
        exact hin
      have hset : (regs.set dst.toNat v).length = 256 := by rw [List.length_set, hlen]
      obtain ⟨regs', hlen', hregs, hloop⟩ := initClassLoop_ordinary rest locals is his hins hset
      refine ⟨regs', hlen', fun r => ?_, ?_⟩
      · rw [hregs r]
        by_cases hr : dst = r
        · subst hr
          simp [loaded, hdst]
        · have hne : dst.toNat ≠ r.toNat := fun h => hr (UInt16.toNat_inj.mp h)
          rw [List.getElem?_set_ne hne]
          simp [loaded, hr]
      · rw [← hloop]
        rw [List.cons_append, initClassLoop_loadConst, indexSet, if_pos hdst]
        rfl
    · simp only [not_exists] at hconst
      obtain ⟨regs', hlen', hregs, hloop⟩ := initClassLoop_ordinary rest locals is his hins hlen
      refine ⟨regs', hlen', fun r => ?_, ?_⟩
      · rw [hregs r]
        congr 1
        funext v
        exact (loaded_skip hconst r is v).symm
      · rw [List.cons_append, initClassLoop_skip hi hconst]
        exact hloop

/-- A constant that does not fit the register file stops the interpreter. -/
theorem initClassLoop_outside {n b : Nat} (rest : List Instruction) (locals : List Value) :
    ∀ (code : List Instruction) {regs : List Value}, (∀ i ∈ code, Ordinary b i) →
      (¬ ∀ i ∈ code, InFile i) → regs.length = 256 →
      ∃ t, Vm.initClassLoop n (code ++ rest) regs locals = .error t
  | [], regs, _, hfile, _ => absurd (List.forall_mem_nil _) hfile
  | i :: is, regs, hord, hfile, hlen => by
    obtain ⟨hi, his⟩ := List.forall_mem_cons.mp hord
    rw [List.forall_mem_cons] at hfile
    by_cases hconst : ∃ dst v, i = .loadConst dst v
    · obtain ⟨dst, v, rfl⟩ := hconst
      by_cases hin : InFile (.loadConst dst v)
      · have hdst : dst.toNat < regs.length := by
          rw [hlen]
          exact hin
        have hset : (regs.set dst.toNat v).length = 256 := by rw [List.length_set, hlen]
        obtain ⟨t, ht⟩ := initClassLoop_outside rest locals is his (fun h => hfile ⟨hin, h⟩) hset
        refine ⟨t, ?_⟩
        rw [← ht]
        rw [List.cons_append, initClassLoop_loadConst, indexSet, if_pos hdst]
        rfl
      · have hdst : ¬ dst.toNat < regs.length := by
          rw [hlen]
          exact hin
        refine ⟨.indexOutOfBounds, ?_⟩
        rw [List.cons_append, initClassLoop_loadConst, indexSet, if_neg hdst]
        rfl
    · simp only [not_exists] at hconst
      have hin : InFile i := by
        cases i with
        | loadConst dst v => exact absurd rfl (hconst dst v)
        | storeLocal slot src => cases hi.storesLocal
        | _ => trivial
      obtain ⟨t, ht⟩ := initClassLoop_outside rest locals is his (fun h => hfile ⟨hin, h⟩) hlen
      refine ⟨t, ?_⟩
      rw [List.cons_append, initClassLoop_skip hi hconst]
      exact ht

theorem loaded_other {r : Reg} : ∀ {code : List Instruction}, (∀ v, .loadConst r v ∉ code) →
    ∀ v, loaded r code v = v
  | [], _, v => rfl
  | i :: is, h, v => by
    have his : ∀ v, Instruction.loadConst r v ∉ is := fun w hw => h w (List.mem_cons_of_mem _ hw)
    by_cases hconst : ∃ dst w, i = .loadConst dst w
    · obtain ⟨dst, w, rfl⟩ := hconst
      have hne : dst ≠ r := by
        rintro rfl
        exact h w (List.mem_cons_self ..)
      rw [loaded, if_neg hne]
      exact loaded_other his v
    · simp only [not_exists] at hconst
      rw [loaded_skip hconst]
      exact loaded_other his v

/-- **What `init_class_instance` makes of the code of the initialisers.** It
stores the constants that stand for values, and nothing if a register is not in
its file. -/
theorem initClassLoop_inits [F64Ops] {env : ModuleEnv} {ps : List Initialiser} {n : Nat}
    {s s' : FunctionCompiler} (hc : InitCode env ps s s') : ∀ {regs locals : List Value},
      regs.length = 256 →
      (∀ r : Reg, s.nextReg.toNat ≤ r.toNat → r.toNat < 256 →
        regs[r.toNat]? = some Value.dflt) →
      (∀ p ∈ ps, p.slot.toNat < n ∧ p.slot.toNat < locals.length) → ∀ fields,
      Vm.initClassLoop n (ps.flatMap Initialiser.instructions ++ [.retVoid]) regs locals =
          .ok fields ↔
        (∀ i ∈ ps.flatMap Initialiser.instructions, InFile i) ∧
          fields = freshFields ps locals := by
  induction hc with
  | done hsame =>
    intro regs locals _ _ _ fields
    have hreturn : Vm.initClassLoop n [.retVoid] regs locals = .ok locals := rfl
    rw [List.flatMap_nil, List.nil_append, hreturn, Except.ok.injEq, eq_comm]
    exact (and_iff_right (List.forall_mem_nil _)).symm
  | @init p ps s s1 s2 s3 s' u hsame hready hvalue hcode hstore hrest ih =>
    intro regs locals hlen hregs hslots fields
    obtain ⟨hslot, hslots⟩ := List.forall_mem_cons.mp hslots
    have hord := (InitCode.init hsame hready hvalue hcode hstore hrest).ordinary p
      (List.mem_cons_self ..)
    have hfresh := (compileExpression_fresh env p.value).fresh hvalue
    have hsplit : ∀ (qs : List Initialiser),
        (p :: qs).flatMap Initialiser.instructions ++ [Instruction.retVoid] =
          p.code ++ (.storeLocal p.slot p.reg ::
            (qs.flatMap Initialiser.instructions ++ [.retVoid])) := by
      intro qs
      simp [Initialiser.instructions]
    have hall : (∀ i ∈ (p :: ps).flatMap Initialiser.instructions, InFile i) ↔
        (∀ i ∈ p.code, InFile i) ∧ p.reg.toNat < 256 ∧
          ∀ i ∈ ps.flatMap Initialiser.instructions, InFile i := by
      rw [List.flatMap_cons, List.forall_mem_append, Initialiser.instructions,
        List.forall_mem_append, List.forall_mem_singleton, and_assoc]
      rfl
    rw [hsplit, hall]
    by_cases hcodeIn : ∀ i ∈ p.code, InFile i
    · obtain ⟨regs', hlen', hregs', hloop⟩ := initClassLoop_ordinary (n := n)
        (.storeLocal p.slot p.reg :: (ps.flatMap Initialiser.instructions ++ [.retVoid])) locals
        p.code hord hcodeIn hlen
      rw [hloop]
      by_cases hreg : p.reg.toNat < 256
      · have hconst : regs'[p.reg.toNat]? = some (constant p) := by
          rw [hregs', hregs p.reg (by rw [← hsame.regs]; exact hfresh.1) hreg]
          rfl
        have hnext : ∀ r : Reg, s3.nextReg.toNat ≤ r.toNat → r.toNat < 256 →
            regs'[r.toNat]? = some Value.dflt := by
          intro r hr hlt
          rw [emit_next hstore] at hr
          have hold := (compileExpression_appends hvalue).regs
          rw [hsame.regs] at hold
          rw [hregs', hregs r (by omega) hlt, Option.map_some, loaded_other]
          intro v hv
          have := compileExpression_below hready hvalue hcode _ hv r rfl
          omega
        have hstep : Vm.initClassLoop n (.storeLocal p.slot p.reg ::
            (ps.flatMap Initialiser.instructions ++ [.retVoid])) regs' locals =
            Vm.initClassLoop n (ps.flatMap Initialiser.instructions ++ [.retVoid]) regs'
              (locals.set p.slot.toNat (constant p)) := by
          rw [initClassLoop_storeLocal hslot, index, hconst]
          rfl
        rw [hstep, ih hlen' hnext (fun q hq => by
          rw [List.length_set]
          exact hslots q hq) fields]
        have hfields : freshFields (p :: ps) locals =
            freshFields ps (locals.set p.slot.toNat (constant p)) := rfl
        rw [hfields]
        exact and_congr_left fun _ => ⟨fun h => ⟨hcodeIn, hreg, h⟩, fun h => h.2.2⟩
      · refine iff_of_false ?_ (fun h => hreg h.1.2.1)
        have hnone : regs'[p.reg.toNat]? = none := List.getElem?_eq_none (by omega)
        rw [initClassLoop_storeLocal hslot, index, hnone]
        exact fun h => by cases h
    · obtain ⟨t, ht⟩ := initClassLoop_outside (n := n)
        (.storeLocal p.slot p.reg :: (ps.flatMap Initialiser.instructions ++ [.retVoid])) locals
        p.code hord hcodeIn hlen
      rw [ht]
      exact iff_of_false (fun h => by cases h) (fun h => hcodeIn h.1.1)

/-! ## The constants -/

/-- A sign, a `NOT`, or an operator with two operands. -/
def isOperation : Expression → Bool
  | .unary _ _ _ => true
  | .binary _ _ _ _ => true
  | _ => false

section

variable [F64Ops] {env : ModuleEnv} {s s' : FunctionCompiler}

omit [F64Ops] in
theorem emitTo_appended {mk : Reg → Instruction} {r : Reg} (h : emitTo mk s = .ok (r, s')) :
    r = s.nextReg ∧ s'.instructions = s.instructions ++ [mk r] := by
  obtain ⟨dst, s1, h1, h2⟩ := bind_ok h
  obtain ⟨_, s2, h3, h4⟩ := bind_ok h2
  obtain ⟨rfl, rfl⟩ := pure_ok h4
  obtain ⟨rfl, rfl, -⟩ := allocReg_next h1
  obtain rfl := emit_eq h3
  exact ⟨rfl, rfl⟩

omit [F64Ops] in
/-- Code that ends with another instruction for a fresh register loads no
constant there. -/
theorem loaded_operation {mk : Reg → Instruction} {r : Reg} {new : List Instruction}
    (hbelow : ∀ i ∈ new, ∀ t, target i = some t → RegIn t s) (h : emitTo mk s = .ok (r, s'))
    (hmk : ∀ t v, mk r ≠ .loadConst t v) (v : Value) : loaded r (new ++ [mk r]) v = v := by
  refine loaded_other (fun w hw => ?_) v
  rcases List.mem_append.mp hw with hw | hw
  · have hlt := hbelow _ hw r rfl
    rw [(emitTo_appended h).1] at hlt
    exact Nat.lt_irrefl _ hlt
  · exact hmk r w (List.mem_singleton.mp hw).symm

/-- What the interpreter has for an initialiser: a literal as it is written, and
`Int(0)` for an operation. -/
def Constants (p : Initialiser) : Prop :=
  (∀ kind range v, p.value = .literal kind range → literalToValue kind = .ok v →
    constant p = v) ∧ (isOperation p.value = true → constant p = Value.dflt)

theorem compiled_constants {p : Initialiser} (hs : Ready env s)
    (h : compileExpression env p.value s = .ok (p.reg, s'))
    (hcode : s'.instructions = s.instructions ++ p.code) : Constants p := by
  unfold Constants constant
  cases hv : p.value with
  | literal kind range =>
    refine ⟨fun kind' range' v heq hval => ?_, fun h => (by cases h)⟩
    obtain ⟨rfl, rfl⟩ := Expression.literal.inj heq
    rw [hv] at h
    obtain ⟨w, s1, h1, h2⟩ := bind_ok h
    unfold literalValue at h1
    simp only [hval, Except.ok.injEq, Prod.mk.injEq] at h1
    obtain ⟨rfl, rfl⟩ := h1
    rw [← List.append_cancel_left ((emitTo_appended h2).2.symm.trans hcode)]
    simp [loaded]
  | unary op e range =>
    refine ⟨fun kind' range' v heq => (by cases heq), fun _ => ?_⟩
    rw [hv] at h
    obtain ⟨src, s1, h1, h2⟩ := bind_ok h
    obtain ⟨new, hnew, -⟩ := (compileExpression_appends h1).code
    obtain ⟨-, hlast⟩ := emitTo_appended h2
    rw [hnew, List.append_assoc] at hlast
    rw [← List.append_cancel_left (hlast.symm.trans hcode)]
    exact loaded_operation (compileExpression_below hs h1 hnew) h2
      (fun t v => by cases op <;> exact fun h => by cases h) _
  | binary op a b range =>
    refine ⟨fun kind' range' v heq => (by cases heq), fun _ => ?_⟩
    rw [hv] at h
    obtain ⟨ra, s1, h1, h⟩ := bind_ok h
    obtain ⟨rb, s2, h2, h3⟩ := bind_ok h
    obtain ⟨new1, hnew1, -⟩ := (compileExpression_appends h1).code
    obtain ⟨new2, hnew2, -⟩ := (compileExpression_appends h2).code
    obtain ⟨-, hlast⟩ := emitTo_appended h3
    rw [hnew2, hnew1, List.append_assoc, List.append_assoc, ← List.append_assoc new1] at hlast
    rw [← List.append_cancel_left (hlast.symm.trans hcode)]
    have hs1 := (compileExpression_emits env a s ra s1 hs h1).1.ready hs
    have hregs := (compileExpression_appends h2).regs
    refine loaded_operation (fun i hi t ht => ?_) h3
      (fun t v => by cases op <;> exact fun h => by cases h) _
    rcases List.mem_append.mp hi with hi | hi
    · have := compileExpression_below hs h1 hnew1 i hi t ht
      omega
    · exact compileExpression_below hs1 h2 hnew2 i hi t ht
  | _ => exact ⟨fun kind range v heq => (by cases heq), fun h => (by cases h)⟩

theorem init_constants {ps : List Initialiser} (h : InitCode env ps s s') :
    ∀ p ∈ ps, Constants p := by
  induction h with
  | done hsame => exact List.forall_mem_nil _
  | init hsame hready hvalue hcode hstore hrest ih =>
    exact List.forall_mem_cons.mpr ⟨compiled_constants hready hvalue hcode, ih⟩

end

/-! ## The two results -/

theorem initialisers_slots : ∀ (k : Nat) (values : List (Option Expression)) {slot : UInt16}
    {e : Expression}, (slot, e) ∈ initialisers k values → slot.toNat < k + values.length
  | _, [], _, _, h => by cases h
  | k, none :: values, slot, e, h => by
    have := initialisers_slots (k + 1) values h
    rw [List.length_cons]
    omega
  | k, some v :: values, slot, e, h => by
    rw [List.length_cons]
    rcases List.mem_cons.mp h with h | h
    · obtain ⟨rfl, -⟩ := Prod.mk.inj h
      have hmod : k.toUInt16.toNat ≤ k := Nat.mod_le _ _
      omega
    · have := initialisers_slots (k + 1) values h
      omega

section

variable [F64Ops] {env : ModuleEnv}

/-- The code of a class is that of its initialisers. -/
theorem classBody_inits {inherited own : List VarBlock} {typeDefs : List TypeDef} {start : Nat}
    {s : FunctionCompiler} (hf : env.functions ≠ [])
    (h : classBody env inherited own (.new typeDefs) = .ok (start, s)) :
    ∃ ps s', InitCode env ps (.new typeDefs) s' ∧ s = emitted s' .retVoid ∧
      start = s'.instructions.length ∧
      ps.map (fun p => (p.slot, p.value)) = initialisers 0 (initialValues (inherited ++ own)) ∧
      s.locals.slots.length = (initialValues (inherited ++ own)).length := by
  obtain ⟨_, s1, h1, h⟩ := bind_ok h
  obtain ⟨_, s2, h2, h⟩ := bind_ok h
  have h3 := currentPc_bind_ok h
  obtain ⟨_, s3, h4, h5⟩ := bind_ok h3
  obtain ⟨rfl, rfl⟩ := pure_ok h5
  obtain rfl := emit_eq h4
  have hs : Ready env (.new typeDefs) := ready_new typeDefs
  obtain ⟨hone, hlen1⟩ := compileVarBlocks_inits hf inherited hs h1
  have hs1 := (compileVarBlocksInner_emits hf true inherited _ _ _ hs h1).1.ready hs
  obtain ⟨htwo, hlen2⟩ := compileVarBlocks_inits hf own hs1 h2
  have hzero : (FunctionCompiler.new typeDefs).locals.slots.length = 0 := rfl
  rw [hlen1, hzero] at htwo hlen2
  rw [hzero] at hone
  obtain ⟨ps, hps, hmap⟩ := hone.append htwo
  have hvalues : initialValues (inherited ++ own) = initialValues inherited ++ initialValues own :=
    List.flatMap_append
  refine ⟨ps, s2, hps, rfl, rfl, ?_, ?_⟩
  · rw [hmap, hvalues, initialisers_append]
  · rw [hvalues, List.length_append]
    show s2.locals.slots.length = _
    omega

variable {i : UInt16} {d : Nat} {vm vm' : Vm} {f f' : CallFrame}

/-- **Two ways to initialise a class.** A run through the code of a class, from
the defaults of the types to its return, stores the value of each initialiser.
What `init_class_instance` computes is the same exactly when its constants and
stores use registers of its file only, and every variable holds the constant
that its initialiser loads, as it is written, or `Int(0)`. -/
theorem class_init_agrees_iff {inherited own : List VarBlock} {typeDefs : List TypeDef}
    {start : Nat} {s : FunctionCompiler} (name : String) {F : Function} (hf : env.functions ≠ [])
    (h : classBody env inherited own (.new typeDefs) = .ok (start, s))
    (hF : F = s.finish name .cls start) : ∃ ps : List Initialiser,
      ps.map (fun p => (p.slot, p.value)) = initialisers 0 (initialValues (inherited ++ own)) ∧
      F.instructions = ps.flatMap Initialiser.instructions ++ [.retVoid] ∧
      (∀ p ∈ ps, Constants p) ∧
      ∀ {i : UInt16} {d : Nat} {vm vm' : Vm} {f f' : CallFrame}, vm.func? i = some F → vm.Idle →
        f.locals = F.locals.defaults → F.registerCount.toNat ≤ f.registers.length →
        Crosses i d 0 F.bodyStartPc f f' vm vm' →
        ∃ vs, InitRun i d ps 0 f f' vm vm' vs ∧
          (Undisturbed i d (Between 0 F.bodyStartPc) vm vm' →
            f'.locals = executed F.locals ps vs F.locals.defaults) ∧
          (Vm.initClassInstance F (List.replicate F.locals.slots.length Value.dflt)
              F.locals.slots.length = .ok f'.locals ↔
            (∀ i ∈ F.instructions, InFile i) ∧
              f'.locals = freshFields ps (List.replicate F.locals.slots.length Value.dflt)) := by
  obtain ⟨ps, s', hps, rfl, rfl, hmap, hlen⟩ := classBody_inits hf h
  subst hF
  have hcode : s'.instructions = ps.flatMap Initialiser.instructions := hps.code
  have hall : (emitted s' .retVoid).instructions =
      ps.flatMap Initialiser.instructions ++ [.retVoid] := by
    rw [← hcode]
    rfl
  refine ⟨ps, hmap, hall, init_constants hps, ?_⟩
  intro i d vm vm' f f' hfunc hidle hlocals hregs hrun
  obtain ⟨vs, hvs, hend⟩ := init_runs hps ⟨[.retVoid], rfl⟩ hfunc hidle hregs hrun
  rw [hlocals] at hend
  refine ⟨vs, hvs, hend, ?_⟩
  have hslots : ∀ p ∈ ps, p.slot.toNat < (emitted s' .retVoid).locals.slots.length ∧
      p.slot.toNat < (List.replicate (emitted s' .retVoid).locals.slots.length
        Value.dflt).length := by
    intro p hp
    have hmem : (p.slot, p.value) ∈ initialisers 0 (initialValues (inherited ++ own)) := by
      rw [← hmap]
      exact List.mem_map_of_mem hp
    have := initialisers_slots _ _ hmem
    rw [List.length_replicate, hlen]
    omega
  have hblank : ∀ r : Reg, (FunctionCompiler.new typeDefs).nextReg.toNat ≤ r.toNat →
      r.toNat < 256 → (List.replicate 256 Value.dflt)[r.toNat]? = some Value.dflt :=
    fun r _ hr => by rw [List.getElem?_replicate, if_pos hr]
  have hloop := initClassLoop_inits hps List.length_replicate hblank hslots f'.locals
  have hfile : (∀ i ∈ ps.flatMap Initialiser.instructions ++ [Instruction.retVoid], InFile i) ↔
      ∀ i ∈ ps.flatMap Initialiser.instructions, InFile i := by
    rw [List.forall_mem_append]
    exact and_iff_left (List.forall_mem_singleton.mpr trivial)
  show Vm.initClassLoop (emitted s' .retVoid).locals.slots.length
      (emitted s' .retVoid).instructions (List.replicate 256 Value.dflt)
      (List.replicate (emitted s' .retVoid).locals.slots.length Value.dflt) = .ok f'.locals ↔
    (∀ i ∈ (emitted s' .retVoid).instructions, InFile i) ∧ f'.locals =
      freshFields ps (List.replicate (emitted s' .retVoid).locals.slots.length Value.dflt)
  rw [hall, hloop, hfile]

end

/-! ## Seven, and minus five -/

/-- The locals of the running frame when it comes to its body. -/
def localsAtBody [F64Ops] : Nat → Vm → Option (List Value)
  | 0, _ => none
  | fuel + 1, vm => match vm.callStack with
    | [] => none
    | f :: _ => match vm.func? f.funcIndex with
      | none => none
      | some F =>
        if f.pc = F.bodyStartPc then some f.locals
        else match vm.step with
          | .next vm' => localsAtBody fuel vm'
          | .halt _ => none

/-- What a run of function `i` from the defaults leaves in its locals. -/
def executedLocals [F64Ops] (fuel : Nat) (m : Module) (i : UInt16) : Option (List Value) :=
  (m.functions[i.toNat]?).bind fun F =>
    localsAtBody fuel ((Vm.new m .default).withStack [CallFrame.enter i F F.locals.defaults 0 none])

/-- A class with one variable and a method that returns it. -/
def startingSource (e : Expression) : SourceFile := ⟨[
  .classDecl (.plain "Counter" none [.of [.init "x" .int e]]
    [.plain "Get" (some .int) [] [.assign "Get" (.ofName "x")]]),
  .program ⟨"Main", [.of [.plain "y" .int, .plain "c" (.named "Counter")]],
    [.assign "y" (.functionCall ["c", "Get"] [] noRange)]⟩]⟩

/-- **A class variable that starts with -5 starts with 0.** The analyzer accepts
the class. -/
theorem negative_value_lost :
    ¬ ∀ (_ : F64Ops) (source : SourceFile) (m : Module) (i : UInt16) (F : Function),
      accepts source = true → compile source = .ok m → m.functions[i.toNat]? = some F →
      F.kind = .cls → ∀ fuel fields, executedLocals fuel m i = some fields →
      Vm.initClassInstance F (List.replicate F.locals.slots.length Value.dflt)
        F.locals.slots.length = .ok fields := by
  intro h
  let _ : F64Ops := default
  let source := startingSource (.unary .neg (.ofInt 5) noRange)
  have hacc : accepts source = true := by decide +kernel
  have hrun : yields source (fun m =>
      decide (executedLocals 100 m 0 = some [.int (-5)]) && m.functions.head?.any fun F =>
        decide (F.kind = .cls) && match Vm.initClassInstance F
            (List.replicate F.locals.slots.length Value.dflt) F.locals.slots.length with
          | .ok fields => decide (fields = [.int 0])
          | .error _ => false) = true := by
    decide +kernel
  obtain ⟨m, hm, hp⟩ := yields_iff.mp hrun
  obtain ⟨hexec, hp⟩ := Bool.and_eq_true_iff.mp hp
  obtain ⟨F, hF, hp⟩ := (Option.any_eq_true _ _).mp hp
  obtain ⟨hkind, hp⟩ := Bool.and_eq_true_iff.mp hp
  have hindex : m.functions[(0 : UInt16).toNat]? = some F := List.head?_eq_getElem?.symm.trans hF
  rw [h _ source m 0 F hacc hm hindex (of_decide_eq_true hkind) 100 _ (of_decide_eq_true hexec)]
    at hp
  cases of_decide_eq_true hp

/-- The code of a class with one variable that starts with 7. -/
def sevenClass : FunctionCompiler :=
  match @classBody default ⟨[stub "Counter" .cls], .empty, ∅⟩ []
      [.of [.init "x" .int (.ofInt 7)]] (.new []) with
  | .ok (_, s) => s
  | .error _ => .new []

def sevenFunction : Function := sevenClass.finish "Counter" .cls 2

/-- The machine after `n` iterations. -/
def sevenInit : Nat → Vm
  | 0 => (Vm.new ⟨[sevenFunction], .empty, [], []⟩ .default).withStack
    [CallFrame.enter 0 sevenFunction sevenFunction.locals.defaults 0 none]
  | n + 1 => left (@Vm.step default (sevenInit n))

/-- A class variable that starts with 7 starts with 7. -/
theorem seven_initialised : Vm.initClassInstance sevenFunction [.int 0] 1 = .ok [.int 7] ∧
    ∀ i ∈ sevenFunction.instructions, InFile i := by
  let _ : F64Ops := default
  have hbody : classBody ⟨[stub "Counter" .cls], .empty, ∅⟩ [] [.of [.init "x" .int (.ofInt 7)]]
    (.new []) = .ok (2, sevenClass) := rfl
  have hrun : Crosses 0 0 0 2 (CallFrame.enter 0 sevenFunction [.int 0] 0 none)
      ⟨0, [.int 7], [.int 7], 2, none, none⟩ (sevenInit 0) (sevenInit 2) :=
    { start := ⟨[], rfl, rfl, rfl⟩
      startPc := rfl
      run := .step (.inl ⟨_, ⟨[], rfl, rfl, rfl⟩, by unfold Between; decide⟩)
        (show (sevenInit 0).step = .next (sevenInit 1) from rfl)
        (.step (.inl ⟨_, ⟨[], rfl, rfl, rfl⟩, by unfold Between; decide⟩) rfl (.refl _))
      finish := ⟨[], rfl, rfl, rfl⟩
      finishPc := rfl }
  have hidle : (sevenInit 0).Idle := by
    intro f rest hstack
    obtain ⟨rfl, -⟩ := List.cons.inj hstack
    rfl
  obtain ⟨ps, -, -, -, hall⟩ :=
    class_init_agrees_iff "Counter" (List.cons_ne_nil _ _) hbody (F := sevenFunction) rfl
  obtain ⟨vs, -, -, hiff⟩ := hall (f := CallFrame.enter 0 sevenFunction [.int 0] 0 none)
    rfl hidle rfl (by decide) hrun
  have hinit : Vm.initClassInstance sevenFunction [.int 0] 1 = .ok [.int 7] := by decide +kernel
  exact ⟨hinit, (hiff.mp hinit).1⟩

end RustPlc.Agree
