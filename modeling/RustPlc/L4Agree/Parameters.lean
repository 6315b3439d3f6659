import RustPlc.L4Agree.VariableNames
import RustPlc.L3Vm.Calls
import Mathlib.Data.Fintype.Card

/-!
# Which parameter an argument goes to

The analyzer matches a named argument by its name and a positional one by its
position among the inputs. The compiler numbers the arguments by their position
in the call, and the machine writes the argument of number `k` into the `k`-th
variable of the callee, whatever section that is in.

Results:
* `compileCallArgs_fresh`: the arguments of a call are in registers of their own;
* `bindArgs_get`: what the callee starts with;
* `parameters_bound_iff`: the parameters hold their arguments exactly when the
  `k`-th argument is for the `k`-th variable.
-/
namespace RustPlc.Agree

open RustPlc.Ir RustPlc.Syntax RustPlc.Analysis RustPlc.Compiler RustPlc.Engine

/-! ## Registers of arguments -/

/-- The result is in a register that was not in use. -/
structure Fresh (x : CompileM Reg) : Prop where
  fresh : ∀ {s r s'}, x s = .ok (r, s') →
    s.nextReg.toNat ≤ r.toNat ∧ r.toNat < s'.nextReg.toNat

namespace Fresh

variable {α : Type}

theorem emitTo (g : Reg → Instruction) : Fresh (Compiler.emitTo g) := by
  constructor
  intro s r s' h
  obtain ⟨dst, s1, h1, h2⟩ := bind_ok h
  obtain ⟨rfl, rfl, hn⟩ := allocReg_next h1
  cases h2
  simp only at hn ⊢
  omega

theorem bind {x : CompileM α} {f : α → CompileM Reg} (hx : Steady x) (hf : ∀ a, Fresh (f a)) :
    Fresh (x >>= f) := by
  constructor
  intro s r s' h
  obtain ⟨a, s1, h1, h2⟩ := bind_ok h
  have h3 := (hx.same h1).regs
  have h4 := (hf a).fresh h2
  omega

theorem getBind {f : FunctionCompiler → CompileM Reg} (hf : ∀ a, Fresh (f a)) :
    Fresh (get >>= f) := ⟨fun h => (hf _).fresh (get_bind_ok h)⟩

end Fresh

section

variable (env : ModuleEnv)

theorem compileLoadVariable_fresh (name : String) : Fresh (compileLoadVariable env name) := by
  refine .getBind fun s => ?_
  split
  · exact .emitTo _
  · exact .emitTo _
  · exact .emitTo _

theorem applyPartialChain_fresh : ∀ (parts : List AccessPart) {lo : Nat} {reg r : Reg}
    {s s' : FunctionCompiler}, lo ≤ reg.toNat → reg.toNat < s.nextReg.toNat →
      applyPartialChain reg parts s = .ok (r, s') → lo ≤ r.toNat ∧ r.toNat < s'.nextReg.toNat
  | [], lo, reg, r, s, s', hlo, hlt, h => by
    cases h
    exact ⟨hlo, hlt⟩
  | .partialAccess kind index :: parts, lo, reg, r, s, s', hlo, hlt, h => by
    obtain ⟨reg1, s1, h1, h2⟩ := bind_ok h
    have hf := (Fresh.emitTo _).fresh h1
    exact applyPartialChain_fresh parts (by omega) hf.2 h2
  | .identifier _ :: parts, lo, reg, r, s, s', hlo, hlt, h =>
    applyPartialChain_fresh parts hlo hlt h
  | .index _ :: parts, lo, reg, r, s, s', hlo, hlt, h => applyPartialChain_fresh parts hlo hlt h
  | .deref :: parts, lo, reg, r, s, s', hlo, hlt, h => applyPartialChain_fresh parts hlo hlt h

theorem compileRoot_fresh (id : String) (parts : List AccessPart) :
    Fresh (compileRoot env id parts) := by
  constructor
  intro s r s' h
  obtain ⟨reg, s1, h1, h2⟩ := bind_ok h
  have hf := (compileLoadVariable_fresh env id).fresh h1
  exact applyPartialChain_fresh parts hf.1 hf.2 h2

theorem fieldRead_fresh (obj field : Identifier) (rest : List AccessPart) : Fresh (do
    let s ← get
    match s.fieldTarget env obj.name field.name with
    | some (slot, fieldIdx, _) => emitTo (.loadField · slot fieldIdx)
    | none => compileRoot env obj.name (.identifier field :: rest)) := by
  refine .getBind fun s => ?_
  cases s.fieldTarget env obj.name field.name with
  | none => exact compileRoot_fresh env _ _
  | some t => exact .emitTo _

theorem compileCall_fresh {args : ArgCompiler} (ha : ArgsSteady args) (parts : List String)
    (refVar : Option String) : Fresh (compileCall env parts refVar args) := by
  constructor
  intro s r s' h
  obtain ⟨dst, s1, h1, h⟩ := bind_ok h
  obtain ⟨target, s2, h2, h⟩ := bind_ok (get_bind_ok h)
  obtain ⟨u, s3, h3, h4⟩ := bind_ok h
  obtain ⟨rfl, rfl, hn⟩ := allocReg_next h1
  have e2 := ((Steady.liftFault _).same h2).regs
  have hst : Steady (compileCallTarget env { s with nextReg := s.nextReg + 1 } s.nextReg
      (qualifiedName parts) refVar args target) := by
    cases target with
    | none => exact compilePlainCall_steady ha _ _ _ refVar
    | some t => exact ha.all.bind fun _ => .emit _
  have e3 := (hst.same h3).regs
  cases h4
  simp only at hn e2 e3 ⊢
  omega

end

section

variable [F64Ops]

theorem compileVariable_fresh (env : ModuleEnv) : ∀ (parts : List AccessPart) (range : TextRange),
    Fresh (compileExpression env (.var parts range))
  | .identifier id :: .deref :: _, _ =>
    .bind (compileLoadVariable_steady env id.name) fun _ => .emitTo _
  | .identifier id :: .index (ix :: _) :: _, _ => by
    refine .getBind fun s => ?_
    cases s.findLocal id.name with
    | none => exact compileRoot_fresh env _ _
    | some slot => exact .bind (compileExpression_steady env ix) fun _ => .emitTo _
  | .identifier obj :: .identifier field :: .index (ix :: _) :: _, _ => by
    refine .getBind fun s => ?_
    cases s.fieldTarget env obj.name field.name with
    | none => exact compileRoot_fresh env _ _
    | some t => exact .bind (compileExpression_steady env ix) fun _ => .emitTo _
  | .identifier obj :: .identifier field :: [], _ => fieldRead_fresh env obj field _
  | .identifier obj :: .identifier field :: .identifier _ :: _, _ =>
    fieldRead_fresh env obj field _
  | .identifier obj :: .identifier field :: .index [] :: _, _ => fieldRead_fresh env obj field _
  | .identifier obj :: .identifier field :: .deref :: _, _ => fieldRead_fresh env obj field _
  | .identifier obj :: .identifier field :: .partialAccess _ _ :: _, _ =>
    fieldRead_fresh env obj field _
  | .identifier id :: .partialAccess _ _ :: _, _ =>
    .bind (compileLoadVariable_steady env id.name) fun _ => .emitTo _
  | .identifier id :: .index [] :: rest, _ => compileRoot_fresh env id.name _
  | .identifier id :: [], _ => compileRoot_fresh env id.name _
  | [], _ => .emitTo _
  | .deref :: _, _ => .emitTo _
  | .index _ :: _, _ => .emitTo _
  | .partialAccess _ _ :: _, _ => .emitTo _

/-- The value of an expression is in a register of its own. -/
theorem compileExpression_fresh (env : ModuleEnv) : ∀ e, Fresh (compileExpression env e)
  | .literal kind _ => .bind (literalValue_steady kind) fun _ => .emitTo _
  | .var parts range => compileVariable_fresh env parts range
  | .functionCall _ arguments _ =>
    compileCall_fresh env ⟨compileCallArgs_steady env 0 arguments,
      fun v i => compileCallArg_steady env v i arguments, compileTimeArgs_steady env arguments⟩ _ _
  | .unary _ operand _ => .bind (compileExpression_steady env operand) fun _ => .emitTo _
  | .binary _ left right _ => .bind (compileExpression_steady env left) fun _ =>
    .bind (compileExpression_steady env right) fun _ => .emitTo _
  | .parenthesized inner => compileExpression_fresh env inner
  | .superInstance _ => .emitTo _
  | .thisInstance _ => .emitTo _

theorem compileArgument_fresh (env : ModuleEnv) (arg : Argument) :
    Fresh (compileArgument env arg) := by
  cases arg with
  | positional e => exact compileExpression_fresh env e
  | named _ value => exact compileExpression_fresh env value

/-- The arguments are numbered in order, and each is in a register of its own. -/
structure Arguments (i : Nat) (n : Nat) (lo hi : Nat) (regs : List (UInt16 × Reg)) : Prop where
  length : regs.length = n
  numbers : ∀ k r, regs[k]? = some r → r.1 = (i + k).toUInt16
  bounds : ∀ r ∈ regs, lo ≤ r.2.toNat ∧ r.2.toNat < hi
  distinct : regs.Pairwise fun r r' => r.2.toNat < r'.2.toNat

theorem compileCallArgs_fresh (env : ModuleEnv) : ∀ (args : List Argument) (i : Nat)
    {s s' : FunctionCompiler} {regs : List (UInt16 × Reg)},
      compileCallArgs env i args s = .ok (regs, s') →
        Arguments i args.length s.nextReg.toNat s'.nextReg.toNat regs
  | [], i, s, s', regs, h => by
    cases h
    exact ⟨rfl, by simp, by simp, .nil⟩
  | arg :: args, i, s, s', regs, h => by
    obtain ⟨r, s1, h1, h⟩ := bind_ok h
    obtain ⟨rs, s2, h2, h3⟩ := bind_ok h
    cases h3
    have hr := (compileArgument_fresh env arg).fresh h1
    have hrs := compileCallArgs_fresh env args (i + 1) h2
    have hmono := ((compileCallArgs_steady env (i + 1) args).same h2).regs
    refine ⟨by simp [hrs.length], ?_, ?_, ?_⟩
    · intro k p hp
      cases k with
      | zero =>
        cases hp
        rfl
      | succ k =>
        rw [hrs.numbers k p (by simpa using hp)]
        congr 1
        omega
    · intro p hp
      rcases List.mem_cons.mp hp with rfl | hp
      · simp only
        omega
      · have := hrs.bounds p hp
        omega
    · refine List.pairwise_cons.mpr ⟨fun p hp => ?_, hrs.distinct⟩
      have := hrs.bounds p hp
      simp only
      omega

end

namespace Arguments

variable {i n lo hi : Nat} {regs : List (UInt16 × Reg)}

/-- Two arguments share no register. -/
theorem inj (h : Arguments i n lo hi regs) {j k : Nat} {p q : UInt16 × Reg}
    (hp : regs[j]? = some p) (hq : regs[k]? = some q) (heq : p.2 = q.2) : j = k := by
  obtain ⟨hj, hpj⟩ := List.getElem?_eq_some_iff.mp hp
  obtain ⟨hk, hqk⟩ := List.getElem?_eq_some_iff.mp hq
  have hpw := List.pairwise_iff_getElem.mp h.distinct
  rcases Nat.lt_trichotomy j k with hjk | hjk | hjk
  · have := hpw j k hj hk hjk
    rw [hpj, hqk, heq] at this
    exact absurd this (Nat.lt_irrefl _)
  · exact hjk
  · have := hpw k j hk hj hjk
    rw [hpj, hqk, heq] at this
    exact absurd this (Nat.lt_irrefl _)

/-- There are fewer arguments than registers. -/
theorem length_le (h : Arguments i n lo hi regs) : n ≤ hi - lo := by
  have hnd : (regs.map fun r => r.2.toNat).Nodup := by
    rw [List.Nodup, List.pairwise_map]
    exact h.distinct.imp fun hlt heq => absurd hlt (by omega)
  have hsub : (regs.map fun r => r.2.toNat) ⊆ List.range' lo (hi - lo) := by
    intro x hx
    obtain ⟨r, hr, rfl⟩ := List.mem_map.mp hx
    have := h.bounds r hr
    rw [List.mem_range'_1]
    omega
  have := (List.subperm_of_subset hnd hsub).length_le
  rw [List.length_map, List.length_range', h.length] at this
  exact this

end Arguments

/-! ## What the callee starts with -/

section

variable {f : CallFrame} {offset : Nat}

/-- The arguments are numbered from `i`. -/
def NumberedFrom (i : Nat) (regs : List (UInt16 × Reg)) : Prop :=
  ∀ k r, regs[k]? = some r → r.1.toNat = i + k

theorem NumberedFrom.tail {i : Nat} {r : UInt16 × Reg} {regs : List (UInt16 × Reg)}
    (h : NumberedFrom i (r :: regs)) : NumberedFrom (i + 1) regs := by
  intro k p hp
  have := h (k + 1) p (by simpa using hp)
  omega

/-- **The locals with the arguments written over them**: argument `k` is at
`offset + k`, everything else is as before. -/
structure Written (f : CallFrame) (base i : Nat) (regs : List (UInt16 × Reg))
    (before start : List Value) : Prop where
  fits : ∀ k < regs.length, base + i + k ≤ 65535
  length : start.length = before.length
  given : ∀ k r, regs[k]? = some r → ∃ v, f.regGet r.2 = .ok v ∧
    (base + i + k < before.length → start[base + i + k]? = some v)
  others : ∀ j, (∀ k < regs.length, j ≠ base + i + k) → start[j]? = before[j]?

theorem bindArgs_written : ∀ (regs : List (UInt16 × Reg)) {i : Nat} {before start : List Value},
    NumberedFrom i regs → Vm.bindArgs f offset regs before = .ok start →
      Written f offset.toUInt16.toNat i regs before start
  | [], i, before, start, _, h => by
    cases h
    exact ⟨by simp, rfl, by simp, fun _ _ => rfl⟩
  | r :: regs, i, before, start, hn, h => by
    have h0 : r.1.toNat = i := by simpa using hn 0 r rfl
    unfold Vm.bindArgs at h
    simp only [h0] at h
    split at h
    · cases h
    · next hfit =>
      cases hv : f.regGet r.2 with
      | error e => rw [hv] at h; cases h
      | ok v =>
        rw [hv] at h
        have ih := bindArgs_written regs hn.tail h
        refine ⟨?_, ?_, ?_, ?_⟩
        · intro k hk
          cases k with
          | zero => omega
          | succ k =>
            have := ih.fits k (by simpa using hk)
            omega
        · rw [ih.length, List.length_set]
        · intro k p hp
          cases k with
          | zero =>
            cases hp
            refine ⟨v, hv, fun hlt => ?_⟩
            rw [ih.others _ fun k _ => by omega]
            exact List.getElem?_set_self hlt
          | succ k =>
            obtain ⟨w, hw, hs⟩ := ih.given k p (by simpa using hp)
            refine ⟨w, hw, fun hlt => ?_⟩
            rw [show offset.toUInt16.toNat + i + (k + 1) = offset.toUInt16.toNat + (i + 1) + k by
              omega] at hlt ⊢
            exact hs (by simpa using hlt)
        · intro j hj
          rw [ih.others j fun k hk => by
            have := hj (k + 1) (by simpa using hk)
            omega]
          have := hj 0 (by simp)
          rw [List.getElem?_set_ne (by omega)]

/-- Arguments whose numbers fit and whose registers exist are bound. -/
theorem bindArgs_ok : ∀ (regs : List (UInt16 × Reg)) {i : Nat} (before : List Value),
    NumberedFrom i regs → (∀ r ∈ regs, ∃ v, f.regGet r.2 = .ok v) →
      (∀ k < regs.length, offset.toUInt16.toNat + i + k ≤ 65535) →
        ∃ start, Vm.bindArgs f offset regs before = .ok start
  | [], i, before, _, _, _ => ⟨before, rfl⟩
  | r :: regs, i, before, hn, hv, hfit => by
    have h0 : r.1.toNat = i := by simpa using hn 0 r rfl
    obtain ⟨v, hr⟩ := hv r List.mem_cons_self
    have hle := hfit 0 (by simp)
    unfold Vm.bindArgs
    simp only [h0, hr]
    rw [if_neg (by omega)]
    exact bindArgs_ok regs _ hn.tail (fun p hp => hv p (List.mem_cons_of_mem _ hp)) fun k hk => by
      have := hfit (k + 1) (by simpa using hk)
      omega

end

/-! ## Matching -/

/-- The parameters the analyzer matches the arguments to: a named one by its
name, a positional one by its position among the positional ones. mirrors
crates/st-semantics/src/analyze.rs:1908-1996 -/
def matchedParams (params : List ParamDef) : Nat → List Argument → List (Option ParamDef)
  | _, [] => []
  | i, .named name _ :: args => findParam params name.name :: matchedParams params i args
  | i, .positional _ :: args => params[i]? :: matchedParams params (i + 1) args

theorem matchedParams_length (params : List ParamDef) : ∀ (args : List Argument) (i : Nat),
    (matchedParams params i args).length = args.length
  | [], _ => rfl
  | .named _ _ :: args, i => by simp [matchedParams, matchedParams_length params args]
  | .positional _ :: args, i => by simp [matchedParams, matchedParams_length params args]

/-- A matched parameter is one of the parameters. -/
theorem matchedParams_mem {params : List ParamDef} {p : ParamDef} :
    ∀ (args : List Argument) (i : Nat), some p ∈ matchedParams params i args → p ∈ params
  | [], _, h => by cases h
  | .named name _ :: args, i, h => by
    rcases List.mem_cons.mp h with h | h
    · exact List.mem_of_find?_eq_some h.symm
    · exact matchedParams_mem args i h
  | .positional _ :: args, i, h => by
    rcases List.mem_cons.mp h with h | h
    · exact List.mem_of_getElem? h.symm
    · exact matchedParams_mem args (i + 1) h

/-- **Arguments that are accepted are matched.** -/
theorem checkArgs_matched {params : List ParamDef} {callee : String} : ∀ (args : List Argument)
    (seen : List String) (i : Nat) (a : Analyzer), NoError (checkArgs params callee seen i args a).2 →
      ∀ o ∈ matchedParams params i args, o.isSome = true
  | [], _, _, _, _, o, ho => by cases ho
  | .named name value :: rest, seen, i, a, h, o, ho => by
    rw [checkArgs] at h
    by_cases hseen : seen.contains (toUppercase name.name) = true
    · rw [if_pos hseen] at h
      exact absurd ((checkArgs_silent params callee seen i rest).noError h) error_noError
    · rw [if_neg hseen] at h
      cases hp : findParam params name.name with
      | none =>
        rw [hp] at h
        exact absurd ((checkArgs_silent params callee _ i rest).noError h) error_noError
      | some p =>
        rw [hp] at h
        rcases List.mem_cons.mp ho with rfl | ho
        · rw [hp]
          rfl
        · exact checkArgs_matched rest _ i _ h o ho
  | .positional e :: rest, seen, i, a, h, o, ho => by
    rw [checkArgs] at h
    cases hp : params[i]? with
    | none =>
      rw [hp] at h
      exact absurd ((checkArgs_silent params callee seen i rest).noError h) error_noError
    | some p =>
      rw [hp] at h
      rcases List.mem_cons.mp ho with rfl | ho
      · rw [hp]
        rfl
      · exact checkArgs_matched rest seen (i + 1) _ h o ho

/-! ## Parameters and variables -/

/-- The callee starts as the analyzer matched the arguments: each parameter holds
its argument, every other variable what it held before. -/
structure Bound (f : CallFrame) (matched : List (Option ParamDef)) (regs : List (UInt16 × Reg))
    (place : String → Option Nat) (before start : List Value) : Prop where
  given : ∀ (k : Nat) (p : ParamDef) (r : UInt16 × Reg) (t : Nat), matched[k]? = some (some p) →
    regs[k]? = some r → place p.name = some t → ∃ v, f.regGet r.2 = .ok v ∧ start[t]? = some v
  others : ∀ j, (∀ p : ParamDef, some p ∈ matched → place p.name ≠ some j) → start[j]? = before[j]?

/-- A caller whose registers hold these values. -/
def frameWith (g : Nat → Value) : CallFrame where
  funcIndex := 0
  registers := (List.range 65536).map g
  locals := []
  pc := 0
  returnReg := none
  instanceSlot := none

theorem frameWith_regGet (g : Nat → Value) (r : Reg) : (frameWith g).regGet r = .ok (g r.toNat) := by
  have hlt : r.toNat < 65536 := r.toNat_lt
  simp [CallFrame.regGet, frameWith, index, List.getElem?_map, List.getElem?_range hlt]

/-- The argument of number `k` is for the variable `k` places after `offset`. -/
def InPlace (matched : List (Option ParamDef)) (place : String → Option Nat) (offset : Nat) : Prop :=
  ∀ (k : Nat) (p : ParamDef), matched[k]? = some (some p) →
    place p.name = some (offset + k) ∧ offset + k < 65536

section

variable {matched : List (Option ParamDef)} {regs : List (UInt16 × Reg)}
  {place : String → Option Nat} {offset lo hi : Nat} {before : List Value}

theorem Arguments.numberedFrom {n : Nat} (h : Arguments 0 n lo hi regs) (hn : n < 65536) :
    NumberedFrom 0 regs := by
  intro k r hr
  have hk := (List.getElem?_eq_some_iff.mp hr).1
  rw [h.length] at hk
  rw [h.numbers k r hr, Nat.zero_add, toNat_toUInt16 (by omega)]

/-- A value that is not there. -/
theorem exists_other (o : Option Value) : ∃ v, o ≠ some v ∧ v ≠ .int 2 := by
  by_cases h : o = some (.int 0)
  · exact ⟨.int 1, by rw [h]; decide, by decide⟩
  · exact ⟨.int 0, h, by decide⟩

/-- What is bound whatever the arguments are is in place. -/
theorem inPlace_of_bound (hargs : Arguments 0 matched.length lo hi regs) (hhi : hi < 65536)
    (hplace : ∀ p : ParamDef, some p ∈ matched → ∃ t, place p.name = some t ∧ offset ≤ t)
    (h : ∀ f : CallFrame, (∀ r ∈ regs, ∃ v, f.regGet r.2 = .ok v) →
      ∃ start, Vm.bindArgs f offset regs before = .ok start ∧
        Bound f matched regs place before start) : InPlace matched place offset := by
  have hn : matched.length < 65536 := by
    have := hargs.length_le
    omega
  have hnum := hargs.numberedFrom hn
  intro k p hp
  obtain ⟨t, ht, hle⟩ := hplace p (List.mem_of_getElem? hp)
  have hk : k < regs.length := by
    rw [hargs.length]
    exact (List.getElem?_eq_some_iff.mp hp).1
  obtain ⟨r, hr⟩ : ∃ r, regs[k]? = some r := ⟨_, List.getElem?_eq_getElem hk⟩
  -- a value in the register of this argument that is nowhere else
  obtain ⟨v, hv, hv2⟩ := exists_other before[t]?
  let g : Nat → Value := fun n => if n = r.2.toNat then v else .int 2
  obtain ⟨start, hs, hb⟩ := h (frameWith g) fun r _ => ⟨_, frameWith_regGet g r.2⟩
  have hw := bindArgs_written regs hnum hs
  obtain ⟨w, hw1, hst⟩ := hb.given k p r t hp hr ht
  rw [frameWith_regGet] at hw1
  have hwv : w = v := by simpa [g] using (Except.ok.inj hw1).symm
  subst hwv
  -- so an argument was written there, and it can only be this one
  have hex : ∃ j < regs.length, t = offset.toUInt16.toNat + 0 + j := by
    by_contra hne
    rw [hw.others t fun j hj heq => hne ⟨j, hj, heq⟩] at hst
    exact hv hst
  obtain ⟨j, hj, hjt⟩ := hex
  obtain ⟨rj, hrj⟩ : ∃ rj, regs[j]? = some rj := ⟨_, List.getElem?_eq_getElem hj⟩
  obtain ⟨u, hu, hset⟩ := hw.given j rj hrj
  have hlen : t < before.length := by
    rw [← hw.length]
    exact (List.getElem?_eq_some_iff.mp hst).1
  rw [← hjt] at hset
  have huw : u = w := Option.some.inj ((hset hlen).symm.trans hst)
  subst huw
  have hjk : j = k := by
    refine hargs.inj hrj hr ?_
    rw [frameWith_regGet] at hu
    have hg : g rj.2.toNat = u := Except.ok.inj hu
    by_contra hne
    have : rj.2.toNat ≠ r.2.toNat := fun heq => hne (UInt16.toNat_inj.mp heq)
    simp only [g, if_neg this] at hg
    exact hv2 hg.symm
  subst hjk
  have hfit := hw.fits j hj
  rw [Nat.toUInt16, UInt16.toNat_ofNat'] at hjt hfit
  have hoff : offset % 65536 = offset := by omega
  rw [hoff] at hjt hfit
  exact ⟨by rw [ht, hjt]; simp, by omega⟩

/-- What is in place is bound. -/
theorem bound_of_inPlace (hargs : Arguments 0 matched.length lo hi regs) (hhi : hi < 65536)
    (hall : ∀ o ∈ matched, o.isSome = true)
    (hroom : InPlace matched place offset → offset + matched.length ≤ before.length)
    (h : InPlace matched place offset) {f : CallFrame}
    (hregs : ∀ r ∈ regs, ∃ v, f.regGet r.2 = .ok v) :
    ∃ start, Vm.bindArgs f offset regs before = .ok start ∧
      Bound f matched regs place before start := by
  have hn : matched.length < 65536 := by
    have := hargs.length_le
    omega
  have hnum := hargs.numberedFrom hn
  have hmatched : ∀ k < matched.length, ∃ p, matched[k]? = some (some p) := by
    intro k hk
    have hget := List.getElem?_eq_getElem hk
    obtain ⟨p, hp⟩ := Option.isSome_iff_exists.mp (hall _ (List.getElem_mem hk))
    exact ⟨p, by rw [hget, hp]⟩
  by_cases hempty : regs = []
  · subst hempty
    have hzero : matched = [] := List.length_eq_zero_iff.mp hargs.length.symm
    subst hzero
    exact ⟨before, rfl, by simp, fun _ _ => rfl⟩
  have hpos : 0 < matched.length := by
    rw [← hargs.length]
    exact List.length_pos_iff.mpr hempty
  have hfits : ∀ k < matched.length, offset + k < 65536 := by
    intro k hk
    obtain ⟨p, hp⟩ := hmatched k hk
    exact (h k p hp).2
  have hoff : offset.toUInt16.toNat = offset := toNat_toUInt16 (by
    have := hfits 0 hpos
    omega)
  have hok : ∃ start, Vm.bindArgs f offset regs before = .ok start := by
    refine bindArgs_ok regs before hnum hregs fun k hk => ?_
    rw [hargs.length] at hk
    have := hfits k hk
    omega
  obtain ⟨start, hs⟩ := hok
  have hw := bindArgs_written regs hnum hs
  rw [hoff] at hw
  refine ⟨start, hs, ?_, ?_⟩
  · intro k p r t hp hr ht
    obtain ⟨v, hv, hset⟩ := hw.given k r hr
    have hk : k < matched.length := (List.getElem?_eq_some_iff.mp hp).1
    rw [(h k p hp).1] at ht
    cases ht
    have := hroom h
    exact ⟨v, hv, by simpa using hset (by omega)⟩
  · intro j hj
    refine hw.others j fun k hk heq => ?_
    rw [hargs.length] at hk
    obtain ⟨p, hp⟩ := hmatched k hk
    exact hj p (List.mem_of_getElem? hp) (by rw [(h k p hp).1, heq]; simp)

end

/-! ## Native function blocks -/

/-- mirrors crates/st-comm-api/src/profile.rs:123-141 -/
inductive FieldDataType where
  | bool | sint | int | dint | lint | usint | uint | udint | ulint | real | lreal
  | byte | word | dword | lword | string | time
  deriving DecidableEq, Repr

/-- mirrors crates/st-comm-api/src/native_fb.rs:333-351 -/
def FieldDataType.varType : FieldDataType → VarType
  | .bool => .bool
  | .sint | .int | .dint | .lint => .int
  | .usint | .uint | .udint | .ulint | .byte | .word | .dword | .lword => .uint
  | .real | .lreal => .real
  | .string => .string
  | .time => .time

/-- mirrors crates/st-comm-api/src/native_fb.rs:354-368 -/
def FieldDataType.intWidth : FieldDataType → IntWidth
  | .sint => .i8
  | .usint | .byte => .u8
  | .int => .i16
  | .uint | .word => .u16
  | .dint => .i32
  | .udint | .dword => .u32
  | .lint => .i64
  | .ulint | .lword => .u64
  | _ => .none

/-- mirrors crates/st-semantics/src/analyze.rs:2372-2394 -/
def FieldDataType.ty : FieldDataType → Ty
  | .bool => .elementary .bool
  | .sint => .elementary .sint
  | .int => .elementary .int
  | .dint => .elementary .dint
  | .lint => .elementary .lint
  | .usint => .elementary .usint
  | .uint => .elementary .uint
  | .udint => .elementary .udint
  | .ulint => .elementary .ulint
  | .real => .elementary .real
  | .lreal => .elementary .lreal
  | .byte => .elementary .byte
  | .word => .elementary .word
  | .dword => .elementary .dword
  | .lword => .elementary .lword
  | .string => .string false none
  | .time => .elementary .time

/-- mirrors crates/st-comm-api/src/native_fb.rs:20-36; `input` for the kind
`VarInput`. -/
structure NativeFbField where
  name : String
  dataType : FieldDataType
  input : Bool
  dimensions : Option (List (Int64 × Int64))

/-- mirrors crates/st-comm-api/src/native_fb.rs:41-47 -/
structure NativeFbLayout where
  typeName : String
  fields : List NativeFbField

/-- The inputs of a native function block.
mirrors crates/st-semantics/src/analyze.rs:497-531 -/
def NativeFbLayout.params (l : NativeFbLayout) : List ParamDef :=
  (l.fields.filter (·.input)).map fun f =>
    ⟨f.name, match f.dimensions with
      | some dims => .array dims f.dataType.ty
      | none => f.dataType.ty, .varInput⟩

/-- The number of values of a field. -/
def NativeFbField.size (f : NativeFbField) : Nat :=
  match f.dimensions with
  | some dims => (dims.foldl (fun n (d : Int64 × Int64) => n * (d.2 - d.1 + 1).toUInt64) 1).toNat
  | none => 1

/-- mirrors crates/st-comm-api/src/native_fb.rs:377-426; `td` is the number the
next array type gets. -/
def layoutSlots : Nat → Nat → List NativeFbField → List VarSlot
  | _, _, [] => []
  | td, offset, f :: fs =>
    { name := f.name
      ty := if f.dimensions.isSome then .array td.toUInt16 else f.dataType.varType
      offset := offset
      size := f.size
      retain := false
      persistent := false
      intWidth := f.dataType.intWidth } ::
    layoutSlots (if f.dimensions.isSome then td + 1 else td) (offset + f.size) fs

def layoutToMemoryLayout (l : NativeFbLayout) (td : Nat) : MemoryLayout :=
  ⟨layoutSlots td 0 l.fields⟩

/-! ## Calls -/

/-- The number of a variable in a list of names that starts at `offset`. -/
def placeFrom (offset : Nat) (names : List String) (x : String) : Option Nat :=
  (globalSlot names x).map (offset + ·)

/-- Where the values of a field of a native block start. -/
def nativePlace (l : MemoryLayout) (x : String) : Option Nat :=
  (findIdx (fun s => eqIgnoreAsciiCase s.name x) l.slots).map fun p => p.2.offset

def blockNames (blocks : List VarBlock) : List String := (kindNames blocks).map (·.2)

section

variable [F64Ops]

/-- An instruction that calls a compiled callee: its arguments, the parameters
the analyzer knows, where the variables of the callee are, and the locals the
arguments are written over, from `offset` on. -/
inductive Invokes (vm : Vm) : Instruction → List (UInt16 × Reg) → List ParamDef →
    (String → Option Nat) → Nat → List Value → Prop
  | function {f : FunctionDecl} {t : SymbolTable} {env : ModuleEnv} {typeDefs : List TypeDef}
    {start : Nat} {s : FunctionCompiler} {fi : UInt16} {dst : Reg} {regs : List (UInt16 × Reg)}
    (compiled : functionBody env f (.new typeDefs) = .ok (start, s))
    (callee : vm.func? fi = some (s.finish f.name.name .function start)) :
    Invokes vm (.call fi dst regs) regs (collectParams t f.varBlocks)
      (placeFrom 0 (blockNames f.varBlocks)) 0 s.locals.defaults
  | functionBlock {fb : FunctionBlockDecl} {t : SymbolTable} {env : ModuleEnv}
    {typeDefs : List TypeDef} {start : Nat} {s : FunctionCompiler} {slot fi : UInt16}
    {regs : List (UInt16 × Reg)}
    (compiled : pouBody env fb.varBlocks fb.body (.new typeDefs) = .ok (start, s))
    (callee : vm.func? fi = some (s.finish fb.name.name .functionBlock start))
    (user : fi ∉ vm.module.nativeFbIndices) :
    Invokes vm (.callFb slot fi regs) regs (collectParamsByKind t isInputKind fb.varBlocks)
      (placeFrom 0 (blockNames fb.varBlocks)) 0
      (vm.instanceLocals (vm.instanceKey slot) fi (s.finish fb.name.name .functionBlock start))
  | native {l : NativeFbLayout} {td : Nat} {func : Function} {slot fi : UInt16}
    {regs : List (UInt16 × Reg)} (callee : vm.func? fi = some func)
    (layout : func.locals = layoutToMemoryLayout l td) (native : fi ∈ vm.module.nativeFbIndices) :
    Invokes vm (.callFb slot fi regs) regs l.params (nativePlace func.locals) 0
      (vm.instanceLocals (vm.instanceKey slot) fi func)
  | method {cls : ClassDecl} {m : MethodDecl} {t : SymbolTable} {inherited : List VarBlock}
    {env env' : ModuleEnv} {typeDefs typeDefs' : List TypeDef} {start start' : Nat}
    {s s' : FunctionCompiler} {slot ci fi ci' : UInt16} {dst : Reg} {regs : List (UInt16 × Reg)}
    {inst : Function} {before : List Value} {vm' : Vm}
    (compiled : methodBody env inherited cls.varBlocks m (.new typeDefs) = .ok (start, s))
    (callee : vm.func? fi = some (s.finish (methodName cls m) .method start))
    (ofClass : classBody env' inherited cls.varBlocks (.new typeDefs') = .ok (start', s'))
    (defining : vm.module.findFunction cls.name.name = some (ci', s'.finish cls.name.name .cls start'))
    (identifier : '.' ∉ cls.name.name.toList) (ofInstance : vm.func? ci = some inst)
    (state : vm.methodState (vm.instanceKey slot) inst s'.locals.slots.length s.locals.defaults =
      .ok (before, vm')) :
    Invokes vm (.callMethod slot ci fi dst regs) regs (collectParams t m.varBlocks)
      (placeFrom s'.locals.slots.length (blockNames m.varBlocks)) s'.locals.slots.length before

/-- What an invocation needs to know of its callee: every parameter has a place,
and arguments in place have room. -/
structure Roomy (params : List ParamDef) (place : String → Option Nat) (offset : Nat)
    (before : List Value) : Prop where
  places : ∀ p ∈ params, ∃ t, place p.name = some t ∧ offset ≤ t
  room : ∀ matched : List (Option ParamDef), (∀ o ∈ matched, o.isSome = true) →
    InPlace matched place offset → offset + matched.length ≤ before.length

omit [F64Ops] in
theorem globalSlot_lt {names : List String} {x : String} {i : Nat} (h : globalSlot names x = some i) :
    i < names.length := by
  obtain ⟨⟨j, n⟩, hf, rfl⟩ := Option.map_eq_some_iff.mp h
  exact findIdx_lt hf

omit [F64Ops] in
theorem mem_blockNames {t : SymbolTable} {q : VarKind → Bool} {blocks : List VarBlock} {p : ParamDef}
    (h : p ∈ collectParamsByKind t q blocks) : p.name ∈ blockNames blocks := by
  obtain ⟨k, -, hk⟩ := mem_collectParams.mp (List.mem_map_of_mem h)
  exact List.mem_map.mpr ⟨(k, p.name), hk, rfl⟩

omit [F64Ops] in
/-- Variables in the order of their declarations. -/
theorem roomy_blocks {t : SymbolTable} {q : VarKind → Bool} {blocks : List VarBlock} {offset : Nat}
    {before : List Value} (hlen : offset + (blockNames blocks).length ≤ before.length) :
    Roomy (collectParamsByKind t q blocks) (placeFrom offset (blockNames blocks)) offset before := by
  constructor
  · intro p hp
    obtain ⟨i, hi⟩ := globalSlot_isSome (x := p.name) ⟨p.name, mem_blockNames hp, rfl⟩
    exact ⟨offset + i, by rw [placeFrom, hi]; rfl, by omega⟩
  · intro matched hall h
    cases hn : matched.length with
    | zero => omega
    | succ n =>
      have hlt : n < matched.length := by omega
      obtain ⟨p, hp⟩ := Option.isSome_iff_exists.mp (hall _ (List.getElem_mem hlt))
      have hplace := (h n p (by rw [List.getElem?_eq_getElem hlt, hp])).1
      obtain ⟨i, hi, heq⟩ := Option.map_eq_some_iff.mp hplace
      have := globalSlot_lt hi
      omega

omit [F64Ops] in
theorem layoutSlots_names : ∀ (fs : List NativeFbField) (td offset : Nat),
    (layoutSlots td offset fs).map (·.name) = fs.map (·.name)
  | [], _, _ => rfl
  | f :: fs, td, offset => by
    rw [layoutSlots, List.map_cons, List.map_cons, layoutSlots_names fs]

omit [F64Ops] in
/-- The fields of a native function block. -/
theorem roomy_native {l : NativeFbLayout} {td : Nat} {before : List Value}
    (hlen : (layoutToMemoryLayout l td).slots.length ≤ before.length) :
    Roomy l.params (nativePlace (layoutToMemoryLayout l td)) 0 before := by
  constructor
  · intro p hp
    obtain ⟨f, hf, rfl⟩ := List.mem_map.mp hp
    have hmem : f.name ∈ (layoutToMemoryLayout l td).slots.map (·.name) := by
      rw [layoutToMemoryLayout, layoutSlots_names]
      exact List.mem_map_of_mem (List.mem_filter.mp hf).1
    obtain ⟨s, hs, hname⟩ := List.mem_map.mp hmem
    unfold nativePlace
    cases hfind : findIdx (fun s => eqIgnoreAsciiCase s.name f.name)
        (layoutToMemoryLayout l td).slots with
    | none =>
      have := findIdx_none hfind s hs
      rw [hname, eqIgnoreAsciiCase_upper.mpr rfl] at this
      cases this
    | some r => exact ⟨_, rfl, Nat.zero_le _⟩
  · -- different arguments go to different fields
    intro matched hall h
    have hex : ∀ k : Fin matched.length, ∃ i : Fin (layoutToMemoryLayout l td).slots.length,
        ((layoutToMemoryLayout l td).slots.get i).offset = k := by
      intro k
      obtain ⟨p, hp⟩ := Option.isSome_iff_exists.mp (hall _ (List.getElem_mem k.isLt))
      have hplace := (h k p (by rw [List.getElem?_eq_getElem k.isLt, hp])).1
      obtain ⟨⟨i, s⟩, hi, heq⟩ := Option.map_eq_some_iff.mp hplace
      have hget := (findIdx_some hi).1
      obtain ⟨hlt, hs⟩ := List.getElem?_eq_some_iff.mp hget
      refine ⟨⟨i, hlt⟩, ?_⟩
      rw [List.get_eq_getElem, hs]
      simpa using heq
    choose g hg using hex
    have hinj : Function.Injective g := by
      intro k k' hkk
      have h1 := hg k
      rw [hkk, hg k'] at h1
      exact Fin.ext h1.symm
    have := Fintype.card_le_of_injective g hinj
    simp only [Fintype.card_fin] at this
    omega

omit [F64Ops] in
theorem instanceLocals_length (vm : Vm) (key : InstanceKey) (fi : UInt16) (func : Function) :
    func.locals.slots.length ≤ (vm.instanceLocals key fi func).length := by
  simp only [Vm.instanceLocals, Vm.padTo, List.length_append, List.length_replicate]
  omega

omit [F64Ops] in
theorem mergePrefix_length (n : Nat) (xs ys : List Value) :
    (Vm.mergePrefix n xs ys).length = ys.length := by
  simp only [Vm.mergePrefix, List.length_append, List.length_take, List.length_drop]
  omega

omit [F64Ops] in
theorem methodState_length {vm vm' : Vm} {key : InstanceKey} {cls : Function} {count : Nat}
    {locals ls : List Value} (h : vm.methodState key cls count locals = .ok (ls, vm')) :
    ls.length = locals.length := by
  unfold Vm.methodState at h
  split at h
  · cases h
    exact mergePrefix_length _ _ _
  · obtain ⟨state, -, h⟩ := except_bind_ok h
    cases h
    exact mergePrefix_length _ _ _

omit [F64Ops] in
/-- Looking up the state of an instance leaves the stack alone. -/
theorem methodState_frame {vm vm' : Vm} {key : InstanceKey} {cls : Function} {count : Nat}
    {locals ls : List Value} (h : vm.methodState key cls count locals = .ok (ls, vm')) :
    vm'.config = vm.config ∧ vm'.callStack = vm.callStack := by
  unfold Vm.methodState at h
  split at h
  · cases h
    exact ⟨rfl, rfl⟩
  · obtain ⟨state, -, h⟩ := except_bind_ok h
    cases h
    exact ⟨rfl, rfl⟩

omit [F64Ops] in
theorem blockNames_length (blocks : List VarBlock) :
    (blockNames blocks).length = (declared blocks).length := by
  have := congrArg List.length (kindNames_declared blocks)
  simpa [blockNames] using this

omit [F64Ops] in
theorem layoutNames_length (l : MemoryLayout) : (layoutNames l).length = l.slots.length := by
  simp [layoutNames]

theorem Invokes.roomy {vm : Vm} {i : Instruction} {regs : List (UInt16 × Reg)}
    {params : List ParamDef} {place : String → Option Nat} {offset : Nat} {before : List Value}
    (h : Invokes vm i regs params place offset before) : Roomy params place offset before := by
  cases h with
  | function compiled callee =>
    have hn := congrArg List.length (functionBody_names compiled)
    refine roomy_blocks ?_
    rw [layoutNames_length] at hn
    simp only [List.length_append, List.length_map] at hn
    simp only [blockNames_length, MemoryLayout.defaults, List.length_map]
    omega
  | functionBlock compiled callee user =>
    have hn := congrArg List.length (pouBody_names compiled)
    refine roomy_blocks ?_
    rw [layoutNames_length, List.length_map] at hn
    rw [blockNames_length, Nat.zero_add, ← hn]
    exact instanceLocals_length vm _ _ (FunctionCompiler.finish _ _ _ _)
  | native callee layout native =>
    rw [layout]
    refine roomy_native ?_
    rw [← layout]
    exact instanceLocals_length _ _ _ _
  | method compiled callee ofClass defining identifier ofInstance state =>
    have hn := congrArg List.length (methodBody_names compiled)
    have hc := congrArg List.length (classBody_names ofClass)
    refine roomy_blocks ?_
    rw [layoutNames_length] at hn hc
    simp only [List.length_append, List.length_map] at hn hc
    rw [methodState_length state, blockNames_length]
    simp only [MemoryLayout.defaults, List.length_map]
    omega

/-- **The parameters of a callee hold the arguments the analyzer matched to them,
and its other variables what they held before, exactly when the argument of
number `k` is for the variable of number `k`.** -/
theorem parameters_bound_iff {params : List ParamDef} {callee : String} {args : List Argument}
    {a : Analyzer} (hacc : NoError (checkArgs params callee [] 0 args a).2) {env : ModuleEnv}
    {s s' : FunctionCompiler} {regs : List (UInt16 × Reg)}
    (hregs : compileCallArgs env 0 args s = .ok (regs, s')) {vm : Vm} {i : Instruction}
    {place : String → Option Nat} {offset : Nat} {before : List Value}
    (hcall : Invokes vm i regs params place offset before) :
    (∀ f : CallFrame, (∀ r ∈ regs, ∃ v, f.regGet r.2 = .ok v) →
      ∃ start, Vm.bindArgs f offset regs before = .ok start ∧
        Bound f (matchedParams params 0 args) regs place before start) ↔
      InPlace (matchedParams params 0 args) place offset := by
  have hargs := compileCallArgs_fresh env args 0 hregs
  rw [← matchedParams_length params args 0] at hargs
  have hroomy := hcall.roomy
  have hall := checkArgs_matched args [] 0 a hacc
  constructor
  · exact inPlace_of_bound hargs s'.nextReg.toNat_lt fun p hp =>
      hroomy.places p (matchedParams_mem args 0 hp)
  · intro h f hf
    exact bound_of_inPlace hargs s'.nextReg.toNat_lt hall (hroomy.room _ hall) h hf

omit [F64Ops] in
/-- The part of a name before the first dot. -/
theorem takeWhile_dot {name rest : List Char} (h : '.' ∉ name) :
    (name ++ '.' :: rest).takeWhile (· != '.') = name := by
  induction name with
  | nil => simp
  | cons c cs ih =>
    simp only [List.mem_cons, not_or] at h
    have hc : (c != '.') = true := by simpa using Ne.symm h.1
    rw [List.cons_append, List.takeWhile_cons, if_pos hc, ih h.2]

omit [F64Ops] in
/-- The machine finds the class a method was compiled for. -/
theorem findMethodClassVarCount_eq {vm : Vm} {fi ci ci' : UInt16} {method cls : Function}
    {className rest : String} (hm : vm.func? fi = some method)
    (hname : method.name = className ++ "." ++ rest) (hdot : '.' ∉ className.toList)
    (hf : vm.module.findFunction className = some (ci', cls)) :
    vm.findMethodClassVarCount fi ci = some cls.locals.slots.length := by
  have hlist : method.name.toList = className.toList ++ '.' :: rest.toList := by
    rw [hname]
    simp
  unfold Vm.findMethodClassVarCount
  simp only [hm, Option.bind_eq_bind, Option.bind_some, hlist]
  rw [if_pos (by simp), takeWhile_dot hdot, String.ofList_toList, hf]

/-- **The machine starts the callee with these locals**: they are the locals of
the new frame, or what a native block executes on. -/
theorem Invokes.starts {vm : Vm} {i : Instruction} {regs : List (UInt16 × Reg)}
    {params : List ParamDef} {place : String → Option Nat} {offset : Nat} {before start : List Value}
    {f : CallFrame} (h : Invokes vm i regs params place offset before)
    (hdepth : vm.callStack.length < vm.config.maxCallDepth)
    (hb : Vm.bindArgs f offset regs before = .ok start) (func : Function) (rest : List CallFrame) :
    ∃ vm', vm.control func f rest i = .next vm' ∧
      (vm'.callStack.head?.map (·.locals) = some start ∨
        ∃ slot fi callee, i = .callFb slot fi regs ∧ fi ∈ vm.module.nativeFbIndices ∧
          vm.func? fi = some callee ∧
          vm' = { vm.putInstance (vm.instanceKey slot) (vm.applyNativeForces func callee slot
            (vm.nativeExecute callee.name start)) with nativeCalls := vm.nativeCalls + 1 }) := by
  have hd : ¬ vm.config.maxCallDepth ≤ vm.callStack.length := by omega
  cases h with
  | @function fd _ _ _ st s fi dst _ compiled callee =>
    have hb' : Vm.bindArgs f 0 regs (s.finish fd.name.name .function st).locals.defaults =
        .ok start := hb
    refine ⟨vm.withStack (CallFrame.enter fi (s.finish fd.name.name .function st) start 0 none ::
      { f with returnReg := some dst } :: rest), ?_, .inl rfl⟩
    change vm.callFunction f rest fi dst regs = _
    rw [Vm.callFunction, if_neg hd, callee]
    simp only [hb', Vm.orTrap]
  | @functionBlock fb _ _ _ st s slot fi _ compiled callee user =>
    refine ⟨vm.withStack (CallFrame.enter fi (s.finish fb.name.name .functionBlock st) start st
      (some slot) :: vm.callStack), ?_, .inl rfl⟩
    change vm.callFb f fi slot regs func = _
    rw [Vm.callFb, if_neg hd, callee]
    simp only [hb, Vm.orTrap, if_neg user]
    rfl
  | @native _ _ _ slot fi _ callee layout native =>
    refine ⟨_, ?_, .inr ⟨_, _, _, rfl, native, callee, rfl⟩⟩
    change vm.callFb f fi slot regs func = _
    rw [Vm.callFb, if_neg hd, callee]
    simp only [Vm.orTrap, hb, if_pos native]
  | @method cls m _ _ _ _ _ _ st _ s s' slot ci fi _ dst _ inst _ vm1 compiled callee ofClass
      defining identifier ofInstance state =>
    have hcount : vm.findMethodClassVarCount fi ci = some s'.locals.slots.length :=
      findMethodClassVarCount_eq callee rfl identifier defining
    have hframe := methodState_frame state
    refine ⟨vm1.withStack (CallFrame.enter fi (s.finish (methodName cls m) .method st) start 0
      (some slot) :: { f with returnReg := some dst } :: rest), ?_, .inl rfl⟩
    change vm.callMethod f rest slot ci fi dst regs = _
    rw [Vm.callMethod, callee, ofInstance, hcount]
    have hstate : vm.methodState (vm.instanceKey slot) inst s'.locals.slots.length
      (s.finish (methodName cls m) .method st).locals.defaults = .ok (before, vm1) := state
    simp only [hstate, Vm.orTrap, hb]
    rw [if_neg (by rw [hframe.1, hframe.2]; exact hd)]

end

/-- `Sum(1, b := 2)`: the first argument by its position, the second by name. -/
def sumDecl : FunctionDecl :=
  ⟨"Sum", .int, [.inSection .varInput [.plain "a" .int, .plain "b" .int]],
    [.assign "Sum" (.binary .add (.ofName "a") (.ofName "b") noRange)]⟩

def sumArgs : List Argument := [.positional (.ofInt 1), .named "b" (.ofInt 2)]

/-- `Sum` starts with `a = 1` and `b = 2`. -/
theorem sum_arguments_bound : ∃ st s start,
    @functionBody default ⟨[], .empty, ∅⟩ sumDecl (.new []) = .ok (st, s) ∧
    Vm.bindArgs (frameWith fun n => if n = 0 then .int 1 else .int 2) 0 [(0, 0), (1, 1)]
      s.locals.defaults = .ok start ∧ start[0]? = some (.int 1) ∧ start[1]? = some (.int 2) := by
  let env : ModuleEnv := ⟨[], .empty, ∅⟩
  let params := collectParams builtinTable sumDecl.varBlocks
  have hbody : bodyYields (@functionBody default env sumDecl) (fun _ => true) = true := by
    decide +kernel
  obtain ⟨st, s, hs, -⟩ := bodyYields_iff.mp hbody
  have hacc : NoError (checkArgs params "Sum" [] 0 sumArgs initialAnalyzer).2 := by
    have hnil : (checkArgs params "Sum" [] 0 sumArgs initialAnalyzer).2.diagnostics.isEmpty = true := by
      decide +kernel
    intro d hd
    rw [List.isEmpty_iff.mp hnil] at hd
    cases hd
  have hregs : ∃ s', @compileCallArgs default env 0 sumArgs (.new []) =
      .ok ([(0, 0), (1, 1)], s') := ⟨_, rfl⟩
  obtain ⟨s', hregs⟩ := hregs
  let vm := Vm.new ⟨[s.finish sumDecl.name.name .function st], .empty, [], []⟩ .default
  have hcall : @Invokes default vm (.call 0 0 [(0, 0), (1, 1)]) [(0, 0), (1, 1)] params
      (placeFrom 0 (blockNames sumDecl.varBlocks)) 0 s.locals.defaults :=
    @Invokes.function default _ _ _ _ _ _ _ _ _ _ hs rfl
  have hmatched : (matchedParams params 0 sumArgs).map (·.map (·.name)) = [some "a", some "b"] := by
    decide +kernel
  have hplace : InPlace (matchedParams params 0 sumArgs)
      (placeFrom 0 (blockNames sumDecl.varBlocks)) 0 := by
    intro k p hp
    have hget := congrArg (·[k]?) hmatched
    simp only [List.getElem?_map, hp, Option.map_some] at hget
    match k, hget with
    | 0, hget =>
      have hname : p.name = "a" := by simpa using hget
      rw [hname]
      exact ⟨by decide +kernel, by decide⟩
    | 1, hget =>
      have hname : p.name = "b" := by simpa using hget
      rw [hname]
      exact ⟨by decide +kernel, by decide⟩
    | _ + 2, hget => simp at hget
  obtain ⟨start, hstart, hbound⟩ := (@parameters_bound_iff default params "Sum" sumArgs
    initialAnalyzer hacc env (.new []) s' _ hregs vm _ _ 0 _ hcall).mpr hplace
      (frameWith fun n => if n = 0 then .int 1 else .int 2) fun r _ => ⟨_, frameWith_regGet _ r.2⟩
  have hp0 : ∃ p, (matchedParams params 0 sumArgs)[0]? = some (some p) ∧ p.name = "a" :=
    ⟨_, rfl, rfl⟩
  have hp1 : ∃ p, (matchedParams params 0 sumArgs)[1]? = some (some p) ∧ p.name = "b" :=
    ⟨_, rfl, rfl⟩
  obtain ⟨p0, hp0, hn0⟩ := hp0
  obtain ⟨p1, hp1, hn1⟩ := hp1
  obtain ⟨v0, hv0, hs0⟩ := hbound.given 0 p0 (0, 0) 0 hp0 rfl (by rw [hn0]; decide +kernel)
  obtain ⟨v1, hv1, hs1⟩ := hbound.given 1 p1 (1, 1) 1 hp1 rfl (by rw [hn1]; decide +kernel)
  rw [frameWith_regGet] at hv0 hv1
  cases hv0
  cases hv1
  exact ⟨st, s, start, hs, hstart, hs0, hs1⟩

def firstBlocks : List VarBlock := [.inSection .varInput [.plain "a" .int, .plain "b" .int]]

/-- `b := 1, a := 2` -/
def firstArgs : List Argument := [.named "b" (.ofInt 1), .named "a" (.ofInt 2)]

/-- A program that calls `First(b := 1, a := 2)`. -/
def swapped : SourceFile := ⟨[
  .function ⟨"First", .int, firstBlocks, [.assign "First" (.ofName "a")]⟩,
  .program ⟨"Main", [.of [.plain "x" .int]],
    [.assign "x" (.functionCall ["First"] firstArgs noRange)]⟩]⟩

/-- The callee starts with the arguments in the order they were written. -/
def startsSwapped [F64Ops] (m : Module) : Bool :=
  match reached m "Main" 3 with
  | some v => match v.callStack.head? with
    | some frame => decide ((m.functions[frame.funcIndex.toNat]?.map fun f =>
        layoutNames f.locals) = some ["a", "b", "First"]) &&
        decide (frame.pc = 0 ∧ frame.locals = [.int 1, .int 2, .int 0])
    | none => false
  | none => false

/-- The arguments of the call in `swapped` are accepted, 1 for `b` and 2 for
`a`; the callee starts with `a = 1` and `b = 2`. -/
theorem named_arguments_swapped : ∃ m v frame, accepts swapped = true ∧
    (matchedParams (collectParams builtinTable firstBlocks) 0 firstArgs).map (·.map (·.name)) =
      [some "b", some "a"] ∧
    @compile default swapped = .ok m ∧ @reached default m "Main" 3 = some v ∧
    v.callStack.head? = some frame ∧
    (m.functions[frame.funcIndex.toNat]?.map fun f => layoutNames f.locals) =
      some ["a", "b", "First"] ∧
    frame.pc = 0 ∧ frame.locals = [.int 1, .int 2, .int 0] := by
  have hacc : accepts swapped = true := by decide +kernel
  have hrun : @yields default swapped (@startsSwapped default) = true := by decide +kernel
  obtain ⟨m, hm, hp⟩ := (@yields_iff default _ _).mp hrun
  unfold startsSwapped at hp
  split at hp
  · next v hv =>
    split at hp
    · next frame hframe =>
      simp only [Bool.and_eq_true, decide_eq_true_eq] at hp
      exact ⟨m, v, frame, hacc, by decide +kernel, hm, hv, hframe, hp.1, hp.2.1, hp.2.2⟩
    · cases hp
  · cases hp

end RustPlc.Agree
