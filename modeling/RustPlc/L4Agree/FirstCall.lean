import RustPlc.L3Vm.Instances
import RustPlc.L4Agree.ClassInit

/-!
# The first call of a function block

The code of the initialisers of a function block stands in front of its body,
but `call_fb` (crates/st-engine/src/vm.rs:2138-2255) enters an instance at the
body. A new instance starts with the defaults of the types. An instance to a field
of which was stored before its first call starts with what the stores left, and
`Int(0)` everywhere else.

Results:
* `callFb_enters`: the frame that a call pushes;
* `first_call_iff`: a first call finds the declared initial values exactly when
  they are the defaults of the types, or, after a store to a field, `Int(0)`;
* `five_lost`: a variable of an accepted function block that starts with 5 starts
  with 0.
-/
namespace RustPlc.Agree

open RustPlc.Ir RustPlc.Syntax RustPlc.Compiler RustPlc.Engine RustPlc.Correct RustPlc.Analysis

/-! ## The frame of the call -/

/-- An argument goes to its own slot. -/
theorem bindArgs_other {f : CallFrame} {offset : Nat} : ∀ (args : List (UInt16 × Reg))
    {before locals : List Value}, Vm.bindArgs f offset args before = .ok locals → ∀ {k : Nat},
      (∀ p ∈ args, offset.toUInt16.toNat + p.1.toNat ≠ k) → locals[k]? = before[k]?
  | [], before, locals, h, k, _ => by
    obtain rfl := Except.ok.inj h
    rfl
  | p :: args, before, locals, h, k, hk => by
    obtain ⟨hp, hargs⟩ := List.forall_mem_cons.mp hk
    unfold Vm.bindArgs at h
    simp only at h
    split at h
    · cases h
    · cases hv : f.regGet p.2 with
      | error e =>
        rw [hv] at h
        cases h
      | ok v =>
        rw [hv] at h
        rw [bindArgs_other args h hargs, List.getElem?_set_ne hp]

/-- The variables that a call gives values to. -/
def given (args : List (UInt16 × Reg)) : List Nat := args.map fun p => p.1.toNat

/-- What a call finds in the variables of an instance: what was stored, or the
defaults of their types. -/
def found (F : Function) (vector : Option (List Value)) (k : Nat) : Option Value :=
  match vector with
  | some xs => some (vectorAt (some xs) k)
  | none => F.locals.defaults[k]?

section

variable [F64Ops] {vm vm' : Vm} {f : CallFrame} {rest : List CallFrame} {slot i : UInt16}
  {args : List (UInt16 × Reg)} {F : Function}

omit [F64Ops] in
theorem instanceLocals_found (key : InstanceKey) (hn : i ∉ vm.module.nativeFbIndices) {k : Nat}
    (hk : k < F.locals.slots.length) :
    (vm.instanceLocals key i F)[k]? = found F (Finmap.lookup key vm.fbInstances) k := by
  unfold Vm.instanceLocals
  simp only [if_neg hn]
  rw [padTo_get _ hk]
  cases Finmap.lookup key vm.fbInstances with
  | some xs => rfl
  | none =>
    have hlt : k < F.locals.defaults.length := by
      rw [MemoryLayout.defaults_length]
      exact hk
    rw [Option.getD_none, List.getElem?_eq_getElem hlt]
    exact (List.getElem?_eq_getElem hlt).symm

/-- **A call of a function block** pushes a frame that stands at the body. Each
variable that is given no argument has what the instance has. -/
theorem callFb_enters (hstack : vm.callStack = f :: rest)
    (hnext : vm.nextInstr = some (.callFb slot i args)) (hfunc : vm.func? i = some F)
    (hn : i ∉ vm.module.nativeFbIndices) (h : vm.step = .next vm') :
    ∃ c below, vm'.callStack = c :: below ∧ below.length = vm.callStack.length ∧
      c.funcIndex = i ∧ c.instanceSlot = some slot ∧ c.pc = F.bodyStartPc ∧
      ∀ k < F.locals.slots.length, k ∉ given args →
        c.locals[k]? = found F (Finmap.lookup (vm.instanceKey slot) vm.fbInstances) k := by
  obtain ⟨caller, d, -, hexec⟩ := step_exec hstack hnext h
  change (vm.advance d f rest).callFb { f with pc := f.pc + 1 } i slot args caller = _ at hexec
  have hfunc' : (vm.advance d f rest).func? i = some F := hfunc
  have hn' : i ∉ (vm.advance d f rest).module.nativeFbIndices := hn
  unfold Vm.callFb at hexec
  split at hexec
  · cases hexec
  · rw [hfunc'] at hexec
    obtain ⟨locals, hb, hexec⟩ := Vm.orTrap_next hexec
    cases hexec
    refine ⟨_, _, rfl, ?_, rfl, rfl, rfl, fun k hk hgiven => ?_⟩
    · rw [hstack]
      rfl
    · have hother : ∀ p ∈ args, (0 : Nat).toUInt16.toNat + p.1.toNat ≠ k := by
        intro p hp heq
        refine hgiven (List.mem_map.mpr ⟨p, hp, ?_⟩)
        rw [← heq]
        exact (Nat.zero_add _).symm
      rw [← advance_instanceKey d hstack slot]
      exact (bindArgs_other args hb hother).trans (instanceLocals_found _ hn' hk)

/-- What a first call is expected to find: at the body, the variables without argument and
without a store to their field have their declared initial values; and if there
was a store, all the other fields have them before the call. -/
structure SeesInitial (vm : Vm) (key : InstanceKey) (c : CallFrame) (n : Nat) (args : List Nat)
    (written : List Nat) (declared : List Value) : Prop where
  body : ∀ k < n, k ∉ args → k ∉ written → c.locals[k]? = declared[k]?
  fields : written ≠ [] → ∀ k < n, k ∉ written → some (vm.instanceGet key k) = declared[k]?

/-- The declared initial values that a call is right for. -/
def StartsRight (F : Function) (args written : List Nat) (declared : List Value) : Prop :=
  (written = [] ∧ ∀ k < F.locals.slots.length, k ∉ args →
      F.locals.defaults[k]? = declared[k]?) ∨
    (written ≠ [] ∧ ∀ k < F.locals.slots.length, k ∉ written → some Value.dflt = declared[k]?)

omit [F64Ops] in
theorem seesInitial_iff {key : InstanceKey} {c : CallFrame} {given written : List Nat}
    {declared : List Value}
    (hbody : ∀ k < F.locals.slots.length, k ∉ given →
      c.locals[k]? = found F (Finmap.lookup key vm.fbInstances) k)
    (hnone : written = [] → Finmap.lookup key vm.fbInstances = none)
    (hsome : written ≠ [] → ∃ xs, Finmap.lookup key vm.fbInstances = some xs)
    (hfield : ∀ k, k ∉ written →
      vectorAt (Finmap.lookup key vm.fbInstances) k = Value.dflt) :
    SeesInitial vm key c F.locals.slots.length given written declared ↔
      StartsRight F given written declared := by
  by_cases hw : written = []
  · rw [hnone hw] at hbody
    constructor
    · intro h
      refine .inl ⟨hw, fun k hk hg => ?_⟩
      have hwritten : k ∉ written := by
        rw [hw]
        exact List.not_mem_nil
      exact (hbody k hk hg).symm.trans (h.body k hk hg hwritten)
    · intro h
      rcases h with ⟨-, h⟩ | ⟨hne, -⟩
      · exact ⟨fun k hk hg _ => (hbody k hk hg).trans (h k hk hg), fun hne => absurd hw hne⟩
      · exact absurd hw hne
  · obtain ⟨xs, hxs⟩ := hsome hw
    have hget : ∀ k, k ∉ written → vm.instanceGet key k = Value.dflt := fun k hk =>
      (instanceGet_vector vm key k).trans (hfield k hk)
    constructor
    · intro h
      refine .inr ⟨hw, fun k hk hwritten => ?_⟩
      rw [← hget k hwritten]
      exact h.fields hw k hk hwritten
    · intro h
      rcases h with ⟨hempty, -⟩ | ⟨-, h⟩
      · exact absurd hempty hw
      · refine ⟨fun k hk hg hwritten => ?_, fun _ k hk hwritten => ?_⟩
        · have hat := hfield k hwritten
          rw [hxs] at hat
          rw [hbody k hk hg, hxs, ← h k hk hwritten, ← hat]
          rfl
        · rw [hget k hwritten]
          exact h k hk hwritten

/-- The code of a program or a function block starts with that of its
initialisers. -/
theorem pouBody_inits {env : ModuleEnv} {blocks : List VarBlock} {body : List Statement}
    {typeDefs : List TypeDef} {start : Nat} {s : FunctionCompiler} (hf : env.functions ≠ [])
    (h : pouBody env blocks body (.new typeDefs) = .ok (start, s)) :
    ∃ ps s', InitCode env ps (.new typeDefs) s' ∧ s'.instructions <+: s.instructions ∧
      s'.nextReg.toNat ≤ s.nextReg.toNat ∧ start = s'.instructions.length ∧
      ps.map (fun p => (p.slot, p.value)) = initialisers 0 (initialValues blocks) := by
  have hs : Ready env (.new typeDefs) := ready_new typeDefs
  obtain ⟨_, s1, h1, h2⟩ := bind_ok h
  obtain ⟨⟨ps, hps, hmap⟩, -⟩ := compileVarBlocks_inits hf blocks hs h1
  have hs1 := (compileVarBlocksInner_emits hf true blocks _ _ _ hs h1).1.ready hs
  obtain ⟨_, s2, h3, h4⟩ := bind_ok (currentPc_bind_ok h2)
  obtain ⟨_, s3, h5, h6⟩ := bind_ok h4
  obtain ⟨rfl, rfl⟩ := pure_ok h6
  obtain rfl := emit_eq h5
  have hbody := (compileStatements_emits env body s1 _ s2 hs1 h3).1
  obtain ⟨new, hnew, -⟩ := hbody.code
  refine ⟨ps, s1, hps, ⟨new ++ [.retVoid], ?_⟩, hbody.regs, rfl, hmap⟩
  rw [← List.append_assoc, ← hnew]
  rfl

/-- **The first call of a function block.** Whatever a run of the initialisers
makes of the defaults of the types, that is what is declared. In every history
without a call of the instance, the first call finds it exactly when
`StartsRight`. -/
theorem first_call_iff {env : ModuleEnv} {blocks : List VarBlock} {body : List Statement}
    {typeDefs : List TypeDef} {start : Nat} {s : FunctionCompiler} (name : String)
    (hf : env.functions ≠ []) (h : pouBody env blocks body (.new typeDefs) = .ok (start, s))
    (hF : F = s.finish name .functionBlock start) : ∃ ps : List Initialiser,
      ps.map (fun p => (p.slot, p.value)) = initialisers 0 (initialValues blocks) ∧
      ∀ {j : UInt16} {d : Nat} {w w' : Vm} {g g' : CallFrame}, w.func? j = some F → w.Idle →
        g.locals = F.locals.defaults → F.registerCount.toNat ≤ g.registers.length →
        Crosses j d 0 F.bodyStartPc g g' w w' →
        (∃ vs, InitRun j d ps 0 g g' w w' vs ∧
          (Undisturbed j d (Between 0 F.bodyStartPc) w w' →
            g'.locals = executed F.locals ps vs F.locals.defaults)) ∧
        ∀ {vm0 vm vm' : Vm} {key : InstanceKey} {ws : List (Nat × Value)} {f : CallFrame}
          {rest : List CallFrame} {slot i : UInt16} {args : List (UInt16 × Reg)},
          Before key vm0 ws vm → vm.callStack = f :: rest → vm.instanceKey slot = key →
          vm.nextInstr = some (.callFb slot i args) → vm.func? i = some F →
          i ∉ vm.module.nativeFbIndices → vm.step = .next vm' →
          ∃ c below, vm'.callStack = c :: below ∧ below.length = vm.callStack.length ∧
            c.funcIndex = i ∧ c.instanceSlot = some slot ∧ c.pc = F.bodyStartPc ∧
            (SeesInitial vm key c F.locals.slots.length (given args) (ws.map Prod.fst) g'.locals ↔
              StartsRight F (given args) (ws.map Prod.fst) g'.locals) := by
  obtain ⟨ps, s', hps, hpre, hregs, rfl, hmap⟩ := pouBody_inits hf h
  subst hF
  refine ⟨ps, hmap, ?_⟩
  intro j d w w' g g' hfunc hidle hlocals hcount hrun
  obtain ⟨vs, hvs, hend⟩ := init_runs hps hpre hfunc hidle (Nat.le_trans hregs hcount) hrun
  rw [hlocals] at hend
  refine ⟨⟨vs, hvs, hend⟩, ?_⟩
  intro vm0 vm vm' key ws f rest slot i args hbefore hstack hkey hnext hfunc' hn hstep
  obtain ⟨c, below, hc, hlen, hci, hcs, hpc, hbody⟩ :=
    callFb_enters hstack hnext hfunc' hn hstep
  rw [hkey] at hbody
  obtain ⟨hnone, hsome, hfield⟩ := hbefore.vector
  refine ⟨c, below, hc, hlen, hci, hcs, hpc, seesInitial_iff hbody ?_ ?_ hfield⟩
  · exact fun hw => hnone (List.map_eq_nil_iff.mp hw)
  · exact fun hw => hsome fun hws => hw (List.map_eq_nil_iff.mpr hws)

end

/-! ## Five, and zero -/

/-- A function block with a variable that starts with 5, and a program that calls
an instance. -/
def rampSource : SourceFile := ⟨[
  .functionBlock ⟨"Ramp", [.of [.init "x" .int (.ofInt 5)], .inSection .varOutput [.plain "y" .int]],
    [.assign "y" (.ofName "x")]⟩,
  .program ⟨"Main", [.of [.plain "r" (.named "Ramp")]],
    [.functionCall ⟨["r"], noRange⟩ [] noRange]⟩]⟩

/-- The first call of the instance leaves both variables 0, although the initialisers
give 5. -/
def startsWithZero [F64Ops] (m : Module) : Bool :=
  match (Vm.new m .default).enterRun "Main", m.functions[0]? with
  | some vm, some F => decide (Finmap.lookup (vm.instanceKey 0) vm.fbInstances = none) &&
    decide (vm.nextInstr = some (.callFb 0 0 [])) && decide (vm.func? 0 = some F) &&
    decide (0 ∉ vm.module.nativeFbIndices) && decide (F.locals.slots.length = 2) &&
    decide (executedLocals 100 m 0 = some [.int 5, .int 0]) &&
    match vm.callStack, vm.step with
    | _ :: _, .next vm' => match vm'.callStack with
      | c :: _ => decide (c.locals = [.int 0, .int 0])
      | [] => false
    | _, _ => false
  | _, _ => false

/-- **A variable that starts with 5 starts with 0.** The analyzer accepts the
function block; its first call finds 0. -/
theorem five_lost :
    ¬ ∀ (_ : F64Ops) (source : SourceFile) (m : Module) (vm0 vm vm' : Vm) (key : InstanceKey)
      (ws : List (Nat × Value)) (f c : CallFrame) (rest below : List CallFrame) (slot i : UInt16)
      (args : List (UInt16 × Reg)) (F : Function) (fuel : Nat) (declared : List Value),
      accepts source = true → compile source = .ok m →
      (Vm.new m .default).enterRun "Main" = some vm0 → Before key vm0 ws vm →
      vm.callStack = f :: rest → vm.instanceKey slot = key →
      vm.nextInstr = some (.callFb slot i args) → vm.func? i = some F →
      i ∉ vm.module.nativeFbIndices → vm.step = .next vm' → vm'.callStack = c :: below →
      executedLocals fuel m i = some declared →
      SeesInitial vm key c F.locals.slots.length (given args) (ws.map Prod.fst) declared := by
  intro h
  let _ : F64Ops := default
  have hacc : accepts rampSource = true := by decide +kernel
  have hrun : yields rampSource startsWithZero = true := by decide +kernel
  obtain ⟨m, hm, hp⟩ := yields_iff.mp hrun
  unfold startsWithZero at hp
  split at hp
  · next vm F hvm hF =>
    simp only [Bool.and_eq_true, decide_eq_true_eq] at hp
    obtain ⟨⟨⟨⟨⟨⟨hnone, hnext⟩, hfunc⟩, hnative⟩, hslots⟩, hdeclared⟩, hp⟩ := hp
    split at hp
    · next f rest vm' hstack hstep =>
      split at hp
      · next c below hc =>
        have hsees := h _ rampSource m vm vm vm' _ [] f c rest below 0 0 [] F 100 _ hacc hm hvm
          (.start hnone) hstack rfl hnext hfunc hnative hstep hc hdeclared
        rw [hslots] at hsees
        have hfirst := hsees.body 0 (by decide) List.not_mem_nil List.not_mem_nil
        rw [of_decide_eq_true hp] at hfirst
        cases hfirst
      · cases hp
    · cases hp
  · cases hp

/-- The code of a function block with one variable that starts with 0. -/
def zeroBlock : FunctionCompiler :=
  match @pouBody default ⟨[stub "Idle" .functionBlock], .empty, ∅⟩
      [.of [.init "x" .int (.ofInt 0)]] [] (.new []) with
  | .ok (_, s) => s
  | .error _ => .new []

def zeroFunction : Function := zeroBlock.finish "Idle" .functionBlock 2

def zeroModule : Module :=
  ⟨[zeroFunction, ⟨"Main", .program, 1, [.callFb 0 0 []], [], .empty, [], 0⟩], .empty, [], []⟩

/-- The initialiser after `n` iterations. -/
def zeroInit : Nat → Vm
  | 0 => (Vm.new zeroModule .default).withStack
    [CallFrame.enter 0 zeroFunction zeroFunction.locals.defaults 0 none]
  | n + 1 => left (@Vm.step default (zeroInit n))

/-- `Main` about to call its instance. -/
def zeroMain : Vm := (Vm.new zeroModule .default).withStack [⟨1, [Value.dflt], [], 0, none, none⟩]

/-- A variable that starts with 0 starts with 0. -/
theorem zero_found : ∃ c below, (left (@Vm.step default zeroMain)).callStack = c :: below ∧
    SeesInitial zeroMain (zeroMain.instanceKey 0) c 1 [] [] [.int 0] := by
  let _ : F64Ops := default
  have hbody : pouBody ⟨[stub "Idle" .functionBlock], .empty, ∅⟩ [.of [.init "x" .int (.ofInt 0)]]
    [] (.new []) = .ok (2, zeroBlock) := rfl
  have hrun : Crosses 0 0 0 2 (CallFrame.enter 0 zeroFunction [.int 0] 0 none)
      ⟨0, [.int 0], [.int 0], 2, none, none⟩ (zeroInit 0) (zeroInit 2) :=
    { start := ⟨[], rfl, rfl, rfl⟩
      startPc := rfl
      run := .step (.inl ⟨_, ⟨[], rfl, rfl, rfl⟩, by unfold Between; decide⟩)
        (show (zeroInit 0).step = .next (zeroInit 1) from rfl)
        (.step (.inl ⟨_, ⟨[], rfl, rfl, rfl⟩, by unfold Between; decide⟩) rfl (.refl _))
      finish := ⟨[], rfl, rfl, rfl⟩
      finishPc := rfl }
  have hidle : (zeroInit 0).Idle := by
    intro f rest hstack
    obtain ⟨rfl, -⟩ := List.cons.inj hstack
    rfl
  obtain ⟨ps, -, hall⟩ :=
    first_call_iff "Idle" (List.cons_ne_nil _ _) hbody (F := zeroFunction) rfl
  obtain ⟨-, hcall⟩ := hall (g := CallFrame.enter 0 zeroFunction [.int 0] 0 none)
    rfl hidle rfl (by decide) hrun
  obtain ⟨c, below, hc, -, -, -, -, hiff⟩ := hcall (.start (Finmap.lookup_empty _))
    (show zeroMain.callStack = _ :: [] from rfl) rfl
    (show zeroMain.nextInstr = some (.callFb 0 0 []) from rfl) rfl List.not_mem_nil
    (show zeroMain.step = .next (left zeroMain.step) from rfl)
  refine ⟨c, below, hc, hiff.mpr (.inl ⟨rfl, fun k hk _ => ?_⟩)⟩
  have hzero : k = 0 := Nat.lt_one_iff.mp hk
  subst hzero
  rfl

end RustPlc.Agree
