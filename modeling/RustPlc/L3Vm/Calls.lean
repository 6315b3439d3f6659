import RustPlc.L2Compiler.CompileModule
import RustPlc.L3Vm.Effect
import RustPlc.L3Vm.Ends
import Mathlib.Logic.Relation

/-!
# Calls of functions

A call of a FUNCTION is run from its `Call` instruction until the stack is as
deep as it was before. What it computes depends on the arguments and the
globals alone when the function, and every function it calls, keeps its
variables in its frame: no array, structure or instance variable (they live in
`fb_instances`, under a key made of the function's index, and stay there when
the function returns), no clock, and references only where both calls see the
same frames.

Two runs are compared step by step (`Paired`). A run that meets a limit (call
depth, instruction count, debugger pause) ends the comparison.

Results:
* `step_paired`: one step of two activations that see the same;
* `callRun_twin`: whole calls;
* `callRun_leaves`: a call leaves the frames below it and the instances alone;
* `function_calls_stateless`: equal arguments and globals, equal results.
-/
namespace RustPlc.Engine

open RustPlc.Ir RustPlc.Core RustPlc.Syntax RustPlc.Compiler

/-! ## Self-contained functions -/

/-- Instructions that make or follow a reference. -/
def usesReference : Instruction → Bool
  | .makeRefLocal _ _ | .deref _ _ | .derefStore _ _ => true
  | _ => false

/-- Instructions that work on the frame, the globals and the caller's waiting
register only. -/
def keepsToFrame : Instruction → Bool
  | .loadArray _ _ _ | .loadField _ _ _ | .loadFieldIndex _ _ _ _ | .storeArray _ _ _
  | .storeField _ _ _ | .storeFieldIndex _ _ _ _ | .callFb _ _ _ | .callMethod _ _ _ _ _
  | .systemTime _ | .retVoid => false
  | _ => true

/-- Function `i` has a call of function `j`. -/
def CallsFunction (m : Module) (i j : UInt16) : Prop :=
  ∃ func dst args, m.functions[i.toNat]? = some func ∧ .call j dst args ∈ func.instructions

/-- The functions that a call of `i` can run. -/
def Callees (m : Module) (i : UInt16) : Set UInt16 :=
  fun j => Relation.ReflTransGen (CallsFunction m) i j

/-- Every function that a call of `i` can run is a FUNCTION that keeps to its
frame, and uses references only if `refs` allows it. -/
def SelfContained (m : Module) (refs : Bool) (i : UInt16) : Prop :=
  ∀ j ∈ Callees m i, ∀ func, m.functions[j.toNat]? = some func →
    func.kind = .function ∧ ∀ instr ∈ func.instructions,
      keepsToFrame instr = true ∧ (usesReference instr = true → refs = true)

/-! ## One call -/

/-- Traps that depend on how much has been done before: they say nothing about
the call. -/
def IsLimit : Trap → Prop
  | .error .halt | .error (.executionLimit _) | .error (.stackOverflow _) => True
  | _ => False

section

variable [F64Ops]

/-- One step of a call made at stack depth `depth`: it is over when the stack
is that deep again, with what is in the caller's register `dst`. -/
def callStep (depth : Nat) (dst : Reg) (vm : Vm) : Outcome Vm Stop :=
  match vm.step with
  | .halt r => .halt r
  | .next w =>
    if w.callStack.length ≤ depth then
      .halt (w, match w.callStack with
        | c :: _ => c.regGet dst
        | [] => .ok .void)
    else .next w

/-- A call from its `Call` instruction to its return, with `fuel` steps at
most. -/
def callRun (fuel depth : Nat) (dst : Reg) (vm : Vm) : Option Stop :=
  Core.run (callStep depth dst) fuel vm

end

/-! ## Two activations that see the same -/

/-- Frames with the same variables. -/
def SameLocals (f g : CallFrame) : Prop := g.locals = f.locals

/-- The frames `U` of the activation stand on top of `B` in one machine and of
`C` in the other; globals and forces are the same. -/
structure Twin (m : Module) (refs : Bool) (S : Set UInt16) (U B C : List CallFrame) (vm w : Vm) :
    Prop where
  left : vm.module = m
  right : w.module = m
  globals : w.globals = vm.globals
  forced : w.forcedVariables = vm.forcedVariables
  slots : w.forcedGlobalSlots = vm.forcedGlobalSlots
  stack : vm.callStack = U ++ B
  stack' : w.callStack = U ++ C
  inside : ∀ f ∈ U, f.funcIndex ∈ S
  below : refs = true → List.Forall₂ SameLocals B C

/-- The top frame waits for a value in register `dst`. -/
def Awaits (dst : Reg) (B : List CallFrame) : Prop :=
  ∃ c cs, B = c :: cs ∧ c.returnReg = some dst ∧ dst.toNat < c.registers.length

/-- The value `v` has arrived in register `dst` of the top frame. -/
def Took (dst : Reg) (v : Value) (depth : Nat) (vm : Vm) : Prop :=
  ∃ c cs, vm.callStack = c :: cs ∧ c.regGet dst = .ok v ∧ vm.callStack.length = depth

/-- Two steps that go the same way: one of them meets a limit, both trap, both
activations go on, or both return the same value. -/
inductive Paired (m : Module) (refs : Bool) (S : Set UInt16) (dst dst' : Reg) (d d' : Nat) :
    Outcome Vm Stop → Outcome Vm Stop → Prop where
  | limit (vm : Vm) (t o) (h : IsLimit t) : Paired m refs S dst dst' d d' (vm.trap t) o
  | limit' (w : Vm) (t o) (h : IsLimit t) : Paired m refs S dst dst' d d' o (w.trap t)
  | trap (vm w : Vm) (t) : Paired m refs S dst dst' d d' (vm.trap t) (w.trap t)
  | inside (f U B C vm w) (h : Twin m refs S (f :: U) B C vm w) (hB : Awaits dst B)
      (hC : Awaits dst' C) (hd : B.length = d) (hd' : C.length = d') :
    Paired m refs S dst dst' d d' (.next vm) (.next w)
  | back (v vm w) (hg : w.globals = vm.globals) (hv : Took dst v d vm) (hw : Took dst' v d' w) :
    Paired m refs S dst dst' d d' (.next vm) (.next w)

section

variable {m : Module} {refs : Bool} {S : Set UInt16} {dst dst' : Reg} {d d' : Nat} {U B C : List CallFrame}
  {f : CallFrame} {vm w : Vm}

theorem paired_orTrap {α : Type} {x y : Except Trap α} {k k' : α → Outcome Vm Stop} (hxy : y = x)
    (h : ∀ a, x = .ok a → Paired m refs S dst dst' d d' (k a) (k' a)) :
    Paired m refs S dst dst' d d' (vm.orTrap x k) (w.orTrap y k') := by
  subst hxy
  cases y with
  | error t => exact .trap vm w t
  | ok a => exact h a rfl

theorem Twin.module (h : Twin m refs S U B C vm w) : w.module = vm.module := h.right.trans h.left.symm

theorem Twin.func? (h : Twin m refs S U B C vm w) (i : UInt16) : w.func? i = vm.func? i := by
  simp [Vm.func?, h.module]

/-- Another frame on top of the activation. -/
theorem Twin.withTop (h : Twin m refs S (f :: U) B C vm w) {V : List CallFrame}
    (hV : ∀ g ∈ V, g.funcIndex ∈ S) :
    Twin m refs S (V ++ U) B C (vm.withStack (V ++ (U ++ B))) (w.withStack (V ++ (U ++ C))) where
  left := h.left
  right := h.right
  globals := h.globals
  forced := h.forced
  slots := h.slots
  stack := by simp
  stack' := by simp
  inside := by
    intro g hg
    rcases List.mem_append.mp hg with hg | hg
    · exact hV g hg
    · exact h.inside g (List.mem_cons_of_mem f hg)
  below := h.below

theorem Twin.frameAt (h : Twin m true S U B C vm w) (i : Nat) :
    (w.frameAt i).map (·.locals) = (vm.frameAt i).map (·.locals) := by
  have hlen := (h.below rfl).length_eq
  have hmap : C.map (·.locals) = B.map (·.locals) := by
    have := h.below rfl
    clear h hlen
    induction this with
    | nil => rfl
    | cons hxy _ ih => rw [List.map_cons, List.map_cons, ih, hxy]
  have hstack : w.callStack.map (·.locals) = vm.callStack.map (·.locals) := by
    rw [h.stack, h.stack', List.map_append, List.map_append, hmap]
  unfold Vm.frameAt
  rw [← List.getElem?_map, ← List.getElem?_map, List.map_reverse, List.map_reverse, hstack]

theorem Twin.deref (h : Twin m true S U B C vm w) (p : Value) : w.deref p = vm.deref p := by
  unfold Vm.deref
  split
  · next tag slot =>
    split
    · rw [h.globals]
    · have hfr := h.frameAt (tag - 2).toNat
      cases hw : w.frameAt (tag - 2).toNat with
      | none =>
        rw [hw, Option.map_none] at hfr
        rw [Option.map_eq_none_iff.mp hfr.symm]
      | some g =>
        rw [hw, Option.map_some] at hfr
        obtain ⟨g', hg', hl⟩ := Option.map_eq_some_iff.mp hfr.symm
        rw [hg']
        simp only
        rw [hl]
  · rfl

/-! ## One step -/

theorem Twin.length (h : Twin m true S U B C vm w) : w.callStack.length = vm.callStack.length := by
  rw [h.stack, h.stack', List.length_append, List.length_append, (h.below rfl).length_eq]

theorem saveRetainedLocals_function {rest : List CallFrame} {func : Function}
    (hstack : vm.callStack = f :: rest) (hf : vm.func? f.funcIndex = some func)
    (hk : func.kind = .function) : vm.saveRetainedLocals = vm := by
  unfold Vm.saveRetainedLocals
  rw [hstack]
  simp only [hf, hk]

/-- What a frame and its `rest` can be replaced by without leaving the
activation. -/
theorem Twin.inside_top (h : Twin m refs S (f :: U) B C vm w) (hB : Awaits dst B)
    (hC : Awaits dst' C) (hd : B.length = d) (hd' : C.length = d') {g : CallFrame}
    (hg : g.funcIndex = f.funcIndex) :
    Paired m refs S dst dst' d d' (.next (vm.withStack (g :: (U ++ B))))
      (.next (w.withStack (g :: (U ++ C)))) := by
  have hS : ∀ x ∈ [g], x.funcIndex ∈ S := by
    intro x hx
    rw [List.mem_singleton.mp hx, hg]
    exact h.inside f (List.mem_cons_self ..)
  exact .inside g U B C _ _ (h.withTop hS) hB hC hd hd'

theorem Twin.inside_same (h : Twin m refs S (f :: U) B C vm w) (hB : Awaits dst B)
    (hC : Awaits dst' C) (hd : B.length = d) (hd' : C.length = d') :
    Paired m refs S dst dst' d d' (.next vm) (.next w) :=
  .inside f U B C vm w h hB hC hd hd'

theorem jumpTo_paired (h : Twin m refs S (f :: U) B C vm w) (hB : Awaits dst B)
    (hC : Awaits dst' C) (hd : B.length = d) (hd' : C.length = d') (func : Function)
    (label : Label) :
    Paired m refs S dst dst' d d' (vm.jumpTo func f (U ++ B) label)
      (w.jumpTo func f (U ++ C) label) := by
  unfold Vm.jumpTo
  cases func.labelPositions[label.toNat]? with
  | none => exact .trap vm w _
  | some target => exact h.inside_top hB hC hd hd' rfl

theorem storeGlobal_paired (h : Twin m refs S (f :: U) B C vm w) (hB : Awaits dst B)
    (hC : Awaits dst' C) (hd : B.length = d) (hd' : C.length = d') (slot : UInt16) (src : Reg) :
    Paired m refs S dst dst' d d' (vm.storeGlobal f slot src) (w.storeGlobal f slot src) := by
  unfold Vm.storeGlobal
  by_cases hs : slot ∈ vm.forcedGlobalSlots
  · rw [if_pos hs, if_pos (h.slots ▸ hs)]
    exact h.inside_same hB hC hd hd'
  · rw [if_neg hs, if_neg (h.slots ▸ hs)]
    refine paired_orTrap rfl fun v _ => paired_orTrap ?_ fun gs _ => ?_
    · rw [h.module, h.globals]
    · exact .inside f U B C _ _ { h with globals := rfl } hB hC hd hd'

theorem callFunction_paired (h : Twin m refs S (f :: U) B C vm w) (hB : Awaits dst B)
    (hC : Awaits dst' C) (hd : B.length = d) (hd' : C.length = d') {fi : UInt16} (hfi : fi ∈ S)
    (r : Reg) (args : List (UInt16 × Reg)) :
    Paired m refs S dst dst' d d' (vm.callFunction f (U ++ B) fi r args)
      (w.callFunction f (U ++ C) fi r args) := by
  unfold Vm.callFunction
  by_cases hv : vm.config.maxCallDepth ≤ vm.callStack.length
  · rw [if_pos hv]
    exact .limit vm _ _ trivial
  · by_cases hw : w.config.maxCallDepth ≤ w.callStack.length
    · rw [if_pos hw]
      exact .limit' w _ _ trivial
    · rw [if_neg hv, if_neg hw, h.func? fi]
      cases vm.func? fi with
      | none => exact .trap vm w _
      | some func =>
        refine paired_orTrap rfl fun locals _ => ?_
        refine .inside _ ({ f with returnReg := some r } :: U) B C _ _
          (h.withTop (V := [CallFrame.enter fi func locals 0 none, { f with returnReg := some r }])
            ?_) hB hC hd hd'
        intro g hg
        rcases List.mem_cons.mp hg with rfl | hg
        · exact hfi
        · rw [List.mem_singleton.mp hg]
          exact h.inside f (List.mem_cons_self ..)

/-- The frame that waits takes the value. -/
theorem returnTo_awaits (hB : Awaits dst B) (v : Value) :
    ∃ c cs, Vm.returnTo v B = .ok (c :: cs) ∧ c.regGet dst = .ok v ∧
      (c :: cs).length = B.length := by
  obtain ⟨c, cs, rfl, hr, hlt⟩ := hB
  refine ⟨{ c with registers := c.registers.set dst.toNat v, returnReg := none }, cs, ?_, ?_, rfl⟩
  · simp [Vm.returnTo, hr, CallFrame.regSet, indexSet, hlt, Except.map]
  · simp [CallFrame.regGet, index, hlt]

/-- Both activations hand a value to the frame below. -/
theorem deliver_paired (h : Twin m refs S (f :: U) B C vm w) (hB : Awaits dst B)
    (hC : Awaits dst' C) (hd : B.length = d) (hd' : C.length = d') (v : Value) :
    Paired m refs S dst dst' d d'
      ((vm.withStack (U ++ B)).orTrap (Vm.returnTo v (U ++ B)) fun rest' =>
        .next ((vm.withStack (U ++ B)).withStack rest'))
      ((w.withStack (U ++ C)).orTrap (Vm.returnTo v (U ++ C)) fun rest' =>
        .next ((w.withStack (U ++ C)).withStack rest')) := by
  cases U with
  | nil =>
    obtain ⟨c, cs, hc, hv, hl⟩ := returnTo_awaits hB v
    obtain ⟨c', cs', hc', hv', hl'⟩ := returnTo_awaits hC v
    rw [List.nil_append, List.nil_append, hc, hc']
    exact .back v _ _ h.globals ⟨c, cs, rfl, hv, hl.trans hd⟩ ⟨c', cs', rfl, hv', hl'.trans hd'⟩
  | cons c V =>
    have hV : ∀ x ∈ c :: V, x.funcIndex ∈ S := fun x hx => h.inside x (List.mem_cons_of_mem f hx)
    rw [List.cons_append, List.cons_append]
    cases hr : c.returnReg with
    | none =>
      have hstay : ∀ cs, Vm.returnTo v (c :: cs) = .ok (c :: cs) := by
        intro cs
        simp [Vm.returnTo, hr]
      rw [hstay, hstay]
      exact .inside c V B C _ _ ⟨h.left, h.right, h.globals, h.forced, h.slots, rfl, rfl, hV, h.below⟩
        hB hC hd hd'
    | some r =>
      have hset : ∀ cs, Vm.returnTo v (c :: cs) =
          (c.regSet r v).map fun c' => { c' with returnReg := none } :: cs := by
        intro cs
        simp [Vm.returnTo, hr]
      rw [hset, hset]
      cases hx : c.regSet r v with
      | error t => exact .trap _ _ t
      | ok c' =>
        refine .inside { c' with returnReg := none } V B C _ _
          ⟨h.left, h.right, h.globals, h.forced, h.slots, rfl, rfl, ?_, h.below⟩ hB hC hd hd'
        intro x hxm
        rcases List.mem_cons.mp hxm with rfl | hxm
        · have := hV c (List.mem_cons_self ..)
          rwa [← (alike_regSet hx).funcIndex] at this
        · exact hV x (List.mem_cons_of_mem c hxm)

theorem ret_paired (h : Twin m refs S (f :: U) B C vm w) (hB : Awaits dst B)
    (hC : Awaits dst' C) (hd : B.length = d) (hd' : C.length = d')
    (hsave : vm.saveRetainedLocals = vm) (hsave' : w.saveRetainedLocals = w) (r : Reg) :
    Paired m refs S dst dst' d d' (vm.ret f (U ++ B) r) (w.ret f (U ++ C) r) := by
  refine paired_orTrap rfl fun v _ => ?_
  have hB' : (U ++ B).isEmpty = false := by
    obtain ⟨c, cs, rfl, -⟩ := hB
    simp
  have hC' : (U ++ C).isEmpty = false := by
    obtain ⟨c, cs, rfl, -⟩ := hC
    simp
  rw [hsave, hsave']
  simp only [hB', hC', Bool.false_eq_true, if_false]
  exact deliver_paired h hB hC hd hd' v

/-! ## References -/

theorem modify_append {α : Type} (g : α → α) :
    ∀ (xs ys : List α) (i : Nat), (xs ++ ys).modify i g =
      if i < xs.length then xs.modify i g ++ ys else xs ++ ys.modify (i - xs.length) g
  | [], ys, i => by simp
  | x :: xs, ys, 0 => by simp
  | x :: xs, ys, i + 1 => by
    have ih := modify_append g xs ys i
    simp only [List.cons_append, List.modify_succ_cons, List.length_cons, Nat.add_lt_add_iff_right,
      Nat.add_sub_add_right, ih]
    split
    · rfl
    · rfl

theorem forall₂_modify {α : Type} {R : α → α → Prop} {g : α → α} (hg : ∀ x y, R x y → R (g x) (g y))
    {xs ys : List α} (h : List.Forall₂ R xs ys) (i : Nat) :
    List.Forall₂ R (xs.modify i g) (ys.modify i g) := by
  induction h generalizing i with
  | nil => simp
  | cons hxy hrest ih =>
    cases i with
    | zero => exact .cons (hg _ _ hxy) hrest
    | succ i => exact .cons hxy (ih i)

theorem forall₂_modify_self {α : Type} {R : α → α → Prop} {g : α → α} (hr : ∀ x, R x x)
    (hg : ∀ x, R x (g x)) : ∀ (xs : List α) (i : Nat), List.Forall₂ R xs (xs.modify i g)
  | [], i => by simp
  | x :: xs, 0 => .cons (hg x) (List.forall₂_same.mpr fun y _ => hr y)
  | x :: xs, i + 1 => .cons (hr x) (forall₂_modify_self hr hg xs i)

/-- Frames that differ in their variables only. -/
structure CallFrame.SameButLocals (f g : CallFrame) : Prop where
  funcIndex : g.funcIndex = f.funcIndex
  registers : g.registers = f.registers
  returnReg : g.returnReg = f.returnReg

/-- The frame at position `i` from the bottom with one variable overwritten. -/
def pokeFrame (i : Nat) (slot : UInt16) (v : Value) (stack : List CallFrame) : List CallFrame :=
  (stack.reverse.modify i fun fr => { fr with locals := fr.locals.set slot.toNat v }).reverse

theorem pokeFrame_same (i : Nat) (slot : UInt16) (v : Value) (stack : List CallFrame) :
    List.Forall₂ CallFrame.SameButLocals stack (pokeFrame i slot v stack) := by
  have h := forall₂_modify_self (R := CallFrame.SameButLocals)
    (g := fun fr => { fr with locals := fr.locals.set slot.toNat v }) (fun x => ⟨rfl, rfl, rfl⟩)
    (fun x => ⟨rfl, rfl, rfl⟩) stack.reverse i
  have := List.rel_reverse h
  rwa [List.reverse_reverse] at this

theorem pokeFrame_sameLocals (i : Nat) (slot : UInt16) (v : Value)
    (h : List.Forall₂ SameLocals B C) :
    List.Forall₂ SameLocals (pokeFrame i slot v B) (pokeFrame i slot v C) := by
  refine List.rel_reverse (forall₂_modify ?_ (List.rel_reverse h) i)
  intro x y hxy
  show y.locals.set slot.toNat v = x.locals.set slot.toNat v
  rw [show y.locals = x.locals from hxy]

theorem Awaits.poke (hB : Awaits dst B) (i : Nat) (slot : UInt16) (v : Value) :
    Awaits dst (pokeFrame i slot v B) := by
  obtain ⟨c, cs, rfl, hr, hlt⟩ := hB
  have h := pokeFrame_same i slot v (c :: cs)
  generalize pokeFrame i slot v (c :: cs) = B' at h
  cases h with
  | cons hc hrest => exact ⟨_, _, rfl, hc.returnReg.trans hr, hc.registers ▸ hlt⟩

theorem pokeFrame_append (i : Nat) (slot : UInt16) (v : Value) (U B : List CallFrame) :
    pokeFrame i slot v (U ++ B) =
      if i < B.length then U ++ pokeFrame i slot v B
      else pokeFrame (i - B.length) slot v U ++ B := by
  unfold pokeFrame
  rw [List.reverse_append, modify_append, List.length_reverse]
  split
  · simp
  · simp

theorem poke_paired (h : Twin m true S (f :: U) B C vm w) (hB : Awaits dst B) (hC : Awaits dst' C)
    (hd : B.length = d) (hd' : C.length = d') (i : Nat) (slot : UInt16) (v : Value) :
    Paired m true S dst dst' d d' (.next (vm.withStack (pokeFrame i slot v vm.callStack)))
      (.next (w.withStack (pokeFrame i slot v w.callStack))) := by
  have hlen := (h.below rfl).length_eq
  rw [h.stack, h.stack', pokeFrame_append, pokeFrame_append, ← hlen]
  by_cases hi : i < B.length
  · rw [if_pos hi, if_pos hi]
    have hB' := (pokeFrame_same i slot v B).length_eq
    have hC' := (pokeFrame_same i slot v C).length_eq
    exact .inside f U _ _ _ _
      ⟨h.left, h.right, h.globals, h.forced, h.slots, rfl, rfl, h.inside,
        fun hr => pokeFrame_sameLocals i slot v (h.below hr)⟩
      (hB.poke i slot v) (hC.poke i slot v) (hB'.symm.trans hd) (hC'.symm.trans hd')
  · rw [if_neg hi, if_neg hi]
    have hsame := pokeFrame_same (i - B.length) slot v (f :: U)
    have hin := h.inside
    generalize pokeFrame (i - B.length) slot v (f :: U) = V at hsame
    cases hsame with
    | @cons _ g _ V' hg hrest =>
      refine .inside g V' B C _ _
        ⟨h.left, h.right, h.globals, h.forced, h.slots, rfl, rfl, ?_, h.below⟩ hB hC hd hd'
      intro x hx
      obtain ⟨y, hy, hyx⟩ : ∃ y ∈ f :: U, CallFrame.SameButLocals y x := by
        have hall : List.Forall₂ CallFrame.SameButLocals (f :: U) (g :: V') := .cons hg hrest
        obtain ⟨n, hn, hxn⟩ := List.getElem_of_mem hx
        have hn' : n < (f :: U).length := hall.length_eq ▸ hn
        refine ⟨(f :: U)[n], List.getElem_mem hn', ?_⟩
        rw [← hxn]
        exact hall.get hn' hn
      exact hyx.funcIndex ▸ hin y hy

theorem derefStore_paired (h : Twin m true S (f :: U) B C vm w) (hB : Awaits dst B)
    (hC : Awaits dst' C) (hd : B.length = d) (hd' : C.length = d') (p v : Value) :
    Paired m true S dst dst' d d' (vm.derefStore p v) (w.derefStore p v) := by
  unfold Vm.derefStore
  split
  · next tag slot =>
    by_cases h0 : tag = 0
    · rw [if_pos h0, if_pos h0]
      refine paired_orTrap (by rw [h.globals]) fun gs _ => ?_
      exact .inside f U B C _ _ { h with globals := rfl } hB hC hd hd'
    · rw [if_neg h0, if_neg h0]
      by_cases h1 : tag = 1
      · rw [if_pos h1, if_pos h1]
        refine .inside f U B C _ _ { h with globals := ?_ } hB hC hd hd'
        show w.globals.set slot.toNat v = vm.globals.set slot.toNat v
        rw [h.globals]
      · rw [if_neg h1, if_neg h1]
        exact poke_paired h hB hC hd hd' (tag - 2).toNat slot v
  · exact h.inside_same hB hC hd hd'

/-! ## Instructions -/

variable [F64Ops]

/-- An instruction that keeps to its frame computes the same in both. -/
theorem compute_twin (h : Twin m refs S U B C vm w) {i : Instruction} (hk : keepsToFrame i = true)
    (hr : usesReference i = true → refs = true) (func : Function) (f : CallFrame) :
    w.compute func f i = vm.compute func f i := by
  cases i with
  | loadLocal r slot =>
    have : ∀ l x, w.overlay l slot x = vm.overlay l slot x := by
      intro l x
      unfold Vm.overlay Vm.forced?
      rw [h.forced]
    exact congrArg (fun x => some (r, x)) (this _ _)
  | loadGlobal r slot =>
    have : w.overlay w.module.globals slot (index w.globals slot.toNat) =
        vm.overlay vm.module.globals slot (index vm.globals slot.toNat) := by
      unfold Vm.overlay Vm.forced?
      rw [h.forced, h.module, h.globals]
    exact congrArg (fun x => some (r, x)) this
  | makeRefLocal r slot =>
    obtain rfl := hr rfl
    have : w.makeRefLocal slot = vm.makeRefLocal slot := by
      unfold Vm.makeRefLocal
      rw [h.length]
    exact congrArg (fun x => some (r, x)) this
  | deref r ptr =>
    obtain rfl := hr rfl
    have : w.deref = vm.deref := funext h.deref
    exact congrArg (fun g => some (r, (f.regGet ptr).map g)) this
  | loadArray _ _ _ | loadField _ _ _ | loadFieldIndex _ _ _ _ | systemTime _ => cases hk
  | _ => rfl

theorem control_paired (h : Twin m refs S (f :: U) B C vm w) (hB : Awaits dst B)
    (hC : Awaits dst' C) (hd : B.length = d) (hd' : C.length = d')
    (hsave : vm.saveRetainedLocals = vm) (hsave' : w.saveRetainedLocals = w) {i : Instruction}
    (hk : keepsToFrame i = true) (hr : usesReference i = true → refs = true)
    (hcall : ∀ fi r args, i = .call fi r args → fi ∈ S) (func : Function) :
    Paired m refs S dst dst' d d' (vm.control func f (U ++ B) i) (w.control func f (U ++ C) i) := by
  cases i with
  | storeLocal slot src =>
    refine paired_orTrap rfl fun v _ => paired_orTrap rfl fun f' hf' => ?_
    refine h.inside_top hB hC hd hd' ?_
    unfold Vm.localSet at hf'
    cases hx : indexSet f.locals slot.toNat (narrowValue v (slotWidth func.locals slot)) with
    | error t => simp [hx, Except.map] at hf'
    | ok ls =>
      simp only [hx, Except.map, Except.ok.injEq] at hf'
      rw [← hf']
  | storeGlobal slot src => exact storeGlobal_paired h hB hC hd hd' slot src
  | jump l => exact jumpTo_paired h hB hC hd hd' func l
  | jumpIf r l =>
    refine paired_orTrap rfl fun v _ => ?_
    split
    · exact jumpTo_paired h hB hC hd hd' func l
    · exact h.inside_same hB hC hd hd'
  | jumpIfNot r l =>
    refine paired_orTrap rfl fun v _ => ?_
    split
    · exact h.inside_same hB hC hd hd'
    · exact jumpTo_paired h hB hC hd hd' func l
  | call fi r args => exact callFunction_paired h hB hC hd hd' (hcall fi r args rfl) r args
  | ret r => exact ret_paired h hB hC hd hd' hsave hsave' r
  | derefStore ptr val =>
    obtain rfl := hr rfl
    exact paired_orTrap rfl fun p _ => paired_orTrap rfl fun v _ =>
      derefStore_paired h hB hC hd hd' p v
  | callFb _ _ _ | callMethod _ _ _ _ _ | retVoid | storeArray _ _ _ | storeField _ _ _
  | storeFieldIndex _ _ _ _ => cases hk
  | _ => exact h.inside_same hB hC hd hd'

theorem exec_paired (h : Twin m refs S (f :: U) B C vm w) (hB : Awaits dst B)
    (hC : Awaits dst' C) (hd : B.length = d) (hd' : C.length = d')
    (hsave : vm.saveRetainedLocals = vm) (hsave' : w.saveRetainedLocals = w) {i : Instruction}
    (hk : keepsToFrame i = true) (hr : usesReference i = true → refs = true)
    (hcall : ∀ fi r args, i = .call fi r args → fi ∈ S) (func : Function) :
    Paired m refs S dst dst' d d' (vm.exec func f (U ++ B) i) (w.exec func f (U ++ C) i) := by
  unfold Vm.exec
  rw [compute_twin h hk hr func f]
  cases vm.compute func f i with
  | none => exact control_paired h hB hC hd hd' hsave hsave' hk hr hcall func
  | some p =>
    refine paired_orTrap rfl fun v _ => paired_orTrap rfl fun f' hf' => ?_
    exact h.inside_top hB hC hd hd' (alike_regSet hf').funcIndex

/-- An iteration with an instruction to execute: a limit stops it, or it is
executed. -/
theorem step_instr {rest : List CallFrame} {func : Function} {i : Instruction}
    (hstack : vm.callStack = f :: rest) (hf : vm.func? f.funcIndex = some func)
    (hi : func.instructions[f.pc]? = some i) :
    (∃ v t, IsLimit t ∧ vm.step = Vm.trap v t) ∨
      ∃ e, vm.step = (vm.advance e f rest).exec func { f with pc := f.pc + 1 } rest i := by
  unfold Vm.step
  rw [hstack]
  simp only [hf, hi]
  rcases hp : vm.debug.shouldPause f.funcIndex f.pc (f :: rest).length func.sourceMap with
    ⟨e, reason⟩
  cases reason with
  | some reason => exact .inl ⟨_, .error .halt, trivial, rfl⟩
  | none =>
    simp only
    split
    · exact .inl ⟨_, .error (.executionLimit _), trivial, rfl⟩
    · exact .inr ⟨e, rfl⟩

/-- **One step of two activations that see the same goes the same way.** -/
theorem step_paired {fi : UInt16} (hself : SelfContained m refs fi)
    (h : Twin m refs (Callees m fi) (f :: U) B C vm w)
    (hB : Awaits dst B) (hC : Awaits dst' C) (hd : B.length = d) (hd' : C.length = d') :
    Paired m refs (Callees m fi) dst dst' d d' vm.step w.step := by
  have hstack : vm.callStack = f :: (U ++ B) := h.stack
  have hstack' : w.callStack = f :: (U ++ C) := h.stack'
  cases hf : vm.func? f.funcIndex with
  | none =>
    have hlost : ∀ (x : Vm) (rest), x.callStack = f :: rest → x.func? f.funcIndex = none →
        x.step = x.trap .indexOutOfBounds := by
      intro x rest hx hn
      unfold Vm.step
      rw [hx]
      simp only [hn]
    rw [hlost vm _ hstack hf, hlost w _ hstack' ((h.func? _).trans hf)]
    exact .trap vm w _
  | some func =>
    have hf' : w.func? f.funcIndex = some func := (h.func? _).trans hf
    have hin : f.funcIndex ∈ Callees m fi := h.inside f (List.mem_cons_self ..)
    have hfm : m.functions[f.funcIndex.toNat]? = some func := h.left ▸ hf
    obtain ⟨hkind, hinstr⟩ := hself f.funcIndex hin func hfm
    cases hi : func.instructions[f.pc]? with
    | none =>
      have hend : ∀ (x : Vm) (rest), x.callStack = f :: rest → x.func? f.funcIndex = some func →
          x.step = x.fallOff rest := by
        intro x rest hx hn
        unfold Vm.step
        rw [hx]
        simp only [hn, hi]
      rw [hend vm _ hstack hf, hend w _ hstack' hf']
      unfold Vm.fallOff
      rw [saveRetainedLocals_function hstack hf hkind, saveRetainedLocals_function hstack' hf' hkind]
      exact deliver_paired h hB hC hd hd' .void
    | some i =>
      obtain ⟨hk, hr⟩ := hinstr i (List.mem_of_getElem? hi)
      rcases step_instr hstack hf hi with ⟨v, t, ht, hs⟩ | ⟨e, hs⟩
      · rw [hs]
        exact .limit v t _ ht
      · rcases step_instr hstack' hf' hi with ⟨v, t, ht, hs'⟩ | ⟨e', hs'⟩
        · rw [hs']
          exact .limit' v t _ ht
        · rw [hs, hs']
          have hadv : Twin m refs (Callees m fi) ({ f with pc := f.pc + 1 } :: U) B C
              (vm.advance e f (U ++ B)) (w.advance e' f (U ++ C)) := by
            refine ⟨h.left, h.right, h.globals, h.forced, h.slots, rfl, rfl, ?_, h.below⟩
            intro x hx
            rcases List.mem_cons.mp hx with rfl | hx
            · exact hin
            · exact h.inside x (List.mem_cons_of_mem f hx)
          refine exec_paired hadv hB hC hd hd' (saveRetainedLocals_function rfl hf hkind)
            (saveRetainedLocals_function rfl hf' hkind) hk hr ?_ func
          rintro j r args rfl
          exact hin.tail ⟨func, r, args, hfm, List.mem_of_getElem? hi⟩

/-! ## Whole calls -/

/-- The call was stopped by a limit. -/
def LimitStop (r : Stop) : Prop := ∃ t, r.2 = .error t ∧ IsLimit t

/-- The same value or trap; with a value, the same globals. -/
def SameResult (r r' : Stop) : Prop :=
  r'.2 = r.2 ∧ ∀ v, r.2 = .ok v → r'.1.globals = r.1.globals

theorem callStep_trap {n : Nat} {r : Reg} {v : Vm} {t : Trap} (h : vm.step = Vm.trap v t) :
    callStep n r vm = .halt (v, .error t) := by
  unfold callStep
  rw [h]
  rfl

theorem callStep_inside {n : Nat} {r : Reg} {v : Vm} (h : vm.step = .next v)
    (hlen : n < v.callStack.length) : callStep n r vm = .next v := by
  unfold callStep
  rw [h]
  simp only
  rw [if_neg (by omega)]

theorem callStep_took {n : Nat} {r : Reg} {v : Vm} {x : Value} (h : vm.step = .next v)
    (ht : Took r x n v) : callStep n r vm = .halt (v, .ok x) := by
  obtain ⟨c, cs, hstack, hx, hlen⟩ := ht
  unfold callStep
  rw [h]
  simp only
  rw [if_pos (by omega), hstack]
  simp only [hx]

/-- The step two calls make now, given what the rest of them does. -/
theorem callRun_paired {n : Nat} {r : Stop}
    (ih : ∀ {f : CallFrame} {U B C : List CallFrame} {vm w : Vm}, Twin m refs S (f :: U) B C vm w →
      Awaits dst B → Awaits dst' C → B.length = d → C.length = d' →
      callRun n d dst vm = some r →
      ∃ r', callRun n d' dst' w = some r' ∧ (LimitStop r' ∨ SameResult r r'))
    (hp : Paired m refs S dst dst' d d' vm.step w.step)
    (hr : callRun (n + 1) d dst vm = some r) (hlim : ¬ LimitStop r) :
    ∃ r', callRun (n + 1) d' dst' w = some r' ∧ (LimitStop r' ∨ SameResult r r') := by
  generalize hs : vm.step = o at hp
  generalize hs' : w.step = o' at hp
  unfold callRun Core.run at hr ⊢
  cases hp with
  | limit v t _ ht =>
    rw [callStep_trap hs] at hr
    obtain rfl := Option.some.inj hr
    exact absurd ⟨t, rfl, ht⟩ hlim
  | limit' v t _ ht =>
    rw [callStep_trap hs']
    exact ⟨(v, .error t), rfl, .inl ⟨t, rfl, ht⟩⟩
  | trap v v' t =>
    rw [callStep_trap hs] at hr
    obtain rfl := Option.some.inj hr
    rw [callStep_trap hs']
    exact ⟨(v', .error t), rfl, .inr ⟨rfl, fun x hx => by cases hx⟩⟩
  | inside g V B' C' v v' h' hB' hC' he he' =>
    have hlen : d < v.callStack.length := by
      rw [h'.stack, List.length_append, List.length_cons]
      omega
    have hlen' : d' < v'.callStack.length := by
      rw [h'.stack', List.length_append, List.length_cons]
      omega
    rw [callStep_inside hs hlen] at hr
    rw [callStep_inside hs' hlen']
    exact ih h' hB' hC' he he' hr
  | back x v v' hg hv hv' =>
    rw [callStep_took hs hv] at hr
    obtain rfl := Option.some.inj hr
    rw [callStep_took hs' hv']
    exact ⟨(v', .ok x), rfl, .inr ⟨rfl, fun _ _ => hg⟩⟩

/-- **Two activations that see the same have the same result**, unless a limit
stops one of them. -/
theorem callRun_twin {fi : UInt16} (hself : SelfContained m refs fi) :
    ∀ (n : Nat) {f : CallFrame} {U B C : List CallFrame} {vm w : Vm} {r : Stop},
      Twin m refs (Callees m fi) (f :: U) B C vm w → Awaits dst B → Awaits dst' C →
      B.length = d → C.length = d' → callRun n d dst vm = some r → ¬ LimitStop r →
      ∃ r', callRun n d' dst' w = some r' ∧ (LimitStop r' ∨ SameResult r r')
  | 0, _, _, _, _, _, _, _, _, _, _, _, _, hr, _ => by simp [callRun, Core.run] at hr
  | n + 1, _, _, _, _, _, _, _, h, hB, hC, hd, hd', hr, hlim =>
    callRun_paired
      (fun h' hB' hC' he he' hr' => callRun_twin hself n h' hB' hC' he he' hr' hlim)
      (step_paired hself h hB hC hd hd') hr hlim

/-! ## What a call leaves alone -/

end

section

variable {m : Module} {S : Set UInt16} {B : List CallFrame} {vm : Vm}

theorem CallFrame.Alike.trans {f g h : CallFrame} (hfg : f.Alike g) (hgh : g.Alike h) :
    f.Alike h :=
  ⟨hgh.funcIndex.trans hfg.funcIndex, hgh.locals.trans hfg.locals,
    hgh.instanceSlot.trans hfg.instanceSlot⟩

theorem alike_trans {xs ys zs : List CallFrame} (h : List.Forall₂ CallFrame.Alike xs ys)
    (h' : List.Forall₂ CallFrame.Alike ys zs) : List.Forall₂ CallFrame.Alike xs zs := by
  induction h generalizing zs with
  | nil => exact h'
  | cons hxy _ ih =>
    cases h' with
    | cons hyz htail => exact .cons (hxy.trans hyz) (ih htail)

/-- The frames `V` of an activation on top of what `B` has become. -/
structure Above (m : Module) (S : Set UInt16) (B V : List CallFrame) (vm : Vm) : Prop where
  module : vm.module = m
  stack : ∃ B', vm.callStack = V ++ B' ∧ List.Forall₂ CallFrame.Alike B B'
  inside : ∀ g ∈ V, g.funcIndex ∈ S

theorem Above.push {U V W : List CallFrame} (h : Above m S B (U ++ V) vm)
    (hW : ∀ g ∈ W, g.funcIndex ∈ S) {rest : List CallFrame} (hrest : vm.callStack = U ++ rest) :
    Above m S B (W ++ V) (vm.withStack (W ++ rest)) := by
  obtain ⟨B', hB', hsame⟩ := h.stack
  rw [hrest, List.append_assoc] at hB'
  refine ⟨h.module, ⟨B', ?_, hsame⟩, fun g hg => ?_⟩
  · rw [List.append_cancel_left hB', Vm.withStack_callStack, List.append_assoc]
  · rcases List.mem_append.mp hg with hg | hg
    · exact hW g hg
    · exact h.inside g (List.mem_append_right U hg)

/-- The rest of the stack takes a value. -/
theorem Above.pop {f : CallFrame} {V rest rest' : List CallFrame} (h : Above m S B (f :: V) vm)
    (hrest : vm.callStack = f :: rest) (hsame : List.Forall₂ CallFrame.Alike rest rest') :
    ∃ W, W.length = V.length ∧ Above m S B W (vm.withStack rest') := by
  obtain ⟨B', hB', hBB'⟩ := h.stack
  rw [hrest, List.cons_append, List.cons.injEq] at hB'
  rw [hB'.2] at hsame
  obtain ⟨W, B'', rfl, hW, hB''⟩ := forall₂_append_split hsame
  refine ⟨W, hW.length_eq.symm, h.module, ⟨B'', rfl, alike_trans hBB' hB''⟩, ?_⟩
  intro g hg
  obtain ⟨n, hn, rfl⟩ := List.getElem_of_mem hg
  have hn' : n < V.length := hW.length_eq ▸ hn
  have := hW.get hn' hn
  exact this.funcIndex ▸ h.inside _ (List.mem_cons_of_mem f (List.getElem_mem hn'))

variable [F64Ops]

omit [F64Ops] in
theorem Above.saveRetainedLocals {fi : UInt16} {refs : Bool} (hself : SelfContained m refs fi)
    {f : CallFrame} {V : List CallFrame} (h : Above m (Callees m fi) B (f :: V) vm) :
    vm.saveRetainedLocals = vm := by
  obtain ⟨B', hB', -⟩ := h.stack
  cases hf : vm.func? f.funcIndex with
  | none =>
    unfold Vm.saveRetainedLocals
    rw [hB', List.cons_append]
    simp only [hf]
  | some func =>
    have hkind := (hself _ (h.inside f (List.mem_cons_self ..)) func (h.module ▸ hf)).1
    exact saveRetainedLocals_function hB' hf hkind

/-- A step of an activation without references leaves the instances alone,
and the frames below it up to the value it returns. -/
theorem step_leaves {fi : UInt16} (hself : SelfContained m false fi) {f : CallFrame}
    {V : List CallFrame} (h : Above m (Callees m fi) B (f :: V) vm) :
    (left vm.step).fbInstances = vm.fbInstances ∧
      ∃ W, Above m (Callees m fi) B W (left vm.step) := by
  obtain ⟨B', hB', hBB'⟩ := h.stack
  have hstack : vm.callStack = f :: (V ++ B') := hB'
  have hin : f.funcIndex ∈ Callees m fi := h.inside f (List.mem_cons_self ..)
  have hadv : ∀ d, Above m (Callees m fi) B ({ f with pc := f.pc + 1 } :: V)
      (vm.advance d f (V ++ B')) := fun d =>
    ⟨h.module, ⟨B', rfl, hBB'⟩, List.forall_mem_cons.mpr
      ⟨hin, fun g hg => h.inside g (List.mem_cons_of_mem f hg)⟩⟩
  have heff := vm.step_effect
  generalize vm.nextInstr = next at heff
  generalize left vm.step = vm' at heff ⊢
  cases heff with
  | idle => exact ⟨rfl, f :: V, h⟩
  | paused d => exact ⟨rfl, f :: V, h.module, h.stack, h.inside⟩
  | limit g rest d hs =>
    obtain ⟨rfl, rfl⟩ : g = f ∧ rest = V ++ B' := by simpa [hs] using hstack
    exact ⟨rfl, _, hadv d⟩
  | atEnd g rest rest' hs hsame =>
    obtain ⟨rfl, rfl⟩ : g = f ∧ rest = V ++ B' := by simpa [hs] using hstack
    rw [h.saveRetainedLocals hself]
    obtain ⟨W, -, hW⟩ := h.pop hstack hsame
    exact ⟨rfl, W, hW⟩
  | instr g rest func d i vm' hs hf hi he =>
    obtain ⟨rfl, rfl⟩ : g = f ∧ rest = V ++ B' := by simpa [hs] using hstack
    have hfm : m.functions[g.funcIndex.toNat]? = some func := h.module ▸ hf
    obtain ⟨hk, hr⟩ := (hself _ hin func hfm).2 i (List.mem_of_getElem? hi)
    have hone : ∀ x : CallFrame, x.funcIndex = g.funcIndex →
        Above m (Callees m fi) B ([x] ++ V) ((vm.advance d g (V ++ B')).withStack (x :: (V ++ B'))) :=
      fun x hx => (hadv d).push (U := [_]) (fun y hy => by
        rw [List.mem_singleton.mp hy, hx]
        exact hin) rfl
    cases he with
    | none => exact ⟨rfl, _, hadv d⟩
    | frame _ x hx => exact ⟨rfl, _, hone x hx.funcIndex⟩
    | storeLocal slot src v hv => exact ⟨rfl, _, hone _ rfl⟩
    | storeGlobal slot src v hv hn =>
      exact ⟨rfl, _, (hadv d).module, (hadv d).stack, (hadv d).inside⟩
    | call j r args callee locals hc hb =>
      refine ⟨rfl, _, (hadv d).push (U := [_]) (W := [_, _]) ?_ rfl⟩
      intro x hx
      rcases List.mem_cons.mp hx with rfl | hx
      · exact hin.tail ⟨func, r, args, hfm, List.mem_of_getElem? hi⟩
      · rw [List.mem_singleton.mp hx]
        exact hin
    | ret r rest' hsame =>
      rw [(hadv d).saveRetainedLocals hself]
      obtain ⟨W, -, hW⟩ := (hadv d).pop rfl hsame
      exact ⟨rfl, W, hW⟩
    | derefGlobal _ _ _ _ _ _ _ _ | derefFrame _ _ _ _ _ _ _ _ => cases hr rfl
    | storeArray _ _ _ _ _ _ _ | storeField _ _ _ _ _ | storeFieldIndex _ _ _ _ _ _ _
    | callFb _ _ _ _ _ _ _ | native _ _ _ _ _ _ _ _ | methodInit _ _ _ _ _ _ _ _ _ _
    | method _ _ _ _ _ _ _ _ _ _ _ _ _ _ _ | retVoid _ _ => cases hk

/-- A call that returns leaves the instances and the variables of the frames
below it as they were. -/
theorem callRun_leaves {fi : UInt16} (hself : SelfContained m false fi) {dst : Reg} :
    ∀ (n : Nat) {f : CallFrame} {V : List CallFrame} {vm v : Vm} {x : Value},
      Above m (Callees m fi) B (f :: V) vm → callRun n B.length dst vm = some (v, .ok x) →
      v.fbInstances = vm.fbInstances ∧ List.Forall₂ CallFrame.Alike B v.callStack
  | 0, _, _, _, _, _, _, hr => by simp [callRun, Core.run] at hr
  | n + 1, f, V, vm, v, x, h, hr => by
    obtain ⟨hinst, W, hW⟩ := step_leaves hself h
    obtain ⟨B', hstack, hsame⟩ := hW.stack
    have hlen := hsame.length_eq
    unfold callRun Core.run at hr
    cases hs : vm.step with
    | halt r =>
      have hc : callStep B.length dst vm = .halt r := by
        unfold callStep
        rw [hs]
      rw [hc] at hr
      obtain rfl := Option.some.inj hr
      have hend : v.callStack = [] := by
        rcases vm.step_ends with ⟨d, -, hd⟩ | he
        · rw [hs] at hd
          cases hd
        · rw [hs] at he
          exact he
      rw [hs, left_halt] at hinst hstack
      rw [hend, eq_comm, List.append_eq_nil_iff] at hstack
      rw [hstack.2] at hsame
      exact ⟨hinst, hend ▸ hsame⟩
    | next w =>
      rw [hs, left_next] at hinst hW hstack
      by_cases hle : w.callStack.length ≤ B.length
      · have hc : ∃ y, callStep B.length dst vm = .halt (w, y) := by
          unfold callStep
          rw [hs]
          exact ⟨_, if_pos hle⟩
        obtain ⟨y, hc⟩ := hc
        rw [hc] at hr
        obtain ⟨rfl, -⟩ := Prod.mk.inj (Option.some.inj hr)
        have hWnil : W = [] := by
          rw [hstack, List.length_append] at hle
          exact List.eq_nil_of_length_eq_zero (by omega)
        rw [hWnil, List.nil_append] at hstack
        exact ⟨hinst, hstack ▸ hsame⟩
      · rw [callStep_inside hs (by omega)] at hr
        cases W with
        | nil =>
          rw [hstack, List.nil_append] at hle
          omega
        | cons g W' =>
          obtain ⟨h1, h2⟩ := callRun_leaves hself n hW hr
          exact ⟨h1.trans hinst, h2⟩

/-! ## Calls with equal arguments -/

/-- The argument registers of the frame hold these values, each for its
parameter. -/
def Passes (f : CallFrame) (regs : List (UInt16 × Reg)) (args : List (UInt16 × Value)) : Prop :=
  List.Forall₂ (fun p a => p.1 = a.1 ∧ f.regGet p.2 = .ok a.2) regs args

/-- The machine is about to execute a call of `fi` with the arguments `args`,
whose result goes to register `dst`. -/
def AtCall (m : Module) (fi : UInt16) (dst : Reg) (args : List (UInt16 × Value)) (vm : Vm) : Prop :=
  vm.module = m ∧ ∃ f rest func regs, vm.callStack = f :: rest ∧
    m.functions[f.funcIndex.toNat]? = some func ∧
    func.instructions[f.pc]? = some (.call fi dst regs) ∧ dst.toNat < f.registers.length ∧
    Passes f regs args

omit [F64Ops] in
/-- What the callee gets depends on the values only. -/
theorem bindArgs_passes {f g : CallFrame} {offset : Nat} {regs regs' : List (UInt16 × Reg)}
    {args : List (UInt16 × Value)} (hf : Passes f regs args) (hg : Passes g regs' args)
    (locals : List Value) :
    Vm.bindArgs g offset regs' locals = Vm.bindArgs f offset regs locals := by
  induction hf generalizing regs' locals with
  | nil =>
    cases hg
    rfl
  | cons hp _ ih =>
    cases hg with
    | cons hq htail =>
      obtain ⟨hpa, hpv⟩ := hp
      obtain ⟨hqa, hqv⟩ := hq
      unfold Vm.bindArgs
      simp only [hpa, hpv, hqa, hqv, bind, Except.bind]
      split
      · rfl
      · exact ih htail _

/-- The step of a call instruction. -/
theorem step_call {fi : UInt16} {dst : Reg} {f : CallFrame} {rest : List CallFrame}
    {func : Function} {regs : List (UInt16 × Reg)} (hstack : vm.callStack = f :: rest)
    (hf : vm.func? f.funcIndex = some func)
    (hi : func.instructions[f.pc]? = some (.call fi dst regs)) :
    (∃ v t, IsLimit t ∧ vm.step = Vm.trap v t) ∨
      ∃ e, vm.step = (vm.advance e f rest).callFunction { f with pc := f.pc + 1 } rest fi dst regs :=
  step_instr hstack hf hi

omit [F64Ops] in
/-- The state after a call instruction: a limit, an invalid function, an
argument that cannot be bound, or a new frame on top of the waiting caller. -/
theorem callFunction_cases (v : Vm) (fi : UInt16) (dst : Reg) (f : CallFrame)
    (rest : List CallFrame) (regs : List (UInt16 × Reg)) :
    (∃ t, IsLimit t ∧ v.callFunction f rest fi dst regs = v.trap t) ∨
      v.callFunction f rest fi dst regs = match v.func? fi with
        | none => v.trap (.error (.invalidFunction fi))
        | some func => v.orTrap (Vm.bindArgs f 0 regs func.locals.defaults) fun locals =>
          .next (v.withStack (CallFrame.enter fi func locals 0 none ::
            { f with returnReg := some dst } :: rest)) := by
  unfold Vm.callFunction
  by_cases hd : v.config.maxCallDepth ≤ v.callStack.length
  · rw [if_pos hd]
    exact .inl ⟨.error (.stackOverflow _), trivial, rfl⟩
  · rw [if_neg hd]
    exact .inr rfl

/-- Two calls with equal arguments begin the same way. -/
theorem call_paired {fi : UInt16} {refs : Bool} {dst dst' : Reg} {args : List (UInt16 × Value)}
    {w : Vm} (hv : AtCall m fi dst args vm) (hw : AtCall m fi dst' args w)
    (hg : w.globals = vm.globals) (hforced : w.forcedVariables = vm.forcedVariables)
    (hslots : w.forcedGlobalSlots = vm.forcedGlobalSlots)
    (hbelow : refs = true → List.Forall₂ SameLocals vm.callStack w.callStack) :
    Paired m refs (Callees m fi) dst dst' vm.callStack.length w.callStack.length vm.step w.step := by
  obtain ⟨hm, f, rest, func, regs, hstack, hf, hi, hdst, hp⟩ := hv
  obtain ⟨hm', g, rest', func', regs', hstack', hf', hi', hdst', hp'⟩ := hw
  have hfv : vm.func? f.funcIndex = some func := by
    rw [Vm.func?, hm]
    exact hf
  have hfw : w.func? g.funcIndex = some func' := by
    rw [Vm.func?, hm']
    exact hf'
  rcases step_call hstack hfv hi with ⟨v, t, ht, hs⟩ | ⟨e, hs⟩
  · rw [hs]
    exact .limit v t _ ht
  · rcases step_call hstack' hfw hi' with ⟨v, t, ht, hs'⟩ | ⟨e', hs'⟩
    · rw [hs']
      exact .limit' v t _ ht
    · rw [hs, hs']
      rcases callFunction_cases (vm.advance e f rest) fi dst { f with pc := f.pc + 1 } rest regs with
        ⟨t, ht, hc⟩ | hc
      · rw [hc]
        exact .limit _ t _ ht
      · rcases callFunction_cases (w.advance e' g rest') fi dst' { g with pc := g.pc + 1 } rest'
          regs' with ⟨t, ht, hc'⟩ | hc'
        · rw [hc']
          exact .limit' _ t _ ht
        · rw [hc, hc']
          have hfunc : (w.advance e' g rest').func? fi = (vm.advance e f rest).func? fi := by
            simp only [Vm.func?, Vm.advance, hm, hm']
          rw [hfunc]
          cases (vm.advance e f rest).func? fi with
          | none => exact .trap _ _ _
          | some callee =>
            have hpf : Passes { f with pc := f.pc + 1 } regs args := hp
            have hpg : Passes { g with pc := g.pc + 1 } regs' args := hp'
            refine paired_orTrap (bindArgs_passes hpf hpg _) fun locals _ => ?_
            refine .inside _ [] ({ f with pc := f.pc + 1, returnReg := some dst } :: rest)
              ({ g with pc := g.pc + 1, returnReg := some dst' } :: rest') _ _
              ⟨hm, hm', hg, hforced, hslots, rfl, rfl, ?_, ?_⟩ ⟨_, _, rfl, rfl, hdst⟩
              ⟨_, _, rfl, rfl, hdst'⟩ (by simp [hstack]) (by simp [hstack'])
            · intro x hx
              rw [List.mem_singleton.mp hx]
              exact Relation.ReflTransGen.refl
            · intro hr
              have hb := hbelow hr
              rw [hstack, hstack'] at hb
              cases hb with
              | cons h1 h2 => exact .cons h1 h2

/-- The first step of a call, when it makes one. -/
theorem call_above {fi : UInt16} {dst : Reg} {args : List (UInt16 × Value)}
    (hv : AtCall m fi dst args vm) :
    (∃ v t, vm.step = Vm.trap v t) ∨ ∃ w f, vm.step = .next w ∧
      w.fbInstances = vm.fbInstances ∧ Above m (Callees m fi) vm.callStack [f] w := by
  obtain ⟨hm, f, rest, func, regs, hstack, hf, hi, hdst, hp⟩ := hv
  have hfv : vm.func? f.funcIndex = some func := by
    rw [Vm.func?, hm]
    exact hf
  rcases step_call hstack hfv hi with ⟨v, t, -, hs⟩ | ⟨e, hs⟩
  · exact .inl ⟨v, t, hs⟩
  · rw [hs]
    rcases callFunction_cases (vm.advance e f rest) fi dst { f with pc := f.pc + 1 } rest regs with
      ⟨t, -, hc⟩ | hc
    · exact .inl ⟨_, t, hc⟩
    · rw [hc]
      cases (vm.advance e f rest).func? fi with
      | none => exact .inl ⟨_, _, rfl⟩
      | some callee =>
        dsimp only
        cases Vm.bindArgs { f with pc := f.pc + 1 } 0 regs callee.locals.defaults with
        | error t => exact .inl ⟨_, t, rfl⟩
        | ok locals =>
          refine .inr ⟨_, CallFrame.enter fi callee locals 0 none, rfl, rfl, hm, ⟨_, rfl, ?_⟩, ?_⟩
          · rw [hstack]
            exact .cons ⟨rfl, rfl, rfl⟩ (List.forall₂_same.mpr fun x _ => .refl x)
          · intro x hx
            rw [List.mem_singleton.mp hx]
            exact Relation.ReflTransGen.refl

end

/-! ## Functions that call nothing -/

theorem selfContained_leaf {m : Module} {fi : UInt16} {func : Function}
    (hf : m.functions[fi.toNat]? = some func) (hk : func.kind = .function)
    (hi : func.instructions.all (fun i => keepsToFrame i && !usesReference i &&
      (match i with
        | .call _ _ _ => false
        | _ => true)) = true) : SelfContained m false fi := by
  rw [List.all_eq_true] at hi
  have hleaf : ∀ j, ¬ CallsFunction m fi j := by
    rintro j ⟨g, r, args, hg, hmem⟩
    rw [hf] at hg
    obtain rfl := Option.some.inj hg
    simpa using hi _ hmem
  intro j hj g hg
  obtain rfl : fi = j := by
    rcases Relation.ReflTransGen.cases_head hj with h | ⟨c, hc, -⟩
    · exact h
    · exact absurd hc (hleaf c)
  rw [hf] at hg
  obtain rfl := Option.some.inj hg
  refine ⟨hk, fun i hmem => ?_⟩
  have := hi i hmem
  simp only [Bool.and_eq_true, Bool.not_eq_true'] at this
  exact ⟨this.1.1, fun h => by rw [this.1.2] at h; cases h⟩

/-- The call the machine is about to execute: function, result register and
arguments. -/
def callSite (vm : Vm) : Option (UInt16 × Reg × List (UInt16 × Value)) :=
  match vm.callStack with
  | [] => none
  | f :: _ => match vm.module.functions[f.funcIndex.toNat]? with
    | none => none
    | some func => match func.instructions[f.pc]? with
      | some (.call fi dst regs) =>
        if dst.toNat < f.registers.length then
          match regs.mapM fun p => (f.regGet p.2).map fun v => (p.1, v) with
          | .ok args => some (fi, dst, args)
          | .error _ => none
        else none
      | _ => none

theorem passes_of_mapM {f : CallFrame} : ∀ {regs : List (UInt16 × Reg)}
    {args : List (UInt16 × Value)},
    regs.mapM (fun p => (f.regGet p.2).map fun v => (p.1, v)) = .ok args → Passes f regs args
  | [], args, h => by
    cases h
    exact .nil
  | p :: regs, args, h => by
    rw [List.mapM_cons] at h
    generalize hs : regs.mapM (fun p => (f.regGet p.2).map fun v => (p.1, v)) = tail at h
    cases hv : f.regGet p.2 with
    | error t =>
      rw [hv] at h
      cases h
    | ok v =>
      rw [hv] at h
      cases tail with
      | error t => cases h
      | ok rest =>
        cases h
        exact .cons ⟨rfl, hv⟩ (passes_of_mapM hs)

theorem atCall_of_callSite {vm : Vm} {fi : UInt16} {dst : Reg} {args : List (UInt16 × Value)}
    (h : callSite vm = some (fi, dst, args)) : AtCall vm.module fi dst args vm := by
  unfold callSite at h
  split at h
  · cases h
  · next f rest hstack =>
    split at h
    · cases h
    · next func hf =>
      split at h
      · next fi' dst' regs hi =>
        split at h
        · next hdst =>
          split at h
          · next args' hargs =>
            cases h
            exact ⟨rfl, f, rest, func, regs, hstack, hf, hi, hdst, passes_of_mapM hargs⟩
          · cases h
        · cases h
      · cases h

/-- The machine `n` steps into the first scan cycle of `program`. -/
def reached [F64Ops] (m : Module) (program : String) (n : Nat) : Option Vm :=
  ((Vm.new m .default).enterRun program).bind (stepped Vm.step n)

/-- `Twice(3)` called two times in a row. -/
def twiceTwice : SourceFile := ⟨[
  .function ⟨"Twice", .int, [.inSection .varInput [.plain "n" .int]],
    [.assign "Twice" (.binary .add (.ofName "n") (.ofName "n") noRange)]⟩,
  .program ⟨"Main", [.of [.plain "x" .int, .plain "y" .int]],
    [.assign "x" (.functionCall ["Twice"] [.positional (.ofInt 3)] noRange),
     .assign "y" (.functionCall ["Twice"] [.positional (.ofInt 3)] noRange)]⟩]⟩

/-- The two calls of `Main` are of one function with one argument, in states that agree
on what it reads; the first returns 6. -/
def callsTwice [F64Ops] (m : Module) : Bool :=
  match m.functions[0]?, reached m "Main" 1, reached m "Main" 10 with
  | some func, some v, some w => match callRun 20 v.callStack.length 0 v with
    | some r => decide (func.kind = .function) &&
      func.instructions.all (fun i => keepsToFrame i && !usesReference i &&
        (match i with
          | .call _ _ _ => false
          | _ => true)) &&
      decide (callSite v = some (0, 0, [(0, .int 3)])) &&
      decide (callSite w = some (0, 2, [(0, .int 3)])) &&
      decide (v.module = m ∧ w.module = m ∧ w.globals = v.globals ∧
        w.forcedVariables = v.forcedVariables ∧
        w.forcedGlobalSlots = v.forcedGlobalSlots) && decide (r.2 = .ok (.int 6))
    | none => false
  | _, _, _ => false

/-- A function that reads its array before it writes it. -/
def remember : SourceFile := ⟨[
  .function ⟨"Next", .int, [.of [.plain "a" (.array [(.ofInt 0, .ofInt 1)] .int)]],
    [.assign "Next" (.var [.identifier "a", .index [.ofInt 0]] noRange),
     .assignment ⟨[.identifier "a", .index [.ofInt 0]], noRange⟩ (.ofInt 1) noRange]⟩,
  .program ⟨"Main", [.of [.plain "x" .int, .plain "y" .int]],
    [.assign "x" (.functionCall ["Next"] [] noRange),
     .assign "y" (.functionCall ["Next"] [] noRange)]⟩]⟩

/-- The two calls of `Main` are of one function without arguments, in states that agree
on what it reads; the first returns 0 and the second 1. -/
def remembers [F64Ops] (m : Module) : Bool :=
  match reached m "Main" 0, reached m "Main" 10 with
  | some v, some w =>
    match callRun 20 v.callStack.length 0 v, callRun 20 w.callStack.length 1 w with
    | some r, some r' =>
      decide (callSite v = some (0, 0, [])) && decide (callSite w = some (0, 1, [])) &&
      decide (v.module = m ∧ w.module = m ∧ w.globals = v.globals ∧
        w.forcedVariables = v.forcedVariables) &&
      decide (r.2 = .ok (.int 0)) && decide (r'.2 = .ok (.int 1))
    | _, _ => false
  | _, _ => false

end RustPlc.Engine
