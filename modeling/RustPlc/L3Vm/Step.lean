import RustPlc.Core.Machine
import RustPlc.L3Vm.State

/-!
# The interpreter

One iteration of the loop in `Vm::execute` (crates/st-engine/src/vm.rs:1273-2046)
is `Vm.step`. An instruction that only puts a value into a register is in
`compute`; the others (stores, jumps, calls and returns) are in `control`.

The calls (`callFunction`, `callFb`, `callMethod`) and `saveRetainedLocals`
are the source's helpers of these names. A `registers[r]`, `locals[i]`,
`globals[i]` or `functions[i]` outside its vector is the trap
`indexOutOfBounds`.
-/
namespace RustPlc.Engine

open RustPlc.Ir RustPlc.Core

/-! ## Frames -/

namespace CallFrame

/-- mirrors crates/st-engine/src/vm.rs:2052-2054 -/
def regGet (f : CallFrame) (r : Reg) : Except Trap Value := index f.registers r.toNat

/-- mirrors crates/st-engine/src/vm.rs:2056-2058 -/
def regSet (f : CallFrame) (r : Reg) (v : Value) : Except Trap CallFrame :=
  (indexSet f.registers r.toNat v).map fun rs => { f with registers := rs }

/-- mirrors crates/st-engine/src/vm.rs:2060-2062 -/
def localGet (f : CallFrame) (slot : UInt16) : Except Trap Value := index f.locals slot.toNat

/-- A frame that starts to run `func`. -/
def enter (funcIndex : UInt16) (func : Function) (locals : List Value) (pc : Nat)
    (instanceSlot : Option UInt16) : CallFrame where
  funcIndex := funcIndex
  registers := List.replicate (max func.registerCount.toNat 1) Value.dflt
  locals := locals
  pc := pc
  returnReg := none
  instanceSlot := instanceSlot

/-- An operator with one register operand. -/
def unary (f : CallFrame) (src : Reg) (op : Value → Except Panic Value) : Except Trap Value := do
  let v ← f.regGet src
  liftPanic (op v)

/-- An operator with two register operands. -/
def binary (f : CallFrame) (l r : Reg) (op : Value → Value → Except Panic Value) :
    Except Trap Value := do
  let lv ← f.regGet l
  let rv ← f.regGet r
  liftPanic (op lv rv)

/-- An operator with three register operands. -/
def ternary (f : CallFrame) (a b c : Reg) (op : Value → Value → Value → Except Panic Value) :
    Except Trap Value := do
  let av ← f.regGet a
  let bv ← f.regGet b
  let cv ← f.regGet c
  liftPanic (op av bv cv)

end CallFrame

/-- The declared width of slot `slot`, `None` outside the layout. -/
def slotWidth (l : MemoryLayout) (slot : UInt16) : IntWidth :=
  match l.slots[slot.toNat]? with
  | some s => s.intWidth
  | none => .none

/-- What a step of the machine ends with: the machine as it is left, and the
value or the trap. -/
abbrev Stop := Vm × Except Trap Value

namespace Vm

/-! ## Storage helpers -/

/-- The forced value of a variable of this name. -/
def forced? (vm : Vm) (name : String) : Option Value :=
  Finmap.lookup (toUppercase name) vm.forcedVariables

/-- The force overlay of `LoadLocal` and `LoadGlobal`: a force on the slot's
name replaces what is stored. -/
def overlay (vm : Vm) (l : MemoryLayout) (slot : UInt16) (stored : Except Trap Value) :
    Except Trap Value :=
  match l.slots[slot.toNat]? with
  | some s => match vm.forced? s.name with
    | some v => .ok v
    | none => stored
  | none => stored

/-- The dimensions of the array type of a local slot. -/
def arrayDims (vm : Vm) (func : Function) (slot : UInt16) : Option (List (Int64 × Int64)) :=
  match func.locals.slots[slot.toNat]? with
  | some s => match s.ty with
    | .array td => match vm.module.typeDefs[td.toNat]? with
      | some (.array _ dims) => some dims
      | _ => none
    | _ => none
  | none => none

/-- The first lower bound, 0 for what is not an array.
mirrors crates/st-engine/src/vm.rs:1806-1815 -/
def arrayLo (vm : Vm) (func : Function) (slot : UInt16) : Int64 :=
  match vm.arrayDims func slot with
  | some ((lo, _) :: _) => lo
  | _ => 0

/-- The product of the dimensions' sizes onto `acc`. -/
def dimProductFrom (acc : Nat) : List (Int64 × Int64) → Except Panic Nat
  | [] => .ok acc
  | (l, h) :: ds => do
    let d ← checkedI64 (h.toInt - l.toInt)
    let n ← checkedI64 (d.toInt + 1)
    if acc * n.toInt.toNat < 2 ^ 64 then dimProductFrom (acc * n.toInt.toNat) ds
    else .error .arithmetic

/-- `dimensions.iter().map(|(l, h)| (h - l + 1).max(0) as usize).product()` -/
def dimProduct (dims : List (Int64 × Int64)) : Except Panic Nat := dimProductFrom 1 dims

/-- The number of elements a store allocates, 0 for what is not an array.
mirrors crates/st-engine/src/vm.rs:1832-1845 -/
def arrayTotal (vm : Vm) (func : Function) (slot : UInt16) : Except Panic Nat :=
  match vm.arrayDims func slot with
  | some dims => dimProduct dims
  | none => .ok 0

/-- `i as usize`: a negative number becomes a huge one. -/
def asUsize (i : Int64) : Nat := i.toUInt64.toNat

/-- The element position of index `raw`: `(raw_idx - lo) as usize`. -/
def flatIndex (raw lo : Int64) : Except Panic Nat :=
  (checkedI64 (raw.toInt - lo.toInt)).map asUsize

/-- `fb_instances.get(key).and_then(|xs| xs.get(i)).unwrap_or(Int(0))` -/
def instanceGet (vm : Vm) (key : InstanceKey) (i : Nat) : Value :=
  match Finmap.lookup key vm.fbInstances with
  | some xs => xs[i]?.getD Value.dflt
  | none => Value.dflt

/-- Put the content of one instance. -/
def putInstance (vm : Vm) (key : InstanceKey) (xs : List Value) : Vm :=
  { vm with fbInstances := Finmap.insert key xs vm.fbInstances }

/-- `xs` extended with default values to at least `n` entries. -/
def padTo (n : Nat) (xs : List Value) : List Value :=
  xs ++ List.replicate (n - xs.length) Value.dflt

/-- mirrors crates/st-engine/src/vm.rs:1867-1884: the instance is created or
extended so that position `i` exists. -/
def instanceSet (vm : Vm) (key : InstanceKey) (i : Nat) (v : Value) : Vm :=
  let entry := (Finmap.lookup key vm.fbInstances).getD (List.replicate (i + 1) Value.dflt)
  vm.putInstance key ((padTo (i + 1) entry).set i v)

/-- The key under which the running frame keeps the variable of `slot`. -/
def instanceKey (vm : Vm) (slot : UInt16) : InstanceKey := (vm.callerIdentity, slot)

section

variable [F64Ops]

/-! ## Instructions that fill a register -/

/-- mirrors crates/st-engine/src/vm.rs:1390-1397 -/
def divide (f : CallFrame) (l r : Reg) : Except Trap Value := do
  let rv ← f.regGet r
  if isIntZero rv then .error (.error .divisionByZero)
  else do
    let lv ← f.regGet l
    liftPanic (divValues lv rv)

/-- mirrors crates/st-engine/src/vm.rs:1398-1405 -/
def modulo (f : CallFrame) (l r : Reg) : Except Trap Value := do
  let rv ← f.regGet r
  if rv.asInt = 0 then .error (.error .divisionByZero)
  else do
    let lv ← f.regGet l
    liftPanic (remValues lv rv)

/-- mirrors crates/st-engine/src/vm.rs:1801-1824 -/
def loadArray (vm : Vm) (func : Function) (f : CallFrame) (baseSlot : UInt16) (idx : Reg) :
    Except Trap Value := do
  let raw ← f.regGet idx
  let flat ← liftPanic (flatIndex raw.asInt (vm.arrayLo func baseSlot))
  return vm.instanceGet (vm.instanceKey baseSlot) flat

/-- mirrors crates/st-engine/src/vm.rs:1885-1898 -/
def loadFieldIndex (vm : Vm) (f : CallFrame) (slot baseOffset : UInt16) (idx : Reg) :
    Except Trap Value := do
  let raw ← f.regGet idx
  let flat ← liftPanic (checkedUsizeAdd baseOffset.toNat (asUsize raw.asInt))
  return vm.instanceGet (vm.instanceKey slot) flat

/-- mirrors crates/st-engine/src/vm.rs:1922-1927: `(len as u16 - 1) + 2` -/
def makeRefLocal (vm : Vm) (slot : UInt16) : Except Trap Value :=
  let len := vm.callStack.length.toUInt16
  if len = 0 ∨ 65535 < len.toNat - 1 + 2 then .error (.panic .arithmetic)
  else .ok (.ref (len - 1 + 2) slot)

/-- mirrors crates/st-engine/src/vm.rs:1934-1957 -/
def deref (vm : Vm) : Value → Value
  | .ref tag slot =>
    if tag = 0 ∨ tag = 1 then vm.globals[slot.toNat]?.getD .void
    else match vm.frameAt (tag - 2).toNat with
      | some fr => fr.locals[slot.toNat]?.getD (.int 0)
      | none => .int 0
  | _ => .int 0

/-- The instructions whose only effect is to put a value into a register.
mirrors crates/st-engine/src/vm.rs:1316-1712, 1768-1957 -/
def compute (vm : Vm) (func : Function) (f : CallFrame) :
    Instruction → Option (Reg × Except Trap Value)
  | .loadConst dst v => some (dst, .ok v)
  | .move dst src => some (dst, f.regGet src)
  | .loadLocal dst slot => some (dst, vm.overlay func.locals slot (f.localGet slot))
  | .loadGlobal dst slot =>
    some (dst, vm.overlay vm.module.globals slot (index vm.globals slot.toNat))
  | .add dst l r => some (dst, f.binary l r addValues)
  | .sub dst l r => some (dst, f.binary l r subValues)
  | .mul dst l r => some (dst, f.binary l r mulValues)
  | .div dst l r => some (dst, divide f l r)
  | .mod dst l r => some (dst, modulo f l r)
  | .pow dst l r => some (dst, f.binary l r fun a b => .ok (powValues a b))
  | .neg dst src => some (dst, f.unary src negValue)
  | .cmpEq dst l r => some (dst, f.binary l r fun a b => .ok (eqValues a b))
  | .cmpNe dst l r => some (dst, f.binary l r fun a b => .ok (neValues a b))
  | .cmpLt dst l r => some (dst, f.binary l r fun a b => .ok (ltValues a b))
  | .cmpGt dst l r => some (dst, f.binary l r fun a b => .ok (gtValues a b))
  | .cmpLe dst l r => some (dst, f.binary l r fun a b => .ok (leValues a b))
  | .cmpGe dst l r => some (dst, f.binary l r fun a b => .ok (geValues a b))
  | .and dst l r => some (dst, f.binary l r fun a b => .ok (andValues a b))
  | .or dst l r => some (dst, f.binary l r fun a b => .ok (orValues a b))
  | .xor dst l r => some (dst, f.binary l r fun a b => .ok (xorValues a b))
  | .not dst src => some (dst, f.unary src fun v => .ok (notValue v))
  | .sqrt dst src => some (dst, f.unary src fun v => .ok (.real (F64Ops.sqrt v.asReal)))
  | .sin dst src => some (dst, f.unary src fun v => .ok (.real (F64Ops.sin v.asReal)))
  | .cos dst src => some (dst, f.unary src fun v => .ok (.real (F64Ops.cos v.asReal)))
  | .tan dst src => some (dst, f.unary src fun v => .ok (.real (F64Ops.tan v.asReal)))
  | .asin dst src => some (dst, f.unary src fun v => .ok (.real (F64Ops.asin v.asReal)))
  | .acos dst src => some (dst, f.unary src fun v => .ok (.real (F64Ops.acos v.asReal)))
  | .atan dst src => some (dst, f.unary src fun v => .ok (.real (F64Ops.atan v.asReal)))
  | .systemTime dst => some (dst, .ok (.time vm.elapsedTimeMs))
  | .ln dst src => some (dst, f.unary src fun v => .ok (.real (F64Ops.ln v.asReal)))
  | .log dst src => some (dst, f.unary src fun v => .ok (.real (F64Ops.log10 v.asReal)))
  | .exp dst src => some (dst, f.unary src fun v => .ok (.real (F64Ops.exp v.asReal)))
  | .toInt dst src => some (dst, f.unary src fun v => .ok (.int v.asInt))
  | .toReal dst src => some (dst, f.unary src fun v => .ok (.real v.asReal))
  | .toBool dst src => some (dst, f.unary src fun v => .ok (.bool v.asBool))
  | .toTime dst src => some (dst, f.unary src fun v => .ok (.time v.asTime))
  | .toTod dst src => some (dst, f.unary src fun v => .ok (wrapTod v))
  | .dtExtractDate dst src => some (dst, f.unary src extractDate)
  | .dtExtractTod dst src => some (dst, f.unary src fun v => .ok (wrapTod v))
  | .dayOfWeek dst src => some (dst, f.unary src fun v => .ok (weekday v))
  | .stringLen dst src =>
    some (dst, f.unary src fun v => .ok (.int (Int64.ofNat (byteLen (regStr v)))))
  | .stringConcat dst l r =>
    some (dst, f.binary l r fun a b => .ok (strValue (regStr a ++ regStr b)))
  | .stringLeft dst s n => some (dst, f.binary s n stringLeftOf)
  | .stringRight dst s n => some (dst, f.binary s n stringRightOf)
  | .stringMid dst s len pos => some (dst, f.ternary s len pos stringMidOf)
  | .stringFind dst hay needle =>
    some (dst, f.binary hay needle fun a b => .ok (stringFindOf a b))
  | .stringInsert dst s1 s2 pos => some (dst, f.ternary s1 s2 pos stringInsertOf)
  | .stringDelete dst s len pos => some (dst, f.ternary s len pos stringDeleteOf)
  | .stringReplace dst s1 s2 len pos =>
    some (dst, f.regGet pos >>= fun p => f.ternary s1 s2 len fun a b c => stringReplaceOf a b c p)
  | .stringTrim dst src => some (dst, f.unary src fun v => .ok (strValue (trim (regStr v))))
  | .stringLTrim dst src =>
    some (dst, f.unary src fun v => .ok (strValue (trimStart (regStr v))))
  | .stringRTrim dst src => some (dst, f.unary src fun v => .ok (strValue (trimEnd (regStr v))))
  | .stringToUpper dst src =>
    some (dst, f.unary src fun v => .ok (strValue ((regStr v).map Char.toUpper)))
  | .stringToLower dst src =>
    some (dst, f.unary src fun v => .ok (strValue ((regStr v).map Char.toLower)))
  | .intToString dst src =>
    some (dst, f.unary src fun v => .ok (.string (toString v.asInt.toInt)))
  | .uintToString dst src =>
    some (dst, f.unary src fun v => .ok (.string (toString v.asUInt.toNat)))
  | .realToString dst src =>
    some (dst, f.unary src fun v => .ok (.string (F64Ops.debugFmt v.asReal)))
  | .boolToString dst src =>
    some (dst, f.unary src fun v => .ok (.string (if v.asBool then "TRUE" else "FALSE")))
  | .stringToInt dst src =>
    some (dst, f.unary src fun v => .ok (.int ((parseI64 (trim (regStr v))).getD 0)))
  | .stringToUInt dst src =>
    some (dst, f.unary src fun v => .ok (.uint ((parseU64 (trim (regStr v))).getD 0)))
  | .stringToReal dst src =>
    some (dst, f.unary src fun v =>
      .ok (.real ((F64Ops.parse (String.ofList (trim (regStr v)))).getD F64.zero)))
  | .stringToBool dst src => some (dst, f.unary src fun v => .ok (stringToBoolOf v))
  | .toString dst src => some (dst, f.unary src fun v => .ok (.string (toStringOf v)))
  | .extractBit dst src bit => some (dst, f.unary src fun v => extractBitOf v bit)
  | .insertBit dst src bit val => some (dst, f.binary src val fun b v => insertBitOf b bit v)
  | .extractPartial dst src i size =>
    some (dst, f.unary src fun v => extractPartialOf v i size)
  | .insertPartial dst src i size val =>
    some (dst, f.binary src val fun b v => insertPartialOf b i size v)
  | .loadArray dst slot idx => some (dst, vm.loadArray func f slot idx)
  | .loadField dst slot field => some (dst, .ok (vm.instanceGet (vm.instanceKey slot) field.toNat))
  | .loadFieldIndex dst slot off idx => some (dst, vm.loadFieldIndex f slot off idx)
  | .makeRefLocal dst slot => some (dst, vm.makeRefLocal slot)
  | .makeRefGlobal dst slot => some (dst, .ok (.ref 0 slot))
  | .loadNull dst => some (dst, .ok .null)
  | .deref dst ptr => some (dst, (f.regGet ptr).map vm.deref)
  | _ => none

/-! ## Returning -/

/-- mirrors crates/st-engine/src/vm.rs:2282-2298. A method is named
`Class.Method`; its class decides how many of its locals are class
variables. `none` is a function index outside the module. -/
def findMethodClassVarCount (vm : Vm) (methodIndex classIndex : UInt16) : Option Nat := do
  let method ← vm.func? methodIndex
  let name := method.name.toList
  let fallback := (vm.func? classIndex).map fun c => c.locals.slots.length
  if '.' ∈ name then
    match vm.module.findFunction (String.ofList (name.takeWhile (· != '.'))) with
    | some (_, c) => some c.locals.slots.length
    | none => fallback
  else fallback

/-- The first `n` entries of `state` replaced by those of `locals`. -/
def mergePrefix (n : Nat) (locals state : List Value) : List Value :=
  let k := min n (min state.length locals.length)
  locals.take k ++ state.drop k

/-- mirrors crates/st-engine/src/vm.rs:2079-2135: what the running frame
leaves behind when it returns. -/
def saveRetainedLocals (vm : Vm) : Vm :=
  match vm.callStack with
  | [] => vm
  | f :: rest => match vm.func? f.funcIndex with
    | none => vm
    | some func => match func.kind, f.instanceSlot, rest with
      | .program, _, _ =>
        { vm with retainedLocals := Finmap.insert f.funcIndex f.locals vm.retainedLocals }
      | .functionBlock, some slot, caller :: _ => vm.putInstance (caller.identity, slot) f.locals
      | .cls, some slot, caller :: _ => vm.putInstance (caller.identity, slot) f.locals
      | .method, some slot, caller :: _ =>
        let n := (vm.findMethodClassVarCount f.funcIndex 0).getD 0
        match Finmap.lookup (caller.identity, slot) vm.fbInstances with
        | some state => vm.putInstance (caller.identity, slot) (mergePrefix n f.locals state)
        | none => vm.putInstance (caller.identity, slot) (f.locals.take n)
      | _, _, _ => vm

omit [F64Ops] in
/-- Returning changes the retained locals and the instances only. -/
theorem saveRetainedLocals_eq (vm : Vm) : ∃ retained instances,
    vm.saveRetainedLocals =
      { vm with retainedLocals := retained, fbInstances := instances } := by
  unfold saveRetainedLocals
  split
  · exact ⟨_, _, rfl⟩
  · split
    · exact ⟨_, _, rfl⟩
    · split
      · exact ⟨_, _, rfl⟩
      · exact ⟨_, _, rfl⟩
      · exact ⟨_, _, rfl⟩
      · simp only
        split <;> exact ⟨_, _, rfl⟩
      · exact ⟨_, _, rfl⟩

/-- The caller's waiting register takes the value. -/
def returnTo (v : Value) : List CallFrame → Except Trap (List CallFrame)
  | [] => .ok []
  | c :: cs => match c.returnReg with
    | none => .ok (c :: cs)
    | some r => (c.regSet r v).map fun c' => { c' with returnReg := none } :: cs

/-- The machine stops with a trap. -/
def trap (vm : Vm) (t : Trap) : Outcome Vm Stop := .halt (vm, .error t)

/-- Go on with the value, or stop with the trap. -/
def orTrap {α : Type} (vm : Vm) (x : Except Trap α) (k : α → Outcome Vm Stop) : Outcome Vm Stop :=
  match x with
  | .ok a => k a
  | .error t => vm.trap t

/-- mirrors crates/st-engine/src/vm.rs:1743-1755 -/
def ret (vm : Vm) (f : CallFrame) (rest : List CallFrame) (r : Reg) : Outcome Vm Stop :=
  vm.orTrap (f.regGet r) fun v =>
    let saved := vm.saveRetainedLocals.withStack rest
    saved.orTrap (returnTo v rest) fun rest' =>
      if rest.isEmpty then .halt (saved, .ok v) else .next (saved.withStack rest')

/-- mirrors crates/st-engine/src/vm.rs:1756-1765: the waiting register of the
caller is dropped, not filled. -/
def retVoid (vm : Vm) (rest : List CallFrame) : Outcome Vm Stop :=
  let saved := vm.saveRetainedLocals
  match rest with
  | [] => .halt (saved.withStack [], .ok .void)
  | c :: cs => .next (saved.withStack ({ c with returnReg := none } :: cs))

/-- mirrors crates/st-engine/src/vm.rs:1284-1295: past the last instruction. -/
def fallOff (vm : Vm) (rest : List CallFrame) : Outcome Vm Stop :=
  let saved := vm.saveRetainedLocals.withStack rest
  saved.orTrap (returnTo .void rest) fun rest' => .next (saved.withStack rest')

/-! ## Calls -/

/-- The arguments written over the callee's locals. A slot outside the
locals is skipped; `offset as u16 + param_slot` is a `u16` sum. -/
def bindArgs (f : CallFrame) (offset : Nat) : List (UInt16 × Reg) → List Value →
    Except Trap (List Value)
  | [], locals => .ok locals
  | (param, arg) :: args, locals => do
    let slot := offset.toUInt16.toNat + param.toNat
    if 65535 < slot then .error (.panic .arithmetic)
    else do
      let v ← f.regGet arg
      bindArgs f offset args (locals.set slot v)

/-- mirrors crates/st-engine/src/vm.rs:2330-2379 -/
def callFunction (vm : Vm) (f : CallFrame) (rest : List CallFrame) (funcIndex : UInt16) (dst : Reg)
    (args : List (UInt16 × Reg)) : Outcome Vm Stop :=
  if vm.config.maxCallDepth ≤ vm.callStack.length then
    vm.trap (.error (.stackOverflow vm.config.maxCallDepth))
  else match vm.func? funcIndex with
    | none => vm.trap (.error (.invalidFunction funcIndex))
    | some func => vm.orTrap (bindArgs f 0 args func.locals.defaults) fun locals =>
      .next (vm.withStack
        (CallFrame.enter funcIndex func locals 0 none :: { f with returnReg := some dst } :: rest))

/-- The content of a native block that has not run: array fields inline.
mirrors crates/st-engine/src/vm.rs:2165-2182 -/
def nativeDefaults (vm : Vm) (l : MemoryLayout) : List Value :=
  l.slots.flatMap fun s => match s.ty with
    | .array td =>
      let elem := match vm.module.typeDefs[td.toNat]? with
        | some (.array e _) => e
        | _ => .int
      List.replicate s.size (Value.defaultForType elem)
    | ty => [Value.defaultForType ty]

/-- mirrors crates/st-engine/src/vm.rs:2220-2240: forces on the fields of a
native block are written back over what `execute` left. -/
def applyNativeForces (vm : Vm) (prog fb : Function) (slot : UInt16) (fields : List Value) :
    List Value :=
  match prog.locals.slots[slot.toNat]? with
  | none => fields
  | some inst => (fb.locals.slots.zipIdx).foldl (fun acc p =>
      match vm.forced? (prog.name ++ "." ++ inst.name ++ "." ++ p.1.name) with
      | some v => acc.set (fb.locals.expandedIndex p.2) v
      | none => acc) fields

/-- What the native block of this name does to its fields. -/
def nativeExecute (vm : Vm) (name : String) (fields : List Value) : List Value :=
  match vm.nativeFbs with
  | none => fields
  | some registry => match NativeFb.find registry name with
    | some fb => fb.execute vm.nativeCalls fields
    | none => fields

/-- The fields of an instance as a call finds them: saved or fresh, and long
enough. mirrors crates/st-engine/src/vm.rs:2152-2196 -/
def instanceLocals (vm : Vm) (key : InstanceKey) (funcIndex : UInt16) (func : Function) :
    List Value :=
  let fresh := if funcIndex ∈ vm.module.nativeFbIndices then vm.nativeDefaults func.locals
    else func.locals.defaults
  padTo func.locals.slots.length ((Finmap.lookup key vm.fbInstances).getD fresh)

/-- mirrors crates/st-engine/src/vm.rs:2138-2255 -/
def callFb (vm : Vm) (f : CallFrame) (funcIndex instanceSlot : UInt16)
    (args : List (UInt16 × Reg)) (caller : Function) : Outcome Vm Stop :=
  if vm.config.maxCallDepth ≤ vm.callStack.length then
    vm.trap (.error (.stackOverflow vm.config.maxCallDepth))
  else match vm.func? funcIndex with
    | none => vm.trap (.error (.invalidFunction funcIndex))
    | some func =>
      let key := vm.instanceKey instanceSlot
      vm.orTrap (bindArgs f 0 args (vm.instanceLocals key funcIndex func)) fun locals =>
        if funcIndex ∈ vm.module.nativeFbIndices then
          let fields := vm.applyNativeForces caller func instanceSlot
            (vm.nativeExecute func.name locals)
          .next { vm.putInstance key fields with nativeCalls := vm.nativeCalls + 1 }
        else
          .next (vm.withStack
            (CallFrame.enter funcIndex func locals func.bodyStartPc (some instanceSlot) ::
              vm.callStack))

/-- The loop of `init_class_instance` (crates/st-engine/src/vm.rs:2305-2316):
only constants and stores are executed, up to the first return. -/
def initClassLoop (classVarCount : Nat) : List Instruction → List Value → List Value →
    Except Trap (List Value)
  | [], _, locals => .ok locals
  | .loadConst dst v :: is, regs, locals => do
    let regs' ← indexSet regs dst.toNat v
    initClassLoop classVarCount is regs' locals
  | .storeLocal slot src :: is, regs, locals =>
    if slot.toNat < classVarCount ∧ slot.toNat < locals.length then do
      let v ← index regs src.toNat
      initClassLoop classVarCount is regs (locals.set slot.toNat v)
    else initClassLoop classVarCount is regs locals
  | .retVoid :: _, _, locals => .ok locals
  | .ret _ :: _, _, locals => .ok locals
  | _ :: is, regs, locals => initClassLoop classVarCount is regs locals

/-- mirrors crates/st-engine/src/vm.rs:2301-2317: the register file has 256
entries, whatever the class needs. -/
def initClassInstance (cls : Function) (locals : List Value) (classVarCount : Nat) :
    Except Trap (List Value) :=
  initClassLoop classVarCount cls.instructions (List.replicate 256 Value.dflt) locals

/-- The method's locals with the saved or fresh instance state in front, and
the machine with a fresh instance recorded.
mirrors crates/st-engine/src/vm.rs:1998-2014 -/
def methodState (vm : Vm) (key : InstanceKey) (cls : Function) (count : Nat)
    (locals : List Value) : Except Trap (List Value × Vm) :=
  match Finmap.lookup key vm.fbInstances with
  | some saved => .ok (mergePrefix count saved locals, vm)
  | none => do
    let n := cls.locals.slots.length
    let state ← initClassInstance cls (List.replicate n Value.dflt) n
    return (mergePrefix count state locals, vm.putInstance key state)

omit [F64Ops] in
/-- A method's locals come with a change of the instances only. -/
theorem methodState_eq {vm vm1 : Vm} {key : InstanceKey} {cls : Function} {count : Nat}
    {locals ls : List Value} (h : vm.methodState key cls count locals = .ok (ls, vm1)) :
    ∃ instances, vm1 = { vm with fbInstances := instances } := by
  unfold methodState at h
  cases hl : Finmap.lookup key vm.fbInstances with
  | some saved =>
    simp only [hl, Except.ok.injEq, Prod.mk.injEq] at h
    exact ⟨_, h.2.symm⟩
  | none =>
    simp only [hl] at h
    cases hx : initClassInstance cls (List.replicate cls.locals.slots.length Value.dflt)
        cls.locals.slots.length with
    | error t => simp [hx, bind, Except.bind] at h
    | ok state =>
      simp only [hx, bind, Except.bind, pure, Except.pure, Except.ok.injEq, Prod.mk.injEq] at h
      exact ⟨_, h.2.symm⟩

/-- mirrors crates/st-engine/src/vm.rs:1976-2043. The depth is checked after
the instance state has been recorded. -/
def callMethod (vm : Vm) (f : CallFrame) (rest : List CallFrame)
    (instanceSlot classIndex funcIndex : UInt16) (dst : Reg) (args : List (UInt16 × Reg)) :
    Outcome Vm Stop :=
  match vm.func? funcIndex, vm.func? classIndex,
      vm.findMethodClassVarCount funcIndex classIndex with
  | some method, some cls, some count =>
    vm.orTrap (vm.methodState (vm.instanceKey instanceSlot) cls count method.locals.defaults)
      fun (locals, vm1) =>
        vm1.orTrap (bindArgs f count args locals) fun locals =>
          if vm1.config.maxCallDepth ≤ vm1.callStack.length then
            vm1.trap (.error (.stackOverflow vm1.config.maxCallDepth))
          else .next (vm1.withStack
            (CallFrame.enter funcIndex method locals 0 (some instanceSlot) ::
              { f with returnReg := some dst } :: rest))
  | _, _, _ => vm.trap .indexOutOfBounds

/-! ## Stores and jumps -/

/-- mirrors crates/st-engine/src/vm.rs:2064-2076 -/
def localSet (func : Function) (f : CallFrame) (slot : UInt16) (v : Value) :
    Except Trap CallFrame :=
  (indexSet f.locals slot.toNat (narrowValue v (slotWidth func.locals slot))).map
    fun ls => { f with locals := ls }

/-- mirrors crates/st-engine/src/vm.rs:1356-1373 -/
def storeGlobal (vm : Vm) (f : CallFrame) (slot : UInt16) (src : Reg) : Outcome Vm Stop :=
  if slot ∈ vm.forcedGlobalSlots then .next vm
  else vm.orTrap (f.regGet src) fun v =>
    vm.orTrap (indexSet vm.globals slot.toNat (narrowValue v (slotWidth vm.module.globals slot)))
      fun gs => .next { vm with globals := gs }

/-- mirrors crates/st-engine/src/vm.rs:1825-1853 -/
def storeArray (vm : Vm) (func : Function) (f : CallFrame) (baseSlot : UInt16) (idx val : Reg) :
    Outcome Vm Stop :=
  vm.orTrap (f.regGet idx) fun raw =>
    vm.orTrap (f.regGet val) fun v =>
      vm.orTrap (liftPanic (vm.arrayTotal func baseSlot)) fun total =>
        vm.orTrap (liftPanic (flatIndex raw.asInt (vm.arrayLo func baseSlot))) fun flat =>
          let key := vm.instanceKey baseSlot
          let entry := (Finmap.lookup key vm.fbInstances).getD (List.replicate total Value.dflt)
          .next (vm.putInstance key (entry.set flat v))

/-- mirrors crates/st-engine/src/vm.rs:1899-1916 -/
def storeFieldIndex (vm : Vm) (f : CallFrame) (slot baseOffset : UInt16) (idx val : Reg) :
    Outcome Vm Stop :=
  vm.orTrap (f.regGet idx) fun raw =>
    vm.orTrap (liftPanic (checkedUsizeAdd baseOffset.toNat (asUsize raw.asInt))) fun flat =>
      vm.orTrap (f.regGet val) fun v =>
        vm.orTrap (liftPanic (checkedUsizeAdd flat 1)) fun _ =>
          .next (vm.instanceSet (vm.instanceKey slot) flat v)

/-- Change the frame at position `i` from the bottom. -/
def modifyFrameAt (vm : Vm) (i : Nat) (g : CallFrame → CallFrame) : Vm :=
  vm.withStack (vm.callStack.reverse.modify i g).reverse

/-- mirrors crates/st-engine/src/vm.rs:1958-1975 -/
def derefStore (vm : Vm) (ptr v : Value) : Outcome Vm Stop :=
  match ptr with
  | .ref tag slot =>
    if tag = 0 then
      vm.orTrap (indexSet vm.globals slot.toNat v) fun gs => .next { vm with globals := gs }
    else if tag = 1 then .next { vm with globals := vm.globals.set slot.toNat v }
    else .next (vm.modifyFrameAt (tag - 2).toNat fun fr =>
      { fr with locals := fr.locals.set slot.toNat v })
  | _ => .next vm

/-- mirrors crates/st-engine/src/vm.rs:2319-2328 -/
def jumpTo (vm : Vm) (func : Function) (f : CallFrame) (rest : List CallFrame) (label : Label) :
    Outcome Vm Stop :=
  match func.labelPositions[label.toNat]? with
  | some target => .next (vm.withStack ({ f with pc := target } :: rest))
  | none => vm.trap (.error (.invalidLabel label))

/-- Every instruction that `compute` leaves out. `f` is the running frame
with its counter already advanced.
mirrors crates/st-engine/src/vm.rs:1314-2043 -/
def control (vm : Vm) (func : Function) (f : CallFrame) (rest : List CallFrame) :
    Instruction → Outcome Vm Stop
  | .storeLocal slot src => vm.orTrap (f.regGet src) fun v =>
    vm.orTrap (localSet func f slot v) fun f' => .next (vm.withStack (f' :: rest))
  | .storeGlobal slot src => vm.storeGlobal f slot src
  | .jump label => vm.jumpTo func f rest label
  | .jumpIf r label => vm.orTrap (f.regGet r) fun v =>
    if v.asBool then vm.jumpTo func f rest label else .next vm
  | .jumpIfNot r label => vm.orTrap (f.regGet r) fun v =>
    if v.asBool then .next vm else vm.jumpTo func f rest label
  | .call funcIndex dst args => vm.callFunction f rest funcIndex dst args
  | .callFb slot funcIndex args => vm.callFb f funcIndex slot args func
  | .callMethod slot classIndex funcIndex dst args =>
    vm.callMethod f rest slot classIndex funcIndex dst args
  | .ret r => vm.ret f rest r
  | .retVoid => vm.retVoid rest
  | .derefStore ptr val => vm.orTrap (f.regGet ptr) fun p =>
    vm.orTrap (f.regGet val) fun v => vm.derefStore p v
  | .storeArray slot idx val => vm.storeArray func f slot idx val
  | .storeField slot field val => vm.orTrap (f.regGet val) fun v =>
    .next (vm.instanceSet (vm.instanceKey slot) field.toNat v)
  | .storeFieldIndex slot off idx val => vm.storeFieldIndex f slot off idx val
  -- `Nop`; the instructions of `compute` do not come here
  | _ => .next vm

/-- One instruction of the running frame. -/
def exec (vm : Vm) (func : Function) (f : CallFrame) (rest : List CallFrame)
    (instr : Instruction) : Outcome Vm Stop :=
  match vm.compute func f instr with
  | some (dst, x) => vm.orTrap x fun v =>
    vm.orTrap (f.regSet dst v) fun f' => .next (vm.withStack (f' :: rest))
  | none => vm.control func f rest instr

/-! ## The loop -/

/-- The machine after the bookkeeping before an instruction: the counter of
the frame is advanced, the instruction is counted. -/
def advance (vm : Vm) (d : DebugState) (f : CallFrame) (rest : List CallFrame) : Vm :=
  { vm with
    debug := d
    callStack := { f with pc := f.pc + 1 } :: rest
    instructionCount := vm.instructionCount + 1 }

/-- The machine with another debugger state. -/
def withDebug (vm : Vm) (d : DebugState) : Vm := { vm with debug := d }

/-- mirrors crates/st-engine/src/vm.rs:1274-2044, one iteration. -/
def step (vm : Vm) : Outcome Vm Stop :=
  match vm.callStack with
  | [] => .halt (vm, .ok .void)
  | f :: rest => match vm.func? f.funcIndex with
    | none => vm.trap .indexOutOfBounds
    | some func => match func.instructions[f.pc]? with
      | none => vm.fallOff rest
      | some instr =>
        match vm.debug.shouldPause f.funcIndex f.pc vm.callStack.length func.sourceMap with
        | (d, some reason) => (vm.withDebug (d.markPaused reason)).trap (.error .halt)
        | (d, none) =>
          let vm' := vm.advance d f rest
          if 0 < vm'.config.maxInstructions ∧ vm'.config.maxInstructions < vm'.instructionCount then
            vm'.trap (.error (.executionLimit vm'.config.maxInstructions))
          else vm'.exec func { f with pc := f.pc + 1 } rest instr

/-- The instruction the next step executes: none when the frame is at its
end, the debugger pauses, or the instruction limit is reached. -/
def nextInstr (vm : Vm) : Option Instruction :=
  match vm.callStack with
  | [] => none
  | f :: _ => match vm.func? f.funcIndex with
    | none => none
    | some func =>
      if (vm.debug.shouldPause f.funcIndex f.pc vm.callStack.length func.sourceMap).2.isSome then none
      else if 0 < vm.config.maxInstructions ∧
          vm.config.maxInstructions < vm.instructionCount + 1 then none
      else func.instructions[f.pc]?

/-- What one iteration can do, with the instruction it executes. -/
inductive StepCase (vm : Vm) : Option Instruction → Outcome Vm Stop → Prop where
  | idle (hstack : vm.callStack = []) : StepCase vm none (.halt (vm, .ok .void))
  | lost (f rest) (hstack : vm.callStack = f :: rest) (hfunc : vm.func? f.funcIndex = none) :
    StepCase vm none (vm.trap .indexOutOfBounds)
  | atEnd (f rest func) (hstack : vm.callStack = f :: rest)
      (hfunc : vm.func? f.funcIndex = some func) (hend : func.instructions[f.pc]? = none) :
    StepCase vm none (vm.fallOff rest)
  | paused (d : DebugState) : StepCase vm none ((vm.withDebug d).trap (.error .halt))
  | limit (f rest d) (hstack : vm.callStack = f :: rest) :
    StepCase vm none ((vm.advance d f rest).trap (.error (.executionLimit vm.config.maxInstructions)))
  | instr (f rest func d i) (hstack : vm.callStack = f :: rest)
      (hfunc : vm.func? f.funcIndex = some func) (hi : func.instructions[f.pc]? = some i) :
    StepCase vm (some i) ((vm.advance d f rest).exec func { f with pc := f.pc + 1 } rest i)

theorem stepCase (vm : Vm) : StepCase vm vm.nextInstr vm.step := by
  unfold nextInstr step
  cases hstack : vm.callStack with
  | nil => exact .idle hstack
  | cons f rest =>
    simp only
    cases hfunc : vm.func? f.funcIndex with
    | none => exact .lost f rest hstack hfunc
    | some func =>
      simp only
      cases hi : func.instructions[f.pc]? with
      | none =>
        simp only [ite_self]
        exact .atEnd f rest func hstack hfunc hi
      | some i =>
        simp only
        rcases hp : vm.debug.shouldPause f.funcIndex f.pc (f :: rest).length func.sourceMap with
          ⟨d, reason⟩
        cases reason with
        | some r => exact .paused _
        | none =>
          rw [if_neg (by simp)]
          show StepCase vm _ (if 0 < vm.config.maxInstructions ∧
            vm.config.maxInstructions < vm.instructionCount + 1 then _ else _)
          split
          · exact .limit f rest d hstack
          · exact .instr f rest func d i hstack hfunc hi

/-- mirrors crates/st-engine/src/vm.rs:1273-2046, with `fuel` iterations at
most. -/
def execute (fuel : Nat) (vm : Vm) : Option Stop := Core.run step fuel vm

/-! ## Running a program -/

/-- The locals and the start of a new frame for function `i`: a program that
has run before goes on with its locals and skips its initialisation.
mirrors crates/st-engine/src/vm.rs:139-150 -/
def startOf (vm : Vm) (i : UInt16) (func : Function) : List Value × Nat :=
  match func.kind, Finmap.lookup i vm.retainedLocals with
  | .program, some retained => (retained, func.bodyStartPc)
  | _, _ => (func.locals.defaults, 0)

/-- The frame push of `Vm::run` (crates/st-engine/src/vm.rs:133-160). -/
def enterRun (vm : Vm) (name : String) : Option Vm :=
  (vm.module.findFunction name).map fun (i, func) =>
    let (locals, pc) := vm.startOf i func
    vm.withStack (CallFrame.enter i func locals pc none :: vm.callStack)

/-- mirrors crates/st-engine/src/vm.rs:133-163 -/
def run (fuel : Nat) (vm : Vm) (name : String) : Option Stop :=
  match vm.enterRun name with
  | none => some (vm, .error (.error (.invalidFunction 0)))
  | some vm' => vm'.execute fuel

/-- mirrors crates/st-engine/src/vm.rs:167-173 -/
def continueExecution (fuel : Nat) (vm : Vm) : Option Stop :=
  if vm.callStack.isEmpty then some (vm, .ok .void) else vm.execute fuel

/-- mirrors crates/st-engine/src/vm.rs:185-191 -/
def runGlobalInit (fuel : Nat) (vm : Vm) : Option Stop :=
  match vm.module.findFunction "__global_init" with
  | none => some (vm, .ok .void)
  | some _ => vm.run fuel "__global_init"

end

end Vm

end RustPlc.Engine
