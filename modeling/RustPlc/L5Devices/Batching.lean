import RustPlc.Core.Runs
import RustPlc.L5Devices.DeviceIo

/-!
# Batched polls against single requests

A poll cuts the registers of a profile into runs of neighbours and sends one request
for each. On a device that answers correctly this is the same as one request for
each register, as long as every run fits one frame and no run that ends at address
65535 has a register behind it: the loop adds to the address of the run before it
compares.

Results:
* `expandRegisters_elements`: the registers of a pass, by the profile;
* `batchLength_eq`, `run_of_batchLength`: a batch is a run;
* `readPass_exact`, `writePass_exact`: the passes against single requests;
* `batching_exact_iff`: when a poll is exact and all its requests are legal.
-/
namespace RustPlc.Devices

open RustPlc.Ir RustPlc.Core.Runs

/-! ## The registers of a pass -/

/-- A register that a pass is about, with the value that belongs to it. -/
structure Element where
  ioIdx : Nat
  kind : RegisterKind
  address : Nat
  deriving DecidableEq, Repr

def ExpandedReg.element (r : ExpandedReg) : Element := ⟨r.ioIdx, r.kind, r.address.toNat⟩

/-- The registers of a field, when the pass is about it. -/
def fieldElements (filter : FieldDirection → Bool) (offset : Nat) (pf : ProfileField) : List Element :=
  match filter pf.direction, pf.register with
  | true, some register => (List.range pf.size).map fun j =>
    ⟨offset + j, register.kind, register.address.toNat + j⟩
  | _, _ => []

/-- The registers of a profile that a pass is about, field by field. -/
def elements (filter : FieldDirection → Bool) : Nat → List ProfileField → List Element
  | _, [] => []
  | offset, pf :: fields =>
    fieldElements filter offset pf ++ elements filter (offset + pf.size) fields

/-- The addresses of a profile are those of Modbus. -/
def Addressable (fields : List ProfileField) : Prop :=
  ∀ pf ∈ fields, ∀ register, pf.register = some register → register.address.toNat ≤ 65535

theorem size_le (pf : ProfileField) : pf.size ≤ 65535 := by
  have := pf.count.toNat_lt
  unfold ProfileField.size
  omega

theorem addressAt_eq (start : UInt16) {n : Nat} (hn : n < 65536) :
    addressAt start n =
      if start.toNat + n < 65536 then some (UInt16.ofNat (start.toNat + n)) else none := by
  have hmod : n.toUInt16.toNat = n := by
    rw [Nat.toUInt16_eq, UInt16.toNat_ofNat', Nat.mod_eq_of_lt hn]
  unfold addressAt
  rw [hmod]
  split
  · congr 1
    apply UInt16.toNat_inj.mp
    rw [UInt16.toNat_add, hmod, UInt16.toNat_ofNat']
  · rfl

theorem expandField_elements (offset : Nat) (pf : ProfileField) {register : RegisterMapping}
    (haddr : register.address.toNat ≤ 65535) : ∀ (left j : Nat), j + left ≤ 65536 →
      (∀ regs, expandField offset pf register j left = some regs →
        regs.map ExpandedReg.element = (List.range' j left).map fun i =>
          ⟨offset + i, register.kind, register.address.toNat + i⟩) ∧
      ((∀ i, j ≤ i → i < j + left → register.address.toNat + i < 65536) ↔
        ∃ regs, expandField offset pf register j left = some regs)
  | 0, j, _ => ⟨fun regs h => by cases h; rfl, ⟨fun _ => ⟨[], rfl⟩, fun _ i _ _ => by omega⟩⟩
  | left + 1, j, hle => by
    have hstart : register.address.toUInt16.toNat = register.address.toNat := by
      rw [UInt32.toNat_toUInt16, Nat.mod_eq_of_lt (by omega)]
    have hat := addressAt_eq register.address.toUInt16 (show j < 65536 by omega)
    rw [hstart] at hat
    obtain ⟨hmap, hex⟩ := expandField_elements offset pf haddr left (j + 1) (by omega)
    refine ⟨fun regs h => ?_, ⟨fun h => ?_, fun ⟨regs, h⟩ i hi hlt => ?_⟩⟩
    · simp only [expandField, Option.bind_eq_bind, Option.bind_eq_some_iff, Option.pure_def,
        Option.some.injEq] at h
      obtain ⟨address, ha, behind, hb, rfl⟩ := h
      rw [hat] at ha
      split at ha
      · next hfit =>
        cases ha
        rw [List.map_cons, hmap behind hb, List.range'_succ, List.map_cons]
        congr 1
        unfold ExpandedReg.element
        rw [UInt16.toNat_ofNat', Nat.mod_eq_of_lt hfit]
      · cases ha
    · obtain ⟨behind, hb⟩ := hex.mp fun i hi hlt => h i (by omega) (by omega)
      rw [if_pos (h j (Nat.le_refl j) (by omega))] at hat
      exact ⟨_, by rw [expandField, hat, hb]; rfl⟩
    · simp only [expandField, Option.bind_eq_bind, Option.bind_eq_some_iff, Option.pure_def,
        Option.some.injEq] at h
      obtain ⟨address, ha, behind, hb, -⟩ := h
      rw [hat] at ha
      split at ha
      · next hfit =>
        by_cases hij : i = j
        · omega
        · exact hex.mpr ⟨behind, hb⟩ i (by omega) (by omega)
      · cases ha

/-- **The registers of a pass are those of the profile**, when their addresses are
addresses at all. -/
theorem expandRegisters_elements (filter : FieldDirection → Bool) :
    ∀ (fields : List ProfileField) (offset : Nat), Addressable fields →
      (∀ regs, expandRegisters filter offset fields = some regs →
        regs.map ExpandedReg.element = elements filter offset fields) ∧
      ((∀ e ∈ elements filter offset fields, e.address < 65536) ↔
        ∃ regs, expandRegisters filter offset fields = some regs)
  | [], _, _ => ⟨fun regs h => by cases h; rfl, ⟨fun _ => ⟨[], rfl⟩, fun _ e he => by cases he⟩⟩
  | pf :: fields, offset, haddr => by
    obtain ⟨hmap, hex⟩ := expandRegisters_elements filter fields (offset + pf.size)
      fun pf' h => haddr pf' (List.mem_cons_of_mem pf h)
    have hfield : (∀ regs, fieldRegisters filter offset pf = some regs →
        regs.map ExpandedReg.element = fieldElements filter offset pf) ∧
        ((∀ e ∈ fieldElements filter offset pf, e.address < 65536) ↔
          ∃ regs, fieldRegisters filter offset pf = some regs) := by
      have hempty : (∀ regs, some ([] : List ExpandedReg) = some regs →
          regs.map ExpandedReg.element = []) ∧ ((∀ e ∈ ([] : List Element), e.address < 65536) ↔
          ∃ regs, some ([] : List ExpandedReg) = some regs) :=
        ⟨fun regs h => by cases h; rfl, ⟨fun _ => ⟨[], rfl⟩, fun _ e he => by cases he⟩⟩
      unfold fieldRegisters fieldElements
      cases filter pf.direction with
      | false => exact hempty
      | true =>
        cases hregister : pf.register with
        | none => exact hempty
        | some register =>
          have hsize := size_le pf
          obtain ⟨h, h'⟩ := expandField_elements offset pf
            (haddr pf List.mem_cons_self register hregister) pf.size 0 (by omega)
          simp only [← h', List.forall_mem_map, List.mem_range]
          refine ⟨fun regs hregs => by rw [h regs hregs, List.range_eq_range'], ?_⟩
          exact ⟨fun hall i _ hlt => hall i (by omega), fun hall i hlt => hall i (Nat.zero_le i) (by omega)⟩
    obtain ⟨hmap', hex'⟩ := hfield
    have hsplit : expandRegisters filter offset (pf :: fields) =
        (fieldRegisters filter offset pf).bind fun here =>
          (expandRegisters filter (offset + pf.size) fields).map (here ++ ·) := by
      rw [expandRegisters]
      cases fieldRegisters filter offset pf <;>
        cases expandRegisters filter (offset + pf.size) fields <;> rfl
    rw [hsplit, elements]
    simp only [List.forall_mem_append, hex, hex', Option.bind_eq_some_iff, Option.map_eq_some_iff]
    constructor
    · rintro regs ⟨here, hh, behind, hb, hregs⟩
      rw [← hregs, List.map_append, hmap behind hb, hmap' here hh]
    · constructor
      · rintro ⟨⟨here, hh⟩, behind, hb⟩
        exact ⟨here ++ behind, here, hh, behind, hb, rfl⟩
      · rintro ⟨_, here, hh, behind, hb, _⟩
        exact ⟨⟨here, hh⟩, behind, hb⟩

/-! ## Batches are runs -/

/-- The neighbour behind a register. -/
def follows (a b : Element) : Prop := b.kind = a.kind ∧ b.address = a.address + 1

instance : DecidableRel follows := fun _ _ => inferInstanceAs (Decidable (_ ∧ _))

/-- The length of the run that `prev`, the `m`-th register of a batch, goes on. -/
def runFrom (m : Nat) (prev : ExpandedReg) (rest : List ExpandedReg) : Nat :=
  run follows ((prev :: rest).map ExpandedReg.element) - 1 + m

theorem runFrom_cons {m : Nat} {prev next : ExpandedReg} {rest : List ExpandedReg} :
    runFrom m prev (next :: rest) =
      if follows prev.element next.element then runFrom (m + 1) next rest else m := by
  unfold runFrom
  have := run_pos follows next.element (rest.map ExpandedReg.element)
  rw [List.map_cons, List.map_cons, run]
  split <;> omega

theorem runFrom_le (m : Nat) (prev : ExpandedReg) (rest : List ExpandedReg) :
    m ≤ runFrom m prev rest ∧ runFrom m prev rest ≤ m + rest.length := by
  have := run_le_length follows ((prev :: rest).map ExpandedReg.element)
  rw [List.length_map, List.length_cons] at this
  unfold runFrom
  omega

/-- Whether the next register is taken into the batch. -/
theorem batchLength_cons {first prev next : ExpandedReg} {rest : List ExpandedReg} {m : Nat}
    (hm : m < 65536) (hkind : prev.kind = first.kind)
    (hprev : prev.address.toNat + 1 = first.address.toNat + m) :
    batchLength first (next :: rest) m =
      if first.address.toNat + m < 65536 then
        if follows prev.element next.element then batchLength first rest (m + 1) else some m
      else none := by
  rw [batchLength, addressAt_eq _ hm]
  split
  · next hfit =>
    have hiff : (next.kind ≠ first.kind || next.address ≠ UInt16.ofNat (first.address.toNat + m)) =
        decide (¬ follows prev.element next.element) := by
      have haddr : next.address = UInt16.ofNat (first.address.toNat + m) ↔
          next.address.toNat = first.address.toNat + m := by
        rw [← UInt16.toNat_inj, UInt16.toNat_ofNat', Nat.mod_eq_of_lt hfit]
      simp only [follows, ExpandedReg.element, hkind, hprev, ← haddr, not_and_or, Bool.decide_or, ne_eq]
    rw [Option.bind_eq_bind, Option.bind_some, hiff]
    by_cases hf : follows prev.element next.element <;> simp [hf]
  · rfl

/-- **A run is a batch**, when the loop does not step over the last address. -/
theorem batchLength_eq {first : ExpandedReg} : ∀ {rest : List ExpandedReg} {m : Nat}
    {prev : ExpandedReg}, prev.kind = first.kind →
      prev.address.toNat + 1 = first.address.toNat + m → runFrom m prev rest < 65536 →
      first.address.toNat + runFrom m prev rest < 65536 ∨ runFrom m prev rest = m + rest.length →
      batchLength first rest m = some (runFrom m prev rest)
  | [], m, prev, _, _, _, _ => by
    have := runFrom_le m prev []
    rw [batchLength, show runFrom m prev [] = m by rw [List.length_nil] at this; omega]
  | next :: rest, m, prev, hkind, hprev, hlt, hroom => by
    have hle := runFrom_le m prev (next :: rest)
    rw [batchLength_cons (by omega) hkind hprev]
    rw [runFrom_cons] at hlt hroom ⊢
    by_cases hf : follows prev.element next.element
    · rw [if_pos hf] at hlt hroom ⊢
      have hnext : next.address.toNat = prev.address.toNat + 1 := hf.2
      have := next.address.toNat_lt
      have hmore := runFrom_le (m + 1) next rest
      rw [if_pos (by omega), if_pos hf]
      refine batchLength_eq (hf.1.trans hkind) (by omega) hlt ?_
      rw [List.length_cons] at hroom
      omega
    · rw [if_neg hf] at hlt hroom ⊢
      rw [List.length_cons] at hroom
      rw [if_pos (by omega), if_neg hf]

/-- **A batch is a run**, when its length is a 16-bit number. -/
theorem run_of_batchLength {first : ExpandedReg} : ∀ {rest : List ExpandedReg} {m n : Nat}
    {prev : ExpandedReg}, prev.kind = first.kind →
      prev.address.toNat + 1 = first.address.toNat + m → batchLength first rest m = some n →
      n < 65536 →
      n = runFrom m prev rest ∧ (first.address.toNat + n < 65536 ∨ n = m + rest.length)
  | [], m, n, prev, _, _, h, _ => by
    have := runFrom_le m prev []
    rw [List.length_nil] at this ⊢
    cases h
    omega
  | next :: rest, m, n, prev, hkind, hprev, h, hn => by
    have hle := batchLength_le h
    rw [batchLength_cons (by omega) hkind hprev] at h
    rw [runFrom_cons]
    split at h
    · next hfit =>
      by_cases hf : follows prev.element next.element
      · rw [if_pos hf] at h ⊢
        have hnext : next.address.toNat = prev.address.toNat + 1 := hf.2
        obtain ⟨heq, hroom⟩ := run_of_batchLength (hf.1.trans hkind) (by omega) h hn
        refine ⟨heq, ?_⟩
        rw [List.length_cons]
        omega
      · rw [if_neg hf] at h ⊢
        cases h
        exact ⟨rfl, .inl hfit⟩
    · cases h

/-- A run does not pass the last address. -/
theorem runFrom_address {first : ExpandedReg} : ∀ {rest : List ExpandedReg} {m : Nat}
    {prev : ExpandedReg}, prev.address.toNat + 1 = first.address.toNat + m →
      first.address.toNat + runFrom m prev rest ≤ 65536
  | [], m, prev, h => by
    have := runFrom_le m prev []
    have := prev.address.toNat_lt
    rw [List.length_nil] at *
    omega
  | next :: rest, m, prev, h => by
    rw [runFrom_cons]
    split
    · next hf =>
      have hnext : next.address.toNat = prev.address.toNat + 1 := hf.2
      exact runFrom_address (by omega)
    · have := prev.address.toNat_lt
      omega

/-- The run that starts with a register. -/
theorem runFrom_one (first : ExpandedReg) (rest : List ExpandedReg) :
    runFrom 1 first rest = run follows ((first :: rest).map ExpandedReg.element) := by
  have := run_pos follows first.element (rest.map ExpandedReg.element)
  unfold runFrom
  rw [List.map_cons]
  omega

/-! ## Devices -/

/-- The tables of a device. -/
structure Tables where
  coils : UInt16 → Bool
  discreteInputs : UInt16 → Bool
  holdingRegisters : UInt16 → UInt16
  inputRegisters : UInt16 → UInt16

namespace Tables

def read (t : Tables) (kind : ReadKind) (addresses : List UInt16) : Reply :=
  match kind with
  | .coils => .coils (addresses.map t.coils)
  | .discreteInputs => .coils (addresses.map t.discreteInputs)
  | .holdingRegisters => .registers (addresses.map t.holdingRegisters)
  | .inputRegisters => .registers (addresses.map t.inputRegisters)

def set (t : Tables) : UInt16 × Datum → Tables
  | (a, .coil b) => { t with coils := Function.update t.coils a b }
  | (a, .word w) => { t with holdingRegisters := Function.update t.holdingRegisters a w }

end Tables

/-- The addresses of `count` registers from `start` on. -/
def addressesFrom (start : UInt16) (count : Nat) : List UInt16 :=
  (List.range count).map fun j => start + j.toUInt16

/-- What a device makes of a legal request. -/
def Tables.answer (t : Tables) : Request → Tables × Except String Reply
  | .read kind start count => (t, .ok (t.read kind (addressesFrom start count.toNat)))
  | r => (r.sets.foldl Tables.set t, .ok .written)

def ReadKind.limit : ReadKind → Nat
  | .coils | .discreteInputs => 2000
  | .holdingRegisters | .inputRegisters => 125

/-- The sizes Modbus allows. -/
def Request.Legal : Request → Prop
  | .read kind start count =>
    1 ≤ count.toNat ∧ count.toNat ≤ kind.limit ∧ start.toNat + count.toNat ≤ 65536
  | .writeSingleCoil _ _ | .writeSingleRegister _ _ => True
  | .writeMultipleCoils start coils =>
    1 ≤ coils.length ∧ coils.length ≤ 1968 ∧ start.toNat + coils.length ≤ 65536
  | .writeMultipleRegisters start values =>
    1 ≤ values.length ∧ values.length ≤ 123 ∧ start.toNat + values.length ≤ 65536

/-- Behind the start address there are the count, the number of data bytes, and the
data. -/
def Request.Carries (r : Request) (start : UInt16) (count : Nat) (data : Bytes) : Prop :=
  ∃ (c : UInt16) (b : UInt8),
    r.pdu = r.functionCode.code :: (wordBytes start ++ wordBytes c ++ b :: data) ∧
      c.toNat = count ∧ b.toNat = data.length

/-- The count and the byte count are those of the data. -/
def Request.CountsMatch (r : Request) : Prop :=
  match r with
  | .writeMultipleCoils start coils =>
    ∃ data, r.Carries start coils.length data ∧ data.length = (coils.length + 7) / 8
  | .writeMultipleRegisters start values =>
    r.Carries start values.length (values.flatMap wordBytes)
  | _ => True

theorem flatMap_wordBytes_length (values : List UInt16) :
    (values.flatMap wordBytes).length = values.length * 2 := by
  induction values with
  | nil => rfl
  | cons w values ih =>
    rw [List.flatMap_cons, List.length_append, ih, List.length_cons]
    show 2 + values.length * 2 = _
    omega

theorem Request.Legal.countsMatch {r : Request} (h : r.Legal) : r.CountsMatch := by
  cases r with
  | writeMultipleCoils start coils =>
    obtain ⟨-, hle, -⟩ := h
    have hbytes : ((coils.length + 7) / 8).toUInt8.toNat = (coils.length + 7) / 8 := by
      rw [Nat.toUInt8_eq, UInt8.toNat_ofNat']
      omega
    refine ⟨_, ⟨coils.length.toUInt16, ((coils.length + 7) / 8).toUInt8, rfl, ?_, ?_⟩, ?_⟩
    · rw [Nat.toUInt16_eq, UInt16.toNat_ofNat']
      omega
    · rw [List.length_map, List.length_range]
    · rw [List.length_map, List.length_range, hbytes]
  | writeMultipleRegisters start values =>
    obtain ⟨-, hle, -⟩ := h
    refine ⟨values.length.toUInt16, (values.length * 2).toUInt8, rfl, ?_, ?_⟩
    · rw [Nat.toUInt16_eq, UInt16.toNat_ofNat']
      omega
    · rw [Nat.toUInt8_eq, UInt8.toNat_ofNat', flatMap_wordBytes_length]
      omega
  | read => trivial
  | writeSingleCoil => trivial
  | writeSingleRegister => trivial

/-- A device that answers the legal requests. -/
def Correct (ask : Tables → Request → Tables × Except String Reply) : Prop :=
  ∀ t r, Request.Legal r → ask t r = t.answer r

/-- The client, with the requests it has sent. -/
def logged {σ : Type} (ask : σ → Request → σ × Except String Reply) (s : σ × List Request)
    (r : Request) : (σ × List Request) × Except String Reply :=
  (((ask s.1 r).1, s.2 ++ [r]), (ask s.1 r).2)

/-- The registers a request reads. -/
def Request.reads : Request → List (ReadKind × UInt16)
  | .read kind start count => (addressesFrom start count.toNat).map (kind, ·)
  | _ => []

/-- What a register is read as. -/
def ExpandedReg.source (r : ExpandedReg) : Option (ReadKind × UInt16) :=
  r.kind.readKind.map (·, r.address)

/-! ## The condition -/

/-- Every run of the registers of a pass fits one frame, and a run that ends at the
last address ends the pass. -/
def RunsFit (active : RegisterKind → Bool) (limit : RegisterKind → Nat) (es : List Element) : Prop :=
  ∀ e rest, e :: rest <:+ es → active e.kind = true →
    run follows (e :: rest) ≤ limit e.kind ∧
      (e.address + run follows (e :: rest) < 65536 ∨ run follows (e :: rest) = rest.length + 1)

theorem RunsFit.suffix {active : RegisterKind → Bool} {limit : RegisterKind → Nat}
    {es es' : List Element} (h : RunsFit active limit es) (hs : es' <:+ es) :
    RunsFit active limit es' :=
  fun e rest he => h e rest (he.trans hs)

/-- The kinds a run goes through are one kind. -/
theorem run_kind {es : List Element} {e : Element} {rest : List Element} (hes : es = e :: rest) :
    ∀ (j : Nat) (e' : Element), j < run follows es → es[j]? = some e' →
      e'.kind = e.kind ∧ e'.address = e.address + j
  | 0, e', _, h => by
    subst hes
    cases h
    exact ⟨rfl, rfl⟩
  | j + 1, e', hj, h => by
    obtain ⟨p, hp⟩ : ∃ p, es[j]? = some p :=
      ⟨_, List.getElem?_eq_getElem (Nat.lt_of_succ_lt (List.getElem?_eq_some_iff.mp h).1)⟩
    obtain ⟨hk, ha⟩ := run_kind hes j p (Nat.lt_of_succ_lt hj) hp
    obtain ⟨hk', ha'⟩ := run_take follows es j p e' hj hp h
    exact ⟨hk'.trans hk, by omega⟩

/-- The bounds pass on from the registers at which the loop starts a batch. -/
theorem RunsFit.cons {active : RegisterKind → Bool} {limit : RegisterKind → Nat} {e : Element}
    {rest : List Element}
    (hfit : active e.kind = true → run follows (e :: rest) ≤ limit e.kind ∧
      (e.address + run follows (e :: rest) < 65536 ∨ run follows (e :: rest) = rest.length + 1))
    (hrest : RunsFit active limit ((e :: rest).drop (run follows (e :: rest)))) :
    RunsFit active limit (e :: rest) := by
  intro e' rest' hs hactive
  have key := suffix_of_cut follows (l := e :: rest) (s := e' :: rest')
    (p := fun s => ∀ a t, s = a :: t → active a.kind = true → run follows s ≤ limit a.kind ∧
      (a.address + run follows s < 65536 ∨ run follows s = t.length + 1)) ?_ ?_ ?_ hs
    (List.cons_ne_nil _ _)
  · exact key e' rest' rfl hactive
  · intro j hj hlt a t hdrop ha
    have hget : (e :: rest)[j]? = some a := by
      have := congrArg List.head? hdrop
      rwa [List.head?_drop] at this
    obtain ⟨hk, haddr⟩ := run_kind rfl j a hlt hget
    obtain ⟨hle, hroom⟩ := hfit (hk ▸ ha)
    have hlen := congrArg List.length hdrop
    rw [List.length_drop, List.length_cons, List.length_cons] at hlen
    rw [run_drop follows _ j hlt, hk]
    omega
  · intro a t hat ha
    cases hat
    exact hfit ha
  · intro s hsuf _ a t hat ha
    subst hat
    exact hrest a t hsuf ha

/-! ## The read pass -/

def RegisterKind.isRead (kind : RegisterKind) : Bool := kind.readKind.isSome

def RegisterKind.readLimit (kind : RegisterKind) : Nat := (kind.readKind.map ReadKind.limit).getD 0

/-- The requests of the read pass. -/
def readRequests : Nat → List ExpandedReg → Option (List Request)
  | _, [] => some []
  | skip + 1, _ :: regs => readRequests skip regs
  | 0, first :: regs =>
    match first.kind.readKind with
    | none => readRequests 0 regs
    | some kind => do
      let n ← batchLength first regs 1
      let behind ← readRequests (n - 1) regs
      return .read kind first.address n.toUInt16 :: behind

/-- The registers of a batch, by their addresses. -/
theorem batch_addresses {first : ExpandedReg} {regs : List ExpandedReg} {n : Nat}
    (hn : batchLength first regs 1 = some n) :
    (first :: regs.take (n - 1)).map (·.address) = addressesFrom first.address n ∧
      ∀ r ∈ first :: regs.take (n - 1), r.kind = first.kind := by
  obtain ⟨hpos, hle⟩ := batchLength_le hn
  have hget : ∀ (j : Nat) (r : ExpandedReg), (first :: regs.take (n - 1))[j]? = some r →
      r.kind = first.kind ∧ r.address = first.address + j.toUInt16 := by
    intro j r hr
    cases j with
    | zero =>
      cases hr
      exact ⟨rfl, by simp⟩
    | succ j =>
      obtain ⟨hk, ha⟩ := batchLength_run hn j r hr
      exact ⟨hk, by rw [ha, Nat.add_comm 1 j]⟩
  refine ⟨?_, fun r hr => ?_⟩
  · apply List.ext_getElem?
    intro j
    rw [addressesFrom, List.getElem?_map, List.getElem?_map]
    by_cases hj : j < n
    · obtain ⟨r, hr⟩ : ∃ r, (first :: regs.take (n - 1))[j]? = some r := by
        refine ⟨_, List.getElem?_eq_getElem ?_⟩
        rw [List.length_cons, List.length_take]
        omega
      rw [hr, List.getElem?_range hj, Option.map_some, Option.map_some, (hget j r hr).2]
    · have hout : (first :: regs.take (n - 1)).length ≤ j := by
        rw [List.length_cons, List.length_take]
        omega
      rw [List.getElem?_eq_none hout, List.getElem?_eq_none (by rw [List.length_range]; omega)]
      rfl
  · obtain ⟨j, hj⟩ := List.mem_iff_getElem?.mp hr
    exact (hget j r hj).1

theorem batch_split (first : ExpandedReg) (regs : List ExpandedReg) (n : Nat) :
    first :: regs = (first :: regs.take (n - 1)) ++ regs.drop (n - 1) := by
  rw [List.cons_append, List.take_append_drop]

/-- What a batch reads, and what is left. -/
theorem batch_source {first : ExpandedReg} {regs : List ExpandedReg} {kind : ReadKind} {n : Nat}
    (hkind : first.kind.readKind = some kind) (hn : batchLength first regs 1 = some n) :
    (first :: regs).filterMap ExpandedReg.source =
      (addressesFrom first.address n).map (kind, ·) ++
        (regs.drop (n - 1)).filterMap ExpandedReg.source := by
  obtain ⟨haddr, hkinds⟩ := batch_addresses hn
  have hsource : ∀ r ∈ first :: regs.take (n - 1), r.source = some (kind, r.address) := by
    intro r hr
    unfold ExpandedReg.source
    rw [hkinds r hr, hkind]
    rfl
  have hbatch : ∀ rs : List ExpandedReg, (∀ r ∈ rs, r.source = some (kind, r.address)) →
      rs.filterMap ExpandedReg.source = (rs.map (·.address)).map (kind, ·) := by
    intro rs
    induction rs with
    | nil => exact fun _ => rfl
    | cons r rs ih =>
      intro h
      rw [List.filterMap_cons, h r List.mem_cons_self, ih fun r' h' => h r' (List.mem_cons_of_mem r h')]
      rfl
  rw [batch_split first regs n, List.filterMap_append, hbatch _ hsource, haddr]

/-- A run that fits is a batch, and its length is a 16-bit number. -/
theorem batch_of_fit {active : RegisterKind → Bool} {limit : RegisterKind → Nat}
    {first : ExpandedReg} {regs : List ExpandedReg}
    (hfit : RunsFit active limit ((first :: regs).map ExpandedReg.element))
    (hactive : active first.kind = true) (hlimit : limit first.kind ≤ 2000) :
    ∃ n, batchLength first regs 1 = some n ∧ 1 ≤ n ∧ n ≤ limit first.kind ∧
      first.address.toNat + n ≤ 65536 ∧ n.toUInt16.toNat = n := by
  obtain ⟨hle, hroom⟩ := hfit first.element (regs.map ExpandedReg.element) (List.suffix_refl _) hactive
  have hrun := runFrom_one first regs
  rw [List.map_cons] at hrun
  rw [← hrun] at hle hroom
  rw [List.length_map] at hroom
  have hkind : first.element.kind = first.kind := rfl
  have haddr : first.element.address = first.address.toNat := rfl
  rw [hkind] at hle
  rw [haddr] at hroom
  have hbatch : batchLength first regs 1 = some (runFrom 1 first regs) :=
    batchLength_eq rfl rfl (by omega) (by omega)
  refine ⟨_, hbatch, (runFrom_le 1 first regs).1, hle, runFrom_address rfl, ?_⟩
  rw [Nat.toUInt16_eq, UInt16.toNat_ofNat']
  omega

theorem addressesFrom_length (start : UInt16) (n : Nat) : (addressesFrom start n).length = n := by
  rw [addressesFrom, List.length_map, List.length_range]

/-- A request for a batch reads no more registers than the batch has. -/
theorem readRequests_length {regs : List ExpandedReg} : ∀ {skip : Nat} {sent : List Request},
    readRequests skip regs = some sent →
      (sent.flatMap Request.reads).length ≤ ((regs.drop skip).filterMap ExpandedReg.source).length := by
  induction regs with
  | nil =>
    intro skip sent h
    cases h
    exact Nat.zero_le _
  | cons first regs ih =>
    intro skip sent h
    cases skip with
    | succ skip => exact ih h
    | zero =>
      unfold readRequests at h
      cases hkind : first.kind.readKind with
      | none =>
        simp only [hkind] at h
        have hnone : first.source = none := by
          unfold ExpandedReg.source
          rw [hkind]
          rfl
        rw [List.drop_zero, List.filterMap_cons, hnone]
        exact ih h
      | some kind =>
        simp only [hkind, Option.bind_eq_bind, Option.bind_eq_some_iff, Option.pure_def,
          Option.some.injEq] at h
        obtain ⟨n, hn, behind, hb, rfl⟩ := h
        have hcount : n.toUInt16.toNat ≤ n := by
          rw [Nat.toUInt16_eq, UInt16.toNat_ofNat']
          exact Nat.mod_le _ _
        have hreads : (Request.read kind first.address n.toUInt16).reads.length ≤ n := by
          rw [Request.reads, List.length_map, addressesFrom_length]
          exact hcount
        rw [List.drop_zero, batch_source hkind hn, List.flatMap_cons, List.length_append,
          List.length_append, List.length_map, addressesFrom_length]
        exact Nat.add_le_add hreads (ih hb)

section

variable [F64Ops]

/-- One request for each register. -/
def readSingly {σ : Type} (ask : σ → Request → σ × Except String Reply) :
    List ExpandedReg → σ → List Value → Option (σ × List Value)
  | [], s, image => some (s, image)
  | r :: regs, s, image =>
    match r.kind.readKind with
    | none => readSingly ask regs s image
    | some kind => do
      let (s, result) := ask s (.read kind r.address 1)
      let image ← readBatch [r] result image
      readSingly ask regs s image

/-- A read pass is exact: it leaves what single requests leave, its requests are
legal and read every register once. -/
def ReadPassExact (regs : List ExpandedReg) : Prop :=
  ∀ ask, Correct ask → ∀ (t : Tables) (image : List Value), (∀ r ∈ regs, r.ioIdx < image.length) →
    ∃ image' sent, readBatchedIo (logged ask) 0 regs (t, []) image = some ((t, sent), image', []) ∧
      readSingly ask regs t image = some (t, image') ∧ (∀ r ∈ sent, r.Legal) ∧
      sent.flatMap Request.reads = regs.filterMap ExpandedReg.source

/-- What a register is worth on a device. -/
def Tables.value (t : Tables) (r : ExpandedReg) : Value :=
  match r.kind with
  | .coil => .bool (t.coils r.address)
  | .discreteInput => .bool (t.discreteInputs r.address)
  | .holdingRegister => registerToValue (t.holdingRegisters r.address) r.dataType r.register
  | .inputRegister => registerToValue (t.inputRegisters r.address) r.dataType r.register
  | .virtual => .bool false

/-- Stores finished values. -/
abbrev storeValues : List ExpandedReg → List Value → List Value → Option (List Value) :=
  storeEach fun _ v => v

omit [F64Ops] in
theorem storeEach_zip {α : Type} {value : ExpandedReg → α → Value} : ∀ {batch rest : List ExpandedReg}
    {vs : List α} {image : List Value}, vs.length = batch.length →
      storeEach value (batch ++ rest) vs image =
        storeValues batch (List.zipWith value batch vs) image
  | [], _, [], _, _ => by simp [storeEach]
  | r :: batch, rest, v :: vs, image, h => by
    rw [List.cons_append, storeEach, List.zipWith_cons_cons, storeValues, storeEach,
      storeEach_zip (Nat.succ.inj h)]

/-- The reply to the request for a batch is stored as the values of its registers. -/
theorem storeReply_batch (t : Tables) (rest : List ExpandedReg) (image : List Value)
    {first : ExpandedReg} {batch : List ExpandedReg} {kind : ReadKind} (hkind : first.kind.readKind = some kind)
    (hkinds : ∀ r ∈ batch, r.kind = first.kind) :
    storeReply (batch ++ rest) (t.read kind (batch.map (·.address))) image =
      storeValues batch (batch.map t.value) image := by
  have hzip : ∀ {α : Type} (table : UInt16 → α) (value : ExpandedReg → α → Value),
      (∀ r ∈ batch, value r (table r.address) = t.value r) →
      storeEach value (batch ++ rest) ((batch.map (·.address)).map table) image =
        storeValues batch (batch.map t.value) image := by
    intro α table value hvalue
    rw [storeEach_zip (by simp), List.map_map, List.zipWith_map_right, List.zipWith_self]
    exact congrArg (storeValues batch · image) (List.map_congr_left hvalue)
  cases hfirst : first.kind with
  | coil =>
    rw [hfirst] at hkind
    cases hkind
    exact hzip _ _ fun r hr => by rw [Tables.value, hkinds r hr, hfirst]
  | discreteInput =>
    rw [hfirst] at hkind
    cases hkind
    exact hzip _ _ fun r hr => by rw [Tables.value, hkinds r hr, hfirst]
  | holdingRegister =>
    rw [hfirst] at hkind
    cases hkind
    exact hzip _ _ fun r hr => by rw [Tables.value, hkinds r hr, hfirst]
  | inputRegister =>
    rw [hfirst] at hkind
    cases hkind
    exact hzip _ _ fun r hr => by rw [Tables.value, hkinds r hr, hfirst]
  | virtual =>
    rw [hfirst] at hkind
    cases hkind

omit [F64Ops] in
theorem limit_pos (kind : ReadKind) : 1 ≤ kind.limit := by cases kind <;> decide

/-- Single requests read a batch into the same values. -/
theorem readSingly_batch {ask : Tables → Request → Tables × Except String Reply}
    (hask : Correct ask) {t : Tables} (rest : List ExpandedReg) :
    ∀ (batch : List ExpandedReg) (image : List Value), (∀ r ∈ batch, r.kind.isRead = true) →
      (∀ r ∈ batch, r.ioIdx < image.length) →
      ∃ image', storeValues batch (batch.map t.value) image = some image' ∧
        image'.length = image.length ∧
        readSingly ask (batch ++ rest) t image = readSingly ask rest t image'
  | [], image, _, _ => ⟨image, by simp [storeEach], rfl, rfl⟩
  | r :: batch, image, hread, hin => by
    obtain ⟨kind, hkind⟩ := Option.isSome_iff_exists.mp (hread r List.mem_cons_self)
    have hr := hin r List.mem_cons_self
    obtain ⟨image', hstore, hlen, hrest⟩ := readSingly_batch hask rest batch
      (image.set r.ioIdx (t.value r)) (fun r' h => hread r' (List.mem_cons_of_mem r h))
      fun r' h => by rw [List.length_set]; exact hin r' (List.mem_cons_of_mem r h)
    have hlegal : Request.Legal (.read kind r.address 1) :=
      ⟨Nat.le_refl 1, limit_pos kind, r.address.toNat_lt⟩
    have hanswer : ask t (.read kind r.address 1) = (t, .ok (t.read kind [r.address])) := by
      rw [hask t _ hlegal]
      simp [Tables.answer, addressesFrom]
    have hone : readBatch [r] (.ok (t.read kind [r.address])) image =
        some (image.set r.ioIdx (t.value r)) := by
      have hreply : storeReply [r] (t.read kind [r.address]) image = storeValues [r] [t.value r] image :=
        storeReply_batch t [] image hkind fun r' h => by rw [List.mem_singleton.mp h]
      rw [readBatch, hreply]
      simp [storeEach, hr]
    refine ⟨image', ?_, by rw [hlen, List.length_set], ?_⟩
    · rw [List.map_cons, storeValues, storeEach, if_pos hr]
      exact hstore
    · rw [List.cons_append, readSingly]
      simp only [hkind, hanswer, Option.bind_eq_bind, hone, Option.bind_some]
      exact hrest

/-- **Batches read what single requests read.** -/
theorem readPass_runs {ask : Tables → Request → Tables × Except String Reply} (hask : Correct ask)
    {t : Tables} {regs : List ExpandedReg} : ∀ (skip : Nat) (log : List Request) (image : List Value),
      RunsFit RegisterKind.isRead RegisterKind.readLimit ((regs.drop skip).map ExpandedReg.element) →
      (∀ r ∈ regs, r.ioIdx < image.length) →
      ∃ image' sent, readBatchedIo (logged ask) skip regs (t, log) image =
          some ((t, log ++ sent), image', []) ∧
        readSingly ask (regs.drop skip) t image = some (t, image') ∧ (∀ r ∈ sent, r.Legal) ∧
        sent.flatMap Request.reads = (regs.drop skip).filterMap ExpandedReg.source := by
  induction regs with
  | nil =>
    intro skip log image _ _
    refine ⟨image, [], ?_, ?_, by simp, ?_⟩ <;> cases skip <;> simp [readBatchedIo, readSingly]
  | cons first regs ih =>
    intro skip log image hfit hin
    have hin' : ∀ r ∈ regs, r.ioIdx < image.length := fun r hr => hin r (List.mem_cons_of_mem first hr)
    cases skip with
    | succ skip => exact ih skip log image hfit hin'
    | zero =>
      rw [List.drop_zero] at hfit ⊢
      cases hkind : first.kind.readKind with
      | none =>
        obtain ⟨image', sent, hpass, hsingly, hlegal, hreads⟩ := ih 0 log image
          (hfit.suffix (by rw [List.map_cons]; exact List.suffix_cons _ _)) hin'
        have hnone : first.source = none := by
          unfold ExpandedReg.source
          rw [hkind]
          rfl
        refine ⟨image', sent, ?_, ?_, hlegal, ?_⟩
        · simp only [readBatchedIo, hkind]
          exact hpass
        · simp only [readSingly, hkind]
          exact hsingly
        · rw [List.filterMap_cons, hnone]
          exact hreads
      | some kind =>
        have hread : first.kind.isRead = true := by rw [RegisterKind.isRead, hkind]; rfl
        have hlimit : first.kind.readLimit = kind.limit := by
          rw [RegisterKind.readLimit, hkind]
          rfl
        obtain ⟨n, hbatch, hpos, hle, hroom, hword⟩ := batch_of_fit hfit hread
          (by rw [hlimit]; cases kind <;> decide)
        have hlegal : Request.Legal (.read kind first.address n.toUInt16) :=
          ⟨by omega, by omega, by omega⟩
        obtain ⟨haddr, hkinds⟩ := batch_addresses hbatch
        have hanswer : ask t (.read kind first.address n.toUInt16) =
            (t, .ok (t.read kind ((first :: regs.take (n - 1)).map (·.address)))) := by
          rw [hask t _ hlegal, Tables.answer, hword, haddr]
        obtain ⟨image₁, hstore, hlen, hsame⟩ := readSingly_batch hask (regs.drop (n - 1))
          (first :: regs.take (n - 1)) image
          (fun r hr => by rw [hkinds r hr]; exact hread)
          fun r hr => hin r (by rw [batch_split first regs n]; exact List.mem_append_left _ hr)
        have hreply := storeReply_batch t (regs.drop (n - 1)) image hkind hkinds
        rw [← batch_split, hstore] at hreply
        obtain ⟨image', sent, hpass, hsingly, hall, hreads⟩ := ih (n - 1)
          (log ++ [.read kind first.address n.toUInt16]) image₁
          (hfit.suffix (by
            rw [batch_split first regs n, List.map_append]
            exact List.suffix_append _ _))
          fun r hr => by rw [hlen]; exact hin' r hr
        refine ⟨image', .read kind first.address n.toUInt16 :: sent, ?_, ?_, ?_, ?_⟩
        · simp only [readBatchedIo, hkind, Option.bind_eq_bind, hbatch, Option.bind_some, logged, hanswer,
            readBatch, hreply]
          rw [hpass]
          simp
        · rw [batch_split first regs n, hsame]
          exact hsingly
        · exact List.forall_mem_cons.mpr ⟨hlegal, hall⟩
        · rw [batch_source hkind hbatch, List.flatMap_cons, hreads, Request.reads, hword]

/-- The requests do not depend on the replies. -/
theorem readBatchedIo_logged {σ : Type} {ask : σ → Request → σ × Except String Reply}
    {regs : List ExpandedReg} : ∀ {skip : Nat} {s s' : σ × List Request} {image image' : List Value}
      {errors : List String}, readBatchedIo (logged ask) skip regs s image = some (s', image', errors) →
      ∃ sent, readRequests skip regs = some sent ∧ s'.2 = s.2 ++ sent := by
  induction regs with
  | nil =>
    intro skip s s' image image' errors h
    cases h
    exact ⟨[], by cases skip <;> rfl, (List.append_nil _).symm⟩
  | cons first regs ih =>
    intro skip s s' image image' errors h
    cases skip with
    | succ skip => exact ih h
    | zero =>
      unfold readBatchedIo at h
      unfold readRequests
      cases hkind : first.kind.readKind with
      | none =>
        simp only [hkind] at h ⊢
        exact ih h
      | some kind =>
        simp only [hkind, Option.bind_eq_bind, Option.bind_eq_some_iff, logged] at h
        obtain ⟨n, hn, image₁, -, r, hr, h⟩ := h
        obtain ⟨sent, hsent, hlog⟩ := ih hr
        cases h
        refine ⟨.read kind first.address n.toUInt16 :: sent, ?_, ?_⟩
        · simp only [hn, hsent, Option.bind_eq_bind, Option.bind_some, Option.pure_def]
        · rw [hlog, List.append_assoc]
          rfl

end

/-- A batch that fits is a run that fits, and so are the runs inside it. -/
theorem runsFit_batch {active : RegisterKind → Bool} {limit : RegisterKind → Nat}
    {first : ExpandedReg} {regs : List ExpandedReg} {n : Nat}
    (hn : batchLength first regs 1 = some n) (hlt : n < 65536) (hle : n ≤ limit first.kind)
    (hrest : RunsFit active limit ((regs.drop (n - 1)).map ExpandedReg.element)) :
    RunsFit active limit ((first :: regs).map ExpandedReg.element) := by
  obtain ⟨hrun, hroom⟩ := run_of_batchLength rfl rfl hn hlt
  rw [runFrom_one, List.map_cons] at hrun
  refine RunsFit.cons (fun _ => ?_) ?_
  · rw [← hrun, List.length_map]
    have haddr : first.element.address = first.address.toNat := rfl
    exact ⟨hle, by omega⟩
  · have hpos := (batchLength_le hn).1
    rw [← hrun, ← Nat.sub_add_cancel hpos, List.drop_succ_cons, ← List.map_drop]
    exact hrest

/-- A register that the pass skips. -/
theorem RunsFit.skip {active : RegisterKind → Bool} {limit : RegisterKind → Nat} {e : Element}
    {rest : List Element} (h : RunsFit active limit rest) (hpassive : active e.kind = false) :
    RunsFit active limit (e :: rest) := by
  intro e' rest' hs hactive
  rcases List.suffix_cons_iff.mp hs with heq | hs
  · cases heq
    exact absurd hactive (by simp [hpassive])
  · exact h e' rest' hs hactive

/-- A pass whose requests are legal and read every register goes through runs that
fit. -/
theorem runsFit_of_reads {regs : List ExpandedReg} : ∀ {skip : Nat} {sent : List Request},
    readRequests skip regs = some sent → (∀ r ∈ sent, r.Legal) →
      (sent.flatMap Request.reads).length = ((regs.drop skip).filterMap ExpandedReg.source).length →
      RunsFit RegisterKind.isRead RegisterKind.readLimit
        ((regs.drop skip).map ExpandedReg.element) := by
  induction regs with
  | nil =>
    intro skip sent _ _ _ e rest hs
    rw [List.drop_nil, List.map_nil] at hs
    exact absurd (List.suffix_nil.mp hs) (List.cons_ne_nil _ _)
  | cons first regs ih =>
    intro skip sent h hlegal hall
    cases skip with
    | succ skip => exact ih h hlegal hall
    | zero =>
      rw [List.drop_zero] at hall ⊢
      unfold readRequests at h
      cases hkind : first.kind.readKind with
      | none =>
        simp only [hkind] at h
        have hnone : first.source = none := by
          unfold ExpandedReg.source
          rw [hkind]
          rfl
        rw [List.filterMap_cons, hnone] at hall
        have hpassive : first.element.kind.isRead = false := by
          show first.kind.isRead = false
          rw [RegisterKind.isRead, hkind]
          rfl
        exact RunsFit.skip (ih h hlegal hall) hpassive
      | some kind =>
        simp only [hkind, Option.bind_eq_bind, Option.bind_eq_some_iff, Option.pure_def,
          Option.some.injEq] at h
        obtain ⟨n, hn, behind, hb, rfl⟩ := h
        obtain ⟨-, hbound, -⟩ := hlegal _ List.mem_cons_self
        have hbehind := readRequests_length hb
        rw [batch_source hkind hn, List.flatMap_cons, List.length_append, List.length_append,
          List.length_map, addressesFrom_length, Request.reads, List.length_map,
          addressesFrom_length] at hall
        have hword : n.toUInt16.toNat = n % 65536 := by
          rw [Nat.toUInt16_eq, UInt16.toNat_ofNat']
        -- a count that was cut off would leave registers unread
        have hlt : n < 65536 := by omega
        have hlimit : first.kind.readLimit = kind.limit := by
          rw [RegisterKind.readLimit, hkind]
          rfl
        refine runsFit_batch hn hlt (by omega) (ih hb (fun r hr => ?_) (by omega))
        exact hlegal r (List.mem_cons_of_mem _ hr)

/-! ## The write pass -/

def RegisterKind.writeLimit (kind : RegisterKind) : Nat := if kind = .coil then 1968 else 123

/-- The request for one register. -/
def Datum.request (addr : UInt16) : Datum → Request
  | .coil b => .writeSingleCoil addr b
  | .word w => .writeSingleRegister addr w

/-- What a device is left in by requests. -/
def sendAll {σ : Type} (ask : σ → Request → σ × Except String Reply) (s : σ) (rs : List Request) : σ :=
  rs.foldl (fun s r => (ask s r).1) s

def Request.isRead : Request → Bool
  | .read .. => true
  | _ => false

/-- A correct device takes over what legal write requests set. -/
theorem sendAll_eq {ask : Tables → Request → Tables × Except String Reply} (hask : Correct ask) :
    ∀ (rs : List Request) (t : Tables), (∀ r ∈ rs, r.Legal ∧ r.isRead = false) →
      sendAll ask t rs = (rs.flatMap Request.sets).foldl Tables.set t
  | [], _, _ => rfl
  | r :: rs, t, h => by
    obtain ⟨hlegal, hwrite⟩ := h r List.mem_cons_self
    have hanswer : (ask t r).1 = r.sets.foldl Tables.set t := by
      rw [hask t r hlegal]
      cases r with
      | read => cases hwrite
      | writeSingleCoil => rfl
      | writeSingleRegister => rfl
      | writeMultipleCoils => rfl
      | writeMultipleRegisters => rfl
    rw [sendAll, List.foldl_cons, hanswer, List.flatMap_cons, List.foldl_append]
    exact sendAll_eq hask rs _ fun r' h' => h r' (List.mem_cons_of_mem r h')

section

variable [F64Ops]

/-- One request for each register that is written. -/
def singleWrites (values : List Value) (regs : List ExpandedReg) : Option (List Request) :=
  (regs.filter (·.kind.isWritable)).mapM fun r => (r.datum values).map (Datum.request r.address)

/-- A write pass is exact: it leaves the device as single requests do, its requests
are legal, carry what they say, and write every register once. -/
def WritePassExact (regs : List ExpandedReg) : Prop :=
  ∀ ask, Correct ask → ∀ (t : Tables) (values : List Value), (∀ r ∈ regs, r.ioIdx < values.length) →
    ∃ requests singles, writeRequests values 0 regs = some requests ∧
      singleWrites values regs = some singles ∧ sendAll ask t requests = sendAll ask t singles ∧
      (∀ r ∈ requests, r.Legal ∧ r.CountsMatch) ∧
      requests.flatMap Request.sets = singles.flatMap Request.sets

theorem singleWrites_sets {values : List Value} : ∀ {regs : List ExpandedReg}
    {sets : List (UInt16 × Datum)}, List.Forall₂ (SetTo values) sets regs →
      ∃ singles, regs.mapM (fun r => (r.datum values).map (Datum.request r.address)) = some singles ∧
        singles.flatMap Request.sets = sets ∧ ∀ r ∈ singles, r.Legal ∧ r.isRead = false
  | [], _, h => by
    cases h
    exact ⟨[], rfl, rfl, by simp⟩
  | r :: regs, _, h => by
    cases h with
    | cons hset hrest =>
      obtain ⟨singles, hm, hsets, hlegal⟩ := singleWrites_sets hrest
      rename_i s sets
      obtain ⟨haddr, hdatum⟩ := hset
      refine ⟨s.2.request r.address :: singles, ?_, ?_, ?_⟩
      · rw [List.mapM_cons, hdatum, hm]
        rfl
      · rw [List.flatMap_cons, hsets, ← haddr]
        obtain ⟨a, d⟩ := s
        cases d <;> rfl
      · refine List.forall_mem_cons.mpr ⟨?_, hlegal⟩
        cases s.2 <;> exact ⟨trivial, rfl⟩

omit [F64Ops] in
theorem mapM_some {α β : Type} (f : α → Option β) : ∀ {xs : List α}, (∀ x ∈ xs, (f x).isSome = true) →
    ∃ ys, xs.mapM f = some ys
  | [], _ => ⟨[], rfl⟩
  | x :: xs, h => by
    obtain ⟨y, hy⟩ := Option.isSome_iff_exists.mp (h x List.mem_cons_self)
    obtain ⟨ys, hys⟩ := mapM_some f fun x' h' => h x' (List.mem_cons_of_mem x h')
    exact ⟨y :: ys, by rw [List.mapM_cons, hy, hys]; rfl⟩

omit [F64Ops] in
theorem mapM_length {α β : Type} {f : α → Option β} : ∀ {xs : List α} {ys : List β},
    xs.mapM f = some ys → ys.length = xs.length
  | [], ys, h => by
    obtain rfl : [] = ys := by simpa using h
    rfl
  | x :: xs, ys, h => by
    simp only [List.mapM_cons, Option.bind_eq_bind, Option.bind_eq_some_iff, Option.pure_def,
      Option.some.injEq] at h
    obtain ⟨y, -, ys', hys, rfl⟩ := h
    rw [List.length_cons, List.length_cons, mapM_length hys]

omit [F64Ops] in
theorem coilRequest_legal (start : UInt16) {coils : List Bool} (hne : coils ≠ []) :
    (coilRequest start coils).isRead = false ∧ ((coilRequest start coils).Legal ↔
      coils.length = 1 ∨ coils.length ≤ 1968 ∧ start.toNat + coils.length ≤ 65536) := by
  have hpos := List.length_pos_iff.mpr hne
  unfold coilRequest
  split
  · simp [Request.isRead, Request.Legal]
  · next hmany =>
    have hlen : coils.length ≠ 1 := fun h => by
      obtain ⟨b, rfl⟩ := List.length_eq_one_iff.mp h
      exact hmany b rfl
    refine ⟨rfl, ?_⟩
    show (1 ≤ coils.length ∧ coils.length ≤ 1968 ∧ start.toNat + coils.length ≤ 65536) ↔ _
    omega

omit [F64Ops] in
theorem wordRequest_legal (start : UInt16) {words : List UInt16} (hne : words ≠ []) :
    (wordRequest start words).isRead = false ∧ ((wordRequest start words).Legal ↔
      words.length = 1 ∨ words.length ≤ 123 ∧ start.toNat + words.length ≤ 65536) := by
  have hpos := List.length_pos_iff.mpr hne
  unfold wordRequest
  split
  · simp [Request.isRead, Request.Legal]
  · next hmany =>
    have hlen : words.length ≠ 1 := fun h => by
      obtain ⟨w, rfl⟩ := List.length_eq_one_iff.mp h
      exact hmany w rfl
    refine ⟨rfl, ?_⟩
    show (1 ≤ words.length ∧ words.length ≤ 123 ∧ start.toNat + words.length ≤ 65536) ↔ _
    omega

/-- When the request for a batch is legal. -/
theorem writeRequest_legal {first : ExpandedReg} {batch : List ExpandedReg} {values : List Value}
    {request : Request} (h : writeRequest first batch values = some request) (hne : batch ≠ []) :
    request.isRead = false ∧ (request.Legal ↔ batch.length = 1 ∨
      batch.length ≤ first.kind.writeLimit ∧ first.address.toNat + batch.length ≤ 65536) := by
  have hnonempty : ∀ {α : Type} {xs : List α}, xs.length = batch.length → xs ≠ [] := by
    intro α xs hlen
    rw [← List.length_pos_iff, hlen]
    exact List.length_pos_iff.mpr hne
  unfold writeRequest at h
  unfold RegisterKind.writeLimit
  split at h
  · next hcoil =>
    obtain ⟨coils, hcoils, rfl⟩ := Option.map_eq_some_iff.mp h
    have hlen := mapM_length hcoils
    rw [if_pos hcoil, ← hlen]
    exact coilRequest_legal _ (hnonempty hlen)
  · next hcoil =>
    obtain ⟨words, hwords, rfl⟩ := Option.map_eq_some_iff.mp h
    have hlen := mapM_length hwords
    rw [if_neg hcoil, ← hlen]
    exact wordRequest_legal _ (hnonempty hlen)

theorem writeRequest_some (first : ExpandedReg) {batch : List ExpandedReg} {values : List Value}
    (hin : ∀ r ∈ batch, r.ioIdx < values.length) :
    ∃ request, writeRequest first batch values = some request := by
  have hsome : ∀ {α : Type} (f : Value → α), ∃ ys,
      batch.mapM (fun r => (values[r.ioIdx]?).map f) = some ys := fun f =>
    mapM_some _ fun r hr => by simp [hin r hr]
  unfold writeRequest
  split
  · obtain ⟨ys, hys⟩ := hsome Value.asBool
    exact ⟨_, by rw [hys]; rfl⟩
  · obtain ⟨ys, hys⟩ := mapM_some (fun r : ExpandedReg =>
      (values[r.ioIdx]?).map (valueToRegister · r.register)) fun r hr => by simp [hin r hr]
    exact ⟨_, by rw [hys]; rfl⟩

omit [F64Ops] in
theorem batch_length {first : ExpandedReg} {regs : List ExpandedReg} {n : Nat}
    (hn : batchLength first regs 1 = some n) : (first :: regs.take (n - 1)).length = n := by
  obtain ⟨hpos, hle⟩ := batchLength_le hn
  rw [List.length_cons, List.length_take]
  omega

/-- The write pass sends legal requests when the runs fit. -/
theorem writePass_runs {values : List Value} {regs : List ExpandedReg} : ∀ (skip : Nat),
    RunsFit RegisterKind.isWritable RegisterKind.writeLimit
      ((regs.drop skip).map ExpandedReg.element) →
    (∀ r ∈ regs, r.ioIdx < values.length) →
    ∃ requests, writeRequests values skip regs = some requests ∧
      ∀ r ∈ requests, r.Legal ∧ r.isRead = false := by
  induction regs with
  | nil =>
    intro skip _ _
    exact ⟨[], by cases skip <;> rfl, by simp⟩
  | cons first regs ih =>
    intro skip hfit hin
    have hin' : ∀ r ∈ regs, r.ioIdx < values.length := fun r hr => hin r (List.mem_cons_of_mem first hr)
    cases skip with
    | succ skip => exact ih skip hfit hin'
    | zero =>
      rw [List.drop_zero] at hfit
      unfold writeRequests
      cases hkind : first.kind.isWritable with
      | false =>
        obtain ⟨requests, hpass, hlegal⟩ := ih 0 (hfit.suffix (List.suffix_cons _ _)) hin'
        exact ⟨requests, hpass, hlegal⟩
      | true =>
        obtain ⟨n, hbatch, hpos, hle, hroom, -⟩ := batch_of_fit hfit hkind
          (by unfold RegisterKind.writeLimit; split <;> decide)
        obtain ⟨request, hrequest⟩ := writeRequest_some first fun r (hr : r ∈ first :: regs.take (n - 1)) =>
          hin r (by rw [batch_split first regs n]; exact List.mem_append_left _ hr)
        obtain ⟨hwrite, hlegal⟩ := writeRequest_legal hrequest (List.cons_ne_nil _ _)
        rw [batch_length hbatch] at hlegal
        obtain ⟨behind, hb, hall⟩ := ih (n - 1)
          (hfit.suffix (by
            rw [batch_split first regs n, List.map_append]
            exact List.suffix_append _ _)) hin'
        refine ⟨request :: behind, ?_, ?_⟩
        · simp only [if_true, hbatch, hrequest, hb, Option.bind_eq_bind, Option.bind_some,
            Option.pure_def]
        · exact List.forall_mem_cons.mpr ⟨⟨hlegal.mpr (.inr ⟨hle, hroom⟩), hwrite⟩, hall⟩

/-- A pass whose requests are legal goes through runs that fit. -/
theorem runsFit_of_writes {values : List Value} {regs : List ExpandedReg} : ∀ {skip : Nat}
    {requests : List Request}, writeRequests values skip regs = some requests →
      (∀ r ∈ requests, r.Legal) →
      RunsFit RegisterKind.isWritable RegisterKind.writeLimit
        ((regs.drop skip).map ExpandedReg.element) := by
  induction regs with
  | nil =>
    intro skip requests _ _ e rest hs
    rw [List.drop_nil, List.map_nil] at hs
    exact absurd (List.suffix_nil.mp hs) (List.cons_ne_nil _ _)
  | cons first regs ih =>
    intro skip requests h hlegal
    cases skip with
    | succ skip => exact ih h hlegal
    | zero =>
      rw [List.drop_zero]
      unfold writeRequests at h
      split at h
      · next hwritable =>
        simp only [Option.bind_eq_bind, Option.bind_eq_some_iff, Option.pure_def,
          Option.some.injEq] at h
        obtain ⟨n, hn, request, hrequest, behind, hb, rfl⟩ := h
        have hfits := (writeRequest_legal hrequest (List.cons_ne_nil _ _)).2.mp
          (hlegal request List.mem_cons_self)
        rw [batch_length hn] at hfits
        have hlimit : 1 ≤ first.kind.writeLimit ∧ first.kind.writeLimit ≤ 1968 := by
          unfold RegisterKind.writeLimit
          split <;> decide
        exact runsFit_batch hn (by omega) (by omega)
          (ih hb fun r hr => hlegal r (List.mem_cons_of_mem _ hr))
      · next hpassive => exact RunsFit.skip (ih h hlegal) (Bool.not_eq_true _ ▸ hpassive)

omit [F64Ops] in
theorem exists_bound : ∀ regs : List ExpandedReg, ∃ bound, ∀ r ∈ regs, r.ioIdx < bound
  | [] => ⟨0, by simp⟩
  | r :: regs => by
    obtain ⟨bound, h⟩ := exists_bound regs
    refine ⟨bound + r.ioIdx + 1, List.forall_mem_cons.mpr ⟨by omega, fun r' hr' => ?_⟩⟩
    have := h r' hr'
    omega

theorem readPassExact_iff (regs : List ExpandedReg) : ReadPassExact regs ↔
    RunsFit RegisterKind.isRead RegisterKind.readLimit (regs.map ExpandedReg.element) := by
  constructor
  · intro h
    obtain ⟨bound, hbound⟩ := exists_bound regs
    obtain ⟨image', sent, hpass, -, hlegal, hreads⟩ := h Tables.answer (fun _ _ _ => rfl)
      ⟨fun _ => false, fun _ => false, fun _ => 0, fun _ => 0⟩ (List.replicate bound Value.dflt)
      fun r hr => by rw [List.length_replicate]; exact hbound r hr
    obtain ⟨sent', hsent, hlog⟩ := readBatchedIo_logged hpass
    rw [List.nil_append] at hlog
    obtain rfl : sent = sent' := hlog
    exact runsFit_of_reads hsent hlegal (by rw [hreads]; rfl)
  · intro h ask hask t image hin
    exact readPass_runs hask 0 [] image h hin

theorem writePassExact_iff (regs : List ExpandedReg) : WritePassExact regs ↔
    RunsFit RegisterKind.isWritable RegisterKind.writeLimit (regs.map ExpandedReg.element) := by
  constructor
  · intro h
    obtain ⟨bound, hbound⟩ := exists_bound regs
    obtain ⟨requests, -, hpass, -, -, hlegal, -⟩ := h Tables.answer (fun _ _ _ => rfl)
      ⟨fun _ => false, fun _ => false, fun _ => 0, fun _ => 0⟩ (List.replicate bound Value.dflt)
      fun r hr => by rw [List.length_replicate]; exact hbound r hr
    exact runsFit_of_writes hpass fun r hr => (hlegal r hr).1
  · intro h ask hask t values hin
    obtain ⟨requests, hpass, hlegal⟩ := writePass_runs 0 h hin
    obtain ⟨singles, hm, hsets, hlegal'⟩ := singleWrites_sets (writeRequests_sets hpass)
    refine ⟨requests, singles, hpass, hm, ?_, fun r hr => ?_, hsets.symm⟩
    · rw [sendAll_eq hask _ t hlegal, sendAll_eq hask _ t hlegal', hsets]
    · exact ⟨(hlegal r hr).1, (hlegal r hr).1.countsMatch⟩

/-! ## Polls -/

/-- The registers of a profile are found without an overflow, and both passes over
them are exact. -/
def PollExact (fields : List ProfileField) : Prop :=
  ∃ readRegs writeRegs, expandRegisters FieldDirection.isRead 0 fields = some readRegs ∧
    readRegs.map ExpandedReg.element = elements FieldDirection.isRead 0 fields ∧
    expandRegisters FieldDirection.isWritten 0 fields = some writeRegs ∧
    writeRegs.map ExpandedReg.element = elements FieldDirection.isWritten 0 fields ∧
    ReadPassExact readRegs ∧ WritePassExact writeRegs

/-- Every field ends below address 65536, and the runs of neighbours fit the frames. -/
structure Batchable (fields : List ProfileField) : Prop where
  readAddresses : ∀ e ∈ elements FieldDirection.isRead 0 fields, e.address < 65536
  writeAddresses : ∀ e ∈ elements FieldDirection.isWritten 0 fields, e.address < 65536
  reads : RunsFit RegisterKind.isRead RegisterKind.readLimit
    (elements FieldDirection.isRead 0 fields)
  writes : RunsFit RegisterKind.isWritable RegisterKind.writeLimit
    (elements FieldDirection.isWritten 0 fields)

/-- **A poll is exact and legal** exactly when the runs of the profile fit the frames. -/
theorem batching_exact_iff {fields : List ProfileField} (haddr : Addressable fields) :
    PollExact fields ↔ Batchable fields := by
  obtain ⟨hread, hreadable⟩ := expandRegisters_elements FieldDirection.isRead fields 0 haddr
  obtain ⟨hwrite, hwritable⟩ := expandRegisters_elements FieldDirection.isWritten fields 0 haddr
  constructor
  · intro ⟨readRegs, writeRegs, hr, helements, hw, helements', hreads, hwrites⟩
    rw [readPassExact_iff, helements] at hreads
    rw [writePassExact_iff, helements'] at hwrites
    exact ⟨hreadable.mpr ⟨readRegs, hr⟩, hwritable.mpr ⟨writeRegs, hw⟩, hreads, hwrites⟩
  · intro h
    obtain ⟨readRegs, hr⟩ := hreadable.mp h.readAddresses
    obtain ⟨writeRegs, hw⟩ := hwritable.mp h.writeAddresses
    refine ⟨readRegs, writeRegs, hr, hread _ hr, hw, hwrite _ hw, ?_, ?_⟩
    · rw [readPassExact_iff, hread _ hr]
      exact h.reads
    · rw [writePassExact_iff, hwrite _ hw]
      exact h.writes

end

/-- One array of holding registers that is read. -/
def registerArray (count : UInt16) : List ProfileField :=
  [⟨"DATA", .uint, .input, some ⟨0, .holdingRegister, none, none⟩, count⟩]

theorem registerArray_addressable (count : UInt16) : Addressable (registerArray count) := by
  intro pf hpf register hregister
  rw [registerArray, List.mem_singleton] at hpf
  subst hpf
  cases hregister
  decide

/-- A profile of two registers. -/
theorem two_registers_exact :
    @PollExact default (registerArray 2) ↔ Batchable (registerArray 2) :=
  @batching_exact_iff default (registerArray 2) (registerArray_addressable 2)

/-- An array of 126 registers is asked for in one request. -/
theorem long_array_illegal :
    ¬ ∀ fields, Addressable fields → @PollExact default fields := by
  intro h
  obtain ⟨regs, -, -, helements, -, -, hreads, -⟩ :=
    h (registerArray 126) (registerArray_addressable 126)
  have hfit := (@readPassExact_iff default regs).mp hreads
  rw [helements] at hfit
  have hrun : run follows (elements FieldDirection.isRead 0 (registerArray 126)) = 126 := by
    decide +kernel
  have hkinds : ∀ e ∈ elements FieldDirection.isRead 0 (registerArray 126),
      e.kind = .holdingRegister := by decide +kernel
  cases hes : elements FieldDirection.isRead 0 (registerArray 126) with
  | nil =>
    rw [hes] at hrun
    cases hrun
  | cons e rest =>
    rw [hes] at hrun hfit hkinds
    have hkind := hkinds e List.mem_cons_self
    have hle := (hfit e rest (List.suffix_refl _) (by rw [hkind]; rfl)).1
    rw [hrun, hkind] at hle
    exact absurd hle (by decide)

end RustPlc.Devices
