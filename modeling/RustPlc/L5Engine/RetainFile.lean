import RustPlc.Core.Files
import RustPlc.Core.Json
import RustPlc.L2Compiler.CompileModule
import RustPlc.L5Engine.RetainValues

/-!
# Retain files

`save_to_file` and `load_from_file` (crates/st-engine/src/retain_store.rs:450-478), with the
documents that the derived `Serialize` and `Deserialize` write and read. The text of a document
and its way back are serde_json's (`SerdeJson`). A document has no number that is not finite:
serde_json writes `null` in its place, and reads no number from `null`.

The list form of a struct, which the derived `Deserialize` also takes, is left out.

Results:
* `captureSnapshot_keyed`: a captured snapshot has one entry a name;
* `readSnapshot_reads`: a snapshot is read back when all its REAL values are finite, and not
  at all otherwise;
* `retain_file_iff`: **the same through the file.**
-/
namespace RustPlc.Engine

open RustPlc.Ir RustPlc.Core RustPlc.Syntax RustPlc.Compiler

/-! ## Documents -/

/-- Neither an infinity nor NaN. -/
def isFinite (r : F64) : Bool := r.bits &&& 0x7FF0000000000000 != 0x7FF0000000000000

/-- The numbers of a document: what fits in 64 bits, and finite doubles. -/
inductive JsonNumber where
  | int (i : Int) (range : -2 ^ 63 ≤ i ∧ i < 2 ^ 64)
  | float (x : F64) (finite : isFinite x = true)

abbrev Document := Json JsonNumber

/-- mirrors crates/st-engine/src/retain_store.rs:38-53 -/
structure StoredSnapshot extends RetainSnapshot where
  version : UInt32
  createdAt : UInt64

/-- What `capture_snapshot` returns at the time `now`.
mirrors crates/st-engine/src/retain_store.rs:201-212 -/
def RetainSnapshot.stamped (snap : RetainSnapshot) (now : UInt64) : StoredSnapshot :=
  { snap with version := 1, createdAt := now }

def uintDoc (u : UInt64) : Document :=
  .number (.int u.toNat (by have := u.toNat_lt; omega))

def intDoc (i : Int64) : Document :=
  .number (.int i.toInt (by have := i.le_toInt; have := i.toInt_lt; omega))

def floatDoc (r : F64) : Document := if h : isFinite r = true then .number (.float r h) else .null

/-- The externally tagged form of a value. -/
def valueDoc : Value → Document
  | .bool b => .object [("Bool", .bool b)]
  | .int i => .object [("Int", intDoc i)]
  | .uint u => .object [("UInt", uintDoc u)]
  | .real r => .object [("Real", floatDoc r)]
  | .string s => .object [("String", .string s)]
  | .time ms => .object [("Time", intDoc ms)]
  | .ref tag slot => .object [("Ref", .array [uintDoc tag.toUInt64, uintDoc slot.toUInt64])]
  | .null => .string "Null"
  | .void => .string "Void"

def entryDoc (e : RetainEntry) : Document :=
  .object [("value", valueDoc e.value), ("retain", .bool e.retain), ("persistent", .bool e.persistent)]

def mapDoc {α : Type} (doc : α → Document) (xs : Named α) : Document :=
  .object (xs.map fun p => (p.1, doc p.2))

def snapshotDoc (s : StoredSnapshot) : Document :=
  .object [("version", uintDoc s.version.toUInt64),
    ("created_at", uintDoc s.createdAt),
    ("globals", mapDoc entryDoc s.globals),
    ("program_locals", mapDoc (mapDoc entryDoc) s.programLocals),
    ("instance_fields", mapDoc (mapDoc (mapDoc entryDoc)) s.instanceFields)]

/-! ## Reading a document -/

/-- serde_json, and the texts of its errors. -/
structure SerdeJson where
  toStringPretty : Document → Except String String
  fromStr : String → Except String Document
  /-- What was found where something else was expected. -/
  unexpected : Document → String → String
  /-- An error with the line and column of the text. -/
  located : String → String → String

section

variable (S : SerdeJson)

def readBool : Document → Except String Bool
  | .bool b => .ok b
  | j => .error (S.unexpected j "a boolean")

def readNat (bits : Nat) (expected : String) : Document → Except String Nat
  | .number (.int i h) =>
    if 0 ≤ i ∧ i.toNat < 2 ^ bits then .ok i.toNat
    else .error (S.unexpected (.number (.int i h)) expected)
  | j => .error (S.unexpected j expected)

def readInt : Document → Except String Int64
  | .number (.int i h) =>
    if i.toNat < 2 ^ 63 then .ok (Int64.ofInt i) else .error (S.unexpected (.number (.int i h)) "i64")
  | j => .error (S.unexpected j "i64")

/-- An integer is also a REAL. -/
def readFloat [F64Ops] : Document → Except String F64
  | .number (.float x _) => .ok x
  | .number (.int i _) =>
    .ok (if 0 ≤ i then F64Ops.ofUInt i.toNat.toUInt64 else F64Ops.ofInt (Int64.ofInt i))
  | j => .error (S.unexpected j "f64")

def readString : Document → Except String String
  | .string s => .ok s
  | j => .error (S.unexpected j "a string")

def readRef : Document → Except String Value
  | .array [tag, slot] => do
    let tag ← readNat S 16 "u16" tag
    let slot ← readNat S 16 "u16" slot
    return .ref tag.toUInt16 slot.toUInt16
  | j => .error (S.unexpected j "tuple variant Value::Ref with 2 elements")

/-- mirrors crates/st-ir/src/lib.rs:161-176 -/
def readValue [F64Ops] : Document → Except String Value
  | .string s =>
    if s = "Null" then .ok .null
    else if s = "Void" then .ok .void
    else .error (S.unexpected (.string s) "enum Value")
  | .object [(tag, j)] =>
    if tag = "Bool" then (readBool S j).map .bool
    else if tag = "Int" then (readInt S j).map .int
    else if tag = "UInt" then (readNat S 64 "u64" j).map fun n => .uint n.toUInt64
    else if tag = "Real" then (readFloat S j).map .real
    else if tag = "String" then (readString S j).map .string
    else if tag = "Time" then (readInt S j).map .time
    else if tag = "Ref" then readRef S j
    else .error (S.unexpected (.object [(tag, j)]) "enum Value")
  | j => .error (S.unexpected j "enum Value")

/-- The member of this name; other members are skipped. -/
def readField (name : String) (members : List (String × Document)) : Except String Document :=
  match members.filter fun m => m.1 == name with
  | [] => .error ("missing field `" ++ name ++ "`")
  | [m] => .ok m.2
  | _ => .error ("duplicate field `" ++ name ++ "`")

def readMembers (expected : String) : Document → Except String (List (String × Document))
  | .object members => .ok members
  | j => .error (S.unexpected j expected)

def readEntry [F64Ops] (j : Document) : Except String RetainEntry := do
  let members ← readMembers S "struct RetainEntry" j
  let value ← readValue S (← readField "value" members)
  let retain ← readBool S (← readField "retain" members)
  let persistent ← readBool S (← readField "persistent" members)
  return ⟨value, retain, persistent⟩

/-- A later member takes the place of an earlier one of its name. -/
def readMap {α : Type} (read : Document → Except String α) (j : Document) :
    Except String (Named α) := do
  let members ← readMembers S "a map" j
  members.foldlM (fun acc m => do return acc.insert m.1 (← read m.2)) []

/-- The last field may be missing. -/
def readSnapshot [F64Ops] (j : Document) : Except String StoredSnapshot := do
  let members ← readMembers S "struct RetainSnapshot" j
  let version ← readNat S 32 "u32" (← readField "version" members)
  let createdAt ← readNat S 64 "u64" (← readField "created_at" members)
  let globals ← readMap S (readEntry S) (← readField "globals" members)
  let programLocals ← readMap S (readMap S (readEntry S)) (← readField "program_locals" members)
  let instanceFields ←
    if members.any (fun m => m.1 == "instance_fields") then
      readMap S (readMap S (readMap S (readEntry S))) (← readField "instance_fields" members)
    else pure []
  return { globals, programLocals, instanceFields, version := version.toUInt32,
           createdAt := createdAt.toUInt64 }

end

/-! ## Reading back -/

/-- Reading takes the documents of the `K` back to what they were made of where `P` holds, and
fails where it does not. -/
structure ReadsBack {α : Type} (read : Document → Except String α) (doc : α → Document)
    (K P : α → Prop) : Prop where
  ok : ∀ a, K a → P a → read (doc a) = .ok a
  lost : ∀ a, K a → ¬ P a → ∃ e, read (doc a) = .error e

/-- A value that a document has a form for. -/
def Finite : Value → Prop
  | .real r => isFinite r = true
  | _ => True

section

variable (S : SerdeJson)

theorem readNat_uintDoc {bits : Nat} {expected : String} {u : UInt64} (hu : u.toNat < 2 ^ bits) :
    readNat S bits expected (uintDoc u) = .ok u.toNat := by
  rw [uintDoc, readNat, if_pos ⟨by omega, hu⟩]
  rfl

theorem readInt_intDoc (i : Int64) : readInt S (intDoc i) = .ok i := by
  have := i.toInt_lt
  rw [intDoc, readInt, if_pos (by omega), Int64.ofInt_toInt]

theorem readUInt_doc (u : UInt64) :
    (readNat S 64 "u64" (uintDoc u)).map (fun n => Value.uint n.toUInt64) = .ok (.uint u) := by
  rw [readNat_uintDoc S u.toNat_lt]
  exact congrArg (fun w => Except.ok (Value.uint w)) UInt64.ofNat_toNat

theorem readWord_doc (w : UInt16) : readNat S 16 "u16" (uintDoc w.toUInt64) = .ok w.toNat := by
  rw [readNat_uintDoc S (by rw [UInt16.toNat_toUInt64]; exact w.toNat_lt), UInt16.toNat_toUInt64]

theorem readRef_doc (tag slot : UInt16) :
    readRef S (.array [uintDoc tag.toUInt64, uintDoc slot.toUInt64]) = .ok (.ref tag slot) := by
  simp only [readRef, readWord_doc]
  exact congrArg₂ (fun t s => Except.ok (Value.ref t s)) UInt16.ofNat_toNat UInt16.ofNat_toNat

variable [F64Ops]

theorem readValue_reads : ReadsBack (readValue S) valueDoc (fun _ => True) Finite := by
  constructor
  · intro v _ hv
    cases v with
    | bool b => simp [valueDoc, readValue, readBool, Except.map]
    | int i => simp [valueDoc, readValue, readInt_intDoc, Except.map]
    | uint u => simp [valueDoc, readValue, readUInt_doc]
    | real r =>
      have hr : isFinite r = true := hv
      simp [valueDoc, readValue, floatDoc, hr, readFloat, Except.map]
    | string s => simp [valueDoc, readValue, readString, Except.map]
    | time ms => simp [valueDoc, readValue, readInt_intDoc, Except.map]
    | ref tag slot => simp [valueDoc, readValue, readRef_doc]
    | null => simp [valueDoc, readValue]
    | void => simp [valueDoc, readValue]
  · intro v _ hv
    cases v with
    | real r =>
      have hr : ¬ isFinite r = true := hv
      exact ⟨S.unexpected .null "f64", by simp [valueDoc, readValue, floatDoc, hr, readFloat, Except.map]⟩
    | _ => exact absurd trivial hv

theorem readEntry_reads :
    ReadsBack (readEntry S) entryDoc (fun _ => True) (fun e => Finite e.value) := by
  have hfield : ∀ a b c : Document, ∀ name ∈ ["value", "retain", "persistent"],
      readField name [("value", a), ("retain", b), ("persistent", c)] =
        .ok (if name = "value" then a else if name = "retain" then b else c) := by
    intro a b c name hname
    simp only [List.mem_cons, List.not_mem_nil, or_false] at hname
    rcases hname with rfl | rfl | rfl <;> simp [readField]
  constructor
  · intro e _ he
    simp [entryDoc, readEntry, readMembers, hfield, (readValue_reads S).ok e.value trivial he, readBool,
      bind, Except.bind, pure, Except.pure]
  · intro e _ he
    obtain ⟨msg, hmsg⟩ := (readValue_reads S).lost e.value trivial he
    exact ⟨msg, by simp [entryDoc, readEntry, readMembers, hfield, hmsg, bind, Except.bind]⟩

/-! ## Maps -/

section

omit [F64Ops]

variable {α : Type} {read : Document → Except String α} {doc : α → Document} {K P : α → Prop}

theorem insert_new {name : String} {a : α} {xs : Named α} (h : name ∉ xs.map (·.1)) :
    xs.insert name a = xs ++ [(name, a)] := by
  induction xs with
  | nil => rfl
  | cons p xs ih =>
    rw [List.map_cons, List.mem_cons, not_or] at h
    rw [Named.insert, if_neg (Ne.symm h.1), ih h.2, List.cons_append]

/-- The members of a map are put in one by one. -/
theorem insertAll_ok : ∀ (xs acc : Named α), (∀ p ∈ xs, read (doc p.2) = .ok p.2) →
    ((acc ++ xs).map (·.1)).Nodup →
    (xs.map fun p => (p.1, doc p.2)).foldlM
      (fun acc m => do return Named.insert m.1 (← read m.2) acc) acc = .ok (acc ++ xs)
  | [], acc, _, _ => by simp [pure, Except.pure]
  | p :: xs, acc, hread, hnew => by
    have hp := hread p List.mem_cons_self
    have hfresh : p.1 ∉ acc.map (·.1) := by
      rw [List.map_append, List.nodup_append] at hnew
      intro hmem
      exact hnew.2.2 _ hmem _ (List.mem_cons_self ..) rfl
    have hins : Named.insert p.1 p.2 acc = acc ++ [p] := insert_new hfresh
    rw [List.map_cons, List.foldlM_cons, hp]
    have ih := insertAll_ok xs (acc ++ [p]) (fun q hq => hread q (List.mem_cons_of_mem p hq))
      (by simpa using hnew)
    simpa [bind, Except.bind, pure, Except.pure, hins] using ih

/-- One member that is not read back is enough. -/
theorem insertAll_lost : ∀ (xs acc : Named α), (∃ p ∈ xs, ∃ e, read (doc p.2) = .error e) →
    ∃ e, (xs.map fun p => (p.1, doc p.2)).foldlM
      (fun acc m => do return Named.insert m.1 (← read m.2) acc) acc = .error e
  | [], acc, h => by
    obtain ⟨p, hp, -⟩ := h
    cases hp
  | q :: xs, acc, h => by
    rw [List.map_cons, List.foldlM_cons]
    cases hq : read (doc q.2) with
    | error e => exact ⟨e, rfl⟩
    | ok a =>
      obtain ⟨p, hp, e, he⟩ := h
      rcases List.mem_cons.mp hp with rfl | hp
      · rw [hq] at he
        cases he
      · exact insertAll_lost xs _ ⟨p, hp, e, he⟩

/-- A map with one entry a name. -/
def Keyed (K : α → Prop) (xs : Named α) : Prop := (xs.map (·.1)).Nodup ∧ ∀ p ∈ xs, K p.2

def Entries (P : α → Prop) (xs : Named α) : Prop := ∀ p ∈ xs, P p.2

theorem readMap_reads (h : ReadsBack read doc K P) :
    ReadsBack (readMap S read) (mapDoc doc) (Keyed K) (Entries P) := by
  constructor
  · intro xs hk hp
    exact insertAll_ok xs [] (fun p hm => h.ok p.2 (hk.2 p hm) (hp p hm)) hk.1
  · intro xs hk hp
    have hbad : ∃ p ∈ xs, ¬ P p.2 := by
      by_contra hall
      apply hp
      intro p hm
      by_contra hnot
      exact hall ⟨p, hm, hnot⟩
    obtain ⟨p, hm, hnot⟩ := hbad
    obtain ⟨e, he⟩ := h.lost p.2 (hk.2 p hm) hnot
    exact insertAll_lost xs [] ⟨p, hm, e, he⟩

end

/-! ## Snapshots -/

/-- The maps of a snapshot have one entry a name. -/
structure SnapshotKeyed (s : RetainSnapshot) : Prop where
  globals : Keyed (fun _ => True) s.globals
  programLocals : Keyed (Keyed fun _ => True) s.programLocals
  instanceFields : Keyed (Keyed (Keyed fun _ => True)) s.instanceFields

/-- The entries of a snapshot. -/
def RetainSnapshot.entries (s : RetainSnapshot) : List RetainEntry :=
  s.globals.map (·.2) ++ s.programLocals.flatMap (fun p => p.2.map (·.2)) ++
    s.instanceFields.flatMap fun p => p.2.flatMap fun q => q.2.map (·.2)

/-- No REAL of the snapshot is an infinity or NaN. -/
def SnapshotFinite (s : RetainSnapshot) : Prop := ∀ e ∈ s.entries, Finite e.value

omit [F64Ops] in
theorem snapshotFinite_iff {s : RetainSnapshot} : SnapshotFinite s ↔
    Entries (fun e => Finite e.value) s.globals ∧
    Entries (Entries fun e => Finite e.value) s.programLocals ∧
    Entries (Entries (Entries fun e => Finite e.value)) s.instanceFields := by
  simp only [SnapshotFinite, RetainSnapshot.entries, List.mem_append, List.mem_map,
    List.mem_flatMap, Entries]
  constructor
  · intro h
    refine ⟨fun p hp => h p.2 (.inl (.inl ⟨p, hp, rfl⟩)),
      fun p hp q hq => h q.2 (.inl (.inr ⟨p, hp, q, hq, rfl⟩)),
      fun p hp q hq r hr => h r.2 (.inr ⟨p, hp, q, hq, r, hr, rfl⟩)⟩
  · intro h e he
    obtain ⟨hg, hl, hi⟩ := h
    rcases he with (⟨p, hp, rfl⟩ | ⟨p, hp, q, hq, rfl⟩) | ⟨p, hp, q, hq, r, hr, rfl⟩
    · exact hg p hp
    · exact hl p hp q hq
    · exact hi p hp q hq r hr

/-- The members of the document of a snapshot. -/
structure Members (ms : List (String × Document)) (s : StoredSnapshot) : Prop where
  version : readField "version" ms = .ok (uintDoc s.version.toUInt64)
  createdAt : readField "created_at" ms = .ok (uintDoc s.createdAt)
  globals : readField "globals" ms = .ok (mapDoc entryDoc s.globals)
  programLocals : readField "program_locals" ms = .ok (mapDoc (mapDoc entryDoc) s.programLocals)
  instanceFields : readField "instance_fields" ms =
    .ok (mapDoc (mapDoc (mapDoc entryDoc)) s.instanceFields)
  present : ms.any (fun m => m.1 == "instance_fields") = true

omit [F64Ops] in
theorem snapshotDoc_members (s : StoredSnapshot) : ∃ ms, snapshotDoc s = .object ms ∧ Members ms s := by
  refine ⟨_, rfl, ?_⟩
  constructor <;> simp [readField]

theorem readSnapshot_members {ms : List (String × Document)} {s : StoredSnapshot}
    (h : Members ms s) : readSnapshot S (.object ms) = (do
      let globals ← readMap S (readEntry S) (mapDoc entryDoc s.globals)
      let programLocals ←
        readMap S (readMap S (readEntry S)) (mapDoc (mapDoc entryDoc) s.programLocals)
      let instanceFields ← readMap S (readMap S (readMap S (readEntry S)))
        (mapDoc (mapDoc (mapDoc entryDoc)) s.instanceFields)
      return { globals, programLocals, instanceFields, version := s.version,
               createdAt := s.createdAt }) := by
  have hv : readNat S 32 "u32" (uintDoc s.version.toUInt64) = .ok s.version.toNat := by
    rw [readNat_uintDoc S (by rw [UInt32.toNat_toUInt64]; exact s.version.toNat_lt),
      UInt32.toNat_toUInt64]
  have hc : readNat S 64 "u64" (uintDoc s.createdAt) = .ok s.createdAt.toNat := by
    rw [readNat_uintDoc S s.createdAt.toNat_lt]
  have hv' : s.version.toNat.toUInt32 = s.version := UInt32.ofNat_toNat
  have hc' : s.createdAt.toNat.toUInt64 = s.createdAt := UInt64.ofNat_toNat
  unfold readSnapshot
  simp only [readMembers, h.version, h.createdAt, h.globals, h.programLocals, h.instanceFields,
    h.present, hv, hc, hv', hc', bind, Except.bind, if_true]

/-- **A snapshot is read back exactly when its REAL values are finite.** -/
theorem readSnapshot_reads : ReadsBack (readSnapshot S) snapshotDoc
    (fun s => SnapshotKeyed s.toRetainSnapshot) (fun s => SnapshotFinite s.toRetainSnapshot) := by
  have hentry := readEntry_reads S
  have hmap := readMap_reads S hentry
  have hmap2 := readMap_reads S hmap
  have hmap3 := readMap_reads S hmap2
  constructor
  · intro s hk hf
    obtain ⟨hg, hl, hi⟩ := snapshotFinite_iff.mp hf
    obtain ⟨ms, hdoc, hms⟩ := snapshotDoc_members s
    rw [hdoc, readSnapshot_members S hms, hmap.ok _ hk.globals hg, hmap2.ok _ hk.programLocals hl,
      hmap3.ok _ hk.instanceFields hi]
    rfl
  · intro s hk hf
    obtain ⟨ms, hdoc, hms⟩ := snapshotDoc_members s
    rw [hdoc, readSnapshot_members S hms]
    by_cases hg : Entries (fun e => Finite e.value) s.globals
    · rw [hmap.ok _ hk.globals hg]
      by_cases hl : Entries (Entries fun e => Finite e.value) s.programLocals
      · rw [hmap2.ok _ hk.programLocals hl]
        have hi : ¬ Entries (Entries (Entries fun e => Finite e.value)) s.instanceFields :=
          fun hi => hf (snapshotFinite_iff.mpr ⟨hg, hl, hi⟩)
        obtain ⟨e, he⟩ := hmap3.lost _ hk.instanceFields hi
        rw [he]
        exact ⟨e, rfl⟩
      · obtain ⟨e, he⟩ := hmap2.lost _ hk.programLocals hl
        rw [he]
        exact ⟨e, rfl⟩
    · obtain ⟨e, he⟩ := hmap.lost _ hk.globals hg
      rw [he]
      exact ⟨e, rfl⟩

end

/-! ## Captured snapshots -/

theorem keyed_insert {α : Type} {K : α → Prop} {xs : Named α} (h : Keyed K xs) {name : String}
    {a : α} (ha : K a) : Keyed K (xs.insert name a) := by
  refine ⟨Named.nodup_insert h.1, ?_⟩
  have hmem : ∀ ys : Named α, ∀ p ∈ ys.insert name a, p = (name, a) ∨ p ∈ ys := by
    intro ys
    induction ys with
    | nil =>
      intro p hp
      exact .inl (List.mem_singleton.mp hp)
    | cons q ys ih =>
      intro p hp
      unfold Named.insert at hp
      split at hp
      · exact (List.mem_cons.mp hp).imp_right (List.mem_cons_of_mem q)
      · rcases List.mem_cons.mp hp with rfl | hp
        · exact .inr List.mem_cons_self
        · exact (ih p hp).imp_right (List.mem_cons_of_mem q)
  intro p hp
  rcases hmem xs p hp with rfl | hp
  · exact ha
  · exact h.2 p hp

theorem keyed_nil {α : Type} {K : α → Prop} : Keyed K ([] : Named α) :=
  ⟨List.nodup_nil, fun _ hp => absurd hp List.not_mem_nil⟩

theorem captureFields_keyed (slot : VarSlot) (fields : List VarSlot) (state : Option (List Value)) :
    Keyed (fun _ => True) (captureFields slot fields state) := by
  unfold captureFields
  refine List.foldlRecOn (motive := fun acc : Named RetainEntry => Keyed (fun _ => True) acc)
    fields.zipIdx _ keyed_nil fun acc hacc (f, j) _ => ?_
  show Keyed _ (if isComposite f.ty then acc else _)
  split
  · exact hacc
  · exact keyed_insert hacc trivial

/-- What the capture of a program keeps. -/
structure CapturedKeyed (c : Captured) : Prop where
  vars : Keyed (fun _ => True) c.vars
  instances : Keyed (Keyed fun _ => True) c.instances

theorem captureFields_added (vm : Vm) (i : UInt16) {acc : Captured} (hacc : CapturedKeyed acc)
    (slot : VarSlot) (j : Nat) (fields : List VarSlot) :
    CapturedKeyed (match captureFields slot fields
      (Finmap.lookup (programIdentity i, j.toUInt16) vm.fbInstances) with
        | [] => acc
        | entries => { acc with instances := acc.instances.insert slot.name entries }) := by
  have hf := captureFields_keyed slot fields
    (Finmap.lookup (programIdentity i, j.toUInt16) vm.fbInstances)
  generalize captureFields slot fields _ = entries at hf
  cases entries with
  | nil => exact hacc
  | cons e es => exact ⟨hacc.vars, keyed_insert hacc.instances hf⟩

theorem captureSlot_keyed {vm : Vm} {i : UInt16} {locals : List Value} {acc acc' : Captured}
    {slot : VarSlot} {j : Nat} (hacc : CapturedKeyed acc)
    (h : captureSlot vm i locals acc slot j = .ok acc') : CapturedKeyed acc' := by
  have hadd := captureFields_added vm i hacc slot j
  have hscalar : CapturedKeyed { acc with
      vars := acc.vars.insert slot.name (entryOf slot (locals[j]?.getD .void)) } :=
    ⟨keyed_insert hacc.vars trivial, hacc.instances⟩
  unfold captureSlot at h
  split at h
  · exact Except.ok.inj h ▸ hacc
  · split at h
    · split at h
      · exact Except.ok.inj h ▸ hadd _
      · exact Except.ok.inj h ▸ hacc
    · next fb _ =>
      cases hidx : index vm.module.functions fb.toNat with
      | error t => simp [hidx, Except.map] at h
      | ok func =>
        rw [hidx] at h
        exact Except.ok.inj h ▸ hadd _
    · exact Except.ok.inj h ▸ hacc
    · exact Except.ok.inj h ▸ hacc
    · exact Except.ok.inj h ▸ hscalar

theorem captureProgram_keyed {vm : Vm} {i : UInt16} {prog : Function} {locals : List Value}
    {c : Captured} (h : captureProgram vm i prog locals = .ok c) : CapturedKeyed c :=
  foldlM_inv (P := CapturedKeyed) (fun _ _ _ _ hacc hstep => captureSlot_keyed hacc hstep)
    ⟨keyed_nil, keyed_nil⟩ h

/-- **A captured snapshot has one entry a name.** -/
theorem captureSnapshot_keyed {vm : Vm} {snap : RetainSnapshot}
    (h : captureSnapshot vm = .ok snap) : SnapshotKeyed snap := by
  have hglobals : Keyed (fun _ => True) (captureGlobals vm) := by
    unfold captureGlobals
    refine List.foldlRecOn (motive := fun acc : Named RetainEntry => Keyed (fun _ => True) acc)
      vm.module.globals.slots.zipIdx _ keyed_nil fun acc hacc p _ => ?_
    show Keyed _ (if !retainable p.1 then acc else _)
    split
    · exact hacc
    · exact keyed_insert hacc trivial
  unfold captureSnapshot at h
  split at h
  · cases h
  · refine foldlM_inv (P := SnapshotKeyed) ?_ ⟨hglobals, keyed_nil, keyed_nil⟩ h
    intro acc p acc' _ hacc hstep
    obtain ⟨i, prog, locals⟩ := p
    cases hc : captureProgram vm i prog locals with
    | error t => simp [hc, bind, Except.bind] at hstep
    | ok c =>
      have hk := captureProgram_keyed hc
      simp only [hc, bind, Except.bind, pure, Except.pure, Except.ok.injEq] at hstep
      subst hstep
      refine ⟨hacc.globals, ?_, ?_⟩
      · have hvars := hk.vars
        dsimp only
        cases hv : c.vars with
        | nil => exact hacc.programLocals
        | cons e es => exact keyed_insert hacc.programLocals (hv ▸ hvars)
      · have hinst := hk.instances
        dsimp only
        cases hi : c.instances with
        | nil => exact hacc.instanceFields
        | cons e es => exact keyed_insert hacc.instanceFields (hi ▸ hinst)

/-! ## The file -/

/-- What the two functions are told by the system. -/
structure Host extends SerdeJson where
  display : Path → String
  ioError : String

/-- `Path::file_stem`: up to the last dot, unless that is the first character. -/
def fileStem (name : String) : String :=
  match name.toList.reverse.dropWhile (· ≠ '.') with
  | [] | [_] => name
  | _ :: rest => String.ofList rest.reverse

/-- `path.with_extension("retain.tmp")` -/
def tmpName (name : String) : String := fileStem name ++ ".retain.tmp"

/-- The retain file is the file `name` of the directory `dir`.
mirrors crates/st-engine/src/retain_store.rs:450-469 -/
def saveToFile (H : Host) (fs : Files String) (dir : Path) (name : String) (s : StoredSnapshot) :
    Files String × Except String Unit :=
  let (fs, made) := (FileOp.createDirAll dir).run fs
  if !made then
    (fs, .error ("Cannot create retain dir " ++ H.display dir ++ ": " ++ H.ioError))
  else match H.toStringPretty (snapshotDoc s) with
    | .error e => (fs, .error ("Serialize error: " ++ e))
    | .ok json =>
      let (fs, written) := (FileOp.write (dir ++ [tmpName name]) json).run fs
      if !written then (fs, .error ("Write error: " ++ H.ioError))
      else
        let (fs, renamed) := fs.rename (dir ++ [tmpName name]) (dir ++ [name])
        (fs, if renamed then .ok () else .error ("Rename error: " ++ H.ioError))

/-- mirrors crates/st-engine/src/retain_store.rs:472-478 -/
def loadFromFile [F64Ops] (H : Host) (fs : Files String) (dir : Path) (name : String) :
    Except String StoredSnapshot :=
  match (Files.walk fs [] (dir ++ [name])).bind fun p => Files.content (fs p) with
  | none => .error ("Cannot read " ++ H.display (dir ++ [name]) ++ ": " ++ H.ioError)
  | some content => match H.fromStr content >>= readSnapshot H.toSerdeJson with
    | .ok s => .ok s
    | .error e => .error ("Deserialize error: " ++ H.located content e)

/-- The file can be written: no file is in the place of a directory on the way, and no
directory in the place of the file or of its temporary one. -/
structure Writable (fs : Files String) (dir : Path) (name : String) : Prop where
  plain : Plain (dir ++ [name])
  root : fs [] = some .dir
  free : ∀ as, as <+: dir → as ≠ [] → Files.isFile (fs as) = false
  target : Files.isDir (fs (dir ++ [name])) = false
  temporary : Files.isDir (fs (dir ++ [tmpName name])) = false

section

variable {fs : Files String} {dir : Path} {name : String}

theorem tmpName_plain (hdir : Plain dir) (name : String) : Plain (dir ++ [tmpName name]) := by
  refine hdir.append fun c hc => ?_
  obtain rfl := List.mem_singleton.mp hc
  have hlen : 11 ≤ (tmpName name).length := by
    rw [tmpName, String.length_append]
    exact Nat.le_add_left 11 _
  constructor <;> intro heq <;> exact absurd (heq ▸ hlen) (by decide)

/-- A file of a directory that exists is found. -/
theorem walk_file (hdirs : ∀ as, as <+: dir → fs as = some .dir) {c : String}
    (hc : Plain (dir ++ [c])) : Files.walk fs [] (dir ++ [c]) = some (dir ++ [c]) := by
  refine Files.walk_of_dirs hc fun as has hne => hdirs as ?_
  exact (List.prefix_concat_iff.mp has).resolve_left hne

theorem above_ne_file {as : Path} (has : as <+: dir) (c : String) : as ≠ dir ++ [c] := by
  intro heq
  have hlen := has.length_le
  rw [heq, List.length_append, List.length_singleton] at hlen
  omega

/-- What is written can be read. -/
theorem saveToFile_ok (H : Host) {s : StoredSnapshot} {json : String}
    (hw : Writable fs dir name) (hjson : H.toStringPretty (snapshotDoc s) = .ok json) :
    ∃ fs', saveToFile H fs dir name s = (fs', .ok ()) ∧
      ((Files.walk fs' [] (dir ++ [name])).bind fun p => Files.content (fs' p)) = some json := by
  have hplain : Plain dir := hw.plain.of_subset (List.subset_append_left dir [name])
  have htmp := tmpName_plain hplain name
  obtain ⟨fs1, hmade⟩ : ∃ fs1, (FileOp.createDirAll dir).run fs = (fs1, true) :=
    ⟨_, Prod.ext rfl (Files.mkdirs_free hplain fun as has hne => hw.free as has hne)⟩
  have hdirs1 : ∀ as, as <+: dir → fs1 as = some .dir := by
    intro as has
    by_cases hnil : as = []
    · have : ((FileOp.createDirAll dir).run fs).1 [] = some .dir :=
        run_keeps_dir hw.root fun path h => by cases h
      rw [hmade] at this
      rwa [hnil]
    · exact Files.mkdirs_made hplain hmade as has hnil
  have hsame : ∀ c, fs1 (dir ++ [c]) = fs (dir ++ [c]) := by
    intro c
    have : ((FileOp.createDirAll dir).run fs).1 (dir ++ [c]) = fs (dir ++ [c]) := by
      refine run_frame fun ⟨k, hk⟩ => ?_
      have hpre : dir.take k <+: dir := List.take_prefix k dir
      rw [lexical_of_plain (hplain.of_subset hpre.subset)] at hk
      exact above_ne_file hpre c hk.symm
    rwa [hmade] at this
  have hwrite : (FileOp.write (dir ++ [tmpName name]) json).run fs1 =
      (fs1.put (dir ++ [tmpName name]) (some (.file json)), true) := by
    simp only [FileOp.run, walk_file hdirs1 htmp, hsame, hw.temporary, Bool.false_eq_true, if_false]
  generalize hfs2 : fs1.put (dir ++ [tmpName name]) (some (.file json)) = fs2 at hwrite
  have hdirs2 : ∀ as, as <+: dir → fs2 as = some .dir := by
    intro as has
    rw [← hfs2, Files.put_other fs1 (above_ne_file has _), hdirs1 as has]
  have hheld : fs2 (dir ++ [tmpName name]) = some (.file json) := by
    rw [← hfs2, Files.put_same]
  have hfree : Files.isDir (fs2 (dir ++ [name])) = false := by
    rw [← hfs2]
    exact Files.put_notDir (by rw [hsame]; exact hw.target) rfl
  have hrename : fs2.rename (dir ++ [tmpName name]) (dir ++ [name]) =
      ((fs2.put (dir ++ [tmpName name]) none).put (dir ++ [name]) (some (.file json)), true) := by
    simp only [Files.rename, walk_file hdirs2 htmp, walk_file hdirs2 hw.plain, hheld, hfree,
      Bool.false_eq_true, if_false]
  refine ⟨(fs2.put (dir ++ [tmpName name]) none).put (dir ++ [name]) (some (.file json)), ?_, ?_⟩
  · simp only [saveToFile, hmade, hjson, hwrite, hrename, Bool.not_true, Bool.false_eq_true, if_false,
      if_true]
  · rw [walk_file ?_ hw.plain, Option.bind_some, Files.put_same]
    · rfl
    · intro as has
      rw [Files.put_other _ (above_ne_file has _), Files.put_other _ (above_ne_file has _),
        hdirs2 as has]

end

/-- serde_json writes every document, and reads it from what it has written. -/
def SerdeJson.RoundTrips (S : SerdeJson) : Prop :=
  ∀ j, ∃ json, S.toStringPretty j = .ok json ∧ S.fromStr json = .ok j

section

variable [F64Ops] {vm : Vm} {snap : RetainSnapshot}

/-- One value that is not finite makes the whole file unreadable. -/
theorem retain_file_unreadable (H : Host) (hS : H.RoundTrips)
    (h : captureSnapshot vm = .ok snap) (now : UInt64) {fs : Files String} {dir : Path}
    {name : String} (hw : Writable fs dir name) (hbad : ¬ SnapshotFinite snap) :
    ∃ e, loadFromFile H (saveToFile H fs dir name (snap.stamped now)).1 dir name = .error e := by
  obtain ⟨json, hjson, hback⟩ := hS (snapshotDoc (snap.stamped now))
  obtain ⟨fs', hsave, hread⟩ := saveToFile_ok H hw hjson
  obtain ⟨e, he⟩ := (readSnapshot_reads H.toSerdeJson).lost (snap.stamped now)
    (captureSnapshot_keyed h) hbad
  refine ⟨"Deserialize error: " ++ H.located json e, ?_⟩
  rw [hsave, loadFromFile, hread]
  simp only [hback, bind, Except.bind, he]

/-- **A captured snapshot survives its file exactly when its REAL values are finite.** -/
theorem retain_file_iff (H : Host) (hS : H.RoundTrips) (vm : Vm) (snap : RetainSnapshot)
    (h : captureSnapshot vm = .ok snap) (now : UInt64) (fs : Files String) (dir : Path)
    (name : String) (hw : Writable fs dir name) :
    (saveToFile H fs dir name (snap.stamped now)).2 = .ok () ∧
      loadFromFile H (saveToFile H fs dir name (snap.stamped now)).1 dir name =
        .ok (snap.stamped now) ↔ SnapshotFinite snap := by
  constructor
  · intro hload
    by_contra hbad
    obtain ⟨e, he⟩ := retain_file_unreadable H hS h now hw hbad
    rw [he] at hload
    cases hload.2
  · intro hf
    obtain ⟨json, hjson, hback⟩ := hS (snapshotDoc (snap.stamped now))
    obtain ⟨fs', hsave, hread⟩ := saveToFile_ok H hw hjson
    have hok := (readSnapshot_reads H.toSerdeJson).ok (snap.stamped now) (captureSnapshot_keyed h) hf
    rw [hsave]
    refine ⟨rfl, ?_⟩
    rw [loadFromFile, hread]
    simp only [hback, bind, Except.bind, hok]

end

/-! ## A counter, and a level that overflows -/

theorem countable_number : Countable JsonNumber := by
  refine Function.Injective.countable (β := Option Int × Option ℕ) (f := fun n => match n with
    | .int i _ => (some i, none)
    | .float x _ => (none, some x.bits.toNat)) ?_
  intro a b h
  cases a with
  | int i hi =>
    cases b with
    | int j hj => simpa using h
    | float y hy => simp at h
  | float x hx =>
    cases b with
    | int j hj => simp at h
    | float y hy =>
      obtain ⟨x⟩ := x
      obtain ⟨y⟩ := y
      simpa [UInt64.toNat_inj] using h

/-- A library that reads what it writes, with the text of one document given. -/
theorem exists_host (doc : Document) (text : String) :
    ∃ H : Host, H.RoundTrips ∧ H.toStringPretty doc = .ok text := by
  classical
  have := countable_number
  obtain ⟨write, hinj, hdoc⟩ := Json.exists_text doc text
  refine ⟨{ toStringPretty := fun j => .ok (write j)
            fromStr := fun s => if h : ∃ j, write j = s then .ok h.choose else .error "expected value"
            unexpected := fun _ expected => "invalid type: expected " ++ expected
            located := fun _ e => e
            display := fun p => "/".intercalate p
            ioError := "I/O error" }, ?_, congrArg Except.ok hdoc⟩
  intro j
  have hex : ∃ j', write j' = write j := ⟨j, rfl⟩
  refine ⟨write j, rfl, ?_⟩
  show (if h : ∃ j', write j' = write j then Except.ok h.choose else _) = .ok j
  rw [dif_pos hex, hinj hex.choose_spec]

/-- The retain file of a program `Main` with one RETAIN variable. -/
def retainText (name value : String) : String :=
  "\n".intercalate ["\x7b", "  \"version\": 1,", "  \"created_at\": 1700000000,", "  \"globals\": \x7b\x7d,",
    "  \"program_locals\": \x7b", "    \"Main\": \x7b", "      \"" ++ name ++ "\": \x7b",
    "        \"value\": \x7b", "          " ++ value, "        \x7d,", "        \"retain\": true,",
    "        \"persistent\": false", "      \x7d", "    \x7d", "  \x7d,",
    "  \"instance_fields\": \x7b\x7d", "\x7d"]

def emptyDisk : Files String := fun p => if p = [] then some .dir else none

theorem emptyDisk_writable : Writable emptyDisk ["retain"] "Main.retain" where
  plain := by decide
  root := rfl
  free := fun as _ hne => by rw [emptyDisk, if_neg hne]; rfl
  target := by decide
  temporary := by decide

/-- A machine on which a cycle of `Main` has completed. -/
def AfterCycle [F64Ops] (source : SourceFile) (vm : Vm) : Prop :=
  ∃ m v, compile source = .ok m ∧ Vm.run 20 (Vm.new m .default) "Main" = some (vm, .ok v)

/-- What a completed cycle of `Main` leaves to be saved. -/
def saves [F64Ops] (source : SourceFile) (snap : RetainSnapshot) : Bool :=
  yields source fun m => match Vm.run 20 (Vm.new m .default) "Main" with
    | some (vm, .ok _) => match captureSnapshot vm with
      | .ok s => decide (s = snap)
      | .error _ => false
    | _ => false

theorem saves_iff [F64Ops] {source : SourceFile} {snap : RetainSnapshot}
    (h : saves source snap = true) : ∃ vm, AfterCycle source vm ∧ captureSnapshot vm = .ok snap := by
  obtain ⟨m, hm, hp⟩ := yields_iff.mp h
  split at hp
  · next vm v hrun =>
    split at hp
    · next s hs =>
      obtain rfl := of_decide_eq_true hp
      exact ⟨vm, ⟨m, v, hm, hrun⟩, hs⟩
    · cases hp
  · cases hp

/-- A retained counter that starts with 5. -/
def countSource : SourceFile := ⟨[
  .program ⟨"Main", [⟨.var, [.retain], [.init "n" .int (.ofInt 5)]⟩],
    [.assign "n" (.binary .add (.ofName "n") (.ofInt 1) noRange)]⟩]⟩

def counted : RetainSnapshot := ⟨[], [("Main", [("n", ⟨.int 6, true, false⟩)])], []⟩

/-- The counter survives. -/
theorem count_survives : ∃ (H : Host) (vm : Vm), H.RoundTrips ∧
    H.toStringPretty (snapshotDoc (counted.stamped 1700000000)) = .ok (retainText "n" "\"Int\": 6") ∧
    @AfterCycle default countSource vm ∧ captureSnapshot vm = .ok counted ∧
    let saved := saveToFile H emptyDisk ["retain"] "Main.retain" (counted.stamped 1700000000)
    saved.2 = .ok () ∧ @loadFromFile default H saved.1 ["retain"] "Main.retain" =
      .ok (counted.stamped 1700000000) := by
  obtain ⟨H, hH, htext⟩ := exists_host (snapshotDoc (counted.stamped 1700000000))
    (retainText "n" "\"Int\": 6")
  have hrun : @saves default countSource counted = true := by decide +kernel
  obtain ⟨vm, hvm, hsnap⟩ := @saves_iff default _ _ hrun
  have hfinite : SnapshotFinite counted := by
    intro e he
    obtain rfl : e = ⟨.int 6, true, false⟩ := by simpa [counted, RetainSnapshot.entries] using he
    trivial
  refine ⟨H, vm, hH, htext, hvm, hsnap, ?_⟩
  exact (@retain_file_iff default H hH vm counted hsnap 1700000000 emptyDisk ["retain"] "Main.retain"
    emptyDisk_writable).mpr hfinite

/-- Doubles in which a product overflows. -/
@[reducible] def overflowReals : F64Ops :=
  { (default : F64Ops) with mul := fun _ _ => ⟨0x7FF0000000000000⟩ }

/-- A retained level of 1.0E300 that is squared. -/
def levelSource : SourceFile := ⟨[
  .program ⟨"Main", [⟨.var, [.retain],
      [.init "level" (.elementary .real) (.literal (.real 0x7E37E43C8800759C) noRange)]⟩],
    [.assign "level" (.binary .mul (.ofName "level") (.ofName "level") noRange)]⟩]⟩

def overflowed : RetainSnapshot :=
  ⟨[], [("Main", [("level", ⟨.real ⟨0x7FF0000000000000⟩, true, false⟩)])], []⟩

/-- **A level that has overflowed is lost**, and the file with it. -/
theorem overflow_unreadable : ∃ (H : Host) (vm : Vm), H.RoundTrips ∧
    H.toStringPretty (snapshotDoc (overflowed.stamped 1700000000)) =
      .ok (retainText "level" "\"Real\": null") ∧
    @AfterCycle overflowReals levelSource vm ∧ captureSnapshot vm = .ok overflowed ∧
    let saved := saveToFile H emptyDisk ["retain"] "Main.retain" (overflowed.stamped 1700000000)
    saved.2 = .ok () ∧ ∃ e, @loadFromFile overflowReals H saved.1 ["retain"] "Main.retain" =
      .error e := by
  obtain ⟨H, hH, htext⟩ := exists_host (snapshotDoc (overflowed.stamped 1700000000))
    (retainText "level" "\"Real\": null")
  have hrun : @saves overflowReals levelSource overflowed = true := by decide +kernel
  obtain ⟨vm, hvm, hsnap⟩ := @saves_iff overflowReals _ _ hrun
  have hbad : ¬ SnapshotFinite overflowed := by
    intro h
    exact absurd (h ⟨.real ⟨0x7FF0000000000000⟩, true, false⟩ (by simp [overflowed,
      RetainSnapshot.entries])) (by show ¬ isFinite ⟨0x7FF0000000000000⟩ = true; decide)
  obtain ⟨json, hjson, -⟩ := hH (snapshotDoc (overflowed.stamped 1700000000))
  obtain ⟨fs', hsave, -⟩ := saveToFile_ok H emptyDisk_writable hjson
  refine ⟨H, vm, hH, htext, hvm, hsnap, by rw [hsave], ?_⟩
  exact @retain_file_unreadable overflowReals vm overflowed H hH hsnap 1700000000 emptyDisk ["retain"]
    "Main.retain" emptyDisk_writable hbad

end RustPlc.Engine
