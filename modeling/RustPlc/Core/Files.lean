import Mathlib.Data.List.Infix
import Mathlib.Tactic.Common

/-!
# A file system

Files and directories by absolute path, the operations that change them, and
plans: sequences of operations, each required or best effort. A path that is
handed to an operation may contain `..`; it is walked as a kernel walks it,
through directories that exist. There are no links.

Results:
* `walk_eq_lexical`: a walk that succeeds ends where the path says;
* `run_frame`: an operation changes nothing outside what it touches;
* `planStates_frame`: neither does a plan, at any point of its execution.
-/
namespace RustPlc.Core

/-! ## Paths -/

/-- The components of an absolute path without `..`. -/
abbrev Path := List String

/-- One component further: `..` is the parent, `.` stays. -/
def descend (p : Path) (c : String) : Path :=
  if c = ".." then p.dropLast else if c = "." then p else p ++ [c]

/-- Where the components lead, as text. -/
def lexical (p : Path) (cs : List String) : Path := cs.foldl descend p

/-- `q` is a path below the directory `d`. -/
def Below (d q : Path) : Prop := d <+: q ∧ d ≠ q

instance (d q : Path) : Decidable (Below d q) := inferInstanceAs (Decidable (_ ∧ _))

@[simp] theorem lexical_nil (p : Path) : lexical p [] = p := rfl

@[simp] theorem lexical_cons (p : Path) (c : String) (cs : List String) :
    lexical p (c :: cs) = lexical (descend p c) cs := rfl

@[simp] theorem lexical_append (p : Path) (as bs : List String) :
    lexical p (as ++ bs) = lexical (lexical p as) bs := List.foldl_append

/-- Components that only lead down. -/
def Plain (cs : List String) : Prop := ∀ c ∈ cs, c ≠ ".." ∧ c ≠ "."

instance (cs : List String) : Decidable (Plain cs) := inferInstanceAs (Decidable (∀ c ∈ cs, _))

theorem descend_of_plain {c : String} (h : c ≠ ".." ∧ c ≠ ".") (p : Path) :
    descend p c = p ++ [c] := by
  rw [descend, if_neg h.1, if_neg h.2]

/-- Without `..` and `.` the components are appended. -/
theorem lexical_of_plain {cs : List String} (h : Plain cs) (p : Path) : lexical p cs = p ++ cs := by
  induction cs generalizing p with
  | nil => simp
  | cons c cs ih =>
    rw [Plain, List.forall_mem_cons] at h
    rw [lexical_cons, descend_of_plain h.1, ih h.2]
    simp

theorem Plain.append {as bs : List String} (ha : Plain as) (hb : Plain bs) : Plain (as ++ bs) :=
  fun c hc => (List.mem_append.mp hc).elim (ha c) (hb c)

theorem Plain.of_subset {as bs : List String} (hb : Plain bs) (h : as ⊆ bs) : Plain as :=
  fun c hc => hb c (h hc)

/-- The components of a path text: repeated separators and `.` do not count. -/
def components (s : String) : List String :=
  ((s.toList.splitOn '/').map String.ofList).filter fun c => c ≠ "" ∧ c ≠ "."

/-- `dir.join(rel)`: an absolute `rel` replaces the directory. -/
def joinPath (dir : List String) (rel : String) : List String :=
  if rel.toList.head? = some '/' then components rel else dir ++ components rel

/-- A path text that ends in a separator or in `.` names a directory. -/
def namesDir (s : String) : Bool := (s.toList.splitOn '/').getLast? ∈ [some [], some ['.']]

/-- `dir.join(rel)` as the system opens it: the `.` at the end of a path that
names a directory counts. -/
def openPath (dir : List String) (rel : String) : List String :=
  joinPath dir rel ++ if namesDir rel then ["."] else []

/-! ## Files -/

section

variable {β : Type}

inductive Node (β : Type) where
  | file (content : β)
  | dir
  deriving DecidableEq, Repr

/-- The files and directories that exist. -/
abbrev Files (β : Type) := Path → Option (Node β)

namespace Files

def put (fs : Files β) (p : Path) (n : Option (Node β)) : Files β := fun q => if q = p then n else fs q

/-- Everything at and below `p` removed. -/
def prune (fs : Files β) (p : Path) : Files β := fun q => if p <+: q then none else fs q

theorem put_same (fs : Files β) (p : Path) (n : Option (Node β)) : fs.put p n p = n := if_pos rfl

theorem put_other (fs : Files β) {p q : Path} (h : q ≠ p) (n : Option (Node β)) :
    fs.put p n q = fs q := if_neg h

theorem put_put (fs : Files β) (p : Path) (n n' : Option (Node β)) :
    (fs.put p n).put p n' = fs.put p n' := by
  funext q
  by_cases hq : q = p
  · rw [hq, put_same, put_same]
  · rw [put_other _ hq, put_other _ hq, put_other _ hq]

theorem put_self {fs : Files β} {p : Path} {n : Option (Node β)} (h : fs p = n) :
    fs.put p n = fs := by
  funext q
  by_cases hq : q = p
  · rw [hq, put_same, h]
  · rw [put_other _ hq]

def isDir : Option (Node β) → Bool
  | some .dir => true
  | _ => false

def isFile : Option (Node β) → Bool
  | some (.file _) => true
  | _ => false

/-- The content of a file. -/
def content : Option (Node β) → Option β
  | some (.file b) => some b
  | _ => none

/-- The path the components lead to from `p`; every directory on the way has
to exist. -/
def walk (fs : Files β) : Path → List String → Option Path
  | p, [] => some p
  | p, c :: cs => if isDir (fs p) then walk fs (descend p c) cs else none

/-- **A walk that succeeds ends where the path says.** -/
theorem walk_eq_lexical {fs : Files β} : ∀ {cs : List String} {p q : Path},
    walk fs p cs = some q → q = lexical p cs
  | [], p, q, h => (Option.some.inj h).symm
  | c :: cs, p, q, h => by
    unfold walk at h
    split at h
    · have hq := walk_eq_lexical h
      exact hq
    · cases h

theorem isDir_iff {n : Option (Node β)} : isDir n = true ↔ n = some .dir := by
  cases n with
  | none => simp [isDir]
  | some n => cases n <;> simp [isDir]

/-- The way down exists when every directory on it does. -/
theorem walk_of_dirs {fs : Files β} : ∀ {cs : List String} {p : Path}, Plain cs →
    (∀ as, as <+: cs → as ≠ cs → fs (p ++ as) = some .dir) → walk fs p cs = some (p ++ cs)
  | [], p, _, _ => by simp [walk]
  | c :: cs, p, hcs, h => by
    rw [Plain, List.forall_mem_cons] at hcs
    have hhere : fs p = some .dir := by simpa using h [] List.nil_prefix (List.cons_ne_nil c cs).symm
    rw [walk, isDir_iff.mpr hhere, if_pos rfl, descend_of_plain hcs.1, walk_of_dirs hcs.2]
    · simp
    · intro as has hne
      rw [List.append_assoc]
      exact h (c :: as) (List.cons_prefix_cons.mpr ⟨rfl, has⟩) (by simpa using hne)

theorem dirs_of_walk {fs : Files β} : ∀ {cs : List String} {p q : Path}, Plain cs →
    walk fs p cs = some q → ∀ as, as <+: cs → as ≠ cs → fs (p ++ as) = some .dir
  | [], p, q, _, _, as, has, hne => absurd (List.prefix_nil.mp has) hne
  | c :: cs, p, q, hcs, h, as, has, hne => by
    rw [Plain, List.forall_mem_cons] at hcs
    unfold walk at h
    split at h
    · next hdir =>
      cases as with
      | nil => simpa using isDir_iff.mp hdir
      | cons a as =>
        rw [List.cons_prefix_cons] at has
        obtain ⟨rfl, has⟩ := has
        rw [descend_of_plain hcs.1] at h
        have := dirs_of_walk hcs.2 h as has (by simpa using hne)
        rwa [List.append_assoc] at this
    · cases h

/-- `create_dir_all`: the directories on the way are created one by one; a
file in the way ends it. -/
def mkdirs (fs : Files β) : Path → List String → Files β × Bool
  | _, [] => (fs, true)
  | p, c :: cs => match fs (descend p c) with
    | some .dir => mkdirs fs (descend p c) cs
    | some (.file _) => (fs, false)
    | none => mkdirs (fs.put (descend p c) (some .dir)) (descend p c) cs

/-- `rename` of a file: what stood at the new name is replaced. -/
def rename (fs : Files β) (src dst : List String) : Files β × Bool :=
  match walk fs [] src, walk fs [] dst with
  | some p, some q => match fs p with
    | some (.file b) =>
      if isDir (fs q) then (fs, false) else ((fs.put p none).put q (some (.file b)), true)
    | _ => (fs, false)
  | _, _ => (fs, false)

end Files

/-! ## Operations -/

/-- The operations that change files, with the components of their paths. -/
inductive FileOp (β : Type) where
  | write (path : List String) (content : β)
  | removeFile (path : List String)
  | removeDirAll (path : List String)
  | createDirAll (path : List String)

namespace FileOp

open Files

def path : FileOp β → List String
  | .write p _ => p
  | .removeFile p => p
  | .removeDirAll p => p
  | .createDirAll p => p

/-- The files after an operation, and whether it succeeded. -/
def run (fs : Files β) : FileOp β → Files β × Bool
  | .write path b => match walk fs [] path with
    | some p => if isDir (fs p) then (fs, false) else (fs.put p (some (.file b)), true)
    | none => (fs, false)
  | .removeFile path => match walk fs [] path with
    | some p => if isFile (fs p) then (fs.put p none, true) else (fs, false)
    | none => (fs, false)
  | .removeDirAll path => match walk fs [] path with
    | some p => if isDir (fs p) then (fs.prune p, true) else (fs, false)
    | none => (fs, false)
  | .createDirAll path => mkdirs fs [] path

/-- What an operation may create, overwrite or delete: the file or tree it
names, and the directories on the way of `createDirAll`. -/
def Touches : FileOp β → Path → Prop
  | .write path _, q => q = lexical [] path
  | .removeFile path, q => q = lexical [] path
  | .removeDirAll path, q => lexical [] path <+: q
  | .createDirAll path, q => ∃ k, q = lexical [] (path.take k)

end FileOp

namespace Files

theorem mkdirs_frame : ∀ {cs : List String} {fs : Files β} {p q : Path},
    (∀ k, q ≠ lexical p (cs.take k)) → (mkdirs fs p cs).1 q = fs q
  | [], fs, p, q, _ => rfl
  | c :: cs, fs, p, q, h => by
    have hq : q ≠ descend p c := by simpa using h 1
    have hrest : ∀ k, q ≠ lexical (descend p c) (cs.take k) := fun k => by simpa using h (k + 1)
    unfold mkdirs
    split
    · exact mkdirs_frame hrest
    · rfl
    · exact (mkdirs_frame hrest).trans (put_other fs hq _)

end Files

open Files

/-- **An operation changes nothing outside what it touches.** -/
theorem run_frame {fs : Files β} {op : FileOp β} {q : Path} (h : ¬ op.Touches q) :
    (op.run fs).1 q = fs q := by
  cases op with
  | write path b =>
    simp only [FileOp.run]
    split
    · next p hp =>
      split
      · rfl
      · exact put_other fs (fun heq => h (heq.trans (walk_eq_lexical hp))) _
    · rfl
  | removeFile path =>
    simp only [FileOp.run]
    split
    · next p hp =>
      split
      · exact put_other fs (fun heq => h (heq.trans (walk_eq_lexical hp))) _
      · rfl
    · rfl
  | removeDirAll path =>
    simp only [FileOp.run]
    split
    · next p hp =>
      split
      · refine if_neg fun hpre => h ?_
        rw [walk_eq_lexical hp] at hpre
        exact hpre
      · rfl
    · rfl
  | createDirAll path =>
    refine mkdirs_frame fun k hk => h ⟨k, hk⟩

theorem Files.mkdirs_keeps_dir {q : Path} : ∀ {cs : List String} {fs : Files β} {p : Path},
    fs q = some .dir → (mkdirs fs p cs).1 q = some .dir
  | [], fs, p, h => h
  | c :: cs, fs, p, h => by
    unfold mkdirs
    split
    · exact mkdirs_keeps_dir h
    · exact h
    · next hnone =>
      refine mkdirs_keeps_dir ((put_other fs ?_ _).trans h)
      rintro rfl
      rw [h] at hnone
      cases hnone

/-- A directory stays, unless it or one above it is removed. -/
theorem run_keeps_dir {fs : Files β} {op : FileOp β} {q : Path} (h : fs q = some .dir)
    (hop : ∀ path, op = .removeDirAll path → ¬ lexical [] path <+: q) :
    (op.run fs).1 q = some .dir := by
  cases op with
  | write path b =>
    simp only [FileOp.run]
    split
    · next p hp =>
      split
      · exact h
      · next hdir =>
        refine (put_other fs ?_ _).trans h
        rintro rfl
        exact hdir (by rw [h]; rfl)
    · exact h
  | removeFile path =>
    simp only [FileOp.run]
    split
    · next p hp =>
      split
      · next hfile =>
        refine (put_other fs ?_ _).trans h
        rintro rfl
        rw [h] at hfile
        cases hfile
      · exact h
    · exact h
  | removeDirAll path =>
    simp only [FileOp.run]
    split
    · next p hp =>
      split
      · refine (if_neg fun hpre => hop path rfl ?_).trans h
        rw [walk_eq_lexical hp] at hpre
        exact hpre
      · exact h
    · exact h
  | createDirAll path => exact mkdirs_keeps_dir h

/-- Directories that exist are not created again. -/
theorem Files.mkdirs_existing {fs : Files β} : ∀ {cs : List String} {p : Path}, Plain cs →
    (∀ as, as <+: cs → as ≠ [] → fs (p ++ as) = some .dir) → mkdirs fs p cs = (fs, true)
  | [], _, _, _ => rfl
  | c :: cs, p, hcs, h => by
    rw [Plain, List.forall_mem_cons] at hcs
    have hhere := h [c] (List.cons_prefix_cons.mpr ⟨rfl, List.nil_prefix⟩) (List.cons_ne_nil c [])
    have hdown : ∀ as, as <+: cs → as ≠ [] → fs (p ++ [c] ++ as) = some .dir := fun as has _ => by
      rw [List.append_assoc]
      exact h (c :: as) (List.cons_prefix_cons.mpr ⟨rfl, has⟩) (List.cons_ne_nil c as)
    rw [mkdirs, descend_of_plain hcs.1, hhere]
    exact mkdirs_existing hcs.2 hdown

/-- The directories exist afterwards. -/
theorem Files.mkdirs_made : ∀ {cs : List String} {fs fs' : Files β} {p : Path}, Plain cs →
    mkdirs fs p cs = (fs', true) → ∀ as, as <+: cs → as ≠ [] → fs' (p ++ as) = some .dir
  | [], _, _, _, _, _, as, has, hne => absurd (List.prefix_nil.mp has) hne
  | c :: cs, fs, fs', p, hcs, h, [], has, hne => absurd rfl hne
  | c :: cs, fs, fs', p, hcs, h, a :: as, has, _ => by
    rw [Plain, List.forall_mem_cons] at hcs
    obtain ⟨rfl, hcut⟩ := List.cons_prefix_cons.mp has
    -- the rest is made in files in which the first directory exists
    obtain ⟨fs1, hdir, hrest⟩ : ∃ fs1 : Files β, fs1 (p ++ [a]) = some .dir ∧
        mkdirs fs1 (p ++ [a]) cs = (fs', true) := by
      rw [mkdirs, descend_of_plain hcs.1] at h
      split at h
      · next hdir => exact ⟨fs, hdir, h⟩
      · cases h
      · exact ⟨_, put_same fs (p ++ [a]) _, h⟩
    by_cases hnil : as = []
    · have hkept : (mkdirs fs1 (p ++ [a]) cs).1 (p ++ [a]) = some .dir := mkdirs_keeps_dir hdir
      rw [hrest] at hkept
      rwa [hnil]
    · have := mkdirs_made hcs.2 hrest as hcut hnil
      rwa [List.append_assoc] at this

/-- Directories can be made where no file is in the way. -/
theorem Files.mkdirs_free : ∀ {cs : List String} {fs : Files β} {p : Path}, Plain cs →
    (∀ as, as <+: cs → as ≠ [] → isFile (fs (p ++ as)) = false) → (mkdirs fs p cs).2 = true
  | [], _, _, _, _ => rfl
  | c :: cs, fs, p, hcs, h => by
    rw [Plain, List.forall_mem_cons] at hcs
    have hhere := h [c] (List.cons_prefix_cons.mpr ⟨rfl, List.nil_prefix⟩) (List.cons_ne_nil c [])
    have hdown : ∀ as, as <+: cs → as ≠ [] → isFile (fs (p ++ [c] ++ as)) = false :=
      fun as has _ => by
        rw [List.append_assoc]
        exact h (c :: as) (List.cons_prefix_cons.mpr ⟨rfl, has⟩) (List.cons_ne_nil c as)
    rw [mkdirs, descend_of_plain hcs.1]
    split
    · exact mkdirs_free hcs.2 hdown
    · next hfile =>
      rw [hfile] at hhere
      cases hhere
    · refine mkdirs_free hcs.2 fun as has hne => ?_
      rw [put_other fs (by simpa using hne)]
      exact hdown as has hne

theorem Files.put_notDir {fs : Files β} {p q : Path} {n : Option (Node β)}
    (h : isDir (fs q) = false) (hn : isDir n = false) : isDir (fs.put p n q) = false := by
  unfold put
  split
  · exact hn
  · exact h

/-- Only `createDirAll` makes a directory. -/
theorem run_keeps_notDir {fs : Files β} {op : FileOp β} {q : Path} (h : isDir (fs q) = false)
    (hop : ∀ path, op = .createDirAll path → ∀ k, q ≠ lexical [] (path.take k)) :
    isDir ((op.run fs).1 q) = false := by
  cases op with
  | write path b =>
    simp only [FileOp.run]
    split
    · split
      · exact h
      · exact put_notDir h rfl
    · exact h
  | removeFile path =>
    simp only [FileOp.run]
    split
    · split
      · exact put_notDir h rfl
      · exact h
    · exact h
  | removeDirAll path =>
    simp only [FileOp.run]
    split
    · next p _ =>
      split
      · show isDir (if p <+: q then none else fs q) = false
        split
        · rfl
        · exact h
      · exact h
    · exact h
  | createDirAll path => rwa [FileOp.run, mkdirs_frame (hop path rfl)]

/-- A write that succeeds leaves its content. -/
theorem write_content {fs : Files β} {path : List String} {b : β}
    (h : ((FileOp.write path b).run fs).2 = true) :
    ((FileOp.write path b).run fs).1 (lexical [] path) = some (.file b) := by
  simp only [FileOp.run] at h ⊢
  cases hp : walk fs [] path with
  | none => simp [hp] at h
  | some p =>
    simp only [hp] at h ⊢
    split at h
    · cases h
    · next hdir =>
      rw [if_neg hdir, ← walk_eq_lexical hp]
      exact put_same fs p _

theorem write_failed {fs : Files β} {path : List String} {b : β}
    (h : ((FileOp.write path b).run fs).2 = false) : ((FileOp.write path b).run fs).1 = fs := by
  simp only [FileOp.run] at h ⊢
  cases hp : walk fs [] path with
  | none => rfl
  | some p =>
    simp only [hp] at h ⊢
    split at h
    · next hdir => rw [if_pos hdir]
    · cases h

/-! ## Plans -/

/-- An operation and what its failure means: an error that ends the plan, or
nothing. -/
structure Task (β ε : Type) where
  op : FileOp β
  error : Option ε

/-- The error with which the plan ends after this operation. -/
def Task.stops {ε : Type} (t : Task β ε) (ok : Bool) : Option ε := if ok then none else t.error

/-- The files after a plan, and its result. -/
def runPlan {ε : Type} (fs : Files β) : List (Task β ε) → Files β × Except ε Unit
  | [] => (fs, .ok ())
  | t :: ts => match t.stops (t.op.run fs).2 with
    | some e => ((t.op.run fs).1, .error e)
    | none => runPlan (t.op.run fs).1 ts

/-- The files before and after each operation of a plan: what a crash can
leave. -/
def planStates {ε : Type} (fs : Files β) : List (Task β ε) → List (Files β)
  | [] => [fs]
  | t :: ts => match t.stops (t.op.run fs).2 with
    | some _ => [fs, (t.op.run fs).1]
    | none => fs :: planStates (t.op.run fs).1 ts

section

variable {ε : Type}

theorem runPlan_cons (fs : Files β) (t : Task β ε) (ts : List (Task β ε)) :
    runPlan fs (t :: ts) = match t.stops (t.op.run fs).2 with
      | some e => ((t.op.run fs).1, .error e)
      | none => runPlan (t.op.run fs).1 ts := rfl

theorem planStates_nil (fs : Files β) : planStates fs ([] : List (Task β ε)) = [fs] := rfl

theorem planStates_cons (fs : Files β) (t : Task β ε) (ts : List (Task β ε)) :
    planStates fs (t :: ts) = match t.stops (t.op.run fs).2 with
      | some _ => [fs, (t.op.run fs).1]
      | none => fs :: planStates (t.op.run fs).1 ts := rfl

theorem runPlan_bestEffort (fs : Files β) (op : FileOp β) (ts : List (Task β ε)) :
    runPlan fs (⟨op, none⟩ :: ts) = runPlan (op.run fs).1 ts := by
  rw [runPlan_cons, Task.stops, ite_self]

/-- An operation that succeeds is followed by the rest of the plan. -/
theorem runPlan_done {fs fs' : Files β} {t : Task β ε} (h : t.op.run fs = (fs', true))
    (ts : List (Task β ε)) : runPlan fs (t :: ts) = runPlan fs' ts := by
  rw [runPlan_cons, h]
  rfl

/-- A required operation of a plan that ends well has succeeded. -/
theorem runPlan_required {fs : Files β} {op : FileOp β} {e : ε} {ts : List (Task β ε)}
    (h : (runPlan fs (⟨op, some e⟩ :: ts)).2 = .ok ()) :
    (op.run fs).2 = true ∧ runPlan fs (⟨op, some e⟩ :: ts) = runPlan (op.run fs).1 ts := by
  cases hran : (op.run fs).2 with
  | true => simp [runPlan_cons, Task.stops, hran]
  | false => simp [runPlan_cons, Task.stops, hran] at h

/-- What every operation keeps holds at every point of a plan. -/
theorem planStates_inv {P : Files β → Prop} : ∀ {ts : List (Task β ε)} {fs : Files β},
    (∀ t ∈ ts, ∀ fs, P fs → P (t.op.run fs).1) → P fs → ∀ fs' ∈ planStates fs ts, P fs'
  | [], fs, _, h0, fs', h => by
    rw [planStates_nil, List.mem_singleton] at h
    rwa [h]
  | t :: ts, fs, ht, h0, fs', h => by
    rw [List.forall_mem_cons] at ht
    have hstep := ht.1 fs h0
    rw [planStates_cons] at h
    split at h
    · rw [List.mem_cons, List.mem_singleton] at h
      rcases h with rfl | rfl
      · exact h0
      · exact hstep
    · rcases List.mem_cons.mp h with rfl | h
      · exact h0
      · exact planStates_inv ht.2 hstep fs' h

/-- **No point of a plan has changed what none of its operations touches.** -/
theorem planStates_frame {q : Path} {ts : List (Task β ε)} {fs : Files β}
    (h : ∀ t ∈ ts, ¬ t.op.Touches q) : ∀ fs' ∈ planStates fs ts, fs' q = fs q :=
  planStates_inv (P := fun fs' => fs' q = fs q)
    (fun t ht _ hfs => (run_frame (h t ht)).trans hfs) rfl

/-- A plan starts in one of its states. -/
theorem planStates_head (ts : List (Task β ε)) (fs : Files β) : fs ∈ planStates fs ts := by
  cases ts with
  | nil => exact List.mem_singleton_self fs
  | cons t ts =>
    rw [planStates_cons]
    split <;> exact List.mem_cons_self

theorem planStates_bestEffort (fs : Files β) (op : FileOp β) (ts : List (Task β ε)) :
    planStates fs (⟨op, none⟩ :: ts) = fs :: planStates (op.run fs).1 ts := by
  rw [planStates_cons, Task.stops, ite_self]

/-- A plan ends in one of its states. -/
theorem runPlan_mem : ∀ (ts : List (Task β ε)) (fs : Files β),
    (runPlan fs ts).1 ∈ planStates fs ts
  | [], fs => List.mem_singleton_self fs
  | t :: ts, fs => by
    rw [runPlan_cons, planStates_cons]
    split
    · exact List.mem_cons_of_mem _ (List.mem_singleton_self _)
    · exact List.mem_cons_of_mem _ (runPlan_mem ts _)

/-- The states of the second part of a plan are states of the plan. -/
theorem planStates_append {ts us : List (Task β ε)} {fs fs' : Files β}
    (h : (runPlan fs ts).2 = .ok ()) (hmem : fs' ∈ planStates (runPlan fs ts).1 us) :
    fs' ∈ planStates fs (ts ++ us) := by
  induction ts generalizing fs with
  | nil => exact hmem
  | cons t ts ih =>
    rw [runPlan_cons] at h hmem
    rw [List.cons_append, planStates_cons]
    split at h
    · cases h
    · next hnone =>
      rw [hnone] at hmem
      exact List.mem_cons_of_mem _ (ih h hmem)

theorem mem_planStates_append (ts us : List (Task β ε)) {fs fs' : Files β}
    (h : fs' ∈ planStates fs (ts ++ us)) :
    fs' ∈ planStates fs ts ∨
      (runPlan fs ts).2 = .ok () ∧ fs' ∈ planStates (runPlan fs ts).1 us := by
  induction ts generalizing fs with
  | nil => exact Or.inr ⟨rfl, h⟩
  | cons t ts ih =>
    rw [List.cons_append, planStates_cons] at h
    rw [planStates_cons, runPlan_cons]
    split at h
    · next e he => exact Or.inl h
    · next he =>
      rcases List.mem_cons.mp h with rfl | h
      · exact Or.inl List.mem_cons_self
      · rcases ih h with hmem | hmem
        · exact Or.inl (List.mem_cons_of_mem _ hmem)
        · exact Or.inr hmem

/-- What a plan wrote along the way: a write that had to succeed in a plan
that did. -/
theorem runPlan_wrote : ∀ {ts : List (Task β ε)} {fs : Files β}, (runPlan fs ts).2 = .ok () →
    ∀ t ∈ ts, ∀ path b, t.op = .write path b → t.error ≠ none →
    ∃ fs' ∈ planStates fs ts, fs' (lexical [] path) = some (.file b)
  | [], _, _, t, ht, _, _, _, _ => absurd ht List.not_mem_nil
  | u :: ts, fs, hok, t, ht, path, b, hop, herr => by
    rw [runPlan_cons] at hok
    rw [planStates_cons]
    split at hok
    · cases hok
    · next hnone =>
      rcases List.mem_cons.mp ht with rfl | ht
      · refine ⟨_, List.mem_cons_of_mem _ (planStates_head ts _), ?_⟩
        have hran : (t.op.run fs).2 = true := by
          unfold Task.stops at hnone
          split at hnone
          · assumption
          · exact absurd hnone herr
        rw [hop] at hran ⊢
        exact write_content hran
      · obtain ⟨fs', hmem, hfs'⟩ := runPlan_wrote hok t ht path b hop herr
        exact ⟨fs', List.mem_cons_of_mem _ hmem, hfs'⟩

/-- A plan in two parts. -/
theorem runPlan_append {ts : List (Task β ε)} {fs : Files β} (h : (runPlan fs ts).2 = .ok ())
    (us : List (Task β ε)) : runPlan fs (ts ++ us) = runPlan (runPlan fs ts).1 us := by
  induction ts generalizing fs with
  | nil => rfl
  | cons t ts ih =>
    cases hs : t.stops (t.op.run fs).2 with
    | some e => simp [runPlan_cons, hs] at h
    | none =>
      simp only [runPlan_cons, hs] at h
      simp only [List.cons_append, runPlan_cons, hs]
      exact ih h

/-- The parts of a plan that ends well end well. -/
theorem runPlan_append_ok {ts us : List (Task β ε)} {fs : Files β}
    (h : (runPlan fs (ts ++ us)).2 = .ok ()) :
    (runPlan fs ts).2 = .ok () ∧ (runPlan (runPlan fs ts).1 us).2 = .ok () ∧
      (runPlan fs (ts ++ us)).1 = (runPlan (runPlan fs ts).1 us).1 := by
  have hfirst : (runPlan fs ts).2 = .ok () := by
    induction ts generalizing fs with
    | nil => rfl
    | cons t ts ih =>
      rw [List.cons_append, runPlan_cons] at h
      rw [runPlan_cons]
      split at h
      · cases h
      · exact ih h
  rw [runPlan_append hfirst] at h ⊢
  exact ⟨hfirst, h, rfl⟩

/-- What every operation keeps holds when the plan has ended. -/
theorem runPlan_inv {P : Files β → Prop} (ts : List (Task β ε)) {fs : Files β}
    (hstep : ∀ t ∈ ts, ∀ fs, P fs → P (t.op.run fs).1) (h0 : P fs) : P (runPlan fs ts).1 :=
  planStates_inv hstep h0 _ (runPlan_mem ts fs)

end

end

end RustPlc.Core
