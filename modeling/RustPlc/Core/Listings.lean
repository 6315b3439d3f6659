import Mathlib.Data.List.Nodup
import RustPlc.Core.Files

/-!
# Directory trees as they are enumerated

A tree of directories and files together with the order in which the entries
of each directory are enumerated. What is read from a path, `DirTree.files`, does
not depend on that order: two trees with the same files differ in it only.

Results
* `nodup_filePaths`: no file is enumerated twice.
* `mem_filePaths_entriesAt`: the files below a directory are those of the tree.
* `exists_entriesAt`: directories are the same whatever the order.
-/
namespace RustPlc.Core

/-- The entries of a directory, in the order of their enumeration. -/
inductive Listing where
  | nil
  | file (name : String) (rest : Listing)
  | dir (name : String) (entries rest : Listing)

namespace Listing

def names : Listing → List String
  | nil => []
  | file name rest => name :: rest.names
  | dir name _ rest => name :: rest.names

/-- The files below the directory. -/
def filePaths : Listing → List Path
  | nil => []
  | file name rest => [name] :: rest.filePaths
  | dir name entries rest => entries.filePaths.map (name :: ·) ++ rest.filePaths

/-- The entries of the directory of that name. -/
def child (name : String) : Listing → Option Listing
  | nil => none
  | file _ rest => rest.child name
  | dir name' entries rest => if name' = name then some entries else rest.child name

def entriesAt (l : Listing) : Path → Option Listing
  | [] => some l
  | c :: cs => (l.child c).bind fun entries => entries.entriesAt cs

/-- What an entry may be called. -/
def IsName (name : String) : Prop := name ≠ "" ∧ '/' ∉ name.toList ∧ name ≠ "." ∧ name ≠ ".."

instance (name : String) : Decidable (IsName name) := inferInstanceAs (Decidable (_ ∧ _))

/-- No two entries of a directory have the same name. -/
inductive WellFormed : Listing → Prop
  | nil : WellFormed nil
  | file {name : String} {rest : Listing} (hname : IsName name) (hnew : name ∉ rest.names)
      (hrest : WellFormed rest) : WellFormed (file name rest)
  | dir {name : String} {entries rest : Listing} (hname : IsName name) (hnew : name ∉ rest.names)
      (hentries : WellFormed entries) (hrest : WellFormed rest) : WellFormed (dir name entries rest)

variable {l : Listing} {p : Path}

/-! ## Names -/

theorem head_mem_names (h : p ∈ l.filePaths) : ∃ name ∈ l.names, ∃ rest, p = name :: rest := by
  induction l generalizing p with
  | nil => cases h
  | file name rest ih =>
    rcases List.mem_cons.mp h with rfl | h
    · exact ⟨name, .head _, [], rfl⟩
    · obtain ⟨name', hname, t, rfl⟩ := ih h
      exact ⟨name', .tail _ hname, t, rfl⟩
  | dir name entries rest _ ih =>
    rcases List.mem_append.mp h with h | h
    · obtain ⟨t, -, rfl⟩ := List.mem_map.mp h
      exact ⟨name, .head _, t, rfl⟩
    · obtain ⟨name', hname, t, rfl⟩ := ih h
      exact ⟨name', .tail _ hname, t, rfl⟩

theorem ne_nil_of_mem_filePaths (h : p ∈ l.filePaths) : p ≠ [] := by
  obtain ⟨name, -, t, rfl⟩ := head_mem_names h
  exact List.cons_ne_nil name t

/-- Only names lead to files. -/
theorem WellFormed.isName (hl : l.WellFormed) (h : p ∈ l.filePaths) : ∀ c ∈ p, IsName c := by
  induction hl generalizing p with
  | nil => cases h
  | file hname _ _ ih =>
    rcases List.mem_cons.mp h with rfl | h
    · simpa using hname
    · exact ih h
  | dir hname _ _ _ ihentries ih =>
    rcases List.mem_append.mp h with h | h
    · obtain ⟨t, ht, rfl⟩ := List.mem_map.mp h
      exact List.forall_mem_cons.mpr ⟨hname, ihentries ht⟩
    · exact ih h

theorem plain_of_isName {cs : List String} (h : ∀ c ∈ cs, IsName c) : Plain cs :=
  fun c hc => ⟨(h c hc).2.2.2, (h c hc).2.2.1⟩

/-- **No file is enumerated twice.** -/
theorem WellFormed.nodup_filePaths (hl : l.WellFormed) : l.filePaths.Nodup := by
  induction hl with
  | nil => exact List.nodup_nil
  | file _ hnew _ ih =>
    refine List.nodup_cons.mpr ⟨fun h => ?_, ih⟩
    obtain ⟨name, hname, t, ht⟩ := head_mem_names h
    cases ht
    exact hnew hname
  | dir _ hnew _ _ ihentries ih =>
    refine List.nodup_append.mpr ⟨ihentries.map (List.cons_injective), ih, ?_⟩
    intro q hq q' hq' heq
    subst heq
    obtain ⟨t, -, rfl⟩ := List.mem_map.mp hq
    obtain ⟨name, hname, u, hu⟩ := head_mem_names hq'
    cases hu
    exact hnew hname

/-! ## Directories -/

variable {entries : Listing} {c : String}

theorem child_mem_names (h : l.child c = some entries) : c ∈ l.names := by
  induction l with
  | nil => cases h
  | file name rest ih => exact .tail _ (ih h)
  | dir name entries' rest _ ih =>
    rw [child] at h
    split at h
    next heq => exact heq ▸ .head _
    next => exact .tail _ (ih h)

theorem WellFormed.child (hl : l.WellFormed) (h : l.child c = some entries) :
    entries.WellFormed := by
  induction hl with
  | nil => cases h
  | file _ _ _ ih => exact ih h
  | dir _ _ hentries _ _ ih =>
    rw [Listing.child] at h
    split at h
    next => exact Option.some.inj h ▸ hentries
    next => exact ih h

theorem WellFormed.cons_mem_filePaths (hl : l.WellFormed) (h : l.child c = some entries) :
    c :: p ∈ l.filePaths ↔ p ∈ entries.filePaths := by
  induction hl with
  | nil => cases h
  | @file name rest _ hnew _ ih =>
    have hne : c ≠ name := fun heq => hnew (heq ▸ child_mem_names h)
    simp only [filePaths, List.mem_cons, ih h, List.cons.injEq, hne, false_and, false_or]
  | @dir name entries' rest _ hnew _ _ _ ih =>
    rw [Listing.child] at h
    rw [filePaths, List.mem_append, List.mem_map]
    split at h
    next heq =>
      subst heq
      obtain rfl := Option.some.inj h
      constructor
      · rintro (⟨t, ht, heq⟩ | hrest)
        · cases heq
          exact ht
        · obtain ⟨name', hname, t, ht⟩ := head_mem_names hrest
          cases ht
          exact absurd hname hnew
      · intro hp
        exact .inl ⟨p, hp, rfl⟩
    next hne =>
      rw [← ih h]
      constructor
      · rintro (⟨t, ht, heq⟩ | hrest)
        · cases heq
          exact absurd rfl hne
        · exact hrest
      · exact .inr

theorem WellFormed.entriesAt : ∀ {d : Path} {l : Listing}, l.WellFormed →
    l.entriesAt d = some entries → entries.WellFormed
  | [], l, hl, h => Option.some.inj h ▸ hl
  | c :: d, l, hl, h => by
    obtain ⟨sub, hsub, h⟩ := Option.bind_eq_some_iff.mp h
    exact WellFormed.entriesAt (hl.child hsub) h

/-- **The files below a directory** are the tree's files below its path. -/
theorem WellFormed.mem_filePaths_entriesAt : ∀ {d : Path} {l : Listing}, l.WellFormed →
    l.entriesAt d = some entries → (d ++ p ∈ l.filePaths ↔ p ∈ entries.filePaths)
  | [], l, hl, h => by rw [Option.some.inj h, List.nil_append]
  | c :: d, l, hl, h => by
    obtain ⟨sub, hsub, h⟩ := Option.bind_eq_some_iff.mp h
    rw [List.cons_append, hl.cons_mem_filePaths hsub,
      WellFormed.mem_filePaths_entriesAt (hl.child hsub) h]

/-- A directory is no file. -/
theorem WellFormed.notMem_filePaths {d : Path} (hl : l.WellFormed)
    (h : l.entriesAt d = some entries) : d ∉ l.filePaths := by
  intro hd
  have hmem := hl.mem_filePaths_entriesAt (p := []) h
  rw [List.append_nil] at hmem
  exact ne_nil_of_mem_filePaths (hmem.mp hd) rfl

end Listing

/-! ## Trees -/

structure DirTree where
  listing : Listing
  wellFormed : listing.WellFormed

namespace DirTree

open Listing

/-- What is at a path. -/
def files (t : DirTree) : Files Unit := fun p =>
  if p ∈ t.listing.filePaths then some (.file ()) else (t.listing.entriesAt p).map fun _ => .dir

variable {t t' : DirTree} {p d : Path} {entries : Listing}

theorem files_eq_file : t.files p = some (.file ()) ↔ p ∈ t.listing.filePaths := by
  unfold files
  split
  next h => simp [h]
  next h => simp [h]

theorem files_eq_dir : t.files d = some .dir ↔ ∃ entries, t.listing.entriesAt d = some entries := by
  unfold files
  split
  next h =>
    refine iff_of_false nofun ?_
    rintro ⟨entries, hentries⟩
    exact t.wellFormed.notMem_filePaths hentries h
  next h =>
    rw [Option.map_eq_some_iff]
    exact ⟨fun ⟨entries, h, _⟩ => ⟨entries, h⟩, fun ⟨entries, h⟩ => ⟨entries, h, rfl⟩⟩

theorem mem_filePaths_congr (h : t'.files = t.files) :
    p ∈ t'.listing.filePaths ↔ p ∈ t.listing.filePaths := by
  rw [← files_eq_file, h, files_eq_file]

/-- A directory has the same files whatever the order of enumeration. -/
theorem exists_entriesAt (h : t'.files = t.files) (hd : t.listing.entriesAt d = some entries) :
    ∃ entries', t'.listing.entriesAt d = some entries' ∧
      entries'.filePaths.Perm entries.filePaths := by
  obtain ⟨entries', hentries'⟩ := files_eq_dir.mp (h ▸ files_eq_dir.mpr ⟨entries, hd⟩)
  refine ⟨entries', hentries', ?_⟩
  rw [List.perm_ext_iff_of_nodup (t'.wellFormed.entriesAt hentries').nodup_filePaths
    (t.wellFormed.entriesAt hd).nodup_filePaths]
  intro p
  rw [← t'.wellFormed.mem_filePaths_entriesAt hentries', mem_filePaths_congr h,
    t.wellFormed.mem_filePaths_entriesAt hd]

end DirTree

end RustPlc.Core
