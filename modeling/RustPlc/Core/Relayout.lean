import Mathlib.Data.Set.Piecewise
import Mathlib.Data.List.Nodup
import Mathlib.Data.List.Perm.Basic

/-!
# Vectors laid out by keys

A list of distinct keys lays out a vector: the value of the key at position
`p` is the value at position `p`. The vector stands for an assignment of a
value to every key, in which the keys outside the layout have their initial
value. To move a vector to another layout is to `read` it under the first
layout and to `write` the assignment under the second (`relay`).

What a move does to an assignment is to keep the values of the new layout's
keys and to reset the others (`keep`), and the laws of moves are those of
restrictions: nothing is lost by a layout that has all keys that matter.

A reader may address a position by a number that is too narrow for it. A
`Numbering` says which position is read in place of `p`.

Results
* `keep_through`: a restriction through a larger set is the restriction.
* `read_write`: a written assignment is read back restricted to the layout.
* `relay_back`, `relay_through`: the moves there and back, and through a
  layout between, when every position has its own number.
* `relay_eq_iff`, `relay_back_iff`, `relay_through_iff`: for any numbering,
  exactly when a move, a move there and back and a move through a layout
  between do what they should.
-/
namespace RustPlc.Core.Relayout

variable {κ ν : Type}

/-! ## Assignments -/

section

variable {init f : κ → ν} {A B C : Set κ}

open scoped Classical in
/-- The keys in `S` keep their values, the others get their initial one. -/
noncomputable def keep (init : κ → ν) (S : Set κ) (f : κ → ν) : κ → ν := S.piecewise f init

/-- Every key outside `S` has its initial value. -/
def Within (init : κ → ν) (S : Set κ) (f : κ → ν) : Prop := ∀ k, k ∉ S → f k = init k

@[simp] theorem keep_of_mem {k : κ} (h : k ∈ A) : keep init A f k = f k := by
  classical exact Set.piecewise_eq_of_mem A f init h

@[simp] theorem keep_of_notMem {k : κ} (h : k ∉ A) : keep init A f k = init k := by
  classical exact Set.piecewise_eq_of_notMem A f init h

/-- A restriction through a set that has all of `A ∩ C` is the one to `C`. -/
theorem keep_through (hf : Within init A f) (h : A ∩ C ⊆ B) :
    keep init C (keep init B f) = keep init C f := by
  funext k
  by_cases hC : k ∈ C
  · rw [keep_of_mem hC, keep_of_mem hC]
    by_cases hB : k ∈ B
    · exact keep_of_mem hB
    · have hA : k ∉ A := fun hA => hB (h ⟨hA, hC⟩)
      rw [keep_of_notMem hB, hf k hA]
  · rw [keep_of_notMem hC, keep_of_notMem hC]

end

/-! ## Numberings -/

/-- The position that is read in place of each position: it is not beyond it,
and is read itself. -/
structure Numbering where
  num : Nat → Nat
  num_le : ∀ p, num p ≤ p
  num_num : ∀ p, num (num p) = num p

/-- Every position is read itself. -/
def Numbering.exact : Numbering := ⟨id, Nat.le_refl, fun _ => rfl⟩

/-- Positions are numbered modulo `n`. -/
def Numbering.modulo (n : Nat) : Numbering :=
  ⟨(· % n), fun p => Nat.mod_le p n, fun p => Nat.mod_mod p n⟩

@[simp] theorem Numbering.exact_num (p : Nat) : Numbering.exact.num p = p := rfl

@[simp] theorem Numbering.modulo_num (n p : Nat) : (Numbering.modulo n).num p = p % n := rfl

/-! ## Sources -/

section

variable {vs : List ν} {c d : ν} {s t : Option Nat} {n p : Nat}

/-- The value at the position `s`, or `d` where there is none. -/
def fetch (vs : List ν) (d : ν) (s : Option Nat) : ν := (s.bind (vs[·]?)).getD d

@[simp] theorem fetch_none : fetch vs d none = d := rfl

theorem fetch_some (h : p < vs.length) : fetch vs d (some p) = vs[p] := by
  simp [fetch, List.getElem?_eq_getElem h]

/-- Two sources give the same value whatever the vector holds only when they
are the same. -/
theorem fetch_eq_iff [Nontrivial ν] (hs : ∀ p ∈ s, p < n) (ht : ∀ p ∈ t, p < n) :
    (∀ vs : List ν, vs.length = n → fetch vs c s = fetch vs d t) ↔
      s = t ∧ (t = none → c = d) := by
  refine ⟨fun h => ?_, ?_⟩
  · match s, t with
    | none, none => exact ⟨rfl, fun _ => h (List.replicate n c) List.length_replicate⟩
    | none, some q =>
      obtain ⟨a, ha⟩ := exists_ne c
      have := h (List.replicate n a) List.length_replicate
      rw [fetch_none, fetch_some (by simpa using ht q rfl), List.getElem_replicate] at this
      exact absurd this.symm ha
    | some p, none =>
      obtain ⟨a, ha⟩ := exists_ne d
      have := h (List.replicate n a) List.length_replicate
      rw [fetch_none, fetch_some (by simpa using hs p rfl), List.getElem_replicate] at this
      exact absurd this ha
    | some p, some q =>
      obtain ⟨a, b, hab⟩ := exists_pair_ne ν
      have hp := hs p rfl
      have hq := ht q rfl
      -- a vector that has another value at `q` than anywhere else
      have := h ((List.replicate n a).set q b) (by simp)
      rw [fetch_some (by simpa using hp), fetch_some (by simpa using hq)] at this
      rw [List.getElem_set_self, List.getElem_set] at this
      split at this
      · next h => exact ⟨by rw [h], by simp⟩
      · exact absurd (by simpa using this) hab
  · intro ⟨hst, h⟩ vs hlen
    subst hst
    cases s with
    | none => exact h rfl
    | some p =>
      have hp : p < vs.length := hlen ▸ hs p rfl
      rw [fetch_some hp, fetch_some hp]

end

/-! ## Layouts -/

section

variable [DecidableEq κ] (a : Numbering) (init : κ → ν)

/-- The keys of a layout. -/
def keys (ks : List κ) : Set κ := {k | k ∈ ks}

/-- The position from which the value of a key is read. -/
def source (ks : List κ) (k : κ) : Option Nat := (ks.idxOf? k).map a.num

/-- The assignment a vector stands for. -/
def read (ks : List κ) (vs : List ν) (k : κ) : ν := fetch vs (init k) (source a ks k)

/-- An assignment as a vector. -/
def write (ks : List κ) (f : κ → ν) : List ν := ks.map f

/-- A vector moved from one layout to another. -/
def relay (old : List κ) (vs : List ν) (new : List κ) : List ν := write new (read a init old vs)

variable {a init} {ks old mid new : List κ} {vs : List ν} {k : κ} {p : Nat}

omit [DecidableEq κ] in
@[simp] theorem write_length (f : κ → ν) : (write ks f).length = ks.length := List.length_map _

@[simp] theorem relay_length : (relay a init old vs new).length = new.length := write_length _

theorem source_of_get (hn : ks.Nodup) (hk : ks[p]? = some k) :
    source a ks k = some (a.num p) := by
  obtain ⟨hp, rfl⟩ := List.getElem?_eq_some_iff.mp hk
  have hfirst : ks.idxOf? ks[p] = some p :=
    List.idxOf?_eq_some_iff.mpr ⟨hp, rfl, fun j hj h =>
      Nat.ne_of_lt hj ((hn.getElem_inj_iff).mp h)⟩
  rw [source, hfirst, Option.map_some]

theorem source_of_notMem (hk : k ∉ ks) : source a ks k = none := by
  rw [source, List.idxOf?_eq_none_iff.mpr hk, Option.map_none]

/-- Two keys have one source only when they are one key. -/
theorem source_inj {k' : κ} (hk : k ∈ ks) (h : source .exact ks k = source .exact ks k') :
    k = k' := by
  obtain ⟨p, hp⟩ := Option.isSome_iff_exists.mp (List.isSome_idxOf?.mpr hk)
  rw [source, source, hp, Option.map_some, eq_comm, Option.map_eq_some_iff] at h
  obtain ⟨q, hq, rfl⟩ := h
  obtain ⟨_, hgetp, -⟩ := List.idxOf?_eq_some_iff.mp hp
  obtain ⟨_, hgetq, -⟩ := List.idxOf?_eq_some_iff.mp hq
  exact hgetp.symm.trans hgetq

theorem source_lt : ∀ q ∈ source a ks k, q < ks.length := by
  intro q hq
  obtain ⟨p, hp, rfl⟩ := Option.map_eq_some_iff.mp hq
  exact Nat.lt_of_le_of_lt (a.num_le p) (List.idxOf?_eq_some_iff.mp hp).1

theorem read_of_notMem (hk : k ∉ ks) : read a init ks vs k = init k := by
  rw [read, source_of_notMem hk, fetch_none]

theorem read_within : Within init (keys ks) (read a init ks vs) := fun _ hk => read_of_notMem hk

/-- The value of the key at position `p`. -/
theorem read_of_get (hn : ks.Nodup) (hvs : vs.length = ks.length) (hk : ks[p]? = some k) :
    some (read a init ks vs k) = vs[a.num p]? := by
  have hp := (List.getElem?_eq_some_iff.mp hk).1
  have hlt : a.num p < vs.length := hvs ▸ Nat.lt_of_le_of_lt (a.num_le p) hp
  rw [read, source_of_get hn hk, fetch_some hlt, List.getElem?_eq_getElem hlt]

/-! ### Every position has its own number -/

theorem write_read (hn : ks.Nodup) (hvs : vs.length = ks.length) :
    write ks (read .exact init ks vs) = vs := by
  refine List.ext_getElem? fun p => ?_
  rw [write, List.getElem?_map]
  cases hk : ks[p]? with
  | none => rw [Option.map_none, List.getElem?_eq_none (hvs ▸ List.getElem?_eq_none_iff.mp hk)]
  | some k => rw [Option.map_some, read_of_get hn hvs hk, Numbering.exact_num]

theorem read_write (hn : ks.Nodup) (f : κ → ν) :
    read .exact init ks (write ks f) = keep init (keys ks) f := by
  funext k
  by_cases hk : k ∈ keys ks
  · obtain ⟨p, hp⟩ := List.mem_iff_getElem?.mp hk
    have h : some (read .exact init ks (write ks f) k) = (write ks f)[p]? :=
      read_of_get hn (write_length f) hp
    rw [write, List.getElem?_map, hp, Option.map_some] at h
    rw [keep_of_mem hk]
    exact Option.some.inj h
  · rw [keep_of_notMem hk, read_of_notMem hk]

omit [DecidableEq κ] in
theorem write_keep (f : κ → ν) : write ks (keep init (keys ks) f) = write ks f :=
  List.map_congr_left fun _ hk => keep_of_mem hk

/-- A move through a layout that has all keys both others have is the direct
one. -/
theorem relay_through (hm : mid.Nodup) (h : ∀ k ∈ old, k ∈ new → k ∈ mid) :
    relay .exact init mid (relay .exact init old vs mid) new = relay .exact init old vs new := by
  have hmid : keys old ∩ keys new ⊆ keys mid := fun k hk => h k hk.1 hk.2
  calc relay .exact init mid (relay .exact init old vs mid) new
      = write new (keep init (keys mid) (read .exact init old vs)) := by
        rw [relay, relay, read_write hm]
    _ = write new (keep init (keys new) (keep init (keys mid) (read .exact init old vs))) :=
        (write_keep _).symm
    _ = write new (keep init (keys new) (read .exact init old vs)) := by
        rw [keep_through read_within hmid]
    _ = relay .exact init old vs new := write_keep _

/-- A move to a layout with all keys, and back. -/
theorem relay_back (ho : old.Nodup) (hn : new.Nodup) (hvs : vs.length = old.length)
    (hsub : ∀ k ∈ old, k ∈ new) :
    relay .exact init new (relay .exact init old vs new) old = vs :=
  (relay_through hn fun k hk _ => hsub k hk).trans (write_read ho hvs)

/-! ### Any numbering -/

/-- A move is right for the values it moves exactly when every position that
is kept holds what is read in its place. -/
theorem relay_eq_iff (ho : old.Nodup) (hvs : vs.length = old.length) :
    relay a init old vs new = relay .exact init old vs new ↔
      ∀ p k, old[p]? = some k → k ∈ new → vs[a.num p]? = vs[p]? := by
  rw [relay, relay, write, write, List.map_inj_left]
  constructor
  · intro h p k hp hk
    calc vs[a.num p]? = some (read a init old vs k) := (read_of_get ho hvs hp).symm
      _ = some (read .exact init old vs k) := congrArg some (h k hk)
      _ = vs[p]? := read_of_get ho hvs hp
  · intro h k hk
    by_cases hold : k ∈ old
    · obtain ⟨p, hp⟩ := List.mem_iff_getElem?.mp hold
      apply Option.some.inj
      rw [read_of_get ho hvs hp, read_of_get ho hvs hp, Numbering.exact_num, h p k hp hk]
    · rw [read_of_notMem hold, read_of_notMem hold]

section

variable [Nontrivial ν]

/-- Two keys are read alike from every vector exactly when they have the same
source, and the same initial value where they have none. -/
theorem read_eq_iff {b : Numbering} {k' : κ} :
    (∀ vs : List ν, vs.length = old.length → read a init old vs k = read b init old vs k') ↔
      source a old k = source b old k' ∧ (source b old k' = none → init k = init k') :=
  fetch_eq_iff source_lt source_lt

/-- A move is right for all values exactly when every kept position is read
itself. -/
theorem relay_exact_iff (ho : old.Nodup) :
    (∀ vs : List ν, vs.length = old.length →
      relay a init old vs new = relay .exact init old vs new) ↔
      ∀ p k, old[p]? = some k → k ∈ new → a.num p = p := by
  constructor
  · intro h p k hp hk
    have hread : ∀ vs : List ν, vs.length = old.length →
        read a init old vs k = read .exact init old vs k := fun vs hvs =>
      List.map_inj_left.mp (h vs hvs) k hk
    have hsource := (read_eq_iff.mp hread).1
    rw [source_of_get ho hp, source_of_get ho hp] at hsource
    exact Option.some.inj hsource
  · intro h vs hvs
    rw [relay_eq_iff ho hvs]
    intro p k hp hk
    rw [h p k hp hk]

/-- A move to another order of the keys and back gives the vector again
exactly when every position is read itself. -/
theorem relay_back_iff (ho : old.Nodup) (hperm : old.Perm new) :
    (∀ vs : List ν, vs.length = old.length →
      relay a init new (relay a init old vs new) old = vs) ↔
      ∀ p < old.length, a.num p = p := by
  have hn : new.Nodup := hperm.nodup ho
  constructor
  · intro h p hp
    -- the keys that the new layout has at `p` and where `p` is read
    have hlt : p < new.length := hperm.length_eq ▸ hp
    obtain ⟨k, hk⟩ : ∃ k, new[p]? = some k := ⟨_, List.getElem?_eq_getElem hlt⟩
    obtain ⟨k', hk'⟩ : ∃ k', new[a.num p]? = some k' :=
      ⟨_, List.getElem?_eq_getElem (Nat.lt_of_le_of_lt (a.num_le p) hlt)⟩
    have hread : ∀ vs : List ν, vs.length = old.length →
        read .exact init old vs k = read .exact init old vs k' := by
      intro vs hvs
      -- what is read of the vector is what is read of the moved one
      have hback : ∀ k ∈ new, read .exact init old vs k =
          read a init new (relay a init old vs new) k := by
        intro k hk
        have hold : k ∈ keys old := hperm.mem_iff.mpr hk
        conv_lhs => rw [← h vs hvs, relay, read_write ho, keep_of_mem hold]
      apply Option.some.inj
      rw [hback k (List.mem_of_getElem? hk), hback k' (List.mem_of_getElem? hk'),
        read_of_get hn relay_length hk, read_of_get hn relay_length hk', a.num_num]
    have hkk' : k = k' :=
      source_inj (hperm.mem_iff.mpr (List.mem_of_getElem? hk)) (read_eq_iff.mp hread).1
    have hpos : new[p]? = new[a.num p]? := by rw [hk, hk', hkk']
    exact ((List.getElem?_inj hlt hn).mp hpos).symm
  · intro h vs hvs
    have hmove : relay a init old vs new = relay .exact init old vs new :=
      (relay_exact_iff ho).mpr (fun p k hp _ => h p (List.getElem?_eq_some_iff.mp hp).1) vs hvs
    have hmove' : relay a init new (relay .exact init old vs new) old =
        relay .exact init new (relay .exact init old vs new) old :=
      (relay_exact_iff hn).mpr (fun p k hp _ => h p (hperm.length_eq ▸
        (List.getElem?_eq_some_iff.mp hp).1)) _ relay_length
    rw [hmove, hmove', relay_back ho hn hvs fun k hk => hperm.mem_iff.mp hk]

/-- A move through a layout that has all keys both others have is the direct
one exactly when every key that is kept has, at the position where it is read,
a key with the same source. -/
theorem relay_through_iff (hm : mid.Nodup) (hmid : ∀ k ∈ old, k ∈ new → k ∈ mid) :
    (∀ vs : List ν, vs.length = old.length →
      relay a init mid (relay a init old vs mid) new = relay a init old vs new) ↔
      ∀ q k k', mid[q]? = some k → k ∈ new → mid[a.num q]? = some k' →
        source a old k' = source a old k ∧ (source a old k = none → init k' = init k) := by
  -- the value that arrives for a key of the layout between
  have harrives : ∀ (vs : List ν) {q k k'}, mid[q]? = some k → mid[a.num q]? = some k' →
      read a init mid (relay a init old vs mid) k = read a init old vs k' := by
    intro vs q k k' hk hk'
    apply Option.some.inj
    rw [read_of_get hm relay_length hk, relay, write, List.getElem?_map, hk', Option.map_some]
  constructor
  · intro h q k k' hk hnew hk'
    refine read_eq_iff.mp fun vs hvs => ?_
    rw [← harrives vs hk hk']
    exact List.map_inj_left.mp (h vs hvs) k hnew
  · intro h vs hvs
    refine List.map_congr_left fun k hnew => ?_
    by_cases hk : k ∈ mid
    · obtain ⟨q, hq⟩ := List.mem_iff_getElem?.mp hk
      have hlt := Nat.lt_of_le_of_lt (a.num_le q) (List.getElem?_eq_some_iff.mp hq).1
      have hq' := List.getElem?_eq_getElem hlt
      rw [harrives vs hq hq']
      exact read_eq_iff.mpr (h q k _ hq hnew hq') vs hvs
    · rw [read_of_notMem hk, read_of_notMem fun hold => hk (hmid k hold hnew)]

end

end

end RustPlc.Core.Relayout
