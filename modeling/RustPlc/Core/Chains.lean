import Mathlib.Data.List.Perm.Subperm
import Mathlib.Logic.Relation

/-!
# Chains of a partial function

A loop that follows a link from element to element, when finitely many elements have one. Such
a loop that keeps no record of where it was either ends within as many steps as there are links
or never.

Results:
* `climb_or_endless`: after more steps than links it has ended or never will;
* `climb_ends`: it ends when no element leads back to itself;
* `endless_of_cycle`: from an element that leads back to itself it does not.
-/
namespace RustPlc.Core

open Relation

variable {α : Type*}

/-- Where `k` steps lead; `none` once there is no link. -/
def climb (next : α → Option α) : Nat → α → Option α
  | 0, a => some a
  | k + 1, a => (next a).bind (climb next k)

/-- No number of steps is enough. -/
def Endless (next : α → Option α) (a : α) : Prop := ∀ k, climb next k a ≠ none

/-- `a` links to `b`. -/
abbrev Link (next : α → Option α) (a b : α) : Prop := next a = some b

variable {next : α → Option α} {a b : α}

theorem endless_step (h : Link next a b) (hb : Endless next b) : Endless next a := by
  intro k
  cases k with
  | zero => exact Option.some_ne_none a
  | succ k =>
    rw [climb, h]
    exact hb k

theorem endless_reach (h : ReflTransGen (Link next) a b) (hb : Endless next b) :
    Endless next a := by
  induction h using ReflTransGen.head_induction_on with
  | refl => exact hb
  | head hstep _ ih => exact endless_step hstep ih

/-- **A loop that comes back never ends.** -/
theorem endless_of_cycle (h : TransGen (Link next) a a) : Endless next a := by
  have hall : ∀ k x, TransGen (Link next) x x → climb next k x ≠ none := by
    intro k
    induction k with
    | zero => exact fun x _ => Option.some_ne_none x
    | succ k ih =>
      intro x hx
      obtain ⟨y, hxy, hyx⟩ := TransGen.head'_iff.mp hx
      rw [climb, hxy]
      exact ih y (TransGen.tail' hyx hxy)
  exact fun k => hall k a h

/-- The elements that `k` steps pass, each before the next. -/
theorem climb_path : ∀ {k : Nat} {a b : α}, climb next k a = some b →
    ∃ path : List α, path.length = k ∧ path.Pairwise (TransGen (Link next)) ∧
      ∀ x ∈ path, ReflTransGen (Link next) a x ∧ ∃ y, Link next x y
  | 0, a, b, _ => ⟨[], rfl, List.Pairwise.nil, fun _ hx => absurd hx List.not_mem_nil⟩
  | k + 1, a, b, h => by
    rw [climb] at h
    obtain ⟨c, hac, hcb⟩ := Option.bind_eq_some_iff.mp h
    obtain ⟨path, hlen, hpair, hpath⟩ := climb_path hcb
    refine ⟨a :: path, by rw [List.length_cons, hlen], ?_, ?_⟩
    · exact List.pairwise_cons.mpr ⟨fun x hx => TransGen.head' hac (hpath x hx).1, hpair⟩
    · intro x hx
      cases List.mem_cons.mp hx with
      | inl heq =>
        subst heq
        exact ⟨.refl, c, hac⟩
      | inr hx =>
        obtain ⟨hcx, hy⟩ := hpath x hx
        exact ⟨.head hac hcx, hy⟩

/-- A loop that comes to no cycle passes each element once. -/
theorem climb_short {dom : List α} (hdom : ∀ x y, Link next x y → x ∈ dom) {k : Nat}
    (hk : dom.length < k) (hno : ∀ x, ReflTransGen (Link next) a x → ¬ TransGen (Link next) x x) :
    climb next k a = none := by
  cases hc : climb next k a with
  | none => rfl
  | some b =>
    obtain ⟨path, hlen, hpair, hpath⟩ := climb_path hc
    have hnodup : path.Nodup := by
      refine hpair.imp_of_mem fun {x y} hx _ hxy heq => ?_
      subst heq
      exact hno x (hpath x hx).1 hxy
    have hsub : path ⊆ dom := fun x hx => by
      obtain ⟨y, hy⟩ := (hpath x hx).2
      exact hdom x y hy
    have hle := (hnodup.subperm hsub).length_le
    omega

/-- **After more steps than there are links a loop has ended or never will.** -/
theorem climb_or_endless {dom : List α} (hdom : ∀ x y, Link next x y → x ∈ dom) {k : Nat}
    (hk : dom.length < k) (a : α) : climb next k a = none ∨ Endless next a := by
  by_cases hcycle : ∃ x, ReflTransGen (Link next) a x ∧ TransGen (Link next) x x
  · obtain ⟨x, hax, hxx⟩ := hcycle
    exact .inr (endless_reach hax (endless_of_cycle hxx))
  · exact .inl (climb_short hdom hk fun x hax hxx => hcycle ⟨x, hax, hxx⟩)

/-- **Without a cycle the loop ends.** -/
theorem climb_ends {dom : List α} (hdom : ∀ x y, Link next x y → x ∈ dom)
    (hacyc : ∀ x, ¬ TransGen (Link next) x x) {k : Nat} (hk : dom.length < k) (a : α) :
    climb next k a = none := climb_short hdom hk fun x _ => hacyc x

end RustPlc.Core
