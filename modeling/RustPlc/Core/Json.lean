import Mathlib.Data.Countable.Basic
import Mathlib.Logic.Equiv.List

/-!
# JSON documents

A document as the tree behind its text; the members of an object stand in the order of the
text, and a name may stand there twice. The numbers are those of a type `ν`.

Results:
* `tokens_inj`: the tokens of a document, written one after the other, determine it;
* `exists_text`: there are texts that determine their documents, with any text given for one
  of them.
-/
namespace RustPlc.Core

inductive Json (ν : Type) where
  | null
  | bool (b : Bool)
  | number (n : ν)
  | string (s : String)
  | array (items : List (Json ν))
  | object (members : List (String × Json ν))

namespace Json

variable {ν : Type}

inductive Token (ν : Type) where
  | null
  | bool (b : Bool)
  | number (n : ν)
  | string (s : String)
  | array
  | object
  | name (n : String)
  | close

mutual

def tokens : Json ν → List (Token ν)
  | .null => [.null]
  | .bool b => [.bool b]
  | .number n => [.number n]
  | .string s => [.string s]
  | .array items => .array :: itemTokens items
  | .object members => .object :: memberTokens members

def itemTokens : List (Json ν) → List (Token ν)
  | [] => [.close]
  | j :: js => tokens j ++ itemTokens js

def memberTokens : List (String × Json ν) → List (Token ν)
  | [] => [.close]
  | (n, j) :: ms => .name n :: (tokens j ++ memberTokens ms)

end

/-- No document starts with the end of one. -/
theorem tokens_ne_close (j : Json ν) (r s : List (Token ν)) : tokens j ++ r ≠ .close :: s := by
  cases j <;> simp [tokens]

mutual

/-- **The tokens of a document determine it**, whatever follows them. -/
theorem tokens_inj : ∀ (a b : Json ν) (r s : List (Token ν)),
    tokens a ++ r = tokens b ++ s → a = b ∧ r = s
  | .null, b, r, s, h => by cases b <;> simp_all [tokens]
  | .bool _, b, r, s, h => by cases b <;> simp_all [tokens]
  | .number _, b, r, s, h => by cases b <;> simp_all [tokens]
  | .string _, b, r, s, h => by cases b <;> simp_all [tokens]
  | .array as, b, r, s, h => by
    cases b with
    | array bs =>
      obtain ⟨rfl, rfl⟩ := itemTokens_inj as bs r s (by simpa [tokens] using h)
      exact ⟨rfl, rfl⟩
    | _ => simp [tokens] at h
  | .object as, b, r, s, h => by
    cases b with
    | object bs =>
      obtain ⟨rfl, rfl⟩ := memberTokens_inj as bs r s (by simpa [tokens] using h)
      exact ⟨rfl, rfl⟩
    | _ => simp [tokens] at h

theorem itemTokens_inj : ∀ (as bs : List (Json ν)) (r s : List (Token ν)),
    itemTokens as ++ r = itemTokens bs ++ s → as = bs ∧ r = s
  | [], [], r, s, h => by simpa [itemTokens] using h
  | [], b :: bs, r, s, h => by
    rw [itemTokens, itemTokens, List.append_assoc] at h
    exact absurd h.symm (tokens_ne_close b _ _)
  | a :: as, [], r, s, h => by
    rw [itemTokens, itemTokens, List.append_assoc] at h
    exact absurd h (tokens_ne_close a _ _)
  | a :: as, b :: bs, r, s, h => by
    rw [itemTokens, itemTokens, List.append_assoc, List.append_assoc] at h
    obtain ⟨rfl, hrest⟩ := tokens_inj a b _ _ h
    obtain ⟨rfl, rfl⟩ := itemTokens_inj as bs r s hrest
    exact ⟨rfl, rfl⟩

theorem memberTokens_inj : ∀ (as bs : List (String × Json ν)) (r s : List (Token ν)),
    memberTokens as ++ r = memberTokens bs ++ s → as = bs ∧ r = s
  | [], [], r, s, h => by simpa [memberTokens] using h
  | [], (n, b) :: bs, r, s, h => by simp [memberTokens] at h
  | (n, a) :: as, [], r, s, h => by simp [memberTokens] at h
  | (n, a) :: as, (m, b) :: bs, r, s, h => by
    rw [memberTokens, memberTokens, List.cons_append, List.cons_append, List.cons.injEq,
      Token.name.injEq, List.append_assoc, List.append_assoc] at h
    obtain ⟨rfl, h⟩ := h
    obtain ⟨rfl, hrest⟩ := tokens_inj a b _ _ h
    obtain ⟨rfl, rfl⟩ := memberTokens_inj as bs r s hrest
    exact ⟨rfl, rfl⟩

end

/-! ## Texts -/

theorem countable_string : Countable String := by
  have : Countable Char :=
    Function.Injective.countable (f := Char.toNat) fun _ _ h => Char.toNat_inj.mp h
  exact Function.Injective.countable (f := String.toList) fun _ _ h => String.toList_inj.mp h

/-- The kind of a token and what it carries. -/
def Token.parts : Token ν → ℕ × Option Bool × Option ν × Option String
  | .null => (0, none, none, none)
  | .bool b => (1, some b, none, none)
  | .number n => (2, none, some n, none)
  | .string s => (3, none, none, some s)
  | .array => (4, none, none, none)
  | .object => (5, none, none, none)
  | .name n => (6, none, none, some n)
  | .close => (7, none, none, none)

theorem Token.parts_injective : Function.Injective (Token.parts (ν := ν)) := by
  intro a b h
  cases a <;> cases b <;> simp_all [Token.parts]

theorem countable_json [Countable ν] : Countable (Json ν) := by
  have := countable_string
  have : Countable (Token ν) := Token.parts_injective.countable
  refine Function.Injective.countable (f := tokens) fun a b h => ?_
  exact (tokens_inj a b [] [] (by rw [h])).1

/-- **Texts that determine their documents**, one of them given. -/
theorem exists_text [Countable ν] (doc : Json ν) (text : String) :
    ∃ write : Json ν → String, Function.Injective write ∧ write doc = text := by
  classical
  have := countable_json (ν := ν)
  obtain ⟨code, hcode⟩ := exists_injective_nat (Json ν)
  have hunary : Function.Injective fun n => String.ofList (List.replicate n 'x') := by
    intro n m h
    have := congrArg (fun s : String => s.toList.length) h
    simpa using this
  let plain : Json ν → String := fun j => String.ofList (List.replicate (code j) 'x')
  refine ⟨fun j => Equiv.swap (plain doc) text (plain j), ?_, Equiv.swap_apply_left _ _⟩
  exact (Equiv.injective _).comp (hunary.comp hcode)

end Json

end RustPlc.Core
