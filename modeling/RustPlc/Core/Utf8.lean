import Mathlib.Algebra.GroupWithZero.Nat
import Mathlib.Data.List.Basic

/-!
# UTF-8

A text as the bytes of its characters.

Results
* `encode_ascii`, `encode_high`: an ASCII character is its own byte, every
  other character has bytes above 127 only.
* `fromUtf8_iff`: `std::str::from_utf8` accepts the bytes of texts, and gives
  the text.
-/
namespace RustPlc.Core.Utf8

def utf8 (cs : List Char) : List UInt8 := cs.flatMap String.utf8EncodeChar

@[simp] theorem utf8_nil : utf8 [] = [] := rfl

@[simp] theorem utf8_cons (c : Char) (cs : List Char) :
    utf8 (c :: cs) = String.utf8EncodeChar c ++ utf8 cs := List.flatMap_cons

@[simp] theorem utf8_append (as bs : List Char) : utf8 (as ++ bs) = utf8 as ++ utf8 bs :=
  List.flatMap_append

@[simp] theorem length_utf8 (cs : List Char) :
    (utf8 cs).length = (cs.map Char.utf8Size).sum := by
  simp only [utf8, List.length_flatMap, String.length_utf8EncodeChar]

theorem encode_ascii {c : Char} (h : c.val.toNat < 128) :
    String.utf8EncodeChar c = [UInt8.ofNat c.val.toNat] := by
  unfold String.utf8EncodeChar
  exact if_pos (Nat.le_of_lt_succ h)

theorem encode_high {c : Char} (h : 128 ≤ c.val.toNat) {b : UInt8}
    (hb : b ∈ String.utf8EncodeChar c) : 128 ≤ b.toNat := by
  have hval : c.val.toNat < 0x110000 := by
    have := c.valid
    rcases this with h | ⟨-, h⟩
    · exact Nat.lt_trans h (by decide)
    · exact h
  unfold String.utf8EncodeChar at hb
  simp only at hb
  rw [if_neg (by omega)] at hb
  split at hb
  · simp only [List.mem_cons, List.not_mem_nil, or_false] at hb
    rcases hb with rfl | rfl <;> rw [UInt8.toNat_ofNat'] <;> omega
  split at hb
  · simp only [List.mem_cons, List.not_mem_nil, or_false] at hb
    rcases hb with rfl | rfl | rfl <;> rw [UInt8.toNat_ofNat'] <;> omega
  · simp only [List.mem_cons, List.not_mem_nil, or_false] at hb
    rcases hb with rfl | rfl | rfl | rfl <;> rw [UInt8.toNat_ofNat'] <;> omega

theorem encode_lf : String.utf8EncodeChar '\n' = [10] := encode_ascii (by decide)

/-- LF is the only character with the byte of LF. -/
theorem lf_notMem_encode {c : Char} (hc : c ≠ '\n') : ∀ b ∈ String.utf8EncodeChar c, b ≠ 10 := by
  rintro b hb rfl
  rcases Nat.lt_or_ge c.val.toNat 128 with hlow | hhigh
  · rw [encode_ascii hlow, List.mem_singleton] at hb
    have hval := congrArg UInt8.toNat hb
    rw [UInt8.toNat_ofNat', Nat.mod_eq_of_lt (by omega)] at hval
    exact hc (Char.ext (UInt32.toNat_inj.mp hval.symm))
  · exact absurd (encode_high hhigh hb) (by decide)

theorem lf_notMem_utf8 {cs : List Char} (h : '\n' ∉ cs) : 10 ∉ utf8 cs := by
  intro hmem
  obtain ⟨c, hc, hb⟩ := List.mem_flatMap.mp hmem
  exact lf_notMem_encode (fun heq => h (heq ▸ hc)) 10 hb rfl

/-! ## Validation -/

/-- `std::str::from_utf8` -/
def fromUtf8 (bs : List UInt8) : Option (List Char) :=
  bs.toByteArray.utf8Decode?.map Array.toList

theorem toByteArray_inj {a b : List UInt8} (h : a.toByteArray = b.toByteArray) : a = b := by
  rw [← List.toList_data_toByteArray (l := a), h, List.toList_data_toByteArray]

theorem fromUtf8_iff {bs : List UInt8} {cs : List Char} :
    fromUtf8 bs = some cs ↔ utf8 cs = bs := by
  constructor
  · intro h
    obtain ⟨chars, hchars, rfl⟩ := Option.map_eq_some_iff.mp h
    obtain ⟨hsome, rfl⟩ := Option.eq_some_iff_get_eq.mp hchars
    exact toByteArray_inj ByteArray.utf8Encode_get_utf8Decode?
  · rintro rfl
    show (List.utf8Encode cs).utf8Decode?.map Array.toList = some cs
    rw [List.utf8Decode?_utf8Encode]
    rfl

/-- A byte below 128 as a character. -/
def asciiChar (b : UInt8) : Char := Char.ofNat b.toNat

theorem encode_asciiChar {b : UInt8} (h : b.toNat < 128) :
    String.utf8EncodeChar (asciiChar b) = [b] := by
  have hval : (asciiChar b).val.toNat = b.toNat := by
    rw [asciiChar, Char.ofNat, dif_pos (.inl (Nat.lt_trans h (by decide)))]
    rfl
  rw [encode_ascii (by rwa [hval]), hval, UInt8.ofNat_toNat]

theorem utf8_ascii {bs : List UInt8} (h : ∀ b ∈ bs, b.toNat < 128) :
    utf8 (bs.map asciiChar) = bs := by
  induction bs with
  | nil => rfl
  | cons b bs ih =>
    obtain ⟨hb, hbs⟩ := List.forall_mem_cons.mp h
    rw [List.map_cons, utf8_cons, encode_asciiChar hb, ih hbs, List.singleton_append]

end RustPlc.Core.Utf8
