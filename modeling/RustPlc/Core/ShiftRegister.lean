import Mathlib.Logic.Function.Iterate

/-!
# Linear feedback shift registers

A register of `w` bits that takes its input at the lowest bit, moves down by one
place, and adds a polynomial when a one falls out. With a polynomial whose highest
bit is set no two registers move to the same one, so what differs stays different.

Results:
* `feedAll_xor`: the register is linear in its content and its input;
* `feedAll_eq_iterate`: up to `w` inputs may be added before the first move;
* `feedAll_window_ne_zero`: a register that starts empty ends non-empty when the ones
  of its input are `w` places or fewer apart.
-/
namespace RustPlc.Core.ShiftRegister

variable {w : Nat} (poly : BitVec w)

/-- One place down. -/
def shift (c : BitVec w) : BitVec w :=
  if c.getLsbD 0 then c >>> 1 ^^^ poly else c >>> 1

/-- A register that holds one bit. -/
def single (w : Nat) (b : Bool) : BitVec w := (BitVec.ofBool b).setWidth w

def feed (c : BitVec w) (b : Bool) : BitVec w := shift poly (c ^^^ single w b)

def feedAll (c : BitVec w) (bs : List Bool) : BitVec w := bs.foldl (feed poly) c

@[simp] theorem feedAll_nil (c : BitVec w) : feedAll poly c [] = c := rfl

@[simp] theorem feedAll_cons (c : BitVec w) (b : Bool) (bs : List Bool) :
    feedAll poly c (b :: bs) = feedAll poly (feed poly c b) bs := rfl

theorem feedAll_append (c : BitVec w) (bs bs' : List Bool) :
    feedAll poly c (bs ++ bs') = feedAll poly (feedAll poly c bs) bs' := List.foldl_append

/-! ## Linearity -/

theorem xor_interchange (a b c d : BitVec w) :
    (a ^^^ b) ^^^ (c ^^^ d) = (a ^^^ c) ^^^ (b ^^^ d) := by
  rw [BitVec.xor_assoc, ← BitVec.xor_assoc b c d, BitVec.xor_comm b c, BitVec.xor_assoc c b d,
    BitVec.xor_assoc]

theorem shift_xor (a b : BitVec w) : shift poly (a ^^^ b) = shift poly a ^^^ shift poly b := by
  unfold shift
  rw [BitVec.getLsbD_xor, BitVec.ushiftRight_xor_distrib]
  cases a.getLsbD 0 <;> cases b.getLsbD 0
  · rfl
  · exact BitVec.xor_assoc _ _ _
  · show a >>> 1 ^^^ b >>> 1 ^^^ poly = a >>> 1 ^^^ poly ^^^ b >>> 1
    rw [BitVec.xor_assoc, BitVec.xor_comm (b >>> 1), ← BitVec.xor_assoc]
  · show a >>> 1 ^^^ b >>> 1 = a >>> 1 ^^^ poly ^^^ (b >>> 1 ^^^ poly)
    rw [xor_interchange, BitVec.xor_self, BitVec.xor_zero]

@[simp] theorem shift_zero : shift poly 0#w = 0#w := by
  unfold shift
  simp

theorem single_xor (x y : Bool) : single w (x ^^ y) = single w x ^^^ single w y := by
  cases x <;> cases y <;> simp [single]

@[simp] theorem single_false : single w false = 0#w := by simp [single]

theorem feed_xor (a b : BitVec w) (x y : Bool) :
    feed poly (a ^^^ b) (x ^^ y) = feed poly a x ^^^ feed poly b y := by
  unfold feed
  rw [single_xor, xor_interchange, shift_xor]

/-- **The register is linear.** -/
theorem feedAll_xor : ∀ {xs ys : List Bool} (a b : BitVec w), xs.length = ys.length →
    feedAll poly (a ^^^ b) (List.zipWith (· ^^ ·) xs ys) = feedAll poly a xs ^^^ feedAll poly b ys
  | [], [], _, _, _ => rfl
  | x :: xs, y :: ys, a, b, h => by
    rw [List.zipWith_cons_cons, feedAll_cons, feed_xor, feedAll_xor _ _ (Nat.succ.inj h)]
    rfl

/-! ## Injectivity -/

/-- The one that falls out is the highest bit afterwards. -/
theorem shift_eq_zero {poly : BitVec w} (hp : poly.msb = true) {c : BitVec w} (h : shift poly c = 0#w) :
    c = 0#w := by
  have hpos : 0 < w := by
    cases w with
    | zero => simp [BitVec.msb, BitVec.getMsbD] at hp
    | succ w => exact Nat.succ_pos w
  unfold shift at h
  split at h
  · have htop : (c >>> 1 ^^^ poly).getLsbD (w - 1) = true := by
      rw [BitVec.getLsbD_xor, BitVec.getLsbD_ushiftRight, BitVec.getLsbD_of_ge c _ (by omega)]
      rw [BitVec.msb_eq_getLsbD_last] at hp
      simp [hp]
    rw [h] at htop
    simp at htop
  · next hlow =>
    apply BitVec.eq_of_getLsbD_eq
    intro i hi
    cases i with
    | zero => simpa using hlow
    | succ i =>
      have := congrArg (BitVec.getLsbD · i) h
      simpa [BitVec.getLsbD_ushiftRight, Nat.add_comm 1 i] using this

theorem iterate_shift_eq_zero {poly : BitVec w} (hp : poly.msb = true) : ∀ {n : Nat} {c : BitVec w},
    (shift poly)^[n] c = 0#w → c = 0#w
  | 0, _, h => h
  | _ + 1, _, h => shift_eq_zero hp (iterate_shift_eq_zero hp h)

theorem feedAll_zeros (c : BitVec w) : ∀ n : Nat,
    feedAll poly c (List.replicate n false) = (shift poly)^[n] c
  | 0 => rfl
  | n + 1 => by
    rw [List.replicate_succ, feedAll_cons, feedAll_zeros, feed, single_false, BitVec.xor_zero,
      Function.iterate_succ_apply]

/-! ## A window of inputs -/

/-- The inputs side by side, the first in the lowest bit. -/
def packed (w : Nat) : List Bool → BitVec w
  | [] => 0#w
  | b :: bs => single w b ^^^ packed w bs <<< 1

theorem packed_high : ∀ {bs : List Bool} {i : Nat}, bs.length ≤ i → (packed w bs).getLsbD i = false
  | [], _, _ => by simp [packed]
  | _ :: _, i, h => by
    cases i with
    | zero => simp at h
    | succ i =>
      have := packed_high (Nat.le_of_succ_le_succ h)
      simp [packed, single, BitVec.getLsbD_xor, BitVec.getLsbD_shiftLeft, BitVec.getLsbD_setWidth, this]

theorem packed_low {b : Bool} {bs : List Bool} (hw : 0 < w) : (packed w (b :: bs)).getLsbD 0 = b := by
  simp [packed, single, hw]

theorem packed_append : ∀ xs ys : List Bool,
    packed w (xs ++ ys) = packed w xs ^^^ packed w ys <<< xs.length
  | [], ys => by simp [packed]
  | x :: xs, ys => by
    rw [List.cons_append, packed, packed_append xs ys, packed, BitVec.shiftLeft_xor_distrib,
      ← BitVec.shiftLeft_add, List.length_cons, BitVec.xor_assoc]

/-- What has been moved up moves down again. -/
theorem shift_shiftLeft {y : BitVec w} (h : y.getLsbD (w - 1) = false) :
    shift poly (y <<< 1) = y := by
  have hlow : (y <<< 1).getLsbD 0 = false := by simp
  unfold shift
  rw [hlow, if_neg Bool.false_ne_true]
  apply BitVec.eq_of_getLsbD_eq
  intro i hi
  rw [BitVec.getLsbD_ushiftRight, BitVec.getLsbD_shiftLeft]
  by_cases htop : 1 + i < w
  · simp [htop]
  · obtain rfl : i = w - 1 := by omega
    simp [htop, h]

/-- **Up to `w` inputs may be added before the first move.** -/
theorem feedAll_eq_iterate : ∀ {bs : List Bool} (c : BitVec w), bs.length ≤ w →
    feedAll poly c bs = (shift poly)^[bs.length] (c ^^^ packed w bs)
  | [], c, _ => by simp [packed]
  | b :: bs, c, h => by
    have hlen : bs.length + 1 ≤ w := h
    rw [feedAll_cons, feedAll_eq_iterate _ (by omega), List.length_cons, Function.iterate_succ_apply,
      packed, ← BitVec.xor_assoc, shift_xor, shift_shiftLeft poly (packed_high (by omega)), feed]

theorem packed_eq_zero : ∀ {bs : List Bool}, bs.length ≤ w → packed w bs = 0#w → true ∉ bs
  | [], _, _ => List.not_mem_nil
  | b :: bs, h, hz => by
    have hlen : bs.length + 1 ≤ w := h
    have hb : b = false := by
      have hlow : (packed w (b :: bs)).getLsbD 0 = b := packed_low (by omega)
      rw [hz] at hlow
      simpa using hlow.symm
    subst hb
    have hrest : packed w bs = 0#w := by
      rw [← shift_shiftLeft 0#w (packed_high (by omega))]
      rw [packed, single_false, BitVec.zero_xor] at hz
      rw [hz, shift_zero]
    intro hmem
    rcases List.mem_cons.mp hmem with h' | h'
    · exact Bool.false_ne_true h'.symm
    · exact packed_eq_zero (by omega) hrest h'

/-- **A window of at most `w` inputs is seen**, whatever zeros stand before and
after it. -/
theorem feedAll_window_ne_zero {poly : BitVec w} (hp : poly.msb = true) {window : List Bool}
    (hlen : window.length ≤ w) (hone : true ∈ window) (before after : Nat) :
    feedAll poly 0#w (List.replicate before false ++ window ++ List.replicate after false) ≠ 0#w := by
  intro h
  have hstart : feedAll poly 0#w (List.replicate before false) = 0#w := by
    rw [feedAll_zeros, Function.iterate_fixed (shift_zero poly)]
  rw [feedAll_append, feedAll_append, hstart, feedAll_zeros, feedAll_eq_iterate poly 0#w hlen,
    BitVec.zero_xor] at h
  exact packed_eq_zero hlen (iterate_shift_eq_zero hp (iterate_shift_eq_zero hp h)) hone

/-- The ones of a list are `n` places or fewer apart. -/
def WithinWindow (n : Nat) (bs : List Bool) : Prop :=
  ∃ s, ∀ i, bs[i]? = some true → s ≤ i ∧ i < s + n

theorem eq_replicate_false {bs : List Bool} (h : true ∉ bs) : bs = List.replicate bs.length false :=
  List.eq_replicate_iff.mpr ⟨rfl, fun b hb => by
    cases b with
    | false => rfl
    | true => exact absurd hb h⟩

theorem WithinWindow.split {n : Nat} {bs : List Bool} (h : WithinWindow n bs) (hone : true ∈ bs) :
    ∃ before window after, bs = List.replicate before false ++ window ++ List.replicate after false ∧
      window.length ≤ n ∧ true ∈ window := by
  obtain ⟨s, hs⟩ := h
  have hbefore : true ∉ bs.take s := by
    intro hm
    obtain ⟨i, hi⟩ := List.mem_iff_getElem?.mp hm
    rw [List.getElem?_take] at hi
    split at hi
    · have := (hs i hi).1
      omega
    · cases hi
  have hafter : true ∉ (bs.drop s).drop n := by
    intro hm
    obtain ⟨i, hi⟩ := List.mem_iff_getElem?.mp hm
    rw [List.drop_drop, List.getElem?_drop] at hi
    have := (hs _ hi).2
    omega
  have hsplit : bs = bs.take s ++ (bs.drop s).take n ++ (bs.drop s).drop n := by
    rw [List.append_assoc, List.take_append_drop, List.take_append_drop]
  refine ⟨(bs.take s).length, (bs.drop s).take n, ((bs.drop s).drop n).length, ?_, ?_, ?_⟩
  · rw [← eq_replicate_false hbefore, ← eq_replicate_false hafter]
    exact hsplit
  · rw [List.length_take]
    exact Nat.min_le_left _ _
  · rw [hsplit] at hone
    rcases List.mem_append.mp hone with hone | hone
    · rcases List.mem_append.mp hone with hone | hone
      · exact absurd hone hbefore
      · exact hone
    · exact absurd hone hafter

/-- **No input with a one is forgotten** when its ones are `w` places or fewer
apart. -/
theorem feedAll_ne_zero {poly : BitVec w} (hp : poly.msb = true) {bs : List Bool}
    (h : WithinWindow w bs) (hone : true ∈ bs) : feedAll poly 0#w bs ≠ 0#w := by
  obtain ⟨before, window, after, rfl, hlen, hmem⟩ := h.split hone
  exact feedAll_window_ne_zero hp hlen hmem before after

end RustPlc.Core.ShiftRegister
