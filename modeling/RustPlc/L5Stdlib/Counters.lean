import RustPlc.Core.Counts
import RustPlc.L1Ir.Value

/-!
# The standard counters

`CTU`, `CTD` and `CTUD` (stdlib/counters.st) as functions from one call to the
next. `CV` is an `INT`: a sum is computed on 64 bits and narrowed by the store
(`narrow_value`, crates/st-engine/src/vm.rs:2430-2484), which wraps at both ends
of the 16 bits and does not stay there.

Results
* `standard_counters`: after every sequence of calls `CV` is the count since the
  last reset or load, wrapped to 16 bits; while it fits, a counter up does not
  fall and a counter down does not rise.
-/
namespace RustPlc.Engine

open RustPlc.Ir RustPlc.Core.Sequences

/-! ## Calls -/

/-- The inputs of the three counters, of which each reads its own. -/
structure CounterCall where
  cu : Bool
  cd : Bool
  reset : Bool
  load : Bool
  pv : Int16

/-- What an `INT` variable holds after a store. -/
def storeInt (v : Int64) : Int16 := v.toInt16

/-! ## Blocks -/

/-- mirrors stdlib/counters.st:9-21 -/
structure Ctu where
  q : Bool
  cv : Int16
  prevCu : Bool

def Ctu.fresh : Ctu := ⟨false, 0, false⟩

/-- mirrors stdlib/counters.st:22-28 -/
def Ctu.call (t : Ctu) (c : CounterCall) : Ctu :=
  let cv :=
    if c.reset then 0
    else if c.cu && !t.prevCu then storeInt (t.cv.toInt64 + 1)
    else t.cv
  { q := c.pv ≤ cv, cv := cv, prevCu := c.cu }

/-- mirrors stdlib/counters.st:31-43 -/
structure Ctd where
  q : Bool
  cv : Int16
  prevCd : Bool

def Ctd.fresh : Ctd := ⟨false, 0, false⟩

/-- mirrors stdlib/counters.st:44-50 -/
def Ctd.call (t : Ctd) (c : CounterCall) : Ctd :=
  let cv :=
    if c.load then c.pv
    else if c.cd && !t.prevCd then storeInt (t.cv.toInt64 - 1)
    else t.cv
  { q := cv ≤ 0, cv := cv, prevCd := c.cd }

/-- mirrors stdlib/counters.st:53-69 -/
structure Ctud where
  qu : Bool
  qd : Bool
  cv : Int16
  prevCu : Bool
  prevCd : Bool

def Ctud.fresh : Ctud := ⟨false, false, 0, false, false⟩

/-- mirrors stdlib/counters.st:70-85 -/
def Ctud.call (t : Ctud) (c : CounterCall) : Ctud :=
  let cv :=
    if c.reset then 0
    else if c.load then c.pv
    else
      let cv := if c.cu && !t.prevCu then storeInt (t.cv.toInt64 + 1) else t.cv
      if c.cd && !t.prevCd then storeInt (cv.toInt64 - 1) else cv
  { qu := c.pv ≤ cv, qd := cv ≤ 0, cv := cv, prevCu := c.cu, prevCd := c.cd }

variable (calls : ℕ → CounterCall) (k : ℕ)

/-- The counters after call `k`. -/
def ctu : Ctu := stateAfter Ctu.call .fresh calls k

def ctd : Ctd := stateAfter Ctd.call .fresh calls k

def ctud : Ctud := stateAfter Ctud.call .fresh calls k

/-! ## What the history says -/

def CuOn : Prop := (calls k).cu = true

def CdOn : Prop := (calls k).cd = true

def Resets : Prop := (calls k).reset = true

def Loads : Prop := (calls k).load = true

def Never (_ : ℕ) : Prop := False

/-- `PV` of call `k`. -/
def pvOf : ℤ := (calls k).pv.toInt

/-- The counts of the three counters. A reset sets 0, before a load. -/
def UpCount : ℤ → Prop := IsCount (Resets calls) (fun _ => 0) (CuOn calls) Never k

def DownCount : ℤ → Prop := IsCount (Loads calls) (pvOf calls) Never (CdOn calls) k

def BothCount : ℤ → Prop :=
  IsCount (fun j => Resets calls j ∨ Loads calls j)
    (fun j => if (calls j).reset then 0 else pvOf calls j) (CuOn calls) (CdOn calls) k

/-- `cv` is the count on 16 bits: the number itself exactly when it is an `INT`. -/
structure Wraps (count : ℤ → Prop) (cv : Int16) : Prop where
  wrapped : ∃ n, count n ∧ cv.toInt = n.bmod (2 ^ 16)
  exact : ∀ n, count n → (cv.toInt = n ↔ -2 ^ 15 ≤ n ∧ n < 2 ^ 15)

/-- Nothing resets between call `i` and call `k`, `k` included. -/
def Between (p : ℕ → Prop) (i k : ℕ) : Prop := i ≤ k ∧ ∀ j, i < j → j ≤ k → ¬ p j

structure CtuLaw : Prop where
  count : Wraps (UpCount calls k) (ctu calls k).cv
  rises : ∀ i, Between (Resets calls) i k → ∀ n, UpCount calls k n → n < 2 ^ 15 →
    (ctu calls i).cv ≤ (ctu calls k).cv ∧
      ((calls i).pv = (calls k).pv → (ctu calls i).q = true → (ctu calls k).q = true)

structure CtdLaw : Prop where
  count : Wraps (DownCount calls k) (ctd calls k).cv
  falls : ∀ i, Between (Loads calls) i k → ∀ n, DownCount calls k n → -2 ^ 15 ≤ n →
    (ctd calls k).cv ≤ (ctd calls i).cv

def CtudLaw : Prop := Wraps (BothCount calls k) (ctud calls k).cv

variable {calls k}

/-! ## Stores -/

theorem bmod_toInt (x : Int16) : x.toInt.bmod (2 ^ 16) = x.toInt := by
  have := x.toInt_lt
  have := x.le_toInt
  exact Int.bmod_eq_of_le (by omega) (by omega)

theorem storeInt_add (x : Int16) {d : Int64} (hd : -1 ≤ d.toInt ∧ d.toInt ≤ 1) :
    (storeInt (x.toInt64 + d)).toInt = (x.toInt + d.toInt).bmod (2 ^ 16) := by
  have := x.toInt_lt
  have := x.le_toInt
  rw [storeInt, Int64.toInt_toInt16, Int64.toInt_add, Int16.toInt_toInt64,
    Int.bmod_eq_of_le (n := x.toInt + d.toInt) (by omega) (by omega)]

/-- An edge of an input whose last value is in a latch. -/
theorem edge_eq {p : ℕ → Prop} {now last : Bool} (hnow : p k ↔ now = true)
    (hlast : last = true ↔ Prev p k) : edge p k = if now && !last then 1 else 0 := by
  have hrises : Rises p k ↔ (now && !last) = true := by
    rw [Rises, hnow, ← hlast]
    simp
  unfold edge
  simp only [hrises]

theorem stored_up {p : ℕ → Prop} {now last : Bool} (hnow : p k ↔ now = true)
    (hlast : last = true ↔ Prev p k) (x : Int16) :
    (if now && !last then storeInt (x.toInt64 + 1) else x).toInt =
      (x.toInt + edge p k).bmod (2 ^ 16) := by
  rw [edge_eq hnow hlast]
  split
  · exact storeInt_add x (by decide)
  · simp

theorem stored_down {p : ℕ → Prop} {now last : Bool} (hnow : p k ↔ now = true)
    (hlast : last = true ↔ Prev p k) (x : Int16) :
    (if now && !last then storeInt (x.toInt64 - 1) else x).toInt =
      (x.toInt - edge p k).bmod (2 ^ 16) := by
  rw [edge_eq hnow hlast]
  split
  · rw [Int64.sub_eq_add_neg]
    exact storeInt_add x (d := -1) (by decide)
  · simp

/-! ## Wrapped counts -/

section

variable {set up down : ℕ → Prop} {value : ℕ → ℤ} {cv cv' : Int16}

/-- `cv` is a count before call `k`. -/
def Holds (set : ℕ → Prop) (value : ℕ → ℤ) (up down : ℕ → Prop) (k : ℕ) (cv : Int16) : Prop :=
  ∃ m, CountBefore set value up down k m ∧ cv.toInt = m.bmod (2 ^ 16)

theorem holds_zero : Holds set value up down 0 0 := ⟨0, .inl ⟨rfl, rfl⟩, rfl⟩

theorem holds_set (hk : set k) (hcv : cv.toInt = value k) :
    Holds set value up down (k + 1) cv :=
  ⟨value k, .inr (prev_succ.mpr (isCount_set hk)), by rw [← hcv, bmod_toInt]⟩

theorem Holds.next (h : Holds set value up down k cv) (hk : ¬ set k)
    (hcv : cv'.toInt = (cv.toInt + edge up k - edge down k).bmod (2 ^ 16)) :
    Holds set value up down (k + 1) cv' := by
  obtain ⟨m, hm, hcvm⟩ := h
  refine ⟨_, .inr (prev_succ.mpr (isCount_next hk hm)), ?_⟩
  rw [hcv, hcvm, Int.add_sub_assoc, Int.bmod_add_bmod, Int.add_sub_assoc]

theorem Holds.wraps (h : Holds set value up down (k + 1) cv) :
    Wraps (IsCount set value up down k) cv := by
  obtain ⟨m, ⟨h, -⟩ | hm, hcv⟩ := h
  · cases h
  · have hm := prev_succ.mp hm
    refine ⟨⟨m, hm, hcv⟩, fun n hn => ?_⟩
    obtain rfl := hn.unique hm
    have := cv.toInt_lt
    have := cv.le_toInt
    constructor
    · intro h
      omega
    · rintro ⟨hlow, hhigh⟩
      rw [hcv, Int.bmod_eq_of_le (by omega) (by omega)]

end

/-! ## The counters -/

/-- The state of a counter up before a call. -/
structure Ctu.Counting (calls : ℕ → CounterCall) (k : ℕ) (t : Ctu) : Prop where
  prevCu : t.prevCu = true ↔ Prev (CuOn calls) k
  count : Holds (Resets calls) (fun _ => 0) (CuOn calls) Never k t.cv

theorem edge_Never : edge Never k = 0 := edge_never fun _ => id

theorem Ctu.Counting.call {t : Ctu} (h : t.Counting calls k) :
    (t.call (calls k)).Counting calls (k + 1) := by
  refine ⟨(prev_succ (p := CuOn calls)).symm, ?_⟩
  cases hreset : (calls k).reset with
  | true =>
    refine holds_set hreset ?_
    simp [Ctu.call, hreset]
  | false =>
    refine h.count.next (by simp [Resets, hreset]) ?_
    rw [edge_Never, Int.natCast_zero, Int.sub_zero, ← stored_up Iff.rfl h.prevCu]
    simp [Ctu.call, hreset]

theorem Ctu.counting : Ctu.Counting calls (k + 1) (ctu calls k) :=
  stateAfter_inv ⟨by simp [Ctu.fresh], holds_zero⟩ (fun _ _ h => h.call) k

structure Ctd.Counting (calls : ℕ → CounterCall) (k : ℕ) (t : Ctd) : Prop where
  prevCd : t.prevCd = true ↔ Prev (CdOn calls) k
  count : Holds (Loads calls) (pvOf calls) Never (CdOn calls) k t.cv

theorem Ctd.Counting.call {t : Ctd} (h : t.Counting calls k) :
    (t.call (calls k)).Counting calls (k + 1) := by
  refine ⟨(prev_succ (p := CdOn calls)).symm, ?_⟩
  cases hload : (calls k).load with
  | true =>
    refine holds_set hload ?_
    simp [Ctd.call, hload, pvOf]
  | false =>
    refine h.count.next (by simp [Loads, hload]) ?_
    rw [edge_Never, Int.natCast_zero, Int.add_zero, ← stored_down Iff.rfl h.prevCd]
    simp [Ctd.call, hload]

theorem Ctd.counting : Ctd.Counting calls (k + 1) (ctd calls k) :=
  stateAfter_inv ⟨by simp [Ctd.fresh], holds_zero⟩ (fun _ _ h => h.call) k

structure Ctud.Counting (calls : ℕ → CounterCall) (k : ℕ) (t : Ctud) : Prop where
  prevCu : t.prevCu = true ↔ Prev (CuOn calls) k
  prevCd : t.prevCd = true ↔ Prev (CdOn calls) k
  count : Holds (fun j => Resets calls j ∨ Loads calls j)
    (fun j => if (calls j).reset then 0 else pvOf calls j) (CuOn calls) (CdOn calls) k t.cv

theorem Ctud.Counting.call {t : Ctud} (h : t.Counting calls k) :
    (t.call (calls k)).Counting calls (k + 1) := by
  refine ⟨(prev_succ (p := CuOn calls)).symm, (prev_succ (p := CdOn calls)).symm, ?_⟩
  cases hreset : (calls k).reset with
  | true =>
    refine holds_set (.inl hreset) ?_
    simp [Ctud.call, hreset]
  | false =>
    cases hload : (calls k).load with
    | true =>
      refine holds_set (.inr hload) ?_
      simp [Ctud.call, hreset, hload, pvOf]
    | false =>
      refine h.count.next (by simp [Resets, Loads, hreset, hload]) ?_
      rw [← Int.bmod_sub_bmod, ← stored_up Iff.rfl h.prevCu, ← stored_down Iff.rfl h.prevCd]
      simp [Ctud.call, hreset, hload]

theorem Ctud.counting : Ctud.Counting calls (k + 1) (ctud calls k) :=
  stateAfter_inv ⟨by simp [Ctud.fresh], by simp [Ctud.fresh], holds_zero⟩ (fun _ _ h => h.call) k

/-! ## Between resets and loads -/

theorem edges_Never {set : ℕ → Prop} : edges set Never k = 0 := by
  classical
  rw [edges, Finset.card_eq_zero, Finset.filter_eq_empty_iff]
  exact fun j _ hj => hj.rises.1

theorem UpCount.nonneg {n : ℤ} (h : UpCount calls k n) : 0 ≤ n := by
  obtain ⟨b, hb, rfl⟩ := h
  have hzero : b = 0 := by
    rcases hb with ⟨s, -, hb⟩ | ⟨-, hb⟩
    · exact hb
    · exact hb
  rw [hzero, edges_Never]
  omega

theorem DownCount.le {n : ℤ} (h : DownCount calls k n) : n < 2 ^ 15 := by
  obtain ⟨b, hb, rfl⟩ := h
  have hle : b < 2 ^ 15 := by
    rcases hb with ⟨s, -, rfl⟩ | ⟨-, rfl⟩
    · exact (calls s).pv.toInt_lt
    · decide
  rw [edges_Never]
  omega

theorem ctuLaw : CtuLaw calls k := by
  have hcount : ∀ j, Wraps (UpCount calls j) (ctu calls j).cv := fun j => Ctu.counting.count.wraps
  refine ⟨hcount k, fun i ⟨hik, hno⟩ n hn hfits => ?_⟩
  obtain ⟨m, hm, -⟩ := (hcount i).wrapped
  obtain ⟨u, d, hlater, -, hd⟩ := hm.later hik hno
  obtain rfl := hlater.unique hn
  obtain rfl := hd fun _ => id
  have hnonneg : 0 ≤ m := UpCount.nonneg hm
  have hi : (ctu calls i).cv.toInt = m := ((hcount i).exact m hm).mpr (by omega)
  have hk : (ctu calls k).cv.toInt = m + u - (0 : ℕ) := ((hcount k).exact _ hn).mpr (by omega)
  have hle : (ctu calls i).cv ≤ (ctu calls k).cv := by
    rw [Int16.le_iff_toInt_le, hi, hk]
    omega
  refine ⟨hle, fun hpv hq => ?_⟩
  have hqi : (ctu calls i).q = decide ((calls i).pv ≤ (ctu calls i).cv) := rfl
  have hqk : (ctu calls k).q = decide ((calls k).pv ≤ (ctu calls k).cv) := rfl
  rw [hqi, decide_eq_true_eq, hpv] at hq
  rw [hqk, decide_eq_true_eq]
  exact Int16.le_trans hq hle

theorem ctdLaw : CtdLaw calls k := by
  have hcount : ∀ j, Wraps (DownCount calls j) (ctd calls j).cv := fun j => Ctd.counting.count.wraps
  refine ⟨hcount k, fun i ⟨hik, hno⟩ n hn hfits => ?_⟩
  obtain ⟨m, hm, -⟩ := (hcount i).wrapped
  obtain ⟨u, d, hlater, hu, -⟩ := hm.later hik hno
  obtain rfl := hlater.unique hn
  obtain rfl := hu fun _ => id
  have hhigh : m < 2 ^ 15 := DownCount.le hm
  have hi : (ctd calls i).cv.toInt = m := ((hcount i).exact m hm).mpr (by omega)
  have hk : (ctd calls k).cv.toInt = m + (0 : ℕ) - d := ((hcount k).exact _ hn).mpr (by omega)
  rw [Int16.le_iff_toInt_le, hi, hk]
  omega

/-! ## The law -/

/-- **The standard counters** hold the count since the last reset or load on 16
bits, in every call of every sequence. -/
theorem standard_counters (calls : ℕ → CounterCall) (k : ℕ) :
    CtuLaw calls k ∧ CtdLaw calls k ∧ CtudLaw calls k :=
  ⟨ctuLaw, ctdLaw, Ctud.counting.count.wraps⟩

/-- Loads the lower limit of `INT`, then counts down in call 1 and in call 3. -/
def pastLimit : ℕ → CounterCall
  | 0 => ⟨false, false, false, true, -32768⟩
  | k + 1 => ⟨false, k % 2 = 0, false, false, 0⟩

/-- At its limit a counter down goes on at the other one: it does not stay at
the limit, and it rises between loads. -/
theorem counts_past_limit :
    (¬ ∀ calls k, ∃ n, DownCount calls k n ∧ ((ctd calls k).cv.toInt = n ∨
      (ctd calls k).cv = Int16.maxValue ∨ (ctd calls k).cv = Int16.minValue)) ∧
    ¬ ∀ calls i k, Between (Loads calls) i k → (ctd calls k).cv ≤ (ctd calls i).cv := by
  have hno : ∀ j, 0 < j → ¬ Loads pastLimit j := by
    rintro (_ | j) hj
    · cases hj
    · simp [Loads, pastLimit]
  constructor
  · intro h
    obtain ⟨n, ⟨b, hb, rfl⟩, hcv⟩ := h pastLimit 3
    have hvalue : (ctd pastLimit 3).cv = 32766 := by decide
    have hlow : b = -32768 := by
      rcases hb with ⟨s, hs, rfl⟩ | ⟨hnone, -⟩
      · obtain rfl : s = 0 := Nat.eq_zero_of_not_pos fun hpos => hno s hpos hs.holds
        decide
      · exact absurd rfl (hnone 0 (by decide))
    rw [hvalue, hlow, edges_Never] at hcv
    rcases hcv with hcv | hcv | hcv
    · have hsmall : (32766 : Int16).toInt = 32766 := by decide
      omega
    · exact absurd hcv (by decide)
    · exact absurd hcv (by decide)
  · intro h
    exact absurd (h pastLimit 0 1 ⟨by decide, fun j hj _ => hno j hj⟩) (by decide)

end RustPlc.Engine
