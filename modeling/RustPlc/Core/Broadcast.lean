import Mathlib.Tactic.Common

/-!
# Broadcast channels

A channel that keeps its last `capacity` messages, and that every receiver reads at
its own speed. A receiver that has been overtaken is told how many messages it
missed, once, and goes on with the oldest message that is kept.
-/
namespace RustPlc.Core

/-- `sent` has every message since the channel was made. -/
structure Broadcast (α : Type) where
  capacity : ℕ
  sent : List α
  closed : Bool

/-- What a receive gives. `empty`: the receiver waits. -/
inductive Received (α : Type) where
  | message (a : α)
  | lagged (missed : ℕ)
  | closed
  | empty
  deriving DecidableEq, Repr

namespace Broadcast

variable {α : Type} {c : Broadcast α} {next : ℕ}

def send (c : Broadcast α) (a : α) : Broadcast α := { c with sent := c.sent ++ [a] }

def close (c : Broadcast α) : Broadcast α := { c with closed := true }

/-- The number of the oldest message that is kept. -/
def oldest (c : Broadcast α) : ℕ := c.sent.length - c.capacity

/-- The receiver that reads message `next` has been overtaken. -/
def Overtaken (c : Broadcast α) (next : ℕ) : Prop := next < c.oldest

instance : Decidable (c.Overtaken next) := inferInstanceAs (Decidable (next < c.oldest))

/-- A receive of the receiver that reads message `next`, and the message it reads
after that. -/
def recv (c : Broadcast α) (next : ℕ) : Received α × ℕ :=
  if next < c.oldest then (.lagged (c.oldest - next), c.oldest)
  else
    match c.sent[next]? with
    | some a => (.message a, next + 1)
    | none => (if c.closed then .closed else .empty, next)

theorem recv_lagged (h : c.Overtaken next) :
    c.recv next = (.lagged (c.oldest - next), c.oldest) := by
  unfold recv
  exact if_pos h

/-- Only a receiver that has been overtaken is told so. -/
theorem overtaken_of_recv {k n : ℕ} (h : c.recv next = (.lagged k, n)) : c.Overtaken next := by
  by_contra hn
  unfold recv at h
  rw [if_neg (show ¬ next < c.oldest from hn)] at h
  split at h
  · simp at h
  · split at h <;> simp at h

/-- The end of the channel is reported only when it has been closed. -/
theorem closed_of_recv {n : ℕ} (h : c.recv next = (.closed, n)) : c.closed = true := by
  unfold recv at h
  split at h
  · simp at h
  · split at h
    · simp at h
    · split at h
      · assumption
      · simp at h

/-- A receiver that has been told that it lagged finds a message, while the channel
keeps any. -/
theorem recv_oldest (hcap : 0 < c.capacity) (h : c.Overtaken next) :
    ∃ a, c.recv c.oldest = (.message a, c.oldest + 1) := by
  have hlt : c.oldest < c.sent.length := by
    unfold Overtaken oldest at h
    unfold oldest
    omega
  refine ⟨c.sent[c.oldest], ?_⟩
  unfold recv
  rw [if_neg (Nat.lt_irrefl _), List.getElem?_eq_getElem hlt]

end Broadcast

end RustPlc.Core
