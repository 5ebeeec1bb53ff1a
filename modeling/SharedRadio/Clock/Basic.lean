/-!
# Clocks and busy waits

A `Clock` has two faces. Its tick counter times the bits of a frame, and its microseconds time the
pauses between frames. Both are read, and a read changes the clock.

The library waits by reading a clock over and over until enough time has passed. Whether that ends
depends on the clock alone, so a clock also says how patient one must be: after `Clock.patience`
reads that were all too early, no later read will do. `Clock.poll` gives up then. A wait that ends
is the same under any greater patience, which `poll_add` says.
-/

namespace SharedRadio

/-- What can be asked of a clock. -/
class Clock (κ : Type) where
  /-- Set the clock going. -/
  start : κ → κ
  /-- Read the tick counter. -/
  ticks : κ → UInt32 × κ
  /-- Take a timestamp. -/
  timestamp : κ → UInt32 × κ
  /-- Read the microseconds that have passed since a timestamp. -/
  elapsed : UInt32 → κ → UInt32 × κ
  /-- The number of reads after which a wait that has not ended will never end. -/
  patience : κ → Nat

namespace Clock

variable {κ : Type}

/-- Read the ticks that have passed since an earlier read of the tick counter. -/
def ticksSince [Clock κ] (start : UInt32) (c : κ) : UInt32 × κ :=
  ((ticks c).1 - start, (ticks c).2)

/-- The end of a wait: how many reads it took, and what the last one returned. -/
structure Polled where
  /-- The number of reads. -/
  reads : Nat
  /-- The value that ended the wait. -/
  last : UInt32
  deriving DecidableEq

/-- Read until the value reaches a target, at least once and at most `limit` times; `done` counts
the reads made so far. -/
def poll (read : κ → UInt32 × κ) (target : UInt32) : (limit done : Nat) → κ → Option Polled × κ
  | 0, _, c => (none, c)
  | limit + 1, done, c =>
    let (value, c) := read c
    if target ≤ value then (some ⟨done + 1, value⟩, c) else poll read target limit (done + 1) c

/-- A wait ends with a value that has reached the target, after at least one read. -/
theorem target_le_of_poll {read : κ → UInt32 × κ} {target : UInt32} {limit done : Nat} {c : κ}
    {p : Polled} (h : (poll read target limit done c).1 = some p) :
    target ≤ p.last ∧ done < p.reads := by
  induction limit generalizing done c with
  | zero => simp [poll] at h
  | succ limit ih =>
    by_cases hv : target ≤ (read c).1
    · simp only [poll, hv, if_true, Option.some.injEq] at h
      subst h
      exact ⟨hv, Nat.lt_succ_self done⟩
    · simp only [poll, hv, if_false] at h
      exact ⟨(ih h).1, Nat.lt_of_succ_lt (ih h).2⟩

/-- More patience changes nothing about a wait that ends. -/
theorem poll_add {read : κ → UInt32 × κ} {target : UInt32} {limit done : Nat} {c : κ} {p : Polled}
    (h : (poll read target limit done c).1 = some p) (more : Nat) :
    poll read target (limit + more) done c = poll read target limit done c := by
  induction limit generalizing done c with
  | zero => simp [poll] at h
  | succ limit ih =>
    rw [Nat.succ_add]
    by_cases hv : target ≤ (read c).1
    · simp [poll, hv]
    · simp only [poll, hv, if_false] at h ⊢
      exact ih h

/-- Wait until some ticks have passed since an earlier read of the tick counter. -/
def awaitTicks [Clock κ] (start ticks : UInt32) (c : κ) : Option Polled × κ :=
  poll (ticksSince start) ticks (patience c) 0 c

/-- Wait until some microseconds have passed since a timestamp. -/
def awaitMicros [Clock κ] (since micros : UInt32) (c : κ) : Option Polled × κ :=
  poll (elapsed since) micros (patience c) 0 c

end Clock

end SharedRadio
