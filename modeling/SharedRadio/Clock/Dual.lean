import SharedRadio.Clock.Basic
import SharedRadio.Clock.Counter

/-!
# A clock of two counters

`DualClock` keeps ticks and microseconds in counters of their own. A timestamp is a read of the
microseconds, and so is every look at the time elapsed since one.

Its patience has to match the increments of its counters. If they repeat after `n` reads, a counter
that has been read `2^32 * n` times has shown every value that it will ever show.
-/

namespace SharedRadio

/-- A clock that counts ticks and microseconds separately. -/
structure DualClock where
  /-- The tick counter. -/
  ticks : Counter := {}
  /-- The counter of microseconds. -/
  micros : Counter := {}
  /-- The number of reads after which a wait will never end. -/
  patience : Nat := UInt32.size

namespace DualClock

/-- The clock whose counters take their increments over and over from two arrays. -/
def cycling (tickStart : UInt32) (tickSteps : Array UInt32) (microStart : UInt32)
    (microSteps : Array UInt32) : DualClock where
  ticks := .cycling tickStart tickSteps
  micros := .cycling microStart microSteps
  patience := UInt32.size * max 1 (max tickSteps.size microSteps.size)

/-- Put the tick counter to a value; its increments go on where they were. -/
def setTicks (c : DualClock) (value : UInt32) : DualClock := { c with ticks.value := value }

/-- Put the counter of microseconds to a value; its increments go on where they were. -/
def setMicros (c : DualClock) (value : UInt32) : DualClock := { c with micros.value := value }

instance : Clock DualClock where
  start c := c
  ticks c := (c.ticks.read.1, { c with ticks := c.ticks.read.2 })
  timestamp c := (c.micros.read.1, { c with micros := c.micros.read.2 })
  elapsed since c :=
    ((c.micros.readSince since).1, { c with micros := (c.micros.readSince since).2 })
  patience c := c.patience

end DualClock

end SharedRadio
