/-!
# Free-running counters

A `Counter` is read and moves on: a read returns the present value and then adds an increment, which
wraps around at the width of a word. How far the counter moves at each read is given for every read
by its number, so that any pace at which time passes between reads can be stated.
-/

namespace SharedRadio

/-- A counter of 32 bits that advances with every read. -/
structure Counter where
  /-- What the next read returns. -/
  value : UInt32 := 0
  /-- How often the counter has been read. -/
  reads : Nat := 0
  /-- By how much each read, numbered from zero, advances the counter. -/
  increment : Nat → UInt32 := fun _ => 1

namespace Counter

/-- The counter that starts at a value and takes its increments from an array over and over; from an
empty array it takes ones. -/
def cycling (start : UInt32) (increments : Array UInt32) : Counter where
  value := start
  increment n := increments.getD (n % increments.size) 1

/-- One read: the present value, and the counter after it. -/
def read (c : Counter) : UInt32 × Counter :=
  (c.value, { c with value := c.value + c.increment c.reads, reads := c.reads + 1 })

/-- One read, measured from an earlier one. -/
def readSince (start : UInt32) (c : Counter) : UInt32 × Counter :=
  (c.read.1 - start, c.read.2)

end Counter

end SharedRadio
