import SharedRadio.Clock.Basic
import SharedRadio.Clock.Counter

/-!
# A clock on the processor's cycle counter

`CycleClock` reads ticks and microseconds off one counter of processor cycles. Ticks are cycles. A
span of microseconds is a span of cycles divided by the number of whole cycles in a microsecond,
which is at least one, so that also a core slower than a megahertz has a clock.

Starting the clock touches three registers: the trace unit is enabled in the debug monitor register,
the lock access register receives the key that opens it, and counting is enabled in the control
register. All other bits of the first and the last keep their values.
-/

namespace SharedRadio

/-- A clock that counts processor cycles. -/
structure CycleClock where
  /-- How many cycles count as a microsecond. -/
  cyclesPerMicro : UInt32
  /-- The counter of cycles. -/
  cycles : Counter := {}
  /-- The control register of the counting unit. -/
  control : UInt32 := 0
  /-- The debug monitor register. -/
  monitor : UInt32 := 0
  /-- The lock access register. -/
  lockAccess : UInt32 := 0

namespace CycleClock

/-- The whole cycles per microsecond of a core, counted as one for a core below a megahertz. -/
def cyclesPerMicroOf (coreHz : UInt32) : UInt32 :=
  if coreHz / 1000000 = 0 then 1 else coreHz / 1000000

/-- The clock of a core that runs at a frequency. -/
def ofCoreHz (coreHz : UInt32) : CycleClock where
  cyclesPerMicro := cyclesPerMicroOf coreHz

/-- The key that opens the counting unit. -/
def unlockKey : UInt32 := 0xC5ACCE55

/-- The bit of the debug monitor register that enables the trace unit. -/
def traceEnable : UInt32 := 0x01000000

/-- The bit of the control register that enables counting. -/
def countEnable : UInt32 := 1

/-- The microseconds in a span of cycles. -/
def microsOf (c : CycleClock) (cycles : UInt32) : UInt32 := cycles / c.cyclesPerMicro

/-- Put the counter of cycles to a value. -/
def setCycles (c : CycleClock) (value : UInt32) : CycleClock := { c with cycles.value := value }

instance : Clock CycleClock where
  start c :=
    { c with
      monitor := c.monitor ||| traceEnable
      lockAccess := unlockKey
      control := c.control ||| countEnable }
  ticks c := (c.cycles.read.1, { c with cycles := c.cycles.read.2 })
  timestamp c := (c.cycles.read.1, { c with cycles := c.cycles.read.2 })
  elapsed since c :=
    (c.microsOf (c.cycles.readSince since).1, { c with cycles := (c.cycles.readSince since).2 })
  patience _ := UInt32.size

end CycleClock

end SharedRadio
