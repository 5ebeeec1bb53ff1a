import SharedRadio.Answer
import SharedRadio.Signal.Message

/-!
# Configuration of the coexistence engine

How the engine signals, how long it pauses, and what level of a deny line means that access is
denied. A configuration works if a bit lasts at least one tick.
-/

namespace SharedRadio

/-- The level at which a deny line says that access is denied. -/
inductive DenyLevel where
  /-- High means denied. -/
  | high
  /-- Low means denied. -/
  | low
  deriving DecidableEq, Inhabited

/-- The name of a level. -/
def DenyLevel.name : DenyLevel → String
  | .high => "High"
  | .low => "Low"

/-- Whether a deny line that reads `high` says that access is denied. -/
def DenyLevel.denies (level : DenyLevel) (high : Bool) : Bool :=
  high == decide (level = .high)

namespace Coexistence

/-- Timing and signalling of the coexistence engine. -/
structure Config where
  /-- The ticks that a bit lasts on the request line. -/
  bitTicks : UInt32 := 64
  /-- The pause between the priority message and the request message, in microseconds. -/
  guardMicros : UInt32 := 5
  /-- The time from a request to the reading of the deny line, in microseconds. -/
  sampleMicros : UInt32 := 30
  /-- The priority flags at the beginning. -/
  defaultPriority : PriorityFlags := .only .tx
  /-- The level at which the deny lines say that access is denied. -/
  denyLevel : DenyLevel := .high
  deriving DecidableEq

namespace Config

/-- The configuration whose bits have the length that a tick frequency and a signalling rate give;
a rate of zero gives bits of no length. -/
def withBaudRate (c : Config) (tickHz baud : UInt32) : Config :=
  { c with bitTicks := if baud = 0 then 0 else tickHz / baud }

/-- Whether the request line can be driven with a configuration. -/
def validate (c : Config) : Except Fault Unit :=
  if c.bitTicks = 0 then .error .invalidParameter else .ok ()

theorem validate_eq_ok_iff (c : Config) : c.validate = .ok () ↔ c.bitTicks ≠ 0 := by
  by_cases h : c.bitTicks = 0 <;> simp [validate, h]

end Config

end Coexistence

end SharedRadio
