import SharedRadio.Clock.Basic
import SharedRadio.Coexistence.Record
import SharedRadio.Signal.Frame

/-!
# Lines and clock

A `Rig` is what the coexistence engine is wired to: the request line that it drives, the two deny
lines that it reads, the edge interrupts of the deny lines, and a clock. A `Sighting` is anything
that an observer of the wires or of the log would notice, and a rig keeps the sightings of the
action under way in order.

An action on the rig is a `Rig.Action`. It can fail in two ways. A line that cannot be driven or
read ends it with `Halt.lineFault`. A wait that does not end ends it with `Halt.endless`, after
which nothing that follows happens.
-/

namespace SharedRadio.Coexistence

/-- The line to the external arbiter. -/
structure RequestLine where
  /-- How often the line has been written, failures included. -/
  writes : Nat := 0
  /-- The numbers of the writes that fail. -/
  failing : List Nat := []

/-- A line from the external arbiter, with its edge interrupt. -/
structure DenyLine where
  /-- The level of the line. -/
  high : Bool := false
  /-- What the next reads return in place of the level; `none` is a read that fails. -/
  queued : List (Option Bool) := []
  /-- Whether the edge interrupt is enabled. -/
  armed : Bool := false
  /-- How often a pending edge interrupt was cleared. -/
  cleared : Nat := 0

/-- What the next read of a deny line returns, and the line after it. -/
def DenyLine.read (l : DenyLine) : Option Bool × DenyLine :=
  match l.queued with
  | [] => (some l.high, l)
  | reading :: rest => (reading, { l with queued := rest })

/-- Something that an observer of the wires or of the log notices. -/
inductive Sighting where
  /-- The request line was written, with success or not, at a tick. -/
  | wrote (level landed : Bool) (tick : UInt32)
  /-- A timestamp was taken. -/
  | stamped (now : UInt32)
  /-- Time was read off against a timestamp, some times in a row, the last time with a result. -/
  | waited (since : UInt32) (reads : Nat) (last : UInt32)
  /-- The clock was set going. -/
  | clockStarted
  /-- A deny line was read; `none` is a failure. -/
  | sampled (line : Direction) (reading : Option Bool)
  /-- The edge interrupt of a deny line was enabled. -/
  | armed (line : Direction)
  /-- The edge interrupt of a deny line was disabled. -/
  | disarmed (line : Direction)
  /-- A pending edge interrupt of a deny line was cleared. -/
  | cleared (line : Direction)
  /-- A log line was written. -/
  | logged (line : LogLine)
  deriving DecidableEq

/-- The lines, the clock, and what has been noticed of them. -/
structure Rig (κ : Type) where
  /-- The line to the external arbiter. -/
  request : RequestLine := {}
  /-- The line that denies transmitting. -/
  txDeny : DenyLine := {}
  /-- The line that denies receiving. -/
  rxDeny : DenyLine := {}
  /-- The clock. -/
  clock : κ
  /-- What has been noticed since the sightings were last collected, in order. -/
  sightings : List Sighting := []

namespace Rig

variable {κ : Type}

/-- The deny line of a direction. -/
def denyLine (r : Rig κ) : Direction → DenyLine
  | .tx => r.txDeny
  | .rx => r.rxDeny

/-- The rig with another deny line for a direction. -/
def setDenyLine (r : Rig κ) (d : Direction) (l : DenyLine) : Rig κ :=
  match d with
  | .tx => { r with txDeny := l }
  | .rx => { r with rxDeny := l }

@[simp] theorem denyLine_setDenyLine_self (r : Rig κ) (d : Direction) (l : DenyLine) :
    (r.setDenyLine d l).denyLine d = l := by cases d <;> rfl

theorem denyLine_setDenyLine_of_ne (r : Rig κ) {d e : Direction} (h : e ≠ d) (l : DenyLine) :
    (r.setDenyLine d l).denyLine e = r.denyLine e := by
  cases d <;> cases e <;> first | rfl | exact absurd rfl h

/-- The rig with one more sighting. -/
def notice (r : Rig κ) (s : Sighting) : Rig κ := { r with sightings := r.sightings ++ [s] }

/-- Why an action on the rig came to no end. -/
inductive Halt where
  /-- A line could not be driven or read. -/
  | lineFault
  /-- A wait does not end. -/
  | endless
  deriving DecidableEq

/-- Something done with the rig. -/
abbrev Action (κ α : Type) := ExceptT Halt (StateM (Rig κ)) α

namespace Action

/-- Enable the edge interrupt of a deny line. -/
def arm (d : Direction) : Action κ Unit := modify fun r =>
  (r.setDenyLine d { r.denyLine d with armed := true }).notice (.armed d)

/-- Disable the edge interrupt of a deny line. -/
def disarm (d : Direction) : Action κ Unit := modify fun r =>
  (r.setDenyLine d { r.denyLine d with armed := false }).notice (.disarmed d)

/-- Clear a pending edge interrupt of a deny line. -/
def clear (d : Direction) : Action κ Unit := modify fun r =>
  (r.setDenyLine d { r.denyLine d with cleared := (r.denyLine d).cleared + 1 }).notice (.cleared d)

/-- Read the level of a deny line. -/
def sample (d : Direction) : Action κ Bool := do
  let r ← get
  let (reading, line) := (r.denyLine d).read
  set ((r.setDenyLine d line).notice (.sampled d reading))
  match reading with
  | some high => pure high
  | none => throw .lineFault

variable [Clock κ]

/-- Write a level to the request line. -/
def drive (level : Bool) : Action κ Unit := do
  let r ← get
  let landed := !r.request.failing.contains r.request.writes
  set ({ r with request.writes := r.request.writes + 1 }.notice
    (.wrote level landed (Clock.ticks r.clock).1))
  if landed then pure () else throw .lineFault

/-- Set the clock going. -/
def startClock : Action κ Unit := modify fun r =>
  { r with clock := Clock.start r.clock }.notice .clockStarted

/-- Read the tick counter. -/
def ticks : Action κ UInt32 := do
  let r ← get
  let (now, clock) := Clock.ticks r.clock
  set { r with clock }
  pure now

/-- Take a timestamp. -/
def timestamp : Action κ UInt32 := do
  let r ← get
  let (now, clock) := Clock.timestamp r.clock
  set ({ r with clock }.notice (.stamped now))
  pure now

/-- Read the microseconds that have passed since a timestamp. -/
def elapsed (since : UInt32) : Action κ UInt32 := do
  let r ← get
  let (micros, clock) := Clock.elapsed since r.clock
  set { r with clock }
  pure micros

/-- Wait until some ticks have passed since a read of the tick counter. -/
def awaitTicks (start duration : UInt32) : Action κ Unit := do
  let r ← get
  let (polled, clock) := Clock.awaitTicks start duration r.clock
  set { r with clock }
  match polled with
  | some _ => pure ()
  | none => throw .endless

/-- Wait until some microseconds have passed since a timestamp. -/
def awaitMicros (since duration : UInt32) : Action κ Unit := do
  let r ← get
  let (polled, clock) := Clock.awaitMicros since duration r.clock
  let r := { r with clock }
  match polled with
  | some p => set (r.notice (.waited since p.reads p.last))
  | none => do set r; throw .endless

/-- Wait for some microseconds. -/
def pause (duration : UInt32) : Action κ Unit := do
  let since ← timestamp
  awaitMicros since duration

/-- Hold a level on the request line for one bit. -/
def sendLevel (bitTicks : UInt32) (level : Bool) : Action κ Unit := do
  let start ← ticks
  drive level
  awaitTicks start bitTicks

/-- Send a byte as a frame. A level that cannot be driven ends the frame. -/
def sendByte (bitTicks : UInt32) (byte : UInt8) : Action κ Unit :=
  (Frame.levels byte).forM (sendLevel bitTicks)

end Action

end Rig

end SharedRadio.Coexistence
