import SharedRadio.Coexistence.Config
import SharedRadio.Coexistence.Rig
import SharedRadio.Coexistence.Statistics

/-!
# The coexistence engine

An `Engine` negotiates access to the medium with an external arbiter. It signals requests on the
request line and learns the answer from the deny line of the direction it asked for. While it holds
access, the edge interrupt of that deny line is enabled, and the handler of the interrupt turns the
level of the line into an event for the coexistence sinks.

Three rules hold throughout.

* A disabled engine grants everything and signals nothing.
* A receive request without receive priority is granted at once and signals nothing.
* Access is given up before its release is signalled, so a failing line leaves no access behind.

An operation of the engine is an `Engine.Action`, which fails with a fault or finds that a wait does
not end. Faults of the lines are logged and become `Fault.gpio`.
-/

namespace SharedRadio.Coexistence

/-- What the two deny lines say together. -/
inductive DenyState where
  /-- No line denies access. -/
  | granted
  /-- A line denies access. -/
  | denied
  deriving DecidableEq

/-- The name of a state. -/
def DenyState.name : DenyState → String
  | .granted => "Granted"
  | .denied => "Denied"

/-- The engine, with the rig it is wired to. -/
structure Engine (κ : Type) where
  /-- Timing and signalling. -/
  config : Config
  /-- Whether requests are signalled. -/
  enabled : Bool := false
  /-- The priority flags that the next request reports. -/
  flags : PriorityFlags := config.defaultPriority
  /-- The direction of the access that is held. -/
  held : Option Direction := none
  /-- The direction whose deny line is watched while access is held. -/
  monitored : Direction := .tx
  /-- What has been counted. -/
  statistics : Statistics := {}
  /-- The lines and the clock. -/
  rig : Rig κ

namespace Engine

variable {κ : Type}

/-- Why an operation of the engine did not succeed. -/
inductive Halt where
  /-- It failed. -/
  | fault (f : Fault)
  /-- One of its waits does not end. -/
  | endless
  deriving DecidableEq

/-- Something that the engine does. -/
abbrev Action (κ α : Type) := ExceptT Halt (StateM (Engine κ)) α

/-- An operation of the engine that concerns nobody else. -/
inductive Operation where
  /-- Signal requests from now on. -/
  | enable
  /-- Release any access and signal nothing from now on. -/
  | disable
  /-- Report a direction as having high priority, or not. -/
  | setPriority (d : Direction) (high : Bool)
  /-- Ask for access. -/
  | request (d : Direction)
  /-- Ask for another direction within the access that is held. -/
  | change (d : Direction)
  /-- Give access up. -/
  | release
  /-- Read both deny lines. -/
  | denyState
  /-- Count from zero again. -/
  | resetStatistics
  deriving DecidableEq

/-- A request for access that has been signalled and waits for its answer. -/
structure Standing where
  /-- The direction that is asked for. -/
  direction : Direction
  /-- When the request had been signalled. -/
  since : UInt32
  /-- How often the clock has been looked at since. -/
  reads : Nat := 0
  /-- Whether the answer is due. -/
  due : Bool := false
  deriving DecidableEq

namespace Action

/-! ## Single steps -/

/-- Add a record to the log. -/
def record (r : Record) : Action κ Unit := modify fun e =>
  { e with rig := e.rig.notice (.logged r.logLine) }

/-- Count an occurrence. -/
def count (d : Direction) (o : Occurrence) : Action κ Unit := modify fun e =>
  { e with statistics := e.statistics.bump d o }

/-- Do something with the rig; a line that fails is logged. -/
def withRig {α : Type} (action : Rig.Action κ α) : Action κ α := do
  let e ← get
  let (result, rig) := action.run e.rig
  set { e with rig }
  match result with
  | .ok a => pure a
  | .error .lineFault => do record .lineFault; throw (.fault .gpio)
  | .error .endless => throw .endless

/-- Do something that may fail, and go on with what came of it. -/
def attempt {α : Type} (action : Action κ α) : Action κ (Except Fault α) :=
  tryCatch (Except.ok <$> action) fun
    | .fault f => pure (.error f)
    | .endless => throw .endless

/-- Whether the deny line of a direction denies access. -/
def isDenied (d : Direction) : Action κ Bool := do
  let high ← withRig (.sample d)
  let e ← get
  pure (e.config.denyLevel.denies high)

/-- Enable the edge interrupt of a deny line. -/
def arm (d : Direction) : Action κ Unit := withRig (.arm d)

/-- Disable the edge interrupt of a deny line. -/
def disarm (d : Direction) : Action κ Unit := withRig (.disarm d)

/-- Clear a pending edge interrupt of a deny line. -/
def clear (d : Direction) : Action κ Unit := withRig (.clear d)

variable [Clock κ]

/-- Send a byte on the request line. -/
def send (byte : UInt8) : Action κ Unit := do
  let e ← get
  withRig (.sendByte e.config.bitTicks byte)

/-! ## Negotiating access -/

/-- Signal the priority flags and then, after a pause, the direction that is asked for. -/
def signalRequest (d : Direction) : Action κ Unit := do
  let e ← get
  send (Message.priority e.flags)
  withRig (.pause e.config.guardMicros)
  send (Message.request d)

/-- Give up any access and signal so. -/
def release : Action κ Unit := do
  let e ← get
  if e.enabled then
    disarm e.monitored
    modify ({ · with held := none })
    count e.monitored .release
    -- Last, because the line may fail.
    send Message.release

/-- Signal a request. If that fails, try to leave the line on a complete release message. -/
def signalOrRelease (d : Direction) : Action κ Unit := do
  match ← attempt (signalRequest d) with
  | .ok _ => pure ()
  | .error f =>
    let _ ← attempt release
    throw (.fault f)

/-- Watch the deny line of a direction and no other. -/
def monitor (d : Direction) : Action κ Unit := do
  let e ← get
  if e.monitored = d then pure ()
  else
    disarm e.monitored
    modify ({ · with monitored := d })

/-- Read the answer to a request off the deny line, and act on it. -/
def settle (d : Direction) : Action κ Unit := do
  if ← isDenied d then
    record (.denied d)
    count d .timeout
    release
    throw (.fault .denied)
  else
    record (.granted d)
    arm d
    modify ({ · with held := some d })
    count d .grant

/-- Turn to the deny line of a direction and signal a request. -/
def solicit (d : Direction) : Action κ Unit := do
  count d .request
  monitor d
  signalOrRelease d

/-- Begin to ask for access in a direction. Unless access is granted at once, the request stands
then. -/
def ask (d : Direction) : Action κ (Option Standing) := do
  let e ← get
  if d = .rx ∧ e.flags.rx = false then do count d .immediateGrant; pure none
  else if e.enabled then
    solicit d
    let since ← withRig .timestamp
    pure (some { direction := d, since })
  else pure none

/-- Wait until the answer to a request is due. -/
def linger (since : UInt32) : Action κ Unit := do
  let e ← get
  withRig (.awaitMicros since e.config.sampleMicros)

/-- Ask for access in a direction, and let nothing else happen before the answer. -/
def request (d : Direction) : Action κ Unit := do
  match ← ask d with
  | none => pure ()
  | some standing =>
    linger standing.since
    settle d

/-- Look at the clock once, to see whether the answer to a request is due. -/
def look (s : Standing) : Action κ Standing := do
  let e ← get
  let micros ← withRig (.elapsed s.since)
  let s := { s with reads := s.reads + 1 }
  if e.config.sampleMicros ≤ micros then
    modify fun e => { e with rig := e.rig.notice (.waited s.since s.reads micros) }
    pure { s with due := true }
  else pure s

/-- Go on with a request that stands: follow its answer if that is due, or else look at the clock.
Anything may have happened since it was signalled. -/
def advance (s : Standing) : Action κ (Option Standing) :=
  if s.due then do settle s.direction; pure none
  else some <$> look s

/-- Ask for another direction within the access that is held. Nothing is read back. -/
def change (d : Direction) : Action κ Unit := do
  let e ← get
  if e.enabled then
    if e.held = none then
      record (.nothingToChange d)
      throw (.fault .denied)
    else
      -- The new direction counts as held even if the line fails below.
      modify ({ · with held := some d })
      signalRequest d

/-- Release any access, signal nothing from now on, and only then report a failure. -/
def disable : Action κ Unit := do
  let released ← attempt release
  modify ({ · with enabled := false })
  match released with
  | .ok _ => pure ()
  | .error f => throw (.fault f)

/-- Read both deny lines. -/
def denyState : Action κ DenyState := do
  let tx ← isDenied .tx
  let rx ← isDenied .rx
  pure (if tx || rx then .denied else .granted)

/-- Handle the edge interrupt of a deny line: the event to tell the coexistence sinks, if any. -/
def interrupt (d : Direction) : Action κ (Option Event) := do
  clear d
  let e ← get
  if e.enabled then
    let event ← if ← isDenied d then do count d .abort; pure Event.abort else pure Event.idle
    record (.lineChanged d event)
    pure (some event)
  else pure none

/-- Run an operation; the state of the deny lines is what one of them is asked for. -/
def perform : Operation → Action κ (Option DenyState)
  | .enable => do modify ({ · with enabled := true }); pure none
  | .disable => do disable; pure none
  | .setPriority d high => do modify (fun e => { e with flags := e.flags.set d high }); pure none
  | .request d => do request d; pure none
  | .change d => do change d; pure none
  | .release => do release; pure none
  | .denyState => some <$> denyState
  | .resetStatistics => do modify ({ · with statistics := {} }); pure none

/-- Make an engine ready: drive the request line to its idle level, set the clock going, signal a
release, and leave both deny lines unwatched. -/
def prepare : Action κ Unit := do
  let e ← get
  match e.config.validate with
  | .error f => throw (.fault f)
  | .ok _ =>
    withRig (.drive true)
    modify ({ · with enabled := true })
    withRig .startClock
    release
    disarm .tx
    clear .tx
    disarm .rx
    clear .rx
    record (.initialized e.flags)

end Action

/-- Run an action, and collect what was noticed of the rig in its course. -/
def act {α : Type} (e : Engine κ) (action : Action κ α) :
    Except Halt α × List Sighting × Engine κ :=
  let (result, after) := action.run { e with rig.sightings := [] }
  (result, after.rig.sightings, { after with rig.sightings := [] })

end Engine

end SharedRadio.Coexistence
