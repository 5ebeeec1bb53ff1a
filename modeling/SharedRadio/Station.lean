import SharedRadio.Arbiter.Operation
import SharedRadio.Coexistence.Engine

/-!
# An arbiter and a coexistence engine at work together

A `Station` is an arbiter and, if one has been made ready, a coexistence engine. The engine finds
its sinks in the registry of the arbiter, so the two meet in one place: when a deny line changes,
the engine works out the event and the arbiter broadcasts it.

The operations of a station are cut into legs as those of the arbiter are. A `Reaction` is a leg,
with what was noticed in its course.

An operation of the engine is a single leg. A request for access gives up its hold of the engine
between the moment at which it has been signalled and its answer, whenever it looks at the clock.
`operate` runs it as if nobody used that. Where somebody does, the request is cut at every look, and
a `Headway` is one of its legs.
-/

namespace SharedRadio

open Coexistence

/-- What an operation of a station comes to. -/
inductive Outcome where
  /-- It went well. -/
  | done
  /-- It failed. -/
  | failed (f : Fault)
  /-- There is no engine to do it. -/
  | noEngine
  /-- One of its waits does not end. -/
  | endless
  /-- There is no answer to the question asked. -/
  | nothing
  /-- The answer is a number. -/
  | number (n : UInt32)
  /-- The answer is a protocol. -/
  | protocol (p : Protocol)
  /-- The answer is the state of the deny lines. -/
  | denyState (s : DenyState)
  deriving DecidableEq

namespace Outcome

/-- The outcome of something that can fail. -/
def ofExcept : Except Fault Unit → Outcome
  | .ok _ => done
  | .error f => failed f

/-- The outcome of a question about a protocol. -/
def ofProtocol? : Option Protocol → Outcome
  | none => nothing
  | some p => protocol p

/-- The outcome of a question about a number. -/
def ofNumber? : Option UInt32 → Outcome
  | none => nothing
  | some n => number n

/-- The outcome of an operation of the arbiter. -/
def ofResult : Arbiter.Result → Outcome
  | .settled result => ofExcept result
  | .inactivity shortest => ofNumber? shortest

/-- The outcome of an operation of the engine that was to succeed. -/
def ofHalt : Engine.Halt → Outcome
  | .fault f => failed f
  | .endless => endless

/-- Whether an operation came to no good end. -/
def isFailure : Outcome → Bool
  | failed _ | noEngine | endless => true
  | _ => false

end Outcome

/-- An arbiter, with a coexistence engine if there is one. -/
structure Station (σ κ : Type) where
  /-- The arbiter. -/
  arbiter : Arbiter σ
  /-- The engine. -/
  engine : Option (Engine κ) := none

namespace Station

variable {σ κ : Type}

/-- An operation of a station. -/
inductive Call (σ κ : Type) where
  /-- An operation of the arbiter. -/
  | arbiter (call : Arbiter.Call σ)
  /-- An operation of the arbiter that is asked of the engine. -/
  | throughEngine (call : Arbiter.Call σ)
  /-- Replace the engine by a new one, wired to a rig. -/
  | install (config : Config) (rig : Rig κ)
  /-- An operation of the engine. -/
  | engine (operation : Engine.Operation)
  /-- The edge interrupt of a deny line. -/
  | interrupt (line : Direction)
  /-- Something happens to the rig from outside. -/
  | disturb (change : Rig κ → Rig κ)

/-- How a reaction ends. -/
inductive Progress (σ : Type) where
  /-- The operation is over. -/
  | finished (outcome : Outcome)
  /-- The operation goes on when the notification has been answered. -/
  | notifies (notification : Arbiter.Notification σ) (waiting : Arbiter.Waiting σ)

/-- One leg of an operation of a station. -/
structure Reaction (σ κ : Type) where
  /-- The station at the end of the leg. -/
  station : Station σ κ
  /-- What was noticed in the course of the leg, in order. -/
  sightings : List Sighting
  /-- How the leg ends. -/
  progress : Progress σ

/-- One leg of a request for access, if other operations may come between its legs. -/
structure Headway (σ κ : Type) where
  /-- The station at the end of the leg. -/
  station : Station σ κ
  /-- What was noticed in the course of the leg, in order. -/
  sightings : List Sighting
  /-- What the request has come to, or how it stands. -/
  progress : Outcome ⊕ Engine.Standing

/-- What a request has come to, or how it stands, by what came of a leg of it. -/
def Headway.progressOf : Except Engine.Halt (Option Engine.Standing) → Outcome ⊕ Engine.Standing
  | .ok none => .inl .done
  | .ok (some standing) => .inr standing
  | .error halt => .inl (.ofHalt halt)

/-- End an operation with an outcome. -/
def finish (s : Station σ κ) (sightings : List Sighting) (outcome : Outcome) : Reaction σ κ :=
  ⟨s, sightings, .finished outcome⟩

/-- The reaction that a leg of the arbiter is. -/
def ofLeg (s : Station σ κ) (sightings : List Sighting) (leg : Arbiter.Leg σ) : Reaction σ κ where
  station := { s with arbiter := leg.arbiter }
  sightings := sightings ++ leg.records.map fun r => .logged r.logLine
  progress :=
    match leg.progress with
    | .finished result => .finished (.ofResult result)
    | .notifies notification waiting => .notifies notification waiting

/-- Do something with the engine, if there is one. -/
def withEngine (s : Station σ κ) (f : Engine κ → Reaction σ κ) : Reaction σ κ :=
  match s.engine with
  | none => s.finish [] .noEngine
  | some e => f e

variable [Clock κ]

/-- Replace the engine by a new one; if that cannot be made ready there is none. -/
def install (s : Station σ κ) (config : Config) (rig : Rig κ) : Reaction σ κ :=
  let (result, sightings, e) := Engine.act { config, rig } Engine.Action.prepare
  match result with
  | .ok _ => { s with engine := some e }.finish sightings .done
  | .error halt => { s with engine := none }.finish sightings (.ofHalt halt)

/-- Run an operation of the engine. -/
def operate (s : Station σ κ) (operation : Engine.Operation) : Reaction σ κ :=
  s.withEngine fun e =>
    let (result, sightings, e) := e.act (.perform operation)
    { s with engine := some e }.finish sightings <|
      match result with
      | .ok none => .done
      | .ok (some state) => .denyState state
      | .error halt => .ofHalt halt

/-- Run one leg of a request for access. -/
def negotiate (s : Station σ κ) (leg : Engine.Action κ (Option Engine.Standing)) : Headway σ κ :=
  match s.engine with
  | none => ⟨s, [], .inl .noEngine⟩
  | some e =>
    let (result, sightings, e) := e.act leg
    ⟨{ s with engine := some e }, sightings, Headway.progressOf result⟩

/-- Handle the edge interrupt of a deny line: if it brings an event, the arbiter broadcasts it. -/
def interrupt (s : Station σ κ) (line : Direction) : Reaction σ κ :=
  s.withEngine fun e =>
    let (result, sightings, e) := e.act (.interrupt line)
    let s := { s with engine := some e }
    match result with
    | .ok none => s.finish sightings .done
    | .ok (some event) => s.ofLeg sightings (s.arbiter.call (.broadcast event))
    | .error halt => s.finish sightings (.ofHalt halt)

/-- The first leg of an operation. -/
def call (s : Station σ κ) : Call σ κ → Reaction σ κ
  | .arbiter call => s.ofLeg [] (s.arbiter.call call)
  | .throughEngine call => s.withEngine fun _ => s.ofLeg [] (s.arbiter.call call)
  | .install config rig => s.install config rig
  | .engine operation => s.operate operation
  | .interrupt line => s.interrupt line
  | .disturb change => s.withEngine fun e =>
    { s with engine := some { e with rig := change e.rig } }.finish [] .done

/-- The leg of an operation that begins with the answer to its notification. -/
def resume (s : Station σ κ) (waiting : Arbiter.Waiting σ) (answer : Answer) : Reaction σ κ :=
  s.ofLeg [] (s.arbiter.resume waiting answer)

end Station

end SharedRadio
