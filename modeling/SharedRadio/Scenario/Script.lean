import SharedRadio.Clock.Dual
import SharedRadio.Station

/-!
# Scripts for sinks

A scenario is a list of steps. Most steps are operations of a station; one repeats other steps. A
step that registers a sink brings the `Script` by which the sink answers. For each event a script
holds replies, of which every notification uses up the first one that is left. A `Reply` has steps
of its own, which are taken before the sink answers, and that is how a sink calls back into the
station that notifies it. A sink without a reply left answers a word that depends on the event
alone.

Scripts are finite, so there is a bound on all that a step can lead to. `Step.weight` is one. It
counts what the performance of a step consists of, as `SharedRadio.Scenario.Stage` cuts it up: an
operation begins, notifies its sinks and ends, and every reply adds what its steps add and the one
further notification that it can give rise to.
-/

namespace SharedRadio.Arbiter

/-- The same operation with other sinks. -/
def Call.map {σ τ : Type} (f : σ → τ) : Call σ → Call τ
  | .register slot p priority sink => .register slot p priority (f sink)
  | .acquire p force => .acquire p force
  | .release p => .release p
  | .abort => .abort
  | .offer excluded => .offer excluded
  | .broadcast event => .broadcast event
  | .inactivity current => .inactivity current
  | .setPreemption enabled => .setPreemption enabled

end SharedRadio.Arbiter

namespace SharedRadio.Scenario

open Coexistence

/-- How a sink closes a reply. -/
inductive Closing where
  /-- With a word. -/
  | word (answer : Answer)
  /-- With success, unless the last of its steps failed. -/
  | asLastStep
  deriving Inhabited

/-- What a sink does when it is notified, written in steps of some type. -/
structure Reply (ς : Type) where
  /-- The event that the reply is for. -/
  event : Event
  /-- What the sink does before it answers. -/
  steps : List ς
  /-- How it answers. -/
  closing : Closing
  deriving Inhabited

/-- How a sink answers its notifications. -/
structure Script (ς : Type) where
  /-- The name of the sink in reports. -/
  tag : String
  /-- What it answers when it has no reply left for an event. -/
  answer : Event → Answer
  /-- The replies that it has left; those for one event are used up in order. -/
  replies : List (Reply ς)
  deriving Inhabited

namespace Script

variable {ς : Type}

/-- The first reply left for an event, and the script without it. -/
def take? (s : Script ς) (event : Event) : Option (Reply ς × Script ς) :=
  (s.replies.find? (·.event = event)).map fun reply =>
    (reply, { s with replies := s.replies.eraseP (·.event = event) })

end Script

/-- A question about a station. -/
inductive Query where
  /-- Who owns the transceiver? -/
  | owner
  /-- Who owns the transceiver, asked of the engine? -/
  | ownerThroughEngine
  /-- At how many levels is it owned? -/
  | depth
  /-- What is a protocol's priority value? -/
  | priority (p : Protocol)

/-- Something that happens to the lines or to the clock of an engine. -/
inductive Adjustment where
  /-- A deny line takes a level. -/
  | level (line : Direction) (high : Bool)
  /-- The next reads of a deny line return these; `none` is a failure. -/
  | readings (line : Direction) (readings : List (Option Bool))
  /-- The writes of the request line that come after so many others fail. -/
  | failWrites (offsets : List Nat)
  /-- The counters of the clock take values. -/
  | clock (ticks micros : Option UInt32)

/-- A step of a scenario. -/
inductive Step where
  /-- Register a sink. -/
  | register (slot : Slot) (p : Protocol) (priority : UInt8) (sink : Script Step)
  /-- Register a coexistence sink, asked of the engine. -/
  | registerThroughEngine (p : Protocol) (priority : UInt8) (sink : Script Step)
  /-- An operation of the arbiter that brings no sink. -/
  | arbiter (call : Arbiter.Call Empty)
  /-- A question. -/
  | ask (query : Query)
  /-- Make a new engine ready. -/
  | install (config : Config) (rig : Rig DualClock)
  /-- An operation of the engine. -/
  | engine (operation : Engine.Operation)
  /-- The edge interrupt of a deny line. -/
  | interrupt (line : Direction)
  /-- Something happens to the lines or to the clock. -/
  | adjust (adjustment : Adjustment)
  /-- Some steps, several times over. -/
  | repeated (times : Nat) (body : List Step)

instance : Inhabited Step := ⟨.ask .owner⟩

/-- The rig after an adjustment. -/
def Adjustment.apply (rig : Rig DualClock) : Adjustment → Rig DualClock
  | .level line high => rig.setDenyLine line { rig.denyLine line with high }
  | .readings line more =>
    let l := rig.denyLine line
    rig.setDenyLine line { l with queued := l.queued ++ more }
  | .failWrites offsets =>
    let failing := offsets.map (rig.request.writes + ·)
    { rig with request.failing := rig.request.failing ++ failing }
  | .clock ticks micros =>
    let c := ticks.elim rig.clock rig.clock.setTicks
    { rig with clock := micros.elim c c.setMicros }

/-- The answer to a question. -/
def Query.outcome (station : Station Nat DualClock) : Query → Outcome
  | .owner => .ofProtocol? station.arbiter.owner
  | .ownerThroughEngine =>
    match station.engine with
    | none => .noEngine
    | some _ => .ofProtocol? station.arbiter.owner
  | .depth => .number station.arbiter.depth
  | .priority p => .ofNumber? ((station.arbiter.registry.priority? p).map UInt8.toUInt32)

/-! ## The weight of a step -/

/-- The weight of an operation: a call, at most one notification before and one after those of a
walk along the chain, and the result. -/
def callWeight : Nat := Protocol.count + 4

mutual

/-- A bound on what the performance of a step consists of. -/
def Step.weight : Step → Nat
  | .register _ _ _ sink => callWeight + sink.weight
  | .registerThroughEngine _ _ sink => callWeight + sink.weight
  | .repeated times body => 2 + times * totalWeight body
  | .arbiter _ | .ask _ | .install _ _ | .engine _ | .interrupt _ | .adjust _ => callWeight

/-- The weight of all that a sink does in the course of its script. -/
def Script.weight : Script Step → Nat
  | ⟨_, _, replies⟩ => repliesWeight replies

/-- The weight of some replies. -/
def repliesWeight : List (Reply Step) → Nat
  | [] => 0
  | r :: rest => r.weight + repliesWeight rest

/-- The weight of a reply. -/
def Reply.weight : Reply Step → Nat
  | ⟨_, steps, _⟩ => 2 + totalWeight steps

/-- The weight of some steps. -/
def totalWeight : List Step → Nat
  | [] => 0
  | s :: rest => s.weight + totalWeight rest

end

end SharedRadio.Scenario
