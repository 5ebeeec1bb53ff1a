import SharedRadio.Scenario.Result
import SharedRadio.Scenario.Script

/-!
# Performing the steps of a scenario

A `World` is a station, the scripts of all sinks that were ever registered in it, and what has
happened. A sink is known to the station by its number among the scripts, so that two sinks never
share their replies, and a sink that was replaced keeps its own.

The performance of a step is a run of a machine whose states are `Stage`s. A stage says what comes
next, and above that it keeps a stack of `Frame`s: the replies and repetitions that are under way,
innermost first. `Stage.advance` is one transition. It is never undecided, and `Stage.run` follows
it for a given number of transitions.
-/

namespace SharedRadio.Scenario

open Coexistence

/-- Something that is seen of a scenario. -/
inductive Happening where
  /-- Something was noticed of the station. -/
  | seen (sighting : Sighting)
  /-- A sink was notified. -/
  | notified (tag : String) (event : Event)
  /-- A sink began a step. -/
  | began (step : Step)
  /-- A sink was done with a step. -/
  | ended (step : Step) (result : Result)
  /-- A sink answered at the end of a reply. -/
  | answered (tag : String) (answer : Answer)

/-- A station and the sinks it is played with. -/
structure World where
  /-- The station. -/
  station : Station Nat DualClock
  /-- The scripts of all sinks, as far as they are not used up. -/
  sinks : Array (Script Step) := #[]
  /-- What has happened, newest first. -/
  happened : List Happening := []

/-- What comes next. -/
inductive Control where
  /-- A step is performed. -/
  | perform (step : Step)
  /-- A notification is delivered. -/
  | deliver (notification : Arbiter.Notification Nat) (waiting : Arbiter.Waiting Nat)
  /-- A step is over. -/
  | settled (result : Result)

/-- Something that is under way. -/
inductive Frame where
  /-- A sink is taking a step of a reply, has more of them to take, and will close the reply. -/
  | reply (tag : String) (waiting : Arbiter.Waiting Nat) (step : Step) (rest : List Step)
      (closing : Closing)
  /-- Some steps are repeated: so many times more, after the rest of this time. -/
  | repetition (left : Nat) (body rest : List Step) (runs : List (Result × Nat))

/-- A state of a performance. -/
structure Stage where
  /-- The station and the sinks. -/
  world : World
  /-- What comes next. -/
  control : Control
  /-- What is under way, innermost first. -/
  frames : List Frame := []

namespace World

/-- The world with one more happening. -/
def record (w : World) (h : Happening) : World := { w with happened := h :: w.happened }

/-- The world after a reaction of its station. -/
def absorb (w : World) (r : Station.Reaction Nat DualClock) : World :=
  { w with
    station := r.station
    happened := r.sightings.foldl (fun happened s => .seen s :: happened) w.happened }

/-- The world with one more sink, and its number. -/
def enlist (w : World) (script : Script Step) : Nat × World :=
  (w.sinks.size, { w with sinks := w.sinks.push script })

/-- The script of a sink. -/
def script (w : World) (sink : Nat) : Script Step := w.sinks.getD sink default

end World

namespace Stage

/-- Go on with a reaction of the station. -/
def react (w : World) (frames : List Frame) (r : Station.Reaction Nat DualClock) : Stage where
  world := w.absorb r
  control :=
    match r.progress with
    | .finished outcome => .settled (.single outcome)
    | .notifies notification waiting => .deliver notification waiting
  frames

/-- Begin an operation of the station. -/
def call (w : World) (frames : List Frame) (c : Station.Call Nat DualClock) : Stage :=
  react w frames (w.station.call c)

/-- Begin a step. -/
def perform (w : World) (frames : List Frame) : Step → Stage
  | .register slot p priority script =>
    let (sink, w) := w.enlist script
    call w frames (.arbiter (.register slot p priority sink))
  | .registerThroughEngine p priority script =>
    let (sink, w) := w.enlist script
    call w frames (.throughEngine (.register .coexistence p priority sink))
  | .arbiter c => call w frames (.arbiter (c.map Empty.elim))
  | .ask query => ⟨w, .settled (.single (query.outcome w.station)), frames⟩
  | .install config rig => call w frames (.install config rig)
  | .engine operation => call w frames (.engine operation)
  | .interrupt line => call w frames (.interrupt line)
  | .adjust adjustment => call w frames (.disturb fun rig => adjustment.apply rig)
  | .repeated times body =>
    match times, body with
    | left + 1, first :: rest => ⟨w, .perform first, .repetition left body rest [] :: frames⟩
    | _, _ => ⟨w, .settled (.runs []), frames⟩

/-- Begin a step of a reply. -/
def beginStep (w : World) (frames : List Frame) (tag : String) (waiting : Arbiter.Waiting Nat)
    (step : Step) (rest : List Step) (closing : Closing) : Stage :=
  ⟨w.record (.began step), .perform step, .reply tag waiting step rest closing :: frames⟩

/-- Close a reply, whose last step failed or not, and go on with the operation that waits for it. -/
def close (w : World) (frames : List Frame) (tag : String) (waiting : Arbiter.Waiting Nat)
    (closing : Closing) (failed : Bool) : Stage :=
  let answer := match closing with
    | .word answer => answer
    | .asLastStep => Answer.ofBool !failed
  react (w.record (.answered tag answer)) frames (w.station.resume waiting answer)

/-- Deliver a notification to its sink. -/
def deliver (w : World) (frames : List Frame) (n : Arbiter.Notification Nat)
    (waiting : Arbiter.Waiting Nat) : Stage :=
  let script := w.script n.sink
  let w := w.record (.notified script.tag n.event)
  match script.take? n.event with
  | none => react w frames (w.station.resume waiting (script.answer n.event))
  | some (reply, left) =>
    -- The reply is used up before its steps are taken, for they may notify this sink again.
    let w := { w with sinks := w.sinks.setIfInBounds n.sink left }
    match reply.steps with
    | [] => close w frames script.tag waiting reply.closing false
    | step :: rest => beginStep w frames script.tag waiting step rest reply.closing

/-- Hand the result of a step to what is under way. -/
def settle (w : World) (result : Result) : List Frame → Stage
  | [] => ⟨w, .settled result, []⟩
  | .reply tag waiting step rest closing :: frames =>
    let w := w.record (.ended step result)
    match rest with
    | [] => close w frames tag waiting closing result.isFailure
    | next :: rest => beginStep w frames tag waiting next rest closing
  | .repetition left body rest runs :: frames =>
    let runs := result.push runs
    match rest, left, body with
    | next :: rest, _, _ => ⟨w, .perform next, .repetition left body rest runs :: frames⟩
    | [], left + 1, first :: rest =>
      ⟨w, .perform first, .repetition left body rest runs :: frames⟩
    | [], _, _ => ⟨w, .settled (.runs runs.reverse), frames⟩

/-- One transition. -/
def advance (s : Stage) : Stage :=
  match s.control with
  | .perform step => perform s.world s.frames step
  | .deliver notification waiting => deliver s.world s.frames notification waiting
  | .settled result => settle s.world result s.frames

/-- The result of a performance that is over. -/
def result? (s : Stage) : Option Result :=
  match s.control, s.frames with
  | .settled result, [] => some result
  | _, _ => none

/-- Follow the transitions to the end of the performance, if that takes at most `n` of them. -/
def run : Nat → Stage → Option (Result × World)
  | 0, s => s.result?.map fun result => (result, s.world)
  | n + 1, s =>
    match s.result? with
    | some result => some (result, s.world)
    | none => run n s.advance

end Stage

end SharedRadio.Scenario
