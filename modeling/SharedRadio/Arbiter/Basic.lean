import SharedRadio.Arbiter.Record
import SharedRadio.Registry

/-!
# The arbiter and the legs of its operations

An `Arbiter` grants the transceiver to one protocol at a time. Its owner may hold it at several
levels, and each level has to be given up by itself.

While it works, an operation notifies sinks, and a sink may call the arbiter again before it
answers. An operation is therefore not a function from state to state. It is cut into legs at the
notifications. A `Leg` runs from the call, or from the answer to a notification, to the next
notification or to the end. What the operation has to remember while a notification is out is a
`Waiting`, kept by whoever delivers it; the arbiter itself keeps nothing, so that any other
operation can run in between.

`Call` lists the operations; how they begin and go on is in `SharedRadio.Arbiter.Operation`.
-/

namespace SharedRadio

/-- The state of the arbiter. -/
structure Arbiter (σ : Type) where
  /-- The sinks and the priorities of all protocols. -/
  registry : Registry σ := .empty
  /-- The protocol that owns the transceiver. -/
  owner : Option Protocol := none
  /-- How many levels of ownership the owner holds. -/
  depth : UInt32 := 0
  /-- Whether a protocol of strictly higher priority displaces the owner without force. -/
  preemption : Bool := true

namespace Arbiter

variable {σ : Type}

/-- The arbiter of an idle transceiver, with no sink registered. -/
def idle (preemption : Bool) : Arbiter σ := { preemption }

/-- The chain of protocols with their priority values, highest priority first. -/
def order (a : Arbiter σ) : List (Protocol × Option UInt8) :=
  a.registry.chain.map fun p => (p, a.registry.priority? p)

/-- A notification on its way to a sink. -/
structure Notification (σ : Type) where
  /-- The protocol that is notified. -/
  protocol : Protocol
  /-- The slot of the sink. -/
  slot : Slot
  /-- The sink. -/
  sink : σ
  /-- What it is told. -/
  event : Event

/-- An operation of the arbiter. -/
inductive Call (σ : Type) where
  /-- Put a sink into a protocol's slot. -/
  | register (slot : Slot) (p : Protocol) (priority : UInt8) (sink : σ)
  /-- Take the transceiver, or one more level of it. -/
  | acquire (p : Protocol) (force : Bool)
  /-- Give up one level of ownership. -/
  | release (p : Protocol)
  /-- End the present ownership from outside. -/
  | abort
  /-- Offer the idle transceiver to every protocol but one. -/
  | offer (excluded : Option Protocol)
  /-- Tell every coexistence sink of an event. -/
  | broadcast (event : Event)
  /-- Ask the other protocols for how long they will be inactive. -/
  | inactivity (current : Protocol)
  /-- Let priorities displace the owner, or not. -/
  | setPreemption (enabled : Bool)

/-- What an operation remembers while a notification of its own is out. -/
inductive Waiting (σ : Type) where
  /-- A new sink was told `Event.init`. -/
  | registering (p : Protocol)
  /-- The new owner was told `Event.active`; says whether somebody faulted before. -/
  | activating (p : Protocol) (faulted : Bool)
  /-- The owner was told `Event.abort`, to make room for a protocol whose sink is kept here. -/
  | displacing (p : Protocol) (sink : σ) (displaced : Protocol) (faulted : Bool)
  /-- The former owner was told `Event.release`. -/
  | releasing (p : Protocol)
  /-- The owner was told `Event.abort`, from outside. -/
  | aborting
  /-- A protocol was told `Event.idle`. -/
  | offering (excluded : Option Protocol) (told : Protocol) (faulted : Bool)
  /-- A protocol was told of an event. -/
  | broadcasting (event : Event) (told : Protocol) (faulted : Bool)
  /-- A protocol was asked for its inactivity; keeps the shortest one so far. -/
  | asking (current : Protocol) (told : Protocol) (shortest : Option UInt32)

/-- What an operation comes to. -/
inductive Result where
  /-- It went well, or it failed. -/
  | settled (result : Except Fault Unit)
  /-- The shortest inactivity in microseconds, if somebody was asked. -/
  | inactivity (shortest : Option UInt32)

/-- How a leg ends. -/
inductive Progress (σ : Type) where
  /-- The operation is over. -/
  | finished (result : Result)
  /-- The operation goes on when the notification has been answered. -/
  | notifies (notification : Notification σ) (waiting : Waiting σ)

/-- One leg of an operation. -/
structure Leg (σ : Type) where
  /-- The arbiter at the end of the leg. -/
  arbiter : Arbiter σ
  /-- What was recorded in the course of the leg. -/
  records : List Record
  /-- How the leg ends. -/
  progress : Progress σ

end Arbiter

end SharedRadio
