import SharedRadio.Answer
import SharedRadio.Log
import SharedRadio.Protocol

/-!
# What the arbiter records

One constructor for every kind of record that the arbiter keeps of its decisions, and one function,
`Record.logLine`, for their wording.
-/

namespace SharedRadio.Arbiter

/-- A record of something the arbiter did or refused to do. -/
inductive Record where
  /-- A sink took the place of another one. -/
  | replaced (slot : Slot) (p : Protocol)
  /-- A sink was put into an empty slot. -/
  | registered (slot : Slot) (p : Protocol)
  /-- A new sink answered its first notification with a fault. -/
  | initFailed (p : Protocol)
  /-- A protocol took the idle transceiver. -/
  | acquired (p : Protocol)
  /-- The sink of a new owner answered with a fault. -/
  | activeFaulted (p : Protocol) (answer : Answer)
  /-- A protocol was refused the transceiver because of its owner. -/
  | refused (p owner : Protocol)
  /-- A protocol began to displace the owner. -/
  | preempts (p owner : Protocol)
  /-- A protocol that displaces others found that it had become the owner meanwhile. -/
  | acquiredMeanwhile (p : Protocol)
  /-- Another protocol became the owner while the former one was being displaced. -/
  | tookOver (p : Protocol)
  /-- The owner gave up its last level of ownership. -/
  | released (p : Protocol)
  /-- The sink of the former owner answered with a fault. -/
  | releaseFaulted (p : Protocol) (answer : Answer)
  /-- A protocol tried to give up what another one owns. -/
  | cannotRelease (p owner : Protocol)
  /-- The owner is told to stop, from outside. -/
  | aborting (p : Protocol)
  /-- The transceiver was no longer idle, so that it was offered to nobody else. -/
  | offerStopped (owner : Protocol)
  deriving DecidableEq

/-- The log line of a record. -/
def Record.logLine : Record → LogLine
  | .replaced slot p => ⟨.trace, s!"xcvr: replaced {slot.name} sink of {p.name}"⟩
  | .registered slot p => ⟨.debug, s!"xcvr: registered {slot.name} sink of {p.name}"⟩
  | .initFailed p => ⟨.warn, s!"xcvr: {p.name} failed init"⟩
  | .acquired p => ⟨.trace, s!"xcvr: {p.name} acquired"⟩
  | .activeFaulted p a => ⟨.warn, s!"xcvr: {p.name} active sink returned {a.text}"⟩
  | .refused p owner => ⟨.debug, s!"xcvr: {p.name} denied, owned by {owner.name}"⟩
  | .preempts p owner => ⟨.debug, s!"xcvr: {p.name} preempts {owner.name}"⟩
  | .acquiredMeanwhile p => ⟨.trace, s!"xcvr: {p.name} acquired during preemption"⟩
  | .tookOver p => ⟨.debug, s!"xcvr: {p.name} took over during preemption, aborting"⟩
  | .released p => ⟨.trace, s!"xcvr: {p.name} released"⟩
  | .releaseFaulted p a => ⟨.warn, s!"xcvr: {p.name} release sink returned {a.text}"⟩
  | .cannotRelease p owner => ⟨.debug, s!"xcvr: {p.name} cannot release, owned by {owner.name}"⟩
  | .aborting p => ⟨.debug, s!"xcvr: aborting {p.name}"⟩
  | .offerStopped owner => ⟨.trace, s!"xcvr: idle fan-out stopped, {owner.name} took over"⟩

end SharedRadio.Arbiter
