import SharedRadio.Protocol.Table

/-!
# The priority registry

A `Registry` keeps, for every protocol, the sinks in its two slots and its place in the priority
chain. The chain is linked through the entries: `head` names its first protocol and every linked
entry names its successor. It is ordered by ascending priority value, a smaller value standing for a
higher priority, and among equal values the protocol that was linked later stands earlier.

A protocol is linked once, when its first sink is stored, with the priority given then. Both slots
share that place. `attach` stores a sink and reports whether the slot was empty, in which case the
sink is owed an `Event.init`.

The type of sinks is a parameter: the registry only stores them.
-/

namespace SharedRadio

/-- A protocol's place in the priority chain. -/
structure Link where
  /-- The priority value; a smaller value is a higher priority. -/
  priority : UInt8
  /-- The protocol that follows in the chain. -/
  next : Option Protocol
  deriving DecidableEq

/-- What the registry knows of one protocol. -/
structure Entry (σ : Type) where
  /-- Its place in the chain, if it has one. -/
  link : Option Link := none
  /-- The sink in `Slot.arbitration`. -/
  arbitration : Option σ := none
  /-- The sink in `Slot.coexistence`. -/
  coexistence : Option σ := none

/-- The sink in a slot of an entry. -/
def Entry.sink? {σ : Type} (e : Entry σ) : Slot → Option σ
  | .arbitration => e.arbitration
  | .coexistence => e.coexistence

/-- The entry with a sink put into a slot. -/
def Entry.store {σ : Type} (e : Entry σ) (slot : Slot) (sink : σ) : Entry σ :=
  match slot with
  | .arbitration => { e with arbitration := some sink }
  | .coexistence => { e with coexistence := some sink }

/-- The sinks of all protocols and the chain that orders them. -/
structure Registry (σ : Type) where
  /-- One entry for every protocol. -/
  entries : Protocol.Table (Entry σ) := .replicate {}
  /-- The first protocol of the chain. -/
  head : Option Protocol := none

namespace Registry

variable {σ : Type}

/-- The registry in which nothing is stored. -/
def empty : Registry σ := {}

/-! ## Looking things up -/

/-- The sink in a protocol's slot. -/
def sink? (r : Registry σ) (p : Protocol) (slot : Slot) : Option σ := (r.entries.get p).sink? slot

/-- The priority value of a linked protocol. -/
def priority? (r : Registry σ) (p : Protocol) : Option UInt8 :=
  (r.entries.get p).link.map Link.priority

/-- The protocol that follows a protocol in the chain. -/
def next? (r : Registry σ) (p : Protocol) : Option Protocol := (r.entries.get p).link.bind Link.next

/-- The value that a protocol competes with: its priority, or the lowest one if it has none. -/
def rank (r : Registry σ) (p : Protocol) : UInt8 := (r.priority? p).getD 255

/-- The first `n` protocols met by walking the chain from a starting point. -/
def walk (r : Registry σ) : Nat → Option Protocol → List Protocol
  | 0, _ => []
  | _ + 1, none => []
  | n + 1, some p => p :: r.walk n (r.next? p)

/-- The chain from a starting point to its end; no chain is longer than the number of protocols. -/
def chainFrom (r : Registry σ) (start : Option Protocol) : List Protocol :=
  r.walk Protocol.count start

/-- The whole chain, highest priority first. -/
def chain (r : Registry σ) : List Protocol := r.chainFrom r.head

/-- The first protocol from a starting point of the chain on that has a sink in a slot, and that
sink; the protocol to pass over, if one is given, does not count. -/
def firstSink? (r : Registry σ) (slot : Slot) (passOver : Option Protocol)
    (start : Option Protocol) : Option (Protocol × σ) :=
  (r.chainFrom start).findSome? fun p =>
    if passOver = some p then none else (r.sink? p slot).map fun sink => (p, sink)

/-! ## Storing a sink -/

/-- The neighbours of a newcomer of value `v` that is met by a walk of at most `n` steps: the last
protocol that strictly outranks it and the first that does not. -/
def place (r : Registry σ) (v : UInt8) :
    Nat → Option Protocol → Option Protocol → Option Protocol × Option Protocol
  | 0, before, after => (before, after)
  | _ + 1, before, none => (before, none)
  | n + 1, before, some q =>
    if v ≤ r.rank q then (before, some q) else r.place v n (some q) (r.next? q)

/-- Let the chain continue with `next` after `before`, or begin with it. -/
def follow (r : Registry σ) (before next : Option Protocol) : Registry σ :=
  match before with
  | none => { r with head := next }
  | some q =>
    let e := r.entries.get q
    { r with entries := r.entries.set q { e with link := e.link.map fun l => { l with next } } }

/-- Splice a protocol into the chain, behind those that strictly outrank it and in front of all
others. -/
def link (r : Registry σ) (p : Protocol) (priority : UInt8) : Registry σ :=
  let (before, after) := r.place priority Protocol.count none r.head
  let e := r.entries.get p
  -- The newcomer first knows what follows it; only then is it made reachable.
  let r := { r with entries := r.entries.set p { e with link := some ⟨priority, after⟩ } }
  r.follow before (some p)

/-- Put a sink into a protocol's slot. -/
def store (r : Registry σ) (p : Protocol) (slot : Slot) (sink : σ) : Registry σ :=
  { r with entries := r.entries.set p ((r.entries.get p).store slot sink) }

/-- Store a sink, and link its protocol if neither slot had done so. Says whether the slot was
empty; in an occupied slot the sink is only replaced and the priority plays no part. -/
def attach (r : Registry σ) (p : Protocol) (priority : UInt8) (slot : Slot) (sink : σ) :
    Bool × Registry σ :=
  let fresh := (r.sink? p slot).isNone
  let stored := r.store p slot sink
  (fresh, if fresh && (r.priority? p).isNone then stored.link p priority else stored)

end Registry

end SharedRadio
