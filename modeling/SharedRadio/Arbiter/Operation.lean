import SharedRadio.Arbiter.Basic

/-!
# The operations of the arbiter

`Arbiter.call` runs the first leg of an operation and `Arbiter.resume` every later one. In between,
the sink that was notified answers, and other operations may have changed the arbiter; a later leg
reads the state anew.

Four rules hold throughout.

* An owner is displaced only by force, or by a strictly higher priority while preemption is enabled.
  It is told to abort first. If another protocol owns the transceiver when it has answered, that one
  is told to abort in turn, and so on until the owner is the one told last, or nobody.
* A fault that a sink answers never stops an operation. It shows in the result.
* The transceiver is offered along the priority chain, to one protocol after the other, for as long
  as nobody owns it.
* A walk along the chain reads a protocol's successor when that protocol has answered.
-/

namespace SharedRadio.Arbiter

variable {σ : Type}

/-! ## Ends of legs -/

/-- End an operation with a result. -/
def finish (a : Arbiter σ) (records : List Record) (result : Except Fault Unit) : Leg σ :=
  ⟨a, records, .finished (.settled result)⟩

/-- End a leg with a notification. -/
def notify (a : Arbiter σ) (records : List Record) (p : Protocol) (slot : Slot) (sink : σ)
    (event : Event) (waiting : Waiting σ) : Leg σ :=
  ⟨a, records, .notifies ⟨p, slot, sink, event⟩ waiting⟩

/-- The sink that is told about a protocol's ownership. -/
def sink? (a : Arbiter σ) (p : Protocol) : Option σ := a.registry.sink? p .arbitration

/-! ## Registering -/

/-- Store a sink; the first one of a slot is told so. -/
def register (a : Arbiter σ) (slot : Slot) (p : Protocol) (priority : UInt8) (sink : σ) : Leg σ :=
  let (fresh, registry) := a.registry.attach p priority slot sink
  let a := { a with registry }
  if fresh then a.notify [.registered slot p] p slot sink .init (.registering p)
  else a.finish [.replaced slot p] (.ok ())

/-- The sink has answered `Event.init`. -/
def registered (a : Arbiter σ) (p : Protocol) (answer : Answer) : Leg σ :=
  a.finish (if answer.isSuccess then [] else [.initFailed p]) answer.result

/-! ## Taking the transceiver -/

/-- Make a protocol the owner and tell it. -/
def seize (a : Arbiter σ) (records : List Record) (p : Protocol) (sink : σ) (faulted : Bool) :
    Leg σ :=
  { a with owner := some p, depth := 1 }.notify records p .arbitration sink .active
    (.activating p faulted)

/-- Give the owner one more level. -/
def deepen (a : Arbiter σ) (records : List Record) (faulted : Bool) : Leg σ :=
  { a with depth := a.depth + 1 }.finish records (verdict faulted)

/-- Tell the owner to stop, so that a protocol can take its place. -/
def displace (a : Arbiter σ) (records : List Record) (p : Protocol) (sink : σ) (owner : Protocol)
    (faulted : Bool) : Leg σ :=
  match a.sink? owner with
  | some ownerSink =>
    a.notify records owner .arbitration ownerSink .abort (.displacing p sink owner faulted)
  | none => a.seize records p sink faulted

/-- Whether a protocol may displace an owner. -/
def mayDisplace (a : Arbiter σ) (p owner : Protocol) (force : Bool) : Bool :=
  force || (a.preemption && a.registry.rank p < a.registry.rank owner)

/-- Take the transceiver. -/
def acquire (a : Arbiter σ) (p : Protocol) (force : Bool) : Leg σ :=
  match a.sink? p with
  | none => a.finish [] (.error .invalidParameter)
  | some sink =>
    match a.owner with
    | none => a.seize [.acquired p] p sink false
    | some owner =>
      if owner = p then a.deepen [] false
      else if a.mayDisplace p owner force then a.displace [.preempts p owner] p sink owner false
      else a.finish [.refused p owner] (.error .denied)

/-- An owner that was told to abort has answered. -/
def displaced (a : Arbiter σ) (p : Protocol) (sink : σ) (told : Protocol) (faulted : Bool) :
    Leg σ :=
  match a.owner with
  | none => a.seize [] p sink faulted
  | some owner =>
    if owner = p then a.deepen [.acquiredMeanwhile p] faulted
    else if owner = told then a.seize [] p sink faulted
    -- Somebody else got in while the owner was told. No permission is asked for a second time.
    else a.displace [.tookOver owner] p sink owner faulted

/-- The new owner has answered `Event.active`. Its own fault is recorded and no more. -/
def activated (a : Arbiter σ) (p : Protocol) (faulted : Bool) (answer : Answer) : Leg σ :=
  a.finish (if answer.isSuccess then [] else [.activeFaulted p answer]) (verdict faulted)

/-! ## Walking along the chain -/

/-- Offer the transceiver to the first protocol from a starting point of the chain on. -/
def offerFrom (a : Arbiter σ) (records : List Record) (excluded start : Option Protocol)
    (faulted : Bool) : Leg σ :=
  match start, a.owner with
  -- At the end of the chain nobody is left to stop for, whoever owns the transceiver.
  | none, _ => a.finish records (verdict faulted)
  | some _, some owner => a.finish (records ++ [.offerStopped owner]) (verdict faulted)
  | some _, none =>
    match a.registry.firstSink? .arbitration excluded start with
    | some (p, sink) =>
      a.notify records p .arbitration sink .idle (.offering excluded p faulted)
    | none => a.finish records (verdict faulted)

/-- Tell of an event the first protocol from a starting point of the chain on. -/
def broadcastFrom (a : Arbiter σ) (event : Event) (start : Option Protocol) (faulted : Bool) :
    Leg σ :=
  match a.registry.firstSink? .coexistence none start with
  | some (p, sink) => a.notify [] p .coexistence sink event (.broadcasting event p faulted)
  | none => a.finish [] (verdict faulted)

/-- Ask for its inactivity the first protocol from a starting point of the chain on. -/
def askFrom (a : Arbiter σ) (current : Protocol) (start : Option Protocol)
    (shortest : Option UInt32) : Leg σ :=
  match a.registry.firstSink? .arbitration (some current) start with
  | some (p, sink) => a.notify [] p .arbitration sink .inactivity (.asking current p shortest)
  | none => ⟨a, [], .finished (.inactivity shortest)⟩

/-- The shorter of two durations, the first of which may be unbounded. -/
def shorter (shortest : Option UInt32) (micros : UInt32) : UInt32 :=
  match shortest with
  | none => micros
  | some s => if micros < s then micros else s

/-! ## Giving the transceiver up -/

/-- Give up one level of ownership; with the last one the transceiver becomes idle. -/
def release (a : Arbiter σ) (p : Protocol) : Leg σ :=
  match a.sink? p with
  | none => a.finish [] (.error .invalidParameter)
  | some sink =>
    match a.owner with
    | none => a.offerFrom [] (some p) a.registry.head false
    | some owner =>
      if owner = p then
        if a.depth - 1 = 0 then
          { a with owner := none, depth := 0 }.notify [.released p] p .arbitration sink .release
            (.releasing p)
        else { a with depth := a.depth - 1 }.finish [] (.ok ())
      else a.finish [.cannotRelease p owner] (.error .denied)

/-- The former owner has answered `Event.release`; now the others are offered the transceiver. -/
def released (a : Arbiter σ) (p : Protocol) (answer : Answer) : Leg σ :=
  a.offerFrom (if answer.isSuccess then [] else [.releaseFaulted p answer]) (some p)
    a.registry.head false

/-- End every ownership. -/
def vacate (a : Arbiter σ) : Arbiter σ := { a with owner := none, depth := 0 }

/-- End the present ownership from outside. -/
def abort (a : Arbiter σ) : Leg σ :=
  match a.owner with
  | none => a.vacate.finish [] (.ok ())
  | some owner =>
    match a.sink? owner with
    | some sink => a.notify [.aborting owner] owner .arbitration sink .abort .aborting
    | none => a.vacate.finish [.aborting owner] (.ok ())

/-! ## All operations -/

/-- The first leg of an operation. -/
def call (a : Arbiter σ) : Call σ → Leg σ
  | .register slot p priority sink => a.register slot p priority sink
  | .acquire p force => a.acquire p force
  | .release p => a.release p
  | .abort => a.abort
  | .offer excluded => a.offerFrom [] excluded a.registry.head false
  | .broadcast event => a.broadcastFrom event a.registry.head false
  | .inactivity current => a.askFrom current a.registry.head none
  | .setPreemption enabled => { a with preemption := enabled }.finish [] (.ok ())

/-- The leg of an operation that begins with the answer to its notification. -/
def resume (a : Arbiter σ) (waiting : Waiting σ) (answer : Answer) : Leg σ :=
  match waiting with
  | .registering p => a.registered p answer
  | .activating p faulted => a.activated p faulted answer
  | .displacing p sink told faulted => a.displaced p sink told (faulted || !answer.isSuccess)
  | .releasing p => a.released p answer
  | .aborting => a.vacate.finish [] answer.result
  | .offering excluded told faulted =>
    a.offerFrom [] excluded (a.registry.next? told) (faulted || !answer.isSuccess)
  | .broadcasting event told faulted =>
    a.broadcastFrom event (a.registry.next? told) (faulted || !answer.isSuccess)
  | .asking current told shortest =>
    a.askFrom current (a.registry.next? told) (some (shorter shortest answer.micros))

end SharedRadio.Arbiter
