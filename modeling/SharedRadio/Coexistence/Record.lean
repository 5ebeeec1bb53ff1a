import SharedRadio.Log
import SharedRadio.Protocol
import SharedRadio.Signal.Message

/-!
# What the coexistence engine records

One constructor for every kind of record that the engine keeps, and one function, `Record.logLine`,
for their wording.
-/

namespace SharedRadio.Coexistence

/-- A record of something the engine did or met with. -/
inductive Record where
  /-- A line could not be driven or sampled. -/
  | lineFault
  /-- The engine is ready. -/
  | initialized (flags : PriorityFlags)
  /-- The deny line still denied a request when its sample window had passed. -/
  | denied (d : Direction)
  /-- A request was granted after its sample window. -/
  | granted (d : Direction)
  /-- The direction of an access was to be changed while none was held. -/
  | nothingToChange (d : Direction)
  /-- A deny line changed, and the coexistence sinks are told. -/
  | lineChanged (d : Direction) (event : Event)
  deriving DecidableEq

/-- The log line of a record. -/
def Record.logLine : Record → LogLine
  | .lineFault => ⟨.warn, "coex: gpio fault"⟩
  | .initialized flags => ⟨.debug, s!"coex: initialized, priority {flags.text}"⟩
  | .denied d => ⟨.debug, s!"coex: {d.name} access denied"⟩
  | .granted d => ⟨.trace, s!"coex: {d.name} access granted"⟩
  | .nothingToChange d => ⟨.debug, s!"coex: no access held, cannot change to {d.name}"⟩
  | .lineChanged d event =>
    ⟨.debug, s!"coex: {d.name} deny line changed, broadcasting {event.name}"⟩

end SharedRadio.Coexistence
