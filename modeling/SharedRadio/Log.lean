/-!
# Log lines

What the library has to say for itself while it works: a level and a text. The records that the
arbiter and the coexistence engine keep are types of their own; each has one function that puts it
into a `LogLine`.
-/

namespace SharedRadio

/-- How much attention a log line asks for. -/
inductive LogLevel where
  | trace
  | debug
  | warn
  deriving DecidableEq

/-- The label of a level. -/
def LogLevel.label : LogLevel → String
  | .trace => "TRACE"
  | .debug => "DEBUG"
  | .warn => "WARN"

/-- A level and a text. -/
structure LogLine where
  /-- How much attention the line asks for. -/
  level : LogLevel
  /-- What it says. -/
  text : String
  deriving DecidableEq

end SharedRadio
