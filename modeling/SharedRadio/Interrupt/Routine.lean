import SharedRadio.Interrupt.Controller

/-!
# Routines that mask interrupts

A `Routine` switches interrupt lines and takes sections in which a line is masked, nested in any
way. Running one gives the controller afterwards and a `Note` of every moment at which something
happened, with the lines that were enabled then.
-/

namespace SharedRadio

/-- A piece of work that switches and masks interrupt lines. -/
inductive Routine where
  /-- Enable a line. -/
  | enable (line : InterruptLine)
  /-- Disable a line. -/
  | disable (line : InterruptLine)
  /-- Run some routines with a line masked. -/
  | lock (line : InterruptLine) (body : List Routine)

namespace Routine

/-- Something that happened in a routine, with the lines enabled at that moment. -/
inductive Note where
  /-- A line was enabled. -/
  | enabled (line : InterruptLine) (on : List InterruptLine)
  /-- A line was disabled. -/
  | disabled (line : InterruptLine) (on : List InterruptLine)
  /-- A masked section began. -/
  | locked (line : InterruptLine) (on : List InterruptLine)
  /-- A masked section had ended. -/
  | unlocked (line : InterruptLine) (on : List InterruptLine)
  /-- A masked section handed on the value that its body returned, the number of its routines. -/
  | returned (value : Nat)
  deriving DecidableEq

mutual

/-- Run a routine. -/
def run : Routine → InterruptController → List Note × InterruptController
  | .enable line, c => ([.enabled line (c.enable line).enabledLines], c.enable line)
  | .disable line, c => ([.disabled line (c.disable line).enabledLines], c.disable line)
  | .lock line body, c =>
    let (notes, after) := c.masked line fun c =>
      let (notes, after) := runAll body c
      (.locked line c.enabledLines :: notes, after)
    (notes ++ [.unlocked line after.enabledLines, .returned body.length], after)

/-- Run some routines, one after the other. -/
def runAll : List Routine → InterruptController → List Note × InterruptController
  | [], c => ([], c)
  | r :: rest, c =>
    let (notes, c) := run r c
    let (more, c) := runAll rest c
    (notes ++ more, c)

end

end Routine

end SharedRadio
