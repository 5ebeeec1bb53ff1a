/-!
# The interrupt controller

The controller has one enable bit for each of its lines, in words of 32 bits. A line is enabled by
writing its bit to the set register of its word, and disabled by writing it to the clear register;
neither write touches another bit.

`masked` runs a piece of work with one line disabled. Such sections nest, for the same line or for
different ones: the line is enabled again at the end only if it was enabled when its section began.
-/

namespace SharedRadio

/-- The number of words that hold the enable bits. -/
def InterruptController.wordCount : Nat := 16

/-- The number of an interrupt line. -/
abbrev InterruptLine := Fin (32 * InterruptController.wordCount)

namespace InterruptLine

/-- The line with a number, if the controller has one. -/
def ofNat? (n : Nat) : Option InterruptLine :=
  if h : n < 32 * InterruptController.wordCount then some ⟨n, h⟩ else none

/-- The word that holds a line's enable bit. -/
def word (line : InterruptLine) : Fin InterruptController.wordCount :=
  ⟨line.val / 32, Nat.div_lt_of_lt_mul line.isLt⟩

/-- A line's enable bit in its word. -/
def bit (line : InterruptLine) : UInt32 := 1 <<< (line.val % 32).toUInt32

/-- Every line, by ascending number. -/
def all : List InterruptLine := List.finRange _

end InterruptLine

/-- The enable bits of all interrupt lines. -/
structure InterruptController where
  /-- The words that hold the bits. -/
  words : Vector UInt32 InterruptController.wordCount := .replicate _ 0

namespace InterruptController

/-- A word of enable bits. -/
def word (c : InterruptController) (i : Fin wordCount) : UInt32 := c.words[i]

/-- The controller with another word of enable bits. -/
def setWord (c : InterruptController) (i : Fin wordCount) (w : UInt32) : InterruptController :=
  { c with words := c.words.set i w }

/-- Whether a line is enabled. -/
def isEnabled (c : InterruptController) (line : InterruptLine) : Bool :=
  c.word line.word &&& line.bit != 0

/-- Enable a line. -/
def enable (c : InterruptController) (line : InterruptLine) : InterruptController :=
  c.setWord line.word (c.word line.word ||| line.bit)

/-- Disable a line. -/
def disable (c : InterruptController) (line : InterruptLine) : InterruptController :=
  c.setWord line.word (c.word line.word &&& ~~~line.bit)

/-- The lines that are enabled, by ascending number. -/
def enabledLines (c : InterruptController) : List InterruptLine :=
  InterruptLine.all.filter c.isEnabled

/-- Run a piece of work with a line disabled, and enable the line again if it was enabled before. -/
def masked {α : Type} (line : InterruptLine)
    (work : InterruptController → α × InterruptController) (c : InterruptController) :
    α × InterruptController :=
  let (a, after) := work (c.disable line)
  -- If the line was disabled when the section began, the work has the last word on it.
  (a, if c.isEnabled line then after.enable line else after)

end InterruptController

end SharedRadio
