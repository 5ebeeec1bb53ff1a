/-!
# Frames on the request line

A byte travels as ten levels of one bit period each: a low start bit, the eight data bits from the
least significant one on, and a high stop bit. The idle line is high, so the start bit shows where a
frame begins. A level is a `Bool`, `true` for high.
-/

namespace SharedRadio.Frame

/-- The data bits of a byte, the least significant one first. -/
def dataBits (byte : UInt8) : List Bool := (List.range 8).map byte.toNat.testBit

/-- The levels of the frame that carries a byte. -/
def levels (byte : UInt8) : List Bool := false :: dataBits byte ++ [true]

/-- The number of bit periods in a frame. -/
def units : Nat := 10

@[simp] theorem length_dataBits (byte : UInt8) : (dataBits byte).length = 8 := by simp [dataBits]

@[simp] theorem length_levels (byte : UInt8) : (levels byte).length = units := by
  simp [levels, units]

end SharedRadio.Frame
