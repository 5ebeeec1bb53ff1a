/-!
# Messages to the external coexistence arbiter

Two kinds of message share the request line. A type 7 message carries the priority flags of both
directions below a tag in its top three bits; with no flag set it tells that all access is released.
A type 0 message carries the direction that is requested.
-/

namespace SharedRadio

/-- The direction of an access to the medium. -/
inductive Direction where
  /-- Receive. -/
  | rx
  /-- Transmit. -/
  | tx
  deriving DecidableEq, Inhabited

namespace Direction

/-- The name of a direction in log records and reports. -/
def name : Direction → String
  | .rx => "Rx"
  | .tx => "Tx"

/-- The bit of a direction's flag in a type 7 message. -/
def flagBit : Direction → UInt8
  | .rx => 0b001
  | .tx => 0b100

end Direction

/-- Which directions are reported as having high priority. -/
structure PriorityFlags where
  /-- Receive has high priority. -/
  rx : Bool := false
  /-- Transmit has high priority. -/
  tx : Bool := false
  deriving DecidableEq, Inhabited

namespace PriorityFlags

/-- No direction has high priority. -/
def none : PriorityFlags := {}

/-- Both directions have high priority. -/
def both : PriorityFlags := ⟨true, true⟩

/-- One direction alone has high priority. -/
def only : Direction → PriorityFlags
  | .rx => { rx := true }
  | .tx => { tx := true }

/-- Whether a direction has high priority. -/
def contains (f : PriorityFlags) : Direction → Bool
  | .rx => f.rx
  | .tx => f.tx

/-- The flags with a direction's flag set or cleared. -/
def set (f : PriorityFlags) (d : Direction) (high : Bool) : PriorityFlags :=
  match d with
  | .rx => { f with rx := high }
  | .tx => { f with tx := high }

/-- The flags as the low bits of a type 7 message. -/
def bits (f : PriorityFlags) : UInt8 :=
  (if f.rx then Direction.rx.flagBit else 0) ||| (if f.tx then Direction.tx.flagBit else 0)

/-- The text of the flags in log records. -/
def text (f : PriorityFlags) : String := s!"PriorityFlags({f.bits.toNat})"

@[simp] theorem contains_set_self (f : PriorityFlags) (d : Direction) (high : Bool) :
    (f.set d high).contains d = high := by cases d <;> rfl

theorem contains_set_of_ne (f : PriorityFlags) {d e : Direction} (h : e ≠ d) (high : Bool) :
    (f.set d high).contains e = f.contains e := by
  cases d <;> cases e <;> first | rfl | exact absurd rfl h

end PriorityFlags

namespace Message

/-- The tag in the top three bits of a type 7 message. -/
def type7Tag : UInt8 := 0b11100000

/-- The message that all access is released: type 7 without a flag. -/
def release : UInt8 := type7Tag

/-- The type 7 message that carries priority flags. -/
def priority (f : PriorityFlags) : UInt8 := type7Tag ||| f.bits

/-- The type 0 message that requests access in a direction. -/
def request : Direction → UInt8
  | .tx => 0b0100
  | .rx => 0b1000

theorem priority_none : priority .none = release := by decide

end Message

end SharedRadio
