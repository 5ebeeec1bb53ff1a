/-!
# Faults and the words that sinks answer

A sink answers every notification with one word of 32 bits. Asked for its inactivity it answers a
number of microseconds; otherwise the word is a success flag, zero for success. `Answer.result` is
the reading as a flag and `Answer.micros` the reading as a duration.

`Fault` lists why an operation can fail. `Fault.message` holds the wording, in one place.
-/

namespace SharedRadio

/-- Why an operation of the arbiter or of the coexistence engine failed. -/
inductive Fault where
  /-- The transceiver, or access to the medium, was not granted. -/
  | denied
  /-- A protocol without the sink the operation needs, or a configuration that cannot work. -/
  | invalidParameter
  /-- A sink answered a notification with a fault; the transition took place all the same. -/
  | callback
  /-- A line could not be driven or sampled. -/
  | gpio
  deriving DecidableEq, Inhabited

namespace Fault

/-- The wording of a fault. -/
def message : Fault → String
  | .denied => "access denied"
  | .invalidParameter => "invalid parameter"
  | .callback => "notification sink reported a fault"
  | .gpio => "gpio failure"

/-- A fault's position in the order of faults. -/
def index : Fault → Nat
  | .denied => 0
  | .invalidParameter => 1
  | .callback => 2
  | .gpio => 3

/-- Faults are ordered by their index. -/
instance : Ord Fault := ⟨compareOn index⟩

end Fault

/-- The word with which a sink answers a notification. -/
structure Answer where
  /-- The word itself. -/
  word : UInt32
  deriving DecidableEq, Inhabited

namespace Answer

/-- The answer that reports success. -/
def success : Answer := ⟨0⟩

/-- The answer that reports a fault of no particular kind. -/
def fault : Answer := ⟨1⟩

/-- Only zero reads as success. -/
def isSuccess (a : Answer) : Bool := a.word == 0

/-- The answer read as a duration in microseconds. -/
def micros (a : Answer) : UInt32 := a.word

/-- The answer to "did it go well?". -/
def ofBool : Bool → Answer
  | true => success
  | false => fault

/-- The answer read as a flag. -/
def result (a : Answer) : Except Fault Unit := if a.isSuccess then .ok () else .error .callback

/-- The text of an answer in log records and reports. -/
def text (a : Answer) : String := s!"RetVal({a.word.toNat})"

/-- Answers are ordered by their words. -/
instance : Ord Answer := ⟨compareOn word⟩

theorem isSuccess_iff (a : Answer) : a.isSuccess = true ↔ a = success := by
  cases a; simp [isSuccess, success]

@[simp] theorem isSuccess_ofBool (b : Bool) : (ofBool b).isSuccess = b := by cases b <;> rfl

end Answer

/-- The result of an operation that gathered faults from several sinks. -/
def verdict (faulted : Bool) : Except Fault Unit := if faulted then .error .callback else .ok ()

theorem verdict_eq_error_iff {faulted : Bool} {f : Fault} :
    verdict faulted = .error f ↔ faulted = true ∧ f = .callback := by
  cases faulted <;> simp [verdict, eq_comm]

end SharedRadio
