/-!
# Protocol stacks and what they are told

Four protocol stacks share one transceiver. `Protocol` names them, `Event` names the notifications
that a stack can receive, and `Slot` says which of a stack's two sinks receives one.

The three types carry the names under which they appear in log records and reports. `Protocol.index`
and `Protocol.ofIndex?` are inverse to each other, which `ofIndex?_eq_some_iff` states.
-/

namespace SharedRadio

/-- A protocol stack that shares the transceiver. -/
inductive Protocol where
  /-- The Bluetooth Low Energy link layer. -/
  | ble
  /-- The IEEE 802.15.4 medium access layer. -/
  | ieee802154
  /-- A generic frequency-shift-keying stack. -/
  | genFsk
  /-- The ANT stack. -/
  | ant
  deriving DecidableEq, Inhabited

namespace Protocol

/-- Every protocol, by ascending index. -/
def all : List Protocol := [.ble, .ieee802154, .genFsk, .ant]

/-- The number of protocols. -/
def count : Nat := all.length

/-- A protocol's position in `all`. -/
def index : Protocol → Nat
  | .ble => 0
  | .ieee802154 => 1
  | .genFsk => 2
  | .ant => 3

/-- The protocol at a position of `all`, if there is one. -/
def ofIndex? (i : Nat) : Option Protocol := all[i]?

/-- The name of a protocol in log records and reports. -/
def name : Protocol → String
  | .ble => "Ble"
  | .ieee802154 => "Ieee802154"
  | .genFsk => "GenFsk"
  | .ant => "Ant"

/-- Protocols are ordered by their index. -/
instance : Ord Protocol := ⟨compareOn index⟩

theorem mem_all (p : Protocol) : p ∈ all := by cases p <;> simp [all]

theorem index_lt_count (p : Protocol) : p.index < count := by cases p <;> decide

@[simp] theorem ofIndex?_index (p : Protocol) : ofIndex? p.index = some p := by cases p <;> rfl

/-- An index names exactly the protocol that has it. -/
theorem ofIndex?_eq_some_iff {i : Nat} {p : Protocol} : ofIndex? i = some p ↔ i = p.index := by
  constructor
  · intro h
    match i with
    | 0 | 1 | 2 | 3 => cases h; rfl
    | i + 4 => simp [ofIndex?, all] at h
  · rintro rfl
    exact ofIndex?_index p

end Protocol

/-- A notification that a sink can receive. -/
inductive Event where
  /-- The sink was registered in an empty slot. -/
  | init
  /-- The protocol now owns the transceiver. -/
  | active
  /-- The protocol must stop using the transceiver at once. -/
  | abort
  /-- The transceiver is free. -/
  | idle
  /-- The protocol gave up its last level of ownership. -/
  | release
  /-- The protocol is asked for how long it will be inactive, in microseconds. -/
  | inactivity
  deriving DecidableEq, Inhabited

/-- The name of an event in log records and reports. -/
def Event.name : Event → String
  | .init => "Init"
  | .active => "Active"
  | .abort => "Abort"
  | .idle => "Idle"
  | .release => "Release"
  | .inactivity => "GetInactivityDuration"

/-- Which of a protocol's two sinks is meant. -/
inductive Slot where
  /-- The sink that is told about ownership of the transceiver. -/
  | arbitration
  /-- The sink that is told about access granted or withdrawn from outside the chip. -/
  | coexistence
  deriving DecidableEq, Inhabited

/-- The name of a slot in log records. -/
def Slot.name : Slot → String
  | .arbitration => "Arbitration"
  | .coexistence => "Coexistence"

end SharedRadio
