import SharedRadio.Protocol

/-!
# A value for every protocol

A `Table` holds one value per protocol in four fields, so that a lookup never fails. What it holds
after a change is said by `get_set`, and no other module looks at the fields.
-/

namespace SharedRadio.Protocol

/-- One value for every protocol. -/
structure Table (α : Type) where
  /-- The value of `Protocol.ble`. -/
  ble : α
  /-- The value of `Protocol.ieee802154`. -/
  ieee802154 : α
  /-- The value of `Protocol.genFsk`. -/
  genFsk : α
  /-- The value of `Protocol.ant`. -/
  ant : α

namespace Table

variable {α : Type}

/-- The table with the same value everywhere. -/
def replicate (a : α) : Table α := ⟨a, a, a, a⟩

/-- The value of a protocol. -/
def get (t : Table α) : Protocol → α
  | .ble => t.ble
  | .ieee802154 => t.ieee802154
  | .genFsk => t.genFsk
  | .ant => t.ant

/-- The table with another value for one protocol. -/
def set (t : Table α) (p : Protocol) (a : α) : Table α :=
  match p with
  | .ble => { t with ble := a }
  | .ieee802154 => { t with ieee802154 := a }
  | .genFsk => { t with genFsk := a }
  | .ant => { t with ant := a }

@[simp] theorem get_replicate (a : α) (p : Protocol) : (replicate a).get p = a := by
  cases p <;> rfl

@[simp] theorem get_set_self (t : Table α) (p : Protocol) (a : α) : (t.set p a).get p = a := by
  cases p <;> rfl

theorem get_set_of_ne (t : Table α) {p q : Protocol} (h : q ≠ p) (a : α) :
    (t.set p a).get q = t.get q := by
  cases p <;> cases q <;> first | rfl | exact absurd rfl h

theorem get_set (t : Table α) (p q : Protocol) (a : α) :
    (t.set p a).get q = if q = p then a else t.get q := by
  split
  · next h => rw [h, get_set_self]
  · next h => exact get_set_of_ne t h a

end Table

end SharedRadio.Protocol
