import SharedRadio.Registry

/-!
# What storing a sink does to the registry

The registry is looked at through `Registry.sink?`, `Registry.priority?` and `Registry.next?`. The
statements below give these views after each operation.

Storing a sink touches one slot and no place in the chain. Linking a protocol touches the chain and
no slot. Together they say what `Registry.attach` does: `sink?_attach`, that the slot holds the new
sink and all others what they held, and `priority?_attach`, that a priority is given only to a
protocol that had none.
-/

namespace SharedRadio

variable {σ : Type}

theorem Entry.sink?_store (e : Entry σ) (slot other : Slot) (sink : σ) :
    (e.store slot sink).sink? other = if other = slot then some sink else e.sink? other := by
  cases slot <;> cases other <;> rfl

@[simp] theorem Entry.link_store (e : Entry σ) (slot : Slot) (sink : σ) :
    (e.store slot sink).link = e.link := by
  cases slot <;> rfl

namespace Registry

@[simp] theorem sink?_empty (p : Protocol) (slot : Slot) :
    (empty : Registry σ).sink? p slot = none := by
  cases p <;> cases slot <;> rfl

@[simp] theorem priority?_empty (p : Protocol) : (empty : Registry σ).priority? p = none := by
  cases p <;> rfl

/-! ## Storing -/

theorem sink?_store (r : Registry σ) (p q : Protocol) (slot other : Slot) (sink : σ) :
    (r.store p slot sink).sink? q other =
      if q = p ∧ other = slot then some sink else r.sink? q other := by
  by_cases h : q = p <;> simp [sink?, store, Protocol.Table.get_set, Entry.sink?_store, h]

@[simp] theorem priority?_store (r : Registry σ) (p q : Protocol) (slot : Slot) (sink : σ) :
    (r.store p slot sink).priority? q = r.priority? q := by
  by_cases h : q = p <;> simp [priority?, store, Protocol.Table.get_set, h]

@[simp] theorem next?_store (r : Registry σ) (p q : Protocol) (slot : Slot) (sink : σ) :
    (r.store p slot sink).next? q = r.next? q := by
  by_cases h : q = p <;> simp [next?, store, Protocol.Table.get_set, h]

@[simp] theorem head_store (r : Registry σ) (p : Protocol) (slot : Slot) (sink : σ) :
    (r.store p slot sink).head = r.head := rfl

/-! ## Linking -/

@[simp] theorem sink?_follow (r : Registry σ) (before next : Option Protocol) (q : Protocol)
    (slot : Slot) : (r.follow before next).sink? q slot = r.sink? q slot := by
  cases before with
  | none => rfl
  | some p => by_cases h : q = p <;> cases slot <;>
      simp [sink?, follow, Protocol.Table.get_set, Entry.sink?, h]

/-- Where the chain goes on after a protocol is no part of anyone's priority. -/
@[simp] theorem priority?_follow (r : Registry σ) (before next : Option Protocol) (q : Protocol) :
    (r.follow before next).priority? q = r.priority? q := by
  cases before with
  | none => rfl
  | some p =>
    by_cases h : q = p
    · subst h
      cases hl : (r.entries.get q).link <;> simp [priority?, follow, hl]
    · simp [priority?, follow, Protocol.Table.get_set, h]

@[simp] theorem sink?_link (r : Registry σ) (p q : Protocol) (v : UInt8) (slot : Slot) :
    (r.link p v).sink? q slot = r.sink? q slot := by
  unfold link
  rw [sink?_follow]
  by_cases h : q = p <;> cases slot <;> simp [sink?, Protocol.Table.get_set, Entry.sink?, h]

theorem priority?_link (r : Registry σ) (p q : Protocol) (v : UInt8) :
    (r.link p v).priority? q = if q = p then some v else r.priority? q := by
  unfold link
  rw [priority?_follow]
  by_cases h : q = p <;> simp [priority?, Protocol.Table.get_set, h]

/-! ## Attaching -/

/-- The sink is new exactly if its slot was empty. -/
theorem attach_fst (r : Registry σ) (p : Protocol) (v : UInt8) (slot : Slot) (sink : σ) :
    (r.attach p v slot sink).1 = (r.sink? p slot).isNone := rfl

theorem sink?_attach (r : Registry σ) (p q : Protocol) (v : UInt8) (slot other : Slot) (sink : σ) :
    (r.attach p v slot sink).2.sink? q other =
      if q = p ∧ other = slot then some sink else r.sink? q other := by
  unfold attach
  dsimp only
  split
  · rw [sink?_link, sink?_store]
  · rw [sink?_store]

theorem priority?_attach (r : Registry σ) (p q : Protocol) (v : UInt8) (slot : Slot) (sink : σ) :
    (r.attach p v slot sink).2.priority? q =
      if q = p ∧ r.sink? p slot = none ∧ r.priority? p = none then some v else r.priority? q := by
  unfold attach
  dsimp only
  by_cases hs : r.sink? p slot = none <;> by_cases hp : r.priority? p = none <;>
    simp [hs, hp, priority?_link]

end Registry

end SharedRadio
