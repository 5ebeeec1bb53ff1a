import SharedRadio.Proofs.Arbiter.Displacement
import SharedRadio.Proofs.Registry.Ranking

/-!
# Which sink a notification goes to

A slot holds the sink that was registered in it last. `attachments` lists the registrations of a
history, and `Reached.registry_eq` says that the registry is what they make of it, so that it is
known of every slot which registration has filled it.

A notification is for a protocol's slot, and it is carried by a sink that the arbiter has read from
that slot. Between the read and the delivery nothing can happen, with one exception. An acquisition
reads its own sink when it begins, and keeps it while it tells owners to make room. These may
register other sinks meanwhile, and the one that is told of the new ownership in the end may have
been replaced. `addressed_play` says that this is all: which notifications go astray, and when.
-/

namespace SharedRadio.Arbiter

open Registry

variable {σ : Type}

/-! ## The registrations of a history -/

/-- The sink that a moment stores, with its slot and the priority value that comes with it. -/
def Moment.attachment? (m : Moment σ) : Option (Attachment σ) :=
  match m.cue, m.call with
  | none, .register slot p priority sink => some ⟨p, priority, slot, sink⟩
  | _, _ => none

/-- The registrations of a history, in order. -/
def attachments (past : List (Moment σ)) : List (Attachment σ) :=
  past.filterMap Moment.attachment?

theorem attachments_append (past newer : List (Moment σ)) :
    attachments (past ++ newer) = attachments past ++ attachments newer :=
  List.filterMap_append

theorem attachments_singleton (m : Moment σ) : attachments [m] = m.attachment?.toList := by
  cases h : m.attachment? <;> simp [attachments, h]

/-- A registration stores its sink, whether the slot was empty or not. -/
theorem registry_register (a : Arbiter σ) (slot : Slot) (p : Protocol) (priority : UInt8)
    (sink : σ) : (a.register slot p priority sink).arbiter.registry =
      (a.registry.attach p priority slot sink).2 := by
  unfold register
  dsimp only
  split <;> rfl

namespace Deed

variable {a : Arbiter σ} {c : Call σ} {k : Cue σ} {l : Leg σ}

/-- Nothing but the beginning of a registration stores a sink. -/
theorem registry_eq_of_not_register (h : Deed a c k l)
    (hnot : k = none → ∀ slot p v sink, c ≠ .register slot p v sink) :
    l.arbiter.registry = a.registry := by
  cases h with
  | enrols | replaces => exact absurd rfl (hnot rfl _ _ _ _)
  | _ => rfl

end Deed

/-- What a moment does to the registry is to take up what it stores. -/
theorem Moment.registry_after {m : Moment σ} (deed : Deed m.before m.call m.cue m.leg) :
    m.after.registry =
      m.attachment?.elim m.before.registry fun c => (m.before.registry.accept c).2 := by
  obtain ⟨number, c, k, a⟩ := m
  cases k with
  | some cue => exact deed.registry_eq_of_not_register nofun
  | none => cases c with
    | register slot p v sink => exact registry_register a slot p v sink
    | _ => exact deed.registry_eq_of_not_register nofun

/-! ## What one leg says about sinks -/

namespace Deed

variable {a : Arbiter σ} {c : Call σ} {k : Cue σ} {l : Leg σ} {n : Notification σ} {w : Waiting σ}

/-- An operation that waits for an owner to make room keeps a sink that it may have read long ago.
-/
theorem bids_of_displacing (h : Deed a c k l) {p q : Protocol} {sink : σ} {faulted : Bool}
    (hl : l.progress = .notifies n (.displacing p sink q faulted)) : Bids a p sink k := by
  cases h with
  | warns bids => cases hl; exact bids
  | _ => cases hl

/-- The news of ownership goes to the sink through which the transceiver was wanted. -/
theorem bids_of_active (h : Deed a c k l) (hl : l.progress = .notifies n w)
    (hactive : l.Tells n.protocol .arbitration .active) :
    Bids a n.protocol n.sink k ∧ n.slot = .arbitration ∧ l.arbiter.registry = a.registry := by
  cases h with
  | seizes bids => cases hl; exact ⟨bids, rfl, rfl⟩
  | _ => cases hl <;> simp [Leg.Tells] at hactive

/-- All other notifications go to the sink in the slot. -/
theorem current (h : Deed a c k l) (hl : l.progress = .notifies n w)
    (hother : k = none ∨ ¬ l.Tells n.protocol .arbitration .active) :
    l.arbiter.registry.sink? n.protocol n.slot = some n.sink := by
  cases h with
  | enrols => cases hl; simp [sink?_attach]
  | seizes bids =>
    cases hl
    obtain rfl := hother.resolve_right fun hnot => hnot rfl
    exact bids
  | warns _ _ _ present => cases hl; exact present
  | aborts _ present => cases hl; exact present
  | yields _ _ present => cases hl; exact present
  | offers _ _ _ present => cases hl; exact present
  | announces present => cases hl; exact present
  | asks _ present => cases hl; exact present
  | _ => cases hl

end Deed

namespace Run

variable {r : Run σ}

/-- **The registry is made of the registrations.** -/
theorem Reached.registry_eq (h : r.Reached) :
    r.arbiter.registry = attachAll (attachments r.past) := by
  induction h with
  | start => rfl
  | @after r m others h next ih =>
    have hregistry := Moment.registry_after (next.before_eq ▸ h.sound.deed next)
    rw [next.before_eq, ih] at hregistry
    change m.after.registry = attachAll (attachments (r.past ++ [m]))
    rw [hregistry, attachments_append, attachments_singleton]
    cases m.attachment? with
    | none => simp
    | some c => simp

/-- A slot holds what was registered in it last since a moment, or else what it held then. -/
theorem Reached.sink?_eq (h : r.Reached) {m₀ : Moment σ} {i : Nat} (hi : r.past[i]? = some m₀)
    (p : Protocol) (slot : Slot) :
    r.arbiter.registry.sink? p slot =
      ((last? (attachments (r.past.drop i)) p slot).map Attachment.sink).or
        (m₀.before.registry.sink? p slot) := by
  obtain ⟨hlt, hget⟩ := List.getElem?_eq_some_iff.mp hi
  have hsplit : r.past = r.past.take i ++ m₀ :: r.past.drop (i + 1) := by
    rw [← hget, ← List.drop_eq_getElem_cons hlt, List.take_append_drop]
  obtain ⟨r₀, others, h₀, hpast₀, next⟩ := h.moment hsplit
  rw [next.before_eq, h.registry_eq, h₀.registry_eq, hpast₀, sink?_attachAll, sink?_attachAll,
    ← Option.map_or, ← last?_append, ← attachments_append, List.take_append_drop]

/-- An acquisition that waits for an owner to make room keeps the sink that it found in the slot of
its protocol when it began. -/
theorem Reached.exists_found (h : r.Reached) {f : Pending σ} (hf : f ∈ r.pending)
    {p told : Protocol} {sink : σ} {faulted : Bool}
    (hw : f.waiting = .displacing p sink told faulted) :
    ∃ a, r.past[f.number]? = some ⟨f.number, f.call, none, a⟩ ∧ a.sink? p = some sink := by
  induction h generalizing f told faulted with
  | start => simp [Run.start] at hf
  | @after r m others h next ih =>
    rcases mem_pending_after hf with hf | ⟨n, w, hl, rfl⟩
    · obtain ⟨a, ha, hsink⟩ := ih (next.others_subset hf) hw
      exact ⟨a, getElem?_append_of_eq_some ha _, hsink⟩
    · obtain rfl : w = .displacing p sink told faulted := hw
      have bids := (h.sound.deed next).bids_of_displacing hl
      cases next with
      | begins c => exact ⟨r.arbiter, by simp [Run.after], bids⟩
      | resumes waits b =>
        obtain ⟨told', faulted', hw'⟩ := bids
        obtain ⟨a, ha, hsink⟩ := ih (by simp [waits]) hw'
        exact ⟨a, getElem?_append_of_eq_some ha _, hsink⟩

/-- The news of ownership is carried by the sink that the acquisition found in the slot of its
protocol when it began; since then the slot may have been filled anew. -/
theorem Reached.exists_found_of_active (h : r.Reached) {m : Moment σ} {others : List (Pending σ)}
    (next : r.Next m others) {n : Notification σ} {w : Waiting σ}
    (hl : m.leg.progress = .notifies n w) (ht : m.Tells n.protocol .arbitration .active) :
    (∃ a, (r.past ++ [m])[m.number]? = some ⟨m.number, m.call, none, a⟩ ∧
      a.sink? n.protocol = some n.sink) ∧
    m.after.registry.sink? n.protocol n.slot =
      ((last? (attachments (r.past.drop m.number)) n.protocol .arbitration).map
        Attachment.sink).or (some n.sink) := by
  obtain ⟨bids, hslot, hregistry⟩ := (h.sound.deed next).bids_of_active hl ht
  rw [Moment.after, hregistry, hslot]
  cases next with
  | begins c =>
    refine ⟨⟨r.arbiter, by simp, bids⟩, ?_⟩
    rw [List.drop_length]
    exact bids
  | @resumes f others waits b =>
    obtain ⟨told, faulted, hw⟩ := bids
    obtain ⟨a, ha, hsink⟩ := h.exists_found (f := f) (by simp [waits]) hw
    refine ⟨⟨a, getElem?_append_of_eq_some ha _, hsink⟩, ?_⟩
    rw [h.sink?_eq ha, ← hsink]
    rfl

end Run

/-! ## Notifications that go astray -/

/-- How the sink that a notification goes to stands to the one in the slot that it is for. -/
structure Addressed (older : List (Moment σ)) (m : Moment σ) (n : Notification σ) : Prop where
  /-- It goes to another sink than the one in the slot if and only if it tells of a new ownership
  and another sink was registered since the operation began. -/
  astray_iff : m.after.registry.sink? n.protocol n.slot ≠ some n.sink ↔
    m.Tells n.protocol .arbitration .active ∧
      ∃ c, last? (attachments (older.drop m.number)) n.protocol .arbitration = some c ∧
        c.sink ≠ n.sink
  /-- If it tells of a new ownership, then it goes to the sink that was in the slot when the
  operation began. -/
  found : m.Tells n.protocol .arbitration .active →
    ∃ a, (older ++ [m])[m.number]? = some ⟨m.number, m.call, none, a⟩ ∧
      a.sink? n.protocol = some n.sink
  /-- If it goes astray, then an owner was told to make room and has answered. -/
  takeover : m.after.registry.sink? n.protocol n.slot ≠ some n.sink →
    ∃ told, m.cue.displaced? = some told

/-- **A notification goes to the sink in its slot**, unless it tells a protocol that it has taken
the transceiver over from others, and that protocol has got another sink while they made room. -/
theorem addressed_play (preemption : Bool) (moves : List (Move σ)) {older newer : List (Moment σ)}
    {m : Moment σ} (hpast : (Run.play preemption moves).past = older ++ m :: newer)
    {n : Notification σ} {w : Waiting σ} (hl : m.leg.progress = .notifies n w) :
    Addressed older m n := by
  obtain ⟨r, others, h, rfl, next⟩ := (Run.reached_play preemption moves).moment hpast
  have deed := h.sound.deed next
  have hcurrent := deed.current hl
  by_cases ht : m.Tells n.protocol .arbitration .active
  · obtain ⟨hfound, hnow⟩ := h.exists_found_of_active next hl ht
    refine ⟨?_, fun _ => hfound, fun hastray => ?_⟩
    · rw [hnow]
      cases last? (attachments (r.past.drop m.number)) n.protocol .arbitration with
      | none => simp
      | some c => simp [ht]
    · have hk : m.cue ≠ none := fun hk => hastray (hcurrent (.inl hk))
      have bids := (deed.bids_of_active hl ht).1
      obtain ⟨⟨w', b⟩, hcue⟩ := Option.ne_none_iff_exists'.mp hk
      rw [hcue] at bids ⊢
      obtain ⟨told, faulted, rfl⟩ := bids
      exact ⟨told, rfl⟩
  · have hstays := hcurrent (.inr ht)
    exact ⟨iff_of_false (not_not_intro hstays) fun hrest => ht hrest.1, fun h => absurd h ht,
      fun hastray => absurd hstays hastray⟩

/-- An owner that is told to make room registers another sink for the protocol that displaces it. -/
def exchangedMeanwhile : List (Move Nat) :=
  [.call (.register .arbitration .ant 3 0), .answer .success,
    .call (.register .arbitration .ble 1 1), .answer .success,
    .call (.acquire .ant false), .answer .success, .call (.acquire .ble false),
    .call (.register .arbitration .ble 1 2), .answer .success]

/-- The new owner's former sink is told of the ownership, and its present one is not. -/
theorem addressed_play_exchangedMeanwhile :
    ∃ older m n w, (Run.play true exchangedMeanwhile).past = older ++ [m] ∧
      m.leg.progress = .notifies n w ∧ m.Tells .ble .arbitration .active ∧ n.sink = 1 ∧
      m.after.sink? .ble = some 2 ∧ Addressed older m n := by
  refine ⟨(Run.play true (exchangedMeanwhile.take 8)).past, _, _, _, rfl, rfl, rfl, rfl, rfl, ?_⟩
  exact addressed_play true exchangedMeanwhile rfl rfl

end SharedRadio.Arbiter
