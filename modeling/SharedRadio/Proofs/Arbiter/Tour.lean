import SharedRadio.Proofs.Arbiter.Offering

/-!
# Whole walks along the chain

The invariant of `SharedRadio.Proofs.Arbiter.Walk` follows a walk leg by leg. `Tours` puts together
what that makes of one walk, whatever it is for: whom it tells, in which order, for whom it waits,
where it ends and what it comes to. Offers, broadcasts and inquiries are read off it.

What a sink does before it answers has no influence on any of this, except that an owner can stop
an offer and that protocols may join the chain. So nothing at all can stop a broadcast: `Announces`
says that everyone is told who had a coexistence sink when it began.
-/

namespace SharedRadio.Arbiter

variable {σ : Type}

namespace Run

variable {r : Run σ} {k : Nat} {c : Call σ} {e : Errand}

/-- The walk of one operation. -/
structure Tours (r : Run σ) (k : Nat) (c : Call σ) (e : Errand) : Prop where
  /-- It tells nobody twice. -/
  once : (notified k e.slot e.event r.past).Nodup
  /-- It tells nobody who is to be passed over, or has no sink. -/
  serves : ∀ p ∈ notified k e.slot e.event r.past, r.arbiter.registry.Serves e.slot e.passOver p
  /-- It tells them in the order of the chain. -/
  inOrder : (notified k e.slot e.event r.past).Sublist r.arbiter.registry.chain
  /-- So it tells them by ascending priority value. -/
  ranked : (notified k e.slot e.event r.past).Pairwise fun p q =>
    r.arbiter.registry.rank p ≤ r.arbiter.registry.rank q
  /-- It tells nobody before it is opened. -/
  opened : notified k e.slot e.event r.past ≠ [] → ∃ m₀ ∈ r.past, m₀.number = k ∧ m₀.Opens
  /-- A protocol that has got its sink since then is told only if it stood behind the one that was
  told at that time. -/
  joins : ∀ m₀ ∈ r.past, m₀.number = k → m₀.Opens → ∀ p ∈ notified k e.slot e.event r.past,
    m₀.before.registry.sink? p e.slot = none → JoinsBehind r.past m₀ e p
  /-- Until its end, it waits for one answer, that of the protocol that it has told last. -/
  waits : ∀ m₀ ∈ r.past, m₀.number = k → m₀.Opens →
    (∃ f ∈ r.pending, f.number = k ∧ ∃ q, Awaited r.past k e q) ∨
      ∃ m ∈ r.past, m.number = k ∧ ∃ result, m.leg.progress = .finished result
  /-- At its end it has yielded to an owner, or it has told everyone who was to be told when it was
  opened. -/
  ends : ∀ m ∈ r.past, m.number = k → (∃ result, m.leg.progress = .finished result) →
    ∀ m₀ ∈ r.past, m₀.number = k → m₀.Opens → (e.yields = true ∧ m.before.owner ≠ none) ∨
      ∀ p, m₀.before.registry.Serves e.slot e.passOver p → p ∈ notified k e.slot e.event r.past
  /-- All those that were told have answered then, and the result is made of the answers. -/
  outcome : ∀ m ∈ r.past, m.number = k → (∃ result, m.leg.progress = .finished result) →
    (∃ m₀ ∈ r.past, m₀.number = k ∧ m₀.Opens) →
      (replies k r.past).length = (notified k e.slot e.event r.past).length ∧
        m.leg.progress = .finished (c.outcome (replies k r.past))

/-- **Every walk goes along the whole chain**, in order and without repetition, unless it has to
yield. -/
theorem Reached.tours (h : r.Reached) (hk : Begun r.past k c) (he : c.errand? = some e) :
    r.Tours k c e := by
  have hcall : ∀ m ∈ r.past, m.number = k → m.call = c := by
    rintro m hm rfl
    exact (h.numbered.moment m hm).unique hk
  have herrand : ∀ m ∈ r.past, m.number = k → m.call.errand? = some e := fun m hm hnumber =>
    (hcall m hm hnumber).symm ▸ he
  obtain ⟨inOrder, serves, -, opened⟩ := h.walks.walked k e fun c' hc' => hc'.unique hk ▸ he
  have completed := fun m hm hnumber hend hopened =>
    h.walks.completed m hm e (herrand m hm hnumber) hend hopened
  constructor
  case once => exact h.sound.registry.nodup.sublist inOrder
  case serves => exact serves
  case inOrder => exact inOrder
  case ranked => exact h.sound.registry.sorted.sublist inOrder
  case opened => exact opened
  case joins =>
    rintro m₀ hm₀ rfl hopens p hp hnew
    exact h.joinsBehind hm₀ hopens (herrand m₀ hm₀ rfl) hp hnew
  case waits =>
    rintro m₀ hm₀ rfl hopens
    exact h.awaited_or_finished hm₀ hopens (herrand m₀ hm₀ rfl)
  case ends =>
    rintro m hm rfl hend m₀ hm₀ hnumber hopens
    exact (completed m hm rfl hend ⟨m₀, hm₀, hnumber, hopens⟩).complete.imp_right fun hall =>
      hall m₀ hm₀ hnumber hopens
  case outcome =>
    rintro m hm rfl hend hopened
    obtain ⟨outcome, answered, -⟩ := completed m hm rfl hend hopened
    exact ⟨answered, hcall m hm rfl ▸ outcome⟩

/-- A walk visits no more protocols than there are. -/
theorem Tours.length_le (h : r.Tours k c e) :
    (notified k e.slot e.event r.past).length ≤ Protocol.count :=
  Registry.length_le_count h.once

end Run

/-! ## Broadcasts -/

/-- The protocols whose coexistence sinks one operation has told of an event, in order. -/
def announced (k : Nat) (event : Event) (past : List (Moment σ)) : List Protocol :=
  notified k .coexistence event past

/-- A broadcast tells the coexistence sink in a slot of its event, and changes nothing. -/
theorem Deed.announces_of_broadcast {a : Arbiter σ} {event : Event} {k : Cue σ} {l : Leg σ}
    (h : Deed a (.broadcast event) k l) {n : Notification σ} {w : Waiting σ}
    (hl : l.progress = .notifies n w) :
    n.slot = .coexistence ∧ n.event = event ∧
      l.arbiter.registry.sink? n.protocol .coexistence = some n.sink := by
  cases h with
  | offers walks => exact walks.elim
  | announces present => cases hl; exact ⟨rfl, rfl, present⟩
  | _ => cases hl

namespace Run

/-- One operation tells the coexistence sinks of an event. It began at an arbiter. -/
structure Announces (r : Run σ) (k : Nat) (event : Event) (first : Arbiter σ) : Prop where
  /-- It tells the coexistence sinks of that event, and nothing else to anybody. -/
  only : ∀ m ∈ r.past, m.number = k → ∀ n w, m.leg.progress = .notifies n w →
    n.slot = .coexistence ∧ n.event = event ∧
      m.after.registry.sink? n.protocol .coexistence = some n.sink
  /-- It tells nobody twice. -/
  once : ∀ p, (announced k event r.past).count p ≤ 1
  /-- It tells them in the order of the chain. -/
  inOrder : (announced k event r.past).Sublist r.arbiter.registry.chain
  /-- So it tells them by ascending priority value. -/
  ranked : (announced k event r.past).Pairwise fun p q =>
    r.arbiter.registry.rank p ≤ r.arbiter.registry.rank q
  /-- Until its end, it waits for one answer, that of the protocol that it has told last. -/
  waits : (∃ f ∈ r.pending, f.number = k ∧ ∃ q, (announced k event r.past).getLast? = some q ∧
      (announced k event r.past).length = (replies k r.past).length + 1) ∨
    ∃ m ∈ r.past, m.number = k ∧ ∃ result, m.leg.progress = .finished result
  /-- At its end it has told everyone who had a coexistence sink when it began. -/
  complete : ∀ m ∈ r.past, m.number = k → (∃ result, m.leg.progress = .finished result) →
    ∀ p, (first.registry.sink? p .coexistence).isSome → (announced k event r.past).count p = 1
  /-- All those that were told have answered then, and the result is a fault if and only if one of
  the answers was. -/
  result : ∀ m ∈ r.past, m.number = k → (∃ result, m.leg.progress = .finished result) →
    (replies k r.past).length = (announced k event r.past).length ∧
      m.leg.progress = .finished (.settled
        (if ∃ b ∈ replies k r.past, b.word ≠ 0 then .error .callback else .ok ()))

/-- **Nothing stops a broadcast.** Along the chain it tells everyone once who had a coexistence sink
when it began, whoever owns the transceiver and whatever the sinks do meanwhile. -/
theorem Reached.announces {r : Run σ} (h : r.Reached) {k : Nat} {event : Event} {first : Arbiter σ}
    (hk : r.past[k]? = some ⟨k, .broadcast event, none, first⟩) :
    r.Announces k event first := by
  have hbegun : Begun r.past k (.broadcast event) := ⟨first, hk⟩
  have hfirst : (⟨k, .broadcast event, none, first⟩ : Moment σ) ∈ r.past := List.mem_of_getElem? hk
  have tours := h.tours hbegun rfl
  constructor
  case only =>
    rintro m hm rfl n w hl
    have deed := h.deed hm
    rw [(h.numbered.moment m hm).unique hbegun] at deed
    exact deed.announces_of_broadcast hl
  case once => exact List.nodup_iff_count_le_one.mp tours.once
  case inOrder => exact tours.inOrder
  case ranked => exact tours.ranked
  case waits => exact tours.waits _ hfirst rfl trivial
  case complete =>
    intro m hm hnumber hend p hp
    have hall := (tours.ends m hm hnumber hend _ hfirst rfl trivial).resolve_left nofun
    exact List.count_eq_one_of_mem tours.once (hall p ⟨nofun, hp⟩)
  case result =>
    intro m hm hnumber hend
    obtain ⟨answered, outcome⟩ := tours.outcome m hm hnumber hend ⟨_, hfirst, rfl, trivial⟩
    exact ⟨answered, by rw [outcome, ← verdict_faultedOf]; rfl⟩

end Run

end SharedRadio.Arbiter
