import SharedRadio.Proofs.Arbiter.Walk

/-!
# Offering the idle transceiver

An offer goes along the priority chain, and so does the one that ends a release. Whatever the sinks
call before they answer, and whomever they register, `offers_of_begun` says whom it tells, in
which order, when it stops, and what it comes to. It tells nobody twice and waits for one answer at
a time, so it is over after as many answers as there are protocols, if not before.

The chain may change under the walk. A protocol that joins it during the walk is told only if it
stands behind the one that is told at that time; one that had its sink before is always told, unless
the walk comes upon an owner first.
-/

namespace SharedRadio.Arbiter

variable {σ : Type}

/-- The protocols that one operation has offered the transceiver to, in order. -/
def offered (k : Nat) (past : List (Moment σ)) : List Protocol :=
  notified k .arbitration .idle past

/-- What offers the transceiver to all protocols but one, or to all. -/
def offering (excluded : Option Protocol) : Errand := ⟨.arbitration, .idle, excluded, true⟩

namespace Run

/-- One operation offers the transceiver along the chain. -/
structure Offers (r : Run σ) (k : Nat) (excluded : Option Protocol) : Prop where
  /-- It tells nobody twice. -/
  once : (offered k r.past).Nodup
  /-- It does not tell the protocol that is excluded. -/
  excludes : ∀ p ∈ offered k r.past, excluded ≠ some p
  /-- It tells them in the order of the chain. -/
  inOrder : (offered k r.past).Sublist r.arbiter.registry.chain
  /-- So it tells them by ascending priority value. -/
  ranked : (offered k r.past).Pairwise fun p q =>
    r.arbiter.registry.rank p ≤ r.arbiter.registry.rank q
  /-- It tells nobody before its walk is opened. -/
  opened : offered k r.past ≠ [] → ∃ m₀ ∈ r.past, m₀.number = k ∧ m₀.Opens
  /-- A protocol that has got its sink since then is told only if it stood behind the one that was
  told at that time. -/
  joins : ∀ m₀ ∈ r.past, m₀.number = k → m₀.Opens → ∀ p ∈ offered k r.past,
    m₀.before.sink? p = none → JoinsBehind r.past m₀ (offering excluded) p
  /-- Until its end, the walk waits for one answer, that of the protocol that it has told last. -/
  waits : ∀ m₀ ∈ r.past, m₀.number = k → m₀.Opens →
    (∃ f ∈ r.pending, f.number = k ∧ ∃ q, Awaited r.past k (offering excluded) q) ∨
      ∃ m ∈ r.past, m.number = k ∧ ∃ result, m.leg.progress = .finished result
  /-- The walk ends at a moment at which somebody owns the transceiver, or when every protocol has
  been told that had a sink when it was opened, but for the one that is excluded. -/
  ends : ∀ m ∈ r.past, m.number = k → (∃ result, m.leg.progress = .finished result) →
    ∀ m₀ ∈ r.past, m₀.number = k → m₀.Opens → m.before.owner ≠ none ∨
      ∀ p, (m₀.before.sink? p).isSome → excluded ≠ some p → p ∈ offered k r.past
  /-- All those that were told have answered then, and the result is a fault if and only if one of
  the answers was. -/
  result : ∀ m ∈ r.past, m.number = k → (∃ result, m.leg.progress = .finished result) →
    (∃ m₀ ∈ r.past, m₀.number = k ∧ m₀.Opens) →
      (replies k r.past).length = (offered k r.past).length ∧
        m.leg.progress = .finished (.settled
          (if ∃ b ∈ replies k r.past, b.word ≠ 0 then .error .callback else .ok ()))

theorem verdict_faultedOf (replies : List Answer) :
    verdict (faultedOf replies) =
      if ∃ b ∈ replies, b.word ≠ 0 then .error .callback else .ok () := by
  have hfaulted : faultedOf replies = true ↔ ∃ b ∈ replies, b.word ≠ 0 := by
    simp [faultedOf, Answer.isSuccess]
  unfold verdict
  simp only [hfaulted]

/-- **An offer leaves nobody out.** Along the chain it tells everyone once who had a sink when it
began, until somebody owns the transceiver, whatever the sinks do meanwhile; no fault stops it. -/
theorem offers_of_begun (preemption : Bool) (moves : List (Move σ)) {k : Nat} {c : Call σ}
    {excluded : Option Protocol} (hk : Begun (play preemption moves).past k c)
    (hc : c = .offer excluded ∨ ∃ p, c = .release p ∧ excluded = some p) :
    (play preemption moves).Offers k excluded := by
  have h := reached_play preemption moves
  have he : c.errand? = some (offering excluded) := by
    rcases hc with rfl | ⟨p, rfl, rfl⟩ <;> rfl
  have hcall : ∀ m ∈ (play preemption moves).past, m.number = k →
      m.call.errand? = some (offering excluded) := by
    rintro m hm rfl
    rwa [(h.numbered.moment m hm).unique hk]
  obtain ⟨inOrder, serves, -, opened⟩ :=
    h.walks.walked k (offering excluded) fun c' hc' => hc'.unique hk ▸ he
  have completed := fun m hm hnumber hend hopened =>
    h.walks.completed m hm (offering excluded) (hcall m hm hnumber) hend hopened
  constructor
  case once => exact h.sound.registry.nodup.sublist inOrder
  case excludes => exact fun p hp => (serves p hp).1
  case inOrder => exact inOrder
  case ranked => exact h.sound.registry.sorted.sublist inOrder
  case opened => exact opened
  case joins =>
    rintro m₀ hm₀ rfl hopens p hp hnew
    exact h.joinsBehind hm₀ hopens (hcall m₀ hm₀ rfl) hp hnew
  case waits =>
    rintro m₀ hm₀ rfl hopens
    exact h.awaited_or_finished hm₀ hopens (hcall m₀ hm₀ rfl)
  case ends =>
    rintro m hm rfl hend m₀ hm₀ hnumber hopens
    refine (completed m hm rfl hend ⟨m₀, hm₀, hnumber, hopens⟩).complete.imp (·.2) ?_
    exact fun hall p hsink hother => hall m₀ hm₀ hnumber hopens p ⟨hother, hsink⟩
  case result =>
    rintro m hm rfl hend hopened
    obtain ⟨outcome, answered, -⟩ := completed m hm rfl hend hopened
    refine ⟨answered, ?_⟩
    rw [outcome, ← verdict_faultedOf]
    rcases hc with rfl | ⟨p, rfl, rfl⟩ <;> rw [(h.numbered.moment m hm).unique hk] <;> rfl

end Run

/-- While the first of two protocols is told, one protocol joins behind it and another one in front
of it. Its answer is a fault. -/
def joined : List (Move Unit) :=
  [.call (.register .arbitration .genFsk 2 ()), .answer .success,
    .call (.register .arbitration .ble 1 ()), .answer .success, .call (.offer none),
    .call (.register .arbitration .ant 3 ()), .answer .success,
    .call (.register .arbitration .ieee802154 0 ()), .answer .success,
    .answer .fault, .answer .success, .answer .success]

/-- The protocol that joined behind is told, and the other one is not. -/
theorem offers_of_begun_joined :
    Run.Begun (Run.play true joined).past 4 (.offer none) ∧
      offered 4 (Run.play true joined).past = [.ble, .genFsk, .ant] ∧
      (Run.play true joined).Offers 4 none := by
  have hbegun : Run.Begun (Run.play true joined).past 4 (.offer none) := ⟨_, rfl⟩
  exact ⟨hbegun, rfl, Run.offers_of_begun true joined hbegun (.inl rfl)⟩

end SharedRadio.Arbiter
