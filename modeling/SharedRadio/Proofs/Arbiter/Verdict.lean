import SharedRadio.Proofs.Arbiter.Ledger
import SharedRadio.Proofs.Arbiter.Tour

/-!
# What acquisitions and releases come to

What is not refused succeeds, if late. Its result only tells whether a sink answered with a fault on
the way, and not every sink counts: for an acquisition it is the owners that were told to make room,
for a release the protocols that were offered the transceiver.

An acquisition owes this to its ledger, and a release to its walk along the chain. A release that
gives up one of several levels has no walk, and nobody who could answer with a fault.
-/

namespace SharedRadio.Arbiter

variable {σ : Type}

namespace Run

variable {r : Run σ} {m : Moment σ} {k : Nat} {p : Protocol} {force : Bool} {first : Arbiter σ}

/-! ## Releases in a run -/

/-- An operation that was over as soon as it began has told nobody, and nothing was answered to it.
-/
theorem Reached.silent_of_begins (h : r.Reached) (hm : m ∈ r.past) (hk : m.cue = none)
    {result : Result} (hl : m.leg.progress = .finished result) :
    (∀ slot event, notified m.number slot event r.past = []) ∧ replies m.number r.past = [] := by
  have honly := h.eq_of_finished (h.getElem?_of_begins hm hk) hl
  constructor
  · intro slot event
    refine List.eq_nil_iff_forall_not_mem.mpr fun q hq => ?_
    obtain ⟨m', hm', hnumber, ht⟩ := mem_notified_iff.mp hq
    rw [honly m' hm' hnumber, Moment.Tells, Leg.Tells, hl] at ht
    cases ht
  · refine List.filterMap_eq_nil_iff.mpr fun m' hm' => ?_
    split
    · next hnumber => rw [honly m' hm' hnumber, hk, Cue.reply?]
    · rfl

/-- A release that is not refused, and is over without a walk, has given up one of several levels.
-/
theorem release_progress_eq (hnot : ∀ fault, ¬ Refusal first (.release p) fault)
    (hclosed : ¬ (first.owner = none ∧ (first.sink? p).isSome)) {result : Result}
    (hl : (first.release p).progress = .finished result) : result = .settled (.ok ()) := by
  unfold release at hl
  split at hl
  · next absent => exact absurd ((refusal_invalidParameter_iff rfl).mpr absent) (hnot _)
  · next sink present =>
    have hp : (first.sink? p).isSome := by simp [present]
    split at hl
    · next idle => exact absurd ⟨idle, hp⟩ hclosed
    · next q owner =>
      split at hl
      · split at hl
        · cases hl
        · cases hl
          rfl
      · next other =>
        exact absurd (refusal_release_denied_iff.mpr ⟨hp, q, owner, other⟩) (hnot _)

/-- **A release that is not refused comes to what its walk comes to**, or it has none. -/
theorem Reached.released (h : r.Reached) (hk : r.past[k]? = some ⟨k, .release p, none, first⟩)
    (hnot : ∀ fault, ¬ Refusal first (.release p) fault) (hm : m ∈ r.past) (hnumber : m.number = k)
    {result : Result} (hl : m.leg.progress = .finished result) :
    (replies k r.past).length = (offered k r.past).length ∧
      result = .settled (verdict (faultedOf (replies k r.past))) := by
  have hcall : m.call = .release p := by
    subst hnumber
    exact (h.numbered.moment m hm).unique ⟨first, hk⟩
  rcases h.opened_or_begins hm (e := offering (some p)) (by rw [hcall]; rfl) with
    hopened | ⟨hbegins, hclosed⟩
  · obtain ⟨answered, outcome⟩ := (h.tours ⟨first, hk⟩ rfl).outcome m hm hnumber ⟨result, hl⟩
      (hnumber ▸ hopened)
    exact ⟨answered, Progress.finished.inj (hl.symm.trans outcome)⟩
  · subst hnumber
    have hfirst : m = ⟨m.number, .release p, none, first⟩ :=
      Option.some.inj ((h.getElem?_of_begins hm hbegins).symm.trans hk)
    obtain ⟨hnotified, hreplies⟩ := h.silent_of_begins hm hbegins hl
    rw [offered, hnotified, hreplies]
    rw [hfirst] at hclosed hl
    exact ⟨rfl, release_progress_eq hnot hclosed hl⟩

/-! ## What they come to -/

/-- What an acquisition comes to that began at an arbiter. -/
structure Acquires (r : Run σ) (k : Nat) (p : Protocol) (force : Bool) (first : Arbiter σ) :
    Prop where
  /-- It is invalid if and only if its protocol has no sink. -/
  invalid_iff : r.ComesTo k (.error .invalidParameter) ↔ first.sink? p = none
  /-- It is denied if and only if its protocol has one and another protocol is the owner, which is
  neither forced nor has to make room by its priority. -/
  denied_iff : r.ComesTo k (.error .denied) ↔ (first.sink? p).isSome ∧ force = false ∧
    ∃ q, first.owner = some q ∧ q ≠ p ∧ ¬ first.Entitles p q
  /-- In both cases it tells nobody and changes nothing. -/
  refused : r.ComesTo k (.error .invalidParameter) ∨ r.ComesTo k (.error .denied) →
    r.LeavesAlone k first
  /-- Until it is over, it waits for an answer. -/
  waits : (∃ f ∈ r.pending, f.number = k) ∨ ∃ result, r.ComesTo k result
  /-- Whenever the transceiver is granted to it, its protocol is the owner then. -/
  owner : ∀ m ∈ grantings k r.past, m.after.owner = some p
  /-- Unless it is refused, it was granted the transceiver once when it is over. -/
  granted : ∀ result, r.ComesTo k result → result ≠ .error .invalidParameter →
    result ≠ .error .denied → ∃ m, grantings k r.past = [m]
  /-- All owners that it has told to make room have answered then, and the result is a fault if and
  only if one of these answers was. -/
  result : ∀ result, r.ComesTo k result → result ≠ .error .invalidParameter →
    result ≠ .error .denied →
      (abortAnswers k r.past).length = (notified k .arbitration .abort r.past).length ∧
        result = if ∃ b ∈ abortAnswers k r.past, b.word ≠ 0 then .error .callback else .ok ()

/-- What a release comes to that began at an arbiter. -/
structure Relinquishes (r : Run σ) (k : Nat) (p : Protocol) (first : Arbiter σ) : Prop where
  /-- It is invalid if and only if its protocol has no sink. -/
  invalid_iff : r.ComesTo k (.error .invalidParameter) ↔ first.sink? p = none
  /-- It is denied if and only if its protocol has one and another protocol is the owner. -/
  denied_iff : r.ComesTo k (.error .denied) ↔
    (first.sink? p).isSome ∧ ∃ q, first.owner = some q ∧ q ≠ p
  /-- In both cases it tells nobody and changes nothing. -/
  refused : r.ComesTo k (.error .invalidParameter) ∨ r.ComesTo k (.error .denied) →
    r.LeavesAlone k first
  /-- Until it is over, it waits for an answer. -/
  waits : (∃ f ∈ r.pending, f.number = k) ∨ ∃ result, r.ComesTo k result
  /-- Unless it is refused, all those that it has offered the transceiver have answered when it is
  over, and the result is a fault if and only if one of these answers was. -/
  result : ∀ result, r.ComesTo k result → result ≠ .error .invalidParameter →
    result ≠ .error .denied →
      (replies k r.past).length = (offered k r.past).length ∧
        result = if ∃ b ∈ replies k r.past, b.word ≠ 0 then .error .callback else .ok ()

theorem Reached.acquires (h : r.Reached)
    (hk : r.past[k]? = some ⟨k, .acquire p force, none, first⟩) : r.Acquires k p force first := by
  have hpressed := fun hnot => (h.reckoned hk hnot).ended
  have decides : r.Decides k (.acquire p force) first (faultedOf (abortAnswers k r.past)) :=
    h.decides hk fun hnot m hm hnumber result hl => (hpressed hnot m hm hnumber result hl).outcome
  have hend : ∀ result, r.ComesTo k result → result ≠ .error .invalidParameter →
      result ≠ .error .denied → Pressed (ledger k r.past) (.settled result) := by
    intro result hcomes hvalid hpermitted
    obtain ⟨hnot, -⟩ := decides.verdict_eq result hcomes hvalid hpermitted
    obtain ⟨m, hm, hnumber, hl⟩ := hcomes
    exact hpressed hnot m hm hnumber _ hl
  constructor
  case invalid_iff =>
    rw [decides.refusal_iff _ (by decide), refusal_invalidParameter_iff rfl]
  case denied_iff => rw [decides.refusal_iff _ (by decide), refusal_acquire_denied_iff]
  case refused => exact decides.refused
  case waits => exact decides.waits
  case owner =>
    intro m hm
    obtain ⟨hmem, hnumber, hgrants⟩ : m ∈ r.past ∧ m.number = k ∧ m.grants = true := by
      simpa [grantings] using hm
    subst hnumber
    obtain ⟨q, hq, howner⟩ := (h.deed hmem).owner_of_grants hgrants
    rw [(h.numbered.moment m hmem).unique ⟨first, hk⟩] at hq
    rwa [Option.some.inj hq]
  case granted => exact fun result hcomes hvalid hpermitted =>
    (hend result hcomes hvalid hpermitted).granted
  case result =>
    intro result hcomes hvalid hpermitted
    refine ⟨(hend result hcomes hvalid hpermitted).answered, ?_⟩
    rw [(decides.verdict_eq result hcomes hvalid hpermitted).2, verdict_faultedOf]

theorem Reached.relinquishes (h : r.Reached)
    (hk : r.past[k]? = some ⟨k, .release p, none, first⟩) : r.Relinquishes k p first := by
  have decides : r.Decides k (.release p) first (faultedOf (replies k r.past)) :=
    h.decides hk fun hnot m hm hnumber result hl => (h.released hk hnot hm hnumber hl).2
  constructor
  case invalid_iff =>
    rw [decides.refusal_iff _ (by decide), refusal_invalidParameter_iff rfl]
  case denied_iff => rw [decides.refusal_iff _ (by decide), refusal_release_denied_iff]
  case refused => exact decides.refused
  case waits => exact decides.waits
  case result =>
    intro result hcomes hvalid hpermitted
    obtain ⟨hnot, hresult⟩ := decides.verdict_eq result hcomes hvalid hpermitted
    obtain ⟨m, hm, hnumber, hl⟩ := hcomes
    exact ⟨(h.released hk hnot hm hnumber hl).1, by rw [hresult, verdict_faultedOf]⟩

/-- **Every acquisition and every release comes to what it should.** A refusal has its grounds and
no effect. What is not refused succeeds, with a fault if and only if an owner that had to make room
answered with one, or one of those that were offered the transceiver. Neither the new owner's answer
nor the former owner's counts, nor what was answered to operations nested in this one. -/
theorem verdicts_play (preemption : Bool) (moves : List (Move σ)) :
    (∀ k p force first,
      (play preemption moves).past[k]? = some ⟨k, .acquire p force, none, first⟩ →
        (play preemption moves).Acquires k p force first) ∧
      ∀ k p first, (play preemption moves).past[k]? = some ⟨k, .release p, none, first⟩ →
        (play preemption moves).Relinquishes k p first :=
  ⟨fun _ _ _ _ hk => (reached_play preemption moves).acquires hk,
    fun _ _ _ hk => (reached_play preemption moves).relinquishes hk⟩

end Run

/-- Two owners have to make room one after the other. The first of them gives the transceiver up
before it answers; a protocol that it is offered takes it, and answers with a fault all the same.
The new owners and the former one answer with faults, too, when they are told. -/
def faultsWithin : List (Move Unit) :=
  [.call (.register .arbitration .ant 3 ()), .answer .success,
    .call (.register .arbitration .genFsk 2 ()), .answer .success,
    .call (.register .arbitration .ble 1 ()), .answer .success,
    .call (.acquire .ant false), .answer .success,
    .call (.acquire .ble false), .call (.release .ant), .answer .fault, .answer .success,
    .call (.acquire .genFsk false), .answer .fault, .answer .fault, .answer .success,
    .answer .success, .answer .fault]

/-- The acquisition in which all of this happened goes well, because the owners that had to make
room have not answered with faults. The release within it does not. -/
theorem verdicts_play_faultsWithin :
    (∃ first, (Run.play true faultsWithin).Acquires 8 .ble false first) ∧
      abortAnswers 8 (Run.play true faultsWithin).past = [.success, .success] ∧
      (Run.play true faultsWithin).ComesTo 8 (.ok ()) ∧
      (∃ first, (Run.play true faultsWithin).Relinquishes 9 .ant first) ∧
      replies 9 (Run.play true faultsWithin).past = [.success, .fault] ∧
      (Run.play true faultsWithin).ComesTo 9 (.error .callback) := by
  obtain ⟨acquires, relinquishes⟩ := Run.verdicts_play true faultsWithin
  have hlast : (Run.play true faultsWithin).past[17] ∈ (Run.play true faultsWithin).past :=
    List.getElem_mem _
  have hwithin : (Run.play true faultsWithin).past[14] ∈ (Run.play true faultsWithin).past :=
    List.getElem_mem _
  exact ⟨⟨_, acquires 8 .ble false _ rfl⟩, rfl, ⟨_, hlast, rfl, rfl⟩,
    ⟨_, relinquishes 9 .ant _ rfl⟩, rfl, ⟨_, hwithin, rfl, rfl⟩⟩

end SharedRadio.Arbiter
