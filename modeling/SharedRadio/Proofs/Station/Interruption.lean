import SharedRadio.Clock.Dual
import SharedRadio.Proofs.Arbiter.Tour
import SharedRadio.Proofs.Station.Arbitration

/-!
# The interrupt of a deny line

An interrupt clears its pending flag, and that is all while the engine is disabled. Otherwise the
line is read, and what it says is broadcast to the coexistence sinks. `handles_play` follows this
from the interrupt to the last answer.

The engine is looked at in the first leg only. So a sink may disable it, or disturb the line, or set
off another interrupt, and all others are told of the same event nevertheless.
-/

namespace SharedRadio

namespace Coexistence

/-! ## What an engine makes of an interrupt -/

namespace Rig

variable {κ : Type}

/-- The rig after a pending edge interrupt of a deny line was cleared. -/
def afterClearing (r : Rig κ) (d : Direction) : Rig κ :=
  r.setDenyLine d { r.denyLine d with cleared := (r.denyLine d).cleared + 1 }

/-- The rig after a deny line was read. -/
def afterReading (r : Rig κ) (d : Direction) : Rig κ := r.setDenyLine d (r.denyLine d).read.2

/-- To clear a pending interrupt does not change what a deny line reads. -/
theorem read_afterClearing (r : Rig κ) (d : Direction) :
    ((r.afterClearing d).denyLine d).read.1 = (r.denyLine d).read.1 := by
  rw [afterClearing, denyLine_setDenyLine_self]
  unfold DenyLine.read
  cases (r.denyLine d).queued <;> rfl

end Rig

namespace Engine

variable {κ : Type} {e : Engine κ} {d : Direction} {high : Bool}

/-- What the coexistence sinks are told of when a deny line reads a level. -/
def eventOf (e : Engine κ) (high : Bool) : Event :=
  if e.config.denyLevel.denies high then .abort else .idle

/-- The engine after an interrupt that finds it disabled. -/
def afterIgnoring (e : Engine κ) (d : Direction) : Engine κ :=
  { e with rig := { e.rig.afterClearing d with sightings := [] } }

/-- The engine after an interrupt at which the deny line reads a level. -/
def afterHeeding (e : Engine κ) (d : Direction) (high : Bool) : Engine κ :=
  { e with
    statistics :=
      if e.config.denyLevel.denies high then e.statistics.bump d .abort else e.statistics
    rig := { (e.rig.afterClearing d).afterReading d with sightings := [] } }

theorem run_clear (e : Engine κ) (d : Direction) :
    (Action.clear d).run e =
      (.ok (), { e with rig := (e.rig.afterClearing d).notice (.cleared d) }) := rfl

theorem run_isDenied (hread : (e.rig.denyLine d).read.1 = some high) :
    (Action.isDenied d).run e = (.ok (e.config.denyLevel.denies high),
      { e with rig := (e.rig.afterReading d).notice (.sampled d (some high)) }) := by
  unfold Action.isDenied Action.withRig
  rw [run_bind, run_get_bind, Rig.run_sample, hread]
  rfl

/-- A disabled engine clears the pending interrupt, and does nothing else. -/
theorem act_interrupt_of_disabled (h : e.enabled = false) (d : Direction) :
    e.act (Action.interrupt d) = (.ok none, [.cleared d], e.afterIgnoring d) := by
  have hrun : (Action.interrupt d).run { e with rig.sightings := [] } =
      (.ok none, { e with
        rig := (Rig.afterClearing { e.rig with sightings := [] } d).notice (.cleared d) }) := by
    unfold Action.interrupt
    rw [run_bind_of_ok (run_clear _ d), run_get_bind, if_neg (by simp [h])]
    rfl
  unfold act
  rw [hrun]
  cases d <;> rfl

/-- An enabled engine clears the pending interrupt and reads the line, each of them once. -/
theorem act_interrupt_of_read (h : e.enabled = true)
    (hread : (e.rig.denyLine d).read.1 = some high) :
    e.act (Action.interrupt d) =
      (.ok (some (e.eventOf high)), [.cleared d, .sampled d (some high),
        .logged (Record.lineChanged d (e.eventOf high)).logLine], e.afterHeeding d high) := by
  have hread' : (((Rig.afterClearing { e.rig with sightings := [] } d).notice
      (.cleared d)).denyLine d).read.1 = some high := by
    rw [← hread, ← e.rig.read_afterClearing d]
    cases d <;> rfl
  unfold act Action.interrupt eventOf afterHeeding
  rw [run_bind_of_ok (run_clear _ d), run_get_bind, if_pos h, run_bind_of_ok (run_isDenied hread')]
  cases e.config.denyLevel.denies high <;> cases d <;> rfl

end Engine

end Coexistence

namespace Station

open Coexistence

variable {σ κ : Type} [Clock κ]

/-! ## From the interrupt to the last answer -/

/-- A moment after a history belongs to the operation of the arbiter that has a number. -/
def Belongs (preemption : Bool) (older : List (Moment σ κ)) (m : Moment σ κ) (k : Nat) : Prop :=
  ∃ μ, m.part? (arbitration preemption older) = some μ ∧ μ.number = k

/-- A station tells the coexistence sinks of an event, by the operation of its arbiter that has a
number. It began at an arbiter. -/
structure Relays (preemption : Bool) (past : List (Moment σ κ)) (k : Nat) (event : Event)
    (first : Arbiter σ) : Prop where
  /-- Its arbiter does. -/
  announces : (arbitration preemption past).Announces k event first
  /-- Whatever the operation tells anybody is that event, and it goes to the coexistence sink that
  is in the slot then. -/
  tells : ∀ older m newer, past = older ++ m :: newer → Belongs preemption older m k →
    ∀ n w, m.reaction.progress = .notifies n w → n.slot = .coexistence ∧ n.event = event ∧
      m.reaction.station.arbiter.registry.sink? n.protocol .coexistence = some n.sink
  /-- It does nothing to the engine once a sink has been told. -/
  leaves : ∀ older m newer w b, past = older ++ m :: newer → Belongs preemption older m k →
    m.cue = .answer w b → m.reaction.station.engine = m.before.engine ∧
      ∀ s ∈ m.reaction.sightings, ∃ line, s = .logged line
  /-- It fails if and only if a sink that it has told answers a fault. -/
  result : ∀ older m newer, past = older ++ m :: newer → Belongs preemption older m k →
    ∀ outcome, m.reaction.progress = .finished outcome → outcome =
      if ∃ b ∈ Arbiter.replies k (arbitration preemption past).past, b.word ≠ 0
      then .failed .callback else .done

/-- How a station handles the interrupt of a deny line, at a moment between an older history and a
newer one, with an engine. -/
structure Handles (preemption : Bool) (older : List (Moment σ κ)) (m : Moment σ κ)
    (newer : List (Moment σ κ)) (line : Direction) (e : Engine κ) : Prop where
  /-- While the engine is disabled, the pending interrupt is cleared, and that is all. -/
  disabled : e.enabled = false →
    m.reaction =
      finish { m.before with engine := some (e.afterIgnoring line) } [.cleared line] .done
  /-- Otherwise the pending interrupt is cleared and the line is read, each of them once. -/
  sightings : e.enabled = true → ∀ high, (e.rig.denyLine line).read.1 = some high →
    m.reaction.sightings = [.cleared line, .sampled line (some high),
      .logged (Record.lineChanged line (e.eventOf high)).logLine]
  /-- The engine is as this leaves it. -/
  engine : e.enabled = true → ∀ high, (e.rig.denyLine line).read.1 = some high →
    m.reaction.station.engine = some (e.afterHeeding line high)
  /-- What the line says is broadcast. -/
  relays : e.enabled = true → ∀ high, (e.rig.denyLine line).read.1 = some high →
    Relays preemption (older ++ m :: newer) (arbitration preemption older).past.length
      (e.eventOf high) m.before.arbiter

section

variable {preemption : Bool} {moves : List (Move σ κ)} {older newer : List (Moment σ κ)}
  {m : Moment σ κ} {μ : Arbiter.Moment σ}

/-- A broadcast that has begun at a station tells its coexistence sinks. -/
theorem relays_of_begun {k : Nat} {event : Event} {first : Arbiter σ}
    (hk : (arbitration preemption (Run.play preemption moves).past).past[k]? =
      some ⟨k, .broadcast event, none, first⟩) :
    Relays preemption (Run.play preemption moves).past k event first := by
  have h : (arbitration preemption (Run.play preemption moves).past).Reached :=
    Arbiter.Run.reached_play _ _
  have announces := h.announces hk
  -- A moment that belongs to the broadcast is one of the arbiter's run.
  have part : ∀ older m newer, (Run.play preemption moves).past = older ++ m :: newer →
      Belongs preemption older m k →
        ∃ μ ∈ (arbitration preemption (Run.play preemption moves).past).past, μ.number = k ∧
          ∃ s : Station σ κ, ∃ t, m.reaction = s.ofLeg t μ.leg := by
    rintro older m newer hpast ⟨μ, hμ, hnumber⟩
    obtain ⟨hpart, hreaction⟩ := Run.part_of_past hpast hμ
    refine ⟨μ, ?_, hnumber, hreaction⟩
    have hprefix := past_arbitration_prefix preemption (older ++ [m]) newer
    rw [List.append_assoc, List.singleton_append, ← hpast, hpart] at hprefix
    exact hprefix.subset (by simp)
  constructor
  case announces => exact announces
  case tells =>
    intro older m newer hpast hbelongs n w hl
    obtain ⟨μ, hmem, hnumber, s, t, hreaction⟩ := part older m newer hpast hbelongs
    rw [hreaction, progress_ofLeg] at hl
    rw [hreaction, arbiter_ofLeg]
    cases hμ : μ.leg.progress with
    | finished result => rw [hμ] at hl; cases hl
    | notifies n' w' =>
      rw [hμ] at hl
      cases hl
      exact announces.only μ hmem hnumber n w hμ
  case leaves =>
    intro older m newer w b _ _ hcue
    have touches := touches_reaction m
    rw [hcue] at touches
    cases touches with
    | leaves _ engine logged => exact ⟨engine, logged⟩
  case result =>
    intro older m newer hpast hbelongs outcome hl
    obtain ⟨μ, hmem, hnumber, s, t, hreaction⟩ := part older m newer hpast hbelongs
    rw [hreaction, progress_ofLeg] at hl
    cases hμ : μ.leg.progress with
    | notifies n' w' => rw [hμ] at hl; cases hl
    | finished result =>
      obtain ⟨-, hresult⟩ := announces.result μ hmem hnumber ⟨result, hμ⟩
      rw [hresult] at hl
      cases hl
      split <;> rfl

end

theorem records_broadcastFrom (a : Arbiter σ) (event : Event) (start : Option Protocol)
    (faulted : Bool) : (a.broadcastFrom event start faulted).records = [] := by
  unfold Arbiter.broadcastFrom
  split <;> rfl

/-- **An interrupt reaches every coexistence sink once, with one and the same verdict.** -/
theorem handles_play (preemption : Bool) (moves : List (Move σ κ)) {older newer : List (Moment σ κ)}
    {m : Moment σ κ} (hpast : (Run.play preemption moves).past = older ++ m :: newer)
    {line : Direction} (hcue : m.cue = .call (.interrupt line)) {e : Engine κ}
    (he : m.before.engine = some e) : Handles preemption older m newer line e := by
  have hreaction : m.reaction = m.before.interrupt line := by
    unfold Moment.reaction
    rw [hcue]
    rfl
  have hheeds : e.enabled = true → ∀ high, (e.rig.denyLine line).read.1 = some high →
      m.reaction = ofLeg { m.before with engine := some (e.afterHeeding line high) }
        [.cleared line, .sampled line (some high),
          .logged (Record.lineChanged line (e.eventOf high)).logLine]
        (m.before.arbiter.call (.broadcast (e.eventOf high))) := by
    intro henabled high hread
    rw [hreaction, interrupt, withEngine, he]
    dsimp only
    rw [Engine.act_interrupt_of_read henabled hread]
  constructor
  case disabled =>
    intro hdisabled
    rw [hreaction, interrupt, withEngine, he]
    dsimp only
    rw [Engine.act_interrupt_of_disabled hdisabled]
  case sightings =>
    intro henabled high hread
    rw [hheeds henabled high hread]
    show _ ++ ((m.before.arbiter.broadcastFrom _ _ _).records.map _) = _
    rw [records_broadcastFrom]
    rfl
  case engine =>
    intro henabled high hread
    rw [hheeds henabled high hread]
    rfl
  case relays =>
    intro henabled high hread
    have hmove : m.move? = some (.call (.broadcast (e.eventOf high))) := by
      have hbrought : brought? e line = some (e.eventOf high) := by
        unfold brought?
        rw [Engine.act_interrupt_of_read henabled hread]
      unfold Moment.move?
      rw [hcue]
      simp only [arbiterCall?, he, Option.bind_some, hbrought, Option.map_some]
    have hk := Run.getElem?_arbitration hpast hmove
    rw [← hpast] at hk ⊢
    exact relays_of_begun hk

/-- Two coexistence sinks are registered, and the line for transmitting denies access. -/
def deniedToTwo : List (Move Unit DualClock) :=
  [.call (.install { bitTicks := 1, guardMicros := 1, sampleMicros := 1 }
      { txDeny := { high := true }, clock := { patience := 2 } }),
    .call (.arbiter (.register .coexistence .ant 2 ())), .answer .success,
    .call (.arbiter (.register .coexistence .ble 1 ())), .answer .success]

/-- The first sink disables the engine, meets with another interrupt, and answers a fault. -/
def disabledMeanwhile : List (Move Unit DualClock) :=
  [.call (.engine .disable), .call (.interrupt .tx), .answer .fault, .answer .success]

/-- Both sinks are told that access is denied. -/
theorem handles_play_disabledMeanwhile :
    Arbiter.announced 4 .abort (arbitration true (Run.play true
      (deniedToTwo ++ .call (.interrupt .tx) :: disabledMeanwhile)).past).past = [.ble, .ant] ∧
    ∃ newer e,
      (Run.play true (deniedToTwo ++ .call (.interrupt .tx) :: disabledMeanwhile)).past =
        (Run.play true deniedToTwo).past ++
          ⟨.call (.interrupt .tx), (Run.play true deniedToTwo).station⟩ :: newer ∧
      (Run.play true deniedToTwo).station.engine = some e ∧ e.enabled = true ∧
      (e.rig.denyLine .tx).read.1 = some true ∧ e.eventOf true = .abort ∧
      Handles true (Run.play true deniedToTwo).past
        ⟨.call (.interrupt .tx), (Run.play true deniedToTwo).station⟩ newer .tx e := by
  refine ⟨by decide +kernel, ?_⟩
  obtain ⟨newer, hpast⟩ :=
    Run.exists_past_of_call true deniedToTwo disabledMeanwhile (.interrupt .tx)
  have hengine : (Run.play true deniedToTwo).station.engine.map
      (fun e => (e.enabled, (e.rig.denyLine .tx).read.1, e.eventOf true)) =
        some (true, some true, .abort) := by
    decide +kernel
  obtain ⟨e, he, hstate⟩ := Option.map_eq_some_iff.mp hengine
  obtain ⟨henabled, hread, hevent⟩ : e.enabled = true ∧ _ ∧ _ := by
    simpa only [Prod.mk.injEq] using hstate
  generalize (Run.play true deniedToTwo).station = s at hpast he ⊢
  exact ⟨newer, e, hpast, he, henabled, hread, hevent, handles_play true _ hpast rfl he⟩

end Station

end SharedRadio
