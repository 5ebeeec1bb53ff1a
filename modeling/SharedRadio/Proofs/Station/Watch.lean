import SharedRadio.Clock.Dual
import SharedRadio.Proofs.Coexistence.Watch
import SharedRadio.Proofs.Station.Run

/-!
# Access that is held is watched

`watches_play` lifts `Performs.watchful` to the runs of a station: whenever an operation is over or
a sink is notified, the edge interrupt of the monitored deny line is enabled exactly while access is
held, and that of the other line is disabled. The monitored line is the one of the last request that
was signalled, which `lastSignalled` reads off the history.

Writes of the request line may fail, and so may every read of a deny line but the one that answers a
request. Nobody else may touch the interrupts.
-/

namespace SharedRadio

theorem Direction.forall_iff {p : Direction → Prop} : (∀ d, p d) ↔ p .rx ∧ p .tx :=
  ⟨fun h => ⟨h .rx, h .tx⟩, fun h d => by cases d <;> simp [h]⟩

instance {p : Direction → Prop} [DecidablePred p] : Decidable (∀ d, p d) :=
  decidable_of_iff _ Direction.forall_iff.symm

namespace Station

open Coexistence

variable {σ κ : Type}

/-! ## Watching -/

/-- The deny line of the direction that was asked for last is watched while access is held. -/
structure Watches (e : Engine κ) (asked : Direction) : Prop where
  /-- The monitored line is that of the direction asked for. -/
  monitored : e.monitored = asked
  /-- Its interrupt is enabled if and only if access is held. -/
  armed_iff : (e.rig.denyLine e.monitored).armed = true ↔ e.held ≠ none
  /-- The interrupt of the other line is disabled. -/
  other : ∀ d, d ≠ e.monitored → (e.rig.denyLine d).armed = false
  /-- While the engine is disabled no access is held, and both interrupts are disabled. -/
  disabled : e.enabled = false → e.held = none ∧ ∀ d, (e.rig.denyLine d).armed = false

theorem Watches.of_watchful {e : Engine κ} {asked : Direction} (h : Watchful e.stance)
    (hmonitored : e.monitored = asked) : Watches e asked := by
  have harmed : ∀ d, (e.rig.denyLine d).armed = (e.held.isSome && decide (d = e.monitored)) :=
    h.armed_eq
  refine ⟨hmonitored, ?armed_iff, h.faces.other, fun hdisabled => ?disabled⟩
  case armed_iff =>
    rw [harmed, decide_eq_true rfl, Bool.and_true, Option.isSome_iff_ne_none]
  case disabled =>
    have hidle : e.held = none := h.idle hdisabled
    refine ⟨hidle, fun d => ?_⟩
    rw [harmed, hidle]
    rfl

/-! ## What was asked for last -/

/-- The direction of a request that is signalled at a moment. -/
def Cue.signalled? (k : Cue σ κ) (t : List Sighting) : Option Direction :=
  match k with
  | .call (.engine operation) => operation.signalled? t
  | _ => none

theorem Cue.signalled?_of_logged (k : Cue σ κ) {t : List Sighting}
    (h : ∀ s ∈ t, ∃ line, s = .logged line) : k.signalled? t = none := by
  have hquiet : Writes t = false := by
    refine List.any_eq_false.mpr fun s hs => ?_
    obtain ⟨line, rfl⟩ := h s hs
    exact Bool.false_ne_true
  unfold signalled?
  split
  · unfold Engine.Operation.signalled?
    split
    · rw [hquiet]
      rfl
    · rfl
  · rfl

variable [Clock κ]

/-- The direction of the last request that was signalled in a session; at the beginning it counts
as one to transmit. -/
def lastSignalled (session : List (Moment σ κ)) : Direction :=
  (session.filterMap fun m => m.cue.signalled? m.reaction.sightings).getLast?.getD .tx

theorem lastSignalled_append_singleton (session : List (Moment σ κ)) (m : Moment σ κ) :
    lastSignalled (session ++ [m]) =
      (m.cue.signalled? m.reaction.sightings).getD (lastSignalled session) := by
  unfold lastSignalled
  rw [List.filterMap_append]
  cases hm : m.cue.signalled? m.reaction.sightings <;> simp [hm]

/-! ## Runs in which requests are answered -/

/-- At a moment a request gets its answer, and what happens to the rig from outside leaves the
interrupts alone. -/
def Moment.Orderly (m : Moment σ κ) : Prop :=
  match m.cue with
  | .call (.engine (.request _)) =>
    Legible m.reaction.sightings ∧ m.reaction.progress.isEndless = false
  | .call (.disturb change) =>
    ∀ e ∈ m.before.engine, ∀ d, ((change e.rig).denyLine d).armed = (e.rig.denyLine d).armed
  | _ => True

instance (m : Moment σ κ) : Decidable m.Orderly := by
  unfold Moment.Orderly
  split <;> infer_instance

/-- Every moment of a session keeps the right deny line watched. -/
theorem watchful_of_touches {m : Moment σ κ} (hm : m.Orderly) (hstays : m.cue.installs = false)
    {e₀ e : Engine κ} (he₀ : m.before.engine = some e₀) (he : m.reaction.station.engine = some e)
    (h : Watchful e₀.stance) :
    Watchful e.stance ∧
      e.monitored = (m.cue.signalled? m.reaction.sightings).getD e₀.monitored := by
  have touches := touches_reaction m
  unfold Moment.Orderly at hm
  rw [he₀] at touches hm
  generalize m.cue = k at touches hm hstays ⊢
  generalize hengine : some e₀ = before at touches
  cases touches with
  | leaves others engine logged =>
    obtain rfl : e₀ = e := Option.some.inj (hengine.trans (engine.symm.trans he))
    rw [k.signalled?_of_logged logged]
    exact ⟨h, rfl⟩
  | installs | removes => cases hstays
  | @operates operation e₁ e' x _ performs engine progress =>
    obtain rfl := Option.some.inj hengine
    obtain rfl := Option.some.inj (engine.symm.trans he)
    refine performs.watchful h ?_
    rintro d rfl
    exact ⟨hm.1, fun hx => Bool.false_ne_true (hm.2.symm.trans (progress hx))⟩
  | interrupts interrupts sightings logged engine =>
    obtain rfl := Option.some.inj hengine
    obtain rfl := Option.some.inj (engine.symm.trans he)
    exact interrupts.watchful h
  | @disturbs change e₁ _ silent engine =>
    obtain rfl := Option.some.inj hengine
    obtain rfl := Option.some.inj (engine.symm.trans he)
    exact ⟨⟨fun d => (hm e₀ rfl d).trans (h.armed_eq d), h.idle⟩, rfl⟩

/-- **Access that is held is watched, on the deny line of the direction that was asked for last.**
A run that moves lead to has come to the end of an operation, or to a notification. Whichever
writes of the request line have failed, and whichever operations have failed with them, the
interrupts that are enabled then are the ones that should be. -/
theorem watches_play (preemption : Bool) (moves : List (Move σ κ)) {e : Engine κ}
    (horderly : ∀ m ∈ (Run.play preemption moves).session, m.Orderly)
    (he : (Run.play preemption moves).station.engine = some e) :
    Watches e (lastSignalled (Run.play preemption moves).session) := by
  suffices h : Watchful e.stance ∧
      e.monitored = lastSignalled (Run.play preemption moves).session from .of_watchful h.1 h.2
  refine Run.session_induction (P := fun session e => (∀ m ∈ session, m.Orderly) →
    Watchful e.stance ∧ e.monitored = lastSignalled session) ?begins ?goesOn preemption moves he
    horderly
  case begins =>
    intro m e hinstalls he _
    obtain ⟨config, rig, hcue, prepares⟩ := prepares_of_installs hinstalls he
    have hnone : m.cue.signalled? m.reaction.sightings = none := by rw [hcue]; rfl
    refine ⟨prepares.watchful.1, ?_⟩
    rw [← List.nil_append [m], lastSignalled_append_singleton, hnone]
    exact prepares.watchful.2
  case goesOn =>
    intro session m e₀ e ih hstays he₀ he horderly
    obtain ⟨hwatchful, hmonitored⟩ := ih fun m' hm' => horderly m' (List.mem_append_left _ hm')
    rw [lastSignalled_append_singleton, ← hmonitored]
    exact watchful_of_touches (horderly m (by simp)) hstays he₀ he hwatchful

/-- Access to transmit is changed to receiving, which cannot be signalled. The deny line cannot be
read at a first interrupt. At a second one it can, and the sink that is told so asks for access to
receive. -/
def unsettled : List (Move Unit DualClock) :=
  [.call (.install { bitTicks := 1, guardMicros := 1, sampleMicros := 1 }
      { request := { failing := [33] }, clock := { patience := 2 } }),
    .call (.arbiter (.register .coexistence .ble 1 ())), .answer .success,
    .call (.engine (.setPriority .rx true)),
    .call (.engine (.request .tx)), .call (.engine (.change .rx)),
    .call (.disturb fun rig => { rig with txDeny.queued := [none] }), .call (.interrupt .tx),
    .call (.interrupt .tx), .call (.engine (.request .rx))]

/-- The sink has not answered yet, and the deny line for receiving is watched. -/
theorem watches_play_unsettled :
    (∀ m ∈ (Run.play true unsettled).session, m.Orderly) ∧
      lastSignalled (Run.play true unsettled).session = .rx ∧
      ∃ e, (Run.play true unsettled).station.engine = some e ∧ e.held = some .rx ∧
        Watches e .rx := by
  have horderly : ∀ m ∈ (Run.play true unsettled).session, m.Orderly := by decide +kernel
  have hlast : lastSignalled (Run.play true unsettled).session = .rx := by decide +kernel
  have hheld : (Run.play true unsettled).station.engine.map Engine.held = some (some .rx) := by
    decide +kernel
  obtain ⟨e, he, hheld⟩ := Option.map_eq_some_iff.mp hheld
  exact ⟨horderly, hlast, e, he, hheld, hlast ▸ watches_play true unsettled horderly he⟩

end Station

end SharedRadio
