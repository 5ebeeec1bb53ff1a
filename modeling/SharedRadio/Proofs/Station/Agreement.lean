import SharedRadio.Clock.Dual
import SharedRadio.Proofs.Coexistence.Transcript
import SharedRadio.Proofs.Station.Run

/-!
# The external arbiter knows which access is held

The external arbiter hears the request line and nothing else. It takes the frames off the line, goes
by the messages in them, and so comes to think that some access is held. `agrees_play` says that it
is right about that whenever an operation is over or a sink is notified, and that no frame is under
way then, as long as no line has failed and every wait has ended since the engine was made.

Both are needed. A write that fails leaves part of a frame on the line, and a wait that does not end
stops in the midst of one. A read that fails leaves a signalled request that is neither granted nor
taken back.
-/

namespace SharedRadio.Station

open Coexistence

variable {σ κ : Type}

/-! ## What the external arbiter hears -/

/-- What a receiver has heard that hears the request line from the beginning. -/
def heard (t : List Sighting) : Receiver := ({} : Receiver).hearAll (drivenLevels t)

theorem heard_append (t u : List Sighting) :
    heard (t ++ u) = (heard t).hearAll (drivenLevels u) := by
  rw [heard, drivenLevels_append, Receiver.hearAll_append]
  rfl

/-- What has been heard tells which access is held. -/
structure Agrees (r : Receiver) (e : Engine κ) : Prop where
  /-- No frame is under way. -/
  between : r.started = []
  /-- The access that the messages tell of is the one that is held. -/
  access : r.access = e.held

theorem drivenLevels_of_logged {t : List Sighting} (h : ∀ s ∈ t, ∃ line, s = .logged line) :
    drivenLevels t = [] := by
  refine List.filterMap_eq_nil_iff.mpr fun s hs => ?_
  obtain ⟨line, rfl⟩ := h s hs
  rfl

/-- Messages that tell of the access keep the agreement. -/
theorem Agrees.of_tells {r : Receiver} {e e' : Engine κ} (h : Agrees r e) {messages : List UInt8}
    {t : List Sighting} (htells : Engine.Tells messages e.held t e'.stance)
    (hlegible : Legible t) : Agrees (r.hearAll (drivenLevels t)) e' := by
  rw [htells.levels]
  constructor
  · rw [Receiver.hearAll_frames h.between]
  · rw [Receiver.access_hearAll_frames h.between, h.access]
    exact htells.access hlegible

/-- A new engine is agreed about when it is ready. -/
theorem agrees_of_prepares {config : Config} {rig : Rig κ} {e : Engine κ} {t : List Sighting}
    (prepares : Engine.Prepares (Engine.stance { config, rig }) (.ok ()) t e.stance)
    (hlands : Lands t) : Agrees (heard t) e := by
  obtain ⟨hlevels, hheld⟩ := prepares.of_ok hlands
  have hidle : heard t = ({} : Receiver).hearAll ([Message.release].flatMap Frame.levels) := by
    rw [heard, hlevels, Receiver.hearAll_idle rfl, List.flatMap_singleton]
  rw [hidle]
  constructor
  · rw [Receiver.hearAll_frames rfl]
  · rw [Receiver.access_hearAll_frames rfl]
    exact hheld.symm

/-! ## Runs without a fault -/

variable [Clock κ]

/-- No line failed at a moment, and every wait ended. -/
def Moment.Faultless (m : Moment σ κ) : Prop :=
  Lands m.reaction.sightings ∧ Legible m.reaction.sightings ∧
    m.reaction.progress.isEndless = false

instance (m : Moment σ κ) : Decidable m.Faultless :=
  inferInstanceAs (Decidable (Lands _ ∧ Legible _ ∧ _ = _))

/-- What has been noticed of the present engine, in order. -/
def Run.sightings (r : Run σ κ) : List Sighting := r.session.flatMap fun m => m.reaction.sightings

/-- A moment at which the engine stays keeps the agreement. -/
theorem Agrees.of_touches {r : Receiver} {m : Moment σ κ} (hm : m.Faultless)
    (hstays : m.cue.installs = false) (h : ∀ e, m.before.engine = some e → Agrees r e)
    {e : Engine κ} (he : m.reaction.station.engine = some e) :
    Agrees (r.hearAll (drivenLevels m.reaction.sightings)) e := by
  obtain ⟨hlands, hlegible, hends⟩ := hm
  have touches := touches_reaction m
  generalize m.cue = k, hbefore : m.before.engine = e₀ at touches hstays
  cases touches with
  | leaves others engine logged =>
    have hsame : m.before.engine = some e := by rw [hbefore, ← engine, he]
    exact (h e hsame).of_tells (.quiet (drivenLevels_of_logged logged) rfl) hlegible
  | installs | removes => cases hstays
  | operates performs engine progress =>
    obtain rfl := Option.some.inj (engine.symm.trans he)
    have hended := fun hx => Bool.false_ne_true (hends.symm.trans (progress hx))
    exact (h _ hbefore).of_tells (Engine.tells_of_performs performs hlands hended) hlegible
  | @interrupts _ _ _ _ t u _ interrupts sightings logged engine =>
    obtain rfl := Option.some.inj (engine.symm.trans he)
    have hlevels : drivenLevels m.reaction.sightings = drivenLevels t := by
      rw [sightings, drivenLevels_append, drivenLevels_of_logged logged, List.append_nil]
    rw [sightings] at hlegible
    rw [hlevels]
    exact (h _ hbefore).of_tells interrupts.tells (legible_append.mp hlegible).1
  | disturbs silent engine =>
    obtain rfl := Option.some.inj (engine.symm.trans he)
    rw [silent]
    exact (h _ hbefore).of_tells (.quiet rfl rfl) nofun

/-- A moment at which an engine is installed begins the agreement. -/
theorem agrees_of_installs {m : Moment σ κ} (hm : m.Faultless) (hinstalls : m.cue.installs = true)
    {e : Engine κ} (he : m.reaction.station.engine = some e) :
    Agrees (heard m.reaction.sightings) e := by
  obtain ⟨config, rig, -, prepares⟩ := prepares_of_installs hinstalls he
  exact agrees_of_prepares prepares hm.1

theorem Run.sightings_after (r : Run σ κ) (m : Moment σ κ) (others : List (Arbiter.Waiting σ)) :
    (r.after m others).sightings =
      if m.cue.installs then m.reaction.sightings else r.sightings ++ m.reaction.sightings := by
  rw [sightings, session_after]
  split <;> simp [sightings]

/-- What has been heard of the present engine of a run tells which access is held. -/
def Run.Agreed (r : Run σ κ) : Prop :=
  (∀ m ∈ r.session, m.Faultless) → ∀ e, r.station.engine = some e → Agrees (heard r.sightings) e

/-- One more moment keeps the agreement, or begins it anew. -/
theorem Run.Agreed.after {r : Run σ κ} (h : r.Agreed) {m : Moment σ κ}
    (hbefore : m.before = r.station) (others : List (Arbiter.Waiting σ)) :
    (r.after m others).Agreed := by
  intro hfaultless e he
  rw [session_after] at hfaultless
  rw [sightings_after]
  have hm : m.Faultless := hfaultless m (by split <;> simp)
  -- A session begins with an installation, and every other moment adds to it.
  cases hinstalls : m.cue.installs with
  | false =>
    simp only [hinstalls, Bool.false_eq_true, if_false] at hfaultless ⊢
    rw [heard_append]
    refine Agrees.of_touches hm hinstalls (fun e₀ he₀ => ?_) he
    exact h (fun m' hm' => hfaultless m' (List.mem_append_left _ hm')) e₀ (hbefore ▸ he₀)
  | true =>
    rw [if_pos rfl]
    exact agrees_of_installs hm hinstalls he

/-- **The external arbiter knows which access is held.** A run that moves lead to has come to the
end of an operation, or to a notification. If no line has failed and every wait has ended since the
engine was made, what has been heard on the request line since then tells which access is held. -/
theorem agrees_play (preemption : Bool) (moves : List (Move σ κ)) {e : Engine κ}
    (hfaultless : ∀ m ∈ (Run.play preemption moves).session, m.Faultless)
    (he : (Run.play preemption moves).station.engine = some e) :
    Agrees (heard (Run.play preemption moves).sightings) e := by
  have hagreed : (Run.play preemption moves).Agreed :=
    Run.play_induction (fun _ _ e he => nomatch he)
      (fun r m others h hbefore => h.after hbefore others) preemption moves
  exact hagreed hfaultless e he

/-- Access to transmit is changed to receiving and then withdrawn. The sink that is told so asks for
access to transmit, which is denied, and then for access to receive. -/
def withdrawn : List (Move Unit DualClock) :=
  [.call (.install { bitTicks := 1, guardMicros := 1, sampleMicros := 1 }
      { clock := { patience := 2 } }),
    .call (.arbiter (.register .coexistence .ble 1 ())), .answer .success,
    .call (.engine (.setPriority .rx true)),
    .call (.engine (.request .tx)), .call (.engine (.change .rx)),
    .call (.disturb fun rig => { rig with txDeny.high := true }), .call (.interrupt .tx),
    .call (.engine (.request .tx)), .call (.engine (.request .rx))]

/-- The sink has not answered yet, and the receiver knows that access to receive is held. -/
theorem agrees_play_withdrawn :
    (∀ m ∈ (Run.play true withdrawn).session, m.Faultless) ∧
      (Run.play true withdrawn).pending.length = 1 ∧
      ∃ e, (Run.play true withdrawn).station.engine = some e ∧ e.held = some .rx ∧
        Agrees (heard (Run.play true withdrawn).sightings) e := by
  have hfaultless : ∀ m ∈ (Run.play true withdrawn).session, m.Faultless := by decide +kernel
  have hheld : (Run.play true withdrawn).station.engine.map Engine.held = some (some .rx) := by
    decide +kernel
  obtain ⟨e, he, hheld⟩ := Option.map_eq_some_iff.mp hheld
  exact ⟨hfaultless, by decide +kernel, e, he, hheld,
    agrees_play true withdrawn hfaultless he⟩

end SharedRadio.Station
