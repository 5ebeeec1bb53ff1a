import SharedRadio.Proofs.Coexistence.Failure
import SharedRadio.Proofs.Station.Watch

/-!
# What a failed request leaves behind

A request that is denied leaves nothing behind: no access is held, no deny line is watched, and a
release is the last that was said on the request line. `leavesNothing_iff` says that this is so of
no other request that fails, as long as every write of the request line lands.

A request whose deny line cannot be read is abandoned, in whatever state the engine has got into: it
stands on the line, the access that was held before is still held, and the deny line of that access
is no longer watched if the request was made in the other direction.
-/

namespace SharedRadio.Station

open Coexistence

variable {σ κ : Type}

/-! ## Runs in which nobody else touches the interrupts -/

/-- What happens to the rig from outside. -/
def Cue.change? : Cue σ κ → Option (Rig κ → Rig κ)
  | .call (.disturb change) => some change
  | _ => none

/-- What happens to the rig from outside at a moment leaves the interrupts alone. -/
def Moment.Spares (m : Moment σ κ) : Prop :=
  ∀ change ∈ m.cue.change?, ∀ e ∈ m.before.engine, ∀ d,
    ((change e.rig).denyLine d).armed = (e.rig.denyLine d).armed

instance (m : Moment σ κ) : Decidable m.Spares :=
  inferInstanceAs (Decidable (∀ change ∈ m.cue.change?, _))

variable [Clock κ]

/-- A moment leaves no other deny line watched than the monitored one. -/
theorem faces_of_touches {m : Moment σ κ} (hm : m.Spares) (hstays : m.cue.installs = false)
    {e₀ e : Engine κ} (he₀ : m.before.engine = some e₀) (he : m.reaction.station.engine = some e)
    (h : Faces e₀.stance e₀.monitored) : Faces e.stance e.monitored := by
  refine stance_of_stays hstays he₀ he (P := fun v => Faces v v.monitored)
    (fun _ performs => performs.faces h) (·.faces h) (fun change hcue => ⟨rfl, fun d hd => ?_⟩) h
  have hchange : change ∈ m.cue.change? := by
    rw [hcue]
    rfl
  exact (hm change hchange e₀ he₀ d).trans (h.other d hd)

/-- In every run no other deny line is watched than the monitored one. -/
theorem faces_play (preemption : Bool) (moves : List (Move σ κ)) {e : Engine κ}
    (hspares : ∀ m ∈ (Run.play preemption moves).session, m.Spares)
    (he : (Run.play preemption moves).station.engine = some e) : Faces e.stance e.monitored := by
  refine Run.session_induction (P := fun session e => (∀ m ∈ session, m.Spares) →
    Faces e.stance e.monitored) ?begins ?goesOn preemption moves he hspares
  case begins =>
    intro m e hinstalls he _
    obtain ⟨config, rig, -, prepares⟩ := prepares_of_installs hinstalls he
    exact prepares.watchful.1.faces
  case goesOn =>
    intro session m e₀ e ih hstays he₀ he hspares
    have hfaces := ih fun m' hm' => hspares m' (List.mem_append_left _ hm')
    exact faces_of_touches (hspares m (by simp)) hstays he₀ he hfaces

/-! ## What is left behind -/

/-- What an operation came to, if it is over. -/
def Progress.outcome? : Progress σ → Option Outcome
  | .finished outcome => some outcome
  | .notifies .. => none

/-- Nothing is left of a request in the course of which `t` was noticed. -/
structure LeavesNothing (e : Engine κ) (t : List Sighting) : Prop where
  /-- No access is held. -/
  held : e.held = none
  /-- No deny line is watched. -/
  unwatched : ∀ c, (e.rig.denyLine c).armed = false
  /-- The last that was said on the request line is a release. -/
  released : SaidLast Message.release t

/-- A request for access in direction `d` is left standing, and so is the access held before. -/
structure Abandons (d : Direction) (before after : Engine κ) (t : List Sighting) : Prop where
  /-- The deny line could not be read. -/
  unread : .sampled d none ∈ t
  /-- The request is the last that was said on the request line. -/
  pending : SaidLast (Message.request d) t
  held : after.held = before.held
  monitored : after.monitored = d
  /-- No deny line is watched if another one was monitored before. -/
  unwatched : before.monitored ≠ d → ∀ c, (after.rig.denyLine c).armed = false
  /-- Otherwise they are watched as before. -/
  watched : before.monitored = d →
    ∀ c, (after.rig.denyLine c).armed = (before.rig.denyLine c).armed

omit [Clock κ] in
/-- A request that is denied leaves nothing behind. -/
theorem leavesNothing_of_denied {e e' : Engine κ} {d : Direction} {t : List Sighting}
    (hfaces : Faces e.stance e.monitored)
    (hdenied : e'.stance = (((e.stance.count d .request).turn d).count d .timeout).vacate)
    (hlast : SaidLast Message.release t) : LeavesNothing e' t where
  held := congrArg Stance.held hdenied
  unwatched c := by
    have hturned : Faces (((e.stance.count d .request).turn d).count d .timeout) d :=
      ((hfaces.count d .request).turn d).count d .timeout
    calc (e'.rig.denyLine c).armed = e'.stance.armed c := rfl
      _ = false := by rw [hdenied, hturned.armed_vacate c]
  released := hlast

omit [Clock κ] in
/-- A request whose deny line cannot be read is left standing. -/
theorem abandons_of_unread {e e' : Engine κ} {d : Direction} {t : List Sighting}
    (hfaces : Faces e.stance e.monitored)
    (hstands : e'.stance = (e.stance.count d .request).turn d)
    (hunread : .sampled d none ∈ t) (hlast : SaidLast (Message.request d) t) :
    Abandons d e e' t := by
  have hcount : Faces (e.stance.count d .request) e.monitored := hfaces.count d .request
  refine ⟨hunread, hlast, ?held, ?monitored, ?unwatched, ?watched⟩
  case held =>
    calc e'.held = e'.stance.held := rfl
      _ = e.held := by rw [hstands, Stance.turn_held]; rfl
  case monitored =>
    calc e'.monitored = e'.stance.monitored := rfl
      _ = d := by rw [hstands, (hcount.turn d).monitored]
  case unwatched =>
    intro hother c
    calc (e'.rig.denyLine c).armed = e'.stance.armed c := rfl
      _ = false := by rw [hstands, hcount.armed_turn hother c]
  case watched =>
    intro hsame c
    calc (e'.rig.denyLine c).armed = e'.stance.armed c := rfl
      _ = (e.rig.denyLine c).armed := by rw [hstands, Stance.turn_eq_self hsame]; rfl

/-- **A request that fails leaves nothing behind if and only if it was denied**, when every write of
the request line has landed. If its deny line could not be read, it is left standing, and so is the
access that was held before. -/
theorem leavesNothing_iff_denied (preemption : Bool) (moves : List (Move σ κ)) {e : Engine κ}
    (hspares : ∀ m ∈ (Run.play preemption moves).session, m.Spares)
    (he : (Run.play preemption moves).station.engine = some e) {d : Direction} {r : Reaction σ κ}
    (hr : (Run.play preemption moves).station.call (.engine (.request d)) = r)
    (hlands : Lands r.sightings) {f : Fault} (hfails : r.progress.outcome? = some (.failed f)) :
    ∃ e', r.station.engine = some e' ∧ (f = .denied ∨ f = .gpio) ∧
      (LeavesNothing e' r.sightings ↔ f = .denied) ∧
      (f = .gpio → Abandons d e e' r.sightings) := by
  have hfaces : Faces e.stance e.monitored := faces_play preemption moves hspares he
  obtain ⟨x, e', ⟨y, requests, rfl⟩, engine, progress⟩ := performs_operate he (.request d)
  rw [show (Run.play preemption moves).station.operate (.request d) = r from hr]
    at requests engine progress
  rw [progress] at hfails
  obtain rfl : y = .error (.fault f) := outcomeOf_map_eq_failed.mp (Option.some.inj hfails)
  refine ⟨e', engine, ?_⟩
  rcases requests.failed hlands with ⟨rfl, hdenied, hlast⟩ | ⟨rfl, hstands, hunread, hlast⟩
  · have hnothing : LeavesNothing e' r.sightings := leavesNothing_of_denied hfaces hdenied hlast
    exact ⟨.inl rfl, iff_of_true hnothing rfl, nofun⟩
  · have habandons : Abandons d e e' r.sightings :=
      abandons_of_unread hfaces hstands hunread hlast
    refine ⟨.inr rfl, iff_of_false (fun hnothing => ?_) nofun, fun _ => habandons⟩
    -- The last message cannot be a request and a release.
    have hsame : Message.request d = Message.release := habandons.pending.eq hnothing.released
    cases d <;> exact absurd hsame (by decide)

/-- Access to transmit is held, and the next read of the deny line for receiving will fail. -/
def unreadable : List (Move Unit DualClock) :=
  [.call (.install
      { bitTicks := 1, guardMicros := 1, sampleMicros := 1, defaultPriority := .both }
      { clock := { patience := 2 } }),
    .call (.engine (.request .tx)),
    .call (.disturb fun rig => { rig with rxDeny.queued := [none] })]

/-- A request for access to receive is left standing then, and access to transmit is still held
though no deny line is watched. -/
theorem leavesNothing_iff_denied_unreadable :
    ∃ e r e', (Run.play true unreadable).station.engine = some e ∧
      (Run.play true unreadable).station.call (.engine (.request .rx)) = r ∧
      r.progress.outcome? = some (.failed .gpio) ∧ r.station.engine = some e' ∧
      Abandons .rx e e' r.sightings ∧ e'.held = some .tx ∧
      (∀ c, (e'.rig.denyLine c).armed = false) ∧ ¬ LeavesNothing e' r.sightings := by
  have hspares : ∀ m ∈ (Run.play true unreadable).session, m.Spares := by decide +kernel
  have hheld : (Run.play true unreadable).station.engine.map (fun e => (e.held, e.monitored)) =
      some (some .tx, .tx) := by decide +kernel
  obtain ⟨e, he, hheld⟩ := Option.map_eq_some_iff.mp hheld
  obtain ⟨hheld, hmonitored⟩ := Prod.mk.inj hheld
  obtain ⟨r, hr⟩ : ∃ r, (Run.play true unreadable).station.call (.engine (.request .rx)) = r :=
    ⟨_, rfl⟩
  have hlands : Lands r.sightings := by
    rw [← hr]
    decide +kernel
  have hfails : r.progress.outcome? = some (.failed .gpio) := by
    rw [← hr]
    decide +kernel
  obtain ⟨e', he', -, hnothing, hgpio⟩ :=
    leavesNothing_iff_denied true unreadable hspares he hr hlands hfails
  have habandons := hgpio rfl
  refine ⟨e, r, e', he, hr, hfails, he', habandons, habandons.held.trans hheld, ?_, ?_⟩
  · exact habandons.unwatched (by rw [hmonitored]; decide)
  · exact fun h => nomatch hnothing.mp h

end SharedRadio.Station
