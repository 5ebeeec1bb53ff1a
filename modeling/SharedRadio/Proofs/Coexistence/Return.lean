import SharedRadio.Proofs.Coexistence.Outlook
import SharedRadio.Proofs.Coexistence.Passage

/-!
# When a request returns

A request makes two pauses, but a write of the request line that fails ends it, and then the pauses
behind that write are not made. `Engine.duePauses` lists those that are made. If they end, and the
bits before them, then the request returns (`request_ne_endless`), whatever the other pauses are.

A request that returns goes as its lines have it in store (`exists_proceeds`).
-/

namespace SharedRadio.Coexistence

/-! ## Pauses that are not made -/

/-- A pause that is not noticed is not made. -/
theorem Elapses.unpaused {κ : Type} [Clock κ] {bitTicks : UInt32} {pauses : List UInt32}
    {c c' : κ} {x : Ending} (h : Elapses bitTicks pauses c x [] c') :
    Elapses bitTicks [] c x [] c' := by
  generalize ht : ([] : List Sighting) = t at h
  induction h with
  | done => exact .done
  | fails => exact .fails
  | tick rest ih => exact .tick (ih ht)
  | bit waits rest ih => exact .bit waits (ih ht)
  | held waits => exact .held waits
  | pause | paused => cases ht

theorem RequestLine.reach_of_le {l : RequestLine} {m n : Nat} (hmn : m ≤ n) (h : l.reach n = n) :
    l.reach m = m :=
  reach_eq_iff.mpr fun i hi => reach_eq_iff.mp h i (hi.trans_le hmn)

namespace Engine

variable {v w : Stance} {t : List Sighting} {x : Except Halt Unit} {d : Direction}

theorem Sends.timings_eq_nil {byte : UInt8} (h : Sends byte v x t w) : timings t = [] := by
  cases h with
  | ok h | endless h => exact h.timings_eq_nil
  | fault h =>
    rw [timings_append, h.timings_eq_nil]
    rfl

theorem Releases.timings_eq_nil (h : Releases v x t w) : timings t = [] := by
  cases h with
  | passes => rfl
  | signals enabled sends => exact sends.timings_eq_nil

/-- The pause between the messages of a request is not made if the first one is cut. -/
theorem Signals.timings_eq_nil {l : RequestLine} (h : Signals d v x t w)
    (hl : landings t = l.outlook (landings t).length) (hcut : l.reach 10 < 10) :
    timings t = [] := by
  rcases h with ⟨first, rest⟩ | first
  · rw [landings_append] at hl
    obtain ⟨-, ⟨hreach, -⟩ | ⟨-, hx, -⟩⟩ :=
      (Sends.spells first).of_outlook nofun (RequestLine.outlook_of_append hl).1
    · exact absurd hreach hcut.ne
    · cases hx
  · exact Sends.timings_eq_nil first

/-- Neither the lines nor the clock show the turn to a deny line. -/
theorem Solicits.exists_signals (h : Solicits d v x t w) :
    ∃ u, timings t = timings u ∧ landings t = landings u ∧
      SignalsOrReleases d ((v.count d .request).turn d) x u w := by
  cases h with
  | @intro _ _ _ turn u turns signals =>
    obtain ⟨htimed, hlanded⟩ : timings turn = [] ∧ landings turn = [] := by
      rw [turns]
      split <;> exact ⟨rfl, rfl⟩
    exact ⟨u, by rw [timings_append, htimed]; rfl, by rw [landings_append, hlanded]; rfl, signals⟩

theorem Solicits.timings_eq_nil {l : RequestLine} (h : Solicits d v x t w)
    (hl : landings t = l.outlook (landings t).length) (hcut : l.reach 10 < 10) :
    timings t = [] := by
  obtain ⟨u, htimed, hlanded, signals⟩ := h.exists_signals
  rw [hlanded] at hl
  rw [htimed]
  cases signals with
  | signalled signals | endless signals => exact signals.timings_eq_nil hl hcut
  | released signals releases | releasesForever signals releases =>
    rw [landings_append] at hl
    rw [timings_append, releases.timings_eq_nil, List.append_nil]
    exact signals.timings_eq_nil (RequestLine.outlook_of_append hl).1 hcut

/-- A request that is cut fails, unless it does not return. -/
theorem Solicits.eq_error {l : RequestLine} (h : Solicits d v x t w) (henabled : v.enabled = true)
    (hends : x ≠ .error .endless) (hl : landings t = l.outlook (landings t).length)
    (hcut : l.reach 20 < 20) : x = .error (.fault .gpio) := by
  obtain ⟨u, -, hlanded, signals⟩ := h.exists_signals
  rw [hlanded] at hl
  obtain ⟨-, ⟨hreach, -⟩ | ⟨-, hx, -⟩⟩ :=
    signals.of_outlook ((Stance.turn_enabled _ d).trans henabled) hends hl
  · exact absurd hreach hcut.ne
  · exact hx

/-! ## Pauses that are made -/

variable {κ : Type}

/-- A request for access in a direction is signalled, and not granted at once. -/
def IsSignalled (e : Engine κ) (d : Direction) : Prop :=
  e.enabled = true ∧ ¬ (d = .rx ∧ e.flags.rx = false)

/-- The pauses that a request makes, in order: none if its first message is cut, only the one
between its messages if the second one is cut, and otherwise both. -/
def duePauses (e : Engine κ) : List UInt32 :=
  if e.rig.request.reach 10 < 10 then []
  else if e.rig.request.reach 20 < 20 then [e.config.guardMicros]
  else [e.config.guardMicros, e.config.sampleMicros]

theorem duePauses_of_cut {e : Engine κ} (h : e.rig.request.reach 20 < 20) :
    e.duePauses = if e.rig.request.reach 10 < 10 then [] else [e.config.guardMicros] := by
  rw [duePauses, if_pos h]

theorem duePauses_of_lands {e : Engine κ} (h : e.rig.request.reach 20 = 20) :
    e.duePauses = [e.config.guardMicros, e.config.sampleMicros] := by
  rw [duePauses, if_neg (RequestLine.reach_of_le (by decide) h).not_lt, if_neg h.not_lt]

variable [Clock κ] {e : Engine κ}

/-- How time passes until a request has been signalled. -/
theorem elapses_solicit (e : Engine κ) (d : Direction) :
    Elapses e.config.bitTicks [e.config.guardMicros] e.rig.clock
      (ending (e.act (.solicit d)).1) (timings (e.act (.solicit d)).2.1)
      (e.act (.solicit d)).2.2.rig.clock := by
  obtain ⟨-, t, ht, helapses⟩ := takes_solicit d { e with rig.sightings := [] } rfl
  obtain rfl : (e.act (.solicit d)).2.1 = t := ht
  exact helapses

/-- A request that cannot be signalled comes to what its signalling comes to. -/
theorem act_request_of_solicit {h : Halt} (hsignalled : e.IsSignalled d)
    (herror : (e.act (.solicit d)).1 = .error h) :
    (e.act (.perform (.request d))).1 = .error h := by
  have hrun : (Action.solicit d).run { e with rig.sightings := [] } =
      (.error h, ((Action.solicit d).run { e with rig.sightings := [] }).2) :=
    Prod.ext herror rfl
  unfold act Action.perform
  rw [run_bind, run_request_eq { e with rig.sightings := [] } hsignalled.1 hsignalled.2, run_bind,
    hrun]
  rfl

/-- **A request returns if the pauses that are due end**, and the bits before them. -/
theorem request_ne_endless (hsignalled : e.IsSignalled d)
    (hlively : Clock.Lively e.config.bitTicks e.duePauses e.rig.clock) :
    (e.act (.perform (.request d))).1 ≠ .error .endless := by
  rcases (e.rig.request.reach_le 20).lt_or_eq with hcut | hlands
  · rw [duePauses_of_cut hcut] at hlively
    have solicits : Solicits d _ _ _ _ := course_act (follows_solicit d) e
    have hl := (e.heeds_act (keeps_solicit (Rig.upheld_heeds e.rig) d)).1
    have helapses := elapses_solicit e d
    have hends : (e.act (.solicit d)).1 ≠ .error .endless := by
      intro hendless
      rw [hendless] at helapses
      by_cases hfirst : e.rig.request.reach 10 < 10
      · rw [if_pos hfirst] at hlively
        rw [solicits.timings_eq_nil hl hfirst] at helapses
        exact helapses.unpaused.ne_endless_of_lively hlively rfl
      · rw [if_neg hfirst] at hlively
        exact helapses.ne_endless_of_lively hlively rfl
    rw [act_request_of_solicit hsignalled (solicits.eq_error hsignalled.1 hends hl hcut)]
    exact nofun
  · rw [duePauses_of_lands hlands] at hlively
    intro hendless
    refine (elapses_request e hsignalled.1 hsignalled.2).ne_endless_of_lively hlively ?_
    rw [hendless]
    rfl

/-- A request that returns goes as its lines have it in store. -/
theorem exists_proceeds (hsignalled : e.IsSignalled d)
    (hends : (e.act (.perform (.request d))).1 ≠ .error .endless) :
    ∃ x, (e.act (.perform (.request d))).1 = x.map (fun _ => none) ∧
      Proceeds e.rig.request d e.stance x (e.act (.perform (.request d))).2.1
        (e.act (.perform (.request d))).2.2.stance := by
  obtain ⟨x, requests, hx⟩ : Performs (.request d) _ _ _ _ :=
    course_act (follows_perform (.request d)) e
  refine ⟨x, hx, requests.proceeds hsignalled.1 hsignalled.2 ?_ (e.heeds_perform (.request d)).1⟩
  rintro rfl
  exact hends hx

end Engine

end SharedRadio.Coexistence
