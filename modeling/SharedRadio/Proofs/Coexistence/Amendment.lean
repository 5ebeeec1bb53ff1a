import SharedRadio.Proofs.Coexistence.Outlook
import SharedRadio.Proofs.Coexistence.Passage

/-!
# A change of direction that fails

Within an access that is held another direction can be asked for. The engine takes the new direction
for the one that is held, and then signals the request. A write that fails ends the signalling, and
nothing is taken back: unlike a request, a change that cannot be signalled is not followed by a
release, and the new direction stays the one that is held. `change_undone_iff` says that a change
that fails leaves the engine as it was only if no access was held, or access in that direction.
-/

namespace SharedRadio.Coexistence.Engine

variable {v w : Stance} {t : List Sighting} {d : Direction}

/-- How a change fails: it is refused, and nothing happens, or it is cut, and the new direction is
taken for the one that is held. -/
theorem Changes.failed {l : RequestLine} {f : Fault} (h : Changes d v (.error (.fault f)) t w)
    (hl : landings t = l.outlook (landings t).length) :
    f = .denied ∧ (v.enabled = true ∧ v.held = none) ∧ drivenLevels t = [] ∧ w = v ∨
      f = .gpio ∧ (v.enabled = true ∧ v.held ≠ none) ∧ l.reach 20 < 20 ∧
        drivenLevels t = (requestLevels v.flags d).take (l.reach 20) ∧
        w = { v with held := some d } := by
  cases h with
  | refuses enabled idle => exact .inl ⟨rfl, ⟨enabled, idle⟩, rfl, rfl⟩
  | signals enabled holds signals =>
    obtain rfl := signals.fault_eq
    obtain ⟨hdriven, ⟨-, hx, -⟩ | ⟨hreach, -⟩⟩ := signals.spells.of_outlook nofun hl
    · cases hx
    · exact .inr ⟨rfl, ⟨enabled, holds⟩, hreach, hdriven, signals.stance_eq⟩

/-- A change within an access that is held is signalled. -/
theorem Changes.signals_of_held {x : Except Halt Unit} (h : Changes d v x t w)
    (henabled : v.enabled = true) (hheld : v.held ≠ none) :
    Signals d { v with held := some d } x t w := by
  cases h with
  | passes disabled => cases henabled.symm.trans disabled
  | refuses enabled idle => exact absurd idle hheld
  | signals enabled holds signals => exact signals

variable {κ : Type} [Clock κ]

theorem change_failed {e : Engine κ} {f : Fault}
    (hf : (e.act (.perform (.change d))).1 = .error (.fault f)) :
    f = .denied ∧ (e.enabled = true ∧ e.held = none) ∧
        drivenLevels (e.act (.perform (.change d))).2.1 = [] ∧
        (e.act (.perform (.change d))).2.2.stance = e.stance ∨
      f = .gpio ∧ (e.enabled = true ∧ e.held ≠ none) ∧ e.rig.request.reach 20 < 20 ∧
        drivenLevels (e.act (.perform (.change d))).2.1 =
          (requestLevels e.flags d).take (e.rig.request.reach 20) ∧
        (e.act (.perform (.change d))).2.2.stance = { e.stance with held := some d } := by
  obtain ⟨y, changes, hy⟩ : Performs (.change d) e.stance _ _ _ :=
    course_act (follows_perform (.change d)) e
  rw [hf] at hy
  cases y with
  | ok => cases hy
  | error g =>
    obtain rfl := Except.error.inj hy
    exact changes.failed (e.heeds_perform (.change d)).1

/-- A change that is signalled makes one pause, between its messages. -/
theorem elapses_change (e : Engine κ) (henabled : e.enabled = true) (hheld : e.held ≠ none) :
    Elapses e.config.bitTicks [e.config.guardMicros] e.rig.clock
      (ending (e.act (.perform (.change d))).1) (timings (e.act (.perform (.change d))).2.1)
      (e.act (.perform (.change d))).2.2.rig.clock := by
  have htakes : TakesAt { e with rig.sightings := [] } [e.config.guardMicros]
      (Action.change d) := by
    unfold Action.change
    refine .get_bind ?_
    rw [if_pos henabled, if_neg hheld]
    exact ((takes_setHeld (some d)).bind fun _ => takes_signalRequest d) _ rfl
  obtain ⟨-, t, ht, helapses⟩ := htakes.bind fun _ => takes_pure (none : Option DenyState)
  obtain rfl : (e.act (.perform (.change d))).2.1 = t := ht
  exact helapses

/-- A change that the request line does not reach to the end of fails, if its waits end. -/
theorem change_eq_gpio_of_lt {e : Engine κ} (henabled : e.enabled = true) (hheld : e.held ≠ none)
    (hlively : Clock.Lively e.config.bitTicks [e.config.guardMicros] e.rig.clock)
    (hcut : e.rig.request.reach 20 < 20) :
    (e.act (.perform (.change d))).1 = .error (.fault .gpio) := by
  have hends := (elapses_change (d := d) e henabled hheld).ne_endless_of_lively hlively
  obtain ⟨y, changes, hy⟩ : Performs (.change d) e.stance _ _ _ :=
    course_act (follows_perform (.change d)) e
  rw [hy] at hends ⊢
  have hy : y ≠ .error .endless := by
    rintro rfl
    exact hends rfl
  obtain ⟨-, ⟨hreach, -⟩ | ⟨-, rfl, -⟩⟩ :=
    (changes.signals_of_held henabled hheld).spells.of_outlook hy (e.heeds_perform (.change d)).1
  · exact absurd hreach hcut.ne
  · rfl

/-- **A change of direction that fails is undone only if there was nothing to change.** It is
refused if no access is held, and then nothing happens. Otherwise it fails exactly if one of its
writes does: the levels before that one have been driven, and the new direction is the one that is
held from then on. Everything else stands as before. -/
theorem change_undone_iff (e : Engine κ) (d : Direction) :
    (∀ f, (e.act (.perform (.change d))).1 = .error (.fault f) →
      (f = .denied ∧ (e.enabled = true ∧ e.held = none) ∧
          drivenLevels (e.act (.perform (.change d))).2.1 = [] ∧
          (e.act (.perform (.change d))).2.2.stance = e.stance ∨
        f = .gpio ∧ (e.enabled = true ∧ e.held ≠ none) ∧ e.rig.request.reach 20 < 20 ∧
          drivenLevels (e.act (.perform (.change d))).2.1 =
            (requestLevels e.flags d).take (e.rig.request.reach 20) ∧
          (e.act (.perform (.change d))).2.2.stance = { e.stance with held := some d }) ∧
      ((e.act (.perform (.change d))).2.2.stance = e.stance ↔ f = .denied ∨ e.held = some d)) ∧
    (Clock.Lively e.config.bitTicks [e.config.guardMicros] e.rig.clock →
      ((e.act (.perform (.change d))).1 = .error (.fault .gpio) ↔
        (e.enabled = true ∧ e.held ≠ none) ∧
          ∃ i < 20, e.rig.request.writes + i ∈ e.rig.request.failing)) := by
  refine ⟨fun f hf => ⟨change_failed hf, ?undone⟩, fun hlively => ⟨fun hf => ?cut, ?fails⟩⟩
  case undone =>
    rcases change_failed hf with ⟨rfl, -, -, hstance⟩ | ⟨rfl, -, -, -, hstance⟩
    · exact iff_of_true hstance (.inl rfl)
    · rw [hstance, or_iff_right (by decide)]
      constructor
      · exact fun h => (congrArg Stance.held h).symm
      · intro hheld
        rw [← hheld]
        rfl
  case cut =>
    rcases change_failed hf with ⟨hgpio, -⟩ | ⟨-, hholds, hcut, -⟩
    · cases hgpio
    · exact ⟨hholds, RequestLine.reach_lt_iff.mp hcut⟩
  case fails =>
    rintro ⟨⟨henabled, hheld⟩, hcut⟩
    exact change_eq_gpio_of_lt henabled hheld hlively (RequestLine.reach_lt_iff.mpr hcut)

/-- An engine that holds access to transmit, and whose next write fails. -/
def stuck : Engine DualClock where
  config := { bitTicks := 1, guardMicros := 1, sampleMicros := 1 }
  enabled := true
  held := some .tx
  rig := { request := { failing := [0] }, txDeny := { armed := true }, clock := { patience := 2 } }

/-- A change to receiving fails before anything is on the line, and yet access to receive is what
the engine holds afterwards. -/
theorem change_undone_iff_stuck :
    (stuck.act (.perform (.change .rx))).1 = .error (.fault .gpio) ∧
      drivenLevels (stuck.act (.perform (.change .rx))).2.1 = [] ∧
      (stuck.act (.perform (.change .rx))).2.2.held = some .rx ∧
      (stuck.act (.perform (.change .rx))).2.2.stance ≠ stuck.stance := by
  have hpaced : ({} : Counter).Paced (fun _ => 1) 1 :=
    ⟨fun _ => rfl, fun _ => Nat.one_pos, fun _ => le_rfl⟩
  have hlively : Clock.Lively stuck.config.bitTicks [stuck.config.guardMicros] stuck.rig.clock :=
    DualClock.lively hpaced hpaced (by decide) (List.forall_mem_singleton.mpr (by decide))
  obtain ⟨hfailed, hgpio⟩ := change_undone_iff stuck .rx
  have hfails := (hgpio hlively).mpr ⟨by decide, 0, by decide, by decide⟩
  obtain ⟨⟨hdenied, -⟩ | ⟨-, -, -, hdriven, hstance⟩, hundone⟩ := hfailed .gpio hfails
  · cases hdenied
  · exact ⟨hfails, hdriven, congrArg Stance.held hstance,
      fun h => absurd (hundone.mp h) (by decide)⟩

end SharedRadio.Coexistence.Engine
