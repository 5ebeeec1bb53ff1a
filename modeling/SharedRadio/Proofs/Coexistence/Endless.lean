import SharedRadio.Proofs.Clock.Range
import SharedRadio.Proofs.Coexistence.Outlook
import SharedRadio.Proofs.Coexistence.Window

/-!
# Requests that do not end

A configuration is accepted whatever its pauses are, but a clock of processor cycles cannot wait for
more than `CycleClock.longest` microseconds. `request_endless_iff` says that a request does not end
on such a clock exactly if one of its pauses is longer than that, and `accepted_le_longest_iff` that
all accepted pauses can be waited for only on a core below two megahertz.
-/

namespace SharedRadio.Coexistence

open CycleClock (longest cyclesPerMicroOf)

namespace Elapses

variable {bitTicks cyclesPerMicro : UInt32} {pauses : List UInt32} {c c' : CycleClock} {x : Ending}
  {t : List Sighting}

/-- Pauses that the clock can wait for end, and so does every bit. -/
theorem ne_endless (h : Elapses bitTicks pauses c x t c') (hsteady : c.Steady cyclesPerMicro)
    (hpos : cyclesPerMicro ≠ 0)
    (hpauses : ∀ micros ∈ pauses, micros.toNat ≤ longest cyclesPerMicro) : x ≠ .endless :=
  h.ne_endless_of_lively (hsteady.lively hpos bitTicks hpauses)

/-- A pause that ends is one that the clock can wait for. -/
theorem le_longest_of_waited {micros : UInt32} {p : Pause}
    (h : Elapses bitTicks (micros :: pauses) c x (p.sightings ++ t) c') :
    micros.toNat ≤ longest c.cyclesPerMicro ∧
      ∃ c₁, c₁.cyclesPerMicro = c.cyclesPerMicro ∧ Elapses bitTicks pauses c₁ x t c' := by
  obtain ⟨b, c₁, hkept, -, -, hwaits, hrest⟩ :=
    h.exists_of_waited (I := fun b => b.cyclesPerMicro = c.cyclesPerMicro) (fun _ hb => hb) rfl
  have hstamped : (Clock.timestamp b).2.cyclesPerMicro = c.cyclesPerMicro := hkept
  constructor
  · by_contra hlong
    rw [Nat.not_le, ← hstamped] at hlong
    have hnone := CycleClock.poll_elapsed_eq_none hlong (Clock.timestamp b).1 UInt32.size 0
    cases hnone.symm.trans (congrArg Prod.fst hwaits)
  · refine ⟨c₁, ?_, hrest⟩
    exact Clock.awaitMicros_keeps (I := fun b => b.cyclesPerMicro = c.cyclesPerMicro)
      (fun _ hb => hb) hwaits hstamped

end Elapses

/-- **All accepted pauses can be waited for on a core below two megahertz only**, where a cycle
counts as a microsecond. A configuration is accepted whatever its pauses are. -/
theorem accepted_le_longest_iff (coreHz : UInt32) :
    (∀ config : Config, config.validate = .ok () →
      config.guardMicros.toNat ≤ longest (cyclesPerMicroOf coreHz) ∧
        config.sampleMicros.toNat ≤ longest (cyclesPerMicroOf coreHz)) ↔ coreHz < 2000000 := by
  rw [← CycleClock.cyclesPerMicroOf_eq_one_iff]
  constructor
  · intro hall
    by_contra hone
    have hle := (hall { guardMicros := 0xFFFFFFFF } rfl).1
    exact absurd hle (Nat.not_le.mpr (CycleClock.longest_lt hone))
  · intro hone config _
    rw [hone, CycleClock.longest_one]
    exact ⟨Nat.le_pred_of_lt config.guardMicros.toNat_lt,
      Nat.le_pred_of_lt config.sampleMicros.toNat_lt⟩

namespace Engine

theorem ending_eq_endless_iff {α : Type} {x : Except Halt α} :
    ending x = .endless ↔ x = .error .endless := by
  rcases x with (f | _) | a <;> simp [ending]

/-- **A request does not end on a clock of processor cycles exactly if one of its pauses is longer
than the clock can wait**, unless a write fails before. The counter goes on by one cycle with every
read, and may stand anywhere. -/
theorem request_endless_iff (coreHz : UInt32) (e : Engine CycleClock) (d : Direction)
    (hsteady : e.rig.clock.Steady (cyclesPerMicroOf coreHz)) (henabled : e.enabled = true)
    (hmatters : ¬ (d = .rx ∧ e.flags.rx = false)) :
    ((e.act (.perform (.request d))).1 = .error .endless →
      longest (cyclesPerMicroOf coreHz) < e.config.guardMicros.toNat ∨
        longest (cyclesPerMicroOf coreHz) < e.config.sampleMicros.toNat) ∧
    (Lands (e.act (.perform (.request d))).2.1 →
      longest (cyclesPerMicroOf coreHz) < e.config.guardMicros.toNat ∨
        longest (cyclesPerMicroOf coreHz) < e.config.sampleMicros.toNat →
      (e.act (.perform (.request d))).1 = .error .endless) := by
  have helapses := elapses_request e henabled hmatters
  constructor
  · intro hendless
    by_contra hshort
    rw [not_or, Nat.not_lt, Nat.not_lt] at hshort
    refine helapses.ne_endless hsteady (CycleClock.cyclesPerMicroOf_ne_zero coreHz) ?_
      (ending_eq_endless_iff.mpr hendless)
    exact List.forall_mem_cons.mpr ⟨hshort.1, List.forall_mem_singleton.mpr hshort.2⟩
  · intro hlands hlong
    by_contra hends
    obtain ⟨x, requests, hx⟩ : Performs (.request d) _ _ _ _ :=
      course_act (follows_perform (.request d)) e
    obtain ⟨y, hsightings, hregular⟩ := requests.exists_exchange henabled hmatters hlands
      (ne_endless_of_map hx hends)
    rw [hsightings, hregular.timings_eq] at helapses
    obtain ⟨hguard, c₁, hkept, hrest⟩ := helapses.le_longest_of_waited
    rw [← List.append_nil y.window.sightings] at hrest
    obtain ⟨hsample, -⟩ := hrest.le_longest_of_waited
    rw [hkept] at hsample
    rw [hsteady.cyclesPerMicro_eq] at hguard hsample
    omega

/-- An engine on a core of 64 megahertz whose sample window is as long as the clock cannot wait. -/
def unending : Engine CycleClock where
  config := { sampleMicros := 67108864 }
  enabled := true
  rig := { clock := .ofCoreHz 64000000 }

/-- Its configuration is accepted, and a request for access to transmit does not end. -/
theorem request_endless_iff_unending :
    unending.config.validate = .ok () ∧
      (unending.act (.perform (.request .tx))).1 = .error .endless := by
  have hlong : longest (cyclesPerMicroOf 64000000) < (67108864 : UInt32).toNat := by decide +kernel
  obtain ⟨-, hendless⟩ :=
    request_endless_iff 64000000 unending .tx ⟨fun _ => rfl, rfl⟩ rfl (by decide)
  exact ⟨rfl, hendless (lands_request unending .tx rfl) (.inr hlong)⟩

end Engine

end SharedRadio.Coexistence
