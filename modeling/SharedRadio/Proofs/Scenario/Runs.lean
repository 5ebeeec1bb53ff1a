import SharedRadio.Proofs.Scenario.Turn
import SharedRadio.Scenario.Report

/-!
# Scenarios are runs

As far as the arbiter is concerned, what a scenario is played by goes from one state of a run to
another. So what holds in every run holds in whatever a scenario reports.
-/

namespace SharedRadio.Scenario

open Arbiter Coexistence

namespace Stage

variable {r : Run Nat}

/-- A performance that is over leaves no operation waiting. -/
theorem Shows.of_result? {s : Stage} (h : s.Shows r) {result : Result}
    (hresult : s.result? = some result) : r.pending = [] := by
  unfold result? at hresult
  split at hresult
  · next hcontrol hframes =>
    have hpending := h.pending
    rw [hcontrol, hframes] at hpending
    exact List.map_eq_nil_iff.mp hpending
  · cases hresult

theorem Shows.run {s : Stage} (h : s.Shows r) {n : Nat} {result : Result} {after : World}
    (hrun : s.run n = some (result, after)) :
    ∃ moves : List (Move Nat), after.station.arbiter = (moves.foldl Run.step r).arbiter ∧
      (moves.foldl Run.step r).pending = [] := by
  induction n generalizing s r with
  | zero =>
    obtain ⟨result', hresult, heq⟩ := Option.map_eq_some_iff.mp hrun
    cases heq
    exact ⟨[], h.arbiter, h.of_result? hresult⟩
  | succ n ih =>
    rw [Stage.run] at hrun
    split at hrun
    · next hresult =>
      cases hrun
      exact ⟨[], h.arbiter, h.of_result? hresult⟩
    · next hgoing =>
      obtain ⟨more, hmore⟩ := ih (goes_advance h hgoing).shows hrun
      refine ⟨s.move?.toList ++ more, ?_⟩
      rw [List.foldl_append]
      cases hmove : s.move? <;> simpa [hmove] using hmore

end Stage

/-- The arbiter of a station is that of a run in which no operation is under way. -/
def AtRest (preemption : Bool) (station : Station Nat DualClock) : Prop :=
  ∃ moves : List (Move Nat), station.arbiter = (Run.play preemption moves).arbiter ∧
    (Run.play preemption moves).pending = []

theorem reportAll_atRest {preemption logging : Bool} {transitions : Nat} {w : World}
    (hw : AtRest preemption w.station) {steps : List Step} :
    ∀ report ∈ reportAll logging transitions w steps,
      AtRest preemption report.station := by
  induction steps generalizing w with
  | nil => simp [reportAll]
  | cons step rest ih =>
    have hafter : AtRest preemption (((Stage.mk w (.perform step) []).run transitions).getD
        (.single .endless, w)).2.station := by
      cases hrun : (Stage.mk w (.perform step) []).run transitions with
      | none => exact hw
      | some outcome =>
        obtain ⟨moves, harbiter, hpending⟩ := hw
        obtain ⟨more, hmore⟩ := Stage.Shows.run ⟨harbiter, congrArg (List.map _) hpending⟩ hrun
        exact ⟨moves ++ more, by rwa [Run.play, List.foldl_append]⟩
    intro report hreport
    rcases List.mem_cons.mp hreport with rfl | hreport
    · exact hafter
    · exact ih (by exact hafter) report hreport

/-- **Scenarios are runs.** Whatever station a scenario reports, its arbiter is that of a run, in
which no operation is under way. -/
theorem play_atRest (s : Scenario) :
    ∀ report ∈ s.play, AtRest s.preemption report.station :=
  reportAll_atRest ⟨[], rfl, rfl⟩

end SharedRadio.Scenario
