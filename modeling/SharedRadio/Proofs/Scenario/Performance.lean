import SharedRadio.Proofs.Arbiter.Effort
import SharedRadio.Proofs.Scenario.Runs

/-!
# What a performance has left to do

A `Performance` follows a stage together with the run that it shows, and keeps account of the
replies that were used up on the way. It is at the first step of a scenario, or some transitions
after it, or at a step that follows one that is over.

Two things bound what it has left to do. The `burden` of the stage counts the replies and steps in
sight; the operations that wait are counted by their `effort`, in legs. Their sum, the weight of the
performance, becomes less with every transition (`Sound.weight_advance_lt`). An operation that
begins takes more from the burden than it adds to the effort. A sink that answers because it has no
reply left takes nothing from the burden; but then nothing has happened since it was notified, so
that no other protocol can have become the owner, and the effort becomes less.
-/

namespace SharedRadio.Scenario

open Arbiter

/-! ## What a transition leads to -/

namespace Turn

variable {s s' : Stage} {r r' : Run Nat} {used : Bool}

theorem ofLeg_eq_deliver {l : Leg Nat} {n : Notification Nat} {w : Waiting Nat}
    (h : Control.ofLeg l = .deliver n w) : l.progress = .notifies n w := by
  unfold Control.ofLeg at h
  split at h
  · cases h
  · next hl =>
    cases h
    exact hl

/-- A transition is a leg of the arbiter, or nothing is to be delivered after it. -/
theorem leg_or_rest (t : Turn s r s' r' used) :
    (∃ m others, r.Next m others ∧ r' = r.after m others ∧ s'.control = .ofLeg m.leg) ∨
      s'.control.waiting? = none ∧ r' = r := by
  cases t with
  | rests _ after | replies _ after => exact .inr ⟨after, rfl⟩
  | calls c _ after => exact .inl ⟨_, _, .begins c, rfl, after⟩
  | answers b waits _ after | answersAtOnce b waits _ after | closes b waits _ after =>
    exact .inl ⟨_, _, .resumes waits b, Run.step_answer waits b, after⟩

theorem reached (t : Turn s r s' r' used) (h : r.Reached) : r'.Reached := by
  rcases t.leg_or_rest with ⟨m, others, next, rfl, -⟩ | ⟨-, rfl⟩
  · exact h.after next
  · exact h

/-- A notification that is to be delivered has just been sent. -/
theorem sent (t : Turn s r s' r' used) {n : Notification Nat} {w : Waiting Nat}
    (hcontrol : s'.control = .deliver n w) :
    ∃ m, r'.past.getLast? = some m ∧ m.leg.progress = .notifies n w := by
  rcases t.leg_or_rest with ⟨m, others, next, rfl, hleg⟩ | ⟨hrest, -⟩
  · exact ⟨m, List.getLast?_concat, ofLeg_eq_deliver (hleg.symm.trans hcontrol)⟩
  · rw [hcontrol] at hrest
    cases hrest

/-- **A transition leaves less to do.** -/
theorem weight_lt (t : Turn s r s' r' used) (h : r.Reached)
    (fresh : ∀ n w, s.control = .deliver n w → ¬ r.Supplanted w) :
    s'.burden + r'.effort < s.burden + r.effort := by
  cases t with
  | rests _ _ burden | replies _ _ burden => omega
  | calls c _ _ burden =>
    have heffort := h.effort_call_le c
    omega
  | answers b waits before _ burden =>
    -- The burden is the same, so the operation must not begin another round.
    have hless := (h.effort_answer_lt waits b).resolve_right fun hagain =>
      fresh _ _ before hagain.2
    omega
  | answersAtOnce b waits _ _ burden | closes b waits _ _ burden =>
    have hle : (r.step (.answer b)).effort ≤ r.effort :=
      (h.effort_answer_lt waits b).elim Nat.le_of_lt fun hsame => hsame.1.le
    omega

end Turn

/-! ## Performances -/

/-- A stage of a scenario, with what has happened before it as far as the arbiter is concerned. -/
structure Performance where
  /-- The stage. -/
  stage : Stage
  /-- The run of the arbiter that it shows. -/
  run : Run Nat
  /-- For every reply that was used up, the operations that waited then. -/
  used : List (List (Pending Nat)) := []

namespace Performance

/-- A step is begun, when a run has come so far. -/
def begin (w : World) (step : Step) (run : Run Nat) (used : List (List (Pending Nat))) :
    Performance where
  stage := ⟨w, .perform step, []⟩
  run
  used

/-- One transition. -/
def advance (t : Performance) : Performance where
  stage := t.stage.advance
  run := t.stage.move?.elim t.run t.run.step
  used := t.used ++ if t.stage.reply?.isSome then [t.run.pending] else []

/-- Some transitions. -/
def after (t : Performance) (n : Nat) : Performance := advance^[n] t

theorem after_succ (t : Performance) (n : Nat) : t.after (n + 1) = t.advance.after n := rfl

theorem after_succ' (t : Performance) (n : Nat) : t.after (n + 1) = (t.after n).advance :=
  Function.iterate_succ_apply' advance n t

/-- A performance that the steps of a scenario can lead to. -/
inductive Reached (preemption : Bool) : Performance → Prop where
  /-- The first step of a scenario is begun. -/
  | start (step : Step) : Reached preemption
    (begin { station := { arbiter := .idle preemption } } step (.start preemption) [])
  /-- A transition. -/
  | advance {t : Performance} (h : Reached preemption t) : Reached preemption t.advance
  /-- A step is over, and the next one is begun. -/
  | next {t : Performance} (h : Reached preemption t) {result : Result}
    (ended : t.stage.result? = some result) (step : Step) : Reached preemption
    (begin { t.stage.world with happened := [] } step t.run t.used)

theorem Reached.after {preemption : Bool} {t : Performance} (h : Reached preemption t) (n : Nat) :
    Reached preemption (t.after n) :=
  Function.Iterate.rec (Reached preemption) h (fun _ h => h.advance) n

/-- What holds in every performance. -/
structure Sound (t : Performance) : Prop where
  /-- The run is one that moves can lead to. -/
  reached : t.run.Reached
  /-- The stage shows it. -/
  shows : t.stage.Shows t.run
  /-- A notification that is to be delivered has been sent by the last leg of the run. -/
  sent : ∀ n w, t.stage.control = .deliver n w →
    ∃ m, t.run.past.getLast? = some m ∧ m.leg.progress = .notifies n w

variable {t : Performance}

/-- A step is begun when no operation waits. -/
theorem sound_begin {w : World} {r : Run Nat} (h : r.Reached)
    (harbiter : w.station.arbiter = r.arbiter) (hpending : r.pending = []) (step : Step)
    (used : List (List (Pending Nat))) : (begin w step r used).Sound :=
  ⟨h, ⟨harbiter, congrArg (List.map Pending.waiting) hpending⟩,
    fun _ _ hcontrol => nomatch hcontrol⟩

/-- A transition from a performance that is over leads nowhere. -/
theorem advance_eq_self {result : Result} (ended : t.stage.result? = some result) :
    t.advance = t := by
  obtain ⟨⟨w, control, frames⟩, run, used⟩ := t
  unfold Stage.result? at ended
  split at ended
  · next hcontrol hframes =>
    obtain rfl : control = _ := hcontrol
    obtain rfl : frames = [] := hframes
    exact congrArg (Performance.mk _ _) (List.append_nil used)
  · cases ended

theorem Sound.advance (h : t.Sound) : t.advance.Sound := by
  cases hend : t.stage.result? with
  | some result => rwa [advance_eq_self hend]
  | none =>
    obtain ⟨shows, turn⟩ := Stage.goes_advance h.shows hend
    exact ⟨turn.reached h.reached, shows, fun _ _ => turn.sent⟩

theorem Sound.after (h : t.Sound) (n : Nat) : (t.after n).Sound :=
  Function.Iterate.rec Sound h (fun _ h => h.advance) n

theorem Reached.sound {preemption : Bool} (h : Reached preemption t) : t.Sound := by
  induction h with
  | start step => exact sound_begin (.start preemption) rfl rfl step []
  | advance _ ih => exact ih.advance
  | @next t _ result ended step ih =>
    refine sound_begin ih.reached ?_ (ih.shows.of_result? ended) step t.used
    exact ih.shows.arbiter

/-- As long as a notification has not been delivered, no other protocol has become the owner than
the one that is to be displaced. -/
theorem Sound.fresh (h : t.Sound) {n : Notification Nat} {w : Waiting Nat}
    (hcontrol : t.stage.control = .deliver n w) : ¬ t.run.Supplanted w := by
  obtain ⟨m, hlast, hl⟩ := h.sent n w hcontrol
  exact h.reached.not_supplanted hlast hl

/-! ## The weight of a performance -/

/-- The number of transitions that a performance can still have, at most. -/
def weight (t : Performance) : Nat := t.stage.burden + t.run.effort

/-- **Every transition takes something from the weight.** -/
theorem Sound.weight_advance_lt (h : t.Sound) (hgoing : t.stage.result? = none) :
    t.advance.weight < t.weight :=
  (Stage.goes_advance h.shows hgoing).turn.weight_lt h.reached fun _ _ => h.fresh

theorem Sound.weight_after_le (h : t.Sound) (n : Nat) : (t.after n).weight ≤ t.weight := by
  induction n with
  | zero => exact Nat.le_refl _
  | succ n ih =>
    rw [after_succ']
    refine Nat.le_trans ?_ ih
    cases hend : (t.after n).stage.result? with
    | some result => exact (congrArg weight (advance_eq_self hend)).le
    | none => exact ((h.after n).weight_advance_lt hend).le

/-- A performance comes to its end, in no more transitions than its weight. -/
theorem Sound.exists_result (h : t.Sound) :
    ∃ n result, n + (t.after n).weight ≤ t.weight ∧ (t.after n).stage.result? = some result := by
  induction hw : t.weight using Nat.strong_induction_on generalizing t with
  | _ weight ih =>
    subst hw
    cases hend : t.stage.result? with
    | some result => exact ⟨0, result, by simp [Performance.after], hend⟩
    | none =>
      have hlt := h.weight_advance_lt hend
      obtain ⟨n, result, hle, hresult⟩ := ih _ hlt h.advance rfl
      rw [← after_succ] at hle hresult
      exact ⟨n + 1, result, by omega, hresult⟩

end Performance

end SharedRadio.Scenario
